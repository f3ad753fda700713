import Mathlib.Data.List.Induction
import TestEngine.Proofs.Process.Course
import TestEngine.Proofs.Run.Stopping

/-!
# Answers

Whoever was told to stop is told so ever after, on either kind of bus. What a run does follows from
its answers: two runs that are answered alike are the same.

* `SerialRun.exists_course` — a run goes through a course of its process, and no answer is taken
  back.
* `exists_latches` — a run that is to stop was stopped by some message.
-/

namespace TestEngine

open Delivery

variable {σ ω α : Type} {c : Transport σ} {s : σ}

/-! ## No answer is taken back -/

/-- If the first of two messages was answered with stop, so was the second. -/
def Occurrence.StaysTold (o o' : Occurrence) : Prop :=
  ∀ m m' goesOn, o = .queued m false → o' = .queued m' goesOn → goesOn = false

/-- What was said of the wish to stop is true and stays so. -/
structure Shared.Told (sh : Shared σ ω) : Prop where
  stopped : ∀ m, .queued m false ∈ sh.history → sh.bus.delivery.stopped = true
  stays : sh.history.Pairwise Occurrence.StaysTold

namespace Shared.Told

variable {sh sh' : Shared σ ω}

theorem start (sink : σ) (world : ω) : (Shared.start sink world).Told where
  stopped := fun _ h => absurd h List.not_mem_nil
  stays := .nil

/-- Nothing is queued, and the wish to stop stays. -/
theorem record (h : sh.Told) {os : List Occurrence} (hhistory : sh'.history = sh.history ++ os)
    (hos : ∀ m goesOn, .queued m goesOn ∉ os)
    (hstopped : sh.bus.delivery.stopped = true → sh'.bus.delivery.stopped = true) : sh'.Told where
  stopped := by
    intro m hm
    rw [hhistory, List.mem_append] at hm
    exact hstopped (h.stopped m (hm.resolve_right (hos m false)))
  stays := by
    rw [hhistory, List.pairwise_append]
    refine ⟨h.stays, ?_, ?_⟩
    · exact List.pairwise_of_forall_mem_list fun o ho _ _ m _ _ he _ =>
        absurd (he ▸ ho) (hos m false)
    · exact fun _ _ o ho _ m goesOn _ he => absurd (he ▸ ho) (hos m goesOn)

theorem dispatch (h : sh.Told) : (sh.dispatch c).Told := by
  unfold Shared.dispatch
  split
  · exact h
  · next m rest hch =>
    refine h.record rfl ?_ ?_
    · intro m goesOn hm
      obtain ⟨call, -, he⟩ := List.mem_map.mp hm
      cases he
    · intro hstopped
      simpa only [Shared.record, AsynchronousBus.dispatch, hch] using stopped_deliver hstopped

theorem answer (h : sh.Told) (m : Message) : (sh.answer m).Told where
  stopped := by
    intro m' hm'
    rcases List.mem_append.mp hm' with hold | hnew
    · exact h.stopped m' hold
    · have hgoes : false = sh.bus.goesOn := by
        injection List.mem_singleton.mp hnew
      rw [AsynchronousBus.goesOn, eq_comm, Bool.not_eq_false'] at hgoes
      exact hgoes
  stays := by
    refine List.pairwise_append.mpr ⟨h.stays, List.pairwise_singleton _ _, ?_⟩
    intro o ho o' ho' m₁ m₂ goesOn hfirst hsecond
    rw [hfirst] at ho
    rw [List.mem_singleton.mp ho'] at hsecond
    cases hsecond
    rw [AsynchronousBus.goesOn, h.stopped m₁ ho]
    rfl

end Shared.Told

/-- One step of a thread. -/
theorem Thread.told_step {t t' : Thread ω α} {sh sh' : Shared σ ω} (h : sh.Told)
    (hs : t.step? c sh = some (t', sh')) : sh'.Told := by
  have same : ∀ {sh' : Shared σ ω}, sh'.history = sh.history →
      (sh.bus.delivery.stopped = true → sh'.bus.delivery.stopped = true) → sh'.Told :=
    fun hh hstopped => h.record (by rw [hh, List.append_nil]) (fun _ _ => List.not_mem_nil)
      hstopped
  cases Thread.proceeds_of_step? hs with
  | deliver _ =>
    have hpush : ∀ m, ({ sh with bus := sh.bus.push m } : Shared σ ω).Told := fun _ => same rfl id
    exact (hpush _).dispatch.answer _
  | note _ => exact same rfl stopped_noteFailure
  | cancel | ask | world | send => exact same rfl id
  | journal => exact h.record rfl (fun m goesOn hm => by cases List.mem_singleton.mp hm) id
  | answer _ => exact h.answer _

/-! ## The course of a run -/

namespace SoloRun

/-- The thread has gone through the course `as` of the process `p`, as the history shows it. -/
structure Acts (p : Process ω α) (world : ω) (as : List Action) (r : SoloRun σ ω α) : Prop where
  course : p.Course world as r.thread.rest r.shared.world
  own_eq : r.shared.history.filter (·.isOwn) = visible as
  cancelled_eq : r.shared.cancelled = cancelledAfter false as
  truthful : Truthful false as

variable {p q q' : Process ω α} {world : ω} {as bs : List Action} {r : SoloRun σ ω α}
  {sh sh' : Shared σ ω} {t : Thread ω α}

theorem acts_start (p : Process ω α) (s : σ) (world : ω) : Acts p world [] (start p s world) :=
  ⟨.refl p world, rfl, rfl, trivial⟩

/-- The thread makes a step of its process. -/
theorem Acts.step_process (h : Acts p world as r)
    (hq : r.thread.rest.Course r.shared.world bs t.rest sh'.world)
    (hown : sh'.history.filter (·.isOwn) = r.shared.history.filter (·.isOwn) ++ visible bs)
    (hcancelled : sh'.cancelled = cancelledAfter r.shared.cancelled bs)
    (htruthful : Truthful r.shared.cancelled bs) : Acts p world (as ++ bs) ⟨t, sh'⟩ where
  course := h.course.append hq
  own_eq := by
    rw [visible_append, ← h.own_eq]
    exact hown
  cancelled_eq := by
    rw [cancelledAfter_append, ← h.cancelled_eq]
    exact hcancelled
  truthful := by
    rw [truthful_append, ← h.cancelled_eq]
    exact ⟨h.truthful, htruthful⟩

/-- A message is answered. -/
theorem Acts.step_answer {m : Message} {next : Bool → Process ω α} (h : Acts p world as r)
    (hrest : r.thread.rest = .queue m next) (hworld : sh.world = r.shared.world)
    (hown : sh.history.filter (·.isOwn) = r.shared.history.filter (·.isOwn))
    (hcancelled : sh.cancelled = r.shared.cancelled) :
    Acts p world (as ++ [.queued m sh.bus.goesOn])
      ⟨.ready (next sh.bus.goesOn), sh.answer m⟩ := by
  refine h.step_process ?_ ?_ hcancelled trivial
  · rw [hrest, ← hworld]
    exact .queue (.refl _ _)
  · rw [Shared.answer, Shared.own_record, hown]
    rfl

theorem Acts.step (h : Acts p world as r) (hs : r.thread.step? c r.shared = some (t, sh)) :
    ∃ bs, Acts p world (as ++ bs) ⟨t, sh⟩ := by
  obtain ⟨thread, shared⟩ := r
  have same : ∀ {t' : Thread ω α} {sh' : Shared σ ω}, Acts p world as ⟨t', sh'⟩ →
      Acts p world (as ++ []) ⟨t', sh'⟩ := fun h' => (List.append_nil as).symm ▸ h'
  cases Thread.proceeds_of_step? hs with
  | deliver _ =>
    refine ⟨_, h.step_answer rfl ?_ Shared.own_dispatch Shared.cancelled_dispatch⟩
    unfold Shared.dispatch
    split <;> rfl
  | note _ | send => exact ⟨[], same ⟨h.course, h.own_eq, h.cancelled_eq, h.truthful⟩⟩
  | cancel =>
    exact ⟨[.cancelled], h.step_process (.cancel (.refl _ _)) (List.append_nil _).symm rfl
      trivial⟩
  | ask =>
    exact ⟨[.asked shared.cancelled], h.step_process (.askCancelled (.refl _ _))
      (List.append_nil _).symm rfl ⟨rfl, trivial⟩⟩
  | world => exact ⟨[], h.step_process (.world (.refl _ _)) (List.append_nil _).symm rfl trivial⟩
  | @journal entry _ _ =>
    refine ⟨[.activity entry], h.step_process (.journal (.refl _ _)) ?_ rfl trivial⟩
    rw [Shared.own_record]
    rfl
  | answer _ => exact ⟨_, h.step_answer rfl rfl rfl rfl⟩

theorem Acts.turn (h : Acts p world as r) (x : SoloTurn) :
    ∃ bs, Acts p world (as ++ bs) (r.turn c x) := by
  cases x with
  | dispatcher =>
    refine ⟨[], ?_⟩
    rw [List.append_nil]
    refine ⟨?_, Shared.own_dispatch.trans h.own_eq, Shared.cancelled_dispatch.trans h.cancelled_eq,
      h.truthful⟩
    have hworld : (r.shared.dispatch c).world = r.shared.world := by
      unfold Shared.dispatch
      split <;> rfl
    show p.Course world as r.thread.rest (r.shared.dispatch c).world
    rw [hworld]
    exact h.course
  | thread =>
    unfold SoloRun.turn
    cases hs : r.thread.step? c r.shared with
    | none => exact ⟨[], by rw [List.append_nil]; exact h⟩
    | some next => exact h.step hs

theorem told_turn (h : r.shared.Told) (x : SoloTurn) : (r.turn c x).shared.Told := by
  cases x with
  | dispatcher => exact h.dispatch
  | thread =>
    unfold SoloRun.turn
    cases hs : r.thread.step? c r.shared with
    | none => exact h
    | some next => exact Thread.told_step h hs

/-- The thread of a run follows a course of its process, and no answer is taken back. -/
theorem Acts.after (h : Acts p world as r) (htold : r.shared.Told) (turns : List SoloTurn) :
    (∃ bs, Acts p world (as ++ bs) (r.after c turns)) ∧ (r.after c turns).shared.Told := by
  induction turns generalizing as r with
  | nil => exact ⟨⟨[], by rw [List.append_nil]; exact h⟩, htold⟩
  | cons x turns ih =>
    obtain ⟨bs, hb⟩ := h.turn (c := c) x
    obtain ⟨⟨ds, hd⟩, htold'⟩ := ih hb (told_turn htold x)
    exact ⟨⟨bs ++ ds, by rw [← List.append_assoc]; exact hd⟩, htold'⟩

end SoloRun

namespace SerialRun

variable {r : AssemblyRun ω} (e : SerialRun r c)

/-- **A run goes through a course of its process.** -/
theorem exists_course : ∃ as, r.inTurn.Course e.world as (.done e.counts) e.final.world ∧
    visible as = e.record ∧ Truthful false as := by
  obtain ⟨⟨as, h⟩, -⟩ := (SoloRun.acts_start r.inTurn e.sink e.world).after (c := c)
    (.start e.sink e.world) e.turns
  have hover := e.isOver
  unfold SoloRun.value? at hover
  split at hover
  · have hready : ((SoloRun.start r.inTurn e.sink e.world).after c e.turns).thread =
        .ready (.done e.counts) := by
      unfold Thread.value? at hover
      split at hover
      · next ht =>
        cases hover
        exact ht
      · cases hover
    have hcourse := h.course
    rw [hready] at hcourse
    exact ⟨as, hcourse, h.own_eq.symm, h.truthful⟩
  · cases hover

/-- No answer is taken back. -/
theorem staysTold : e.record.Pairwise Occurrence.StaysTold :=
  ((SoloRun.acts_start r.inTurn e.sink e.world).after (c := c)
    (.start e.sink e.world) e.turns).2.stays.filter _

end SerialRun

/-! ## What stops a run -/

/-- A run that is to stop was stopped by some message. -/
theorem exists_latches {ms : List Message} (h : stoppedBy c s ms = true) :
    ∃ before m after, ms = before ++ m :: after ∧ Latches c s before m := by
  -- on the messages, the last one first: it stops the run if those before it do not
  induction ms using List.reverseRecOn with
  | nil => cases h
  | append_singleton ms m ih =>
    cases hms : stoppedBy c s ms with
    | true =>
      obtain ⟨before, m', after, rfl, hm'⟩ := ih hms
      exact ⟨before, m', after ++ [m], by simp, hm'⟩
    | false =>
      refine ⟨ms, m, [], rfl, hms, ?_⟩
      unfold stoppedBy at h hms
      rw [deliverAll_append] at h
      change (Delivery.deliver c.sink c.stopOnFail m _).1.stopped = true at h
      rw [stopped_deliver_eq, hms, Bool.false_or] at h
      exact h

/-- A message is answered with stop only if the messages up to it stop the run. -/
theorem AnswerFits.stoppedBy_of_eq_false {before : List Message} {m : Message}
    (h : AnswerFits c s before m false) : stoppedBy c s (before ++ [m]) = true := by
  obtain ⟨handled, -, heq⟩ := h
  rw [eq_comm, Bool.not_eq_false', Bool.or_eq_true] at heq
  rcases heq with hhandled | hfailed
  · rw [← List.take_append_drop handled (before ++ [m])]
    exact stoppedBy_append hhandled _
  · rw [Bool.and_eq_true, List.any_eq_true] at hfailed
    obtain ⟨hstop, failure, hmem, hfailure⟩ := hfailed
    refine stoppedBy_of_failure hstop ?_ hfailure
    unfold Transport.noted at hmem
    split at hmem
    · cases hmem
    · exact hmem

/-- A run that is never to stop answers no message with stop. -/
theorem SerialRun.goesOn_of_never {r : AssemblyRun ω} (e : SerialRun r c)
    (h : stoppedBy c e.sink e.queued = false) {m : Message} {b : Bool}
    (hm : .queued m b ∈ e.record) : b = true := by
  obtain ⟨x, y, hxy⟩ := List.append_of_mem hm
  cases b with
  | true => rfl
  | false =>
    have hqueued : e.queued = (messages x ++ [m]) ++ messages y := by
      rw [queued, hxy, messages_append, List.append_assoc]
      rfl
    have hstopped := stoppedBy_append (e.answerFits hxy).stoppedBy_of_eq_false (messages y)
    rw [← hqueued, h] at hstopped
    cases hstopped

end TestEngine
