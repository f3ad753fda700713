import TestEngine.Proofs.Run.BusKinds
import TestEngine.Proofs.Run.TwinRuns

/-!
# Runs whose sink never asks to stop

If a sink never asks to stop, then nothing but a failed test stops a run, and that only if the run
stops at failures. The answers of such a run do not depend on what the sink does, on the kind of the
bus, or on the dispatcher. So what one can see of the run is what one can see of its process on a
bus whose sink does nothing at all.

* `SerialRun.runOn_calm` — a run is one on such a bus.
* `SerialRun.observe_eq` — two runs that are alike look the same.
-/

namespace TestEngine

variable {σ τ ω ν α : Type} {c : Transport σ}

/-- The sink never asks to stop; it may panic. -/
def Transport.NeverAsks (c : Transport σ) : Prop := ∀ s m, (c.sink s m).2 ≠ .stop

namespace Transport.NeverAsks

/-- What stops a run is a failed test. -/
theorem of_latches (h : c.NeverAsks) {m : Message} {s : σ}
    (hm : Delivery.latches c.sink c.stopOnFail m s = true) :
    c.stopOnFail = true ∧ m.event.isTestFailure = true := by
  rcases (Delivery.latches_iff m s).mp hm with hstop | ⟨_, -, hstop⟩ | hfailed
  · exact absurd hstop (h _ _)
  · exact absurd hstop (h _ _)
  · exact hfailed

theorem stoppedBy_eq (h : c.NeverAsks) (s : σ) (ms : List Message) :
    stoppedBy c s ms = (c.stopOnFail && ms.any (·.event.isTestFailure)) := by
  rw [Bool.eq_iff_iff, Bool.and_eq_true, List.any_eq_true]
  constructor
  · intro hstopped
    obtain ⟨before, m, after, rfl, -, hm⟩ := exists_latches hstopped
    obtain ⟨hstop, hfailed⟩ := h.of_latches hm
    exact ⟨hstop, m, List.mem_append_right _ List.mem_cons_self, hfailed⟩
  · rintro ⟨hstop, m, hm, hfailed⟩
    exact stoppedBy_of_failure hstop hm hfailed

end Transport.NeverAsks

/-! ## From a course to a run on a calm bus -/

/-- Each answer tells whether a failed test has stopped the run. -/
def Prompt (stopOnFail : Bool) : Bool → List Action → Prop
  | _, [] => True
  | stopped, .queued m goesOn :: as =>
    goesOn = !(stopped || stopOnFail && m.event.isTestFailure) ∧
      Prompt stopOnFail (stopped || stopOnFail && m.event.isTestFailure) as
  | stopped, .cancelled :: as => Prompt stopOnFail stopped as
  | stopped, .asked _ :: as => Prompt stopOnFail stopped as
  | stopped, .activity _ :: as => Prompt stopOnFail stopped as

/-- The answers are prompt if each tells of all failures before it. -/
theorem prompt_of_forall {stopOnFail : Bool} {as : List Action} {stopped : Bool}
    (h : ∀ x m b y, as = x ++ .queued m b :: y → b = !(stopped || stopOnFail &&
      (messages (visible x) ++ [m]).any (·.event.isTestFailure))) :
    Prompt stopOnFail stopped as := by
  induction as generalizing stopped with
  | nil => trivial
  | cons a as ih =>
    cases a with
    | queued m goesOn =>
      -- the first answer is told by the message itself; later ones have it among those before them
      have hfirst := h [] m goesOn as rfl
      refine ⟨by simpa [visible, messages] using hfirst, ih fun x m' b y hx => ?_⟩
      have hlater := h (.queued m goesOn :: x) m' b y (congrArg (List.cons _) hx)
      have hmessages : messages (visible (.queued m goesOn :: x)) = m :: messages (visible x) := rfl
      rw [hlater, hmessages, List.cons_append, List.any_cons, Bool.and_or_distrib_left,
        Bool.or_assoc]
    | cancelled | asked _ | activity _ =>
      exact ih fun x m b y hx => h (_ :: x) m b y (congrArg (List.cons _) hx)

/-- **Prompt answers are those of a calm bus.** -/
theorem Process.Course.runOn_calm {stopOnFail : Bool} {p : Process ω α} {w w' : ω}
    {as : List Action} {a : α} (h : p.Course w as (done a) w') (st : RunState Unit ω)
    (hworld : st.world = w) (htruthful : Truthful st.cancelled as)
    (hprompt : Prompt stopOnFail st.delivery.stopped as) :
    (p.runOn .calm stopOnFail st).1.queued = st.queued ++ messages (visible as) ∧
      (p.runOn .calm stopOnFail st).2 = a := by
  induction p generalizing w as st with
  | done b =>
    cases h
    exact ⟨(List.append_nil _).symm, rfl⟩
  | queue m next ih =>
    cases h with
    | @queue _ _ b _ _ as _ h =>
      -- the bus gives the answer of the course, and stops where the course says that it does
      obtain ⟨rfl, hrest⟩ := hprompt
      rw [← RunState.goesOn_queue_calm] at h
      rw [← RunState.stopped_queue_calm] at hrest
      obtain ⟨hqueued, hvalue⟩ := ih _ h (st.queue .calm stopOnFail m).1 hworld htruthful
        hrest
      refine ⟨hqueued.trans ?_, hvalue⟩
      rw [RunState.queued_queue_calm, List.append_assoc]
      rfl
  | cancel next ih =>
    cases h with
    | cancel h => exact ih h { st with cancelled := true } hworld htruthful hprompt
  | askCancelled next ih =>
    cases h with
    | askCancelled h =>
      obtain ⟨rfl, hrest⟩ := htruthful
      exact ih _ h st hworld hrest hprompt
  | world change next ih =>
    cases h with
    | world h =>
      subst hworld
      exact ih _ h { st with world := change st.world } rfl htruthful hprompt
  | journal entry next ih =>
    cases h with
    | journal h =>
      obtain ⟨hqueued, hvalue⟩ := ih h (st.record [.activity entry]) hworld htruthful hprompt
      refine ⟨hqueued.trans ?_, hvalue⟩
      have hrecord : (st.record [.activity entry]).queued = st.queued :=
        List.filterMap_append.trans (List.append_nil _)
      rw [hrecord]
      rfl

/-! ## Runs -/

/-- The beginning of a run on a calm bus. -/
def RunState.calm (world : ω) : RunState Unit ω := { delivery := { sink := () }, world }

namespace SerialRun

variable {r : AssemblyRun ω} (e : SerialRun r c)

/-- **A run whose sink never asks to stop is one on a calm bus.** -/
theorem runOn_calm (h : c.NeverAsks) :
    (r.inTurn.runOn .calm c.stopOnFail (.calm e.world)).1.queued = e.queued ∧
      (r.inTurn.runOn .calm c.stopOnFail (.calm e.world)).2 = e.counts := by
  obtain ⟨as, hcourse, hvisible, htruthful⟩ := e.exists_course
  -- the record tells all about the answers, so the course has those of the record
  have hprompt : Prompt c.stopOnFail false as := by
    refine prompt_of_forall fun x m b y hx => ?_
    have hrecord : e.record = visible x ++ .queued m b :: visible y := by
      rw [← hvisible, hx, visible_append]
      rfl
    rw [e.goesOn_eq hrecord fun _ _ _ _ _ hm => .inr (h.of_latches hm.2), h.stoppedBy_eq,
      Bool.false_or]
  rw [queued, ← hvisible]
  exact hcourse.runOn_calm (.calm e.world) rfl htruthful hprompt

/-- **Two runs that are alike look the same** if their sinks never ask to stop. The buses may be
of different kinds, and the sinks may do different things. -/
theorem observe_eq {L : Likeness ω ν} {r' : AssemblyRun ω} {c' : Transport τ} (h : r.Alike L r')
    (e' : SerialRun r' c') (hcalm : c.NeverAsks) (hcalm' : c'.NeverAsks)
    (hstop : c.stopOnFail = L.stopOnFail) (hstop' : c'.stopOnFail = L.stopOnFail)
    (hworld : L.view e.world = L.view e'.world) :
    e.queued.filterMap L.shows = e'.queued.filterMap L.shows ∧
      (L.varies r.ids ∨ e.counts = e'.counts) := by
  obtain ⟨hqueued, hcounts⟩ := e.runOn_calm hcalm
  obtain ⟨hqueued', hcounts'⟩ := e'.runOn_calm hcalm'
  rw [hstop] at hqueued hcounts
  rw [hstop'] at hqueued' hcounts'
  have hstart : L.Alike (.calm e.world) (.calm e'.world) := ⟨rfl, rfl, by
    unfold Observer.observe
    exact congrArg (·, [], false) hworld⟩
  obtain ⟨hend, hvalue⟩ := AssemblyRun.twins_inTurn h _ _ hstart
  rw [hcounts, hcounts'] at hvalue
  have hsame := hend.queued_eq
  rw [hqueued, hqueued'] at hsame
  exact ⟨hsame, hvalue⟩

end SerialRun

end TestEngine
