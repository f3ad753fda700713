import TestEngine.Proofs.Bus.Deliveries
import TestEngine.Proofs.Run.Chronicle
import TestEngine.Proofs.Run.Progress
import TestEngine.Run.Assembly

/-!
# Serial runs

A run on one thread interleaves the steps of its process with those of a dispatcher. Whatever the
interleaving, the thread goes through a trace of the process, and the bus and the cancellation
answer it as they should.

* `SoloRun.follows_after` — what holds of every interleaving.
* `SoloRun.exists_value?` — every interleaving can be continued until the run is over.
* `SerialRun` — a run of an assembly that is over, on a bus of either kind.
-/

namespace TestEngine

open Delivery

variable {σ ω α : Type} {c : Transport σ} {s : σ}

/-! ## Answers -/

/-- The messages that stop a run at failures before they are delivered. -/
def Transport.noted (c : Transport σ) (ms : List Message) : List Message :=
  match c.kind with
  | .synchronous => []
  | .asynchronous => ms

theorem Transport.noted_synchronous (h : c.kind = .synchronous) (ms : List Message) :
    c.noted ms = [] := by
  unfold noted
  rw [h]

theorem Transport.noted_asynchronous (h : c.kind = .asynchronous) (ms : List Message) :
    c.noted ms = ms := by
  unfold noted
  rw [h]

/-- The answer to `m`, which was queued after the messages `before`, is what is known when some of
them are delivered. On a synchronous bus all are, and so they are when a node starts. -/
def AnswerFits (c : Transport σ) (s : σ) (before : List Message) (m : Message) (goesOn : Bool) :
    Prop :=
  ∃ handled, (c.kind = .synchronous ∨ m.event.isStarting = true → handled = before.length + 1) ∧
    goesOn = !((deliverAll c.sink c.stopOnFail ((before ++ [m]).take handled)
        { sink := s }).stopped ||
      (c.stopOnFail && (c.noted (before ++ [m])).any (·.event.isTestFailure)))

/-- All answers are as they should be, if the messages `before` were queued before and the run was
cancelled or not. -/
def Fits (c : Transport σ) (s : σ) : List Message → Bool → List Action → Prop
  | _, _, [] => True
  | before, cancelled, .queued m goesOn :: as =>
    AnswerFits c s before m goesOn ∧ Fits c s (before ++ [m]) cancelled as
  | before, _, .cancelled :: as => Fits c s before true as
  | before, cancelled, .asked answer :: as => answer = cancelled ∧ Fits c s before cancelled as
  | before, cancelled, .activity _ :: as => Fits c s before cancelled as

theorem fits_append (as bs : List Action) (before : List Message) (cancelled : Bool) :
    Fits c s before cancelled (as ++ bs) ↔
      Fits c s before cancelled as ∧
        Fits c s (before ++ messages (visible as)) (cancelledAfter cancelled as) bs := by
  induction as generalizing before cancelled with
  | nil => simp [Fits, visible, messages, cancelledAfter]
  | cons a as ih =>
    cases a with
    | queued m goesOn =>
      simp only [List.cons_append, Fits, ih, and_assoc, cancelledAfter]
      simp [visible, messages, Action.occurrence?]
    | cancelled => simp only [List.cons_append, Fits, ih, cancelledAfter]; rfl
    | asked answer =>
      simp only [List.cons_append, Fits, ih, and_assoc, cancelledAfter]; rfl
    | activity entry => simp only [List.cons_append, Fits, ih, cancelledAfter]; rfl

/-! ## Where a thread stands -/

namespace Thread

/-- What a thread has yet to do. -/
def rest : Thread ω α → Process ω α
  | ready p => p
  | noted m next => .queue m next
  | sent m _ next => .queue m next

/-- The message of the call that a thread is in, once it was noted. -/
def pending : Thread ω α → List Message
  | ready _ => []
  | noted m _ => [m]
  | sent m _ _ => [m]

/-- The message of the call that a thread is in, once it was sent. -/
def inChannel : Thread ω α → List Message
  | sent m _ _ => [m]
  | _ => []

end Thread

namespace SoloRun

/-- The thread has gone through the steps `as` of the process `p`, as it should: the history shows
these steps, the bus tracks their messages, and their answers fit. -/
structure Follows (c : Transport σ) (s : σ) (p : Process ω α) (as : List Action)
    (r : SoloRun σ ω α) : Prop where
  steps : p.Steps as r.thread.rest
  own_eq : r.shared.history.filter (·.isOwn) = visible as
  cancelled_eq : r.shared.cancelled = cancelledAfter false as
  tracks : r.shared.bus.Tracks c.sink c.stopOnFail s (messages (visible as) ++ r.thread.inChannel)
    (c.noted (messages (visible as) ++ r.thread.pending)) r.shared.calls
  ticket_eq : ∀ m ticket next, r.thread = .sent m ticket next →
    ticket = (messages (visible as)).length
  idle : c.kind = .synchronous → r.shared.bus.channel = [] ∧ ∃ q, r.thread = .ready q
  fits : Fits c s [] false as

end SoloRun

/-! ## What the steps of a bus add to the history -/

namespace Shared

variable {sh : Shared σ ω}

theorem calls_record (os : List Occurrence) :
    (sh.record os).calls = sh.calls ++ os.filterMap fun
      | .handed c => some c
      | _ => none := List.filterMap_append

theorem own_record (os : List Occurrence) :
    (sh.record os).history.filter (·.isOwn) =
      sh.history.filter (·.isOwn) ++ os.filter (·.isOwn) := List.filter_append ..

theorem own_dispatch :
    (sh.dispatch c).history.filter (·.isOwn) = sh.history.filter (·.isOwn) := by
  unfold dispatch
  split
  · rfl
  · have hnone : ∀ cs : List Call, (cs.map Occurrence.handed).filter (·.isOwn) = [] := by
      intro cs
      rw [List.filter_eq_nil_iff]
      rintro o ho
      obtain ⟨call, -, rfl⟩ := List.mem_map.mp ho
      exact nofun
    rw [own_record, hnone, List.append_nil]

theorem cancelled_dispatch : (sh.dispatch c).cancelled = sh.cancelled := by
  unfold dispatch
  split <;> rfl

/-- Delivering keeps track of the messages that were sent. -/
theorem tracks_dispatch {sent noted : List Message}
    (h : sh.bus.Tracks c.sink c.stopOnFail s sent noted sh.calls) :
    (sh.dispatch c).bus.Tracks c.sink c.stopOnFail s sent noted (sh.dispatch c).calls := by
  unfold dispatch
  split
  · exact h
  · next m rest hm =>
    have hcalls : ∀ cs : List Call, (cs.map Occurrence.handed).filterMap (fun
        | .handed c => some c
        | _ => none) = cs := by
      intro cs
      rw [List.filterMap_map]
      exact List.filterMap_some
    rw [calls_record, hcalls]
    exact h.dispatch hm

end Shared

/-! ## One turn -/

namespace SoloRun

variable {p : Process ω α} {as : List Action} {r : SoloRun σ ω α}

theorem follows_start (c : Transport σ) (p : Process ω α) (s : σ) (world : ω) :
    Follows c s p [] (start p s world) where
  steps := .refl p
  own_eq := rfl
  cancelled_eq := rfl
  tracks := by
    have hnoted : c.noted ([] ++ []) = [] := by unfold Transport.noted; split <;> rfl
    show AsynchronousBus.Tracks _ _ _ _ (c.noted ([] ++ [])) _ _
    rw [hnoted]
    exact .new s
  ticket_eq := by
    intro _ _ _ h
    cases h
  idle := fun _ => ⟨rfl, p, rfl⟩
  fits := trivial

theorem Follows.dispatch (h : Follows c s p as r) : Follows c s p as (r.turn c .dispatcher) where
  steps := h.steps
  own_eq := Shared.own_dispatch.trans h.own_eq
  cancelled_eq := Shared.cancelled_dispatch.trans h.cancelled_eq
  tracks := Shared.tracks_dispatch h.tracks
  ticket_eq := h.ticket_eq
  idle := by
    intro hk
    obtain ⟨hch, hq⟩ := h.idle hk
    refine ⟨?_, hq⟩
    show (r.shared.dispatch c).bus.channel = []
    rw [Shared.dispatch_eq_self hch, hch]
  fits := h.fits

/-- A thread that is in no call, with what this means for the messages. -/
theorem Follows.tracks_ready {q : Process ω α} {sh : Shared σ ω}
    (h : Follows c s p as ⟨.ready q, sh⟩) :
    sh.bus.Tracks c.sink c.stopOnFail s (messages (visible as)) (c.noted (messages (visible as)))
      sh.calls := by
  have ht := h.tracks
  simp only [Thread.inChannel, Thread.pending, List.append_nil] at ht
  exact ht

/-- The thread makes a step that the bus has no part in. -/
theorem Follows.step_ready {q q' : Process ω α} {sh sh' : Shared σ ω} {bs : List Action}
    (h : Follows c s p as ⟨.ready q, sh⟩) (hq : q.Steps bs q') (hbus : sh'.bus = sh.bus)
    (hcalls : sh'.calls = sh.calls)
    (hown : sh'.history.filter (·.isOwn) = sh.history.filter (·.isOwn) ++ visible bs)
    (hcancelled : sh'.cancelled = cancelledAfter sh.cancelled bs)
    (hmessages : messages (visible bs) = [])
    (hfits : Fits c s (messages (visible as)) sh.cancelled bs) :
    Follows c s p (as ++ bs) ⟨.ready q', sh'⟩ where
  steps := h.steps.append hq
  own_eq := by rw [hown, h.own_eq, visible_append]
  cancelled_eq := by rw [hcancelled, h.cancelled_eq, cancelledAfter_append]
  tracks := by
    have ht := h.tracks_ready
    rw [← hbus, ← hcalls] at ht
    simpa only [visible_append, messages_append, hmessages, Thread.inChannel, Thread.pending,
      List.append_nil] using ht
  ticket_eq := by
    intro _ _ _ h
    cases h
  idle := fun hk => ⟨by rw [hbus]; exact (h.idle hk).1, q', rfl⟩
  fits := by
    rw [fits_append]
    refine ⟨h.fits, ?_⟩
    rw [← h.cancelled_eq]
    exact hfits

/-- The call that queued a message is answered. -/
theorem Follows.step_answer {m : Message} {next : Bool → Process ω α} {sh : Shared σ ω}
    (hsteps : p.Steps as (.queue m next)) (hown : sh.history.filter (·.isOwn) = visible as)
    (hcancelled : sh.cancelled = cancelledAfter false as) (hfits : Fits c s [] false as)
    (ht : sh.bus.Tracks c.sink c.stopOnFail s (messages (visible as) ++ [m])
      (c.noted (messages (visible as) ++ [m])) sh.calls)
    (hwait : c.kind = .synchronous ∨ m.event.isStarting = true →
      sh.bus.handled = (messages (visible as)).length + 1)
    (hidle : c.kind = .synchronous → sh.bus.channel = []) :
    Follows c s p (as ++ [.queued m sh.bus.goesOn])
      ⟨.ready (next sh.bus.goesOn), sh.answer m⟩ where
  steps := hsteps.append (.queue (.refl _))
  own_eq := by
    rw [Shared.answer, Shared.own_record, hown, visible_append]
    rfl
  cancelled_eq := by
    rw [cancelledAfter_append]
    exact hcancelled
  tracks := by
    have hcalls : (sh.answer m).calls = sh.calls := by
      rw [Shared.answer, Shared.calls_record]
      exact List.append_nil _
    have hmessages : messages (visible [.queued m sh.bus.goesOn]) = [m] := rfl
    simp only [visible_append, messages_append, hmessages, Thread.inChannel, Thread.pending,
      List.append_nil, hcalls]
    exact ht
  ticket_eq := by
    intro _ _ _ h
    cases h
  idle := fun hk => ⟨hidle hk, _, rfl⟩
  fits := by
    rw [fits_append]
    refine ⟨hfits, ⟨sh.bus.handled, hwait, ?_⟩, trivial⟩
    rw [AsynchronousBus.goesOn, ht.stopped_eq]
    rfl

/-- A synchronous bus delivers a message in the step that queues it. -/
theorem Follows.step_synchronous {m : Message} {next : Bool → Process ω α} {sh : Shared σ ω}
    (h : Follows c s p as ⟨.ready (.queue m next), sh⟩) (hk : c.kind = .synchronous) :
    Follows c s p
      (as ++ [.queued m ({ sh with bus := sh.bus.push m }.dispatch c).bus.goesOn])
      ⟨.ready (next ({ sh with bus := sh.bus.push m }.dispatch c).bus.goesOn),
        ({ sh with bus := sh.bus.push m }.dispatch c).answer m⟩ := by
  have hch : sh.bus.channel = [] := (h.idle hk).1
  have hpush : ({ sh with bus := sh.bus.push m } : Shared σ ω).bus.Tracks c.sink c.stopOnFail s
      (messages (visible as) ++ [m]) (c.noted (messages (visible as) ++ [m])) sh.calls := by
    have heq : c.noted (messages (visible as) ++ [m]) = c.noted (messages (visible as)) := by
      rw [Transport.noted_synchronous hk, Transport.noted_synchronous hk]
    rw [heq]
    exact h.tracks_ready.push m
  have hone : ({ sh with bus := sh.bus.push m } : Shared σ ω).bus.channel = [m] := by
    show sh.bus.channel ++ [m] = [m]
    rw [hch, List.nil_append]
  have hdone : ({ sh with bus := sh.bus.push m }.dispatch c).bus.channel = [] :=
    Shared.channel_dispatch hone
  have ht := Shared.tracks_dispatch hpush
  refine Follows.step_answer h.steps (Shared.own_dispatch.trans h.own_eq)
    (Shared.cancelled_dispatch.trans h.cancelled_eq) h.fits ht ?_ fun _ => hdone
  -- nothing is left in the channel, so everything that was sent is delivered
  intro _
  have hle := ht.handled_le
  have hdrop := ht.channel_eq
  rw [hdone] at hdrop
  have hge := List.drop_eq_nil_iff.mp hdrop.symm
  rw [List.length_append, List.length_singleton] at hle hge
  exact Nat.le_antisymm hle hge

/-- On an asynchronous bus a message is noted before it is sent. -/
theorem Follows.step_note {m : Message} {next : Bool → Process ω α} {sh : Shared σ ω}
    (h : Follows c s p as ⟨.ready (.queue m next), sh⟩) (hk : c.kind = .asynchronous) :
    Follows c s p as ⟨.noted m next, { sh with bus := sh.bus.note c.stopOnFail m }⟩ where
  steps := h.steps
  own_eq := h.own_eq
  cancelled_eq := h.cancelled_eq
  tracks := by
    have ht := h.tracks_ready.note m
    rw [Transport.noted_asynchronous hk] at ht
    show AsynchronousBus.Tracks _ _ _ (messages (visible as) ++ []) (c.noted _) _ _
    rw [Transport.noted_asynchronous hk, List.append_nil]
    exact ht
  ticket_eq := by
    intro _ _ _ he
    cases he
  idle := by
    intro hsync
    cases hk.symm.trans hsync
  fits := h.fits

/-- A message that was noted is sent. -/
theorem Follows.step_send {m : Message} {next : Bool → Process ω α} {sh : Shared σ ω}
    (h : Follows c s p as ⟨.noted m next, sh⟩) :
    Follows c s p as ⟨.sent m sh.bus.sent next, { sh with bus := sh.bus.push m }⟩ := by
  have ht := h.tracks
  simp only [Thread.inChannel, List.append_nil] at ht
  refine ⟨h.steps, h.own_eq, h.cancelled_eq, ht.push m, ?_, ?_, h.fits⟩
  · intro _ _ _ he
    cases he
    exact ht.sent_eq
  · intro hsync
    obtain ⟨-, q, hq⟩ := h.idle hsync
    cases hq

/-- A message that was sent is answered when the bus lets the thread go on. -/
theorem Follows.step_sent {m : Message} {ticket : Nat} {next : Bool → Process ω α}
    {sh : Shared σ ω} (h : Follows c s p as ⟨.sent m ticket next, sh⟩)
    (hans : sh.bus.answers m ticket = true) :
    Follows c s p (as ++ [.queued m sh.bus.goesOn])
      ⟨.ready (next sh.bus.goesOn), sh.answer m⟩ := by
  have hasync : c.kind ≠ .synchronous := by
    intro hsync
    obtain ⟨-, q, hq⟩ := h.idle hsync
    cases hq
  refine Follows.step_answer h.steps h.own_eq h.cancelled_eq h.fits h.tracks ?_
    fun hsync => absurd hsync hasync
  rintro (hsync | hstarting)
  · exact absurd hsync hasync
  · -- a node that starts waits until its own message is handled, which was the last one sent
    have hlt : ticket < sh.bus.handled := by
      simpa [AsynchronousBus.answers, AsynchronousBus.waitsForDelivery, hstarting] using hans
    have hle := h.tracks.handled_le
    rw [h.ticket_eq _ _ _ rfl] at hlt
    simp only [Thread.inChannel, List.length_append, List.length_singleton] at hle
    omega

/-- One step of the thread: it is a step of the process, or one of a call that it is in. -/
theorem Follows.step {t : Thread ω α} {sh : Shared σ ω} (h : Follows c s p as r)
    (hs : r.thread.step? c r.shared = some (t, sh)) : ∃ bs, Follows c s p (as ++ bs) ⟨t, sh⟩ := by
  obtain ⟨thread, shared⟩ := r
  have same : ∀ {t' sh'}, Follows c s p as ⟨t', sh'⟩ → Follows c s p (as ++ []) ⟨t', sh'⟩ :=
    fun h' => (List.append_nil as).symm ▸ h'
  cases Thread.proceeds_of_step? hs with
  | deliver hk => exact ⟨_, h.step_synchronous hk⟩
  | note hk => exact ⟨[], same (h.step_note hk)⟩
  | cancel =>
    exact ⟨[.cancelled], h.step_ready (.cancel (.refl _)) rfl rfl (List.append_nil _).symm rfl
      rfl trivial⟩
  | ask =>
    exact ⟨[.asked shared.cancelled], h.step_ready (.askCancelled (.refl _)) rfl rfl
      (List.append_nil _).symm rfl rfl ⟨rfl, trivial⟩⟩
  | world =>
    exact ⟨[], h.step_ready (.world (.refl _)) rfl rfl (List.append_nil _).symm rfl rfl trivial⟩
  | @journal entry _ _ =>
    refine ⟨[.activity entry], h.step_ready (.journal (.refl _)) rfl ?_ ?_ rfl rfl trivial⟩
    · rw [Shared.calls_record]
      exact List.append_nil _
    · rw [Shared.own_record]
      rfl
  | send => exact ⟨[], same h.step_send⟩
  | answer hans => exact ⟨_, h.step_sent hans⟩

theorem Follows.turn (h : Follows c s p as r) (t : SoloTurn) :
    ∃ bs, Follows c s p (as ++ bs) (r.turn c t) := by
  cases t with
  | dispatcher => exact ⟨[], by rw [List.append_nil]; exact h.dispatch⟩
  | thread =>
    unfold SoloRun.turn
    cases hs : r.thread.step? c r.shared with
    | none => exact ⟨[], by rw [List.append_nil]; exact h⟩
    | some next => exact h.step hs

/-- **The thread of a run follows its process, whatever the interleaving.** -/
theorem Follows.after (h : Follows c s p as r) (turns : List SoloTurn) :
    ∃ bs, Follows c s p (as ++ bs) (r.after c turns) := by
  induction turns generalizing as r with
  | nil => exact ⟨[], by rw [List.append_nil]; exact h⟩
  | cons t turns ih =>
    obtain ⟨bs, hb⟩ := h.turn t
    obtain ⟨ds, hd⟩ := ih hb
    exact ⟨bs ++ ds, by rw [← List.append_assoc]; exact hd⟩

/-! ## Every run can be ended -/

/-- **Every interleaving can be continued until the run is over.** -/
theorem exists_value? (c : Transport σ) (p : Process ω α) (s : σ) (world : ω)
    (turns : List SoloTurn) :
    ∃ more a, ((start p s world).after c (turns ++ more)).value? = some a := by
  obtain ⟨more, a, ha⟩ := ((counted_start p s world).after (c := c) turns).exists_done (c := c)
  obtain ⟨last, ht, hd⟩ := exists_drained c (((start p s world).after c turns).after c more)
  refine ⟨more ++ last, a, ?_⟩
  rw [after_append, after_append, SoloRun.value?, Shared.isDrained, hd, ht, ha]
  rfl

end SoloRun

/-! ## Runs that are over -/

/-- A run of an assembly, one collection after the other, that is over: every message was delivered,
on a bus of either kind, and nothing is left to do. -/
structure SerialRun (r : AssemblyRun ω) (c : Transport σ) where
  /-- The sink at the beginning. -/
  sink : σ
  /-- The world of user code at the beginning. -/
  world : ω
  turns : List SoloTurn
  counts : Counts
  isOver : ((SoloRun.start r.inTurn sink world).after c turns).value? = some counts

namespace SerialRun

variable {r : AssemblyRun ω} (e : SerialRun r c)

/-- How a run ended. -/
def final : Shared σ ω := ((SoloRun.start r.inTurn e.sink e.world).after c e.turns).shared

/-- What happened, without the calls of the sink. -/
def record : List Occurrence := e.final.history.filter (·.isOwn)

/-- The messages that were queued. -/
def queued : List Message := messages e.record

/-- Whatever the assembly, the sink and the bus, there is a run; and whatever happened so far, it
can be ended. -/
theorem nonempty (r : AssemblyRun ω) (c : Transport σ) (sink : σ) (world : ω)
    (turns : List SoloTurn) :
    ∃ e : SerialRun r c, e.sink = sink ∧ e.world = world ∧ turns <+: e.turns := by
  obtain ⟨more, counts, h⟩ := SoloRun.exists_value? c r.inTurn sink world turns
  exact ⟨⟨sink, world, turns ++ more, counts, h⟩, rfl, rfl, List.prefix_append _ _⟩

/-- **A run goes through a trace of its process**, with fitting answers, and the sink is handed the
messages in the order in which they were queued. -/
theorem exists_trace : ∃ as, r.inTurn.Trace as e.counts ∧ visible as = e.record ∧
    Fits c e.sink [] false as ∧
    e.final.calls = callsAll c.sink c.stopOnFail e.queued { sink := e.sink } := by
  obtain ⟨as, h⟩ := (SoloRun.follows_start c r.inTurn e.sink e.world).after e.turns
  have hover := e.isOver
  unfold SoloRun.value? at hover
  rw [List.nil_append] at h
  split at hover
  · next hdrained =>
    have hrecord : e.record = visible as := h.own_eq
    have hready : ((SoloRun.start r.inTurn e.sink e.world).after c e.turns).thread =
        .ready (.done e.counts) := by
      unfold Thread.value? at hover
      split at hover
      · next ht =>
        cases hover
        exact ht
      · cases hover
    have hsteps := h.steps
    have ht := h.tracks
    rw [hready] at hsteps ht
    refine ⟨as, hsteps, hrecord.symm, h.fits, ?_⟩
    have hlen : (messages (visible as)).length ≤ e.final.bus.handled := by
      have hch := ht.channel_eq
      rw [List.isEmpty_iff.mp hdrained] at hch
      have hge := List.drop_eq_nil_iff.mp hch.symm
      simp only [Thread.inChannel, List.append_nil] at hge
      exact hge
    have hcalls : e.final.calls = callsAll c.sink c.stopOnFail
        ((messages (visible as) ++ []).take e.final.bus.handled) { sink := e.sink } := ht.calls_eq
    rw [hcalls, List.append_nil, List.take_of_length_le hlen, queued, hrecord]
  · cases hover

/-- The sink answers each message from its own state. -/
theorem replies : Replies c.sink e.sink e.queued e.final.calls := by
  obtain ⟨-, -, -, -, hcalls⟩ := e.exists_trace
  rw [hcalls]
  exact replies_callsAll e.queued { sink := e.sink }

end SerialRun

end TestEngine
