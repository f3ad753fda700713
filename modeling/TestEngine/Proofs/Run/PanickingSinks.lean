import TestEngine.Proofs.Run.Calm

/-!
# Sinks that panic

A sink that panics is told so, by an error with the text of the panic, and that is all that comes of
it. Whatever such a sink does, and on either kind of bus, the run is the one of a sink that takes
every message.

* `Handed` — how a message is handed to a sink that may panic.
* `SerialRun.eq_of_answers` — two runs are the same if the messages so far decide their answers.
* `SerialRun.withstands` — a sink that panics makes no difference to a run.
-/

namespace TestEngine

open Delivery

variable {σ τ ω : Type} {c : Transport σ} {c' : Transport τ}

/-! ## How a message is handed over -/

/-- A message is handed to the sink once. If the sink panics over it, there is one more call, right
after it, with an error of the same assembly whose root has the text of the panic. -/
inductive Handed (m : Message) : List Call → Prop
  | taken {answer : Answer} (h : ∀ payload, answer ≠ .panic payload) : Handed m [⟨m, answer⟩]
  | reported {payload : Payload} {report : Message} {record : ErrorRecord} {answer : Answer}
      (ids_eq : report.ids = { assembly := m.ids.assembly })
      (event_eq : report.event = .error record)
      (text_eq : record.rootMessage? = some payload.message) :
      Handed m [⟨m, .panic payload⟩, ⟨report, answer⟩]

/-- The calls of a sink fall into groups, one for each message. -/
theorem Delivery.Replies.exists_groups {sink : Sink σ} {s : σ} {ms : List Message}
    {calls : List Call} (h : Replies sink s ms calls) :
    ∃ groups : List (List Call), calls = groups.flatten ∧ List.Forall₂ Handed ms groups := by
  induction h with
  | nil => exact ⟨[], rfl, .nil⟩
  | taken answer _ ih =>
    obtain ⟨groups, rfl, hgroups⟩ := ih
    exact ⟨[_] :: groups, rfl, .cons (.taken answer) hgroups⟩
  | reported _ ids_eq event_eq _ ih =>
    obtain ⟨groups, rfl, hgroups⟩ := ih
    exact ⟨[_, _] :: groups, rfl, .cons (.reported ids_eq event_eq rfl) hgroups⟩

/-- A sink that takes every message is called once for each. -/
theorem Delivery.Replies.eq_of_goOn {sink : Sink σ} (hsink : ∀ s m, (sink s m).2 = .goOn) {s : σ}
    {ms : List Message} {calls : List Call} (h : Replies sink s ms calls) :
    calls = ms.map (⟨·, .goOn⟩) := by
  induction h with
  | nil => rfl
  | taken _ _ ih => rw [hsink, ih, List.map_cons]
  | reported answer =>
    rw [hsink] at answer
    cases answer

/-! ## Runs -/

namespace SerialRun

variable {r : AssemblyRun ω}

/-- A run whose sink never asks to stop answers by the failed tests among the messages so far. -/
theorem goesOn_of_neverAsks (e : SerialRun r c) (h : c.NeverAsks) {x y : List Occurrence}
    {m : Message} {b : Bool} (hrecord : e.record = x ++ .queued m b :: y) :
    b = !(c.stopOnFail && (messages x ++ [m]).any (·.event.isTestFailure)) := by
  rw [e.goesOn_eq hrecord fun _ _ _ _ _ hm => .inr (h.of_latches hm.2), h.stoppedBy_eq]

/-- Two runs are the same if the messages so far decide the answers of both alike. -/
theorem eq_of_answers (answer : List Message → Bool) (e : SerialRun r c) (f : SerialRun r c')
    (hworld : e.world = f.world)
    (he : ∀ x m b y, e.record = x ++ .queued m b :: y → b = answer (messages x ++ [m]))
    (hf : ∀ x m b y, f.record = x ++ .queued m b :: y → b = answer (messages x ++ [m])) :
    e.record = f.record ∧ e.counts = f.counts ∧ e.final.world = f.final.world := by
  obtain ⟨as, hcourse, hvisible, htruthful⟩ := e.exists_course
  obtain ⟨bs, hcourse', hvisible', htruthful'⟩ := f.exists_course
  have hagree : Agree as bs := by
    constructor
    · rintro x m b y b' y' rfl rfl
      rw [visible_append] at hvisible hvisible'
      rw [he _ m b _ hvisible.symm, hf _ m b' _ hvisible'.symm]
    · rintro x b y b' y' rfl rfl
      rw [truthful_append] at htruthful htruthful'
      rw [htruthful.2.1, htruthful'.2.1]
  rw [← hworld] at hcourse'
  obtain ⟨rfl, hcounts, hend⟩ := hcourse.eq_of_agree hcourse' hagree
  exact ⟨hvisible.symm.trans hvisible', hcounts, hend⟩

/-- **A sink that panics makes no difference to a run.** Whatever has happened so far, the run can
be ended. It queues the messages of a run whose sink takes every message, is answered alike, does
all the same and ends with the same counts. The one sink is called once for each message, in order;
the other one too, but for the error that tells it of a panic right after it. The answers are those
that the sinks give. -/
theorem withstands (r : AssemblyRun ω) {c : Transport σ} {c' : Transport τ} (hasks : c.NeverAsks)
    (htakes : ∀ s m, (c'.sink s m).2 = .goOn) (hstop : c.stopOnFail = c'.stopOnFail) :
    (∀ sink world turns, ∃ e : SerialRun r c, e.sink = sink ∧ e.world = world ∧
      turns <+: e.turns) ∧
    ∀ (e : SerialRun r c) (f : SerialRun r c'), e.world = f.world →
      e.queued = f.queued ∧ e.record = f.record ∧ e.counts = f.counts ∧
      f.final.calls = f.queued.map (⟨·, .goOn⟩) ∧
      Replies c.sink e.sink e.queued e.final.calls ∧
      ∃ groups : List (List Call), e.final.calls = groups.flatten ∧
        List.Forall₂ Handed e.queued groups := by
  refine ⟨fun sink world turns => nonempty r c sink world turns, fun e f hworld => ?_⟩
  have hcalm : c'.NeverAsks := by
    intro s m
    rw [htakes s m]
    exact nofun
  obtain ⟨hrecord, hcounts, -⟩ := eq_of_answers
    (fun ms => !(c.stopOnFail && ms.any (·.event.isTestFailure))) e f hworld
    (fun _ _ _ _ h => e.goesOn_of_neverAsks hasks h)
    (fun _ _ _ _ h => hstop ▸ f.goesOn_of_neverAsks hcalm h)
  exact ⟨congrArg messages hrecord, hrecord, hcounts, f.replies.eq_of_goOn htakes, e.replies,
    e.replies.exists_groups⟩

end SerialRun

/-! ### A sink that is afraid of errors

It panics over failed tests, and over every error that tells it so. -/

namespace AfraidOfErrors

def transport : Transport Nat where
  kind := .asynchronous
  sink := fun seen m =>
    match m.event with
    | .failed .. => (seen + 1, .panic (.text "a test failed"))
    | .error _ => (seen + 1, .panic .other)
    | _ => (seen + 1, .goOn)
  stopOnFail := true

/-- A sink that takes every message. -/
def brave : Transport Unit where
  kind := .synchronous
  sink := fun _ _ => ((), .goOn)
  stopOnFail := true

theorem neverAsks : transport.NeverAsks := by
  intro seen m h
  unfold transport at h
  dsimp only at h
  split at h <;> cases h

end AfraidOfErrors

/-- The two counters, whose tests fail, before a sink that panics over each failure. -/
theorem SerialRun.withstands_twoCounters :
    AfraidOfErrors.transport.NeverAsks ∧
    (∀ s m, (AfraidOfErrors.brave.sink s m).2 = .goOn) ∧
    AfraidOfErrors.transport.stopOnFail = AfraidOfErrors.brave.stopOnFail ∧
    ∃ (e : SerialRun TwoCounters.run AfraidOfErrors.transport)
      (f : SerialRun TwoCounters.run AfraidOfErrors.brave), e.world = f.world ∧
      e.queued = f.queued ∧ e.counts = f.counts ∧
      Replies AfraidOfErrors.transport.sink e.sink e.queued e.final.calls ∧
      ∃ groups : List (List Call), e.final.calls = groups.flatten ∧
        List.Forall₂ Handed e.queued groups := by
  have htakes : ∀ s m, (AfraidOfErrors.brave.sink s m).2 = .goOn := fun _ _ => rfl
  obtain ⟨hends, hsame⟩ :=
    SerialRun.withstands TwoCounters.run AfraidOfErrors.neverAsks htakes rfl
  obtain ⟨e, -, he, -⟩ := hends 0 (0, 0) []
  obtain ⟨f, -, hf, -⟩ := SerialRun.nonempty TwoCounters.run AfraidOfErrors.brave () (0, 0) []
  have hworld : e.world = f.world := he.trans hf.symm
  obtain ⟨hqueued, -, hcounts, -, hreplies, hgroups⟩ := hsame e f hworld
  exact ⟨AfraidOfErrors.neverAsks, htakes, rfl, e, f, hworld, hqueued, hcounts, hreplies, hgroups⟩

end TestEngine
