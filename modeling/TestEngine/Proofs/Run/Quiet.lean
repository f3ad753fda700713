import TestEngine.Proofs.Process.Regions
import TestEngine.Proofs.Run.Progress

/-!
# Quiet sinks

A sink that neither asks to stop nor panics is handed every message that is sent, in the order of
sending, and has no influence on a run that does not stop at failures. A thread of such a run tells
what its process tells in its region, whatever other threads do outside of it.

* `Shared.sent` — the messages that were sent, delivered or not.
* `Shared.Calm` — nobody is told to stop. Every step keeps this.
* `Thread.exists_advance` — what a step of a thread does.
-/

namespace TestEngine

variable {σ ω ν α : Type} {c : Transport σ}

/-- The sink never asks to stop and never panics, and failures do not stop the run. -/
structure Transport.Quiet (c : Transport σ) : Prop where
  goesOn : ∀ s m, (c.sink s m).2 = .goOn
  stopOnFail_eq : c.stopOnFail = false

namespace Transport.Quiet

variable (h : c.Quiet)
include h

/-- A quiet sink is called once for each message. -/
theorem deliver_eq (m : Message) (d : Delivery σ) : d.deliver c.sink c.stopOnFail m =
    ({ d with sink := (c.sink d.sink m).1 }, [⟨m, .goOn⟩]) := by
  simp [Delivery.deliver, Delivery.noteFailure, Delivery.call, h.stopOnFail_eq, h.goesOn]

theorem note_eq (m : Message) (bus : AsynchronousBus σ) : bus.note c.stopOnFail m = bus := by
  simp [AsynchronousBus.note, Delivery.noteFailure, h.stopOnFail_eq]

end Transport.Quiet

namespace Shared

variable {sh : Shared σ ω}

/-- The messages that were sent so far, in order. -/
def sent (sh : Shared σ ω) : List Message := sh.delivered ++ sh.bus.channel

/-- Nobody is told to stop, and the run is not cancelled. -/
structure Calm (sh : Shared σ ω) : Prop where
  stopped_eq : sh.bus.delivery.stopped = false
  cancelled_eq : sh.cancelled = false
  counted : sh.Counted

theorem calm_start (sink : σ) (world : ω) : (start sink world).Calm := ⟨rfl, rfl, rfl⟩

theorem Calm.record (h : sh.Calm) (os : List Occurrence) : (sh.record os).Calm :=
  ⟨h.stopped_eq, h.cancelled_eq, h.counted⟩

theorem Calm.push (h : sh.Calm) (m : Message) :
    ({ sh with bus := sh.bus.push m } : Shared σ ω).Calm :=
  ⟨h.stopped_eq, h.cancelled_eq, h.counted.push m⟩

theorem Calm.goesOn_eq (h : sh.Calm) : sh.bus.goesOn = true := by
  rw [AsynchronousBus.goesOn, h.stopped_eq]
  rfl

theorem delivered_record {os : List Occurrence} (h : ∀ call, .handed call ∉ os) :
    (sh.record os).delivered = sh.delivered := by
  refine congrArg (List.map _) (List.filterMap_append.trans (List.append_right_eq_self.mpr ?_))
  refine List.filterMap_eq_nil_iff.mpr fun o ho => ?_
  cases o with
  | handed call => exact absurd ho (h call)
  | queued _ _ | activity _ => rfl

theorem sent_record {os : List Occurrence} (h : ∀ call, .handed call ∉ os) :
    (sh.record os).sent = sh.sent := by
  unfold sent
  rw [delivered_record h]
  rfl

theorem sent_answer (m : Message) : (sh.answer m).sent = sh.sent :=
  sent_record fun _ hc => nomatch List.mem_singleton.mp hc

theorem sent_push (m : Message) :
    ({ sh with bus := sh.bus.push m } : Shared σ ω).sent = sh.sent ++ [m] :=
  (List.append_assoc ..).symm

theorem world_dispatch : (sh.dispatch c).world = sh.world := by
  unfold dispatch
  split <;> rfl

/-- Delivering hands the sink what was sent. -/
theorem sent_dispatch_of_quiet (hc : c.Quiet) : (sh.dispatch c).sent = sh.sent := by
  cases hch : sh.bus.channel with
  | nil => rw [dispatch_eq_self hch]
  | cons m rest =>
    have hdelivered : (sh.dispatch c).delivered = sh.delivered ++ [m] := by
      unfold dispatch
      rw [hch]
      simp only [hc.deliver_eq, delivered, calls, record, List.map_cons, List.map_nil,
        List.filterMap_append, List.map_append]
      rfl
    rw [sent, sent, hdelivered, channel_dispatch hch, hch, List.append_assoc]
    rfl

theorem Calm.dispatch (hc : c.Quiet) (h : sh.Calm) : (sh.dispatch c).Calm where
  stopped_eq := by
    unfold Shared.dispatch
    split
    · exact h.stopped_eq
    · next m rest hch =>
      simp only [AsynchronousBus.dispatch, hch, hc.deliver_eq]
      exact h.stopped_eq
  cancelled_eq := by
    unfold Shared.dispatch
    split <;> exact h.cancelled_eq
  counted := h.counted.dispatch

end Shared

/-! ## One step -/

/-- What a thread does next, apart from a message that it has sent. -/
def Thread.ahead : Thread ω α → Process ω α
  | ready p => p
  | noted m next => .queue m next
  | sent _ _ next => next true

/-- What a thread has done: it sent some messages, and changed the world inside of a region. -/
structure Shared.Advances (R : Region ω ν) (told : List Message) (sh sh' : Shared σ ω) : Prop where
  sent_eq : sh'.sent = sh.sent ++ told
  calm : sh'.Calm
  spares : R.spares sh.world sh'.world
  sent_le : sh.bus.sent ≤ sh'.bus.sent

namespace Shared.Calm

variable {sh : Shared σ ω} {R : Region ω ν} (h : sh.Calm)
include h

theorem advances_refl : sh.Advances R [] sh :=
  ⟨(List.append_nil _).symm, h, R.spares_refl _, Nat.le_refl _⟩

theorem advances_record {os : List Occurrence} (hos : ∀ call, .handed call ∉ os) :
    sh.Advances R [] (sh.record os) :=
  ⟨(sent_record hos).trans (List.append_nil _).symm, h.record os, R.spares_refl _, Nat.le_refl _⟩

theorem advances_push (m : Message) :
    sh.Advances R [m] { sh with bus := sh.bus.push m } :=
  ⟨sent_push m, h.push m, R.spares_refl _, Nat.le_succ _⟩

theorem advances_world {change : ω → ω} (hspares : R.spares sh.world (change sh.world)) :
    sh.Advances R [] { sh with world := change sh.world } :=
  ⟨(List.append_nil _).symm, ⟨h.stopped_eq, h.cancelled_eq, h.counted⟩, hspares, Nat.le_refl _⟩

end Shared.Calm

theorem Shared.Advances.dispatch {R : Region ω ν} {told : List Message} {sh sh' : Shared σ ω}
    (hc : c.Quiet) (h : sh.Advances R told sh') : sh.Advances R told (sh'.dispatch c) where
  sent_eq := (sent_dispatch_of_quiet hc).trans h.sent_eq
  calm := h.calm.dispatch hc
  spares := by
    rw [world_dispatch]
    exact h.spares
  sent_le := Nat.le_trans h.sent_le (Nat.le_of_eq sent_dispatch.symm)

theorem Shared.Advances.answer {R : Region ω ν} {told : List Message} {sh sh' : Shared σ ω}
    (h : sh.Advances R told sh') (m : Message) : sh.Advances R told (sh'.answer m) :=
  ⟨(sent_answer m).trans h.sent_eq, h.calm.record _, h.spares, h.sent_le⟩

/-- **A step of a thread.** If the thread is to tell the messages `ms` in its region, it tells the
first one of them or none, and then it is to tell the others. -/
theorem Thread.exists_advance {R : Region ω ν} {t t' : Thread ω α} {sh sh' : Shared σ ω}
    {ms : List Message} {a : α} {v : ν} (hc : c.Quiet) (hcalm : sh.Calm)
    (h : t.ahead.Runs R (R.view sh.world) ms a v) (hs : t.step? c sh = some (t', sh')) :
    ∃ told rest, ms = told ++ rest ∧ told.length ≤ 1 ∧ sh.Advances R told sh' ∧
      t'.Served sh' ∧ t'.ahead.Runs R (R.view sh'.world) rest a v := by
  obtain ⟨-, -, hserved⟩ := counted_step hcalm.counted hs
  -- a step that tells nothing
  have hsilent : sh.Advances R [] sh' → t'.ahead.Runs R (R.view sh'.world) ms a v →
      ∃ told rest, ms = told ++ rest ∧ told.length ≤ 1 ∧ sh.Advances R told sh' ∧
        t'.Served sh' ∧ t'.ahead.Runs R (R.view sh'.world) rest a v :=
    fun hadvances hruns => ⟨[], ms, rfl, Nat.zero_le _, hadvances, hserved, hruns⟩
  cases t with
  | ready p =>
    cases h with
    | done a v => cases hs
    | @queue m next ms _ _ _ howns h =>
      cases hk : c.kind with
      | synchronous =>
        simp only [step?, hk, Option.some.injEq, Prod.mk.injEq] at hs
        obtain ⟨rfl, rfl⟩ := hs
        have hsent := (hcalm.advances_push (R := R) m).dispatch hc
        refine ⟨[m], ms, rfl, Nat.le_refl 1, hsent.answer m, hserved, ?_⟩
        rw [hsent.calm.goesOn_eq]
        show (next true).Runs R (R.view (Shared.dispatch c _).world) ms a v
        rw [Shared.world_dispatch]
        exact h
      | asynchronous =>
        simp only [step?, hk, Option.some.injEq, Prod.mk.injEq] at hs
        obtain ⟨rfl, rfl⟩ := hs
        refine hsilent ?_ (.queue howns h)
        rw [hc.note_eq]
        exact hcalm.advances_refl
    | askCancelled h =>
      cases hs
      refine hsilent hcalm.advances_refl ?_
      rw [hcalm.cancelled_eq]
      exact h
    | world hview hspares h =>
      cases hs
      refine hsilent (hcalm.advances_world (hspares sh.world rfl)) ?_
      show Process.Runs R (R.view _) _ ms a v
      rw [hview sh.world rfl]
      exact h sh.world rfl
    | @journal entry _ _ _ _ _ h =>
      cases hs
      have hquiet : ∀ call, .handed call ∉ [Occurrence.activity entry] :=
        fun _ hc => by cases List.mem_singleton.mp hc
      exact hsilent (hcalm.advances_record hquiet) h
  | noted m next =>
    cases hs
    cases h with
    | queue howns h => exact ⟨[m], _, rfl, Nat.le_refl 1, hcalm.advances_push m, hserved, h⟩
  | sent m ticket next =>
    simp only [step?] at hs
    split at hs
    · simp only [Option.some.injEq, Prod.mk.injEq] at hs
      obtain ⟨rfl, rfl⟩ := hs
      refine hsilent (hcalm.advances_refl.answer m) ?_
      rw [hcalm.goesOn_eq]
      exact h
    · cases hs

end TestEngine
