import TestEngine.Run.Thread

/-!
# Threads make progress

A thread waits for nothing but the dispatcher, and the dispatcher waits for nobody. So a thread can
always go on to its end, whatever else was sent meanwhile.

* `Shared.Counted`, `Thread.Served` — what a thread waits for will be delivered. Every step keeps
  this.
* `Thread.Proceeds` — all that a step of a thread can do.
* `SoloRun.Counted.exists_done` — a thread can go on to its end.
-/

namespace TestEngine

variable {σ ω α : Type} {c : Transport σ}

namespace Shared

variable {sh : Shared σ ω}

/-- Every message that was sent is delivered or in the channel. -/
def Counted (sh : Shared σ ω) : Prop :=
  sh.bus.handled + sh.bus.channel.length = sh.bus.sent

theorem dispatch_eq_self (h : sh.bus.channel = []) : sh.dispatch c = sh := by
  unfold dispatch
  rw [h]

theorem channel_dispatch {m : Message} {rest : List Message} (h : sh.bus.channel = m :: rest) :
    (sh.dispatch c).bus.channel = rest := by
  unfold dispatch
  rw [h]
  exact AsynchronousBus.length_channel_dispatch h

theorem bus_dispatch : (sh.dispatch c).bus = sh.bus.dispatch c.sink c.stopOnFail := by
  unfold dispatch AsynchronousBus.dispatch
  cases sh.bus.channel <;> rfl

theorem sent_dispatch : (sh.dispatch c).bus.sent = sh.bus.sent := by
  rw [bus_dispatch]
  unfold AsynchronousBus.dispatch
  split <;> rfl

theorem Counted.dispatch (h : sh.Counted) : (sh.dispatch c).Counted := by
  cases hch : sh.bus.channel with
  | nil =>
    rw [dispatch_eq_self hch]
    exact h
  | cons m rest =>
    have hhandled : (sh.dispatch c).bus.handled = sh.bus.handled + 1 := by
      rw [bus_dispatch]
      unfold AsynchronousBus.dispatch
      rw [hch]
    unfold Counted at h ⊢
    rw [sent_dispatch, channel_dispatch hch, hhandled, ← h, hch, List.length_cons]
    omega

theorem Counted.push (h : sh.Counted) (m : Message) :
    ({ sh with bus := sh.bus.push m } : Shared σ ω).Counted := by
  show sh.bus.handled + (sh.bus.channel ++ [m]).length = sh.bus.sent + 1
  rw [List.length_append, List.length_singleton, ← Nat.add_assoc, h]

end Shared

namespace Thread

/-- A message that the thread waits for was sent. -/
def Served (t : Thread ω α) (sh : Shared σ ω) : Prop :=
  ∀ m ticket next, t = .sent m ticket next → ticket < sh.bus.sent

variable {t t' : Thread ω α} {sh sh' : Shared σ ω}

theorem served_ready (p : Process ω α) : (ready p).Served sh := fun _ _ _ he => nomatch he

theorem Served.mono (h : t.Served sh) (hle : sh.bus.sent ≤ sh'.bus.sent) : t.Served sh' :=
  fun m ticket next ht => Nat.lt_of_lt_of_le (h m ticket next ht) hle

theorem eq_of_value? {a : α} (h : t.value? = some a) : t = .ready (.done a) := by
  unfold value? at h
  split at h
  · cases h
    rfl
  · cases h

/-- A thread that makes a step has not ended. -/
theorem value?_eq_none (hs : t.step? c sh = some (t', sh')) : t.value? = none := by
  cases hv : t.value? with
  | none => rfl
  | some a =>
    rw [eq_of_value? hv] at hs
    cases hs

/-- All that one step of a thread can do. -/
inductive Proceeds (c : Transport σ) :
    Thread ω α → Shared σ ω → Thread ω α → Shared σ ω → Prop
  | deliver {m : Message} {next : Bool → Process ω α} {sh : Shared σ ω}
      (hkind : c.kind = .synchronous) :
      Proceeds c (ready (.queue m next)) sh
        (ready (next ({ sh with bus := sh.bus.push m }.dispatch c).bus.goesOn))
        (({ sh with bus := sh.bus.push m }.dispatch c).answer m)
  | note {m : Message} {next : Bool → Process ω α} {sh : Shared σ ω}
      (hkind : c.kind = .asynchronous) :
      Proceeds c (ready (.queue m next)) sh (noted m next)
        { sh with bus := sh.bus.note c.stopOnFail m }
  | cancel {next : Process ω α} {sh : Shared σ ω} :
      Proceeds c (ready (.cancel next)) sh (ready next) { sh with cancelled := true }
  | ask {next : Bool → Process ω α} {sh : Shared σ ω} :
      Proceeds c (ready (.askCancelled next)) sh (ready (next sh.cancelled)) sh
  | world {change : ω → ω} {next : ω → Process ω α} {sh : Shared σ ω} :
      Proceeds c (ready (.world change next)) sh (ready (next sh.world))
        { sh with world := change sh.world }
  | journal {entry : Activity} {next : Process ω α} {sh : Shared σ ω} :
      Proceeds c (ready (.journal entry next)) sh (ready next) (sh.record [.activity entry])
  | send {m : Message} {next : Bool → Process ω α} {sh : Shared σ ω} :
      Proceeds c (noted m next) sh (sent m sh.bus.sent next) { sh with bus := sh.bus.push m }
  | answer {m : Message} {ticket : Nat} {next : Bool → Process ω α} {sh : Shared σ ω}
      (hanswers : sh.bus.answers m ticket = true) :
      Proceeds c (sent m ticket next) sh (ready (next sh.bus.goesOn)) (sh.answer m)

theorem proceeds_of_step? (hs : t.step? c sh = some (t', sh')) : Proceeds c t sh t' sh' := by
  cases t with
  | ready p =>
    cases p with
    | done a => cases hs
    | queue m next =>
      cases hkind : c.kind <;>
        simp only [step?, hkind, Option.some.injEq, Prod.mk.injEq] at hs <;>
        obtain ⟨rfl, rfl⟩ := hs
      · exact .deliver hkind
      · exact .note hkind
    | cancel next => cases hs; exact .cancel
    | askCancelled next => cases hs; exact .ask
    | world change next => cases hs; exact .world
    | journal entry next => cases hs; exact .journal
  | noted m next => cases hs; exact .send
  | sent m ticket next =>
    obtain ⟨hanswers, hnext⟩ := Option.ite_none_right_eq_some.mp hs
    cases hnext
    exact .answer hanswers

/-- What a step of a thread does to the counters of the bus. -/
theorem counted_step (h : sh.Counted) (hs : t.step? c sh = some (t', sh')) :
    sh'.Counted ∧ sh.bus.sent ≤ sh'.bus.sent ∧ t'.Served sh' := by
  cases proceeds_of_step? hs with
  | @deliver m _ _ _ =>
    refine ⟨(h.push m).dispatch (c := c), ?_, served_ready _⟩
    show sh.bus.sent ≤ (({ sh with bus := sh.bus.push m } : Shared σ ω).dispatch c).bus.sent
    rw [Shared.sent_dispatch]
    exact Nat.le_succ _
  | note _ => exact ⟨h, Nat.le_refl _, fun _ _ _ he => nomatch he⟩
  | cancel | ask | world | journal | answer _ => exact ⟨h, Nat.le_refl _, served_ready _⟩
  | send =>
    refine ⟨h.push _, Nat.le_succ _, ?_⟩
    rintro _ _ _ ⟨⟩
    exact Nat.lt_succ_self _

end Thread

namespace SoloRun

variable {r : SoloRun σ ω α}

theorem after_append (c : Transport σ) (turns more : List SoloTurn) (r : SoloRun σ ω α) :
    r.after c (turns ++ more) = (r.after c turns).after c more := List.foldl_append

/-- The dispatcher can deliver everything that was sent. -/
theorem exists_drained (c : Transport σ) (r : SoloRun σ ω α) :
    ∃ turns, (r.after c turns).thread = r.thread ∧ (r.after c turns).shared.bus.channel = [] := by
  generalize hch : r.shared.bus.channel = ms
  induction ms generalizing r with
  | nil => exact ⟨[], rfl, hch⟩
  | cons m ms ih =>
    obtain ⟨turns, ht, hd⟩ := ih (r.turn c .dispatcher) (Shared.channel_dispatch hch)
    exact ⟨.dispatcher :: turns, ht, hd⟩

/-- The counters of the bus are right, and what the thread waits for is counted. -/
structure Counted (r : SoloRun σ ω α) : Prop where
  counted : r.shared.Counted
  served : r.thread.Served r.shared

theorem counted_start (p : Process ω α) (sink : σ) (world : ω) : (start p sink world).Counted :=
  ⟨rfl, Thread.served_ready p⟩

namespace Counted

theorem turn (h : r.Counted) (x : SoloTurn) : (r.turn c x).Counted := by
  cases x with
  | dispatcher => exact ⟨h.counted.dispatch, h.served.mono (Nat.le_of_eq Shared.sent_dispatch.symm)⟩
  | thread =>
    unfold SoloRun.turn
    cases hs : r.thread.step? c r.shared with
    | none => exact h
    | some next =>
      obtain ⟨hcounted, -, hserved⟩ := Thread.counted_step h.counted hs
      exact ⟨hcounted, hserved⟩

theorem after (h : r.Counted) (turns : List SoloTurn) : (r.after c turns).Counted :=
  List.foldlRecOn turns (SoloRun.turn c) h fun _ hr x _ => hr.turn x

/-- A message that was sent can be answered. -/
theorem exists_answered {m : Message} {ticket : Nat} {next : Bool → Process ω α}
    (h : r.Counted) (hr : r.thread = .sent m ticket next) :
    ∃ turns b, (r.after c turns).thread = .ready (next b) := by
  obtain ⟨turns, ht, hd⟩ := exists_drained c r
  have hafter := h.after (c := c) turns
  rw [hr] at ht
  -- all that was sent is handled then
  have hans : (r.after c turns).shared.bus.answers m ticket = true := by
    have hcounted := hafter.counted
    unfold Shared.Counted at hcounted
    rw [hd, List.length_nil, Nat.add_zero] at hcounted
    have hlt := hafter.served m ticket next ht
    rw [← hcounted] at hlt
    simp only [AsynchronousBus.answers, hlt, decide_true, Bool.or_true]
  refine ⟨turns ++ [.thread], (r.after c turns).shared.bus.goesOn, ?_⟩
  rw [after_append]
  show (SoloRun.turn c (r.after c turns) .thread).thread = _
  simp only [SoloRun.turn, ht, Thread.step?, hans, if_true]

/-- A thread that can go on to its end after some turns can go on to its end. -/
theorem exists_done_of_after {q : Process ω α} (h : r.Counted) (turns : List SoloTurn)
    (ht : (r.after c turns).thread = .ready q)
    (hq : ∀ {r : SoloRun σ ω α}, r.Counted → r.thread = .ready q →
      ∃ turns a, (r.after c turns).thread = .ready (.done a)) :
    ∃ turns a, (r.after c turns).thread = .ready (.done a) := by
  obtain ⟨more, a, ha⟩ := hq (h.after turns) ht
  exact ⟨turns ++ more, a, by rw [after_append]; exact ha⟩

end Counted

theorem thread_after_turn {t : Thread ω α} {sh : Shared σ ω}
    (hs : r.thread.step? c r.shared = some (t, sh)) : (r.after c [.thread]).thread = t := by
  show (r.turn c .thread).thread = t
  simp only [SoloRun.turn, hs]

namespace Counted

/-- A thread that is in no call can go on to its end. -/
theorem exists_done_of_ready {q : Process ω α} (h : r.Counted) (hr : r.thread = .ready q) :
    ∃ turns a, (r.after c turns).thread = .ready (.done a) := by
  -- along the process; on an asynchronous bus a call takes the thread three turns
  induction q generalizing r with
  | done a => exact ⟨[], a, hr⟩
  | queue m next ih =>
    cases hk : c.kind with
    | synchronous =>
      obtain ⟨b, ht⟩ : ∃ b, (r.after c [.thread]).thread = .ready (next b) :=
        ⟨_, thread_after_turn (by simp only [hr, Thread.step?, hk]; rfl)⟩
      exact exists_done_of_after h [.thread] ht (ih b)
    | asynchronous =>
      have hnoted : (r.after c [.thread]).thread = .noted m next :=
        thread_after_turn (by simp only [hr, Thread.step?, hk]; rfl)
      obtain ⟨ticket, hsent⟩ : ∃ ticket,
          ((r.after c [.thread]).after c [.thread]).thread = .sent m ticket next :=
        ⟨_, thread_after_turn (by simp only [hnoted, Thread.step?]; rfl)⟩
      rw [← after_append] at hsent
      obtain ⟨turns, b, ht⟩ := (h.after ([.thread] ++ [.thread])).exists_answered hsent
      rw [← after_append] at ht
      exact exists_done_of_after h _ ht (ih b)
  | cancel next ih =>
    refine exists_done_of_after h [.thread] ?_ ih
    exact thread_after_turn (by simp only [hr, Thread.step?]; rfl)
  | askCancelled next ih =>
    refine exists_done_of_after h [.thread] ?_ (ih r.shared.cancelled)
    exact thread_after_turn (by simp only [hr, Thread.step?]; rfl)
  | world change next ih =>
    refine exists_done_of_after h [.thread] ?_ (ih r.shared.world)
    exact thread_after_turn (by simp only [hr, Thread.step?]; rfl)
  | journal entry next ih =>
    refine exists_done_of_after h [.thread] ?_ ih
    exact thread_after_turn (by simp only [hr, Thread.step?]; rfl)

/-- **A thread can go on to its end**, also from the middle of a call. -/
theorem exists_done (h : r.Counted) :
    ∃ turns a, (r.after c turns).thread = .ready (.done a) := by
  cases hr : r.thread with
  | ready q => exact h.exists_done_of_ready hr
  | noted m next =>
    obtain ⟨ticket, hsent⟩ : ∃ ticket, (r.after c [.thread]).thread = .sent m ticket next :=
      ⟨_, thread_after_turn (by simp only [hr, Thread.step?]; rfl)⟩
    obtain ⟨turns, b, ht⟩ := (h.after [.thread]).exists_answered hsent
    rw [← after_append] at ht
    exact exists_done_of_after h _ ht exists_done_of_ready
  | sent m ticket next =>
    obtain ⟨turns, b, ht⟩ := h.exists_answered hr
    exact exists_done_of_after h _ ht exists_done_of_ready

end Counted

end SoloRun

end TestEngine
