import TestEngine.Proofs.Run.Brackets
import TestEngine.Proofs.Run.Conduct
import TestEngine.Proofs.Run.Quiet

/-!
# The accounts of threads

What a thread of a parallel run owes to the others: what it knows of the wish to stop, how often it
has still to finish a node, how many failed tests it has counted, and the call that it is in. The
account of a thread is all that the law of a parallel run needs of it, so a step of a thread is a
*move* of its account.

* `Settles` — the messages that a thread still queues square its account.
* `Thread.HasAccount` — an account describes a thread.
* `Thread.exists_move` — a step of a thread moves its account.
-/

namespace TestEngine

open Process

variable {σ ω α : Type} {i : NodeIds} {c : Transport σ}

/-! ## What a step leaves -/

namespace Process

/-- A process has a trace, if there is a world for it. -/
theorem exists_trace (p : Process ω α) (w : ω) : ∃ as a, p.Trace as a := by
  induction p with
  | done a => exact ⟨[], a, .refl _⟩
  | queue m next ih =>
    obtain ⟨as, a, h⟩ := ih true
    exact ⟨_, a, .queue h⟩
  | cancel next ih =>
    obtain ⟨as, a, h⟩ := ih
    exact ⟨_, a, .cancel h⟩
  | askCancelled next ih =>
    obtain ⟨as, a, h⟩ := ih true
    exact ⟨_, a, .askCancelled h⟩
  | world change next ih =>
    obtain ⟨as, a, h⟩ := ih w
    exact ⟨_, a, .world h⟩
  | journal entry next ih =>
    obtain ⟨as, a, h⟩ := ih
    exact ⟨_, a, .journal h⟩

namespace Yields

variable {P : List Action → α → Prop} {m : Message} {next : Bool → Process ω α} {p : Process ω α}

theorem of_done {a : α} (h : (done a : Process ω α).Yields P) : P [] a := h [] a (.refl _)

theorem of_queue (h : (Process.queue m next).Yields P) (b : Bool) :
    (next b).Yields fun as a => P (.queued m b :: as) a := fun _ a ht => h _ a (.queue ht)

theorem of_cancel (h : (Process.cancel p).Yields P) :
    p.Yields fun as a => P (.cancelled :: as) a := fun _ a ht => h _ a (.cancel ht)

theorem of_askCancelled (h : (Process.askCancelled next).Yields P) (b : Bool) :
    (next b).Yields fun as a => P (.asked b :: as) a := fun _ a ht => h _ a (.askCancelled ht)

theorem of_world {change : ω → ω} {next : ω → Process ω α}
    (h : (Process.world change next).Yields P) (w : ω) : (next w).Yields P :=
  fun as a ht => h as a (.world ht)

theorem of_journal {entry : Activity} (h : (Process.journal entry p).Yields P) :
    p.Yields fun as a => P (.activity entry :: as) a := fun _ a ht => h _ a (.journal ht)

end Yields

/-- The first of the steps that a process takes is allowed, and it abides after it. -/
theorem Abides.of_step {p : Process ω α} {s : Stance} {Q : Stance → α → Prop} {a : Action} (w : ω)
    (h : p.Yields fun as x => Heeding (Q · x) s (a :: as)) :
    s.Allows a ∧ (s.Expects a → p.Abides (s.after a) Q) := by
  obtain ⟨as, x, ht⟩ := p.exists_trace w
  exact ⟨(h as x ht).1, fun he as x ht => (h as x ht).2 he⟩

end Process

/-! ## Squaring accounts -/

/-- The messages `ms` that a thread still queues, and the value at its end, square its account: it
finishes the nodes that it starts and those that it owes, but leaves `due` of the nodes `i` to
others; and the value has all its failed tests. -/
structure Settles (i : NodeIds) (due : Nat) (value : α → Nat) (owed failed : Nat)
    (ms : List Message) (x : α) : Prop where
  balance : (finishedIds ms).count i + due = (startedIds ms).count i + owed
  covered : ∀ ns, ns <:+ ms → (startedIds ns).count i ≤ (finishedIds ns).count i + due
  failed_eq : value x = failed + (tally ms).failed

theorem count_idsWhere_append (p : Event → Bool) (ms ns : List Message) (i : NodeIds) :
    (idsWhere p (ms ++ ns)).count i = (idsWhere p ms).count i + (idsWhere p ns).count i := by
  rw [idsWhere_append, List.count_append]

/-- A message does not start and finish a node at once. -/
theorem count_startedIds_eq_zero {m : Message} (h : 0 < (finishedIds [m]).count i) :
    (startedIds [m]).count i = 0 := by
  obtain ⟨ids, event⟩ := m
  cases event <;> first | rfl | cases h

/-- After the first of the messages an account is still square. -/
theorem Settles.cons {due : Nat} {value : α → Nat} {owed failed : Nat} {m : Message}
    {ms : List Message} {x : α} (h : Settles i due value owed failed (m :: ms) x) :
    (finishedIds [m]).count i ≤ owed ∧
      Settles i due value (owed + (startedIds [m]).count i - (finishedIds [m]).count i)
        (failed + (tally [m]).failed) ms x := by
  have hstarted : (startedIds (m :: ms)).count i =
      (startedIds [m]).count i + (startedIds ms).count i :=
    count_idsWhere_append Event.isStarting [m] ms i
  have hfinished : (finishedIds (m :: ms)).count i =
      (finishedIds [m]).count i + (finishedIds ms).count i :=
    count_idsWhere_append Event.isFinished [m] ms i
  have hfailed : (tally (m :: ms)).failed = (tally [m]).failed + (tally ms).failed := by
    rw [← Counts.failed_add, ← tally_append]
    rfl
  have hbalance := h.balance
  have hrest := h.covered ms (List.suffix_cons m ms)
  have hvalue := h.failed_eq
  have howed : (finishedIds [m]).count i ≤ owed := by
    rcases Nat.eq_zero_or_pos ((finishedIds [m]).count i) with hzero | hpos
    · rw [hzero]
      exact Nat.zero_le owed
    · have hnone := count_startedIds_eq_zero hpos
      omega
  refine ⟨howed, ⟨?_, fun ns hns => h.covered ns (hns.trans (List.suffix_cons m ms)), ?_⟩⟩
  · omega
  · omega

/-! ## Accounts -/

/-- What a thread knows of the wish to stop, how many nodes `i` it has still to finish, the failed
tests that it has counted, and the message that it waits for, with its ticket. -/
structure Account where
  stance : Stance := {}
  owed : Nat := 0
  failed : Nat := 0
  call : Option (Message × Nat) := none

namespace Account

/-- The account of a thread whose message is answered. -/
def answered (i : NodeIds) (m : Message) (goesOn : Bool) (a : Account) : Account where
  stance := a.stance.after (.queued m goesOn)
  owed := a.owed + (startedIds [m]).count i - (finishedIds [m]).count i
  failed := a.failed + (tally [m]).failed
  call := none

/-- The account of a thread that knows that the run is cancelled. -/
def alerted (a : Account) : Account :=
  { a with stance := { a.stance with notice := .aware } }

/-- The thread may queue a message. -/
structure Permits (i : NodeIds) (a : Account) (m : Message) : Prop where
  free : a.stance.IsFree
  starting : m.event.isStarting = true → a.stance.notice = .unaware
  result : m.event.isResult = true → a.stance.openTest = some m.ids
  finished : (finishedIds [m]).count i ≤ a.owed

end Account

/-- The message that a thread waits for, with its ticket. -/
def Thread.call? : Thread ω α → Option (Message × Nat)
  | .sent m ticket _ => some (m, ticket)
  | _ => none

/-- An account describes a thread: it abides in its stance and squares what it owes, if it leaves
`due` of the nodes `i` to others and `value` says how many failed tests a value has. -/
structure Thread.HasAccount (i : NodeIds) (due : Nat) (value : α → Nat) (c : Transport σ)
    (sh : Shared σ ω) (t : Thread ω α) (a : Account) : Prop where
  abides : t.rest.Abides a.stance fun _ _ => True
  settles : t.rest.Yields fun as x =>
    Settles i due value a.owed a.failed (messages (visible as)) x
  aware : a.stance.notice = .aware → sh.cancelled = true
  call_eq : a.call = t.call?
  noted : ∀ m next, t = .noted m next → c.stopOnFail = true → m.event.isTestFailure = true →
    sh.bus.delivery.stopped = true

/-- The messages that were queued so far, each with its answer. -/
def Shared.answers (sh : Shared σ ω) : List (Message × Bool) :=
  sh.history.filterMap fun
    | .queued m goesOn => some (m, goesOn)
    | _ => none

/-- What becomes of the account of a thread, and of what the threads share, when the thread makes a
step on an asynchronous bus. -/
inductive Moves (i : NodeIds) (c : Transport σ) (a : Account) (sh : Shared σ ω) :
    Account → Shared σ ω → Prop
  | idle {sh' : Shared σ ω} (hcall : a.call = none) (hbus : sh'.bus = sh.bus)
      (hcancelled : sh'.cancelled = sh.cancelled) (hanswers : sh'.answers = sh.answers)
      (hdelivered : sh'.delivered = sh.delivered) : Moves i c a sh a sh'
  | cancel (hcall : a.call = none) : Moves i c a sh a.alerted { sh with cancelled := true }
  | alert (hcall : a.call = none) (hcancelled : sh.cancelled = true) : Moves i c a sh a.alerted sh
  | note (m : Message) (hcall : a.call = none) :
      Moves i c a sh a { sh with bus := sh.bus.note c.stopOnFail m }
  | push {m : Message} (hcall : a.call = none) (hpermits : a.Permits i m)
      (hnoted : c.stopOnFail = true → m.event.isTestFailure = true →
        sh.bus.delivery.stopped = true) :
      Moves i c a sh { a with call := some (m, sh.bus.sent) } { sh with bus := sh.bus.push m }
  | answer {m : Message} {ticket : Nat} (hcall : a.call = some (m, ticket))
      (hpermits : a.Permits i m) (hanswers : sh.bus.answers m ticket = true) :
      Moves i c a sh (a.answered i m sh.bus.goesOn) (sh.answer m)

/-! ## A step is a move -/

namespace Thread

variable {due : Nat} {value : α → Nat} {sh sh' : Shared σ ω} {t t' : Thread ω α} {a : Account}

/-- An account goes on to describe a thread when others act. -/
theorem HasAccount.mono (h : t.HasAccount i due value c sh a)
    (hcancelled : sh.cancelled = true → sh'.cancelled = true)
    (hstopped : sh.bus.delivery.stopped = true → sh'.bus.delivery.stopped = true) :
    t.HasAccount i due value c sh' a :=
  ⟨h.abides, h.settles, fun ha => hcancelled (h.aware ha), h.call_eq,
    fun m next ht hs hm => hstopped (h.noted m next ht hs hm)⟩

/-- A thread that is about to queue a message may do so, and goes on with the account of its
answer. -/
theorem HasAccount.queue {m : Message} {next : Bool → Process ω α}
    (h : t.HasAccount i due value c sh a) (hrest : t.rest = .queue m next) :
    a.Permits i m ∧ ∀ b, (next b).Abides (a.answered i m b).stance (fun _ _ => True) ∧
      (next b).Yields fun as x => Settles i due value (a.answered i m b).owed
        (a.answered i m b).failed (messages (visible as)) x := by
  have habides := h.abides
  have hsettles := h.settles
  rw [hrest] at habides hsettles
  have hallows := (Abides.of_step sh.world (habides.of_queue true)).1
  refine ⟨⟨hallows.1, hallows.2.1, hallows.2.2, ?_⟩, fun b => ⟨?_, fun as x ht => ?_⟩⟩
  · obtain ⟨as, x, ht⟩ := (next true).exists_trace sh.world
    exact (hsettles.of_queue true as x ht).cons.1
  · exact (Abides.of_step sh.world (habides.of_queue b)).2 trivial
  · exact (hsettles.of_queue b as x ht).cons.2

/-- What the account of a thread that has ended says. -/
theorem HasAccount.of_done {x : α}
    (h : (ready (.done x) : Thread ω α).HasAccount i due value c sh a) :
    a.stance.IsFree ∧ a.call = none ∧ a.owed = due ∧ a.failed = value x := by
  have hsettles := h.settles.of_done
  refine ⟨h.abides.of_done.1, h.call_eq, ?_, ?_⟩
  · have hbalance := hsettles.balance
    rw [← Nat.zero_add due, ← Nat.zero_add a.owed]
    exact hbalance.symm
  · exact hsettles.failed_eq.symm

/-- **A step of a thread moves its account**, on an asynchronous bus. -/
theorem exists_move (hkind : c.kind = .asynchronous) (h : t.HasAccount i due value c sh a)
    (hs : t.step? c sh = some (t', sh')) :
    ∃ a', t'.HasAccount i due value c sh' a' ∧ Moves i c a sh a' sh' := by
  cases t with
  | ready p =>
    have hcall : a.call = none := h.call_eq
    cases p with
    | done x => cases hs
    | queue m next =>
      simp only [step?, hkind, Option.some.injEq, Prod.mk.injEq] at hs
      obtain ⟨rfl, rfl⟩ := hs
      refine ⟨a, ⟨h.abides, h.settles, h.aware, h.call_eq, ?_⟩, .note m hcall⟩
      rintro m' next' ⟨⟩ hstop hfailed
      simp [AsynchronousBus.note, Delivery.noteFailure, hstop, hfailed, Delivery.stop]
    | cancel next =>
      cases hs
      refine ⟨a.alerted, ⟨?_, h.settles.of_cancel, fun _ => rfl, h.call_eq,
        by rintro _ _ ⟨⟩⟩, .cancel hcall⟩
      exact (Abides.of_step sh.world h.abides.of_cancel).2 trivial
    | askCancelled next =>
      cases hs
      have hnext := (Abides.of_step sh.world (h.abides.of_askCancelled sh.cancelled)).2 h.aware
      have hsettles := h.settles.of_askCancelled sh.cancelled
      cases hcancelled : sh.cancelled with
      | true =>
        rw [hcancelled] at hnext hsettles
        exact ⟨a.alerted, ⟨hnext, hsettles, fun _ => hcancelled, h.call_eq,
          by rintro _ _ ⟨⟩⟩, .alert hcall hcancelled⟩
      | false =>
        rw [hcancelled] at hnext hsettles
        exact ⟨a, ⟨hnext, hsettles, h.aware, h.call_eq, by rintro _ _ ⟨⟩⟩,
          .idle hcall rfl rfl rfl rfl⟩
    | world change next =>
      cases hs
      exact ⟨a, ⟨h.abides.of_world sh.world, h.settles.of_world sh.world, h.aware, h.call_eq,
        by rintro _ _ ⟨⟩⟩, .idle hcall rfl rfl rfl rfl⟩
    | journal entry next =>
      cases hs
      have hnext := (Abides.of_step sh.world h.abides.of_journal).2 trivial
      refine ⟨a, ⟨hnext, h.settles.of_journal, h.aware, h.call_eq, by rintro _ _ ⟨⟩⟩,
        .idle hcall rfl rfl ?_ ?_⟩
      · simp only [Shared.answers, Shared.record, List.filterMap_append]
        exact List.append_nil _
      · exact Shared.delivered_record fun _ hc => by cases List.mem_singleton.mp hc
  | noted m next =>
    cases hs
    obtain ⟨hpermits, -⟩ := h.queue rfl
    exact ⟨{ a with call := some (m, sh.bus.sent) },
      ⟨h.abides, h.settles, h.aware, rfl, by rintro _ _ ⟨⟩⟩,
      .push h.call_eq hpermits (h.noted m next rfl)⟩
  | sent m ticket next =>
    simp only [step?] at hs
    split at hs
    · next hanswers =>
      simp only [Option.some.injEq, Prod.mk.injEq] at hs
      obtain ⟨rfl, rfl⟩ := hs
      obtain ⟨hpermits, hnext⟩ := h.queue rfl
      obtain ⟨habides, hsettles⟩ := hnext sh.bus.goesOn
      refine ⟨_, ⟨habides, hsettles, fun haware => ?_, rfl, by rintro _ _ ⟨⟩⟩,
        .answer h.call_eq hpermits hanswers⟩
      -- nobody learns of the cancellation by an answer
      refine h.aware ?_
      simp only [Account.answered, Stance.after, Stance.afterAnswer] at haware
      split at haware
      · simp only [Stance.afterSending] at haware
        split at haware <;> exact haware
      · cases haware
    · cases hs

end Thread

end TestEngine
