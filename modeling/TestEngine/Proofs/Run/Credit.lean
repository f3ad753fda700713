import TestEngine.Proofs.Run.Books

/-!
# Credit

How many nodes may still start once a parallel run is to stop. Each thread that does not know of it
may start one more node: it is told to stop then, and cancels the run before it does anything else.
So a thread that is *loose* has one node to its credit, and takes the credit with it when it leaves;
and once the run is cancelled, threads that join have none.

* `Credit` — the nodes that started since the run is to stop, and the credit of the threads. It is
  kept by every move of an account, by the dispatcher, and when a thread joins or leaves.
-/

namespace TestEngine

variable {σ ω : Type} {n debt past base : Nat} {i : NodeIds} {c : Transport σ}
  {sh sh' : Shared σ ω} {accounts left right : List Account} {a a' : Account}

/-- The thread waits for a message that starts a node and that was delivered. -/
def Account.heard (handled : Nat) (a : Account) : Bool :=
  a.call.any fun x => x.1.event.isStarting && decide (x.2 < handled)

/-- The thread may start one more node, or has done so in a way that nobody noticed. -/
def Account.isLoose (handled : Nat) (a : Account) : Bool :=
  decide (a.stance.notice = .unaware) && !a.heard handled

/-- The nodes that started. -/
def Shared.starts (sh : Shared σ ω) : Nat := sh.delivered.countP (·.event.isStarting)

/-- Once more messages are delivered, no more threads are loose. -/
theorem Account.countP_isLoose_succ_le (handled : Nat) (accounts : List Account) :
    accounts.countP (·.isLoose (handled + 1)) ≤ accounts.countP (·.isLoose handled) := by
  refine List.countP_mono_left fun a _ hl => ?_
  simp only [isLoose, heard, Bool.and_eq_true, Bool.not_eq_true', decide_eq_true_eq] at hl ⊢
  refine ⟨hl.1, ?_⟩
  cases hcall : a.call with
  | none => rfl
  | some x =>
    have hlater := hl.2
    rw [hcall, Option.any_some] at hlater
    rw [Option.any_some]
    cases hstarting : x.1.event.isStarting with
    | false => rfl
    | true =>
      simp only [hstarting, Bool.true_and, decide_eq_false_iff_not] at hlater ⊢
      omega

theorem Shared.starts_dispatch {m : Message} {rest : List Message}
    (h : sh.bus.channel = m :: rest) : (sh.dispatch c).starts =
      sh.starts + if m.event.isStarting = true then 1 else 0 := by
  obtain ⟨reports, hdelivered, herror⟩ := exists_reports (c := c) h
  have hnone : reports.countP (·.event.isStarting) = 0 := by
    refine List.countP_eq_zero.mpr fun m' hm' hstarting => ?_
    have he := herror m' hm'
    obtain ⟨ids, event⟩ := m'
    cases event with
    | error _ => cases hstarting
    | _ => cases he
  rw [starts, starts, hdelivered, List.countP_append, List.countP_cons, hnone, Nat.zero_add]

/-- A thread waits for the next message if that starts a node. -/
theorem Flight.exists_waits {m : Message} {rest : List Message} (h : Flight i c sh accounts)
    (hch : sh.bus.channel = m :: rest) (hstarting : m.event.isStarting = true) :
    ∃ left a right, accounts = left ++ a :: right ∧ a.call = some (m, sh.bus.handled) := by
  have hmem : (m, sh.bus.handled) ∈ sh.undelivered := by
    rw [Shared.undelivered, hch, List.zipIdx_cons]
    exact List.mem_filter.mpr ⟨List.mem_cons_self, hstarting⟩
  obtain ⟨a, ha, hwaits⟩ := List.mem_flatMap.mp (h.waits_perm.subset hmem)
  obtain ⟨left, right, rfl⟩ := List.append_of_mem ha
  exact ⟨left, a, right, rfl, Option.mem_toList.mp (List.mem_filter.mp hwaits).1⟩

/-- The run is to stop, and `base` nodes started before that. Each node that started since then
took the credit of a thread; once the run is cancelled, no thread is given credit. -/
structure Credit (n base : Nat) (sh : Shared σ ω) (accounts : List Account) : Prop where
  stopped : sh.bus.delivery.stopped = true
  starts_le : sh.starts + accounts.countP (·.isLoose sh.bus.handled) ≤
    base + if sh.cancelled then n else accounts.length

namespace Credit

/-- At the moment at which the run is to stop, every thread may have credit. -/
theorem start (hstopped : sh.bus.delivery.stopped = true) (hlength : accounts.length ≤ n) :
    Credit n sh.starts sh accounts := by
  refine ⟨hstopped, Nat.add_le_add_left ?_ _⟩
  have hle := List.countP_le_length (p := fun a => a.isLoose sh.bus.handled) (l := accounts)
  split
  · exact Nat.le_trans hle hlength
  · exact hle

theorem starts_le_add (h : Credit n base sh accounts) (hlength : accounts.length ≤ n) :
    sh.starts ≤ base + n := by
  have hle := h.starts_le
  split at hle <;> omega

/-- An account changes and no message is delivered: nobody gets new credit. -/
theorem replace (h : Credit n base sh (left ++ a :: right))
    (hlength : (left ++ a :: right).length ≤ n)
    (hstopped : sh'.bus.delivery.stopped = true) (hdelivered : sh'.delivered = sh.delivered)
    (hhandled : sh'.bus.handled = sh.bus.handled)
    (hcancelled : sh.cancelled = true → sh'.cancelled = true)
    (hloose : a'.isLoose sh.bus.handled = true → a.isLoose sh.bus.handled = true) :
    Credit n base sh' (left ++ a' :: right) where
  stopped := hstopped
  starts_le := by
    have hle := h.starts_le
    have hone : (if a'.isLoose sh.bus.handled = true then 1 else 0) ≤
        if a.isLoose sh.bus.handled = true then 1 else 0 := by
      split
      · next hl => exact Nat.le_of_eq (if_pos (hloose hl)).symm
      · exact Nat.zero_le _
    rw [Shared.starts, hdelivered, hhandled]
    simp only [List.countP_append, List.countP_cons, List.length_append, List.length_cons,
      Shared.starts] at hle hlength ⊢
    -- if the run is cancelled by this step, `n` takes the place of the number of threads
    cases hold : sh.cancelled with
    | true =>
      rw [hold] at hle
      rw [hcancelled hold]
      simp only [if_true] at hle ⊢
      omega
    | false =>
      rw [hold] at hle
      simp only [Bool.false_eq_true, if_false] at hle
      cases sh'.cancelled with
      | true =>
        simp only [if_true]
        omega
      | false =>
        simp only [Bool.false_eq_true, if_false]
        omega

/-- An answer that tells a thread to stop leaves it no credit, unless it was about a diagnostic
message. -/
theorem isLoose_of_answered {m : Message} {ticket handled : Nat}
    (hcall : a.call = some (m, ticket)) (h : (a.answered i m false).isLoose handled = true) :
    a.isLoose handled = true := by
  have hnotice := of_decide_eq_true ((Bool.and_eq_true _ _).mp h).1
  rw [Account.answered, Stance.notice_after, Bool.false_or] at hnotice
  split at hnotice
  · next hcond =>
    have hdiagnostic : m.event.isDiagnostic = true := by simpa [hnotice] using hcond
    have hstarting : m.event.isStarting = false := by
      obtain ⟨ids, event⟩ := m
      cases event <;> first | rfl | cases hdiagnostic
    simp [Account.isLoose, Account.heard, hcall, hstarting, hnotice]
  · cases hnotice

/-- **No move gives credit.** -/
theorem move (h : Credit n base sh (left ++ a :: right)) (hm : Moves i c a sh a' sh')
    (hlength : (left ++ a :: right).length ≤ n) : Credit n base sh' (left ++ a' :: right) := by
  have halerted : a.alerted.isLoose sh.bus.handled = true → a.isLoose sh.bus.handled = true :=
    by rintro ⟨⟩
  cases hm with
  | idle hcall hbus hcancelled hanswers hdelivered =>
    refine h.replace hlength ?_ hdelivered ?_ (fun hc => hcancelled.trans hc) id
    · rw [hbus]
      exact h.stopped
    · rw [hbus]
  | cancel hcall => exact h.replace hlength h.stopped rfl rfl (fun _ => rfl) halerted
  | alert hcall hcancelled => exact h.replace hlength h.stopped rfl rfl id halerted
  | note m hcall =>
    exact h.replace hlength (Delivery.stopped_noteFailure h.stopped) rfl rfl id id
  | push hcall hpermits hnoted =>
    refine h.replace hlength h.stopped rfl rfl id fun hl => ?_
    simp only [Account.isLoose, Account.heard, hcall, Bool.and_eq_true, Option.any_none] at hl ⊢
    exact ⟨hl.1, rfl⟩
  | @answer m ticket hcall hpermits hanswers =>
    have hno : sh.bus.goesOn = false := by rw [AsynchronousBus.goesOn, h.stopped]; rfl
    rw [hno]
    refine h.replace hlength h.stopped ?_ rfl id (isLoose_of_answered hcall)
    exact Shared.delivered_record fun _ hc => by cases List.mem_singleton.mp hc

/-- A thread that joins has credit, unless the run is cancelled. -/
theorem join (h : Credit n base sh accounts)
    (haware : sh.cancelled = true → a.stance.notice = .aware) :
    Credit n base sh (accounts ++ [a]) where
  stopped := h.stopped
  starts_le := by
    have hle := h.starts_le
    simp only [List.countP_append, List.countP_cons, List.countP_nil, List.length_append,
      List.length_singleton]
    cases hcancelled : sh.cancelled with
    | true =>
      rw [hcancelled] at hle
      have hnot : a.isLoose sh.bus.handled = false := by
        simp [Account.isLoose, haware hcancelled]
      simpa [hnot] using hle
    | false =>
      rw [hcancelled] at hle
      simp only [Bool.false_eq_true, if_false] at hle ⊢
      split <;> omega

/-- A thread that leaves takes its credit with it. -/
theorem leave (h : Credit n base sh (left ++ a :: right)) (hfree : a.stance.IsFree)
    (hcall : a.call = none) (haware : a.stance.notice = .aware → sh.cancelled = true) :
    Credit n base sh (left ++ right) where
  stopped := h.stopped
  starts_le := by
    have hle := h.starts_le
    simp only [List.countP_append, List.countP_cons, List.length_append, List.length_cons] at hle ⊢
    cases hcancelled : sh.cancelled with
    | true =>
      rw [hcancelled] at hle
      simp only [if_true] at hle ⊢
      omega
    | false =>
      -- the bound goes down by one with the thread, so what leaves must have been loose
      rw [hcancelled] at hle
      have hunaware : a.stance.notice = .unaware := by
        cases hnotice : a.stance.notice with
        | unaware => rfl
        | told => exact absurd hnotice hfree
        | aware => rw [haware hnotice] at hcancelled; cases hcancelled
      have hloose : a.isLoose sh.bus.handled = true := by
        simp [Account.isLoose, Account.heard, hunaware, hcall]
      simp only [hloose, if_true, Bool.false_eq_true, if_false] at hle ⊢
      omega

/-- **A node that starts takes the credit of the thread that waits for it.** -/
theorem dispatch (h : Credit n base sh accounts) (hflight : Flight i c sh accounts) :
    Credit n base (sh.dispatch c) accounts := by
  cases hch : sh.bus.channel with
  | nil =>
    rw [Shared.dispatch_eq_self hch]
    exact h
  | cons m rest =>
    refine ⟨Shared.stopped_dispatch h.stopped, ?_⟩
    have hle := h.starts_le
    have hhandled : (sh.dispatch c).bus.handled = sh.bus.handled + 1 := by
      rw [Shared.bus_dispatch]
      unfold AsynchronousBus.dispatch
      rw [hch]
    rw [Shared.starts_dispatch hch, hhandled, Shared.cancelled_dispatch]
    by_cases hstarting : m.event.isStarting = true
    · -- the thread that waits for the answer was loose, and now it can only be told to stop
      obtain ⟨left, a, right, rfl, hcall⟩ := hflight.exists_waits hch hstarting
      have hunaware := (hflight.permits a (by simp) m _ hcall).starting hstarting
      have hloose : a.isLoose sh.bus.handled = true := by
        simp [Account.isLoose, Account.heard, hcall, hunaware]
      have hheard : a.isLoose (sh.bus.handled + 1) = false := by
        simp [Account.isLoose, Account.heard, hcall, hstarting]
      have hleft := Account.countP_isLoose_succ_le sh.bus.handled left
      have hright := Account.countP_isLoose_succ_le sh.bus.handled right
      simp only [List.countP_append, List.countP_cons, hloose, hheard, hstarting, if_true,
        Bool.false_eq_true, if_false] at hle ⊢
      omega
    · have hmono := Account.countP_isLoose_succ_le sh.bus.handled accounts
      rw [if_neg hstarting]
      omega

end Credit

end TestEngine
