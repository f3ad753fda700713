import TestEngine.Proofs.Run.Credit
import TestEngine.Proofs.Run.Script

/-!
# The staff of a parallel run

The threads that a parallel run has at a time, with their accounts: the calling thread while it
opens or ends the run, and the workers in between. On an asynchronous bus each turn is a move of one
account, or a delivery, or somebody joins or leaves; so every turn keeps the books.

* `Process.IsFresh` — a process with an empty account. The run of a collection is one.
* `ParallelRun.Kept` — the books of a parallel run are kept. Every turn keeps this.
-/

namespace TestEngine

open Process

variable {σ ω α : Type} {i : NodeIds} {c : Transport σ}

/-! ## Accounts at the beginning -/

theorem idsWhere_eq_nil {p : Event → Bool} {ms : List Message} (h : ∀ m ∈ ms, p m.event = false) :
    idsWhere p ms = [] := by
  refine List.map_eq_nil_iff.mpr (List.filter_eq_nil_iff.mpr fun m hm => ?_)
  rw [h m hm]
  exact nofun

/-- From each message of a list on, as many nodes finish as start. -/
def Covers (i : NodeIds) (ms : List Message) : Prop :=
  ∀ ns, ns <:+ ms → (startedIds ns).count i ≤ (finishedIds ns).count i

namespace Covers

variable {ms ns : List Message}

/-- Messages of which none starts a node. -/
theorem of_not_starting (h : ∀ m ∈ ms, m.event.isStarting = false) : Covers i ms := by
  intro ns hns
  have hnone : startedIds ns = [] := idsWhere_eq_nil fun m hm => h m (hns.subset hm)
  rw [hnone]
  exact Nat.zero_le _

theorem cons {m : Message} (h : Covers i ms)
    (hall : (startedIds (m :: ms)).count i ≤ (finishedIds (m :: ms)).count i) :
    Covers i (m :: ms) := by
  intro ns hns
  rcases List.suffix_cons_iff.mp hns with rfl | hns
  · exact hall
  · exact h ns hns

theorem append (h : Covers i ms) (h' : Covers i ns) : Covers i (ms ++ ns) := by
  induction ms with
  | nil => exact h'
  | cons m ms ih =>
    have hrest := ih fun os hos => h os (hos.trans (List.suffix_cons m ms))
    have hall := Nat.add_le_add (h _ List.suffix_rfl) (h' _ List.suffix_rfl)
    refine hrest.cons ?_
    rw [← List.cons_append, startedIds, finishedIds, count_idsWhere_append, count_idsWhere_append]
    exact hall

end Covers

/-- In a well-nested chronicle each node that starts finishes later. -/
theorem Chronicle.WellNested.covers {t : Chronicle} (h : t.WellNested) :
    Covers i (messages t.occurrences) := by
  induction t with
  | nil => exact .of_not_starting (List.forall_mem_nil _)
  | entry o rest ih =>
    rw [messages_entry]
    refine .append (.of_not_starting fun m hm => ?_) (ih h.of_entry.2)
    have hplain := h.of_entry.1
    cases o with
    | handed _ => cases hm
    | activity _ => cases hm
    | queued m' b =>
      rw [List.mem_singleton.mp hm]
      exact isStarting_of_lifecycle? _ hplain
  | node f inside rest ihi ih =>
    have hclosing : Covers i (messages f.closing) := by
      refine .of_not_starting fun m hm => ?_
      rcases (Frame.of_mem_messages_closing hm).2 with hfinish | ⟨error, hcleanup⟩
      · rw [hfinish]
        exact isStarting_finish h.2.1.finish_eq
      · rw [hcleanup]
        rfl
    rw [messages_node]
    refine .cons ((ihi h.inside).append (hclosing.append (ih h.rest))) ?_
    have hall := (startedIds_perm_finishedIds h).count_eq i
    rw [messages_node] at hall
    exact Nat.le_of_eq hall

/-- A process that abides from the beginning on and squares an empty account. -/
structure Process.IsFresh (i : NodeIds) (p : Process ω Counts) : Prop where
  abides : p.Abides {} fun _ _ => True
  settles : p.Yields fun as n => Settles i 0 (·.failed) 0 0 (messages (visible as)) n

/-- A node of which the law holds squares an empty account. -/
theorem NodeRun.settles {known : List String} {ids : NodeIds} {as : List Action} {n : Counts}
    (h : NodeRun known ids as n) : Settles i 0 (·.failed) 0 0 (messages (visible as)) n := by
  obtain ⟨f, inside, rfl, hvisible, hlaw, hbelow, rfl⟩ := h.told
  have hevery : (Chronicle.node f inside .nil).Every (NodeLaw known) := ⟨hlaw, hbelow, trivial⟩
  have hnested : (Chronicle.node f inside .nil).WellNested :=
    ⟨List.forall_mem_nil _, hevery.imp fun _ _ h => h.nested⟩
  have hmessages : messages (visible as) =
      messages (Chronicle.node f inside .nil).occurrences := by
    rw [hvisible, Chronicle.occurrences, Chronicle.occurrences, List.append_nil]
  have htally : tally (messages (visible as)) = tally (messages inside.occurrences) := by
    rw [hmessages, tally_node hlaw.ended.isResult_finish]
    exact Counts.add_zero _
  refine ⟨?_, ?_, ?_⟩
  · rw [hmessages]
    exact ((Chronicle.startedIds_perm_finishedIds hnested).count_eq i).symm
  · rw [hmessages]
    exact hnested.covers
  · rw [htally]
    exact (Nat.zero_add _).symm

theorem Collection.isFresh_run (setup : RunSetup ω) {assemblyIds : NodeIds}
    (hlevel : assemblyIds.level = .assembly) (l : Collection ω) (cases : List (TestCase ω)) :
    (l.run setup assemblyIds cases).IsFresh i where
  abides := (l.abides_run setup assemblyIds cases).mono fun _ _ h => h.mono fun _ _ => trivial
  settles := (l.yields_run (cases.map (·.id)) setup hlevel (List.Subperm.refl _)).mono
    fun _ _ h => h.settles

/-- The nodes `i` that the calling thread starts when it opens a run, and finishes when it ends the
run. -/
def AssemblyRun.due (i : NodeIds) (r : AssemblyRun ω) : Nat := [r.ids].count i

namespace AssemblyRun

variable {r : AssemblyRun ω} {n : Counts}

/-- The message does not count for an account: it neither starts nor finishes a node, nor does it
tell of a failed test. -/
def CountsForNothing (m : Message) : Prop :=
  m.event.isStarting = false ∧ m.event.isFinished = false ∧ m.event.isTestFailure = false

/-- The assembly has started, and nothing else. -/
theorem settles_start {ms : List Message} {x : Option (List (Process ω Counts))}
    (hms : ∀ m ∈ ms, CountsForNothing m) :
    Settles i (r.due i) (fun _ : Option (List (Process ω Counts)) => 0) 0 0
      (⟨r.ids, .starting r.start⟩ :: ms) x := by
  have hstarted : startedIds ms = [] := idsWhere_eq_nil fun m hm => (hms m hm).1
  have hfinished : finishedIds ms = [] := idsWhere_eq_nil fun m hm => (hms m hm).2.1
  have hall : (startedIds (⟨r.ids, .starting r.start⟩ :: ms)) = r.ids :: startedIds ms := rfl
  have hnone : (finishedIds (⟨r.ids, .starting r.start⟩ :: ms)) = finishedIds ms := rfl
  refine ⟨?_, fun ns hns => ?_, ?_⟩
  · rw [hall, hnone, hstarted, hfinished]
    exact Nat.zero_add _
  · rcases List.suffix_cons_iff.mp hns with rfl | hns
    · rw [hall, hstarted]
      exact Nat.le_add_left _ _
    · exact Nat.le_trans (Covers.of_not_starting (fun m hm => (hms m hm).1) ns hns)
        (Nat.le_add_right _ _)
  · refine (Nat.zero_add _).symm.trans (congrArg (0 + ·) ?_).symm
    refine List.countP_eq_zero.mpr fun m hm => ?_
    rcases List.mem_cons.mp hm with rfl | hm
    · exact nofun
    · rw [(hms m hm).2.2]
      exact nofun

/-- The blocks of user code do not count. -/
theorem countsForNothing_of_madeOf {as : List Action} (h : MadeOf UserBlock as) :
    ∀ m ∈ messages (visible as), CountsForNothing m := by
  refine h.forall_mem (f := fun as => messages (visible as)) rfl (fun as bs => ?_) ?_
  · rw [visible_append, messages_append]
  · intro as has
    cases has with
    | diagnostic ids text b => exact List.forall_mem_singleton.mpr ⟨rfl, rfl, rfl⟩
    | note text => exact List.forall_mem_nil _

/-- The collections that a run finds are run afresh. -/
theorem yields_collectionRuns (r : AssemblyRun ω) : r.collectionRuns.Yields fun as runs =>
    MadeOf UserBlock as ∧ ∀ p ∈ runs, p.IsFresh i := by
  refine (Collection.yields_ordered r.setup r.assembly r.ids r.cases).bind ?_
  rintro as collections ⟨has, -⟩
  refine .pure ⟨has.append .nil, fun p hp => ?_⟩
  obtain ⟨l, -, rfl⟩ := List.mem_map.mp hp
  exact l.isFresh_run r.setup rfl _

/-- The process that opens a run starts the assembly, and finds collections whose runs are fresh. -/
theorem yields_opening (r : AssemblyRun ω) : r.opening.Yields fun as found =>
    Heeding (fun _ => True) {} as ∧
    Settles i (r.due i) (fun _ : Option (List (Process ω Counts)) => 0) 0 0
      (messages (visible as)) found ∧
    ∀ runs, found = some runs → ∀ p ∈ runs, p.IsFresh i := by
  unfold opening
  refine (yields_report r.ids _).bind ?_
  rintro _ goesOn rfl
  cases goesOn with
  | false =>
    refine .pure ⟨?_, settles_start (List.forall_mem_nil _), nofun⟩
    exact ⟨⟨nofun, fun _ => rfl, nofun⟩, fun _ => ⟨trivial, fun _ => ⟨nofun, trivial⟩⟩⟩
  | true =>
    refine Yields.bind (r.yields_collectionRuns (i := i)) ?_
    rintro as runs ⟨has, hruns⟩
    have hblocks : MadeOf (SetupBlock r.ids) as := has.mono fun _ => .user
    refine .pure ?_
    rw [List.append_nil]
    refine ⟨⟨⟨nofun, fun _ => rfl, nofun⟩, fun _ => ?_⟩,
      settles_start (countsForNothing_of_madeOf has), ?_⟩
    · exact (Heeding.of_setup hblocks (Stance.isFree_unaware none)).mono fun _ _ => trivial
    · rintro _ ⟨⟩
      exact hruns

/-- The process that ends a run finishes the assembly. -/
theorem yields_closing (r : AssemblyRun ω) (sum : Counts) {s : Stance} (hs : s.IsFree) :
    (r.closing sum).Yields fun as n => Heeding (fun _ => True) s as ∧
      Settles i 0 (·.failed) (r.due i) sum.failed (messages (visible as)) n := by
  unfold closing
  refine (yields_report r.ids _).bind ?_
  rintro _ b rfl
  refine .pure ⟨?_, ?_⟩
  · rw [List.append_nil]
    exact (Heeding.reported hs rfl rfl b).mono fun _ _ => trivial
  · rw [List.append_nil, visible_reported]
    exact ⟨(Nat.zero_add _).symm, Covers.of_not_starting (List.forall_mem_singleton.mpr rfl), rfl⟩

end AssemblyRun

/-- A worker that has taken a collection asks first whether the run is cancelled. -/
theorem Process.IsFresh.unlessCancelled {p : Process ω Counts} (h : p.IsFresh i) {s : Stance}
    (hs : s.IsFree) (hopen : s.openTest = none) :
    (unlessCancelled p).Yields fun as n => Heeding (fun _ => True) s as ∧
      Settles i 0 (·.failed) 0 0 (messages (visible as)) n := by
  refine yields_isCancelled.bind ?_
  rintro _ b rfl
  cases b with
  | true =>
    refine .pure ⟨⟨hs, fun _ => ⟨nofun, trivial⟩⟩, rfl, ?_, rfl⟩
    exact Covers.of_not_starting (List.forall_mem_nil _)
  | false =>
    intro as n ht
    refine ⟨⟨hs, fun hexpected => ?_⟩, h.settles as n ht⟩
    obtain rfl := Stance.eq_of_expects hs hopen hexpected
    exact h.abides as n ht

/-! ## Audits -/

namespace Moves

variable {a a' : Account} {sh sh' : Shared σ ω}

/-- Nobody takes the cancellation of a run back. -/
theorem cancelled (h : Moves i c a sh a' sh') (hcancelled : sh.cancelled = true) :
    sh'.cancelled = true := by
  cases h with
  | idle _ _ hsame => exact hsame.trans hcancelled
  | cancel _ => rfl
  | alert _ _ | note _ _ | push _ _ _ | answer _ _ _ => exact hcancelled

/-- Nobody takes the wish to stop back. -/
theorem stopped (h : Moves i c a sh a' sh') (hstopped : sh.bus.delivery.stopped = true) :
    sh'.bus.delivery.stopped = true := by
  cases h with
  | idle _ hbus =>
    rw [hbus]
    exact hstopped
  | note _ _ => exact Delivery.stopped_noteFailure hstopped
  | cancel _ | alert _ _ | push _ _ _ | answer _ _ _ => exact hstopped

/-- A move sends one message at most. -/
theorem exists_sent (h : Moves i c a sh a' sh') :
    ∃ ms, sh'.sent = sh.sent ++ ms ∧ ms.length ≤ 1 := by
  cases h with
  | idle _ hbus _ _ hdelivered =>
    refine ⟨[], ?_, Nat.zero_le _⟩
    rw [Shared.sent, hbus, hdelivered, List.append_nil]
    rfl
  | push _ _ _ => exact ⟨[_], Shared.sent_push _, Nat.le_refl _⟩
  | answer _ _ _ =>
    exact ⟨[], (Shared.sent_answer _).trans (List.append_nil _).symm, Nat.zero_le _⟩
  | cancel _ | alert _ _ | note _ _ => exact ⟨[], (List.append_nil _).symm, Nat.zero_le _⟩

end Moves

/-- The books are right; at no time more nodes had finished than started; and if `base` nodes
started before the run was to stop, what starts since then has credit. -/
structure Audit (n : Nat) (i : NodeIds) (c : Transport σ) (base? : Option Nat) (debt past : Nat)
    (sh : Shared σ ω) (accounts : List Account) : Prop where
  books : Books n i c debt past sh accounts
  covered : ∀ ms, ms <+: news sh.sent → (finishedIds ms).count i ≤ (startedIds ms).count i
  credit : ∀ base, base? = some base → Credit n base sh accounts

namespace Audit

variable {n debt past : Nat} {base? : Option Nat} {sh sh' : Shared σ ω}
  {accounts left right : List Account} {a a' : Account}

theorem move (h : Audit n i c base? debt past sh (left ++ a :: right))
    (hm : Moves i c a sh a' sh') : Audit n i c base? debt past sh' (left ++ a' :: right) where
  books := h.books.move hm
  covered := by
    intro ms hms
    have hcases : ms <+: news sh.sent ∨ ms = news sh'.sent := by
      obtain ⟨told, hsent, hone⟩ := hm.exists_sent
      have hone' : (news told).length ≤ 1 := Nat.le_trans (List.length_filter_le _ _) hone
      rw [hsent, news_append] at hms ⊢
      rcases hnews : news told with _ | ⟨m, _ | ⟨m', rest⟩⟩
      · rw [hnews, List.append_nil] at hms
        exact .inl hms
      · rw [hnews] at hms
        exact (List.prefix_concat_iff.mp hms).symm
      · rw [hnews] at hone'
        simp at hone'
    rcases hcases with hold | rfl
    · exact h.covered ms hold
    · rw [finishedIds_news, startedIds_news]
      exact (h.books.move hm).count_finishedIds_sent_le
  credit := fun base hbase => (h.credit base hbase).move hm h.books.figures.length_le

theorem dispatch (h : Audit n i c base? debt past sh accounts) :
    Audit n i c base? debt past (sh.dispatch c) accounts where
  books := h.books.dispatch
  covered := by
    rw [Shared.news_sent_dispatch]
    exact h.covered
  credit := fun base hbase => (h.credit base hbase).dispatch h.books.flight

theorem join (h : Audit n i c base? (debt + a.owed) (past + a.failed) sh accounts)
    (hlength : accounts.length < n) (hopen : a.stance.openTest = none) (hcall : a.call = none)
    (haware : sh.cancelled = true → a.stance.notice = .aware) :
    Audit n i c base? debt past sh (accounts ++ [a]) where
  books := h.books.join hlength hopen hcall
  covered := h.covered
  credit := fun base hbase => (h.credit base hbase).join haware

theorem leave (h : Audit n i c base? debt past sh (left ++ a :: right)) (hfree : a.stance.IsFree)
    (hcall : a.call = none) (haware : a.stance.notice = .aware → sh.cancelled = true) :
    Audit n i c base? (debt + a.owed) (past + a.failed) sh (left ++ right) where
  books := h.books.leave hcall
  covered := h.covered
  credit := fun base hbase => (h.credit base hbase).leave hfree hcall haware

/-- A thread that has ended leaves. -/
theorem leave_done {α : Type} {due : Nat} {value : α → Nat} {x : α}
    (h : Audit n i c base? debt past sh (left ++ a :: right))
    (ha : (.ready (.done x) : Thread ω α).HasAccount i due value c sh a) :
    Audit n i c base? (debt + due) (past + value x) sh (left ++ right) := by
  obtain ⟨hfree, hcall, howed, hfailed⟩ := ha.of_done
  rw [← howed, ← hfailed]
  exact h.leave hfree hcall ha.aware

end Audit

/-! ## Turns -/

/-- The stance of a thread that is about to begin. -/
def Shared.stance (sh : Shared σ ω) : Stance where
  notice := if sh.cancelled then .aware else .unaware

/-- The account of a thread that is about to begin. -/
def Shared.newAccount (sh : Shared σ ω) (owed failed : Nat) : Account where
  stance := sh.stance
  owed := owed
  failed := failed

/-- Whatever the steps before, what all traces of a thread end with is what they end with after a
step. -/
theorem Thread.yields_step {t t' : Thread ω α} {sh sh' : Shared σ ω} {P : α → Prop}
    (h : t.rest.Yields fun _ a => P a) (hs : t.step? c sh = some (t', sh')) :
    t'.rest.Yields fun _ a => P a := by
  cases proceeds_of_step? hs with
  | deliver _ | answer _ => exact Yields.of_queue h _
  | note _ | send => exact h
  | cancel => exact Yields.of_cancel h
  | ask => exact Yields.of_askCancelled h _
  | world => exact Yields.of_world h _
  | journal => exact Yields.of_journal h

section NewAccount

variable {sh : Shared σ ω} {owed failed due : Nat} {value : α → Nat} {p : Process ω α}

theorem Shared.isFree_stance (sh : Shared σ ω) : sh.stance.IsFree := by
  unfold Stance.IsFree stance
  cases sh.cancelled <;> exact nofun

theorem Shared.newAccount_aware (sh : Shared σ ω) (owed failed : Nat)
    (h : sh.cancelled = true) : (sh.newAccount owed failed).stance.notice = .aware := by
  simp [newAccount, stance, h]

theorem Thread.hasAccount_ready (h : p.Yields fun as x => Heeding (fun _ => True) sh.stance as ∧
      Settles i due value owed failed (messages (visible as)) x) :
    (Thread.ready p).HasAccount i due value c sh (sh.newAccount owed failed) where
  abides := h.mono fun _ _ h => h.1
  settles := h.mono fun _ _ h => h.2
  aware := by
    intro haware
    cases hcancelled : sh.cancelled with
    | true => rfl
    | false =>
      simp only [Shared.newAccount, Shared.stance, hcancelled, Bool.false_eq_true, if_false]
        at haware
      cases haware
  call_eq := rfl
  noted := fun _ _ ht => nomatch ht

end NewAccount

/-- The threads of a stage have accounts. The nodes that nobody's account owes are `debt`, and the
failed tests that nobody's account has are `past`. -/
inductive ParallelStage.Staffed (i : NodeIds) (r : AssemblyRun ω) (c : Transport σ)
    (sh : Shared σ ω) : ParallelStage ω → Nat → Nat → List Account → Prop
  | opening {t : Thread ω (Option (List (Process ω Counts)))} {a : Account}
      (h : t.HasAccount i (r.due i) (fun _ => 0) c sh a)
      (hfound : t.rest.Yields fun _ found => ∀ runs, found = some runs → ∀ p ∈ runs, p.IsFresh i) :
      Staffed i r c sh (.opening t) 0 0 [a]
  | inside {waiting : List (Process ω Counts)} {sum : Counts}
      (staff : List (Account × Thread ω Counts)) (hwaiting : ∀ p ∈ waiting, p.IsFresh i)
      (h : ∀ x ∈ staff, x.2.HasAccount i 0 (·.failed) c sh x.1) :
      Staffed i r c sh (.inside waiting (staff.map (·.2)) sum) (r.due i) sum.failed
        (staff.map (·.1))
  | closing {t : Thread ω Counts} {a : Account} (h : t.HasAccount i 0 (·.failed) c sh a) :
      Staffed i r c sh (.closing t) 0 0 [a]

/-- The books of a parallel run are kept, and stand the audit. -/
def ParallelRun.Kept (n : Nat) (i : NodeIds) (r : AssemblyRun ω) (c : Transport σ)
    (base? : Option Nat) (run : ParallelRun σ ω) : Prop :=
  ∃ debt past accounts, run.stage.Staffed i r c run.shared debt past accounts ∧
    Audit n i c base? debt past run.shared accounts

namespace ParallelRun.Kept

variable {n : Nat} {r : AssemblyRun ω} {base? : Option Nat} {run : ParallelRun σ ω}
  {sh : Shared σ ω}

theorem dispatch (h : run.Kept n i r c base?) :
    ({ run with shared := run.shared.dispatch c } : ParallelRun σ ω).Kept n i r c base? := by
  obtain ⟨stage, sh⟩ := run
  obtain ⟨debt, past, accounts, hstaff, haudit⟩ := h
  have hstaff : stage.Staffed i r c sh debt past accounts := hstaff
  have hcancelled : sh.cancelled = true → (sh.dispatch c).cancelled = true :=
    fun h => Shared.cancelled_dispatch.trans h
  refine ⟨debt, past, accounts, ?_, haudit.dispatch⟩
  show stage.Staffed i r c (sh.dispatch c) debt past accounts
  cases hstaff with
  | opening h hfound => exact .opening (h.mono hcancelled Shared.stopped_dispatch) hfound
  | inside staff hwaiting h =>
    exact .inside staff hwaiting fun x hx => (h x hx).mono hcancelled Shared.stopped_dispatch
  | closing h => exact .closing (h.mono hcancelled Shared.stopped_dispatch)

/-- The calling thread begins to end the run. -/
theorem close {sum : Counts} (hn : 0 < n)
    (h : Audit n i c base? (r.due i) sum.failed sh []) :
    (⟨.closing (.ready (r.closing sum)), sh⟩ : ParallelRun σ ω).Kept n i r c base? := by
  have haccount : (Thread.ready (r.closing sum)).HasAccount i 0 (·.failed) c sh
      (sh.newAccount (r.due i) sum.failed) :=
    Thread.hasAccount_ready (r.yields_closing sum sh.isFree_stance)
  refine ⟨0, 0, [sh.newAccount (r.due i) sum.failed], .closing haccount, ?_⟩
  have hnobody : Audit n i c base? (0 + r.due i) (0 + sum.failed) sh [] := by
    rw [Nat.zero_add, Nat.zero_add]
    exact h
  exact hnobody.join hn rfl rfl (sh.newAccount_aware _ _)

theorem stepCaller (hkind : c.kind = .asynchronous) (hn : 0 < n) (h : run.Kept n i r c base?) :
    (run.stepCaller r c).Kept n i r c base? := by
  obtain ⟨stage, sh⟩ := run
  have hkept := h
  obtain ⟨debt, past, accounts, hstaff, haudit⟩ := h
  have hstaff : stage.Staffed i r c sh debt past accounts := hstaff
  have haudit : Audit n i c base? debt past sh accounts := haudit
  -- while the run is opened or closed, the calling thread is alone
  cases hstaff with
  | @opening t a ht hfound =>
    have halone : Audit n i c base? 0 0 sh ([] ++ a :: []) := haudit
    cases hvalue : t.value? with
    | some found =>
      obtain rfl := Thread.eq_of_value? hvalue
      have hleft := halone.leave_done ht
      rw [Nat.zero_add, Nat.zero_add] at hleft
      cases found with
      | some runs =>
        exact ⟨_, _, [], .inside [] (hfound.of_done runs rfl) (List.forall_mem_nil _), hleft⟩
      | none => exact close hn hleft
    | none =>
      cases hs : t.step? c sh with
      | none =>
        simp only [ParallelRun.stepCaller, hvalue, hs]
        exact hkept
      | some next =>
        simp only [ParallelRun.stepCaller, hvalue, hs]
        obtain ⟨a', ht', hmove⟩ := Thread.exists_move hkind ht hs
        have hfound' := Thread.yields_step hfound hs
        exact ⟨0, 0, [a'], .opening ht' hfound', halone.move hmove⟩
  | @inside waiting sum staff hwaiting ht =>
    cases staff with
    | cons x staff => cases waiting <;> exact hkept
    | nil =>
      cases waiting with
      | cons p waiting => exact hkept
      | nil => exact close hn haudit
  | @closing t a ht =>
    have halone : Audit n i c base? 0 0 sh ([] ++ a :: []) := haudit
    cases hs : t.step? c sh with
    | none =>
      simp only [ParallelRun.stepCaller, hs]
      exact hkept
    | some next =>
      simp only [ParallelRun.stepCaller, hs]
      obtain ⟨a', ht', hmove⟩ := Thread.exists_move hkind ht hs
      exact ⟨0, 0, [a'], .closing ht', halone.move hmove⟩

theorem stepTake (h : run.Kept n i r c base?) :
    (run.stepTake (.atMost n)).Kept n i r c base? := by
  obtain ⟨stage, sh⟩ := run
  have hkept := h
  obtain ⟨debt, past, accounts, hstaff, haudit⟩ := h
  have hstaff : stage.Staffed i r c sh debt past accounts := hstaff
  have haudit : Audit n i c base? debt past sh accounts := haudit
  cases hstaff with
  | opening _ _ => exact hkept
  | closing _ => exact hkept
  | @inside waiting sum staff hwaiting ht =>
    cases waiting with
    | nil => exact hkept
    | cons p waiting =>
      cases hadmits : (ConcurrencyLimit.atMost n).admits (staff.map (·.2)).length with
      | false =>
        simp only [ParallelRun.stepTake, hadmits]
        exact hkept
      | true =>
        simp only [ParallelRun.stepTake, hadmits, if_true]
        obtain ⟨hp, hwaiting⟩ := List.forall_mem_cons.mp hwaiting
        have hlength : (staff.map (·.1)).length < n := by
          rw [List.length_map] at hadmits ⊢
          exact of_decide_eq_true hadmits
        have haccount : (Thread.ready (unlessCancelled p)).HasAccount i 0 (·.failed) c sh
            (sh.newAccount 0 0) :=
          Thread.hasAccount_ready (hp.unlessCancelled sh.isFree_stance rfl)
        have hall : ∀ x ∈ staff ++ [(sh.newAccount 0 0, Thread.ready (unlessCancelled p))],
            x.2.HasAccount i 0 (·.failed) c sh x.1 :=
          List.forall_mem_append.mpr ⟨ht, List.forall_mem_singleton.mpr haccount⟩
        have hstaffed : ParallelStage.Staffed i r c sh (.inside waiting _ sum) (r.due i)
            sum.failed _ := .inside _ hwaiting hall
        rw [List.map_append, List.map_append] at hstaffed
        exact ⟨_, _, _, hstaffed, haudit.join hlength rfl rfl (sh.newAccount_aware 0 0)⟩

theorem stepWorker (hkind : c.kind = .asynchronous) (h : run.Kept n i r c base?) (place : Nat) :
    (run.stepWorker c place).Kept n i r c base? := by
  obtain ⟨stage, sh⟩ := run
  have hkept := h
  obtain ⟨debt, past, accounts, hstaff, haudit⟩ := h
  have hstaff : stage.Staffed i r c sh debt past accounts := hstaff
  have haudit : Audit n i c base? debt past sh accounts := haudit
  cases hstaff with
  | opening _ _ => exact hkept
  | closing _ => exact hkept
  | @inside waiting sum staff hwaiting ht =>
    cases hplace : (staff.map (·.2))[place]? with
    | none =>
      simp only [ParallelRun.stepWorker, hplace]
      exact hkept
    | some t =>
      obtain ⟨a, before, after, rfl, rfl⟩ := exists_split_of_getElem? hplace
      obtain ⟨hbefore, hothers⟩ := List.forall_mem_append.mp ht
      obtain ⟨hthread, hafter⟩ := List.forall_mem_cons.mp hothers
      have haudit : Audit n i c base? (r.due i) sum.failed sh
          ((before ++ (a, t) :: after).map (·.1)) := haudit
      rw [List.map_append, List.map_cons] at haudit
      cases hvalue : t.value? with
      | some counts =>
        obtain rfl := Thread.eq_of_value? hvalue
        simp only [ParallelRun.stepWorker, hplace, hvalue]
        rw [eraseIdx_map_snd]
        have hleft := haudit.leave_done hthread
        rw [← List.map_append] at hleft
        exact ⟨_, _, _, .inside (before ++ after) hwaiting
          (List.forall_mem_append.mpr ⟨hbefore, hafter⟩), hleft⟩
      | none =>
        cases hs : t.step? c sh with
        | none =>
          simp only [ParallelRun.stepWorker, hplace, hvalue, hs]
          exact hkept
        | some next =>
          obtain ⟨a', ht', hmove⟩ := Thread.exists_move hkind hthread hs
          simp only [ParallelRun.stepWorker, hplace, hvalue, hs]
          rw [set_map_snd before after (a, t) (a', next.1)]
          -- the others keep their accounts; that the run is to stop or cancelled is never undone
          have hmoved := haudit.move hmove
          rw [← List.map_cons (f := fun x : Account × Thread ω Counts => x.1) (a := (a', next.1)),
            ← List.map_append] at hmoved
          refine ⟨_, _, _, .inside (before ++ (a', next.1) :: after) hwaiting ?_, hmoved⟩
          refine List.forall_mem_append.mpr ⟨fun x hx => ?_, List.forall_mem_cons.mpr ⟨ht', ?_⟩⟩
          · exact (hbefore x hx).mono hmove.cancelled hmove.stopped
          · exact fun x hx => (hafter x hx).mono hmove.cancelled hmove.stopped

theorem turn (hkind : c.kind = .asynchronous) (hn : 0 < n) (h : run.Kept n i r c base?)
    (x : ParallelTurn) : (run.turn r c (.atMost n) x).Kept n i r c base? := by
  cases x with
  | caller => exact h.stepCaller hkind hn
  | take => exact h.stepTake
  | worker place => exact h.stepWorker hkind place
  | dispatcher => exact h.dispatch

/-- **Every turn keeps the books.** -/
theorem after (hkind : c.kind = .asynchronous) (hn : 0 < n) (h : run.Kept n i r c base?)
    (turns : List ParallelTurn) : (run.after r c (.atMost n) turns).Kept n i r c base? :=
  List.foldlRecOn turns (ParallelRun.turn r c (.atMost n)) h fun _ h x _ => h.turn hkind hn x

/-- The books at the beginning of a run. -/
theorem start (r : AssemblyRun ω) (c : Transport σ) (sink : σ) (world : ω) (hn : 0 < n) :
    (ParallelRun.start r sink world).Kept n i r c none := by
  have hopening : (Thread.ready r.opening).HasAccount i (r.due i) (fun _ => 0) c
      (Shared.start sink world) ((Shared.start sink world).newAccount 0 0) :=
    Thread.hasAccount_ready (r.yields_opening.mono fun _ _ h => ⟨h.1, h.2.1⟩)
  have hempty : Audit n i c none 0 0 (Shared.start sink world) [] := {
    books :=
      { figures := ⟨Nat.zero_le _, rfl, rfl, Nat.le_refl _, fun _ => Nat.zero_le _⟩
        flight := ⟨rfl, .refl _, .refl _, fun _ _ => rfl, List.forall_mem_nil _⟩ }
    covered := fun ms hms => by rw [List.prefix_nil.mp hms]; exact Nat.le_refl _
    credit := nofun }
  refine ⟨0, 0, [(Shared.start sink world).newAccount 0 0],
    .opening hopening (r.yields_opening.mono fun _ _ h => h.2.2), ?_⟩
  exact Audit.join (a := (Shared.start sink world).newAccount 0 0) hempty hn rfl rfl
    fun hcancelled => nomatch hcancelled

end ParallelRun.Kept

end TestEngine
