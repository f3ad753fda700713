import Mathlib.Data.List.ReduceOption
import TestEngine.Proofs.Run.Inheritance
import TestEngine.Proofs.Run.StopLatch

/-!
# Theories

How many tests a theory has is known only when its source has ended. What the source answered is a
*plan*: a test for each row, or a single one that fails. The theory goes through its plan from the
first test on until somebody has stopped the run, and each test that was told to go on has the
result that the plan leaves to it.

* `TestCase.plan` — the tests of a theory by what its source answered.
* `Earns` — the results that a test may have.
* `PlaysOut` — planned tests start in order, and have results that they have earned.
* `TestCase.discovers_of_path` — every theory goes through its plan.
-/

namespace TestEngine

open Process

variable {ω : Type}

/-! ## Plans -/

/-- What a theory is going to run: a test, and the failures of the theory that the test fails
with. -/
structure PlannedTest where
  id : String
  displayName : String
  skipReason : Option String := none
  own : List Failure := []

namespace TestCase

/-- The test of a theory whose rows are not there. -/
def plannedFailure (c : TestCase ω) (f : Failure) : PlannedTest where
  id := c.testId 0
  displayName := c.displayName
  own := [f]

/-- The test of a row of a theory. -/
def plannedRow (c : TestCase ω) (row : DataRow ω) (index : Nat) : PlannedTest where
  id := c.testId index
  displayName := row.displayName.getD (callText c.method.qualifiedName row.arguments)
  skipReason := row.skipReason

/-- The tests of a theory by what its source answered. -/
def plan (c : TestCase ω) : Outcome (List (DataRow ω)) → List PlannedTest
  | .returned [] => [c.plannedFailure (.ofCause (.noData c.method.qualifiedName))]
  | .returned rows => rows.zipIdx.map fun (row, index) => c.plannedRow row index
  | .failed e => [c.plannedFailure e]
  | .panicked payload => [c.plannedFailure (.ofPanic payload)]

end TestCase

/-- The results that a test may have which comes with failures: it is skipped if there is a reason
to skip it, it fails with all of the failures, and it runs if there are none. -/
inductive Earns (skipReason : Option String) (failures : List Failure) : Event → Prop
  | skipped {reason : String} (hskip : skipReason = some reason) :
      Earns skipReason failures (.skipped reason)
  | failed (hskip : skipReason = none) (hfailed : failures ≠ []) :
      Earns skipReason failures (.failed .zero "" (Failure.combine failures).record)
  | ran {e : Event} (hskip : skipReason = none) (hfailed : failures = [])
      (hresult : e.isResult = true) (hnot : e.isSkip = false) : Earns skipReason failures e

/-- A test that starts, with the answer to that. -/
structure TestStart where
  ids : NodeIds
  displayName : String
  goesOn : Bool
  deriving DecidableEq

/-- The tests that start by some steps, in order. -/
def testStarts (as : List Action) : List TestStart :=
  as.filterMap fun
    | .queued ⟨ids, .starting (.test name)⟩ goesOn => some ⟨ids, name, goesOn⟩
    | _ => none

theorem testStarts_append (as bs : List Action) :
    testStarts (as ++ bs) = testStarts as ++ testStarts bs := List.filterMap_append

/-- The results by some steps, in order. -/
def testResults (as : List Action) : List Message := results (messages (visible as))

theorem testResults_append (as bs : List Action) :
    testResults (as ++ bs) = testResults as ++ testResults bs := by
  simp only [testResults, visible_append, messages_append, results_append]

namespace PlannedTest

/-- How a test of the case `ids` starts that has this verdict: it is told to go on if it has a
result. -/
def start (ids : NodeIds) (t : PlannedTest) (verdict : Option Event) : TestStart :=
  ⟨ids.child .test t.id, t.displayName, verdict.isSome⟩

/-- The result of a test that has this verdict. -/
def result? (ids : NodeIds) (t : PlannedTest) (verdict : Option Event) : Option Message :=
  verdict.map fun e => ⟨ids.child .test t.id, e⟩

end PlannedTest

/-- By the steps `π` the first of the planned tests of the case `ids`, which inherits failures,
start in order. The `verdicts` are those of the tests that start: a test without one was told to
stop. -/
structure PlaysOut (ids : NodeIds) (inherited : List Failure) (planned : List PlannedTest)
    (verdicts : List (Option Event)) (π : List (PathStep ω)) : Prop where
  length_le : verdicts.length ≤ planned.length
  starts : testStarts (acts π) = planned.zipWith (PlannedTest.start ids) verdicts
  results : testResults (acts π) = (planned.zipWith (PlannedTest.result? ids) verdicts).reduceOption
  earned : ∀ p ∈ planned.zip verdicts, ∀ e, p.2 = some e →
    Earns p.1.skipReason (inherited ++ p.1.own) e

/-- What a theory that inherits failures does by the steps `π`, and the counts that it finishes
with. -/
inductive TestCase.Discovers (c : TestCase ω) (ids : NodeIds) (inherited : List Failure)
    (source : SetupCode ω (List (DataRow ω))) (π : List (PathStep ω)) (n : Counts) : Prop
  | intro {σ τ : List (PathStep ω)} {o : Outcome (List (DataRow ω))}
      {verdicts : List (Option Event)} {b : Bool}
      (henumerate : π = .act (.activity (.enumerate ids)) :: (σ ++ τ))
      (honce : (acts π).count (.activity (.enumerate ids)) = 1)
      (hsource : source.run.Path σ o)
      (hplays : PlaysOut ids inherited (c.plan o) verdicts π)
      -- only rows can be missed, and only in a run that is to stop
      (hall : verdicts.length = (c.plan o).length ∨
        (∃ row rows, o = .returned (row :: rows)) ∧ OnlyIfStopped π)
      (hcounts : n = tally (testResults (acts π)))
      (hfinish : acted (reported ⟨ids, .finished .testCase (.ofCounts n)⟩ b) <:+ π) :
      Discovers c ids inherited source π n

/-! ## Steps aside of the tests -/

theorem activity_not_mem_reported (a : Activity) (m : Message) (b : Bool) :
    .activity a ∉ acts (acted (reported m b) : List (PathStep ω)) := by
  rw [acts_acted]
  cases b <;> simp [reported]

/-- By these steps the source of the case `ids` is not enumerated, no test starts, and none has a
result. -/
structure Aside (ids : NodeIds) (π : List (PathStep ω)) : Prop where
  not_enumerate : .activity (.enumerate ids) ∉ acts π
  starts_eq : testStarts (acts π) = []
  results_eq : testResults (acts π) = []

namespace Aside

variable {ids : NodeIds} {π ρ : List (PathStep ω)}

theorem nil : Aside ids ([] : List (PathStep ω)) := ⟨List.not_mem_nil, rfl, rfl⟩

theorem append (h : Aside ids π) (h' : Aside ids ρ) : Aside ids (π ++ ρ) where
  not_enumerate := by
    rw [acts_append, List.mem_append]
    exact not_or.mpr ⟨h.not_enumerate, h'.not_enumerate⟩
  starts_eq := by rw [acts_append, testStarts_append, h.starts_eq, h'.starts_eq, List.append_nil]
  results_eq := by
    rw [acts_append, testResults_append, h.results_eq, h'.results_eq, List.append_nil]

theorem activity {a : Activity} (h : a ≠ .enumerate ids) :
    Aside ids (acted [.activity a] : List (PathStep ω)) where
  not_enumerate := by
    rw [acts_acted, List.mem_singleton]
    rintro ⟨⟩
    exact h rfl
  starts_eq := by rw [acts_acted]; rfl
  results_eq := by rw [acts_acted]; rfl

/-- A message that neither starts a node nor is a result. -/
theorem report {m : Message} (hstart : m.event.isStarting = false)
    (hresult : m.event.isResult = false) (b : Bool) :
    Aside ids (acted (reported m b) : List (PathStep ω)) where
  not_enumerate := activity_not_mem_reported _ m b
  starts_eq := by
    rw [acts_acted]
    obtain ⟨ids', event⟩ := m
    cases b <;> cases event <;> first | rfl | cases hstart
  results_eq := by
    rw [acts_acted, testResults, visible_reported]
    exact List.filter_cons_of_neg (by rw [hresult]; exact nofun)

/-- What happens on behalf of another node, inside of a test or around it. -/
theorem of_madeOf {owner : NodeIds} (h : MadeOf (TestBlock owner) (acts π)) (hne : owner ≠ ids) :
    Aside ids π where
  not_enumerate := by
    intro hmem
    have hvisible : .activity (.enumerate ids) ∈ visible (acts π) :=
      List.mem_filterMap.mpr ⟨_, hmem, rfl⟩
    rcases (h.isPart _ hvisible).2 _ rfl with hnone | hsome
    · cases hnone
    · exact hne (Option.some.inj hsome).symm
  starts_eq := by
    have hplain := Plain.of_madeOf h
    refine List.filterMap_eq_nil_iff.mpr fun a ha => ?_
    obtain ⟨step, hstep, hact⟩ := List.mem_filterMap.mp ha
    cases step with
    | world _ _ => cases hact
    | act a' =>
      obtain rfl : a' = a := Option.some.inj hact
      cases a' with
      | queued m b =>
        obtain ⟨ids', event⟩ := m
        have hnone : event.lifecycle? = none := hplain _ _ hstep
        cases event with
        | starting node => cases hnone
        | _ => rfl
      | cancelled | asked _ | activity _ => rfl
  results_eq := h.results_eq_nil

/-- User code outside of tests. -/
theorem of_code {α : Type} {code : SetupCode ω α} {o : Outcome α} (h : code.run.Path π o) :
    Aside ids π := by
  let other : NodeIds := { assembly := ids.assembly ++ "'" }
  have hblocks : MadeOf (TestBlock other) (acts π) :=
    (h.of_yields (Code.makes_run code)).mono fun _ hb => .setup (.user hb)
  refine of_madeOf hblocks fun heq => ?_
  have hlength := congrArg (fun i : NodeIds => i.assembly.length) heq
  simp [other] at hlength

theorem of_tornDown {xs : List ((Teardown ω × Nat) × TeardownPart)} {fs : List Failure}
    {owner : NodeIds} (h : TornDown owner xs π fs) : Aside ids π := by
  induction h with
  | nil => exact .nil
  | absent _ _ ih => exact ih
  | ran _ hrun _ ih => exact ((activity (by exact nofun)).append (.of_code hrun)).append ih

theorem cleanupSteps (owner : NodeIds) (level : Level) (cleanup : Option (ErrorRecord × Bool)) :
    Aside ids (acted (Frame.cleanupSteps owner level cleanup) : List (PathStep ω)) := by
  cases cleanup with
  | none => exact .nil
  | some c => exact .report rfl rfl c.2

end Aside

/-! ## Tests -/

namespace PlaysOut

variable {ids : NodeIds} {inherited : List Failure} {planned : List PlannedTest}
  {verdicts : List (Option Event)} {π ρ : List (PathStep ω)}

/-- No test has started yet. -/
theorem of_aside (planned : List PlannedTest) (h : Aside ids π) :
    PlaysOut ids inherited planned [] π where
  length_le := Nat.zero_le _
  starts := by rw [h.starts_eq, List.zipWith_nil_right]
  results := by rw [h.results_eq, List.zipWith_nil_right]; rfl
  earned := by rw [List.zip_nil_right]; exact List.forall_mem_nil _

theorem aside_append (h : Aside ids ρ) (h' : PlaysOut ids inherited planned verdicts π) :
    PlaysOut ids inherited planned verdicts (ρ ++ π) where
  length_le := h'.length_le
  starts := by
    rw [acts_append, testStarts_append, h.starts_eq, List.nil_append]
    exact h'.starts
  results := by
    rw [acts_append, testResults_append, h.results_eq, List.nil_append]
    exact h'.results
  earned := h'.earned

theorem append_aside (h : PlaysOut ids inherited planned verdicts π) (h' : Aside ids ρ) :
    PlaysOut ids inherited planned verdicts (π ++ ρ) where
  length_le := h.length_le
  starts := by
    rw [acts_append, testStarts_append, h'.starts_eq, List.append_nil]
    exact h.starts
  results := by
    rw [acts_append, testResults_append, h'.results_eq, List.append_nil]
    exact h.results
  earned := h.earned

theorem cons {t : PlannedTest} {verdict : Option Event}
    (h : PlaysOut ids inherited [t] [verdict] π)
    (h' : PlaysOut ids inherited planned verdicts ρ) :
    PlaysOut ids inherited (t :: planned) (verdict :: verdicts) (π ++ ρ) where
  length_le := Nat.succ_le_succ h'.length_le
  starts := by
    rw [acts_append, testStarts_append, h.starts, h'.starts]
    rfl
  results := by
    rw [acts_append, testResults_append, h.results, h'.results, ← List.reduceOption_append]
    rfl
  earned := by
    intro p hp
    rw [List.zip_cons_cons] at hp
    rcases List.mem_cons.mp hp with rfl | hp
    · exact h.earned _ List.mem_cons_self
    · exact h'.earned p hp

end PlaysOut

namespace Test

/-- A test that is to fail with failures of its case. -/
def planned (own : List Failure) (t : Test ω) : PlannedTest where
  id := t.id
  displayName := t.displayName
  skipReason := t.skipReason
  own := own

variable {t : Test ω} {ids : NodeIds} {scope : ClassScope ω} {π : List (PathStep ω)} {n : Counts}

/-- A test that has started: aside of its result nothing matters. -/
theorem Verdict.exists_result {testIds : NodeIds} {inherited : Aggregator}
    (h : t.Verdict testIds scope inherited π) (hne : testIds ≠ ids) :
    ∃ e b ρ τ, π = ρ ++ (acted (reported ⟨testIds, e⟩ b) ++ τ) ∧ Aside ids ρ ∧ Aside ids τ ∧
      e.isResult = true ∧ Earns t.skipReason inherited.failures e := by
  have hend : ∀ output b, Aside ids
      (acted (reported ⟨testIds, .testFinished .zero output⟩ b) : List (PathStep ω)) :=
    fun output b => .report rfl rfl b
  cases h with
  | skipped hskip b b' => exact ⟨_, b, [], _, rfl, .nil, hend "" b', rfl, .skipped hskip⟩
  | failed hskip hfailed b b' =>
    exact ⟨_, b, [], _, rfl, .nil, hend "" b', rfl, .failed hskip hfailed⟩
  | @invoked ρ s a cleanup hskip hfailed hinvoke _ b b' =>
    have hinside := (hinvoke.of_yields (t.yields_invoke testIds scope)).madeOf
    have hresult : s.result.isResult = true ∧ s.result.isSkip = false := by
      unfold Invocation.result
      cases s.failures.toFailure? <;> exact ⟨rfl, rfl⟩
    exact ⟨s.result, b, ρ, _, rfl, .of_madeOf hinside hne,
      (Aside.cleanupSteps testIds .test cleanup).append (hend s.output b'), hresult.1,
      .ran hskip hfailed hresult.1 hresult.2⟩

/-- **A test plays out as planned**: it starts, and unless it is told to stop it has a result that
it has earned. -/
theorem playsOut_of_path (hids : ids.test = none) {inherited own : List Failure}
    (h : (t.run ids scope ⟨inherited ++ own⟩).Path π n) :
    .activity (.enumerate ids) ∉ acts π ∧
      ∃ verdict, PlaysOut ids inherited [t.planned own] [verdict] π := by
  have hne : ids.child .test t.id ≠ ids := by
    intro heq
    have htest := congrArg NodeIds.test heq
    rw [hids] at htest
    cases htest
  rcases exists_of_path h with ⟨b, rfl⟩ | ⟨ρ, rfl, hverdict⟩
  · have hend : Aside ids (acted (reported ⟨ids.child .test t.id, .testFinished .zero ""⟩ b) :
        List (PathStep ω)) := .report rfl rfl b
    refine ⟨?_, none, .append_aside ⟨Nat.le_refl _, rfl, rfl, ?_⟩ hend⟩
    · rw [acts_append, List.mem_append, not_or]
      exact ⟨activity_not_mem_reported _ _ _, hend.not_enumerate⟩
    · intro p hp e he
      obtain rfl := List.mem_singleton.mp hp
      cases he
  · obtain ⟨e, b, σ, τ, rfl, hbefore, hafter, hresult, hearned⟩ := hverdict.exists_result hne
    have hnone : testStarts (reported ⟨ids.child .test t.id, e⟩ b) = [] := by
      cases b <;> cases e <;> first | rfl | cases hresult
    have hone : testResults (reported ⟨ids.child .test t.id, e⟩ b) =
        [⟨ids.child .test t.id, e⟩] := by
      rw [testResults, visible_reported]
      exact List.filter_cons_of_pos hresult
    refine ⟨?_, some e, Nat.le_refl _, ?_, ?_, ?_⟩
    · simp only [acts_append, List.mem_append, not_or]
      exact ⟨activity_not_mem_reported _ _ _, hbefore.not_enumerate,
        activity_not_mem_reported _ _ _, hafter.not_enumerate⟩
    · simp only [acts_append, testStarts_append, hbefore.starts_eq, hafter.starts_eq, acts_acted,
        hnone, List.append_nil]
      rfl
    · simp only [acts_append, testResults_append, hbefore.results_eq, hafter.results_eq, acts_acted,
        hone, List.append_nil, List.nil_append]
      rfl
    · intro p hp e' he
      obtain rfl := List.mem_singleton.mp hp
      obtain rfl : e = e' := Option.some.inj he
      exact hearned

/-- **Tests in a row play out as planned** until one of them asks and learns that the run is
cancelled. -/
theorem playsOut_of_path_untilCancelled (hids : ids.test = none) {inherited own : List Failure}
    {ts : List (Test ω)} {sum : Counts}
    (h : (untilCancelled (ts.map (Test.run ids scope ⟨inherited ++ own⟩)) sum).Path π n) :
    .activity (.enumerate ids) ∉ acts π ∧
      ∃ verdicts, PlaysOut ids inherited (ts.map (planned own)) verdicts π ∧
        (verdicts.length = ts.length ∨ .act (.asked true) ∈ π) := by
  induction ts generalizing sum π with
  | nil =>
    obtain ⟨rfl, -⟩ := path_done h
    exact ⟨List.not_mem_nil, [], .of_aside _ .nil, .inl rfl⟩
  | cons t ts ih =>
    obtain ⟨ρ₁, cancelled, ρ₂, hasked, hrest, rfl⟩ := path_bind h
    obtain rfl := path_isCancelled hasked
    have haside : Aside ids (acted [.asked cancelled] : List (PathStep ω)) :=
      ⟨by simp, by rw [acts_acted]; rfl, by rw [acts_acted]; rfl⟩
    cases cancelled with
    | true =>
      obtain ⟨rfl, -⟩ := path_done hrest
      rw [List.append_nil]
      exact ⟨haside.not_enumerate, [], .of_aside _ haside, .inr List.mem_cons_self⟩
    | false =>
      obtain ⟨ρ₃, k, ρ₄, hrun, hothers, rfl⟩ := path_bind hrest
      obtain ⟨hnot, verdict, hplays⟩ := playsOut_of_path hids hrun
      obtain ⟨hnot', verdicts, hplays', hall⟩ := ih hothers
      refine ⟨?_, verdict :: verdicts, .aside_append haside (hplays.cons hplays'), ?_⟩
      · simp only [acts_append, List.mem_append, not_or]
        exact ⟨haside.not_enumerate, hnot, hnot'⟩
      · refine hall.imp (congrArg Nat.succ) fun hmem => ?_
        exact List.mem_append_right _ (List.mem_append_right _ hmem)

end Test

/-! ## Theories -/

namespace TestCase

variable {c : TestCase ω} {ids : NodeIds} {scope : ClassScope ω} {inherited : Aggregator}
  {source : SetupCode ω (List (DataRow ω))} {π : List (PathStep ω)} {n : Counts} {d : Disposal ω}

theorem planned_ofCase (hskip : c.skipReason = none) (f : Failure) :
    (Test.ofCase c).planned [f] = c.plannedFailure f := by
  unfold Test.planned Test.ofCase plannedFailure
  rw [hskip]
  rfl

theorem planned_ofRow (hskip : c.skipReason = none) (row : DataRow ω) (index : Nat) :
    (Test.ofRow c index row).planned [] = c.plannedRow row index := by
  unfold Test.planned Test.ofRow plannedRow
  rw [hskip, Option.or_none]
  rfl

theorem plan_rows (hskip : c.skipReason = none) {rows : List (DataRow ω)} (hrows : rows ≠ []) :
    c.plan (.returned rows) =
      (rows.zipIdx.map fun (row, index) => Test.ofRow c index row).map (Test.planned []) := by
  cases rows with
  | nil => exact absurd rfl hrows
  | cons row rows =>
    rw [List.map_map]
    exact List.map_congr_left fun x _ => (planned_ofRow hskip x.1 x.2).symm

/-- The tests of a theory whose source has ended, in the steps `π`. -/
structure PlaysPlan (c : TestCase ω) (ids : NodeIds) (inherited : List Failure)
    (o : Outcome (List (DataRow ω))) (verdicts : List (Option Event)) (π : List (PathStep ω)) :
    Prop where
  not_enumerate : .activity (.enumerate ids) ∉ acts π
  plays : PlaysOut ids inherited (c.plan o) verdicts π
  all : verdicts.length = (c.plan o).length ∨
    (∃ row rows, o = .returned (row :: rows)) ∧ .act (.asked true) ∈ π

theorem PlaysPlan.aside_append {o : Outcome (List (DataRow ω))} {verdicts : List (Option Event)}
    {ρ : List (PathStep ω)} (h : Aside ids ρ)
    (h' : c.PlaysPlan ids inherited.failures o verdicts π) :
    c.PlaysPlan ids inherited.failures o verdicts (ρ ++ π) where
  not_enumerate := by
    rw [acts_append, List.mem_append, not_or]
    exact ⟨h.not_enumerate, h'.not_enumerate⟩
  plays := .aside_append h h'.plays
  all := h'.all.imp_right fun hmissed => ⟨hmissed.1, List.mem_append_right _ hmissed.2⟩

theorem PlaysPlan.append_aside {o : Outcome (List (DataRow ω))} {verdicts : List (Option Event)}
    {ρ : List (PathStep ω)} (h : c.PlaysPlan ids inherited.failures o verdicts π)
    (h' : Aside ids ρ) : c.PlaysPlan ids inherited.failures o verdicts (π ++ ρ) where
  not_enumerate := by
    rw [acts_append, List.mem_append, not_or]
    exact ⟨h.not_enumerate, h'.not_enumerate⟩
  plays := .append_aside h.plays h'
  all := h.all.imp_right fun hmissed => ⟨hmissed.1, List.mem_append_left _ hmissed.2⟩

/-- A theory without rows. -/
theorem playsPlan_of_path_runFailing (hids : ids.test = none) (hskip : c.skipReason = none)
    {o : Outcome (List (DataRow ω))} {f : Failure} (hplan : c.plan o = [c.plannedFailure f])
    (h : (c.runFailing ids scope inherited f >>= fun counts =>
      pure (counts, ({} : Disposal ω))).Path π (n, d)) :
    ∃ verdicts, c.PlaysPlan ids inherited.failures o verdicts π := by
  obtain ⟨ρ, counts, ρ', hrun, hdone, rfl⟩ := path_bind h
  obtain ⟨rfl, -⟩ := path_done hdone
  rw [List.append_nil]
  have hrun : ((Test.ofCase c).run ids scope ⟨inherited.failures ++ [f]⟩).Path ρ counts := hrun
  obtain ⟨hnot, verdict, hplays⟩ := Test.playsOut_of_path hids hrun
  rw [planned_ofCase hskip, ← hplan] at hplays
  exact ⟨[verdict], hnot, hplays, .inl (by rw [hplan]; rfl)⟩

/-- A theory with rows. -/
theorem playsPlan_of_path_runRows (hids : ids.test = none) (hskip : c.skipReason = none)
    {row : DataRow ω} {rows : List (DataRow ω)}
    (h : (c.runRows ids scope inherited (row :: rows)).Path π (n, d)) :
    ∃ verdicts, c.PlaysPlan ids inherited.failures (.returned (row :: rows)) verdicts π := by
  obtain ⟨ρ, counts, ρ', hrun, hdone, rfl⟩ := path_bind h
  obtain ⟨rfl, -⟩ := path_done hdone
  rw [List.append_nil]
  have hinherited : inherited = ⟨inherited.failures ++ []⟩ := by rw [List.append_nil]
  rw [hinherited] at hrun
  obtain ⟨hnot, verdicts, hplays, hall⟩ := Test.playsOut_of_path_untilCancelled hids hrun
  have hplan := plan_rows hskip (List.cons_ne_nil row rows)
  rw [← hplan] at hplays
  refine ⟨verdicts, hnot, hplays, ?_⟩
  rw [hplan, List.length_map]
  exact hall.imp_right fun hasked => ⟨⟨row, rows, rfl⟩, hasked⟩

/-- The source of a theory is enumerated, and the theory goes through its plan. -/
theorem playsPlan_of_path_runTheory (hids : ids.test = none) (hskip : c.skipReason = none)
    (h : (c.runTheory ids scope inherited source).Path π (n, d)) :
    ∃ σ τ o verdicts, π = .act (.activity (.enumerate ids)) :: (σ ++ τ) ∧ source.run.Path σ o ∧
      c.PlaysPlan ids inherited.failures o verdicts τ := by
  obtain ⟨ρ₁, _, ρ₂, henter, hrest, rfl⟩ := path_bind h
  obtain rfl := path_enter henter
  obtain ⟨σ, o, τ, hsource, hend, rfl⟩ := path_bind hrest
  have hended : ∀ rows, Aside ids
      (acted [.activity (.enumerated ids rows)] : List (PathStep ω)) :=
    fun rows => .activity (by exact nofun)
  have hfailed : ∀ f, o.toExcept = .error f → c.plan o = [c.plannedFailure f] →
      ∃ verdicts, c.PlaysPlan ids inherited.failures o verdicts τ := by
    intro f hexcept hplan
    rw [hexcept] at hend
    obtain ⟨ρ₃, _, ρ₄, hentered, hrun, rfl⟩ := path_bind hend
    obtain rfl := path_enter hentered
    obtain ⟨verdicts, hplays⟩ := playsPlan_of_path_runFailing hids hskip hplan hrun
    exact ⟨verdicts, .aside_append (hended none) hplays⟩
  have hplays : ∃ verdicts, c.PlaysPlan ids inherited.failures o verdicts τ := by
    cases o with
    | failed e => exact hfailed e rfl rfl
    | panicked p => exact hfailed _ rfl rfl
    | returned rows =>
      obtain ⟨ρ₃, _, ρ₄, hentered, hrun, rfl⟩ := path_bind hend
      obtain rfl := path_enter hentered
      cases rows with
      | nil =>
        obtain ⟨verdicts, hplays⟩ :=
          playsPlan_of_path_runFailing (o := .returned []) hids hskip rfl hrun
        exact ⟨verdicts, .aside_append (hended _) hplays⟩
      | cons row rows =>
        obtain ⟨verdicts, hplays⟩ := playsPlan_of_path_runRows hids hskip hrun
        exact ⟨verdicts, .aside_append (hended _) hplays⟩
  obtain ⟨verdicts, hplays⟩ := hplays
  exact ⟨σ, τ, o, verdicts, rfl, hsource, hplays⟩

end TestCase

/-- A node that is told to go on: what is inside of it comes first, then what failed when it was
torn down, and at last that it has finished. -/
theorem Process.path_lifecycle {ids : NodeIds} {group : GroupLevel} {start : NodeStart}
    {inside : Process ω (Counts × Aggregator)} {π : List (PathStep ω)} {n : Counts}
    (h : (lifecycle ids group start inside).Path
      (.act (.queued ⟨ids, .starting start⟩ true) :: π) n) :
    ∃ ρ cleanup c b, inside.Path ρ (n, cleanup) ∧
      π = ρ ++ (acted (Frame.cleanupSteps ids group.level c) ++
        acted (reported ⟨ids, .finished group (.ofCounts n)⟩ b)) := by
  obtain ⟨ρ₁, goesOn, ρ₂, hstart, hrest, heq⟩ := path_bind h
  obtain rfl := path_report hstart
  cases goesOn with
  | false => cases (List.cons.inj heq).1
  | true =>
    obtain rfl : π = ρ₂ := (List.cons.inj heq).2
    obtain ⟨ρ₃, ⟨k, cleanup⟩, ρ₄, hinside, hout, rfl⟩ := path_bind hrest
    obtain ⟨ρ₅, _, ρ₆, hcleanup, hlast, rfl⟩ := path_bind hout
    obtain ⟨c, rfl, -⟩ := path_reportCleanup hcleanup
    have hlast : (do
        let _ ← Process.report ids (.finished group (.ofCounts k))
        pure k : Process ω Counts).Path ρ₆ n := hlast
    obtain ⟨ρ₇, b, ρ₈, hfinished, hdone, rfl⟩ := path_bind hlast
    obtain ⟨rfl, rfl⟩ := path_done hdone
    obtain rfl := path_report hfinished
    exact ⟨ρ₃, cleanup, c, b, hinside, by rw [List.append_nil]⟩

/-- The counts of a node are those of the results of its tests. -/
theorem NodeRun.eq_tally {known : List String} {ids : NodeIds} {as : List Action} {n : Counts}
    (h : NodeRun known ids as n) : n = tally (testResults as) := by
  obtain ⟨f, inside, -, hvisible, hlaw, -, rfl⟩ := h.told
  have hnode : visible as = (Chronicle.node f inside .nil).occurrences := by
    rw [hvisible, Chronicle.occurrences, Chronicle.occurrences, List.append_nil]
  rw [testResults, tally_results, hnode, tally_node hlaw.ended.isResult_finish]
  exact (Counts.add_zero _).symm

namespace TestCase

variable {c : TestCase ω} {methodIds : NodeIds} {scope : ClassScope ω} {inherited : Aggregator}
  {source : SetupCode ω (List (DataRow ω))} {π : List (PathStep ω)} {n : Counts}

/-- **A theory enumerates its source once, and goes through what the source answered**: for each
row a test starts, or a single test that fails, unless the run is to stop. A theory that is skipped
does not enumerate its source. -/
theorem discovers_of_path (hkind : c.kind = .theory source) (hlevel : methodIds.level = .method)
    (h : (c.run methodIds scope inherited).Path
      (.act (.queued ⟨methodIds.child .testCase c.id,
        .starting (.testCase c.displayName c.skipReason c.traits)⟩ true) :: π) n) :
    (∀ reason, c.skipReason = some reason →
      .activity (.enumerate (methodIds.child .testCase c.id)) ∉ acts π) ∧
    (c.skipReason = none →
      c.Discovers (methodIds.child .testCase c.id) inherited.failures source π n) := by
  have hids : (methodIds.child .testCase c.id).test = none :=
    (methodIds.at?_child_of_ne (k := .test) c.id (by exact nofun)).trans
      (NodeIds.at?_eq_none_of_level_lt (l := .test) (by rw [hlevel]; decide))
  have hcounts := (h.of_yields (c.yields_run [] scope inherited hlevel)).eq_tally
  obtain ⟨ρ, cleanup, cl, b, hinside, rfl⟩ := path_lifecycle h
  obtain ⟨ρ₁, ⟨k, d⟩, ρ₂, htests, hend, rfl⟩ := path_bind hinside
  obtain ⟨ρ₃, a, ρ₄, htearing, hdone, rfl⟩ := path_bind hend
  obtain ⟨rfl, he⟩ := path_done hdone
  cases he
  obtain ⟨torn, htorn, -⟩ := Disposal.tornDown_of_path htearing
  -- all that comes after the tests
  have hafter : Aside (methodIds.child .testCase c.id) (ρ₃ ++ (acted (Frame.cleanupSteps
      (methodIds.child .testCase c.id) .testCase cl) ++ acted (reported
        ⟨methodIds.child .testCase c.id, .finished .testCase (.ofCounts n)⟩ b))) :=
    (Aside.of_tornDown htorn).append ((Aside.cleanupSteps _ _ cl).append (.report rfl rfl b))
  unfold runTests at htests
  rw [hkind] at htests
  constructor
  · intro reason hskip
    rw [hskip] at htests
    obtain ⟨ρ₅, k, ρ₆, hrun, hdone, rfl⟩ := path_bind htests
    obtain ⟨rfl, -⟩ := path_done hdone
    have hinherited : inherited = ⟨inherited.failures ++ []⟩ := by rw [List.append_nil]
    rw [hinherited] at hrun
    obtain ⟨hnot, -⟩ := Test.playsOut_of_path hids hrun
    simp only [List.append_nil, List.append_assoc]
    rw [acts_append, List.mem_append, not_or]
    exact ⟨hnot, hafter.not_enumerate⟩
  · intro hskip
    rw [hskip] at htests
    obtain ⟨σ, τ, o, verdicts, rfl, hsource, hplays⟩ :=
      playsPlan_of_path_runTheory hids hskip htests
    have hentered : Aside (methodIds.child .testCase c.id) σ := .of_code hsource
    have htail := (hplays.append_aside hafter).aside_append hentered
    simp only [List.cons_append, List.append_assoc, List.append_nil] at hcounts ⊢
    have hplaysOut : PlaysOut (methodIds.child .testCase c.id) inherited.failures (c.plan o)
        verdicts (.act (.activity (.enumerate (methodIds.child .testCase c.id))) :: _) :=
      ⟨htail.plays.length_le, htail.plays.starts, htail.plays.results, htail.plays.earned⟩
    refine .intro (b := b) rfl ?_ hsource hplaysOut ?_ hcounts ?_
    · exact (List.count_cons_self).trans
        (congrArg (· + 1) (List.count_eq_zero_of_not_mem htail.not_enumerate))
    · refine htail.all.imp_right fun hmissed => ⟨hmissed.1, ?_⟩
      exact onlyIfStopped_of_asked (List.mem_cons_of_mem _ hmissed.2)
    · simp only [← List.append_assoc, ← List.cons_append]
      exact List.suffix_append _ _

end TestCase

/-! ### A theory about apples

Its rows have a name, a reason to be skipped, and neither. -/

namespace Orchard

def source : SetupCode Unit (List (DataRow Unit)) :=
  .finish (.returned [
    { arguments := [.of (.int 1)], displayName := some "one apple" },
    { arguments := [.of (.int 2)], skipReason := some "not ripe" },
    { arguments := [.of (.int 3)] }])

def theory : TestCase Unit where
  method := {
    testClass := {
      collection := { assembly := { name := "orchard" }, displayName := "trees" }, name := "Apple" }
    name := "falls"
    body := .sync fun _ => .finish (.returned ()) }
  kind := .theory source
  displayName := "Apple.falls"

def methodIds : NodeIds where
  assembly := "orchard"
  collection := some "trees"
  testClass := some "Apple"
  method := some "falls"

def scope : ClassScope Unit where
  collectionFixtures := []
  classFixtures := []
  constructor := none

/-- The theory starts. -/
def start : Message :=
  ⟨methodIds.child .testCase theory.id, .starting (.testCase "Apple.falls" none .empty)⟩

/-- A bus whose sink takes every message. -/
def bus : Transport Unit := ⟨.synchronous, fun _ _ => ((), .goOn), false⟩

/-- The theory runs to its end. -/
theorem exists_log : ∃ turns π n,
    ((SoloRun.start (theory.run methodIds scope {}) () ()).after bus turns).value? = some n ∧
    (SoloRun.start (theory.run methodIds scope {}) () ()).log bus turns =
      .act (.queued start true) :: π := by
  obtain ⟨more, n, h⟩ := SoloRun.exists_value? bus (theory.run methodIds scope {}) () () [.thread]
  exact ⟨_, _, n, h, rfl⟩

end Orchard

theorem TestCase.discovers_of_path_orchard :
    Orchard.theory.kind = .theory Orchard.source ∧ Orchard.methodIds.level = .method ∧
      ∃ turns π n,
        (SoloRun.start (Orchard.theory.run Orchard.methodIds Orchard.scope {}) () ()).log
          Orchard.bus turns = .act (.queued Orchard.start true) :: π ∧
        (Orchard.theory.run Orchard.methodIds Orchard.scope {}).Path
          (.act (.queued Orchard.start true) :: π) n ∧
        Orchard.theory.Discovers (Orchard.methodIds.child .testCase Orchard.theory.id) []
          Orchard.source π n := by
  obtain ⟨turns, π, n, hover, hlog⟩ := Orchard.exists_log
  have hpath := SoloRun.path_log hover
  rw [hlog] at hpath
  have hlevel : Orchard.methodIds.level = .method := by decide
  exact ⟨rfl, hlevel, turns, π, n, hlog, hpath,
    (TestCase.discovers_of_path rfl hlevel hpath).2 rfl⟩

end TestEngine
