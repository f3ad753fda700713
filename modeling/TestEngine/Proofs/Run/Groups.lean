import TestEngine.Proofs.Run.Conduct

/-!
# What the nodes above the tests do

Apart from the life cycles of their nodes, and from user code that sets things up and tears them
down, the collections, classes, methods and cases of a run do nothing but run tests. So whatever is
true of such blocks of steps, and of the steps of each test, is true of a whole run.

* `Test.makes_run` — the steps of a test.
* `Welcomes` — a kind of blocks that has all of these.
* `Welcomes.makes_collection`, `Welcomes.makes_inTurn` — runs are made of such blocks.
* `AssemblyRun.yields_found` — what holds of the collections of a run side by side.
-/

namespace TestEngine

open Process

variable {ω α : Type}

/-! ## What tests do -/

/-- What a test may do: what may happen inside of it, and to report something. -/
inductive OwnBlock (ids : NodeIds) : List Action → Prop
  | inside {as : List Action} (h : TestBlock ids as) : OwnBlock ids as
  | reported (event : Event) (b : Bool) : OwnBlock ids (Process.reported ⟨ids, event⟩ b)

theorem Test.makes_run (t : Test ω) (caseIds : NodeIds) (scope : ClassScope ω)
    (inherited : Aggregator) :
    (t.run caseIds scope inherited).Makes (OwnBlock (caseIds.child .test t.id)) := by
  have hreported : ∀ event b, MadeOf (OwnBlock (caseIds.child .test t.id))
      (reported ⟨caseIds.child .test t.id, event⟩ b) :=
    fun event b => .block (.reported event b)
  unfold run
  refine .bind (.report fun b => .reported _ b) fun goesOn => ?_
  cases goesOn with
  | true =>
    refine (t.yields_runStarted _ scope inherited).mono ?_
    rintro _ n ⟨is, e, b, cleanup, output, b', ⟨rfl, hinside, -, -⟩⟩
    have hcleanup : MadeOf (OwnBlock (caseIds.child .test t.id))
        (Frame.cleanupSteps (caseIds.child .test t.id) .test cleanup) := by
      cases cleanup with
      | none => exact .nil
      | some x => exact hreported _ _
    have his := hinside.madeOf.mono fun _ => OwnBlock.inside
    exact (his.append (hreported e b)).append (hcleanup.append (hreported _ b'))
  | false => exact .bind (.report fun b => .reported _ b) fun _ => .pure

/-! ## What nodes above the tests do -/

/-- What a node above the tests reports of its life cycle. -/
inductive Event.OfGroup : Event → Prop
  | starting {node : NodeStart} (h : node.level ≠ .test) : OfGroup (.starting node)
  | cleanupFailure (level : Level) (error : ErrorRecord) : OfGroup (.cleanupFailure level error)
  | finished (group : GroupLevel) (summary : Summary) : OfGroup (.finished group summary)

/-- A kind of blocks that has the steps of the nodes above the tests, and those of all tests of the
nodes that are owned. -/
structure Welcomes (ω : Type) (owns : NodeIds → Prop) (B : List Action → Prop) : Prop where
  owns_child : ∀ {ids : NodeIds} (level : Level) (id : String), level ≠ .collection → owns ids →
    owns (ids.child level id)
  setup : ∀ {ids : NodeIds} {as : List Action}, SetupBlock ids as → B as
  asked : ∀ b, B [.asked b]
  reports : ∀ {event : Event}, event.OfGroup → ∀ ids b, B (reported ⟨ids, event⟩ b)
  test : ∀ {caseIds : NodeIds}, owns caseIds → ∀ (scope : ClassScope ω) (inherited : Aggregator)
    (t : Test ω), (t.run caseIds scope inherited).Makes B

namespace Welcomes

variable {owns : NodeIds → Prop} {B : List Action → Prop} (h : Welcomes ω owns B)
include h

/-- Setting a node up or tearing it down. -/
theorem makes_of_setup {ids : NodeIds} {p : Process ω α} (hp : p.Makes (SetupBlock ids)) :
    p.Makes B :=
  Yields.mono hp fun _ _ has => has.mono fun _ => h.setup

theorem makes_untilCancelled {ps : List (Process ω Counts)} (hps : ∀ p ∈ ps, p.Makes B)
    (sum : Counts) : (untilCancelled ps sum).Makes B := by
  induction ps generalizing sum with
  | nil => exact .pure
  | cons p ps ih =>
    obtain ⟨hp, hps⟩ := List.forall_mem_cons.mp hps
    refine .bind (.block (yields_isCancelled.mono ?_)) fun cancelled => ?_
    · rintro _ b rfl
      exact h.asked b
    · cases cancelled with
      | true => exact .pure
      | false => exact hp.bind fun n => ih hps (sum + n)

/-- The life cycle of a node. -/
theorem makes_lifecycle {ids : NodeIds} {group : GroupLevel} {start : NodeStart}
    {inside : Process ω (Counts × Aggregator)} (hstart : start.level ≠ .test)
    (hinside : inside.Makes B) : (lifecycle ids group start inside).Makes B := by
  have hend : ∀ n : Counts, (do
      let _ ← report ids (.finished group (.ofCounts n))
      pure n : Process ω Counts).Makes B :=
    fun n => .bind (.report fun b => h.reports (.finished _ _) ids b) fun _ => .pure
  unfold lifecycle
  refine .bind (.report fun b => h.reports (.starting hstart) ids b) fun goesOn => ?_
  cases goesOn with
  | false => exact hend 0
  | true =>
    simp only [if_true]
    refine .bind hinside fun x => ?_
    have hcleanup : (reportCleanup ids group.level x.2 : Process ω Unit).Makes B := by
      unfold reportCleanup
      cases x.2.toFailure? with
      | none => exact .pure
      | some f =>
        exact .bind (.report fun b => h.reports (.cleanupFailure _ _) ids b) fun _ => .pure
    exact hcleanup.bind fun _ => hend x.1

/-! ## The levels of the tree -/

section Tree

variable {ids : NodeIds} {scope : ClassScope ω} {inherited : Aggregator}

theorem makes_runTheory (howns : owns ids) (c : TestCase ω)
    (source : SetupCode ω (List (DataRow ω))) :
    (c.runTheory ids scope inherited source).Makes B := by
  have henter : ∀ {a : Activity}, a.owner? = some ids → (enter a : Process ω Unit).Makes B :=
    fun ha => .enter (h.setup (.entry ha))
  have hfailing : ∀ f, (do
      let counts ← c.runFailing ids scope inherited f
      pure (counts, {}) : Process ω (Counts × Disposal ω)).Makes B :=
    fun f => .bind (h.test howns scope _ _) fun _ => .pure
  unfold TestCase.runTheory
  refine .bind (henter rfl) fun _ => ?_
  refine .bind (h.makes_of_setup (Code.makes_run_setup ids source)) fun outcome => ?_
  cases outcome.toExcept with
  | error f => exact .bind (henter rfl) fun _ => hfailing f
  | ok rows =>
    refine .bind (henter rfl) fun _ => ?_
    dsimp only
    split
    · exact hfailing _
    · unfold TestCase.runRows
      refine .bind (h.makes_untilCancelled (fun p hp => ?_) 0) fun _ => .pure
      obtain ⟨t, -, rfl⟩ := List.mem_map.mp hp
      exact h.test howns scope inherited t

theorem makes_runTests (howns : owns ids) (c : TestCase ω) :
    (c.runTests ids scope inherited).Makes B := by
  unfold TestCase.runTests
  split
  · exact h.makes_runTheory howns c _
  · exact .bind (h.test howns scope _ _) fun _ => .pure
  · exact .bind (h.test howns scope _ _) fun _ => .pure

theorem makes_testCase (howns : owns ids) (c : TestCase ω) :
    (c.run ids scope inherited).Makes B := by
  unfold TestCase.run
  refine h.makes_lifecycle (by exact nofun) ?_
  refine .bind (h.makes_runTests (h.owns_child _ _ (by exact nofun) howns) c) fun x => ?_
  exact .bind (h.makes_of_setup (x.2.makes_disposeAll _ {})) fun _ => .pure

theorem makes_methods (howns : owns ids) (cases : List (TestCase ω)) :
    (Method.runAll ids scope inherited cases).Makes B := by
  refine h.makes_untilCancelled (fun p hp => ?_) 0
  obtain ⟨c, -, rfl⟩ := List.mem_map.mp hp
  refine h.makes_lifecycle (by exact nofun) ?_
  refine .bind (h.makes_untilCancelled (fun p hp => ?_) 0) fun _ => .pure
  obtain ⟨c', -, rfl⟩ := List.mem_map.mp hp
  exact h.makes_testCase (h.owns_child _ _ (by exact nofun) howns) c'

theorem makes_classes (setup : RunSetup ω) (howns : owns ids) (fixtures : FixtureMap)
    (cases : List (TestCase ω)) :
    (TestClass.runAll setup ids fixtures inherited cases).Makes B := by
  refine h.makes_untilCancelled (fun p hp => ?_) 0
  obtain ⟨c, -, rfl⟩ := List.mem_map.mp hp
  refine h.makes_lifecycle (by exact nofun) ?_
  refine .bind (h.makes_of_setup (Fixtures.makes_constructAll _ _ _ _ _)) fun fs => ?_
  refine .bind (h.makes_of_setup (Orderers.makes_order _ _ _ _)) fun ordered => ?_
  refine .bind (h.makes_methods (h.owns_child _ _ (by exact nofun) howns) ordered) fun n => ?_
  exact .bind (h.makes_of_setup (fs.disposal.makes_disposeAll _ {})) fun _ => .pure

/-- **The run of a collection is made of such blocks.** -/
theorem makes_collection (setup : RunSetup ω) {assemblyIds : NodeIds} {l : Collection ω}
    (howns : owns (assemblyIds.child .collection l.id)) (cases : List (TestCase ω)) :
    (l.run setup assemblyIds cases).Makes B := by
  unfold Collection.run
  refine h.makes_lifecycle (by exact nofun) ?_
  refine .bind (h.makes_of_setup (Fixtures.makes_constructAll _ _ _ _ _)) fun fs => ?_
  refine .bind (h.makes_classes setup howns _ cases) fun n => ?_
  exact .bind (h.makes_of_setup (fs.disposal.makes_disposeAll _ {})) fun _ => .pure

end Tree

/-! ## Runs -/

/-- Whoever takes a collection first asks whether the run is cancelled. -/
theorem makes_unlessCancelled {p : Process ω Counts} (hp : p.Makes B) :
    (unlessCancelled p).Makes B := by
  refine .bind (.block (yields_isCancelled.mono ?_)) fun cancelled => ?_
  · rintro _ b rfl
    exact h.asked b
  · cases cancelled with
    | true => exact .pure
    | false => exact hp

variable (r : AssemblyRun ω)

theorem makes_collectionRuns : r.collectionRuns.Makes B :=
  .bind (h.makes_of_setup (Orderers.makes_order _ _ _ _)) fun _ => .pure

/-- So is what the calling thread does to open a parallel run. -/
theorem makes_opening : r.opening.Makes B := by
  unfold AssemblyRun.opening
  refine .bind (.report fun b => h.reports (.starting (by exact nofun)) r.ids b) fun goesOn => ?_
  cases goesOn with
  | true => exact .bind (h.makes_collectionRuns r) fun _ => .pure
  | false => exact .pure

theorem makes_closing (sum : Counts) : (r.closing sum).Makes B :=
  .bind (.report fun b => h.reports (.finished _ _) r.ids b) fun _ => .pure

/-- **So is a serial run**, if its collections are owned. -/
theorem makes_inTurn (howns : ∀ id, owns (r.ids.child .collection id)) : r.inTurn.Makes B := by
  unfold AssemblyRun.inTurn
  refine h.makes_lifecycle (by exact nofun) ?_
  unfold AssemblyRun.collectionRuns
  rw [LawfulMonad.bind_assoc]
  refine .bind (h.makes_of_setup (Orderers.makes_order _ _ _ _)) fun ls => ?_
  rw [pure_bind]
  refine .bind (h.makes_untilCancelled (fun p hp => ?_) 0) fun _ => .pure
  obtain ⟨l, -, rfl⟩ := List.mem_map.mp hp
  exact h.makes_collection r.setup (howns l.id) _

end Welcomes

/-- The collections that the opening of a run finds have IDs of their own. -/
theorem AssemblyRun.yields_found {r : AssemblyRun ω} {P : List (Process ω Counts) → Prop}
    (hP : ∀ ls : List (Collection ω), (ls.map (·.id)).Nodup →
      P (Collection.runs r.setup r.ids r.cases ls)) :
    r.opening.Yields fun _ found => ∀ runs, found = some runs → P runs := by
  have hruns : r.collectionRuns.Yields fun _ runs => P runs := by
    refine Yields.bind (Collection.yields_ordered r.setup r.assembly r.ids r.cases) ?_
    rintro _ ls ⟨-, hnodup⟩
    exact .pure (hP ls hnodup)
  refine Yields.bind (P := fun _ _ => True) (fun _ _ _ => trivial) fun _ goesOn _ => ?_
  cases goesOn with
  | false => exact .pure nofun
  | true =>
    refine Yields.bind hruns fun _ runs h => .pure ?_
    rintro _ ⟨⟩
    exact h

end TestEngine
