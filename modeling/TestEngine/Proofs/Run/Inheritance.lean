import TestEngine.Proofs.Run.Brackets
import TestEngine.Proofs.Run.Lives

/-!
# What tests inherit

A failure to set something up counts against every test below it, and against no other: a test
inherits what failed when the fixtures of its collection and those of its class were built, a
failure to resolve the constructor of its class, and one of its case. A test that inherits nothing
is invoked; any other, unless it is skipped, fails with all that it inherited, and nothing of it
runs.

This is said of the paths of a task, so it holds whatever user code does, whatever the bus answers,
and whatever others do to the world meanwhile, in turn or side by side.

* `NodeTask.inherits_of_path` — what every test inherits, and what becomes of it.
-/

namespace TestEngine

open Process

variable {ω : Type}

/-- With the steps `before` the task `root` comes to the test `t` of a case, which inherits the
failures `inherited`: those of building the fixtures of its collection, those of building the
fixtures of its class, that of resolving the constructor of the class, and that of its case, in this
order. Each level adds the failures of its own steps; what siblings did `earlier` adds nothing. -/
inductive Inherits (root : NodeTask ω) :
    (before : List (PathStep ω)) → (ids : NodeIds) → (t : Test ω) → (scope : ClassScope ω) →
      (inherited : List Failure) → Prop
  | intro {setup : RunSetup ω} {assemblyIds collectionIds classIds methodIds caseIds : NodeIds}
      {l : Collection ω} {k : TestClass ω} {m : Method ω} {c : TestCase ω} {t : Test ω}
      {cases ordered : List (TestCase ω)} {before building ordering finding : List (PathStep ω)}
      {building' : List (PathStep ω)}
      {values values' : FixtureMap} {built built' rows : List (Teardown ω)} {tests : List (Test ω)}
      {errors errors' own : List Failure}
      (hcollection : root.Placed before (.collection setup assemblyIds l cases))
      (hcollectionIds : collectionIds = assemblyIds.child .collection l.id)
      (hbuilds : Builds .collection [] collectionIds l.fixtures [] building values built errors)
      (hclass : ∃ c₁ ∈ cases, c₁.testClass = k)
      (hclassIds : classIds = collectionIds.child .testClass k.id)
      (hbuilds' : Builds .testClass [values] classIds k.fixtures [] building' values' built'
        errors')
      (hordered : ((setup.caseOrderers.tellBy (·.id)).order (k.caseOrdererName setup.options)
        classIds (withKey (·.testClass.id) k.id cases)).Path ordering ordered)
      (hmethod : ∃ c₂ ∈ ordered, c₂.method = m)
      (hmethodIds : methodIds = classIds.child .method m.id)
      (hcase : c ∈ withKey (·.method.id) m.id ordered)
      (hcaseIds : caseIds = methodIds.child .testCase c.id)
      (hfinds : c.Finds caseIds finding tests own rows) (ht : t ∈ tests)
      (earlier earlier₁ earlier₂ earlier₃ : List (PathStep ω)) :
      Inherits root
        (before ++ ((NodeTask.collection setup assemblyIds l cases).opening ++
            (building ++ earlier)) ++
          (acted (reported ⟨classIds, .starting (.testClass k.name)⟩ true) ++
            (building' ++ (ordering ++ earlier₁))) ++
          (acted (reported ⟨methodIds, .starting (.method m.name)⟩ true) ++ earlier₂) ++
          (acted (reported
              ⟨caseIds, .starting (.testCase c.displayName c.skipReason c.traits)⟩ true) ++
            (finding ++ earlier₃)))
        (caseIds.child .test t.id) t (k.scope classIds values values')
        (errors ++ errors' ++ k.unresolved classIds values values' ++ own)

/-- Nothing starts inside of a test. -/
theorem Test.Verdict.isStarting_eq {t : Test ω} {ids : NodeIds} {scope : ClassScope ω}
    {a : Aggregator} {π : List (PathStep ω)} (h : t.Verdict ids scope a π) {m : Message} {b : Bool}
    (hm : .act (.queued m b) ∈ π) : m.event.isStarting = false := by
  cases h with
  | skipped | failed =>
    rcases List.mem_append.mp hm with hm | hm
    · rw [eq_of_mem_reported hm]
      rfl
    · rw [eq_of_mem_reported hm]
      rfl
  | @invoked ρ s a' cleanup _ _ hinvoke _ b₁ b₂ =>
    rcases List.mem_append.mp hm with hm | hm
    · have hplain : Plain ρ := .of_madeOf (hinvoke.of_yields (t.yields_invoke ids scope)).madeOf
      exact isStarting_of_lifecycle? _ (hplain m b hm)
    rcases List.mem_append.mp hm with hm | hm
    · rw [eq_of_mem_reported hm]
      exact isStarting_of_lifecycle? _ s.lifecycle?_result
    rcases List.mem_append.mp hm with hm | hm
    · cases cleanup with
      | none => exact absurd hm List.not_mem_nil
      | some c =>
        rw [eq_of_mem_reported hm]
        rfl
    · rw [eq_of_mem_reported hm]
      rfl

namespace NodeTask

variable {root : NodeTask ω} {π : List (PathStep ω)}

/-- What a test is given is what it inherits. -/
theorem inherits_of_placed (hroot : root.level.depth ≤ 1) {caseIds : NodeIds}
    {scope : ClassScope ω} {a : Aggregator} {t : Test ω}
    (h : root.Placed π (.test caseIds scope a t)) :
    Inherits root π (caseIds.child .test t.id) t scope a.failures := by
  -- the root is not below the collections, so the way from it leads through all levels below it
  cases h with
  | root => exact absurd hroot (show ¬5 ≤ 1 by decide)
  | child h hj =>
    cases hj with
    | test hfinds ht earlier₃ =>
      cases h with
      | root => exact absurd hroot (show ¬4 ≤ 1 by decide)
      | child h hj =>
        cases hj with
        | testCase hcase earlier₂ =>
          cases h with
          | root => exact absurd hroot (show ¬3 ≤ 1 by decide)
          | child h hj =>
            cases hj with
            | method hbuilds' hordered hc₂ earlier₁ =>
              cases h with
              | root => exact absurd hroot (show ¬2 ≤ 1 by decide)
              | child h hj =>
                cases hj with
                | testClass hbuilds hc₁ earlier =>
                  exact .intro h rfl hbuilds ⟨_, hc₁, rfl⟩ rfl hbuilds' hordered ⟨_, hc₂, rfl⟩
                    rfl hcase rfl hfinds ht earlier earlier₁ earlier₂ earlier₃

/-- **What a test inherits decides what becomes of it.** Every test that is to start, in a run of an
assembly or of a single collection, inherits the failures of its collection, its class and its case;
and it is skipped, it fails with exactly those failures, or there are none and it is invoked. -/
theorem inherits_of_path (hroot : root.level.depth ≤ 1) {n : Counts}
    (h : root.process.Path π n) {x y : List (PathStep ω)} {ids : NodeIds} {name : String}
    (hx : π = x ++ .act (.queued ⟨ids, .starting (.test name)⟩ true) :: y) :
    ∃ t scope inherited ρ after, y = ρ ++ after ∧ t.displayName = name ∧
      Inherits root x ids t scope inherited ∧ t.Verdict ids scope ⟨inherited⟩ ρ := by
  obtain ⟨before, x', y', after, j, k, rfl, rfl, ⟨hplaced, hids, hlevel⟩, hpath⟩ :=
    standsIn_of_path h hx rfl
  cases j with
  | test caseIds scope a t =>
    obtain rfl : caseIds.child .test t.id = ids := hids
    rcases Test.exists_of_path hpath with ⟨b, heq⟩ | ⟨ρ, heq, hverdict⟩
    · -- if the run is to stop, the one message of a start is answered otherwise
      rcases x' with - | ⟨s, x'⟩
      · cases heq
      · have hrest : x' ++ _ :: y' = _ := (List.cons.inj heq).2
        have hmem := List.mem_append_right x' (List.mem_cons_self (a := PathStep.act
          (.queued ⟨caseIds.child .test t.id, .starting (.test name)⟩ true)) (l := y'))
        rw [hrest] at hmem
        rcases List.mem_cons.mp hmem with he | hmem
        · cases he
        · cases eq_of_mem_reported hmem
    · -- nothing else starts inside of the test
      rcases x' with - | ⟨s, x'⟩
      · rw [List.append_nil]
        obtain ⟨hstart, rfl⟩ := List.cons.inj heq
        cases hstart
        exact ⟨t, scope, a.failures, y', after, rfl, rfl, inherits_of_placed hroot hplaced,
          hverdict⟩
      · have hrest : x' ++ _ :: y' = ρ := (List.cons.inj heq).2
        have hnot := hverdict.isStarting_eq (hrest ▸ List.mem_append_right x' List.mem_cons_self)
        cases hnot
  | assembly | collection | testClass | method | testCase => cases hlevel

end NodeTask

/-! ### A collection that cannot be set up

Nothing stops the run of a collection with one case: the message that a test starts is queued,
whatever comes of the fixtures of the collection and of the class. -/

namespace Process

variable {m : Message}

theorem mayQueue_lifecycle {ids : NodeIds} {group : GroupLevel} {start : NodeStart}
    {inside : Process ω (Counts × Aggregator)} (h : inside.MayQueue m) (w : ω) :
    (lifecycle ids group start inside).MayQueue m :=
  (path_report_true ids (.starting start)).mayQueue (h.bind w _)

/-- The first child of a node. -/
theorem mayQueue_untilCancelled {p : Process ω Counts} (h : p.MayQueue m) (w : ω)
    (sum : Counts) : (untilCancelled [p] sum).MayQueue m :=
  Path.mayQueue (p := isCancelled) (π := [.act (.asked false)]) (a := false)
    (.askCancelled (.refl _)) (h.bind w _)

end Process

/-- A group of one item. -/
theorem withKey_singleton {α : Type} (key : α → String) (x : α) : withKey key (key x) [x] = [x] :=
  List.filter_cons_of_pos (beq_self_eq_true (key x))

namespace Ruins

/-- A collection with a fixture that nothing can build. -/
def collection : Collection Nat where
  assembly := { name := "ruins" }
  displayName := "castle"
  definition := some {
    typeName := "Castle"
    fixtures := [{ typeName := "Wall", constructors := [] }] }

/-- A class with a fixture whose constructor panics, and without a constructor of its own. -/
def testClass : TestClass Nat where
  collection := collection
  name := "Tower"
  constructor := some { typeName := "Tower", constructors := [] }
  fixtures := [{
    typeName := "Roof"
    constructors := [{
      parameters := []
      build := fun _ _ => .finish (.panicked (.text "fell")) }] }]

def testCase : TestCase Nat where
  method := { testClass, name := "stands", body := .sync fun _ => .finish (.returned ()) }
  kind := .fact
  displayName := "Tower.stands"

/-- There are no orderers. -/
def setup : RunSetup Nat where
  options := {}
  collectionOrderers := { kind := .collection, idOf := (·.id) }
  caseOrderers := { kind := .testCase, idOf := (·.id) }

def assemblyIds : NodeIds := { assembly := collection.assembly.id }

def collectionIds : NodeIds := assemblyIds.child .collection collection.id

def classIds : NodeIds := collectionIds.child .testClass testClass.id

def methodIds : NodeIds := classIds.child .method testCase.method.id

def testIds : NodeIds :=
  (methodIds.child .testCase testCase.id).child .test (Test.ofCase testCase).id

/-- The test starts. -/
def start : Message := ⟨testIds, .starting (.test "Tower.stands")⟩

variable (scope : ClassScope Nat) (a : Aggregator)

theorem mayQueue_testCase : (testCase.run methodIds scope a).MayQueue start := by
  refine mayQueue_lifecycle ?_ 0
  refine MayQueue.bind (MayQueue.bind ?_ 0 _) 0 _
  exact (mayQueue_report testIds (.starting (.test "Tower.stands"))).bind 0 _

theorem mayQueue_methods : (Method.runAll classIds scope a [testCase]).MayQueue start := by
  show (untilCancelled [testCase.method.run classIds scope a
    (withKey (·.method.id) testCase.method.id [testCase])] 0).MayQueue start
  rw [withKey_singleton]
  refine mayQueue_untilCancelled (mayQueue_lifecycle ?_ 0) 0 0
  exact (mayQueue_untilCancelled (mayQueue_testCase scope a) 0 0).bind 0 _

/-- The one case is in order. -/
theorem exists_path_order (ids : NodeIds) :
    ∃ π, ((setup.caseOrderers.tellBy (·.id)).order none ids [testCase]).Path π [testCase] := by
  generalize hos : setup.caseOrderers.tellBy (·.id) = os
  have hnone : os.factories.lookup Orderers.defaultName = none := by rw [← hos]; rfl
  have horder : defaultOrder os.idOf [testCase] = [testCase] :=
    List.perm_singleton.mp (defaultOrder_perm _ _)
  unfold Orderers.order Orderers.tryOrder Orderers.fallBack
  rw [horder, Option.getD_none, hnone]
  exact ⟨_, .queue (b := true) (.refl _)⟩

theorem mayQueue_classes (fixtures : FixtureMap) :
    (TestClass.runAll setup collectionIds fixtures a [testCase]).MayQueue start := by
  show (untilCancelled [testClass.run setup collectionIds fixtures a
    (withKey (·.testClass.id) testCase.testClass.id [testCase])] 0).MayQueue start
  rw [withKey_singleton]
  refine mayQueue_untilCancelled (mayQueue_lifecycle ?_ 0) 0 0
  obtain ⟨π, fs, hfixtures⟩ := exists_path (Fixtures.constructAll .testClass [fixtures]
    (collectionIds.child .testClass testClass.id) testClass.fixtures { failures := a }) 0
  obtain ⟨ρ, horder⟩ := exists_path_order (collectionIds.child .testClass testClass.id)
  exact hfixtures.mayQueue (horder.mayQueue ((mayQueue_methods _ _).bind 0 _))

def root : NodeTask Nat := .collection setup assemblyIds collection [testCase]

theorem mayQueue_root : root.process.MayQueue start := by
  refine mayQueue_lifecycle ?_ 0
  obtain ⟨π, fs, hfixtures⟩ := exists_path (Fixtures.constructAll .collection [] collectionIds
    collection.fixtures {}) 0
  exact hfixtures.mayQueue ((mayQueue_classes _ _).bind 0 _)

end Ruins

/-- A test in the ruins. -/
theorem NodeTask.inherits_of_path_ruins :
    Ruins.root.level.depth ≤ 1 ∧ ∃ x y n,
      Ruins.root.process.Path (x ++ .act (.queued Ruins.start true) :: y) n ∧
      ∃ t scope inherited ρ after, y = ρ ++ after ∧ t.displayName = "Tower.stands" ∧
        Inherits Ruins.root x Ruins.testIds t scope inherited ∧
        t.Verdict Ruins.testIds scope ⟨inherited⟩ ρ := by
  have hroot : Ruins.root.level.depth ≤ 1 := by decide
  obtain ⟨x, y, n, h⟩ := Ruins.mayQueue_root
  exact ⟨hroot, x, y, n, h, NodeTask.inherits_of_path hroot h rfl⟩

end TestEngine
