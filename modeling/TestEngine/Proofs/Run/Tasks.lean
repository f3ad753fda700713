import TestEngine.Proofs.Fixture.Outcomes
import TestEngine.Proofs.Order.Permutations
import TestEngine.Proofs.Run.Cancellation
import TestEngine.Proofs.Run.TestSteps
import TestEngine.Run.Assembly

/-!
# The nodes of a run as tasks

A node that is run is given what it shares with its siblings: its fixtures, the failures that it
inherits, its cases. A *task* is a node with all of this. What a task does is one stretch of the
steps of a run, and the tasks that it gives to its children do stretches of this one.

* `NodeTask.Acquires` — what a task acquires before anything else.
* `NodeTask.Gives` — what a task gives to each of its children.
* `Hosts` — the messages of life cycles among some steps are those of tasks.
-/

namespace TestEngine

open Process

variable {ω α β : Type}

/-! ## Tasks -/

namespace Collection

/-- The fixtures that the tests of a collection share. -/
def fixtures (l : Collection ω) : List (FixtureDefinition ω) :=
  (l.definition.map (·.fixtures)).getD []

end Collection

namespace TestClass

variable (k : TestClass ω) (ids : NodeIds) (collectionFixtures classFixtures : FixtureMap)

/-- The failure to resolve the constructor of a class, if there is one. -/
def unresolved : List Failure :=
  match k.constructor with
  | none => []
  | some d =>
    match d.resolve .testInstance [classFixtures, collectionFixtures] ids with
    | .ok _ => []
    | .error e => [.ofCause (.fixture e)]

/-- What the tests of a class share. -/
def scope : ClassScope ω where
  collectionFixtures := collectionFixtures
  classFixtures := classFixtures
  constructor := k.constructor.bind fun d =>
    (d.resolve .testInstance [classFixtures, collectionFixtures] ids).toOption

theorem resolveConstructor_eq (fs : Fixtures ω) :
    k.resolveConstructor ids collectionFixtures fs =
      (k.scope ids collectionFixtures fs.values,
        ⟨fs.failures.failures ++ k.unresolved ids collectionFixtures fs.values⟩) := by
  unfold resolveConstructor scope unresolved
  cases k.constructor with
  | none => simp only [List.append_nil]; rfl
  | some d =>
    cases hresolve : d.resolve .testInstance [fs.values, collectionFixtures] ids with
    | ok c => simp only [Option.bind_some, hresolve, List.append_nil]; rfl
    | error e => simp only [Option.bind_some, hresolve]; rfl

end TestClass

/-- A case finds its tests by these steps: each of them fails with these failures of the case, and
the rows of data have these teardowns. -/
inductive TestCase.Finds (ids : NodeIds) (c : TestCase ω) :
    List (PathStep ω) → List (Test ω) → List Failure → List (Teardown ω) → Prop
  | fact (hkind : c.kind = .fact) : Finds ids c [] [.ofCase c] [] []
  | row {arguments : List TestArgument} (hkind : c.kind = .row arguments) :
      Finds ids c [] [.ofCase c] [] []
  | error {message : String} (hkind : c.kind = .error message) :
      Finds ids c [] [.ofCase c] [.ofMessage message] []
  | skipped {source : SetupCode ω (List (DataRow ω))} {reason : String}
      (hkind : c.kind = .theory source) (hskip : c.skipReason = some reason) :
      Finds ids c [] [.ofCase c] [] []
  | failed {source : SetupCode ω (List (DataRow ω))} {π : List (PathStep ω)}
      {o : Outcome (List (DataRow ω))} {f : Failure} (hkind : c.kind = .theory source)
      (hskip : c.skipReason = none) (hrun : source.run.Path π o) (hfailure : o.failure? = some f) :
      Finds ids c
        (acted [.activity (.enumerate ids)] ++ π ++ acted [.activity (.enumerated ids none)])
        [.ofCase c] [f] []
  | noData {source : SetupCode ω (List (DataRow ω))} {π : List (PathStep ω)}
      (hkind : c.kind = .theory source) (hskip : c.skipReason = none)
      (hrun : source.run.Path π (.returned [])) :
      Finds ids c
        (acted [.activity (.enumerate ids)] ++ π ++ acted [.activity (.enumerated ids (some []))])
        [.ofCase c] [.ofCause (.noData c.method.qualifiedName)] []
  | rows {source : SetupCode ω (List (DataRow ω))} {π : List (PathStep ω)}
      {rows : List (DataRow ω)} (hkind : c.kind = .theory source) (hskip : c.skipReason = none)
      (hrun : source.run.Path π (.returned rows)) (hrows : rows ≠ []) :
      Finds ids c
        (acted [.activity (.enumerate ids)] ++ π ++
          acted [.activity (.enumerated ids (some (rows.map (·.teardown.parts))))])
        (rows.zipIdx.map fun (row, index) => .ofRow c index row) [] (rows.map (·.teardown))

/-- A test acquires an instance of its class by these steps, and the instance has these teardowns.
It acquires none if it is not invoked. -/
inductive Test.Acquires (ids : NodeIds) (scope : ClassScope ω) (inherited : Aggregator)
    (t : Test ω) : List (PathStep ω) → List (Teardown ω) → Prop
  | skipped {reason : String} (hskip : t.skipReason = some reason) :
      Acquires ids scope inherited t [] []
  | inherited (hskip : t.skipReason = none) (hfailed : inherited.failures ≠ []) :
      Acquires ids scope inherited t [] []
  | none (hskip : t.skipReason = none) (hfailed : inherited.failures = [])
      (hnone : scope.constructor = none) : Acquires ids scope inherited t [] []
  | failed {c : ReadyConstructor ω} {π : List (PathStep ω)} {o : Outcome (Fixture ω)}
      {f : Failure} (hskip : t.skipReason = none) (hfailed : inherited.failures = [])
      (hsome : scope.constructor = some c) (hrun : c.code.run.Path π o)
      (hfailure : o.failure? = some f) (b b' : Bool) :
      Acquires ids scope inherited t
        (acted (reported ⟨ids, .construction .starting⟩ b) ++
          (acted [.activity (.construct ids c.kind c.typeName)] ++ π ++
            acted [.activity (.constructed ids c.kind c.typeName none)]) ++
          acted (reported ⟨ids, .construction .finished⟩ b')) []
  | built {c : ReadyConstructor ω} {π : List (PathStep ω)} {fixture : Fixture ω}
      (hskip : t.skipReason = none) (hfailed : inherited.failures = [])
      (hsome : scope.constructor = some c) (hrun : c.code.run.Path π (.returned fixture))
      (b b' : Bool) :
      Acquires ids scope inherited t
        (acted (reported ⟨ids, .construction .starting⟩ b) ++
          (acted [.activity (.construct ids c.kind c.typeName)] ++ π ++
            acted [.activity
              (.constructed ids c.kind c.typeName (some fixture.teardown.parts))]) ++
          acted (reported ⟨ids, .construction .finished⟩ b')) [fixture.teardown]

/-- A node with what it is given to run. -/
inductive NodeTask (ω : Type) where
  | assembly (r : AssemblyRun ω)
  | collection (setup : RunSetup ω) (assemblyIds : NodeIds) (l : Collection ω)
      (cases : List (TestCase ω))
  | testClass (setup : RunSetup ω) (collectionIds : NodeIds) (fixtures : FixtureMap)
      (inherited : Aggregator) (k : TestClass ω) (cases : List (TestCase ω))
  | method (classIds : NodeIds) (scope : ClassScope ω) (inherited : Aggregator) (m : Method ω)
      (cases : List (TestCase ω))
  | testCase (methodIds : NodeIds) (scope : ClassScope ω) (inherited : Aggregator)
      (c : TestCase ω)
  | test (caseIds : NodeIds) (scope : ClassScope ω) (inherited : Aggregator) (t : Test ω)

namespace NodeTask

/-- The IDs of the node. -/
def ids : NodeTask ω → NodeIds
  | assembly r => r.ids
  | collection _ assemblyIds l _ => assemblyIds.child .collection l.id
  | testClass _ collectionIds _ _ k _ => collectionIds.child .testClass k.id
  | method classIds _ _ m _ => classIds.child .method m.id
  | testCase methodIds _ _ c => methodIds.child .testCase c.id
  | test caseIds _ _ t => caseIds.child .test t.id

/-- What the node reports when it starts. -/
def start : NodeTask ω → NodeStart
  | assembly r => r.start
  | collection _ _ l _ => .collection l.displayName (l.definition.map (·.typeName))
  | testClass _ _ _ _ k _ => .testClass k.name
  | method _ _ _ m _ => .method m.name
  | testCase _ _ _ c => .testCase c.displayName c.skipReason c.traits
  | test _ _ _ t => .test t.displayName

/-- The level of the node. -/
def level (j : NodeTask ω) : Level := j.start.level

/-- What the engine does to run the node. -/
def process : NodeTask ω → Process ω Counts
  | assembly r => r.inTurn
  | collection setup assemblyIds l cases => l.run setup assemblyIds cases
  | testClass setup collectionIds fixtures inherited k cases =>
    k.run setup collectionIds fixtures inherited cases
  | method classIds scope inherited m cases => m.run classIds scope inherited cases
  | testCase methodIds scope inherited c => c.run methodIds scope inherited
  | test caseIds scope inherited t => t.run caseIds scope inherited

/-- What the node acquires by some steps before anything else: things with these teardowns. -/
def Acquires : NodeTask ω → List (PathStep ω) → List (Teardown ω) → Prop
  | assembly r, π, ts => (∃ ls, (Collection.ordered r.setup r.assembly r.ids r.cases).Path π ls) ∧
      ts = []
  | collection _ assemblyIds l _, π, ts => ∃ values built errors,
      Builds .collection [] (assemblyIds.child .collection l.id) l.fixtures [] π values built
        errors ∧ ts = kept built
  | testClass _ collectionIds fixtures _ k _, π, ts => ∃ values built errors,
      Builds .testClass [fixtures] (collectionIds.child .testClass k.id) k.fixtures [] π values
        built errors ∧ ts = kept built
  | method .., π, ts => π = [] ∧ ts = []
  | testCase methodIds _ _ c, π, ts => ∃ tests own rows,
      c.Finds (methodIds.child .testCase c.id) π tests own rows ∧ ts = kept rows
  | test caseIds scope inherited t, π, ts =>
      t.Acquires (caseIds.child .test t.id) scope inherited π ts

/-- The steps with which the node starts, if the run goes on. -/
def opening (j : NodeTask ω) : List (PathStep ω) := acted (reported ⟨j.ids, .starting j.start⟩ true)

/-- `j.Gives π j'`: after the steps `π` the node `j` may give its child the task `j'`. What its
children did before is left open; what they did has no influence on the task. -/
inductive Gives : NodeTask ω → List (PathStep ω) → NodeTask ω → Prop
  | collection {r : AssemblyRun ω} {π : List (PathStep ω)} {ls : List (Collection ω)}
      {l : Collection ω}
      (hordered : (Collection.ordered r.setup r.assembly r.ids r.cases).Path π ls) (hl : l ∈ ls)
      (earlier : List (PathStep ω)) :
      Gives (.assembly r) ((NodeTask.assembly r).opening ++ (π ++ earlier))
        (.collection r.setup r.ids l (withKey (·.collection.id) l.id r.cases))
  | testClass {setup : RunSetup ω} {assemblyIds : NodeIds} {l : Collection ω}
      {cases : List (TestCase ω)} {π : List (PathStep ω)} {values : FixtureMap}
      {built : List (Teardown ω)} {errors : List Failure} {c : TestCase ω}
      (hbuilds : Builds .collection [] (assemblyIds.child .collection l.id) l.fixtures [] π values
        built errors)
      (hc : c ∈ cases) (earlier : List (PathStep ω)) :
      Gives (.collection setup assemblyIds l cases)
        ((NodeTask.collection setup assemblyIds l cases).opening ++ (π ++ earlier))
        (.testClass setup (assemblyIds.child .collection l.id) values ⟨errors⟩ c.testClass
          (withKey (·.testClass.id) c.testClass.id cases))
  | method {setup : RunSetup ω} {collectionIds : NodeIds} {fixtures : FixtureMap}
      {inherited : Aggregator} {k : TestClass ω} {cases ordered : List (TestCase ω)}
      {π ρ : List (PathStep ω)} {values : FixtureMap} {built : List (Teardown ω)}
      {errors : List Failure} {c : TestCase ω}
      (hbuilds : Builds .testClass [fixtures] (collectionIds.child .testClass k.id) k.fixtures []
        π values built errors)
      (hordered : ((setup.caseOrderers.tellBy (·.id)).order (k.caseOrdererName setup.options)
        (collectionIds.child .testClass k.id) cases).Path ρ ordered)
      (hc : c ∈ ordered) (earlier : List (PathStep ω)) :
      Gives (.testClass setup collectionIds fixtures inherited k cases)
        ((NodeTask.testClass setup collectionIds fixtures inherited k cases).opening ++
          (π ++ (ρ ++ earlier)))
        (.method (collectionIds.child .testClass k.id)
          (k.scope (collectionIds.child .testClass k.id) fixtures values)
          ⟨inherited.failures ++ errors ++
            k.unresolved (collectionIds.child .testClass k.id) fixtures values⟩
          c.method (withKey (·.method.id) c.method.id ordered))
  | testCase {classIds : NodeIds} {scope : ClassScope ω} {inherited : Aggregator} {m : Method ω}
      {cases : List (TestCase ω)} {c : TestCase ω} (hc : c ∈ cases)
      (earlier : List (PathStep ω)) :
      Gives (.method classIds scope inherited m cases)
        ((NodeTask.method classIds scope inherited m cases).opening ++ ([] ++ earlier))
        (.testCase (classIds.child .method m.id) scope inherited c)
  | test {methodIds : NodeIds} {scope : ClassScope ω} {inherited : Aggregator} {c : TestCase ω}
      {π : List (PathStep ω)} {tests : List (Test ω)} {own : List Failure}
      {rows : List (Teardown ω)} {t : Test ω}
      (hfinds : c.Finds (methodIds.child .testCase c.id) π tests own rows) (ht : t ∈ tests)
      (earlier : List (PathStep ω)) :
      Gives (.testCase methodIds scope inherited c)
        ((NodeTask.testCase methodIds scope inherited c).opening ++ (π ++ earlier))
        (.test (methodIds.child .testCase c.id) scope ⟨inherited.failures ++ own⟩ t)

/-- The child of a node is one level below it. -/
theorem Gives.level_lt {j j' : NodeTask ω} {π : List (PathStep ω)} (h : j.Gives π j') :
    j.level.depth < j'.level.depth := by
  cases h with
  | collection => exact Nat.lt_succ_self 0
  | testClass => exact Nat.lt_succ_self 1
  | method => exact Nat.lt_succ_self 2
  | testCase => exact Nat.lt_succ_self 3
  | test => exact Nat.lt_succ_self 4

end NodeTask

/-! ## Steps that are no part of a life cycle -/

/-- A report queues a single message. -/
theorem eq_of_mem_reported {m m' : Message} {b b' : Bool}
    (h : .act (.queued m' b') ∈ (acted (reported m b) : List (PathStep ω))) : m' = m := by
  cases b with
  | true =>
    cases List.mem_singleton.mp h
    rfl
  | false =>
    rcases List.mem_cons.mp h with he | h
    · cases he
      rfl
    · cases List.mem_singleton.mp h

/-- No message of a life cycle is among some steps. -/
def Plain (π : List (PathStep ω)) : Prop :=
  ∀ m b, .act (.queued m b) ∈ π → m.event.lifecycle? = none

namespace Plain

variable {π ρ : List (PathStep ω)}

theorem nil : Plain ([] : List (PathStep ω)) := fun _ _ h => absurd h List.not_mem_nil

theorem append (h : Plain π) (h' : Plain ρ) : Plain (π ++ ρ) :=
  fun m b hm => (List.mem_append.mp hm).elim (h m b) (h' m b)

theorem activity (a : Activity) : Plain (acted [.activity a] : List (PathStep ω)) := by
  intro m b hm
  cases List.mem_singleton.mp hm

theorem report {m : Message} (h : m.event.lifecycle? = none) (b : Bool) :
    Plain (acted (reported m b) : List (PathStep ω)) :=
  fun _ _ hm => eq_of_mem_reported hm ▸ h

/-- What happens inside of a test, and what sets a node up or tears it down, is plain. -/
theorem of_madeOf {ids : NodeIds} (h : MadeOf (TestBlock ids) (acts π)) : Plain π := by
  intro m b hm
  have hact : .queued m b ∈ acts π := List.mem_filterMap.mpr ⟨_, hm, rfl⟩
  have hvisible : .queued m b ∈ visible (acts π) := List.mem_filterMap.mpr ⟨_, hact, rfl⟩
  exact (h.isPart _ hvisible).1

/-- So is what user code does outside of tests. -/
theorem of_user {p : Process ω α} {a : α} (h : p.Path π a) (hp : p.Makes UserBlock) :
    Plain π := by
  have hmade : MadeOf (TestBlock { assembly := "" }) (acts π) :=
    (h.of_yields hp).mono fun _ hb => .setup (.user hb)
  exact of_madeOf hmade

theorem of_code {code : SetupCode ω α} {o : Outcome α} (h : code.run.Path π o) : Plain π :=
  of_user h (Code.makes_run code)

end Plain

theorem TornDown.plain {owner : NodeIds} {xs : List ((Teardown ω × Nat) × TeardownPart)}
    {π : List (PathStep ω)} {fs : List Failure} (h : TornDown owner xs π fs) : Plain π := by
  induction h with
  | nil => exact .nil
  | absent _ _ ih => exact ih
  | ran _ hrun _ ih => exact ((Plain.activity _).append (.of_code hrun)).append ih

theorem Builds.plain {kind : FixtureKind} {parents : List FixtureMap} {ids : NodeIds}
    {ds : List (FixtureDefinition ω)} {values values' : FixtureMap} {π : List (PathStep ω)}
    {ts : List (Teardown ω)} {fs : List Failure}
    (h : Builds kind parents ids ds values π values' ts fs) : Plain π := by
  induction h with
  | nil => exact .nil
  | unresolved _ _ ih => exact ih
  | failed _ hrun _ _ ih =>
    exact (((Plain.activity _).append (.of_code hrun)).append (.activity _)).append ih
  | built _ hrun _ ih =>
    exact (((Plain.activity _).append (.of_code hrun)).append (.activity _)).append ih

theorem TestCase.Finds.plain {ids : NodeIds} {c : TestCase ω} {π : List (PathStep ω)}
    {tests : List (Test ω)} {own : List Failure} {rows : List (Teardown ω)}
    (h : c.Finds ids π tests own rows) : Plain π := by
  cases h with
  | fact | row | error | skipped => exact .nil
  | failed _ _ hrun | noData _ _ hrun | rows _ _ hrun =>
    exact ((Plain.activity _).append (.of_code hrun)).append (.activity _)

theorem Test.Acquires.plain {ids : NodeIds} {scope : ClassScope ω} {inherited : Aggregator}
    {t : Test ω} {π : List (PathStep ω)} {ts : List (Teardown ω)}
    (h : t.Acquires ids scope inherited π ts) : Plain π := by
  cases h with
  | skipped | inherited | none => exact .nil
  | failed _ _ _ hrun | built _ _ _ hrun =>
    exact ((Plain.report rfl _).append
      (((Plain.activity _).append (.of_code hrun)).append (.activity _))).append (.report rfl _)

namespace NodeTask

theorem plain_of_acquires {j : NodeTask ω} {π : List (PathStep ω)} {ts : List (Teardown ω)}
    (h : j.Acquires π ts) : Plain π := by
  cases j with
  | assembly r =>
    obtain ⟨⟨ls, hordered⟩, -⟩ := h
    exact .of_user hordered ((Orderers.yields_order _ _ _ _).mono fun _ _ hb => hb.1)
  | collection | testClass =>
    obtain ⟨_, _, _, hbuilds, -⟩ := h
    exact hbuilds.plain
  | method =>
    obtain ⟨rfl, -⟩ := h
    exact .nil
  | testCase =>
    obtain ⟨_, _, _, hfinds, -⟩ := h
    exact hfinds.plain
  | test => exact Test.Acquires.plain h

end NodeTask

/-! ## Stretches of steps -/

/-- The step `s` between the steps `x` and `y` is one of a task for which `Q` holds, with the steps
before the task. -/
def StandsIn (Q : List (PathStep ω) → NodeTask ω → Prop) (x : List (PathStep ω)) (s : PathStep ω)
    (y : List (PathStep ω)) : Prop :=
  ∃ before x' y' after j n, x = before ++ x' ∧ y = y' ++ after ∧ Q before j ∧
    j.process.Path (x' ++ s :: y') n

/-- Every message of a life cycle among some steps satisfies `own` or is one of a task for which `Q`
holds. -/
def Hosts (own : Message → Prop) (Q : List (PathStep ω) → NodeTask ω → Prop)
    (π : List (PathStep ω)) : Prop :=
  ∀ x m b y, π = x ++ .act (.queued m b) :: y → m.event.lifecycle? ≠ none →
    own m ∨ StandsIn Q x (.act (.queued m b)) y

section Stretches

variable {Q R : List (PathStep ω) → NodeTask ω → Prop} {π ρ x y : List (PathStep ω)}
  {s : PathStep ω}

theorem StandsIn.mono (hQR : ∀ σ j, Q σ j → R σ j) (h : StandsIn Q x s y) : StandsIn R x s y := by
  obtain ⟨before, x', y', after, j, n, hx, hy, hQ, hpath⟩ := h
  exact ⟨before, x', y', after, j, n, hx, hy, hQR _ _ hQ, hpath⟩

/-- A task is one of a longer row of steps as well. -/
theorem StandsIn.extend (h : StandsIn (fun σ => Q (π ++ σ)) x s y) (ρ : List (PathStep ω)) :
    StandsIn Q (π ++ x) s (y ++ ρ) := by
  obtain ⟨before, x', y', after, j, n, rfl, rfl, hQ, hpath⟩ := h
  exact ⟨π ++ before, x', y', after ++ ρ, j, n, (List.append_assoc ..).symm,
    List.append_assoc .., hQ, hpath⟩

namespace Hosts

variable {own own' : Message → Prop}

theorem of_plain (h : Plain π) : Hosts own Q π := by
  rintro x m b y rfl hm
  exact absurd (h m b (List.mem_append_right _ List.mem_cons_self)) hm

theorem append (h : Hosts own Q π) (h' : Hosts own (fun σ => Q (π ++ σ)) ρ) :
    Hosts own Q (π ++ ρ) := by
  intro x m b y hx hm
  rcases split_of_append_eq hx with ⟨zs, hfirst, rfl⟩ | ⟨zs, rfl, hsecond⟩
  · exact (h x m b zs hfirst hm).imp_right fun hin => StandsIn.extend (π := []) hin ρ
  · refine (h' zs m b y hsecond hm).imp_right fun hin => ?_
    have hext := hin.extend []
    rwa [List.append_nil] at hext

theorem mono (hown : ∀ m, own m → own' m) (h : Hosts own Q π) : Hosts own' Q π :=
  fun x m b y hx hm => (h x m b y hx hm).imp_left (hown m)

/-- A report of the node itself. -/
theorem report {m : Message} (hm : own m) (b : Bool) : Hosts own Q (acted (reported m b)) := by
  intro x m' b' y hx _
  have hmem : .act (.queued m' b') ∈ (acted (reported m b) : List (PathStep ω)) := by
    rw [hx]
    exact List.mem_append_right _ List.mem_cons_self
  exact .inl (eq_of_mem_reported hmem ▸ hm)

/-- The steps of a task. -/
theorem task {j : NodeTask ω} {n : Counts} (hQ : Q [] j) (h : j.process.Path π n) :
    Hosts own Q π := by
  rintro x m b y rfl -
  exact .inr ⟨[], x, y, [], j, n, rfl, (List.append_nil y).symm, hQ, h⟩

/-- Children one after another, each of which is given a task. -/
theorem children {ι : Type} (give : ι → NodeTask ω) {xs : List ι} {sum n : Counts}
    (hQ : ∀ x ∈ xs, ∀ σ, Q σ (give x))
    (h : (Process.untilCancelled (xs.map fun x => (give x).process) sum).Path π n) :
    Hosts own Q π := by
  induction xs generalizing Q π sum with
  | nil =>
    obtain ⟨rfl, -⟩ := path_done h
    exact of_plain .nil
  | cons x xs ih =>
    obtain ⟨ρ₁, b, ρ₂, hasked, hrest, rfl⟩ := path_bind h
    obtain rfl := path_isCancelled hasked
    have hquestion : Plain (acted [.asked b] : List (PathStep ω)) := by
      intro m b' hm
      cases List.mem_singleton.mp hm
    refine (of_plain hquestion).append ?_
    cases b with
    | true =>
      obtain ⟨rfl, -⟩ := path_done hrest
      exact of_plain .nil
    | false =>
      obtain ⟨ρ₃, k, ρ₄, hx, hxs, rfl⟩ := path_bind hrest
      refine Hosts.append (task (hQ x List.mem_cons_self _) hx) ?_
      exact ih (fun x' hx' σ => hQ x' (List.mem_cons_of_mem x hx') _) hxs

end Hosts

end Stretches

end TestEngine
