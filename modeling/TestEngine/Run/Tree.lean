import TestEngine.Run.Test

/-!
# Running the tree

How the nodes above the tests run, from the cases up to the collections. Each node goes through its
life cycle; inside of it, it sets up what its children share, runs them in order until the run is
cancelled, and tears down what it set up.

Failures to set something up are inherited by the children: every test below fails with them, and is
not invoked.
-/

namespace TestEngine

variable {ω : Type}

/-! ## Cases -/

namespace TestCase

/-- Runs a single test that fails with one more failure. -/
def runFailing (c : TestCase ω) (ids : NodeIds) (scope : ClassScope ω) (inherited : Aggregator)
    (f : Failure) : Process ω Counts :=
  (Test.ofCase c).run ids scope (inherited.add f)

/-- Runs a test for each row of a theory. The teardowns of all rows are kept, whether or not the
tests run. -/
def runRows (c : TestCase ω) (ids : NodeIds) (scope : ClassScope ω) (inherited : Aggregator)
    (rows : List (DataRow ω)) : Process ω (Counts × Disposal ω) := do
  let disposal := rows.foldl (fun d row => d.add row.teardown) ({} : Disposal ω)
  let tests := rows.zipIdx.map fun (row, index) => Test.ofRow c index row
  let counts ← Process.untilCancelled (tests.map (Test.run ids scope inherited)) 0
  pure (counts, disposal)

/-- Finds the rows of a theory and runs them. A theory without rows fails, as does one whose rows
cannot be found. -/
def runTheory (c : TestCase ω) (ids : NodeIds) (scope : ClassScope ω) (inherited : Aggregator)
    (source : SetupCode ω (List (DataRow ω))) : Process ω (Counts × Disposal ω) := do
  Process.enter (.enumerate ids)
  match (← source.run).toExcept with
  | .ok rows => do
    Process.enter (.enumerated ids (some (rows.map (·.teardown.parts))))
    if rows.isEmpty then
      let f := Failure.ofCause (.noData c.method.qualifiedName)
      let counts ← c.runFailing ids scope inherited f
      pure (counts, {})
    else c.runRows ids scope inherited rows
  | .error f => do
    Process.enter (.enumerated ids none)
    let counts ← c.runFailing ids scope inherited f
    pure (counts, {})

/-- Runs the tests of a case; answers the teardowns of the rows as well. -/
def runTests (c : TestCase ω) (ids : NodeIds) (scope : ClassScope ω) (inherited : Aggregator) :
    Process ω (Counts × Disposal ω) := do
  match c.kind, c.skipReason with
  | .theory source, none => c.runTheory ids scope inherited source
  | .error message, _ => do
    let counts ← c.runFailing ids scope inherited (.ofMessage message)
    pure (counts, {})
  | _, _ => do
    let counts ← (Test.ofCase c).run ids scope inherited
    pure (counts, {})

/-- Runs a case of the method `methodIds`. -/
def run (methodIds : NodeIds) (scope : ClassScope ω) (inherited : Aggregator) (c : TestCase ω) :
    Process ω Counts :=
  let ids := methodIds.child .testCase c.id
  lifecycle ids .testCase (.testCase c.displayName c.skipReason c.traits) do
    let (counts, disposal) ← c.runTests ids scope inherited
    let cleanup ← disposal.disposeAll ids {}
    pure (counts, cleanup)

end TestCase

/-! ## Methods -/

namespace Method

/-- Runs the cases of a method of the class `classIds`. -/
def run (classIds : NodeIds) (scope : ClassScope ω) (inherited : Aggregator) (m : Method ω)
    (cases : List (TestCase ω)) : Process ω Counts :=
  let ids := classIds.child .method m.id
  lifecycle ids .method (.method m.name) do
    let counts ← Process.untilCancelled (cases.map (TestCase.run ids scope inherited)) 0
    pure (counts, {})

/-- Runs cases method by method. The methods come in the order in which the cases first show
them. -/
def runAll (classIds : NodeIds) (scope : ClassScope ω) (inherited : Aggregator)
    (cases : List (TestCase ω)) : Process ω Counts :=
  let key (c : TestCase ω) : String := c.method.id
  Process.untilCancelled ((firstSeen key cases).map fun c =>
    c.method.run classIds scope inherited (withKey key c.method.id cases)) 0

end Method

/-! ## Classes -/

namespace TestClass

/-- The name of the orderer of the cases of a class: its own, else that of its collection, of the
run, or of the assembly. -/
def caseOrdererName (k : TestClass ω) (options : Options) : Option String :=
  k.caseOrderer.or <| (k.collection.definition.bind (·.caseOrderer)).or <|
    options.caseOrderer.or k.collection.assembly.caseOrderer

/-- Resolves the constructor of a class; a failure to do so is added to the others. -/
def resolveConstructor (k : TestClass ω) (ids : NodeIds) (collectionFixtures : FixtureMap)
    (fs : Fixtures ω) : ClassScope ω × Aggregator :=
  let scope (c : Option (ReadyConstructor ω)) : ClassScope ω :=
    { collectionFixtures, classFixtures := fs.values, constructor := c }
  match k.constructor with
  | none => (scope none, fs.failures)
  | some d =>
    match d.resolve .testInstance [fs.values, collectionFixtures] ids with
    | .ok c => (scope (some c), fs.failures)
    | .error e => (scope none, fs.failures.add (.ofCause (.fixture e)))

/-- Runs cases of a class of the collection `collectionIds`. -/
def run (setup : RunSetup ω) (collectionIds : NodeIds) (collectionFixtures : FixtureMap)
    (inherited : Aggregator) (k : TestClass ω) (cases : List (TestCase ω)) : Process ω Counts :=
  let ids := collectionIds.child .testClass k.id
  lifecycle ids .testClass (.testClass k.name) do
    let fs ← Fixtures.constructAll .testClass [collectionFixtures] ids k.fixtures
      { failures := inherited }
    let (scope, failures) := k.resolveConstructor ids collectionFixtures fs
    let name := k.caseOrdererName setup.options
    let ordered ← (setup.caseOrderers.tellBy (·.id)).order name ids cases
    let counts ← Method.runAll ids scope failures ordered
    let cleanup ← fs.disposal.disposeAll ids {}
    pure (counts, cleanup)

/-- Runs cases class by class. The classes come in the order in which the cases first show them. -/
def runAll (setup : RunSetup ω) (collectionIds : NodeIds) (collectionFixtures : FixtureMap)
    (inherited : Aggregator) (cases : List (TestCase ω)) : Process ω Counts :=
  let key (c : TestCase ω) : String := c.testClass.id
  Process.untilCancelled ((firstSeen key cases).map fun c =>
    c.testClass.run setup collectionIds collectionFixtures inherited
      (withKey key c.testClass.id cases)) 0

end TestClass

/-! ## Collections -/

namespace Collection

/-- Runs cases of a collection of the assembly `assemblyIds`. -/
def run (setup : RunSetup ω) (assemblyIds : NodeIds) (l : Collection ω)
    (cases : List (TestCase ω)) : Process ω Counts :=
  let ids := assemblyIds.child .collection l.id
  let start := NodeStart.collection l.displayName (l.definition.map (·.typeName))
  lifecycle ids .collection start do
    let definitions := (l.definition.map (·.fixtures)).getD []
    let fs ← Fixtures.constructAll .collection [] ids definitions {}
    let counts ← TestClass.runAll setup ids fs.values fs.failures cases
    let cleanup ← fs.disposal.disposeAll ids {}
    pure (counts, cleanup)

/-- The collections of cases, in the order of the orderer of the run or else of the assembly. -/
def ordered (setup : RunSetup ω) (assembly : Assembly ω) (assemblyIds : NodeIds)
    (cases : List (TestCase ω)) : Process ω (List (Collection ω)) :=
  let name := setup.options.collectionOrderer.or assembly.collectionOrderer
  (setup.collectionOrderers.tellBy (·.id)).order name assemblyIds
    (firstSeen (·.id) (cases.map (·.collection)))

/-- The runs of ordered collections, each with its own cases. -/
def runs (setup : RunSetup ω) (assemblyIds : NodeIds) (cases : List (TestCase ω))
    (collections : List (Collection ω)) : List (Process ω Counts) :=
  collections.map fun l => l.run setup assemblyIds (withKey (·.collection.id) l.id cases)

end Collection

end TestEngine
