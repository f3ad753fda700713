import TestEngine.Fixture.Basic
import TestEngine.Settings.Options
import TestEngine.Tree.Argument
import TestEngine.UniqueId

/-!
# The test tree

An assembly has collections, a collection has classes, a class has methods, and a method has the
cases to be run. A node holds its parent, so a case leads to everything it belongs to.

Every node carries its unique ID, which is a function of its path: the ID of its parent and the
names that tell it from its siblings. The field `id_eq` of a node says so, and whoever builds a node
proves it by `rfl`.
-/

namespace TestEngine

/-! ## The code of tests -/

/-- What the code of a test can see. -/
structure TestContext where
  ids : NodeIds
  index : Nat
  displayName : String
  arguments : List TestArgument
  collectionFixtures : FixtureMap
  classFixtures : FixtureMap
  /-- The instance of the test class, if the class has a constructor. -/
  testInstance : Option FixtureValue

/-- The body of a test. -/
inductive Body (ω : Type) where
  | sync (code : TestContext → TestCode ω Unit)
  /-- The code makes a future, which then runs on the thread of the test. -/
  | async (code : TestContext → TestCode ω (TestCode ω Unit))

/-- Code that runs before and after a test. -/
structure Hook (ω : Type) where
  name : String
  before : Option (TestContext → TestCode ω Unit) := none
  after : Option (TestContext → TestCode ω Unit) := none

/-- The code of one side of a hook, which may be missing. -/
def Hook.side {ω : Type} (h : Hook ω) : HookSide → Option (TestContext → TestCode ω Unit)
  | .before => h.before
  | .after => h.after

/-- What is said at an end of one side of a hook. -/
def Hook.event {ω : Type} (h : Hook ω) (side : HookSide) (edge : Edge) : Event :=
  match side with
  | .before => .before edge h.name
  | .after => .after edge h.name

/-- A row of the data of a theory. -/
structure DataRow (ω : Type) where
  arguments : List TestArgument
  displayName : Option String := none
  skipReason : Option String := none
  teardown : Teardown ω := {}

/-! ## The nodes -/

/-- What is under test. -/
structure Assembly (ω : Type) where
  name : String
  path : Option String := none
  configFile : Option String := none
  parallelism : Parallelism := {}
  collectionOrderer : Option String := none
  caseOrderer : Option String := none
  hooks : List (Hook ω) := []
  id : String := (NodePath.assembly name path configFile).uniqueId
  id_eq : id = (NodePath.assembly name path configFile).uniqueId := by rfl

/-- What defines a collection: the fixtures that its tests share. -/
structure CollectionDefinition (ω : Type) where
  typeName : String
  fixtures : List (FixtureDefinition ω) := []
  caseOrderer : Option String := none

/-- Classes that share fixtures and never run at the same time. -/
structure Collection (ω : Type) where
  assembly : Assembly ω
  displayName : String
  definition : Option (CollectionDefinition ω) := none
  id : String :=
    (NodePath.collection assembly.id displayName (definition.map (·.typeName))).uniqueId
  id_eq : id =
    (NodePath.collection assembly.id displayName (definition.map (·.typeName))).uniqueId := by rfl

/-- A class of tests. -/
structure TestClass (ω : Type) where
  collection : Collection ω
  name : String
  /-- How an instance of the class is built for each test. -/
  constructor : Option (FixtureDefinition ω) := none
  fixtures : List (FixtureDefinition ω) := []
  caseOrderer : Option String := none
  hooks : List (Hook ω) := []
  id : String := (NodePath.testClass collection.id name).uniqueId
  id_eq : id = (NodePath.testClass collection.id name).uniqueId := by rfl

/-- A method of a class. -/
structure Method (ω : Type) where
  testClass : TestClass ω
  name : String
  body : Body ω
  hooks : List (Hook ω) := []
  id : String := (NodePath.method testClass.id name).uniqueId
  id_eq : id = (NodePath.method testClass.id name).uniqueId := by rfl

namespace Method

variable {ω : Type}

/-- The name of the method behind that of its class. -/
def qualifiedName (m : Method ω) : String := m.testClass.name ++ "." ++ m.name

end Method

/-- What a case runs. -/
inductive CaseKind (ω : Type) where
  /-- A test without arguments. -/
  | fact
  /-- A test whose arguments are known beforehand. -/
  | row (arguments : List TestArgument)
  /-- A test for each row of data that is found only when the case runs. -/
  | theory (rows : SetupCode ω (List (DataRow ω)))
  /-- An error that is reported as a failed test. -/
  | error (message : String)

namespace CaseKind

variable {ω : Type}

/-- The arguments that are known beforehand. -/
def arguments : CaseKind ω → List TestArgument
  | row as => as
  | _ => []

end CaseKind

/-- A method, possibly with arguments: what is scheduled. -/
structure TestCase (ω : Type) where
  method : Method ω
  kind : CaseKind ω
  displayName : String
  skipReason : Option String := none
  traits : Traits := .empty
  bindings : List String := []
  id : String :=
    (NodePath.testCase method.id bindings (kind.arguments.map (·.display))).uniqueId
  id_eq : id =
    (NodePath.testCase method.id bindings (kind.arguments.map (·.display))).uniqueId := by rfl

namespace TestCase

variable {ω : Type}

/-- The name of a case that was given none: that of its method, with the arguments if they are known
beforehand. -/
def defaultName (method : Method ω) : CaseKind ω → String
  | .row arguments => callText method.qualifiedName arguments
  | _ => method.qualifiedName

def testClass (c : TestCase ω) : TestClass ω := c.method.testClass

def collection (c : TestCase ω) : Collection ω := c.testClass.collection

def assembly (c : TestCase ω) : Assembly ω := c.collection.assembly

/-- The hooks around the tests of a case, from the outermost to the innermost. -/
def hooks (c : TestCase ω) : List (Hook ω) :=
  c.assembly.hooks ++ c.testClass.hooks ++ c.method.hooks

end TestCase

/-- A single invocation of a case. -/
structure Test (ω : Type) where
  testCase : TestCase ω
  index : Nat
  displayName : String
  arguments : List TestArgument
  skipReason : Option String

namespace Test

variable {ω : Type}

/-- The unique ID of a test. -/
def id (t : Test ω) : String := (NodePath.test t.testCase.id t.index).uniqueId

/-- The one test of a case that needs no data to be found. -/
def ofCase (c : TestCase ω) : Test ω where
  testCase := c
  index := 0
  displayName := c.displayName
  arguments := c.kind.arguments
  skipReason := c.skipReason

/-- The test of a row of data. -/
def ofRow (c : TestCase ω) (index : Nat) (row : DataRow ω) : Test ω where
  testCase := c
  index := index
  displayName := row.displayName.getD (callText c.method.qualifiedName row.arguments)
  arguments := row.arguments
  skipReason := row.skipReason.or c.skipReason

end Test

end TestEngine
