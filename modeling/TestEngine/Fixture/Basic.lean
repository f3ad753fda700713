import TestEngine.Fixture.Teardown

/-!
# Fixtures

Values that are built once and shared by a group of tests. A fixture is built by a constructor,
whose parameters are fixtures that are already there or a sender of diagnostic messages; the
instance of a test class is built by the same rules.

A type is given by its name. Two types of one name, which a program may well have in different
places, count as one type here.

* `resolve` picks the constructor and its arguments, without running anything.
* `ReadyConstructor.invoke` runs it; whatever goes wrong inside is reported as a failed constructor.
* `Fixtures.constructAll` builds a list of fixtures. Each may use those built before it, and one
  that fails stops none of the others.
-/

namespace TestEngine

variable {ω : Type}

/-- A value as user code sees it: its type, and what tells it from other values of that type. -/
structure FixtureValue where
  typeName : String
  handle : String
  deriving DecidableEq, Repr, Inhabited

namespace FixtureValue

/-- The value as one of a type, if that is its type. -/
def ofType? (v : FixtureValue) (typeName : String) : Option FixtureValue :=
  if v.typeName = typeName then some v else none

end FixtureValue

/-- Fixtures by the type that they are built for, the latest first. -/
abbrev FixtureMap := List (String × FixtureValue)

namespace FixtureMap

/-- The fixture that is built for a type, if it is of that type. -/
def ofType? (m : FixtureMap) (typeName : String) : Option FixtureValue :=
  m.lookup typeName >>= (·.ofType? typeName)

end FixtureMap

/-- A built fixture. -/
structure Fixture (ω : Type) where
  value : FixtureValue
  teardown : Teardown ω := {}

/-- A parameter of a constructor. -/
inductive Parameter where
  /-- A sender of diagnostic messages. -/
  | diagnostics (name : String)
  | fixture (typeName name : String)
  deriving DecidableEq, Repr

/-- An argument of a constructor. A sender is given by the node that its messages are about. -/
inductive Argument where
  | diagnostics (ids : NodeIds)
  | fixture (value : FixtureValue)
  deriving DecidableEq, Repr

/-- A constructor: its parameters, and the code that builds a fixture from the arguments. The code
can also send diagnostic messages about the node that it is built for. -/
structure Constructor (ω : Type) where
  parameters : List Parameter
  build : NodeIds → List Argument → SetupCode ω (Fixture ω)

/-- How to build a fixture of a type. -/
structure FixtureDefinition (ω : Type) where
  typeName : String
  constructors : List (Constructor ω)

namespace FixtureDefinition

/-- A definition with a single constructor, which has no parameters. -/
def ofCode (typeName : String) (code : SetupCode ω FixtureValue) : FixtureDefinition ω where
  typeName := typeName
  constructors := [{
    parameters := []
    build := fun _ _ => do
      let value ← code
      pure { value } }]

end FixtureDefinition

/-! ## Resolving constructors -/

/-- A constructor with its arguments. -/
structure ReadyConstructor (ω : Type) where
  kind : FixtureKind
  typeName : String
  code : SetupCode ω (Fixture ω)

/-- The argument for a parameter, or how the parameter is called if nothing fits. -/
def Parameter.resolve (available : List FixtureMap) (ids : NodeIds) :
    Parameter → Except String Argument
  | .diagnostics _ => .ok (.diagnostics ids)
  | .fixture typeName name =>
    match available.findSome? (·.lookup typeName) with
    | some value => .ok (.fixture value)
    | none => .error (typeName ++ " " ++ name)

/-- The arguments for a list of parameters, or those for which nothing fits. -/
def Parameter.resolveAll (available : List FixtureMap) (ids : NodeIds) :
    List Parameter → Except (List String) (List Argument)
  | [] => .ok []
  | p :: rest =>
    match p.resolve available ids, resolveAll available ids rest with
    | .ok a, .ok as => .ok (a :: as)
    | .ok _, .error missing => .error missing
    | .error m, .ok _ => .error [m]
    | .error m, .error missing => .error (m :: missing)

/-- Picks the one constructor of a definition and its arguments. Fixtures are looked up in the maps
`available`, the first of which that has the type decides. -/
def FixtureDefinition.resolve (d : FixtureDefinition ω) (kind : FixtureKind)
    (available : List FixtureMap) (ids : NodeIds) : Except FixtureError (ReadyConstructor ω) :=
  match d.constructors with
  | [c] =>
    match Parameter.resolveAll available ids c.parameters with
    | .ok arguments => .ok { kind, typeName := d.typeName, code := c.build ids arguments }
    | .error missing => .error (.unresolvedArguments kind d.typeName missing)
  | _ => .error (.constructorCount kind d.typeName)

/-! ## Building -/

namespace ReadyConstructor

/-- The failure of a constructor, with what went wrong inside of it. -/
def failure (c : ReadyConstructor ω) (inside : Failure) : Failure :=
  (Failure.ofCause (.fixture (.constructorFailed c.kind c.typeName))).withInner inside

/-- Runs a constructor on behalf of a node. -/
def invoke (owner : NodeIds) (c : ReadyConstructor ω) :
    Process ω (Except Failure (Fixture ω)) := do
  Process.enter (.construct owner c.kind c.typeName)
  match (← c.code.run).toExcept with
  | .ok fixture => do
    Process.enter (.constructed owner c.kind c.typeName (some fixture.teardown.parts))
    pure (.ok fixture)
  | .error inside => do
    Process.enter (.constructed owner c.kind c.typeName none)
    pure (.error (c.failure inside))

end ReadyConstructor

/-- What a node has built: its fixtures, their teardowns, and the failures so far. -/
structure Fixtures (ω : Type) where
  values : FixtureMap := []
  disposal : Disposal ω := {}
  failures : Aggregator := {}

namespace Fixtures

/-- Builds one fixture. -/
def construct (kind : FixtureKind) (parents : List FixtureMap) (ids : NodeIds)
    (fs : Fixtures ω) (d : FixtureDefinition ω) : Process ω (Fixtures ω) :=
  match d.resolve kind (fs.values :: parents) ids with
  | .error e => pure { fs with failures := fs.failures.add (.ofCause (.fixture e)) }
  | .ok c => do
    match ← c.invoke ids with
    | .error f => pure { fs with failures := fs.failures.add f }
    | .ok fixture =>
      let disposal := fs.disposal.add fixture.teardown
      pure { fs with values := (d.typeName, fixture.value) :: fs.values, disposal }

/-- Builds the fixtures of a list of definitions, in order. -/
def constructAll (kind : FixtureKind) (parents : List FixtureMap) (ids : NodeIds)
    (definitions : List (FixtureDefinition ω)) (fs : Fixtures ω) : Process ω (Fixtures ω) :=
  definitions.foldlM (construct kind parents ids) fs

end Fixtures

end TestEngine
