import TestEngine.Tree.Basic

/-!
# Recipes for cases

A node is made with what it cannot do without, and changed by calls before anything below it is
made. Each call sets or adds one thing. A call that sets a part of the path of a node computes the
ID of the node anew; the other calls leave the ID as it is.

A `CaseRecipe` has the calls that build a case, and those that build the nodes above it.
-/

namespace TestEngine

variable {ω : Type}

/-! ## Assemblies -/

/-- A call that changes an assembly. -/
inductive AssemblyCall (ω : Type) where
  | path (path : String)
  | configFile (path : String)
  | parallelism (parallelism : Parallelism)
  | collectionOrderer (name : String)
  | caseOrderer (name : String)
  | hook (hook : Hook ω)

namespace Assembly

/-- An assembly with a name and nothing else. -/
def ofName (name : String) : Assembly ω := { name }

/-- Sets the path. -/
def withPath (a : Assembly ω) (path : String) : Assembly ω :=
  { a with
    path := some path
    id := (NodePath.assembly a.name (some path) a.configFile).uniqueId
    id_eq := rfl }

/-- Sets the path of the configuration file. -/
def withConfigFile (a : Assembly ω) (configFile : String) : Assembly ω :=
  { a with
    configFile := some configFile
    id := (NodePath.assembly a.name a.path (some configFile)).uniqueId
    id_eq := rfl }

/-- Makes a call. -/
def change (a : Assembly ω) : AssemblyCall ω → Assembly ω
  | .path path => a.withPath path
  | .configFile configFile => a.withConfigFile configFile
  | .parallelism parallelism => { a with parallelism }
  | .collectionOrderer name => { a with collectionOrderer := some name }
  | .caseOrderer name => { a with caseOrderer := some name }
  | .hook hook => { a with hooks := a.hooks ++ [hook] }

/-- The assembly that calls build. -/
def build (name : String) (calls : List (AssemblyCall ω)) : Assembly ω :=
  calls.foldl change (ofName name)

end Assembly

/-! ## Collections -/

/-- A call that changes the definition of a collection. -/
inductive DefinitionCall (ω : Type) where
  | fixture (fixture : FixtureDefinition ω)
  | caseOrderer (name : String)

namespace CollectionDefinition

/-- Makes a call. -/
def change (d : CollectionDefinition ω) : DefinitionCall ω → CollectionDefinition ω
  | .fixture fixture => { d with fixtures := d.fixtures ++ [fixture] }
  | .caseOrderer name => { d with caseOrderer := some name }

/-- The definition that calls build. -/
def build (typeName : String) (calls : List (DefinitionCall ω)) : CollectionDefinition ω :=
  calls.foldl change { typeName }

end CollectionDefinition

/-! ## Classes -/

/-- A call that changes a class. -/
inductive ClassCall (ω : Type) where
  | constructor (constructor : FixtureDefinition ω)
  | fixture (fixture : FixtureDefinition ω)
  | caseOrderer (name : String)
  | hook (hook : Hook ω)

namespace TestClass

/-- Makes a call. -/
def change (k : TestClass ω) : ClassCall ω → TestClass ω
  | .constructor constructor => { k with constructor := some constructor }
  | .fixture fixture => { k with fixtures := k.fixtures ++ [fixture] }
  | .caseOrderer name => { k with caseOrderer := some name }
  | .hook hook => { k with hooks := k.hooks ++ [hook] }

/-- The class that calls build. -/
def build (collection : Collection ω) (name : String) (calls : List (ClassCall ω)) : TestClass ω :=
  calls.foldl change { collection, name }

end TestClass

/-! ## Methods -/

/-- A call that changes a method: it adds a hook. -/
structure MethodCall (ω : Type) where
  hook : Hook ω

namespace Method

/-- Makes a call. -/
def change (m : Method ω) (call : MethodCall ω) : Method ω :=
  { m with hooks := m.hooks ++ [call.hook] }

/-- The method that calls build. -/
def build (testClass : TestClass ω) (name : String) (body : Body ω) (calls : List (MethodCall ω)) :
    Method ω :=
  calls.foldl change { testClass, name, body }

end Method

/-! ## Cases -/

/-- A call that changes a case. -/
inductive CaseCall where
  | displayName (name : String)
  | skipReason (reason : String)
  | label (key value : String)
  | bindings (bindings : List String)

namespace TestCase

/-- A case with the name that it has if it is given none. -/
def ofKind (method : Method ω) (kind : CaseKind ω) : TestCase ω :=
  { method, kind, displayName := defaultName method kind }

/-- Sets the generic bindings. -/
def withBindings (c : TestCase ω) (bindings : List String) : TestCase ω where
  method := c.method
  kind := c.kind
  displayName := c.displayName
  skipReason := c.skipReason
  traits := c.traits
  bindings := bindings

/-- Makes a call. -/
def change (c : TestCase ω) : CaseCall → TestCase ω
  | .displayName displayName => { c with displayName }
  | .skipReason reason => { c with skipReason := some reason }
  | .label key value => { c with traits := c.traits.add key value }
  | .bindings bindings => c.withBindings bindings

/-- The case that calls build. -/
def build (method : Method ω) (kind : CaseKind ω) (calls : List CaseCall) : TestCase ω :=
  calls.foldl change (ofKind method kind)

end TestCase

/-! ## Recipes -/

/-- The calls that build the definition of a collection. -/
structure DefinitionRecipe (ω : Type) where
  typeName : String
  calls : List (DefinitionCall ω) := []

/-- The calls that build a case and the nodes above it, from the top down. -/
structure CaseRecipe (ω : Type) where
  assemblyName : String
  assemblyCalls : List (AssemblyCall ω) := []
  collectionName : String
  definition : Option (DefinitionRecipe ω) := none
  className : String
  classCalls : List (ClassCall ω) := []
  methodName : String
  body : Body ω
  methodCalls : List (MethodCall ω) := []
  kind : CaseKind ω
  caseCalls : List CaseCall := []

namespace CaseRecipe

variable (r : CaseRecipe ω)

def assembly : Assembly ω := .build r.assemblyName r.assemblyCalls

def collection : Collection ω where
  assembly := r.assembly
  displayName := r.collectionName
  definition := r.definition.map fun d => .build d.typeName d.calls

def testClass : TestClass ω := .build r.collection r.className r.classCalls

def method : Method ω := .build r.testClass r.methodName r.body r.methodCalls

/-- The case that a recipe builds. -/
def build : TestCase ω := .build r.method r.kind r.caseCalls

end CaseRecipe

end TestEngine
