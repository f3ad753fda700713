import TestEngine.Proofs.Fixture.Outcomes
import TestEngine.Proofs.Process.Twins
import TestEngine.Run.Assembly

/-!
# Trees that are alike

Two runs are *alike* if they differ only in what is left open: how teardowns end, or what the code
of some methods does. All other code of the one mirrors that of the other, as far as an observer can
see the world, and everything that is no code is the same.

Orderers are alike if they answer alike whatever they are given to order, as long as it is alike; so
they may look at anything but at the code that is left open.

* `Likeness` — what is left open, and what an observer sees who is not to notice it.
* `AssemblyRun.Alike` — two runs that are alike.
-/

namespace TestEngine

variable {ω ν α : Type}

/-- What two runs may differ in, and what an observer sees who is not to notice the difference. -/
structure Likeness (ω ν : Type) extends Observer ω ν where
  /-- Teardowns may end differently. -/
  loose : Prop
  /-- The code of a method may do different things, and so may the counts of all nodes that the
  method belongs to. -/
  varies : NodeIds → Prop
  varies_parent : ∀ {ids : NodeIds} {level : Level} {id : String},
    ids.level.depth < level.depth → varies (ids.child level id) → varies ids
  varies_inside : ∀ {ids : NodeIds} {level : Level} {id : String},
    Level.method.depth ≤ ids.level.depth → ids.level.depth < level.depth → varies ids →
      varies (ids.child level id)
  /-- Nothing is seen of failures to tear down, if there may be others. -/
  cleanups : loose → ∀ ids level error, shows ⟨ids, .cleanupFailure level error⟩ = none
  /-- Nothing is seen of a method whose code may do different things. -/
  hides : ∀ {ids : NodeIds}, varies ids → ids.method.isSome = true → ∀ event,
    shows ⟨ids, event⟩ = none
  /-- The counts of the nodes that it belongs to are not seen. -/
  blurs : ∀ {ids : NodeIds}, varies ids → ∀ group s s',
    shows ⟨ids, .finished group s⟩ = shows ⟨ids, .finished group s'⟩
  /-- What it does stops no run. -/
  steady : ∀ {ids : NodeIds}, varies ids → stopOnFail = false

variable (L : Likeness ω ν)

/-! ## Code -/

/-- Code that ends alike: with a value, or with the same failure. -/
def SameFailure (o o' : Outcome Unit) : Prop := o.failure? = o'.failure?

/-- The parts of two teardowns do the same, but may end differently if that is left open. -/
def Teardown.Alike (t t' : Teardown ω) : Prop :=
  ∀ part, Option.Rel (Code.Mirrors L.view fun o o' => L.loose ∨ SameFailure o o') (t.code? part)
    (t'.code? part)

structure Fixture.Alike (f f' : Fixture ω) : Prop where
  value_eq : f.value = f'.value
  teardown : f.teardown.Alike L f'.teardown

structure Constructor.Alike (c c' : Constructor ω) : Prop where
  parameters_eq : c.parameters = c'.parameters
  build : ∀ ids arguments,
    Code.Mirrors L.view (Outcome.Alike (Fixture.Alike L)) (c.build ids arguments)
      (c'.build ids arguments)

structure FixtureDefinition.Alike (d d' : FixtureDefinition ω) : Prop where
  typeName_eq : d.typeName = d'.typeName
  constructors : List.Forall₂ (Constructor.Alike L) d.constructors d'.constructors

structure ReadyConstructor.Alike (c c' : ReadyConstructor ω) : Prop where
  kind_eq : c.kind = c'.kind
  typeName_eq : c.typeName = c'.typeName
  code : Code.Mirrors L.view (Outcome.Alike (Fixture.Alike L)) c.code c'.code

structure DataRow.Alike (row row' : DataRow ω) : Prop where
  arguments_eq : row.arguments = row'.arguments
  displayName_eq : row.displayName = row'.displayName
  skipReason_eq : row.skipReason = row'.skipReason
  teardown : row.teardown.Alike L row'.teardown

structure Hook.Alike (h h' : Hook ω) : Prop where
  name_eq : h.name = h'.name
  side : ∀ side, Option.Rel (fun code code' => ∀ ctx,
    Code.Mirrors L.view SameFailure (code ctx) (code' ctx)) (h.side side) (h'.side side)

/-- An observer sees nothing of a hook. -/
def Hook.IsSecret (h : Hook ω) : Prop :=
  ∀ side code, h.side side = some code → ∀ ctx, (code ctx).Secret L.toObserver

def Body.Alike (b b' : Body ω) : Prop :=
  ∀ ctx, Code.Mirrors L.view SameFailure (b.code ctx) (b'.code ctx)

/-- An observer sees nothing of a body. -/
def Body.IsSecret (b : Body ω) : Prop := ∀ ctx, (b.code ctx).Secret L.toObserver

/-! ## Nodes -/

structure Assembly.Alike (a a' : Assembly ω) : Prop where
  name_eq : a.name = a'.name
  path_eq : a.path = a'.path
  configFile_eq : a.configFile = a'.configFile
  parallelism_eq : a.parallelism = a'.parallelism
  collectionOrderer_eq : a.collectionOrderer = a'.collectionOrderer
  caseOrderer_eq : a.caseOrderer = a'.caseOrderer
  id_eq : a.id = a'.id
  hooks : List.Forall₂ (Hook.Alike L) a.hooks a'.hooks

structure CollectionDefinition.Alike (d d' : CollectionDefinition ω) : Prop where
  typeName_eq : d.typeName = d'.typeName
  caseOrderer_eq : d.caseOrderer = d'.caseOrderer
  fixtures : List.Forall₂ (FixtureDefinition.Alike L) d.fixtures d'.fixtures

structure Collection.Alike (l l' : Collection ω) : Prop where
  assembly : l.assembly.Alike L l'.assembly
  displayName_eq : l.displayName = l'.displayName
  id_eq : l.id = l'.id
  definition : Option.Rel (CollectionDefinition.Alike L) l.definition l'.definition

structure TestClass.Alike (k k' : TestClass ω) : Prop where
  collection : k.collection.Alike L k'.collection
  name_eq : k.name = k'.name
  caseOrderer_eq : k.caseOrderer = k'.caseOrderer
  id_eq : k.id = k'.id
  constructor : Option.Rel (FixtureDefinition.Alike L) k.constructor k'.constructor
  fixtures : List.Forall₂ (FixtureDefinition.Alike L) k.fixtures k'.fixtures
  hooks : List.Forall₂ (Hook.Alike L) k.hooks k'.hooks

/-- An observer sees nothing of the code of a method. -/
structure Method.IsSecret (m : Method ω) : Prop where
  body : m.body.IsSecret L
  hooks : ∀ h ∈ m.hooks, h.IsSecret L

/-- The code of two methods of the class `classIds` is alike, or it may be any if that is left
open. -/
structure Method.Alike (classIds : NodeIds) (m m' : Method ω) : Prop where
  testClass : m.testClass.Alike L m'.testClass
  name_eq : m.name = m'.name
  id_eq : m.id = m'.id
  code : (m.body.Alike L m'.body ∧ List.Forall₂ (Hook.Alike L) m.hooks m'.hooks) ∨
    (L.varies (classIds.child .method m.id) ∧ m.IsSecret L ∧ m'.IsSecret L)

inductive CaseKind.Alike : CaseKind ω → CaseKind ω → Prop
  | fact : Alike .fact .fact
  | row (arguments : List TestArgument) : Alike (.row arguments) (.row arguments)
  | theory {source source' : SetupCode ω (List (DataRow ω))}
      (h : Code.Mirrors L.view (Outcome.Alike (List.Forall₂ (DataRow.Alike L))) source source') :
      Alike (.theory source) (.theory source')
  | error (message : String) : Alike (.error message) (.error message)

/-- The IDs of the class of a case. -/
def TestCase.classIds (assemblyIds : NodeIds) (c : TestCase ω) : NodeIds :=
  (assemblyIds.child .collection c.collection.id).child .testClass c.testClass.id

/-- Two cases of the class `classIds`. -/
structure TestCase.Alike (classIds : NodeIds) (c c' : TestCase ω) : Prop where
  method : c.method.Alike L classIds c'.method
  kind : c.kind.Alike L c'.kind
  displayName_eq : c.displayName = c'.displayName
  skipReason_eq : c.skipReason = c'.skipReason
  traits_eq : c.traits = c'.traits
  bindings_eq : c.bindings = c'.bindings
  id_eq : c.id = c'.id

/-! ## Runs -/

/-- Two orderers answer alike when they are given lists that are alike. -/
def Orderer.Alike (R : α → α → Prop) (o o' : Orderer ω α) : Prop :=
  ∀ items items', List.Forall₂ R items items' →
    Code.Mirrors L.view (Outcome.Alike (List.Forall₂ R)) (o items) (o' items')

/-- Two registries have orderers that are alike by the same names. -/
structure Orderers.Alike (R : α → α → Prop) (os os' : Orderers ω α) : Prop where
  kind_eq : os.kind = os'.kind
  factories : List.Forall₂ (fun f f' => f.1 = f'.1 ∧ ∀ ids,
    Code.Mirrors L.view (Outcome.Alike (Orderer.Alike L R)) (f.2 ids) (f'.2 ids)) os.factories
    os'.factories

structure RunSetup.Alike (setup setup' : RunSetup ω) : Prop where
  options_eq : setup.options = setup'.options
  collectionOrderers :
    setup.collectionOrderers.Alike L (Collection.Alike L) setup'.collectionOrderers
  caseOrderers : ∀ classIds,
    setup.caseOrderers.Alike L (TestCase.Alike L classIds) setup'.caseOrderers

/-- Two runs that differ in nothing but what is left open. -/
structure AssemblyRun.Alike (r r' : AssemblyRun ω) : Prop where
  assembly : r.assembly.Alike L r'.assembly
  cases : List.Forall₂ (fun c c' => c.Alike L (c.classIds r.ids) c') r.cases r'.cases
  setup : r.setup.Alike L r'.setup
  processors_eq : r.processors = r'.processors
  startTime_eq : r.startTime = r'.startTime

/-! ## What follows for single parts -/

variable {L}

theorem isSome_eq_of_rel {β : Type} {R : α → β → Prop} {o : Option α} {o' : Option β}
    (h : Option.Rel R o o') : o.isSome = o'.isSome := by
  cases h <;> rfl

theorem Teardown.Alike.isEmpty_eq {t t' : Teardown ω} (h : t.Alike L t') :
    t.isEmpty = t'.isEmpty := by
  have hasync : (t.code? .async).isSome = (t'.code? .async).isSome := isSome_eq_of_rel (h .async)
  have hsync : t.syncPart.isSome = t'.syncPart.isSome := isSome_eq_of_rel (h .sync)
  rw [Teardown.code?, Teardown.code?, Option.isSome_map, Option.isSome_map] at hasync
  unfold Teardown.isEmpty
  rw [← Option.not_isSome, ← Option.not_isSome, ← Option.not_isSome, ← Option.not_isSome, hasync,
    hsync]

namespace TestCase.Alike

variable {classIds : NodeIds} {c c' : TestCase ω}

theorem testClass (h : c.Alike L classIds c') : c.testClass.Alike L c'.testClass :=
  h.method.testClass

theorem collection (h : c.Alike L classIds c') : c.collection.Alike L c'.collection :=
  h.testClass.collection

end TestCase.Alike

/-- A parameter gets the same argument; so a definition is resolved alike. -/
theorem FixtureDefinition.Alike.resolve {d d' : FixtureDefinition ω} (h : d.Alike L d')
    (kind : FixtureKind) (available : List FixtureMap) (ids : NodeIds) :
    (∃ e, d.resolve kind available ids = .error e ∧ d'.resolve kind available ids = .error e) ∨
      ∃ c c', d.resolve kind available ids = .ok c ∧ d'.resolve kind available ids = .ok c' ∧
        c.Alike L c' := by
  obtain ⟨typeName, cs⟩ := d
  obtain ⟨typeName', cs'⟩ := d'
  obtain ⟨rfl, hcs⟩ := h
  unfold FixtureDefinition.resolve
  cases hcs with
  | nil => exact .inl ⟨_, rfl, rfl⟩
  | @cons c c' cs cs' hc hrest =>
    cases hrest with
    | cons _ _ => exact .inl ⟨_, rfl, rfl⟩
    | nil =>
      simp only [← hc.parameters_eq]
      cases Parameter.resolveAll available ids c.parameters with
      | error missing => exact .inl ⟨_, rfl, rfl⟩
      | ok arguments => exact .inr ⟨_, _, rfl, rfl, rfl, rfl, hc.build ids arguments⟩

/-- Orderers without code are alike if their orders do not look at what is left open. -/
theorem Orderers.alike_ofOrders {R : α → α → Prop} (kind : OrdererKind) (idOf : α → String)
    {orders : List (String × (List α → List α))}
    (h : ∀ o ∈ orders, ∀ xs ys, List.Forall₂ R xs ys → List.Forall₂ R (o.2 xs) (o.2 ys)) :
    (ofOrders kind idOf orders : Orderers ω α).Alike L R (ofOrders kind idOf orders) where
  kind_eq := rfl
  factories := by
    show List.Forall₂ _ (orders.map _) (orders.map _)
    rw [List.forall₂_map_left_iff, List.forall₂_map_right_iff, List.forall₂_same]
    refine fun o ho => ⟨rfl, fun _ => .finish (.returned fun xs ys hxy => ?_)⟩
    exact .finish (.returned (h o ho xs ys hxy))

/-! ## Lists that are alike -/

section Lists

variable {R : α → α → Prop} {key : α → String} {xs ys : List α}

theorem forall₂_filter {p q : α → Bool} (hpq : ∀ x y, R x y → p x = q y)
    (h : List.Forall₂ R xs ys) : List.Forall₂ R (xs.filter p) (ys.filter q) :=
  List.rel_filter (fun x y hxy => iff_of_eq (congrArg (· = true) (hpq x y hxy))) h

/-- The items with a key all have that key. -/
theorem forall₂_withKey (hkey : ∀ x y, R x y → key x = key y) (h : List.Forall₂ R xs ys)
    (k : String) :
    List.Forall₂ (fun x y => R x y ∧ key x = k) (withKey key k xs) (withKey key k ys) := by
  have hitems : List.Forall₂ R (withKey key k xs) (withKey key k ys) :=
    forall₂_filter (fun x y hxy => by rw [hkey x y hxy]) h
  refine (List.forall₂_and_left (p := fun x => key x = k) _ _).mpr ⟨fun x hx => ?_, hitems⟩ |>.imp
    fun x y hxy => hxy.symm
  exact beq_iff_eq.mp (List.mem_filter.mp hx).2

theorem forall₂_firstSeen (hkey : ∀ x y, R x y → key x = key y) (h : List.Forall₂ R xs ys) :
    List.Forall₂ R (firstSeen key xs) (firstSeen key ys) := by
  induction h with
  | nil => exact .nil
  | cons hxy _ ih =>
    exact .cons hxy (forall₂_filter (fun x y hxy' => by rw [hkey x y hxy', hkey _ _ hxy]) ih)

theorem forall₂_zipIdx (h : List.Forall₂ R xs ys) (n : Nat) :
    List.Forall₂ (fun x y => R x.1 y.1 ∧ x.2 = y.2) (xs.zipIdx n) (ys.zipIdx n) := by
  induction h generalizing n with
  | nil => exact .nil
  | cons hxy _ ih => exact .cons ⟨hxy, rfl⟩ (ih (n + 1))

end Lists

end TestEngine
