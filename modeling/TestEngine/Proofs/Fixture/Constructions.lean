import TestEngine.Proofs.Fixture.Outcomes

/-!
# Building fixtures

A node builds its fixtures one after another. Which arguments a constructor gets depends on all that
was built before it: a later fixture takes the place of an earlier one of its type, and a fixture of
the node goes before those of the nodes above it. Here all of this is said without a look at how it
is computed: of values that are there, of the parameters that nothing fits, and of what each
definition leaves behind.

* `FixtureMap.Provides` — the value that is there for a type.
* `Fixtures.Tries` — what becomes of one definition.
* `Fixtures.buildsInOrder` — a list of definitions is built in order, each of them in one of these
  ways, and a new fixture takes the place of one of its own type only.
-/

namespace TestEngine

open Process

variable {ω : Type}

/-! ## Values that are there -/

namespace FixtureMap

/-- Nothing is there for a type. -/
def Lacks (m : FixtureMap) (typeName : String) : Prop := ∀ x ∈ m, x.1 ≠ typeName

/-- The value is there for a type: it is the latest of all that were built for it. -/
def Has (m : FixtureMap) (typeName : String) (value : FixtureValue) : Prop :=
  ∃ later earlier, m = later ++ (typeName, value) :: earlier ∧ Lacks later typeName

/-- The first of several maps that has anything for a type has the value. -/
def Provides (maps : List FixtureMap) (typeName : String) (value : FixtureValue) : Prop :=
  ∃ before m after, maps = before ++ m :: after ∧ Has m typeName value ∧
    ∀ m' ∈ before, Lacks m' typeName

/-- The map after a value was built for a type. -/
def bound (m : FixtureMap) (typeName : String) (value : FixtureValue) : FixtureMap :=
  (typeName, value) :: m

variable {m : FixtureMap} {maps : List FixtureMap} {typeName : String} {value : FixtureValue}

theorem lookup_eq_none_iff : m.lookup typeName = none ↔ m.Lacks typeName := by
  simp only [List.lookup_eq_none_iff, bne_iff_ne, Lacks, ne_comm]

theorem lookup_eq_some_iff : m.lookup typeName = some value ↔ m.Has typeName value := by
  simp only [List.lookup_eq_some_iff, bne_iff_ne, Has, Lacks, ne_comm]

theorem findSome?_eq_some_iff :
    maps.findSome? (·.lookup typeName) = some value ↔ Provides maps typeName value := by
  simp only [List.findSome?_eq_some_iff, lookup_eq_none_iff, lookup_eq_some_iff, Provides]

theorem findSome?_eq_none_iff :
    maps.findSome? (·.lookup typeName) = none ↔ ∀ m ∈ maps, m.Lacks typeName := by
  simp only [List.findSome?_eq_none_iff, lookup_eq_none_iff]

theorem provides_or_lacks (maps : List FixtureMap) (typeName : String) :
    (∃ value, Provides maps typeName value) ∨ ∀ m ∈ maps, m.Lacks typeName := by
  cases hfind : maps.findSome? (·.lookup typeName) with
  | some value => exact .inl ⟨value, findSome?_eq_some_iff.mp hfind⟩
  | none => exact .inr (findSome?_eq_none_iff.mp hfind)

theorem Provides.not_lacks (h : Provides maps typeName value) :
    ¬∀ m ∈ maps, m.Lacks typeName := by
  rw [← findSome?_eq_some_iff] at h
  rw [← findSome?_eq_none_iff, h]
  exact Option.some_ne_none value

/-- **A new value takes the place of one of its own type**, and of no other. -/
theorem has_bound_iff (m : FixtureMap) (typeName other : String) (value value' : FixtureValue) :
    (m.bound typeName value).Has other value' ↔
      if other = typeName then value' = value else m.Has other value' := by
  rw [← lookup_eq_some_iff, ← lookup_eq_some_iff, bound, List.lookup_cons]
  by_cases h : other = typeName
  · rw [if_pos h, beq_iff_eq.mpr h]
    exact Option.some_inj.trans eq_comm
  · rw [if_neg h, beq_eq_false_iff_ne.mpr h]

end FixtureMap

/-! ## Arguments -/

section Arguments

variable {available : List FixtureMap} {ids : NodeIds}

/-- What a parameter gets: the sender of the node, or the value that is there for its type. -/
inductive Supplies (available : List FixtureMap) (ids : NodeIds) : Parameter → Argument → Prop
  | diagnostics (name : String) : Supplies available ids (.diagnostics name) (.diagnostics ids)
  | fixture {typeName : String} {value : FixtureValue} (name : String)
      (h : FixtureMap.Provides available typeName value) :
      Supplies available ids (.fixture typeName name) (.fixture value)

/-- The parameters for which nothing is there, in order, and as they are called. -/
inductive Misses (available : List FixtureMap) : List Parameter → List String → Prop
  | nil : Misses available [] []
  | diagnostics (name : String) {ps : List Parameter} {missing : List String}
      (h : Misses available ps missing) : Misses available (.diagnostics name :: ps) missing
  | provided {typeName : String} {value : FixtureValue} (name : String) {ps : List Parameter}
      {missing : List String} (hvalue : FixtureMap.Provides available typeName value)
      (h : Misses available ps missing) : Misses available (.fixture typeName name :: ps) missing
  | lacking {typeName : String} (name : String) {ps : List Parameter} {missing : List String}
      (hlacks : ∀ m ∈ available, FixtureMap.Lacks m typeName) (h : Misses available ps missing) :
      Misses available (.fixture typeName name :: ps) ((typeName ++ " " ++ name) :: missing)

/-- Which parameters are missing is determined. -/
theorem Misses.unique {ps : List Parameter} {missing missing' : List String}
    (h : Misses available ps missing) (h' : Misses available ps missing') :
    missing = missing' := by
  induction h generalizing missing' with
  | nil => cases h'; rfl
  | diagnostics name _ ih =>
    cases h' with
    | diagnostics _ h' => exact ih h'
  | provided name hvalue _ ih =>
    cases h' with
    | provided _ _ h' => exact ih h'
    | lacking _ hlacks _ => exact absurd hlacks hvalue.not_lacks
  | lacking name hlacks _ ih =>
    cases h' with
    | provided _ hvalue _ => exact absurd hlacks hvalue.not_lacks
    | lacking _ _ h' => rw [ih h']

theorem Misses.of_supplies {p : Parameter} {a : Argument} {ps : List Parameter}
    {missing : List String} (h : Supplies available ids p a) (hrest : Misses available ps missing) :
    Misses available (p :: ps) missing := by
  cases h with
  | diagnostics name => exact .diagnostics name hrest
  | fixture name h => exact .provided name h hrest

namespace Parameter

theorem resolve_of_provides {typeName : String} {value : FixtureValue} (name : String)
    (h : FixtureMap.Provides available typeName value) :
    (fixture typeName name).resolve available ids = .ok (.fixture value) := by
  simp only [resolve, FixtureMap.findSome?_eq_some_iff.mpr h]

theorem resolve_of_lacks {typeName : String} (name : String)
    (h : ∀ m ∈ available, FixtureMap.Lacks m typeName) :
    (fixture typeName name).resolve available ids = .error (typeName ++ " " ++ name) := by
  simp only [resolve, FixtureMap.findSome?_eq_none_iff.mpr h]

theorem resolve_of_supplies {p : Parameter} {a : Argument} (h : Supplies available ids p a) :
    p.resolve available ids = .ok a := by
  cases h with
  | diagnostics name => rfl
  | fixture name h => exact resolve_of_provides name h

/-- A parameter gets its argument, or nothing is there for it. -/
theorem supplies_or_lacks (available : List FixtureMap) (ids : NodeIds) (p : Parameter) :
    (∃ a, Supplies available ids p a) ∨
      ∃ typeName name, p = .fixture typeName name ∧
        ∀ m ∈ available, FixtureMap.Lacks m typeName := by
  cases p with
  | diagnostics name => exact .inl ⟨_, .diagnostics name⟩
  | fixture typeName name =>
    rcases FixtureMap.provides_or_lacks available typeName with ⟨value, h⟩ | h
    · exact .inl ⟨_, .fixture name h⟩
    · exact .inr ⟨typeName, name, rfl, h⟩

/-- The arguments for all parameters, or those for which nothing is there. -/
theorem resolveAll_spec (available : List FixtureMap) (ids : NodeIds) (ps : List Parameter) :
    (∃ arguments, List.Forall₂ (Supplies available ids) ps arguments ∧ Misses available ps [] ∧
      resolveAll available ids ps = .ok arguments) ∨
    ∃ missing, Misses available ps missing ∧ missing ≠ [] ∧
      resolveAll available ids ps = .error missing := by
  induction ps with
  | nil => exact .inl ⟨[], .nil, .nil, rfl⟩
  | cons p ps ih =>
    unfold resolveAll
    rcases supplies_or_lacks available ids p with ⟨a, ha⟩ | ⟨typeName, name, rfl, hlacks⟩
    · rw [resolve_of_supplies ha]
      rcases ih with ⟨arguments, hall, hmisses, heq⟩ | ⟨missing, hmisses, hne, heq⟩
      · exact .inl ⟨a :: arguments, .cons ha hall, .of_supplies ha hmisses, by rw [heq]⟩
      · exact .inr ⟨missing, .of_supplies ha hmisses, hne, by rw [heq]⟩
    · rw [resolve_of_lacks name hlacks]
      rcases ih with ⟨arguments, hall, hmisses, heq⟩ | ⟨missing, hmisses, hne, heq⟩
      · exact .inr ⟨_, .lacking name hlacks hmisses, List.cons_ne_nil _ _, by rw [heq]⟩
      · exact .inr ⟨_, .lacking name hlacks hmisses, List.cons_ne_nil _ _, by rw [heq]⟩

theorem resolveAll_of_supplies {ps : List Parameter} {arguments : List Argument}
    (h : List.Forall₂ (Supplies available ids) ps arguments) :
    resolveAll available ids ps = .ok arguments := by
  induction h with
  | nil => rfl
  | cons ha _ ih =>
    unfold resolveAll
    rw [resolve_of_supplies ha, ih]

theorem resolveAll_of_misses {ps : List Parameter} {missing : List String}
    (h : Misses available ps missing) (hne : missing ≠ []) :
    resolveAll available ids ps = .error missing := by
  rcases resolveAll_spec available ids ps with ⟨_, -, hnone, -⟩ | ⟨missing', hmisses, -, heq⟩
  · exact absurd (h.unique hnone) hne
  · rw [heq, h.unique hmisses]

end Parameter

end Arguments

/-! ## One definition -/

namespace FixtureDefinition

variable {d : FixtureDefinition ω} {con : Constructor ω} {kind : FixtureKind}
  {available : List FixtureMap} {ids : NodeIds}

theorem resolve_of_supplies {arguments : List Argument} (hone : d.constructors = [con])
    (h : List.Forall₂ (Supplies available ids) con.parameters arguments) :
    d.resolve kind available ids =
      .ok { kind, typeName := d.typeName, code := con.build ids arguments } := by
  simp only [resolve, hone, Parameter.resolveAll_of_supplies h]

theorem resolve_of_misses {missing : List String} (hone : d.constructors = [con])
    (h : Misses available con.parameters missing) (hne : missing ≠ []) :
    d.resolve kind available ids = .error (.unresolvedArguments kind d.typeName missing) := by
  simp only [resolve, hone, Parameter.resolveAll_of_misses h hne]

theorem resolve_of_length_ne_one (h : d.constructors.length ≠ 1) :
    d.resolve kind available ids = .error (.constructorCount kind d.typeName) := by
  unfold resolve
  split
  · next heq => exact absurd (congrArg List.length heq) h
  · rfl

end FixtureDefinition

/-- A constructor that ends does so between two entries of the journal. -/
theorem ReadyConstructor.path_invoke (owner : NodeIds) {c : ReadyConstructor ω}
    {ρ : List (PathStep ω)} {o : Outcome (Fixture ω)} (h : c.code.run.Path ρ o) :
    (c.invoke owner).Path
      (acted [.activity (.construct owner c.kind c.typeName)] ++ ρ ++
        acted [.activity (.constructed owner c.kind c.typeName
          (o.value?.map (·.teardown.parts)))])
      (o.toExcept.mapError c.failure) := by
  rw [List.append_assoc]
  refine path_bind_iff.mpr ⟨_, (), _, path_enter_iff.mpr rfl, ?_, rfl⟩
  refine path_bind_iff.mpr ⟨ρ, o, _, h, ?_, rfl⟩
  cases o with
  | returned fixture =>
    exact path_bind_iff.mpr ⟨_, (), [], path_enter_iff.mpr rfl, .refl _, (List.append_nil _).symm⟩
  | failed e | panicked p =>
    exact path_bind_iff.mpr ⟨_, (), [], path_enter_iff.mpr rfl, .refl _, (List.append_nil _).symm⟩

namespace Fixtures

section Spec

variable (kind : FixtureKind) (parents : List FixtureMap) (ids : NodeIds)

/-- The fixtures `fs` with one more failure. -/
def withFailure (fs : Fixtures ω) (f : Failure) : Fixtures ω :=
  { fs with failures := fs.failures.add f }

/-- The fixtures `fs` with one that was built for a type. Its teardown is kept if there is anything
to tear down. -/
def withFixture (fs : Fixtures ω) (typeName : String) (fixture : Fixture ω) : Fixtures ω :=
  { fs with
    values := fs.values.bound typeName fixture.value
    disposal := ⟨fs.disposal.teardowns ++ kept [fixture.teardown]⟩ }

/-- What becomes of a definition that is tried after the fixtures `fs` were built. Its constructor
is entered once and with an argument for each parameter, and it may fail; if arguments are missing,
or if there is not a single constructor, nothing is entered. -/
inductive Tries (fs : Fixtures ω) (d : FixtureDefinition ω) :
    List (PathStep ω) → Fixtures ω → Prop
  | built {con : Constructor ω} {arguments : List Argument} {π : List (PathStep ω)}
      {fixture : Fixture ω} (hone : d.constructors = [con])
      (hsupplied : List.Forall₂ (Supplies (fs.values :: parents) ids) con.parameters arguments)
      (hrun : (con.build ids arguments).run.Path π (.returned fixture)) :
      Tries fs d
        (acted [.activity (.construct ids kind d.typeName)] ++ π ++
          acted [.activity (.constructed ids kind d.typeName (some fixture.teardown.parts))])
        (fs.withFixture d.typeName fixture)
  | failed {con : Constructor ω} {arguments : List Argument} {π : List (PathStep ω)}
      {o : Outcome (Fixture ω)} {f : Failure} (hone : d.constructors = [con])
      (hsupplied : List.Forall₂ (Supplies (fs.values :: parents) ids) con.parameters arguments)
      (hrun : (con.build ids arguments).run.Path π o) (hfailure : o.failure? = some f) :
      Tries fs d
        (acted [.activity (.construct ids kind d.typeName)] ++ π ++
          acted [.activity (.constructed ids kind d.typeName none)])
        (fs.withFailure
          ((Failure.ofCause (.fixture (.constructorFailed kind d.typeName))).withInner f))
  | unresolved {con : Constructor ω} {missing : List String} (hone : d.constructors = [con])
      (hmisses : Misses (fs.values :: parents) con.parameters missing) (hne : missing ≠ []) :
      Tries fs d []
        (fs.withFailure (.ofCause (.fixture (.unresolvedArguments kind d.typeName missing))))
  | miscounted (hcount : d.constructors.length ≠ 1) :
      Tries fs d [] (fs.withFailure (.ofCause (.fixture (.constructorCount kind d.typeName))))

/-- Definitions are tried one after another, each with what those before it have left. -/
inductive TriesAll : List (FixtureDefinition ω) → Fixtures ω → List (PathStep ω) →
    Fixtures ω → Prop
  | nil (fs : Fixtures ω) : TriesAll [] fs [] fs
  | cons {d : FixtureDefinition ω} {ds : List (FixtureDefinition ω)} {fs fs' fs'' : Fixtures ω}
      {π ρ : List (PathStep ω)} (h : Tries kind parents ids fs d π fs')
      (hrest : TriesAll ds fs' ρ fs'') : TriesAll (d :: ds) fs (π ++ ρ) fs''

end Spec

variable {kind : FixtureKind} {parents : List FixtureMap} {ids : NodeIds}
  {d : FixtureDefinition ω} {ds : List (FixtureDefinition ω)} {fs fs' : Fixtures ω}
  {π : List (PathStep ω)}

theorem withFixture_eq (fs : Fixtures ω) (typeName : String) (fixture : Fixture ω) :
    fs.withFixture typeName fixture =
      { fs with
        values := (typeName, fixture.value) :: fs.values
        disposal := fs.disposal.add fixture.teardown } := by
  unfold withFixture
  rw [← fs.disposal.teardowns_add]
  rfl

/-- With a constructor and its arguments, what becomes of a definition is how the constructor
ends. -/
theorem path_construct_of_ok {c : ReadyConstructor ω} {o : Outcome (Fixture ω)}
    (hresolve : d.resolve kind (fs.values :: parents) ids = .ok c) (hrun : c.code.run.Path π o) :
    (construct kind parents ids fs d).Path
      (acted [.activity (.construct ids c.kind c.typeName)] ++ π ++
        acted [.activity (.constructed ids c.kind c.typeName
          (o.value?.map (·.teardown.parts)))])
      (match o.toExcept with
        | .ok fixture => fs.withFixture d.typeName fixture
        | .error f => fs.withFailure (c.failure f)) := by
  unfold construct
  rw [hresolve]
  refine path_bind_iff.mpr ⟨_, _, [], c.path_invoke ids hrun, ?_, (List.append_nil _).symm⟩
  cases o.toExcept with
  | ok fixture =>
    dsimp only
    rw [withFixture_eq]
    exact .refl _
  | error f => exact .refl _

/-- Without them, it fails at once. -/
theorem path_construct_of_error {e : FixtureError}
    (hresolve : d.resolve kind (fs.values :: parents) ids = .error e) :
    (construct kind parents ids fs d).Path [] (fs.withFailure (.ofCause (.fixture e))) := by
  unfold construct
  rw [hresolve]
  exact .refl _

/-- A path of a definition with a constructor and its arguments is one of the constructor. -/
theorem exists_run_of_path {c : ReadyConstructor ω}
    (hresolve : d.resolve kind (fs.values :: parents) ids = .ok c)
    (h : (construct kind parents ids fs d).Path π fs') :
    ∃ ρ o, c.code.run.Path ρ o ∧
      π = acted [.activity (.construct ids c.kind c.typeName)] ++ ρ ++
        acted [.activity (.constructed ids c.kind c.typeName
          (o.value?.map (·.teardown.parts)))] ∧
      fs' = match o.toExcept with
        | .ok fixture => fs.withFixture d.typeName fixture
        | .error f => fs.withFailure (c.failure f) := by
  have hwhole := h
  unfold construct at h
  rw [hresolve] at h
  obtain ⟨_, built, ρ', hinvoke, -, hsteps⟩ := path_bind h
  obtain ⟨ρ, o, hrun, rfl, -⟩ := c.exists_of_path hinvoke
  -- once the constructor has ended, the process learns nothing more
  obtain ⟨rfl, rfl, -⟩ := hwhole.unique (path_construct_of_ok hresolve hrun) (x := []) (y := ρ')
    ((List.append_nil π).trans hsteps)
  exact ⟨ρ, o, hrun, rfl, rfl⟩

theorem eq_of_path {e : FixtureError}
    (hresolve : d.resolve kind (fs.values :: parents) ids = .error e)
    (h : (construct kind parents ids fs d).Path π fs') :
    π = [] ∧ fs' = fs.withFailure (.ofCause (.fixture e)) := by
  obtain ⟨rfl, rfl, -⟩ := h.unique (path_construct_of_error hresolve) (x := []) (y := π)
    (List.append_nil π)
  exact ⟨rfl, rfl⟩

theorem Tries.path (h : Tries kind parents ids fs d π fs') :
    (construct kind parents ids fs d).Path π fs' := by
  cases h with
  | built hone hsupplied hrun =>
    exact path_construct_of_ok (d.resolve_of_supplies hone hsupplied) hrun
  | failed hone hsupplied hrun hfailure =>
    have hresolve : d.resolve kind (fs.values :: parents) ids = .ok _ :=
      d.resolve_of_supplies hone hsupplied
    have hpath := path_construct_of_ok hresolve hrun
    rwa [Outcome.toExcept_of_failure? hfailure, Outcome.value?_of_failure? hfailure] at hpath
  | unresolved hone hmisses hne =>
    exact path_construct_of_error (d.resolve_of_misses hone hmisses hne)
  | miscounted hcount => exact path_construct_of_error (d.resolve_of_length_ne_one hcount)

/-- A path of the constructor of a definition determines what becomes of it. -/
theorem tries_of_path (h : (construct kind parents ids fs d).Path π fs') :
    Tries kind parents ids fs d π fs' := by
  by_cases hcount : d.constructors.length = 1
  · obtain ⟨con, hone⟩ := List.length_eq_one_iff.mp hcount
    rcases Parameter.resolveAll_spec (fs.values :: parents) ids con.parameters with
      ⟨arguments, hsupplied, -, -⟩ | ⟨missing, hmisses, hne, -⟩
    · obtain ⟨ρ, o, hrun, rfl, rfl⟩ :=
        exists_run_of_path (d.resolve_of_supplies hone hsupplied) h
      rcases o.exists_returned_or_failure with ⟨fixture, rfl⟩ | ⟨f, hfailure⟩
      · exact .built hone hsupplied hrun
      · rw [Outcome.toExcept_of_failure? hfailure, Outcome.value?_of_failure? hfailure]
        exact .failed hone hsupplied hrun hfailure
    · obtain ⟨rfl, rfl⟩ := eq_of_path (d.resolve_of_misses hone hmisses hne) h
      exact .unresolved hone hmisses hne
  · obtain ⟨rfl, rfl⟩ := eq_of_path (d.resolve_of_length_ne_one hcount) h
    exact .miscounted hcount

/-- What becomes of a definition. -/
theorem path_construct_iff :
    (construct kind parents ids fs d).Path π fs' ↔ Tries kind parents ids fs d π fs' :=
  ⟨tries_of_path, Tries.path⟩

theorem path_constructAll_iff :
    (constructAll kind parents ids ds fs).Path π fs' ↔ TriesAll kind parents ids ds fs π fs' := by
  unfold constructAll
  induction ds generalizing fs π with
  | nil =>
    constructor
    · intro h
      obtain ⟨rfl, rfl⟩ := path_done h
      exact .nil fs
    · rintro ⟨⟩
      exact .refl _
  | cons d ds ih =>
    rw [List.foldlM_cons, path_bind_iff]
    constructor
    · rintro ⟨ρ, gs, ρ', hfirst, hrest, rfl⟩
      exact .cons (path_construct_iff.mp hfirst) (ih.mp hrest)
    · intro h
      cases h with
      | cons hfirst hrest =>
        exact ⟨_, _, _, path_construct_iff.mpr hfirst, ih.mpr hrest, rfl⟩

/-- What is done to build a list of definitions, whatever was there before. -/
structure BuildsInOrder (kind : FixtureKind) (parents : List FixtureMap) (ids : NodeIds)
    (ds : List (FixtureDefinition ω)) : Prop where
  /-- Every definition is tried, in order and with what those before it have left. -/
  path_iff : ∀ {fs fs' : Fixtures ω} {π : List (PathStep ω)},
    (constructAll kind parents ids ds fs).Path π fs' ↔ TriesAll kind parents ids ds fs π fs'
  /-- A new fixture takes the place of one of its own type, and of no other. -/
  has_withFixture_iff : ∀ (fs : Fixtures ω) (typeName : String) (fixture : Fixture ω)
    (other : String) (value : FixtureValue),
    (fs.withFixture typeName fixture).values.Has other value ↔
      if other = typeName then value = fixture.value else fs.values.Has other value

/-- **Fixtures are built in order**, each from what is there by then, and one that cannot be built
leaves a single failure and nothing else. -/
theorem buildsInOrder (kind : FixtureKind) (parents : List FixtureMap) (ids : NodeIds)
    (ds : List (FixtureDefinition ω)) : BuildsInOrder kind parents ids ds where
  path_iff := path_constructAll_iff
  has_withFixture_iff fs typeName fixture other value :=
    FixtureMap.has_bound_iff fs.values typeName other fixture.value value

end Fixtures

end TestEngine
