import TestEngine.Proofs.Run.Tasks
import TestEngine.Proofs.Run.TwinTests

/-!
# Runs that are alike

Two runs that are alike look the same: every node of the one starts when the same node of the other
does, and has the same counts unless the code of a method that belongs to it may do different
things. The proof follows the tree, from the cases up to the assembly.

* `TestCase.twins_run`, `Method.twins_run`, `TestClass.twins_run`, `Collection.twins_run` — one
  level of the tree after the other.
* `AssemblyRun.twins_inTurn` — two runs that are alike are twins.
-/

namespace TestEngine

open Process (Twins Silent)

variable {ω ν σ : Type} {L : Likeness ω ν}

/-! ## Nodes with children -/

/-- Children run one after another. -/
theorem Process.Twins.untilCancelled {P : Prop} {ps qs : List (Process ω Counts)}
    (h : List.Forall₂ (Twins L.toObserver fun n n' => P ∨ n = n') ps qs) {sum sum' : Counts}
    (hsum : P ∨ sum = sum') :
    Twins L.toObserver (fun n n' => P ∨ n = n') (Process.untilCancelled ps sum)
      (Process.untilCancelled qs sum') := by
  induction h generalizing sum sum' with
  | nil => exact .pure hsum
  | cons hpq _ ih =>
    refine Twins.isCancelled.bind ?_
    rintro cancelled _ rfl
    cases cancelled with
    | true => exact .pure hsum
    | false =>
      refine hpq.bind fun n n' hn => ih ?_
      rcases hsum with hP | rfl
      · exact .inl hP
      · exact hn.imp_right fun he => by rw [he]

/-- Children of which there is one for each key. -/
theorem Process.Twins.groups {α : Type} {R : α → α → Prop} {key : α → String}
    (hkey : ∀ x y, R x y → key x = key y) {P : Prop} {run run' : α → List α → Process ω Counts}
    (hrun : ∀ x y, R x y → ∀ zs zs', List.Forall₂ (fun z z' => R z z' ∧ key z = key x) zs zs' →
      Twins L.toObserver (fun n n' => P ∨ n = n') (run x zs) (run' y zs'))
    {xs ys : List α} (h : List.Forall₂ R xs ys) :
    Twins L.toObserver (fun n n' => P ∨ n = n')
      (Process.untilCancelled ((firstSeen key xs).map fun x => run x (withKey key (key x) xs)) 0)
      (Process.untilCancelled ((firstSeen key ys).map fun y => run' y (withKey key (key y) ys))
        0) := by
  refine .untilCancelled ?_ (.inr rfl)
  rw [List.forall₂_map_left_iff, List.forall₂_map_right_iff]
  refine (forall₂_firstSeen hkey h).imp fun x y hxy => ?_
  rw [← hkey x y hxy]
  exact hrun x y hxy _ _ (forall₂_withKey hkey h (key x))

/-- The end of a node. -/
def finishNode (ids : NodeIds) (group : GroupLevel) (counts : Counts) : Process ω Counts := do
  let _ ← Process.report ids (.finished group (.ofCounts counts))
  pure counts

theorem lifecycle_eq (ids : NodeIds) (group : GroupLevel) (start : NodeStart)
    (inside : Process ω (Counts × Aggregator)) : lifecycle ids group start inside = (do
      if ← Process.report ids (.starting start) then do
        let x ← inside
        reportCleanup ids group.level x.2
        finishNode ids group x.1
      else finishNode ids group 0) := by
  unfold lifecycle
  refine bind_congr fun goesOn => ?_
  cases goesOn <;> rfl

theorem twins_finishNode {ids : NodeIds} (group : GroupLevel) {n n' : Counts}
    (hn : L.varies ids ∨ n = n') :
    Twins L.toObserver (fun n n' => L.varies ids ∨ n = n')
      (finishNode ids group n : Process ω Counts) (finishNode ids group n') := by
  unfold finishNode
  rcases hn with hvaries | rfl
  · refine (Twins.report (L.blurs hvaries group (.ofCounts n) (.ofCounts n')) rfl).bind ?_
    exact fun _ _ _ => .pure (.inl hvaries)
  · exact (Twins.report rfl rfl).bind fun _ _ _ => .pure (.inr rfl)

/-- Two nodes with the same IDs look the same if what is inside of them does. -/
theorem twins_lifecycle {ids : NodeIds} {group : GroupLevel} {start : NodeStart}
    {inside inside' : Process ω (Counts × Aggregator)}
    (h : Twins L.toObserver (fun x y => (L.varies ids ∨ x.1 = y.1) ∧ (L.loose ∨ x.2 = y.2)) inside
      inside') :
    Twins L.toObserver (fun n n' => L.varies ids ∨ n = n') (lifecycle ids group start inside)
      (lifecycle ids group start inside') := by
  rw [lifecycle_eq, lifecycle_eq]
  refine (Twins.report rfl rfl).bind ?_
  rintro goesOn _ rfl
  cases goesOn with
  | true =>
    refine h.bind fun _ _ hxy => ?_
    exact (Likeness.twins_reportCleanup ids _ hxy.2).bind fun _ _ _ => twins_finishNode group hxy.1
  | false => exact twins_finishNode group (.inr rfl)

/-! ## Cases -/

theorem Likeness.hides_of_varies {ids : NodeIds} (h : L.varies ids)
    (hmethod : ids.method.isSome = true) : L.Hides ids := ⟨L.hides h hmethod, L.steady h⟩

namespace TestCase

variable {classIds ids : NodeIds} {scope scope' : ClassScope ω} {c c' : TestCase ω} {P : Prop}
  {a : Aggregator}

theorem Alike.hooks (h : c.Alike L classIds c') :
    List.Forall₂ (Hook.Alike L) (c.assembly.hooks ++ c.testClass.hooks)
      (c'.assembly.hooks ++ c'.testClass.hooks) :=
  List.rel_append h.collection.assembly.hooks h.testClass.hooks

/-- The code of two cases is alike, or that of their method may do different things. -/
theorem Alike.exists_code (h : c.Alike L classIds c') :
    ∃ P, (P → L.varies (classIds.child .method c.method.id)) ∧
      Invocation.CodeAlike L P c.hooks c'.hooks c.method.body c'.method.body := by
  rcases h.method.code with ⟨hbody, hhooks⟩ | ⟨hvaries, hsecret, hsecret'⟩
  · refine ⟨False, False.elim, ⟨_, _, [], [], (List.append_nil _).symm, (List.append_nil _).symm,
      List.rel_append h.hooks hhooks, .inl ⟨rfl, rfl⟩⟩, fun _ => hbody, False.elim⟩
  · exact ⟨True, fun _ => hvaries, ⟨_, _, _, _, rfl, rfl, h.hooks,
      .inr ⟨trivial, hsecret.hooks, hsecret'.hooks⟩⟩, fun hP => absurd trivial hP,
      fun _ => ⟨hsecret.body, hsecret'.body⟩⟩

theorem Alike.qualifiedName_eq (h : c.Alike L classIds c') :
    c.method.qualifiedName = c'.method.qualifiedName := by
  unfold Method.qualifiedName
  rw [h.method.testClass.name_eq, h.method.name_eq]

theorem Alike.ofCase (h : c.Alike L classIds c')
    (hcode : Invocation.CodeAlike L P c.hooks c'.hooks c.method.body c'.method.body) :
    (Test.ofCase c).Alike L P (Test.ofCase c') where
  id_eq := congrArg (fun id => (NodePath.test id 0).uniqueId) h.id_eq
  index_eq := rfl
  displayName_eq := h.displayName_eq
  arguments_eq := by
    have hkind := h.kind
    show c.kind.arguments = c'.kind.arguments
    generalize c.kind = kind at hkind ⊢
    generalize c'.kind = kind' at hkind ⊢
    cases hkind <;> rfl
  skipReason_eq := h.skipReason_eq
  code := hcode

theorem Alike.ofRow (h : c.Alike L classIds c')
    (hcode : Invocation.CodeAlike L P c.hooks c'.hooks c.method.body c'.method.body) (index : Nat)
    {row row' : DataRow ω} (hrow : row.Alike L row') :
    (Test.ofRow c index row).Alike L P (Test.ofRow c' index row') where
  id_eq := congrArg (fun id => (NodePath.test id index).uniqueId) h.id_eq
  index_eq := rfl
  displayName_eq := by
    show row.displayName.getD _ = row'.displayName.getD _
    rw [hrow.displayName_eq, hrow.arguments_eq, h.qualifiedName_eq]
  arguments_eq := hrow.arguments_eq
  skipReason_eq := by
    show row.skipReason.or _ = row'.skipReason.or _
    rw [hrow.skipReason_eq, h.skipReason_eq]
  code := hcode

section Found

variable (h : c.Alike L classIds c')
  (hcode : Invocation.CodeAlike L P c.hooks c'.hooks c.method.body c'.method.body)
  (hscope : scope.Alike L scope') (hids : ∀ id, P → L.Hides (ids.child .test id))

include h hcode hscope hids

/-- A case with a single test. -/
theorem twins_runSingle (a : Aggregator) :
    Twins L.toObserver (fun x y => (P ∨ x.1 = y.1) ∧ x.2.Alike L y.2)
      ((Test.ofCase c).run ids scope a >>= fun n => pure (n, ({} : Disposal ω)))
      ((Test.ofCase c').run ids scope' a >>= fun n => pure (n, ({} : Disposal ω))) :=
  (Test.twins_run (h.ofCase hcode) hscope (hids _) a).bind fun _ _ hn =>
    .pure ⟨hn, List.Forall₂.nil⟩

theorem twins_runRows {rows rows' : List (DataRow ω)}
    (hrows : List.Forall₂ (DataRow.Alike L) rows rows') :
    Twins L.toObserver (fun x y => (P ∨ x.1 = y.1) ∧ x.2.Alike L y.2)
      (c.runRows ids scope a rows) (c'.runRows ids scope' a rows') := by
  unfold runRows
  have hdisposal : ∀ (d d' : Disposal ω), d.Alike L d' →
      (rows.foldl (fun d row => d.add row.teardown) d).Alike L
        (rows'.foldl (fun d row => d.add row.teardown) d') := by
    clear h hcode
    induction hrows with
    | nil => exact fun _ _ hd => hd
    | cons hrow _ ih => exact fun _ _ hd => ih _ _ (hd.add hrow.teardown)
  refine Twins.bind (V := fun n n' => P ∨ n = n') (.untilCancelled ?_ (.inr rfl)) fun _ _ hn =>
    .pure ⟨hn, hdisposal {} {} List.Forall₂.nil⟩
  rw [List.map_map, List.map_map, List.forall₂_map_left_iff, List.forall₂_map_right_iff]
  refine (forall₂_zipIdx hrows 0).imp ?_
  rintro ⟨row, index⟩ ⟨row', _⟩ ⟨hrow, rfl⟩
  exact Test.twins_run (h.ofRow hcode index hrow) hscope (hids _) a

theorem twins_runTheory {source source' : SetupCode ω (List (DataRow ω))}
    (hsource : Code.Mirrors L.view (Outcome.Alike (List.Forall₂ (DataRow.Alike L))) source
      source') :
    Twins L.toObserver (fun x y => (P ∨ x.1 = y.1) ∧ x.2.Alike L y.2)
      (c.runTheory ids scope a source) (c'.runTheory ids scope' a source') := by
  unfold runTheory
  refine (Twins.enter _ _).bind fun _ _ _ => ?_
  refine (Code.Mirrors.twins_run hsource).bind fun o o' ho => ?_
  rcases ho.toExcept with ⟨f, hf, hf'⟩ | ⟨rows, rows', hok, hok', hrows⟩
  · rw [hf, hf']
    exact (Twins.enter _ _).bind fun _ _ _ => twins_runSingle h hcode hscope hids _
  · rw [hok, hok']
    refine (Twins.enter _ _).bind fun _ _ _ => ?_
    cases hrows with
    | nil =>
      dsimp only [List.isEmpty_nil, if_true]
      rw [h.qualifiedName_eq]
      exact twins_runSingle h hcode hscope hids _
    | cons hrow hrest => exact twins_runRows h hcode hscope hids (.cons hrow hrest)

theorem twins_runTests :
    Twins L.toObserver (fun x y => (P ∨ x.1 = y.1) ∧ x.2.Alike L y.2)
      (c.runTests ids scope a) (c'.runTests ids scope' a) := by
  have hkind := h.kind
  unfold runTests
  rw [← h.skipReason_eq]
  generalize c.kind = kind at hkind ⊢
  generalize c'.kind = kind' at hkind ⊢
  cases hkind with
  | fact | row | error => exact twins_runSingle h hcode hscope hids _
  | theory hsource =>
    cases c.skipReason with
    | none => exact twins_runTheory h hcode hscope hids hsource
    | some reason => exact twins_runSingle h hcode hscope hids _

end Found

/-- Cases run alike. -/
theorem twins_run (h : c.Alike L classIds c') (hscope : scope.Alike L scope')
    (hlevel : classIds.level = .testClass) (a : Aggregator) :
    Twins L.toObserver (fun n n' => L.varies (classIds.child .method c.method.id) ∨ n = n')
      (c.run (classIds.child .method c.method.id) scope a)
      (c'.run (classIds.child .method c.method.id) scope' a) := by
  -- `P` says that the code of the method makes a difference, so that the case and its tests do
  obtain ⟨P, hP, hcode⟩ := h.exists_code
  have hmethod : (classIds.child .method c.method.id).level = .method :=
    NodeIds.level_child _ (by rw [hlevel]; decide)
  have hcaseLevel : ((classIds.child .method c.method.id).child .testCase c.id).level = .testCase :=
    NodeIds.level_child _ (by rw [hmethod]; decide)
  have hcase : P → L.varies ((classIds.child .method c.method.id).child .testCase c.id) :=
    fun hp => L.varies_inside (Nat.le_of_eq (by rw [hmethod])) (by rw [hmethod]; decide) (hP hp)
  have hids : ∀ id, P →
      L.Hides (((classIds.child .method c.method.id).child .testCase c.id).child .test id) :=
    fun id hp => L.hides_of_varies
      (L.varies_inside (by rw [hcaseLevel]; decide) (by rw [hcaseLevel]; decide) (hcase hp)) rfl
  unfold run
  rw [← h.id_eq, ← h.displayName_eq, ← h.skipReason_eq, ← h.traits_eq]
  refine Twins.mono (fun n n' hn => ?_) (twins_lifecycle ?_)
  · exact hn.imp_left (L.varies_parent (by rw [hmethod]; decide))
  · refine (twins_runTests h hcode hscope hids).bind fun x y hxy => ?_
    refine (Disposal.twins_disposeAll hxy.2 (.inr rfl)).bind fun _ _ hcleanup => ?_
    exact .pure ⟨hxy.1.imp_left hcase, hcleanup⟩

end TestCase

/-! ## Methods -/

namespace Method

variable {classIds : NodeIds} {scope scope' : ClassScope ω} {cases cases' : List (TestCase ω)}

theorem twins_run {m m' : Method ω} (hm : m.Alike L classIds m')
    (hcases : List.Forall₂ (fun c c' => c.Alike L classIds c' ∧ c.method.id = m.id) cases cases')
    (hscope : scope.Alike L scope') (hlevel : classIds.level = .testClass) (a : Aggregator) :
    Twins L.toObserver (fun n n' => L.varies classIds ∨ n = n') (m.run classIds scope a cases)
      (m'.run classIds scope' a cases') := by
  unfold run
  rw [← hm.id_eq, ← hm.name_eq]
  refine Twins.mono (fun n n' hn => ?_) (twins_lifecycle ?_)
  · exact hn.imp_left (L.varies_parent (by rw [hlevel]; decide))
  · refine Twins.bind (Twins.untilCancelled ?_ (.inr rfl)) fun _ _ hn => .pure ⟨hn, .inr rfl⟩
    rw [List.forall₂_map_left_iff, List.forall₂_map_right_iff]
    refine hcases.imp fun c c' hc => ?_
    rw [← hc.2]
    exact TestCase.twins_run hc.1 hscope hlevel a

theorem twins_runAll (hcases : List.Forall₂ (TestCase.Alike L classIds) cases cases')
    (hscope : scope.Alike L scope') (hlevel : classIds.level = .testClass) (a : Aggregator) :
    Twins L.toObserver (fun n n' => L.varies classIds ∨ n = n') (runAll classIds scope a cases)
      (runAll classIds scope' a cases') :=
  Twins.groups (fun _ _ hc => hc.method.id_eq)
    (fun _ _ hc _ _ hgroup => twins_run hc.method hgroup hscope hlevel a) hcases

end Method

/-! ## Classes -/

namespace TestClass

variable {setup setup' : RunSetup ω} {collectionIds : NodeIds} {k k' : TestClass ω}
  {cases cases' : List (TestCase ω)}

/-- The constructors of two classes are resolved alike. -/
theorem Alike.resolve (h : k.Alike L k') (ids : NodeIds) (collectionFixtures values : FixtureMap) :
    k.unresolved ids collectionFixtures values = k'.unresolved ids collectionFixtures values ∧
      (k.scope ids collectionFixtures values).Alike L (k'.scope ids collectionFixtures values) := by
  have hconstructor := h.constructor
  unfold unresolved scope
  generalize k.constructor = d at hconstructor ⊢
  generalize k'.constructor = d' at hconstructor ⊢
  cases hconstructor with
  | none => exact ⟨rfl, rfl, rfl, .none⟩
  | some hd =>
    simp only [Option.bind_some]
    rcases hd.resolve .testInstance [values, collectionFixtures] ids with
      ⟨e, he, he'⟩ | ⟨c, c', hc, hc', hcc'⟩
    · rw [he, he']
      exact ⟨rfl, rfl, rfl, .none⟩
    · rw [hc, hc']
      exact ⟨rfl, rfl, rfl, .some hcc'⟩

theorem Alike.caseOrdererName_eq (h : k.Alike L k') (options : Options) :
    k.caseOrdererName options = k'.caseOrdererName options := by
  have hdefinition : k.collection.definition.bind (·.caseOrderer) =
      k'.collection.definition.bind (·.caseOrderer) := by
    have hrel := h.collection.definition
    generalize k.collection.definition = d at hrel ⊢
    generalize k'.collection.definition = d' at hrel ⊢
    cases hrel with
    | none => rfl
    | some hd => exact hd.caseOrderer_eq
  unfold caseOrdererName
  rw [h.caseOrderer_eq, hdefinition, h.collection.assembly.caseOrderer_eq]

theorem twins_run (hsetup : setup.Alike L setup') (hk : k.Alike L k')
    (hcases : List.Forall₂ (TestCase.Alike L (collectionIds.child .testClass k.id)) cases cases')
    (hlevel : collectionIds.level = .collection) (collectionFixtures : FixtureMap)
    (a : Aggregator) :
    Twins L.toObserver (fun n n' => L.varies collectionIds ∨ n = n')
      (k.run setup collectionIds collectionFixtures a cases)
      (k'.run setup' collectionIds collectionFixtures a cases') := by
  have hclass : (collectionIds.child .testClass k.id).level = .testClass :=
    NodeIds.level_child _ (by rw [hlevel]; decide)
  unfold run
  rw [← hk.id_eq, ← hk.name_eq]
  refine Twins.mono (fun n n' hn => ?_) (twins_lifecycle ?_)
  · exact hn.imp_left (L.varies_parent (by rw [hlevel]; decide))
  refine (Fixtures.twins_constructAll hk.fixtures (.nothing a)).bind ?_
  intro fs fs' hfs
  obtain ⟨hunresolved, hscope⟩ :=
    hk.resolve (collectionIds.child .testClass k.id) collectionFixtures fs.values
  rw [resolveConstructor_eq, resolveConstructor_eq, ← hfs.values_eq, ← hfs.failures_eq,
    ← hunresolved, ← hk.caseOrdererName_eq, ← hsetup.options_eq]
  refine (Orderers.twins_order (fun _ _ hc => hc.id_eq) (hsetup.caseOrderers _) hcases _ _).bind ?_
  intro ordered ordered' hordered
  refine (Method.twins_runAll hordered hscope hclass _).bind fun n n' hn => ?_
  exact (Disposal.twins_disposeAll hfs.disposal (.inr rfl)).bind fun _ _ hcleanup =>
    .pure ⟨hn, hcleanup⟩

theorem twins_runAll (hsetup : setup.Alike L setup')
    (hcases : List.Forall₂
      (fun c c' => c.Alike L (collectionIds.child .testClass c.testClass.id) c') cases cases')
    (hlevel : collectionIds.level = .collection) (collectionFixtures : FixtureMap)
    (a : Aggregator) :
    Twins L.toObserver (fun n n' => L.varies collectionIds ∨ n = n')
      (runAll setup collectionIds collectionFixtures a cases)
      (runAll setup' collectionIds collectionFixtures a cases') := by
  refine Twins.groups (fun _ _ hc => hc.testClass.id_eq) (fun c c' hc zs zs' hgroup => ?_) hcases
  refine twins_run hsetup hc.testClass (hgroup.imp fun z z' hz => ?_) hlevel collectionFixtures a
  rw [← hz.2]
  exact hz.1

end TestClass

/-! ## Collections -/

namespace Collection

variable {setup setup' : RunSetup ω} {assemblyIds : NodeIds} {l l' : Collection ω}
  {cases cases' : List (TestCase ω)}

theorem Alike.fixtures (h : l.Alike L l') :
    List.Forall₂ (FixtureDefinition.Alike L) l.fixtures l'.fixtures := by
  have hrel := h.definition
  unfold Collection.fixtures
  generalize l.definition = d at hrel ⊢
  generalize l'.definition = d' at hrel ⊢
  cases hrel with
  | none => exact .nil
  | some hd => exact hd.fixtures

theorem Alike.typeName_eq (h : l.Alike L l') :
    l.definition.map (·.typeName) = l'.definition.map (·.typeName) := by
  have hrel := h.definition
  generalize l.definition = d at hrel ⊢
  generalize l'.definition = d' at hrel ⊢
  cases hrel with
  | none => rfl
  | some hd => exact congrArg some hd.typeName_eq

theorem twins_run (hsetup : setup.Alike L setup') (hl : l.Alike L l')
    (hcases : List.Forall₂ (fun c c' =>
      c.Alike L ((assemblyIds.child .collection l.id).child .testClass c.testClass.id) c')
      cases cases') (hlevel : assemblyIds.level = .assembly) :
    Twins L.toObserver (fun n n' => L.varies assemblyIds ∨ n = n')
      (l.run setup assemblyIds cases) (l'.run setup' assemblyIds cases') := by
  have hcollection : (assemblyIds.child .collection l.id).level = .collection :=
    NodeIds.level_child _ (by rw [hlevel]; decide)
  unfold run
  rw [← hl.id_eq, ← hl.displayName_eq, ← hl.typeName_eq]
  refine Twins.mono (fun n n' hn => ?_) (twins_lifecycle ?_)
  · exact hn.imp_left (L.varies_parent (by rw [hlevel]; decide))
  refine (Fixtures.twins_constructAll hl.fixtures (.nothing {})).bind ?_
  intro fs fs' hfs
  rw [← hfs.values_eq, ← hfs.failures_eq]
  refine (TestClass.twins_runAll hsetup hcases hcollection _ _).bind fun n n' hn => ?_
  exact (Disposal.twins_disposeAll hfs.disposal (.inr rfl)).bind fun _ _ hcleanup =>
    .pure ⟨hn, hcleanup⟩

end Collection

/-! ## Assemblies -/

namespace AssemblyRun

variable {r r' : AssemblyRun ω}

theorem Alike.ids_eq (h : r.Alike L r') : r.ids = r'.ids :=
  congrArg (fun id => ({ assembly := id } : NodeIds)) h.assembly.id_eq

theorem Alike.start_eq (h : r.Alike L r') : r.start = r'.start := by
  have hlimit : r.parallelLimit? = r'.parallelLimit? := by
    unfold parallelLimit?
    rw [h.setup.options_eq, h.assembly.parallelism_eq, h.processors_eq]
  unfold start
  rw [hlimit, h.assembly.name_eq, h.assembly.path_eq, h.assembly.configFile_eq, h.startTime_eq]

/-- The collections of two runs are found alike, and run alike. -/
theorem twins_collectionRuns (h : r.Alike L r') :
    Twins L.toObserver
      (List.Forall₂ (Twins L.toObserver fun n n' => L.varies r.ids ∨ n = n')) r.collectionRuns
      r'.collectionRuns := by
  have hcollections : List.Forall₂ (Collection.Alike L)
      (firstSeen (·.id) (r.cases.map (·.collection)))
      (firstSeen (·.id) (r'.cases.map (·.collection))) := by
    refine forall₂_firstSeen (fun _ _ hl => hl.id_eq) ?_
    rw [List.forall₂_map_left_iff, List.forall₂_map_right_iff]
    exact h.cases.imp fun _ _ hc => hc.collection
  unfold collectionRuns Collection.ordered
  rw [← h.ids_eq, ← h.setup.options_eq, ← h.assembly.collectionOrderer_eq]
  refine (Orderers.twins_order (fun _ _ hl => hl.id_eq) h.setup.collectionOrderers hcollections
    _ _).bind fun ls ls' hls => .pure ?_
  unfold Collection.runs
  rw [List.forall₂_map_left_iff, List.forall₂_map_right_iff]
  refine hls.imp fun l l' hl => ?_
  rw [← hl.id_eq]
  refine Collection.twins_run h.setup hl ?_ rfl
  refine (forall₂_withKey (fun _ _ hc => hc.collection.id_eq) h.cases l.id).imp fun c c' hc => ?_
  rw [← hc.2]
  exact hc.1

/-- **Two runs that are alike are twins.** They have the same counts, unless the code of a method
may do different things. -/
theorem twins_inTurn (h : r.Alike L r') :
    Twins L.toObserver (fun n n' => L.varies r.ids ∨ n = n') r.inTurn r'.inTurn := by
  unfold inTurn
  rw [← h.ids_eq, ← h.start_eq]
  refine twins_lifecycle ?_
  refine (twins_collectionRuns h).bind fun runs runs' hruns => ?_
  exact (Twins.untilCancelled hruns (.inr rfl)).bind fun n n' hn => .pure ⟨hn, .inr rfl⟩

end AssemblyRun

end TestEngine
