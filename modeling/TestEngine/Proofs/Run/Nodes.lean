import TestEngine.Proofs.Order.Permutations
import TestEngine.Proofs.Run.SerialRun
import TestEngine.Proofs.Run.TestSteps

/-!
# The nodes of a run

The law of a node holds of every node of a run, from the tests up to the assembly: each level is a
life cycle around children of the level below.

* `AssemblyRun.yields_inTurn` — a serial run is one node, of which the law holds, as it does of
  every node below it.
* `SerialRun.exists_node` — so is what is recorded of a run that is over.
-/

namespace TestEngine

open Process

variable {ω : Type} (known : List String)

/-! ## Cases -/

namespace TestCase

variable (c : TestCase ω) {ids : NodeIds} (scope : ClassScope ω) (inherited : Aggregator)

/-- The ID of a test of the case. -/
def testId (index : Nat) : String := (NodePath.test c.id index).uniqueId

theorem named_testIds {known : List String} (hlevel : ids.level = .testCase)
    (hid : ids.nodeId = c.id) (k : Nat) :
    Named known ids ((List.range k).map c.testId) := by
  unfold Named
  rw [hlevel, hid]
  exact ⟨k, rfl⟩

/-- The single test of a case. -/
theorem children_single {known : List String} {as : List Action} {n : Counts}
    (h : NodeRun known (ids.child .test (Test.ofCase c).id) as n) :
    Children known ids .test ((List.range 1).map c.testId) as n := Children.single h

theorem yields_runFailing (hlevel : ids.level = .testCase) (f : Failure) :
    (c.runFailing ids scope inherited f).Yields fun as n =>
      Children known ids .test ((List.range 1).map c.testId) as n ∧ Obeys false as :=
  (Test.yields_run known hlevel scope (inherited.add f) (Test.ofCase c)).mono fun _ _ h =>
    ⟨c.children_single h, h.obeys⟩

/-- The tests of the rows of a theory; the teardowns of all rows are kept. -/
theorem yields_runRows (hlevel : ids.level = .testCase) (rows : List (DataRow ω)) :
    (c.runRows ids scope inherited rows).Yields fun as a =>
      Children known ids .test ((List.range rows.length).map c.testId) as a.1 ∧ Obeys false as ∧
        a.2.held = toTearDown (rows.map (·.teardown.parts)) := by
  have hnames : (rows.zipIdx.map fun p => Test.ofRow c p.2 p.1).map (·.id) =
      (List.range rows.length).map c.testId := by
    rw [List.map_map, List.range_eq_range', ← List.zipIdx_map_snd 0 rows, List.map_map]
    rfl
  have hheld : (rows.foldl (fun d row => d.add row.teardown) ({} : Disposal ω)).held =
      toTearDown (rows.map (·.teardown.parts)) := by
    rw [Disposal.held_foldl_add, Disposal.held_empty, List.nil_append]
  unfold runRows
  rw [← hnames]
  refine (yields_untilCancelled known _
    (fun t _ => t.yields_run known hlevel scope inherited) 0).bind ?_
  rintro as _ ⟨hobeys, m, rfl, hm⟩
  rw [Counts.zero_add]
  exact .pure ⟨by rwa [List.append_nil], by rw [List.append_nil]; exact hobeys false, hheld⟩

/-- What a case sets up for its tests, and its tests. -/
def Ran (known : List String) (ids : NodeIds) (as : List Action) (a : Counts × Disposal ω) : Prop :=
  ∃ names before inner, as = before ++ inner ∧
    GroupRan known ids .test names before inner a.1 a.2.held

/-- A case that acquires things with teardowns of the parts `gs`, and keeps those. -/
theorem ran_of_acquires {known : List String} (hlevel : ids.level = .testCase)
    (hid : ids.nodeId = c.id) {gs : List (List TeardownPart)} {before inner : List Action}
    {n : Counts} {d : Disposal ω} {k : Nat} (hbefore : Acquires ids gs before)
    (hheld : d.held = toTearDown gs)
    (h : Children known ids .test ((List.range k).map c.testId) inner n ∧ Obeys false inner) :
    Ran known ids (before ++ inner) (n, d) := by
  have hgained := hbefore.gained_eq
  subst hgained
  refine ⟨_, before, inner, rfl, ?_, c.named_testIds hlevel hid k, hbefore, hheld, h.1, h.2⟩
  rw [hlevel]
  rfl

/-- A case that sets nothing up. -/
theorem ran_single {known : List String} (hlevel : ids.level = .testCase)
    (hid : ids.nodeId = c.id) {as : List Action} {n : Counts}
    (h : Children known ids .test ((List.range 1).map c.testId) as n ∧ Obeys false as) :
    Ran known ids as (n, ({} : Disposal ω)) :=
  c.ran_of_acquires hlevel hid .nil rfl h

/-- The rows of a theory are acquired before the tests, and no others are. -/
theorem yields_runTheory (hlevel : ids.level = .testCase) (hid : ids.nodeId = c.id)
    (source : SetupCode ω (List (DataRow ω))) :
    (c.runTheory ids scope inherited source).Yields fun as a => Ran known ids as a := by
  have henter : Acquires ids [] [.activity (.enumerate ids)] :=
    .of_entry (a := .enumerate ids) rfl rfl
  have hended : ∀ rows : Option (List (List TeardownPart)),
      Acquires ids (rows.getD []) [.activity (.enumerated ids rows)] := by
    intro rows
    cases rows with
    | none => exact .of_entry (a := .enumerated ids none) rfl rfl
    | some rows => exact .of_entry (a := .enumerated ids (some rows)) rfl rfl
  unfold runTheory
  refine (yields_enter _).bind ?_
  rintro _ _ rfl
  refine Yields.bind (Code.makes_run source) fun us outcome hus => ?_
  have hsource := henter.append (.of_user hus)
  cases outcome.toExcept with
  | error f =>
    -- a single failed test stands for the rows that are missing
    refine (yields_enter _).bind ?_
    rintro _ _ rfl
    refine (c.yields_runFailing known scope inherited hlevel f).bind fun as n h => .pure ?_
    have hran := c.ran_of_acquires hlevel hid (d := {}) (hsource.append (hended none)) rfl h
    simpa only [List.append_nil, List.append_assoc] using hran
  | ok rows =>
    refine (yields_enter _).bind ?_
    rintro _ _ rfl
    have hall := hsource.append (hended (some (rows.map (·.teardown.parts))))
    by_cases hrows : rows.isEmpty = true
    · rw [List.isEmpty_iff.mp hrows] at hall ⊢
      simp only [List.isEmpty_nil, if_true]
      refine (c.yields_runFailing known scope inherited hlevel _).bind fun as n h => .pure ?_
      have hran := c.ran_of_acquires hlevel hid (d := {}) hall rfl h
      simpa only [List.append_nil, List.append_assoc] using hran
    · simp only [hrows, Bool.false_eq_true, if_false]
      refine (c.yields_runRows known scope inherited hlevel rows).mono ?_
      rintro as ⟨n, d⟩ ⟨hchildren, hobeys, hheld⟩
      have hran := c.ran_of_acquires hlevel hid hall hheld ⟨hchildren, hobeys⟩
      simpa only [List.append_assoc] using hran

theorem yields_runTests (hlevel : ids.level = .testCase) (hid : ids.nodeId = c.id) :
    (c.runTests ids scope inherited).Yields fun as a => Ran known ids as a := by
  have hsingle : ((Test.ofCase c).run ids scope inherited >>= fun n =>
      pure (n, ({} : Disposal ω))).Yields fun as a => Ran known ids as a := by
    refine (Test.yields_run known hlevel scope inherited (Test.ofCase c)).bind fun as n h => ?_
    refine .pure ?_
    rw [List.append_nil]
    exact c.ran_single hlevel hid ⟨c.children_single h, h.obeys⟩
  unfold runTests
  -- a theory that is not skipped, a case that is in error, and any other case
  split
  · next source _ _ => exact c.yields_runTheory known scope inherited hlevel hid source
  · next message _ _ =>
    refine (c.yields_runFailing known scope inherited hlevel _).bind fun as n h => .pure ?_
    rw [List.append_nil]
    exact c.ran_single hlevel hid h
  · exact hsingle

/-- **A case is a node of which the law holds.** -/
theorem yields_run {methodIds : NodeIds} (hlevel : methodIds.level = .method) :
    (c.run methodIds scope inherited).Yields fun as n =>
      NodeRun known (methodIds.child .testCase c.id) as n := by
  have hchild : (methodIds.child .testCase c.id).level = .testCase :=
    NodeIds.level_child c.id (by rw [hlevel]; decide)
  have hid : (methodIds.child .testCase c.id).nodeId = c.id := by
    unfold NodeIds.nodeId
    rw [hchild, NodeIds.at?_child_self]
    rfl
  unfold run
  refine NodeRun.of_lifecycle hchild.symm hchild.symm ?_
  refine (c.yields_runTests known scope inherited hchild hid).bind ?_
  rintro _ ⟨n, d⟩ ⟨names, before, inner, rfl, h⟩
  refine (d.yields_disposeAll _ {}).bind fun after cleanup hafter => .pure ?_
  exact ⟨.test, names, before, inner, after, d.held, by simp only [List.append_nil,
    List.append_assoc], h, hafter⟩

end TestCase

/-! ## Methods -/

theorem subperm_withKey {α : Type} (f key : α → String) (k : String) (items : List α) :
    ((withKey key k items).map f).Subperm (items.map f) :=
  (List.filter_sublist.map f).subperm

namespace Method

/-- **A method is a node of which the law holds.** -/
theorem yields_run {classIds : NodeIds} (hlevel : classIds.level = .testClass)
    (scope : ClassScope ω) (inherited : Aggregator) (m : Method ω) {cases : List (TestCase ω)}
    (hcases : (cases.map (·.id)).Subperm known) :
    (m.run classIds scope inherited cases).Yields fun as n =>
      NodeRun known (classIds.child .method m.id) as n := by
  have hchild : (classIds.child .method m.id).level = .method :=
    NodeIds.level_child m.id (by rw [hlevel]; decide)
  unfold run
  refine NodeRun.of_lifecycle hchild.symm hchild.symm ?_
  refine (yields_untilCancelled known cases
    (fun c _ => c.yields_run known scope inherited hchild) 0).bind ?_
  rintro as _ ⟨hobeys, n, rfl, h⟩
  refine .pure ⟨.testCase, cases.map (·.id), [], as, [], [], rfl, ?_, .nil⟩
  rw [Counts.zero_add]
  refine ⟨by rw [hchild]; rfl, ?_, .nil, rfl, h, hobeys false⟩
  unfold Named
  rw [hchild]
  exact hcases

theorem yields_runAll {classIds : NodeIds} (hlevel : classIds.level = .testClass)
    (scope : ClassScope ω) (inherited : Aggregator) {cases : List (TestCase ω)}
    (hcases : (cases.map (·.id)).Subperm known) :
    (runAll classIds scope inherited cases).Yields fun as n => ∃ names, Named known classIds names ∧
      Children known classIds .method names as n ∧ Obeys false as := by
  unfold runAll
  refine (yields_untilCancelled known (firstSeen (·.method.id) cases) (fun c _ =>
    c.method.yields_run known hlevel scope inherited
      ((subperm_withKey (·.id) _ _ cases).trans hcases)) 0).mono ?_
  rintro as _ ⟨hobeys, n, rfl, h⟩
  rw [Counts.zero_add]
  refine ⟨_, ?_, h, hobeys false⟩
  unfold Named
  rw [hlevel]
  exact firstSeen_nodup (·.method.id) cases

end Method

/-! ## Classes -/

namespace TestClass

/-- **A class is a node of which the law holds.** -/
theorem yields_run (setup : RunSetup ω) {collectionIds : NodeIds}
    (hlevel : collectionIds.level = .collection) (collectionFixtures : FixtureMap)
    (inherited : Aggregator) (k : TestClass ω) {cases : List (TestCase ω)}
    (hcases : (cases.map (·.id)).Subperm known) :
    (k.run setup collectionIds collectionFixtures inherited cases).Yields fun as n =>
      NodeRun known (collectionIds.child .testClass k.id) as n := by
  have hchild : (collectionIds.child .testClass k.id).level = .testClass :=
    NodeIds.level_child k.id (by rw [hlevel]; decide)
  unfold run
  refine NodeRun.of_lifecycle hchild.symm hchild.symm ?_
  refine (Fixtures.yields_constructAll .testClass _ _ k.fixtures _).bind fun bs fs hfs => ?_
  refine (Orderers.yields_order _ _ cases _).bind ?_
  rintro us ordered ⟨hus, hordered⟩
  have hknown : (ordered.map (·.id)).Subperm known := hordered.subperm.trans hcases
  refine (Method.yields_runAll known hchild _ _ hknown).bind ?_
  rintro as n ⟨names, hnamed, hchildren, hobeys⟩
  refine (fs.disposal.yields_disposeAll _ {}).bind fun after cleanup hafter => .pure ?_
  -- what the orderer does comes after the fixtures, and acquires nothing
  have hbefore := hfs.acquires.append (.of_user hus)
  have hgained : gained (visible (bs ++ us)) = gained (visible bs) := by
    rw [hbefore.gained_eq, List.append_nil]
  refine ⟨.method, names, bs ++ us, as, after, _, ?_, ⟨?_, hnamed, ?_, ?_, hchildren, hobeys⟩,
    hafter⟩
  · simp only [List.append_nil, List.append_assoc]
  · rw [hchild]
    rfl
  · rw [hgained]
    rw [List.append_nil] at hbefore
    exact hbefore
  · rw [hgained, hfs.held_eq]
    rfl

theorem yields_runAll (setup : RunSetup ω) {collectionIds : NodeIds}
    (hlevel : collectionIds.level = .collection) (collectionFixtures : FixtureMap)
    (inherited : Aggregator) {cases : List (TestCase ω)}
    (hcases : (cases.map (·.id)).Subperm known) :
    (runAll setup collectionIds collectionFixtures inherited cases).Yields fun as n =>
      ∃ names, Named known collectionIds names ∧
        Children known collectionIds .testClass names as n ∧ Obeys false as := by
  unfold runAll
  refine (yields_untilCancelled known (firstSeen (·.testClass.id) cases) (fun c _ =>
    c.testClass.yields_run known setup hlevel collectionFixtures inherited
      ((subperm_withKey (·.id) _ _ cases).trans hcases)) 0).mono ?_
  rintro as _ ⟨hobeys, n, rfl, h⟩
  rw [Counts.zero_add]
  refine ⟨_, ?_, h, hobeys false⟩
  unfold Named
  rw [hlevel]
  exact firstSeen_nodup (·.testClass.id) cases

end TestClass

/-! ## Collections -/

namespace Collection

/-- **A collection is a node of which the law holds.** -/
theorem yields_run (setup : RunSetup ω) {assemblyIds : NodeIds}
    (hlevel : assemblyIds.level = .assembly) (l : Collection ω) {cases : List (TestCase ω)}
    (hcases : (cases.map (·.id)).Subperm known) :
    (l.run setup assemblyIds cases).Yields fun as n =>
      NodeRun known (assemblyIds.child .collection l.id) as n := by
  have hchild : (assemblyIds.child .collection l.id).level = .collection :=
    NodeIds.level_child l.id (by rw [hlevel]; decide)
  unfold run
  refine NodeRun.of_lifecycle hchild.symm hchild.symm ?_
  refine (Fixtures.yields_constructAll .collection _ _ _ _).bind fun bs fs hfs => ?_
  refine (TestClass.yields_runAll known setup hchild _ _ hcases).bind ?_
  rintro as n ⟨names, hnamed, hchildren, hobeys⟩
  refine (fs.disposal.yields_disposeAll _ {}).bind fun after cleanup hafter => .pure ?_
  refine ⟨.testClass, names, bs, as, after, _, ?_,
    ⟨?_, hnamed, hfs.acquires, hfs.held_eq, hchildren, hobeys⟩, hafter⟩
  · simp only [List.append_nil, List.append_assoc]
  · rw [hchild]
    rfl

theorem yields_ordered (setup : RunSetup ω) (assembly : Assembly ω) (ids : NodeIds)
    (cases : List (TestCase ω)) : (ordered setup assembly ids cases).Yields fun as collections =>
      MadeOf UserBlock as ∧ (collections.map (·.id)).Nodup := by
  unfold ordered
  refine (Orderers.yields_order _ _ _ _).mono ?_
  rintro as collections ⟨has, h⟩
  exact ⟨has, h.nodup_iff.mpr (firstSeen_nodup (·.id) (cases.map (·.collection)))⟩

end Collection

/-! ## The assembly -/

/-- The unique IDs of the cases of a run. -/
def AssemblyRun.caseIds (r : AssemblyRun ω) : List String := r.cases.map (·.id)

/-- **A serial run is a node of which the law holds.** -/
theorem AssemblyRun.yields_inTurn (r : AssemblyRun ω) :
    r.inTurn.Yields fun as n => NodeRun r.caseIds r.ids as n := by
  unfold inTurn
  refine NodeRun.of_lifecycle rfl rfl ?_
  refine .bind (P := fun as runs => ∃ collections : List (Collection ω), MadeOf UserBlock as ∧
    (collections.map (·.id)).Nodup ∧ runs = Collection.runs r.setup r.ids r.cases collections) ?_ ?_
  · refine (Collection.yields_ordered r.setup r.assembly r.ids r.cases).bind ?_
    rintro as collections ⟨has, hnodup⟩
    exact .pure ⟨collections, has.append .nil, hnodup, rfl⟩
  · rintro us _ ⟨collections, hus, hnodup, rfl⟩
    refine (yields_untilCancelled r.caseIds collections (fun l _ =>
      l.yields_run r.caseIds r.setup rfl (subperm_withKey (·.id) _ l.id r.cases)) 0).bind ?_
    rintro as _ ⟨hobeys, n, rfl, h⟩
    refine .pure ⟨.collection, collections.map (·.id), us, as, [], [], ?_, ?_, .nil⟩
    · simp only [List.append_nil]
    · have hacquires : Acquires r.ids [] us := .of_user hus
      rw [Counts.zero_add]
      refine ⟨rfl, hnodup, ?_, ?_, h, hobeys false⟩
      · rw [hacquires.gained_eq]
        exact hacquires
      · rw [hacquires.gained_eq]
        rfl

/-- **What is recorded of a run is one node**, of which the law holds, as it does of every node
below it; its summary is the answer of the run. -/
theorem SerialRun.exists_node {σ : Type} {c : Transport σ} {r : AssemblyRun ω}
    (e : SerialRun r c) : ∃ f i, f.ids = r.ids ∧
      e.record = (Chronicle.node f i .nil).occurrences ∧ NodeLaw r.caseIds f i ∧
      i.Every (NodeLaw r.caseIds) ∧ e.counts = tally (messages i.occurrences) := by
  obtain ⟨as, htrace, hvisible, -, -⟩ := e.exists_trace
  obtain ⟨f, i, hids, htold, hlaw, hbelow, hcounts⟩ := (r.yields_inTurn as e.counts htrace).told
  refine ⟨f, i, hids, ?_, hlaw, hbelow, hcounts⟩
  rw [← hvisible, htold]
  exact (List.append_nil _).symm

end TestEngine
