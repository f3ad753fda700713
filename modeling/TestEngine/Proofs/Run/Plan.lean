import TestEngine.Proofs.Order.Guarded
import TestEngine.Proofs.Run.Brackets

/-!
# The plan of a run

In which order the nodes of a serial run start if nobody stops it. The plan is a function of the
cases and of what the orderers answer; no state comes into it.

* `AssemblyRun.plan` — the messages with which collections, classes, methods and cases start.
* `AssemblyRun.cases_plan` — the cases of the plan are those of the run.
* `AssemblyRun.plan_populated` — every node of the plan has a case.
-/

namespace TestEngine

variable {ω α : Type}

/-! ## Grouping -/

theorem key_mem_firstSeen (key : α → String) {items : List α} {x : α} (h : x ∈ items) :
    key x ∈ (firstSeen key items).map key := by
  induction items with
  | nil => cases h
  | cons y rest ih =>
    unfold firstSeen
    by_cases hxy : key x = key y
    · rw [hxy]
      exact List.mem_cons_self
    · obtain ⟨z, hz, hkey⟩ := List.mem_map.mp
        (ih ((List.mem_cons.mp h).resolve_left (fun he => hxy (by rw [he]))))
      refine List.mem_cons_of_mem _ (List.mem_map.mpr ⟨z, List.mem_filter.mpr ⟨hz, ?_⟩, hkey⟩)
      rw [hkey]
      exact bne_iff_ne.mpr hxy

/-- The keys of the items, in the order in which they are first seen. -/
theorem firstSeen_map {β : Type} (key : β → String) (f : α → β) (items : List α) :
    firstSeen key (items.map f) = (firstSeen (fun x => key (f x)) items).map f := by
  induction items with
  | nil => rfl
  | cons x rest ih =>
    rw [List.map_cons, firstSeen, firstSeen, ih, List.map_cons, List.filter_map]
    rfl

/-- Sorting items by keys neither loses nor doubles any. -/
theorem perm_flatMap_withKey (key : α → String) {keys : List String} {items : List α}
    (hnodup : keys.Nodup) (hall : ∀ x ∈ items, key x ∈ keys) :
    (keys.flatMap fun k => withKey key k items).Perm items := by
  induction keys generalizing items with
  | nil =>
    cases items with
    | nil => exact .nil
    | cons x rest => cases hall x List.mem_cons_self
  | cons k keys ih =>
    obtain ⟨hk, hkeys⟩ := List.nodup_cons.mp hnodup
    let others := items.filter fun x => !(key x == k)
    have hothers : ∀ x ∈ others, key x ∈ keys := by
      intro x hx
      obtain ⟨hx, hne⟩ := List.mem_filter.mp hx
      refine (List.mem_cons.mp (hall x hx)).resolve_left fun he => ?_
      rw [he, beq_self_eq_true] at hne
      cases hne
    -- the items with another key are not among those with the first one
    have hsame : ∀ k' ∈ keys, withKey key k' items = withKey key k' others := by
      intro k' hk'
      unfold withKey
      rw [List.filter_filter]
      refine List.filter_congr fun x _ => ?_
      by_cases hx : key x = k'
      · have hne : (key x == k) = false := by
          refine beq_eq_false_iff_ne.mpr fun he => hk ?_
          rw [← he, hx]
          exact hk'
        rw [hne]
        exact (Bool.and_true _).symm
      · rw [beq_eq_false_iff_ne.mpr hx, Bool.false_and]
    rw [List.flatMap_cons, List.flatMap_congr hsame]
    exact ((ih hkeys hothers).append_left _).trans (List.filter_append_perm _ items)

/-- Grouping items by key, the keys in the order in which they are first seen, neither loses nor
doubles any. -/
theorem regroup_perm (key : α → String) (items : List α) :
    ((firstSeen key items).flatMap fun x => withKey key (key x) items).Perm items := by
  have h := perm_flatMap_withKey key (firstSeen_nodup key items)
    (fun x hx => key_mem_firstSeen key hx)
  rwa [List.flatMap_map] at h

/-! ## Which messages start nodes -/

/-- The event starts a node above the tests. -/
def Event.startsGroup : Event → Bool
  | .starting (.test _) => false
  | .starting _ => true
  | _ => false

/-- The event starts a case. -/
def Event.startsCase : Event → Bool
  | .starting (.testCase ..) => true
  | _ => false

/-- The messages with which nodes above the tests start. -/
def groupStarts (ms : List Message) : List Message := ms.filter (·.event.startsGroup)

/-- The messages with which cases start. -/
def caseStarts (ms : List Message) : List Message := ms.filter (·.event.startsCase)

theorem groupStarts_append (ms ns : List Message) :
    groupStarts (ms ++ ns) = groupStarts ms ++ groupStarts ns := List.filter_append ..

theorem caseStarts_append (ms ns : List Message) :
    caseStarts (ms ++ ns) = caseStarts ms ++ caseStarts ns := List.filter_append ..

theorem caseStarts_flatMap {β : Type} (xs : List β) (f : β → List Message) :
    caseStarts (xs.flatMap f) = xs.flatMap fun x => caseStarts (f x) := List.filter_flatMap ..

/-- Cases are among the nodes above the tests. -/
theorem caseStarts_groupStarts (ms : List Message) :
    caseStarts (groupStarts ms) = caseStarts ms := by
  unfold caseStarts groupStarts
  rw [List.filter_filter]
  refine List.filter_congr fun m _ => ?_
  rcases m with ⟨_, event⟩
  cases event with
  | starting node => cases node <;> rfl
  | _ => rfl

/-! ## The plan -/

/-- What a case of the method `methodIds` reports when it starts. -/
def TestCase.startMessage (methodIds : NodeIds) (c : TestCase ω) : Message where
  ids := methodIds.child .testCase c.id
  event := .starting (.testCase c.displayName c.skipReason c.traits)

/-- A method, and its cases one after the other. -/
def Method.plan (classIds : NodeIds) (m : Method ω) (cases : List (TestCase ω)) : List Message :=
  let ids := classIds.child .method m.id
  ⟨ids, .starting (.method m.name)⟩ :: cases.map (TestCase.startMessage ids)

/-- Cases method by method, in the order in which the methods are first seen. -/
def Method.planAll (classIds : NodeIds) (cases : List (TestCase ω)) : List Message :=
  (firstSeen (·.method.id) cases).flatMap fun c =>
    c.method.plan classIds (withKey (·.method.id) c.method.id cases)

section

variable (setup : RunSetup ω) (answers : Orderers.Answers (TestCase ω))

/-- The order of the cases of a class: that of the orderer which is named by the class, or else by
its collection, the run or the assembly. -/
def TestClass.guardedCases (ids : NodeIds) (k : TestClass ω) (cases : List (TestCase ω)) :
    List (TestCase ω) :=
  (setup.caseOrderers.tellBy (·.id)).guarded answers (k.caseOrdererName setup.options) ids cases

/-- A class, and its cases method by method. -/
def TestClass.plan (collectionIds : NodeIds) (k : TestClass ω) (cases : List (TestCase ω)) :
    List Message :=
  let ids := collectionIds.child .testClass k.id
  ⟨ids, .starting (.testClass k.name)⟩ ::
    Method.planAll ids (k.guardedCases setup answers ids cases)

/-- Cases class by class, in the order in which the classes are first seen. -/
def TestClass.planAll (collectionIds : NodeIds) (cases : List (TestCase ω)) : List Message :=
  (firstSeen (·.testClass.id) cases).flatMap fun c =>
    c.testClass.plan setup answers collectionIds (withKey (·.testClass.id) c.testClass.id cases)

/-- A collection, and its cases class by class. -/
def Collection.plan (assemblyIds : NodeIds) (l : Collection ω) (cases : List (TestCase ω)) :
    List Message :=
  let ids := assemblyIds.child .collection l.id
  ⟨ids, .starting (.collection l.displayName (l.definition.map (·.typeName)))⟩ ::
    TestClass.planAll setup answers ids cases

end

namespace AssemblyRun

variable (r : AssemblyRun ω) (collectionAnswers : Orderers.Answers (Collection ω))
  (caseAnswers : Orderers.Answers (TestCase ω))

/-- The order of the collections, which are first put in the order in which they are first seen. -/
def guardedCollections : List (Collection ω) :=
  (r.setup.collectionOrderers.tellBy (·.id)).guarded collectionAnswers
    (r.setup.options.collectionOrderer.or r.assembly.collectionOrderer) r.ids
    (firstSeen (·.id) (r.cases.map (·.collection)))

/-- The assembly, and its cases collection by collection. -/
def plan : List Message :=
  ⟨r.ids, .starting r.start⟩ ::
    (r.guardedCollections collectionAnswers).flatMap fun l =>
      l.plan r.setup caseAnswers r.ids (withKey (·.collection.id) l.id r.cases)

end AssemblyRun

/-! ## No case is lost or doubled -/

/-- The IDs of the cases that a plan starts. -/
def plannedIds (ms : List Message) : List (Option String) :=
  (caseStarts ms).map fun m => m.ids.at? .testCase

theorem plannedIds_cons {m : Message} (h : m.event.startsCase = false) (ms : List Message) :
    plannedIds (m :: ms) = plannedIds ms := by
  unfold plannedIds caseStarts
  rw [List.filter_cons_of_neg (by rw [h]; nofun)]

theorem plannedIds_flatMap {β : Type} (xs : List β) (f : β → List Message) :
    plannedIds (xs.flatMap f) = xs.flatMap fun x => plannedIds (f x) := by
  unfold plannedIds
  rw [caseStarts_flatMap, List.map_flatMap]

theorem Method.plannedIds_plan (classIds : NodeIds) (m : Method ω) (cases : List (TestCase ω)) :
    plannedIds (m.plan classIds cases) = cases.map fun c => some c.id := by
  unfold plan
  rw [plannedIds_cons rfl]
  induction cases with
  | nil => rfl
  | cons c rest ih =>
    rw [List.map_cons, List.map_cons, ← ih]
    rfl

theorem Method.plannedIds_planAll (classIds : NodeIds) (cases : List (TestCase ω)) :
    (plannedIds (planAll classIds cases)).Perm (cases.map fun c => some c.id) := by
  unfold planAll
  rw [plannedIds_flatMap]
  simp only [plannedIds_plan]
  rw [← List.map_flatMap]
  exact (regroup_perm (·.method.id) cases).map _

section

variable (setup : RunSetup ω) (answers : Orderers.Answers (TestCase ω))

/-- An order permutes the IDs of the cases. -/
theorem TestClass.guardedCases_perm (ids : NodeIds) (k : TestClass ω) (cases : List (TestCase ω)) :
    ((k.guardedCases setup answers ids cases).map (·.id)).Perm (cases.map (·.id)) :=
  Orderers.agree_trusted cases (setup.caseOrderers.tellBy (·.id)) _

theorem TestClass.plannedIds_plan (collectionIds : NodeIds) (k : TestClass ω)
    (cases : List (TestCase ω)) :
    (plannedIds (k.plan setup answers collectionIds cases)).Perm
      (cases.map fun c => some c.id) := by
  unfold plan
  rw [plannedIds_cons rfl]
  refine (Method.plannedIds_planAll _ _).trans ?_
  have h := (k.guardedCases_perm setup answers
    (collectionIds.child .testClass k.id) cases).map some
  rwa [List.map_map, List.map_map] at h

theorem TestClass.plannedIds_planAll (collectionIds : NodeIds) (cases : List (TestCase ω)) :
    (plannedIds (planAll setup answers collectionIds cases)).Perm
      (cases.map fun c => some c.id) := by
  unfold planAll
  rw [plannedIds_flatMap]
  refine (List.Perm.flatMap_left _ fun c _ => plannedIds_plan setup answers _ _ _).trans ?_
  rw [← List.map_flatMap]
  exact (regroup_perm (·.testClass.id) cases).map _

theorem Collection.plannedIds_plan (assemblyIds : NodeIds) (l : Collection ω)
    (cases : List (TestCase ω)) :
    (plannedIds (l.plan setup answers assemblyIds cases)).Perm
      (cases.map fun c => some c.id) := by
  unfold plan
  rw [plannedIds_cons rfl]
  exact TestClass.plannedIds_planAll setup answers _ cases

end

namespace AssemblyRun

variable (r : AssemblyRun ω) (collectionAnswers : Orderers.Answers (Collection ω))
  (caseAnswers : Orderers.Answers (TestCase ω))

/-- The collections of a run are those of its cases, each of them once. -/
theorem guardedCollections_perm :
    ((r.guardedCollections collectionAnswers).map (·.id)).Perm
      ((firstSeen (·.collection.id) r.cases).map (·.collection.id)) := by
  have h : ((r.guardedCollections collectionAnswers).map (·.id)).Perm
      ((firstSeen (·.id) (r.cases.map (·.collection))).map (·.id)) :=
    Orderers.agree_trusted _ (r.setup.collectionOrderers.tellBy fun l : Collection ω => l.id) _
  rwa [firstSeen_map, List.map_map] at h

/-- **The cases of the plan are those of the run**, as often as they are there. -/
theorem cases_plan : (plannedIds (r.plan collectionAnswers caseAnswers)).Perm
    (r.caseIds.map some) := by
  unfold plan
  rw [plannedIds_cons rfl, plannedIds_flatMap]
  have hperm := r.guardedCollections_perm collectionAnswers
  refine (List.Perm.flatMap_left _ fun l _ => l.plannedIds_plan r.setup caseAnswers _ _).trans ?_
  rw [← List.map_flatMap]
  have hgroups : ((r.guardedCollections collectionAnswers).flatMap fun l =>
      withKey (·.collection.id) l.id r.cases).Perm r.cases := by
    have h := perm_flatMap_withKey (fun c : TestCase ω => c.collection.id)
      (hperm.nodup_iff.mpr (firstSeen_nodup (·.collection.id) r.cases))
      (fun c hc => hperm.mem_iff.mpr (key_mem_firstSeen (·.collection.id) hc))
    rwa [List.flatMap_map] at h
  rw [caseIds, List.map_map]
  exact hgroups.map _

end AssemblyRun

/-! ## No node is without a case -/

/-- A case in the plan starts within the node. -/
def HasCase (ms : List Message) (ids : NodeIds) : Prop :=
  ∃ m ∈ caseStarts ms, m.ids.IsWithin ids

/-- The messages start nodes of which each has a case among them. -/
def Populated (ms : List Message) : Prop := ∀ m ∈ ms, HasCase ms m.ids

theorem HasCase.mono {ms ns : List Message} {ids : NodeIds} (h : HasCase ms ids)
    (hsub : ms ⊆ ns) : HasCase ns ids := by
  obtain ⟨m, hm, hwithin⟩ := h
  obtain ⟨hmem, hcase⟩ := List.mem_filter.mp hm
  exact ⟨m, List.mem_filter.mpr ⟨hsub hmem, hcase⟩, hwithin⟩

/-- A node whose children are populated, if it has any. -/
theorem populated_cons {m : Message} {ms : List Message} (h : Populated ms)
    (hm : HasCase ms m.ids) : Populated (m :: ms) := by
  intro m' hm'
  have hsub : ms ⊆ m :: ms := List.subset_cons_self m ms
  rcases List.mem_cons.mp hm' with rfl | hm'
  · exact hm.mono hsub
  · exact (h m' hm').mono hsub

theorem populated_flatMap {β : Type} {xs : List β} {f : β → List Message}
    (h : ∀ x ∈ xs, Populated (f x)) : Populated (xs.flatMap f) := by
  intro m hm
  obtain ⟨x, hx, hm⟩ := List.mem_flatMap.mp hm
  exact (h x hx m hm).mono fun m' hm' => List.mem_flatMap.mpr ⟨x, hx, hm'⟩

/-- The first of some children, each with a case of its own, has a case. -/
theorem hasCase_flatMap {β : Type} {xs : List β} {f : β → List Message} {ids : NodeIds}
    (hxs : xs ≠ []) (h : ∀ x ∈ xs, HasCase (f x) ids) : HasCase (xs.flatMap f) ids := by
  obtain ⟨x, rest, rfl⟩ := List.exists_cons_of_ne_nil hxs
  refine (h x List.mem_cons_self).mono ?_
  rw [List.flatMap_cons]
  exact List.subset_append_left _ _

theorem firstSeen_ne_nil (key : α → String) {items : List α} (h : items ≠ []) :
    firstSeen key items ≠ [] := by
  obtain ⟨x, rest, rfl⟩ := List.exists_cons_of_ne_nil h
  exact List.cons_ne_nil _ _

theorem withKey_ne_nil (key : α → String) {items : List α} {x : α} (h : x ∈ items) :
    withKey key (key x) items ≠ [] :=
  List.ne_nil_of_mem (List.mem_filter.mpr ⟨h, beq_self_eq_true _⟩)

theorem withKey_firstSeen_ne_nil (key : α → String) {items : List α} {x : α}
    (h : x ∈ firstSeen key items) : withKey key (key x) items ≠ [] :=
  withKey_ne_nil key ((firstSeen_sublist key items).subset h)

/-- A case is within a node if it is within a child of it. -/
theorem HasCase.child {ms : List Message} {ids : NodeIds} {level : Level} {name : String}
    (h : HasCase ms (ids.child level name)) (hlevel : ids.level.depth < level.depth) :
    HasCase ms ids := by
  obtain ⟨m, hm, hwithin⟩ := h
  exact ⟨m, hm, hwithin.child hlevel⟩

/-- A populated plan of a node has a case within the node, which stands first in it. -/
theorem Populated.hasCase {m : Message} {ms : List Message} (h : Populated (m :: ms)) :
    HasCase (m :: ms) m.ids := h m List.mem_cons_self

section

variable {classIds collectionIds assemblyIds : NodeIds} {cases : List (TestCase ω)}

theorem Method.populated_plan (m : Method ω) (hlevel : classIds.level = .testClass)
    (hcases : cases ≠ []) : Populated (m.plan classIds cases) := by
  have hchild : (classIds.child .method m.id).level = .method :=
    NodeIds.level_child m.id (by rw [hlevel]; decide)
  have hcase : ∀ c ∈ cases, c.startMessage (classIds.child .method m.id) ∈
      caseStarts (cases.map (TestCase.startMessage (classIds.child .method m.id))) := by
    intro c hc
    exact List.mem_filter.mpr ⟨List.mem_map.mpr ⟨c, hc, rfl⟩, rfl⟩
  refine populated_cons ?_ ?_
  · intro m' hm'
    obtain ⟨c, hc, rfl⟩ := List.mem_map.mp hm'
    exact ⟨_, hcase c hc, NodeIds.isWithin_refl _⟩
  · obtain ⟨c, rest, rfl⟩ := List.exists_cons_of_ne_nil hcases
    refine ⟨_, hcase c List.mem_cons_self, (NodeIds.isWithin_refl _).child ?_⟩
    rw [hchild]
    decide

theorem Method.populated_planAll (hlevel : classIds.level = .testClass) (hcases : cases ≠ []) :
    Populated (planAll classIds cases) ∧ HasCase (planAll classIds cases) classIds := by
  have hplan : ∀ c ∈ firstSeen (fun c : TestCase ω => c.method.id) cases,
      Populated (c.method.plan classIds (withKey (·.method.id) c.method.id cases)) :=
    fun c hc => c.method.populated_plan hlevel (withKey_firstSeen_ne_nil _ hc)
  refine ⟨populated_flatMap hplan, hasCase_flatMap (firstSeen_ne_nil _ hcases) fun c hc => ?_⟩
  exact (hplan c hc).hasCase.child (by rw [hlevel]; decide)

variable (setup : RunSetup ω) (answers : Orderers.Answers (TestCase ω))

theorem TestClass.populated_plan (k : TestClass ω) (hlevel : collectionIds.level = .collection)
    (hcases : cases ≠ []) : Populated (k.plan setup answers collectionIds cases) := by
  have hchild : (collectionIds.child .testClass k.id).level = .testClass :=
    NodeIds.level_child k.id (by rw [hlevel]; decide)
  have hordered :
      k.guardedCases setup answers (collectionIds.child .testClass k.id) cases ≠ [] := by
    intro hnil
    have hperm := k.guardedCases_perm setup answers (collectionIds.child .testClass k.id) cases
    rw [hnil] at hperm
    exact hcases (List.map_eq_nil_iff.mp hperm.nil_eq.symm)
  obtain ⟨hpopulated, hcase⟩ := Method.populated_planAll hchild hordered
  exact populated_cons hpopulated hcase

theorem TestClass.populated_planAll (hlevel : collectionIds.level = .collection)
    (hcases : cases ≠ []) : Populated (planAll setup answers collectionIds cases) ∧
      HasCase (planAll setup answers collectionIds cases) collectionIds := by
  have hplan : ∀ c ∈ firstSeen (fun c : TestCase ω => c.testClass.id) cases,
      Populated (c.testClass.plan setup answers collectionIds
        (withKey (·.testClass.id) c.testClass.id cases)) :=
    fun c hc => c.testClass.populated_plan setup answers hlevel
      (withKey_firstSeen_ne_nil _ hc)
  refine ⟨populated_flatMap hplan, hasCase_flatMap (firstSeen_ne_nil _ hcases) fun c hc => ?_⟩
  exact (hplan c hc).hasCase.child (by rw [hlevel]; decide)

theorem Collection.populated_plan (l : Collection ω) (hlevel : assemblyIds.level = .assembly)
    (hcases : cases ≠ []) : Populated (l.plan setup answers assemblyIds cases) := by
  have hchild : (assemblyIds.child .collection l.id).level = .collection :=
    NodeIds.level_child l.id (by rw [hlevel]; decide)
  obtain ⟨hpopulated, hcase⟩ := TestClass.populated_planAll setup answers hchild hcases
  exact populated_cons hpopulated hcase

end

/-- **Every collection, class and method of the plan has a case.** -/
theorem AssemblyRun.plan_populated (r : AssemblyRun ω)
    (collectionAnswers : Orderers.Answers (Collection ω))
    (caseAnswers : Orderers.Answers (TestCase ω)) {m : Message}
    (hm : m ∈ r.plan collectionAnswers caseAnswers) (hne : m ≠ ⟨r.ids, .starting r.start⟩) :
    HasCase (r.plan collectionAnswers caseAnswers) m.ids := by
  have hinside : Populated ((r.guardedCollections collectionAnswers).flatMap fun l =>
      l.plan r.setup caseAnswers r.ids (withKey (·.collection.id) l.id r.cases)) := by
    refine populated_flatMap fun l hl => l.populated_plan r.setup caseAnswers rfl ?_
    have hid := (r.guardedCollections_perm collectionAnswers).subset (List.mem_map_of_mem hl)
    obtain ⟨c, hc, hcl⟩ := List.mem_map.mp hid
    rw [← hcl]
    exact withKey_firstSeen_ne_nil _ hc
  exact (hinside m ((List.mem_cons.mp hm).resolve_left hne)).mono (List.subset_cons_self _ _)

end TestEngine
