import TestEngine.Proofs.Run.Calm

/-!
# Failures stay in their methods

What the code of one method does makes no difference to the rest of a run, as long as that code
shares no state with other code: nothing of a failure gets from one method into another. All that
others see of it are the counts of the nodes that the method is in.

* `MethodPath.likeness` — runs that differ in what the code of one method does.
* `SerialRun.isolates` — such runs report the same but for that method and those counts.
-/

namespace TestEngine

variable {σ τ ω ν : Type} {c : Transport σ} {c' : Transport τ}

/-- The event without its summary, if it has one. -/
def Event.blank : Event → Event
  | .finished group _ => .finished group (.ofCounts 0)
  | e => e

/-- The IDs of a method and of the nodes that it is in. -/
structure MethodPath where
  assembly : String
  collection : String
  testClass : String
  method : String

namespace MethodPath

variable (M : MethodPath)

/-- The IDs of the class, of the collection and of the assembly of the method. -/
def ancestors : List NodeIds :=
  [{ assembly := M.assembly, collection := some M.collection, testClass := some M.testClass },
    { assembly := M.assembly, collection := some M.collection }, { assembly := M.assembly }]

/-- A node is the method or in it. -/
structure Contains (ids : NodeIds) : Prop where
  assembly_eq : ids.assembly = M.assembly
  collection_eq : ids.collection = some M.collection
  testClass_eq : ids.testClass = some M.testClass
  method_eq : ids.method = some M.method

/-- What is left of a message: nothing if it carries the ID of the method, and no summary if a node
has finished that the method is in. -/
def mask (m : Message) : Option Message :=
  if m.ids.method = some M.method then none
  else if m.ids ∈ M.ancestors then some ⟨m.ids, m.event.blank⟩
  else some m

/-! ## What the code of the method makes a difference to -/

/-- The code of the method makes a difference to this node: it is the method, in it, or one that the
method is in. -/
def Concerns (ids : NodeIds) : Prop := ids ∈ M.ancestors ∨ M.Contains ids

variable {M}

theorem level_lt_of_mem_ancestors {ids : NodeIds} (h : ids ∈ M.ancestors) :
    ids.level.depth < Level.method.depth := by
  unfold ancestors at h
  rcases List.mem_cons.mp h with rfl | h
  · exact show 2 < 3 by decide
  · rcases List.mem_pair.mp h with rfl | rfl
    · exact show 1 < 3 by decide
    · exact show 0 < 3 by decide

theorem method_eq_none_of_mem_ancestors {ids : NodeIds} (h : ids ∈ M.ancestors) :
    ids.method = none :=
  NodeIds.at?_eq_none_of_level_lt (l := .method) (level_lt_of_mem_ancestors h)

/-- What a concerned node is in is concerned. -/
theorem Concerns.parent {ids parent : NodeIds} (h : M.Concerns ids)
    (hparent : ids.parent? = some parent) : M.Concerns parent := by
  rcases h with hmem | hcontains
  · -- the ancestors are a chain that ends with the assembly
    unfold ancestors at hmem
    rcases List.mem_cons.mp hmem with rfl | hmem
    · obtain rfl := Option.some.inj hparent
      exact .inl (List.mem_cons_of_mem _ List.mem_cons_self)
    · rcases List.mem_pair.mp hmem with rfl | rfl
      · obtain rfl := Option.some.inj hparent
        exact .inl (List.mem_cons_of_mem _ (List.mem_cons_of_mem _ List.mem_cons_self))
      · cases hparent
  · -- only the method itself leaves it, for the class
    obtain ⟨assembly, collection, testClass, method, testCase, test⟩ := ids
    obtain ⟨rfl, rfl, rfl, rfl⟩ := hcontains
    cases test with
    | some id =>
      obtain rfl := Option.some.inj hparent
      exact .inr ⟨rfl, rfl, rfl, rfl⟩
    | none =>
      cases testCase with
      | some id =>
        obtain rfl := Option.some.inj hparent
        exact .inr ⟨rfl, rfl, rfl, rfl⟩
      | none =>
        obtain rfl := Option.some.inj hparent
        exact .inl List.mem_cons_self

/-- What is in a concerned node, and below the method, is concerned. -/
theorem Concerns.child {ids : NodeIds} {level : Level} (h : M.Concerns ids)
    (hids : Level.method.depth ≤ ids.level.depth) (hlevel : ids.level.depth < level.depth)
    (id : String) : M.Concerns (ids.child level id) := by
  rcases h with hmem | hcontains
  · exact absurd (level_lt_of_mem_ancestors hmem) (Nat.not_lt_of_le hids)
  · have hne : ∀ l : Level, l.depth ≤ Level.method.depth →
        (ids.child level id).at? l = ids.at? l := by
      rintro l hl
      exact NodeIds.at?_child_of_ne ids id fun heq => by
        rw [heq] at hl
        exact absurd (Nat.lt_of_le_of_lt hids hlevel) (Nat.not_lt_of_le hl)
    exact .inr {
      assembly_eq := Option.some.inj ((hne .assembly (by decide)).trans
        (congrArg some hcontains.assembly_eq))
      collection_eq := (hne .collection (by decide)).trans hcontains.collection_eq
      testClass_eq := (hne .testClass (by decide)).trans hcontains.testClass_eq
      method_eq := (hne .method (by decide)).trans hcontains.method_eq }

theorem mask_of_mem_ancestors {ids : NodeIds} (h : ids ∈ M.ancestors) (event : Event) :
    M.mask ⟨ids, event⟩ = some ⟨ids, event.blank⟩ := by
  have hmethod : ids.method ≠ some M.method := by
    rw [method_eq_none_of_mem_ancestors h]
    exact Option.some_ne_none _ |>.symm
  rw [mask, if_neg hmethod, if_pos h]

theorem mask_of_method_eq {m : Message} (h : m.ids.method = some M.method) : M.mask m = none :=
  if_pos h

/-- The summary of a concerned node is masked. -/
theorem Concerns.mask_finished {ids : NodeIds} (h : M.Concerns ids) (group : GroupLevel)
    (s s' : Summary) : M.mask ⟨ids, .finished group s⟩ = M.mask ⟨ids, .finished group s'⟩ := by
  rcases h with hmem | hcontains
  · rw [mask_of_mem_ancestors hmem, mask_of_mem_ancestors hmem]
    rfl
  · rw [mask_of_method_eq hcontains.method_eq, mask_of_method_eq hcontains.method_eq]

variable (M)

/-- Runs are alike if they are the same but for what the body and the hooks of the method do. Nobody
else sees what these do to the world, and nobody else does anything that depends on what is not in
`view`. -/
def likeness (view : ω → ν) : Likeness ω ν where
  stopOnFail := false
  view := view
  shows := M.mask
  loose := False
  varies := M.Concerns
  varies_parent := fun hlevel h => h.parent (NodeIds.parent?_child _ hlevel)
  varies_inside := fun hids hlevel h => h.child hids hlevel _
  cleanups := fun h => h.elim
  hides := by
    intro ids h hmethod event
    rcases h with hmem | hcontains
    · rw [method_eq_none_of_mem_ancestors hmem] at hmethod
      cases hmethod
    · exact mask_of_method_eq hcontains.method_eq
  blurs := fun h => h.mask_finished
  steady := fun _ => rfl

/-! ## What is left -/

/-- What is left of the messages with a property are just these messages, if none of them is masked
and the property does not depend on what is. -/
theorem filter_filterMap_mask {p : Message → Bool} (hp : ∀ m, p m = true → M.mask m = some m)
    (hblank : ∀ ids event, p ⟨ids, event.blank⟩ = true → p ⟨ids, event⟩ = true)
    (ms : List Message) : (ms.filterMap M.mask).filter p = ms.filter p := by
  rw [List.filter_filterMap, ← List.filterMap_eq_filter]
  refine List.filterMap_congr fun m _ => ?_
  cases hm : p m with
  | true =>
    rw [hp m hm, Option.guard, hm]
    exact Option.filter_some_pos hm
  | false =>
    rw [Option.guard, hm, if_neg Bool.false_ne_true, Option.filter_eq_none_iff]
    intro m' hmask hm'
    -- a message without the property does not get it by losing its summary
    unfold mask at hmask
    split at hmask
    · cases hmask
    · split at hmask
      · cases hmask
        exact absurd (hblank m.ids m.event hm') (Bool.eq_false_iff.mp hm)
      · cases hmask
        rw [hm] at hm'
        cases hm'

/-- The message is a result of a test of another method. -/
def isForeignResult (m : Message) : Bool :=
  m.event.isResult && decide (m.ids.method ≠ some M.method)

/-- The message is the end of a node that is neither the method, nor in it, nor one that the method
is in. -/
def isForeignEnd (m : Message) : Bool :=
  m.event.summary?.isSome && decide (m.ids.method ≠ some M.method ∧ m.ids ∉ M.ancestors)

theorem filter_isForeignResult (ms : List Message) :
    (ms.filterMap M.mask).filter M.isForeignResult = ms.filter M.isForeignResult := by
  refine M.filter_filterMap_mask (fun m hm => ?_) (fun ids event hm => ?_) ms
  · obtain ⟨hresult, hmethod⟩ := Bool.and_eq_true_iff.mp hm
    rw [mask, if_neg (of_decide_eq_true hmethod)]
    split
    · obtain ⟨ids, event⟩ := m
      cases event <;> first | rfl | cases hresult
    · rfl
  · cases event <;> exact hm

theorem filter_isForeignEnd (ms : List Message) :
    (ms.filterMap M.mask).filter M.isForeignEnd = ms.filter M.isForeignEnd := by
  refine M.filter_filterMap_mask (fun m hm => ?_) (fun ids event hm => ?_) ms
  · obtain ⟨-, houtside⟩ := Bool.and_eq_true_iff.mp hm
    obtain ⟨hmethod, hancestors⟩ := of_decide_eq_true houtside
    rw [mask, if_neg hmethod, if_neg hancestors]
  · cases event <;> exact hm

end MethodPath

namespace SerialRun

variable {r r' : AssemblyRun ω}

/-- **What the code of a method does stays in the method.** Take two runs that differ in nothing but
what the body and the hooks of one method do, that do not stop at failures, and whose sinks never
ask to stop. They queue the same messages, apart from those that carry the ID of the method and from
the summaries of its class, its collection and its assembly. So all other tests have the same
results, and all nodes that the method is not in count the same. -/
theorem isolates (M : MethodPath) (view : ω → ν) (e : SerialRun r c) (e' : SerialRun r' c')
    (halike : r.Alike (M.likeness view) r') (hcalm : c.NeverAsks) (hcalm' : c'.NeverAsks)
    (hstop : c.stopOnFail = false) (hstop' : c'.stopOnFail = false)
    (hview : view e.world = view e'.world) :
    e.queued.filterMap M.mask = e'.queued.filterMap M.mask ∧
      e.queued.filter M.isForeignResult = e'.queued.filter M.isForeignResult ∧
      e.queued.filter M.isForeignEnd = e'.queued.filter M.isForeignEnd := by
  obtain ⟨hqueued, -⟩ := e.observe_eq halike e' hcalm hcalm' hstop hstop' hview
  have hmask : e.queued.filterMap M.mask = e'.queued.filterMap M.mask := hqueued
  refine ⟨hmask, ?_, ?_⟩
  · rw [← M.filter_isForeignResult, hmask, M.filter_isForeignResult]
  · rw [← M.filter_isForeignEnd, hmask, M.filter_isForeignEnd]

end SerialRun

/-! Two methods of a class. One counts in its own half of the world; what the other does is left
open. -/
namespace Neighbours

def assembly : Assembly (Nat × Nat) where
  name := "neighbours"

def testClass : TestClass (Nat × Nat) where
  collection := { assembly, displayName := "street" }
  name := "House"

/-- The method that counts, and then fails. -/
def counter : TestCase (Nat × Nat) where
  method :=
    { testClass
      name := "counts"
      body := .sync fun _ => .world (fun w => (w.1 + 1, w.2)) fun w =>
        .finish (.failed (.ofMessage (toString w.1))) }
  kind := .fact
  displayName := "House.counts"

/-- The other method. -/
def other (body : Body (Nat × Nat)) : TestCase (Nat × Nat) where
  method := { testClass, name := "other", body }
  kind := .fact
  displayName := "House.other"

def run (body : Body (Nat × Nat)) : AssemblyRun (Nat × Nat) where
  assembly := assembly
  cases := [other body, counter]
  setup :=
    { options := { collectionOrderer := some "declaration", caseOrderer := some "declaration" }
      collectionOrderers := .ofOrders .collection (·.id) [("declaration", id)]
      caseOrderers := .ofOrders .testCase (·.id) [("declaration", id)] }
  processors := 2
  startTime := .epoch

/-- The IDs of the other method. -/
def path : MethodPath where
  assembly := assembly.id
  collection := testClass.collection.id
  testClass := testClass.id
  method := (NodePath.method testClass.id "other").uniqueId

/-- A body that breaks down. -/
def broken : Body (Nat × Nat) := .sync fun _ => .finish (.panicked (.text "down"))

/-- A body that counts in its half of the world and writes a line. -/
def mended : Body (Nat × Nat) :=
  .sync fun _ => .world (fun w => (w.1, w.2 + 1)) fun _ =>
    .request (.writeLine "up") fun _ => .finish (.returned ())

theorem secret_broken : broken.IsSecret (path.likeness Prod.fst) := fun _ => .finish _

theorem secret_mended : mended.IsSecret (path.likeness Prod.fst) :=
  fun _ => .world (fun _ => rfl) fun _ => .request _ fun _ => .finish _

theorem alike_testClass : testClass.Alike (path.likeness Prod.fst) testClass where
  collection := ⟨⟨rfl, rfl, rfl, rfl, rfl, rfl, rfl, .nil⟩, rfl, rfl, .none⟩
  name_eq := rfl
  caseOrderer_eq := rfl
  id_eq := rfl
  constructor := .none
  fixtures := .nil
  hooks := .nil

/-- Whatever the other method does, the runs are alike. -/
theorem alike {body body' : Body (Nat × Nat)} (h : body.IsSecret (path.likeness Prod.fst))
    (h' : body'.IsSecret (path.likeness Prod.fst)) :
    (run body).Alike (path.likeness Prod.fst) (run body') where
  assembly := ⟨rfl, rfl, rfl, rfl, rfl, rfl, rfl, .nil⟩
  cases := by
    have hother : (path.likeness (Prod.fst : Nat × Nat → Nat)).varies
        (((other body).classIds (run body).ids).child .method (other body).method.id) :=
      .inr ⟨rfl, rfl, rfl, rfl⟩
    refine .cons ?_ (.cons ?_ .nil)
    · exact ⟨⟨alike_testClass, rfl, rfl, .inr ⟨hother, ⟨h, nofun⟩, h', nofun⟩⟩, .fact, rfl, rfl,
        rfl, rfl, rfl⟩
    · refine ⟨⟨alike_testClass, rfl, rfl, .inl ⟨fun _ => ?_, .nil⟩⟩, .fact, rfl, rfl, rfl, rfl,
        rfl⟩
      refine .world (fun w w' hw => congrArg (· + 1) hw) fun w w' hw => .finish ?_
      exact congrArg (fun n => some (Failure.ofMessage (toString n))) hw
  setup :=
    { options_eq := rfl
      collectionOrderers := Orderers.alike_ofOrders _ _ fun o ho _ _ h => by
        rwa [List.mem_singleton.mp ho]
      caseOrderers := fun _ => Orderers.alike_ofOrders _ _ fun o ho _ _ h => by
        rwa [List.mem_singleton.mp ho] }
  processors_eq := rfl
  startTime_eq := rfl

/-- A sink that counts messages. -/
def count : Transport Nat where
  kind := .asynchronous
  sink := fun seen _ => (seen + 1, .goOn)
  stopOnFail := false

theorem neverAsks_count : count.NeverAsks := fun _ _ => nofun

end Neighbours

/-- A method that breaks down, and one in its place that does not. -/
theorem SerialRun.isolates_neighbours :
    ∃ (e : SerialRun (Neighbours.run Neighbours.broken) Neighbours.count)
      (e' : SerialRun (Neighbours.run Neighbours.mended) Neighbours.count),
      (Neighbours.run Neighbours.broken).Alike (Neighbours.path.likeness Prod.fst)
        (Neighbours.run Neighbours.mended) ∧
      Neighbours.count.NeverAsks ∧ Neighbours.count.stopOnFail = false ∧
      e.world.1 = e'.world.1 ∧
      e.queued.filterMap Neighbours.path.mask = e'.queued.filterMap Neighbours.path.mask ∧
      e.queued.filter Neighbours.path.isForeignResult =
        e'.queued.filter Neighbours.path.isForeignResult ∧
      e.queued.filter Neighbours.path.isForeignEnd =
        e'.queued.filter Neighbours.path.isForeignEnd := by
  -- the worlds differ in the half that is not seen
  obtain ⟨e, -, hworld, -⟩ :=
    SerialRun.nonempty (Neighbours.run Neighbours.broken) Neighbours.count 0 (0, 0) []
  obtain ⟨e', -, hworld', -⟩ :=
    SerialRun.nonempty (Neighbours.run Neighbours.mended) Neighbours.count 0 (0, 1) []
  have halike := Neighbours.alike Neighbours.secret_broken Neighbours.secret_mended
  have hview : e.world.1 = e'.world.1 := by rw [hworld, hworld']
  obtain ⟨hmask, hresults, hends⟩ := SerialRun.isolates Neighbours.path Prod.fst e e'
    halike Neighbours.neverAsks_count Neighbours.neverAsks_count rfl rfl hview
  exact ⟨e, e', halike, Neighbours.neverAsks_count, rfl, hview, hmask, hresults, hends⟩

end TestEngine
