/-!
# Levels and node IDs

A test tree has six levels. Every message names the node it is about by the unique IDs of that node
and of all its ancestors; the deepest ID that is set is the node's own.

* `level_child` — extending the IDs of a node by an ID of the next level reaches that level.
* `parent?_child` — and leads back to the node.
-/

namespace TestEngine

/-! ## Levels -/

/-- A level of the test tree. -/
inductive Level where
  | assembly
  | collection
  | testClass
  | method
  | testCase
  | test
  deriving DecidableEq, Repr

namespace Level

/-- All levels, from the top down. -/
def all : List Level := [.assembly, .collection, .testClass, .method, .testCase, .test]

/-- How far a level is from the top. -/
def depth : Level → Nat
  | .assembly => 0
  | .collection => 1
  | .testClass => 2
  | .method => 3
  | .testCase => 4
  | .test => 5

theorem depth_injective {k l : Level} (h : k.depth = l.depth) : k = l := by
  cases k <;> cases l <;> first | rfl | exact absurd h (by decide)

/-- The level in words. -/
def words : Level → String
  | .assembly => "assembly"
  | .collection => "collection"
  | .testClass => "class"
  | .method => "method"
  | .testCase => "test case"
  | .test => "test"

/-- The level as a key of a message. -/
def key : Level → String
  | .testCase => "test-case"
  | l => l.words

/-- The level that a key stands for. -/
def ofKey? (key : String) : Option Level := all.find? (·.key == key)

theorem ofKey?_key (l : Level) : ofKey? l.key = some l := by cases l <;> decide

/-- From the top down. -/
def before (k l : Level) : Bool := k.depth ≤ l.depth

end Level

/-! ## Node IDs -/

/-- The unique IDs of a node and of its ancestors. Only that of the assembly is always there. -/
structure NodeIds where
  assembly : String
  collection : Option String := none
  testClass : Option String := none
  method : Option String := none
  testCase : Option String := none
  test : Option String := none
  deriving DecidableEq, Repr, Inhabited

namespace NodeIds

/-- The ID at a level, if it is set. -/
def at? (ids : NodeIds) : Level → Option String
  | .assembly => some ids.assembly
  | .collection => ids.collection
  | .testClass => ids.testClass
  | .method => ids.method
  | .testCase => ids.testCase
  | .test => ids.test

/-- The IDs of a child of the node, whose own ID at the given level is `id`. -/
def child (ids : NodeIds) (level : Level) (id : String) : NodeIds :=
  match level with
  | .assembly => { ids with assembly := id }
  | .collection => { ids with collection := some id }
  | .testClass => { ids with testClass := some id }
  | .method => { ids with method := some id }
  | .testCase => { ids with testCase := some id }
  | .test => { ids with test := some id }

/-- The level of the deepest ID that is set. -/
def level (ids : NodeIds) : Level :=
  if ids.test.isSome then .test
  else if ids.testCase.isSome then .testCase
  else if ids.method.isSome then .method
  else if ids.testClass.isSome then .testClass
  else if ids.collection.isSome then .collection
  else .assembly

/-- The ID of the node itself. -/
def nodeId (ids : NodeIds) : String := (ids.at? ids.level).getD ids.assembly

/-- The IDs of the parent node; an assembly has none. -/
def parent? (ids : NodeIds) : Option NodeIds :=
  match ids.level with
  | .assembly => none
  | .collection => some { ids with collection := none }
  | .testClass => some { ids with testClass := none }
  | .method => some { ids with method := none }
  | .testCase => some { ids with testCase := none }
  | .test => some { ids with test := none }

/-! ## From a node to its children -/

theorem at?_child_self (ids : NodeIds) (l : Level) (id : String) :
    (ids.child l id).at? l = some id := by
  cases l <;> rfl

theorem at?_child_of_ne (ids : NodeIds) {k l : Level} (id : String) (h : k ≠ l) :
    (ids.child l id).at? k = ids.at? k := by
  cases k <;> cases l <;> first | rfl | exact absurd rfl h

/-- An ID below the level of a node is not set. -/
theorem at?_eq_none_of_level_lt {ids : NodeIds} {l : Level} (h : ids.level.depth < l.depth) :
    ids.at? l = none := by
  revert h
  unfold level
  cases l <;> simp only [at?] <;> repeat' split
  all_goals simp_all [Level.depth]

/-- Setting an ID below a node's level reaches that level. -/
theorem level_child {ids : NodeIds} {l : Level} (id : String) (h : ids.level.depth < l.depth) :
    (ids.child l id).level = l := by
  have hnone : ∀ k : Level, l.depth < k.depth → ids.at? k = none :=
    fun k hk => at?_eq_none_of_level_lt (Nat.lt_trans h hk)
  have ht := hnone .test
  have hc := hnone .testCase
  have hm := hnone .method
  have hk := hnone .testClass
  have hl := hnone .collection
  cases l <;> simp_all [Level.depth, at?, level, child]

/-- The parent of a node's child is the node. -/
theorem parent?_child {ids : NodeIds} {l : Level} (id : String) (h : ids.level.depth < l.depth) :
    (ids.child l id).parent? = some ids := by
  have hn := at?_eq_none_of_level_lt h
  unfold parent?
  rw [level_child id h]
  obtain ⟨a, c, k, m, t, s⟩ := ids
  cases l
  · exact absurd h (Nat.not_lt_zero _)
  all_goals
    simp only [at?] at hn
    simp only [child, hn]

end NodeIds

end TestEngine
