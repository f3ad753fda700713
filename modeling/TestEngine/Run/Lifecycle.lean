import TestEngine.Failure.Aggregator
import TestEngine.Order.Basic
import TestEngine.Tree.Basic

/-!
# The life cycle of a node

Every node above the tests goes through the same steps: it reports that it starts; if the run goes
on, what is inside of it runs; a failure to tear it down is reported; and it reports that it has
finished, with the counts of its tests. If the run is to stop when the node starts, nothing is
inside.
-/

namespace TestEngine

variable {ω α : Type}

/-- What all nodes of a run share. Whatever the orderers were made for, a run tells collections and
cases by their unique IDs. -/
structure RunSetup (ω : Type) where
  options : Options
  collectionOrderers : Orderers ω (Collection ω)
  caseOrderers : Orderers ω (TestCase ω)

/-- Reports a failure to tear a node down, if there is one. -/
def reportCleanup (ids : NodeIds) (level : Level) (cleanup : Aggregator) : Process ω Unit :=
  match cleanup.toFailure? with
  | some f => do
    let _ ← Process.report ids (.cleanupFailure level f.record)
    pure ()
  | none => pure ()

/-- The life cycle of a node. `inside` answers the counts of the node's tests and the failures to
tear it down. -/
def lifecycle (ids : NodeIds) (group : GroupLevel) (start : NodeStart)
    (inside : Process ω (Counts × Aggregator)) : Process ω Counts := do
  let goesOn ← Process.report ids (.starting start)
  let counts ← if goesOn then do
      let (counts, cleanup) ← inside
      reportCleanup ids group.level cleanup
      pure counts
    else pure 0
  let _ ← Process.report ids (.finished group (.ofCounts counts))
  pure counts

/-- One item for each key, the first that has it, in the order of the list. -/
def firstSeen (key : α → String) : List α → List α
  | [] => []
  | x :: rest => x :: (firstSeen key rest).filter fun y => key y != key x

/-- The items with a key, in the order of the list. -/
def withKey (key : α → String) (k : String) (items : List α) : List α :=
  items.filter fun x => key x == k

theorem firstSeen_sublist (key : α → String) (items : List α) :
    (firstSeen key items).Sublist items := by
  induction items with
  | nil => exact List.Sublist.slnil
  | cons x rest ih => exact ((List.filter_sublist).trans ih).cons_cons x

/-- No key occurs twice. -/
theorem firstSeen_nodup (key : α → String) (items : List α) :
    ((firstSeen key items).map key).Nodup := by
  induction items with
  | nil => exact List.nodup_nil
  | cons x rest ih =>
    unfold firstSeen
    rw [List.map_cons, List.nodup_cons]
    constructor
    · simp only [List.mem_map, List.mem_filter, bne_iff_ne]
      rintro ⟨y, ⟨_, hne⟩, he⟩
      exact hne he
    · exact ih.sublist ((List.filter_sublist).map key)

end TestEngine
