import TestEngine.Digest.XxHash64
import TestEngine.Failure.Basic
import TestEngine.Keyed
import TestEngine.Program.Process

/-!
# Orders

Collections and cases run in an order that an orderer chooses. Orderers are user code, known by
name; an orderer is made by a factory and answers a list that should be a permutation of what it was
given.

Whatever goes wrong, `Orderers.order` answers a permutation: if there is no such orderer, if it
fails or if it answers something else, a diagnostic message says so and the default order is used.
That order depends on nothing but the unique IDs: it is by a hash of the ID, and by the ID itself
where hashes agree.
-/

namespace TestEngine

variable {ω α : Type}

/-! ## The default order -/

/-- The hash of a unique ID. -/
def idHash (id : String) : UInt64 := XxHash64.hash 0 id.toUTF8.toList

/-- What the default order compares. -/
structure OrderKey where
  hash : UInt64
  id : String
  deriving DecidableEq

namespace OrderKey

def of (id : String) : OrderKey := ⟨idHash id, id⟩

/-- By hash, then by ID. -/
def le (a b : OrderKey) : Bool := a.hash < b.hash || (a.hash == b.hash && decide (a.id ≤ b.id))

end OrderKey

/-- The items in the default order. Items with the same ID stay as they were. -/
def defaultOrder (idOf : α → String) (items : List α) : List α :=
  ((items.map fun x => (OrderKey.of (idOf x), x)).mergeSort fun a b => a.1.le b.1).map (·.2)

theorem defaultOrder_perm (idOf : α → String) (items : List α) :
    (defaultOrder idOf items).Perm items := by
  unfold defaultOrder
  refine (List.Perm.map _ (List.mergeSort_perm _ _)).trans ?_
  rw [List.map_map]
  exact List.Perm.of_eq (List.map_id _)

/-! ## Orderers -/

/-- An orderer: code that answers a permutation of a list, if all is well. -/
abbrev Orderer (ω α : Type) := List α → SetupCode ω (List α)

/-- Code that makes an orderer. It can send diagnostic messages about a node. -/
abbrev OrdererFactory (ω α : Type) := NodeIds → SetupCode ω (Orderer ω α)

/-- Orderers of one kind of item, by name and in the order in which they were registered. -/
structure Orderers (ω α : Type) where
  kind : OrdererKind
  idOf : α → String
  factories : List (String × OrdererFactory ω α) := []

namespace Orderers

/-- The name of the order that is used unless another one is asked for. -/
def defaultName : String := "default"

/-- The same orderers for items that are told apart by `idOf`. -/
def tellBy (idOf : α → String) (os : Orderers ω α) : Orderers ω α := { os with idOf }

/-- Registers a factory, in place of the one with the same name or behind all others. -/
def register (os : Orderers ω α) (name : String) (factory : OrdererFactory ω α) : Orderers ω α :=
  { os with factories := Keyed.put name factory os.factories }

/-- A factory for an orderer that needs no code. -/
def pureFactory (order : List α → List α) : OrdererFactory ω α :=
  fun _ => pure fun items => pure (order items)

/-- The orderers that are always there. `shuffle` is the permutation that chance chooses. -/
def builtin (kind : OrdererKind) (idOf : α → String) (shuffle : List α → List α) :
    Orderers ω α where
  kind := kind
  idOf := idOf
  factories := [(defaultName, pureFactory (defaultOrder idOf)), ("declaration", pureFactory id),
    ("random", pureFactory shuffle)]

/-- The IDs of two lists are the same up to their order. -/
def samePermutation (os : Orderers ω α) (items ordered : List α) : Bool :=
  (ordered.map os.idOf).isPerm (items.map os.idOf)

/-- Uses the default order, and says why. -/
def fallBack (os : Orderers ω α) (ids : NodeIds) (items : List α) (reason : String) :
    Process ω (List α) :=
  let text := reason ++ "; falling back to the default " ++ os.kind.words ++ " orderer"
  .queue ⟨ids, .diagnostic text⟩ fun _ => .done (defaultOrder os.idOf items)

/-- The answer of the orderer with a name, or why there is none. -/
def tryOrder (os : Orderers ω α) (name : String) (ids : NodeIds) (items : List α) :
    Process ω (Except String (List α)) :=
  match os.factories.lookup name with
  | none =>
    pure (.error (OrdererError.unknown os.kind name (os.factories.map (·.1))).message)
  | some factory => do
    match (← (factory ids).run).toExcept with
    | .error f =>
      pure (.error ("failed to create " ++ os.kind.words ++ " orderer `" ++ name ++ "`: "
        ++ f.display))
    | .ok orderer => do
      match (← (orderer items).run).toExcept with
      | .error f =>
        pure (.error (os.kind.words ++ " orderer `" ++ name ++ "` failed: " ++ f.display))
      | .ok ordered =>
        if os.samePermutation items ordered then pure (.ok ordered)
        else
          pure (.error
            (OrdererError.notPermutation os.kind name items.length ordered.length).message)

/-- The items in the order of the orderer with a name, on behalf of a node. -/
def order (os : Orderers ω α) (name : Option String) (ids : NodeIds) (items : List α) :
    Process ω (List α) := do
  match ← os.tryOrder (name.getD defaultName) ids items with
  | .ok ordered => pure ordered
  | .error reason => os.fallBack ids items reason

end Orderers

end TestEngine
