/-!
# Error records

A message carries a tree of errors flattened into four parallel lists: entry `i` of each list
describes one error, and its parent is the entry with the index given there, or none for the root,
whose parent index is -1.

A record that comes from elsewhere may have lists of different lengths; its length is the number of
its messages.
-/

namespace TestEngine

/-- A flattened tree of errors. -/
structure ErrorRecord where
  types : List (Option String) := []
  messages : List String := []
  stackTraces : List (Option String) := []
  parents : List Int := []
  deriving DecidableEq, Repr, Inhabited

/-- One entry of a record. -/
structure ErrorEntry where
  typeName : Option String
  message : String
  stackTrace : Option String
  parent : Int
  deriving DecidableEq, Repr

namespace ErrorRecord

/-- The number of errors. -/
def length (r : ErrorRecord) : Nat := r.messages.length

/-- The message of the root. -/
def rootMessage? (r : ErrorRecord) : Option String := r.messages.head?

/-- The type of the root. -/
def rootType? (r : ErrorRecord) : Option String := r.types.head?.join

/-- The index that an error at the end will have. Indices have 32 bits, so it is the length only as
far as that fits. -/
def nextIndex (r : ErrorRecord) : Int32 := .ofNat r.length

/-- Adds an error at the end. -/
def push (r : ErrorRecord) (e : ErrorEntry) : ErrorRecord where
  types := r.types ++ [e.typeName]
  messages := r.messages ++ [e.message]
  stackTraces := r.stackTraces ++ [e.stackTrace]
  parents := r.parents ++ [e.parent]

/-- The record of a list of errors. -/
def ofEntries (entries : List ErrorEntry) : ErrorRecord where
  types := entries.map (·.typeName)
  messages := entries.map (·.message)
  stackTraces := entries.map (·.stackTrace)
  parents := entries.map (·.parent)

theorem toInt_nextIndex {r : ErrorRecord} (h : r.length < 2147483648) :
    r.nextIndex.toInt = r.length := Int32.toInt_ofNat_of_lt h

theorem length_ofEntries (entries : List ErrorEntry) :
    (ofEntries entries).length = entries.length := by
  simp [length, ofEntries]

theorem push_ofEntries (entries : List ErrorEntry) (e : ErrorEntry) :
    (ofEntries entries).push e = ofEntries (entries ++ [e]) := by
  simp [push, ofEntries]

end ErrorRecord

end TestEngine
