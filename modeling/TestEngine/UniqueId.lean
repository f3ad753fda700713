import TestEngine.Digest.Sha256
import TestEngine.Text.Character

/-!
# Unique IDs

Every node of a test tree has a unique ID that depends on nothing but the node's path: the SHA-256
digest, in hexadecimal, of the bytes that spell out the path.

The spelling is unambiguous. A text is written with its length in front, a missing text differs
from an empty one, a list is written with the number of its items, and the kind of node comes
first; so two paths are spelled by the same bytes only if they are the same path.
-/

namespace TestEngine

/-- What a unique ID is computed from: the kind of a node, the ID of its parent and what tells it
from its siblings. -/
inductive NodePath where
  | assembly (name : String) (path configFile : Option String)
  | collection (parent displayName : String) (definition : Option String)
  | testClass (parent name : String)
  | method (parent name : String)
  /-- A case is told from its siblings by its generic bindings and the texts of its arguments. -/
  | testCase (parent : String) (bindings arguments : List String)
  | test (parent : String) (index : Nat)
  deriving DecidableEq, Repr

namespace NodePath

/-! ## The bytes of a path -/

/-- A length as eight bytes, the least significant one first. -/
def lengthBytes (n : Nat) : List UInt8 :=
  [0, 8, 16, 24, 32, 40, 48, 56].map fun k => UInt8.ofNat (n >>> k)

theorem length_lengthBytes (n : Nat) : (lengthBytes n).length = 8 := by simp [lengthBytes]

/-- A text: a marker, its length in bytes, its bytes. -/
def textBytes (s : String) : List UInt8 :=
  1 :: lengthBytes s.utf8ByteSize ++ s.toUTF8.toList

/-- A text that may be missing: without one, a marker of its own. -/
def optionalBytes : Option String → List UInt8
  | some s => textBytes s
  | none => [0]

/-- A list of texts: their number, then each of them. -/
def listBytes (texts : List String) : List UInt8 :=
  lengthBytes texts.length ++ texts.flatMap textBytes

/-- The bytes that spell out a path. -/
def bytes : NodePath → List UInt8
  | .assembly name path configFile =>
    textBytes "assembly" ++ textBytes name ++ optionalBytes path ++ optionalBytes configFile
  | .collection parent displayName definition =>
    textBytes "collection" ++ textBytes parent ++ textBytes displayName
      ++ optionalBytes definition
  | .testClass parent name => textBytes "class" ++ textBytes parent ++ textBytes name
  | .method parent name => textBytes "method" ++ textBytes parent ++ textBytes name
  | .testCase parent bindings arguments =>
    textBytes "test-case" ++ textBytes parent ++ listBytes bindings ++ listBytes arguments
  | .test parent index => textBytes "test" ++ textBytes parent ++ textBytes (toString index)

/-! ## The ID -/

/-- The unique ID of the node that a path leads to. -/
def uniqueId (p : NodePath) : String := Hexadecimal.ofBytes (Sha256.digest p.bytes)

end NodePath

end TestEngine
