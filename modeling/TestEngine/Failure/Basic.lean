import TestEngine.ErrorRecord
import TestEngine.Failure.Cause

/-!
# Failures

What is kept of an error or a panic of user code: a message, a type if there is one, and the
failures behind it. A failure is a tree; reports show it in three ways.

* `Failure.record` lists the tree from the root down, each failure before those inside of it.
* `Failure.display` is its message; for several failures that were combined, each of them follows
  on a line of its own.
* `Failure.detailed` also shows what caused a failure.
-/

namespace TestEngine

/-- What user code panics with. -/
inductive Payload where
  | text (s : String)
  /-- A payload that is not text. -/
  | other
  deriving DecidableEq, Repr

/-- The message of a panic. -/
def Payload.message : Payload → String
  | .text s => s
  | .other => "Box<dyn Any>"

/-- What a failure comes from. -/
inductive Origin where
  /-- An error, whose type may be known. -/
  | error (typeName : Option String)
  | panic
  /-- Several failures combined into one. -/
  | multiple
  deriving DecidableEq, Repr

/-- The type that a failure is reported with. -/
def Origin.typeName : Origin → Option String
  | .error typeName => typeName
  | .panic => some "panic"
  | .multiple => some "multiple failures"

/-- A captured error. `inner` are the failures behind it. -/
inductive Failure where
  | mk (origin : Origin) (message : String) (stackTrace : Option String) (inner : List Failure)
  deriving Repr

namespace Failure

instance : Inhabited Failure := ⟨mk (.error none) "" none []⟩

def origin : Failure → Origin
  | mk o _ _ _ => o

def message : Failure → String
  | mk _ m _ _ => m

def stackTrace : Failure → Option String
  | mk _ _ t _ => t

def inner : Failure → List Failure
  | mk _ _ _ i => i

def typeName (f : Failure) : Option String := f.origin.typeName

/-! ## Making failures -/

/-- A failure with a message and no type. -/
def ofMessage (message : String) : Failure := mk (.error none) message none []

/-- A failure with a message and a type. -/
def typed (typeName message : String) : Failure := mk (.error (some typeName)) message none []

/-- A chain of errors, each behind the one before it. -/
def chain : List String → List Failure
  | [] => []
  | m :: rest => [mk (.error none) m none (chain rest)]

/-- An error of a known type with the messages of the errors behind it. -/
def ofError (typeName message : String) (sources : List String) : Failure :=
  mk (.error (some typeName)) message none (chain sources)

/-- An error of the engine. -/
def ofCause (c : Cause) : Failure := ofError c.typeName c.message c.sources

/-- A panic. -/
def ofPanic (payload : Payload) : Failure := mk .panic payload.message none []

/-- Puts one more failure behind a failure. -/
def withInner (f g : Failure) : Failure := mk f.origin f.message f.stackTrace (f.inner ++ [g])

/-- Combines failures. A single one stays as it is. -/
def combine : List Failure → Failure
  | [f] => f
  | fs => mk .multiple (toString fs.length ++ " failures occurred") none fs

/-! ## The flattened tree -/

mutual

/-- The number of failures in a tree. -/
def size : Failure → Nat
  | mk _ _ _ inner => 1 + sizeAll inner

def sizeAll : List Failure → Nat
  | [] => 0
  | f :: rest => size f + sizeAll rest

end

mutual

/-- Adds a tree to a record, each failure before those inside of it. The root comes below the entry
`parent`. -/
def pushOnto (r : ErrorRecord) (parent : Int32) : Failure → ErrorRecord
  | mk origin message stackTrace inner =>
    let entry := { typeName := origin.typeName, message, stackTrace, parent := parent.toInt }
    pushAllOnto (r.push entry) r.nextIndex inner

/-- Adds trees to a record, all of them below the entry `parent`. -/
def pushAllOnto (r : ErrorRecord) (parent : Int32) : List Failure → ErrorRecord
  | [] => r
  | f :: rest => pushAllOnto (pushOnto r parent f) parent rest

end

/-- The record of a failure. -/
def record (f : Failure) : ErrorRecord := pushOnto {} (-1) f

/-! ## Text -/

mutual

/-- The message. Below several failures each of them has a line, numbered from one. -/
def display : Failure → String
  | mk origin message _ inner =>
    if origin = .multiple then message ++ String.join (displayAll 1 inner) else message

/-- The lines of several failures, the first of which has the given number. -/
def displayAll (number : Nat) : List Failure → List String
  | [] => []
  | f :: rest =>
    ("\n  " ++ toString number ++ ". " ++ display f) :: displayAll (number + 1) rest

end

mutual

/-- The message and what caused the failure. Several failures are shown as `display` does. -/
def detailed : Failure → String
  | mk origin message _ inner =>
    if origin = .multiple then message ++ String.join (displayAll 1 inner)
    else message ++ String.join (detailedAll inner)

def detailedAll : List Failure → List String
  | [] => []
  | f :: rest => ("\n  caused by: " ++ detailed f) :: detailedAll rest

end

end Failure

/-! ## Outcomes -/

/-- How a piece of user code ends. -/
inductive Outcome (α : Type) where
  | returned (value : α)
  | failed (error : Failure)
  | panicked (payload : Payload)

namespace Outcome

/-- The value or the failure. -/
def toExcept {α : Type} : Outcome α → Except Failure α
  | .returned a => .ok a
  | .failed e => .error e
  | .panicked p => .error (Failure.ofPanic p)

/-- Applies a function to the value. -/
def map {α β : Type} (f : α → β) : Outcome α → Outcome β
  | .returned a => .returned (f a)
  | .failed e => .failed e
  | .panicked p => .panicked p

end Outcome

end TestEngine
