import TestEngine.Number.Shortest
import TestEngine.Text.Quoted

/-!
# Arguments of tests

A test may take arguments: data of a few types. An argument is shown in the names and in the unique
IDs of tests; it shows as its data does, unless it was given a text to show.
-/

namespace TestEngine

/-- What an argument holds. -/
inductive Datum where
  | int (n : Int)
  | text (s : String)
  | bool (b : Bool)
  | character (c : Char)
  | float (x : Binary64)
  | ints (ns : List Int)
  | texts (ss : List String)
  | optionalInt (n : Option Int)
  | unit
  | pair (n : Int) (s : String)
  deriving DecidableEq, Repr

namespace Datum

/-- Items between brackets, with a comma between them. -/
def bracketed (items : List String) : String := "[" ++ ", ".intercalate items ++ "]"

/-- How data shows. -/
def display : Datum → String
  | int n => toString n
  | text s => Quoted.text s
  | bool b => toString b
  | character c => Quoted.character c
  | float x => x.explicit
  | ints ns => bracketed (ns.map toString)
  | texts ss => bracketed (ss.map Quoted.text)
  | optionalInt none => "None"
  | optionalInt (some n) => "Some(" ++ toString n ++ ")"
  | unit => "()"
  | pair n s => "(" ++ toString n ++ ", " ++ Quoted.text s ++ ")"

end Datum

/-- An argument: what it holds, and how it shows. -/
structure TestArgument where
  datum : Datum
  display : String
  deriving DecidableEq, Repr

namespace TestArgument

/-- An argument that shows as its data does. -/
def of (d : Datum) : TestArgument := ⟨d, d.display⟩

/-- The integer of an argument. -/
def int? (a : TestArgument) : Option Int :=
  match a.datum with
  | .int n => some n
  | _ => none

/-- The text of an argument. -/
def text? (a : TestArgument) : Option String :=
  match a.datum with
  | .text s => some s
  | _ => none

/-- What an argument is, in words. -/
def describe (a : TestArgument) : String := "TestArgument(" ++ Quoted.text a.display ++ ")"

end TestArgument

/-- A name with the arguments of a call. -/
def callText (name : String) (arguments : List TestArgument) : String :=
  name ++ "(" ++ ", ".intercalate (arguments.map (·.display)) ++ ")"

end TestEngine
