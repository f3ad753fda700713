/-!
# JSON values

The values that messages are written as. A number is either an integer or a *real*, a number that
is written with a fraction or an exponent: the two are different values here, since a counter may
be written `3` but not `3.0`.

The fields of an object are kept as a list. `Json.object` builds one field by field and drops the
fields that have no value, which is how optional fields are left out of a message.
-/

namespace TestEngine

/-- A JSON value. -/
inductive Json where
  | null
  | bool (value : Bool)
  | int (value : Int)
  /-- A number with a fraction or an exponent, as it was written. -/
  | real (literal : String)
  | str (text : String)
  | array (items : List Json)
  | object (fields : List (String × Json))
  deriving Inhabited, Repr

namespace Json

/-! ## Looking into a value -/

/-- The value of the field `name` of an object. -/
def field? (name : String) : Json → Option Json
  | .object fields => fields.lookup name
  | _ => none

/-- The text of a string. -/
def text? : Json → Option String
  | .str s => some s
  | _ => none

/-- The value of an integer. -/
def int? : Json → Option Int
  | .int n => some n
  | _ => none

/-- The value of a truth value. -/
def bool? : Json → Option Bool
  | .bool b => some b
  | _ => none

/-- The items of an array. -/
def items? : Json → Option (List Json)
  | .array xs => some xs
  | _ => none

/-- The fields of an object. -/
def fields? : Json → Option (List (String × Json))
  | .object fs => some fs
  | _ => none

/-! ## Building values -/

/-- The text, or `null` without one. -/
def ofText? : Option String → Json
  | some s => .str s
  | none => .null

/-- The integer of a count. -/
def ofNat (n : Nat) : Json := .int n

/-- An array of texts. -/
def ofTexts (texts : List String) : Json := .array (texts.map .str)

/-- The field `name` if there is a value for it, else nothing. -/
def fieldIf (name : String) : Option Json → List (String × Json)
  | some v => [(name, v)]
  | none => []

end Json

end TestEngine
