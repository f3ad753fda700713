import TestEngine.Json.Value
import TestEngine.Keyed
import TestEngine.Text.Character

/-!
# Reading JSON

Reading is two machines, each driven by one fold over its input, so that both end by themselves.

* The *lexer* takes one character at a time and collects tokens. Where it stands is a `Lexer.Place`:
  between tokens, in a string, in an escape, in a word.
* The *builder* takes one token at a time. It keeps the containers that are open, innermost first,
  and what may come next.

Later fields of an object replace earlier ones of the same name.
-/

namespace TestEngine.Json

/-! ## Tokens -/

inductive Token where
  | openArray
  | closeArray
  | openObject
  | closeObject
  | comma
  | colon
  | text (s : String)
  | value (v : Json)
  deriving Inhabited

namespace Lexer

/-- Where the lexer stands. What was read of the token at hand is kept in reverse. -/
inductive Place where
  | between
  /-- In a string. `high` is a high surrogate that waits for its other half. -/
  | string (read : List Char) (high : Option Nat)
  /-- Behind a backslash. -/
  | escape (read : List Char) (high : Option Nat)
  /-- In a `\u` escape: the digits to come and the value of those read. -/
  | unicode (read : List Char) (high : Option Nat) (left : Nat) (value : Nat)
  /-- In a number or a word such as `null`. -/
  | word (read : List Char)

/-- The tokens read so far, last first. -/
structure State where
  place : Place
  tokens : List Token

/-- The character for a surrogate half that stands alone. -/
def replacement : Char := '\uFFFD'

/-- Writes out a high surrogate that no low one followed. -/
def flush (read : List Char) : Option Nat → List Char
  | some _ => replacement :: read
  | none => read

/-- What was read after a whole `\u` escape of value `n`. -/
def endUnicode (read : List Char) (high : Option Nat) (n : Nat) : Place :=
  if 0xD800 ≤ n ∧ n < 0xDC00 then .string (flush read high) (some n)
  else if 0xDC00 ≤ n ∧ n < 0xE000 then
    match high with
    | some h => .string (Char.ofNat (0x10000 + (h - 0xD800) * 0x400 + (n - 0xDC00)) :: read) none
    | none => .string (replacement :: read) none
  else .string (Char.ofNat n :: flush read high) none

def escaped : Char → Option Char
  | '"' => some '"'
  | '\\' => some '\\'
  | '/' => some '/'
  | 'b' => some (Char.ofNat 8)
  | 'f' => some (Char.ofNat 12)
  | 'n' => some '\n'
  | 'r' => some '\r'
  | 't' => some '\t'
  | _ => none

/-! ## Words and numbers -/

/-- Splits off the leading digits. -/
def digits (cs : List Char) : List Char × List Char := cs.span Char.isDigit

/-- `cs` is empty or an exponent: `e` or `E`, a sign or none, and digits. -/
def isExponent : List Char → Bool
  | [] => true
  | e :: rest =>
    (e == 'e' || e == 'E') &&
      let ds := match rest with
        | '+' :: r => r
        | '-' :: r => r
        | r => r
      !ds.isEmpty && ds.all Char.isDigit

/-- The value of a decimal number's digits. -/
def decimal (ds : List Char) : Nat := ds.foldl (fun n d => 10 * n + (d.toNat - '0'.toNat)) 0

/-- A number: no leading zeros, an integer unless there is a fraction or an exponent. -/
def number? (word : List Char) : Option Json :=
  let negative := word.head? == some '-'
  let (whole, rest) := digits (if negative then word.drop 1 else word)
  if whole.isEmpty || (whole.head? == some '0' && whole.length > 1) then none
  else
    match rest with
    | [] =>
      let n : Int := decimal whole
      some (.int (if negative then -n else n))
    | '.' :: r =>
      let (fraction, exponent) := digits r
      if fraction.isEmpty || !isExponent exponent then none
      else some (.real (String.ofList word))
    | r => if isExponent r then some (.real (String.ofList word)) else none

def word? (read : List Char) : Option Json :=
  match String.ofList read with
  | "null" => some .null
  | "true" => some (.bool true)
  | "false" => some (.bool false)
  | _ => number? read

/-! ## The lexer -/

def isBlank (c : Char) : Bool := c == ' ' || c == '\n' || c == '\r' || c == '\t'

/-- A character between tokens. -/
def stepBetween (tokens : List Token) (c : Char) : Option State :=
  if isBlank c then some ⟨.between, tokens⟩
  else match c with
  | '[' => some ⟨.between, .openArray :: tokens⟩
  | ']' => some ⟨.between, .closeArray :: tokens⟩
  | '\x7b' => some ⟨.between, .openObject :: tokens⟩
  | '\x7d' => some ⟨.between, .closeObject :: tokens⟩
  | ',' => some ⟨.between, .comma :: tokens⟩
  | ':' => some ⟨.between, .colon :: tokens⟩
  | '"' => some ⟨.string [] none, tokens⟩
  | c => if c.isAlphanum || c == '-' then some ⟨.word [c], tokens⟩ else none

def isWordChar (c : Char) : Bool := c.isAlphanum || c == '-' || c == '+' || c == '.'

/-- One character. -/
def step (st : State) (c : Char) : Option State :=
  match st.place with
  | .between => stepBetween st.tokens c
  | .string read high =>
    if c = '"' then some ⟨.between, .text (String.ofList (flush read high).reverse) :: st.tokens⟩
    else if c = '\\' then some ⟨.escape read high, st.tokens⟩
    else if c.toNat < 0x20 then none
    else some ⟨.string (c :: flush read high) none, st.tokens⟩
  | .escape read high =>
    if c = 'u' then some ⟨.unicode read high 4 0, st.tokens⟩
    else (escaped c).map fun e => ⟨.string (e :: flush read high) none, st.tokens⟩
  | .unicode read high left value =>
    (Hexadecimal.value? c).map fun d =>
      if left ≤ 1 then ⟨endUnicode read high (16 * value + d), st.tokens⟩
      else ⟨.unicode read high (left - 1) (16 * value + d), st.tokens⟩
  | .word read =>
    if isWordChar c then some ⟨.word (c :: read), st.tokens⟩
    else match word? read.reverse with
      | some v => stepBetween (.value v :: st.tokens) c
      | none => none

/-- The tokens of a text. -/
def tokens? (s : String) : Option (List Token) :=
  match s.toList.foldlM step ⟨.between, []⟩ with
  | some ⟨.between, tokens⟩ => some tokens.reverse
  | some ⟨.word read, tokens⟩ => (word? read.reverse).map fun v => (.value v :: tokens).reverse
  | _ => none

end Lexer

/-! ## The builder -/

namespace Builder

/-- A container that is still open. Items are kept in reverse. -/
inductive Open where
  | array (items : List Json)
  | object (fields : List (String × Json)) (key : String)

/-- What may come next. -/
inductive Next where
  | value
  /-- A value or, right after an opening bracket, the closing one. -/
  | firstItem
  | key
  /-- A key or, right after an opening brace, the closing one. -/
  | firstKey
  | colon
  /-- A comma or the closing bracket of the innermost container. -/
  | separator
  | done (value : Json)

structure State where
  stack : List Open
  next : Next

/-- Puts a whole value where it belongs. -/
def place (v : Json) : List Open → State
  | [] => ⟨[], .done v⟩
  | .array items :: rest => ⟨.array (v :: items) :: rest, .separator⟩
  | .object fields key :: rest => ⟨.object (Keyed.put key v fields) key :: rest, .separator⟩

/-- One token. -/
def step (st : State) (t : Token) : Option State :=
  match st.next, t, st.stack with
  | .value, .value v, stack | .firstItem, .value v, stack => some (place v stack)
  | .value, .text s, stack | .firstItem, .text s, stack => some (place (.str s) stack)
  | .value, .openArray, stack | .firstItem, .openArray, stack =>
    some ⟨.array [] :: stack, .firstItem⟩
  | .value, .openObject, stack | .firstItem, .openObject, stack =>
    some ⟨.object [] "" :: stack, .firstKey⟩
  | .firstItem, .closeArray, .array items :: rest
  | .separator, .closeArray, .array items :: rest => some (place (.array items.reverse) rest)
  | .firstKey, .closeObject, .object fields _ :: rest
  | .separator, .closeObject, .object fields _ :: rest => some (place (.object fields) rest)
  | .key, .text s, .object fields _ :: rest | .firstKey, .text s, .object fields _ :: rest =>
    some ⟨.object fields s :: rest, .colon⟩
  | .colon, .colon, stack => some ⟨stack, .value⟩
  | .separator, .comma, .array items :: rest => some ⟨.array items :: rest, .value⟩
  | .separator, .comma, .object fields key :: rest => some ⟨.object fields key :: rest, .key⟩
  | _, _, _ => none

/-- The value that a list of tokens spells. -/
def value? (tokens : List Token) : Option Json :=
  match tokens.foldlM step ⟨[], .value⟩ with
  | some ⟨_, .done v⟩ => some v
  | _ => none

end Builder

/-- The value that a text spells. -/
def parse? (s : String) : Option Json := Lexer.tokens? s >>= Builder.value?

end TestEngine.Json
