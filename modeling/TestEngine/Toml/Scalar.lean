import TestEngine.Number.Width
import TestEngine.Text.Character
import TestEngine.Toml.Value

/-!
# Values that are written as one word

Truth values, integers, floating-point numbers and moments. A number may have single underscores
between its digits. An integer has to fit in 64 bits and a floating-point number must not be too
large to be finite; only decimal numbers have a sign.
-/

namespace TestEngine.Toml

/-- The digits of a number without its underscores, each of which has to stand between two
digits. -/
def ungrouped? (isDigit : Char → Bool) : List Char → Option (List Char)
  | [] => none
  | [c] => if isDigit c then some [c] else none
  | c :: '_' :: rest => if isDigit c then (ungrouped? isDigit rest).map (c :: ·) else none
  | c :: rest => if isDigit c then (ungrouped? isDigit rest).map (c :: ·) else none

/-- The value of digits to a base. -/
def valueIn (base : Nat) (ds : List Char) : Nat :=
  ds.foldl (fun n d => base * n + (Hexadecimal.value? d).getD 0) 0

/-- A digit to a base of at most sixteen. -/
def isDigitOf (base : Nat) (c : Char) : Bool :=
  match Hexadecimal.value? c with
  | some d => d < base
  | none => false

/-- An integer, if it fits in 64 bits. -/
def integer? (n : Int) : Option Toml :=
  if FitsInt64 n then some (.integer n) else none

/-- An integer to a base that is named before its digits. -/
def based? (base : Nat) (cs : List Char) : Option Toml := do
  let ds ← ungrouped? (isDigitOf base) cs
  integer? (valueIn base ds)

/-- The digits before the point of a decimal number, which do not begin with a needless zero. -/
def wholeDigits? (cs : List Char) : Option (List Char) := do
  let ds ← ungrouped? Char.isDigit cs
  if ds.head? == some '0' && ds.length > 1 then none else some ds

/-- An exponent, behind its letter: a sign or none, and digits. -/
def exponent? (cs : List Char) : Option Int :=
  match cs with
  | '-' :: rest => (ungrouped? Char.isDigit rest).map fun ds => -(valueIn 10 ds : Int)
  | '+' :: rest => (ungrouped? Char.isDigit rest).map fun ds => (valueIn 10 ds : Int)
  | rest => (ungrouped? Char.isDigit rest).map fun ds => (valueIn 10 ds : Int)

/-- A floating-point number, if it is finite. -/
def float? (negative : Bool) (whole fraction : List Char) (exponent : Int) : Option Toml :=
  match Binary64.ofDecimal negative (valueIn 10 (whole ++ fraction))
      (exponent - fraction.length) with
  | .infinite _ => none
  | x => some (.float x)

/-- Splits a number at the letter of its exponent. -/
def splitExponent (cs : List Char) : List Char × Option (List Char) :=
  match cs.span fun c => c != 'e' && c != 'E' with
  | (front, []) => (front, none)
  | (front, _ :: rest) => (front, some rest)

/-- A decimal number behind its sign: an integer unless it has a point or an exponent. -/
def decimal? (negative : Bool) (cs : List Char) : Option Toml := do
  let (front, power) := splitExponent cs
  match front.span (· != '.'), power with
  | (whole, []), none =>
    let n : Int := valueIn 10 (← wholeDigits? whole)
    integer? (if negative then -n else n)
  | (whole, []), some e => float? negative (← wholeDigits? whole) [] (← exponent? e)
  | (whole, _ :: fraction), e =>
    float? negative (← wholeDigits? whole) (← ungrouped? Char.isDigit fraction)
      (← (e.map exponent?).getD (some 0))

/-- A number behind its sign. -/
def signed? (negative : Bool) (cs : List Char) : Option Toml :=
  match cs with
  | ['i', 'n', 'f'] => some (.float (.infinite negative))
  | ['n', 'a', 'n'] => some (.float .nan)
  | cs => decimal? negative cs

/-- A number. -/
def number? : List Char → Option Toml
  | '0' :: 'x' :: cs => based? 16 cs
  | '0' :: 'o' :: cs => based? 8 cs
  | '0' :: 'b' :: cs => based? 2 cs
  | '+' :: cs => signed? false cs
  | '-' :: cs => signed? true cs
  | cs => signed? false cs

/-- The value that a word spells. -/
def scalar? (word : String) : Option Toml :=
  match word with
  | "true" => some (.boolean true)
  | "false" => some (.boolean false)
  | word => number? word.toList <|> (Moment.ofChars? word.toList).map .moment

end TestEngine.Toml
