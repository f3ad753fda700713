import TestEngine.Text.Character
import TestEngine.Time.Duration

/-!
# Durations as text

A duration is written as its parts that are not zero, the largest unit first: `2h 37m`,
`1year 2months`. A year is 365.25 days and a month a twelfth of that, rounded: 30.44 days.

Reading accepts more than what is written. A text is a sequence of *spans*, each a number with an
optional fraction and the name of a unit, and blanks may stand between and inside of them. Reading
is one fold over the characters; where it stands is a `Place`.
-/

namespace TestEngine.Duration

/-! ## Writing -/

/-- A part of a duration: nothing if its number is zero. -/
def part (number : Nat) (unit : String) : List String :=
  if number = 0 then [] else [toString number ++ unit]

/-- A part whose unit takes an `s` unless there is just one. -/
def partPlural (number : Nat) (unit : String) : List String :=
  part number (if number = 1 then unit else unit ++ "s")

/-- The parts of a duration that are not zero. -/
def parts (d : Duration) : List String :=
  let inYear := d.seconds % 31557600
  let inMonth := inYear % 2630016
  let inDay := inMonth % 86400
  partPlural (d.seconds / 31557600) "year" ++ partPlural (inYear / 2630016) "month" ++
    partPlural (inMonth / 86400) "day" ++ part (inDay / 3600) "h" ++
    part (inDay % 3600 / 60) "m" ++ part (inDay % 60) "s" ++
    part (d.nanos / 1000000) "ms" ++ part (d.nanos / 1000 % 1000) "us" ++ part (d.nanos % 1000) "ns"

/-- A duration as text. -/
def text (d : Duration) : String :=
  match d.parts with
  | [] => "0s"
  | ps => " ".intercalate ps

/-! ## Units -/

/-- A unit of time: so many seconds or, if it is finer, so many nanoseconds. -/
inductive TimeUnit where
  | nanos (each : Nat)
  | seconds (each : Nat)
  /-- A minute counts as seconds, but its fractions as nanoseconds. -/
  | minute
  deriving DecidableEq, Repr

/-- The names of the units. -/
def unitNames : List (List String × TimeUnit) := [
  (["nanos", "nsec", "ns"], .nanos 1),
  (["usec", "us", "µs"], .nanos 1000),
  (["millis", "msec", "ms"], .nanos 1000000),
  (["seconds", "second", "secs", "sec", "s"], .seconds 1),
  (["minutes", "minute", "min", "mins", "m"], .minute),
  (["hours", "hour", "hr", "hrs", "h"], .seconds 3600),
  (["days", "day", "d"], .seconds 86400),
  (["weeks", "week", "wk", "wks", "w"], .seconds 604800),
  (["months", "month", "M"], .seconds 2630016),
  (["years", "year", "yr", "yrs", "y"], .seconds 31557600)]

/-- The unit of a name. -/
def unit? (name : String) : Option TimeUnit :=
  (unitNames.find? fun entry => entry.1.contains name).map (·.2)

/-! ## Reading -/

/-- A number of 64 bits. -/
def word? (n : Nat) : Option Nat := if n < 18446744073709551616 then some n else none

/-- A fraction `numerator / denominator`, the denominator a power of ten. -/
structure Fraction where
  numerator : Nat
  denominator : Nat

/-- A number that is read, with the fraction behind it if there is one. -/
structure Amount where
  whole : Nat
  fraction : Option Fraction

/-- `n * k / d`, if the product has 64 bits and the quotient is exact. -/
def scaled? (n k d : Nat) : Option Nat := do
  let p ← word? (n * k)
  if p % d = 0 then some (p / d) else none

/-- Adds seconds and nanoseconds, both of 64 bits. -/
def extend? (d : Duration) (seconds nanos : Nat) : Option Duration := do
  let nanos ← word? (d.nanos + nanos)
  ofParts? (d.seconds + seconds) nanos

/-- Adds the whole units of an amount. -/
def addWhole? (d : Duration) (n : Nat) : TimeUnit → Option Duration
  | .nanos each => do d.extend? 0 (← word? (n * each))
  | .seconds each => do d.extend? (← word? (n * each)) 0
  | .minute => do d.extend? (← word? (n * 60)) 0

/-- Adds the fraction of an amount. A nanosecond has none. -/
def addFraction? (d : Duration) (f : Fraction) : TimeUnit → Option Duration
  | .nanos each =>
    if each = 1 then none
    else do d.extend? 0 (← scaled? f.numerator each f.denominator)
  | .seconds each =>
    if each = 1 then do d.extend? 0 (← scaled? f.numerator 1000000000 f.denominator)
    else do d.extend? (← scaled? f.numerator each f.denominator) 0
  | .minute => do d.extend? 0 (← scaled? f.numerator (60 * 1000000000) f.denominator)

/-- Adds a span: an amount of the unit with a name. -/
def addSpan? (d : Duration) (a : Amount) (name : List Char) : Option Duration := do
  let unit ← unit? (String.ofList name)
  let d ← d.addWhole? a.whole unit
  match a.fraction with
  | some f => d.addFraction? f unit
  | none => some d

/-- Where reading stands. -/
inductive Place where
  /-- Before a span; `any` tells whether there was one before. -/
  | between (any : Bool)
  | number (n : Nat)
  | fraction (n : Nat) (f : Fraction)
  /-- In the name of a unit, which is kept in reverse. -/
  | unit (a : Amount) (name : List Char)

/-- The value of a digit. -/
def digit? (c : Char) : Option Nat := if c.isDigit then some (c.toNat - '0'.toNat) else none

/-- A letter of a unit. -/
def isLetter (c : Char) : Bool := c.isAlpha || c == 'µ'

/-- One character. -/
def readChar (st : Duration × Place) (c : Char) : Option (Duration × Place) :=
  let (d, place) := st
  match place with
  | .between any =>
    match digit? c with
    | some k => some (d, .number k)
    | none => if isBlank c then some (d, .between any) else none
  | .number n =>
    match digit? c with
    | some k => (word? (10 * n + k)).map fun n => (d, .number n)
    | none =>
      if isBlank c then some (d, .number n)
      else if isLetter c then some (d, .unit ⟨n, none⟩ [c])
      else if c = '.' then some (d, .fraction n ⟨0, 1⟩)
      else none
  | .fraction n f =>
    match digit? c with
    | some k => do
      let numerator ← word? (10 * f.numerator + k)
      let denominator ← word? (10 * f.denominator)
      some (d, .fraction n ⟨numerator, denominator⟩)
    | none =>
      if isBlank c then some (d, .fraction n f)
      else if isLetter c && f.denominator != 1 then some (d, .unit ⟨n, some f⟩ [c])
      else none
  | .unit a name =>
    match digit? c with
    | some k => (d.addSpan? a name.reverse).map fun d => (d, .number k)
    | none =>
      if isBlank c then (d.addSpan? a name.reverse).map fun d => (d, .between true)
      else if isLetter c then some (d, .unit a (c :: name))
      else none

/-- The duration that a text spells. -/
def ofText? (s : String) : Option Duration :=
  if s = "0" then some zero
  else
    match s.toList.foldlM readChar (zero, .between false) with
    | some (d, .between true) => some d
    | some (d, .unit a name) => d.addSpan? a name.reverse
    | _ => none

end TestEngine.Duration
