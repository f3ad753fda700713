import TestEngine.Time.Timestamp

/-!
# Dates and times in settings

A moment is a day, a time of day, or both, and with both there may be an offset. The seconds of a
time of day may be left out, and of a fraction nine digits count.

`Moment.text` writes a moment in one form: a `T` before the time, a fraction without zeros at its
end, and `Z` only where it was written so.
-/

namespace TestEngine.Toml

open Timestamp (padded)
open Timestamp.Reader

/-- A day of the calendar. -/
structure Day where
  year : Nat
  month : Nat
  day : Nat
  deriving DecidableEq, Repr

/-- A time of day. Only one with seconds has a fraction, which is counted in nanoseconds. -/
structure TimeOfDay where
  hour : Nat
  minute : Nat
  second : Option (Nat × Option Nat)
  deriving DecidableEq, Repr

inductive Offset where
  | zulu
  | minutes (n : Int)
  deriving DecidableEq, Repr

/-- A date, a time, or both. -/
inductive Moment where
  | day (d : Day)
  | time (t : TimeOfDay)
  | dayTime (d : Day) (t : TimeOfDay) (offset : Option Offset)
  deriving DecidableEq, Repr

/-! ## Writing -/

def Day.text (d : Day) : String :=
  padded 4 d.year ++ "-" ++ padded 2 d.month ++ "-" ++ padded 2 d.day

/-- The digits of a fraction of a second; a fraction of zero has one digit. -/
def fractionDigits (nanos : Nat) : String :=
  match ((padded 9 nanos).toList.reverse.dropWhile (· == '0')).reverse with
  | [] => "0"
  | ds => String.ofList ds

def TimeOfDay.text (t : TimeOfDay) : String :=
  padded 2 t.hour ++ ":" ++ padded 2 t.minute ++
    match t.second with
    | none => ""
    | some (s, none) => ":" ++ padded 2 s
    | some (s, some nanos) => ":" ++ padded 2 s ++ "." ++ fractionDigits nanos

def Offset.text : Offset → String
  | .zulu => "Z"
  | .minutes n =>
    (if n < 0 then "-" else "+") ++ padded 2 (n.natAbs / 60) ++ ":" ++ padded 2 (n.natAbs % 60)

/-- The written form. -/
def Moment.text : Moment → String
  | .day d => d.text
  | .time t => t.text
  | .dayTime d t none => d.text ++ "T" ++ t.text
  | .dayTime d t (some o) => d.text ++ "T" ++ t.text ++ o.text

/-! ## Reading -/

namespace Moment

/-- Exactly four digits. -/
def fourDigits : Timestamp.Reader Nat := do
  let high ← twoDigits
  let low ← twoDigits
  pure (100 * high + low)

/-- A day that the calendar has. -/
def readDay : Timestamp.Reader Day := do
  let year ← fourDigits
  let _ ← next (· == '-')
  let month ← twoDigits
  let _ ← next (· == '-')
  let day ← twoDigits
  if 1 ≤ month ∧ month ≤ 12 ∧ 1 ≤ day ∧ day ≤ ClockReading.daysInMonth year month then
    pure ⟨year, month, day⟩
  else fail

/-- A fraction behind its point, if there is one. -/
def readFraction : Timestamp.Reader (Option Nat) := do
  if ← takes (· == '.') then
    let ds ← digits
    if ds.isEmpty then fail
    else pure (some (value ((ds ++ List.replicate 9 '0').take 9)))
  else pure none

/-- A time of day; its second may be a leap second. -/
def readTime : Timestamp.Reader TimeOfDay := do
  let hour ← twoDigits
  let _ ← next (· == ':')
  let minute ← twoDigits
  let second ←
    if ← takes (· == ':') then do
      let second ← twoDigits
      if 60 < second then fail
      let fraction ← readFraction
      pure (some (second, fraction))
    else pure none
  if hour < 24 ∧ minute < 60 then pure ⟨hour, minute, second⟩ else fail

/-- An offset: `Z`, or a sign with hours and minutes. -/
def readOffset : Timestamp.Reader Offset := do
  if ← takes (fun c => c == 'Z' || c == 'z') then pure .zulu
  else
    let sign ← next (fun c => c == '+' || c == '-')
    let hours ← twoDigits
    let _ ← next (· == ':')
    let minutes ← twoDigits
    if hours < 24 ∧ minutes < 60 then
      let n : Int := (60 * hours + minutes : Nat)
      pure (.minutes (if sign == '-' then -n else n))
    else fail

/-- What a reader finds in a whole text. -/
def whole? {α : Type} (reader : Timestamp.Reader α) (cs : List Char) : Option α :=
  match reader.run cs with
  | some (x, []) => some x
  | _ => none

/-- A day and a time. -/
def readDayTime (offset : Timestamp.Reader (Option Offset)) : Timestamp.Reader Moment := do
  let d ← readDay
  let _ ← next (fun c => c == 'T' || c == 't' || c == ' ')
  let t ← readTime
  return .dayTime d t (← offset)

/-- The moment that a text spells. -/
def ofChars? (cs : List Char) : Option Moment :=
  (whole? readDay cs).map .day
    <|> (whole? readTime cs).map .time
    <|> whole? (readDayTime (pure none)) cs
    <|> whole? (readDayTime (some <$> readOffset)) cs

/-- The text has the form of a day, which a time may follow behind a space. -/
def isDayForm (s : String) : Bool :=
  match s.toList with
  | [a, b, c, d, '-', e, f, '-', g, h] => [a, b, c, d, e, f, g, h].all Char.isDigit
  | _ => false

end Moment

end TestEngine.Toml
