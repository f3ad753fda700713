import TestEngine.Text.Character

/-!
# Points in time

A point in time is a date, a time of day and the offset of the clock that showed them, as in
RFC 3339: `2024-01-02T03:04:05.500+02:00`.

Writing has one form: an offset of zero is `Z`, and a fraction of a second has three, six or nine
digits, whichever is the least that is exact. Reading is lenient: blanks may stand between the
parts, leading zeros may be left out except in the offset, and a fraction may have any number of
digits, of which nine count.
-/

namespace TestEngine

/-- A date, a time of day and an offset in minutes, in any range. -/
structure ClockReading where
  year : Int
  month : Nat
  day : Nat
  hour : Nat
  minute : Nat
  second : Nat
  nanos : Nat
  offset : Int
  deriving DecidableEq, Repr

namespace ClockReading

/-! ## The calendar -/

/-- Years divisible by four are leap years, but of the full centuries only every fourth. -/
def isLeapYear (year : Int) : Bool :=
  year % 4 == 0 && (year % 100 != 0 || year % 400 == 0)

/-- The number of days of a month. -/
def daysInMonth (year : Int) (month : Nat) : Nat :=
  if month = 2 then (if isLeapYear year then 29 else 28)
  else if month = 4 || month = 6 || month = 9 || month = 11 then 30
  else 31

/-- The minute of the day that a clock without an offset shows at the same time. It is below zero on
the day before and above 1439 on the day after. -/
def universalMinute (c : ClockReading) : Int := 60 * c.hour + c.minute - c.offset

/-- A date of the calendar, a time of day, which may be a leap second, and an offset below a day. A
clock without an offset shows a date of the calendar as well. -/
def Valid (c : ClockReading) : Prop :=
  (-262143 ≤ c.year ∧ c.year ≤ 262142) ∧ (1 ≤ c.month ∧ c.month ≤ 12) ∧
    (1 ≤ c.day ∧ c.day ≤ daysInMonth c.year c.month) ∧
    c.hour < 24 ∧ c.minute < 60 ∧ c.second ≤ 60 ∧ c.nanos < 1000000000 ∧
    (-1440 < c.offset ∧ c.offset < 1440) ∧
    (c.year = -262143 ∧ c.month = 1 ∧ c.day = 1 → 0 ≤ c.universalMinute) ∧
    (c.year = 262142 ∧ c.month = 12 ∧ c.day = 31 → c.universalMinute < 1440)

instance (c : ClockReading) : Decidable c.Valid := by
  unfold Valid
  infer_instance

end ClockReading

/-- A point in time. -/
structure Timestamp extends ClockReading where
  valid : toClockReading.Valid
  deriving DecidableEq, Repr

namespace Timestamp

/-- The first instant of the year 1970, by a clock without an offset. -/
def epoch : Timestamp where
  year := 1970
  month := 1
  day := 1
  hour := 0
  minute := 0
  second := 0
  nanos := 0
  offset := 0
  valid := by decide

instance : Inhabited Timestamp := ⟨epoch⟩

/-! ## Writing -/

/-- A number with at least `width` digits. -/
def padded (width n : Nat) : String :=
  let digits := toString n
  String.ofList (List.replicate (width - digits.length) '0') ++ digits

/-- A year of four digits, or one with a sign outside of that range. -/
def yearText (year : Int) : String :=
  if 0 ≤ year ∧ year ≤ 9999 then padded 4 year.toNat
  else (if year < 0 then "-" else "+") ++ padded 4 year.natAbs

/-- A fraction of a second. -/
def fractionText (nanos : Nat) : String :=
  if nanos = 0 then ""
  else if nanos % 1000000 = 0 then "." ++ padded 3 (nanos / 1000000)
  else if nanos % 1000 = 0 then "." ++ padded 6 (nanos / 1000)
  else "." ++ padded 9 nanos

def offsetText (offset : Int) : String :=
  if offset = 0 then "Z"
  else
    (if offset < 0 then "-" else "+") ++ padded 2 (offset.natAbs / 60) ++ ":" ++
      padded 2 (offset.natAbs % 60)

/-- The written form. -/
def text (t : Timestamp) : String :=
  yearText t.year ++ "-" ++ padded 2 t.month ++ "-" ++ padded 2 t.day ++ "T" ++
    padded 2 t.hour ++ ":" ++ padded 2 t.minute ++ ":" ++ padded 2 t.second ++
    fractionText t.nanos ++ offsetText t.offset

/-! ## Reading

A reader takes what it needs from the front of the text and answers it with the rest. -/

abbrev Reader (α : Type) := StateT (List Char) Option α

namespace Reader

def fail {α : Type} : Reader α := fun _ => none

/-- Drops leading blanks. -/
def skipBlanks : Reader Unit := modify (·.dropWhile isBlank)

/-- The next character, if it satisfies a test. -/
def next (test : Char → Bool) : Reader Char := fun cs =>
  match cs with
  | c :: rest => if test c then some (c, rest) else none
  | [] => none

/-- Whether a given character follows; if so, it is taken. -/
def takes (test : Char → Bool) : Reader Bool := fun cs =>
  match cs with
  | c :: rest => if test c then some (true, rest) else some (false, cs)
  | [] => some (false, [])

def value (digits : List Char) : Nat :=
  digits.foldl (fun n d => 10 * n + (d.toNat - '0'.toNat)) 0

/-- Takes the digits in front. -/
def digits : Reader (List Char) := fun cs => some (cs.span Char.isDigit)

/-- A number of one digit to `most` digits, behind any blanks. -/
def number (most : Nat) : Reader Nat := do
  skipBlanks
  fun cs =>
    let ds := (cs.take most).takeWhile Char.isDigit
    if ds.isEmpty then none else some (value ds, cs.drop ds.length)

/-- A year: up to four digits, or a sign and any number of digits. -/
def year : Reader Int := do
  skipBlanks
  let signed : Reader Nat := do
    let ds ← digits
    if ds.isEmpty then fail else pure (value ds)
  if ← takes (· == '-') then return -(← signed : Nat)
  else if ← takes (· == '+') then return (← signed : Nat)
  else return (← number 4 : Nat)

/-- A separator, behind any blanks. -/
def separator (c : Char) : Reader Unit := do
  skipBlanks
  let _ ← next (· == c)

/-- A fraction of a second, if there is one: nine digits count, what follows them is dropped. -/
def fraction : Reader Nat := do
  if ← takes (· == '.') then
    let ds ← digits
    if ds.isEmpty then fail
    else pure (value ((ds.take 9) ++ List.replicate (9 - (ds.take 9).length) '0'))
  else pure 0

/-- Two digits. -/
def twoDigits : Reader Nat := do
  let a ← next Char.isDigit
  let b ← next Char.isDigit
  pure (value [a, b])

/-- The letters UTC, in any case, if they follow. -/
def takesUtc : Reader Bool := fun cs =>
  if (cs.take 3).map Char.toUpper == ['U', 'T', 'C'] then some (true, cs.drop 3)
  else some (false, cs)

/-- An offset in minutes: UTC, Z, or a sign with hours and minutes. -/
def offset : Reader Int := do
  skipBlanks
  if ← takesUtc then pure 0
  else if ← takes (fun c => c == 'Z' || c == 'z') then pure 0
  else
    let sign ← next (fun c => c == '+' || c == '-' || c == '\u2212')
    let hours ← twoDigits
    modify (·.dropWhile fun c => c == ':' || isBlank c)
    let minutes ← twoDigits
    if 60 ≤ minutes then fail
    else
      let n : Int := (60 * hours + minutes : Nat)
      pure (if sign == '+' then n else -n)

/-- A whole clock reading. -/
def clock : Reader ClockReading := do
  let year ← year
  separator '-'
  let month ← number 2
  separator '-'
  let day ← number 2
  let _ ← next (fun c => c == 'T' || c == 't' || c == ' ')
  let hour ← number 2
  separator ':'
  let minute ← number 2
  separator ':'
  let second ← number 2
  let nanos ← fraction
  let offset ← offset
  skipBlanks
  pure { year, month, day, hour, minute, second, nanos, offset }

end Reader

/-- The point in time that a text spells. -/
def ofText? (s : String) : Option Timestamp :=
  match Reader.clock.run s.toList with
  | some (c, []) => if h : c.Valid then some { toClockReading := c, valid := h } else none
  | _ => none

end Timestamp

end TestEngine
