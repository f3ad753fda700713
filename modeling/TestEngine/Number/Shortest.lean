import TestEngine.Number.Width

/-!
# The shortest decimal that reads back

A binary64 number stands for an interval of real numbers, those that are rounded to it. Of the
decimals in that interval the shortest one is chosen, and of several the one nearest to the number.

Decimals with a given last place form a grid. The coarsest grid that has a point in the interval
gives the fewest digits, and if any point of a grid is in the interval, so is one of the two that
are next to the number.
-/

namespace TestEngine.Binary64

/-- `digits * 10 ^ exponent`. -/
structure Decimal where
  digits : Nat
  exponent : Int
  deriving DecidableEq, Repr

/-- The real numbers that are rounded to a positive number. All bounds are in units of `1 / unit`
after the number was scaled by four; the ends belong to the interval if the mantissa is even. -/
structure Interval where
  low : Nat
  value : Nat
  high : Nat
  unit : Nat
  closed : Bool

/-- The interval of `mantissa * 2 ^ exponent`. Below a power of two the numbers are twice as
dense. -/
def interval (mantissa : Nat) (exponent : Int) : Interval :=
  let below := if mantissa = leastFullMantissa ∧ minExponent < exponent then 1 else 2
  let e := exponent - 2
  let factor := if 0 ≤ e then pow2 e.toNat else 1
  { low := (4 * mantissa - below) * factor
    value := 4 * mantissa * factor
    high := (4 * mantissa + 2) * factor
    unit := if 0 ≤ e then 1 else pow2 (-e).toNat
    closed := mantissa % 2 = 0 }

/-- The interval in units of a grid with step `10 ^ place`. -/
def Interval.onGrid (i : Interval) (place : Int) : Interval :=
  if 0 ≤ place then { i with unit := i.unit * pow10 place.toNat }
  else
    let f := pow10 (-place).toNat
    { i with low := i.low * f, value := i.value * f, high := i.high * f }

/-- The integer `n` lies in the interval. -/
def Interval.contains (i : Interval) (n : Nat) : Bool :=
  if i.closed then i.low ≤ n * i.unit && n * i.unit ≤ i.high
  else i.low < n * i.unit && n * i.unit < i.high

/-- The integer next to the value that lies in the interval: the nearer one of two, and the larger
one if both are equally near. -/
def Interval.nearest? (i : Interval) : Option Nat :=
  let down := i.value / i.unit
  let up := down + 1
  if i.contains up then
    if i.contains down && i.value - down * i.unit < up * i.unit - i.value then some down
    else some up
  else if i.contains down then some down
  else none

/-- The last places to be tried, from the coarsest grid to the finest. -/
def places : List Int := (List.range 660).map fun k : Nat => 310 - (k : Int)

/-- Drops the zeros at the end. -/
def Decimal.trim (digits : Nat) (exponent : Int) : Decimal :=
  if h : digits % 10 = 0 ∧ digits ≠ 0 then Decimal.trim (digits / 10) (exponent + 1)
  else ⟨digits, exponent⟩
termination_by digits
decreasing_by omega

/-- The shortest decimal of a positive number. -/
def shortest (mantissa : Nat) (exponent : Int) : Decimal :=
  let i := interval mantissa exponent
  match places.findSome? fun p => (i.onGrid p).nearest?.map fun n => (n, p) with
  | some (n, p) => Decimal.trim n p
  | none => ⟨0, 0⟩

/-! ## Written forms -/

def zeros (n : Nat) : String := String.ofList (List.replicate n '0')

/-- Without an exponent, and with a point only if there is a fraction. -/
def Decimal.positional (d : Decimal) : String :=
  let ds := toString d.digits
  if 0 ≤ d.exponent then ds ++ zeros d.exponent.toNat
  else
    let places := (-d.exponent).toNat
    if places < ds.length then
      String.ofList (ds.toList.take (ds.length - places)) ++ "." ++
        String.ofList (ds.toList.drop (ds.length - places))
    else "0." ++ zeros (places - ds.length) ++ ds

/-- One digit before the point, and an exponent. -/
def Decimal.scientific (d : Decimal) : String :=
  let ds := toString d.digits
  let rest := ds.toList.drop 1
  String.ofList (ds.toList.take 1) ++ (if rest.isEmpty then "" else "." ++ String.ofList rest) ++
    "e" ++ toString (d.exponent + rest.length)

/-- Adds a fraction of zero to an integer. -/
def withPoint (s : String) : String := if s.toList.contains '.' then s else s ++ ".0"

def sign (negative : Bool) : String := if negative then "-" else ""

/-- The plain form: positional, an integer without a point. -/
def plain : Binary64 → String
  | .nan => "NaN"
  | .infinite negative => sign negative ++ "inf"
  | .finite negative 0 _ => sign negative ++ "0"
  | .finite negative m e => sign negative ++ (shortest m e).positional

/-- The plain form, a finite number with a point. -/
def pointed : Binary64 → String
  | .finite negative m e => withPoint (plain (.finite negative m e))
  | x => plain x

/-- The explicit form: always with a point or an exponent. It is positional from `10 ^ (-4)` up to
`10 ^ 16`. -/
def explicit : Binary64 → String
  | .finite negative (m + 1) e =>
    let d := shortest (m + 1) e
    let magnitude := d.exponent + (toString d.digits).length
    if -3 ≤ magnitude ∧ magnitude ≤ 16 then sign negative ++ withPoint d.positional
    else sign negative ++ d.scientific
  | x => pointed x

end TestEngine.Binary64
