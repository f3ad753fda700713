/-!
# Numbers of a fixed width

The ranges of the integers that settings, messages and durations are made of, and binary
floating-point numbers.

The latter are the numbers of the IEEE 754 format binary64, each as a sign, a mantissa and an
exponent of two, so that everything about them is arithmetic on integers. A decimal number is
rounded to the nearest of them, to the even one of two that are equally near.
-/

namespace TestEngine

/-! ## Integers -/

/-- An integer of 64 bits with a sign. -/
def FitsInt64 (n : Int) : Prop := -9223372036854775808 ≤ n ∧ n ≤ 9223372036854775807

instance (n : Int) : Decidable (FitsInt64 n) := by
  unfold FitsInt64
  infer_instance

/-- An integer of 32 bits with a sign. -/
def FitsInt32 (n : Int) : Prop := -2147483648 ≤ n ∧ n ≤ 2147483647

instance (n : Int) : Decidable (FitsInt32 n) := by
  unfold FitsInt32
  infer_instance

/-! ## Binary floating-point numbers -/

/-- A binary64 number. A finite one is `mantissa * 2 ^ exponent`; its mantissa has 53 bits unless
the exponent is the least one, -1074. -/
inductive Binary64 where
  | nan
  | infinite (negative : Bool)
  | finite (negative : Bool) (mantissa : Nat) (exponent : Int)
  deriving DecidableEq, Repr

namespace Binary64

/-- The exponent of the smallest numbers. -/
def minExponent : Int := -1074

/-- The exponent of the largest numbers. -/
def maxExponent : Int := 971

/-- A mantissa of 53 bits is below this bound, which is a power of two. -/
def mantissaBound : Nat := 9007199254740992

/-- The least mantissa of 53 bits. -/
def leastFullMantissa : Nat := 4503599627370496

/-- A power of two. -/
def pow2 (k : Nat) : Nat := Nat.pow 2 k

/-- A power of ten. -/
def pow10 (k : Nat) : Nat := Nat.pow 10 k

/-- `numerator / denominator` as an integer, the nearest one and of two the even one. -/
def roundDiv (numerator denominator : Nat) : Nat :=
  let q := numerator / denominator
  let r := numerator % denominator
  if 2 * r < denominator then q
  else if denominator < 2 * r then q + 1
  else if q % 2 = 0 then q
  else q + 1

/-- `n * 2 ^ k` over `d * 2 ^ l` as a fraction, where `e = k - l`. -/
def scale (n d : Nat) (e : Int) : Nat × Nat :=
  if 0 ≤ e then (n * pow2 e.toNat, d) else (n, d * pow2 (-e).toNat)

/-- The number nearest to a positive fraction. -/
def ofFraction (negative : Bool) (n d : Nat) : Binary64 :=
  let guess : Int := Nat.log2 n - Nat.log2 d - 53
  let (gn, gd) := scale n d (-guess)
  let exponent := max minExponent (if gn / gd < mantissaBound then guess else guess + 1)
  let (sn, sd) := scale n d (-exponent)
  let m := roundDiv sn sd
  let (m, exponent) :=
    if m = mantissaBound then (leastFullMantissa, exponent + 1) else (m, exponent)
  if maxExponent < exponent then .infinite negative else .finite negative m exponent

/-- The number nearest to `digits * 10 ^ exponent`. Beyond the ends of the range, which are about
`10 ^ 308` and `10 ^ (-324)`, nothing needs to be computed. -/
def ofDecimal (negative : Bool) (digits : Nat) (exponent : Int) : Binary64 :=
  let magnitude : Int := (toString digits).length + exponent
  if digits = 0 ∨ magnitude < -330 then .finite negative 0 minExponent
  else if 310 < magnitude then .infinite negative
  else if 0 ≤ exponent then ofFraction negative (digits * pow10 exponent.toNat) 1
  else ofFraction negative digits (pow10 (-exponent).toNat)

/-- The number is zero, of either sign. -/
def isZero : Binary64 → Bool
  | .finite _ m _ => m = 0
  | _ => false

/-! ## Reading -/

/-- The value of decimal digits. -/
def digitsValue (ds : List Char) : Nat :=
  ds.foldl (fun n d => 10 * n + (d.toNat - '0'.toNat)) 0

/-- The exponent of a number: nothing, or a letter, a sign or none, and digits. -/
def exponentOf? : List Char → Option Int
  | [] => some 0
  | e :: rest =>
    if e = 'e' || e = 'E' then
      let (negative, ds) := match rest with
        | '-' :: r => (true, r)
        | '+' :: r => (false, r)
        | r => (false, r)
      if ds.isEmpty || !ds.all Char.isDigit then none
      else
        let n : Int := digitsValue ds
        some (if negative then -n else n)
    else none

/-- A number without its sign: a word, or digits with a point among them or none, and an
exponent. -/
def unsigned? (negative : Bool) (cs : List Char) : Option Binary64 :=
  let word := String.ofList (cs.map Char.toLower)
  if word = "nan" then some .nan
  else if word = "inf" || word = "infinity" then some (.infinite negative)
  else
    let (whole, rest) := cs.span Char.isDigit
    let (fraction, rest) := match rest with
      | '.' :: r => r.span Char.isDigit
      | r => ([], r)
    if whole.isEmpty && fraction.isEmpty then none
    else
      (exponentOf? rest).map fun e =>
        ofDecimal negative (digitsValue (whole ++ fraction)) (e - fraction.length)

/-- The number that a text spells. -/
def ofText? (s : String) : Option Binary64 :=
  match s.toList with
  | '-' :: cs => unsigned? true cs
  | '+' :: cs => unsigned? false cs
  | cs => unsigned? false cs

end Binary64

end TestEngine
