import TestEngine.Failure.Cause
import TestEngine.Number.Width

/-!
# Limits on threads

How many collections may run at the same time. The setting is an integer or a word; zero stands for
the number of processors and a negative integer for no limit.
-/

namespace TestEngine

/-! ## Limits on concurrency -/

/-- How many units of work run at once. -/
inductive ConcurrencyLimit where
  | atMost (n : Nat)
  | unlimited
  deriving DecidableEq, Repr

namespace ConcurrencyLimit

/-- The number, if there is a limit. -/
def max? : ConcurrencyLimit → Option Nat
  | .atMost n => some n
  | .unlimited => none

def text : ConcurrencyLimit → String
  | .atMost n => toString n
  | .unlimited => "unlimited"

/-- One more unit may run beside `running` others. -/
def admits (limit : ConcurrencyLimit) (running : Nat) : Bool :=
  match limit with
  | .atMost n => running < n
  | .unlimited => true

end ConcurrencyLimit

/-! ## Settings -/

/-- The setting of a limit on threads. -/
inductive ThreadLimit where
  /-- As many threads as there are processors. -/
  | processors
  | count (n : Nat) (positive : 0 < n)
  | unlimited
  deriving DecidableEq, Repr

namespace ThreadLimit

instance : Inhabited ThreadLimit := ⟨.processors⟩

/-- The meaning of an integer. -/
def ofInt (n : Int) : ThreadLimit :=
  if h : 0 < n then .count n.toNat (by omega)
  else if n = 0 then .processors
  else .unlimited

/-- The written form. -/
def text : ThreadLimit → String
  | .processors => "num-cpus"
  | .count n _ => toString n
  | .unlimited => "unlimited"

/-- The limit on a machine with a given number of processors. -/
def concurrency (processors : Nat) : ThreadLimit → ConcurrencyLimit
  | .processors => .atMost (max 1 processors)
  | .count n _ => .atMost n
  | .unlimited => .unlimited

/-! ## Reading -/

/-- The value of decimal digits; there has to be one. -/
def digitsValue? (ds : List Char) : Option Nat :=
  if ds.isEmpty || !ds.all Char.isDigit then none
  else some (ds.foldl (fun n d => 10 * n + (d.toNat - '0'.toNat)) 0)

/-- An integer: a sign or none, then digits. -/
def integer? (s : String) : Option Int :=
  match s.toList with
  | '-' :: ds => (digitsValue? ds).map fun n => -(n : Int)
  | '+' :: ds => (digitsValue? ds).map Int.ofNat
  | ds => (digitsValue? ds).map Int.ofNat

/-- An integer of 64 bits. -/
def int64? (s : String) : Option Int := (integer? s).filter fun n => decide (FitsInt64 n)

/-- The limit that a text stands for. -/
def ofText? (s : String) : Option ThreadLimit :=
  if s = "num-cpus" || s = "default" then some .processors
  else if s = "unlimited" then some .unlimited
  else (int64? s).map ofInt

/-- The limit that a text stands for, or the error that reports the text. -/
def parse (s : String) : Except Cause ThreadLimit :=
  match ofText? s with
  | some t => .ok t
  | none => .error (.threadLimit s)

/-! ## Settings of other formats

A format of settings has integers of its own, with a sign or without, so that only words are left
for its texts. A settings file has integers with a sign: `Profile.threads?`. -/

/-- The limit that a text stands for where integers are no texts. -/
def ofWord? : String → Option ThreadLimit
  | "num-cpus" => some .processors
  | "unlimited" => some .unlimited
  | _ => none

/-- The meaning of an integer of 64 bits without a sign. What does not fit into 64 bits with a sign
counts as the largest integer that does. -/
def ofUnsigned (n : Nat) : ThreadLimit :=
  if FitsInt64 n then ofInt n else ofInt 9223372036854775807

end ThreadLimit

end TestEngine
