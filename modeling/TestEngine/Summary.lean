import TestEngine.Time.Duration

/-!
# Summaries

How many tests of a node ran, failed and were skipped, and how long they took.

* Counts add up without limit and form a commutative monoid. A machine counts in 64 bits, so this is
  what happens there as long as no count goes beyond that.
* Durations have a limit, so the sum of two summaries may not exist; `Summary.add?` answers nothing
  then, and `Summary.accumulate` says what is left of an accumulator.
-/

namespace TestEngine

/-! ## Counts -/

/-- Counts of tests. -/
@[ext]
structure Counts where
  total : Nat := 0
  failed : Nat := 0
  skipped : Nat := 0
  deriving DecidableEq, Repr, Inhabited

namespace Counts

instance : Zero Counts := ⟨{}⟩

instance : Add Counts :=
  ⟨fun a b => ⟨a.total + b.total, a.failed + b.failed, a.skipped + b.skipped⟩⟩

@[simp] theorem total_zero : (0 : Counts).total = 0 := rfl
@[simp] theorem failed_zero : (0 : Counts).failed = 0 := rfl
@[simp] theorem skipped_zero : (0 : Counts).skipped = 0 := rfl
@[simp] theorem total_add (a b : Counts) : (a + b).total = a.total + b.total := rfl
@[simp] theorem failed_add (a b : Counts) : (a + b).failed = a.failed + b.failed := rfl
@[simp] theorem skipped_add (a b : Counts) : (a + b).skipped = a.skipped + b.skipped := rfl

theorem add_assoc (a b c : Counts) : a + b + c = a + (b + c) := by
  ext <;> simp [Nat.add_assoc]

theorem add_comm (a b : Counts) : a + b = b + a := by
  ext <;> simp [Nat.add_comm]

theorem zero_add (a : Counts) : 0 + a = a := by
  ext <;> simp

theorem add_zero (a : Counts) : a + 0 = a := by
  ext <;> simp

/-- One test that passed. -/
def passed : Counts := { total := 1 }

/-- One test that failed. -/
def failure : Counts := { total := 1, failed := 1 }

/-- One test that was skipped. -/
def skip : Counts := { total := 1, skipped := 1 }

/-- How many tests passed: those that neither failed nor were skipped. -/
def passedCount (c : Counts) : Nat := c.total - (c.failed + c.skipped)

/-- No test failed. -/
def success (c : Counts) : Bool := c.failed == 0

/-- The exit code of a run: 100 if a test failed, 4 if there was no test, else 0. -/
def exitCode (c : Counts) : Nat :=
  if 0 < c.failed then 100 else if c.total = 0 then 4 else 0

end Counts

/-! ## Summaries -/

/-- Counts of tests and the time they took. -/
@[ext]
structure Summary extends Counts where
  time : Duration := Duration.zero
  deriving DecidableEq, Repr, Inhabited

namespace Summary

/-- The summary of counts that took no time. -/
def ofCounts (c : Counts) : Summary := { toCounts := c }

/-- The summary of no test. -/
def empty : Summary := ofCounts 0

/-- The sum of two summaries, unless the times are too long. -/
def add? (a b : Summary) : Option Summary :=
  (a.time.add? b.time).map fun time => { toCounts := a.toCounts + b.toCounts, time }

/-- Adds a summary to an accumulator in place: the accumulator afterwards, and whether the times
could be added. The counts are added first, so an accumulator whose time is too long keeps its old
time beside the new counts. -/
def accumulate (a b : Summary) : Summary × Bool :=
  let time := a.time.add? b.time
  ({ toCounts := a.toCounts + b.toCounts, time := time.getD a.time }, time.isSome)

/-- The sum of a list of summaries, from the first to the last. -/
def sum? (summaries : List Summary) : Option Summary :=
  summaries.foldlM add? empty

/-- What is reported when the times of two summaries are too long to be added. -/
def overflowMessage : String := "overflow when adding durations"

/-- Where the sum exists, accumulating gives it. -/
theorem accumulate_eq_of_add? {a b c : Summary} (h : a.add? b = some c) :
    a.accumulate b = (c, true) := by
  obtain ⟨time, htime, rfl⟩ := Option.map_eq_some_iff.mp h
  simp only [accumulate, htime, Option.getD_some, Option.isSome_some]

/-- Where it does not, the time is the old one. -/
theorem accumulate_eq_of_add?_eq_none {a b : Summary} (h : a.add? b = none) :
    a.accumulate b = ({ toCounts := a.toCounts + b.toCounts, time := a.time }, false) := by
  have htime := Option.map_eq_none_iff.mp h
  simp only [accumulate, htime, Option.getD_none, Option.isSome_none]

end Summary

end TestEngine
