/-!
# Durations

A span of time in whole seconds and nanoseconds. The seconds fit into 64 bits, so a sum may be too
large; `Duration.add?` answers nothing then.

* `totalNanos_injective` — a duration is determined by its length.
* `ofNanos?_eq_some_iff` — there is a duration of every length that is in range.
-/

namespace TestEngine

/-- A span of time. -/
@[ext]
structure Duration where
  seconds : Nat
  nanos : Nat
  seconds_lt : seconds < 18446744073709551616 := by decide
  nanos_lt : nanos < 1000000000 := by decide
  deriving DecidableEq, Repr

namespace Duration

/-- No time at all. -/
def zero : Duration := { seconds := 0, nanos := 0 }

instance : Inhabited Duration := ⟨zero⟩

/-- The length in nanoseconds. -/
def totalNanos (d : Duration) : Nat := d.seconds * 1000000000 + d.nanos

/-- The duration of a length in nanoseconds, if it is in range. -/
def ofNanos? (n : Nat) : Option Duration :=
  if h : n / 1000000000 < 18446744073709551616 then
    some { seconds := n / 1000000000, nanos := n % 1000000000, seconds_lt := h,
           nanos_lt := Nat.mod_lt _ (by decide) }
  else none

/-- The duration of some seconds and any number of nanoseconds, if it is in range. -/
def ofParts? (seconds nanos : Nat) : Option Duration := ofNanos? (seconds * 1000000000 + nanos)

/-- The sum of two durations, if it is in range. -/
def add? (d e : Duration) : Option Duration := ofNanos? (d.totalNanos + e.totalNanos)

/-! ## Lengths -/

theorem totalNanos_injective {d e : Duration} (h : d.totalNanos = e.totalNanos) : d = e := by
  have hd := d.nanos_lt
  have he := e.nanos_lt
  unfold totalNanos at h
  ext <;> omega

theorem totalNanos_lt (d : Duration) : d.totalNanos < 18446744073709551616 * 1000000000 := by
  have hs := d.seconds_lt
  have hn := d.nanos_lt
  unfold totalNanos
  omega

theorem totalNanos_ofNanos? {n : Nat} {d : Duration} (h : ofNanos? n = some d) :
    d.totalNanos = n := by
  unfold ofNanos? at h
  split at h
  · cases h
    unfold totalNanos
    dsimp only
    omega
  · cases h

theorem ofNanos?_eq_some_iff {n : Nat} {d : Duration} :
    ofNanos? n = some d ↔ d.totalNanos = n := by
  constructor
  · exact totalNanos_ofNanos?
  · rintro rfl
    have hlt : d.totalNanos / 1000000000 < 18446744073709551616 :=
      Nat.div_lt_of_lt_mul (by have := d.totalNanos_lt; omega)
    have hsome : ∃ e, ofNanos? d.totalNanos = some e := by
      unfold ofNanos?
      rw [dif_pos hlt]
      exact ⟨_, rfl⟩
    obtain ⟨e, he⟩ := hsome
    rw [he, totalNanos_injective (totalNanos_ofNanos? he)]

theorem ofNanos?_eq_none_iff {n : Nat} :
    ofNanos? n = none ↔ 18446744073709551616 * 1000000000 ≤ n := by
  unfold ofNanos?
  split
  · rename_i h
    simp only [reduceCtorEq, false_iff]
    omega
  · rename_i h
    simp only [true_iff]
    omega

end Duration

end TestEngine
