import TestEngine.Proofs.Summary.Combinations

/-!
# What is left of an accumulator

Adding a summary in place fails if the times are too long. The accumulator then has its old time,
but the counts of the summary are in it already, whereas adding out of place leaves it as it was. So
whoever catches the panic and goes on with the accumulator counts tests whose summary was refused.

* `Summary.absorb`, `Summary.keep` — going on after failures, in place and out of place.
* `Summary.absorb_eq` — they differ in the counts of what was refused, and in nothing else.
* `Summary.leftAsItWas_iff` — an accumulator is left as it was if and only if what it refuses has no
  counts.
* `Summary.accumulate_full_ne` — an accumulator with the longest time, and a test that failed.
-/

namespace TestEngine

theorem Counts.add_eq_self_iff {c d : Counts} : c + d = c ↔ d = 0 := by
  constructor
  · intro h
    obtain ⟨htotal, hfailed, hskipped⟩ := Counts.ext_iff.mp h
    simp only [Counts.total_add, Counts.failed_add, Counts.skipped_add] at htotal hfailed hskipped
    ext <;> simp only [Counts.total_zero, Counts.failed_zero, Counts.skipped_zero] <;> omega
  · rintro rfl
    exact Counts.add_zero c

namespace Summary

/-- Adds summaries to an accumulator in place, going on after each that is refused. -/
def absorb (a : Summary) (items : List Summary) : Summary :=
  items.foldl (fun acc s => (acc.accumulate s).1) a

/-- Adds summaries to an accumulator out of place, leaving out each that is refused. -/
def keep (a : Summary) (items : List Summary) : Summary :=
  items.foldl (fun acc s => (acc.add? s).getD acc) a

/-- The summaries that are refused when they are added one after another. -/
def refused (a : Summary) : List Summary → List Summary
  | [] => []
  | s :: rest =>
    (a.add? s).elim (s :: refused a rest) fun sum => refused sum rest

/-! ## One step -/

theorem add?_eq_none_of_accumulate {a s : Summary} (h : (a.accumulate s).2 = false) :
    a.add? s = none := by
  cases hadd : a.add? s with
  | none => rfl
  | some sum =>
    rw [accumulate_eq_of_add? hadd] at h
    cases h

theorem eq_iff {a b : Summary} : a = b ↔ a.toCounts = b.toCounts ∧ a.time = b.time := by
  rw [Summary.ext_iff, Counts.ext_iff, and_assoc, and_assoc]

/-- A summary that is refused leaves its counts behind. -/
theorem accumulate_eq_self_iff {a s : Summary} (h : a.add? s = none) :
    (a.accumulate s).1 = a ↔ s.toCounts = 0 := by
  rw [accumulate_eq_of_add?_eq_none h, eq_iff, and_iff_left rfl, Counts.add_eq_self_iff]

/-! ## Going on -/

theorem absorb_cons (a s : Summary) (rest : List Summary) :
    a.absorb (s :: rest) = (a.accumulate s).1.absorb rest := List.foldl_cons ..

theorem keep_cons (a s : Summary) (rest : List Summary) :
    a.keep (s :: rest) = ((a.add? s).getD a).keep rest := List.foldl_cons ..

/-- Accumulators of one time stay so, and their counts go apart by what is refused. -/
theorem absorb_eq_of_time_eq {a b : Summary} {d : Counts} (htime : a.time = b.time)
    (hcounts : a.toCounts = b.toCounts + d) (items : List Summary) :
    (a.absorb items).time = (b.keep items).time ∧
      (a.absorb items).toCounts = (b.keep items).toCounts + (d + countsOf (b.refused items)) := by
  induction items generalizing a b d with
  | nil =>
    rw [refused, countsOf_nil, Counts.add_zero]
    exact ⟨htime, hcounts⟩
  | cons s rest ih =>
    cases hb : b.add? s with
    | none =>
      have ha : a.add? s = none := by
        rw [add?, Option.map_eq_none_iff] at hb ⊢
        rwa [htime]
      have hnext : (a.accumulate s).1.toCounts = b.toCounts + (d + s.toCounts) := by
        rw [accumulate_eq_of_add?_eq_none ha, hcounts, Counts.add_assoc]
      have hold : (a.accumulate s).1.time = b.time := by
        rw [accumulate_eq_of_add?_eq_none ha]
        exact htime
      obtain ⟨hrest, hrest'⟩ := ih hold hnext
      rw [absorb_cons, keep_cons, refused, hb, Option.getD_none, Option.elim_none, countsOf_cons,
        ← Counts.add_assoc d]
      exact ⟨hrest, hrest'⟩
    | some sum =>
      obtain ⟨time, hsum, rfl⟩ := Option.map_eq_some_iff.mp hb
      have ha : a.add? s = some { toCounts := a.toCounts + s.toCounts, time } := by
        rw [add?, htime, hsum, Option.map_some]
      have hnext : a.toCounts + s.toCounts = b.toCounts + s.toCounts + d := by
        rw [hcounts, Counts.add_assoc, Counts.add_assoc, Counts.add_comm d]
      rw [absorb_cons, keep_cons, refused, accumulate_eq_of_add? ha, hb, Option.getD_some,
        Option.elim_some]
      exact ih rfl hnext

/-- Going on in place has the time of going on out of place, and the counts of what was refused
besides. -/
theorem absorb_eq (a : Summary) (items : List Summary) :
    (a.absorb items).time = (a.keep items).time ∧
      (a.absorb items).toCounts = (a.keep items).toCounts + countsOf (a.refused items) := by
  have h := absorb_eq_of_time_eq (a := a) rfl (Counts.add_zero _).symm items
  rwa [Counts.zero_add] at h

theorem countsOf_eq_zero_iff {items : List Summary} :
    countsOf items = 0 ↔ ∀ s ∈ items, s.toCounts = 0 := by
  induction items with
  | nil => exact ⟨fun _ => nofun, fun _ => rfl⟩
  | cons s rest ih =>
    rw [countsOf_cons, List.forall_mem_cons, ← ih]
    constructor
    · intro h
      obtain ⟨htotal, hfailed, hskipped⟩ := Counts.ext_iff.mp h
      simp only [Counts.total_add, Counts.failed_add, Counts.skipped_add, Counts.total_zero,
        Counts.failed_zero, Counts.skipped_zero, Nat.add_eq_zero_iff] at htotal hfailed hskipped
      exact ⟨Counts.ext htotal.1 hfailed.1 hskipped.1, Counts.ext htotal.2 hfailed.2 hskipped.2⟩
    · rintro ⟨h, h'⟩
      rw [h, h', Counts.zero_add]

/-- **Where an addition in place fails, the accumulator is left as it was if and only if the summary
has no counts**; an addition out of place fails there too, and leaves it in any case. **An
accumulator that is used on after failures has the counts of all that it refused besides.** The sums
of counts are those of numbers without limit: they are what a machine with counters of 64 bits has
as long as no counter reaches `2 ^ 64`. -/
theorem leftAsItWas_iff (a : Summary) :
    (∀ s : Summary, (a.accumulate s).2 = false →
      a.add? s = none ∧ (a.accumulate s).1.time = a.time ∧
        (a.accumulate s).1.toCounts = a.toCounts + s.toCounts ∧
        ((a.accumulate s).1 = a ↔ s.toCounts = 0)) ∧
      ∀ items : List Summary, a.absorb items = a.keep items ↔
        ∀ s ∈ a.refused items, s.toCounts = 0 := by
  refine ⟨fun s h => ?_, fun items => ?_⟩
  · have hadd := add?_eq_none_of_accumulate h
    have haccumulate := accumulate_eq_of_add?_eq_none hadd
    exact ⟨hadd, by rw [haccumulate], by rw [haccumulate], accumulate_eq_self_iff hadd⟩
  · obtain ⟨htime, hcounts⟩ := absorb_eq a items
    rw [eq_iff, and_iff_left htime, hcounts, Counts.add_eq_self_iff, countsOf_eq_zero_iff]

/-! ## The longest time -/

/-- An accumulator with the longest time that there is. -/
def full : Summary where
  total := 3
  failed := 1
  skipped := 1
  time := { Duration.zero with seconds := 18446744073709551615, seconds_lt := by decide }

/-- A test that failed after a second. -/
def late : Summary where
  total := 1
  failed := 1
  time := { Duration.zero with seconds := 1, seconds_lt := by decide }

theorem leftAsItWas_iff_full :
    (full.accumulate late).2 = false ∧
      (full.accumulate late).1.toCounts = full.toCounts + late.toCounts ∧
      full.absorb [late] ≠ full.keep [late] := by
  have hfails : (full.accumulate late).2 = false := by decide
  obtain ⟨hstep, hrun⟩ := leftAsItWas_iff full
  have hrefused : full.refused [late] = [late] := by
    rw [refused, (hstep late hfails).1, Option.elim_none, refused]
  refine ⟨hfails, (hstep late hfails).2.2.1, fun heq => ?_⟩
  have hcounts := (hrun [late]).mp heq late (by rw [hrefused]; exact List.mem_cons_self)
  cases hcounts

/-- **A failing addition in place changes the accumulator**, and one out of place does not. -/
theorem accumulate_full_ne :
    (full.accumulate late).2 = false ∧ full.add? late = none ∧ (full.accumulate late).1 ≠ full := by
  decide

end Summary

end TestEngine
