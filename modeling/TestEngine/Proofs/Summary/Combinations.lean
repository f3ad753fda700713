import Mathlib.Algebra.GroupWithZero.Nat
import TestEngine.Failure.Basic
import TestEngine.Summary

/-!
# Adding summaries up

Summaries are added two at a time, and times have a limit. Whoever adds up many of them, be it in
the order in which the parts of a run end, relies on that the order and the grouping make no
difference. They make none to whether the sum exists either: the sum of some items is never longer
than that of all, so an addition fails somewhere exactly if the whole is too long.

* `Combination.value?`, `Combination.outcome` — what a way of adding summaries up comes to.
* `Combination.value?_eq_total?` — it comes to the sum of its items, if there is one.
* `Combination.addsUp` — all ways of adding the same items up end alike.
-/

namespace TestEngine

namespace Summary

/-! ## Exact sums -/

/-- The exact length of all times. -/
def nanosOf (items : List Summary) : Nat := (items.map (·.time.totalNanos)).sum

/-- The sum of all counts. -/
def countsOf (items : List Summary) : Counts where
  total := (items.map (·.total)).sum
  failed := (items.map (·.failed)).sum
  skipped := (items.map (·.skipped)).sum

/-- A summary is the sum of others, part by part. -/
structure IsTotalOf (s : Summary) (items : List Summary) : Prop where
  total : s.total = (items.map (·.total)).sum
  failed : s.failed = (items.map (·.failed)).sum
  skipped : s.skipped = (items.map (·.skipped)).sum
  nanos_lt : s.time.nanos < 1000000000
  time : s.time.totalNanos = (items.map (·.time.totalNanos)).sum

/-- The sum of summaries, unless the times are too long. -/
def total? (items : List Summary) : Option Summary :=
  (Duration.ofNanos? (nanosOf items)).map fun time => { toCounts := countsOf items, time }

theorem nanosOf_append (xs ys : List Summary) : nanosOf (xs ++ ys) = nanosOf xs + nanosOf ys := by
  unfold nanosOf
  rw [List.map_append, List.sum_append]

theorem countsOf_nil : countsOf [] = 0 := rfl

theorem countsOf_append (xs ys : List Summary) :
    countsOf (xs ++ ys) = countsOf xs + countsOf ys := by
  ext <;> simp [countsOf]

theorem countsOf_cons (s : Summary) (items : List Summary) :
    countsOf (s :: items) = s.toCounts + countsOf items := by
  ext <;> simp [countsOf]

theorem total?_eq_none_iff {items : List Summary} :
    total? items = none ↔ 18446744073709551616 * 1000000000 ≤ nanosOf items := by
  rw [total?, Option.map_eq_none_iff, Duration.ofNanos?_eq_none_iff]

theorem isTotalOf_of_total? {items : List Summary} {s : Summary} (h : total? items = some s) :
    s.IsTotalOf items := by
  obtain ⟨time, htime, rfl⟩ := Option.map_eq_some_iff.mp h
  exact ⟨rfl, rfl, rfl, time.nanos_lt, Duration.totalNanos_ofNanos? htime⟩

theorem total?_eq_some_iff {items : List Summary} {s : Summary} :
    total? items = some s ↔ s.IsTotalOf items := by
  refine ⟨isTotalOf_of_total?, fun h => ?_⟩
  have htime : Duration.ofNanos? (nanosOf items) = some s.time :=
    Duration.ofNanos?_eq_some_iff.mpr h.time
  have hcounts : countsOf items = s.toCounts :=
    Counts.ext h.total.symm h.failed.symm h.skipped.symm
  rw [total?, htime, hcounts]
  rfl

theorem total?_nil : total? [] = some empty :=
  total?_eq_some_iff.mpr ⟨rfl, rfl, rfl, Duration.zero.nanos_lt, rfl⟩

theorem total?_singleton (s : Summary) : total? [s] = some s :=
  total?_eq_some_iff.mpr
    ⟨by simp, by simp, by simp, s.time.nanos_lt, by simp⟩

/-- Summaries in two lists are added up list by list. -/
theorem total?_append (xs ys : List Summary) :
    total? (xs ++ ys) = (total? xs).bind fun s => (total? ys).bind s.add? := by
  have hnanos := nanosOf_append xs ys
  cases hx : total? xs with
  | none =>
    rw [total?_eq_none_iff] at hx
    exact total?_eq_none_iff.mpr (by omega)
  | some s =>
    cases hy : total? ys with
    | none =>
      rw [total?_eq_none_iff] at hy
      exact total?_eq_none_iff.mpr (by omega)
    | some t =>
      obtain ⟨time, htime, rfl⟩ := Option.map_eq_some_iff.mp hx
      obtain ⟨time', htime', rfl⟩ := Option.map_eq_some_iff.mp hy
      rw [total?, hnanos, countsOf_append, ← Duration.totalNanos_ofNanos? htime,
        ← Duration.totalNanos_ofNanos? htime', Option.bind_some, Option.bind_some, add?,
        Duration.add?]

theorem total?_append_of_none {xs : List Summary} (h : total? xs = none) (ys : List Summary) :
    total? (xs ++ ys) = none := by
  rw [total?_append, h, Option.bind_none]

/-- Some of the items can be added up before the others. -/
theorem total?_append_of_some {xs : List Summary} {s : Summary} (h : total? xs = some s)
    (ys : List Summary) : total? (xs ++ ys) = total? (s :: ys) := by
  rw [← List.singleton_append, total?_append, total?_append, h, total?_singleton]

theorem total?_eq_of_perm {xs ys : List Summary} (h : xs.Perm ys) : total? xs = total? ys := by
  have hnanos : nanosOf xs = nanosOf ys := (h.map _).sum_nat
  have hcounts : countsOf xs = countsOf ys :=
    Counts.ext (h.map _).sum_nat (h.map _).sum_nat (h.map _).sum_nat
  rw [total?, total?, hnanos, hcounts]

end Summary

/-! ## Ways of adding up -/

/-- A way of adding summaries up, from the empty summary on. -/
inductive Combination where
  | empty
  | item (s : Summary)
  | plus (a b : Combination)
  /-- The second one is added in place to an accumulator that holds the first one. -/
  | into (accumulator added : Combination)
  /-- The parts are added to the empty summary one after another. -/
  | sum (parts : List Combination)

namespace Combination

open Summary (total?)

mutual

/-- What a way of adding up comes to, unless some times on the way are too long to be added. -/
def value? : Combination → Option Summary
  | empty => some .empty
  | item s => some s
  | plus a b => a.value?.bind fun s => b.value?.bind s.add?
  | into accumulator added =>
    accumulator.value?.bind fun s => added.value?.bind fun t =>
      match s.accumulate t with
      | (result, true) => some result
      | (_, false) => none
  | sum parts => (values? parts).bind Summary.sum?

def values? : List Combination → Option (List Summary)
  | [] => some []
  | c :: rest => c.value?.bind fun s => (values? rest).bind fun ss => some (s :: ss)

end

mutual

/-- The summaries that are added up. -/
def items : Combination → List Summary
  | empty => []
  | item s => [s]
  | plus a b => a.items ++ b.items
  | into accumulator added => accumulator.items ++ added.items
  | sum parts => itemsAll parts

def itemsAll : List Combination → List Summary
  | [] => []
  | c :: rest => c.items ++ itemsAll rest

end

/-- In place the sum is the same as out of place. -/
theorem value?_into (a b : Combination) : (into a b).value? = (plus a b).value? := by
  unfold value?
  congr 1
  funext s
  congr 1
  funext t
  cases h : s.add? t with
  | none => rw [Summary.accumulate_eq_of_add?_eq_none h]
  | some result => rw [Summary.accumulate_eq_of_add? h]

/-- The first item is added before the others, whether or not these come to anything. -/
theorem bind_foldlM_cons {α β : Type} (f : β → α → Option β) (b : β) (a : α)
    (rest : Option (List α)) :
    (rest.bind fun as => some (a :: as)).bind (List.foldlM f b) =
      (f b a).bind fun b' => rest.bind (List.foldlM f b') := by
  cases rest with
  | none => cases f b a <;> rfl
  | some as => exact List.foldlM_cons

mutual

/-- **Summaries come to their sum, in whatever way they are added up**, and to nothing if it is too
long. -/
theorem value?_eq_total? : ∀ c : Combination, c.value? = total? c.items
  | empty => by rw [value?, items, Summary.total?_nil]
  | item s => by rw [value?, items, Summary.total?_singleton]
  | plus a b => by
    unfold value? items
    rw [Summary.total?_append, value?_eq_total? a, value?_eq_total? b]
  | into a b => by
    rw [value?_into]
    unfold value? items
    rw [Summary.total?_append, value?_eq_total? a, value?_eq_total? b]
  | sum parts => by
    have hfold := foldlM_eq_total? .empty parts
    rw [← Summary.total?_append_of_some Summary.total?_nil, List.nil_append] at hfold
    unfold value? items
    exact hfold

/-- Parts that are added to a summary one after another come to the sum of all. -/
theorem foldlM_eq_total? (s : Summary) :
    ∀ parts : List Combination, (values? parts).bind (List.foldlM Summary.add? s) =
      total? (s :: itemsAll parts)
  | [] => by
    unfold values? itemsAll
    rw [Option.bind_some, List.foldlM_nil, Summary.total?_singleton, Option.pure_def]
  | c :: rest => by
    have hfirst : total? (s :: c.items) = c.value?.bind s.add? := by
      rw [← List.singleton_append, Summary.total?_append, Summary.total?_singleton,
        value?_eq_total? c, Option.bind_some]
    rw [values?, itemsAll, ← List.cons_append]
    cases hc : c.value? with
    | none =>
      rw [hc, Option.bind_none] at hfirst
      rw [Summary.total?_append_of_none hfirst, Option.bind_none, Option.bind_none]
    | some t =>
      rw [hc, Option.bind_some] at hfirst
      rw [Option.bind_some, bind_foldlM_cons]
      cases hadd : s.add? t with
      | none => rw [Summary.total?_append_of_none (hfirst.trans hadd), Option.bind_none]
      | some s' =>
        rw [Summary.total?_append_of_some (hfirst.trans hadd), Option.bind_some]
        exact foldlM_eq_total? s' rest

end

/-- How adding up ends: with the sum, or with the panic of an addition. -/
def outcome (c : Combination) : Outcome Summary :=
  match c.value? with
  | some s => .returned s
  | none => .panicked (.text Summary.overflowMessage)

theorem outcome_of_total? {c : Combination} {items : List Summary} (h : c.items.Perm items) :
    c.outcome = match total? items with
      | some s => .returned s
      | none => .panicked (.text Summary.overflowMessage) := by
  rw [outcome, value?_eq_total?, Summary.total?_eq_of_perm h]

/-- **All ways of adding the same summaries up end alike**, in whatever order and grouping: with
their sum, if the exact length of the times is in range, and else with a panic. -/
theorem addsUp {c : Combination} {items : List Summary} (h : c.items.Perm items) :
    (Summary.nanosOf items < 18446744073709551616 * 1000000000 →
      ∃ s : Summary, c.outcome = .returned s ∧ s.IsTotalOf items) ∧
    (18446744073709551616 * 1000000000 ≤ Summary.nanosOf items →
      c.outcome = .panicked (.text Summary.overflowMessage)) ∧
    ∀ c' : Combination, c'.items.Perm items → c'.outcome = c.outcome := by
  have houtcome := outcome_of_total? h
  refine ⟨fun hlt => ?_, fun hle => ?_, fun c' h' => ?_⟩
  · cases htotal : total? items with
    | none =>
      rw [Summary.total?_eq_none_iff] at htotal
      omega
    | some s =>
      rw [htotal] at houtcome
      exact ⟨s, houtcome, Summary.isTotalOf_of_total? htotal⟩
  · rwa [Summary.total?_eq_none_iff.mpr hle] at houtcome
  · rw [houtcome, outcome_of_total? h']

/-! ## Times at the limit -/

/-- A test that took as long as can be, but for a second and a nanosecond. -/
def longest : Summary where
  total := 1
  time := { seconds := 18446744073709551614, nanos := 999999999 }

/-- A test that failed after a nanosecond. -/
def shortest : Summary where
  total := 1
  failed := 1
  time := { Duration.zero with nanos := 1, nanos_lt := by decide }

/-- A test that took almost a second. -/
def second : Summary where
  total := 1
  time := { Duration.zero with nanos := 999999999, nanos_lt := by decide }

/-- The three of them, added up in two ways. -/
def upToLimit : Combination := plus (into empty (item longest)) (sum [item shortest, item second])

/-- One of them is added a second time. -/
def pastLimit : Combination :=
  sum [item shortest, plus (item shortest) (into (item second) (item longest))]

/-- The nanoseconds are carried, and the sum is the longest time that there is; with one more
nanosecond there is none. -/
theorem addsUp_longest :
    upToLimit.items.Perm [shortest, second, longest] ∧
      (∃ s : Summary, upToLimit.outcome = .returned s ∧ s.IsTotalOf [shortest, second, longest]) ∧
      pastLimit.items.Perm [longest, shortest, second, shortest] ∧
      pastLimit.outcome = .panicked (.text Summary.overflowMessage) := by
  have hfits : upToLimit.items.Perm [shortest, second, longest] := by decide
  have hlong : pastLimit.items.Perm [longest, shortest, second, shortest] := by decide
  exact ⟨hfits, (addsUp hfits).1 (by decide), hlong, (addsUp hlong).2.1 (by decide)⟩

end Combination

end TestEngine
