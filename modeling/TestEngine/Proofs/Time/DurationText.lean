import Mathlib.Algebra.GroupWithZero.Nat
import Mathlib.Data.List.Basic
import TestEngine.Time.DurationText

/-!
# Durations are read as they were written

Writing gives a sequence of spans, a blank between two of them. Reading a span adds its length to
what was read before, so reading them all gives their total length; and the spans that are written
have the length of the duration.

* `Duration.read_spans` — reading spans adds up their lengths.
* `Duration.ofText?_text` — reading what was written gives the duration back.
-/

namespace TestEngine.Duration

/-! ## Spans -/

/-- How many nanoseconds a unit has. -/
def TimeUnit.length : TimeUnit → Nat
  | nanos each => each
  | seconds each => each * 1000000000
  | minute => 60 * 1000000000

/-- A number of units, and the name that the unit is written with. -/
structure Span where
  number : Nat
  unit : TimeUnit
  name : String

namespace Span

/-- The length in nanoseconds. -/
def length (s : Span) : Nat := s.number * s.unit.length

/-- What is written for a span. -/
def text (s : Span) : String := toString s.number ++ s.name

/-- The characters of a span. -/
def chars (s : Span) : List Char := Nat.toDigits 10 s.number ++ s.name.toList

/-- What reading adds for a span. -/
def addTo? (s : Span) (d : Duration) : Option Duration :=
  d.addSpan? ⟨s.number, none⟩ s.name.toList

/-- A word for a unit, all letters. -/
def IsWord (name : String) (unit : TimeUnit) : Prop :=
  unit? name = some unit ∧ name.toList ≠ [] ∧ name.toList.all isLetter

instance (name : String) (unit : TimeUnit) : Decidable (IsWord name unit) := by
  unfold IsWord
  infer_instance

/-- A span that can be read: its name is a word for its unit, its number has 64 bits, and a span of
a unit below a second is shorter than a second. -/
structure IsReadable (s : Span) : Prop where
  isWord : IsWord s.name s.unit
  number_lt : s.number < 18446744073709551616
  below : ∀ each, s.unit = .nanos each → s.number * each < 1000000000

end Span

/-! ## Reading a span -/

theorem word?_of_lt {n : Nat} (h : n < 18446744073709551616) : word? n = some n := if_pos h

/-- Where the letters of units stand. -/
theorem toNat_of_isLetter {c : Char} (h : isLetter c) :
    65 ≤ c.toNat ∧ c.toNat ≤ 90 ∨ 97 ≤ c.toNat ∧ c.toNat ≤ 122 ∨ c.toNat = 181 := by
  have hranges :
      (decide (65 ≤ c.val ∧ c.val ≤ 90) || (decide (97 ≤ c.val) && decide (c.val ≤ 122)) ||
        c == 'µ') = true := h
  simp only [Bool.or_eq_true, decide_eq_true_eq, Bool.and_eq_true, beq_iff_eq,
    UInt32.le_iff_toNat_le] at hranges
  rcases hranges with (hupper | hlower) | rfl
  · exact .inl hupper
  · exact .inr (.inl hlower)
  · exact .inr (.inr rfl)

theorem digit?_eq_none_of_isLetter {c : Char} (h : isLetter c) : digit? c = none := by
  have hc := toNat_of_isLetter h
  refine if_neg fun hdigit => ?_
  simp only [Char.isDigit, ge_iff_le, Bool.and_eq_true, decide_eq_true_eq,
    UInt32.le_iff_toNat_le] at hdigit
  have hlt : c.toNat ≤ 57 := hdigit.2
  omega

theorem isBlank_eq_false_of_isLetter {c : Char} (h : isLetter c) : isBlank c = false := by
  have hc := toNat_of_isLetter h
  simp only [isBlank, Bool.or_eq_false_iff, Bool.and_eq_false_iff, decide_eq_false_iff_not,
    beq_eq_false_iff_ne]
  omega

theorem digit?_of_isDigit {c : Char} (h : c.isDigit) : digit? c = some (c.toNat - '0'.toNat) :=
  if_pos h

variable {d e : Duration}

/-- Digits behind a number go on with it. -/
theorem foldlM_digits {ds : List Char} {n : Nat} (hdigits : ∀ c ∈ ds, c.isDigit)
    (hlt : Nat.ofDigitChars 10 ds n < 18446744073709551616) :
    ds.foldlM readChar (d, .number n) = some (d, .number (Nat.ofDigitChars 10 ds n)) := by
  induction ds generalizing n with
  | nil => rfl
  | cons c ds ih =>
    have hc := digit?_of_isDigit (hdigits c List.mem_cons_self)
    rw [Nat.ofDigitChars_cons] at hlt ⊢
    have hword : 10 * n + (c.toNat - '0'.toNat) < 18446744073709551616 := by
      rw [Nat.ofDigitChars_eq_ofDigitChars_zero] at hlt
      have hpow : 0 < 10 ^ ds.length := Nat.pow_pos (by decide)
      have := Nat.le_mul_of_pos_left (10 * n + (c.toNat - '0'.toNat)) hpow
      omega
    rw [List.foldlM_cons]
    simp only [readChar, hc, word?_of_lt hword]
    exact ih (fun c h => hdigits c (List.mem_cons_of_mem _ h)) hlt

/-- Letters behind a letter go on with the name. -/
theorem foldlM_letters {cs name : List Char} {a : Amount} (hletters : ∀ c ∈ cs, isLetter c) :
    cs.foldlM readChar (d, .unit a name) = some (d, .unit a (cs.reverse ++ name)) := by
  induction cs generalizing name with
  | nil => rfl
  | cons c cs ih =>
    have hc := hletters c List.mem_cons_self
    rw [List.foldlM_cons]
    simp only [readChar, digit?_eq_none_of_isLetter hc, isBlank_eq_false_of_isLetter hc, hc,
      Bool.false_eq_true, if_false, if_true]
    rw [List.reverse_cons, List.append_assoc]
    exact ih fun c h => hletters c (List.mem_cons_of_mem _ h)

/-- A span is read whole; nothing is added before its end is seen. -/
theorem foldlM_chars {s : Span} (hs : s.IsReadable) (any : Bool) :
    s.chars.foldlM readChar (d, .between any) =
      some (d, .unit ⟨s.number, none⟩ s.name.toList.reverse) := by
  obtain ⟨c, ds, hnumber⟩ :=
    List.exists_cons_of_ne_nil (Nat.toDigits_ne_nil (n := s.number) (b := 10))
  obtain ⟨u, us, hname⟩ := List.exists_cons_of_ne_nil hs.isWord.2.1
  have hdigits : ∀ k ∈ c :: ds, k.isDigit := fun k hk =>
    Nat.isDigit_of_mem_toDigits (by decide) (by decide) (hnumber ▸ hk)
  have hvalue : Nat.ofDigitChars 10 ds (c.toNat - '0'.toNat) = s.number := by
    rw [← Nat.ofDigitChars_ten_toDigits (n := s.number), hnumber, Nat.ofDigitChars_cons,
      Nat.mul_zero, Nat.zero_add]
  have hletters : ∀ k ∈ u :: us, isLetter k := hname ▸ List.all_eq_true.mp hs.isWord.2.2
  have hu := hletters u List.mem_cons_self
  have hfirst : readChar (d, .between any) c = some (d, .number (c.toNat - '0'.toNat)) := by
    simp only [readChar, digit?_of_isDigit (hdigits c List.mem_cons_self)]
  have hletter : readChar (d, .number s.number) u = some (d, .unit ⟨s.number, none⟩ [u]) := by
    simp only [readChar, digit?_eq_none_of_isLetter hu, isBlank_eq_false_of_isLetter hu, hu,
      Bool.false_eq_true, if_false, if_true]
  have hrest := foldlM_digits (d := d) (fun k hk => hdigits k (List.mem_cons_of_mem _ hk))
    (hvalue ▸ hs.number_lt)
  rw [hvalue] at hrest
  rw [Span.chars, hnumber, hname, List.foldlM_append, List.foldlM_cons, hfirst]
  simp only [Option.bind_eq_bind, Option.bind_some, hrest, List.foldlM_cons, hletter]
  rw [foldlM_letters fun k hk => hletters k (List.mem_cons_of_mem _ hk), List.reverse_cons]

/-! ## Reading spans -/

/-- What was read, at the end of a text. -/
def finish? : Duration × Place → Option Duration
  | (d, .between true) => some d
  | (d, .unit a name) => d.addSpan? a name.reverse
  | _ => none

theorem ofText?_eq {s : String} (h : s ≠ "0") :
    ofText? s = s.toList.foldlM readChar (zero, .between false) >>= finish? := by
  rw [ofText?, if_neg h]
  rcases s.toList.foldlM readChar (zero, .between false) with _ | ⟨d, (_ | _) | _ | _ | _⟩ <;> rfl

/-- The characters of spans, a blank between two of them. -/
def spanChars (spans : List Span) : List Char := [' '].intercalate (spans.map Span.chars)

/-- Reading spans adds them one after the other. -/
theorem foldlM_spanChars {spans : List Span} (hspans : ∀ s ∈ spans, s.IsReadable)
    (hne : spans ≠ []) (any : Bool) :
    (spanChars spans).foldlM readChar (d, .between any) >>= finish? =
      spans.foldlM (fun d s => s.addTo? d) d := by
  induction spans generalizing d any with
  | nil => exact absurd rfl hne
  | cons s spans ih =>
    have hs := hspans s List.mem_cons_self
    cases spans with
    | nil =>
      rw [spanChars, List.map_singleton, List.intercalate_singleton, foldlM_chars hs]
      simp [finish?, Span.addTo?]
    | cons t spans =>
      rw [spanChars, List.map_cons, List.map_cons, List.intercalate_cons_cons, List.append_assoc,
        List.foldlM_append, foldlM_chars hs]
      have hblank : readChar (d, .unit ⟨s.number, none⟩ s.name.toList.reverse) ' ' =
          (s.addTo? d).map fun d => (d, .between true) := by
        simp [readChar, digit?, isBlank, Span.addTo?]
      simp only [Option.bind_eq_bind, Option.bind_some, List.singleton_append, List.foldlM_cons,
        hblank]
      cases s.addTo? d with
      | none => rfl
      | some e =>
        exact ih (fun t ht => hspans t (List.mem_cons_of_mem _ ht)) (List.cons_ne_nil _ _) true

theorem extend?_eq (seconds nanos : Nat) (h : nanos < 1000000000) :
    d.extend? seconds nanos = ofNanos? (d.totalNanos + (seconds * 1000000000 + nanos)) := by
  have hd := d.nanos_lt
  have hsum : (d.seconds + seconds) * 1000000000 + (d.nanos + nanos) =
      d.seconds * 1000000000 + d.nanos + (seconds * 1000000000 + nanos) := by omega
  rw [extend?, word?_of_lt (by omega), Option.bind_eq_bind, Option.bind_some, ofParts?,
    totalNanos, hsum]

theorem addTo?_eq_addWhole? {s : Span} (hs : s.IsReadable) :
    s.addTo? d = d.addWhole? s.number s.unit := by
  rw [Span.addTo?, addSpan?, String.ofList_toList, hs.isWord.1, Option.bind_eq_bind,
    Option.bind_some, Option.bind_eq_bind, Option.bind_fun_some]

/-- Adding a span adds its length. -/
theorem addTo?_eq {s : Span} (hs : s.IsReadable)
    (hlt : d.totalNanos + s.length < 18446744073709551616 * 1000000000) :
    s.addTo? d = ofNanos? (d.totalNanos + s.length) := by
  have hbelow := hs.below
  rw [addTo?_eq_addWhole? hs]
  unfold Span.length at *
  cases hunit : s.unit with
  | nanos each =>
    have hnanos := hbelow each hunit
    rw [addWhole?, word?_of_lt (by omega), Option.bind_eq_bind, Option.bind_some,
      extend?_eq 0 _ hnanos, TimeUnit.length, Nat.zero_mul, Nat.zero_add]
  | seconds each =>
    rw [hunit, TimeUnit.length, ← Nat.mul_assoc] at hlt
    rw [addWhole?, word?_of_lt (by omega), Option.bind_eq_bind, Option.bind_some,
      extend?_eq _ 0 (by decide), TimeUnit.length, Nat.add_zero, Nat.mul_assoc]
  | minute =>
    rw [hunit, TimeUnit.length, ← Nat.mul_assoc] at hlt
    rw [addWhole?, word?_of_lt (by omega), Option.bind_eq_bind, Option.bind_some,
      extend?_eq _ 0 (by decide), TimeUnit.length, Nat.add_zero, Nat.mul_assoc]

/-- Adding spans adds their lengths. -/
theorem foldlM_addTo? {spans : List Span} (hspans : ∀ s ∈ spans, s.IsReadable)
    (h : e.totalNanos = d.totalNanos + (spans.map Span.length).sum) :
    spans.foldlM (fun d s => s.addTo? d) d = some e := by
  induction spans generalizing d with
  | nil =>
    rw [List.map_nil, List.sum_nil, Nat.add_zero] at h
    exact congrArg some (totalNanos_injective h.symm)
  | cons s spans ih =>
    have he := e.totalNanos_lt
    rw [List.map_cons, List.sum_cons] at h
    have hlt : d.totalNanos + s.length < 18446744073709551616 * 1000000000 := by omega
    have hsome : ofNanos? (d.totalNanos + s.length) ≠ none := by
      rw [Ne, ofNanos?_eq_none_iff]
      omega
    obtain ⟨f, hf⟩ := Option.ne_none_iff_exists'.mp hsome
    rw [List.foldlM_cons, addTo?_eq (hspans s List.mem_cons_self) hlt, hf]
    refine ih (fun t ht => hspans t (List.mem_cons_of_mem _ ht)) ?_
    rw [totalNanos_ofNanos? hf, h, Nat.add_assoc]

/-! ## What is written -/

/-- A span whose unit takes an `s` unless there is just one. -/
def pluralSpan (number each : Nat) (name : String) : Span where
  number := number
  unit := .seconds each
  name := if number = 1 then name else name ++ "s"

/-- A duration in its units, the largest one first. -/
def allSpans (d : Duration) : List Span :=
  let inYear := d.seconds % 31557600
  let inMonth := inYear % 2630016
  let inDay := inMonth % 86400
  [pluralSpan (d.seconds / 31557600) 31557600 "year",
    pluralSpan (inYear / 2630016) 2630016 "month", pluralSpan (inMonth / 86400) 86400 "day",
    ⟨inDay / 3600, .seconds 3600, "h"⟩, ⟨inDay % 3600 / 60, .minute, "m"⟩,
    ⟨inDay % 60, .seconds 1, "s"⟩, ⟨d.nanos / 1000000, .nanos 1000000, "ms"⟩,
    ⟨d.nanos / 1000 % 1000, .nanos 1000, "us"⟩, ⟨d.nanos % 1000, .nanos 1, "ns"⟩]

/-- The spans that are written. -/
def spans (d : Duration) : List Span := d.allSpans.filter (·.number != 0)

theorem map_text_filter (spans : List Span) :
    (spans.filter (·.number != 0)).map Span.text =
      spans.flatMap fun s => part s.number s.name := by
  induction spans with
  | nil => rfl
  | cons s spans ih =>
    by_cases hzero : s.number = 0 <;> simp [part, Span.text, hzero, ih]

theorem parts_eq (d : Duration) : d.parts = d.spans.map Span.text := by
  rw [spans, map_text_filter, allSpans, parts]
  simp only [List.flatMap_cons, List.flatMap_nil, List.append_nil, List.append_assoc]
  rfl

theorem length_seconds (n each : Nat) (name : String) :
    Span.length ⟨n, .seconds each, name⟩ = n * (each * 1000000000) := rfl

theorem length_pluralSpan (n each : Nat) (name : String) :
    (pluralSpan n each name).length = n * (each * 1000000000) := rfl

theorem length_minute (n : Nat) (name : String) :
    Span.length ⟨n, .minute, name⟩ = n * (60 * 1000000000) := rfl

theorem length_nanos (n each : Nat) (name : String) :
    Span.length ⟨n, .nanos each, name⟩ = n * each := rfl

/-- The units make up the whole duration. -/
theorem sum_allSpans (d : Duration) : (d.allSpans.map Span.length).sum = d.totalNanos := by
  rw [allSpans, totalNanos]
  iterate 9 rw [List.map_cons, List.sum_cons]
  rw [List.map_nil, List.sum_nil]
  rw [length_pluralSpan, length_pluralSpan, length_pluralSpan, length_seconds, length_minute,
    length_seconds, length_nanos, length_nanos, length_nanos]
  omega

theorem isReadable_mk {number : Nat} {unit : TimeUnit} {name : String}
    (hword : Span.IsWord name unit) (hnumber : number < 18446744073709551616)
    (hbelow : ∀ each, unit = .nanos each → number * each < 1000000000) :
    Span.IsReadable ⟨number, unit, name⟩ := ⟨hword, hnumber, hbelow⟩

theorem isReadable_of_mem_allSpans {s : Span} (h : s ∈ d.allSpans) : s.IsReadable := by
  have hd := d.seconds_lt
  have hn := d.nanos_lt
  rw [allSpans] at h
  simp only [List.mem_cons, List.not_mem_nil, or_false, pluralSpan] at h
  rcases h with rfl | rfl | rfl | rfl | rfl | rfl | rfl | rfl | rfl
  -- the units of seconds; the first three have two names each
  · exact isReadable_mk (by split <;> decide) (by omega) nofun
  · exact isReadable_mk (by split <;> decide) (by omega) nofun
  · exact isReadable_mk (by split <;> decide) (by omega) nofun
  · exact isReadable_mk (by decide) (by omega) nofun
  · exact isReadable_mk (by decide) (by omega) nofun
  · exact isReadable_mk (by decide) (by omega) nofun
  -- the units of nanoseconds
  · exact isReadable_mk (by decide) (by omega) (by rintro _ ⟨⟩; omega)
  · exact isReadable_mk (by decide) (by omega) (by rintro _ ⟨⟩; omega)
  · exact isReadable_mk (by decide) (by omega) (by rintro _ ⟨⟩; omega)

/-- Spans of no length do not count. -/
theorem sum_filter (spans : List Span) :
    ((spans.filter (·.number != 0)).map Span.length).sum = (spans.map Span.length).sum := by
  induction spans with
  | nil => rfl
  | cons s spans ih =>
    by_cases hzero : s.number = 0 <;> simp [Span.length, hzero, ih]

/-! ## Writing and reading -/

theorem toList_text {s : Span} : s.text.toList = s.chars := by
  rw [Span.text, Span.chars, String.toList_append, Nat.toString_eq_repr, Nat.toList_repr]

/-- A duration of some length is written as its spans. -/
theorem text_eq (h : d.spans ≠ []) : d.text.toList = spanChars d.spans := by
  have hparts : d.parts ≠ [] := by
    rw [parts_eq]
    exact fun hnil => h (List.map_eq_nil_iff.mp hnil)
  obtain ⟨p, ps, hp⟩ := List.exists_cons_of_ne_nil hparts
  have htext : d.text = " ".intercalate d.parts := by rw [text, hp]
  rw [htext, String.toList_intercalate, parts_eq, List.map_map, spanChars]
  exact congrArg _ (List.map_congr_left fun s _ => toList_text)

/-- What is written for a span is longer than a digit. -/
theorem one_lt_length_chars {s : Span} (hs : s.IsReadable) : 1 < s.chars.length := by
  have hnumber := Nat.length_toDigits_pos (b := 10) (n := s.number)
  have hname := List.length_pos_iff.mpr hs.isWord.2.1
  rw [Span.chars, List.length_append]
  omega

theorem spanChars_ne_zero {spans : List Span} (hspans : ∀ s ∈ spans, s.IsReadable) :
    spanChars spans ≠ ['0'] := by
  intro h
  cases spans with
  | nil => cases h
  | cons s spans =>
    have hs := one_lt_length_chars (hspans s List.mem_cons_self)
    cases spans with
    | nil =>
      rw [spanChars, List.map_singleton, List.intercalate_singleton] at h
      rw [h] at hs
      exact absurd hs (by decide)
    | cons t spans =>
      rw [spanChars, List.map_cons, List.map_cons, List.intercalate_cons_cons] at h
      have := congrArg List.length h
      simp only [List.length_append, List.length_singleton] at this
      omega

/-- **A duration is read as it was written.** -/
theorem ofText?_text (d : Duration) : ofText? d.text = some d := by
  have hspans : ∀ s ∈ d.spans, s.IsReadable := fun s hs =>
    isReadable_of_mem_allSpans (List.mem_of_mem_filter hs)
  have hsum : d.totalNanos = zero.totalNanos + (d.spans.map Span.length).sum := by
    rw [spans, sum_filter, sum_allSpans]
    exact (Nat.zero_add _).symm
  by_cases hne : d.spans = []
  · -- no time at all
    rw [hne, List.map_nil, List.sum_nil, Nat.add_zero] at hsum
    rw [totalNanos_injective hsum]
    decide
  · have htext : d.text ≠ "0" := fun h => spanChars_ne_zero hspans (by rw [← text_eq hne, h]; rfl)
    rw [ofText?_eq htext, text_eq hne, foldlM_spanChars hspans hne, foldlM_addTo? hspans hsum]

end TestEngine.Duration
