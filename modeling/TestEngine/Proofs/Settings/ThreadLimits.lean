import Mathlib.Data.List.Induction
import Mathlib.Data.Nat.Digits.Defs
import TestEngine.Proofs.Settings.Inheritance
import TestEngine.Proofs.Toml.Integers

/-!
# Limits on threads are read back as they are written

A limit is written in many ways: a word, or an integer with or without a sign and with any number of
zeros in front. It is shown in one way. Here is which texts are limits, and that every limit the
program can come by is shown as a text that is read as this limit again.

The limits of settings need an argument. A count that does not fit in 64 bits would be shown as
a text that cannot be read, so there must be none, whatever the settings are. They are read from a
file whose integers fit, and putting them over the built-in ones makes no new integers.

* `ThreadLimit.Denotes` — the grammar of limits, with `Spells` for integers and `Means` for what an
  integer stands for.
* `ThreadLimit.parse_eq_ok_iff` — a text is read if the grammar has it, and as the grammar says.
* `ThreadLimit.denotes_text` — what a limit of at most 64 bits is shown as.
* `Settings.inRange_overlay`, `Profiles.isSmall_of_ofUser` — integers that fit give such limits.
* `ThreadLimit.parse_readsBack` — both together, for all limits that can come about.
-/

namespace TestEngine

open Toml (Entries InRangeEntries)

namespace ThreadLimit

/-! ## Numerals -/

/-- At least one decimal digit, and the number that the digits make. The last digit comes first
among the digits of a number. -/
structure Numeral (ds : List Char) (n : Nat) : Prop where
  ne_nil : ds ≠ []
  isDigit : ∀ d ∈ ds, d.isDigit = true
  value : Nat.ofDigits 10 (ds.reverse.map fun d => d.toNat - '0'.toNat) = n

/-- A text spells an integer: one sign or none, then digits. -/
inductive Spells : String → Int → Prop where
  | plain {ds : List Char} {n : Nat} (h : Numeral ds n) : Spells (String.ofList ds) n
  | plus {ds : List Char} {n : Nat} (h : Numeral ds n) : Spells (String.ofList ('+' :: ds)) n
  | minus {ds : List Char} {n : Nat} (h : Numeral ds n) : Spells (String.ofList ('-' :: ds)) (-n)

theorem foldl_digits (ds : List Char) :
    ds.foldl (fun n d => 10 * n + (d.toNat - '0'.toNat)) 0 =
      Nat.ofDigits 10 (ds.reverse.map fun d => d.toNat - '0'.toNat) := by
  induction ds using List.reverseRecOn with
  | nil => rfl
  | append_singleton ds d ih =>
    rw [List.foldl_append, List.reverse_append, List.reverse_singleton, List.singleton_append,
      List.map_cons, Nat.ofDigits_cons, List.foldl_cons, List.foldl_nil, ih, Nat.add_comm]

theorem digitsValue?_eq_some_iff {ds : List Char} {n : Nat} :
    digitsValue? ds = some n ↔ Numeral ds n := by
  unfold digitsValue?
  rw [foldl_digits]
  constructor
  · intro h
    split at h
    · cases h
    · rename_i hdigits
      rw [Bool.or_eq_true, not_or, List.isEmpty_iff, Bool.not_eq_true', Bool.not_eq_false,
        List.all_eq_true] at hdigits
      exact ⟨hdigits.1, hdigits.2, Option.some.inj h⟩
  · intro h
    rw [if_neg, h.value]
    rw [Bool.or_eq_true, not_or, List.isEmpty_iff, Bool.not_eq_true', Bool.not_eq_false,
      List.all_eq_true]
    exact ⟨h.ne_nil, h.isDigit⟩

theorem numeral_toDigits (n : Nat) : Numeral (Nat.toDigits 10 n) n where
  ne_nil := Nat.toDigits_ne_nil
  isDigit _ hd := Nat.isDigit_of_mem_toDigits (by decide) (by decide) hd
  value := by
    rw [← foldl_digits]
    exact Nat.ofDigitChars_ten_toDigits

theorem eq_ofList {s : String} {cs : List Char} (h : s.toList = cs) : s = String.ofList cs := by
  rw [← h, String.ofList_toList]

theorem integer?_eq_some_iff {s : String} {n : Int} : integer? s = some n ↔ Spells s n := by
  constructor
  · intro h
    unfold integer? at h
    split at h
    · rename_i ds hs
      obtain ⟨z, hz, rfl⟩ := Option.map_eq_some_iff.mp h
      obtain ⟨m, hm, hcast⟩ := Option.bind_eq_some_iff.mp hz
      rw [eq_ofList hs, ← Option.some.inj hcast]
      exact .minus (digitsValue?_eq_some_iff.mp hm)
    · rename_i ds hs
      obtain ⟨m, hm, rfl⟩ := Option.map_eq_some_iff.mp h
      rw [eq_ofList hs]
      exact .plus (digitsValue?_eq_some_iff.mp hm)
    · obtain ⟨m, hm, rfl⟩ := Option.map_eq_some_iff.mp h
      rw [eq_ofList (s := s) rfl]
      exact .plain (digitsValue?_eq_some_iff.mp hm)
  · intro h
    unfold integer?
    cases h with
    | minus h =>
      rw [String.toList_ofList]
      show ((digitsValue? _ >>= fun m => pure (m : Int)).map fun z => -z) = _
      rw [digitsValue?_eq_some_iff.mpr h]
      rfl
    | plus h =>
      rw [String.toList_ofList]
      show (digitsValue? _).map Int.ofNat = _
      rw [digitsValue?_eq_some_iff.mpr h]
      rfl
    | plain h =>
      rw [String.toList_ofList]
      split
      · have hminus := h.isDigit '-' List.mem_cons_self
        cases hminus
      · have hplus := h.isDigit '+' List.mem_cons_self
        cases hplus
      · rw [digitsValue?_eq_some_iff.mpr h]
        rfl

theorem int64?_eq_some_iff {s : String} {n : Int} :
    int64? s = some n ↔ Spells s n ∧ FitsInt64 n := by
  unfold int64?
  rw [Option.filter_eq_some_iff, integer?_eq_some_iff, decide_eq_true_iff]

/-! ## What integers and texts stand for -/

/-- The limit that an integer stands for: zero is the number of processors, and a negative integer
is no limit. -/
inductive Means : Int → ThreadLimit → Prop where
  | zero : Means 0 .processors
  | positive {n : Nat} (hn : 0 < n) : Means n (.count n hn)
  | negative {n : Int} (hn : n < 0) : Means n .unlimited

theorem ofInt_eq_iff {n : Int} {t : ThreadLimit} : ofInt n = t ↔ Means n t := by
  constructor
  · rintro rfl
    unfold ofInt
    split
    · rename_i hn
      obtain ⟨m, rfl⟩ := Int.eq_ofNat_of_zero_le hn.le
      exact .positive (Int.natCast_pos.mp hn)
    · rename_i hn
      split
      · rename_i hzero
        rw [hzero]
        exact .zero
      · rename_i hzero
        exact .negative (by omega)
  · rintro (_ | hn | hn)
    · rfl
    · exact dif_pos (Int.natCast_pos.mpr hn)
    · unfold ofInt
      rw [dif_neg (by omega), if_neg (by omega)]

/-- The limit that a text stands for. -/
inductive Denotes : String → ThreadLimit → Prop where
  | processors : Denotes "num-cpus" .processors
  | default : Denotes "default" .processors
  | unlimited : Denotes "unlimited" .unlimited
  | integer {s : String} {n : Int} {t : ThreadLimit} (hs : Spells s n) (hfits : FitsInt64 n)
    (ht : Means n t) : Denotes s t

theorem Spells.ne_of_integer?_eq_none {s word : String} {n : Int} (hs : Spells s n)
    (hword : integer? word = none) : s ≠ word := by
  rintro rfl
  rw [integer?_eq_some_iff.mpr hs] at hword
  cases hword

theorem ofText?_eq_some_iff {s : String} {t : ThreadLimit} : ofText? s = some t ↔ Denotes s t := by
  constructor
  · intro h
    unfold ofText? at h
    split at h
    · rename_i hs
      cases h
      obtain hs | hs := Bool.or_eq_true_iff.mp hs
      · rw [of_decide_eq_true hs]
        exact .processors
      · rw [of_decide_eq_true hs]
        exact .default
    · split at h
      · rename_i hs
        cases h
        rw [hs]
        exact .unlimited
      · obtain ⟨n, hn, rfl⟩ := Option.map_eq_some_iff.mp h
        obtain ⟨hs, hfits⟩ := int64?_eq_some_iff.mp hn
        exact .integer hs hfits (ofInt_eq_iff.mp rfl)
  · intro h
    cases h with
    | processors | default | unlimited => rfl
    | integer hs hfits ht =>
      have hprocessors : s ≠ "num-cpus" := hs.ne_of_integer?_eq_none (by decide +kernel)
      have hdefault : s ≠ "default" := hs.ne_of_integer?_eq_none (by decide +kernel)
      have hunlimited : s ≠ "unlimited" := hs.ne_of_integer?_eq_none (by decide +kernel)
      unfold ofText?
      rw [if_neg (by simp [hprocessors, hdefault]), if_neg hunlimited,
        int64?_eq_some_iff.mpr ⟨hs, hfits⟩]
      exact congrArg some (ofInt_eq_iff.mpr ht)

theorem parse_eq_ok_iff {s : String} {t : ThreadLimit} : parse s = .ok t ↔ Denotes s t := by
  rw [← ofText?_eq_some_iff]
  unfold parse
  cases ofText? s with
  | none => exact iff_of_false (by rintro ⟨⟩) (by rintro ⟨⟩)
  | some t' => rw [Except.ok.injEq, Option.some.injEq]

/-! ## Written forms -/

/-- A limit that an integer of 64 bits can stand for. -/
def IsSmall : ThreadLimit → Prop
  | .count n _ => FitsInt64 n
  | _ => True

theorem spells_toString (n : Nat) : Spells (toString n) n := by
  have htext : toString n = String.ofList (Nat.toDigits 10 n) := rfl
  rw [htext]
  exact .plain (numeral_toDigits n)

/-- The written form of a limit stands for the limit if the limit is small. -/
theorem denotes_text {t : ThreadLimit} (h : t.IsSmall) : Denotes t.text t := by
  cases t with
  | processors => exact .processors
  | unlimited => exact .unlimited
  | count n hn => exact .integer (spells_toString n) h (.positive hn)

theorem Means.isSmall {n : Int} {t : ThreadLimit} (h : Means n t) (hfits : FitsInt64 n) :
    t.IsSmall := by
  cases h with
  | zero | negative => trivial
  | positive hn => exact hfits

theorem isSmall_ofInt {n : Int} (h : FitsInt64 n) : (ofInt n).IsSmall :=
  (ofInt_eq_iff.mp rfl).isSmall h

theorem Denotes.isSmall {s : String} {t : ThreadLimit} (h : Denotes s t) : t.IsSmall := by
  cases h with
  | processors | default | unlimited => trivial
  | integer hs hfits ht => exact ht.isSmall hfits

theorem isSmall_ofUnsigned (n : Nat) : (ofUnsigned n).IsSmall := by
  unfold ofUnsigned
  split
  · rename_i h
    exact isSmall_ofInt h
  · exact isSmall_ofInt (by decide)

theorem isSmall_of_ofWord? {s : String} {t : ThreadLimit} (h : ofWord? s = some t) :
    t.IsSmall := by
  unfold ofWord? at h
  split at h
  · cases h
    trivial
  · cases h
    trivial
  · cases h

end ThreadLimit

/-! ## Integers in layers of settings -/

namespace Settings

open Keyed (put)

variable {below : Option Toml} {entries upper : Entries} {key : String} {v : Toml}

theorem inRange_put (h : InRangeEntries entries) (hv : v.InRange) :
    InRangeEntries (put key v entries) := by
  intro e he
  obtain rfl | he := Keyed.mem_put he
  · exact hv
  · exact h e he

theorem inRange_lookup (h : InRangeEntries entries) : ∀ v ∈ entries.lookup key, v.InRange :=
  fun _ hv => h _ (Keyed.mem_of_lookup hv)

theorem inRange_entriesOf (h : ∀ v ∈ below, v.InRange) : InRangeEntries (entriesOf below) := by
  unfold entriesOf
  split
  · rename_i entries
    cases h _ rfl with
    | table hentries => exact hentries
  · exact List.forall_mem_nil _

theorem inRange_itemsOf (h : ∀ v ∈ below, v.InRange) : ∀ v ∈ itemsOf below, v.InRange := by
  unfold itemsOf
  split
  · rename_i items
    cases h _ rfl with
    | list hitems => exact hitems
  · exact List.forall_mem_nil _

mutual

theorem inRange_layered : ∀ {v : Toml} {below : Option Toml}, (∀ w ∈ below, w.InRange) →
    v.InRange → (layered below v).InRange
  | .table entries, below, hbelow, .table h => by
    rw [layered_table]
    exact .table (inRange_layeredEntries (inRange_entriesOf hbelow) h)
  | .text _, _, _, h | .integer _, _, _, h | .float _, _, _, h | .boolean _, _, _, h
  | .moment _, _, _, h | .list _, _, _, h | .absent, _, _, h => h

theorem inRange_layeredEntries : ∀ {entries below : Entries}, InRangeEntries below →
    (∀ e ∈ entries, e.2.InRange) → InRangeEntries (layeredEntries below entries)
  | [], _, hbelow, _ => hbelow
  | (key, v) :: rest, below, hbelow, h => by
    obtain ⟨hv, hrest⟩ := List.forall_mem_cons.mp h
    unfold layeredEntries
    exact inRange_layeredEntries
      (inRange_put hbelow (inRange_layered (inRange_lookup hbelow) hv)) hrest

end

theorem inRange_withPlace {items : List Toml} (n : Int) (h : ∀ v ∈ items, v.InRange) :
    ∀ v ∈ (withPlace n items).1, v.InRange := by
  have hadded (count : Nat) : ∀ v ∈ List.replicate count Toml.absent, v.InRange := by
    intro v hv
    rw [List.eq_of_mem_replicate hv]
    exact .absent
  unfold withPlace
  split
  · exact List.forall_mem_append.mpr ⟨h, hadded _⟩
  · exact List.forall_mem_append.mpr ⟨hadded _, h⟩

theorem inRange_layeredAt (hv : v.InRange) (path : List Step) (h : ∀ w ∈ below, w.InRange) :
    (layeredAt v path below).InRange := by
  induction path generalizing below with
  | nil => exact inRange_layered h hv
  | cons step path ih =>
    have hentries := inRange_entriesOf h
    have hitems := inRange_itemsOf h
    unfold layeredAt
    cases step with
    | key k => exact .table (inRange_put hentries (ih (inRange_lookup hentries)))
    | index n =>
      have hplaces := inRange_withPlace n hitems
      refine .list fun w hw => ?_
      obtain hw | rfl := List.mem_or_eq_of_mem_set hw
      · exact hplaces w hw
      · exact ih fun w hw => hplaces w (List.mem_of_getElem? hw)

theorem inRange_overlay (hbelow : InRangeEntries entries) (h : InRangeEntries upper) :
    InRangeEntries (overlay entries upper) := by
  induction upper generalizing entries with
  | nil => exact hbelow
  | cons entry rest ih =>
    obtain ⟨hentry, hrest⟩ := List.forall_mem_cons.mp h
    refine ih (inRange_entriesOf fun v hv => ?_) hrest
    cases hv
    refine inRange_layeredAt hentry _ fun w hw => ?_
    cases hw
    exact .table hbelow

theorem inRange_entriesIn (h : ∀ w ∈ below, w.InRange) :
    InRangeEntries (Profiles.entriesIn below) := by
  unfold Profiles.entriesIn
  split
  · rename_i entries
    cases h _ rfl with
    | table hentries => exact hentries
  · rename_i items
    cases h _ rfl with
    | list hitems => exact fun e he => hitems _ (List.of_mem_zip he).2
  · exact List.forall_mem_nil _

theorem inRange_said {settings : Entries} {name : String} {s : Setting}
    (h : InRangeEntries settings) (hv : said settings name s = some v) : v.InRange := by
  have hprofile : ∀ w ∈ profile? settings name, w.InRange :=
    inRange_lookup (inRange_entriesOf (inRange_lookup h))
  exact inRange_lookup (inRange_entriesIn hprofile) v (lookup_of_said hv).1

end Settings

/-! ## Limits that come from settings -/

/-- In a settings file a text is read as in the other formats. -/
theorem Profile.threads?_text (s : String) : threads? (.text s) = ThreadLimit.ofWord? s := by
  unfold ThreadLimit.ofWord?
  split
  · rfl
  · rfl
  · rename_i hprocessors hunlimited
    unfold threads?
    split
    · cases ‹Toml.text s = _›
    · exact absurd (Toml.text.inj ‹_›) hprocessors
    · exact absurd (Toml.text.inj ‹_›) hunlimited
    · rfl

theorem Profile.isSmall_of_threads? {v : Toml} {t : ThreadLimit} (hv : v.InRange)
    (h : threads? v = some t) : t.IsSmall := by
  cases hv with
  | text s =>
    rw [threads?_text] at h
    exact ThreadLimit.isSmall_of_ofWord? h
  | integer hn =>
    cases h
    exact ThreadLimit.isSmall_ofInt hn
  | float | boolean | moment | list | table | absent => cases h

theorem Settings.isSmall_of_own {settings : Entries} {name : String} {t : ThreadLimit}
    (h : InRangeEntries settings) (hown : own settings name .maxThreads = some t) : t.IsSmall := by
  obtain ⟨v, hsaid, hread⟩ := Option.bind_eq_some_iff.mp hown
  exact Profile.isSmall_of_threads? (inRange_said h hsaid) hread

namespace Profiles

open Settings (own writtenOut)

theorem isSmall_of_ofUser {settings : Entries} {ps : Profiles} {name : String} {o : Options}
    {t : ThreadLimit} (hrange : InRangeEntries settings) (h : ofUser settings = .ok ps)
    (ho : ps.options name = .ok o) (ht : o.maxThreads = some t) : t.IsSmall := by
  have hwritten : InRangeEntries (writtenOut settings) :=
    Settings.inRange_overlay (List.forall_mem_nil _) hrange
  have hget : o.maxThreads = (((own (writtenOut settings) name .maxThreads).or
      (own (writtenOut settings) defaultName .maxThreads)).or none).or none :=
    (inherit_ofUser h).get_options ho .maxThreads
  rw [Option.or_none, Option.or_none, ht] at hget
  obtain hown | ⟨-, hown⟩ := Option.or_eq_some_iff.mp hget.symm
  · exact Settings.isSmall_of_own hwritten hown
  · exact Settings.isSmall_of_own hwritten hown

end Profiles

namespace SettingsSource

variable {source : SettingsSource} {ps : Profiles}

theorem exists_of_read {file text : String} (h : read file text = .ok ps) :
    ∃ settings, InRangeEntries settings ∧ Profiles.ofUser settings = .ok ps := by
  unfold read at h
  split at h
  · cases h
  · rename_i settings hparse
    refine ⟨settings, Toml.inRange_of_parse? hparse, ?_⟩
    cases hps : Profiles.ofUser settings with
    | error f =>
      rw [hps] at h
      cases h
    | ok ps' =>
      rw [hps] at h
      cases h
      rfl

/-- Wherever profiles come from, they are those of settings whose integers fit in 64 bits. -/
theorem exists_of_profiles (h : source.profiles = .ok ps) :
    ∃ settings, InRangeEntries settings ∧ Profiles.ofUser settings = .ok ps := by
  unfold profiles at h
  split at h
  · cases h
    exact ⟨[], List.forall_mem_nil _, Profiles.ofUser_nil⟩
  · exact exists_of_read h
  · exact exists_of_read h
  · cases h
    exact ⟨[], List.forall_mem_nil _, Profiles.ofUser_nil⟩
  · exact exists_of_read h
  · cases h

end SettingsSource

namespace ThreadLimit

/-- How a limit on threads can come about. -/
inductive Arises : ThreadLimit → Prop where
  /-- From a text. -/
  | parsed {s : String} {t : ThreadLimit} (h : parse s = .ok t) : Arises t
  /-- From an integer of 64 bits, in a program or in settings. -/
  | integer {n : Int} (h : FitsInt64 n) : Arises (ofInt n)
  /-- From an integer of 64 bits without a sign, in settings. -/
  | unsigned {n : Nat} (h : n < 2 ^ 64) : Arises (ofUnsigned n)
  /-- From a word, in settings. -/
  | word {s : String} {t : ThreadLimit} (h : ofWord? s = some t) : Arises t
  /-- From a profile, its own or inherited. -/
  | profile {source : SettingsSource} {ps : Profiles} {name : String} {o : Options}
    {t : ThreadLimit} (hps : source.profiles = .ok ps) (ho : ps.options name = .ok o)
    (ht : o.maxThreads = some t) : Arises t

theorem Arises.isSmall {t : ThreadLimit} (h : t.Arises) : t.IsSmall := by
  cases h with
  | parsed h => exact (parse_eq_ok_iff.mp h).isSmall
  | integer h => exact isSmall_ofInt h
  | unsigned h => exact isSmall_ofUnsigned _
  | word h => exact isSmall_of_ofWord? h
  | profile hps ho ht =>
    obtain ⟨settings, hrange, hsettings⟩ := SettingsSource.exists_of_profiles hps
    exact Profiles.isSmall_of_ofUser hrange hsettings ho ht

theorem parse_eq_error {s : String} (h : ∀ t, ¬ Denotes s t) :
    parse s = .error (.threadLimit s) := by
  unfold parse
  cases ht : ofText? s with
  | none => rfl
  | some t => exact absurd (ofText?_eq_some_iff.mp ht) (h t)

/-- **A limit on threads is read back from what it is shown as**, however it came about. The texts
of the grammar are read as the grammar says, and every other text is reported. -/
theorem parse_readsBack :
    (∀ s t, parse s = .ok t ↔ Denotes s t) ∧
      (∀ s, (∀ t, ¬ Denotes s t) → parse s = .error (.threadLimit s)) ∧
      ∀ t : ThreadLimit, t.Arises → parse t.text = .ok t :=
  ⟨fun _ _ => parse_eq_ok_iff, fun _ => parse_eq_error,
    fun _ h => parse_eq_ok_iff.mpr (denotes_text h.isSmall)⟩

theorem eq_ok_of_toOption {ε α : Type} {x : Except ε α} {a : α} (h : x.toOption = some a) :
    x = .ok a := by
  cases x with
  | error => cases h
  | ok => exact congrArg Except.ok (Option.some.inj h)

/-- A settings file with the largest limit there is. -/
def largest : SettingsSource :=
  .inline "inline.toml" "[profile.ci]\nmax-parallel-threads = 9223372036854775807\n"

theorem parse_readsBack_ends :
    parse "+0009223372036854775807" = .ok (.count 9223372036854775807 (by decide)) ∧
      parse "-00" = .ok .processors ∧
      parse "-9223372036854775808" = .ok .unlimited ∧
      parse "9223372036854775808" = .error (.threadLimit "9223372036854775808") ∧
      parse (ofUnsigned 18446744073709551615).text = .ok (ofUnsigned 18446744073709551615) ∧
      ∃ ps o t, largest.profiles = .ok ps ∧ ps.options "ci" = .ok o ∧ o.maxThreads = some t ∧
        parse t.text = .ok t := by
  obtain ⟨hread, hrefused, hback⟩ := parse_readsBack
  have hspells {s : String} {n : Int} (h : integer? s = some n) : Spells s n :=
    integer?_eq_some_iff.mp h
  refine ⟨(hread _ _).mpr ?_, (hread _ _).mpr ?_, (hread _ _).mpr ?_, hrefused _ fun t ht => ?_,
    hback _ (.unsigned (by decide)), ?_⟩
  · have hcount : Means (9223372036854775807 : Nat) (.count 9223372036854775807 (by decide)) :=
      .positive _
    exact .integer (hspells (by decide +kernel)) (by decide) hcount
  · exact .integer (hspells (by decide +kernel)) (by decide) .zero
  · have hnegative : Means (-9223372036854775808) .unlimited := .negative (by decide)
    exact .integer (hspells (by decide +kernel)) (by decide) hnegative
  · have hnone : ofText? "9223372036854775808" = none := by decide +kernel
    rw [ofText?_eq_some_iff.mpr ht] at hnone
    cases hnone
  · have hlargest : ((largest.profiles.toOption.bind fun ps => (ps.options "ci").toOption).bind
        (·.maxThreads)) = some (.count 9223372036854775807 (by decide)) := by decide +kernel
    obtain ⟨o, hso, ht⟩ := Option.bind_eq_some_iff.mp hlargest
    obtain ⟨ps, hsps, hso⟩ := Option.bind_eq_some_iff.mp hso
    have hps := eq_ok_of_toOption hsps
    have ho := eq_ok_of_toOption hso
    exact ⟨ps, o, _, hps, ho, ht, hback _ (.profile hps ho ht)⟩

end ThreadLimit

end TestEngine
