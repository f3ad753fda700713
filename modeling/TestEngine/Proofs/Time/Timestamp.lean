import Mathlib.Algebra.GroupWithZero.Nat
import Mathlib.Data.List.Basic
import Mathlib.Data.List.TakeDrop
import Mathlib.Data.List.TakeWhile
import TestEngine.Time.Timestamp

/-!
# Points in time are read as they were written

Each part of a written point in time is taken from the front of the text by the reader of that part:
a number of a fixed width by its width, the others by the character that ends them.

* `Timestamp.Reader.run_clock` — reading takes the whole text.
* `Timestamp.ofText?_text` — reading what was written gives the point in time back.
-/

namespace TestEngine.Timestamp

/-! ## Digits -/

/-- The characters of a number with at least `width` digits. -/
def digitChars (width n : Nat) : List Char :=
  List.replicate (width - (Nat.toDigits 10 n).length) '0' ++ Nat.toDigits 10 n

theorem toList_padded (width n : Nat) : (padded width n).toList = digitChars width n := by
  rw [padded, String.toList_append, String.toList_ofList, Nat.toString_eq_repr, Nat.toList_repr,
    ← String.length_toList, Nat.toList_repr, digitChars]

theorem isDigit_digitChars (width n : Nat) : ∀ c ∈ digitChars width n, c.isDigit := by
  intro c hc
  rcases List.mem_append.mp hc with hc | hc
  · rw [(List.mem_replicate.mp hc).2]
    rfl
  · exact Nat.isDigit_of_mem_toDigits (by decide) (by decide) hc

theorem length_digitChars {width n : Nat} (hwidth : 0 < width) (hn : n < 10 ^ width) :
    (digitChars width n).length = width := by
  have hlength := (Nat.length_toDigits_le_iff (b := 10) (by decide) hwidth).mpr hn
  rw [digitChars, List.length_append, List.length_replicate]
  omega

theorem digitChars_ne_nil (width n : Nat) : digitChars width n ≠ [] :=
  List.append_ne_nil_of_right_ne_nil _ Nat.toDigits_ne_nil

namespace Reader

theorem value_eq (ds : List Char) : value ds = Nat.ofDigitChars 10 ds 0 := rfl

theorem value_digitChars (width n : Nat) : value (digitChars width n) = n := by
  rw [value_eq, digitChars, Nat.ofDigitChars_append, Nat.ofDigitChars_replicate_zero, Nat.mul_zero,
    Nat.ofDigitChars_ten_toDigits]

/-- Zeros behind digits multiply them by ten each. -/
theorem value_append_zeros (ds : List Char) (k : Nat) :
    value (ds ++ List.replicate k '0') = 10 ^ k * value ds := by
  rw [value_eq, Nat.ofDigitChars_append, Nat.ofDigitChars_replicate_zero, value_eq]

theorem isBlank_eq_false_of_isDigit {c : Char} (h : c.isDigit) : isBlank c = false := by
  simp only [Char.isDigit, ge_iff_le, Bool.and_eq_true, decide_eq_true_eq,
    UInt32.le_iff_toNat_le] at h
  have hc : 48 ≤ c.toNat ∧ c.toNat ≤ 57 := h
  simp only [isBlank, Bool.or_eq_false_iff, Bool.and_eq_false_iff, decide_eq_false_iff_not,
    beq_eq_false_iff_ne]
  omega

/-! ## Readers, one after the other -/

variable {α β : Type} {c : Char} {cs ds rest : List Char}

/-- What follows a reader goes on with the rest. -/
theorem bind_eq {x : Reader α} {f : α → Reader β} {a : α} (h : x cs = some (a, rest)) :
    (x >>= f) cs = f a rest := by
  show (x cs >>= fun p => f p.1 p.2) = _
  rw [h]
  rfl

theorem skipBlanks_cons (h : isBlank c = false) : skipBlanks (c :: cs) = some ((), c :: cs) := by
  show some ((), (c :: cs).dropWhile isBlank) = _
  rw [List.dropWhile_cons, h, if_neg Bool.false_ne_true]

theorem skipBlanks_digits (hds : ∀ c ∈ ds, c.isDigit) (hne : ds ≠ []) :
    skipBlanks (ds ++ rest) = some ((), ds ++ rest) := by
  obtain ⟨d, ds, rfl⟩ := List.exists_cons_of_ne_nil hne
  exact skipBlanks_cons (isBlank_eq_false_of_isDigit (hds d List.mem_cons_self))

theorem next_cons {test : Char → Bool} (h : test c) : next test (c :: cs) = some (c, cs) := if_pos h

theorem takes_cons {test : Char → Bool} (h : test c) : takes test (c :: cs) = some (true, cs) :=
  if_pos h

theorem takes_cons_of_not {test : Char → Bool} (h : test c = false) :
    takes test (c :: cs) = some (false, c :: cs) := if_neg (by rw [h]; decide)

theorem takes_of_ne {d : Char} (h : c ≠ d) : takes (· == d) (c :: cs) = some (false, c :: cs) :=
  takes_cons_of_not (beq_eq_false_iff_ne.mpr h)

theorem ne_of_isDigit {d : Char} (hc : c.isDigit) (hd : d.isDigit = false) : c ≠ d := by
  rintro rfl
  rw [hc] at hd
  cases hd

theorem next_self : next (· == c) (c :: cs) = some (c, cs) := next_cons (beq_self_eq_true c)

theorem takes_self : takes (· == c) (c :: cs) = some (true, cs) := takes_cons (beq_self_eq_true c)

/-- A separator that is there is taken. -/
theorem separator_cons (h : isBlank c = false) : separator c (c :: cs) = some ((), cs) := by
  rw [separator, bind_eq (skipBlanks_cons h), bind_eq next_self]
  rfl

/-- As many digits as a number may have are taken, whatever follows. -/
theorem number_append (hds : ∀ c ∈ ds, c.isDigit) (hne : ds ≠ []) :
    number ds.length (ds ++ rest) = some (value ds, rest) := by
  have htake : ((ds ++ rest).take ds.length).takeWhile Char.isDigit = ds := by
    rw [List.take_left', List.takeWhile_eq_self_iff.mpr hds]
    rfl
  rw [number, bind_eq (skipBlanks_digits hds hne)]
  show (if (((ds ++ rest).take ds.length).takeWhile Char.isDigit).isEmpty then none else _) = _
  rw [htake, if_neg (by simpa using hne), List.drop_left']
  rfl

/-- A number of a fixed width is taken by its width. -/
theorem number_digitChars {width n : Nat} (hwidth : 0 < width) (hn : n < 10 ^ width) :
    number width (digitChars width n ++ rest) = some (n, rest) := by
  have h : number (digitChars width n).length (digitChars width n ++ rest) =
      some (value (digitChars width n), rest) :=
    number_append (isDigit_digitChars width n) (digitChars_ne_nil width n)
  rwa [length_digitChars hwidth hn, value_digitChars] at h

/-- No digit follows. -/
def NoDigit (cs : List Char) : Prop := ∀ c ∈ cs.head?, c.isDigit = false

/-- All digits are taken if no digit follows them. -/
theorem digits_append (hds : ∀ c ∈ ds, c.isDigit) (hrest : NoDigit rest) :
    digits (ds ++ rest) = some (ds, rest) := by
  have htail : rest.takeWhile Char.isDigit = [] ∧ rest.dropWhile Char.isDigit = rest := by
    cases rest with
    | nil => exact ⟨rfl, rfl⟩
    | cons c rest =>
      have hc := hrest c rfl
      rw [List.takeWhile_cons, List.dropWhile_cons, hc]
      exact ⟨rfl, rfl⟩
  rw [digits, List.span_eq_takeWhile_dropWhile, List.takeWhile_append_of_pos hds,
    List.dropWhile_append_of_pos hds, htail.1, htail.2, List.append_nil]

/-- The digits of a year with a sign. -/
def signedYear : Reader Nat := do
  let ds ← digits
  if ds.isEmpty then fail else pure (value ds)

theorem signedYear_append {n : Nat} (hrest : NoDigit rest) :
    signedYear (digitChars 4 n ++ rest) = some (n, rest) := by
  rw [signedYear, bind_eq (digits_append (isDigit_digitChars _ _) hrest),
    if_neg (by simpa using digitChars_ne_nil _ _), value_digitChars]
  rfl

theorem year_eq : year = (do
    skipBlanks
    if ← takes (· == '-') then return -(← signedYear : Nat)
    else if ← takes (· == '+') then return (← signedYear : Nat)
    else return (← number 4 : Nat) : Reader Int) := rfl

/-- A year is taken; what follows it is no digit. -/
theorem year_append {y : Int} (hrest : NoDigit rest) :
    year ((yearText y).toList ++ rest) = some (y, rest) := by
  rw [year_eq, yearText]
  by_cases hy : 0 ≤ y ∧ y ≤ 9999
  · -- four digits without a sign
    have hnumber : number 4 (digitChars 4 y.toNat ++ rest) = some (y.toNat, rest) :=
      number_digitChars (by decide) (by omega)
    rw [if_pos hy, toList_padded,
      bind_eq (skipBlanks_digits (isDigit_digitChars _ _) (digitChars_ne_nil _ _))]
    obtain ⟨d, ds, hd⟩ := List.exists_cons_of_ne_nil (digitChars_ne_nil 4 y.toNat)
    have hdigit : d.isDigit := isDigit_digitChars _ _ d (hd ▸ List.mem_cons_self)
    rw [hd, List.cons_append] at hnumber ⊢
    rw [bind_eq (takes_of_ne (ne_of_isDigit hdigit (by decide))), if_neg Bool.false_ne_true,
      bind_eq (takes_of_ne (ne_of_isDigit hdigit (by decide))), if_neg Bool.false_ne_true,
      bind_eq hnumber]
    have hcast : (y.toNat : Int) = y := by omega
    rw [hcast]
    rfl
  · rw [if_neg hy]
    by_cases hneg : y < 0
    · rw [if_pos hneg, String.toList_append, toList_padded]
      show (skipBlanks >>= _) ('-' :: (digitChars 4 y.natAbs ++ rest)) = _
      rw [bind_eq (skipBlanks_cons (by decide)), bind_eq takes_self, if_pos rfl,
        bind_eq (signedYear_append hrest)]
      have hcast : -(y.natAbs : Int) = y := by omega
      rw [hcast]
      rfl
    · rw [if_neg hneg, String.toList_append, toList_padded]
      show (skipBlanks >>= _) ('+' :: (digitChars 4 y.natAbs ++ rest)) = _
      rw [bind_eq (skipBlanks_cons (by decide)), bind_eq (takes_of_ne (by decide)),
        if_neg Bool.false_ne_true, bind_eq takes_self, if_pos rfl,
        bind_eq (signedYear_append hrest)]
      have hcast : (y.natAbs : Int) = y := by omega
      rw [hcast]
      rfl

/-- Digits behind a point count as a part of nine. -/
theorem fraction_point {width n : Nat} (hwidth : 0 < width ∧ width ≤ 9) (hn : n < 10 ^ width)
    (hrest : NoDigit rest) :
    fraction ('.' :: (digitChars width n ++ rest)) = some (10 ^ (9 - width) * n, rest) := by
  have hlength := length_digitChars hwidth.1 hn
  have htake : (digitChars width n).take 9 = digitChars width n :=
    List.take_of_length_le (by omega)
  rw [fraction, bind_eq takes_self, if_pos rfl,
    bind_eq (digits_append (isDigit_digitChars _ _) hrest),
    if_neg (by simpa using digitChars_ne_nil _ _), htake, hlength, value_append_zeros,
    value_digitChars]
  rfl

/-- A fraction is taken; what follows it is no digit and no point. -/
theorem fraction_append {nanos : Nat} (hnanos : nanos < 1000000000) (hrest : NoDigit rest)
    (hpoint : ∀ c ∈ rest.head?, c ≠ '.') :
    fraction ((fractionText nanos).toList ++ rest) = some (nanos, rest) := by
  have hwritten : ∀ width n, 0 < width ∧ width ≤ 9 → n < 10 ^ width →
      10 ^ (9 - width) * n = nanos →
        fraction (("." ++ padded width n).toList ++ rest) = some (nanos, rest) := by
    intro width n hwidth hn hvalue
    rw [String.toList_append, toList_padded, ← hvalue]
    exact fraction_point hwidth hn hrest
  unfold fractionText
  split
  · rename_i hzero
    have hnone : takes (· == '.') rest = some (false, rest) := by
      cases rest with
      | nil => rfl
      | cons c rest => exact takes_of_ne (hpoint c rfl)
    rw [hzero]
    show fraction rest = _
    rw [fraction, bind_eq hnone]
    rfl
  · split
    · exact hwritten 3 _ (by decide) (by omega) (by omega)
    · split
      · exact hwritten 6 _ (by decide) (by omega) (by omega)
      · exact hwritten 9 _ (by decide) (by omega) (by omega)

theorem twoDigits_append {n : Nat} (hn : n < 100) :
    twoDigits (digitChars 2 n ++ rest) = some (n, rest) := by
  have hlength := length_digitChars (n := n) (show 0 < 2 by decide) (by omega)
  have hvalue := value_digitChars 2 n
  have hdigits := isDigit_digitChars 2 n
  obtain ⟨a, b, hab⟩ := List.length_eq_two.mp hlength
  rw [hab] at hvalue hdigits ⊢
  show twoDigits (a :: b :: rest) = _
  rw [twoDigits, bind_eq (next_cons (hdigits a (by simp))),
    bind_eq (next_cons (hdigits b (by simp))), hvalue]
  rfl

theorem takesUtc_of_ne (h : c.toUpper ≠ 'U') : takesUtc (c :: cs) = some (false, c :: cs) := by
  refine if_neg fun heq => h ?_
  rw [List.take_succ_cons, List.map_cons, beq_iff_eq] at heq
  exact (List.cons.inj heq).1

/-- The colon between hours and minutes is dropped, and no digit. -/
theorem modify_colon {m : Nat} :
    (modify (·.dropWhile fun c => c == ':' || isBlank c) : Reader Unit) (':' :: digitChars 2 m) =
      some ((), digitChars 2 m) := by
  show some ((), (':' :: digitChars 2 m).dropWhile _) = _
  obtain ⟨d, ds, hd⟩ := List.exists_cons_of_ne_nil (digitChars_ne_nil 2 m)
  have hdigit : d.isDigit := isDigit_digitChars _ _ d (hd ▸ List.mem_cons_self)
  have hcolon : (d == ':') = false := beq_eq_false_iff_ne.mpr (ne_of_isDigit hdigit (by decide))
  rw [hd, List.dropWhile_cons_of_pos (by decide), List.dropWhile_cons_of_neg]
  rw [hcolon, isBlank_eq_false_of_isDigit hdigit]
  decide

/-- An offset with a sign is taken. -/
theorem offset_sign {sign : Char} {h m : Nat} (hsign : sign = '+' ∨ sign = '-') (hh : h < 100)
    (hm : m < 60) :
    offset (sign :: (digitChars 2 h ++ ':' :: digitChars 2 m)) =
      some (if sign == '+' then ((60 * h + m : Nat) : Int) else -((60 * h + m : Nat) : Int),
        []) := by
  have hends : twoDigits (digitChars 2 m ++ []) = some (m, []) := twoDigits_append (by omega)
  rw [List.append_nil] at hends
  have hfirst : isBlank sign = false ∧ sign.toUpper ≠ 'U' ∧
      (sign == 'Z' || sign == 'z') = false ∧
        (sign == '+' || sign == '-' || sign == '\u2212') = true := by
    rcases hsign with rfl | rfl <;> decide
  obtain ⟨hblank, hutc, hzulu, hnext⟩ := hfirst
  rw [offset, bind_eq (skipBlanks_cons hblank), bind_eq (takesUtc_of_ne hutc),
    if_neg Bool.false_ne_true, bind_eq (takes_cons_of_not hzulu), if_neg Bool.false_ne_true,
    bind_eq (next_cons hnext), bind_eq (twoDigits_append hh), bind_eq modify_colon, bind_eq hends,
    if_neg (by omega)]
  rfl

/-- The offset that ends a text is taken. -/
theorem offset_offsetText {n : Int} (hn : -1440 < n ∧ n < 1440) :
    offset (offsetText n).toList = some (n, []) := by
  have hchars : ∀ sign : String, (sign ++ padded 2 (n.natAbs / 60) ++ ":" ++
      padded 2 (n.natAbs % 60)).toList =
        sign.toList ++ (digitChars 2 (n.natAbs / 60) ++ ':' :: digitChars 2 (n.natAbs % 60)) := by
    intro sign
    simp only [String.toList_append, toList_padded, List.append_assoc]
    rfl
  have hvalue : 60 * (n.natAbs / 60) + n.natAbs % 60 = n.natAbs := Nat.div_add_mod _ _
  unfold offsetText
  split
  · rename_i hzero
    rw [hzero]
    rfl
  · rw [hchars]
    split
    · rename_i hneg
      have h := offset_sign (.inr rfl) (show n.natAbs / 60 < 100 by omega)
        (Nat.mod_lt n.natAbs (show 0 < 60 by decide))
      rw [hvalue] at h
      have hcast : -(n.natAbs : Int) = n := by omega
      rw [if_neg (by decide), hcast] at h
      exact h
    · rename_i hneg
      have h := offset_sign (.inl rfl) (show n.natAbs / 60 < 100 by omega)
        (Nat.mod_lt n.natAbs (show 0 < 60 by decide))
      rw [hvalue] at h
      have hcast : (n.natAbs : Int) = n := by omega
      rw [if_pos (by decide), hcast] at h
      exact h

/-! ## The whole text -/

theorem noDigit_cons (h : c.isDigit = false) : NoDigit (c :: cs) := by
  rintro d ⟨⟩
  exact h

/-- An offset begins with no digit and no point. -/
theorem head?_offsetText {n : Int} :
    ∀ c ∈ (offsetText n).toList.head?, c.isDigit = false ∧ c ≠ '.' := by
  have hsign : ∀ (sign : Char) (s t u : String),
      (String.singleton sign ++ s ++ t ++ u).toList.head? = some sign := by
    intro sign s t u
    simp [String.toList_append]
  unfold offsetText
  split
  · rintro c ⟨⟩
    decide
  · split
    · rw [show ("-" : String) = String.singleton '-' from rfl, hsign]
      rintro c ⟨⟩
      decide
    · rw [show ("+" : String) = String.singleton '+' from rfl, hsign]
      rintro c ⟨⟩
      decide

theorem toList_text (t : Timestamp) : t.text.toList =
    (yearText t.year).toList ++ '-' :: (digitChars 2 t.month ++ '-' :: (digitChars 2 t.day ++
      'T' :: (digitChars 2 t.hour ++ ':' :: (digitChars 2 t.minute ++ ':' ::
        (digitChars 2 t.second ++ ((fractionText t.nanos).toList ++
          (offsetText t.offset).toList)))))) := by
  simp only [text, String.toList_append, toList_padded, List.append_assoc]
  rfl

/-- Reading takes the whole text. -/
theorem run_clock (t : Timestamp) : clock.run t.text.toList = some (t.toClockReading, []) := by
  obtain ⟨-, hmonth, hday, hhour, hminute, hsecond, hnanos, hoffset, -⟩ := t.valid
  have hlast : ClockReading.daysInMonth t.year t.month ≤ 31 := by
    unfold ClockReading.daysInMonth
    split <;> split <;> decide
  have htwo : 0 < 2 := by decide
  show clock t.text.toList = _
  rw [toList_text, clock, bind_eq (year_append (noDigit_cons (by decide))),
    bind_eq (separator_cons (by decide)), bind_eq (number_digitChars htwo (by omega)),
    bind_eq (separator_cons (by decide)), bind_eq (number_digitChars htwo (by omega)),
    bind_eq (next_cons (by decide)), bind_eq (number_digitChars htwo (by omega)),
    bind_eq (separator_cons (by decide)), bind_eq (number_digitChars htwo (by omega)),
    bind_eq (separator_cons (by decide)), bind_eq (number_digitChars htwo (by omega)),
    bind_eq (fraction_append hnanos (fun c hc => (head?_offsetText c hc).1)
      fun c hc => (head?_offsetText c hc).2),
    bind_eq (offset_offsetText hoffset)]
  rfl

end Reader

/-- **A point in time is read as it was written.** -/
theorem ofText?_text (t : Timestamp) : ofText? t.text = some t := by
  rw [ofText?, Reader.run_clock]
  exact dif_pos t.valid

end TestEngine.Timestamp
