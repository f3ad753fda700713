import TestEngine.Toml.Reader

/-!
# Integers of a settings file fit in 64 bits

A value of a settings file can hold integers anywhere in its tables and lists. The reader checks an
integer where it ends, and no later step makes a new one.

* `Toml.InRange`, `Draft.InRange`, `State.InRange` — all integers fit, in a value, in a table under
  construction and in what the reader has read so far.
* `inRange_step`, `inRange_foldlM` — one token keeps that, and so do all tokens of a text.
* `inRange_of_parse?` — all integers of a settings file fit.
-/

namespace TestEngine.Toml

open Keyed (put remove)

/-- All integers in a value fit in 64 bits. -/
inductive InRange : Toml → Prop where
  | text (s : String) : InRange (.text s)
  | integer {n : Int} (h : FitsInt64 n) : InRange (.integer n)
  | float (x : Binary64) : InRange (.float x)
  | boolean (b : Bool) : InRange (.boolean b)
  | moment (m : Moment) : InRange (.moment m)
  | list {items : List Toml} (h : ∀ v ∈ items, InRange v) : InRange (.list items)
  | table {entries : Entries} (h : ∀ e ∈ entries, InRange e.2) : InRange (.table entries)
  | absent : InRange .absent

/-- All integers in the values of entries fit in 64 bits. -/
def InRangeEntries (entries : Entries) : Prop := ∀ e ∈ entries, e.2.InRange

/-! ## Words -/

theorem inRange_of_integer? {n : Int} {v : Toml} (h : integer? n = some v) : v.InRange := by
  unfold integer? at h
  split at h
  · rename_i hn
    cases h
    exact .integer hn
  · cases h

theorem inRange_of_float? {negative : Bool} {whole fraction : List Char} {exponent : Int} {v : Toml}
    (h : float? negative whole fraction exponent = some v) : v.InRange := by
  unfold float? at h
  split at h
  · cases h
  · cases h
    exact .float _

theorem inRange_of_based? {base : Nat} {cs : List Char} {v : Toml} (h : based? base cs = some v) :
    v.InRange := by
  obtain ⟨ds, -, hv⟩ := Option.bind_eq_some_iff.mp h
  exact inRange_of_integer? hv

theorem inRange_of_decimal? {negative : Bool} {cs : List Char} {v : Toml}
    (h : decimal? negative cs = some v) : v.InRange := by
  unfold decimal? at h
  dsimp only at h
  split at h
  · obtain ⟨ds, -, hv⟩ := Option.bind_eq_some_iff.mp h
    exact inRange_of_integer? hv
  · obtain ⟨ds, -, hv⟩ := Option.bind_eq_some_iff.mp h
    obtain ⟨e, -, hv⟩ := Option.bind_eq_some_iff.mp hv
    exact inRange_of_float? hv
  · obtain ⟨ds, -, hv⟩ := Option.bind_eq_some_iff.mp h
    obtain ⟨es, -, hv⟩ := Option.bind_eq_some_iff.mp hv
    obtain ⟨e, -, hv⟩ := Option.bind_eq_some_iff.mp hv
    exact inRange_of_float? hv

theorem inRange_of_signed? {negative : Bool} {cs : List Char} {v : Toml}
    (h : signed? negative cs = some v) : v.InRange := by
  unfold signed? at h
  split at h
  · cases h
    exact .float _
  · cases h
    exact .float _
  · exact inRange_of_decimal? h

theorem inRange_of_number? {cs : List Char} {v : Toml} (h : number? cs = some v) : v.InRange := by
  unfold number? at h
  split at h
  · exact inRange_of_based? h
  · exact inRange_of_based? h
  · exact inRange_of_based? h
  · exact inRange_of_signed? h
  · exact inRange_of_signed? h
  · exact inRange_of_signed? h

/-- The integer that a word spells fits. -/
theorem inRange_of_scalar? {word : String} {v : Toml} (h : scalar? word = some v) : v.InRange := by
  unfold scalar? at h
  split at h
  · cases h
    exact .boolean true
  · cases h
    exact .boolean false
  · obtain hnumber | ⟨-, hmoment⟩ := Option.or_eq_some_iff.mp (Option.orElse_eq_or.symm.trans h)
    · exact inRange_of_number? hnumber
    · obtain ⟨m, -, rfl⟩ := Option.map_eq_some_iff.mp hmoment
      exact .moment m

/-! ## Tables under construction -/

/-- All integers in a value under construction fit in 64 bits. -/
inductive Draft.InRange : Draft → Prop where
  | value {v : Toml} (h : v.InRange) : InRange (.value v)
  | table {origin : Origin} {entries : List (String × Draft)} (h : ∀ e ∈ entries, InRange e.2) :
    InRange (.table origin entries)
  | tables {items : List Draft} (h : ∀ d ∈ items, InRange d) : InRange (.tables items)

namespace Draft

theorem inRange_bare (origin : Origin) : (Draft.table origin []).InRange :=
  .table (List.forall_mem_nil _)

theorem inRange_empty : empty.InRange := inRange_bare .defined

theorem InRange.put {origin : Origin} {entries : List (String × Draft)} {d : Draft}
    (h : (Draft.table origin entries).InRange) (hd : d.InRange) (origin' : Origin) (key : String) :
    (Draft.table origin' (put key d entries)).InRange := by
  cases h with
  | table h =>
    refine .table fun e he => ?_
    obtain rfl | he := Keyed.mem_put he
    · exact hd
    · exact h e he

theorem InRange.lookup {origin : Origin} {entries : List (String × Draft)} {key : String}
    {d : Draft} (h : (Draft.table origin entries).InRange) (hd : entries.lookup key = some d) :
    d.InRange := by
  cases h with
  | table h => exact h _ (Keyed.mem_of_lookup hd)

theorem InRange.claim {origin : Origin} {entries : List (String × Draft)}
    (h : (Draft.table origin entries).InRange) (origin' : Origin) :
    (Draft.table origin' entries).InRange := by
  cases h with
  | table h => exact .table h

theorem InRange.remove {origin : Origin} {entries : List (String × Draft)}
    (h : (Draft.table origin entries).InRange) (key : String) :
    (Draft.table origin (remove key entries)).InRange := by
  cases h with
  | table h => exact .table fun e he => h e (List.mem_filter.mp he).1

/-- A change at the end of a path keeps all integers in range if it does so there. -/
theorem inRange_descend {dotted : Bool} {change : Draft → Option Draft}
    (hchange : ∀ {d d'}, d.InRange → change d = some d' → d'.InRange) {path : List String}
    {d d' : Draft} (hd : d.InRange) (h : descend dotted change path d = some d') : d'.InRange := by
  induction path generalizing d d' with
  | nil =>
    unfold descend at h
    exact hchange hd h
  | cons key path ih =>
    cases d with
    | value v => cases h
    | tables items => cases h
    | table origin entries =>
      unfold descend at h
      dsimp only at h
      split at h
      · obtain ⟨next, hnext, h⟩ := Option.bind_eq_some_iff.mp h
        cases h
        exact hd.put (ih (inRange_bare _) hnext) _ _
      · rename_i o es hlookup
        have hentries := hd.lookup hlookup
        split at h
        · obtain ⟨next, hnext, h⟩ := Option.bind_eq_some_iff.mp h
          cases h
          exact hd.put (ih hentries hnext) _ _
        · split at h
          · cases h
          · obtain ⟨next, hnext, h⟩ := Option.bind_eq_some_iff.mp h
            cases h
            exact hd.put (ih (hentries.claim _) hnext) _ _
      · rename_i last earlier hlookup
        obtain ⟨next, hnext, h⟩ := Option.bind_eq_some_iff.mp h
        cases h
        obtain ⟨t, ht, rfl⟩ := Option.map_eq_some_iff.mp hnext
        refine hd.put (.tables ?_) _ _
        cases hd.lookup hlookup with
        | tables hitems =>
          obtain ⟨hlast, hearlier⟩ := List.forall_mem_cons.mp hitems
          exact List.forall_mem_cons.mpr ⟨ih hlast ht, hearlier⟩
      · cases h

theorem inRange_of_define {path : List String} {key : String} {v : Toml} {d d' : Draft}
    (hd : d.InRange) (hv : v.InRange) (h : define path key v d = some d') : d'.InRange := by
  refine inRange_descend (fun {d d'} hd h => ?_) hd h
  split at h
  · split at h
    · cases h
    · cases h
      exact hd.put (.value hv) _ _
  · cases h

theorem inRange_of_openTable {path : List String} {key : String} {d d' : Draft}
    (hd : d.InRange) (h : openTable path key d = some d') : d'.InRange := by
  refine inRange_descend (fun {d d'} hd h => ?_) hd h
  split at h
  · rename_i origin entries
    split at h
    · cases h
      exact hd.put inRange_empty _ _
    · rename_i es hlookup
      cases h
      exact (hd.remove key).put ((hd.lookup hlookup).claim _) _ _
    · cases h
  · cases h

theorem inRange_of_openItem {path : List String} {key : String} {d d' : Draft}
    (hd : d.InRange) (h : openItem path key d = some d') : d'.InRange := by
  refine inRange_descend (fun {d d'} hd h => ?_) hd h
  split at h
  · split at h
    · cases h
      exact hd.put (.tables (List.forall_mem_singleton.mpr inRange_empty)) _ _
    · rename_i items hlookup
      cases h
      cases hd.lookup hlookup with
      | tables hitems =>
        exact hd.put (.tables (List.forall_mem_cons.mpr ⟨inRange_empty, hitems⟩)) _ _
    · cases h
  · cases h

mutual

/-- The finished value has the integers of the draft. -/
theorem InRange.toValue : ∀ {d : Draft}, d.InRange → d.toValue.InRange
  | .value _, .value h => h
  | .table _ _, .table h => .table (InRange.toEntries h)
  | .tables _, .tables h => .list fun v hv => InRange.toItems h v (List.mem_reverse.mp hv)

theorem InRange.toEntries : ∀ {entries : List (String × Draft)}, (∀ e ∈ entries, e.2.InRange) →
    InRangeEntries (Draft.toEntries entries)
  | [], _ => nofun
  | (_, _) :: _, h => by
    obtain ⟨hd, hrest⟩ := List.forall_mem_cons.mp h
    exact List.forall_mem_cons.mpr ⟨InRange.toValue hd, InRange.toEntries hrest⟩

theorem InRange.toItems : ∀ {items : List Draft}, (∀ d ∈ items, d.InRange) →
    ∀ v ∈ Draft.toItems items, v.InRange
  | [], _ => nofun
  | _ :: _, h => by
    obtain ⟨hd, hrest⟩ := List.forall_mem_cons.mp h
    exact List.forall_mem_cons.mpr ⟨InRange.toValue hd, InRange.toItems hrest⟩

end

end Draft

/-! ## The reader -/

namespace Reader

/-- All integers behind an open bracket or brace fit in 64 bits. -/
def Open.InRange : Open → Prop
  | .list items => ∀ v ∈ items, v.InRange
  | .braces draft _ => draft.InRange

/-- All integers that were read so far fit in 64 bits. -/
structure State.InRange (st : State) : Prop where
  root : st.root.InRange
  brackets : ∀ o ∈ st.brackets, o.InRange

namespace State

variable {st st' : State}

theorem InRange.onward (h : st.InRange) (next : Next) : State.InRange { st with next } :=
  ⟨h.root, h.brackets⟩

/-- A value may be placed wherever one is awaited. -/
theorem InRange.place {v : Toml} (h : st.InRange) (hv : v.InRange)
    (hplace : st.place v = some st') : st'.InRange := by
  have hbrackets := h.brackets
  unfold State.place at hplace
  split at hplace
  · split at hplace
    · cases hplace
    · obtain ⟨root, hroot, rfl⟩ := Option.map_eq_some_iff.mp hplace
      exact ⟨Draft.inRange_descend (fun hd => Draft.inRange_of_define hd hv) h.root hroot,
        hbrackets⟩
  · rename_i items outer heq
    cases hplace
    rw [heq, List.forall_mem_cons] at hbrackets
    refine ⟨h.root, List.forall_mem_cons.mpr ⟨?_, hbrackets.2⟩⟩
    exact List.forall_mem_cons.mpr ⟨hv, hbrackets.1⟩
  · cases hplace
  · rename_i draft last front outer heq
    obtain ⟨draft', hdraft, rfl⟩ := Option.map_eq_some_iff.mp hplace
    rw [heq, List.forall_mem_cons] at hbrackets
    refine ⟨h.root, List.forall_mem_cons.mpr ⟨?_, hbrackets.2⟩⟩
    exact Draft.inRange_of_define hbrackets.1 hv hdraft

theorem InRange.enter {key : List String} {opening : List String → String → Draft → Option Draft}
    (h : st.InRange)
    (hopening : ∀ {path key d d'}, d.InRange → opening path key d = some d' → d'.InRange)
    (henter : st.enter key opening = some st') : st'.InRange := by
  unfold State.enter at henter
  split at henter
  · cases henter
  · obtain ⟨root, hroot, rfl⟩ := Option.map_eq_some_iff.mp henter
    exact ⟨hopening h.root hroot, h.brackets⟩

theorem InRange.setKey {use : KeyUse} {key : List String} (h : st.InRange)
    (hset : st.setKey use key = some st') : st'.InRange := by
  have hbrackets := h.brackets
  unfold State.setKey at hset
  split at hset
  · cases hset
    exact ⟨h.root, h.brackets⟩
  · rename_i draft key outer heq
    cases hset
    rw [heq, List.forall_mem_cons] at hbrackets
    exact ⟨h.root, List.forall_mem_cons.mpr hbrackets⟩
  · cases hset

theorem InRange.push {o : Open} {next : Next} (h : st.InRange) (ho : o.InRange)
    (hpush : st.push o next = some st') : st'.InRange := by
  unfold State.push at hpush
  split at hpush
  · cases hpush
    exact ⟨h.root, List.forall_mem_cons.mpr ⟨ho, h.brackets⟩⟩
  · cases hpush

theorem InRange.close {t : Token} (h : st.InRange) (hclose : st.close t = some st') :
    st'.InRange := by
  have hbrackets := h.brackets
  unfold State.close at hclose
  split at hclose
  · rename_i items outer heq
    rw [heq, List.forall_mem_cons] at hbrackets
    have houter : State.InRange { st with brackets := outer } := ⟨h.root, hbrackets.2⟩
    refine houter.place (.list fun v hv => ?_) hclose
    exact hbrackets.1 v (List.mem_reverse.mp hv)
  · rename_i draft key outer heq
    rw [heq, List.forall_mem_cons] at hbrackets
    have houter : State.InRange { st with brackets := outer } := ⟨h.root, hbrackets.2⟩
    exact houter.place hbrackets.1.toValue hclose
  · cases hclose

theorem InRange.comma (h : st.InRange) (hcomma : st.comma = some st') : st'.InRange := by
  unfold State.comma at hcomma
  split at hcomma
  · cases hcomma
    exact h.onward _
  · cases hcomma
    exact h.onward _
  · cases hcomma

end State

/-! ## Tokens -/

variable {st st' : State} {t : Token}

theorem inRange_start : start.InRange := ⟨Draft.inRange_empty, List.forall_mem_nil _⟩

theorem inRange_stepValue (h : st.InRange) (hstep : stepValue st t = some st') : st'.InRange := by
  unfold stepValue at hstep
  split at hstep
  · cases hstep
    exact h
  · cases hstep
    exact h
  · exact h.push (o := .list []) (List.forall_mem_nil _) hstep
  · exact h.push (o := .braces Draft.empty []) Draft.inRange_empty hstep
  · exact h.place (.text _) hstep
  · exact h.place (.text _) hstep
  · cases hstep
    exact h.onward _
  · cases hstep

theorem inRange_stepPart {use : KeyUse} {read : List String} (h : st.InRange)
    (hstep : stepPart st use read t = some st') : st'.InRange := by
  unfold stepPart at hstep
  split at hstep
  · cases hstep
    exact h.onward _
  · cases hstep
    exact h.onward _
  · obtain ⟨s, -, rfl⟩ := Option.map_eq_some_iff.mp hstep
    exact h.onward _

theorem inRange_stepAfterPart {use : KeyUse} {read : List String} (h : st.InRange)
    (hstep : stepAfterPart st use read t = some st') : st'.InRange := by
  unfold stepAfterPart at hstep
  split at hstep
  · cases hstep
    exact h
  · cases hstep
    exact h
  · split at hstep
    · cases hstep
      exact h.onward _
    · cases hstep
  · cases hstep
    exact h.onward _
  · exact h.setKey hstep
  · exact h.enter Draft.inRange_of_openTable hstep
  · cases hstep
    exact h.onward _
  · cases hstep

theorem inRange_stepApart (h : st.InRange) (hstep : stepApart st t = some st') : st'.InRange := by
  unfold stepApart at hstep
  split at hstep
  -- Either a step of its own keeps the range, or nothing is written.
  all_goals first
    | exact inRange_stepPart h hstep
    | exact inRange_stepAfterPart h hstep
    | exact inRange_stepValue h hstep
    | exact h.enter Draft.inRange_of_openItem hstep
    | exact h.setKey hstep
    | exact h.close hstep
    | exact h.comma hstep
    | cases hstep
  all_goals first
    | exact h
    | exact h.onward _

theorem inRange_stepBehind {word : String} (h : st.InRange)
    (hstep : stepBehind st word t = some st') : st'.InRange := by
  obtain ⟨v, hv, hstep⟩ := Option.bind_eq_some_iff.mp hstep
  obtain ⟨placed, hplaced, hstep⟩ := Option.bind_eq_some_iff.mp hstep
  exact inRange_stepApart (h.place (inRange_of_scalar? hv) hplaced) hstep

/-- A token keeps all integers in range. -/
theorem inRange_step (h : st.InRange) (hstep : step st t = some st') : st'.InRange := by
  unfold step at hstep
  split at hstep
  · cases hstep
    exact h.onward _
  · cases hstep
    exact h.onward _
  · split at hstep
    · cases hstep
      exact h.onward _
    · exact inRange_stepBehind h hstep
  · exact inRange_stepBehind h hstep
  · cases hstep
    exact h.onward _
  · exact inRange_stepBehind h hstep
  · exact inRange_stepApart h hstep

/-- So do all tokens of a text. -/
theorem inRange_foldlM {tokens : List Token} (h : st.InRange)
    (hrun : tokens.foldlM step st = some st') : st'.InRange := by
  induction tokens generalizing st with
  | nil =>
    cases hrun
    exact h
  | cons t rest ih =>
    rw [List.foldlM_cons] at hrun
    obtain ⟨next, hstep, hrun⟩ := Option.bind_eq_some_iff.mp hrun
    exact ih (inRange_step h hstep) hrun

theorem inRange_of_table? {tokens : List Token} {entries : Entries}
    (h : table? tokens = some entries) : InRangeEntries entries := by
  unfold table? at h
  split at h
  · rename_i root _ _ _ _ hrun
    cases h
    cases (inRange_foldlM inRange_start hrun).root with
    | table hentries => exact Draft.InRange.toEntries hentries
  · cases h

end Reader

/-- **All integers of a settings file fit in 64 bits.** -/
theorem inRange_of_parse? {text : String} {entries : Entries} (h : parse? text = some entries) :
    InRangeEntries entries := by
  obtain ⟨tokens, -, htable⟩ := Option.bind_eq_some_iff.mp h
  exact Reader.inRange_of_table? htable

end TestEngine.Toml
