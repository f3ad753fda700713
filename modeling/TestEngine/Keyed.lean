/-!
# Lists with keys

A list of pairs of a key and a value, in which the first pair with a key counts. The order of the
keys is the order in which they were first put in.

* `lookup_put`, `lookup_remove` — what is looked up after a change.
* `nodup_put` — no change gives a key a second value.
* `exists_split` — where a value that is looked up stands, and what a change makes of the list.
-/

namespace TestEngine.Keyed

variable {κ α : Type} [DecidableEq κ]

/-- Sets the value of a key, in its old place if it is there and else at the end. -/
def put (key : κ) (value : α) : List (κ × α) → List (κ × α)
  | [] => [(key, value)]
  | (k, v) :: rest => if k = key then (key, value) :: rest else (k, v) :: put key value rest

/-- Removes a key. -/
def remove (key : κ) (entries : List (κ × α)) : List (κ × α) := entries.filter (·.1 != key)

theorem lookup_cons_of_ne {k key : κ} (h : k ≠ key) (v : α) (rest : List (κ × α)) :
    ((key, v) :: rest).lookup k = rest.lookup k := by
  have hb : (k == key) = false := beq_false_of_ne h
  rw [List.lookup_cons, hb]

theorem lookup_put (key k : κ) (value : α) (entries : List (κ × α)) :
    (put key value entries).lookup k = if k = key then some value else entries.lookup k := by
  induction entries with
  | nil =>
    unfold put
    split
    · rename_i h
      rw [h, List.lookup_cons_self]
    · rename_i h
      exact lookup_cons_of_ne h value []
  | cons e rest ih =>
    obtain ⟨k', v⟩ := e
    unfold put
    split
    · rename_i hk
      subst hk
      split
      · rename_i h
        rw [h, List.lookup_cons_self]
      · rename_i h
        rw [lookup_cons_of_ne h, lookup_cons_of_ne h]
    · rename_i hk
      by_cases h : k = k'
      · subst h
        rw [List.lookup_cons_self, List.lookup_cons_self, if_neg hk]
      · rw [lookup_cons_of_ne h, lookup_cons_of_ne h, ih]

theorem lookup_remove (key k : κ) (entries : List (κ × α)) :
    (remove key entries).lookup k = if k = key then none else entries.lookup k := by
  induction entries with
  | nil => simp [remove]
  | cons e rest ih =>
    obtain ⟨k', v⟩ := e
    unfold remove at ih ⊢
    by_cases hk : k' = key
    · rw [List.filter_cons_of_neg (by simp [hk]), ih]
      split
      · rfl
      · rename_i h
        rw [lookup_cons_of_ne (by rw [hk]; exact h)]
    · rw [List.filter_cons_of_pos (by simp [hk])]
      by_cases h : k = k'
      · subst h
        rw [List.lookup_cons_self, List.lookup_cons_self, if_neg hk]
      · rw [lookup_cons_of_ne h, lookup_cons_of_ne h, ih]

theorem length_put {key : κ} {entries : List (κ × α)} (value : α)
    (h : (entries.lookup key).isSome = true) :
    (put key value entries).length = entries.length := by
  induction entries with
  | nil => cases h
  | cons e rest ih =>
    obtain ⟨k, v⟩ := e
    unfold put
    split
    · rfl
    · rename_i hk
      rw [lookup_cons_of_ne (fun h => hk h.symm)] at h
      rw [List.length_cons, List.length_cons, ih h]

theorem length_remove_lt {key : κ} {value : α} {entries : List (κ × α)}
    (h : entries.lookup key = some value) : (remove key entries).length < entries.length := by
  obtain ⟨before, after, rfl, -⟩ := List.lookup_eq_some_iff.mp h
  exact List.length_filter_lt_length_iff_exists.mpr
    ⟨(key, value), by simp, by simp⟩

theorem put_of_lookup_eq_none {key : κ} {entries : List (κ × α)} (h : entries.lookup key = none)
    (value : α) : put key value entries = entries ++ [(key, value)] := by
  induction entries with
  | nil => rfl
  | cons e rest ih =>
    obtain ⟨k, v⟩ := e
    have hne : k ≠ key := by
      rintro rfl
      rw [List.lookup_cons_self] at h
      cases h
    rw [lookup_cons_of_ne hne.symm] at h
    rw [put, if_neg hne, ih h, List.cons_append]

theorem put_append {key : κ} {before : List (κ × α)} (h : before.lookup key = none)
    (old value : α) (after : List (κ × α)) :
    put key value (before ++ (key, old) :: after) = before ++ (key, value) :: after := by
  induction before with
  | nil => rw [List.nil_append, put, if_pos rfl, List.nil_append]
  | cons e rest ih =>
    obtain ⟨k, v⟩ := e
    have hne : k ≠ key := by
      rintro rfl
      rw [List.lookup_cons_self] at h
      cases h
    rw [lookup_cons_of_ne hne.symm] at h
    rw [List.cons_append, put, if_neg hne, ih h, List.cons_append]

theorem remove_append (key : κ) (old : α) (before after : List (κ × α)) :
    remove key (before ++ (key, old) :: after) = remove key before ++ remove key after := by
  simp [remove]

theorem remove_of_lookup_eq_none {key : κ} {entries : List (κ × α)}
    (h : entries.lookup key = none) : remove key entries = entries := by
  refine List.filter_eq_self.mpr fun e he => ?_
  exact bne_iff_ne.mpr (bne_iff_ne.mp (List.lookup_eq_none_iff.mp h e he)).symm

/-- Where a value that is looked up stands, and what a change makes of the list. -/
theorem exists_split {key : κ} {old : α} {entries : List (κ × α)}
    (h : entries.lookup key = some old) :
    ∃ before after, entries = before ++ (key, old) :: after ∧
      (∀ value, put key value entries = before ++ (key, value) :: after) ∧
      remove key entries = before ++ remove key after := by
  obtain ⟨before, after, rfl, hbefore⟩ := List.lookup_eq_some_iff.mp h
  have hnone := List.lookup_eq_none_iff.mpr hbefore
  refine ⟨before, after, rfl, fun value => put_append hnone old value after, ?_⟩
  rw [remove_append, remove_of_lookup_eq_none hnone]

/-! ## Distinct keys -/

theorem mem_of_lookup {key : κ} {value : α} {entries : List (κ × α)}
    (h : entries.lookup key = some value) : (key, value) ∈ entries := by
  obtain ⟨before, after, rfl, -⟩ := List.lookup_eq_some_iff.mp h
  exact List.mem_append_right _ List.mem_cons_self

theorem mem_put {key : κ} {value : α} {entries : List (κ × α)} {e : κ × α}
    (he : e ∈ put key value entries) : e = (key, value) ∨ e ∈ entries := by
  cases hkey : entries.lookup key with
  | none =>
    rw [put_of_lookup_eq_none hkey, List.mem_append, List.mem_singleton] at he
    exact he.symm
  | some old =>
    obtain ⟨before, after, rfl, hput, -⟩ := exists_split hkey
    rw [hput, List.mem_append, List.mem_cons] at he
    rw [List.mem_append, List.mem_cons]
    obtain he | he | he := he
    · exact .inr (.inl he)
    · exact .inl he
    · exact .inr (.inr (.inr he))

theorem lookup_of_mem {entries : List (κ × α)} (hkeys : (entries.map (·.1)).Nodup) {e : κ × α}
    (he : e ∈ entries) : entries.lookup e.1 = some e.2 := by
  obtain ⟨before, after, rfl⟩ := List.append_of_mem he
  rw [List.map_append, List.map_cons, List.nodup_append] at hkeys
  refine List.lookup_eq_some_iff.mpr ⟨before, after, rfl, fun e' he' => bne_iff_ne.mpr ?_⟩
  exact (hkeys.2.2 _ (List.mem_map_of_mem he') _ List.mem_cons_self).symm

theorem lookup_eq_none_iff_not_mem {key : κ} {entries : List (κ × α)} :
    entries.lookup key = none ↔ key ∉ entries.map (·.1) := by
  rw [List.lookup_eq_none_iff]
  constructor
  · intro h hkey
    obtain ⟨entry, hentry, rfl⟩ := List.mem_map.mp hkey
    exact bne_iff_ne.mp (h entry hentry) rfl
  · intro h entry hentry
    refine bne_iff_ne.mpr ?_
    rintro rfl
    exact h (List.mem_map_of_mem hentry)

/-- A change keeps keys apart. -/
theorem nodup_put {entries : List (κ × α)} (h : (entries.map (·.1)).Nodup) (key : κ) (value : α) :
    ((put key value entries).map (·.1)).Nodup := by
  cases hkey : entries.lookup key with
  | none =>
    have hnot := lookup_eq_none_iff_not_mem.mp hkey
    rw [put_of_lookup_eq_none hkey, List.map_append, List.nodup_append]
    refine ⟨h, List.pairwise_singleton _ _, fun k hk k' hk' => ?_⟩
    rw [List.mem_singleton.mp hk']
    rintro rfl
    exact hnot hk
  | some old =>
    obtain ⟨before, after, rfl, hput, -⟩ := exists_split hkey
    rw [hput]
    simpa using h

end TestEngine.Keyed
