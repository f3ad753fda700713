/-!
# Traits

Key-value pairs of a test case, for filtering and reporting. A key may have several values, which
keep the order in which they were added; the keys are sorted by code point, so that two sets of
traits with the same keys and values are equal.
-/

namespace TestEngine

/-- The values of each key, sorted by key. -/
structure Traits where
  entries : List (String × List String) := []
  sorted : entries.Pairwise (fun a b => a.1 < b.1) := by decide

namespace Traits

/-- No traits. -/
def empty : Traits := {}

instance : Inhabited Traits := ⟨empty⟩

instance : DecidableEq Traits := fun s t =>
  if h : s.entries = t.entries then
    isTrue (by cases s; cases t; cases h; rfl)
  else isFalse (fun e => h (e ▸ rfl))

/-- Adds values of a key to sorted entries. -/
def insert (key : String) (values : List String) :
    List (String × List String) → List (String × List String)
  | [] => [(key, values)]
  | (k, vs) :: rest =>
    if key < k then (key, values) :: (k, vs) :: rest
    else if key = k then (k, vs ++ values) :: rest
    else (k, vs) :: insert key values rest

theorem mem_insert {key : String} {values : List String} {entries : List (String × List String)}
    {e : String × List String} (h : e ∈ insert key values entries) :
    e.1 = key ∨ ∃ f ∈ entries, f.1 = e.1 := by
  induction entries with
  | nil =>
    left
    simp only [insert, List.mem_singleton] at h
    rw [h]
  | cons f rest ih =>
    obtain ⟨k, vs⟩ := f
    unfold insert at h
    split at h
    · rcases List.mem_cons.mp h with rfl | h
      · exact .inl rfl
      · exact .inr ⟨e, h, rfl⟩
    · split at h
      · rename_i hk
        rcases List.mem_cons.mp h with rfl | h
        · exact .inl hk.symm
        · exact .inr ⟨e, List.mem_cons_of_mem _ h, rfl⟩
      · rcases List.mem_cons.mp h with rfl | h
        · exact .inr ⟨(k, vs), List.mem_cons_self, rfl⟩
        · rcases ih h with h | ⟨f, hf, he⟩
          · exact .inl h
          · exact .inr ⟨f, List.mem_cons_of_mem _ hf, he⟩

theorem pairwise_insert (key : String) (values : List String)
    {entries : List (String × List String)} (h : entries.Pairwise (fun a b => a.1 < b.1)) :
    (insert key values entries).Pairwise (fun a b => a.1 < b.1) := by
  induction entries with
  | nil => exact List.pairwise_singleton _ _
  | cons f rest ih =>
    obtain ⟨k, vs⟩ := f
    obtain ⟨hhead, hrest⟩ := List.pairwise_cons.mp h
    unfold insert
    split
    · rename_i hk
      refine List.pairwise_cons.mpr ⟨fun e he => ?_, h⟩
      rcases List.mem_cons.mp he with rfl | he
      · exact hk
      · exact String.lt_trans hk (hhead e he)
    · rename_i hle
      split
      · exact List.pairwise_cons.mpr ⟨hhead, hrest⟩
      · rename_i hne
        refine List.pairwise_cons.mpr ⟨fun e he => ?_, ih hrest⟩
        rcases mem_insert he with he | ⟨f, hf, he⟩
        · rw [he]
          refine String.not_le.mp fun hle' => hne ?_
          exact String.le_antisymm hle' (String.not_lt.mp hle)
        · rw [← he]
          exact hhead f hf

/-- Adds values of a key. -/
def addAll (t : Traits) (key : String) (values : List String) : Traits where
  entries := insert key values t.entries
  sorted := pairwise_insert key values t.sorted

/-- Adds a value of a key. -/
def add (t : Traits) (key value : String) : Traits := t.addAll key [value]

/-- There are no traits. -/
def isEmpty (t : Traits) : Bool := t.entries.isEmpty

/-- The traits of a list of keys and values. -/
def ofList (entries : List (String × List String)) : Traits :=
  entries.foldl (fun t e => t.addAll e.1 e.2) empty

end Traits

end TestEngine
