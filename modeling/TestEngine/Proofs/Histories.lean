import Mathlib.Data.List.Induction
import Mathlib.Data.List.Nodup

/-!
# Histories

What has happened, in order. A law of a history speaks of each event and of the events before it;
a history that goes on obeys the law as soon as its new event does.

* `KeepsLaw.snoc`, `KeepsLaw.of_snoc` — what one more event asks for and tells.
* `KeepsLaw.nodup_filterMap` — what the law forbids to happen again happens once.
-/

namespace TestEngine

/-- A place in a list with one more item at its end is that item, or a place in the list. -/
theorem split_of_snoc_eq {α : Type} {xs before after : List α} {x y : α}
    (h : xs ++ [x] = before ++ y :: after) :
    (before = xs ∧ y = x ∧ after = []) ∨
      ∃ after', after = after' ++ [x] ∧ xs = before ++ y :: after' := by
  rcases List.eq_nil_or_concat after with rfl | ⟨after', last, rfl⟩
  · obtain ⟨rfl, hlast⟩ := List.append_inj' h rfl
    exact .inl ⟨rfl, (List.cons.inj hlast).1.symm, rfl⟩
  · rw [List.concat_eq_append, ← List.cons_append, ← List.append_assoc] at h
    obtain ⟨hxs, hlast⟩ := List.append_inj' h rfl
    rw [(List.cons.inj hlast).1]
    exact .inr ⟨after', List.concat_eq_append, hxs⟩

variable {ε : Type} {law : List ε → ε → Prop} {h : List ε} {e : ε}

/-- Every event of a history obeys a law, after the events before it. -/
def KeepsLaw (law : List ε → ε → Prop) (h : List ε) : Prop :=
  ∀ before e after, h = before ++ e :: after → law before e

namespace KeepsLaw

theorem nil (law : List ε → ε → Prop) : KeepsLaw law [] := by
  intro before e after heq
  exact absurd heq.symm (by simp)

theorem snoc (hl : KeepsLaw law h) (he : law h e) : KeepsLaw law (h ++ [e]) := by
  intro before e' after heq
  rcases split_of_snoc_eq heq with ⟨rfl, rfl, -⟩ | ⟨after', -, heq⟩
  · exact he
  · exact hl before e' after' heq

theorem of_append {h' : List ε} (hl : KeepsLaw law (h ++ h')) : KeepsLaw law h := by
  rintro before e after rfl
  exact hl before e (after ++ h') (List.append_assoc _ _ _)

theorem of_snoc (hl : KeepsLaw law (h ++ [e])) : KeepsLaw law h ∧ law h e :=
  ⟨hl.of_append, hl h e [] rfl⟩

/-- An event obeys the law after some of the history. -/
theorem exists_law (hl : KeepsLaw law h) (he : e ∈ h) : ∃ before, before <+: h ∧ law before e := by
  obtain ⟨before, after, rfl⟩ := List.append_of_mem he
  exact ⟨before, List.prefix_append _ _, hl before e after rfl⟩

/-- An event obeys the law after what was before some part of the history. -/
theorem exists_law_after {h' : List ε} (hl : KeepsLaw law (h ++ h')) (he : e ∈ h') :
    ∃ past, law (h ++ past) e := by
  obtain ⟨past, later, rfl⟩ := List.append_of_mem he
  exact ⟨past, hl (h ++ past) e later (List.append_assoc _ _ _).symm⟩

/-- What the law forbids to happen again happens once. -/
theorem nodup_filterMap {α : Type} {f : ε → Option α} (hl : KeepsLaw law h)
    (hf : ∀ before e a, law before e → f e = some a → a ∉ before.filterMap f) :
    (h.filterMap f).Nodup := by
  induction h using List.reverseRecOn with
  | nil => exact List.nodup_nil
  | append_singleton before e ih =>
    obtain ⟨hbefore, he⟩ := hl.of_snoc
    rw [List.filterMap_append]
    cases hfe : f e with
    | none => simpa [List.filterMap_cons, hfe] using ih hbefore
    | some a =>
      have hnot : a ∉ before.filterMap f := hf before e a he hfe
      rw [List.filterMap_cons_some hfe, List.filterMap_nil]
      exact (List.nodup_append_comm.mp (List.nodup_cons.mpr ⟨hnot, ih hbefore⟩))

end KeepsLaw

/-- What happened once was done by one event. -/
theorem eq_of_nodup_filterMap {α : Type} {f : ε → Option α} {x y : ε} {a : α}
    (hn : (h.filterMap f).Nodup) (hx : x ∈ h) (hy : y ∈ h) (hfx : f x = some a)
    (hfy : f y = some a) : x = y := by
  induction h with
  | nil => cases hx
  | cons e rest ih =>
    have hrest : (rest.filterMap f).Nodup := by
      refine List.Nodup.sublist ?_ hn
      exact (List.sublist_cons_self e rest).filterMap f
    have hnot : ∀ z ∈ rest, f z = some a → f e ≠ some a := by
      intro z hz hfz hfe
      rw [List.filterMap_cons_some hfe] at hn
      exact (List.nodup_cons.mp hn).1 (List.mem_filterMap.mpr ⟨z, hz, hfz⟩)
    rcases List.mem_cons.mp hx with rfl | hx' <;> rcases List.mem_cons.mp hy with rfl | hy'
    · rfl
    · exact absurd hfx (hnot y hy' hfy)
    · exact absurd hfy (hnot x hx' hfx)
    · exact ih hrest hx' hy'

end TestEngine
