import TestEngine.Order.Basic
import TestEngine.Proofs.Run.Blocks

/-!
# Orderers permute

Whatever an orderer does, the items come out in some order, and none is lost or doubled: what the
engine goes by are the unique IDs, which are permuted.

* `Orderers.yields_order` — the IDs of what is answered are a permutation of the IDs of the items.
-/

namespace TestEngine

open Process

variable {ω α : Type}

namespace Orderers

variable (os : Orderers ω α) (ids : NodeIds) (items : List α)

/-- Two lists that show the same IDs, in some order. -/
def Agree (ordered : List α) : Prop := (ordered.map os.idOf).Perm (items.map os.idOf)

theorem agree_of_samePermutation {ordered : List α} (h : os.samePermutation items ordered = true) :
    os.Agree items ordered := List.isPerm_iff.mp h

theorem yields_tryOrder (name : String) : (os.tryOrder name ids items).Yields fun as answer =>
    MadeOf UserBlock as ∧ ∀ ordered, answer = .ok ordered → os.Agree items ordered := by
  unfold tryOrder
  cases os.factories.lookup name with
  | none => exact .pure ⟨.nil, nofun⟩
  | some factory =>
    refine Yields.bind (Code.makes_run (factory ids)) fun as made has => ?_
    cases made.toExcept with
    | error f => exact .pure ⟨has.append .nil, nofun⟩
    | ok orderer =>
      refine Yields.bind (Code.makes_run (orderer items)) fun bs answer hbs => ?_
      have hsteps := has.append (hbs.append .nil)
      cases answer.toExcept with
      | error f => exact .pure ⟨hsteps, nofun⟩
      | ok ordered =>
        by_cases h : os.samePermutation items ordered = true
        · simp only [h, if_true]
          refine .pure ⟨hsteps, ?_⟩
          rintro _ ⟨⟩
          exact os.agree_of_samePermutation items h
        · simp only [h]
          exact .pure ⟨hsteps, nofun⟩

theorem yields_fallBack (reason : String) : (os.fallBack ids items reason).Yields fun as ordered =>
    MadeOf UserBlock as ∧ os.Agree items ordered := by
  refine .queue fun b => .pure ⟨.block (.diagnostic _ _ b), ?_⟩
  exact (defaultOrder_perm os.idOf items).map os.idOf

/-- **An order is a permutation of the IDs**, and all that shows of it is what user code does. -/
theorem yields_order (name : Option String) : (os.order name ids items).Yields fun as ordered =>
    MadeOf UserBlock as ∧ os.Agree items ordered := by
  refine (os.yields_tryOrder ids items _).bind ?_
  rintro as answer ⟨has, hanswer⟩
  cases answer with
  | ok ordered => exact .pure ⟨has.append .nil, hanswer ordered rfl⟩
  | error reason =>
    refine (os.yields_fallBack ids items reason).mono ?_
    rintro bs ordered ⟨hbs, h⟩
    exact ⟨has.append hbs, h⟩

end Orderers

end TestEngine
