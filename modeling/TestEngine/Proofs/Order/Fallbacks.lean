import TestEngine.Proofs.Fixture.Outcomes
import TestEngine.Proofs.Order.Permutations
import TestEngine.Proofs.Process.Paths

/-!
# Falling back

An orderer is trusted as long as it answers a permutation of the IDs of what it was given: then its
list is used as it is, and the engine says nothing. In every other case the engine says why in a
single diagnostic message and uses the default order of the items that it has, whatever was done to
the list that the orderer got.

* `Orderers.Serves`, `Orderers.Balks` — how an orderer does its duty, and how it fails to.
* `Orderers.path_order_iff` — all that the engine does with either.
* `Orderers.isGuarded` — an orderer that serves has its way, and one that balks is passed over.
-/

namespace TestEngine

open Process

variable {ω α : Type}

namespace Orderers

section Duty

variable (os : Orderers ω α) (name : String) (ids : NodeIds) (items : List α)

/-- The orderer with a name is there and is made, and by these steps it answers a list that has the
IDs of the items, in some order. -/
inductive Serves : List (PathStep ω) → List α → Prop
  | intro {factory : OrdererFactory ω α} {orderer : Orderer ω α} {π ρ : List (PathStep ω)}
      {ordered : List α} (hfactory : os.factories.lookup name = some factory)
      (hmade : (factory ids).run.Path π (.returned orderer))
      (hanswer : (orderer items).run.Path ρ (.returned ordered)) (hagree : os.Agree items ordered) :
      Serves (π ++ ρ) ordered

/-- After these steps of user code there is a reason not to use the orderer with a name: nobody
registered it, its factory fails, it fails itself, or its answer does not have the same IDs. -/
inductive Balks : List (PathStep ω) → String → Prop
  | unknown (hfactory : os.factories.lookup name = none) :
      Balks [] (OrdererError.unknown os.kind name (os.factories.map (·.1))).message
  | notMade {factory : OrdererFactory ω α} {π : List (PathStep ω)}
      {o : Outcome (Orderer ω α)} {f : Failure}
      (hfactory : os.factories.lookup name = some factory) (hmade : (factory ids).run.Path π o)
      (hfailure : o.failure? = some f) :
      Balks π ("failed to create " ++ os.kind.words ++ " orderer `" ++ name ++ "`: " ++ f.display)
  | failed {factory : OrdererFactory ω α} {orderer : Orderer ω α} {π ρ : List (PathStep ω)}
      {o : Outcome (List α)} {f : Failure} (hfactory : os.factories.lookup name = some factory)
      (hmade : (factory ids).run.Path π (.returned orderer))
      (hanswer : (orderer items).run.Path ρ o) (hfailure : o.failure? = some f) :
      Balks (π ++ ρ) (os.kind.words ++ " orderer `" ++ name ++ "` failed: " ++ f.display)
  | notPermutation {factory : OrdererFactory ω α} {orderer : Orderer ω α}
      {π ρ : List (PathStep ω)} {ordered : List α}
      (hfactory : os.factories.lookup name = some factory)
      (hmade : (factory ids).run.Path π (.returned orderer))
      (hanswer : (orderer items).run.Path ρ (.returned ordered))
      (hagree : ¬os.Agree items ordered) :
      Balks (π ++ ρ)
        (OrdererError.notPermutation os.kind name items.length ordered.length).message

/-- What comes of trying the orderer with a name. -/
def Tried (π : List (PathStep ω)) : Except String (List α) → Prop
  | .ok ordered => os.Serves name ids items π ordered
  | .error reason => os.Balks name ids items π reason

end Duty

/-- What the answer of an orderer comes to. -/
def judge (os : Orderers ω α) (name : String) (items : List α) (o : Outcome (List α)) :
    Except String (List α) :=
  match o.toExcept with
  | .error f => .error (os.kind.words ++ " orderer `" ++ name ++ "` failed: " ++ f.display)
  | .ok ordered =>
    if os.samePermutation items ordered then .ok ordered
    else .error (OrdererError.notPermutation os.kind name items.length ordered.length).message

variable {os : Orderers ω α} {name : String} {ids : NodeIds} {items : List α}
  {π ρ : List (PathStep ω)} {factory : OrdererFactory ω α} {orderer : Orderer ω α}

theorem judge_of_failure? {o : Outcome (List α)} {f : Failure} (h : o.failure? = some f) :
    os.judge name items o =
      .error (os.kind.words ++ " orderer `" ++ name ++ "` failed: " ++ f.display) := by
  rw [judge, Outcome.toExcept_of_failure? h]

theorem judge_of_agree {ordered : List α} (h : os.Agree items ordered) :
    os.judge name items (.returned ordered) = .ok ordered :=
  if_pos (List.isPerm_iff.mpr h)

theorem judge_of_not_agree {ordered : List α} (h : ¬os.Agree items ordered) :
    os.judge name items (.returned ordered) =
      .error (OrdererError.notPermutation os.kind name items.length ordered.length).message :=
  if_neg (List.isPerm_iff.not.mpr h)

/-- An answer that comes to something is served, or it is a reason to balk. -/
theorem tried_judge (hfactory : os.factories.lookup name = some factory)
    (hmade : (factory ids).run.Path π (.returned orderer)) {o : Outcome (List α)}
    (hanswer : (orderer items).run.Path ρ o) :
    os.Tried name ids items (π ++ ρ) (os.judge name items o) := by
  rcases o.exists_returned_or_failure with ⟨ordered, rfl⟩ | ⟨f, hfailure⟩
  · by_cases hagree : os.Agree items ordered
    · rw [judge_of_agree hagree]
      exact .intro hfactory hmade hanswer hagree
    · rw [judge_of_not_agree hagree]
      exact .notPermutation hfactory hmade hanswer hagree
  · rw [judge_of_failure? hfailure]
    exact .failed hfactory hmade hanswer hfailure

/-- Trying an orderer that is made is to judge its answer. -/
theorem path_tryOrder_judge (hfactory : os.factories.lookup name = some factory)
    (hmade : (factory ids).run.Path π (.returned orderer)) {o : Outcome (List α)}
    (hanswer : (orderer items).run.Path ρ o) :
    (os.tryOrder name ids items).Path (π ++ ρ) (os.judge name items o) := by
  unfold tryOrder
  rw [hfactory]
  refine path_bind_iff.mpr ⟨π, _, ρ, hmade, ?_, rfl⟩
  refine path_bind_iff.mpr ⟨ρ, o, [], hanswer, ?_, (List.append_nil ρ).symm⟩
  unfold judge
  cases o.toExcept with
  | error f => exact .refl _
  | ok ordered =>
    dsimp only
    split
    · exact .refl _
    · exact .refl _

theorem tried_of_path {result : Except String (List α)}
    (h : (os.tryOrder name ids items).Path π result) : os.Tried name ids items π result := by
  have hwhole := h
  unfold tryOrder at h
  cases hfactory : os.factories.lookup name with
  | none =>
    rw [hfactory] at h
    obtain ⟨rfl, rfl⟩ := path_done h
    exact .unknown hfactory
  | some factory =>
    rw [hfactory] at h
    obtain ⟨ρ, o, ρ', hmade, hrest, rfl⟩ := path_bind h
    rcases o.exists_returned_or_failure with ⟨orderer, rfl⟩ | ⟨f, hfailure⟩
    · -- the process does with the answer what it must, since it learns nothing more
      obtain ⟨ρ₁, o, ρ₂, hanswer, hend, rfl⟩ := path_bind hrest
      have hjudged := path_tryOrder_judge hfactory hmade hanswer
      obtain ⟨hsteps, rfl, -⟩ := hwhole.unique hjudged (x := []) (y := ρ₂)
        (by simp only [List.append_assoc, List.append_nil])
      rw [hsteps]
      exact tried_judge hfactory hmade hanswer
    · rw [Outcome.toExcept_of_failure? hfailure] at hrest
      obtain ⟨rfl, rfl⟩ := path_done hrest
      rw [List.append_nil]
      exact .notMade hfactory hmade hfailure

/-- What comes of trying an orderer. -/
theorem path_tryOrder_iff {result : Except String (List α)} :
    (os.tryOrder name ids items).Path π result ↔ os.Tried name ids items π result := by
  refine ⟨tried_of_path, fun h => ?_⟩
  cases result with
  | ok ordered =>
    obtain ⟨hfactory, hmade, hanswer, hagree⟩ := h
    rw [← judge_of_agree hagree]
    exact path_tryOrder_judge hfactory hmade hanswer
  | error reason =>
    cases h with
    | unknown hfactory =>
      unfold tryOrder
      rw [hfactory]
      exact .refl _
    | notMade hfactory hmade hfailure =>
      unfold tryOrder
      rw [hfactory]
      refine path_bind_iff.mpr ⟨π, _, [], hmade, ?_, (List.append_nil π).symm⟩
      rw [Outcome.toExcept_of_failure? hfailure]
      exact .refl _
    | failed hfactory hmade hanswer hfailure =>
      rw [← judge_of_failure? hfailure]
      exact path_tryOrder_judge hfactory hmade hanswer
    | notPermutation hfactory hmade hanswer hagree =>
      rw [← judge_of_not_agree hagree]
      exact path_tryOrder_judge hfactory hmade hanswer

/-! ## The order that is used -/

/-- The message that the engine sends about an orderer that it does not use. -/
def fallbackNotice (os : Orderers ω α) (ids : NodeIds) (reason : String) : Message :=
  ⟨ids, .diagnostic (reason ++ "; falling back to the default " ++ os.kind.words ++ " orderer")⟩

/-- All that the engine does to put items in order, on behalf of a node: the orderer that is asked
for serves, and the engine adds nothing; or it balks, and the engine says so and uses the default
order. Without a name, that is the orderer which is called the default. -/
inductive Puts (os : Orderers ω α) (name : Option String) (ids : NodeIds) (items : List α) :
    List (PathStep ω) → List α → Prop
  | served {π : List (PathStep ω)} {ordered : List α}
      (h : os.Serves (name.getD defaultName) ids items π ordered) : Puts os name ids items π ordered
  | fellBack {π : List (PathStep ω)} {reason : String}
      (h : os.Balks (name.getD defaultName) ids items π reason) (b : Bool) :
      Puts os name ids items (π ++ [.act (.queued (os.fallbackNotice ids reason) b)])
        (defaultOrder os.idOf items)

/-- The engine puts items in order in these ways and in no other. -/
theorem path_order_iff {name : Option String} {ordered : List α} :
    (os.order name ids items).Path π ordered ↔ os.Puts name ids items π ordered := by
  constructor
  · intro h
    obtain ⟨ρ, result, ρ', htry, hend, rfl⟩ := path_bind h
    have htried := path_tryOrder_iff.mp htry
    cases result with
    | ok answer =>
      obtain ⟨rfl, rfl⟩ := path_done hend
      rw [List.append_nil]
      exact .served htried
    | error reason =>
      obtain ⟨b, ρ₁, hdone, rfl⟩ := path_queue_iff.mp hend
      obtain ⟨rfl, rfl⟩ := path_done hdone
      exact .fellBack htried b
  · intro h
    cases h with
    | served h =>
      have htry : (os.tryOrder _ ids items).Path π (.ok ordered) := path_tryOrder_iff.mpr h
      exact path_bind_iff.mpr ⟨π, .ok ordered, [], htry, .refl _, (List.append_nil π).symm⟩
    | @fellBack ρ reason h b =>
      have htry : (os.tryOrder _ ids items).Path ρ (.error reason) := path_tryOrder_iff.mpr h
      exact path_bind_iff.mpr ⟨ρ, .error reason, _, htry, .queue (.refl _), rfl⟩

/-- What the engine makes of the orderer with a name, whatever user code does. -/
structure IsGuarded (os : Orderers ω α) (name : Option String) (ids : NodeIds) (items : List α) :
    Prop where
  /-- The items are put in order by the orderer, or else by default. -/
  path_iff : ∀ {π : List (PathStep ω)} {ordered : List α},
    (os.order name ids items).Path π ordered ↔ os.Puts name ids items π ordered
  /-- An orderer that serves has its way: its list is used, and the engine does nothing more. -/
  served : ∀ {π σ : List (PathStep ω)} {answer ordered : List α},
    os.Serves (name.getD defaultName) ids items π answer →
      (os.order name ids items).Path (π ++ σ) ordered → σ = [] ∧ ordered = answer
  /-- One that balks is passed over: the engine says so once and uses the default order. -/
  fellBack : ∀ {π σ : List (PathStep ω)} {reason : String} {ordered : List α},
    os.Balks (name.getD defaultName) ids items π reason →
      (os.order name ids items).Path (π ++ σ) ordered →
        (∃ b, σ = [.act (.queued (os.fallbackNotice ids reason) b)]) ∧
          ordered = defaultOrder os.idOf items

/-- **An orderer that serves is never passed over, and one that balks never has its way**, for all
orderers, names and items. -/
theorem isGuarded (os : Orderers ω α) (name : Option String) (ids : NodeIds) (items : List α) :
    os.IsGuarded name ids items where
  path_iff := path_order_iff
  served := by
    intro π σ answer ordered hserves h
    have hanswer := path_order_iff.mpr (.served hserves)
    obtain ⟨-, rfl, rfl⟩ := hanswer.unique h (List.append_nil (π ++ σ)).symm
    exact ⟨rfl, rfl⟩
  fellBack := by
    intro π σ reason ordered hbalks h
    have htry : (os.tryOrder (name.getD defaultName) ids items).Path π (.error reason) :=
      path_tryOrder_iff.mpr hbalks
    generalize hsteps : π ++ σ = ρ at h
    cases path_order_iff.mp h with
    | served hserves =>
      have hother : (os.tryOrder (name.getD defaultName) ids items).Path ρ (.ok ordered) :=
        path_tryOrder_iff.mpr hserves
      obtain ⟨-, hresult, -⟩ := htry.unique hother (hsteps.trans (List.append_nil ρ).symm)
      cases hresult
    | @fellBack ρ' reason' hbalks' b =>
      have hother : (os.tryOrder (name.getD defaultName) ids items).Path ρ' (.error reason') :=
        path_tryOrder_iff.mpr hbalks'
      obtain ⟨-, hresult, rfl⟩ := htry.unique hother hsteps
      cases hresult
      exact ⟨⟨b, rfl⟩, rfl⟩

end Orderers

end TestEngine
