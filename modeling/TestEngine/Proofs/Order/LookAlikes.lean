import Mathlib.Data.Set.Function
import TestEngine.Proofs.Order.Fallbacks
import TestEngine.Proofs.Order.Guarded

/-!
# Items that look alike

The engine tells items apart by their unique IDs alone, and so it does when it looks whether an
orderer has answered a permutation. Cases of different kinds can have the same ID: it is made of the
method, the bindings and the arguments, but not of the kind. Between such cases the engine cannot
choose, and an orderer may answer one of them twice and leave the other one out.

* `Orderers.perm_order_iff_injOn` — orderers are held to permutations of the items themselves if and
  only if no two items look alike.
* `LookAlikes.not_perm_order` — a fact that is put in the place of a theory of the same method.
-/

namespace TestEngine

open Process

variable {ω α : Type}

/-- Lists of items that do not look alike are permutations of each other if their IDs are. -/
theorem perm_of_map_perm {β : Type} {f : α → β} {items ordered : List α}
    (hinj : Set.InjOn f {x | x ∈ items}) (hsub : ordered ⊆ items)
    (h : (ordered.map f).Perm (items.map f)) : ordered.Perm items := by
  cases items with
  | nil => rw [List.subset_nil.mp hsub]
  | cons x xs =>
    -- each item can be told from what shows of it, so both lists can
    have : Nonempty α := ⟨x⟩
    have hback : ∀ {ys : List α}, ys ⊆ x :: xs →
        (ys.map f).map (Function.invFunOn f {y | y ∈ x :: xs}) = ys := by
      intro ys hys
      rw [List.map_map]
      exact (List.map_congr_left fun y hy => hinj.leftInvOn_invFunOn (hys hy)).trans (List.map_id _)
    have hitems := h.map (Function.invFunOn f {y | y ∈ x :: xs})
    rwa [hback hsub, hback (List.Subset.refl _)] at hitems

/-- Two cases of one method have the same ID if they have the same bindings and arguments, whatever
kind they are of. -/
theorem TestCase.id_eq_of_arguments_eq {c c' : TestCase ω} (hmethod : c.method.id = c'.method.id)
    (hbindings : c.bindings = c'.bindings)
    (harguments : c.kind.arguments.map (·.display) = c'.kind.arguments.map (·.display)) :
    c.id = c'.id := by
  rw [c.id_eq, c'.id_eq, hmethod, hbindings, harguments]

namespace Orderers

/-- Whatever the orderers answer when they are given the items is taken from these. -/
def DrawFrom (os : Orderers ω α) (items : List α) : Prop :=
  ∀ {name ids factory orderer} {π ρ : List (PathStep ω)} {answer : List α},
    os.factories.lookup name = some factory → (factory ids).run.Path π (.returned orderer) →
      (orderer items).run.Path ρ (.returned answer) → answer ⊆ items

theorem subset_of_path_order {os : Orderers ω α} {items : List α} (hdraw : os.DrawFrom items)
    {name : Option String} {ids : NodeIds} {π : List (PathStep ω)} {ordered : List α}
    (h : (os.order name ids items).Path π ordered) : ordered ⊆ items := by
  cases path_order_iff.mp h with
  | served hserves =>
    obtain ⟨hfactory, hmade, hanswer, -⟩ := hserves
    exact hdraw hfactory hmade hanswer
  | fellBack => exact (defaultOrder_perm _ items).subset

/-! ## Orderers that need no code -/

section OfOrders

variable {kind : OrdererKind} {idOf : α → String} {name : String} {order : List α → List α}
  {items : List α}

/-- The one orderer that is registered answers by its function. -/
theorem drawFrom_ofOrders (h : order items ⊆ items) :
    (ofOrders kind idOf [(name, order)] : Orderers ω α).DrawFrom items := by
  intro name' ids factory orderer π ρ answer hfactory hmade hanswer
  rw [ofOrders, lookup_map_snd, Option.map_eq_some_iff] at hfactory
  obtain ⟨order', horder, rfl⟩ := hfactory
  obtain ⟨-, hmade⟩ := path_done hmade
  cases hmade
  obtain ⟨-, hanswer⟩ := path_done hanswer
  cases hanswer
  rw [List.lookup_cons] at horder
  cases hname : name' == name with
  | true =>
    rw [hname] at horder
    cases horder
    exact h
  | false =>
    rw [hname] at horder
    cases horder

/-- It has its way if the IDs are permuted, and the engine does nothing more. -/
theorem path_order_ofOrders (h : ((order items).map idOf).Perm (items.map idOf)) (ids : NodeIds) :
    ((ofOrders kind idOf [(name, order)] : Orderers ω α).order (some name) ids items).Path []
      (order items) := by
  have hfactory : (ofOrders kind idOf [(name, order)] : Orderers ω α).factories.lookup name =
      some (pureFactory order) := List.lookup_cons_self
  exact path_order_iff.mpr (.served (.intro hfactory (.refl _) (.refl _) h))

end OfOrders

/-! ## What the engine sees to -/

/-- If two items look alike, one can be put in the place of the other, and no ID shows it. -/
theorem exists_replacing {idOf : α → String} {items : List α} {x y : α} (hx : x ∈ items)
    (hid : idOf x = idOf y) (hne : x ≠ y) :
    ∃ order : List α → List α, order items ⊆ items ∧
      (order items).map idOf = items.map idOf ∧ y ∉ order items := by
  classical
  refine ⟨List.map (Function.update id y x), fun z hz => ?_, ?_, fun hy => ?_⟩
  · obtain ⟨z, hz, rfl⟩ := List.mem_map.mp hz
    by_cases heq : z = y
    · rwa [heq, Function.update_self]
    · rwa [Function.update_of_ne heq]
  · rw [List.map_map]
    refine List.map_congr_left fun z _ => ?_
    rw [Function.comp_apply]
    by_cases heq : z = y
    · rw [heq, Function.update_self, hid]
    · rw [Function.update_of_ne heq, id_eq]
  · obtain ⟨z, -, hz⟩ := List.mem_map.mp hy
    by_cases heq : z = y
    · rw [heq, Function.update_self] at hz
      exact hne hz
    · rw [Function.update_of_ne heq] at hz
      exact heq hz

/-- **What comes of orderers that only pick from the items is a permutation of the items**, whatever
they pick, **if and only if different items have different IDs**. -/
theorem perm_order_iff_injOn {idOf : α → String} {items : List α} :
    (∀ (os : Orderers ω α) (name : Option String) (ids : NodeIds), os.idOf = idOf →
      os.DrawFrom items → ∀ π ordered, (os.order name ids items).Path π ordered →
        ordered.Perm items) ↔
      Set.InjOn idOf {x | x ∈ items} := by
  constructor
  · intro hperm x hx y hy hid
    by_contra hne
    obtain ⟨order, hsub, hids, hlost⟩ := exists_replacing hx hid hne
    have hpath : ((ofOrders .testCase idOf [("replacing", order)] : Orderers ω α).order
        (some "replacing") { assembly := "" } items).Path [] (order items) :=
      path_order_ofOrders (List.Perm.of_eq hids) _
    exact hlost ((hperm _ _ _ rfl (drawFrom_ofOrders hsub) _ _ hpath).symm.subset hy)
  · intro hinj os name ids hidOf hdraw π ordered h
    obtain ⟨-, hagree⟩ := h.of_yields (os.yields_order ids items name)
    unfold Agree at hagree
    rw [hidOf] at hagree
    exact perm_of_map_perm hinj (subset_of_path_order hdraw h) hagree

end Orderers

/-! ## A case that is replaced -/

namespace LookAlikes

/-- A method with a test that is run once, and once more for each row of its data. -/
def method : Method Unit where
  testClass := {
    collection := { assembly := { name := "asm" }, displayName := "Collection" }, name := "Class" }
  name := "checks"
  body := .sync fun _ => .finish (.returned ())

def fact : TestCase Unit where
  method := method
  kind := .fact
  displayName := "the fact"

def theory : TestCase Unit where
  method := method
  kind := .theory (.finish (.returned [
    { arguments := [.of (.int 1)], displayName := some "the row" }]))
  displayName := "the theory"

/-- An orderer that answers the first case in the place of the last one. -/
def orderers : Orderers Unit (TestCase Unit) :=
  .ofOrders .testCase (·.id) [("first-twice", fun cases => cases.dropLast ++ cases.take 1)]

/-- **The engine takes two facts for a permutation of a fact and a theory**, and says nothing. -/
theorem not_perm_order :
    orderers.idOf = (·.id) ∧ orderers.DrawFrom [fact, theory] ∧
      (∀ ids, (orderers.order (some "first-twice") ids [fact, theory]).Path [] [fact, fact]) ∧
      ¬[fact, fact].Perm [fact, theory] := by
  have hid : fact.id = theory.id := TestCase.id_eq_of_arguments_eq rfl rfl rfl
  refine ⟨rfl, Orderers.drawFrom_ofOrders ?_, fun ids => ?_, fun h => ?_⟩
  · exact List.cons_subset.mpr ⟨List.mem_cons_self, List.cons_subset.mpr
      ⟨List.mem_cons_self, List.nil_subset _⟩⟩
  · refine Orderers.path_order_ofOrders (List.Perm.of_eq ?_) ids
    show [fact.id, fact.id] = [fact.id, theory.id]
    rw [hid]
  · have hmem : theory ∈ [fact, fact] := h.symm.subset (List.mem_cons_of_mem _ List.mem_cons_self)
    have hkind : theory = fact := by
      rcases List.mem_cons.mp hmem with heq | hmem
      · exact heq
      · exact List.mem_singleton.mp hmem
    have hname : "the theory" = "the fact" := congrArg TestCase.displayName hkind
    exact absurd hname (by decide)

end LookAlikes

end TestEngine
