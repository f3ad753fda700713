import Mathlib.Data.Prod.Lex
import Mathlib.Data.String.Basic
import TestEngine.Proofs.Fixture.Twins

/-!
# The default order

The default orderer sorts items by a hash of the unique ID, and by the ID itself where hashes agree.
Nothing but the ID counts, so items with the same ID cannot be told apart; these stay as they were.
That determines the list: there is only one that ascends and has the items with each ID in the order
of the input. So the order does not depend on how the items were given, but for those that share
an ID.

* `SortedById` — a list that ascends and has the items with each ID in the order in which they were.
* `SortedById.unique` — there is only one such list.
* `SortsById` — what follows for an order that makes such a list of every list.
* `Orderers.order_eq_defaultOrder` — the default orderer is such an order, and it sends nothing.
-/

namespace TestEngine

variable {ω α : Type}

/-! ## Comparing IDs -/

/-- An ID comes before another one if its hash is smaller, or else if it is not greater itself. -/
def IdBefore (a b : String) : Prop := idHash a < idHash b ∨ idHash a = idHash b ∧ a ≤ b

/-- Where an ID stands among all IDs. -/
def idRank (id : String) : ℕ ×ₗ String := toLex ((idHash id).toNat, id)

theorem idBefore_iff {a b : String} : IdBefore a b ↔ idRank a ≤ idRank b := by
  unfold IdBefore idRank
  rw [Prod.Lex.toLex_le_toLex, UInt64.lt_iff_toNat_lt, UInt64.toNat_inj]

theorem idRank_injective : Function.Injective idRank := fun _ _ h =>
  congrArg Prod.snd (toLex.injective h)

namespace OrderKey

theorem le_iff {a b : OrderKey} :
    a.le b = true ↔ a.hash < b.hash ∨ a.hash = b.hash ∧ a.id ≤ b.id := by
  rw [le, Bool.or_eq_true, Bool.and_eq_true, beq_iff_eq, decide_eq_true_iff, decide_eq_true_iff]

theorem of_le_of_iff {a b : String} : (of a).le (of b) = true ↔ idRank a ≤ idRank b :=
  le_iff.trans idBefore_iff

end OrderKey

/-! ## Sorted lists -/

/-- The items ascend by their IDs. -/
def Ascends (idOf : α → String) (items : List α) : Prop :=
  items.Pairwise fun x y => IdBefore (idOf x) (idOf y)

/-- The items in the order of their IDs. Those with the same ID are in the order of the input. -/
structure SortedById (idOf : α → String) (items ordered : List α) : Prop where
  ascends : Ascends idOf ordered
  stable : ∀ id, withKey idOf id ordered = withKey idOf id items

section Sorted

variable {idOf : α → String} {items xs ys : List α} {x y : α}

theorem mem_withKey {id : String} : x ∈ withKey idOf id xs ↔ x ∈ xs ∧ idOf x = id := by
  rw [withKey, List.mem_filter, beq_iff_eq]

theorem withKey_cons_self : withKey idOf (idOf x) (x :: xs) = x :: withKey idOf (idOf x) xs :=
  List.filter_cons_of_pos (beq_self_eq_true _)

theorem withKey_cons_of_ne {id : String} (h : idOf x ≠ id) :
    withKey idOf id (x :: xs) = withKey idOf id xs :=
  List.filter_cons_of_neg (by rwa [beq_iff_eq])

/-- Lists that have the same items with each ID have the same items. -/
theorem mem_of_withKey_eq (h : ∀ id, withKey idOf id xs = withKey idOf id ys) (hx : x ∈ xs) :
    x ∈ ys := by
  have hsame : x ∈ withKey idOf (idOf x) xs := mem_withKey.mpr ⟨hx, rfl⟩
  rw [h] at hsame
  exact (mem_withKey.mp hsame).1

/-- The first item of a list that ascends is no later than any item. -/
theorem Ascends.idRank_le (h : Ascends idOf (x :: xs)) (hy : y ∈ x :: xs) :
    idRank (idOf x) ≤ idRank (idOf y) := by
  rcases List.mem_cons.mp hy with rfl | hy
  · exact le_rfl
  · exact idBefore_iff.mp (List.rel_of_pairwise_cons h hy)

/-- **There is only one list that ascends** and has these items with each ID in this order. -/
theorem Ascends.eq_of_withKey_eq (hx : Ascends idOf xs) (hy : Ascends idOf ys)
    (h : ∀ id, withKey idOf id xs = withKey idOf id ys) : xs = ys := by
  induction xs generalizing ys with
  | nil =>
    refine (List.eq_nil_iff_forall_not_mem.mpr fun y hmem => ?_).symm
    exact List.not_mem_nil (mem_of_withKey_eq (fun id => (h id).symm) hmem)
  | cons x xs ih =>
    cases ys with
    | nil => exact absurd (mem_of_withKey_eq h List.mem_cons_self) List.not_mem_nil
    | cons y ys =>
      -- each list has the first item of the other, so both begin with the same ID
      have hle := hx.idRank_le (mem_of_withKey_eq (fun id => (h id).symm) List.mem_cons_self)
      have hge := hy.idRank_le (mem_of_withKey_eq h List.mem_cons_self)
      have hid : idOf x = idOf y := idRank_injective (le_antisymm hle hge)
      have hheads := h (idOf y)
      rw [withKey_cons_self, ← hid, withKey_cons_self] at hheads
      obtain ⟨rfl, -⟩ := List.cons_eq_cons.mp hheads
      have htails : xs = ys := by
        refine ih hx.of_cons hy.of_cons fun id => ?_
        have hboth := h id
        by_cases hne : idOf x = id
        · subst hne
          rw [withKey_cons_self, withKey_cons_self] at hboth
          exact (List.cons_eq_cons.mp hboth).2
        · rwa [withKey_cons_of_ne hne, withKey_cons_of_ne hne] at hboth
      rw [htails]

/-- Only one list has the items in the order of their IDs. -/
theorem SortedById.unique (hx : SortedById idOf items xs) (hy : SortedById idOf items ys) :
    xs = ys :=
  hx.ascends.eq_of_withKey_eq hy.ascends fun id => (hx.stable id).trans (hy.stable id).symm

end Sorted

/-! ## The default order sorts -/

section DefaultOrder

variable (idOf : α → String) (items : List α)

/-- The default order compares nothing but IDs. -/
def byId (x y : α) : Bool := (OrderKey.of (idOf x)).le (OrderKey.of (idOf y))

theorem byId_iff {x y : α} : byId idOf x y = true ↔ idRank (idOf x) ≤ idRank (idOf y) :=
  OrderKey.of_le_of_iff

theorem byId_trans (x y z : α) (hxy : byId idOf x y = true) (hyz : byId idOf y z = true) :
    byId idOf x z = true :=
  (byId_iff idOf).mpr (((byId_iff idOf).mp hxy).trans ((byId_iff idOf).mp hyz))

theorem byId_total (x y : α) : (byId idOf x y || byId idOf y x) = true := by
  rw [Bool.or_eq_true, byId_iff, byId_iff]
  exact le_total _ _

theorem defaultOrder_eq_mergeSort : defaultOrder idOf items = items.mergeSort (byId idOf) := by
  unfold defaultOrder
  have hsort := List.map_mergeSort (r := byId idOf) (s := fun a b => a.1.le b.1)
    (f := fun x => (OrderKey.of (idOf x), x)) (l := items) fun _ _ _ _ => rfl
  rw [← hsort, List.map_map]
  exact List.map_id _

theorem ascends_defaultOrder : Ascends idOf (defaultOrder idOf items) := by
  rw [defaultOrder_eq_mergeSort]
  refine (List.pairwise_mergeSort (byId_trans idOf) (byId_total idOf) items).imp fun hxy => ?_
  exact idBefore_iff.mpr ((byId_iff idOf).mp hxy)

/-- Items with the same ID stay as they were. -/
theorem withKey_defaultOrder (id : String) :
    withKey idOf id (defaultOrder idOf items) = withKey idOf id items := by
  -- items with one ID are in order whatever it is, so a stable sort keeps them as a sublist
  have hordered : (withKey idOf id items).Pairwise fun x y => byId idOf x y = true := by
    refine List.pairwise_of_forall_mem_list fun x hx y hy => (byId_iff idOf).mpr ?_
    rw [(mem_withKey.mp hx).2, (mem_withKey.mp hy).2]
  have hsub : (withKey idOf id items).Sublist (defaultOrder idOf items) := by
    rw [defaultOrder_eq_mergeSort]
    exact List.sublist_mergeSort (byId_trans idOf) (byId_total idOf) hordered List.filter_sublist
  have hkept : (withKey idOf id items).Sublist (withKey idOf id (defaultOrder idOf items)) := by
    have hself : withKey idOf id (withKey idOf id items) = withKey idOf id items :=
      List.filter_eq_self.mpr fun x hx => (List.mem_filter.mp hx).2
    rw [← hself]
    exact hsub.filter _
  have hlength := ((defaultOrder_perm idOf items).filter fun x => idOf x == id).length_eq
  exact (hkept.eq_of_length hlength.symm).symm

theorem sortedById_defaultOrder : SortedById idOf items (defaultOrder idOf items) :=
  ⟨ascends_defaultOrder idOf items, withKey_defaultOrder idOf items⟩

end DefaultOrder

/-! ## What follows -/

/-- What is known of an order that sorts by ID. -/
structure SortsById (idOf : α → String) (order : List α → List α) : Prop where
  /-- No item is lost or doubled. -/
  perm : ∀ items, (order items).Perm items
  /-- The items ascend, and those with the same ID are in the order of the input; there is no other
  list like that. -/
  iff : ∀ items ordered, SortedById idOf items ordered ↔ ordered = order items
  /-- However the items are given, the IDs come out in the same order. -/
  ids_eq : ∀ items items', items'.Perm items → (order items').map idOf = (order items).map idOf
  /-- There is nothing more to do for items that have been put in order. -/
  idempotent : ∀ items, order (order items) = order items
  /-- If all IDs differ, it does not matter how the items are given. -/
  eq_of_nodup : ∀ items items', (items.map idOf).Nodup → items'.Perm items →
    order items' = order items

section SortsById

variable {idOf : α → String} {xs ys : List α}

/-- Lists that ascend show the same IDs if one is a permutation of the other. -/
theorem Ascends.map_eq_of_perm (hx : Ascends idOf xs) (hy : Ascends idOf ys) (h : xs.Perm ys) :
    xs.map idOf = ys.map idOf := by
  refine (h.map idOf).eq_of_pairwise (fun a b _ _ hab hba => ?_) (List.pairwise_map.mpr hx)
    (List.pairwise_map.mpr hy)
  exact idRank_injective (le_antisymm (idBefore_iff.mp hab) (idBefore_iff.mp hba))

/-- They are even equal if all IDs differ. -/
theorem Ascends.eq_of_perm (hx : Ascends idOf xs) (hy : Ascends idOf ys)
    (hnodup : (ys.map idOf).Nodup) (h : xs.Perm ys) : xs = ys := by
  refine h.eq_of_pairwise (fun a b ha hb hab hba => ?_) hx hy
  have hid : idOf a = idOf b :=
    idRank_injective (le_antisymm (idBefore_iff.mp hab) (idBefore_iff.mp hba))
  exact List.inj_on_of_nodup_map hnodup (h.mem_iff.mp ha) hb hid

theorem perm_defaultOrder_of_perm (h : ys.Perm xs) :
    (defaultOrder idOf ys).Perm (defaultOrder idOf xs) :=
  (defaultOrder_perm idOf ys).trans (h.trans (defaultOrder_perm idOf xs).symm)

theorem sortsById_defaultOrder (idOf : α → String) : SortsById idOf (defaultOrder idOf) where
  perm := defaultOrder_perm idOf
  iff items ordered := by
    refine ⟨fun h => h.unique (sortedById_defaultOrder idOf items), ?_⟩
    rintro rfl
    exact sortedById_defaultOrder idOf items
  ids_eq items items' h :=
    (ascends_defaultOrder idOf items').map_eq_of_perm (ascends_defaultOrder idOf items)
      (perm_defaultOrder_of_perm h)
  idempotent items := by
    refine (sortedById_defaultOrder idOf _).unique ?_
    exact ⟨ascends_defaultOrder idOf items, fun _ => rfl⟩
  eq_of_nodup items items' hnodup h := by
    have hids : ((defaultOrder idOf items).map idOf).Nodup :=
      (((defaultOrder_perm idOf items).map idOf).nodup_iff).mpr hnodup
    exact (ascends_defaultOrder idOf items').eq_of_perm (ascends_defaultOrder idOf items) hids
      (perm_defaultOrder_of_perm h)

end SortsById

namespace Orderers

variable {os : Orderers ω α} {name : Option String}

/-- **The default orderer sorts by ID and is silent**, whatever it is given. -/
theorem order_eq_defaultOrder
    (h : os.factories.lookup (name.getD defaultName) = some (pureFactory (defaultOrder os.idOf))) :
    (∀ ids items, os.order name ids items = pure (defaultOrder os.idOf items)) ∧
      SortsById os.idOf (defaultOrder os.idOf) := by
  refine ⟨fun ids items => ?_, sortsById_defaultOrder os.idOf⟩
  have hagree : os.samePermutation items (defaultOrder os.idOf items) = true :=
    List.isPerm_iff.mpr ((defaultOrder_perm os.idOf items).map os.idOf)
  have htry : os.tryOrder (name.getD defaultName) ids items =
      pure (.ok (defaultOrder os.idOf items)) := by
    unfold tryOrder
    rw [h]
    show (if os.samePermutation items (defaultOrder os.idOf items) then _ else _) = _
    rw [if_pos hagree]
  unfold order
  rw [htry]
  rfl

/-- The orderers that are always there, for collections that no other orderer is asked for. -/
theorem order_eq_defaultOrder_of_builtin :
    let os : Orderers Unit (Collection Unit) := builtin .collection (·.id) List.reverse
    os.factories.lookup ((none : Option String).getD defaultName) =
        some (pureFactory (defaultOrder os.idOf)) ∧
      (∀ ids items, os.order none ids items = pure (defaultOrder os.idOf items)) ∧
      SortsById os.idOf (defaultOrder os.idOf) :=
  ⟨rfl, order_eq_defaultOrder rfl⟩

end Orderers

end TestEngine
