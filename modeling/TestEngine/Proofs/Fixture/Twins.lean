import TestEngine.Proofs.Tree.Likeness

/-!
# Setting up and tearing down alike

What is alike is set up alike and ordered alike. What is torn down alike fails alike, unless
teardowns may end differently; but even then all of them run, and they do the same.

* `Fixtures.twins_constructAll`, `Orderers.twins_order`, `Disposal.twins_disposeAll`
-/

namespace TestEngine

open Process (Twins)

variable {ω ν α : Type} {L : Likeness ω ν}

/-! ## Tearing down -/

theorem Aggregator.capture_eq (a : Aggregator) (o : Outcome α) :
    (a.capture o).1 = ⟨a.failures ++ o.failure?.toList⟩ :=
  congrArg Aggregator.mk (a.failures_capture o)

/-- Teardowns that are kept in the same places are alike. -/
def Disposal.Alike (L : Likeness ω ν) (d d' : Disposal ω) : Prop :=
  List.Forall₂ (Teardown.Alike L) d.teardowns d'.teardowns

theorem Disposal.Alike.add {d d' : Disposal ω} (h : d.Alike L d') {t t' : Teardown ω}
    (ht : t.Alike L t') : (d.add t).Alike L (d'.add t') := by
  unfold Disposal.Alike Disposal.add
  rw [← ht.isEmpty_eq]
  cases t.isEmpty with
  | true => exact h
  | false => exact List.rel_append h (.cons ht .nil)

section TearingDown

variable {owner : NodeIds} {a a' : Aggregator}

theorem Teardown.twins_runPart (part : TeardownPart) {entry entry' : Teardown ω × Nat}
    (h : entry.1.Alike L entry'.1 ∧ entry.2 = entry'.2) (ha : L.loose ∨ a = a') :
    Twins L.toObserver (fun a a' => L.loose ∨ a = a') (runPart owner part a entry)
      (runPart owner part a' entry') := by
  have hpart := h.1 part
  unfold runPart
  generalize entry.1.code? part = code at hpart ⊢
  generalize entry'.1.code? part = code' at hpart ⊢
  cases hpart with
  | none => exact .pure ha
  | some hcode =>
    refine (Twins.enter _ _).bind fun _ _ _ => ?_
    refine Twins.bind (V := fun x y => L.loose ∨ x.1 = y.1) ?_ fun x y hxy => .pure hxy
    refine (Code.Mirrors.twins_run hcode).bind fun o o' ho => .pure ?_
    rw [Aggregator.capture_eq, Aggregator.capture_eq]
    rcases ha with hloose | rfl
    · exact .inl hloose
    · exact ho.imp_right fun hsame => by rw [hsame]

theorem Disposal.twins_disposeAll {d d' : Disposal ω} (h : d.Alike L d') (ha : L.loose ∨ a = a') :
    Twins L.toObserver (fun a a' => L.loose ∨ a = a') (d.disposeAll owner a)
      (d'.disposeAll owner a') := by
  have hentries : List.Forall₂ (fun x y => x.1.Alike L y.1 ∧ x.2 = y.2) d.inReverse d'.inReverse :=
    List.rel_reverse (forall₂_zipIdx h 0)
  unfold disposeAll
  rw [Teardown.runAsync_eq, Teardown.runSync_eq]
  refine (Twins.foldlM hentries (fun _ _ hxy _ _ => Teardown.twins_runPart .async hxy) ha).bind ?_
  exact fun _ _ => Twins.foldlM hentries (fun _ _ hxy _ _ => Teardown.twins_runPart .sync hxy)

theorem Teardown.twins_run {t t' : Teardown ω} (h : t.Alike L t') (ha : L.loose ∨ a = a') :
    Twins L.toObserver (fun a a' => L.loose ∨ a = a') (t.run owner a) (t'.run owner a') := by
  unfold run
  rw [runAsync_eq, runSync_eq]
  have hentry : ((t, 0) : Teardown ω × Nat).1.Alike L ((t', 0) : Teardown ω × Nat).1 ∧
      ((t, 0) : Teardown ω × Nat).2 = ((t', 0) : Teardown ω × Nat).2 := ⟨h, rfl⟩
  exact (twins_runPart .async hentry ha).bind fun _ _ => twins_runPart .sync hentry

end TearingDown

/-! ## Setting up -/

/-- What comes of two pieces of code that end alike. -/
theorem Outcome.Alike.toExcept {β : Type} {V : α → β → Prop} {o : Outcome α} {o' : Outcome β}
    (h : o.Alike V o') : (∃ e, o.toExcept = .error e ∧ o'.toExcept = .error e) ∨
      ∃ x y, o.toExcept = .ok x ∧ o'.toExcept = .ok y ∧ V x y := by
  cases h with
  | returned h => exact .inr ⟨_, _, rfl, rfl, h⟩
  | failed e => exact .inl ⟨e, rfl, rfl⟩
  | panicked p => exact .inl ⟨_, rfl, rfl⟩

/-- Both fail with the same failure, or both have a value and these are related. -/
inductive ExceptAlike {ε β : Type} (V : α → β → Prop) : Except ε α → Except ε β → Prop
  | error (e : ε) : ExceptAlike V (.error e) (.error e)
  | ok {x : α} {y : β} (h : V x y) : ExceptAlike V (.ok x) (.ok y)

theorem ReadyConstructor.twins_invoke {c c' : ReadyConstructor ω} (h : c.Alike L c')
    (owner : NodeIds) :
    Twins L.toObserver (ExceptAlike (Fixture.Alike L)) (c.invoke owner) (c'.invoke owner) := by
  unfold invoke
  refine (Twins.enter _ _).bind fun _ _ _ => ?_
  refine (Code.Mirrors.twins_run h.code).bind fun o o' ho => ?_
  rcases ho.toExcept with ⟨e, he, he'⟩ | ⟨f, f', hf, hf', hff'⟩
  · rw [he, he']
    refine (Twins.enter _ _).bind fun _ _ _ => .pure ?_
    have hfailure : c.failure e = c'.failure e := by
      unfold failure
      rw [h.kind_eq, h.typeName_eq]
    rw [hfailure]
    exact .error _
  · rw [hf, hf']
    exact (Twins.enter _ _).bind fun _ _ _ => .pure (.ok hff')

/-- What two nodes have built is alike. -/
structure Fixtures.Alike (L : Likeness ω ν) (fs fs' : Fixtures ω) : Prop where
  values_eq : fs.values = fs'.values
  failures_eq : fs.failures = fs'.failures
  disposal : fs.disposal.Alike L fs'.disposal

namespace Fixtures

variable {kind : FixtureKind} {parents : List FixtureMap} {ids : NodeIds} {fs fs' : Fixtures ω}

/-- Nothing was built yet. -/
theorem Alike.nothing (inherited : Aggregator) :
    ({ failures := inherited } : Fixtures ω).Alike L { failures := inherited } :=
  ⟨rfl, rfl, List.Forall₂.nil⟩

theorem twins_construct {d d' : FixtureDefinition ω} (hd : d.Alike L d') (h : fs.Alike L fs') :
    Twins L.toObserver (Fixtures.Alike L) (construct kind parents ids fs d)
      (construct kind parents ids fs' d') := by
  obtain ⟨values, disposal, failures⟩ := fs
  obtain ⟨values', disposal', failures'⟩ := fs'
  obtain ⟨hvalues, hfailures, hdisposal⟩ := h
  dsimp only at hvalues hfailures hdisposal
  subst hvalues hfailures
  unfold construct
  rcases hd.resolve kind (values :: parents) ids with ⟨e, he, he'⟩ | ⟨c, c', hc, hc', hcc'⟩
  · rw [he, he']
    exact .pure ⟨rfl, rfl, hdisposal⟩
  · rw [hc, hc']
    refine (ReadyConstructor.twins_invoke hcc' ids).bind ?_
    rintro _ _ (e | hff')
    · exact .pure ⟨rfl, rfl, hdisposal⟩
    · refine .pure ⟨?_, rfl, hdisposal.add hff'.teardown⟩
      rw [hd.typeName_eq, hff'.value_eq]

/-- Fixtures are built alike. -/
theorem twins_constructAll {ds ds' : List (FixtureDefinition ω)}
    (hds : List.Forall₂ (FixtureDefinition.Alike L) ds ds') (h : fs.Alike L fs') :
    Twins L.toObserver (Fixtures.Alike L) (constructAll kind parents ids ds fs)
      (constructAll kind parents ids ds' fs') :=
  Twins.foldlM hds (fun _ _ hd _ _ => twins_construct hd) h

end Fixtures

/-! ## Ordering -/

section Ordering

variable {R : α → α → Prop} {idOf : α → String} {xs ys : List α}

theorem map_eq_of_forall₂ {β : Type} {f : α → β} (hf : ∀ x y, R x y → f x = f y)
    (h : List.Forall₂ R xs ys) : xs.map f = ys.map f := by
  induction h with
  | nil => rfl
  | cons hxy _ ih => rw [List.map_cons, List.map_cons, hf _ _ hxy, ih]

/-- Items may be sorted before they are looked at or after. -/
theorem defaultOrder_map {β : Type} (f : β → α) (zs : List β) :
    defaultOrder idOf (zs.map f) = (defaultOrder (fun z => idOf (f z)) zs).map f := by
  unfold defaultOrder
  have hsort := List.map_mergeSort (r := fun a b => a.1.le b.1) (s := fun a b => a.1.le b.1)
    (f := fun p : OrderKey × β => (p.1, f p.2))
    (l := zs.map fun z => (OrderKey.of (idOf (f z)), z)) fun _ _ _ _ => rfl
  rw [List.map_map, List.map_map]
  rw [List.map_map] at hsort
  exact (congrArg (List.map (·.2)) hsort).symm.trans (List.map_map ..)

/-- The default order depends on nothing but the IDs. -/
theorem forall₂_defaultOrder (hid : ∀ x y, R x y → idOf x = idOf y) (h : List.Forall₂ R xs ys) :
    List.Forall₂ R (defaultOrder idOf xs) (defaultOrder idOf ys) := by
  -- both lists are those of one list of pairs, and so they are once the pairs are sorted
  obtain ⟨zs, rfl, rfl, hzs⟩ : ∃ zs : List (α × α), zs.map (·.1) = xs ∧ zs.map (·.2) = ys ∧
      ∀ z ∈ zs, R z.1 z.2 := by
    clear hid
    induction h with
    | nil => exact ⟨[], rfl, rfl, fun _ hz => absurd hz List.not_mem_nil⟩
    | @cons x y _ _ hxy _ ih =>
      obtain ⟨zs, rfl, rfl, hzs⟩ := ih
      refine ⟨(x, y) :: zs, rfl, rfl, fun z hz => ?_⟩
      rcases List.mem_cons.mp hz with rfl | hz
      · exact hxy
      · exact hzs z hz
  have hkeys : defaultOrder (fun z : α × α => idOf z.2) zs =
      defaultOrder (fun z => idOf z.1) zs := by
    have hpairs : (zs.map fun z => (OrderKey.of (idOf z.2), z)) =
        zs.map fun z => (OrderKey.of (idOf z.1), z) :=
      List.map_congr_left fun z hz => by rw [hid _ _ (hzs z hz)]
    unfold defaultOrder
    rw [hpairs]
  rw [defaultOrder_map, defaultOrder_map, hkeys, List.forall₂_map_left_iff,
    List.forall₂_map_right_iff, List.forall₂_same]
  exact fun z hz => hzs z ((defaultOrder_perm _ zs).mem_iff.mp hz)

namespace Orderers

variable {os os' : Orderers ω α}

theorem Alike.lookup (h : os.Alike L R os') (name : String) :
    Option.Rel (fun f f' => ∀ ids,
      Code.Mirrors L.view (Outcome.Alike (Orderer.Alike L R)) (f ids) (f' ids))
      (os.factories.lookup name) (os'.factories.lookup name) := by
  have hfactories := h.factories
  generalize os.factories = fs at hfactories ⊢
  generalize os'.factories = fs' at hfactories ⊢
  induction hfactories with
  | nil => exact .none
  | @cons f f' _ _ hf _ ih =>
    rw [List.lookup_cons, List.lookup_cons, hf.1]
    cases name == f'.1 with
    | true => exact .some hf.2
    | false => exact ih

/-- What orderers answer is alike, or they fail alike. -/
theorem twins_tryOrder (hid : ∀ x y, R x y → idOf x = idOf y) (h : os.Alike L R os')
    (hxy : List.Forall₂ R xs ys) (name : String) (ids : NodeIds) :
    Twins L.toObserver (ExceptAlike (List.Forall₂ R)) ((os.tellBy idOf).tryOrder name ids xs)
      ((os'.tellBy idOf).tryOrder name ids ys) := by
  have hnames : os.factories.map (·.1) = os'.factories.map (·.1) :=
    map_eq_of_forall₂ (fun _ _ hf => hf.1) h.factories
  have hlookup := h.lookup name
  unfold tryOrder tellBy
  dsimp only
  rw [hnames, h.kind_eq]
  generalize os.factories.lookup name = f at hlookup ⊢
  generalize os'.factories.lookup name = f' at hlookup ⊢
  cases hlookup with
  | none => exact .pure (.error _)
  | some hfactory =>
    refine (Code.Mirrors.twins_run (hfactory ids)).bind fun made made' hmade => ?_
    rcases hmade.toExcept with ⟨e, he, he'⟩ | ⟨o, o', ho, ho', horderer⟩
    · rw [he, he']
      exact .pure (.error _)
    rw [ho, ho']
    refine (Code.Mirrors.twins_run (horderer xs ys hxy)).bind fun answer answer' hanswer => ?_
    rcases hanswer.toExcept with ⟨e, he, he'⟩ | ⟨ordered, ordered', hok, hok', hordered⟩
    · rw [he, he']
      exact .pure (.error _)
    rw [hok, hok']
    dsimp only
    unfold samePermutation
    dsimp only
    rw [map_eq_of_forall₂ hid hxy, map_eq_of_forall₂ hid hordered, hxy.length_eq,
      hordered.length_eq]
    cases (ordered'.map idOf).isPerm (ys.map idOf) with
    | true => exact .pure (.ok hordered)
    | false => exact .pure (.error _)

/-- What is alike is ordered alike. -/
theorem twins_order (hid : ∀ x y, R x y → idOf x = idOf y) (h : os.Alike L R os')
    (hxy : List.Forall₂ R xs ys) (name : Option String) (ids : NodeIds) :
    Twins L.toObserver (List.Forall₂ R) ((os.tellBy idOf).order name ids xs)
      ((os'.tellBy idOf).order name ids ys) := by
  unfold order
  refine (twins_tryOrder hid h hxy _ ids).bind ?_
  rintro _ _ (reason | hordered)
  · have hkind : (os.tellBy idOf).kind = (os'.tellBy idOf).kind := h.kind_eq
    unfold fallBack
    rw [hkind]
    exact .queue rfl (Code.harmless_diagnostic _ _ _) (Code.harmless_diagnostic _ _ _) fun _ =>
      .pure (forall₂_defaultOrder hid hxy)
  · exact .pure hordered

end Orderers

end Ordering

end TestEngine
