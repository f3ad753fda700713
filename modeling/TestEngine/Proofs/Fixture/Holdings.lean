import TestEngine.Fixture.Basic
import TestEngine.Proofs.Run.Blocks

/-!
# Holdings

What a node holds between its setup and its teardown is what the journal shows it to have acquired,
and tearing it down runs every part of that once, in the order of `releaseOrder`.

* `Fixtures.yields_constructAll` — what is built is held, whatever fails on the way.
* `Disposal.yields_disposeAll` — what is held is torn down, whatever fails on the way.
-/

namespace TestEngine

open Process

variable {ω α : Type}

/-! ## What is held -/

namespace Teardown

theorem async_mem_parts {t : Teardown ω} : .async ∈ t.parts ↔ t.asyncPart.isSome = true := by
  unfold parts
  cases t.asyncPart.isSome <;> cases t.syncPart.isSome <;> decide

theorem sync_mem_parts {t : Teardown ω} : .sync ∈ t.parts ↔ t.syncPart.isSome = true := by
  unfold parts
  cases t.asyncPart.isSome <;> cases t.syncPart.isSome <;> decide

theorem isEmpty_parts (t : Teardown ω) : t.parts.isEmpty = t.isEmpty := by
  obtain ⟨a, s⟩ := t
  cases a <;> cases s <;> rfl

end Teardown

namespace Disposal

/-- The parts of the teardowns that are kept. -/
def held (d : Disposal ω) : List (List TeardownPart) := d.teardowns.map (·.parts)

@[simp] theorem held_empty : ({} : Disposal ω).held = [] := rfl

theorem held_add (d : Disposal ω) (t : Teardown ω) :
    (d.add t).held = d.held ++ toTearDown [t.parts] := by
  unfold add
  by_cases h : t.isEmpty = true
  · rw [if_pos h, toTearDown, List.filter_cons_of_neg (by simp [t.isEmpty_parts, h]),
      List.filter_nil, List.append_nil]
  · rw [if_neg h, toTearDown, List.filter_cons_of_pos (by simp [t.isEmpty_parts, h])]
    exact List.map_append ..

theorem held_foldl_add (teardown : α → Teardown ω) (xs : List α) (d : Disposal ω) :
    (xs.foldl (fun d x => d.add (teardown x)) d).held =
      d.held ++ toTearDown (xs.map fun x => (teardown x).parts) := by
  induction xs generalizing d with
  | nil => exact (List.append_nil _).symm
  | cons x xs ih =>
    rw [List.foldl_cons, ih, held_add, List.append_assoc, ← toTearDown_append]
    rfl

end Disposal

/-! ## Tearing down -/

namespace Aggregator

theorem makes_attempt (a : Aggregator) (code : SetupCode ω α) : (a.attempt code).Makes UserBlock :=
  (Code.makes_run code).bind fun _ => .pure

theorem makes_attemptAsync (a : Aggregator) (code : SetupCode ω (SetupCode ω Unit)) :
    (a.attemptAsync code).Makes UserBlock := by
  refine (makes_attempt a code).bind ?_
  rintro ⟨b, _ | future⟩
  · exact .pure
  · exact (makes_attempt b future).bind fun _ => .pure

end Aggregator

/-- Steps of a kind that acquire things with teardowns of the parts `gs` and run the parts `ps` of
teardowns. -/
structure Handles (B : List Action → Prop) (gs : List (List TeardownPart))
    (ps : List (Nat × TeardownPart)) (as : List Action) : Prop where
  madeOf : MadeOf B as
  gained_eq : gained (visible as) = gs
  released_eq : released (visible as) = ps

namespace Handles

variable {B C : List Action → Prop} {gs hs : List (List TeardownPart)}
  {ps qs : List (Nat × TeardownPart)} {as bs : List Action}

theorem nil : Handles B [] [] [] := ⟨.nil, rfl, rfl⟩

theorem append (h : Handles B gs ps as) (h' : Handles B hs qs bs) :
    Handles B (gs ++ hs) (ps ++ qs) (as ++ bs) where
  madeOf := h.madeOf.append h'.madeOf
  gained_eq := by rw [visible_append, gained_append, h.gained_eq, h'.gained_eq]
  released_eq := by rw [visible_append, released_append, h.released_eq, h'.released_eq]

theorem mono (hBC : ∀ as, B as → C as) (h : Handles B gs ps as) : Handles C gs ps as :=
  ⟨h.madeOf.mono hBC, h.gained_eq, h.released_eq⟩

theorem of_idle (hB : ∀ as, B as → Idle as) (h : MadeOf B as) : Handles B [] [] as :=
  ⟨h, (h.idle hB).1, (h.idle hB).2⟩

end Handles

/-- The steps of a node that runs the parts `ps` of teardowns and acquires nothing. -/
abbrev Releases (owner : NodeIds) (ps : List (Nat × TeardownPart)) (as : List Action) : Prop :=
  Handles (SetupBlock owner) [] ps as

/-- The steps of a node that acquires things with teardowns of the parts `gs` and tears nothing
down. -/
abbrev Acquires (owner : NodeIds) (gs : List (List TeardownPart)) (as : List Action) : Prop :=
  Handles (SetupBlock owner) gs [] as

/-- User code acquires nothing and tears nothing down. -/
theorem Handles.of_user {owner : NodeIds} {as : List Action} (h : MadeOf UserBlock as) :
    Handles (SetupBlock owner) [] [] as :=
  (Handles.of_idle (fun _ => UserBlock.idle) h).mono fun _ => .user

/-- A part is noted in the journal, and then its code runs. -/
theorem Releases.of_enter {owner : NodeIds} {index : Nat} {part : TeardownPart} {as : List Action}
    (h : MadeOf UserBlock as) :
    Releases owner [(index, part)] (.activity (.release owner index part) :: as) := by
  have hone : Releases owner [(index, part)] [.activity (.release owner index part)] :=
    ⟨.block (.entry rfl), rfl, rfl⟩
  exact hone.append (.of_user h)

namespace Teardown

variable (owner : NodeIds) (a : Aggregator) (entry : Teardown ω × Nat)

theorem yields_runAsync : (runAsync owner a entry).Yields fun as _ =>
    Releases owner (if .async ∈ entry.1.parts then [(entry.2, .async)] else []) as := by
  obtain ⟨t, index⟩ := entry
  simp only [runAsync, async_mem_parts]
  cases t.asyncPart with
  | none => exact .pure .nil
  | some code =>
    refine (yields_enter _).bind ?_
    rintro _ _ rfl
    exact Yields.mono (a.makes_attemptAsync code) fun _ _ h => .of_enter h

theorem yields_runSync : (runSync owner a entry).Yields fun as _ =>
    Releases owner (if .sync ∈ entry.1.parts then [(entry.2, .sync)] else []) as := by
  obtain ⟨t, index⟩ := entry
  simp only [runSync, sync_mem_parts]
  cases t.syncPart with
  | none => exact .pure .nil
  | some code =>
    refine (yields_enter _).bind ?_
    rintro _ _ rfl
    refine Yields.mono ((a.makes_attempt code).bind (B := UserBlock) fun _ => .pure) ?_
    exact fun _ _ h => .of_enter h

/-- Both parts of a single teardown. -/
theorem yields_run (t : Teardown ω) : (t.run owner a).Yields fun as _ =>
    Releases owner (releaseOrder (toTearDown [t.parts])) as := by
  have horder : releaseOrder (toTearDown [t.parts]) =
      (if .async ∈ t.parts then [(0, .async)] else []) ++
        if .sync ∈ t.parts then [(0, .sync)] else [] := by
    generalize t.parts = ps
    cases ps with
    | nil => rfl
    | cons p ps =>
      simp only [releaseOrder, inReverse, toTearDown, List.isEmpty_cons, Bool.not_false,
        List.filter_cons_of_pos, List.filter_nil, List.zipIdx_singleton, List.reverse_singleton]
      by_cases ha : TeardownPart.async ∈ p :: ps <;> by_cases hs : TeardownPart.sync ∈ p :: ps <;>
        simp only [ha, hs, if_true, if_false, List.filterMap_cons, List.filterMap_nil]
  rw [horder]
  refine (yields_runAsync owner a (t, 0)).bind fun as b has => ?_
  exact (yields_runSync owner b (t, 0)).mono fun bs _ hbs => has.append hbs

end Teardown

namespace Disposal

/-- Running one part of each teardown, last first. -/
theorem yields_foldlM_release {owner : NodeIds} {part : TeardownPart}
    {step : Aggregator → Teardown ω × Nat → Process ω Aggregator}
    (hstep : ∀ a entry, (step a entry).Yields fun as _ =>
      Releases owner (if part ∈ entry.1.parts then [(entry.2, part)] else []) as)
    (d : Disposal ω) (a : Aggregator) : (d.inReverse.foldlM step a).Yields fun as _ =>
      Releases owner (TestEngine.inReverse part d.held) as := by
  have horder : TestEngine.inReverse part d.held = d.inReverse.filterMap fun entry =>
      if part ∈ entry.1.parts then some (entry.2, part) else none := by
    simp only [TestEngine.inReverse, held, inReverse, List.zipIdx_map, ← List.map_reverse,
      List.filterMap_map]
    rfl
  -- a step that fails is answered with another aggregator, and the loop goes on
  rw [horder]
  generalize d.inReverse = entries
  induction entries generalizing a with
  | nil => exact .pure .nil
  | cons entry entries ih =>
    rw [List.foldlM_cons]
    refine (hstep a entry).bind fun as b has => (ih b).mono fun bs _ hbs => ?_
    have hboth : Releases owner _ (as ++ bs) := has.append hbs
    rw [List.filterMap_cons]
    by_cases h : part ∈ entry.1.parts
    · simpa only [if_pos h, List.singleton_append] using hboth
    · simpa only [if_neg h, List.nil_append] using hboth

/-- **What is held is torn down**: all asynchronous parts in reverse, then all synchronous ones. -/
theorem yields_disposeAll (owner : NodeIds) (d : Disposal ω) (a : Aggregator) :
    (d.disposeAll owner a).Yields fun as _ => Releases owner (releaseOrder d.held) as := by
  refine (yields_foldlM_release (Teardown.yields_runAsync owner) d a).bind fun as b has => ?_
  exact (yields_foldlM_release (Teardown.yields_runSync owner) d b).mono
    fun bs _ hbs => has.append hbs

end Disposal

/-! ## Setting up -/

theorem Acquires.of_entry {owner : NodeIds} {a : Activity} (h : a.owner? = some owner)
    (hr : a.released? = none) : Acquires owner a.gained [.activity a] where
  madeOf := .block (.entry h)
  gained_eq := List.append_nil _
  released_eq := by simp [released, activities, visible, Action.occurrence?, hr]

theorem ReadyConstructor.yields_invoke (owner : NodeIds) (c : ReadyConstructor ω) :
    (c.invoke owner).Yields fun as built =>
      Acquires owner (match built with | .ok fixture => [fixture.teardown.parts] | .error _ => [])
        as := by
  have henter : Acquires owner [] [.activity (.construct owner c.kind c.typeName)] :=
    .of_entry (a := .construct owner c.kind c.typeName) rfl rfl
  have hended : ∀ parts : Option (List TeardownPart),
      Acquires owner parts.toList [.activity (.constructed owner c.kind c.typeName parts)] := by
    intro parts
    cases parts with
    | none => exact .of_entry (a := .constructed owner c.kind c.typeName none) rfl rfl
    | some ps => exact .of_entry (a := .constructed owner c.kind c.typeName (some ps)) rfl rfl
  refine (yields_enter _).bind ?_
  rintro _ _ rfl
  refine Yields.bind (Code.makes_run c.code) fun us outcome hus => ?_
  have hsteps := henter.append (.of_user hus)
  cases outcome.toExcept with
  | ok fixture =>
    refine (yields_enter _).bind ?_
    rintro _ _ rfl
    refine .pure ?_
    rw [List.append_nil, ← List.append_assoc]
    exact hsteps.append (hended (some fixture.teardown.parts))
  | error inside =>
    refine (yields_enter _).bind ?_
    rintro _ _ rfl
    refine .pure ?_
    rw [List.append_nil, ← List.append_assoc]
    exact hsteps.append (hended none)

namespace Fixtures

/-- The fixtures `fs` came to be `fs'` by the steps `as`. -/
structure Built (ids : NodeIds) (fs fs' : Fixtures ω) (as : List Action) : Prop where
  acquires : Acquires ids (gained (visible as)) as
  held_eq : fs'.disposal.held = fs.disposal.held ++ toTearDown (gained (visible as))

theorem Built.refl (ids : NodeIds) (fs : Fixtures ω) : Built ids fs fs [] :=
  ⟨.nil, (List.append_nil _).symm⟩

theorem Built.trans {ids : NodeIds} {fs fs' fs'' : Fixtures ω} {as bs : List Action}
    (h : Built ids fs fs' as) (h' : Built ids fs' fs'' bs) : Built ids fs fs'' (as ++ bs) where
  acquires := by
    rw [visible_append, gained_append]
    exact h.acquires.append h'.acquires
  held_eq := by
    rw [h'.held_eq, h.held_eq, visible_append, gained_append, toTearDown_append,
      List.append_assoc]

theorem yields_construct (kind : FixtureKind) (parents : List FixtureMap) (ids : NodeIds)
    (fs : Fixtures ω) (d : FixtureDefinition ω) :
    (construct kind parents ids fs d).Yields fun as fs' => Built ids fs fs' as := by
  unfold construct
  split
  · exact .pure ⟨.nil, (List.append_nil _).symm⟩
  · next c _ =>
    refine (c.yields_invoke ids).bind fun as built has => ?_
    cases built with
    | error f =>
      refine .pure ?_
      rw [List.append_nil]
      refine ⟨⟨has.madeOf, rfl, has.released_eq⟩, ?_⟩
      rw [has.gained_eq]
      exact (List.append_nil _).symm
    | ok fixture =>
      refine .pure ?_
      rw [List.append_nil]
      refine ⟨⟨has.madeOf, rfl, has.released_eq⟩, ?_⟩
      rw [has.gained_eq]
      exact Disposal.held_add fs.disposal fixture.teardown

/-- **What is built is held**, in the order in which it was built. -/
theorem yields_constructAll (kind : FixtureKind) (parents : List FixtureMap) (ids : NodeIds)
    (definitions : List (FixtureDefinition ω)) (fs : Fixtures ω) :
    (constructAll kind parents ids definitions fs).Yields fun as fs' => Built ids fs fs' as := by
  unfold constructAll
  induction definitions generalizing fs with
  | nil => exact .pure (.refl ids fs)
  | cons d ds ih =>
    rw [List.foldlM_cons]
    refine (yields_construct kind parents ids fs d).bind fun as fs' h => ?_
    exact (ih fs').mono fun bs fs'' h' => h.trans h'

end Fixtures

end TestEngine
