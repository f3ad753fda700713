import TestEngine.Proofs.Order.Guarded
import TestEngine.Proofs.Process.Paths
import TestEngine.Run.Test

/-!
# What comes of setting up and tearing down

How the pieces of user code that set a node up and tear it down end, and what becomes of their
failures. Both are said about the paths of the code itself, so they do not depend on how failures
are collected.

* `Builds` — definitions are built in order: the fixtures, their teardowns and the failures.
* `TornDown` — parts of teardowns run in order: the failures.
* `Fixtures.builds_of_path`, `Disposal.tornDown_of_path` — this is what the engine does.
-/

namespace TestEngine

open Process

variable {ω ρ σ α β : Type}

/-! ## Code that makes code -/

namespace Code

/-- Runs the code that code returns. -/
def join (code : Code ω ρ (Code ω ρ α)) : Code ω ρ α := bind id code

theorem perform_bind {handle : ρ → σ → Process ω (Bool × σ)} (f : α → Code ω ρ β)
    (code : Code ω ρ α) (s : σ) : (bind f code).perform handle s =
      code.perform handle s >>= fun r => match r.1 with
        | .returned a => (f a).perform handle r.2
        | .failed e => pure (.failed e, r.2)
        | .panicked p => pure (.panicked p, r.2) := by
  induction code generalizing s with
  | finish o => cases o <;> rfl
  | note text next ih => exact congrArg (Process.journal _) (ih s)
  | world change next ih => exact congrArg (Process.world change) (funext fun w => ih w s)
  | diagnose ids text next ih => exact congrArg (Process.queue _) (funext fun b => ih b s)
  | request r next ih =>
    simp only [bind, perform, LawfulMonad.bind_assoc]
    exact bind_congr fun x => ih x.1 x.2

theorem runInTest_join (ids : NodeIds) (code : TestCode ω (TestCode ω α)) (output : String) :
    code.join.runInTest ids output = code.runInTest ids output >>= fun r => match r.1 with
      | .returned next => next.runInTest ids r.2
      | .failed e => pure (.failed e, r.2)
      | .panicked p => pure (.panicked p, r.2) := by
  refine (perform_bind id code output).trans (bind_congr fun x => ?_)
  obtain ⟨o, output⟩ := x
  cases o <;> rfl

theorem run_join (code : SetupCode ω (SetupCode ω α)) :
    code.join.run = code.run >>= fun o => match o with
      | .returned next => next.run
      | .failed e => pure (.failed e)
      | .panicked p => pure (.panicked p) := by
  unfold run join
  rw [perform_bind, LawfulMonad.bind_assoc, LawfulMonad.bind_assoc]
  refine bind_congr fun x => ?_
  obtain ⟨o, u⟩ := x
  cases o <;> rfl

end Code

/-- The code of a body; a future that it makes runs behind it. -/
def Body.code : Body ω → TestContext → TestCode ω Unit
  | .sync code, ctx => code ctx
  | .async code, ctx => (code ctx).join

/-- A body is one piece of code. -/
theorem Invocation.runBody_eq (ctx : TestContext) (body : Body ω) (s : Invocation) :
    s.runBody ctx body = (do
      Process.enter (.body ctx.ids)
      let (s, _) ← s.attempt ctx.ids (body.code ctx)
      pure s) := by
  cases body with
  | sync code => rfl
  | async code =>
    refine bind_congr fun _ => ?_
    simp only [attempt, Body.code, Code.runInTest_join, LawfulMonad.bind_assoc]
    refine bind_congr fun x => ?_
    obtain ⟨o, output⟩ := x
    cases o with
    | returned future => simp only [Aggregator.capture, Outcome.toExcept, pure_bind]
    | failed e => rfl
    | panicked p => rfl

/-! ## Failures -/

/-- The failure, if there is one. -/
def Outcome.failure? : Outcome α → Option Failure
  | .returned _ => none
  | .failed e => some e
  | .panicked p => some (Failure.ofPanic p)

namespace Outcome

variable {o : Outcome α} {f : Failure}

/-- Code returns a value or fails, with an error or a panic. -/
theorem exists_returned_or_failure (o : Outcome α) :
    (∃ a, o = .returned a) ∨ ∃ f, o.failure? = some f := by
  cases o with
  | returned a => exact .inl ⟨a, rfl⟩
  | failed e => exact .inr ⟨e, rfl⟩
  | panicked p => exact .inr ⟨_, rfl⟩

theorem toExcept_of_failure? (h : o.failure? = some f) : o.toExcept = .error f := by
  cases o <;> cases h <;> rfl

theorem value?_of_failure? (h : o.failure? = some f) : o.value? = none := by
  cases o <;> cases h <;> rfl

end Outcome

namespace Aggregator

/-- A failure that is captured comes behind those that were captured before. -/
theorem failures_capture (a : Aggregator) (o : Outcome α) :
    (a.capture o).1.failures = a.failures ++ o.failure?.toList := by
  cases o with
  | returned v => exact (List.append_nil _).symm
  | failed e => rfl
  | panicked p => rfl

theorem path_attempt {a : Aggregator} {code : SetupCode ω α} {π : List (PathStep ω)}
    {r : Aggregator × Option α} (h : (a.attempt code).Path π r) :
    ∃ o, code.run.Path π o ∧ r = a.capture o := by
  obtain ⟨ρ, o, ρ', hcode, hrest, rfl⟩ := path_bind h
  obtain ⟨rfl, rfl⟩ := path_done hrest
  exact ⟨o, (List.append_nil ρ).symm ▸ hcode, rfl⟩

/-- Code that makes a future fails once at most. -/
theorem attemptAsync_eq (a : Aggregator) (code : SetupCode ω (SetupCode ω Unit)) :
    a.attemptAsync code = (do
      let (a, _) ← a.attempt code.join
      pure a) := by
  simp only [attemptAsync, attempt, Code.run_join, LawfulMonad.bind_assoc]
  refine bind_congr fun o => ?_
  cases o with
  | returned future => simp only [capture, Outcome.toExcept, pure_bind]
  | failed e => rfl
  | panicked p => rfl

end Aggregator

/-! ## Tearing down -/

namespace Teardown

/-- The code of a part of a teardown; a future that it makes runs behind it. -/
def code? (t : Teardown ω) : TeardownPart → Option (SetupCode ω Unit)
  | .async => t.asyncPart.map Code.join
  | .sync => t.syncPart

/-- Runs a part of the `index`th thing that `owner` acquired. -/
def runPart (owner : NodeIds) (part : TeardownPart) (a : Aggregator) (entry : Teardown ω × Nat) :
    Process ω Aggregator :=
  match entry.1.code? part with
  | some code => do
    Process.enter (.release owner entry.2 part)
    let (a, _) ← a.attempt code
    pure a
  | none => pure a

theorem runAsync_eq (owner : NodeIds) :
    (runAsync owner : Aggregator → Teardown ω × Nat → _) = runPart owner .async := by
  funext a entry
  unfold runAsync runPart code?
  cases entry.1.asyncPart with
  | none => rfl
  | some code => exact bind_congr fun _ => a.attemptAsync_eq code

theorem runSync_eq (owner : NodeIds) :
    (runSync owner : Aggregator → Teardown ω × Nat → _) = runPart owner .sync := rfl

end Teardown

/-- Some parts of the things that `owner` acquired run in order, by these steps and with these
failures. A part that is missing is passed over. -/
inductive TornDown (owner : NodeIds) :
    List ((Teardown ω × Nat) × TeardownPart) → List (PathStep ω) → List Failure → Prop
  | nil : TornDown owner [] [] []
  | absent {entry : Teardown ω × Nat} {part : TeardownPart}
      {rest : List ((Teardown ω × Nat) × TeardownPart)} {π : List (PathStep ω)}
      {fs : List Failure} (hcode : entry.1.code? part = none) (h : TornDown owner rest π fs) :
      TornDown owner ((entry, part) :: rest) π fs
  | ran {entry : Teardown ω × Nat} {part : TeardownPart}
      {rest : List ((Teardown ω × Nat) × TeardownPart)} {π ρ : List (PathStep ω)}
      {fs : List Failure} {code : SetupCode ω Unit} {o : Outcome Unit}
      (hcode : entry.1.code? part = some code) (hrun : code.run.Path ρ o)
      (h : TornDown owner rest π fs) :
      TornDown owner ((entry, part) :: rest)
        (acted [.activity (.release owner entry.2 part)] ++ ρ ++ π) (o.failure?.toList ++ fs)

/-- The order in which the parts of teardowns run, each with its place in the order of
acquisition. -/
def teardownOrder (ts : List (Teardown ω)) : List ((Teardown ω × Nat) × TeardownPart) :=
  ts.zipIdx.reverse.map (·, .async) ++ ts.zipIdx.reverse.map (·, .sync)

namespace TornDown

variable {owner : NodeIds} {xs ys : List ((Teardown ω × Nat) × TeardownPart)}
  {π π' : List (PathStep ω)} {fs fs' : List Failure}

theorem append (h : TornDown owner xs π fs) (h' : TornDown owner ys π' fs') :
    TornDown owner (xs ++ ys) (π ++ π') (fs ++ fs') := by
  induction h with
  | nil => exact h'
  | absent hcode _ ih => exact .absent hcode ih
  | ran hcode hrun _ ih =>
    have hran := TornDown.ran hcode hrun ih
    simpa only [List.append_assoc, List.cons_append] using hran

end TornDown

section TearingDown

variable {owner : NodeIds} {a a' : Aggregator} {π : List (PathStep ω)}

theorem Teardown.tornDown_of_path {part : TeardownPart} {entry : Teardown ω × Nat}
    (h : (runPart owner part a entry).Path π a') :
    ∃ fs, TornDown owner [(entry, part)] π fs ∧ a'.failures = a.failures ++ fs := by
  unfold runPart at h
  cases hcode : entry.1.code? part with
  | none =>
    rw [hcode] at h
    obtain ⟨rfl, rfl⟩ := path_done h
    exact ⟨[], .absent hcode .nil, (List.append_nil _).symm⟩
  | some code =>
    rw [hcode] at h
    obtain ⟨ρ₁, _, ρ₂, henter, hcall, rfl⟩ := path_bind h
    obtain ⟨ρ₃, r, ρ₄, hattempt, hend, rfl⟩ := path_bind hcall
    obtain ⟨rfl, rfl⟩ := path_done hend
    obtain rfl := path_enter henter
    obtain ⟨o, hrun, rfl⟩ := Aggregator.path_attempt hattempt
    refine ⟨o.failure?.toList ++ [], ?_, ?_⟩
    · rw [← List.append_assoc]
      exact .ran hcode hrun .nil
    · rw [List.append_nil]
      exact a.failures_capture o

/-- One part of each of several teardowns. -/
theorem Teardown.tornDown_of_path_foldlM {part : TeardownPart}
    {entries : List (Teardown ω × Nat)} (h : (entries.foldlM (runPart owner part) a).Path π a') :
    ∃ fs, TornDown owner (entries.map (·, part)) π fs ∧ a'.failures = a.failures ++ fs := by
  induction entries generalizing a π with
  | nil =>
    obtain ⟨rfl, rfl⟩ := path_done h
    exact ⟨[], .nil, (List.append_nil _).symm⟩
  | cons entry entries ih =>
    rw [List.foldlM_cons] at h
    obtain ⟨ρ, b, ρ', hfirst, hrest, rfl⟩ := path_bind h
    obtain ⟨fs, htorn, hfs⟩ := tornDown_of_path hfirst
    obtain ⟨fs', htorn', hfs'⟩ := ih hrest
    exact ⟨fs ++ fs', htorn.append htorn', by rw [hfs', hfs, List.append_assoc]⟩

/-- **What is kept is torn down in order, and every failure is captured in order.** -/
theorem Disposal.tornDown_of_path {d : Disposal ω} (h : (d.disposeAll owner a).Path π a') :
    ∃ fs, TornDown owner (teardownOrder d.teardowns) π fs ∧ a'.failures = a.failures ++ fs := by
  obtain ⟨ρ, b, ρ', hasync, hsync, rfl⟩ := path_bind h
  rw [Teardown.runAsync_eq] at hasync
  rw [Teardown.runSync_eq] at hsync
  obtain ⟨fs, htorn, hfs⟩ := Teardown.tornDown_of_path_foldlM hasync
  obtain ⟨fs', htorn', hfs'⟩ := Teardown.tornDown_of_path_foldlM hsync
  exact ⟨fs ++ fs', htorn.append htorn', by rw [hfs', hfs, List.append_assoc]⟩

/-- Both parts of a single teardown. -/
theorem Teardown.tornDown_of_path_run {t : Teardown ω} (h : (t.run owner a).Path π a') :
    ∃ fs, TornDown owner (teardownOrder [t]) π fs ∧ a'.failures = a.failures ++ fs := by
  obtain ⟨ρ, b, ρ', hasync, hsync, rfl⟩ := path_bind h
  rw [Teardown.runAsync_eq] at hasync
  rw [Teardown.runSync_eq] at hsync
  obtain ⟨fs, htorn, hfs⟩ := tornDown_of_path hasync
  obtain ⟨fs', htorn', hfs'⟩ := tornDown_of_path hsync
  exact ⟨fs ++ fs', htorn.append htorn', by rw [hfs', hfs, List.append_assoc]⟩

end TearingDown

/-! ## Setting up -/

/-- Fixtures are built from definitions, in order and by these steps. Those that were there before
are `values`, and those that are there after it `values'`; the new ones have these teardowns. A
definition that cannot be resolved, or whose constructor fails, is passed over, and its failure is
the next one. -/
inductive Builds (kind : FixtureKind) (parents : List FixtureMap) (ids : NodeIds) :
    List (FixtureDefinition ω) → FixtureMap → List (PathStep ω) → FixtureMap →
      List (Teardown ω) → List Failure → Prop
  | nil (values : FixtureMap) : Builds kind parents ids [] values [] values [] []
  | unresolved {d : FixtureDefinition ω} {ds : List (FixtureDefinition ω)}
      {values values' : FixtureMap} {π : List (PathStep ω)} {ts : List (Teardown ω)}
      {fs : List Failure} {e : FixtureError}
      (hresolve : d.resolve kind (values :: parents) ids = .error e)
      (h : Builds kind parents ids ds values π values' ts fs) :
      Builds kind parents ids (d :: ds) values π values' ts (.ofCause (.fixture e) :: fs)
  | failed {d : FixtureDefinition ω} {ds : List (FixtureDefinition ω)}
      {values values' : FixtureMap} {π ρ : List (PathStep ω)} {ts : List (Teardown ω)}
      {fs : List Failure} {c : ReadyConstructor ω} {o : Outcome (Fixture ω)} {f : Failure}
      (hresolve : d.resolve kind (values :: parents) ids = .ok c) (hrun : c.code.run.Path ρ o)
      (hfailure : o.failure? = some f) (h : Builds kind parents ids ds values π values' ts fs) :
      Builds kind parents ids (d :: ds) values
        (acted [.activity (.construct ids c.kind c.typeName)] ++ ρ ++
          acted [.activity (.constructed ids c.kind c.typeName none)] ++ π)
        values' ts (c.failure f :: fs)
  | built {d : FixtureDefinition ω} {ds : List (FixtureDefinition ω)}
      {values values' : FixtureMap} {π ρ : List (PathStep ω)} {ts : List (Teardown ω)}
      {fs : List Failure} {c : ReadyConstructor ω} {fixture : Fixture ω}
      (hresolve : d.resolve kind (values :: parents) ids = .ok c)
      (hrun : c.code.run.Path ρ (.returned fixture))
      (h : Builds kind parents ids ds ((d.typeName, fixture.value) :: values) π values' ts fs) :
      Builds kind parents ids (d :: ds) values
        (acted [.activity (.construct ids c.kind c.typeName)] ++ ρ ++
          acted [.activity (.constructed ids c.kind c.typeName (some fixture.teardown.parts))] ++ π)
        values' (fixture.teardown :: ts) fs

/-- The teardowns that are kept, since there is something to tear down. -/
def kept (ts : List (Teardown ω)) : List (Teardown ω) := ts.filter fun t => !t.isEmpty

theorem Disposal.teardowns_add (d : Disposal ω) (t : Teardown ω) :
    (d.add t).teardowns = d.teardowns ++ kept [t] := by
  unfold add kept
  by_cases h : t.isEmpty = true
  · simp [h]
  · simp [h]

theorem kept_append (ts us : List (Teardown ω)) : kept (ts ++ us) = kept ts ++ kept us :=
  List.filter_append ..

theorem Disposal.teardowns_foldl_add (teardown : α → Teardown ω) (xs : List α) (d : Disposal ω) :
    (xs.foldl (fun d x => d.add (teardown x)) d).teardowns =
      d.teardowns ++ kept (xs.map teardown) := by
  induction xs generalizing d with
  | nil => exact (List.append_nil _).symm
  | cons x xs ih =>
    rw [List.foldl_cons, ih, teardowns_add, List.append_assoc, ← kept_append]
    rfl

/-- What comes of a constructor. -/
theorem ReadyConstructor.exists_of_path {owner : NodeIds} {c : ReadyConstructor ω}
    {π : List (PathStep ω)} {built : Except Failure (Fixture ω)}
    (h : (c.invoke owner).Path π built) :
    ∃ ρ o, c.code.run.Path ρ o ∧
      π = acted [.activity (.construct owner c.kind c.typeName)] ++ ρ ++
        acted [.activity (.constructed owner c.kind c.typeName
          (o.value?.map (·.teardown.parts)))] ∧
      ((∃ fixture, o = .returned fixture ∧ built = .ok fixture) ∨
        ∃ f, o.failure? = some f ∧ o.value? = none ∧ built = .error (c.failure f)) := by
  obtain ⟨ρ₁, _, ρ₂, henter, hcall, rfl⟩ := path_bind h
  obtain ⟨ρ, o, ρ₃, hrun, hend, rfl⟩ := path_bind hcall
  obtain rfl := path_enter henter
  refine ⟨ρ, o, hrun, ?_⟩
  cases o with
  | returned fixture =>
    obtain ⟨ρ₄, _, ρ₅, hended, hdone, rfl⟩ := path_bind hend
    obtain ⟨rfl, rfl⟩ := path_done hdone
    obtain rfl := path_enter hended
    exact ⟨by simp only [List.append_assoc, List.append_nil]; rfl, .inl ⟨fixture, rfl, rfl⟩⟩
  | failed e =>
    obtain ⟨ρ₄, _, ρ₅, hended, hdone, rfl⟩ := path_bind hend
    obtain ⟨rfl, rfl⟩ := path_done hdone
    obtain rfl := path_enter hended
    exact ⟨by simp only [List.append_assoc, List.append_nil]; rfl, .inr ⟨e, rfl, rfl, rfl⟩⟩
  | panicked p =>
    obtain ⟨ρ₄, _, ρ₅, hended, hdone, rfl⟩ := path_bind hend
    obtain ⟨rfl, rfl⟩ := path_done hdone
    obtain rfl := path_enter hended
    exact ⟨by simp only [List.append_assoc, List.append_nil]; rfl, .inr ⟨_, rfl, rfl, rfl⟩⟩

/-- **Fixtures are built in order**: one that fails stops none of the others, and every failure is
captured in order. -/
theorem Fixtures.builds_of_path {kind : FixtureKind} {parents : List FixtureMap} {ids : NodeIds}
    {ds : List (FixtureDefinition ω)} {fs fs' : Fixtures ω} {π : List (PathStep ω)}
    (h : (constructAll kind parents ids ds fs).Path π fs') :
    ∃ ts es, Builds kind parents ids ds fs.values π fs'.values ts es ∧
      fs'.failures.failures = fs.failures.failures ++ es ∧
      fs'.disposal.teardowns = fs.disposal.teardowns ++ kept ts := by
  induction ds generalizing fs π with
  | nil =>
    obtain ⟨rfl, rfl⟩ := path_done h
    exact ⟨[], [], .nil _, (List.append_nil _).symm, (List.append_nil _).symm⟩
  | cons d ds ih =>
    have h : (construct kind parents ids fs d >>= constructAll kind parents ids ds).Path π fs' := by
      rw [constructAll, List.foldlM_cons] at h
      exact h
    obtain ⟨ρ, gs, ρ', hone, hrest, rfl⟩ := path_bind h
    obtain ⟨ts, es, hbuilds, hfailures, hteardowns⟩ := ih hrest
    unfold construct at hone
    cases hresolve : d.resolve kind (fs.values :: parents) ids with
    | error e =>
      rw [hresolve] at hone
      obtain ⟨rfl, rfl⟩ := path_done hone
      refine ⟨ts, _, .unresolved hresolve hbuilds, ?_, hteardowns⟩
      rw [hfailures]
      exact List.append_assoc ..
    | ok c =>
      rw [hresolve] at hone
      obtain ⟨ρ₁, built, ρ₂, hinvoke, hend, rfl⟩ := path_bind hone
      obtain ⟨ρ₃, o, hrun, rfl, ⟨fixture, rfl, rfl⟩ | ⟨f, hfailure, hvalue, rfl⟩⟩ :=
        c.exists_of_path hinvoke
      · obtain ⟨rfl, rfl⟩ := path_done hend
        refine ⟨fixture.teardown :: ts, es, ?_, hfailures, ?_⟩
        · rw [List.append_nil]
          exact .built hresolve hrun hbuilds
        · rw [hteardowns, Disposal.teardowns_add, List.append_assoc, ← kept_append]
          rfl
      · obtain ⟨rfl, rfl⟩ := path_done hend
        refine ⟨ts, c.failure f :: es, ?_, ?_, hteardowns⟩
        · rw [List.append_nil, hvalue]
          exact .failed hresolve hrun hfailure hbuilds
        · rw [hfailures]
          exact List.append_assoc ..

end TestEngine
