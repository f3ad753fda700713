import TestEngine.Proofs.Order.Fallbacks
import TestEngine.Proofs.Run.Inheritance
import TestEngine.Proofs.Run.TwinTests

/-!
# Tests that are invoked

Nothing went wrong for an invoked test beforehand, so its code runs: the constructor of its class,
the hooks and the body, and the teardown of the instance. Each of them may end well, fail or panic,
and what runs after it depends on that. Here is all that may happen, and what the test reports of
it.

* `Surrounds` — hooks run around a body, and what fails on the way.
* `Test.Conducts` — an invoked test from its constructor to its last message.
* `NodeTask.conducts_of_path` — every test of a run that is invoked is conducted like this.
-/

namespace TestEngine

open Process

variable {ω : Type}

/-! ## Hooks and bodies -/

/-- The code of one side of a hook. A side that is missing returns at once. -/
def Hook.code (h : Hook ω) (side : HookSide) : TestContext → TestCode ω Unit :=
  (h.side side).getD fun _ => .finish (.returned ())

/-- Code of the test `ids` runs by these steps. The texts are what the test has written before and
after; at the end is what the code fails with, be it an error or a panic. -/
inductive CodeRuns (ids : NodeIds) (code : TestCode ω Unit) :
    String → List (PathStep ω) → String → Option Failure → Prop
  | intro {output output' : String} {π : List (PathStep ω)} {o : Outcome Unit}
      (hrun : (code.runInTest ids output).Path π (o, output')) :
      CodeRuns ids code output π output' o.failure?

/-- One side of a hook runs, between its two messages. -/
inductive HookRuns (ctx : TestContext) (side : HookSide) (hook : Hook ω) :
    String → List (PathStep ω) → String → Option Failure → Prop
  | intro {output output' : String} {π : List (PathStep ω)} {f : Option Failure}
      (hrun : CodeRuns ctx.ids (hook.code side ctx) output π output' f) (b b' : Bool) :
      HookRuns ctx side hook output
        (acted (reported ⟨ctx.ids, hook.event side .starting⟩ b) ++
          (acted [.activity (.hook ctx.ids side hook.name)] ++ π ++
            acted (reported ⟨ctx.ids, hook.event side .finished⟩ b')))
        output' f

/-- One side of each of several hooks runs, in order and whatever fails. The failures are in the
order of the hooks. -/
inductive HooksRun (ctx : TestContext) (side : HookSide) :
    List (Hook ω) → String → List (PathStep ω) → String → List Failure → Prop
  | nil (output : String) : HooksRun ctx side [] output [] output []
  | cons {hook : Hook ω} {rest : List (Hook ω)} {output output' output'' : String}
      {π ρ : List (PathStep ω)} {f : Option Failure} {fs : List Failure}
      (h : HookRuns ctx side hook output π output' f)
      (hrest : HooksRun ctx side rest output' ρ output'' fs) :
      HooksRun ctx side (hook :: rest) output (π ++ ρ) output'' (f.toList ++ fs)

/-- Hooks run around a body by these steps; then this is what the test has written, and these are
the failures. If all hooks pass before the body, then it runs, and all of them run after it. Else
the body does not run, and only hooks that ran before it run after it. Hooks that run after a body
do so in reverse, and none of them waits on another. -/
inductive Surrounds (ctx : TestContext) (hooks : List (Hook ω)) (body : Body ω) :
    List (PathStep ω) → String → List Failure → Prop
  | through {π ρ σ : List (PathStep ω)} {o₁ o₂ o₃ : String} {f : Option Failure}
      {gs : List Failure} (hbefore : HooksRun ctx .before hooks "" π o₁ [])
      (hbody : CodeRuns ctx.ids (body.code ctx) o₁ ρ o₂ f)
      (hafter : HooksRun ctx .after hooks.reverse o₂ σ o₃ gs) :
      Surrounds ctx hooks body (π ++ (acted [.activity (.body ctx.ids)] ++ ρ) ++ σ) o₃
        (f.toList ++ gs)
  | stopped {passed rest : List (Hook ω)} {hook : Hook ω} {π ρ σ : List (PathStep ω)}
      {o₁ o₂ o₃ : String} {f : Failure} {gs : List Failure}
      (hhooks : hooks = passed ++ hook :: rest)
      (hbefore : HooksRun ctx .before passed "" π o₁ [])
      (hfailed : HookRuns ctx .before hook o₁ ρ o₂ (some f))
      (hafter : HooksRun ctx .after (passed ++ [hook]).reverse o₂ σ o₃ gs) :
      Surrounds ctx hooks body (π ++ ρ ++ σ) o₃ (f :: gs)

namespace Invocation

variable {ctx : TestContext} {ids : NodeIds} {s s' : Invocation} {π : List (PathStep ω)}

/-- A failure of code is captured behind the others. -/
theorem codeRuns_of_path {code : TestCode ω Unit} {r : Invocation × Option Unit}
    (h : (s.attempt ids code).Path π r) :
    ∃ f, CodeRuns ids code s.output π r.1.output f ∧
      r.1.failures.failures = s.failures.failures ++ f.toList ∧ r.2.isSome = f.isNone := by
  obtain ⟨ρ, ⟨o, output⟩, ρ', hrun, hend, rfl⟩ := path_bind h
  obtain ⟨rfl, rfl⟩ := path_done hend
  rw [List.append_nil]
  exact ⟨o.failure?, .intro hrun, s.failures.failures_capture o, isSome_capture s.failures o⟩

/-- A side that is missing is as good as code that returns. -/
theorem runHook_eq_attempt (ctx : TestContext) (side : HookSide) (s : Invocation)
    (hook : Hook ω) : s.runHook ctx side hook = (do
      let _ ← Process.report ctx.ids (hook.event side .starting)
      Process.enter (.hook ctx.ids side hook.name)
      let (s, value) ← s.attempt ctx.ids (hook.code side ctx)
      let _ ← Process.report ctx.ids (hook.event side .finished)
      pure (s, value.isSome)) := by
  unfold runHook Hook.code
  cases hook.side side <;> rfl

theorem hookRuns_of_path {side : HookSide} {hook : Hook ω} {succeeded : Bool}
    (h : (s.runHook ctx side hook).Path π (s', succeeded)) :
    ∃ f, HookRuns ctx side hook s.output π s'.output f ∧
      s'.failures.failures = s.failures.failures ++ f.toList ∧ succeeded = f.isNone := by
  rw [runHook_eq_attempt] at h
  obtain ⟨ρ₁, b, ρ₂, hstarting, hentered, rfl⟩ := path_bind h
  obtain ⟨ρ₃, _, ρ₄, henter, hcall, rfl⟩ := path_bind hentered
  obtain ⟨ρ₅, r, ρ₆, hattempt, hend, rfl⟩ := path_bind hcall
  obtain ⟨ρ₇, b', ρ₈, hfinished, hdone, rfl⟩ := path_bind hend
  obtain ⟨rfl, he⟩ := path_done hdone
  cases he
  obtain rfl := path_report hstarting
  obtain rfl := path_enter henter
  obtain rfl := path_report hfinished
  obtain ⟨f, hruns, hfailures, hsucceeded⟩ := codeRuns_of_path hattempt
  refine ⟨f, ?_, hfailures, hsucceeded⟩
  rw [List.append_nil, ← List.append_assoc (acted [_])]
  exact .intro hruns b b'

theorem hooksRun_of_path {hooks : List (Hook ω)} (h : (runAfter ctx hooks s).Path π s') :
    ∃ fs, HooksRun ctx .after hooks s.output π s'.output fs ∧
      s'.failures.failures = s.failures.failures ++ fs := by
  induction hooks generalizing s π with
  | nil =>
    obtain ⟨rfl, rfl⟩ := path_done h
    exact ⟨[], .nil _, (List.append_nil _).symm⟩
  | cons hook rest ih =>
    obtain ⟨ρ, ⟨s₁, succeeded⟩, ρ', hfirst, hrest, rfl⟩ := path_bind h
    obtain ⟨f, hruns, hf, -⟩ := hookRuns_of_path hfirst
    obtain ⟨fs, hrest, hfs⟩ := ih hrest
    exact ⟨f.toList ++ fs, .cons hruns hrest, by rw [hfs, hf, List.append_assoc]⟩

/-- Hooks run before a body: all of them pass, or the first that fails is the last that runs. -/
theorem path_runBefore {hooks started started' : List (Hook ω)}
    (h : (runBefore ctx hooks started s).Path π (s', started')) :
    (HooksRun ctx .before hooks s.output π s'.output [] ∧
      s'.failures.failures = s.failures.failures ∧ started' = hooks.reverse ++ started) ∨
    ∃ passed hook rest ρ ρ' output f, hooks = passed ++ hook :: rest ∧ π = ρ ++ ρ' ∧
      HooksRun ctx .before passed s.output ρ output [] ∧
      HookRuns ctx .before hook output ρ' s'.output (some f) ∧
      s'.failures.failures = s.failures.failures ++ [f] ∧
      started' = (passed ++ [hook]).reverse ++ started := by
  induction hooks generalizing s started π with
  | nil =>
    obtain ⟨rfl, he⟩ := path_done h
    cases he
    exact .inl ⟨.nil _, rfl, rfl⟩
  | cons hook rest ih =>
    obtain ⟨ρ, ⟨s₁, succeeded⟩, ρ', hfirst, hrest, rfl⟩ := path_bind h
    obtain ⟨f, hruns, hf, rfl⟩ := hookRuns_of_path hfirst
    cases f with
    | some f =>
      obtain ⟨rfl, he⟩ := path_done hrest
      cases he
      rw [List.append_nil]
      exact .inr ⟨[], hook, rest, [], ρ, _, f, rfl, rfl, .nil _, hruns, hf, rfl⟩
    | none =>
      have hf : s₁.failures.failures = s.failures.failures := hf.trans (List.append_nil _)
      rcases ih hrest with ⟨hpassed, hfs, rfl⟩ |
        ⟨passed, last, others, ρ₁, ρ₂, output, f, rfl, rfl, hpassed, hlast, hfs, rfl⟩
      · refine .inl ⟨.cons hruns hpassed, hfs.trans hf, ?_⟩
        rw [List.reverse_cons, List.append_assoc]
        rfl
      · refine .inr ⟨hook :: passed, last, others, ρ ++ ρ₁, ρ₂, output, f, rfl, ?_,
          .cons hruns hpassed, hlast, hf ▸ hfs, ?_⟩
        · rw [List.append_assoc]
        · rw [List.cons_append, List.reverse_cons, List.append_assoc]
          rfl

/-- The body runs unless something failed before it. -/
theorem path_tryBody {body : Body ω} (h : (s.tryBody ctx body).Path π s') :
    (s.failures.failures ≠ [] ∧ π = [] ∧ s' = s) ∨
    ∃ ρ f, s.failures.failures = [] ∧ π = acted [.activity (.body ctx.ids)] ++ ρ ∧
      CodeRuns ctx.ids (body.code ctx) s.output ρ s'.output f ∧
      s'.failures.failures = f.toList := by
  unfold tryBody at h
  by_cases hfailed : s.failures.failures = []
  · have hnone : s.failures.hasFailures = false := by rw [Aggregator.hasFailures, hfailed]; rfl
    rw [hnone, runBody_eq] at h
    obtain ⟨ρ₁, _, ρ₂, henter, hcall, rfl⟩ := path_bind h
    obtain ⟨ρ₃, r, ρ₄, hattempt, hdone, rfl⟩ := path_bind hcall
    obtain ⟨rfl, rfl⟩ := path_done hdone
    obtain rfl := path_enter henter
    obtain ⟨f, hruns, hf, -⟩ := codeRuns_of_path hattempt
    rw [hfailed, List.nil_append] at hf
    exact .inr ⟨ρ₃, f, hfailed, by rw [List.append_nil], hruns, hf⟩
  · have hsome : s.failures.hasFailures = true := by simpa [Aggregator.hasFailures] using hfailed
    rw [hsome] at h
    obtain ⟨rfl, rfl⟩ := path_done h
    exact .inl ⟨hfailed, rfl, rfl⟩

/-- What the hooks and the body of a test do. -/
theorem surrounds_of_path {hooks : List (Hook ω)} {body : Body ω}
    (h : (runAround ctx hooks body).Path π s) :
    Surrounds ctx hooks body π s.output s.failures.failures := by
  rw [runAround_eq] at h
  obtain ⟨ρ₁, ⟨s₁, started⟩, ρ₂, hbefore, hrest, rfl⟩ := path_bind h
  obtain ⟨ρ₃, s₂, ρ₄, hbody, hafter, rfl⟩ := path_bind hrest
  obtain ⟨gs, hafter, hgs⟩ := hooksRun_of_path hafter
  rw [hgs, ← List.append_assoc]
  rcases path_runBefore hbefore with ⟨hpassed, hfs, rfl⟩ |
    ⟨passed, hook, rest, σ, σ', output, f, rfl, rfl, hpassed, hlast, hfs, rfl⟩
  · rcases path_tryBody hbody with ⟨hne, -, -⟩ | ⟨ρ, f, -, rfl, hruns, hf⟩
    · exact absurd hfs hne
    · rw [List.append_nil] at hafter
      rw [hf]
      exact .through hpassed hruns hafter
  · rcases path_tryBody hbody with ⟨-, rfl, rfl⟩ | ⟨_, _, hnil, -, -, -⟩
    · rw [List.append_nil] at hafter ⊢
      rw [hfs]
      exact .stopped rfl hpassed hlast hafter
    · rw [hfs] at hnil
      cases hnil

end Invocation

/-! ## Invoked tests -/

/-- The steps of building an instance of a class, around those of its constructor. -/
def constructionSteps (ids : NodeIds) (c : ReadyConstructor ω) (π : List (PathStep ω))
    (parts : Option (List TeardownPart)) (b b' : Bool) : List (PathStep ω) :=
  acted (reported ⟨ids, .construction .starting⟩ b) ++
    (acted [.activity (.construct ids c.kind c.typeName)] ++ π ++
      acted [.activity (.constructed ids c.kind c.typeName parts)]) ++
    acted (reported ⟨ids, .construction .finished⟩ b')

/-- The result of a test with these failures: it passed if there are none. -/
def resultOf (output : String) : List Failure → Event
  | [] => .passed .zero output
  | f :: fs => .failed .zero output (Failure.combine (f :: fs)).record

/-- A test reports what failed when its instance was torn down, if anything did. -/
inductive ReportsCleanup (ids : NodeIds) : List Failure → List (PathStep ω) → Prop
  | clean : ReportsCleanup ids [] []
  | failed (f : Failure) (fs : List Failure) (b : Bool) :
      ReportsCleanup ids (f :: fs)
        (acted (reported ⟨ids, .cleanupFailure .test (Failure.combine (f :: fs)).record⟩ b))

/-- A test comes to its end: it reports its result, then what failed when its instance was torn
down, and that it has finished. -/
inductive Concludes (ids : NodeIds) (output : String) (fs cleanup : List Failure) :
    List (PathStep ω) → Prop
  | intro {π : List (PathStep ω)} (hcleanup : ReportsCleanup ids cleanup π) (b b' : Bool) :
      Concludes ids output fs cleanup
        (acted (reported ⟨ids, resultOf output fs⟩ b) ++ π ++
          acted (reported ⟨ids, .testFinished .zero output⟩ b'))

/-- All that an invoked test does after it has started. Without a constructor, only hooks and a body
run. With one, an instance is built; if that fails nothing else of the test runs, and else the
instance is torn down behind the hooks and the body. -/
inductive Test.Conducts (t : Test ω) (ids : NodeIds) (scope : ClassScope ω) :
    List (PathStep ω) → Prop
  | bare {π ρ : List (PathStep ω)} {output : String} {fs : List Failure}
      (hnone : scope.constructor = none)
      (haround : Surrounds (t.context ids scope none) t.testCase.hooks t.testCase.method.body π
        output fs)
      (hend : Concludes ids output fs [] ρ) : Conducts t ids scope (π ++ ρ)
  | unbuilt {c : ReadyConstructor ω} {π ρ : List (PathStep ω)} {o : Outcome (Fixture ω)}
      {f : Failure} (hsome : scope.constructor = some c) (hrun : c.code.run.Path π o)
      (hfailure : o.failure? = some f) (b b' : Bool)
      (hend : Concludes ids "" [c.failure f] [] ρ) :
      Conducts t ids scope (constructionSteps ids c π none b b' ++ ρ)
  | built {c : ReadyConstructor ω} {fixture : Fixture ω} {π ρ σ τ : List (PathStep ω)}
      {output : String} {fs cleanup : List Failure} (hsome : scope.constructor = some c)
      (hrun : c.code.run.Path π (.returned fixture))
      (haround : Surrounds (t.context ids scope (some fixture.value)) t.testCase.hooks
        t.testCase.method.body ρ output fs)
      (htorn : TornDown ids (teardownOrder [fixture.teardown]) σ cleanup) (b b' d d' : Bool)
      (hend : Concludes ids output fs cleanup τ) :
      Conducts t ids scope
        (constructionSteps ids c π (some fixture.teardown.parts) b b' ++ ρ ++
          (acted (reported ⟨ids, .disposal .starting⟩ d) ++ σ ++
            acted (reported ⟨ids, .disposal .finished⟩ d')) ++ τ)

namespace Test

variable {t : Test ω} {ids : NodeIds} {scope : ClassScope ω} {π : List (PathStep ω)}

theorem result_eq (s : Invocation) : s.result = resultOf s.output s.failures.failures := by
  unfold Invocation.result Aggregator.toFailure?
  cases s.failures.failures <;> rfl

theorem concludes_of_cleanup {s : Invocation} {a : Aggregator}
    {cleanup : Option (ErrorRecord × Bool)}
    (h : cleanup.map (·.1) = a.toFailure?.map (·.record)) (b b' : Bool) :
    Concludes (ω := ω) ids s.output s.failures.failures a.failures
      (acted (reported ⟨ids, s.result⟩ b) ++
        (acted (Frame.cleanupSteps ids .test cleanup) ++
          acted (reported ⟨ids, .testFinished .zero s.output⟩ b'))) := by
  have hcleanup : ReportsCleanup (ω := ω) ids a.failures
      (acted (Frame.cleanupSteps ids .test cleanup)) := by
    unfold Aggregator.toFailure? at h
    cases hfs : a.failures with
    | nil =>
      rw [hfs] at h
      cases cleanup with
      | none => exact .clean
      | some c => cases h
    | cons f fs =>
      rw [hfs] at h
      cases cleanup with
      | none => cases h
      | some c =>
        obtain ⟨r, b⟩ := c
        cases h
        exact .failed f fs b
  rw [result_eq, ← List.append_assoc]
  exact .intro hcleanup b b'

/-- What is done to tear an instance down. -/
theorem tornDown_of_path_dispose {teardown : Teardown ω} {a : Aggregator}
    (h : (dispose ids teardown).Path π a) :
    ∃ σ d d', TornDown ids (teardownOrder [teardown]) σ a.failures ∧
      π = acted (reported ⟨ids, .disposal .starting⟩ d) ++ σ ++
        acted (reported ⟨ids, .disposal .finished⟩ d') := by
  obtain ⟨ρ₁, d, ρ₂, hstarting, hrest, rfl⟩ := path_bind h
  obtain ⟨σ, a', ρ₃, htearing, hend, rfl⟩ := path_bind hrest
  obtain ⟨ρ₄, d', ρ₅, hfinished, hdone, rfl⟩ := path_bind hend
  obtain ⟨rfl, rfl⟩ := path_done hdone
  obtain rfl := path_report hstarting
  obtain rfl := path_report hfinished
  obtain ⟨fs, htorn, hfs⟩ := Teardown.tornDown_of_path_run htearing
  obtain rfl : a'.failures = fs := hfs
  exact ⟨σ, d, d', htorn, by rw [List.append_nil, List.append_assoc]⟩

/-- An invoked test up to its result, and whatever concludes it. -/
theorem conducts_of_path_invoke {s : Invocation} {a : Aggregator} {τ : List (PathStep ω)}
    (h : (t.invoke ids scope).Path π (s, a))
    (hend : Concludes ids s.output s.failures.failures a.failures τ) :
    t.Conducts ids scope (π ++ τ) := by
  unfold invoke at h
  cases hconstructor : scope.constructor with
  | none =>
    rw [hconstructor] at h
    obtain ⟨ρ, s', ρ', haround, hdone, rfl⟩ := path_bind h
    obtain ⟨rfl, he⟩ := path_done hdone
    cases he
    rw [List.append_nil]
    exact .bare hconstructor (Invocation.surrounds_of_path haround) hend
  | some c =>
    rw [hconstructor] at h
    obtain ⟨ρ₁, b, ρ₂, hstarting, hrest, rfl⟩ := path_bind h
    obtain ⟨ρ₃, built, ρ₄, hinvoke, hbuilt, rfl⟩ := path_bind hrest
    obtain ⟨ρ₅, b', ρ₆, hfinished, hinstance, rfl⟩ := path_bind hbuilt
    obtain rfl := path_report hstarting
    obtain rfl := path_report hfinished
    obtain ⟨ρ, o, hrun, rfl, ⟨fixture, rfl, rfl⟩ | ⟨f, hfailure, hvalue, rfl⟩⟩ :=
      c.exists_of_path hinvoke
    · obtain ⟨ρ₇, s', ρ₈, haround, hdispose, rfl⟩ := path_bind hinstance
      obtain ⟨ρ₉, a', ρ₁₀, htearing, hdone, rfl⟩ := path_bind hdispose
      obtain ⟨rfl, he⟩ := path_done hdone
      cases he
      obtain ⟨σ, d, d', htorn, rfl⟩ := tornDown_of_path_dispose htearing
      have hconducts := Conducts.built hconstructor hrun (Invocation.surrounds_of_path haround)
        htorn b b' d d' hend
      simpa only [constructionSteps, Outcome.value?, Option.map_some, List.append_assoc,
        List.append_nil] using hconducts
    · obtain ⟨rfl, he⟩ := path_done hinstance
      cases he
      rw [hvalue]
      have hconducts := Conducts.unbuilt (t := t) hconstructor hrun hfailure b b' hend
      simpa only [constructionSteps, Option.map_none, List.append_assoc, List.append_nil]
        using hconducts

/-- **A test that is not skipped and inherits nothing is conducted**, from its constructor to its
last message. -/
theorem Verdict.conducts {inherited : Aggregator} (h : t.Verdict ids scope inherited π)
    (hskip : t.skipReason = none) (hinherited : inherited.failures = []) :
    t.Conducts ids scope π := by
  cases h with
  | skipped hreason =>
    rw [hskip] at hreason
    cases hreason
  | failed _ hfailed => exact absurd hinherited hfailed
  | invoked _ _ hinvoke hcleanup b b' =>
    exact conducts_of_path_invoke hinvoke (concludes_of_cleanup hcleanup b b')

/-- Only the first step of a test can be its start, and what follows it is the verdict. -/
theorem verdict_of_start {caseIds : NodeIds} {inherited : Aggregator} {x y : List (PathStep ω)}
    {name : String} {n : Counts}
    (h : (t.run caseIds scope inherited).Path
      (x ++ .act (.queued ⟨caseIds.child .test t.id, .starting (.test name)⟩ true) :: y) n) :
    x = [] ∧ t.displayName = name ∧ t.Verdict (caseIds.child .test t.id) scope inherited y := by
  rcases exists_of_path h with ⟨b, heq⟩ | ⟨ρ, heq, hverdict⟩
  · -- a test that is to stop has no other start, and the answer to that was another one
    have hmem := List.mem_append_right x (List.mem_cons_self (a := PathStep.act
      (.queued ⟨caseIds.child .test t.id, .starting (.test name)⟩ true)) (l := y))
    rw [heq] at hmem
    cases b <;> simp [acted, reported] at hmem
  · cases x with
    | nil =>
      obtain ⟨hstart, rfl⟩ := List.cons.inj heq
      cases hstart
      exact ⟨rfl, rfl, hverdict⟩
    | cons s x =>
      have hrest : x ++ _ :: y = ρ := (List.cons.inj heq).2
      have hnot := hverdict.isStarting_eq (hrest ▸ List.mem_append_right x List.mem_cons_self)
      cases hnot

end Test

/-! ## Tests of a class -/

/-- What the tests of a class share if nothing is wrong with its constructor: they have one if the
class has, and its arguments are found among the fixtures of the class and of the collection. -/
def ClassScope.Fits (scope : ClassScope ω) (k : TestClass ω) (classIds : NodeIds) : Prop :=
  (k.constructor = none ∧ scope.constructor = none) ∨
    ∃ d c, k.constructor = some d ∧ scope.constructor = some c ∧
      d.resolve .testInstance [scope.classFixtures, scope.collectionFixtures] classIds = .ok c

/-- If the constructor of a class is resolved, the tests have it. -/
theorem TestClass.fits_scope {k : TestClass ω} {ids : NodeIds}
    {collectionFixtures classFixtures : FixtureMap}
    (h : k.unresolved ids collectionFixtures classFixtures = []) :
    (k.scope ids collectionFixtures classFixtures).Fits k ids := by
  unfold unresolved at h
  cases hconstructor : k.constructor with
  | none => exact .inl ⟨hconstructor, by rw [scope, hconstructor]; rfl⟩
  | some d =>
    rw [hconstructor] at h
    cases hresolve : d.resolve .testInstance [classFixtures, collectionFixtures] ids with
    | ok c =>
      refine .inr ⟨d, c, hconstructor, ?_, hresolve⟩
      simp only [scope, hconstructor, Option.bind_some, hresolve]
      rfl
    | error e =>
      simp only [hresolve] at h
      cases h

namespace NodeTask

variable {root : NodeTask ω} {π : List (PathStep ω)}

/-- After the steps `before` the task `root` comes to the test `t`, by way of the class `k`, whose
IDs are `classIds`, of one of its methods and of one of its cases. -/
inductive LeadsTo (root : NodeTask ω) (k : TestClass ω) :
    (classIds : NodeIds) → (before : List (PathStep ω)) → (ids : NodeIds) → (t : Test ω) →
      (scope : ClassScope ω) → (inherited : List Failure) → Prop
  | intro {setup : RunSetup ω} {collectionIds caseIds : NodeIds} {fixtures : FixtureMap}
      {a inherited : Aggregator} {cases : List (TestCase ω)} {m c : NodeTask ω}
      {before ρ₁ ρ₂ ρ₃ : List (PathStep ω)} {scope : ClassScope ω} {t : Test ω}
      (hclass : root.Placed before (.testClass setup collectionIds fixtures a k cases))
      (hmethod : (NodeTask.testClass setup collectionIds fixtures a k cases).Gives ρ₁ m)
      (hcase : m.Gives ρ₂ c) (htest : c.Gives ρ₃ (.test caseIds scope inherited t)) :
      LeadsTo root k (collectionIds.child .testClass k.id) (before ++ ρ₁ ++ ρ₂ ++ ρ₃)
        (caseIds.child .test t.id) t scope inherited.failures

/-- At the level of a task there is nothing below it but the task itself. -/
theorem Placed.eq_root {j : NodeTask ω} (h : root.Placed π j) (hlevel : j.level = root.level) :
    j = root := by
  cases h with
  | root => rfl
  | child h hj =>
    have hle := h.level_le
    have hlt := hj.level_lt
    rw [hlevel] at hlt
    omega

/-- Below a class there are methods, below these are cases, and below these are tests. -/
theorem leadsTo_of_placed (hroot : root.level.depth ≤ 2) {caseIds : NodeIds}
    {scope : ClassScope ω} {a : Aggregator} {t : Test ω}
    (h : root.Placed π (.test caseIds scope a t)) :
    ∃ k classIds, root.LeadsTo k classIds π (caseIds.child .test t.id) t scope a.failures := by
  cases h with
  | root => exact absurd hroot (show ¬5 ≤ 2 by decide)
  | child h htest =>
    cases htest with
    | test hfinds ht earlier₃ =>
      cases h with
      | root => exact absurd hroot (show ¬4 ≤ 2 by decide)
      | child h hcase =>
        cases hcase with
        | testCase hcase earlier₂ =>
          cases h with
          | root => exact absurd hroot (show ¬3 ≤ 2 by decide)
          | child h hmethod =>
            cases hmethod with
            | method hbuilds hordered hc earlier₁ =>
              exact ⟨_, _, .intro h (.method hbuilds hordered hc earlier₁)
                (.testCase hcase earlier₂) (.test hfinds ht earlier₃)⟩

/-- A test that inherits nothing does not inherit that its constructor is not resolved. -/
theorem LeadsTo.fits {k : TestClass ω} {classIds ids : NodeIds} {t : Test ω}
    {scope : ClassScope ω} (h : root.LeadsTo k classIds π ids t scope []) :
    scope.Fits k classIds := by
  generalize hnone : ([] : List Failure) = inherited at h
  cases h with
  | intro hclass hmethod hcase htest =>
    cases hmethod with
    | method hbuilds hordered hc _ =>
      cases hcase with
      | testCase _ _ =>
        cases htest with
        | test _ _ _ =>
          have hclass := (List.append_eq_nil_iff.mp hnone.symm).1
          exact TestClass.fits_scope (List.append_eq_nil_iff.mp hclass).2

/-- **Every invoked test is conducted**: in a run of an assembly, of a collection or of a class,
each test that is to start belongs to a class, and unless it is skipped or inherits a failure it has
the constructor of the class if there is one, and is conducted from there to its last message. -/
theorem conducts_of_path (hroot : root.level.depth ≤ 2) {n : Counts}
    (h : root.process.Path π n) {x y : List (PathStep ω)} {ids : NodeIds} {name : String}
    (hx : π = x ++ .act (.queued ⟨ids, .starting (.test name)⟩ true) :: y) :
    ∃ k classIds t scope inherited ρ after, y = ρ ++ after ∧ t.displayName = name ∧
      root.LeadsTo k classIds x ids t scope inherited ∧
      (t.skipReason = none → inherited = [] →
        scope.Fits k classIds ∧ t.Conducts ids scope ρ) := by
  obtain ⟨before, x', ρ, after, j, k, rfl, rfl, ⟨hplaced, hids, hlevel⟩, hpath⟩ :=
    standsIn_of_path h hx rfl
  cases j with
  | test caseIds scope a t =>
    obtain rfl : caseIds.child .test t.id = ids := hids
    obtain ⟨rfl, hname, hverdict⟩ := Test.verdict_of_start hpath
    obtain ⟨k, classIds, hleads⟩ := leadsTo_of_placed hroot hplaced
    rw [List.append_nil]
    refine ⟨k, classIds, t, scope, a.failures, ρ, after, rfl, hname, hleads, ?_⟩
    intro hskip hnone
    exact ⟨LeadsTo.fits (hnone ▸ hleads), hverdict.conducts hskip hnone⟩
  | assembly | collection | testClass | method | testCase => cases hlevel

end NodeTask

/-! ### A voyage that goes wrong

Nothing stops the run of a class with one test, which inherits nothing. A hook fails before the
body, and so does the teardown of the instance. -/

namespace Voyage

/-- A class with a constructor and a hook that fails. -/
def testClass : TestClass Unit where
  collection := { assembly := { name := "fleet" }, displayName := "sea" }
  name := "Ship"
  constructor := some {
    typeName := "Ship"
    constructors := [{
      parameters := []
      build := fun _ _ => .finish (.returned {
        value := ⟨"Ship", "hull"⟩
        teardown := { syncPart := some (.finish (.panicked (.text "sank"))) } }) }] }
  hooks := [{ name := "harbour", before := some fun _ => .fail (.ofMessage "fog") }]

def testCase : TestCase Unit where
  method := { testClass, name := "sails", body := .sync fun _ => .finish (.returned ()) }
  kind := .fact
  displayName := "Ship.sails"

/-- There are no orderers. -/
def setup : RunSetup Unit where
  options := {}
  collectionOrderers := { kind := .collection, idOf := (·.id) }
  caseOrderers := { kind := .testCase, idOf := (·.id) }

def collectionIds : NodeIds :=
  NodeIds.child { assembly := testClass.collection.assembly.id } .collection testClass.collection.id

def root : NodeTask Unit := .testClass setup collectionIds [] {} testClass [testCase]

def methodIds : NodeIds := root.ids.child .method testCase.method.id

def testIds : NodeIds :=
  (methodIds.child .testCase testCase.id).child .test (Test.ofCase testCase).id

/-- The test starts. -/
def start : Message := ⟨testIds, .starting (.test "Ship.sails")⟩

/-- The one case is in order, whatever is said of orderers. -/
theorem ordered_eq {π : List (PathStep Unit)} {ordered : List (TestCase Unit)}
    (h : ((setup.caseOrderers.tellBy (·.id)).order (testClass.caseOrdererName setup.options)
      root.ids [testCase]).Path π ordered) : ordered = [testCase] := by
  cases Orderers.path_order_iff.mp h with
  | served hserves =>
    obtain ⟨hfactory, -, -, -⟩ := hserves
    cases hfactory
  | fellBack => exact List.perm_singleton.mp (defaultOrder_perm _ _)

variable (scope : ClassScope Unit) (a : Aggregator)

theorem mayQueue_testCase : (testCase.run methodIds scope a).MayQueue start := by
  refine mayQueue_lifecycle ?_ ()
  refine MayQueue.bind (MayQueue.bind ?_ () _) () _
  exact (mayQueue_report testIds (.starting (.test "Ship.sails"))).bind () _

theorem mayQueue_methods : (Method.runAll root.ids scope a [testCase]).MayQueue start := by
  show (untilCancelled [testCase.method.run root.ids scope a
    (withKey (·.method.id) testCase.method.id [testCase])] 0).MayQueue start
  rw [withKey_singleton]
  refine mayQueue_untilCancelled (mayQueue_lifecycle ?_ ()) () 0
  exact (mayQueue_untilCancelled (mayQueue_testCase scope a) () 0).bind () _

theorem mayQueue_root : root.process.MayQueue start := by
  refine mayQueue_lifecycle ?_ ()
  obtain ⟨π, fs, hfixtures⟩ := exists_path (Fixtures.constructAll .testClass [[]] root.ids
    testClass.fixtures { failures := {} }) ()
  obtain ⟨ρ, ordered, horder⟩ := exists_path ((setup.caseOrderers.tellBy (·.id)).order
    (testClass.caseOrdererName setup.options) root.ids [testCase]) ()
  obtain rfl := ordered_eq horder
  exact hfixtures.mayQueue (horder.mayQueue ((mayQueue_methods _ _).bind () _))

/-- The one test is not skipped, and nothing fails before it. -/
theorem clear_of_leadsTo {k : TestClass Unit} {classIds ids : NodeIds}
    {x : List (PathStep Unit)} {t : Test Unit} {scope : ClassScope Unit}
    {inherited : List Failure} (h : root.LeadsTo k classIds x ids t scope inherited) :
    t.skipReason = none ∧ inherited = [] := by
  cases h with
  | intro hclass hmethod hcase htest =>
    have hroot := hclass.eq_root rfl
    unfold root at hroot
    cases hroot
    cases hmethod with
    | method hbuilds hordered hc _ =>
      obtain rfl := ordered_eq hordered
      obtain rfl := List.mem_singleton.mp hc
      cases hcase with
      | testCase hc' _ =>
        rw [withKey_singleton] at hc'
        obtain rfl := List.mem_singleton.mp hc'
        cases hbuilds
        cases htest with
        | test hfinds ht _ =>
          cases hfinds with
          | fact hkind =>
            obtain rfl := List.mem_singleton.mp ht
            exact ⟨rfl, rfl⟩
          | row hkind | error hkind | skipped hkind | failed hkind | noData hkind | rows hkind =>
            cases hkind

end Voyage

/-- The test of the voyage is conducted. -/
theorem NodeTask.conducts_of_path_voyage :
    Voyage.root.level.depth ≤ 2 ∧ ∃ x y n,
      Voyage.root.process.Path (x ++ .act (.queued Voyage.start true) :: y) n ∧
      ∃ k classIds t scope ρ after, y = ρ ++ after ∧ t.displayName = "Ship.sails" ∧
        Voyage.root.LeadsTo k classIds x Voyage.testIds t scope [] ∧ scope.Fits k classIds ∧
        t.Conducts Voyage.testIds scope ρ := by
  have hroot : Voyage.root.level.depth ≤ 2 := by decide
  obtain ⟨x, y, n, h⟩ := Voyage.mayQueue_root
  obtain ⟨k, classIds, t, scope, inherited, ρ, after, rfl, hname, hleads, hconducts⟩ :=
    NodeTask.conducts_of_path hroot h rfl
  obtain ⟨hskip, rfl⟩ := Voyage.clear_of_leadsTo hleads
  obtain ⟨hfits, hconducts⟩ := hconducts hskip rfl
  exact ⟨hroot, x, _, n, h, k, classIds, t, scope, ρ, after, rfl, hname, hleads, hfits, hconducts⟩

end TestEngine
