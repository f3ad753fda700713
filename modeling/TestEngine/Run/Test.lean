import TestEngine.Run.Lifecycle

/-!
# Running a test

A test that is not skipped, and that nothing failed for beforehand, is *invoked*: an instance of its
class is built, the hooks run before it, the body runs, the hooks run after it, and the instance is
torn down. The hooks run from the outermost to the innermost until one fails, and those that were
started run after the test in reverse order; the body runs only if none failed.

What fails on the way makes the test fail. What fails when the instance is torn down is reported
apart from the result.
-/

namespace TestEngine

variable {ω : Type}

/-- What the tests of a class share. -/
structure ClassScope (ω : Type) where
  collectionFixtures : FixtureMap
  classFixtures : FixtureMap
  /-- How an instance of the class is built. -/
  constructor : Option (ReadyConstructor ω)

/-- A test while it is invoked: what failed, and what it wrote. -/
structure Invocation where
  failures : Aggregator := {}
  output : String := ""

namespace Invocation

/-- Runs code of the test; its failure is captured. -/
def attempt {α : Type} (ids : NodeIds) (s : Invocation) (code : TestCode ω α) :
    Process ω (Invocation × Option α) := do
  let (outcome, output) ← code.runInTest ids s.output
  let (failures, value) := s.failures.capture outcome
  pure ({ failures, output }, value)

/-- Runs one side of a hook, between its two messages; answers whether it succeeded. -/
def runHook (ctx : TestContext) (side : HookSide) (s : Invocation) (hook : Hook ω) :
    Process ω (Invocation × Bool) := do
  let _ ← Process.report ctx.ids (hook.event side .starting)
  Process.enter (.hook ctx.ids side hook.name)
  let (s, value) ← match hook.side side with
    | some code => s.attempt ctx.ids (code ctx)
    | none => pure (s, some ())
  let _ ← Process.report ctx.ids (hook.event side .finished)
  pure (s, value.isSome)

/-- Runs the hooks before the test until one fails; answers those that were started, last first. -/
def runBefore (ctx : TestContext) :
    List (Hook ω) → List (Hook ω) → Invocation → Process ω (Invocation × List (Hook ω))
  | [], started, s => pure (s, started)
  | hook :: rest, started, s => do
    let (s, succeeded) ← s.runHook ctx .before hook
    if succeeded then runBefore ctx rest (hook :: started) s
    else pure (s, hook :: started)

/-- Runs hooks after the test, all of them in the given order. -/
def runAfter (ctx : TestContext) : List (Hook ω) → Invocation → Process ω Invocation
  | [], s => pure s
  | hook :: rest, s => do
    let (s, _) ← s.runHook ctx .after hook
    runAfter ctx rest s

/-- Runs the body of the test. -/
def runBody (ctx : TestContext) (body : Body ω) (s : Invocation) : Process ω Invocation := do
  Process.enter (.body ctx.ids)
  match body with
  | .sync code => do
    let (s, _) ← s.attempt ctx.ids (code ctx)
    pure s
  | .async code => do
    match ← s.attempt ctx.ids (code ctx) with
    | (s, some future) => do
      let (s, _) ← s.attempt ctx.ids future
      pure s
    | (s, none) => pure s

/-- Runs the hooks and the body. -/
def runAround (ctx : TestContext) (hooks : List (Hook ω)) (body : Body ω) :
    Process ω Invocation := do
  let (s, started) ← runBefore ctx hooks [] {}
  let s ← if s.failures.hasFailures then pure s else s.runBody ctx body
  runAfter ctx started s

end Invocation

namespace Test

/-- What the code of a test can see. -/
def context (t : Test ω) (ids : NodeIds) (scope : ClassScope ω)
    (testInstance : Option FixtureValue) : TestContext where
  ids := ids
  index := t.index
  displayName := t.displayName
  arguments := t.arguments
  collectionFixtures := scope.collectionFixtures
  classFixtures := scope.classFixtures
  testInstance := testInstance

/-- Tears down the instance of the class; answers what failed. -/
def dispose (ids : NodeIds) (teardown : Teardown ω) : Process ω Aggregator := do
  let _ ← Process.report ids (.disposal .starting)
  let cleanup ← teardown.run ids {}
  let _ ← Process.report ids (.disposal .finished)
  pure cleanup

/-- Invokes a test; answers how it went and what failed when its instance was torn down. -/
def invoke (t : Test ω) (ids : NodeIds) (scope : ClassScope ω) :
    Process ω (Invocation × Aggregator) := do
  let around (testInstance : Option FixtureValue) : Process ω Invocation :=
    Invocation.runAround (t.context ids scope testInstance) t.testCase.hooks
      t.testCase.method.body
  match scope.constructor with
  | none => do
    let s ← around none
    pure (s, {})
  | some c => do
    let _ ← Process.report ids (.construction .starting)
    let built ← c.invoke ids
    let _ ← Process.report ids (.construction .finished)
    match built with
    | .error f => pure ({ failures := Aggregator.empty.add f }, {})
    | .ok fixture => do
      let s ← around (some fixture.value)
      let cleanup ← dispose ids fixture.teardown
      pure (s, cleanup)

/-- Reports the result of a test that was not skipped. -/
def reportResult (ids : NodeIds) (s : Invocation) : Process ω Counts := do
  match s.failures.toFailure? with
  | some f => do
    let _ ← Process.report ids (.failed .zero s.output f.record)
    pure .failure
  | none => do
    let _ ← Process.report ids (.passed .zero s.output)
    pure .passed

/-- Runs a test between its starting and its finished message. With `inherited` failures it fails
without being invoked. -/
def runStarted (t : Test ω) (ids : NodeIds) (scope : ClassScope ω) (inherited : Aggregator) :
    Process ω Counts := do
  match t.skipReason with
  | some reason => do
    let _ ← Process.report ids (.skipped reason)
    let _ ← Process.report ids (.testFinished .zero "")
    pure .skip
  | none => do
    let (s, cleanup) ←
      if inherited.hasFailures then pure ({ failures := inherited }, {}) else t.invoke ids scope
    let counts ← reportResult ids s
    reportCleanup ids .test cleanup
    let _ ← Process.report ids (.testFinished .zero s.output)
    pure counts

/-- Runs a test of the case `caseIds`. If the run is to stop when the test starts, the test has no
result. -/
def run (caseIds : NodeIds) (scope : ClassScope ω) (inherited : Aggregator) (t : Test ω) :
    Process ω Counts := do
  let ids := caseIds.child .test t.id
  if ← Process.report ids (.starting (.test t.displayName)) then t.runStarted ids scope inherited
  else
    let _ ← Process.report ids (.testFinished .zero "")
    pure 0

end Test

end TestEngine
