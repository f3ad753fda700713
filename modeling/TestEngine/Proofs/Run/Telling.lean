import TestEngine.Proofs.Run.Groups
import TestEngine.Proofs.Run.Invocations
import TestEngine.Proofs.Run.Listening

/-!
# What tests tell their listeners

The output of a test grows with each line that it reports, through its hooks and its body, whatever
becomes of them. So somebody who listens to the messages of a test knows its output at any time.

* `Unheard` — steps that make no difference to a listener.
* `Process.Tells` — what the messages of a process tell a listener, with a rule for each way of
  putting processes together.
* `Test.tells_run` — a test tells its listener what it should, and leaves nothing open.
-/

namespace TestEngine

open Process

variable {ω α β : Type}

/-! ## Steps that make no difference -/

/-- None of the messages makes a difference to somebody who listens to the test `i`. -/
def Unheard (i : NodeIds) (as : List Action) : Prop := ∀ m ∈ messages (visible as), m.Ignored i

namespace Unheard

variable {i ids : NodeIds} {as : List Action}

theorem of_madeOf (h : MadeOf (Unheard i) as) : Unheard i as :=
  h.forall_mem rfl (fun _ _ => by rw [visible_append, messages_append]) fun _ => id

theorem reported {m : Message} (h : m.Ignored i) (b : Bool) :
    Unheard i (Process.reported m b) := by
  unfold Unheard
  rw [visible_reported]
  exact List.forall_mem_singleton.mpr h

theorem of_setupBlock (h : SetupBlock ids as) : Unheard i as := by
  cases h with
  | user h =>
    cases h with
    | diagnostic ids' text b => exact List.forall_mem_singleton.mpr fun _ => rfl
    | note text => exact List.forall_mem_nil _
  | entry _ => exact List.forall_mem_nil _

/-- A test makes no difference to those who listen to another one. -/
theorem of_ownBlock (hne : ids ≠ i) (h : OwnBlock ids as) : Unheard i as := by
  cases h with
  | inside h =>
    cases h with
    | setup h => exact of_setupBlock h
    | asked b => exact List.forall_mem_nil _
    | step _ b => exact reported (fun hids => absurd hids hne) b
  | reported event b => exact reported (fun hids => absurd hids hne) b

end Unheard

/-! ## What processes tell -/

namespace Process

variable {i : NodeIds} {heard heard' : Option String} {told : α → Option String}

/-- Whatever a process is answered, somebody who listens to the test `i` and has heard `heard` does
not give up, and has heard `told` when it ends with a value. -/
def Tells (p : Process ω α) (i : NodeIds) (heard : Option String) (told : α → Option String) :
    Prop :=
  p.Yields fun as a => listenTo i heard (messages (visible as)) = some (told a)

namespace Tells

variable {p : Process ω α} {f : α → Process ω β} {told' : β → Option String}

theorem pure {a : α} (h : heard = told a) : (Pure.pure a : Process ω α).Tells i heard told :=
  Yields.pure (congrArg some h)

theorem bind (h : p.Tells i heard told) (h' : ∀ a, (f a).Tells i (told a) told') :
    (p >>= f).Tells i heard told' := by
  refine Yields.bind h fun as a has => Yields.mono (h' a) fun bs b hbs => ?_
  rw [visible_append, messages_append]
  exact listenTo_trans has hbs

theorem report {ids : NodeIds} {event : Event} (h : listen i heard ⟨ids, event⟩ = some heard') :
    (Process.report ids event : Process ω Bool).Tells i heard fun _ => heard' := by
  refine (yields_report ids event).mono ?_
  rintro _ b rfl
  rw [visible_reported]
  exact listenTo_singleton.trans h

/-- A report that no listener heeds. -/
theorem report_of_ignored {ids : NodeIds} {event : Event} (h : event.isHeeded = false) :
    (Process.report ids event : Process ω Bool).Tells i heard fun _ => heard :=
  .report (Message.Ignored.listen_eq (fun _ => h) heard)

theorem of_unheard (h : p.Makes (Unheard i)) : p.Tells i heard fun _ => heard :=
  Yields.mono h fun _ _ has => listenTo_of_ignored (Unheard.of_madeOf has) heard

theorem enter {entry : Activity} :
    (Process.enter entry : Process ω Unit).Tells i heard fun _ => heard := by
  refine (yields_enter entry).mono ?_
  rintro _ _ rfl
  rfl

/-- Setting a node up or tearing it down. -/
theorem of_setup {ids : NodeIds} (h : p.Makes (SetupBlock ids)) :
    p.Tells i heard fun _ => heard :=
  .of_unheard (Yields.mono h fun _ _ has => has.mono fun _ => .of_setupBlock)

end Tells

end Process

/-! ## Tests -/

namespace Code

/-- A listener hears every line at once, and so knows the output of the test. -/
theorem tells_serveTest (ids : NodeIds) (r : TestRequest) (output : String) :
    (serveTest ids r output : Process ω (Bool × String)).Tells ids (some output)
      fun a => some a.2 := by
  cases r with
  | writeLine line =>
    have hheard : listen ids (some output) ⟨ids, .output (line ++ "\n")⟩ =
        some (some (output ++ line ++ "\n")) := by
      rw [listen, if_pos rfl, String.append_assoc]
      rfl
    exact (Tells.report hheard).bind fun _ => .pure rfl
  | isCancelled =>
    have hasks : (isCancelled : Process ω Bool).Tells ids (some output) fun _ => some output := by
      refine yields_isCancelled.mono ?_
      rintro _ b rfl
      rfl
    exact hasks.bind fun _ => .pure rfl

theorem tells_runInTest (ids : NodeIds) (code : TestCode ω α) (output : String) :
    (code.runInTest ids output).Tells ids (some output) fun a => some a.2 := by
  unfold runInTest
  induction code generalizing output with
  | finish outcome => exact .pure rfl
  | note text next ih => exact Yields.journal (ih output)
  | world change next ih => exact Yields.world fun w => ih w output
  | diagnose ids' text next ih =>
    refine Yields.queue fun b => Yields.mono (ih b output) fun as a has => ?_
    have hignored : (⟨ids', .diagnostic text⟩ : Message).Ignored ids := fun _ => rfl
    show listenTo ids (some output) (⟨ids', .diagnostic text⟩ :: messages (visible as)) = _
    rw [listenTo_cons, hignored.listen_eq]
    exact has
  | request r next ih => exact (tells_serveTest ids r output).bind fun a => ih a.1 a.2

end Code

namespace Invocation

theorem tells_attempt (ids : NodeIds) (s : Invocation) (code : TestCode ω α) :
    (s.attempt ids code).Tells ids (some s.output) fun a => some a.1.output :=
  (Code.tells_runInTest ids code s.output).bind fun _ => .pure rfl

theorem tells_runHook (ctx : TestContext) (side : HookSide) (s : Invocation) (hook : Hook ω) :
    (s.runHook ctx side hook).Tells ctx.ids (some s.output) fun a => some a.1.output := by
  have hunheeded : ∀ edge, (hook.event side edge).isHeeded = false := fun _ => by
    cases side <;> rfl
  rw [runHook_eq_attempt]
  refine (Tells.report_of_ignored (hunheeded .starting)).bind fun _ => Tells.enter.bind fun _ => ?_
  refine (tells_attempt ctx.ids s _).bind fun _ => ?_
  exact (Tells.report_of_ignored (hunheeded .finished)).bind fun _ => .pure rfl

theorem tells_runBefore (ctx : TestContext) (hooks started : List (Hook ω)) (s : Invocation) :
    (runBefore ctx hooks started s).Tells ctx.ids (some s.output) fun a => some a.1.output := by
  induction hooks generalizing started s with
  | nil => exact .pure rfl
  | cons hook rest ih =>
    refine (tells_runHook ctx .before s hook).bind ?_
    rintro ⟨s', succeeded⟩
    cases succeeded with
    | true => exact ih (hook :: started) s'
    | false => exact .pure rfl

theorem tells_runAfter (ctx : TestContext) (hooks : List (Hook ω)) (s : Invocation) :
    (runAfter ctx hooks s).Tells ctx.ids (some s.output) fun a => some a.output := by
  induction hooks generalizing s with
  | nil => exact .pure rfl
  | cons hook rest ih => exact (tells_runHook ctx .after s hook).bind fun a => ih a.1

theorem tells_runBody (ctx : TestContext) (body : Body ω) (s : Invocation) :
    (s.runBody ctx body).Tells ctx.ids (some s.output) fun a => some a.output := by
  rw [runBody_eq]
  exact Tells.enter.bind fun _ => (tells_attempt ctx.ids s _).bind fun _ => .pure rfl

theorem tells_runAround (ctx : TestContext) (hooks : List (Hook ω)) (body : Body ω) :
    (runAround ctx hooks body).Tells ctx.ids (some "") fun a => some a.output := by
  unfold runAround
  refine (tells_runBefore ctx hooks [] {}).bind ?_
  rintro ⟨s, started⟩
  by_cases h : s.failures.hasFailures = true
  · simp only [h, if_true]
    exact tells_runAfter ctx started s
  · simp only [h, Bool.false_eq_true, if_false]
    exact (tells_runBody ctx body s).bind fun s' => tells_runAfter ctx started s'

end Invocation

namespace Test

theorem tells_invoke (t : Test ω) (ids : NodeIds) (scope : ClassScope ω) :
    (t.invoke ids scope).Tells ids (some "") fun a => some a.1.output := by
  have haround : ∀ value, (Invocation.runAround (t.context ids scope value) t.testCase.hooks
      t.testCase.method.body).Tells ids (some "") fun s => some s.output :=
    fun value => Invocation.tells_runAround (t.context ids scope value) _ _
  unfold invoke
  cases scope.constructor with
  | none => exact (haround none).bind fun _ => .pure rfl
  | some c =>
    have hinvoke : (c.invoke ids).Makes (SetupBlock ids) :=
      Yields.mono (c.yields_invoke ids) fun _ _ has => has.madeOf
    refine (Tells.report_of_ignored rfl).bind fun _ => (Tells.of_setup hinvoke).bind fun built => ?_
    refine (Tells.report_of_ignored rfl).bind fun _ => ?_
    cases built with
    | error f => exact .pure rfl
    | ok fixture =>
      have htears : (fixture.teardown.run ids {}).Makes (SetupBlock ids) :=
        Yields.mono (fixture.teardown.yields_run ids {}) fun _ _ has => has.madeOf
      refine (haround _).bind fun s => Tells.bind ?_ fun _ => .pure rfl
      refine (Tells.report_of_ignored rfl).bind fun _ => (Tells.of_setup htears).bind fun _ => ?_
      exact (Tells.report_of_ignored rfl).bind fun _ => .pure rfl

/-- The output that a result has is that of the test. -/
theorem tells_reportResult (ids : NodeIds) (s : Invocation) :
    (reportResult ids s : Process ω Counts).Tells ids (some s.output) fun _ => some s.output := by
  unfold reportResult
  cases s.failures.toFailure? with
  | some f => exact (Tells.report (by simp [listen])).bind fun _ => .pure rfl
  | none => exact (Tells.report (by simp [listen])).bind fun _ => .pure rfl

theorem tells_reportCleanup (ids : NodeIds) (output : String) (failed : Aggregator) :
    (reportCleanup ids .test failed : Process ω Unit).Tells ids (some output)
      fun _ => some output := by
  unfold reportCleanup
  cases failed.toFailure? with
  | some f => exact (Tells.report_of_ignored rfl).bind fun _ => .pure rfl
  | none => exact .pure rfl

/-- At its end a test reports its output once more. -/
theorem tells_finish (ids : NodeIds) (output : String) :
    (report ids (.testFinished .zero output) : Process ω Bool).Tells ids (some output)
      fun _ => none :=
  .report (by simp [listen])

theorem tells_runStarted (t : Test ω) (ids : NodeIds) (scope : ClassScope ω)
    (inherited : Aggregator) : (t.runStarted ids scope inherited).Tells ids (some "")
      fun _ => none := by
  have hresult : ∀ (s : Invocation) (failed : Aggregator), (do
      let counts ← reportResult ids s
      reportCleanup ids .test failed
      let _ ← report ids (.testFinished .zero s.output)
      pure counts : Process ω Counts).Tells ids (some s.output) fun _ => none := fun s failed =>
    (tells_reportResult ids s).bind fun _ => (tells_reportCleanup ids s.output failed).bind
      fun _ => (tells_finish ids s.output).bind fun _ => .pure rfl
  unfold runStarted
  cases t.skipReason with
  | some reason =>
    refine (Tells.report_of_ignored rfl).bind fun _ => ?_
    exact (tells_finish ids "").bind fun _ => .pure rfl
  | none =>
    by_cases h : inherited.hasFailures = true
    · simp only [h, if_true]
      exact hresult _ _
    · simp only [h, Bool.false_eq_true, if_false]
      exact (t.tells_invoke ids scope).bind fun a => hresult a.1 a.2

/-- **A test tells its listener what it should**: whether it is to start or not, and whatever its
code does. -/
theorem tells_run (t : Test ω) (caseIds : NodeIds) (scope : ClassScope ω)
    (inherited : Aggregator) :
    (t.run caseIds scope inherited).Tells (caseIds.child .test t.id) none fun _ => none := by
  have hstarts : (report (caseIds.child .test t.id) (.starting (.test t.displayName)) :
      Process ω Bool).Tells (caseIds.child .test t.id) none fun _ => some "" :=
    .report (by simp [listen])
  unfold run
  refine hstarts.bind fun goesOn => ?_
  cases goesOn with
  | true => exact t.tells_runStarted _ scope inherited
  | false => exact (tells_finish _ "").bind fun _ => .pure rfl

end Test

end TestEngine
