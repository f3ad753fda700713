import TestEngine.Proofs.Fixture.Twins

/-!
# Tests that run alike

A test runs alike in two runs that are alike. If the code of its method may do different things,
then so may the test as far as its method is concerned; but hooks of the class and of the assembly
run the same way around it, and its instance is built and torn down the same way.

* `Test.twins_run` — two tests that run alike have the same counts, unless their code may differ.
-/

namespace TestEngine

open Process (Twins Silent)

variable {ω ν : Type} {L : Likeness ω ν}

/-- Nothing is seen of a node, and it stops no run. -/
structure Likeness.Hides (L : Likeness ω ν) (ids : NodeIds) : Prop where
  shows_eq : ∀ event, L.shows ⟨ids, event⟩ = none
  steady : L.stopOnFail = false

namespace Likeness.Hides

variable {ids : NodeIds}

theorem report (h : L.Hides ids) (event : Event) :
    (Process.report ids event : Process ω Bool).Silent L.toObserver fun _ => True := by
  refine .report (h.shows_eq event) ?_
  unfold Observer.Harmless
  rw [h.steady, Bool.false_and]

end Likeness.Hides

theorem Likeness.twins_reportCleanup (ids : NodeIds) (level : Level) {a a' : Aggregator}
    (h : L.loose ∨ a = a') :
    Twins L.toObserver (fun _ _ => True) (reportCleanup ids level a : Process ω Unit)
      (reportCleanup ids level a') := by
  have hsilent : L.loose → ∀ a, (reportCleanup ids level a : Process ω Unit).Silent L.toObserver
      fun _ => True := by
    intro hloose a
    unfold reportCleanup
    cases a.toFailure? with
    | none => exact .pure trivial
    | some f =>
      exact (Silent.report (L.cleanups hloose _ _ _) (Bool.and_false _)).bind fun _ _ =>
        .pure trivial
  rcases h with hloose | rfl
  · exact .of_silent (hsilent hloose a) (hsilent hloose a') fun _ _ _ _ => trivial
  · unfold reportCleanup
    cases a.toFailure? with
    | none => exact .pure trivial
    | some f => exact (Twins.report rfl rfl).bind fun _ _ _ => .pure trivial

/-! ## Hooks and bodies

In what follows `P` says that the code of the method may do different things. -/

/-- Hooks of a method: there are none, or nothing is seen of them. -/
def OwnHooks (L : Likeness ω ν) (P : Prop) (own own' : List (Hook ω)) : Prop :=
  (own = [] ∧ own' = []) ∨ (P ∧ (∀ h ∈ own, h.IsSecret L) ∧ ∀ h ∈ own', h.IsSecret L)

namespace Invocation

variable {P : Prop} {ctx : TestContext} {s s' : Invocation}

theorem isSome_capture (a : Aggregator) (o : Outcome Unit) :
    (a.capture o).2.isSome = o.failure?.isNone := by
  cases o <;> rfl

theorem twins_attempt {code code' : TestCode ω Unit}
    (h : Code.Mirrors L.view SameFailure code code') (ids : NodeIds) (hs : P ∨ s = s') :
    Twins L.toObserver (fun x y => (P ∨ x.1 = y.1) ∧ x.2.isSome = y.2.isSome)
      (s.attempt ids code) (s'.attempt ids code') := by
  unfold attempt
  refine (h.twins_runInTest ids (hs.imp_right fun he => by rw [he])).bind ?_
  rintro ⟨o, output⟩ ⟨o', output'⟩ ⟨ho, houtput⟩
  have ho : o.failure? = o'.failure? := ho
  refine .pure ⟨?_, ?_⟩
  · rcases hs with hP | rfl
    · exact .inl hP
    · refine houtput.imp_right fun he => ?_
      have he : output = output' := he
      show Invocation.mk (s.failures.capture o).1 output = ⟨(s.failures.capture o').1, output'⟩
      rw [Aggregator.capture_eq, Aggregator.capture_eq, ho, he]
  · show (s.failures.capture o).2.isSome = (s'.failures.capture o').2.isSome
    rw [isSome_capture, isSome_capture, ho]

theorem silent_attempt {code : TestCode ω Unit} (h : code.Secret L.toObserver) {ids : NodeIds}
    (hids : L.Hides ids) : (s.attempt ids code).Silent L.toObserver fun _ => True :=
  (h.silent_runInTest (fun _ => hids.shows_eq _) _).bind fun _ _ => .pure trivial

/-- Runs the code of one side of a hook, if it has any. -/
def runSide (ctx : TestContext) (side : HookSide) (s : Invocation) (hook : Hook ω) :
    Process ω (Invocation × Option Unit) :=
  match hook.side side with
  | some code => s.attempt ctx.ids (code ctx)
  | none => pure (s, some ())

theorem runHook_eq (side : HookSide) (hook : Hook ω) : s.runHook ctx side hook = (do
    let _ ← Process.report ctx.ids (hook.event side .starting)
    Process.enter (.hook ctx.ids side hook.name)
    let (s, value) ← s.runSide ctx side hook
    let _ ← Process.report ctx.ids (hook.event side .finished)
    pure (s, value.isSome)) := by
  unfold runHook runSide
  cases hook.side side <;> rfl

theorem twins_runHook (side : HookSide) {h h' : Hook ω} (hh : h.Alike L h') (hs : P ∨ s = s') :
    Twins L.toObserver (fun x y => (P ∨ x.1 = y.1) ∧ x.2 = y.2) (s.runHook ctx side h)
      (s'.runHook ctx side h') := by
  have hevent : ∀ edge, h.event side edge = h'.event side edge := by
    intro edge
    unfold Hook.event
    rw [hh.name_eq]
  rw [runHook_eq, runHook_eq, hevent, hevent]
  refine (Twins.report rfl rfl).bind fun _ _ _ => (Twins.enter _ _).bind fun _ _ _ => ?_
  refine Twins.bind (V := fun x y => (P ∨ x.1 = y.1) ∧ x.2.isSome = y.2.isSome) ?_ ?_
  · have hside := hh.side side
    unfold runSide
    generalize h.side side = code at hside ⊢
    generalize h'.side side = code' at hside ⊢
    cases hside with
    | none => exact .pure ⟨hs, rfl⟩
    | some hcode => exact twins_attempt (hcode ctx) ctx.ids hs
  · rintro ⟨s₁, value⟩ ⟨s₁', value'⟩ ⟨hs₁, hvalue⟩
    exact (Twins.report rfl rfl).bind fun _ _ _ => .pure ⟨hs₁, hvalue⟩

theorem silent_runHook (side : HookSide) {h : Hook ω} (hh : h.IsSecret L) (hids : L.Hides ctx.ids) :
    (s.runHook ctx side h).Silent L.toObserver fun _ => True := by
  rw [runHook_eq]
  refine (hids.report _).bind fun _ _ => (Silent.enter _).bind fun _ _ => ?_
  refine Silent.bind (P := fun _ => True) ?_ fun _ _ => (hids.report _).bind fun _ _ =>
    .pure trivial
  unfold runSide
  cases hside : h.side side with
  | none => exact .pure trivial
  | some code => exact silent_attempt (hh side code hside ctx) hids

/-- Hooks of which nothing is seen; those that were started are among them. -/
theorem silent_runBefore {own : List (Hook ω)} (hown : ∀ h ∈ own, h.IsSecret L)
    (hids : L.Hides ctx.ids) (started : List (Hook ω)) :
    (runBefore ctx own started s).Silent L.toObserver fun x =>
      ∃ begun, x.2 = begun ++ started ∧ ∀ h ∈ begun, h.IsSecret L := by
  induction own generalizing started s with
  | nil => exact .pure ⟨[], rfl, fun _ h => absurd h List.not_mem_nil⟩
  | cons hook rest ih =>
    have hhook := hown hook List.mem_cons_self
    refine (silent_runHook .before hhook hids).bind ?_
    rintro ⟨s₁, succeeded⟩ -
    cases succeeded with
    | false =>
      exact .pure ⟨[hook], rfl, fun h hh => List.mem_singleton.mp hh ▸ hhook⟩
    | true =>
      refine (ih (fun h hh => hown h (List.mem_cons_of_mem _ hh)) (hook :: started)).mono ?_
      rintro x ⟨begun, hx, hbegun⟩
      refine ⟨begun ++ [hook], by rw [hx, List.append_assoc]; rfl, fun h hh => ?_⟩
      rcases List.mem_append.mp hh with hh | hh
      · exact hbegun h hh
      · exact List.mem_singleton.mp hh ▸ hhook

theorem silent_runAfter {own : List (Hook ω)} (hown : ∀ h ∈ own, h.IsSecret L)
    (hids : L.Hides ctx.ids) : (runAfter ctx own s).Silent L.toObserver fun _ => True := by
  induction own generalizing s with
  | nil => exact .pure trivial
  | cons hook rest ih =>
    refine (silent_runHook .after (hown hook List.mem_cons_self) hids).bind fun _ _ => ?_
    exact ih fun h hh => hown h (List.mem_cons_of_mem _ hh)

/-- Hooks that were started: those of the method stand first. -/
def StartedAlike (L : Likeness ω ν) (P : Prop) (hs hs' : List (Hook ω)) : Prop :=
  ∃ own own' shared shared', hs = own ++ shared ∧ hs' = own' ++ shared' ∧
    List.Forall₂ (Hook.Alike L) shared shared' ∧ OwnHooks L P own own'

variable {shared shared' own own' started started' : List (Hook ω)}

theorem twins_runBefore (hids : P → L.Hides ctx.ids)
    (hshared : List.Forall₂ (Hook.Alike L) shared shared') (hown : OwnHooks L P own own')
    (hstarted : List.Forall₂ (Hook.Alike L) started started') (hs : P ∨ s = s') :
    Twins L.toObserver (fun x y => (P ∨ x.1 = y.1) ∧ StartedAlike L P x.2 y.2)
      (runBefore ctx (shared ++ own) started s) (runBefore ctx (shared' ++ own') started' s') := by
  induction hshared generalizing started started' s s' with
  | nil =>
    rcases hown with ⟨rfl, rfl⟩ | ⟨hP, hsecret, hsecret'⟩
    · exact .pure ⟨hs, [], [], _, _, rfl, rfl, hstarted, .inl ⟨rfl, rfl⟩⟩
    · refine .of_silent (silent_runBefore hsecret (hids hP) started)
        (silent_runBefore hsecret' (hids hP) started') ?_
      rintro x y ⟨begun, hx, hbegun⟩ ⟨begun', hy, hbegun'⟩
      exact ⟨.inl hP, begun, begun', _, _, hx, hy, hstarted, .inr ⟨hP, hbegun, hbegun'⟩⟩
  | cons hh _ ih =>
    refine (twins_runHook .before hh hs).bind ?_
    rintro ⟨s₁, succeeded⟩ ⟨s₁', succeeded'⟩ ⟨hs₁, hsucceeded⟩
    obtain rfl : succeeded = succeeded' := hsucceeded
    cases succeeded with
    | true => exact ih (.cons hh hstarted) hs₁
    | false => exact .pure ⟨hs₁, [], [], _, _, rfl, rfl, .cons hh hstarted, .inl ⟨rfl, rfl⟩⟩

theorem runAfter_append (xs ys : List (Hook ω)) (s : Invocation) :
    runAfter ctx (xs ++ ys) s = runAfter ctx xs s >>= runAfter ctx ys := by
  induction xs generalizing s with
  | nil => rfl
  | cons hook rest ih =>
    simp only [List.cons_append, runAfter, bind_assoc, ih]

theorem twins_runAfter (hids : P → L.Hides ctx.ids) (hstarted : StartedAlike L P started started')
    (hs : P ∨ s = s') :
    Twins L.toObserver (fun x y => P ∨ x = y) (runAfter ctx started s)
      (runAfter ctx started' s') := by
  obtain ⟨own, own', shared, shared', rfl, rfl, hshared, hown⟩ := hstarted
  rw [runAfter_append, runAfter_append]
  refine Twins.bind (V := fun x y => P ∨ x = y) ?_ ?_
  · rcases hown with ⟨rfl, rfl⟩ | ⟨hP, hsecret, hsecret'⟩
    · exact .pure hs
    · exact .of_silent (silent_runAfter hsecret (hids hP)) (silent_runAfter hsecret' (hids hP))
        fun _ _ _ _ => .inl hP
  · clear hs hown
    induction hshared with
    | nil => exact fun _ _ hs => .pure hs
    | cons hh _ ih =>
      refine fun _ _ hs => (twins_runHook .after hh hs).bind ?_
      rintro ⟨s₁, _⟩ ⟨s₁', _⟩ ⟨hs₁, -⟩
      exact ih s₁ s₁' hs₁

theorem twins_runBody {body body' : Body ω} (h : body.Alike L body') (hs : P ∨ s = s') :
    Twins L.toObserver (fun x y => P ∨ x = y) (s.runBody ctx body) (s'.runBody ctx body') := by
  rw [runBody_eq, runBody_eq]
  refine (Twins.enter _ _).bind fun _ _ _ => ?_
  exact (twins_attempt (h ctx) ctx.ids hs).bind fun _ _ hxy => .pure hxy.1

theorem silent_runBody {body : Body ω} (h : body.IsSecret L) (hids : L.Hides ctx.ids) :
    (s.runBody ctx body).Silent L.toObserver fun _ => True := by
  rw [runBody_eq]
  refine (Silent.enter _).bind fun _ _ => ?_
  exact (silent_attempt (h ctx) hids).bind fun _ _ => .pure trivial

/-- The code of two tests: it is alike, except that of the method may do different things. -/
structure CodeAlike (L : Likeness ω ν) (P : Prop) (hooks hooks' : List (Hook ω))
    (body body' : Body ω) : Prop where
  exists_hooks : ∃ shared shared' own own', hooks = shared ++ own ∧ hooks' = shared' ++ own' ∧
    List.Forall₂ (Hook.Alike L) shared shared' ∧ OwnHooks L P own own'
  bodies : ¬P → body.Alike L body'
  secret : P → body.IsSecret L ∧ body'.IsSecret L

/-- Runs the body, unless something has failed. -/
def tryBody (ctx : TestContext) (body : Body ω) (s : Invocation) : Process ω Invocation :=
  if s.failures.hasFailures then pure s else s.runBody ctx body

theorem runAround_eq (hooks : List (Hook ω)) (body : Body ω) : runAround ctx hooks body = (do
    let (s, started) ← runBefore ctx hooks [] {}
    let s ← s.tryBody ctx body
    runAfter ctx started s) := by
  unfold runAround
  refine bind_congr ?_
  rintro ⟨s, started⟩
  unfold tryBody
  dsimp only
  cases s.failures.hasFailures <;> rfl

theorem twins_runAround (hids : P → L.Hides ctx.ids) {hooks hooks' : List (Hook ω)}
    {body body' : Body ω} (hcode : CodeAlike L P hooks hooks' body body') :
    Twins L.toObserver (fun x y => P ∨ x = y) (runAround ctx hooks body)
      (runAround ctx hooks' body') := by
  obtain ⟨shared, shared', own, own', rfl, rfl, hshared, hown⟩ := hcode.exists_hooks
  rw [runAround_eq, runAround_eq]
  refine (twins_runBefore hids hshared hown .nil (.inr rfl)).bind ?_
  rintro ⟨s, started⟩ ⟨s', started'⟩ ⟨hs, hstarted⟩
  refine Twins.bind (V := fun x y => P ∨ x = y) ?_ fun _ _ hs => twins_runAfter hids hstarted hs
  by_cases hP : P
  · -- each side may come to its body or not; nothing is seen of it
    have hsilent : ∀ (s : Invocation) {b : Body ω}, b.IsSecret L →
        (s.tryBody ctx b).Silent L.toObserver fun _ => True := by
      intro s b hb
      unfold tryBody
      cases s.failures.hasFailures with
      | true => exact .pure trivial
      | false => exact silent_runBody hb (hids hP)
    exact .of_silent (hsilent s (hcode.secret hP).1) (hsilent s' (hcode.secret hP).2)
      fun _ _ _ _ => .inl hP
  · obtain rfl : s = s' := hs.resolve_left hP
    unfold tryBody
    cases s.failures.hasFailures with
    | true => exact .pure (.inr rfl)
    | false => exact twins_runBody (hcode.bodies hP) (.inr rfl)

end Invocation

/-! ## Tests -/

/-- What the tests of two classes share is alike. -/
structure ClassScope.Alike (L : Likeness ω ν) (scope scope' : ClassScope ω) : Prop where
  collectionFixtures_eq : scope.collectionFixtures = scope'.collectionFixtures
  classFixtures_eq : scope.classFixtures = scope'.classFixtures
  constructor : Option.Rel (ReadyConstructor.Alike L) scope.constructor scope'.constructor

/-- Two tests of cases that are alike. -/
structure Test.Alike (L : Likeness ω ν) (P : Prop) (t t' : Test ω) : Prop where
  id_eq : t.id = t'.id
  index_eq : t.index = t'.index
  displayName_eq : t.displayName = t'.displayName
  arguments_eq : t.arguments = t'.arguments
  skipReason_eq : t.skipReason = t'.skipReason
  code : Invocation.CodeAlike L P t.testCase.hooks t'.testCase.hooks t.testCase.method.body
    t'.testCase.method.body

namespace Test

variable {P : Prop} {ids : NodeIds} {scope scope' : ClassScope ω} {t t' : Test ω}

theorem twins_dispose {teardown teardown' : Teardown ω} (h : teardown.Alike L teardown') :
    Twins L.toObserver (fun a a' => L.loose ∨ a = a') (dispose ids teardown)
      (dispose ids teardown') := by
  unfold dispose
  refine (Twins.report rfl rfl).bind fun _ _ _ => ?_
  refine (Teardown.twins_run h (.inr rfl)).bind fun _ _ hcleanup => ?_
  exact (Twins.report rfl rfl).bind fun _ _ _ => .pure hcleanup

theorem twins_invoke (h : t.Alike L P t') (hscope : scope.Alike L scope') (hids : P → L.Hides ids) :
    Twins L.toObserver (fun x y => (P ∨ x.1 = y.1) ∧ (L.loose ∨ x.2 = y.2))
      (t.invoke ids scope) (t'.invoke ids scope') := by
  have hcontext : ∀ value, t'.context ids scope' value = t.context ids scope value := by
    intro value
    unfold context
    rw [h.index_eq, h.displayName_eq, h.arguments_eq, hscope.collectionFixtures_eq,
      hscope.classFixtures_eq]
  have haround : ∀ value, Twins L.toObserver (fun x y => P ∨ x = y)
      (Invocation.runAround (t.context ids scope value) t.testCase.hooks t.testCase.method.body)
      (Invocation.runAround (t.context ids scope value) t'.testCase.hooks
        t'.testCase.method.body) :=
    fun _ => Invocation.twins_runAround hids h.code
  have hconstructor := hscope.constructor
  unfold invoke
  simp only [hcontext]
  generalize scope.constructor = c at hconstructor ⊢
  generalize scope'.constructor = c' at hconstructor ⊢
  cases hconstructor with
  | none => exact (haround none).bind fun _ _ hs => .pure ⟨hs, .inr rfl⟩
  | some hc =>
    refine (Twins.report rfl rfl).bind fun _ _ _ => ?_
    refine (ReadyConstructor.twins_invoke hc ids).bind fun built built' hbuilt => ?_
    refine (Twins.report rfl rfl).bind fun _ _ _ => ?_
    cases hbuilt with
    | error f => exact .pure ⟨.inr rfl, .inr rfl⟩
    | ok hfixture =>
      dsimp only
      rw [hfixture.value_eq]
      refine (haround _).bind fun _ _ hs => ?_
      exact (twins_dispose hfixture.teardown).bind fun _ _ hcleanup => .pure ⟨hs, hcleanup⟩

theorem twins_reportResult (hids : P → L.Hides ids) {s s' : Invocation} (hs : P ∨ s = s') :
    Twins L.toObserver (fun n n' => P ∨ n = n') (reportResult ids s : Process ω Counts)
      (reportResult ids s') := by
  rcases hs with hP | rfl
  · have hsilent : ∀ s, (reportResult ids s : Process ω Counts).Silent L.toObserver
        fun _ => True := by
      intro s
      unfold reportResult
      cases s.failures.toFailure? with
      | none | some f => exact ((hids hP).report _).bind fun _ _ => .pure trivial
    exact .of_silent (hsilent s) (hsilent s') fun _ _ _ _ => .inl hP
  · unfold reportResult
    cases s.failures.toFailure? with
    | none | some f => exact (Twins.report rfl rfl).bind fun _ _ _ => .pure (.inr rfl)

/-- Two tests end alike, if they were invoked alike. -/
theorem twins_conclude (hids : P → L.Hides ids) {s s' : Invocation} {a a' : Aggregator}
    (hs : P ∨ s = s') (ha : L.loose ∨ a = a') :
    Twins L.toObserver (fun n n' => P ∨ n = n') (do
        let counts ← reportResult ids s
        reportCleanup ids .test a
        let _ ← Process.report ids (.testFinished .zero s.output)
        pure counts : Process ω Counts) (do
        let counts ← reportResult ids s'
        reportCleanup ids .test a'
        let _ ← Process.report ids (.testFinished .zero s'.output)
        pure counts) := by
  refine (twins_reportResult hids hs).bind fun n n' hn => ?_
  refine (Likeness.twins_reportCleanup ids .test ha).bind fun _ _ _ => ?_
  -- the output may differ, but then nobody sees the last message
  rcases hs with hP | rfl
  · have hsilent : ∀ (m : Counts) (output : String), (do
        let _ ← Process.report ids (.testFinished .zero output)
        pure m : Process ω Counts).Silent L.toObserver fun _ => True :=
      fun _ _ => ((hids hP).report _).bind fun _ _ => .pure trivial
    exact .of_silent (hsilent n _) (hsilent n' _) fun _ _ _ _ => .inl hP
  · exact (Twins.report rfl rfl).bind fun _ _ _ => .pure hn

theorem twins_runStarted (h : t.Alike L P t') (hscope : scope.Alike L scope')
    (hids : P → L.Hides ids) (a : Aggregator) :
    Twins L.toObserver (fun n n' => P ∨ n = n') (t.runStarted ids scope a)
      (t'.runStarted ids scope' a) := by
  unfold runStarted
  rw [← h.skipReason_eq]
  cases t.skipReason with
  | some reason =>
    refine (Twins.report rfl rfl).bind fun _ _ _ => ?_
    exact (Twins.report rfl rfl).bind fun _ _ _ => .pure (.inr rfl)
  | none =>
    cases a.hasFailures with
    | true => exact twins_conclude hids (.inr rfl) (.inr rfl)
    | false =>
      exact (twins_invoke h hscope hids).bind fun _ _ hxy => twins_conclude hids hxy.1 hxy.2

/-- **Tests run alike.** -/
theorem twins_run {caseIds : NodeIds} (h : t.Alike L P t') (hscope : scope.Alike L scope')
    (hids : P → L.Hides (caseIds.child .test t.id)) (a : Aggregator) :
    Twins L.toObserver (fun n n' => P ∨ n = n') (t.run caseIds scope a)
      (t'.run caseIds scope' a) := by
  unfold run
  rw [← h.id_eq, ← h.displayName_eq]
  refine (Twins.report rfl rfl).bind ?_
  rintro goesOn _ rfl
  cases goesOn with
  | true => exact twins_runStarted h hscope hids a
  | false => exact (Twins.report rfl rfl).bind fun _ _ _ => .pure (.inr rfl)

end Test

end TestEngine
