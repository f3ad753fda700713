import TestEngine.Proofs.Run.NodeLaw
import TestEngine.Run.Test

/-!
# The steps of a test

Hooks and bodies neither acquire nor tear down anything, whatever they do. So a test acquires at
most the instance of its class, before its hooks and its body, and tears it down after them; its
result comes last.

* `Test.yields_invoke` — the two phases of a test that is invoked.
* `Test.yields_run` — a test is a node of which the law holds.
-/

namespace TestEngine

open Process

variable {ω α : Type}

/-! ## Hooks and bodies -/

theorem Hook.isStep_event (h : Hook ω) (side : HookSide) (edge : Edge) :
    (h.event side edge).isStep = true := by
  cases side <;> rfl

namespace Invocation

theorem makes_attempt (ids : NodeIds) (s : Invocation) (code : TestCode ω α) :
    (s.attempt ids code).Makes (StepBlock ids) :=
  (Code.makes_runInTest ids code s.output).bind fun _ => .pure

theorem stepBlock_reported {ids : NodeIds} {event : Event} (h : event.isStep = true) (b : Bool) :
    StepBlock ids (reported ⟨ids, event⟩ b) := ⟨.step h b, idle_reported _ b⟩

theorem makes_runHook (ctx : TestContext) (side : HookSide) (s : Invocation) (hook : Hook ω) :
    (s.runHook ctx side hook).Makes (StepBlock ctx.ids) := by
  unfold runHook
  refine .bind (.report (stepBlock_reported (hook.isStep_event side .starting))) fun _ => ?_
  refine .bind (.enter ⟨.setup (.entry rfl), rfl, rfl⟩) fun _ => ?_
  have hlast (b : Bool) : StepBlock ctx.ids (reported ⟨ctx.ids, hook.event side .finished⟩ b) :=
    stepBlock_reported (hook.isStep_event side .finished) b
  cases hook.side side with
  | some code =>
    refine (makes_attempt ctx.ids s (code ctx)).bind fun _ => ?_
    exact .bind (.report hlast) fun _ => .pure
  | none => exact Makes.pure.bind fun _ => .bind (.report hlast) fun _ => .pure

theorem makes_runBefore (ctx : TestContext) (hooks started : List (Hook ω)) (s : Invocation) :
    (runBefore ctx hooks started s).Makes (StepBlock ctx.ids) := by
  induction hooks generalizing started s with
  | nil => exact .pure
  | cons hook rest ih =>
    refine (makes_runHook ctx .before s hook).bind ?_
    rintro ⟨s', succeeded⟩
    cases succeeded with
    | true => exact ih (hook :: started) s'
    | false => exact .pure

theorem makes_runAfter (ctx : TestContext) (hooks : List (Hook ω)) (s : Invocation) :
    (runAfter ctx hooks s).Makes (StepBlock ctx.ids) := by
  induction hooks generalizing s with
  | nil => exact .pure
  | cons hook rest ih => exact (makes_runHook ctx .after s hook).bind fun a => ih a.1

theorem makes_runBody (ctx : TestContext) (body : Body ω) (s : Invocation) :
    (s.runBody ctx body).Makes (StepBlock ctx.ids) := by
  unfold runBody
  refine .bind (.enter ⟨.setup (.entry rfl), rfl, rfl⟩) fun _ => ?_
  cases body with
  | sync code => exact (makes_attempt ctx.ids s (code ctx)).bind fun _ => .pure
  | async code =>
    refine (makes_attempt ctx.ids s (code ctx)).bind ?_
    rintro ⟨s', _ | future⟩
    · exact .pure
    · exact (makes_attempt ctx.ids s' future).bind fun _ => .pure

/-- Whatever hooks and a body do, they acquire nothing and tear nothing down. -/
theorem makes_runAround (ctx : TestContext) (hooks : List (Hook ω)) (body : Body ω) :
    (runAround ctx hooks body).Makes (StepBlock ctx.ids) := by
  unfold runAround
  refine (makes_runBefore ctx hooks [] {}).bind ?_
  rintro ⟨s, started⟩
  by_cases h : s.failures.hasFailures = true
  · simp only [h, if_true]
    exact makes_runAfter ctx started s
  · simp only [h, Bool.false_eq_true, if_false]
    exact (makes_runBody ctx body s).bind fun s' => makes_runAfter ctx started s'

end Invocation

/-! ## The phases of a test -/

/-- Steps of a test that acquire things with teardowns of the parts `gs` and run the parts `ps` of
teardowns. -/
abbrev TestPart (ids : NodeIds) (gs : List (List TeardownPart)) (ps : List (Nat × TeardownPart))
    (as : List Action) : Prop :=
  Handles (TestBlock ids) gs ps as

theorem TestPart.of_steps {ids : NodeIds} {as : List Action} (h : MadeOf (StepBlock ids) as) :
    TestPart ids [] [] as :=
  (Handles.of_idle (fun _ hb => hb.2) h).mono fun _ hb => hb.1

theorem TestPart.of_step {ids : NodeIds} {event : Event} (h : event.isStep = true) (b : Bool) :
    TestPart ids [] [] (reported ⟨ids, event⟩ b) :=
  .of_steps (.block (Invocation.stepBlock_reported h b))

/-- A test is set up and torn down like any other node. -/
theorem Handles.ofTest {ids : NodeIds} {gs : List (List TeardownPart)}
    {ps : List (Nat × TeardownPart)} {as : List Action} (h : Handles (SetupBlock ids) gs ps as) :
    TestPart ids gs ps as :=
  h.mono fun _ => .setup

/-- The steps of a test before its result: what it acquires comes first, then it is torn down. -/
def TestInside (ids : NodeIds) (as : List Action) : Prop :=
  ∃ gs before after, as = before ++ after ∧ TestPart ids gs [] before ∧
    TestPart ids [] (releaseOrder (toTearDown gs)) after

theorem TestInside.nil (ids : NodeIds) : TestInside ids [] :=
  ⟨[], [], [], rfl, .nil, .nil⟩

namespace Test

theorem yields_dispose (ids : NodeIds) (teardown : Teardown ω) :
    (dispose ids teardown).Yields fun as _ =>
      TestPart ids [] (releaseOrder (toTearDown [teardown.parts])) as := by
  unfold dispose
  refine (yields_report ids _).bind ?_
  rintro _ b rfl
  refine (teardown.yields_run ids {}).bind fun as cleanup has => ?_
  refine (yields_report ids _).bind ?_
  rintro _ b' rfl
  refine .pure ?_
  have hstart : TestPart ids [] [] (reported ⟨ids, .disposal .starting⟩ b) := .of_step rfl b
  have hend : TestPart ids [] [] (reported ⟨ids, .disposal .finished⟩ b') := .of_step rfl b'
  have h := (hstart.append has.ofTest).append hend
  simpa only [List.append_nil, List.nil_append, List.append_assoc] using h

/-- **An instance that was built is torn down after the hooks and the body**, whatever they do. -/
theorem yields_invoke (t : Test ω) (ids : NodeIds) (scope : ClassScope ω) :
    (t.invoke ids scope).Yields fun as _ => TestInside ids as := by
  have haround : ∀ value, (Invocation.runAround (t.context ids scope value) t.testCase.hooks
      t.testCase.method.body).Makes (StepBlock ids) :=
    fun value => Invocation.makes_runAround (t.context ids scope value) _ _
  unfold invoke
  cases scope.constructor with
  | none =>
    refine Yields.bind (haround none) fun as s has => ?_
    exact .pure ⟨[], as, [], rfl, .of_steps has, .nil⟩
  | some c =>
    refine (yields_report ids _).bind ?_
    rintro _ b rfl
    refine (c.yields_invoke ids).bind fun as built has => ?_
    refine (yields_report ids _).bind ?_
    rintro _ b' rfl
    have hstart : TestPart ids [] [] (reported ⟨ids, .construction .starting⟩ b) :=
      .of_step rfl b
    have hend : TestPart ids [] [] (reported ⟨ids, .construction .finished⟩ b') :=
      .of_step rfl b'
    have hbuilt := (hstart.append has.ofTest).append hend
    simp only [List.nil_append, List.append_nil] at hbuilt
    cases built with
    | error f =>
      refine .pure ⟨_, _, [], ?_, hbuilt, .nil⟩
      simp only [List.append_nil, List.append_assoc]
    | ok fixture =>
      refine Yields.bind (haround _) fun bs s hbs => ?_
      refine (yields_dispose ids fixture.teardown).bind fun ds cleanup hds => ?_
      refine .pure ⟨_, _, ds, ?_, hbuilt.append (TestPart.of_steps hbs), hds⟩
      simp only [List.append_nil, List.append_assoc]

theorem yields_reportResult (ids : NodeIds) (s : Invocation) :
    (reportResult ids s : Process ω Counts).Yields fun as n =>
      ∃ e b, as = reported ⟨ids, e⟩ b ∧ e.isResult = true ∧ n = tally [⟨ids, e⟩] := by
  unfold reportResult
  cases s.failures.toFailure? with
  | some f =>
    refine (yields_report ids _).bind ?_
    rintro _ b rfl
    exact .pure ⟨_, b, List.append_nil _, rfl, rfl⟩
  | none =>
    refine (yields_report ids _).bind ?_
    rintro _ b rfl
    exact .pure ⟨_, b, List.append_nil _, rfl, rfl⟩

/-- What a test does once it started: its two phases, its result, and its end. -/
structure Started (ids : NodeIds) (as : List Action) (n : Counts) (is : List Action) (e : Event)
    (goesOn : Bool) (cleanup : Option (ErrorRecord × Bool)) (output : String)
    (finishGoesOn : Bool) : Prop where
  eq : as = is ++ reported ⟨ids, e⟩ goesOn ++ (Frame.cleanupSteps ids .test cleanup ++
    reported ⟨ids, .testFinished .zero output⟩ finishGoesOn)
  inside : TestInside ids is
  isResult : e.isResult = true
  counts_eq : n = tally [⟨ids, e⟩]

/-- From the end of the inside of a test on. -/
theorem yields_result {ids : NodeIds} {is : List Action} (his : TestInside ids is) (s : Invocation)
    (failed : Aggregator) :
    (do
      let counts ← reportResult ids s
      reportCleanup ids .test failed
      let _ ← report ids (.testFinished .zero s.output)
      pure counts : Process ω Counts).Yields fun as n =>
        ∃ e b cleanup output b', Started ids (is ++ as) n is e b cleanup output b' := by
  refine (yields_reportResult ids s).bind ?_
  rintro _ n ⟨e, b, rfl, he, rfl⟩
  refine (yields_reportCleanup ids .test failed).bind ?_
  rintro _ _ ⟨cleanup, rfl⟩
  refine (yields_report ids _).bind ?_
  rintro _ b' rfl
  refine .pure ⟨e, b, cleanup, s.output, b', ?_, his, he, rfl⟩
  simp only [List.append_nil, List.append_assoc]

theorem yields_runStarted (t : Test ω) (ids : NodeIds) (scope : ClassScope ω)
    (inherited : Aggregator) : (t.runStarted ids scope inherited).Yields fun as n =>
      ∃ is e b cleanup output b', Started ids as n is e b cleanup output b' := by
  unfold runStarted
  cases t.skipReason with
  | some reason =>
    refine (yields_report ids _).bind ?_
    rintro _ b rfl
    refine (yields_report ids _).bind ?_
    rintro _ b' rfl
    refine .pure ⟨[], .skipped reason, b, none, "", b', ?_, .nil ids, rfl, rfl⟩
    simp only [Frame.cleanupSteps, List.append_nil, List.nil_append]
  | none =>
    by_cases h : inherited.hasFailures = true
    · simp only [h, if_true]
      exact (yields_result (.nil ids) _ _).mono fun as n h => ⟨[], h⟩
    · simp only [h, Bool.false_eq_true, if_false]
      refine (t.yields_invoke ids scope).bind ?_
      rintro is ⟨s, failed⟩ his
      exact (yields_result his s failed).mono fun as n h => ⟨is, h⟩

end Test

/-! ## A test as a node -/

/-- Nothing in the steps of a test before its result starts a node, or is a result. -/
theorem TestInside.madeOf {ids : NodeIds} {is : List Action} (h : TestInside ids is) :
    MadeOf (TestBlock ids) is := by
  obtain ⟨gs, before, after, rfl, hbefore, hafter⟩ := h
  exact hbefore.madeOf.append hafter.madeOf

/-- The inside of a test as a chronicle: its result comes last, after what is torn down. -/
theorem TestInside.exists_law {known : List String} {f : Frame} {is : List Action} {e : Event}
    {output : String} (h : TestInside f.ids is) (hlevel : f.ids.level = .test)
    (hstart : f.start.level = f.ids.level) (hfinish : f.finish = .testFinished .zero output)
    (hgo : f.goesOn = true) (he : e.isResult = true) (b : Bool) :
    ∃ i : Chronicle, visible (is ++ reported ⟨f.ids, e⟩ b) = i.occurrences ∧
      NodeLaw known f i ∧ i.Every (NodeLaw known) ∧
      tally [⟨f.ids, e⟩] = tally (messages i.occurrences) := by
  have hmade := h.madeOf
  obtain ⟨gs, before, after, rfl, hbefore, hafter⟩ := h
  let os : List Occurrence := visible after ++ [.queued ⟨f.ids, e⟩ b]
  let i : Chronicle := .between (visible before) .nil os
  have hocc : visible (before ++ after ++ reported ⟨f.ids, e⟩ b) = i.occurrences := by
    simp only [i, os, Chronicle.occurrences_between, Chronicle.occurrences, visible_append,
      visible_reported, List.append_nil, List.append_assoc]
  have hown : i.own = i.occurrences := by
    rw [Chronicle.own_between, Chronicle.occurrences_between]
    rfl
  have hresult : results [⟨f.ids, e⟩] = [⟨f.ids, e⟩] := List.filter_cons_of_pos he
  have hresults : results (messages i.occurrences) = [⟨f.ids, e⟩] := by
    rw [← hocc, visible_append, visible_reported, messages_append, results_append,
      hmade.results_eq_nil]
    exact hresult
  have hended : Ended f i := by
    refine .test output hlevel hfinish (Chronicle.nodes_between _ _ _) (fun _ => ?_) ?_
    · rw [hown, hresults]
      exact ⟨_, rfl, rfl⟩
    · intro hstop
      rw [hgo] at hstop
      cases hstop
  have hpart : ∀ o ∈ visible before ++ os, o.IsPart f.ids := by
    intro o ho
    rw [← List.append_assoc, ← visible_append] at ho
    rcases List.mem_append.mp ho with ho | ho
    · exact hmade.isPart o ho
    · rcases List.mem_singleton.mp ho with rfl
      exact isPart_queued (Event.lifecycle?_of_isResult he) b f.ids
  have hdepth : ([] : List String) ≠ [] → Level.test.depth = f.ids.level.depth + 1 :=
    fun h => absurd rfl h
  refine ⟨i, hocc, NodeLaw.of_between hstart hgo hdepth List.nil_prefix (named_nil known f.ids) rfl
    hended hpart hbefore.released_eq ?_ ?_, (Chronicle.every_between _ _ _).mpr trivial, ?_⟩
  · rw [gained_append, hafter.gained_eq]
    rfl
  · rw [released_append, hafter.released_eq, hbefore.gained_eq]
    exact List.append_nil _
  · rw [← tally_results (messages i.occurrences), hresults]

/-- A test that ran up to its result is a node of which the law holds. -/
theorem NodeRun.of_started {known : List String} {ids : NodeIds} (hlevel : ids.level = .test)
    {as is : List Action} {n : Counts} {e : Event} {b b' : Bool}
    {cleanup : Option (ErrorRecord × Bool)} {output name : String}
    (h : Test.Started ids as n is e b cleanup output b') :
    NodeRun known ids (reported ⟨ids, .starting (.test name)⟩ true ++ as) n := by
  obtain ⟨rfl, hinside, he, rfl⟩ := h
  let f : Frame := ⟨ids, .test name, true, cleanup, .testFinished .zero output, b'⟩
  obtain ⟨i, hvisible, hlaw, hbelow, htally⟩ :
      ∃ i : Chronicle, visible (is ++ reported ⟨ids, e⟩ b) = i.occurrences ∧ NodeLaw known f i ∧
        i.Every (NodeLaw known) ∧ tally [⟨ids, e⟩] = tally (messages i.occurrences) :=
    TestInside.exists_law (f := f) hinside hlevel hlevel.symm rfl rfl he b
  have hobeys : Obeys false (is ++ reported ⟨ids, e⟩ b) := by
    refine (Obeys.of_madeOf hinside.madeOf false).append ?_
    have hnotStarting : e.isStarting = false := by
      cases e <;> first | rfl | cases he
    rw [← List.append_nil (reported _ b)]
    exact .report (fun hs => absurd hs (by rw [hnotStarting]; nofun)) (.nil _)
  have hnode := NodeRun.of_frame hobeys hvisible hlaw hbelow nofun
  rw [← htally] at hnode
  rw [← List.append_assoc]
  exact hnode

/-- **A test is a node of which the law holds.** -/
theorem Test.yields_run (known : List String) {caseIds : NodeIds}
    (hlevel : caseIds.level = .testCase) (scope : ClassScope ω) (inherited : Aggregator)
    (t : Test ω) : (t.run caseIds scope inherited).Yields fun as n =>
      NodeRun known (caseIds.child .test t.id) as n := by
  have hchild : (caseIds.child .test t.id).level = .test :=
    NodeIds.level_child t.id (by rw [hlevel]; decide)
  unfold run
  refine (yields_report _ _).bind ?_
  rintro _ goesOn rfl
  cases goesOn with
  | true =>
    refine (t.yields_runStarted _ scope inherited).mono ?_
    rintro as n ⟨is, e, b, cleanup, output, b', h⟩
    exact NodeRun.of_started hchild h
  | false =>
    refine (yields_report _ _).bind ?_
    rintro _ b rfl
    refine .pure ?_
    rw [List.append_nil]
    exact NodeRun.of_refused
      (f := ⟨_, .test t.displayName, false, none, .testFinished .zero "", b⟩)
      (.test "" hchild rfl rfl nofun fun _ => rfl) hchild.symm rfl

end TestEngine
