import TestEngine.Proofs.Run.Nodes
import TestEngine.Run.Parallel

/-!
# How a thread heeds the wish to stop

When collections run side by side, a run may be cancelled by another thread at any time. A thread
learns of it when it asks, or it is told to stop itself and cancels the run. What matters for the
others is what it may still do: whether it can start a node, and whether it can tell the result of a
test.

* `Stance` — what a thread knows, and which of its tests is open. Every step changes it.
* `Heeding` — each of some steps is one that the stance allows: no node starts once the thread knows
  that the run is to stop, a thread that was told to stop cancels the run next, and a result belongs
  to the test that is open.
* `Process.Abides` — all traces of a process are of this kind. The rules are those of
  `Process.Yields`.
* `Collection.abides_run` — the run of a collection abides.
-/

namespace TestEngine

open Process

variable {ω α β : Type}

/-! ## Stances -/

/-- What a thread knows of the wish to stop. -/
inductive Notice where
  | unaware
  /-- It was told to stop, and has not cancelled the run yet. -/
  | told
  /-- It knows that the run is cancelled. -/
  | aware
  deriving DecidableEq

/-- What a thread knows of the wish to stop, and the test that it has started and that has no result
yet. -/
structure Stance where
  notice : Notice := .unaware
  openTest : Option NodeIds := none
  deriving DecidableEq

/-- A test starts. -/
def Event.startsTest : Event → Bool
  | .starting (.test _) => true
  | _ => false

theorem Event.startsTest_eq_false {e : Event} (h : e.isStarting = false) :
    e.startsTest = false := by
  cases e <;> first | rfl | cases h

namespace Stance

/-- The thread is free to do something else than to cancel the run. -/
def IsFree (s : Stance) : Prop := s.notice ≠ .told

theorem isFree_unaware (openTest : Option NodeIds) : IsFree ⟨.unaware, openTest⟩ :=
  fun h => Notice.noConfusion h

theorem isFree_aware (openTest : Option NodeIds) : IsFree ⟨.aware, openTest⟩ :=
  fun h => Notice.noConfusion h

/-- A message is sent: a result closes its test. -/
def afterSending (s : Stance) (m : Message) : Stance :=
  if m.event.isResult then { s with openTest := none } else s

/-- A message is answered: the thread is told to stop, or a test is open now. -/
def afterAnswer (s : Stance) (m : Message) (goesOn : Bool) : Stance where
  notice :=
    if goesOn || m.event.isDiagnostic || s.notice = .aware then s.notice else .told
  openTest := if m.event.startsTest && goesOn then some m.ids else s.openTest

/-- What a step makes of a stance. -/
def after (s : Stance) : Action → Stance
  | .queued m goesOn => (s.afterSending m).afterAnswer m goesOn
  | .cancelled => { s with notice := .aware }
  | .asked cancelled => if cancelled then { s with notice := .aware } else s
  | .activity _ => s

/-- The steps that a stance allows. -/
def Allows (s : Stance) : Action → Prop
  | .queued m _ => s.IsFree ∧ (m.event.isStarting = true → s.notice = .unaware) ∧
    (m.event.isResult = true → s.openTest = some m.ids)
  | .cancelled => True
  | .asked _ | .activity _ => s.IsFree

/-- The answers that a stance expects: nobody takes the cancellation of a run back. -/
def Expects (s : Stance) : Action → Prop
  | .asked cancelled => s.notice = .aware → cancelled = true
  | _ => True

/-- Whoever is told that the run is not cancelled, and has no test open, knows nothing of the wish
to stop. -/
theorem eq_of_expects {s : Stance} (hs : s.IsFree) (hopen : s.openTest = none)
    (h : s.Expects (.asked false)) : s = {} := by
  obtain ⟨notice, openTest⟩ := s
  subst hopen
  cases notice with
  | unaware => rfl
  | told => exact absurd rfl hs
  | aware => cases h rfl

end Stance

/-! ## Steps that heed -/

/-- Each step is allowed, as long as the answers are as expected, and the stance at the end
satisfies `Q`. -/
def Heeding (Q : Stance → Prop) : Stance → List Action → Prop
  | s, [] => s.IsFree ∧ Q s
  | s, a :: as => s.Allows a ∧ (s.Expects a → Heeding Q (s.after a) as)

namespace Heeding

variable {P Q : Stance → Prop} {s : Stance} {as bs : List Action}

theorem append (h : Heeding P s as) (h' : ∀ s', s'.IsFree → P s' → Heeding Q s' bs) :
    Heeding Q s (as ++ bs) := by
  induction as generalizing s with
  | nil => exact h' s h.1 h.2
  | cons a as ih => exact ⟨h.1, fun he => ih (h.2 he)⟩

theorem mono (h : Heeding P s as) (hPQ : ∀ s', P s' → Q s') : Heeding Q s as := by
  rw [← List.append_nil as]
  exact h.append fun s' hfree hP => ⟨hfree, hPQ s' hP⟩

/-- A report that neither starts a node nor is a result. -/
theorem reported {m : Message} (hs : s.IsFree) (hstart : m.event.isStarting = false)
    (hresult : m.event.isResult = false) (b : Bool) :
    Heeding (·.openTest = s.openTest) s (Process.reported m b) := by
  have htest := Event.startsTest_eq_false hstart
  have hallows : s.Allows (.queued m b) :=
    ⟨hs, by rw [hstart]; exact nofun, by rw [hresult]; exact nofun⟩
  have hopen : (s.after (.queued m b)).openTest = s.openTest := by
    simp [Stance.after, Stance.afterSending, Stance.afterAnswer, hresult, htest]
  cases b with
  | true =>
    refine ⟨hallows, fun _ => ⟨?_, hopen⟩⟩
    simpa [Stance.IsFree, Stance.after, Stance.afterSending, Stance.afterAnswer, hresult] using hs
  | false => exact ⟨hallows, fun _ => ⟨trivial, fun _ => ⟨nofun, hopen⟩⟩⟩

/-- What happens while a node is set up or torn down changes no stance. -/
theorem of_setupBlock {ids : NodeIds} (h : SetupBlock ids as) (hs : s.IsFree) :
    Heeding (· = s) s as := by
  cases h with
  | user h =>
    cases h with
    | diagnostic ids' text b =>
      have hsame : s.after (.queued ⟨ids', .diagnostic text⟩ b) = s := by
        simp [Stance.after, Stance.afterSending, Stance.afterAnswer, Event.isResult,
          Event.isDiagnostic, Event.startsTest]
      refine ⟨⟨hs, nofun, nofun⟩, fun _ => ?_⟩
      rw [hsame]
      exact ⟨hs, rfl⟩
    | note text => exact ⟨hs, fun _ => ⟨hs, rfl⟩⟩
  | entry _ => exact ⟨hs, fun _ => ⟨hs, rfl⟩⟩

/-- What happens inside of a test leaves it open. -/
theorem of_testBlock {ids : NodeIds} (h : TestBlock ids as) (hs : s.IsFree) :
    Heeding (·.openTest = s.openTest) s as := by
  cases h with
  | setup h => exact (of_setupBlock h hs).mono fun s' hs' => congrArg _ hs'
  | asked b =>
    refine ⟨hs, fun _ => ?_⟩
    cases b with
    | true => exact ⟨nofun, rfl⟩
    | false => exact ⟨hs, rfl⟩
  | @step event h b =>
    refine reported hs ?_ ?_ b <;> cases event <;> first | rfl | cases h

theorem of_setup {ids : NodeIds} (h : MadeOf (SetupBlock ids) as) (hs : s.IsFree) :
    Heeding (· = s) s as := by
  induction h with
  | nil => exact ⟨hs, rfl⟩
  | cons hb _ ih =>
    refine (of_setupBlock hb hs).append ?_
    rintro _ _ rfl
    exact ih

theorem of_test {ids : NodeIds} (h : MadeOf (TestBlock ids) as) (hs : s.IsFree) :
    Heeding (·.openTest = s.openTest) s as := by
  induction h generalizing s with
  | nil => exact ⟨hs, rfl⟩
  | cons hb _ ih =>
    refine (of_testBlock hb hs).append fun s' hs' hopen => ?_
    rw [← hopen]
    exact ih hs'

end Heeding

/-! ## Processes that abide -/

namespace Process

/-- From the stance `s` on a process takes allowed steps only, whatever it is answered; the stance
and the value at the end satisfy `Q`. -/
def Abides (p : Process ω α) (s : Stance) (Q : Stance → α → Prop) : Prop :=
  p.Yields fun as a => Heeding (Q · a) s as

namespace Abides

variable {p : Process ω α} {s : Stance} {P : Stance → α → Prop} {Q : Stance → β → Prop}

theorem pure {a : α} (hs : s.IsFree) (h : P s a) : (Pure.pure a : Process ω α).Abides s P :=
  Yields.pure ⟨hs, h⟩

theorem bind {f : α → Process ω β} (h : p.Abides s P)
    (h' : ∀ s' a, s'.IsFree → P s' a → (f a).Abides s' Q) : (p >>= f).Abides s Q :=
  Yields.bind h fun _ a has bs b ht => has.append fun s' hs' hP => h' s' a hs' hP bs b ht

/-- Setting a node up or tearing it down changes no stance. -/
theorem of_setup {ids : NodeIds} (h : p.Makes (SetupBlock ids)) (hs : s.IsFree) :
    p.Abides s fun s' _ => s' = s :=
  Yields.mono h fun _ _ has => .of_setup has hs

/-- A report that neither starts a node nor is a result. -/
theorem report {ids : NodeIds} {event : Event} (hs : s.IsFree) (hstart : event.isStarting = false)
    (hresult : event.isResult = false) : (Process.report ids event : Process ω Bool).Abides s
      fun s' _ => s'.openTest = s.openTest := by
  refine (yields_report ids event).mono ?_
  rintro _ b rfl
  exact .reported hs hstart hresult b

/-- Children that run one after the other until the run is cancelled. Since the loop asks before
each of them, it may begin when the thread knows of the cancellation. -/
theorem untilCancelled {ps : List (Process ω Counts)}
    (h : ∀ p ∈ ps, p.Abides {} fun s' _ => s'.openTest = none) (hs : s.IsFree)
    (hopen : s.openTest = none) (sum : Counts) :
    (Process.untilCancelled ps sum).Abides s fun s' _ => s'.openTest = none := by
  induction ps generalizing s sum with
  | nil => exact .pure hs hopen
  | cons p ps ih =>
    obtain ⟨hp, hps⟩ := List.forall_mem_cons.mp h
    refine Yields.bind yields_isCancelled ?_
    rintro _ b rfl
    cases b with
    | true =>
      refine Yields.pure ⟨hs, fun _ => ⟨nofun, ?_⟩⟩
      exact hopen
    | false =>
      intro as n htrace
      refine ⟨hs, fun hexpected => ?_⟩
      obtain rfl := Stance.eq_of_expects hs hopen hexpected
      exact (hp.bind fun s' c hs' hopen' => ih hps hs' hopen' (sum + c)) as n htrace

end Abides

end Process

/-- The life cycle of a node with children. -/
theorem abides_lifecycle {ids : NodeIds} {group : GroupLevel} {start : NodeStart}
    {inside : Process ω (Counts × Aggregator)} (hstart : start.level ≠ .test)
    (hinside : inside.Abides {} fun s _ => s.openTest = none) :
    (lifecycle ids group start inside).Abides {} fun s _ => s.openTest = none := by
  have hopens : (Event.starting start).startsTest = false := by
    cases start <;> first | rfl | exact absurd rfl hstart
  -- a thread that is told to go on knows as little as before
  have hbegin : (report ids (.starting start) : Process ω Bool).Abides {}
      fun s goesOn => s.openTest = none ∧ (goesOn = true → s = {}) := by
    refine (yields_report ids _).mono ?_
    rintro _ b rfl
    refine ⟨⟨nofun, fun _ => rfl, nofun⟩, fun _ => ?_⟩
    cases b with
    | true =>
      have hsame : ({} : Stance).after (.queued ⟨ids, .starting start⟩ true) = {} := by
        simp [Stance.after, Stance.afterSending, Stance.afterAnswer, hopens, Event.isResult]
      rw [hsame]
      exact ⟨nofun, rfl, fun _ => rfl⟩
    | false =>
      refine ⟨trivial, fun _ => ⟨nofun, ?_, nofun⟩⟩
      simp [Stance.after, Stance.afterSending, Stance.afterAnswer, hopens, Event.isResult]
  have hend : ∀ (s : Stance) (n : Counts), s.IsFree → s.openTest = none →
      (do
        let _ ← report ids (.finished group (.ofCounts n))
        pure n : Process ω Counts).Abides s fun s' _ => s'.openTest = none := by
    intro s n hs hopen
    refine (Abides.report hs rfl rfl).bind fun s' _ hs' hsame => .pure hs' ?_
    exact hsame.trans hopen
  unfold lifecycle
  refine hbegin.bind ?_
  rintro s goesOn hs ⟨hopen, hgo⟩
  cases goesOn with
  | false => exact hend s 0 hs hopen
  | true =>
    obtain rfl := hgo rfl
    simp only [if_true]
    refine hinside.bind ?_
    rintro s ⟨n, cleanup⟩ hs hopen
    have hcleanup : (reportCleanup ids group.level cleanup : Process ω Unit).Abides s
        fun s' _ => s'.openTest = none := by
      unfold reportCleanup
      cases cleanup.toFailure? with
      | none => exact .pure hs hopen
      | some f =>
        refine (Abides.report hs rfl rfl).bind fun s' _ hs' hsame => .pure hs' ?_
        exact hsame.trans hopen
    exact hcleanup.bind fun s' _ hs' hopen' => hend s' n hs' hopen'

/-! ## Tests -/

namespace Test

/-- A test that started goes on to its result, which closes it, and to its end. -/
theorem heeding_of_started {ids : NodeIds} {as is : List Action} {n : Counts} {e : Event}
    {b b' : Bool} {cleanup : Option (ErrorRecord × Bool)} {output : String}
    (h : Started ids as n is e b cleanup output b') :
    Heeding (·.openTest = none) ⟨.unaware, some ids⟩ as := by
  obtain ⟨rfl, hinside, hresult, -⟩ := h
  have hstart : e.isStarting = false := by cases e <;> first | rfl | cases hresult
  have hnotDiagnostic : e.isDiagnostic = false := by cases e <;> first | rfl | cases hresult
  refine ((Heeding.of_test hinside.madeOf (Stance.isFree_unaware _)).append
    (Q := (·.openTest = none)) ?_).append ?_
  · intro s hs hopen
    have hclosed : (s.after (.queued ⟨ids, e⟩ b)).openTest = none := by
      simp [Stance.after, Stance.afterSending, Stance.afterAnswer, hresult,
        Event.startsTest_eq_false hstart]
    refine ⟨⟨hs, by rw [hstart]; exact nofun, fun _ => hopen⟩, fun _ => ?_⟩
    cases b with
    | true =>
      refine ⟨?_, hclosed⟩
      simpa [Stance.IsFree, Stance.after, Stance.afterSending, Stance.afterAnswer, hresult]
        using hs
    | false => exact ⟨trivial, fun _ => ⟨nofun, hclosed⟩⟩
  · intro s hs hopen
    have hend : ∀ s' : Stance, s'.IsFree → s'.openTest = none →
        Heeding (·.openTest = none) s' (reported ⟨ids, .testFinished .zero output⟩ b') :=
      fun s' hs' hopen' => (Heeding.reported hs' rfl rfl b').mono fun _ h => h.trans hopen'
    cases cleanup with
    | none => exact hend s hs hopen
    | some c =>
      refine (Heeding.reported hs rfl rfl c.2).append fun s' hs' hsame => ?_
      exact hend s' hs' (hsame.trans hopen)

theorem abides_run (caseIds : NodeIds) (scope : ClassScope ω) (inherited : Aggregator)
    (t : Test ω) : (t.run caseIds scope inherited).Abides {} fun s _ => s.openTest = none := by
  unfold run
  refine Yields.bind (yields_report _ _) ?_
  rintro _ goesOn rfl
  cases goesOn with
  | true =>
    refine (t.yields_runStarted _ scope inherited).mono ?_
    rintro as n ⟨is, e, b, cleanup, output, b', h⟩
    exact ⟨⟨nofun, fun _ => rfl, nofun⟩, fun _ => heeding_of_started h⟩
  | false =>
    intro as n htrace
    refine ⟨⟨nofun, fun _ => rfl, nofun⟩, fun _ => ⟨trivial, fun _ => ?_⟩⟩
    have hend : (do
        let _ ← report (caseIds.child .test t.id) (.testFinished .zero "")
        pure 0 : Process ω Counts).Abides ⟨.aware, none⟩ fun s _ => s.openTest = none :=
      (Abides.report (Stance.isFree_aware none) rfl rfl).bind fun s' _ hs' hopen => .pure hs' hopen
    exact hend as n htrace

end Test

/-! ## Nodes with children -/

/-- Code outside of a test, on behalf of a node. -/
theorem Code.makes_run_setup (ids : NodeIds) (code : SetupCode ω α) :
    code.run.Makes (SetupBlock ids) :=
  Yields.mono code.makes_run fun _ _ h => h.mono fun _ => .user

theorem Fixtures.makes_constructAll (kind : FixtureKind) (parents : List FixtureMap) (ids : NodeIds)
    (definitions : List (FixtureDefinition ω)) (fs : Fixtures ω) :
    (constructAll kind parents ids definitions fs).Makes (SetupBlock ids) :=
  (yields_constructAll kind parents ids definitions fs).mono fun _ _ h => h.acquires.madeOf

theorem Disposal.makes_disposeAll (ids : NodeIds) (d : Disposal ω) (a : Aggregator) :
    (d.disposeAll ids a).Makes (SetupBlock ids) :=
  (d.yields_disposeAll ids a).mono fun _ _ h => h.madeOf

theorem Orderers.makes_order (os : Orderers ω α) (ids : NodeIds) (items : List α)
    (name : Option String) : (os.order name ids items).Makes (SetupBlock ids) :=
  (os.yields_order ids items name).mono fun _ _ h => h.1.mono fun _ => .user

namespace TestCase

variable (c : TestCase ω) (ids : NodeIds) (scope : ClassScope ω) (inherited : Aggregator)

theorem abides_runTheory (source : SetupCode ω (List (DataRow ω))) :
    (c.runTheory ids scope inherited source).Abides {} fun s _ => s.openTest = none := by
  have henter : ∀ {a : Activity}, a.owner? = some ids →
      (enter a : Process ω Unit).Abides {} fun s _ => s = {} :=
    fun ha => .of_setup (.enter (.entry ha)) (Stance.isFree_unaware none)
  have hfailing : ∀ f, (do
      let counts ← c.runFailing ids scope inherited f
      pure (counts, {}) : Process ω (Counts × Disposal ω)).Abides {} fun s _ => s.openTest = none :=
    fun f => (Test.abides_run ids scope _ _).bind fun s _ hs hopen => .pure hs hopen
  unfold runTheory
  refine (henter rfl).bind ?_
  rintro _ _ _ rfl
  refine (Abides.of_setup (Code.makes_run_setup ids source) (Stance.isFree_unaware none)).bind ?_
  rintro _ outcome _ rfl
  cases outcome.toExcept with
  | error f =>
    refine (henter rfl).bind ?_
    rintro _ _ _ rfl
    exact hfailing f
  | ok rows =>
    refine (henter rfl).bind ?_
    rintro _ _ _ rfl
    dsimp only
    split
    · exact hfailing _
    · unfold runRows
      refine (Abides.untilCancelled ?_ (Stance.isFree_unaware none) rfl 0).bind
        fun s _ hs hopen => .pure hs hopen
      intro p hp
      obtain ⟨t, -, rfl⟩ := List.mem_map.mp hp
      exact t.abides_run ids scope inherited

theorem abides_runTests :
    (c.runTests ids scope inherited).Abides {} fun s _ => s.openTest = none := by
  unfold runTests
  split
  · exact c.abides_runTheory ids scope inherited _
  · exact (Test.abides_run ids scope _ _).bind fun s _ hs hopen => .pure hs hopen
  · exact (Test.abides_run ids scope inherited _).bind fun s _ hs hopen => .pure hs hopen

theorem abides_run (methodIds : NodeIds) :
    (c.run methodIds scope inherited).Abides {} fun s _ => s.openTest = none := by
  unfold run
  refine abides_lifecycle (by exact nofun) ?_
  refine (c.abides_runTests _ scope inherited).bind fun s a hs hopen => ?_
  refine (Abides.of_setup (a.2.makes_disposeAll _ {}) hs).bind ?_
  rintro _ cleanup _ rfl
  exact .pure hs hopen

end TestCase

theorem Method.abides_runAll (classIds : NodeIds) (scope : ClassScope ω) (inherited : Aggregator)
    (cases : List (TestCase ω)) :
    (runAll classIds scope inherited cases).Abides {} fun s _ => s.openTest = none := by
  unfold runAll
  refine Abides.untilCancelled ?_ (Stance.isFree_unaware none) rfl 0
  intro p hp
  obtain ⟨c, -, rfl⟩ := List.mem_map.mp hp
  unfold Method.run
  refine abides_lifecycle (by exact nofun) ?_
  refine (Abides.untilCancelled ?_ (Stance.isFree_unaware none) rfl 0).bind
    fun s _ hs hopen => .pure hs hopen
  intro p hp
  obtain ⟨c', -, rfl⟩ := List.mem_map.mp hp
  exact c'.abides_run scope inherited _

theorem TestClass.abides_runAll (setup : RunSetup ω) (collectionIds : NodeIds)
    (collectionFixtures : FixtureMap) (inherited : Aggregator) (cases : List (TestCase ω)) :
    (runAll setup collectionIds collectionFixtures inherited cases).Abides {}
      fun s _ => s.openTest = none := by
  unfold runAll
  refine Abides.untilCancelled ?_ (Stance.isFree_unaware none) rfl 0
  intro p hp
  obtain ⟨c, -, rfl⟩ := List.mem_map.mp hp
  unfold TestClass.run
  refine abides_lifecycle (by exact nofun) ?_
  refine (Abides.of_setup (Fixtures.makes_constructAll _ _ _ _ _)
    (Stance.isFree_unaware none)).bind ?_
  rintro _ fs _ rfl
  refine (Abides.of_setup (Orderers.makes_order _ _ _ _) (Stance.isFree_unaware none)).bind ?_
  rintro _ ordered _ rfl
  refine (Method.abides_runAll _ _ _ ordered).bind fun s n hs hopen => ?_
  refine (Abides.of_setup (fs.disposal.makes_disposeAll _ {}) hs).bind ?_
  rintro _ cleanup _ rfl
  exact .pure hs hopen

/-- **The run of a collection abides**, from a stance in which nothing is known. -/
theorem Collection.abides_run (setup : RunSetup ω) (assemblyIds : NodeIds) (l : Collection ω)
    (cases : List (TestCase ω)) :
    (l.run setup assemblyIds cases).Abides {} fun s _ => s.openTest = none := by
  unfold run
  refine abides_lifecycle (by exact nofun) ?_
  refine (Abides.of_setup (Fixtures.makes_constructAll _ _ _ _ _)
    (Stance.isFree_unaware none)).bind ?_
  rintro _ fs _ rfl
  refine (TestClass.abides_runAll setup _ _ _ cases).bind fun s n hs hopen => ?_
  refine (Abides.of_setup (fs.disposal.makes_disposeAll _ {}) hs).bind ?_
  rintro _ cleanup _ rfl
  exact .pure hs hopen

end TestEngine
