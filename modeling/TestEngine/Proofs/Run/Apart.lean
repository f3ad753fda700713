import TestEngine.Proofs.Process.Regions
import TestEngine.Proofs.Order.Guarded
import TestEngine.Run.Parallel

/-!
# Collections that share nothing

When all user code of a collection keeps to a region of the world, so does the run of the
collection: the engine itself works in no world, and it tells about nothing but the nodes of the
collection.

* `Code.KeepsTo`, and `KeepsTo` for each kind of thing that has user code — what user code may do.
* `AssemblyRun.Apart` — the collections of a run share nothing.
* `Collection.exists_runs` — what the run of such a collection does.
-/

namespace TestEngine

open Process

variable {ω ν α β : Type} {R : Region ω ν}

/-! ## User code -/

/-- What comes of user code satisfies `P`, if it returns something. -/
def Outcome.Returns (P : α → Prop) (o : Outcome α) : Prop := ∀ a, o = .returned a → P a

theorem Outcome.Returns.of_toExcept {P : α → Prop} {o : Outcome α} {a : α} (h : o.Returns P)
    (he : o.toExcept = .ok a) : P a := by
  cases o with
  | returned b =>
    cases he
    exact h a rfl
  | failed e | panicked p => cases he

namespace Code

/-- Code outside of a test keeps to a region. -/
def KeepsTo (R : Region ω ν) (P : α → Prop) (code : SetupCode ω α) : Prop :=
  code.run.KeepsTo R (·.Returns P)

/-- Code inside of the test `ids` keeps to a region, whatever was written before it. -/
def KeepsToInTest (R : Region ω ν) (ids : NodeIds) (P : α → Prop) (code : TestCode ω α) : Prop :=
  ∀ output, (code.runInTest ids output).KeepsTo R fun r => r.1.Returns P

end Code

/-- Both parts of a teardown keep to a region, and so does what the asynchronous one makes. -/
structure Teardown.KeepsTo (R : Region ω ν) (t : Teardown ω) : Prop where
  asyncPart : ∀ code, t.asyncPart = some code →
    code.KeepsTo R fun future => future.KeepsTo R fun _ => True
  syncPart : ∀ code, t.syncPart = some code → code.KeepsTo R fun _ => True

/-- Constructors keep to a region when they build something for a node of it, and so do the
teardowns of what they build. -/
def FixtureDefinition.KeepsTo (R : Region ω ν) (d : FixtureDefinition ω) : Prop :=
  ∀ c ∈ d.constructors, ∀ ids arguments, R.owns ids →
    (∀ ids', .diagnostics ids' ∈ arguments → R.owns ids') →
      (c.build ids arguments).KeepsTo R fun fixture => fixture.teardown.KeepsTo R

/-- Both sides of a hook keep to a region around the tests of it. -/
def Hook.KeepsTo (R : Region ω ν) (h : Hook ω) : Prop :=
  ∀ side code, h.side side = some code → ∀ ctx : TestContext, R.owns ctx.ids →
    (code ctx).KeepsToInTest R ctx.ids fun _ => True

/-- A body keeps to a region in the tests of it. -/
def Body.KeepsTo (R : Region ω ν) : Body ω → Prop
  | .sync code => ∀ ctx : TestContext, R.owns ctx.ids →
    (code ctx).KeepsToInTest R ctx.ids fun _ => True
  | .async code => ∀ ctx : TestContext, R.owns ctx.ids →
    (code ctx).KeepsToInTest R ctx.ids fun future =>
      future.KeepsToInTest R ctx.ids fun _ => True

/-- The source of the rows of a theory keeps to a region, and so do the teardowns of the rows. -/
def CaseKind.KeepsTo (R : Region ω ν) : CaseKind ω → Prop
  | .theory source => source.KeepsTo R fun rows => ∀ row ∈ rows, row.teardown.KeepsTo R
  | _ => True

/-- All user code that runs for a case, or for its class, keeps to a region. -/
structure TestCase.KeepsTo (R : Region ω ν) (c : TestCase ω) : Prop where
  kind : c.kind.KeepsTo R
  body : c.method.body.KeepsTo R
  hooks : ∀ h ∈ c.hooks, h.KeepsTo R
  constructor : ∀ d, c.testClass.constructor = some d → d.KeepsTo R
  fixtures : ∀ d ∈ c.testClass.fixtures, d.KeepsTo R

/-- The fixtures of a collection keep to a region. -/
def Collection.KeepsTo (R : Region ω ν) (l : Collection ω) : Prop :=
  ∀ definition, l.definition = some definition → ∀ d ∈ definition.fixtures, d.KeepsTo R

/-- Orderers keep to a region when they order on behalf of a node of it, and they answer items that
satisfy `Q` if they are given such. What an orderer does is determined by what it is given and by
the region. -/
def Orderers.KeepsTo (R : Region ω ν) (Q : α → Prop) (os : Orderers ω α) : Prop :=
  ∀ name factory, os.factories.lookup name = some factory → ∀ ids items, R.owns ids →
    (∀ x ∈ items, Q x) → (factory ids).KeepsTo R fun orderer =>
      (orderer items).KeepsTo R fun ordered => ∀ x ∈ ordered, Q x

/-- **The collections of a run share nothing**: `view` tells what each of them, by its ID, sees of
the world. Their user code keeps to that, and so do orderers that order their cases. The orderer of
collections runs before all of them and may do as it likes. -/
structure AssemblyRun.Apart (r : AssemblyRun ω) (view : String → ω → ν) : Prop where
  collections : ∀ c ∈ r.cases, c.collection.KeepsTo (.ofCollection view c.collection.id)
  cases : ∀ c ∈ r.cases, c.KeepsTo (.ofCollection view c.collection.id)
  caseOrderers : ∀ c ∈ r.cases, r.setup.caseOrderers.KeepsTo (.ofCollection view c.collection.id)
    fun c' => c'.KeepsTo (.ofCollection view c.collection.id)
  collectionOrderers : r.setup.collectionOrderers.KeepsTo .whole
    fun l => l.KeepsTo (.ofCollection view l.id)

/-! ## Setting up and tearing down -/

namespace Aggregator

theorem keepsTo_attempt (a : Aggregator) {P : α → Prop} {code : SetupCode ω α}
    (h : code.KeepsTo R P) :
    (a.attempt code).KeepsTo R fun r => ∀ v, r.2 = some v → P v := by
  unfold attempt
  refine h.bind fun o ho => .pure fun v hv => ?_
  unfold capture at hv
  cases he : o.toExcept with
  | ok b =>
    rw [he] at hv
    cases hv
    exact ho.of_toExcept he
  | error f =>
    rw [he] at hv
    cases hv

theorem keepsTo_attemptAsync (a : Aggregator) {code : SetupCode ω (SetupCode ω Unit)}
    (h : code.KeepsTo R fun future => future.KeepsTo R fun _ => True) :
    (a.attemptAsync code).KeepsTo R fun _ => True := by
  unfold attemptAsync
  refine (a.keepsTo_attempt h).bind ?_
  rintro ⟨a', value⟩ hvalue
  cases value with
  | none => exact .pure trivial
  | some future => exact (a'.keepsTo_attempt (hvalue future rfl)).bind fun _ _ => .pure trivial

end Aggregator

namespace Teardown

variable (owner : NodeIds) (a : Aggregator)

theorem keepsTo_runAsync {entry : Teardown ω × Nat} (h : entry.1.KeepsTo R) :
    (runAsync owner a entry).KeepsTo R fun _ => True := by
  unfold runAsync
  split
  · next code hcode =>
    exact (KeepsTo.enter _).bind fun _ _ => a.keepsTo_attemptAsync (h.asyncPart code hcode)
  · exact .pure trivial

theorem keepsTo_runSync {entry : Teardown ω × Nat} (h : entry.1.KeepsTo R) :
    (runSync owner a entry).KeepsTo R fun _ => True := by
  unfold runSync
  split
  · next code hcode =>
    refine (KeepsTo.enter _).bind fun _ _ => ?_
    exact (a.keepsTo_attempt (h.syncPart code hcode)).bind fun _ _ => .pure trivial
  · exact .pure trivial

theorem keepsTo_run {t : Teardown ω} (h : t.KeepsTo R) :
    (t.run owner a).KeepsTo R fun _ => True :=
  (keepsTo_runAsync owner a h).bind fun a' _ => keepsTo_runSync owner a' h

end Teardown

namespace Disposal

/-- All teardowns that are kept keep to a region. -/
def KeepsTo (R : Region ω ν) (d : Disposal ω) : Prop := ∀ t ∈ d.teardowns, t.KeepsTo R

theorem KeepsTo.empty : ({} : Disposal ω).KeepsTo R := List.forall_mem_nil _

theorem KeepsTo.add {d : Disposal ω} {t : Teardown ω} (h : d.KeepsTo R) (ht : t.KeepsTo R) :
    (d.add t).KeepsTo R := by
  unfold Disposal.add
  split
  · exact h
  · exact List.forall_mem_append.mpr ⟨h, List.forall_mem_singleton.mpr ht⟩

theorem keepsTo_disposeAll (owner : NodeIds) (a : Aggregator) {d : Disposal ω}
    (h : d.KeepsTo R) : (d.disposeAll owner a).KeepsTo R fun _ => True := by
  have hentry : ∀ entry ∈ d.inReverse, entry.1.KeepsTo R := by
    rintro ⟨t, index⟩ hentry
    exact h t (List.fst_mem_of_mem_zipIdx (List.mem_reverse.mp hentry))
  unfold disposeAll
  refine (KeepsTo.foldlM _ (fun entry he a _ =>
    Teardown.keepsTo_runAsync owner a (hentry entry he)) trivial).bind fun a' _ => ?_
  exact KeepsTo.foldlM _ (fun entry he a _ =>
    Teardown.keepsTo_runSync owner a (hentry entry he)) trivial

end Disposal

/-- A constructor with its arguments keeps to a region, and so does the teardown of what it
builds. -/
def ReadyConstructor.KeepsTo (R : Region ω ν) (c : ReadyConstructor ω) : Prop :=
  c.code.KeepsTo R fun fixture => fixture.teardown.KeepsTo R

theorem ReadyConstructor.keepsTo_invoke (owner : NodeIds) {c : ReadyConstructor ω}
    (h : c.KeepsTo R) :
    (c.invoke owner).KeepsTo R fun r =>
      ∀ fixture, r = .ok fixture → fixture.teardown.KeepsTo R := by
  unfold invoke
  refine (KeepsTo.enter _).bind fun _ _ => (show c.code.run.KeepsTo R _ from h).bind fun o ho => ?_
  cases he : o.toExcept with
  | ok fixture =>
    refine (KeepsTo.enter _).bind fun _ _ => .pure ?_
    rintro _ ⟨⟩
    exact ho.of_toExcept he
  | error f => exact (KeepsTo.enter _).bind fun _ _ => .pure nofun

/-- Senders of diagnostic messages are given for the node that something is built for. -/
theorem Parameter.owns_of_resolveAll {available : List FixtureMap} {ids : NodeIds}
    (howns : R.owns ids) {parameters : List Parameter} {arguments : List Argument}
    (h : resolveAll available ids parameters = .ok arguments) :
    ∀ ids', .diagnostics ids' ∈ arguments → R.owns ids' := by
  induction parameters generalizing arguments with
  | nil =>
    cases h
    exact fun _ h => absurd h List.not_mem_nil
  | cons p parameters ih =>
    unfold resolveAll at h
    split at h
    · next a rest ha hrest =>
      cases h
      intro ids' hmem
      rcases List.mem_cons.mp hmem with rfl | hmem
      · unfold resolve at ha
        split at ha
        · cases ha
          exact howns
        · split at ha <;> cases ha
      · exact ih hrest ids' hmem
    all_goals cases h

theorem FixtureDefinition.keepsTo_resolve {d : FixtureDefinition ω} {kind : FixtureKind}
    {available : List FixtureMap} {ids : NodeIds} {c : ReadyConstructor ω} (h : d.KeepsTo R)
    (howns : R.owns ids) (hc : d.resolve kind available ids = .ok c) : c.KeepsTo R := by
  unfold resolve at hc
  split at hc
  · next c' hone =>
    split at hc
    · next arguments hargs =>
      cases hc
      exact h c' (hone ▸ List.mem_singleton_self c') ids arguments howns
        (Parameter.owns_of_resolveAll howns hargs)
    · cases hc
  · cases hc

theorem Fixtures.keepsTo_constructAll (kind : FixtureKind) (parents : List FixtureMap)
    {ids : NodeIds} (howns : R.owns ids) {definitions : List (FixtureDefinition ω)}
    (h : ∀ d ∈ definitions, d.KeepsTo R) (failures : Aggregator) :
    (constructAll kind parents ids definitions { failures }).KeepsTo R
      fun fs => fs.disposal.KeepsTo R := by
  refine KeepsTo.foldlM definitions (fun d hd fs hfs => ?_) Disposal.KeepsTo.empty
  unfold construct
  split
  · exact .pure hfs
  · next c hc =>
    refine (ReadyConstructor.keepsTo_invoke ids
      (FixtureDefinition.keepsTo_resolve (h d hd) howns hc)).bind fun r hr => ?_
    cases r with
    | error f => exact .pure hfs
    | ok fixture => exact .pure (hfs.add (hr fixture rfl))

/-! ## The life cycle -/

theorem keepsTo_reportCleanup {ids : NodeIds} (howns : R.owns ids) (level : Level)
    (cleanup : Aggregator) : (reportCleanup ids level cleanup).KeepsTo R fun _ => True := by
  unfold reportCleanup
  split
  · exact (KeepsTo.report howns _).bind fun _ _ => .pure trivial
  · exact .pure trivial

/-- A node tells that it starts, then what is told inside of it, and last that it has finished. -/
theorem exists_runs_lifecycle {ids : NodeIds} (howns : R.owns ids) (group : GroupLevel)
    (start : NodeStart) {inside : Process ω (Counts × Aggregator)}
    (h : inside.KeepsTo R fun _ => True) (w : ω) :
    ∃ ms counts v, (lifecycle ids group start inside).Runs R (R.view w)
      (⟨ids, .starting start⟩ :: ms ++ [⟨ids, .finished group (.ofCounts counts)⟩]) counts v := by
  obtain ⟨ms, ⟨counts, cleanup⟩, v, hinside, -⟩ := h w
  obtain ⟨w', rfl⟩ := hinside.exists_view
  obtain ⟨ns, _, v', hcleanup, -⟩ := keepsTo_reportCleanup howns group.level cleanup w'
  have hstart : (Process.report ids (.starting start) : Process ω Bool).Runs R (R.view w)
      [⟨ids, .starting start⟩] true (R.view w) := .queue howns (.done true _)
  have hfinish : (do
      let _ ← Process.report ids (.finished group (.ofCounts counts))
      pure counts : Process ω Counts).Runs R v'
      [⟨ids, .finished group (.ofCounts counts)⟩] counts v' := .queue howns (.done counts _)
  refine ⟨ms ++ ns, counts, v', ?_⟩
  rw [List.cons_append, List.append_assoc]
  unfold lifecycle
  exact hstart.bind (hinside.bind (hcleanup.bind hfinish))

theorem keepsTo_lifecycle {ids : NodeIds} (howns : R.owns ids) (group : GroupLevel)
    (start : NodeStart) {inside : Process ω (Counts × Aggregator)}
    (h : inside.KeepsTo R fun _ => True) :
    (lifecycle ids group start inside).KeepsTo R fun _ => True := by
  intro w
  obtain ⟨ms, counts, v, hruns⟩ := exists_runs_lifecycle howns group start h w
  exact ⟨_, counts, v, hruns, trivial⟩

/-! ## Tests -/

namespace Invocation

theorem keepsTo_attempt {ids : NodeIds} (s : Invocation) {P : α → Prop} {code : TestCode ω α}
    (h : code.KeepsToInTest R ids P) :
    (s.attempt ids code).KeepsTo R fun r => ∀ v, r.2 = some v → P v := by
  unfold attempt
  refine (h s.output).bind ?_
  rintro ⟨o, output⟩ ho
  refine .pure fun v hv => ?_
  dsimp only [Aggregator.capture] at hv
  cases he : o.toExcept with
  | ok b =>
    simp only [he, Option.some.injEq] at hv
    exact hv ▸ ho.of_toExcept he
  | error f => simp only [he, reduceCtorEq] at hv

variable {ctx : TestContext} (howns : R.owns ctx.ids)
include howns

theorem keepsTo_runHook (side : HookSide) (s : Invocation) {hook : Hook ω} (h : hook.KeepsTo R) :
    (runHook ctx side s hook).KeepsTo R fun _ => True := by
  unfold runHook
  refine (KeepsTo.report howns _).bind fun _ _ => (KeepsTo.enter _).bind fun _ _ => ?_
  cases hcode : hook.side side with
  | some code =>
    refine (s.keepsTo_attempt (h side code hcode ctx howns)).bind fun _ _ => ?_
    exact (KeepsTo.report howns _).bind fun _ _ => .pure trivial
  | none => exact (KeepsTo.report howns _).bind fun _ _ => .pure trivial

theorem keepsTo_runBefore {hooks started : List (Hook ω)} (h : ∀ hook ∈ hooks, hook.KeepsTo R)
    (hstarted : ∀ hook ∈ started, hook.KeepsTo R) (s : Invocation) :
    (runBefore ctx hooks started s).KeepsTo R fun r => ∀ hook ∈ r.2, hook.KeepsTo R := by
  induction hooks generalizing started s with
  | nil => exact .pure hstarted
  | cons hook rest ih =>
    obtain ⟨hhook, hrest⟩ := List.forall_mem_cons.mp h
    have hnow := List.forall_mem_cons.mpr ⟨hhook, hstarted⟩
    refine (keepsTo_runHook howns .before s hhook).bind ?_
    rintro ⟨s', succeeded⟩ -
    cases succeeded with
    | true => exact ih hrest hnow s'
    | false => exact .pure hnow

theorem keepsTo_runAfter {hooks : List (Hook ω)} (h : ∀ hook ∈ hooks, hook.KeepsTo R)
    (s : Invocation) : (runAfter ctx hooks s).KeepsTo R fun _ => True := by
  induction hooks generalizing s with
  | nil => exact .pure trivial
  | cons hook rest ih =>
    obtain ⟨hhook, hrest⟩ := List.forall_mem_cons.mp h
    exact (keepsTo_runHook howns .after s hhook).bind fun r _ => ih hrest r.1

theorem keepsTo_runBody {body : Body ω} (h : body.KeepsTo R) (s : Invocation) :
    (runBody ctx body s).KeepsTo R fun _ => True := by
  unfold runBody
  refine (KeepsTo.enter _).bind fun _ _ => ?_
  cases body with
  | sync code => exact (s.keepsTo_attempt (h ctx howns)).bind fun _ _ => .pure trivial
  | async code =>
    refine (s.keepsTo_attempt (h ctx howns)).bind ?_
    rintro ⟨s', value⟩ hvalue
    cases value with
    | none => exact .pure trivial
    | some future => exact (s'.keepsTo_attempt (hvalue future rfl)).bind fun _ _ => .pure trivial

theorem keepsTo_runAround {hooks : List (Hook ω)} {body : Body ω}
    (h : ∀ hook ∈ hooks, hook.KeepsTo R) (hbody : body.KeepsTo R) :
    (runAround ctx hooks body).KeepsTo R fun _ => True := by
  unfold runAround
  refine (keepsTo_runBefore howns h (List.forall_mem_nil _) _).bind ?_
  rintro ⟨s, started⟩ hstarted
  by_cases hfailed : s.failures.hasFailures = true
  · simp only [hfailed, if_true]
    exact keepsTo_runAfter howns hstarted s
  · simp only [hfailed]
    exact (keepsTo_runBody howns hbody s).bind fun s' _ => keepsTo_runAfter howns hstarted s'

end Invocation

/-- The constructor of the instances of a class keeps to a region. -/
def ClassScope.KeepsTo (R : Region ω ν) (scope : ClassScope ω) : Prop :=
  ∀ c, scope.constructor = some c → c.KeepsTo R

namespace Test

theorem keepsTo_dispose {ids : NodeIds} (howns : R.owns ids) {t : Teardown ω} (h : t.KeepsTo R) :
    (dispose ids t).KeepsTo R fun _ => True := by
  unfold dispose
  refine (KeepsTo.report howns _).bind fun _ _ => (t.keepsTo_run ids {} h).bind fun _ _ => ?_
  exact (KeepsTo.report howns _).bind fun _ _ => .pure trivial

theorem keepsTo_reportResult {ids : NodeIds} (howns : R.owns ids) (s : Invocation) :
    (reportResult ids s : Process ω Counts).KeepsTo R fun _ => True := by
  unfold reportResult
  split <;> exact (KeepsTo.report howns _).bind fun _ _ => .pure trivial

variable {t : Test ω} (h : t.testCase.KeepsTo R) {scope : ClassScope ω} (hscope : scope.KeepsTo R)
include h hscope

theorem keepsTo_invoke {ids : NodeIds} (howns : R.owns ids) :
    (t.invoke ids scope).KeepsTo R fun _ => True := by
  have haround : ∀ testInstance, (Invocation.runAround (t.context ids scope testInstance)
      t.testCase.hooks t.testCase.method.body).KeepsTo R fun _ => True := fun testInstance =>
    Invocation.keepsTo_runAround howns h.hooks h.body
  unfold invoke
  cases hc : scope.constructor with
  | none => exact (haround none).bind fun _ _ => .pure trivial
  | some c =>
    refine (KeepsTo.report howns _).bind fun _ _ => ?_
    refine (ReadyConstructor.keepsTo_invoke ids (hscope c hc)).bind fun built hbuilt => ?_
    refine (KeepsTo.report howns _).bind fun _ _ => ?_
    cases built with
    | error f => exact .pure trivial
    | ok fixture =>
      refine (haround (some fixture.value)).bind fun s _ => ?_
      exact (keepsTo_dispose howns (hbuilt fixture rfl)).bind fun _ _ => .pure trivial

theorem keepsTo_runStarted {ids : NodeIds} (howns : R.owns ids) (inherited : Aggregator) :
    (t.runStarted ids scope inherited).KeepsTo R fun _ => True := by
  have hend : ∀ (s : Invocation) (cleanup : Aggregator), (do
      let counts ← reportResult ids s
      reportCleanup ids .test cleanup
      let _ ← Process.report ids (.testFinished .zero s.output)
      pure counts : Process ω Counts).KeepsTo R fun _ => True := fun s cleanup =>
    (keepsTo_reportResult howns s).bind fun _ _ =>
      (keepsTo_reportCleanup howns _ cleanup).bind fun _ _ =>
        (KeepsTo.report howns _).bind fun _ _ => .pure trivial
  unfold runStarted
  cases t.skipReason with
  | some reason =>
    exact (KeepsTo.report howns _).bind fun _ _ =>
      (KeepsTo.report howns _).bind fun _ _ => .pure trivial
  | none =>
    by_cases hfailed : inherited.hasFailures = true
    · simp only [hfailed, if_true]
      exact hend _ _
    · simp only [hfailed]
      exact (keepsTo_invoke h hscope howns).bind fun r _ => hend r.1 r.2

theorem keepsTo_run {caseIds : NodeIds} (howns : R.owns caseIds) (inherited : Aggregator) :
    (t.run caseIds scope inherited).KeepsTo R fun _ => True := by
  have hchild := R.owns_child .test t.id (by decide) howns
  unfold run
  refine (KeepsTo.report hchild _).bind ?_
  rintro _ rfl
  exact keepsTo_runStarted h hscope hchild inherited

end Test

/-! ## The tree -/

namespace TestCase

variable {c : TestCase ω} (h : c.KeepsTo R) {scope : ClassScope ω} (hscope : scope.KeepsTo R)
include h hscope

theorem keepsTo_runTheory {ids : NodeIds} (howns : R.owns ids) (inherited : Aggregator)
    {source : SetupCode ω (List (DataRow ω))} (hkind : c.kind = .theory source) :
    (c.runTheory ids scope inherited source).KeepsTo R fun r => r.2.KeepsTo R := by
  have hsource : source.run.KeepsTo R _ := (hkind ▸ h.kind : (CaseKind.theory source).KeepsTo R)
  have hfailing : ∀ f, (c.runFailing ids scope inherited f).KeepsTo R fun _ => True :=
    fun f => Test.keepsTo_run h hscope howns _
  unfold runTheory
  refine (KeepsTo.enter _).bind fun _ _ => hsource.bind fun o ho => ?_
  cases he : o.toExcept with
  | error f =>
    exact (KeepsTo.enter _).bind fun _ _ => (hfailing f).bind fun _ _ => .pure .empty
  | ok rows =>
    refine (KeepsTo.enter _).bind fun _ _ => ?_
    split
    · exact (hfailing _).bind fun _ _ => .pure .empty
    · unfold runRows
      refine (KeepsTo.untilCancelled ?_ 0).bind fun _ _ => .pure ?_
      · intro p hp
        obtain ⟨t, ht, rfl⟩ := List.mem_map.mp hp
        obtain ⟨⟨row, index⟩, -, rfl⟩ := List.mem_map.mp ht
        exact Test.keepsTo_run h hscope howns inherited
      · have hrows := ho.of_toExcept he
        exact List.foldlRecOn rows _ Disposal.KeepsTo.empty fun d hd row hrow =>
          hd.add (hrows row hrow)

theorem keepsTo_runTests {ids : NodeIds} (howns : R.owns ids) (inherited : Aggregator) :
    (c.runTests ids scope inherited).KeepsTo R fun r => r.2.KeepsTo R := by
  unfold runTests
  split
  · next source hkind _ => exact keepsTo_runTheory h hscope howns inherited hkind
  · exact (Test.keepsTo_run h hscope howns _).bind fun _ _ => .pure .empty
  · exact (Test.keepsTo_run h hscope howns _).bind fun _ _ => .pure .empty

theorem keepsTo_run {methodIds : NodeIds} (howns : R.owns methodIds) (inherited : Aggregator) :
    (c.run methodIds scope inherited).KeepsTo R fun _ => True := by
  have hchild := R.owns_child .testCase c.id (by decide) howns
  unfold run
  refine keepsTo_lifecycle hchild _ _ ?_
  refine (keepsTo_runTests h hscope hchild inherited).bind ?_
  rintro ⟨counts, disposal⟩ hdisposal
  exact (disposal.keepsTo_disposeAll _ {} hdisposal).bind fun _ _ => .pure trivial

end TestCase

theorem Method.keepsTo_runAll {classIds : NodeIds} (howns : R.owns classIds)
    {scope : ClassScope ω} (hscope : scope.KeepsTo R) (inherited : Aggregator)
    {cases : List (TestCase ω)} (h : ∀ c ∈ cases, c.KeepsTo R) :
    (runAll classIds scope inherited cases).KeepsTo R fun _ => True := by
  unfold runAll
  refine KeepsTo.untilCancelled ?_ 0
  intro p hp
  obtain ⟨c, -, rfl⟩ := List.mem_map.mp hp
  have hchild := R.owns_child .method c.method.id (by decide) howns
  unfold Method.run
  refine keepsTo_lifecycle hchild _ _ ?_
  refine (KeepsTo.untilCancelled ?_ 0).bind fun _ _ => .pure trivial
  intro p hp
  obtain ⟨c', hc', rfl⟩ := List.mem_map.mp hp
  exact TestCase.keepsTo_run (h c' (List.mem_filter.mp hc').1) hscope hchild inherited

namespace Orderers

variable {os : Orderers ω α} {Q : α → Prop} {ids : NodeIds} {items : List α}

theorem keepsTo_tryOrder (h : os.KeepsTo R Q) (howns : R.owns ids) (hitems : ∀ x ∈ items, Q x)
    (name : String) : (os.tryOrder name ids items).KeepsTo R fun r =>
      ∀ ordered, r = .ok ordered → ∀ x ∈ ordered, Q x := by
  unfold tryOrder
  split
  · exact .pure nofun
  · next factory hfactory =>
    have hmake : (factory ids).run.KeepsTo R _ := h name factory hfactory ids items howns hitems
    refine hmake.bind fun made hmade => ?_
    cases he : made.toExcept with
    | error f => exact .pure nofun
    | ok orderer =>
      have horder : (orderer items).run.KeepsTo R _ := hmade.of_toExcept he
      refine horder.bind fun answer hanswer => ?_
      cases he : answer.toExcept with
      | error f => exact .pure nofun
      | ok ordered =>
        dsimp only
        split
        · refine .pure ?_
          rintro _ ⟨⟩
          exact hanswer.of_toExcept he
        · exact .pure nofun

theorem keepsTo_order (h : os.KeepsTo R Q) (howns : R.owns ids) (hitems : ∀ x ∈ items, Q x)
    (name : Option String) :
    (os.order name ids items).KeepsTo R fun ordered => ∀ x ∈ ordered, Q x := by
  unfold order
  refine (keepsTo_tryOrder h howns hitems _).bind fun r hr => ?_
  cases r with
  | ok ordered => exact .pure (hr ordered rfl)
  | error reason =>
    exact .queue howns (.pure fun x hx => hitems x ((defaultOrder_perm _ items).subset hx))

/-- Orderers that need no code keep to every region, if they answer nothing that they were not
given. -/
theorem keepsTo_ofOrders (kind : OrdererKind) (idOf : α → String)
    {orders : List (String × (List α → List α))}
    (h : ∀ name order, orders.lookup name = some order → ∀ items, order items ⊆ items) :
    (ofOrders kind idOf orders : Orderers ω α).KeepsTo R Q := by
  intro name factory hf ids items _ hitems
  rw [ofOrders, lookup_map_snd, Option.map_eq_some_iff] at hf
  obtain ⟨order, horder, rfl⟩ := hf
  refine KeepsTo.pure ?_
  rintro _ ⟨⟩
  refine KeepsTo.pure ?_
  rintro _ ⟨⟩
  exact fun x hx => hitems x (h name order horder items hx)

end Orderers

theorem TestClass.keepsTo_resolveConstructor {k : TestClass ω} {ids : NodeIds}
    (howns : R.owns ids) (h : ∀ d, k.constructor = some d → d.KeepsTo R)
    (collectionFixtures : FixtureMap) (fs : Fixtures ω) :
    (k.resolveConstructor ids collectionFixtures fs).1.KeepsTo R := by
  unfold resolveConstructor
  cases hk : k.constructor with
  | none => exact nofun
  | some d =>
    dsimp only
    cases hd : d.resolve .testInstance [fs.values, collectionFixtures] ids with
    | error e => exact nofun
    | ok c =>
      rintro _ ⟨⟩
      exact FixtureDefinition.keepsTo_resolve (h d hk) howns hd

section

variable {setup : RunSetup ω} (horderers : setup.caseOrderers.KeepsTo R fun c => c.KeepsTo R)
include horderers

theorem TestClass.keepsTo_runAll {collectionIds : NodeIds} (howns : R.owns collectionIds)
    (collectionFixtures : FixtureMap) (inherited : Aggregator) {cases : List (TestCase ω)}
    (h : ∀ c ∈ cases, c.KeepsTo R) :
    (runAll setup collectionIds collectionFixtures inherited cases).KeepsTo R fun _ => True := by
  unfold runAll
  refine KeepsTo.untilCancelled ?_ 0
  intro p hp
  obtain ⟨c, hc, rfl⟩ := List.mem_map.mp hp
  have hcase := h c ((firstSeen_sublist _ cases).subset hc)
  have hchild := R.owns_child .testClass c.testClass.id (by decide) howns
  have hclass : ∀ c' ∈ withKey (·.testClass.id) c.testClass.id cases, c'.KeepsTo R :=
    fun c' hc' => h c' (List.mem_filter.mp hc').1
  have htold : (setup.caseOrderers.tellBy fun c : TestCase ω => c.id).KeepsTo R
      fun c => c.KeepsTo R := horderers
  unfold TestClass.run
  refine keepsTo_lifecycle hchild _ _ ?_
  refine (Fixtures.keepsTo_constructAll _ _ hchild hcase.fixtures _).bind fun fs hfs => ?_
  have hscope := keepsTo_resolveConstructor hchild hcase.constructor collectionFixtures fs
  refine (Orderers.keepsTo_order htold hchild hclass _).bind fun ordered hordered => ?_
  refine (Method.keepsTo_runAll hchild hscope _ hordered).bind fun _ _ => ?_
  exact (fs.disposal.keepsTo_disposeAll _ {} hfs).bind fun _ _ => .pure trivial

/-- **What the run of a collection does.** If its user code keeps to a region, it tells that it
starts, then about its nodes, and last that it has finished. -/
theorem Collection.exists_runs {assemblyIds : NodeIds} {l : Collection ω} (hl : l.KeepsTo R)
    (howns : R.owns (assemblyIds.child .collection l.id)) {cases : List (TestCase ω)}
    (h : ∀ c ∈ cases, c.KeepsTo R) (w : ω) :
    ∃ ms counts v, (l.run setup assemblyIds cases).Runs R (R.view w)
      (⟨assemblyIds.child .collection l.id,
          .starting (.collection l.displayName (l.definition.map (·.typeName)))⟩ :: ms ++
        [⟨assemblyIds.child .collection l.id, .finished .collection (.ofCounts counts)⟩])
      counts v := by
  unfold Collection.run
  refine exists_runs_lifecycle howns _ _ ?_ w
  refine (Fixtures.keepsTo_constructAll _ _ howns ?_ {}).bind fun fs hfs => ?_
  · cases hd : l.definition with
    | none => exact List.forall_mem_nil _
    | some definition => exact hl definition hd
  · refine (TestClass.keepsTo_runAll horderers howns _ _ h).bind fun _ _ => ?_
    exact (fs.disposal.keepsTo_disposeAll _ {} hfs).bind fun _ _ => .pure trivial

end

end TestEngine
