import TestEngine.Proofs.Run.Tasks

/-!
# What tasks do

A task does its steps in a fixed order: the node starts, it acquires what it shares, its children
run, what it acquired is torn down, and the node finishes. So every message of a life cycle that a
run queues is one of a task that the run gave to some node.

* `NodeTask.lives_of_path` — what a task does.
* `Test.exists_of_path` — what a test does: it is skipped, it fails with what it inherited, or it is
  invoked.
* `NodeTask.standsIn_of_path` — every message of a life cycle is one of a task of the run.
-/

namespace TestEngine

open Process

variable {ω : Type}

/-! ## The life of a node -/

theorem path_reportCleanup {ids : NodeIds} {level : Level} {a : Aggregator}
    {π : List (PathStep ω)} {u : Unit} (h : (reportCleanup ids level a).Path π u) :
    ∃ c, π = acted (Frame.cleanupSteps ids level c) ∧
      c.map (·.1) = a.toFailure?.map (·.record) := by
  unfold reportCleanup at h
  cases ha : a.toFailure? with
  | none =>
    rw [ha] at h
    obtain ⟨rfl, -⟩ := path_done h
    exact ⟨none, rfl, rfl⟩
  | some f =>
    rw [ha] at h
    obtain ⟨ρ, b, ρ', hreport, hend, rfl⟩ := path_bind h
    obtain ⟨rfl, -⟩ := path_done hend
    obtain rfl := path_report hreport
    exact ⟨some (f.record, b), List.append_nil _, rfl⟩

namespace NodeTask

variable {j : NodeTask ω} {π : List (PathStep ω)} {n : Counts}

/-- What a task does. If the run is to stop when the node starts, there is nothing inside of it.
Else it acquires what it shares, its children run, what it acquired is torn down in reverse, and a
failure of that is reported before the node finishes. -/
inductive Lives (j : NodeTask ω) : List (PathStep ω) → Prop
  | refused {finish : Event} {b : Bool} (hfinish : finish.lifecycle? = some (j.level, .finished)) :
      Lives j (acted (reported ⟨j.ids, .starting j.start⟩ false) ++
        acted (reported ⟨j.ids, finish⟩ b))
  | went {acquired running torn after : List (PathStep ω)} {ts : List (Teardown ω)}
      {fs : List Failure} {cleanup : Option (ErrorRecord × Bool)} {finish : Event} {b : Bool}
      (hacquires : j.Acquires acquired ts)
      (hrunning : Hosts (fun _ => False) (fun σ => j.Gives (j.opening ++ (acquired ++ σ))) running)
      (htorn : TornDown j.ids (teardownOrder ts) torn fs) (hafter : Plain after)
      (hcleanup : cleanup.map (·.1) = (⟨fs⟩ : Aggregator).toFailure?.map (·.record))
      (hfinish : finish.lifecycle? = some (j.level, .finished)) :
      Lives j (j.opening ++ (acquired ++ (running ++ (torn ++ (after ++
        (acted (Frame.cleanupSteps j.ids j.level cleanup) ++
          acted (reported ⟨j.ids, finish⟩ b)))))))

/-- The steps inside of a node that answers `cleanup`: it acquires things, its children run, and it
tears down what it acquired. -/
def GoesOn (j : NodeTask ω) (π : List (PathStep ω)) (cleanup : Aggregator) : Prop :=
  ∃ acquired running torn ts fs, π = acquired ++ (running ++ torn) ∧ j.Acquires acquired ts ∧
    Hosts (fun _ => False) (fun σ => j.Gives (j.opening ++ (acquired ++ σ))) running ∧
    TornDown j.ids (teardownOrder ts) torn fs ∧ cleanup.failures = fs

theorem lives_of_lifecycle {group : GroupLevel} {inside : Process ω (Counts × Aggregator)}
    (hgroup : group.level = j.level)
    (hinside : ∀ ρ k cleanup, inside.Path ρ (k, cleanup) → j.GoesOn ρ cleanup)
    (h : (lifecycle j.ids group j.start inside).Path π n) : j.Lives π := by
  have hfinish : ∀ s, (Event.finished group s).lifecycle? = some (j.level, .finished) := by
    intro s
    rw [← hgroup]
    rfl
  obtain ⟨ρ₁, goesOn, ρ₂, hstart, hrest, rfl⟩ := path_bind h
  obtain rfl := path_report hstart
  have hend : ∀ {ρ : List (PathStep ω)} {k : Counts}, (do
      let _ ← Process.report j.ids (.finished group (.ofCounts k))
      pure k).Path ρ n → ∃ b, ρ = acted (reported ⟨j.ids, .finished group (.ofCounts k)⟩ b) := by
    intro ρ k hρ
    obtain ⟨ρ₅, b, ρ₆, hfinished, hdone, rfl⟩ := path_bind hρ
    obtain ⟨rfl, -⟩ := path_done hdone
    obtain rfl := path_report hfinished
    exact ⟨b, List.append_nil _⟩
  cases goesOn with
  | false =>
    obtain ⟨b, rfl⟩ := hend hrest
    exact .refused (hfinish _)
  | true =>
    obtain ⟨ρ₃, ⟨k, cleanup⟩, ρ₄, hin, hout, rfl⟩ := path_bind hrest
    obtain ⟨ρ₅, _, ρ₆, hcleanup, hlast, rfl⟩ := path_bind hout
    obtain ⟨b, rfl⟩ := hend hlast
    obtain ⟨c, rfl, hc⟩ := path_reportCleanup hcleanup
    obtain ⟨acquired, running, torn, ts, fs, rfl, hacquires, hrunning, htorn, rfl⟩ :=
      hinside _ _ _ hin
    rw [hgroup]
    have hlives := Lives.went (b := b) hacquires hrunning htorn .nil hc (hfinish (.ofCounts k))
    simpa only [opening, List.append_assoc, List.nil_append] using hlives

theorem goesOn_assembly {r : AssemblyRun ω} {ρ : List (PathStep ω)} {k : Counts}
    {cleanup : Aggregator} (h : (do
      let runs ← r.collectionRuns
      let counts ← Process.untilCancelled runs 0
      pure (counts, {}) : Process ω (Counts × Aggregator)).Path ρ (k, cleanup)) :
    (NodeTask.assembly r).GoesOn ρ cleanup := by
  obtain ⟨ρ₁, runs, ρ₂, hruns, hrest, rfl⟩ := path_bind h
  obtain ⟨ρ₃, counts, ρ₄, hcollections, hdone, rfl⟩ := path_bind hrest
  obtain ⟨rfl, he⟩ := path_done hdone
  cases he
  obtain ⟨ρ₅, ls, ρ₆, hordered, hdone', rfl⟩ := path_bind hruns
  obtain ⟨rfl, rfl⟩ := path_done hdone'
  refine ⟨ρ₅, ρ₃, [], [], [], by simp only [List.append_nil], ⟨⟨ls, hordered⟩, rfl⟩, ?_, .nil, rfl⟩
  exact .children (fun l => .collection r.setup r.ids l (withKey (·.collection.id) l.id r.cases))
    (fun l hl σ => .collection hordered hl σ) hcollections

theorem goesOn_collection {setup : RunSetup ω} {assemblyIds : NodeIds} {l : Collection ω}
    {cases : List (TestCase ω)} {ρ : List (PathStep ω)} {k : Counts} {cleanup : Aggregator}
    (h : (do
      let fs ← Fixtures.constructAll .collection [] (assemblyIds.child .collection l.id)
        l.fixtures {}
      let counts ← TestClass.runAll setup (assemblyIds.child .collection l.id) fs.values
        fs.failures cases
      let cleanup ← fs.disposal.disposeAll (assemblyIds.child .collection l.id) {}
      pure (counts, cleanup) : Process ω (Counts × Aggregator)).Path ρ (k, cleanup)) :
    (NodeTask.collection setup assemblyIds l cases).GoesOn ρ cleanup := by
  obtain ⟨ρ₁, fs, ρ₂, hfixtures, hrest, rfl⟩ := path_bind h
  obtain ⟨ρ₃, counts, ρ₄, hclasses, hend, rfl⟩ := path_bind hrest
  obtain ⟨ρ₅, a, ρ₆, htearing, hdone, rfl⟩ := path_bind hend
  obtain ⟨rfl, he⟩ := path_done hdone
  cases he
  obtain ⟨ts, es, hbuilds, hfailures, hteardowns⟩ := Fixtures.builds_of_path hfixtures
  obtain ⟨torn, htorn, hcleanup⟩ := Disposal.tornDown_of_path htearing
  have hteardowns : fs.disposal.teardowns = kept ts := hteardowns
  have hinherited : fs.failures = ⟨es⟩ := congrArg Aggregator.mk hfailures
  rw [hteardowns] at htorn
  refine ⟨ρ₁, ρ₃, ρ₅, kept ts, torn, by rw [List.append_nil], ⟨_, ts, es, hbuilds, rfl⟩, ?_,
    htorn, hcleanup⟩
  rw [hinherited] at hclasses
  refine .children (fun c : TestCase ω => .testClass setup (assemblyIds.child .collection l.id)
    fs.values ⟨es⟩ c.testClass (withKey (·.testClass.id) c.testClass.id cases))
    (fun c hc σ => ?_) hclasses
  exact .testClass hbuilds ((firstSeen_sublist _ cases).subset hc) σ

theorem goesOn_testClass {setup : RunSetup ω} {collectionIds : NodeIds} {fixtures : FixtureMap}
    {inherited : Aggregator} {k : TestClass ω} {cases : List (TestCase ω)}
    {ρ : List (PathStep ω)} {counts : Counts} {cleanup : Aggregator} (h : (do
      let fs ← Fixtures.constructAll .testClass [fixtures] (collectionIds.child .testClass k.id)
        k.fixtures { failures := inherited }
      let (scope, failures) :=
        k.resolveConstructor (collectionIds.child .testClass k.id) fixtures fs
      let ordered ← (setup.caseOrderers.tellBy (·.id)).order (k.caseOrdererName setup.options)
        (collectionIds.child .testClass k.id) cases
      let counts ← Method.runAll (collectionIds.child .testClass k.id) scope failures ordered
      let cleanup ← fs.disposal.disposeAll (collectionIds.child .testClass k.id) {}
      pure (counts, cleanup) : Process ω (Counts × Aggregator)).Path ρ (counts, cleanup)) :
    (NodeTask.testClass setup collectionIds fixtures inherited k cases).GoesOn ρ cleanup := by
  obtain ⟨ρ₁, fs, ρ₂, hfixtures, hrest, rfl⟩ := path_bind h
  rw [TestClass.resolveConstructor_eq] at hrest
  obtain ⟨ρ₃, ordered, ρ₄, hordered, hmethods, rfl⟩ := path_bind hrest
  obtain ⟨ρ₅, counts, ρ₆, hinside, hend, rfl⟩ := path_bind hmethods
  obtain ⟨ρ₇, a, ρ₈, htearing, hdone, rfl⟩ := path_bind hend
  obtain ⟨rfl, he⟩ := path_done hdone
  cases he
  obtain ⟨ts, es, hbuilds, hfailures, hteardowns⟩ := Fixtures.builds_of_path hfixtures
  obtain ⟨torn, htorn, hcleanup⟩ := Disposal.tornDown_of_path htearing
  have hteardowns : fs.disposal.teardowns = kept ts := hteardowns
  have hfailures : fs.failures.failures = inherited.failures ++ es := hfailures
  rw [hteardowns] at htorn
  refine ⟨ρ₁, ρ₃ ++ ρ₅, ρ₇, kept ts, torn, by simp only [List.append_nil, List.append_assoc],
    ⟨_, ts, es, hbuilds, rfl⟩, ?_, htorn, hcleanup⟩
  refine (Hosts.of_plain (.of_user hordered ?_)).append ?_
  · exact (Orderers.yields_order _ _ _ _).mono fun _ _ hb => hb.1
  rw [hfailures] at hinside
  refine .children (fun c : TestCase ω => .method (collectionIds.child .testClass k.id)
    (k.scope (collectionIds.child .testClass k.id) fixtures fs.values)
    ⟨inherited.failures ++ es ++
      k.unresolved (collectionIds.child .testClass k.id) fixtures fs.values⟩
    c.method (withKey (·.method.id) c.method.id ordered)) (fun c hc σ => ?_) hinside
  exact .method hbuilds hordered ((firstSeen_sublist _ ordered).subset hc) σ

theorem goesOn_method {classIds : NodeIds} {scope : ClassScope ω} {inherited : Aggregator}
    {m : Method ω} {cases : List (TestCase ω)} {ρ : List (PathStep ω)} {k : Counts}
    {cleanup : Aggregator} (h : (do
      let counts ← Process.untilCancelled
        (cases.map (TestCase.run (classIds.child .method m.id) scope inherited)) 0
      pure (counts, {}) : Process ω (Counts × Aggregator)).Path ρ (k, cleanup)) :
    (NodeTask.method classIds scope inherited m cases).GoesOn ρ cleanup := by
  obtain ⟨ρ₁, counts, ρ₂, hcases, hdone, rfl⟩ := path_bind h
  obtain ⟨rfl, he⟩ := path_done hdone
  cases he
  refine ⟨[], ρ₁, [], [], [], by simp only [List.append_nil, List.nil_append], ⟨rfl, rfl⟩, ?_,
    .nil, rfl⟩
  exact .children (.testCase (classIds.child .method m.id) scope inherited)
    (fun c hc σ => .testCase hc σ) hcases

end NodeTask

/-! ## Cases and their tests -/

namespace TestCase

variable {c : TestCase ω} {ids : NodeIds} {scope : ClassScope ω} {inherited : Aggregator}
  {π : List (PathStep ω)} {n : Counts} {d : Disposal ω}

/-- What a case does: it finds its tests, and they run one after another. -/
def RunsFound (c : TestCase ω) (ids : NodeIds) (scope : ClassScope ω) (inherited : Aggregator)
    (π : List (PathStep ω)) (d : Disposal ω) : Prop :=
  ∃ found running tests own rows, π = found ++ running ∧ c.Finds ids found tests own rows ∧
    d.teardowns = kept rows ∧
    ∀ Q : List (PathStep ω) → NodeTask ω → Prop,
      (∀ t ∈ tests, ∀ σ, Q σ (.test ids scope ⟨inherited.failures ++ own⟩ t)) →
        Hosts (fun _ => False) Q running

/-- A case with a single test. -/
theorem runsFound_single {found running : List (PathStep ω)} {own : List Failure} {k : Counts}
    (hfinds : c.Finds ids found [.ofCase c] own [])
    (h : ((Test.ofCase c).run ids scope ⟨inherited.failures ++ own⟩).Path running k) :
    c.RunsFound ids scope inherited (found ++ running) {} := by
  refine ⟨found, running, _, own, [], rfl, hfinds, rfl, fun Q hQ => ?_⟩
  exact Hosts.task (j := .test ids scope ⟨inherited.failures ++ own⟩ (.ofCase c))
    (hQ _ List.mem_cons_self []) h

theorem runsFound_of_path_runFailing {found : List (PathStep ω)} {f : Failure}
    (hfinds : c.Finds ids found [.ofCase c] [f] [])
    (h : (c.runFailing ids scope inherited f >>= fun counts =>
      pure (counts, ({} : Disposal ω))).Path π (n, d)) :
    c.RunsFound ids scope inherited (found ++ π) d := by
  obtain ⟨ρ, counts, ρ', hrun, hdone, rfl⟩ := path_bind h
  obtain ⟨rfl, he⟩ := path_done hdone
  cases he
  rw [List.append_nil]
  exact runsFound_single hfinds hrun

theorem runsFound_of_path_run (hfinds : c.Finds ids [] [.ofCase c] [] [])
    (h : ((Test.ofCase c).run ids scope inherited >>= fun counts =>
      pure (counts, ({} : Disposal ω))).Path π (n, d)) : c.RunsFound ids scope inherited π d := by
  obtain ⟨ρ, counts, ρ', hrun, hdone, rfl⟩ := path_bind h
  obtain ⟨rfl, he⟩ := path_done hdone
  cases he
  rw [List.append_nil]
  have hrun : ((Test.ofCase c).run ids scope ⟨inherited.failures ++ []⟩).Path ρ n := by
    rw [List.append_nil]
    exact hrun
  exact runsFound_single hfinds hrun

/-- A theory with rows. -/
theorem runsFound_of_path_runRows {found : List (PathStep ω)} {rows : List (DataRow ω)}
    (hfinds : c.Finds ids found (rows.zipIdx.map fun (row, index) => .ofRow c index row) []
      (rows.map (·.teardown)))
    (h : (c.runRows ids scope inherited rows).Path π (n, d)) :
    c.RunsFound ids scope inherited (found ++ π) d := by
  obtain ⟨ρ, counts, ρ', hrun, hdone, rfl⟩ := path_bind h
  obtain ⟨rfl, he⟩ := path_done hdone
  cases he
  rw [List.append_nil]
  refine ⟨found, ρ, _, [], _, rfl, hfinds, ?_, fun Q hQ => ?_⟩
  · exact Disposal.teardowns_foldl_add (·.teardown) rows {}
  rw [List.append_nil] at hQ
  exact .children (.test ids scope inherited) hQ hrun

theorem runsFound_of_path_runTheory {source : SetupCode ω (List (DataRow ω))}
    (hkind : c.kind = .theory source) (hskip : c.skipReason = none)
    (h : (c.runTheory ids scope inherited source).Path π (n, d)) :
    c.RunsFound ids scope inherited π d := by
  obtain ⟨ρ₁, _, ρ₂, henter, hrest, rfl⟩ := path_bind h
  obtain rfl := path_enter henter
  obtain ⟨ρ₃, o, ρ₄, hsource, hend, rfl⟩ := path_bind hrest
  have hfailed : ∀ f, o.failure? = some f → o.toExcept = .error f →
      c.RunsFound ids scope inherited
        (acted [.activity (.enumerate ids)] ++ (ρ₃ ++ ρ₄)) d := by
    intro f hf hexcept
    rw [hexcept] at hend
    obtain ⟨ρ₅, _, ρ₆, hended, hrun, rfl⟩ := path_bind hend
    obtain rfl := path_enter hended
    rw [← List.append_assoc, ← List.append_assoc]
    exact runsFound_of_path_runFailing (.failed hkind hskip hsource hf) hrun
  cases o with
  | failed e => exact hfailed e rfl rfl
  | panicked p => exact hfailed _ rfl rfl
  | returned rows =>
    obtain ⟨ρ₅, _, ρ₆, hended, hrun, rfl⟩ := path_bind hend
    obtain rfl := path_enter hended
    rw [← List.append_assoc, ← List.append_assoc]
    cases rows with
    | nil => exact runsFound_of_path_runFailing (.noData hkind hskip hsource) hrun
    | cons row rows =>
      exact runsFound_of_path_runRows (.rows hkind hskip hsource (List.cons_ne_nil _ _)) hrun

theorem runsFound_of_path (h : (c.runTests ids scope inherited).Path π (n, d)) :
    c.RunsFound ids scope inherited π d := by
  unfold runTests at h
  cases hkind : c.kind with
  | fact =>
    rw [hkind] at h
    exact runsFound_of_path_run (.fact hkind) h
  | row arguments =>
    rw [hkind] at h
    exact runsFound_of_path_run (.row hkind) h
  | error message =>
    rw [hkind] at h
    exact runsFound_of_path_runFailing (.error hkind) h
  | theory source =>
    cases hskip : c.skipReason with
    | none =>
      rw [hkind, hskip] at h
      exact runsFound_of_path_runTheory hkind hskip h
    | some reason =>
      rw [hkind, hskip] at h
      exact runsFound_of_path_run (.skipped hkind hskip) h

end TestCase

theorem NodeTask.goesOn_testCase {methodIds : NodeIds} {scope : ClassScope ω}
    {inherited : Aggregator} {c : TestCase ω} {ρ : List (PathStep ω)} {k : Counts}
    {cleanup : Aggregator} (h : (do
      let (counts, disposal) ← c.runTests (methodIds.child .testCase c.id) scope inherited
      let cleanup ← disposal.disposeAll (methodIds.child .testCase c.id) {}
      pure (counts, cleanup) : Process ω (Counts × Aggregator)).Path ρ (k, cleanup)) :
    (NodeTask.testCase methodIds scope inherited c).GoesOn ρ cleanup := by
  obtain ⟨ρ₁, ⟨counts, d⟩, ρ₂, htests, hend, rfl⟩ := path_bind h
  obtain ⟨ρ₃, a, ρ₄, htearing, hdone, rfl⟩ := path_bind hend
  obtain ⟨rfl, he⟩ := path_done hdone
  cases he
  obtain ⟨found, running, tests, own, rows, rfl, hfinds, hrows, hhosts⟩ :=
    TestCase.runsFound_of_path htests
  obtain ⟨torn, htorn, hcleanup⟩ := Disposal.tornDown_of_path htearing
  rw [hrows] at htorn
  refine ⟨found, running, ρ₃, kept rows, torn, by simp only [List.append_nil, List.append_assoc],
    ⟨tests, own, rows, hfinds, rfl⟩, ?_, htorn, hcleanup⟩
  exact hhosts _ fun t ht σ => .test hfinds ht σ

/-! ## Tests -/

/-- The result of a test that was invoked. -/
def Invocation.result (s : Invocation) : Event :=
  match s.failures.toFailure? with
  | some f => .failed .zero s.output f.record
  | none => .passed .zero s.output

theorem Invocation.lifecycle?_result (s : Invocation) : s.result.lifecycle? = none := by
  unfold result
  cases s.failures.toFailure? <;> rfl

namespace Test

variable {t : Test ω} {ids : NodeIds} {scope : ClassScope ω} {inherited : Aggregator}
  {π : List (PathStep ω)} {n : Counts}

/-- What a test does once it has started: it is skipped, it fails with what it inherited, or it is
invoked. -/
inductive Verdict (t : Test ω) (ids : NodeIds) (scope : ClassScope ω) (inherited : Aggregator) :
    List (PathStep ω) → Prop
  | skipped {reason : String} (hskip : t.skipReason = some reason) (b b' : Bool) :
      Verdict t ids scope inherited
        (acted (reported ⟨ids, .skipped reason⟩ b) ++
          acted (reported ⟨ids, .testFinished .zero ""⟩ b'))
  | failed (hskip : t.skipReason = none) (hfailed : inherited.failures ≠ []) (b b' : Bool) :
      Verdict t ids scope inherited
        (acted (reported ⟨ids, .failed .zero "" (Failure.combine inherited.failures).record⟩ b) ++
          acted (reported ⟨ids, .testFinished .zero ""⟩ b'))
  | invoked {ρ : List (PathStep ω)} {s : Invocation} {a : Aggregator}
      {cleanup : Option (ErrorRecord × Bool)} (hskip : t.skipReason = none)
      (hfailed : inherited.failures = []) (hinvoke : (t.invoke ids scope).Path ρ (s, a))
      (hcleanup : cleanup.map (·.1) = a.toFailure?.map (·.record)) (b b' : Bool) :
      Verdict t ids scope inherited
        (ρ ++ (acted (reported ⟨ids, s.result⟩ b) ++
          (acted (Frame.cleanupSteps ids .test cleanup) ++
            acted (reported ⟨ids, .testFinished .zero s.output⟩ b'))))

theorem path_reportResult {s : Invocation} (h : (reportResult ids s : Process ω Counts).Path π n) :
    ∃ b, π = acted (reported ⟨ids, s.result⟩ b) := by
  unfold reportResult at h
  unfold Invocation.result
  cases hs : s.failures.toFailure? with
  | none | some f =>
    rw [hs] at h
    obtain ⟨ρ, b, ρ', hreport, hdone, rfl⟩ := path_bind h
    obtain ⟨rfl, -⟩ := path_done hdone
    obtain rfl := path_report hreport
    exact ⟨b, List.append_nil _⟩

/-- What a test does between its invocation and its end. -/
theorem path_conclude {s : Invocation} {a : Aggregator} (h : (do
      let counts ← reportResult ids s
      reportCleanup ids .test a
      let _ ← Process.report ids (.testFinished .zero s.output)
      pure counts : Process ω Counts).Path π n) :
    ∃ b b' cleanup, cleanup.map (·.1) = a.toFailure?.map (·.record) ∧
      π = acted (reported ⟨ids, s.result⟩ b) ++
        (acted (Frame.cleanupSteps ids .test cleanup) ++
          acted (reported ⟨ids, .testFinished .zero s.output⟩ b')) := by
  obtain ⟨ρ₁, k, ρ₂, hresult, hrest, rfl⟩ := path_bind h
  obtain ⟨ρ₃, _, ρ₄, hcleanup, hend, rfl⟩ := path_bind hrest
  obtain ⟨ρ₅, b', ρ₆, hfinish, hdone, rfl⟩ := path_bind hend
  obtain ⟨rfl, -⟩ := path_done hdone
  obtain ⟨b, rfl⟩ := path_reportResult hresult
  obtain ⟨cleanup, rfl, hc⟩ := path_reportCleanup hcleanup
  obtain rfl := path_report hfinish
  exact ⟨b, b', cleanup, hc, by rw [List.append_nil]⟩

theorem verdict_of_path (h : (t.runStarted ids scope inherited).Path π n) :
    t.Verdict ids scope inherited π := by
  unfold runStarted at h
  cases hskip : t.skipReason with
  | some reason =>
    rw [hskip] at h
    obtain ⟨ρ₁, b, ρ₂, hskipped, hrest, rfl⟩ := path_bind h
    obtain ⟨ρ₃, b', ρ₄, hfinish, hdone, rfl⟩ := path_bind hrest
    obtain ⟨rfl, -⟩ := path_done hdone
    obtain rfl := path_report hskipped
    obtain rfl := path_report hfinish
    rw [List.append_nil]
    exact .skipped hskip b b'
  | none =>
    rw [hskip] at h
    by_cases hfailed : inherited.hasFailures = true
    · simp only [hfailed, if_true, pure_bind] at h
      obtain ⟨b, b', cleanup, hcleanup, rfl⟩ := path_conclude h
      have hne : inherited.failures ≠ [] := by
        intro hnil
        rw [Aggregator.hasFailures, hnil] at hfailed
        cases hfailed
      have hresult : ({ failures := inherited } : Invocation).result =
          .failed .zero "" (Failure.combine inherited.failures).record := by
        have hsome : inherited.toFailure? = some (Failure.combine inherited.failures) :=
          if_neg (by simpa using hne)
        simp only [Invocation.result, hsome]
      cases cleanup with
      | some c => cases hcleanup
      | none =>
        rw [hresult]
        exact .failed hskip hne b b'
    · simp only [hfailed, Bool.false_eq_true, if_false] at h
      obtain ⟨ρ, ⟨s, a⟩, ρ', hinvoke, hrest, rfl⟩ := path_bind h
      obtain ⟨b, b', cleanup, hcleanup, rfl⟩ := path_conclude hrest
      refine .invoked hskip ?_ hinvoke hcleanup b b'
      simpa [Aggregator.hasFailures] using hfailed

/-- What a test does. -/
theorem exists_of_path {caseIds : NodeIds} (h : (t.run caseIds scope inherited).Path π n) :
    (∃ b, π = acted (reported ⟨caseIds.child .test t.id, .starting (.test t.displayName)⟩ false) ++
      acted (reported ⟨caseIds.child .test t.id, .testFinished .zero ""⟩ b)) ∨
    ∃ ρ, π = acted (reported ⟨caseIds.child .test t.id, .starting (.test t.displayName)⟩ true) ++
        ρ ∧ t.Verdict (caseIds.child .test t.id) scope inherited ρ := by
  obtain ⟨ρ₁, goesOn, ρ₂, hstart, hrest, rfl⟩ := path_bind h
  obtain rfl := path_report hstart
  cases goesOn with
  | true => exact .inr ⟨ρ₂, rfl, verdict_of_path hrest⟩
  | false =>
    obtain ⟨ρ₃, b, ρ₄, hfinish, hdone, rfl⟩ := path_bind hrest
    obtain ⟨rfl, -⟩ := path_done hdone
    obtain rfl := path_report hfinish
    exact .inl ⟨b, by rw [List.append_nil]⟩

theorem plain_of_runAround {value : Option FixtureValue} {s : Invocation}
    (h : (Invocation.runAround (t.context ids scope value) t.testCase.hooks
      t.testCase.method.body).Path π s) : Plain π :=
  .of_madeOf ((h.of_yields (Invocation.makes_runAround (t.context ids scope value) _ _)).mono
    fun _ hb => hb.1)

/-- What a test that is invoked does: it acquires an instance of its class, the hooks and the body
run, and the instance is torn down. -/
theorem exists_of_path_invoke {s : Invocation} {a : Aggregator} (hskip : t.skipReason = none)
    (hfailed : inherited.failures = []) (h : (t.invoke ids scope).Path π (s, a)) :
    ∃ acquired running torn after ts, π = acquired ++ (running ++ (torn ++ after)) ∧
      t.Acquires ids scope inherited acquired ts ∧ Plain running ∧
      TornDown ids (teardownOrder ts) torn a.failures ∧ Plain after := by
  unfold invoke at h
  cases hconstructor : scope.constructor with
  | none =>
    rw [hconstructor] at h
    obtain ⟨ρ, s', ρ', haround, hdone, rfl⟩ := path_bind h
    obtain ⟨rfl, he⟩ := path_done hdone
    cases he
    exact ⟨[], ρ, [], [], [], rfl, .none hskip hfailed hconstructor, plain_of_runAround haround,
      .nil, .nil⟩
  | some c =>
    rw [hconstructor] at h
    obtain ⟨ρ₁, b, ρ₂, hstarting, hrest, rfl⟩ := path_bind h
    obtain ⟨ρ₃, built, ρ₄, hinvoke, hbuilt, rfl⟩ := path_bind hrest
    obtain ⟨ρ₅, b', ρ₆, hfinished, hend, rfl⟩ := path_bind hbuilt
    obtain rfl := path_report hstarting
    obtain rfl := path_report hfinished
    -- an instance that was built is torn down; without one there is nothing more to do
    obtain ⟨ρ, o, hrun, rfl, ⟨fixture, rfl, rfl⟩ | ⟨f, hfailure, hvalue, rfl⟩⟩ :=
      c.exists_of_path hinvoke
    · obtain ⟨ρ₇, s', ρ₈, haround, hdispose, rfl⟩ := path_bind hend
      obtain ⟨ρ₉, a', ρ₁₀, htearing, hdone, rfl⟩ := path_bind hdispose
      obtain ⟨rfl, he⟩ := path_done hdone
      cases he
      obtain ⟨ρ₁₁, d, ρ₁₂, hdisposing, hrest', rfl⟩ := path_bind htearing
      obtain ⟨torn, a', ρ₁₃, hteardown, hdisposed, rfl⟩ := path_bind hrest'
      obtain ⟨ρ₁₄, d', ρ₁₅, hlast, hdone', rfl⟩ := path_bind hdisposed
      obtain ⟨rfl, rfl⟩ := path_done hdone'
      obtain rfl := path_report hdisposing
      obtain rfl := path_report hlast
      obtain ⟨fs, htorn, hfs⟩ := Teardown.tornDown_of_path_run hteardown
      have hfs : _ = fs := hfs
      refine ⟨_, ρ₇ ++ acted (reported ⟨ids, .disposal .starting⟩ d), torn,
        acted (reported ⟨ids, .disposal .finished⟩ d'), [fixture.teardown], ?_,
        .built hskip hfailed hconstructor hrun b b', ?_, hfs ▸ htorn, .report rfl d'⟩
      · simp only [List.append_assoc, List.append_nil]
        rfl
      · exact (plain_of_runAround haround).append (.report rfl d)
    · obtain ⟨rfl, he⟩ := path_done hend
      cases he
      refine ⟨_, [], [], [], [], ?_, .failed hskip hfailed hconstructor hrun hfailure b b', .nil,
        .nil, .nil⟩
      rw [hvalue]
      simp only [List.append_assoc, List.append_nil]
      rfl

end Test

/-! ## Every task -/

namespace NodeTask

section Test

variable {caseIds : NodeIds} {scope : ClassScope ω} {inherited : Aggregator} {t : Test ω}
  {π acquired running torn after : List (PathStep ω)} {ts : List (Teardown ω)} {fs : List Failure}

theorem lives_of_acquires
    (hacquires : t.Acquires (caseIds.child .test t.id) scope inherited acquired ts)
    (hrunning : Plain running)
    (htorn : TornDown (caseIds.child .test t.id) (teardownOrder ts) torn fs) (hafter : Plain after)
    (cleanup : Option (ErrorRecord × Bool))
    (hcleanup : cleanup.map (·.1) = (⟨fs⟩ : Aggregator).toFailure?.map (·.record))
    (output : String) (b : Bool) :
    (NodeTask.test caseIds scope inherited t).Lives
      ((NodeTask.test caseIds scope inherited t).opening ++ (acquired ++ (running ++ (torn ++
        (after ++ (acted (Frame.cleanupSteps (caseIds.child .test t.id) .test cleanup) ++
          acted (reported ⟨caseIds.child .test t.id, .testFinished .zero output⟩ b))))))) :=
  .went hacquires (.of_plain hrunning) htorn hafter hcleanup rfl

theorem lives_of_verdict (h : t.Verdict (caseIds.child .test t.id) scope inherited π) :
    (NodeTask.test caseIds scope inherited t).Lives
      ((NodeTask.test caseIds scope inherited t).opening ++ π) := by
  cases h with
  | skipped hskip b b' =>
    exact lives_of_acquires (.skipped hskip) .nil .nil (.report rfl b) none rfl "" b'
  | failed hskip hfailed b b' =>
    exact lives_of_acquires (.inherited hskip hfailed) .nil .nil (.report rfl b) none rfl "" b'
  | @invoked ρ s a cleanup hskip hfailed hinvoke hcleanup b b' =>
    obtain ⟨acquired, running, torn, after, ts, rfl, hacquires, hrunning, htorn, hafter⟩ :=
      Test.exists_of_path_invoke hskip hfailed hinvoke
    have hresult : Plain (acted (reported ⟨caseIds.child .test t.id, s.result⟩ b) :
        List (PathStep ω)) := .report s.lifecycle?_result b
    have hlives := lives_of_acquires hacquires hrunning htorn (hafter.append hresult) cleanup
      hcleanup s.output b'
    simpa only [List.append_assoc] using hlives

end Test

/-- **What a task does.** -/
theorem lives_of_path {j : NodeTask ω} {π : List (PathStep ω)} {n : Counts}
    (h : j.process.Path π n) : j.Lives π := by
  cases j with
  | assembly r => exact lives_of_lifecycle rfl (fun _ _ _ => goesOn_assembly) h
  | collection setup assemblyIds l cases =>
    exact lives_of_lifecycle rfl (fun _ _ _ => goesOn_collection) h
  | testClass setup collectionIds fixtures inherited k cases =>
    exact lives_of_lifecycle rfl (fun _ _ _ => goesOn_testClass) h
  | method classIds scope inherited m cases =>
    exact lives_of_lifecycle rfl (fun _ _ _ => goesOn_method) h
  | testCase methodIds scope inherited c =>
    exact lives_of_lifecycle rfl (fun _ _ _ => goesOn_testCase) h
  | test caseIds scope inherited t =>
    rcases Test.exists_of_path h with ⟨b, rfl⟩ | ⟨ρ, rfl, hverdict⟩
    · exact .refused rfl
    · exact lives_of_verdict hverdict

/-- `root.Placed π j`: after the steps `π` of `root` the task `j` may be given to one of the nodes
below it, or to it itself. -/
inductive Placed (root : NodeTask ω) : List (PathStep ω) → NodeTask ω → Prop
  | root : Placed root [] root
  | child {π ρ : List (PathStep ω)} {j j' : NodeTask ω} (h : Placed root π j)
      (hj : j.Gives ρ j') : Placed root (π ++ ρ) j'

namespace Placed

variable {root j j' : NodeTask ω} {π ρ : List (PathStep ω)}

theorem of_gives (h : root.Gives π j) (h' : j.Placed ρ j') : root.Placed (π ++ ρ) j' := by
  induction h' with
  | root =>
    rw [List.append_nil]
    exact .child .root h
  | child _ hj ih =>
    rw [← List.append_assoc]
    exact .child ih hj

theorem level_le (h : root.Placed π j) : root.level.depth ≤ j.level.depth := by
  induction h with
  | root => exact Nat.le_refl _
  | child _ hj ih => exact Nat.le_trans ih (Nat.le_of_lt hj.level_lt)

end Placed

/-- A message of the life cycle of the node itself. -/
def Owns (j : NodeTask ω) (m : Message) : Prop :=
  m.ids = j.ids ∧ ∃ phase, m.event.lifecycle? = some (j.level, phase)

theorem hosts_cleanupSteps (j : NodeTask ω) (Q : List (PathStep ω) → NodeTask ω → Prop)
    (cleanup : Option (ErrorRecord × Bool)) :
    Hosts j.Owns Q (acted (Frame.cleanupSteps j.ids j.level cleanup)) := by
  cases cleanup with
  | none => exact .of_plain .nil
  | some c => exact .report ⟨rfl, _, rfl⟩ c.2

/-- The messages of life cycles that a task queues are its own and those of its children. -/
theorem Lives.hosts {j : NodeTask ω} {π : List (PathStep ω)} (h : j.Lives π) :
    Hosts j.Owns j.Gives π := by
  cases h with
  | refused hfinish => exact (Hosts.report ⟨rfl, _, rfl⟩ _).append (.report ⟨rfl, _, hfinish⟩ _)
  | went hacquires hrunning htorn hafter _ hfinish =>
    refine (Hosts.report ⟨rfl, _, rfl⟩ _).append ?_
    refine (Hosts.of_plain (plain_of_acquires hacquires)).append ?_
    refine Hosts.append (hrunning.mono fun _ => False.elim) ?_
    refine (Hosts.of_plain htorn.plain).append ?_
    refine (Hosts.of_plain hafter).append ?_
    exact (j.hosts_cleanupSteps _ _).append (.report ⟨rfl, _, hfinish⟩ _)

/-- **Every message of a life cycle is one of a task of the run**, the one with its IDs and its
level. -/
theorem standsIn_of_path {root : NodeTask ω} {π x y : List (PathStep ω)} {n : Counts} {m : Message}
    {b : Bool} {l : Level} {phase : Phase} (h : root.process.Path π n)
    (hx : π = x ++ .act (.queued m b) :: y) (hm : m.event.lifecycle? = some (l, phase)) :
    StandsIn (fun σ j => root.Placed σ j ∧ j.ids = m.ids ∧ j.level = l) x (.act (.queued m b))
      y := by
  -- on how far the node is from the lowest level; a child is nearer to it
  induction hdepth : 5 - root.level.depth using Nat.strongRecOn
    generalizing root π x y n with
  | ind d ih =>
    have hsome : m.event.lifecycle? ≠ none := by
      rw [hm]
      exact Option.some_ne_none _
    rcases (lives_of_path h).hosts x m b y hx hsome with ⟨hids, phase', hown⟩ | hchild
    · have hlevel : root.level = l := by
        rw [hm] at hown
        cases hown
        rfl
      subst hx
      exact ⟨[], x, y, [], root, n, rfl, (List.append_nil y).symm, ⟨.root, hids.symm, hlevel⟩, h⟩
    · obtain ⟨before, x', y', after, j, k, rfl, rfl, hgives, hpath⟩ := hchild
      have hlt := hgives.level_lt
      have hle : j.level.depth ≤ 5 := by cases j.level <;> decide
      have hin := ih (5 - j.level.depth) (by omega) hpath rfl rfl
      have hext := StandsIn.extend
        (Q := fun σ j => root.Placed σ j ∧ j.ids = m.ids ∧ j.level = l) (π := before)
        (hin.mono fun σ j' hj' => ⟨.of_gives hgives hj'.1, hj'.2⟩) after
      exact hext

end NodeTask

end TestEngine
