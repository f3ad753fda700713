import TestEngine.Proofs.Run.Lives

/-!
# Reports of failures to tear down

A node reports what failed when it was torn down, and nothing else: the report has the failures of
the parts of its own teardowns, in the order in which the parts ran, and there is none if none of
them failed. Failures of fixtures, hooks and bodies are no part of it.

* `NodeTask.cleansUp_of_path` — what a node reports.
* `SerialRun.cleansUp` — this holds of every node of a run.
-/

namespace TestEngine

open Process

variable {ω : Type}

/-- The reports of failures to tear down a node of a level, among some steps. -/
def cleanupReports (level : Level) (π : List (PathStep ω)) : List Message :=
  (messages (visible (acts π))).filter fun m =>
    m.event.lifecycle? = some (level, .cleanupFailure)

/-- The report of failures to tear a node down, if there are any. -/
def cleanupReport (ids : NodeIds) (level : Level) (fs : List Failure) : List Message :=
  if fs.isEmpty then [] else [⟨ids, .cleanupFailure level (Failure.combine fs).record⟩]

section Reports

variable {level : Level} {π ρ : List (PathStep ω)}

theorem cleanupReports_append :
    cleanupReports level (π ++ ρ) = cleanupReports level π ++ cleanupReports level ρ := by
  unfold cleanupReports
  rw [acts_append, visible_append, messages_append, List.filter_append]

/-- Where a report stands. -/
theorem exists_of_mem_cleanupReports {m : Message} (h : m ∈ cleanupReports level π) :
    m.event.lifecycle? = some (level, .cleanupFailure) ∧
      ∃ x b y, π = x ++ .act (.queued m b) :: y := by
  obtain ⟨hm, hlifecycle⟩ := List.mem_filter.mp h
  refine ⟨of_decide_eq_true hlifecycle, ?_⟩
  obtain ⟨o, ho, heq⟩ := List.mem_filterMap.mp hm
  obtain ⟨a, ha, hshown⟩ := List.mem_filterMap.mp ho
  obtain ⟨s, hs, hact⟩ := List.mem_filterMap.mp ha
  cases s with
  | world before after => cases hact
  | act a' =>
    obtain rfl : a' = a := Option.some.inj hact
    cases a' with
    | cancelled | asked => cases hshown
    | activity entry =>
      cases hshown
      cases heq
    | queued m' b =>
      cases hshown
      cases heq
      obtain ⟨x, y, hxy⟩ := List.append_of_mem hs
      exact ⟨x, b, y, hxy⟩

theorem cleanupReports_eq_nil_of_plain (h : Plain π) : cleanupReports level π = [] := by
  rw [List.eq_nil_iff_forall_not_mem]
  intro m hm
  obtain ⟨hlifecycle, x, b, y, rfl⟩ := exists_of_mem_cleanupReports hm
  rw [h m b (List.mem_append_right _ List.mem_cons_self)] at hlifecycle
  cases hlifecycle

/-- The reports among the steps of the children of a node are about nodes below it. -/
theorem cleanupReports_eq_nil_of_hosts {j : NodeTask ω}
    {shift : List (PathStep ω) → List (PathStep ω)}
    (h : Hosts (fun _ => False) (fun σ => j.Gives (shift σ)) π) :
    cleanupReports j.level π = [] := by
  rw [List.eq_nil_iff_forall_not_mem]
  intro m hm
  obtain ⟨hlifecycle, x, b, y, hx⟩ := exists_of_mem_cleanupReports hm
  have hsome : m.event.lifecycle? ≠ none := by
    rw [hlifecycle]
    exact Option.some_ne_none _
  obtain hfalse | ⟨before', x', y', after, j', n, -, -, hgives, hpath⟩ := h x m b y hx hsome
  · exact hfalse
  obtain ⟨_, _, _, _, j'', _, -, -, ⟨hplaced, -, hlevel⟩, -⟩ :=
    NodeTask.standsIn_of_path hpath rfl hlifecycle
  have hlt := Nat.lt_of_lt_of_le hgives.level_lt hplaced.level_le
  rw [hlevel] at hlt
  exact Nat.lt_irrefl _ hlt

theorem cleanupReports_reported (m : Message) (b : Bool) :
    cleanupReports level (acted (reported m b) : List (PathStep ω)) =
      if m.event.lifecycle? = some (level, .cleanupFailure) then [m] else [] := by
  unfold cleanupReports
  rw [acts_acted, visible_reported]
  by_cases h : m.event.lifecycle? = some (level, .cleanupFailure) <;>
    simp [messages, h]

theorem cleanupReports_cleanupSteps {ids : NodeIds} {cleanup : Option (ErrorRecord × Bool)}
    {fs : List Failure}
    (h : cleanup.map (·.1) = (⟨fs⟩ : Aggregator).toFailure?.map (·.record)) :
    cleanupReports level (acted (Frame.cleanupSteps ids level cleanup) : List (PathStep ω)) =
      cleanupReport ids level fs := by
  unfold cleanupReport
  unfold Aggregator.toFailure? at h
  cases fs with
  | nil =>
    cases cleanup with
    | none => rfl
    | some c => cases h
  | cons f fs =>
    cases cleanup with
    | none => cases h
    | some c =>
      have herror : c.1 = (Failure.combine (f :: fs)).record := by injection h
      show cleanupReports level (acted (reported ⟨ids, .cleanupFailure level c.1⟩ c.2)) = _
      rw [cleanupReports_reported, herror]
      exact if_pos rfl

end Reports

namespace NodeTask

/-- A node reports exactly what failed when it was torn down. It is torn down if it started, after
it acquired things and its children ran; `fs` are the failures of the parts of its teardowns, in the
order in which the parts ran. -/
inductive CleansUp (j : NodeTask ω) : List (PathStep ω) → Prop
  | refused {finish : Event} {b : Bool}
      (hreports : cleanupReports j.level
        (acted (reported ⟨j.ids, .starting j.start⟩ false) ++
          acted (reported ⟨j.ids, finish⟩ b) : List (PathStep ω)) = []) :
      CleansUp j (acted (reported ⟨j.ids, .starting j.start⟩ false) ++
        acted (reported ⟨j.ids, finish⟩ b))
  | went {acquired running torn ending : List (PathStep ω)} {ts : List (Teardown ω)}
      {fs : List Failure} (hacquires : j.Acquires acquired ts)
      (htorn : TornDown j.ids (teardownOrder ts) torn fs)
      (hreports : cleanupReports j.level
        (j.opening ++ (acquired ++ (running ++ (torn ++ ending)))) =
          cleanupReport j.ids j.level fs) :
      CleansUp j (j.opening ++ (acquired ++ (running ++ (torn ++ ending))))

/-- **A node reports what failed when it was torn down, and nothing else.** -/
theorem cleansUp_of_path {j : NodeTask ω} {π : List (PathStep ω)} {n : Counts}
    (h : j.process.Path π n) : j.CleansUp π := by
  have hstart : ∀ b, cleanupReports j.level
      (acted (reported ⟨j.ids, .starting j.start⟩ b) : List (PathStep ω)) = [] := by
    intro b
    rw [cleanupReports_reported]
    exact if_neg (by simp [Event.lifecycle?])
  have hfinish : ∀ {finish : Event} (b : Bool), finish.lifecycle? = some (j.level, .finished) →
      cleanupReports j.level (acted (reported ⟨j.ids, finish⟩ b) : List (PathStep ω)) = [] := by
    intro finish b hf
    rw [cleanupReports_reported]
    exact if_neg (by simp [hf])
  cases lives_of_path h with
  | refused hf =>
    refine .refused ?_
    rw [cleanupReports_append, hstart, hfinish _ hf, List.nil_append]
  | @went acquired running torn after ts fs cleanup finish b hacquires hrunning htorn hafter
      hcleanup hf =>
    refine .went hacquires htorn ?_
    -- only the report at the end of the node is about the node itself
    simp only [opening, cleanupReports_append, hstart, hfinish b hf,
      cleanupReports_eq_nil_of_plain (plain_of_acquires hacquires),
      cleanupReports_eq_nil_of_hosts hrunning, cleanupReports_eq_nil_of_plain htorn.plain,
      cleanupReports_eq_nil_of_plain hafter, cleanupReports_cleanupSteps hcleanup,
      List.nil_append, List.append_nil]

end NodeTask

/-- Every node of a run of an assembly reports what failed when it was torn down: each message of a
life cycle is one of a node with its IDs, at its level, that does so. -/
def NodesCleanUp (r : AssemblyRun ω) (π : List (PathStep ω)) : Prop :=
  ∀ x m b y l phase, π = x ++ .act (.queued m b) :: y → m.event.lifecycle? = some (l, phase) →
    ∃ before x' y' after j, x = before ++ x' ∧ y = y' ++ after ∧
      (NodeTask.assembly r).Placed before j ∧ j.ids = m.ids ∧ j.level = l ∧
      j.CleansUp (x' ++ .act (.queued m b) :: y')

theorem nodesCleanUp_of_path {r : AssemblyRun ω} {π : List (PathStep ω)} {n : Counts}
    (h : r.inTurn.Path π n) : NodesCleanUp r π := by
  intro x m b y l phase hx hm
  obtain ⟨before, x', y', after, j, k, hx', hy', ⟨hplaced, hids, hlevel⟩, hpath⟩ :=
    NodeTask.standsIn_of_path (show (NodeTask.assembly r).process.Path π n from h) hx hm
  exact ⟨before, x', y', after, j, hx', hy', hplaced, hids, hlevel,
    NodeTask.cleansUp_of_path hpath⟩

namespace SerialRun

variable {σ : Type} {r : AssemblyRun ω} {c : Transport σ} (e : SerialRun r c)

/-- Every node of the run reports what failed when it was torn down, and nothing else. -/
def CleansUp : Prop := ∃ π, e.Takes π ∧ NodesCleanUp r π

theorem cleansUp : e.CleansUp := by
  obtain ⟨π, hπ⟩ := e.exists_takes
  exact ⟨π, hπ, nodesCleanUp_of_path hπ.path⟩

end SerialRun

end TestEngine
