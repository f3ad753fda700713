import TestEngine.Run.Assembly
import TestEngine.Run.Thread

/-!
# Running collections side by side

The calling thread reports the start of the assembly and finds its collections; workers run the
collections, as many at a time as the limit admits; and when all of them have ended, the calling
thread reports the end. Collections are taken in order by workers that are free, and one that is
taken after the run was cancelled does not start.

An interleaving is a list of turns, as on a single thread. The counts of the collections are added
up in the order in which these end.
-/

namespace TestEngine

variable {σ ω : Type}

namespace AssemblyRun

/-- The beginning of a parallel run: the runs of the collections, or nothing if the run is to stop
when the assembly starts. -/
def opening (r : AssemblyRun ω) : Process ω (Option (List (Process ω Counts))) := do
  if ← Process.report r.ids (.starting r.start) then some <$> r.collectionRuns else pure none

/-- The end of a run. -/
def closing (r : AssemblyRun ω) (counts : Counts) : Process ω Counts := do
  let _ ← Process.report r.ids (.finished .assembly (.ofCounts counts))
  pure counts

end AssemblyRun

/-- What a worker does with a collection that it has taken. -/
def unlessCancelled (p : Process ω Counts) : Process ω Counts := do
  if ← Process.isCancelled then pure 0 else p

/-- Where a parallel run stands. -/
inductive ParallelStage (ω : Type) where
  /-- The calling thread opens the run. -/
  | opening (thread : Thread ω (Option (List (Process ω Counts))))
  /-- Collections wait for a worker, and others run. `sum` has the counts of those that have
  ended. -/
  | inside (waiting : List (Process ω Counts)) (running : List (Thread ω Counts)) (sum : Counts)
  /-- The calling thread ends the run. -/
  | closing (thread : Thread ω Counts)

/-- Who makes the next step. -/
inductive ParallelTurn where
  /-- The calling thread. -/
  | caller
  /-- A free worker takes the next collection. -/
  | take
  /-- The worker of the collection that is at this place among those that run. -/
  | worker (place : Nat)
  | dispatcher
  deriving DecidableEq, Repr

/-- A run of an assembly whose collections run side by side. -/
structure ParallelRun (σ ω : Type) where
  stage : ParallelStage ω
  shared : Shared σ ω

namespace ParallelRun

/-- The run of an assembly at its beginning. -/
def start (r : AssemblyRun ω) (sink : σ) (world : ω) : ParallelRun σ ω :=
  ⟨.opening (.ready r.opening), .start sink world⟩

/-- The calling thread makes a step, or goes on to the next stage. -/
def stepCaller (r : AssemblyRun ω) (c : Transport σ) (run : ParallelRun σ ω) : ParallelRun σ ω :=
  match run.stage with
  | .opening thread =>
    match thread.value?, thread.step? c run.shared with
    | some (some runs), _ => { run with stage := .inside runs [] 0 }
    | some none, _ => { run with stage := .closing (.ready (r.closing 0)) }
    | none, some (thread, shared) => ⟨.opening thread, shared⟩
    | none, none => run
  | .inside [] [] sum => { run with stage := .closing (.ready (r.closing sum)) }
  | .inside .. => run
  | .closing thread =>
    match thread.step? c run.shared with
    | some (thread, shared) => ⟨.closing thread, shared⟩
    | none => run

/-- A free worker takes the next collection. -/
def stepTake (limit : ConcurrencyLimit) (run : ParallelRun σ ω) : ParallelRun σ ω :=
  match run.stage with
  | .inside (p :: waiting) running sum =>
    if limit.admits running.length then
      { run with stage := .inside waiting (running ++ [.ready (unlessCancelled p)]) sum }
    else run
  | _ => run

/-- The worker of a collection makes a step, or is free again. -/
def stepWorker (c : Transport σ) (place : Nat) (run : ParallelRun σ ω) : ParallelRun σ ω :=
  match run.stage with
  | .inside waiting running sum =>
    match running[place]? with
    | none => run
    | some thread =>
      match thread.value?, thread.step? c run.shared with
      | some counts, _ =>
        { run with stage := .inside waiting (running.eraseIdx place) (sum + counts) }
      | none, some (thread, shared) => ⟨.inside waiting (running.set place thread) sum, shared⟩
      | none, none => run
  | _ => run

/-- One turn; one that cannot be taken changes nothing. -/
def turn (r : AssemblyRun ω) (c : Transport σ) (limit : ConcurrencyLimit) (run : ParallelRun σ ω) :
    ParallelTurn → ParallelRun σ ω
  | .caller => run.stepCaller r c
  | .take => run.stepTake limit
  | .worker place => run.stepWorker c place
  | .dispatcher => { run with shared := run.shared.dispatch c }

/-- What comes of an interleaving. -/
def after (r : AssemblyRun ω) (c : Transport σ) (limit : ConcurrencyLimit)
    (turns : List ParallelTurn) (run : ParallelRun σ ω) : ParallelRun σ ω :=
  turns.foldl (turn r c limit) run

/-- The counts of a run that is over. -/
def counts? (run : ParallelRun σ ω) : Option Counts :=
  match run.stage with
  | .closing thread => if run.shared.isDrained then thread.value? else none
  | _ => none

end ParallelRun

namespace AssemblyRun

/-- A run whose collections run in turn has the same beginning and the same end. -/
theorem inTurn_eq (r : AssemblyRun ω) :
    r.inTurn = (do
      match ← r.opening with
      | some runs => r.closing (← Process.untilCancelled runs 0)
      | none => r.closing 0) := by
  unfold inTurn lifecycle opening closing
  rw [bind_assoc]
  congr 1
  funext goesOn
  cases goesOn
  · simp
  · simp [reportCleanup, Aggregator.toFailure?]

end AssemblyRun

end TestEngine
