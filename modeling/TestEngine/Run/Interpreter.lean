import TestEngine.Bus.Asynchronous
import TestEngine.Bus.Synchronous
import TestEngine.Program.Process

/-!
# Running a process

A process runs on a bus, with a flag that cancels the run and a world for user code. Everything that
happens is recorded in order: which messages were queued and how that was answered, which messages
the sink was handed, and the entries of the journal.
-/

namespace TestEngine

variable {σ ω α : Type}

/-- Something that happened during a run. -/
inductive Occurrence where
  /-- The sink was handed a message. -/
  | handed (call : Call)
  /-- A message was queued. -/
  | queued (message : Message) (goesOn : Bool)
  /-- An entry of the journal. -/
  | activity (entry : Activity)
  deriving DecidableEq

/-- The state of a run: the delivering side of the bus, whether the run is cancelled, the world of
user code, and what has happened. -/
structure RunState (σ ω : Type) where
  delivery : Delivery σ
  cancelled : Bool := false
  world : ω
  history : List Occurrence := []

namespace RunState

/-- Adds to what has happened. -/
def record (st : RunState σ ω) (os : List Occurrence) : RunState σ ω :=
  { st with history := st.history ++ os }

/-- Queues a message on a synchronous bus. -/
def queue (sink : Sink σ) (stopOnFail : Bool) (m : Message) (st : RunState σ ω) :
    RunState σ ω × Bool :=
  let r := st.delivery.deliver sink stopOnFail m
  let goesOn := !r.1.stopped
  ({ st with delivery := r.1 }.record (r.2.map Occurrence.handed ++ [Occurrence.queued m goesOn]),
    goesOn)

/-- The calls of the sink. -/
def calls (st : RunState σ ω) : List Call :=
  st.history.filterMap fun
    | .handed c => some c
    | _ => none

/-- The messages that were queued. -/
def queued (st : RunState σ ω) : List Message :=
  st.history.filterMap fun
    | .queued m _ => some m
    | _ => none

end RunState

namespace Process

/-- Runs a process on a synchronous bus. -/
def runOn (sink : Sink σ) (stopOnFail : Bool) :
    Process ω α → RunState σ ω → RunState σ ω × α
  | done a, st => (st, a)
  | queue m next, st =>
    let r := st.queue sink stopOnFail m
    runOn sink stopOnFail (next r.2) r.1
  | cancel next, st => runOn sink stopOnFail next { st with cancelled := true }
  | askCancelled next, st => runOn sink stopOnFail (next st.cancelled) st
  | world change next, st =>
    runOn sink stopOnFail (next st.world) { st with world := change st.world }
  | journal entry next, st => runOn sink stopOnFail next (st.record [.activity entry])

/-- Running a sequence is running its parts in order. -/
theorem runOn_bind {β : Type} (sink : Sink σ) (stopOnFail : Bool) (p : Process ω α)
    (f : α → Process ω β) (st : RunState σ ω) :
    (bind f p).runOn sink stopOnFail st =
      (f (p.runOn sink stopOnFail st).2).runOn sink stopOnFail (p.runOn sink stopOnFail st).1 := by
  induction p generalizing st with
  | done a => rfl
  | queue m next ih => simp only [bind, runOn, ih]
  | cancel next ih => simp only [bind, runOn, ih]
  | askCancelled next ih => simp only [bind, runOn, ih]
  | world change next ih => simp only [bind, runOn, ih]
  | journal entry next ih => simp only [bind, runOn, ih]

end Process

end TestEngine
