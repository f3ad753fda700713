import TestEngine.Bus.Asynchronous
import TestEngine.Run.Interpreter
import TestEngine.Settings.Options

/-!
# Threads

A process that runs while others do, or while messages are still being delivered, runs step by step.
A `Thread` is what is left of a process, and how far it is in the call of the bus that it is in.
What the threads of a run share is in `Shared`: the bus, the cancellation, the world of user code.

On a synchronous bus a message is delivered in the step that queues it. On an asynchronous one a
dispatcher delivers it some time after it was sent.

A run on one thread is an interleaving of the steps of that thread with those of the dispatcher.
-/

namespace TestEngine

variable {σ ω α : Type}

/-- How messages get to the sink. -/
structure Transport (σ : Type) where
  kind : BusKind
  sink : Sink σ
  stopOnFail : Bool

/-- A process that runs, or the call of the bus that it is in. -/
inductive Thread (ω α : Type) where
  | ready (p : Process ω α)
  /-- The message was noted, but is not in the channel yet. -/
  | noted (message : Message) (next : Bool → Process ω α)
  /-- The message went into the channel after `ticket` others. -/
  | sent (message : Message) (ticket : Nat) (next : Bool → Process ω α)

/-- The value of a thread that has ended. -/
def Thread.value? : Thread ω α → Option α
  | .ready (.done a) => some a
  | _ => none

/-- What the threads of a run share, and what has happened. -/
structure Shared (σ ω : Type) where
  bus : AsynchronousBus σ
  cancelled : Bool := false
  world : ω
  history : List Occurrence := []

namespace Shared

/-- At the beginning of a run. -/
def start (sink : σ) (world : ω) : Shared σ ω := { bus := .new sink, world }

/-- Adds to what has happened. -/
def record (s : Shared σ ω) (os : List Occurrence) : Shared σ ω :=
  { s with history := s.history ++ os }

/-- Delivers the next message in the channel, if there is one. -/
def dispatch (c : Transport σ) (s : Shared σ ω) : Shared σ ω :=
  match s.bus.channel with
  | [] => s
  | m :: _ =>
    let calls := (s.bus.delivery.deliver c.sink c.stopOnFail m).2
    { s with bus := s.bus.dispatch c.sink c.stopOnFail }.record (calls.map .handed)

/-- Answers the call that queued a message. -/
def answer (m : Message) (s : Shared σ ω) : Shared σ ω := s.record [.queued m s.bus.goesOn]

/-- The calls of the sink so far. -/
def calls (s : Shared σ ω) : List Call :=
  s.history.filterMap fun
    | .handed c => some c
    | _ => none

/-- The messages that the sink was handed. -/
def delivered (s : Shared σ ω) : List Message := s.calls.map (·.message)

/-- Everything that was sent is delivered. -/
def isDrained (s : Shared σ ω) : Bool := s.bus.channel.isEmpty

end Shared

namespace Thread

/-- One step of a thread, unless it has ended or waits for the dispatcher. -/
def step? (c : Transport σ) : Thread ω α → Shared σ ω → Option (Thread ω α × Shared σ ω)
  | .ready (.done _), _ => none
  | .ready (.queue m next), s =>
    match c.kind with
    | .synchronous =>
      let s := { s with bus := s.bus.push m }.dispatch c
      some (.ready (next s.bus.goesOn), s.answer m)
    | .asynchronous => some (.noted m next, { s with bus := s.bus.note c.stopOnFail m })
  | .ready (.cancel next), s => some (.ready next, { s with cancelled := true })
  | .ready (.askCancelled next), s => some (.ready (next s.cancelled), s)
  | .ready (.world change next), s =>
    some (.ready (next s.world), { s with world := change s.world })
  | .ready (.journal entry next), s => some (.ready next, s.record [.activity entry])
  | .noted m next, s =>
    some (.sent m s.bus.sent next, { s with bus := s.bus.push m })
  | .sent m ticket next, s =>
    if s.bus.answers m ticket then some (.ready (next s.bus.goesOn), s.answer m) else none

end Thread

/-! ## Runs on one thread -/

/-- Who makes the next step. -/
inductive SoloTurn where
  | thread
  | dispatcher
  deriving DecidableEq, Repr

/-- A run on one thread. -/
structure SoloRun (σ ω α : Type) where
  thread : Thread ω α
  shared : Shared σ ω

namespace SoloRun

/-- A process at its beginning. -/
def start (p : Process ω α) (sink : σ) (world : ω) : SoloRun σ ω α := ⟨.ready p, .start sink world⟩

/-- One turn; one that cannot be taken changes nothing. -/
def turn (c : Transport σ) (r : SoloRun σ ω α) : SoloTurn → SoloRun σ ω α
  | .thread =>
    match r.thread.step? c r.shared with
    | some (thread, shared) => ⟨thread, shared⟩
    | none => r
  | .dispatcher => { r with shared := r.shared.dispatch c }

/-- What comes of an interleaving. -/
def after (c : Transport σ) (turns : List SoloTurn) (r : SoloRun σ ω α) : SoloRun σ ω α :=
  turns.foldl (turn c) r

/-- The value of a run that is over: the thread has ended and everything is delivered. -/
def value? (r : SoloRun σ ω α) : Option α := if r.shared.isDrained then r.thread.value? else none

end SoloRun

end TestEngine
