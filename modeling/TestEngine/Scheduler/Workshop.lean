import TestEngine.Keyed
import TestEngine.Scheduler.Basic

/-!
# A scheduler at work

Any number of threads post units of work to one scheduler, some of them from inside units that run,
while its workers take what waits and somebody shuts it down. A limit of `n` has `n` workers, which
take what waits from the front; without a limit every unit has a worker of its own, which has its
number and may be as late as it likes. A worker can always be had.

An interleaving is a list of *turns*, each of which says who makes the next step. A turn that cannot
be taken changes nothing, so that every list of turns is an interleaving. What has happened is kept
in order, as a list of events; `Workshop.scheduler` forgets who did it.
-/

namespace TestEngine

/-- Whoever can run a unit of work. -/
inductive Runner where
  /-- A thread that is none of the scheduler. -/
  | outside (n : Nat)
  | worker (n : Nat)
  deriving DecidableEq, Repr

namespace Runner

def place : Runner → Place
  | outside _ => .caller
  | worker _ => .worker

end Runner

/-- The unit that this one posts next, if that is its next step. -/
def Work.child? : Work → Option Work
  | post child _ => some child
  | _ => none

/-- Goes on if the unit that is run waits at the gate. -/
def WorkThread.release (t : WorkThread) : WorkThread :=
  match t.job.work with
  | .wait next => t.goOn (next true)
  | _ => t

/-- Something that happened to a scheduler. -/
inductive WorkshopEvent where
  /-- Something happened to a unit of work, by a runner. `during` is the unit that the runner ran,
  if it was one that did it. -/
  | work (runner : Runner) (during : Option Nat) (event : JobEvent)
  /-- A shutdown closed the scheduler. -/
  | closed
  /-- That shutdown returned. -/
  | shutDown
  /-- Another shutdown returned, with an error. -/
  | refused (error : Cause)

/-- What happened to a unit of work. -/
def WorkshopEvent.job? : WorkshopEvent → Option JobEvent
  | work _ _ event => some event
  | _ => none

/-- Who makes the next step. -/
inductive WorkshopTurn where
  /-- A thread from outside that runs no unit posts one. -/
  | post (poster : Nat) (work : Work)
  /-- A worker takes a unit that waits. -/
  | take (worker : Nat)
  /-- A runner makes a step of the unit that it runs. -/
  | advance (runner : Runner)
  /-- Those go on who wait at the gate now. -/
  | release
  | openGate
  /-- A shutdown begins. -/
  | shutdown
  /-- The shutdown that closed the scheduler ends. -/
  | endShutdown

/-- A scheduler with the threads that run its units. -/
structure Workshop where
  limit : ConcurrencyLimit
  queue : List Job := []
  /-- Who runs what. -/
  crew : List (Runner × WorkThread) := []
  /-- The units that were posted. The number of a unit is its place. -/
  posted : List Work := []
  closed : Bool := false
  /-- The shutdown that closed the scheduler has not yet returned. -/
  closing : Bool := false
  gateOpen : Bool := false
  history : List WorkshopEvent := []

namespace Workshop

/-- Nothing was posted yet. -/
def start (limit : ConcurrencyLimit) : Workshop := { limit }

/-- The scheduler, without the names of its threads. -/
def scheduler (w : Workshop) : Scheduler where
  limit := w.limit
  queue := w.queue
  threads := w.crew.map (·.2)
  closed := w.closed
  gateOpen := w.gateOpen
  tickets := w.posted.length
  history := w.history.filterMap (·.job?)

/-- Adds to what has happened. -/
def record (w : Workshop) (e : WorkshopEvent) : Workshop := { w with history := w.history ++ [e] }

/-! ## Turns -/

/-- A thread from outside posts a unit. It waits for a worker or, after the scheduler was closed,
runs at once on the thread that posts it. -/
def post (poster : Nat) (work : Work) (w : Workshop) : Workshop :=
  let runner := Runner.outside poster
  if (w.crew.lookup runner).isSome then w
  else
    let job : Job := ⟨w.posted.length, work⟩
    if w.closed then
      { w with
        crew := Keyed.put runner { place := runner.place, job } w.crew
        posted := w.posted ++ [work]
        history := w.history ++ [.work runner none (.posted job.ticket false),
          .work runner none (.started job.ticket runner.place)] }
    else
      { w with
        queue := w.queue ++ [job]
        posted := w.posted ++ [work]
        history := w.history ++ [.work runner none (.posted job.ticket true)] }

/-- The unit that a free worker takes: what waits at the front, or the one that it is there for. -/
def next? (worker : Nat) (w : Workshop) : Option Job :=
  match w.limit with
  | .atMost n => if worker < n then w.queue.head? else none
  | .unlimited => w.queue.find? (·.ticket = worker)

/-- A free worker takes a unit. -/
def take (worker : Nat) (w : Workshop) : Workshop :=
  let runner := Runner.worker worker
  if (w.crew.lookup runner).isSome then w
  else
    match w.next? worker with
    | none => w
    | some job =>
      { w with
        queue := w.queue.eraseP (·.ticket = job.ticket)
        crew := Keyed.put runner { place := runner.place, job } w.crew
        history := w.history ++ [.work runner none (.started job.ticket runner.place)] }

/-- The crew after a runner has made a step. -/
def reassign (runner : Runner) (crew : List (Runner × WorkThread)) :
    Option WorkThread → List (Runner × WorkThread)
  | some t => Keyed.put runner t crew
  | none => Keyed.remove runner crew

/-- A runner makes a step, if it does not wait at the gate. -/
def advance (runner : Runner) (w : Workshop) : Workshop :=
  match w.crew.lookup runner with
  | none => w
  | some t =>
    match t.step? w.closed w.gateOpen w.posted.length with
    | none => w
    | some e =>
      { w with
        queue := w.queue ++ e.queued
        crew := reassign runner w.crew e.thread
        posted := w.posted ++ t.job.work.child?.toList
        history := w.history ++ e.events.map (.work runner (some t.job.ticket)) }

def release (w : Workshop) : Workshop :=
  { w with crew := w.crew.map fun (runner, t) => (runner, t.release) }

def openGate (w : Workshop) : Workshop := { w.release with gateOpen := true }

/-- A shutdown begins. It closes the scheduler, unless that is closed. -/
def shutdown (w : Workshop) : Workshop :=
  match w.scheduler.shutdown with
  | .error e => w.record (.refused e)
  | .ok s => { w with closed := s.closed, closing := true }.record .closed

/-- No worker runs a unit. -/
def isIdle (w : Workshop) : Bool := w.crew.all fun (runner, _) => runner.place ≠ .worker

/-- The shutdown ends once nothing waits and the workers have come to an end. -/
def endShutdown (w : Workshop) : Workshop :=
  if w.closing && w.queue.isEmpty && w.isIdle then
    { w with closing := false }.record .shutDown
  else w

/-- One turn. -/
def turn (w : Workshop) : WorkshopTurn → Workshop
  | .post poster work => w.post poster work
  | .take worker => w.take worker
  | .advance runner => w.advance runner
  | .release => w.release
  | .openGate => w.openGate
  | .shutdown => w.shutdown
  | .endShutdown => w.endShutdown

/-- What comes of an interleaving. -/
def after (turns : List WorkshopTurn) (w : Workshop) : Workshop := turns.foldl turn w

theorem after_append (turns more : List WorkshopTurn) (w : Workshop) :
    w.after (turns ++ more) = (w.after turns).after more :=
  List.foldl_append

end Workshop

end TestEngine
