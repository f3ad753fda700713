import TestEngine.Settings.ThreadLimit

/-!
# The scheduler

A scheduler runs units of work on workers, as many at a time as its limit admits, and starts them in
the order in which they were posted. Once it is shut down it takes no more work: a unit that is
posted then runs at once, on the thread that posts it. A unit of work that panics has finished.

The state of a scheduler changes by single steps: a worker *starts* the oldest unit that waits, or a
thread makes the next step of the unit it runs. `settle` makes steps as long as there is one to be
made; which one comes first is the scheduler's choice.

* `size_start?`, `size_advanceFirst` — every step makes the work that is left smaller, so settling
  ends.
-/

namespace TestEngine

/-! ## Work -/

/-- The sizes of the items of a list, added up. -/
def sumOf {α : Type} (size : α → Nat) : List α → Nat
  | [] => 0
  | x :: rest => size x + sumOf size rest

theorem sumOf_append {α : Type} (size : α → Nat) (xs ys : List α) :
    sumOf size (xs ++ ys) = sumOf size xs + sumOf size ys := by
  induction xs with
  | nil => simp [sumOf]
  | cons x rest ih =>
    rw [List.cons_append, sumOf, sumOf, ih]
    omega

/-- Where work runs: on the thread that posted it, or on a worker. -/
inductive Place where
  | caller
  | worker
  deriving DecidableEq, Repr

/-- A unit of work, as the steps that it makes. -/
inductive Work where
  | done
  | panic
  /-- Leaves an entry in the log, which may tell where the work runs. -/
  | log (entry : Place → String) (next : Work)
  /-- Posts another unit of work. -/
  | post (child : Work) (next : Work)
  /-- Waits at the gate, unless it is open. What follows is told whether there was a wait. -/
  | wait (next : Bool → Work)

namespace Work

/-- A bound on the steps that a unit of work makes, together with those of the work that it
posts. -/
def size : Work → Nat
  | done => 1
  | panic => 1
  | log _ next => next.size + 1
  | post child next => child.size + next.size + 2
  | wait next => (next true).size + (next false).size + 1

end Work

/-- A unit of work with the number that it was given when it was posted. -/
structure Job where
  ticket : Nat
  work : Work

/-- What happens in a scheduler. -/
inductive JobEvent where
  /-- A unit was posted, and waits for a worker or runs at once. -/
  | posted (ticket : Nat) (queued : Bool)
  | started (ticket : Nat) (place : Place)
  | logged (text : String)
  | finished (ticket : Nat)
  deriving DecidableEq, Repr

/-! ## Threads -/

/-- A thread: the unit that it runs, and those that posted it and go on when it has finished. -/
structure WorkThread where
  place : Place
  job : Job
  callers : List Job := []

namespace WorkThread

/-- A bound on the steps that a thread makes. -/
def size (t : WorkThread) : Nat := t.job.work.size + sumOf (·.work.size) t.callers

/-- The thread waits at the gate. -/
def isWaiting (t : WorkThread) : Bool :=
  match t.job.work with
  | .wait _ => true
  | _ => false

/-- Goes on with the unit that is run. -/
def goOn (t : WorkThread) (next : Work) : WorkThread :=
  { t with job := { t.job with work := next } }

/-- Goes back to the unit that posted the one that is run, if there is one. -/
def return? (t : WorkThread) : Option WorkThread :=
  match t.callers with
  | [] => none
  | job :: callers => some { t with job, callers }

/-- What a step of a thread does: the thread afterwards, the work that it posts to the queue, and
what happens. -/
structure Effect where
  thread : Option WorkThread
  queued : List Job := []
  events : List JobEvent := []

/-- One step of a thread; there is none while it waits. `ticket` is the next number to be given. -/
def step? (closed gateOpen : Bool) (ticket : Nat) (t : WorkThread) : Option Effect :=
  match t.job.work with
  | .done | .panic => some { thread := t.return?, events := [.finished t.job.ticket] }
  | .log entry next => some { thread := some (t.goOn next), events := [.logged (entry t.place)] }
  | .post child next =>
    let job : Job := ⟨ticket, child⟩
    if closed then
      some {
        thread := some { t with job, callers := { t.job with work := next } :: t.callers }
        events := [.posted ticket false, .started ticket t.place] }
    else
      some { thread := some (t.goOn next), queued := [job], events := [.posted ticket true] }
  | .wait next => if gateOpen then some { thread := some (t.goOn (next false)) } else none

/-- A bound on the steps that the threads make, and then the work in a queue. -/
def totalSize (threads : List WorkThread) : Nat := sumOf size threads

/-- A bound on the steps that start and run the work in a queue. -/
def queueSize (queue : List Job) : Nat := sumOf (·.work.size + 1) queue

theorem size_step? {closed gateOpen : Bool} {ticket : Nat} {t : WorkThread} {e : Effect}
    (h : t.step? closed gateOpen ticket = some e) :
    totalSize e.thread.toList + queueSize e.queued < t.size := by
  obtain ⟨place, ⟨n, work⟩, callers⟩ := t
  cases work with
  | done =>
    simp only [step?, Option.some.injEq] at h
    subst h
    cases callers <;>
      simp only [return?, totalSize, queueSize, size, Work.size, sumOf, Option.toList_some,
        Option.toList_none] <;> omega
  | panic =>
    simp only [step?, Option.some.injEq] at h
    subst h
    cases callers <;>
      simp only [return?, totalSize, queueSize, size, Work.size, sumOf, Option.toList_some,
        Option.toList_none] <;> omega
  | log entry next =>
    simp only [step?, Option.some.injEq] at h
    subst h
    simp [goOn, totalSize, queueSize, size, Work.size, sumOf]
  | post child next =>
    simp only [step?] at h
    split at h
    · cases h
      simp [totalSize, queueSize, size, Work.size, sumOf]
      omega
    · cases h
      simp [goOn, totalSize, queueSize, size, Work.size, sumOf]
      omega
  | wait next =>
    simp only [step?] at h
    split at h
    · cases h
      simp only [goOn, totalSize, queueSize, size, Work.size, Option.toList_some, sumOf]
      omega
    · cases h

end WorkThread

/-! ## Schedulers -/

/-- The state of a scheduler. `tickets` is the number of units that were posted. -/
structure Scheduler where
  limit : ConcurrencyLimit
  queue : List Job := []
  threads : List WorkThread := []
  closed : Bool := false
  gateOpen : Bool := false
  tickets : Nat := 0
  history : List JobEvent := []

namespace Scheduler

/-- A bound on the steps that are left. -/
def size (s : Scheduler) : Nat := WorkThread.totalSize s.threads + WorkThread.queueSize s.queue

/-- The number of workers that are busy. -/
def busy (s : Scheduler) : Nat := s.threads.countP (·.place = .worker)

/-- The number of threads that wait at the gate. -/
def waiting (s : Scheduler) : Nat := s.threads.countP (·.isWaiting)

/-- The number of units that have finished. -/
def finished (s : Scheduler) : Nat :=
  s.history.countP fun
    | .finished _ => true
    | _ => false

/-- The entries of the log. -/
def log (s : Scheduler) : List String :=
  s.history.filterMap fun
    | .logged text => some text
    | _ => none

/-! ## Single steps -/

/-- A worker starts the oldest unit that waits, if the limit admits one more. -/
def start? (s : Scheduler) : Option Scheduler :=
  match s.queue with
  | [] => none
  | job :: rest =>
    if s.limit.admits s.busy then
      some { s with
        queue := rest
        threads := s.threads ++ [{ place := .worker, job }]
        history := s.history ++ [.started job.ticket .worker] }
    else none

/-- The first of some threads that can make a step makes it. -/
def advanceFirst (s : Scheduler) (before : List WorkThread) : List WorkThread → Option Scheduler
  | [] => none
  | t :: rest =>
    match t.step? s.closed s.gateOpen s.tickets with
    | some e =>
      some { s with
        queue := s.queue ++ e.queued
        threads := before ++ e.thread.toList ++ rest
        tickets := s.tickets + e.events.countP fun
          | .posted .. => true
          | _ => false
        history := s.history ++ e.events }
    | none => advanceFirst s (before ++ [t]) rest

/-- One step, if there is one to be made. -/
def step? (s : Scheduler) : Option Scheduler := s.start?.or (s.advanceFirst [] s.threads)

theorem size_start? {s s' : Scheduler} (h : s.start? = some s') : s'.size < s.size := by
  unfold start? at h
  split at h
  · cases h
  · rename_i job rest hq
    split at h
    · cases h
      simp only [size, WorkThread.totalSize, WorkThread.queueSize, hq, sumOf_append,
        sumOf, WorkThread.size]
      omega
    · cases h

theorem size_advanceFirst {s s' : Scheduler} {before threads : List WorkThread}
    (h : s.advanceFirst before threads = some s') :
    s'.size < WorkThread.totalSize before + WorkThread.totalSize threads
      + WorkThread.queueSize s.queue := by
  induction threads generalizing before with
  | nil => cases h
  | cons t rest ih =>
    unfold advanceFirst at h
    split at h
    · rename_i e he
      cases h
      have hlt := WorkThread.size_step? he
      simp only [size, WorkThread.totalSize, WorkThread.queueSize, sumOf_append,
        sumOf] at hlt ⊢
      omega
    · have hlt := ih h
      simp only [WorkThread.totalSize, sumOf_append, sumOf] at hlt ⊢
      omega

theorem size_step? {s s' : Scheduler} (h : s.step? = some s') : s'.size < s.size := by
  unfold step? at h
  cases hs : s.start? with
  | some r =>
    rw [hs, Option.some_or] at h
    cases h
    exact size_start? hs
  | none =>
    rw [hs, Option.none_or] at h
    have hlt := size_advanceFirst h
    simp only [WorkThread.totalSize, sumOf, Nat.zero_add] at hlt
    exact hlt

/-! ## Calls -/

/-- Makes steps as long as there is one to be made. -/
def settle (s : Scheduler) : Scheduler :=
  match _h : s.step? with
  | some s' => settle s'
  | none => s
termination_by s.size
decreasing_by exact size_step? (by assumption)

/-- Posts a unit of work from outside. It waits for a worker or, after the scheduler was shut down,
runs on the thread of the caller. -/
def post (work : Work) (s : Scheduler) : Scheduler :=
  let job : Job := ⟨s.tickets, work⟩
  if s.closed then
    { s with
      threads := s.threads ++ [{ place := .caller, job }]
      tickets := s.tickets + 1
      history := s.history ++ [.posted job.ticket false, .started job.ticket .caller] }
  else
    { s with
      queue := s.queue ++ [job]
      tickets := s.tickets + 1
      history := s.history ++ [.posted job.ticket true] }

/-- Lets those threads go on that wait at the gate now. -/
def release (s : Scheduler) : Scheduler :=
  { s with threads := s.threads.map fun t =>
      match t.job.work with
      | .wait next => t.goOn (next true)
      | _ => t }

/-- Opens the gate for good. -/
def openGate (s : Scheduler) : Scheduler := { s.release with gateOpen := true }

/-- Shuts the scheduler down: it takes no more work, and ends when all work has finished. -/
def shutdown (s : Scheduler) : Except Cause Scheduler :=
  if s.closed then .error .schedulerShutDown else .ok { s with closed := true }

end Scheduler

end TestEngine
