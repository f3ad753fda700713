import TestEngine.Bus.Asynchronous
import TestEngine.Keyed

/-!
# Traffic on the asynchronous bus

Any number of producers queue messages on one bus while its dispatcher delivers them and somebody
shuts it down. A call that queues a message is no single step: between its steps others may come.

An interleaving is a list of *turns*, each of which says who makes the next step. A turn that cannot
be taken changes nothing, so that every list of turns is an interleaving. What has happened is kept
in order, as a list of events.
-/

namespace TestEngine

variable {σ : Type}

/-- How far a call that queues a message has got. -/
inductive QueueStage where
  /-- The bus was open. As long as such a call lasts the bus stays so. -/
  | entered
  /-- If the message is a failed test that stops the run, the run is stopped. -/
  | noted
  /-- The message went into the channel after `ticket` others. -/
  | sent (ticket : Nat)
  deriving DecidableEq, Repr

/-- A call that queues a message. -/
structure QueueCall where
  message : Message
  stage : QueueStage
  deriving DecidableEq

/-- Something that happened on a bus. -/
inductive BusEvent where
  /-- A producer called an open bus. -/
  | entered (producer : Nat) (message : Message)
  /-- A producer called a closed bus. -/
  | refused (producer : Nat) (message : Message)
  /-- The message of a call went into the channel. -/
  | sent (producer : Nat) (message : Message)
  /-- A message was delivered. -/
  | delivered (message : Message) (calls : List Call)
  /-- A call returned. -/
  | returned (producer : Nat) (message : Message) (goesOn : Bool)
  /-- A shutdown closed the bus. -/
  | closed
  /-- That shutdown returned. -/
  | shutDown
  /-- Another shutdown returned, with an error. -/
  | shutdownRefused
  deriving DecidableEq

/-- Who makes the next step. -/
inductive BusTurn where
  /-- A producer that is in no call queues a message. -/
  | enter (producer : Nat) (message : Message)
  /-- The call of a producer makes a step. -/
  | advance (producer : Nat)
  | dispatch
  /-- A shutdown begins. -/
  | shutdown
  /-- The shutdown that closed the bus ends. -/
  | endShutdown
  deriving DecidableEq

/-- A bus with the calls that it is in, by producer. -/
structure Traffic (σ : Type) where
  bus : AsynchronousBus σ
  inFlight : List (Nat × QueueCall) := []
  /-- The shutdown that closed the bus has not yet returned. -/
  closing : Bool := false
  history : List BusEvent := []

namespace Traffic

/-- No traffic yet. -/
def start (sink : σ) : Traffic σ := { bus := .new sink }

/-- Adds to what has happened. -/
def record (t : Traffic σ) (e : BusEvent) : Traffic σ := { t with history := t.history ++ [e] }

/-- A producer queues a message. -/
def enter (producer : Nat) (m : Message) (t : Traffic σ) : Traffic σ :=
  if (t.inFlight.lookup producer).isSome then t
  else if t.bus.closed then t.record (.refused producer m)
  else
    { t with inFlight := Keyed.put producer ⟨m, .entered⟩ t.inFlight }.record (.entered producer m)

/-- The call of a producer makes a step, if it does not wait for the dispatcher. -/
def advance (stopOnFail : Bool) (producer : Nat) (t : Traffic σ) : Traffic σ :=
  match t.inFlight.lookup producer with
  | none => t
  | some ⟨m, .entered⟩ =>
    { t with
      bus := t.bus.note stopOnFail m
      inFlight := Keyed.put producer ⟨m, .noted⟩ t.inFlight }
  | some ⟨m, .noted⟩ =>
    { t with
      bus := t.bus.push m
      inFlight := Keyed.put producer ⟨m, .sent t.bus.sent⟩ t.inFlight }.record (.sent producer m)
  | some ⟨m, .sent ticket⟩ =>
    if t.bus.answers m ticket then
      { t with inFlight := Keyed.remove producer t.inFlight }.record
        (.returned producer m t.bus.goesOn)
    else t

/-- The dispatcher delivers the next message. -/
def dispatch (sink : Sink σ) (stopOnFail : Bool) (t : Traffic σ) : Traffic σ :=
  match t.bus.channel with
  | [] => t
  | m :: _ =>
    let calls := (t.bus.delivery.deliver sink stopOnFail m).2
    { t with bus := t.bus.dispatch sink stopOnFail }.record (.delivered m calls)

/-- A shutdown begins. It closes the bus as soon as no call is in flight; a closed bus cannot be
shut down again. -/
def shutdown (t : Traffic σ) : Traffic σ :=
  match t.bus.close with
  | .error _ => t.record .shutdownRefused
  | .ok bus =>
    if t.inFlight.isEmpty then { t with bus, closing := true }.record .closed else t

/-- The shutdown ends once everything is delivered. -/
def endShutdown (t : Traffic σ) : Traffic σ :=
  if t.closing && t.bus.channel.isEmpty then { t with closing := false }.record .shutDown else t

/-- One turn. -/
def turn (sink : Sink σ) (stopOnFail : Bool) (t : Traffic σ) : BusTurn → Traffic σ
  | .enter producer m => t.enter producer m
  | .advance producer => t.advance stopOnFail producer
  | .dispatch => t.dispatch sink stopOnFail
  | .shutdown => t.shutdown
  | .endShutdown => t.endShutdown

/-- What comes of an interleaving. -/
def after (sink : Sink σ) (stopOnFail : Bool) (turns : List BusTurn) (t : Traffic σ) : Traffic σ :=
  turns.foldl (turn sink stopOnFail) t

theorem after_append (sink : Sink σ) (stopOnFail : Bool) (turns more : List BusTurn)
    (t : Traffic σ) :
    t.after sink stopOnFail (turns ++ more) =
      (t.after sink stopOnFail turns).after sink stopOnFail more :=
  List.foldl_append

end Traffic

end TestEngine
