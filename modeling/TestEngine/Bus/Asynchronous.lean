import TestEngine.Bus.Delivery

/-!
# The asynchronous bus

Messages go through a channel, first in, first out, and a dispatcher delivers them in the order in
which they were sent. The dispatcher may be late by any number of messages.

The state of the bus changes in a few ways: a producer *notes* a message and *pushes* it into the
channel, the dispatcher *dispatches* the next one, and the bus is *closed*. What a producer waits
for is a condition on the state:

* a message that a node starts is answered only after it was delivered;
* shutting down ends only after the channel is empty.

`queue` and `shutdown` are the calls of a producer with a dispatcher that works only when somebody
waits for it.
-/

namespace TestEngine

variable {σ : Type}

/-- A bus with a channel. `sent` and `handled` count the messages that went into the channel and
those that were delivered. -/
structure AsynchronousBus (σ : Type) where
  delivery : Delivery σ
  channel : List Message := []
  calls : List Call := []
  sent : Nat := 0
  handled : Nat := 0
  closed : Bool := false

namespace AsynchronousBus

/-- A bus for a sink. -/
def new (sink : σ) : AsynchronousBus σ := { delivery := { sink } }

/-! ## Single steps -/

/-- Stops the run for a failed test if that is wanted: now, and not when the message is
delivered. -/
def note (stopOnFail : Bool) (m : Message) (bus : AsynchronousBus σ) : AsynchronousBus σ :=
  { bus with delivery := bus.delivery.noteFailure stopOnFail m }

/-- Puts a message into the channel. -/
def push (m : Message) (bus : AsynchronousBus σ) : AsynchronousBus σ :=
  { bus with channel := bus.channel ++ [m], sent := bus.sent + 1 }

/-- Notes a message and puts it into the channel, unless the bus is closed. -/
def send (stopOnFail : Bool) (m : Message) (bus : AsynchronousBus σ) :
    Except BusClosed (AsynchronousBus σ) :=
  if bus.closed then .error ⟨m⟩ else .ok ((bus.note stopOnFail m).push m)

/-- Delivers the next message, if there is one. -/
def dispatch (sink : Sink σ) (stopOnFail : Bool) (bus : AsynchronousBus σ) : AsynchronousBus σ :=
  match bus.channel with
  | [] => bus
  | m :: rest =>
    let (delivery, calls) := bus.delivery.deliver sink stopOnFail m
    { bus with delivery, channel := rest, calls := bus.calls ++ calls, handled := bus.handled + 1 }

/-- Takes no more messages. -/
def close (bus : AsynchronousBus σ) : Except BusShutdownError (AsynchronousBus σ) :=
  if bus.closed then .error .alreadyShutDown else .ok { bus with closed := true }

/-- Whether the run goes on, as far as is known. -/
def goesOn (bus : AsynchronousBus σ) : Bool := !bus.delivery.stopped

/-- The answer to a message is certain as soon as it was sent, or only once it was delivered. -/
def waitsForDelivery (m : Message) : Bool := m.event.isStarting

/-- The producer of a message may be answered. The message is the one that was sent after `ticket`
others. -/
def answers (m : Message) (ticket : Nat) (bus : AsynchronousBus σ) : Bool :=
  !waitsForDelivery m || decide (ticket < bus.handled)

theorem length_channel_dispatch {sink : Sink σ} {stopOnFail : Bool} {bus : AsynchronousBus σ}
    {m : Message} {rest : List Message} (h : bus.channel = m :: rest) :
    (bus.dispatch sink stopOnFail).channel = rest := by
  simp [dispatch, h]

/-- Delivers everything that is in the channel. -/
def drain (sink : Sink σ) (stopOnFail : Bool) (bus : AsynchronousBus σ) : AsynchronousBus σ :=
  (List.range bus.channel.length).foldl (fun bus _ => bus.dispatch sink stopOnFail) bus

/-! ## Whole calls -/

/-- Queues a message with a dispatcher that works only when a producer waits; answers whether the
run goes on. -/
def queue (sink : Sink σ) (stopOnFail : Bool) (m : Message) (bus : AsynchronousBus σ) :
    AsynchronousBus σ × Except BusClosed Bool :=
  match bus.send stopOnFail m with
  | .error e => (bus, .error e)
  | .ok bus =>
    let bus := if waitsForDelivery m then bus.drain sink stopOnFail else bus
    (bus, .ok bus.goesOn)

/-- Shuts the bus down: everything that was sent is delivered. -/
def shutdown (sink : Sink σ) (stopOnFail : Bool) (bus : AsynchronousBus σ) :
    AsynchronousBus σ × Except BusShutdownError Unit :=
  match bus.close with
  | .error e => (bus, .error e)
  | .ok bus => (bus.drain sink stopOnFail, .ok ())

/-- The answer to a message does not depend on how late the dispatcher is: the message is answered
after it was delivered, or it stops the run by itself. -/
def isCertain (stopOnFail : Bool) (m : Message) : Bool :=
  waitsForDelivery m || (stopOnFail && m.event.isTestFailure)

end AsynchronousBus

end TestEngine
