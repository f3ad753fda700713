import TestEngine.Failure.Basic
import TestEngine.Message.Basic

/-!
# Delivering messages

A sink handles one message at a time. It answers whether the run is to go on, or it panics. A panic
is reported to the sink itself, as an error message, and has no other effect; a sink that panics
over that message too is left alone.

Once the sink has asked to stop, the wish is never taken back. With stop-on-fail a failed test is
such a wish as well.
-/

namespace TestEngine

variable {σ : Type}

/-- How a sink answers a message. -/
inductive Answer where
  | goOn
  | stop
  | panic (payload : Payload)
  deriving DecidableEq, Repr

/-- A sink with a state. -/
abbrev Sink (σ : Type) := σ → Message → σ × Answer

/-- A message that was handed to the sink, and the answer. -/
structure Call where
  message : Message
  answer : Answer
  deriving DecidableEq

/-- The delivering side of a bus: the state of the sink, and whether the run is to stop. -/
structure Delivery (σ : Type) where
  sink : σ
  stopped : Bool := false

namespace Delivery

/-- The message that tells a sink about its own panic. -/
def panicReport (m : Message) (payload : Payload) : Message where
  ids := { assembly := m.ids.assembly }
  event := .error (Failure.ofPanic payload).record

/-- Stops the run. -/
def stop (d : Delivery σ) : Delivery σ := { d with stopped := true }

/-- Hands one message to the sink. -/
def call (sink : Sink σ) (m : Message) (d : Delivery σ) : Delivery σ × Answer :=
  let r := sink d.sink m
  ({ sink := r.1, stopped := d.stopped || r.2 = .stop }, r.2)

/-- A failed test stops the run if that is wanted. -/
def noteFailure (stopOnFail : Bool) (m : Message) (d : Delivery σ) : Delivery σ :=
  if stopOnFail && m.event.isTestFailure then d.stop else d

/-- Delivers a message: one call of the sink, and a second one if it panics. -/
def deliver (sink : Sink σ) (stopOnFail : Bool) (m : Message) (d : Delivery σ) :
    Delivery σ × List Call :=
  let first := (d.noteFailure stopOnFail m).call sink m
  match first.2 with
  | .panic payload =>
    let second := first.1.call sink (panicReport m payload)
    (second.1, [⟨m, .panic payload⟩, ⟨panicReport m payload, second.2⟩])
  | answer => (first.1, [⟨m, answer⟩])

theorem stopped_call {sink : Sink σ} {m : Message} {d : Delivery σ} (h : d.stopped = true) :
    (d.call sink m).1.stopped = true := by
  simp [call, h]

theorem stopped_noteFailure {stopOnFail : Bool} {m : Message} {d : Delivery σ}
    (h : d.stopped = true) : (d.noteFailure stopOnFail m).stopped = true := by
  unfold noteFailure
  split <;> simp_all [stop]

/-- The wish to stop is never taken back. -/
theorem stopped_deliver {sink : Sink σ} {stopOnFail : Bool} {m : Message} {d : Delivery σ}
    (h : d.stopped = true) : (d.deliver sink stopOnFail m).1.stopped = true := by
  have first : ((d.noteFailure stopOnFail m).call sink m).1.stopped = true :=
    stopped_call (stopped_noteFailure h)
  simp only [deliver]
  split
  · exact stopped_call first
  · exact first

end Delivery

/-! ## Buses that are shut down -/

/-- A message was queued after the bus was shut down. -/
structure BusClosed where
  message : Message

/-- What is reported when that happens. -/
def BusClosed.text (e : BusClosed) : String :=
  "queue_message called with `" ++ e.message.event.name ++ "` after the message bus was shut down"

end TestEngine
