import TestEngine.Bus.Delivery

/-!
# The synchronous bus

Every message is delivered before the call that queues it returns. Producers take turns.
-/

namespace TestEngine

variable {σ : Type}

/-- A bus that delivers at once. `calls` are the calls of the sink so far, in order. -/
structure SynchronousBus (σ : Type) where
  delivery : Delivery σ
  calls : List Call := []
  shutDown : Bool := false

namespace SynchronousBus

/-- A bus for a sink. -/
def new (sink : σ) : SynchronousBus σ := { delivery := { sink } }

/-- Queues a message; answers whether the run goes on. -/
def queue (sink : Sink σ) (stopOnFail : Bool) (m : Message) (bus : SynchronousBus σ) :
    SynchronousBus σ × Except BusClosed Bool :=
  if bus.shutDown then (bus, .error ⟨m⟩)
  else
    let (delivery, calls) := bus.delivery.deliver sink stopOnFail m
    ({ bus with delivery, calls := bus.calls ++ calls }, .ok (!delivery.stopped))

/-- Shuts the bus down. -/
def shutdown (bus : SynchronousBus σ) : SynchronousBus σ × Except BusShutdownError Unit :=
  if bus.shutDown then (bus, .error .alreadyShutDown)
  else ({ bus with shutDown := true }, .ok ())

end SynchronousBus

end TestEngine
