import TestEngine.Failure.Aggregator
import TestEngine.Program.Process

/-!
# Teardowns

How something that a run acquired is given back. A teardown may have an asynchronous part, which is
code that makes a future and the future itself, and a synchronous part.

The teardowns of a node are kept in the order of acquisition and run in reverse: first every
asynchronous part, then every synchronous one. A part that fails adds a failure and stops nothing.
-/

namespace TestEngine

variable {ω : Type}

/-- How to tear something down. -/
structure Teardown (ω : Type) where
  asyncPart : Option (SetupCode ω (SetupCode ω Unit)) := none
  syncPart : Option (SetupCode ω Unit) := none

namespace Teardown

/-- There is nothing to tear down. -/
def isEmpty (t : Teardown ω) : Bool := t.asyncPart.isNone && t.syncPart.isNone

/-- The parts of a teardown, in the order in which they run. -/
def parts (t : Teardown ω) : List TeardownPart :=
  (if t.asyncPart.isSome then [.async] else []) ++ if t.syncPart.isSome then [.sync] else []

/-- What a teardown consists of, in words. -/
def describe (t : Teardown ω) : String :=
  "Teardown \x7b async: " ++ toString t.asyncPart.isSome ++ ", sync: " ++
    toString t.syncPart.isSome ++ " \x7d"

end Teardown

/-! ## Capturing the failures of user code -/

namespace Aggregator

/-- Runs code; its failure is captured. -/
def attempt {α : Type} (a : Aggregator) (code : SetupCode ω α) :
    Process ω (Aggregator × Option α) := do
  pure (a.capture (← code.run))

/-- Runs code that makes a future, and then the future. -/
def attemptAsync (a : Aggregator) (code : SetupCode ω (SetupCode ω Unit)) :
    Process ω Aggregator := do
  match ← a.attempt code with
  | (a, some future) => do
    let (a, _) ← a.attempt future
    pure a
  | (a, none) => pure a

end Aggregator

/-! ## Running teardowns -/

namespace Teardown

/-- Runs the asynchronous part of the `index`th thing that `owner` acquired. -/
def runAsync (owner : NodeIds) (a : Aggregator) (entry : Teardown ω × Nat) :
    Process ω Aggregator :=
  match entry.1.asyncPart with
  | some code => do
    Process.enter (.release owner entry.2 .async)
    a.attemptAsync code
  | none => pure a

/-- Runs the synchronous part of the `index`th thing that `owner` acquired. -/
def runSync (owner : NodeIds) (a : Aggregator) (entry : Teardown ω × Nat) :
    Process ω Aggregator :=
  match entry.1.syncPart with
  | some code => do
    Process.enter (.release owner entry.2 .sync)
    let (a, _) ← a.attempt code
    pure a
  | none => pure a

/-- Runs both parts of a teardown, the asynchronous one first. -/
def run (owner : NodeIds) (a : Aggregator) (t : Teardown ω) : Process ω Aggregator := do
  let a ← runAsync owner a (t, 0)
  runSync owner a (t, 0)

end Teardown

/-- The teardowns of a node, in the order of acquisition. -/
structure Disposal (ω : Type) where
  teardowns : List (Teardown ω) := []

namespace Disposal

/-- Keeps a teardown, unless there is nothing to tear down. -/
def add (d : Disposal ω) (t : Teardown ω) : Disposal ω :=
  if t.isEmpty then d else ⟨d.teardowns ++ [t]⟩

/-- The number of teardowns that are kept. -/
def length (d : Disposal ω) : Nat := d.teardowns.length

/-- The teardowns in the order in which they run, each with its place in the order of
acquisition. -/
def inReverse (d : Disposal ω) : List (Teardown ω × Nat) := d.teardowns.zipIdx.reverse

/-- Runs all teardowns of a node. -/
def disposeAll (owner : NodeIds) (d : Disposal ω) (a : Aggregator) : Process ω Aggregator := do
  let a ← d.inReverse.foldlM (Teardown.runAsync owner) a
  d.inReverse.foldlM (Teardown.runSync owner) a

end Disposal

end TestEngine
