import TestEngine.Failure.Basic

/-!
# Aggregators

An aggregator collects the failures of an operation in the order in which they happened. A child
operation starts with a copy of its parent's failures, so that what went wrong before it counts
against it; what goes wrong in the child is not seen by the parent.
-/

namespace TestEngine

/-- Failures in the order in which they were captured. -/
structure Aggregator where
  failures : List Failure := []
  deriving Inhabited

namespace Aggregator

/-- No failures. -/
def empty : Aggregator := {}

/-- Adds a failure. -/
def add (a : Aggregator) (f : Failure) : Aggregator := ⟨a.failures ++ [f]⟩

/-- Adds the failures of another aggregator. -/
def append (a b : Aggregator) : Aggregator := ⟨a.failures ++ b.failures⟩

/-- Adds the failure of an operation, if it failed, and answers its value otherwise. -/
def capture {α : Type} (a : Aggregator) (o : Outcome α) : Aggregator × Option α :=
  match o.toExcept with
  | .ok v => (a, some v)
  | .error f => (a.add f, none)

/-- Something was captured. -/
def hasFailures (a : Aggregator) : Bool := !a.failures.isEmpty

/-- The failures as one, if there are any. -/
def toFailure? (a : Aggregator) : Option Failure :=
  if a.failures.isEmpty then none else some (Failure.combine a.failures)

end Aggregator

end TestEngine
