import TestEngine.Failure.Basic
import TestEngine.NodeIds

/-!
# User code

What a run executes on behalf of its user: bodies of tests, hooks, constructors, teardowns, sources
of data and orderers. All that the engine can see of it is what it asks of the engine and how it
ends, so a piece of user code is a finite tree of requests: each node is a request, and it has a
subtree for each answer.

User code may keep state of its own. It lives in a *world* of any type, which code reads and
changes; so the same piece of code may end differently each time it runs.

* `bind_assoc`, `bind_finish` — sequencing is associative and has units.
-/

namespace TestEngine

/-- User code that works in a world `ω`, may make requests `ρ` beside the common ones, and ends with
a value `α` unless it fails or panics. -/
inductive Code (ω ρ α : Type) where
  | finish (outcome : Outcome α)
  /-- Leaves a note in the journal of the run. -/
  | note (text : String) (next : Code ω ρ α)
  /-- Changes the world, and goes on with the world as it was before. -/
  | world (change : ω → ω) (next : ω → Code ω ρ α)
  /-- Sends a diagnostic message about a node, and learns whether the run goes on. -/
  | diagnose (ids : NodeIds) (text : String) (next : Bool → Code ω ρ α)
  /-- Makes a request of its own kind. -/
  | request (r : ρ) (next : Bool → Code ω ρ α)

/-- Code that runs outside of a test. -/
abbrev SetupCode (ω α : Type) := Code ω Empty α

/-- What the code of a test may ask for. -/
inductive TestRequest where
  /-- Writes a line of output. The answer has no meaning. -/
  | writeLine (line : String)
  /-- Asks whether the run is cancelled. -/
  | isCancelled
  deriving DecidableEq, Repr

/-- Code that runs inside of a test. -/
abbrev TestCode (ω α : Type) := Code ω TestRequest α

namespace Code

variable {ω ρ α β γ : Type}

/-- Goes on with `f` if the code returns a value. -/
def bind (f : α → Code ω ρ β) : Code ω ρ α → Code ω ρ β
  | finish (.returned a) => f a
  | finish (.failed e) => finish (.failed e)
  | finish (.panicked p) => finish (.panicked p)
  | note text next => note text (bind f next)
  | world change next => world change fun w => bind f (next w)
  | diagnose ids text next => diagnose ids text fun b => bind f (next b)
  | request r next => request r fun b => bind f (next b)

instance : Monad (Code ω ρ) where
  pure a := finish (.returned a)
  bind c f := bind f c

theorem bind_finish (c : Code ω ρ α) : bind (fun a => finish (.returned a)) c = c := by
  induction c with
  | finish o => cases o <;> rfl
  | note text next ih => simp only [bind, ih]
  | world change next ih => simp only [bind, ih]
  | diagnose ids text next ih => simp only [bind, ih]
  | request r next ih => simp only [bind, ih]

theorem bind_assoc (c : Code ω ρ α) (f : α → Code ω ρ β) (g : β → Code ω ρ γ) :
    bind g (bind f c) = bind (fun a => bind g (f a)) c := by
  induction c with
  | finish o => cases o <;> rfl
  | note text next ih => simp only [bind, ih]
  | world change next ih => simp only [bind, ih]
  | diagnose ids text next ih => simp only [bind, ih]
  | request r next ih => simp only [bind, ih]

/-! ## Single steps -/

/-- Leaves a note. -/
def leaveNote (text : String) : Code ω ρ Unit := note text (finish (.returned ()))

/-- Fails. -/
def fail (error : Failure) : Code ω ρ α := finish (.failed error)

/-- Panics. -/
def panic (payload : Payload) : Code ω ρ α := finish (.panicked payload)

/-- Sends a diagnostic message about a node; answers whether the run goes on. -/
def sendDiagnostic (ids : NodeIds) (text : String) : Code ω ρ Bool :=
  diagnose ids text fun goesOn => finish (.returned goesOn)

end Code

end TestEngine
