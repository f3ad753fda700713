import TestEngine.Message.Basic
import TestEngine.Program.Code

/-!
# Processes

What the engine does during a run, seen from outside: it queues messages on the bus and learns
whether to go on, it sets and asks for the cancellation of the run, and it runs user code, which
acts on the user's world. A process is the finite tree of these steps, with a subtree for each
answer; the kind of bus and the behaviour of the sink come in only when a process is run.

A process also keeps a *journal*. It has the notes of user code and an entry for each piece of user
code that is entered, and it says what came of constructors and of sources of rows. The journal has
no influence on a run; it is what can be said about a run beside its messages.

* `bind_assoc`, `bind_done` — sequencing is associative and has units.
-/

namespace TestEngine

/-- The parts of a teardown. -/
inductive TeardownPart where
  | async
  | sync
  deriving DecidableEq, Repr

/-- The sides of a hook. -/
inductive HookSide where
  | before
  | after
  deriving DecidableEq, Repr

/-- An entry of the journal. `owner` are the IDs of the node that an entry is about. -/
inductive Activity where
  /-- User code left a note. -/
  | note (text : String)
  /-- A constructor is entered. -/
  | construct (owner : NodeIds) (kind : FixtureKind) (typeName : String)
  /-- A constructor ended: with something that has a teardown of these parts, or with a failure. -/
  | constructed (owner : NodeIds) (kind : FixtureKind) (typeName : String)
      (parts : Option (List TeardownPart))
  /-- The source of the rows of a theory is entered. -/
  | enumerate (owner : NodeIds)
  /-- That source ended: with rows that have teardowns of these parts, or with a failure. -/
  | enumerated (owner : NodeIds) (rows : Option (List (List TeardownPart)))
  /-- The hook with this name is entered. -/
  | hook (owner : NodeIds) (side : HookSide) (name : String)
  /-- The body of a test is entered. -/
  | body (owner : NodeIds)
  /-- A part of the teardown of something that a node got hold of is entered. What has a teardown is
  counted from zero, in the order in which the node got hold of it. -/
  | release (owner : NodeIds) (index : Nat) (part : TeardownPart)
  deriving DecidableEq, Repr

/-- A process that works in a world `ω` and ends with a value `α`. -/
inductive Process (ω α : Type) where
  | done (value : α)
  /-- Queues a message, and learns whether the run goes on. -/
  | queue (message : Message) (next : Bool → Process ω α)
  /-- Cancels the run. -/
  | cancel (next : Process ω α)
  /-- Asks whether the run is cancelled. -/
  | askCancelled (next : Bool → Process ω α)
  /-- Changes the world, and goes on with the world as it was before. -/
  | world (change : ω → ω) (next : ω → Process ω α)
  /-- Adds an entry to the journal. -/
  | journal (entry : Activity) (next : Process ω α)

namespace Process

variable {ω α β γ : Type}

/-- Goes on with `f` at the end of a process. -/
def bind (f : α → Process ω β) : Process ω α → Process ω β
  | done a => f a
  | queue m next => queue m fun b => bind f (next b)
  | cancel next => cancel (bind f next)
  | askCancelled next => askCancelled fun b => bind f (next b)
  | world change next => world change fun w => bind f (next w)
  | journal entry next => journal entry (bind f next)

instance : Monad (Process ω) where
  pure := done
  bind p f := bind f p

@[simp] theorem pure_bind_eq (a : α) (f : α → Process ω β) : (pure a >>= f) = f a := rfl

theorem bind_done (p : Process ω α) : bind done p = p := by
  induction p with
  | done a => rfl
  | queue m next ih => simp only [bind, ih]
  | cancel next ih => simp only [bind, ih]
  | askCancelled next ih => simp only [bind, ih]
  | world change next ih => simp only [bind, ih]
  | journal entry next ih => simp only [bind, ih]

theorem bind_assoc (p : Process ω α) (f : α → Process ω β) (g : β → Process ω γ) :
    bind g (bind f p) = bind (fun a => bind g (f a)) p := by
  induction p with
  | done a => rfl
  | queue m next ih => simp only [bind, ih]
  | cancel next ih => simp only [bind, ih]
  | askCancelled next ih => simp only [bind, ih]
  | world change next ih => simp only [bind, ih]
  | journal entry next ih => simp only [bind, ih]

instance : LawfulMonad (Process ω) :=
  LawfulMonad.mk' (Process ω) (fun p => bind_done p) (fun _ _ => rfl)
    (fun p f g => bind_assoc p f g)

/-! ## Single steps -/

/-- Reports an event of a node. If the run is not to go on, it is cancelled. -/
def report (ids : NodeIds) (event : Event) : Process ω Bool :=
  queue ⟨ids, event⟩ fun goesOn => if goesOn then done true else cancel (done false)

/-- Whether the run is cancelled. -/
def isCancelled : Process ω Bool := askCancelled done

/-- Adds an entry to the journal. -/
def enter (entry : Activity) : Process ω Unit := journal entry (done ())

/-- Runs each of a list of processes in order until the run is cancelled, and adds up what they
answer. -/
def untilCancelled : List (Process ω Counts) → Counts → Process ω Counts
  | [], sum => pure sum
  | p :: rest, sum => do
    if ← isCancelled then pure sum
    else
      let c ← p
      untilCancelled rest (sum + c)

end Process

/-! ## Running user code -/

namespace Code

variable {ω ρ σ α : Type}

/-- Runs user code, with `handle` for the requests of its own kind. The handler has a state. -/
def perform (handle : ρ → σ → Process ω (Bool × σ)) : Code ω ρ α → σ → Process ω (Outcome α × σ)
  | finish outcome, s => pure (outcome, s)
  | note text next, s => .journal (.note text) (perform handle next s)
  | world change next, s => .world change fun w => perform handle (next w) s
  | diagnose ids text next, s => .queue ⟨ids, .diagnostic text⟩ fun b => perform handle (next b) s
  | request r next, s => do
    let (b, s) ← handle r s
    perform handle (next b) s

/-- Runs code outside of a test. -/
def run (code : SetupCode ω α) : Process ω (Outcome α) := do
  let (outcome, _) ← code.perform (σ := Unit) (fun r _ => r.elim) ()
  pure outcome

/-- Serves the requests of a test, whose output so far is the state. A line is reported at once. -/
def serveTest (ids : NodeIds) : TestRequest → String → Process ω (Bool × String)
  | .writeLine line, output => do
    let _ ← Process.report ids (.output (line ++ "\n"))
    pure (true, output ++ line ++ "\n")
  | .isCancelled, output => do
    let cancelled ← Process.isCancelled
    pure (cancelled, output)

/-- Runs code inside of the test `ids`, whose output so far is `output`. -/
def runInTest (ids : NodeIds) (code : TestCode ω α) (output : String) :
    Process ω (Outcome α × String) :=
  code.perform (serveTest ids) output

end Code

end TestEngine
