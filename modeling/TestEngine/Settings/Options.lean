import TestEngine.Settings.ThreadLimit

/-!
# Options of a run

What is not set in the options of a run is taken from the assembly, and what is not set there has a
default.
-/

namespace TestEngine

/-- How messages reach the sink. -/
inductive BusKind where
  /-- On the thread that queues them, before it goes on. -/
  | synchronous
  /-- On a thread of their own. -/
  | asynchronous
  deriving DecidableEq, Repr

instance : Inhabited BusKind := ⟨.asynchronous⟩

namespace BusKind

def text : BusKind → String
  | .synchronous => "sync"
  | .asynchronous => "async"

def ofText? : String → Option BusKind
  | "sync" => some .synchronous
  | "async" => some .asynchronous
  | _ => none

theorem ofText?_text (k : BusKind) : ofText? k.text = some k := by cases k <;> rfl

end BusKind

/-- The options of a run. -/
structure Options where
  disableParallelization : Option Bool := none
  maxThreads : Option ThreadLimit := none
  /-- Stop after the first test that fails. -/
  stopOnFail : Bool := false
  bus : BusKind := .asynchronous
  collectionOrderer : Option String := none
  caseOrderer : Option String := none
  deriving DecidableEq, Repr, Inhabited

/-- How an assembly wants its collections to be run. -/
structure Parallelism where
  disable : Option Bool := none
  maxThreads : Option ThreadLimit := none
  deriving DecidableEq, Repr, Inhabited

namespace Options

/-- Collections run one at a time. -/
def isSerial (o : Options) (assembly : Parallelism) : Bool :=
  (o.disableParallelization.or assembly.disable).getD false

/-- The limit on threads. -/
def threads (o : Options) (assembly : Parallelism) : ThreadLimit :=
  (o.maxThreads.or assembly.maxThreads).getD .processors

/-- The limit on collections that run at once, or nothing if they run one at a time on the calling
thread. -/
def parallelLimit? (o : Options) (assembly : Parallelism) (processors : Nat) :
    Option ConcurrencyLimit :=
  if o.isSerial assembly then none else some ((o.threads assembly).concurrency processors)

end Options

end TestEngine
