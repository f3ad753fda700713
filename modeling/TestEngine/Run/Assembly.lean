import TestEngine.Run.Tree

/-!
# Running an assembly

The collections of an assembly run one after the other on the calling thread, or side by side on
threads of their own. A *serial* run is a single process. A *parallel* run is a process that finds
the collections, one process for each of them, and a process that ends the run; a collection whose
turn comes after the run was cancelled does not start.
-/

namespace TestEngine

variable {ω : Type}

/-- What is run, and how. -/
structure AssemblyRun (ω : Type) where
  assembly : Assembly ω
  cases : List (TestCase ω)
  setup : RunSetup ω
  /-- The number of processors of the machine. -/
  processors : Nat
  /-- When the run starts. -/
  startTime : Timestamp

namespace AssemblyRun

/-- How many collections run side by side, or nothing for a serial run. -/
def parallelLimit? (r : AssemblyRun ω) : Option ConcurrencyLimit :=
  r.setup.options.parallelLimit? r.assembly.parallelism r.processors

/-- Describes a mode of running. -/
def modeText : Option ConcurrencyLimit → String
  | some limit => "parallel (" ++ limit.text ++ " threads)"
  | none => "non-parallel"

/-- Describes the environment of a run. -/
def environment (limit : Option ConcurrencyLimit) : String :=
  "64-bit trellis [" ++ modeText limit ++ "]"

/-- The IDs of the assembly. -/
def ids (r : AssemblyRun ω) : NodeIds := { assembly := r.assembly.id }

/-- What the assembly reports when it starts. -/
def start (r : AssemblyRun ω) : NodeStart :=
  .assembly r.assembly.name r.assembly.path r.assembly.configFile (environment r.parallelLimit?)
    r.startTime

/-- The runs of the collections, in their order. -/
def collectionRuns (r : AssemblyRun ω) : Process ω (List (Process ω Counts)) := do
  let collections ← Collection.ordered r.setup r.assembly r.ids r.cases
  pure (Collection.runs r.setup r.ids r.cases collections)

/-- The collections one after the other, until the run is cancelled. -/
def inTurn (r : AssemblyRun ω) : Process ω Counts :=
  lifecycle r.ids .assembly r.start do
    let runs ← r.collectionRuns
    let counts ← Process.untilCancelled runs 0
    pure (counts, {})

end AssemblyRun

end TestEngine
