/-!
# What the engine itself can report

The errors that the engine raises, as opposed to those of user code. Each is a cause; its wording is
`message`, and where errors are reported with a type, its type is `typeName`.
-/

namespace TestEngine

/-- What is built from a fixture definition. -/
inductive FixtureKind where
  /-- A value shared by the tests of a collection. -/
  | collection
  /-- A value shared by the tests of a class. -/
  | testClass
  /-- The instance of a test class, one for each test. -/
  | testInstance
  deriving DecidableEq, Repr

/-- How error messages call what is built. -/
def FixtureKind.words : FixtureKind → String
  | .collection => "Collection fixture"
  | .testClass => "Class fixture"
  | .testInstance => "Test class"

/-- What an orderer orders. -/
inductive OrdererKind where
  | collection
  | testCase
  deriving DecidableEq, Repr

def OrdererKind.words : OrdererKind → String
  | .collection => "collection"
  | .testCase => "case"

/-- Texts with a comma between them. -/
def commaSeparated (texts : List String) : String := ", ".intercalate texts

/-- Why something could not be built. -/
inductive FixtureError where
  /-- There is not exactly one constructor. -/
  | constructorCount (kind : FixtureKind) (typeName : String)
  /-- Some parameters name fixtures that are not available. -/
  | unresolvedArguments (kind : FixtureKind) (typeName : String) (arguments : List String)
  /-- The constructor failed. -/
  | constructorFailed (kind : FixtureKind) (typeName : String)
  deriving DecidableEq, Repr

def FixtureError.message : FixtureError → String
  | .constructorCount kind typeName =>
    kind.words ++ " type '" ++ typeName ++ "' may only define a single public constructor."
  | .unresolvedArguments kind typeName arguments =>
    kind.words ++ " type '" ++ typeName ++ "' had one or more unresolved constructor arguments: "
      ++ commaSeparated arguments
  | .constructorFailed kind typeName =>
    kind.words ++ " type '" ++ typeName ++ "' threw in its constructor"

/-- Why an orderer's answer is not used. -/
inductive OrdererError where
  | unknown (kind : OrdererKind) (name : String) (known : List String)
  | notPermutation (kind : OrdererKind) (name : String) (expected actual : Nat)
  deriving DecidableEq, Repr

def OrdererError.message : OrdererError → String
  | .unknown kind name known =>
    "unknown " ++ kind.words ++ " orderer `" ++ name ++ "` (known orderers: "
      ++ commaSeparated known ++ ")"
  | .notPermutation kind name expected actual =>
    kind.words ++ " orderer `" ++ name ++ "` returned " ++ toString actual
      ++ " items that are not a permutation of its " ++ toString expected ++ " inputs"

/-- Why a message bus could not be shut down. -/
inductive BusShutdownError where
  | alreadyShutDown
  | dispatcherPanicked (message : String)
  deriving DecidableEq, Repr

def BusShutdownError.message : BusShutdownError → String
  | .alreadyShutDown => "message bus was already shut down"
  | .dispatcherPanicked message => "message bus dispatch thread panicked: " ++ message

/-- An error that the engine raises. -/
inductive Cause where
  | fixture (error : FixtureError)
  | orderer (error : OrdererError)
  /-- The data source of the method with this qualified name has no rows. -/
  | noData (method : String)
  | schedulerShutDown
  | busShutdown (error : BusShutdownError)
  /-- A run could not shut down its message bus. -/
  | runBusShutdown (error : BusShutdownError)
  /-- A text that is no limit on threads. -/
  | threadLimit (input : String)
  deriving DecidableEq, Repr

namespace Cause

def message : Cause → String
  | .fixture e => e.message
  | .orderer e => e.message
  | .noData method => "No data found for " ++ method
  | .schedulerShutDown => "scheduler was already shut down"
  | .busShutdown e => e.message
  | .runBusShutdown _ => "error shutting down the message bus"
  | .threadLimit input =>
    "unrecognized value for max-parallel-threads: " ++ input ++
      "\n(expected an integer, \"num-cpus\" or \"unlimited\")"

/-- The messages of the errors behind an error. -/
def sources : Cause → List String
  | .runBusShutdown e => [e.message]
  | _ => []

/-- The name of the error's type, without what qualifies it. -/
def shortTypeName : Cause → String
  | .fixture _ => "FixtureConstructionError"
  | .orderer _ => "OrdererError"
  | .noData _ => "TheoryDataError"
  | .schedulerShutDown => "SchedulerShutdownError"
  | .busShutdown _ => "MessageBusShutdownError"
  | .runBusShutdown _ => "RunError"
  | .threadLimit _ => "MaxParallelThreadsParseError"

/-- The type that the error is reported with. -/
def typeName (c : Cause) : String := "trellis_runner::errors::" ++ c.shortTypeName

end Cause

end TestEngine
