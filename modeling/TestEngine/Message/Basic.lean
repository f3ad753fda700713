import TestEngine.ErrorRecord
import TestEngine.NodeIds
import TestEngine.Summary
import TestEngine.Time.Timestamp
import TestEngine.Traits

/-!
# Messages

What a run reports. A message says what happened, and to which node.

Every node reports its *life cycle*: that it starts, that it has finished and, if tearing it down
failed, a cleanup failure in between. The nodes above the tests finish with a summary; a test
finishes with its output. Between the two a test also reports the steps it goes through and its
result.
-/

namespace TestEngine

/-- The levels whose nodes have children. -/
inductive GroupLevel where
  | assembly
  | collection
  | testClass
  | method
  | testCase
  deriving DecidableEq, Repr

def GroupLevel.level : GroupLevel → Level
  | .assembly => .assembly
  | .collection => .collection
  | .testClass => .testClass
  | .method => .method
  | .testCase => .testCase

/-- What a node reports when it starts. -/
inductive NodeStart where
  | assembly (name : String) (path configFile : Option String) (environment : String)
      (time : Timestamp)
  | collection (displayName : String) (definition : Option String)
  | testClass (name : String)
  | method (name : String)
  | testCase (displayName : String) (skipReason : Option String) (traits : Traits)
  | test (displayName : String)
  deriving DecidableEq

def NodeStart.level : NodeStart → Level
  | .assembly .. => .assembly
  | .collection .. => .collection
  | .testClass .. => .testClass
  | .method .. => .method
  | .testCase .. => .testCase
  | .test .. => .test

/-- The two ends of a step. -/
inductive Edge where
  | starting
  | finished
  deriving DecidableEq, Repr

/-- What happened. -/
inductive Event where
  | starting (node : NodeStart)
  | finished (group : GroupLevel) (summary : Summary)
  | cleanupFailure (level : Level) (error : ErrorRecord)
  /-- The instance of the test class is built. -/
  | construction (edge : Edge)
  /-- A hook runs before the test. -/
  | before (edge : Edge) (hook : String)
  /-- A hook runs after the test. -/
  | after (edge : Edge) (hook : String)
  /-- The instance of the test class is torn down. -/
  | disposal (edge : Edge)
  /-- The test wrote a line. -/
  | output (text : String)
  | passed (time : Duration) (output : String)
  | failed (time : Duration) (output : String) (error : ErrorRecord)
  | skipped (reason : String)
  | testFinished (time : Duration) (output : String)
  | diagnostic (text : String)
  /-- An error that belongs to no test. -/
  | error (error : ErrorRecord)
  deriving DecidableEq

/-- A message: what happened, and to which node. -/
structure Message where
  ids : NodeIds
  event : Event
  deriving DecidableEq

/-! ## The life cycle -/

/-- A phase of the life cycle of a node. -/
inductive Phase where
  | starting
  | cleanupFailure
  | finished
  deriving DecidableEq, Repr

namespace Event

/-- The level and the phase that an event of a life cycle is about. -/
def lifecycle? : Event → Option (Level × Phase)
  | .starting node => some (node.level, .starting)
  | .cleanupFailure level _ => some (level, .cleanupFailure)
  | .finished group _ => some (group.level, .finished)
  | .testFinished .. => some (.test, .finished)
  | _ => none

/-- The summary that a node finishes with. -/
def summary? : Event → Option Summary
  | .finished _ summary => some summary
  | _ => none

/-- A test failed. -/
def isTestFailure : Event → Bool
  | .failed .. => true
  | _ => false

/-- A node starts. -/
def isStarting : Event → Bool
  | .starting _ => true
  | _ => false

/-! ## Names -/

/-- How a level is called in the names of events. -/
def stem : Level → String
  | .testCase => "case"
  | l => l.words

def edgeName : Edge → String
  | .starting => "-starting"
  | .finished => "-finished"

/-- The name of an event. -/
def name : Event → String
  | .starting node => stem node.level ++ "-starting"
  | .finished group _ => stem group.level ++ "-finished"
  | .cleanupFailure level _ => stem level ++ "-cleanup-failure"
  | .construction edge => "test-class-construction" ++ edgeName edge
  | .before edge _ => "before-test" ++ edgeName edge
  | .after edge _ => "after-test" ++ edgeName edge
  | .disposal edge => "test-class-dispose" ++ edgeName edge
  | .output _ => "test-output"
  | .passed .. => "test-passed"
  | .failed .. => "test-failed"
  | .skipped _ => "test-skipped"
  | .testFinished .. => "test-finished"
  | .diagnostic _ => "diagnostic"
  | .error _ => "error"

/-- The names of all events, in the order in which events are numbered from zero. -/
def names : List String :=
  ["assembly-starting", "assembly-finished", "assembly-cleanup-failure",
    "collection-starting", "collection-finished", "collection-cleanup-failure",
    "class-starting", "class-finished", "class-cleanup-failure",
    "method-starting", "method-finished", "method-cleanup-failure",
    "case-starting", "case-finished", "case-cleanup-failure", "test-starting",
    "test-class-construction-starting", "test-class-construction-finished",
    "before-test-starting", "before-test-finished", "after-test-starting", "after-test-finished",
    "test-class-dispose-starting", "test-class-dispose-finished",
    "test-output", "test-passed", "test-failed", "test-skipped", "test-finished",
    "test-cleanup-failure", "diagnostic", "error"]

end Event

end TestEngine
