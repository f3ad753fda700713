import TestEngine.Json.Value
import TestEngine.Message.Basic
import TestEngine.Number.Width
import TestEngine.Time.DurationText

/-!
# Messages as JSON

A message is an object: the IDs of its node under `ids`, the name of its event under `type`, and the
fields of the event beside them. Durations and points in time are texts.

Writing leaves out the IDs that are not set, optional texts without a value and empty traits; an
error record writes them as `null`. Reading takes a missing field and `null` for the same absent
value, asks for every other field, converts nothing, and ignores fields it does not know. It also
takes the number of an event for its name, and an array of its fields in order for IDs, a summary or
an error record.
-/

namespace TestEngine

open Json (fieldIf ofText? ofTexts)

/-! ## Reading single fields -/

namespace Json

/-- The field `name`, read by `read`. -/
def required? {α : Type} (v : Json) (name : String) (read : Json → Option α) : Option α :=
  v.field? name >>= read

/-- The text of the field `name`, or no text if it is missing or `null`. -/
def optionalText? (v : Json) (name : String) : Option (Option String) :=
  match v.field? name with
  | none | some .null => some none
  | some w => w.text?.map some

/-- The field `name`, or a default if it is missing. -/
def defaulted? {α : Type} (v : Json) (name : String) (default : α) (read : Json → Option α) :
    Option α :=
  match v.field? name with
  | none => some default
  | some w => read w

/-- A count of 64 bits. -/
def count? : Json → Option Nat
  | .int n => if 0 ≤ n ∧ n < 18446744073709551616 then some n.toNat else none
  | _ => none

/-- An index of 32 bits with a sign. -/
def index? : Json → Option Int
  | .int n => if FitsInt32 n then some n else none
  | _ => none

/-- A text or `null`. -/
def textOrNull? : Json → Option (Option String)
  | .null => some none
  | .str s => some (some s)
  | _ => none

/-- An array whose items are read by `read`. -/
def listOf? {α : Type} (read : Json → Option α) (v : Json) : Option (List α) :=
  v.items? >>= fun items => items.mapM read

/-- A value that is an object, or an array of the values of its fields in order, as an object. The
first `needed` fields of an array have to be there. -/
def record? (names : List String) (needed : Nat) : Json → Option Json
  | .object fields => some (.object fields)
  | .array items =>
    if needed ≤ items.length ∧ items.length ≤ names.length then some (.object (names.zip items))
    else none
  | _ => none

end Json

/-! ## The parts of a message -/

namespace Level

/-- A level by its key, which may also be the key of a `null` that stands alone in an object. -/
def ofJson? : Json → Option Level
  | .str key => ofKey? key
  | .object [(key, .null)] => ofKey? key
  | _ => none

end Level

namespace NodeIds

def toJson (ids : NodeIds) : Json :=
  .object (Level.all.flatMap fun l => fieldIf l.key ((ids.at? l).map .str))

def ofJson? (v : Json) : Option NodeIds := do
  let v ← v.record? (Level.all.map Level.key) 1
  let assembly ← v.required? "assembly" Json.text?
  let collection ← v.optionalText? "collection"
  let testClass ← v.optionalText? "class"
  let method ← v.optionalText? "method"
  let testCase ← v.optionalText? "test-case"
  let test ← v.optionalText? "test"
  some { assembly, collection, testClass, method, testCase, test }

end NodeIds

namespace Duration

def toJson (d : Duration) : Json := .str d.text

def ofJson? (v : Json) : Option Duration := v.text? >>= ofText?

end Duration

namespace Timestamp

def toJson (t : Timestamp) : Json := .str t.text

def ofJson? (v : Json) : Option Timestamp := v.text? >>= ofText?

end Timestamp

namespace Summary

def toJson (s : Summary) : Json :=
  .object [("total", .ofNat s.total), ("failed", .ofNat s.failed), ("skipped", .ofNat s.skipped),
    ("time", s.time.toJson)]

def ofJson? (v : Json) : Option Summary := do
  let v ← v.record? ["total", "failed", "skipped", "time"] 4
  let total ← v.required? "total" Json.count?
  let failed ← v.required? "failed" Json.count?
  let skipped ← v.required? "skipped" Json.count?
  let time ← v.required? "time" Duration.ofJson?
  some { total, failed, skipped, time }

end Summary

namespace ErrorRecord

def toJson (r : ErrorRecord) : Json :=
  .object [("exception-types", .array (r.types.map ofText?)), ("messages", ofTexts r.messages),
    ("stack-traces", .array (r.stackTraces.map ofText?)),
    ("exception-parent-indices", .array (r.parents.map .int))]

def ofJson? (v : Json) : Option ErrorRecord := do
  let v ← v.record? ["exception-types", "messages", "stack-traces", "exception-parent-indices"] 4
  let types ← v.required? "exception-types" (Json.listOf? Json.textOrNull?)
  let messages ← v.required? "messages" (Json.listOf? Json.text?)
  let stackTraces ← v.required? "stack-traces" (Json.listOf? Json.textOrNull?)
  let parents ← v.required? "exception-parent-indices" (Json.listOf? Json.index?)
  some { types, messages, stackTraces, parents }

end ErrorRecord

namespace Traits

def toJson (t : Traits) : Json := .object (t.entries.map fun e => (e.1, ofTexts e.2))

def ofJson? (v : Json) : Option Traits := do
  let fields ← v.fields?
  let entries ← fields.mapM fun f => (Json.listOf? Json.text? f.2).map fun values => (f.1, values)
  some (ofList entries)

end Traits

/-! ## Events -/

namespace NodeStart

/-- The fields of a starting message. -/
def fields : NodeStart → List (String × Json)
  | .assembly name path configFile environment time =>
    ("assembly-name", .str name) :: fieldIf "assembly-path" (path.map .str) ++
      fieldIf "config-file-path" (configFile.map .str) ++
      [("test-environment", .str environment), ("start-time", time.toJson)]
  | .collection displayName definition =>
    ("display-name", .str displayName) :: fieldIf "definition" (definition.map .str)
  | .testClass name => [("class-name", .str name)]
  | .method name => [("method-name", .str name)]
  | .testCase displayName skipReason traits =>
    ("display-name", .str displayName) :: fieldIf "skip-reason" (skipReason.map .str) ++
      fieldIf "traits" (if traits.isEmpty then none else some traits.toJson)
  | .test displayName => [("display-name", .str displayName)]

/-- Reads the fields of the starting message of a level. -/
def ofFields? (v : Json) : Level → Option NodeStart
  | .assembly => do
    let name ← v.required? "assembly-name" Json.text?
    let path ← v.optionalText? "assembly-path"
    let configFile ← v.optionalText? "config-file-path"
    let environment ← v.required? "test-environment" Json.text?
    let time ← v.required? "start-time" Timestamp.ofJson?
    some (.assembly name path configFile environment time)
  | .collection => do
    let displayName ← v.required? "display-name" Json.text?
    let definition ← v.optionalText? "definition"
    some (.collection displayName definition)
  | .testClass => (v.required? "class-name" Json.text?).map .testClass
  | .method => (v.required? "method-name" Json.text?).map .method
  | .testCase => do
    let displayName ← v.required? "display-name" Json.text?
    let skipReason ← v.optionalText? "skip-reason"
    let traits ← v.defaulted? "traits" Traits.empty Traits.ofJson?
    some (.testCase displayName skipReason traits)
  | .test => (v.required? "display-name" Json.text?).map .test

end NodeStart

namespace Event

/-- The fields of an event. -/
def fields : Event → List (String × Json)
  | .starting node => node.fields
  | .finished _ summary => [("summary", summary.toJson)]
  | .cleanupFailure _ record => [("error", record.toJson)]
  | .construction _ => []
  | .before _ hook => [("hook", .str hook)]
  | .after _ hook => [("hook", .str hook)]
  | .disposal _ => []
  | .output text => [("output", .str text)]
  | .passed time written => [("execution-time", time.toJson), ("output", .str written)]
  | .failed time written record =>
    [("execution-time", time.toJson), ("output", .str written), ("error", record.toJson)]
  | .skipped reason => [("reason", .str reason)]
  | .testFinished time written => [("execution-time", time.toJson), ("output", .str written)]
  | .diagnostic text => [("message", .str text)]
  | .error record => [("error", record.toJson)]

/-- The summary field of a finished message. -/
def finished? (v : Json) (group : GroupLevel) : Option Event :=
  (v.required? "summary" Summary.ofJson?).map (.finished group)

/-- The error field of a cleanup failure. -/
def cleanupFailure? (v : Json) (level : Level) : Option Event :=
  (v.required? "error" ErrorRecord.ofJson?).map (.cleanupFailure level)

/-- The hook field of a message about a hook. -/
def hook? (v : Json) : Option String := v.required? "hook" Json.text?

/-- The output field of a message about a test. -/
def output? (v : Json) : Option String := v.defaulted? "output" "" Json.text?

/-- The time that a test took. -/
def executionTime? (v : Json) : Option Duration := v.required? "execution-time" Duration.ofJson?

/-- Reads the fields of the event with a name. -/
def ofFields? (v : Json) : String → Option Event
  | "assembly-starting" => (NodeStart.ofFields? v .assembly).map .starting
  | "collection-starting" => (NodeStart.ofFields? v .collection).map .starting
  | "class-starting" => (NodeStart.ofFields? v .testClass).map .starting
  | "method-starting" => (NodeStart.ofFields? v .method).map .starting
  | "case-starting" => (NodeStart.ofFields? v .testCase).map .starting
  | "test-starting" => (NodeStart.ofFields? v .test).map .starting
  | "assembly-finished" => finished? v .assembly
  | "collection-finished" => finished? v .collection
  | "class-finished" => finished? v .testClass
  | "method-finished" => finished? v .method
  | "case-finished" => finished? v .testCase
  | "assembly-cleanup-failure" => cleanupFailure? v .assembly
  | "collection-cleanup-failure" => cleanupFailure? v .collection
  | "class-cleanup-failure" => cleanupFailure? v .testClass
  | "method-cleanup-failure" => cleanupFailure? v .method
  | "case-cleanup-failure" => cleanupFailure? v .testCase
  | "test-cleanup-failure" => cleanupFailure? v .test
  | "test-class-construction-starting" => some (.construction .starting)
  | "test-class-construction-finished" => some (.construction .finished)
  | "before-test-starting" => (hook? v).map (.before .starting)
  | "before-test-finished" => (hook? v).map (.before .finished)
  | "after-test-starting" => (hook? v).map (.after .starting)
  | "after-test-finished" => (hook? v).map (.after .finished)
  | "test-class-dispose-starting" => some (.disposal .starting)
  | "test-class-dispose-finished" => some (.disposal .finished)
  | "test-output" => (v.required? "output" Json.text?).map .output
  | "test-passed" => do
    let time ← executionTime? v
    let written ← output? v
    some (.passed time written)
  | "test-failed" => do
    let time ← executionTime? v
    let written ← output? v
    let record ← v.required? "error" ErrorRecord.ofJson?
    some (.failed time written record)
  | "test-skipped" => (v.required? "reason" Json.text?).map .skipped
  | "test-finished" => do
    let time ← executionTime? v
    let written ← output? v
    some (.testFinished time written)
  | "diagnostic" => (v.required? "message" Json.text?).map .diagnostic
  | "error" => (v.required? "error" ErrorRecord.ofJson?).map .error
  | _ => none

/-- The name of an event, which may also be given by its number. -/
def nameOf? : Json → Option String
  | .str name => some name
  | .int n => if 0 ≤ n then names[n.toNat]? else none
  | _ => none

end Event

/-! ## Messages -/

namespace Message

/-- A message as JSON. -/
def toJson (m : Message) : Json :=
  .object (("ids", m.ids.toJson) :: ("type", .str m.event.name) :: m.event.fields)

/-- The message that a value stands for. -/
def ofJson? (v : Json) : Option Message := do
  let ids ← v.required? "ids" NodeIds.ofJson?
  let name ← v.required? "type" Event.nameOf?
  let event ← Event.ofFields? v name
  some { ids, event }

end Message

end TestEngine
