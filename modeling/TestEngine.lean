import TestEngine.Bus.Asynchronous
import TestEngine.Bus.Delivery
import TestEngine.Bus.Synchronous
import TestEngine.Bus.Traffic
import TestEngine.Digest.Sha256
import TestEngine.Digest.XxHash64
import TestEngine.ErrorRecord
import TestEngine.Failure.Aggregator
import TestEngine.Failure.Basic
import TestEngine.Failure.Cause
import TestEngine.Fixture.Basic
import TestEngine.Fixture.Teardown
import TestEngine.Json.Reader
import TestEngine.Json.Text
import TestEngine.Json.Value
import TestEngine.Keyed
import TestEngine.Message.Basic
import TestEngine.Message.Codec
import TestEngine.NodeIds
import TestEngine.Number.Shortest
import TestEngine.Number.Width
import TestEngine.Order.Basic
import TestEngine.Program.Code
import TestEngine.Program.Process
import TestEngine.Proofs.Bus.Deliveries
import TestEngine.Proofs.Bus.ManyProducers
import TestEngine.Proofs.Failure.Records
import TestEngine.Proofs.Failure.Renderings
import TestEngine.Proofs.Fixture.Constructions
import TestEngine.Proofs.Fixture.Holdings
import TestEngine.Proofs.Message.RoundTrip
import TestEngine.Proofs.Order.DefaultOrder
import TestEngine.Proofs.Order.Fallbacks
import TestEngine.Proofs.Order.Guarded
import TestEngine.Proofs.Order.LookAlikes
import TestEngine.Proofs.Order.Permutations
import TestEngine.Proofs.Process.Course
import TestEngine.Proofs.Process.Regions
import TestEngine.Proofs.Process.Trace
import TestEngine.Proofs.Run.Answers
import TestEngine.Proofs.Run.Apart
import TestEngine.Proofs.Run.Blocks
import TestEngine.Proofs.Run.Brackets
import TestEngine.Proofs.Run.BusKinds
import TestEngine.Proofs.Run.Cancellation
import TestEngine.Proofs.Run.Chronicle
import TestEngine.Proofs.Run.CleanupIsolation
import TestEngine.Proofs.Run.Counting
import TestEngine.Proofs.Run.Crew
import TestEngine.Proofs.Run.Groups
import TestEngine.Proofs.Run.Inheritance
import TestEngine.Proofs.Run.Invocations
import TestEngine.Proofs.Run.Ledger
import TestEngine.Proofs.Run.Listening
import TestEngine.Proofs.Run.LiveOutput
import TestEngine.Proofs.Run.MethodIsolation
import TestEngine.Proofs.Run.NodeLaw
import TestEngine.Proofs.Run.Nodes
import TestEngine.Proofs.Run.PanickingSinks
import TestEngine.Proofs.Run.Plan
import TestEngine.Proofs.Run.Quiet
import TestEngine.Proofs.Run.Script
import TestEngine.Proofs.Run.SerialRun
import TestEngine.Proofs.Run.SideBySide
import TestEngine.Proofs.Run.StartingOrder
import TestEngine.Proofs.Run.StopLatch
import TestEngine.Proofs.Run.Stopping
import TestEngine.Proofs.Run.Teardowns
import TestEngine.Proofs.Run.Telling
import TestEngine.Proofs.Run.TestSteps
import TestEngine.Proofs.Run.Theories
import TestEngine.Proofs.Run.WindingDown
import TestEngine.Proofs.Run.Workers
import TestEngine.Proofs.Scheduler.Bookkeeping
import TestEngine.Proofs.Scheduler.ManyPosters
import TestEngine.Proofs.Scheduler.Settling
import TestEngine.Proofs.Settings.Conversions
import TestEngine.Proofs.Settings.Inheritance
import TestEngine.Proofs.Settings.Layers
import TestEngine.Proofs.Settings.ThreadLimits
import TestEngine.Proofs.Settings.Values
import TestEngine.Proofs.Summary.Accumulators
import TestEngine.Proofs.Summary.Combinations
import TestEngine.Proofs.Time.DurationText
import TestEngine.Proofs.Time.Timestamp
import TestEngine.Proofs.Toml.Integers
import TestEngine.Proofs.Tree.TestIds
import TestEngine.Proofs.Tree.UniqueIds
import TestEngine.Run.Assembly
import TestEngine.Run.Interpreter
import TestEngine.Run.Lifecycle
import TestEngine.Run.Parallel
import TestEngine.Run.Test
import TestEngine.Run.Thread
import TestEngine.Run.Tree
import TestEngine.Scheduler.Basic
import TestEngine.Settings.Layer
import TestEngine.Settings.Options
import TestEngine.Settings.Profile
import TestEngine.Settings.Source
import TestEngine.Settings.ThreadLimit
import TestEngine.Summary
import TestEngine.Text.Character
import TestEngine.Text.Quoted
import TestEngine.Time.Duration
import TestEngine.Time.DurationText
import TestEngine.Time.Timestamp
import TestEngine.Toml.Lexer
import TestEngine.Toml.Moment
import TestEngine.Toml.Reader
import TestEngine.Toml.Scalar
import TestEngine.Toml.Value
import TestEngine.Traits
import TestEngine.Tree.Argument
import TestEngine.Tree.Basic
import TestEngine.Tree.Recipe
import TestEngine.UniqueId
