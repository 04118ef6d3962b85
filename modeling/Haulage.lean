import Haulage.Lifecycle.Controller
import Haulage.Main
import Haulage.Proofs.Lifecycle.Dispatch
import Haulage.Proofs.Run.Appending
import Haulage.Proofs.Run.CutShort
import Haulage.Proofs.Run.FilesKept
import Haulage.Proofs.Run.Incremental
import Haulage.Proofs.Run.SourceKept
import Haulage.Text.Utf8.RoundTrip
import Haulage.Proofs.Lifecycle.Collectors
import Haulage.Proofs.Connections.RoundTrip
import Haulage.Proofs.Connections.History
import Haulage.Proofs.Json.Texts
import Haulage.Proofs.Telemetry.Filing
import Haulage.Proofs.Telemetry.Flushing
import Haulage.Proofs.Telemetry.Forecast
import Haulage.Proofs.Telemetry.Properties
import Haulage.Proofs.Telemetry.Runtime
import Haulage.Proofs.Telemetry.Tags
import Haulage.Proofs.Run.Progress
import Haulage.Proofs.Copy.Keys
import Haulage.Proofs.Copy.Columns
import Haulage.Proofs.Copy.Contents
import Haulage.Proofs.Copy.Planning
import Haulage.Proofs.Copy.Batches
import Haulage.Proofs.Run.Batches
import Haulage.Proofs.Copy.Stopping
import Haulage.Proofs.Copy.BeyondLimit
import Haulage.Proofs.Copy.Exclusion
import Haulage.Proofs.Lifecycle.Recording
import Haulage.Proofs.Json.Members
import Haulage.Proofs.Settings.Warnings
import Haulage.Proofs.Telemetry.Grouping
import Haulage.Proofs.Discovery.HeaderColumns
import Haulage.Proofs.Discovery.Patterns
import Haulage.Proofs.Files.Trees
import Haulage.Proofs.Discovery.Search
import Haulage.Proofs.Connections.Arguments
import Haulage.Proofs.Run.OptionRecord
import Haulage.Proofs.Connections.TableColumns
import Haulage.Proofs.Copy.ValueOrder
import Haulage.Proofs.CommandLine.Assignments
import Haulage.Proofs.CommandLine.RunArguments
import Haulage.Proofs.CommandLine.SeparateValues
