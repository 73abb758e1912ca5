import Spectty.Lib.Prog
import Spectty.Lib.Pool
import Spectty.Lib.Atomic
import Spectty.Lib.Serial
import Spectty.Lib.Machine
import Spectty.Lib.Fifo
import Spectty.Lib.Text
import Spectty.Lib.IndexMap
import Spectty.Lib.Json
import Spectty.Lib.JsonText
import Spectty.Lib.JsonSchema
import Spectty.Lib.Kv
import Spectty.Lib.Places
import Spectty.Lib.FileSystem
import Spectty.Lib.Serde
import Spectty.Lib.Decimal
import Spectty.Lib.Window
import Spectty.Lib.Words
import Spectty.Core.AgentStatus
import Spectty.Core.Session
import Spectty.Core.Spec
import Spectty.Core.Progress
import Spectty.Core.Provisioning
import Spectty.Adapters.OutputSignal
import Spectty.Adapters.AgentRunner
import Spectty.Adapters.Hook
import Spectty.Adapters.Coalescer
import Spectty.Adapters.FileWatch
import Spectty.Effects
import Spectty.Adapters.Engram
import Spectty.Adapters.Observations
import Spectty.Adapters.EngramHttp
import Spectty.Adapters.EngramStore
import Spectty.SpecBus
import Spectty.Commands.Spec
import Spectty.Mcp.Tools
import Spectty.Mcp.SpecSchema
import Spectty.Mcp.Stdio
import Spectty.Mcp.LongPoll
import Spectty.SessionRuntime
import Spectty.Commands.Pty
import Spectty.Approval.Documents
import Spectty.Approval.Sequential
import Spectty.Approval.Calls
import Spectty.Approval.Concurrent
import Spectty.Approval.Visible
import Spectty.Gate
import Spectty.Status.Rounds
import Spectty.Status.Terminal
import Spectty.Status.Authority
import Spectty.Status.Trace
import Spectty.Status.Coherence
import Spectty.Status.IdleTimeout
import Spectty.Status.Resume
import Spectty.Provision.JsonNamespace
import Spectty.Provision.McpEditor
import Spectty.Provision.Provisioner
import Spectty.Provision.HooksEditor
import Spectty.Provision.HooksForeign
import Spectty.Provision.Operation
import Spectty.Provision.FileIo
import Spectty.Provision.AtomicWrite
import Spectty.Provision.Backup
import Spectty.Provision.Serializable
import Spectty.Provision.Ownership
import Spectty.Commands.Session
import Spectty.Sessions.Steps
import Spectty.Sessions.Invariants
import Spectty.Sessions.Provisioned
import Spectty.Sessions.Leftovers
import Spectty.Sessions.FailedSpawn
import Spectty.Commands.Teardown
import Spectty.Hook.Handler
import Spectty.Hook.Files
import Spectty.Hook.Invocations
import Spectty.Hook.Overlapping
import Spectty.Hook.Sequential
import Spectty.Hook.Bursts
import Spectty.Hook.Recovery
import Spectty.Hook.RuntimeDir
import Spectty.Specs.PollBus
import Spectty.Specs.Attach
import Spectty.Specs.Restarts
import Spectty.Specs.TopicKeys
import Spectty.Diff.Pipeline
import Spectty.Diff.Slot
import Spectty.Diff.Dedup
import Spectty.Diff.Edits
import Spectty.Diff.Panel
import Spectty.Diff.Explanation
import Spectty.Diff.VibeLens
import Spectty.Diff.UnifiedDiff
import Spectty.Diff.Adapter
import Spectty.Diff.Passes
import Spectty.Diff.Watched
import Spectty.Diff.Announced
import Spectty.Output.Stripping
import Spectty.Output.Window
import Spectty.Output.Dropped
import Spectty.Output.Patterns
import Spectty.Ui.UseSession
import Spectty.Ui.App
import Spectty.Ui.Panes
import Spectty.Ui.Decisions
import Spectty.Ui.OutputChannel
import Spectty.Ui.UseTerminal
import Spectty.Terminals.Threads
import Spectty.Terminals.Registry
import Spectty.Terminals.Launch
