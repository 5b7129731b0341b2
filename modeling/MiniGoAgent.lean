import MiniGoAgent.Protocol.Truncated
import MiniGoAgent.Protocol.ThinkBlocks
import MiniGoAgent.Protocol.HostSpelling
import MiniGoAgent.Protocol.Backoff
import MiniGoAgent.Protocol.Fallback
import MiniGoAgent.Protocol.SharedUsage
import MiniGoAgent.Protocol.Telemetry
import MiniGoAgent.Adk.BridgeCalls
import MiniGoAgent.Session.Restart
import MiniGoAgent.Protocol.BreakerTrials
import MiniGoAgent.Protocol.Guarded
import MiniGoAgent.Adk.Convert
import MiniGoAgent.Server.Turns
import MiniGoAgent.Server.Vision
import MiniGoAgent.Adk.WrappedTool
import MiniGoAgent.Adk.RunnerSession
import MiniGoAgent.Protocol.RateCancel
import MiniGoAgent.Adk.BridgeErrors
import MiniGoAgent.Protocol.BusStop
import MiniGoAgent.Protocol.Hooks
import MiniGoAgent.Protocol.KeyCalls
import MiniGoAgent.Adk.Lifecycle
import MiniGoAgent.Adk.Window
import MiniGoAgent.Protocol.RedactBody
import MiniGoAgent.Protocol.RawLog
import MiniGoAgent.Adk.Executor
import MiniGoAgent.Adk.Probes
import MiniGoAgent.Protocol.WireMessages
import MiniGoAgent.Protocol.WireTools
import MiniGoAgent.Protocol.DailyStats
import MiniGoAgent.Tools.Pages
import MiniGoAgent.Tools.FilterDiff
import MiniGoAgent.Tools.Glob
import MiniGoAgent.Tools.Grep
import MiniGoAgent.Tools.Filters
import MiniGoAgent.Tools.CommandLine
import MiniGoAgent.Adk.Subscriptions
import MiniGoAgent.Adk.Onion
