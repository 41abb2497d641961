import Wokcore.Server.ProviderConsistency
import Wokcore.Protocols.ToolLoop
import Wokcore.Protocols.Parameters
import Wokcore.Protocols.OwnBody
import Wokcore.Protocols.Outbound.Client
import Wokcore.Server.DataPlane.Execute
import Wokcore.Protocols.Loopback.ResponsesBody
import Wokcore.Protocols.Loopback.Anthropic
import Wokcore.Protocols.Loopback.Chat
import Wokcore.Engine.Transport
import Wokcore.Engine.Routing
import Wokcore.Engine.Restore
import Wokcore.Server.LifecycleSnapshot
import Wokcore.Protocols.Outbound.AnthropicResponse
import Wokcore.Protocols.Outbound.ResponsesStream
import Wokcore.Protocols.Outbound.ChatResponse
import Wokcore.Storage.WalReplay
import Wokcore.Storage.SessionPromotion
import Wokcore.Storage.StateWriterRuns
import Wokcore.Storage.ConfigProcesses
import Wokcore.Server.AuthConsistency
import Wokcore.Protocols.Images
import Wokcore.Sessions.SourceKeys
import Wokcore.Protocols.Stream.LineEnds
import Wokcore.Diagnostics.Coordinator
import Wokcore.Diagnostics.Cooldown
