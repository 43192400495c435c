import KCLLanguageServer.Protocol.Types
import KCLLanguageServer.Protocol.Url
import KCLLanguageServer.Protocol.UrlRoundTrip
import KCLLanguageServer.Server.Vfs
import KCLLanguageServer.Index.WordIndex
import KCLLanguageServer.Server.Collaborators
import KCLLanguageServer.Server.State
import KCLLanguageServer.Server.Notification
import KCLLanguageServer.Server.Request
import KCLLanguageServer.Server.EventLoop
import KCLLanguageServer.Server.Frames
import KCLLanguageServer.Index.FindRefs
import KCLLanguageServer.Loop.Recompile
import KCLLanguageServer.Loop.Lifecycle
import KCLLanguageServer.Loop.Responses
import KCLLanguageServer.Loop.Errors
import KCLLanguageServer.Loop.Diagnostics
import KCLLanguageServer.Index.FileEvents
import KCLLanguageServer.Requests.Formatting
import KCLLanguageServer.Index.Incremental
import KCLLanguageServer.Requests.References
import KCLLanguageServer.Requests.Workers
import KCLLanguageServer.Loop.World
import KCLLanguageServer.Loop.Refinement
import KCLLanguageServer.Loop.Linearizable
import KCLLanguageServer.Loop.Sequential
