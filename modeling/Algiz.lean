import Algiz.Lib.Lines
import Algiz.Bytes
import Algiz.Net.Connection
import Algiz.Net.HandleRead
import Algiz.Net.LineMode
import Algiz.Net.Removal
import Algiz.Net.RawMode
import Algiz.Net.PendingClose
import Algiz.Lib.Map
import Algiz.Lib.Transition
import Algiz.Net.Server
import Algiz.Net.Interleaving
import Algiz.Net.CloseQueue
import Algiz.HTTP.WebSocketHandlers
import Algiz.Util
import Algiz.HTTP.Request
import Algiz.HTTP.Client
import Algiz.HTTP.Server
import Algiz.HTTP.Frame
import Algiz.Lib.Blocks
import Algiz.HTTP.WebSocketReceive
import Algiz.Core
import Algiz.HTTP.Sent
import Algiz.HTTP.Exchange
import Algiz.HTTP.KeepAlive
import Algiz.Net.SSLServer
import Algiz.Net.Certificates
import Algiz.Threading.ThreadPool
import Algiz.Lib.Mutex
import Algiz.Threading.EventLoop
import Algiz.Lib.Counting
import Algiz.ProbChess.Board
import Algiz.ProbChess.Players
import Algiz.ProbChess.Match
import Algiz.ProbChess.Game
import Algiz.ProbChess.Pieces
import Algiz.ProbChess.Turns
import Algiz.ProbChess.ProbabilityChess
import Algiz.Lib.Path
import Algiz.Lib.FileTree
import Algiz.Lib.Trace
import Algiz.HTTP.Configs
import Algiz.Lib.Loop
import Algiz.HTTP.Options
import Algiz.Lib.Base64
import Algiz.HTTP.Authentication
import Algiz.HTTP.MIME
import Algiz.Fileserv.Sending
import Algiz.Fileserv.Fileserv
import Algiz.Fileserv.Runs
import Algiz.Fileserv.Found
import Algiz.Fileserv.Opened
import Algiz.Fileserv.Responses
import Algiz.Fileserv.ContentLength
import Algiz.Fileserv.Protected
import Algiz.Fileserv.Closing
import Algiz.Fileserv.Credentials
import Algiz.Lib.Reader
import Algiz.HTTP.WebSocketSend
import Algiz.HTTP.ResponseText
import Algiz.Fileserv.ValidRanges
import Algiz.HTTP.Head
import Algiz.HTTP.Body
import Algiz.HTTP.HeaderCase
import Algiz.HTTP.Fragments
import Algiz.HTTP.ControlFrames
import Algiz.Net.Ensures
import Algiz.HTTP.MaxRead
import Algiz.Lib.SharedMutex
import Algiz.Fileserv.ModuleCache
import Algiz.Fileserv.ModuleLocks
import Algiz.Fileserv.ModuleLifetime
import Algiz.Lib.Escape
import Algiz.Unescape
import Algiz.HTTP.Parameters
import Algiz.HTTP.RangeGrammar
import Algiz.Plugins.Redirect
import Algiz.Fileserv.RangeRequests
import Algiz.Fileserv.Bodies
import Algiz.Fileserv.Access
import Algiz.Plugins.Game3CI
import Algiz.Lib.Fifo
import Algiz.Plugins.LetsEncrypt
import Algiz.Lib.Scan
import Algiz.ProbChess.Reach
import Algiz.ProbChess.Check
import Algiz.ProbChess.Preference
import Algiz.ProbChess.Notices
import Algiz.ProbChess.Moves
import Algiz.ProbChess.Messages
import Algiz.Lib.Gaps
import Algiz.ProbChess.FEN
import Algiz.ProbChess.LoadFEN
import Algiz.ProbChess.Rerolls
import Algiz.Lib.Follow
import Algiz.ProbChess.Broadcasts
import Algiz.Lib.Recency
import Algiz.Fileserv.ModuleCalls
import Algiz.Fileserv.ModuleErrors
import Algiz.Fileserv.ModuleRecency
import Algiz.Fileserv.Preprocessor
import Algiz.Lib.Cut
import Algiz.Split
import Algiz.Lib.Saturation
import Algiz.Numbers
import Algiz.Plugins.Ansuz
import Algiz.Plugins.Calculator
import Algiz.Lib.Literal
import Algiz.Fileserv.Echo
import Algiz.HTTP.HeaderNames
import Algiz.Lib.Tokens
import Algiz.HTTP.Protocols
import Algiz.Lib.Sorting
import Algiz.Fileserv.RangeOrder
import Algiz.ProbChess.Listing
import Algiz.Lib.LockOrder
import Algiz.Lib.LockScopes
import Algiz.Net.LockOrder
import Algiz.Net.Accepting
import Algiz.Net.Drained
import Algiz.Plugins.WSEcho
import Algiz.Threading.Lifetime
import Algiz.Threading.Joining
import Algiz.Threading.Serving
import Algiz.Plugins.PluginHost
import Algiz.HTTP.Watching
import Algiz.Lib.Dialogue
import Algiz.Plugins.Building
