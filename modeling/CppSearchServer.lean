import CppSearchServer.Library.TransitionSystem
import CppSearchServer.Library.Composition
import CppSearchServer.Library.Framing
import CppSearchServer.Library.Draining
import CppSearchServer.Library.Json
import CppSearchServer.Bytes
import CppSearchServer.Net.Buffer
import CppSearchServer.Net.Channel
import CppSearchServer.Net.TcpConnection
import CppSearchServer.Net.ConnectionCalls
import CppSearchServer.Net.ConnectionInvariant
import CppSearchServer.Net.Session
import CppSearchServer.Net.Pipeline
import CppSearchServer.Net.IdleTimeout
import CppSearchServer.Net.DrainedClose
import CppSearchServer.Net.ResponseTimings
import CppSearchServer.Observability.RequestLatency
import CppSearchServer.Observability.AtomicCounters
import CppSearchServer.Observability.LatencySnapshot
import CppSearchServer.Net.MeteredConnections
import CppSearchServer.Net.TaskQueue
import CppSearchServer.Net.Server
import CppSearchServer.Net.ServerInvariant
import CppSearchServer.Net.ServerCalls
import CppSearchServer.Net.ServerSteps
import CppSearchServer.Net.FdReuse
import CppSearchServer.Net.PeerSafety
import CppSearchServer.Net.ServerSessions
import CppSearchServer.Net.EpollCalls
import CppSearchServer.Net.TimerQueue
import CppSearchServer.Net.IdleDrain
import CppSearchServer.Net.EventLoopGroup
import CppSearchServer.Concurrency.WorkerPool
import CppSearchServer.Library.Words
import CppSearchServer.Search.Tokenizer
import CppSearchServer.Search.MarkdownChunker
import CppSearchServer.Library.Outline
import CppSearchServer.Search.HeadingPath
import CppSearchServer.Library.UnorderedMap
import CppSearchServer.Library.Sorting
import CppSearchServer.Search.InvertedIndex
import CppSearchServer.Search.SearchService
import CppSearchServer.Search.BruteForce
import CppSearchServer.Library.Numbering
import CppSearchServer.Search.DocumentLoader
import CppSearchServer.Http.HttpRequest
import CppSearchServer.Http.RequestGrammar
import CppSearchServer.Http.QueryStrings
import CppSearchServer.Http.HeaderLookup
import CppSearchServer.Http.TruncatedRequests
import CppSearchServer.Http.HttpResponse
import CppSearchServer.Http.ResponseReader
import CppSearchServer.Http.ClientExchange
import CppSearchServer.Search.LruCache
import CppSearchServer.Library.TtlList
import CppSearchServer.Search.LruRefinement
import CppSearchServer.Search.LruFailure
import CppSearchServer.Search.RedisClient
import CppSearchServer.Search.RedisReplies
import CppSearchServer.Search.SearchCache
import CppSearchServer.Search.CacheStaleness
import CppSearchServer.Search.SearchApplication
import CppSearchServer.Search.JsonOutput
import CppSearchServer.Library.Utf8
import CppSearchServer.Search.Utf8Output
import CppSearchServer.Search.CacheTransparency
import CppSearchServer.Search.Retrieval
import CppSearchServer.Library.LineBreaks
import CppSearchServer.Search.LineEndings
import CppSearchServer.Search.Dominance
import CppSearchServer.Search.Passages
import CppSearchServer.Main.WorkerTask
import CppSearchServer.Main.ServeWithEventLoop
import CppSearchServer.Main.Shutdown
import CppSearchServer.Main.Completions
import CppSearchServer.Main.SearchServer
import CppSearchServer.Main.EndToEnd
import CppSearchServer.Main.RequestFlow
import CppSearchServer.Main.SearchClient
import CppSearchServer.Main.Progress
