import JustEnough.Lib.Paths
import JustEnough.Lib.Pool
import JustEnough.Proofs.Authentication
import JustEnough.Proofs.PrintParse
import JustEnough.Proofs.StaticPaths
import JustEnough.Server.ProxyHandler
import JustEnough.Proofs.ProxyReply
import JustEnough.Proofs.ProxyCall
import JustEnough.Proofs.ProxyHistory
import JustEnough.Proofs.ProxyThreads
import JustEnough.Proofs.ServerFailure
import JustEnough.Proofs.Relay
import JustEnough.Server.Handlers
import JustEnough.Server.Connection
import JustEnough.Proofs.Connection
import JustEnough.Proofs.Credentials
import JustEnough.Proofs.Redirects
import JustEnough.Proofs.Injection
import JustEnough.Proofs.Counting
import JustEnough.Proofs.Stop
import JustEnough.Proofs.ReplyLoop
import JustEnough.Proofs.LineEnds
import JustEnough.Proofs.ParserStack
import JustEnough.Proofs.Base64Range
import JustEnough.Proofs.PrefixLookup
import JustEnough.Proofs.ProxiedRequest
import JustEnough.Proofs.Numbers
import JustEnough.Proofs.Location
import JustEnough.Proofs.Loading
import JustEnough.Proofs.RequestLines
import JustEnough.Server.CharAccess
import JustEnough.Proofs.Bounds
import JustEnough.Proofs.ProxyInit
import JustEnough.Server.SyncClient
import JustEnough.Proofs.UpstreamRead
import JustEnough.Proofs.CounterQueries
import JustEnough.Proofs.StatusPage
import JustEnough.Proofs.ResponseCodec
import JustEnough.Proofs.ResponseHeads
import JustEnough.Server.Network
import JustEnough.Proofs.Row
import JustEnough.Lib.Runs
import JustEnough.Proofs.Shutdown
import JustEnough.Proofs.Acceptance
import JustEnough.Proofs.Configured
import JustEnough.Lib.Nesting
import JustEnough.Server.Emphasis
import JustEnough.Proofs.Markers
import JustEnough.Proofs.Emphasis
import JustEnough.Proofs.EmphasisEnds
import JustEnough.Lib.Timeline
import JustEnough.Proofs.StatusMoments
import JustEnough.Server.MarkdownTokens
import JustEnough.Server.Markdown
import JustEnough.Proofs.EscapedText
import JustEnough.Proofs.MarkdownPage
import JustEnough.Proofs.MarkdownLines
import JustEnough.Proofs.Paragraphs
