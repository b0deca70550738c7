import CppRequest.ExitLoop
import CppRequest.Resumable
import CppRequest.Search
import CppRequest.Text
import CppRequest.Lines
import CppRequest.Message
import CppRequest.ChunkedDecoder
import CppRequest.ResponseParser
import CppRequest.UnreadInput
import CppRequest.DecoderRounds
import CppRequest.FramingFields
import CppRequest.ChunkedFormat
import CppRequest.ChunkedGrammar
import CppRequest.DecoderResumption
import CppRequest.ParserRounds
import CppRequest.ParserResumption
import CppRequest.Segmentation
import CppRequest.MemoryBounds
import CppRequest.Refusals
import CppRequest.SizeArithmetic
import CppRequest.WireResponse
import CppRequest.HeadFormat
import CppRequest.HeadGrammar
import CppRequest.SizeText
import CppRequest.PartialResponse
import CppRequest.ResponseText
import CppRequest.UniqueReading
import CppRequest.LimitEnforcement
import CppRequest.Truncation
import CppRequest.MessageBoundary
import CppRequest.HeaderHistory
import CppRequest.Url
import CppRequest.ChunkSizeGrammar
import CppRequest.RequestSerializer
import CppRequest.RequestReader
import CppRequest.UrlGrammar
import CppRequest.QueryParams
import CppRequest.EffectiveUrl
import CppRequest.Redirect
import CppRequest.DotSegments
import CppRequest.RedirectPaths
import CppRequest.UrlAuthority
import CppRequest.UrlText
import CppRequest.UrlRoundTrip
import CppRequest.PathRedirects
import CppRequest.LocationForms
import CppRequest.Procedure
import CppRequest.Dialogue
import CppRequest.RedirectLoop
import CppRequest.RelativeRedirects
import CppRequest.RedirectChains
import CppRequest.RedirectLimit
import CppRequest.RedirectedRequests
import CppRequest.SendableRedirects
import CppRequest.Sockets
import CppRequest.TcpConnection
import CppRequest.Client
import CppRequest.HandleLedger
import CppRequest.OwnedSockets
import CppRequest.OwnedClients
import CppRequest.HandleOwnership
import CppRequest.LoopProgress
import CppRequest.Capacity
import CppRequest.SocketEvents
import CppRequest.Transmission
import CppRequest.Deadlines
import CppRequest.Timeouts
import CppRequest.LongTimeouts
import CppRequest.Reception
import CppRequest.ConnectionEnd
import CppRequest.WholeResponses
import CppRequest.ConnectionReuse
import CppRequest.Isolation
import CppRequest.Exchanges
import CppRequest.Conversations
import CppRequest.TurnTaking
import CppRequest.HandleMachines
import CppRequest.SocketLives
import CppRequest.CallOrder
import CppRequest.Destinations
import CppRequest.Servers
import CppRequest.Errands
import CppRequest.Failures
import CppRequest.Acceptance
import CppRequest.ParserHistory
import CppRequest.MirroredLoops
import CppRequest.LooserLimits
import CppRequest.Promptness
import CppRequest.EndsInTime
import CppRequest.Latency
import CppRequest.Credit
import CppRequest.PaidCalls
