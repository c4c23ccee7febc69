import Splice.Lib.Incremental
import Splice.Lib.Radix
import Splice.Lib.HexStream
import Splice.Lib.Base64
import Splice.Lib.StreamReader
import Splice.Lib.CrlfLines
import Splice.Lib.ComposedWrite
import Splice.Lib.Transition
import Splice.Lib.HandOver
import Splice.Lib.Recognizer
import Splice.Lib.PathWalk
import Splice.Lib.LastSegment
import Splice.Lib.WhileLoop
import Splice.Lib.StdSet
import Splice.Lib.Subscription
import Splice.Lib.Spawning
import Splice.CommonTypes
import Splice.LogInterface
import Splice.ByteOrder
import Splice.DataFrame
import Splice.DataFrameParser
import Splice.FrameBody
import Splice.FrameFormat
import Splice.FrameDecode
import Splice.FrameRoundTrip
import Splice.FrameHistory
import Splice.FrameOverlap
import Splice.FrameStream
import Splice.HostOrder
import Splice.FrameValidity
import Splice.WsSession
import Splice.CompleteMessages
import Splice.Serialization
import Splice.SerializationHeader
import Splice.AsyncWrite
import Splice.RequestParser
import Splice.LogReduce
import Splice.RequestGrammar
import Splice.Rfc6455Engine
import Splice.HttpServer
import Splice.HeadersBack
import Splice.RequestLanguage
import Splice.VersionNumbers
import Splice.ReplyWire
import Splice.UrlDecode
import Splice.DocRoot
import Splice.ContentType
import Splice.Handshake
import Splice.HandlerStatements
import Splice.MultiProtocol
import Splice.MonoProtocol
import Splice.Exchange
import Splice.EchoServer
import Splice.FallThrough
import Splice.Upgrade
import Splice.UpgradeRequest
import Splice.RequestAnswer
import Splice.Segmentation
import Splice.AcceptKey
import Splice.HttpService
import Splice.DeadEnd
import Splice.PayloadBound
import Splice.SocketLifetime
import Splice.HttpReply
import Splice.RequestHandler
import Splice.WrittenReplies
import Splice.ServerFrames
import Splice.LogSessions
import Splice.LogDelivery
import Splice.LogQuiet
import Splice.WsAnswers
import Splice.Dispatch
import Splice.TcpEcho
import Splice.RawClient
import Splice.SerializeClient
import Splice.SerializeAgreement
import Splice.SerializeShortReads
import Splice.SerializeProgress
import Splice.SerializeReply
import Splice.AcceptLoop
