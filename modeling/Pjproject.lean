import Pjproject.Lib.BinaryHeap
import Pjproject.Lib.FreeList
import Pjproject.Lib.Bytes
import Pjproject.Time
import Pjproject.TimerHeap
import Pjproject.TimerReheap
import Pjproject.TimerInvariant
import Pjproject.TimerSchedule
import Pjproject.TimerService
import Pjproject.TimerPoll
import Pjproject.TimerRun
import Pjproject.StunMsg
import Pjproject.StunDecode
import Pjproject.StunBounds
import Pjproject.StunEncodeBounds
import Pjproject.StunRoundTrip
import Pjproject.StunAuth
import Pjproject.StunIntegrity
import Pjproject.StunProtected
import Pjproject.Lib.Ring
import Pjproject.JbufFrameList
import Pjproject.Jbuf
import Pjproject.JbufWindow
import Pjproject.JbufInvariant
import Pjproject.JbufRun
import Pjproject.JbufDelivery
import Pjproject.TsxModel
import Pjproject.TsxHandlers
import Pjproject.TsxSend
import Pjproject.TsxAccount
import Pjproject.TsxPending
import Pjproject.TsxClient
import Pjproject.TsxMachine
import Pjproject.TsxRefine
import Pjproject.TsxDiscipline
import Pjproject.Rtp
import Pjproject.TsxKey
import Pjproject.IceModel
import Pjproject.IceRoles
import Pjproject.IceNomination
import Pjproject.IceChecks
import Pjproject.IcePairs
import Pjproject.Lib.Keyed
import Pjproject.Lib.Local
import Pjproject.StunTsx
import Pjproject.StunSession
import Pjproject.StunCompletion
import Pjproject.TurnSession
import Pjproject.TurnShutdown
import Pjproject.TurnFinal
import Pjproject.StunLocal
import Pjproject.TurnFraming
import Pjproject.IceProgress
import Pjproject.TurnClient
import Pjproject.TurnServers
import Pjproject.TurnChannels
import Pjproject.PrackModel
import Pjproject.PrackOrder
import Pjproject.PrackQueue
import Pjproject.SessionTimer
import Pjproject.SessionAgreement
import Pjproject.SdpPools
import Pjproject.SdpLifetimes
import Pjproject.Lib.RedBlack
import Pjproject.RbTree
import Pjproject.Lib.Tally
import Pjproject.ConferencePorts
import Pjproject.ConferenceGraph
import Pjproject.ConferenceFull
import Pjproject.Rtcp
import Pjproject.RtcpBounds
import Pjproject.DnsCache
import Pjproject.DnsCacheLife
import Pjproject.Resolver
import Pjproject.ResolverRoles
import Pjproject.ResolverTokens
import Pjproject.ResolverSteps
import Pjproject.ResolverRun
import Pjproject.ResolverAnswers
import Pjproject.ResolverCalls
import Pjproject.SrvResolver
import Pjproject.SrvEntries
import Pjproject.SrvReports
import Pjproject.SessionRefresh
import Pjproject.Multipart
import Pjproject.Strtol
import Pjproject.MultipartHeaders
import Pjproject.MultipartRoundTrip
import Pjproject.RtpInOrder
import Pjproject.RtpDecode
import Pjproject.TimerCancel
import Pjproject.TimerRefusal
import Pjproject.StunComplete
import Pjproject.StunSelfCheck
import Pjproject.Crc32
import Pjproject.Lib.Progress
import Pjproject.Scanner
import Pjproject.XmlParse
import Pjproject.XmlTermination
import Pjproject.Lib.Rounding
import Pjproject.JsonModel
import Pjproject.JsonStrings
import Pjproject.JsonNumbers
import Pjproject.JsonValues
import Pjproject.JsonRoundTrip
import Pjproject.GenericHeader
import Pjproject.JbufPeek
import Pjproject.JbufLevels
import Pjproject.DnsPacket
import Pjproject.DnsSync
import Pjproject.DnsQuery
import Pjproject.SdpReoffer
import Pjproject.SdpSymmetric
import Pjproject.SdpPairs
import Pjproject.Lib.SelectionSort
import Pjproject.IceCheckList
import Pjproject.IcePriority
import Pjproject.Base64
import Pjproject.EvSub
import Pjproject.Lib.Assoc
import Pjproject.PjString
import Pjproject.SipUri
import Pjproject.TsxBackoff
import Pjproject.ConferenceLevels
import Pjproject.Lib.LinkedList
import Pjproject.HashTable
import Pjproject.HashRefine
import Pjproject.HashCalls
import Pjproject.HashRun
import Pjproject.Lib.LinkedTree
import Pjproject.RbNodes
import Pjproject.RbLinks
import Pjproject.RbOrder
import Pjproject.RbCalls
import Pjproject.RbWalk
import Pjproject.RbErase
import Pjproject.RbSet
import Pjproject.Lib.BoundedPrint
import Pjproject.UriPrint
import Pjproject.UriPrintSteps
import Pjproject.UriPrintBounds
import Pjproject.UriPrintExact
import Pjproject.SrvOrder
import Pjproject.SrvAddresses
import Pjproject.DnsNames
import Pjproject.DnsChase
import Pjproject.Lib.CheckedPrint
import Pjproject.XmlPrint
import Pjproject.JsonWriter
import Pjproject.RtcpRoundTrip
import Pjproject.RtcpLoss
import Pjproject.RtcpFeedback
import Pjproject.Lib.Spans
import Pjproject.CircBuf
import Pjproject.CircBufQueue
import Pjproject.Lib.Outcome
import Pjproject.XmlReread
import Pjproject.XmlSteps
import Pjproject.XmlGauge
import Pjproject.XmlRoundTrip
