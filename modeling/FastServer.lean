import FastServer.Ladder
import FastServer.TimerDeadline
import FastServer.ByteStream
import FastServer.StrandedOutput
import FastServer.SharedBuffer
import FastServer.Heartbeats
import FastServer.AcceptLoop
import FastServer.FixMutex
import FastServer.FixSequence
import FastServer.Disconnects
import FastServer.MpscRingInvariant
import FastServer.MpscLinkedQueue
import FastServer.MpscCounterQueue
import FastServer.LockFreeQueue
import FastServer.MarketPipeline
import FastServer.Conservation
import FastServer.PacketBuffers
import FastServer.AlgoModule
import FastServer.Trader
import FastServer.FixSessionWire
import FastServer.StreamParser
import FastServer.BatchParser
import FastServer.FixEncoder
import FastServer.Connection
import FastServer.ConnectionRelease
import FastServer.GracefulShutdown
import FastServer.TimerWheel
import FastServer.InactiveRelease
import FastServer.TimerRegistry
import FastServer.ServerTimers
import FastServer.Liveness
import FastServer.EventLoop
import FastServer.EventLoopRuns
import FastServer.ProtocolCodec
import FastServer.EchoServer
import FastServer.AnaServer
import FastServer.HandleRead
import FastServer.PendingClose
import FastServer.TimerCallbacks
import FastServer.TimerSchedule
import FastServer.TimerCancel
import FastServer.RequestSafety
import FastServer.ReplyCodec
import FastServer.FixValidation
import FastServer.LastWrite
import FastServer.FixGrammar
import FastServer.BoundedFifo
import FastServer.CachedHeadQueue
import FastServer.CounterQueue
import FastServer.FlaglessQueue
import FastServer.ReadyFlagQueue
import FastServer.ConcurrentQueue
import FastServer.FixHeader
import FastServer.Calendar
import FastServer.FixedWidth
import FastServer.SendingTime
import FastServer.FixTestRequest
import FastServer.FixAnswers
import FastServer.ArrivalOrder
import FastServer.QueryPurity
import FastServer.AuctionTies
import FastServer.ExactNumbers
import FastServer.ThreadPool
import FastServer.PendingOrders
import FastServer.StreamTermination
import FastServer.StreamRecovery
import FastServer.BatchBounds
import FastServer.ProtocolBounds
import FastServer.LengthPrefixed
import FastServer.AnaBlocks
import FastServer.AnalyzePackets
import FastServer.MarketData
import FastServer.WheelTimeouts
import FastServer.ArrayCopy
import FastServer.ReadWriteBuffer
import FastServer.FieldPatch
import FastServer.OrderIteration
import FastServer.RunningRemainder
import FastServer.FixPipeMessage
import FastServer.CriticalSection
import FastServer.SpinQueue
import FastServer.AuctionArrivals
import FastServer.SpscRingBuffer
import FastServer.SpscTest
import FastServer.MpscTest
import FastServer.MpscTestEnds
import FastServer.ReactorShutdown
import FastServer.FixLogonOnly
import FastServer.ConnectionRegistry
