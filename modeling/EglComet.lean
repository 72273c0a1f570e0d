import EglComet.Library.Transition
import EglComet.Registry.Invariants
import EglComet.Library.MachineInt
import EglComet.AnalyseReq.PostData
import EglComet.AnalyseReq.FrameStream
import EglComet.AnalyseReq.RoundTrip
import EglComet.WorkThread.Sessions
import EglComet.WorkThread.Logins
import EglComet.WorkThread.Relay
import EglComet.WorkThread.NewConn
import EglComet.WorkThread.Isolation
import EglComet.WorkThread.Custody
import EglComet.WorkThread.LiveKeys
import EglComet.WorkThread.Answers
import EglComet.WorkThread.Delivery
import EglComet.WorkThread.Agreement
import EglComet.WorkThread.HttpRequests
import EglComet.WorkThread.NoticeBuffers
import EglComet.WorkThread.Leftover
import EglComet.WorkThread.Admission
import EglComet.WorkThread.Failover
import EglComet.WorkThread.Sweep
import EglComet.WorkThread.HandOver
import EglComet.WorkThread.Ordering
import EglComet.AnalyseReq.PostBody
import EglComet.AnalyseReq.RelayRecord
import EglComet.AnalyseReq.ScanBounds
import EglComet.WorkThread.PipeRetry
import EglComet.WorkThread.RedisReplies
import EglComet.WorkThread.LoginPaths
import EglComet.WorkThread.Expiry
import EglComet.WorkThread.FanOut
import EglComet.WorkThread.ZeroId
import EglComet.SingletonLog
import EglComet.Libevent.Evbuffer
import EglComet.AnalyseReq.SocketStream
import EglComet.AnalyseReq.Delimited
import EglComet.WorkThread.Streams
import EglComet.WorkThread.Addressee
import EglComet.Protobuf.Generated
import EglComet.Protobuf.Serialized
import EglComet.LogRotation
import EglComet.WorkThread.Balance
import EglComet.WorkThread.FailoverHistory
import EglComet.WorkThread.Shutdown
import EglComet.Client.Inbound
import EglComet.Client.Outbound
