import RpcFrmwrk.Registry.TransactionRuns
import RpcFrmwrk.Combase.SharedLockRuns
import RpcFrmwrk.Ipc.FlowControlRuns
import RpcFrmwrk.Ipc.StreamQueueRuns
import RpcFrmwrk.Rpc.StreamReadRuns
import RpcFrmwrk.Rpc.SocketStall
import RpcFrmwrk.Rpc.ControlStreamRuns
import RpcFrmwrk.Rpc.NativeSendRuns
import RpcFrmwrk.Rpc.TaskSchedRuns
import RpcFrmwrk.Ipc.ParallelGrpRuns
import RpcFrmwrk.Ipc.SeqTgMgrRuns
import RpcFrmwrk.Ipc.TaskGroupRuns
import RpcFrmwrk.Ipc.StmWriterRuns
import RpcFrmwrk.Ipc.StmWriterStall
import RpcFrmwrk.Ipc.StmReaderRuns
import RpcFrmwrk.Rpc.WebSockRuns
import RpcFrmwrk.Rpc.LoadBalanceAnswer
import RpcFrmwrk.Fuse.WriteBufRuns
import RpcFrmwrk.Ipc.PortStatRuns
import RpcFrmwrk.Ipc.RespMapRuns
import RpcFrmwrk.Rpc.JsStreamRuns
import RpcFrmwrk.Ipc.FastRpcRuns
import RpcFrmwrk.Registry.FsCheck
import RpcFrmwrk.Registry.NameiWalk
import RpcFrmwrk.Registry.TruncExact
import RpcFrmwrk.Combase.BufferStorageRuns
import RpcFrmwrk.Ipc.RecvCallsRuns
import RpcFrmwrk.Ipc.TimerSvc
import RpcFrmwrk.Rpc.StreamIds
import RpcFrmwrk.Rpc.SockEventsRuns
import RpcFrmwrk.Combase.StlContTrip
import RpcFrmwrk.Ipc.UxPortRuns
import RpcFrmwrk.Ridl.VariantJsonTrip
import RpcFrmwrk.Ridl.DecodeSound
import RpcFrmwrk.Ipc.TokenBucket
import RpcFrmwrk.AppMon.LogRotationRuns
import RpcFrmwrk.Rpc.EventRouteRuns
import RpcFrmwrk.Ipc.MsgMatchTrip
import RpcFrmwrk.Rpc.FrameBoundsRuns
import RpcFrmwrk.Rpc.SecBoundsRuns
import RpcFrmwrk.Rpc.StmRelayRuns
import RpcFrmwrk.Fuse.StreamQuota
import RpcFrmwrk.Fuse.SvrDispatch
import RpcFrmwrk.Fuse.ProxyReqs
import RpcFrmwrk.StParser.SymTab
import RpcFrmwrk.Ridl.CrossLanguage
import RpcFrmwrk.Rpc.PacketDelivery
