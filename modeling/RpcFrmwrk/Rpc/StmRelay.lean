import Mathlib.Logic.Function.Basic
import RpcFrmwrk.Library.Machine

/-! How `CStreamRelayBase` takes the streams down. A channel of the local socket is an object, and
its handle is the address of the object: it can come again once the object is out of
`m_mapUxStreams`. Each call waits for the lock, removes the binding under it, and closes both sides
without it, so that calls interleave. Who closes what is recorded by the object, which the code does
not know. Owns the two maps, and the calls that change them; what `CIfTcpStmTransTask` makes of the
end of a read from the TCP stream; the tasks that are queued to close a TCP stream. -/

namespace RpcFrmwrk.Rpc

open RpcFrmwrk.Library

abbrev Handle := UInt64

namespace Relay

def einval : Int32 := -22
def enoent : Int32 := -2
def eexist : Int32 := -17
def enotsup : Int32 := -95
def statusPending : Int32 := 0x10001
def errorState : Int32 := -0x7ffefffd
def errorPortStopped : Int32 := -0x7ffefffa
def errorQueueFull : Int32 := -0x7ffefff2

/-- `EnumPktToken`. -/
def tokData : UInt8 := 1
def tokPing : UInt8 := 2
def tokPong : UInt8 := 3
def tokClose : UInt8 := 4
def tokProgress : UInt8 := 5
def tokFlowCtrl : UInt8 := 6
def tokLift : UInt8 := 7
def tokError : UInt8 := 8

/-- `UXPKT_HEADER_SIZE`. -/
def uxpktHeaderSize : Nat := 5

def tcpConnDefaultCmd : Int32 := 0
def tcpConnDefaultStm : Int32 := 1

/-- `STMSOCK_STMID_FLOOR`. -/
def stmsockStmIdFloor : Int32 := 0x400

/-- `IsReserveStm`. -/
def isReserveStm (iStmId : Int32) : Bool := 0 ≤ iStmId && iStmId < stmsockStmIdFloor

/-- `RemoteToLocal`: the token and what is behind it. -/
def remoteToLocal : List UInt8 → Except Int32 (UInt8 × List UInt8)
  | [] => .error einval
  | byToken :: rest =>
    if byToken = tokData ∨ byToken = tokProgress then
      if (byToken :: rest).length < uxpktHeaderSize then .error einval
      else .ok (byToken, (byToken :: rest).drop uxpktHeaderSize)
    else if byToken ∈ [tokPing, tokPong, tokClose, tokFlowCtrl, tokLift] then .ok (byToken, [])
    else .error einval

/-- `PostEvent` up to `PostTcpStmEvent`: what is posted to the channel. `forwarded` is the result of
`ForwardToLocal`. -/
def postEvent (forwarded : Int32) (pBuf : List UInt8) : Except Int32 (UInt8 × List UInt8) :=
  if pBuf = [] then .error einval
  else
    let byToken : UInt8 := 0
    -- nothing has been read into the token yet
    let remote := if byToken ≠ tokError then remoteToLocal pBuf else .ok (byToken, [])
    match remote with
    | .error ret => .error ret
    | .ok (byToken, pNewBuf) =>
      let ret :=
        if byToken ∈ [tokData, tokPing, tokPong, tokProgress] then forwarded
        else if byToken ∈ [tokClose, tokFlowCtrl, tokLift, tokError] then 0
        else einval
      let ret := if ret = errorQueueFull then statusPending else ret
      if ret < 0 then .error ret else .ok (byToken, pNewBuf)

/-- `HandleIrpResp` of a reading task. The code of an error is copied behind the one byte that the
buffer has. -/
def handleIrpResp (status forwarded : Int32) (pRespData : List UInt8) : Except Int32 (UInt8 × List UInt8) :=
  if status < 0 then postEvent forwarded [if status = errorPortStopped then tokClose else tokError]
  else postEvent forwarded pRespData

/-- `RunTask` of a reading task, with the result of `ReadTcpStream`: an error ends the task. -/
def runTask (ret forwarded : Int32) (pBuf : List UInt8) : Except Int32 (UInt8 × List UInt8) :=
  if ret = statusPending ∨ ret < 0 then .error ret else postEvent forwarded pBuf

end Relay

open Relay

/-! ### The relay -/

/-- The object of a channel, as far as the relay looks at it: its address and `propStreamId`. -/
structure UxStream where
  hChannel : Handle
  iStmId : Int32

/-- A task of the sequential queue that `CloseTcpStream` adds. -/
inductive SeqTask where
  | writeStream (iStmId : Int32) (stm : Option Nat)
  | closeLocalStream (iStmId : Int32) (stm : Option Nat)
deriving DecidableEq

/-- A call of `OnClose`, and how far it has come. -/
inductive Call where
  | onClose (hChannel : Handle)
  | onCloseStm (iStmId : Int32)
  | unlocked (hChannel : Handle) (iStmId : Int32) (bSend : Bool) (stm : Option Nat)
  | tcpClosed (hChannel : Handle)
  | returned (ret : Int32)
deriving DecidableEq

/-- `CStreamRelayBase`, with what has been done to each object of a channel: how often its channel
and its TCP stream were closed, and whether one of its sides has reported an error or a close. -/
structure StreamRelay where
  mapHandleToStmId : Handle → Option Int32
  mapStmIdToHandle : Int32 → Option Handle
  mapUxStreams : Handle → Option Nat
  streams : List UxStream
  seqTasks : List SeqTask
  calls : List Call
  channelCloses : Nat → Nat
  tcpCloses : Nat → Nat
  tcpSide : Nat → Bool
  localSide : Nat → Bool

namespace StreamRelay

def new : StreamRelay :=
  ⟨fun _ => none, fun _ => none, fun _ => none, [], [], [], fun _ => 0, fun _ => 0, fun _ => false, fun _ => false⟩

/-- `BindUxTcpStream`. -/
def bindUxTcpStream (relay : StreamRelay) (hChannel : Handle) (iStmId : Int32) : Int32 × StreamRelay :=
  if relay.mapHandleToStmId hChannel = none then
    (0, { relay with
      mapHandleToStmId := Function.update relay.mapHandleToStmId hChannel (some iStmId)
      mapStmIdToHandle := Function.update relay.mapStmIdToHandle iStmId (some hChannel) })
  else (eexist, relay)

/-- `RemoveBinding`. -/
def removeBinding (relay : StreamRelay) (hChannel : Handle) (iStmId : Int32) : Int32 × StreamRelay :=
  match relay.mapHandleToStmId hChannel with
  | none => (enoent, relay)
  | some bound =>
    if bound ≠ iStmId then (enoent, relay)
    else
      (0, { relay with
        mapHandleToStmId := Function.update relay.mapHandleToStmId hChannel none
        mapStmIdToHandle := Function.update relay.mapStmIdToHandle iStmId none })

/-- One more of the object, where there is one. -/
def bump (count : Nat → Nat) : Option Nat → Nat → Nat
  | none => count
  | some stm => Function.update count stm (count stm + 1)

/-- `CloseLocalStream`. The port accepts the request, or it does not. -/
def closeLocalStream (relay : StreamRelay) (accepted : Bool) (iStmId : Int32) (stm : Option Nat) : StreamRelay :=
  if iStmId < 0 then relay
  else if isReserveStm iStmId then relay
  else if accepted then { relay with tcpCloses := bump relay.tcpCloses stm }
  else relay

/-- `CloseTcpStream`, whose result its callers do not look at. With `bSend` both tasks go to the
queue, or the queue refuses one and the other is cancelled. -/
def closeTcpStream (relay : StreamRelay) (accepted : Bool) (iStmId : Int32) (bSend : Bool) (stm : Option Nat) :
    StreamRelay :=
  if iStmId < 0 then relay
  else if bSend = false then relay.closeLocalStream accepted iStmId stm
  else if accepted then
    { relay with seqTasks := relay.seqTasks ++ [.writeStream iStmId stm, .closeLocalStream iStmId stm] }
  else relay

/-- `CloseChannel`: the object leaves the map, and its stop task goes to the queue. -/
def closeChannel (relay : StreamRelay) (accepted : Bool) (hChannel : Handle) : Int32 × StreamRelay :=
  match relay.mapUxStreams hChannel with
  | none => (enoent, relay)
  | some stm =>
    let removed := { relay with mapUxStreams := Function.update relay.mapUxStreams hChannel none }
    if accepted then (statusPending, { removed with channelCloses := bump relay.channelCloses (some stm) })
    else (errorState, removed)

/-- The next part of a call: `OnClose` of a handle or of a stream id under the lock, `CloseTcpStream`,
`CloseChannel`. -/
def advance (relay : StreamRelay) (accepted : Bool) : Call → Call × StreamRelay
  | .onClose hChannel =>
    if hChannel = 0 then (.returned einval, relay)
    else
      match relay.mapHandleToStmId hChannel with
      | none => (.returned enoent, relay)
      | some iStmId =>
        (.unlocked hChannel iStmId true (relay.mapUxStreams hChannel), (relay.removeBinding hChannel iStmId).2)
  | .onCloseStm iStmId =>
    if iStmId < 0 then (.returned einval, relay)
    else if iStmId = tcpConnDefaultCmd ∨ iStmId = tcpConnDefaultStm then (.returned einval, relay)
    else
      match relay.mapStmIdToHandle iStmId with
      | none => (.returned enoent, relay)
      | some hChannel =>
        (.unlocked hChannel iStmId false (relay.mapUxStreams hChannel), (relay.removeBinding hChannel iStmId).2)
  | .unlocked hChannel iStmId bSend stm => (.tcpClosed hChannel, relay.closeTcpStream accepted iStmId bSend stm)
  | .tcpClosed hChannel =>
    let (ret, closed) := relay.closeChannel accepted hChannel
    (.returned (if ret = statusPending then 0 else ret), closed)
  | .returned ret => (.returned ret, relay)

/-- `OnBdgeStmEvent`: the call it makes. `OnChannelError` of a stream id is `OnClose`. -/
def onBdgeStmEvent (iStmId : Int32) (byToken : UInt8) (pBuf : List UInt8) : Except Int32 Call :=
  if iStmId = tcpConnDefaultStm ∨ iStmId = tcpConnDefaultCmd then .error einval
  else if byToken = tokError then if pBuf = [] then .error einval else .ok (.onCloseStm iStmId)
  else if byToken = tokClose then .ok (.onCloseStm iStmId)
  else .error enotsup

/-- `OnTcpStmEvent` of the channel with what was posted to it. The other tokens do not come to the relay. -/
def onTcpStmEvent (iStmId : Int32) : Except Int32 (UInt8 × List UInt8) → Except Int32 Call
  | .error ret => .error ret
  | .ok (byToken, pBuf) =>
    if byToken = tokClose ∨ byToken = tokError then onBdgeStmEvent iStmId byToken pBuf else .error enotsup

def tcpEvent (relay : StreamRelay) (stm : Nat) (reports : Bool) : Except Int32 Call → StreamRelay
  | .error _ => { relay with tcpSide := Function.update relay.tcpSide stm (relay.tcpSide stm || reports) }
  | .ok call => { relay with
      tcpSide := Function.update relay.tcpSide stm (relay.tcpSide stm || reports)
      calls := relay.calls ++ [call] }

/-- The local side of an object calls `OnClose`. -/
def localEvent (relay : StreamRelay) (stm : Nat) (hChannel : Handle) : StreamRelay :=
  { relay with
    localSide := Function.update relay.localSide stm true
    calls := relay.calls ++ [.onClose hChannel] }

/-- A binding request: `AddUxStream` and `BindUxTcpStream` of a new object, under one lock. -/
def bindRequest (relay : StreamRelay) (hChannel : Handle) (iStmId : Int32) : StreamRelay :=
  let added := { relay with
    mapUxStreams := Function.update relay.mapUxStreams hChannel (some relay.streams.length)
    streams := relay.streams ++ [UxStream.mk hChannel iStmId] }
  (added.bindUxTcpStream hChannel iStmId).2

end StreamRelay

inductive RelayEvent where
  | bind (hChannel : Handle) (iStmId : Int32)
  | onClose (stm : Nat)
  | onChannelError (stm : Nat) (iError : Int32)
  | irpComplete (stm : Nat) (status forwarded : Int32) (pRespData : List UInt8)
  | read (stm : Nat) (ret forwarded : Int32) (pBuf : List UInt8)
  | call (tid : Nat) (accepted : Bool)
  | seqTask (accepted : Bool)

def reports (ret : Int32) (pBuf : List UInt8) : Bool := ret < 0 || ret ≠ statusPending && pBuf.head? = some tokClose

namespace StreamRelay

/-- An object of a channel has an address that no other in the map has, and no null address. -/
def step (relay : StreamRelay) : RelayEvent → Option StreamRelay
  | .bind hChannel iStmId =>
    if hChannel ≠ 0 ∧ relay.mapUxStreams hChannel = none then some (relay.bindRequest hChannel iStmId) else none
  | .onClose stm => (relay.streams[stm]?).map fun stream => relay.localEvent stm stream.hChannel
  -- `OnChannelError` of a handle is `OnClose`
  | .onChannelError stm _ => (relay.streams[stm]?).map fun stream => relay.localEvent stm stream.hChannel
  | .irpComplete stm status forwarded pRespData =>
    (relay.streams[stm]?).map fun stream =>
      relay.tcpEvent stm (reports status pRespData)
        (onTcpStmEvent stream.iStmId (handleIrpResp status forwarded pRespData))
  | .read stm ret forwarded pBuf =>
    (relay.streams[stm]?).map fun stream =>
      relay.tcpEvent stm (reports ret pBuf) (onTcpStmEvent stream.iStmId (runTask ret forwarded pBuf))
  | .call tid accepted =>
    match relay.calls[tid]? with
    | none | some (.returned _) => none
    | some call =>
      let (next, moved) := relay.advance accepted call
      some { moved with calls := moved.calls.set tid next }
  | .seqTask accepted =>
    match relay.seqTasks with
    | [] => none
    | .writeStream _ _ :: rest => some { relay with seqTasks := rest }
    | .closeLocalStream iStmId stm :: rest =>
      let popped := { relay with seqTasks := rest }
      some (popped.closeLocalStream accepted iStmId stm)

end StreamRelay

def streamRelay : Machine StreamRelay RelayEvent := ⟨.new, StreamRelay.step⟩

end RpcFrmwrk.Rpc
