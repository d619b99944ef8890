import Mathlib.Logic.Function.Basic
import RpcFrmwrk.Ipc.Irp
import RpcFrmwrk.Library.Machine

/-! Incoming packets of a stream and the read requests they serve. The port's lock guards both
queues. The dispatcher gives it away to take the lock of a request; a request packet is locked while
it is cancelled. Owns the queues of `CRpcStream2` with `HandleReadIrp`, `RecvPacket` and
`RemoveIrpFromMap`; `GetReadIrpsToComp`, `SetRespReadIrp` and the loop of `DispatchDataIncoming`,
cut where a lock is given away; `ReadState.step`, one step of the receiver, a reader, a canceller or
the dispatcher. -/

namespace RpcFrmwrk.Rpc

open RpcFrmwrk.Library RpcFrmwrk.Ipc

/-- `STM_MAX_RECV_PACKETS`. -/
def stmMaxRecvPackets : Nat := 2 * 128 + 16

abbrev Payload := List UInt8

/-- A read request: `propByteCount` if it is there, its state and `m_pRespData`. -/
structure ReadIrp where
  size : Option Nat
  state : IrpState
  respData : Option Payload
deriving DecidableEq, Repr

/-- A request packet that has not been used. -/
def ReadIrp.fresh : ReadIrp := ⟨none, .ready, none⟩

/-- `SetRespData` or `Append`, as the response is empty or not. -/
def respWith (respData : Option Payload) (buf : Payload) : Payload :=
  match respData with
  | none => buf
  | some data => data ++ buf

/-- The loop of `HandleReadIrp`: the return code, the response and the packets that
are left. -/
def takeBufs (size : Option Nat) (respData : Option Payload) :
    List Payload → Int × Option Payload × List Payload
  | [] => (statusPending, respData, [])
  | buf :: bufs =>
    let reqSize := size.getD buf.length
    if reqSize < buf.length then (eBadMsg, respData, bufs)
    else
      let data := respWith respData buf
      if reqSize < data.length then (eBadMsg, some data, bufs)
      else if data.length = reqSize then (statusSuccess, some data, bufs)
      else takeBufs size (some data) bufs

/-- What a packet does for the first request in `GetReadIrpsToComp`: nothing, and both
are gone; the request is complete with the buffer, a packet that is left goes
back; the request goes back. -/
inductive ReadMatch where
  | failed
  | complete (respData : Option Payload) (buf : Payload) (rest : Option Payload)
  | putBack (respData : Payload)
deriving DecidableEq, Repr

/-- The part of `GetReadIrpsToComp` behind both locks. -/
def matchPacket (size : Option Nat) (respData : Option Payload) (buf : Payload) : ReadMatch :=
  let reqSize := size.getD buf.length
  if reqSize < buf.length then .failed
  else if reqSize = buf.length then .complete respData buf none
  else
    match respData with
    | none => .putBack buf
    | some data =>
      let sizeToRecv := reqSize - data.length
      if buf.length ≤ sizeToRecv then
        if sizeToRecv = buf.length then .complete none (data ++ buf) none
        else .putBack (data ++ buf)
      -- `Append` takes the size of the packet, not the size to receive, so that an
      -- empty packet is left.
      else .complete none (data ++ buf) (some [])

/-! ### The threads of a stream -/

/-- Where the dispatcher is: not in `DispatchDataIncoming`; at the head of the loop of
`GetReadIrpsToComp`; with a request taken off, in front of its lock; behind
`CanContinue` and in front of the port's lock, with the request's lock; at the head of the
loop of `DispatchDataIncoming`; behind `SetRespReadIrp`, in front of `CompleteIrp`.
`pairs` is `vecIrps`. -/
inductive DispatchPhase where
  | idle
  | collecting (pairs : List (Nat × Payload))
  | popped (irp : Nat) (pairs : List (Nat × Payload))
  | locked (irp : Nat) (pairs : List (Nat × Payload))
  | responding (pairs : List (Nat × Payload))
  | responded (irp : Nat) (pairs : List (Nat × Payload))
deriving DecidableEq, Repr

def DispatchPhase.lock : DispatchPhase → Option Nat
  | .locked irp _ => some irp
  | _ => none

/-- A stream: `m_queBufToRecv`, `m_queReadIrps`, the dispatcher and the requests.
`received` are the payloads of the packets that came in, `delivered` the responses of
completed requests, in their order. -/
structure ReadState where
  bufs : List Payload
  reads : List Nat
  phase : DispatchPhase
  irp : Nat → ReadIrp
  submitted : List Nat
  received : List Payload
  delivered : List (Nat × Payload)

/-- A packet comes in; a reader submits a new request, with a size or without; a
request is being cancelled, and its cancellation is over; the dispatcher goes on. -/
inductive ReadMove where
  | recvPacket (payload : Payload)
  | handleReadIrp (irp : Nat) (size : Option Nat)
  | cancelBegin (irp : Nat)
  | cancelEnd (irp : Nat)
  | dispatch
deriving DecidableEq, Repr

namespace ReadState

def setIrp (state : ReadState) (irp : Nat) (request : ReadIrp) : ReadState :=
  { state with irp := Function.update state.irp irp request }

/-- `RecvPacket`, in front of `DispatchDataIncoming`. -/
def recvPacket (state : ReadState) (payload : Payload) : ReadState :=
  let bufs := state.bufs ++ [payload]
  { state with
    bufs := if stmMaxRecvPackets < bufs.length then bufs.tail else bufs
    phase := .collecting []
    received := state.received ++ [payload] }

/-- `HandleReadIrp`. A request that is not pending is complete. -/
def handleReadIrp (state : ReadState) (irp : Nat) (size : Option Nat) : ReadState :=
  let state := { state with submitted := irp :: state.submitted }
  if state.bufs = [] ∨ state.reads ≠ [] then
    { state.setIrp irp ⟨size, .ready, none⟩ with reads := state.reads ++ [irp] }
  else
    let (ret, respData, bufs) := takeBufs size none state.bufs
    let state := { state with bufs := bufs }
    if ret = statusPending then
      { state.setIrp irp ⟨size, .ready, respData⟩ with reads := [irp] }
    else
      let state := state.setIrp irp ⟨size, .completed, respData⟩
      if isError ret then state
      else { state with delivered := state.delivered ++ [(irp, respData.getD [])] }

/-- The next step of `DispatchDataIncoming`. It waits for a request that is being
cancelled. -/
def dispatch (state : ReadState) : Option ReadState :=
  match state.phase with
  | .idle => none
  | .collecting pairs =>
    match state.reads, state.bufs with
    | irp :: reads, _ :: _ => some { state with reads := reads, phase := .popped irp pairs }
    | _, _ => some { state with phase := .responding pairs }
  | .popped irp pairs =>
    if (state.irp irp).state = .cancelling then none
    else if isError ((state.irp irp).state.canContinue .ready).1 then
      some { state with phase := .collecting pairs }
    else some { state with phase := .locked irp pairs }
  | .locked irp pairs =>
    match state.bufs with
    | [] => some { state with phase := .responding pairs }
    | buf :: bufs =>
      let request := state.irp irp
      let state := { state with bufs := bufs }
      match matchPacket request.size request.respData buf with
      | .failed => some { state with phase := .responding pairs }
      | .complete respData buf rest =>
        some { state.setIrp irp { request with respData := respData } with
          bufs := rest.toList ++ state.bufs
          phase := .collecting (pairs ++ [(irp, buf)]) }
      | .putBack respData =>
        some { state.setIrp irp { request with respData := some respData } with
          reads := irp :: state.reads
          phase := .collecting pairs }
  | .responding [] => some { state with phase := .idle }
  | .responding ((irp, buf) :: pairs) =>
    let request := state.irp irp
    if request.state = .cancelling then none
    -- `SetRespReadIrp`.
    else if isError (request.state.canContinue .ready).1 then
      some { state with phase := .responding pairs }
    else
      some { state.setIrp irp { request with respData := some (respWith request.respData buf) } with
        phase := .responded irp pairs }
  | .responded irp pairs =>
    let request := state.irp irp
    if request.state = .cancelling then none
    -- `CompleteIrp`.
    else if request.state = .ready then
      some { state.setIrp irp { request with state := .completed } with
        phase := .responding pairs
        delivered := state.delivered ++ [(irp, request.respData.getD [])] }
    else some { state with phase := .responding pairs }

/-- `RemoveIrpFromMap`. -/
def removeIrpFromMap (state : ReadState) (irp : Nat) : ReadState :=
  { state with reads := state.reads.erase irp }

def step (state : ReadState) : ReadMove → Option ReadState
  | .recvPacket payload =>
    if state.phase = .idle ∧ payload ≠ [] then some (state.recvPacket payload) else none
  | .handleReadIrp irp size =>
    if irp ∈ state.submitted then none else some (state.handleReadIrp irp size)
  | .cancelBegin irp =>
    let request := state.irp irp
    if irp ∈ state.submitted ∧ request.state = .ready ∧ state.phase.lock ≠ some irp then
      some (state.setIrp irp { request with state := .cancelling })
    else none
  | .cancelEnd irp =>
    let request := state.irp irp
    if request.state = .cancelling then
      some ((state.setIrp irp { request with state := .cancelled }).removeIrpFromMap irp)
    else none
  | .dispatch => state.dispatch

end ReadState

/-- A stream that has just been added. -/
def readMachine : Machine ReadState ReadMove where
  start := ⟨[], [], .idle, fun _ => .fresh, [], [], []⟩
  step := ReadState.step

end RpcFrmwrk.Rpc
