import RpcFrmwrk.Rpc.StreamRead

/-! Requests, responses, events and listeners of the control stream. The port's lock guards the
queues and the map. One dispatcher receives packets; it gives the port's lock away to take the lock
of a request. A request packet is locked while it is submitted, while it comes back from the lower
port and while it is cancelled. Owns the queues of `CRpcControlStream2` with `HandleIoctlIrp`,
`HandleListening`, `QueueIrpForResp`, `RecvPacket`, `RemoveIrpFromMap` and `ClearAllIrpsQueued`;
`GetReadIrpsToComp`, and the loop of `DispatchDataIncoming` cut where a lock is given away;
`ControlState.step`, one step of any of them. -/

namespace RpcFrmwrk.Rpc

open RpcFrmwrk.Library RpcFrmwrk.Ipc

/-- What a listener waits for: a request from the peer on the server's side, an event
on the client's side. -/
inductive ListenKind where
  | methodCall
  | signal
deriving DecidableEq, Repr

/-- The request type of a packet with `propSeqNo` if it is there. A packet may have
no request type. -/
inductive PacketKind where
  | event (kind : ListenKind)
  | methodReturn (seqNo : Option Nat)
  | untyped
deriving DecidableEq, Repr

/-- A packet, with the number of packets that came in before it. -/
structure CtrlPacket where
  id : Nat
  kind : PacketKind
deriving DecidableEq, Repr

/-- A request that waits for its response (`IRP_DIR_INOUT`), an event with a number and a
response (`IRP_DIR_OUT`), and `CTRLCODE_LISTENING`. -/
inductive CtrlKind where
  | call
  | event
  | reply
  | listening
deriving DecidableEq, Repr

/-- A request packet: its kind, `propSeqNo`, whether its state is `reqStatIn`, and its
state. -/
structure CtrlIrp where
  kind : CtrlKind
  seqNo : Nat
  waits : Bool
  state : IrpState
deriving DecidableEq, Repr

/-- A request packet that has not been used. -/
def CtrlIrp.fresh : CtrlIrp := ⟨.listening, 0, false, .ready⟩

/-- Where the dispatcher is: not in `OnReceive`; behind `RecvPacket`; at the head of the
loop of `DispatchDataIncoming`; behind `SetRespReadIrp`, in front of `CompleteIrp`. -/
inductive CtrlPhase where
  | idle
  | received
  | responding (pairs : List (Nat × CtrlPacket))
  | responded (irp : Nat) (pairs : List (Nat × CtrlPacket))
deriving DecidableEq, Repr

/-- `vecIrps`. -/
def CtrlPhase.pairs : CtrlPhase → List (Nat × CtrlPacket)
  | .idle | .received => []
  | .responding pairs | .responded _ pairs => pairs

/-- A request gets a packet as its response; a request is removed or cleared. -/
inductive CtrlEvent where
  | delivered (irp : Nat) (packet : CtrlPacket)
  | removed (irp : Nat)
deriving DecidableEq, Repr

namespace CtrlEvent

def delivery : CtrlEvent → Option (Nat × CtrlPacket)
  | .delivered irp packet => some (irp, packet)
  | .removed _ => none

def removal : CtrlEvent → Option Nat
  | .delivered _ _ => none
  | .removed irp => some irp

end CtrlEvent

/-- The control stream: `m_queBufToRecv2`; `m_queReadIrps` and `m_queReadIrpsEvt`;
`m_mapIrpsForResp`; `m_queWriteIrps` and the requests at the lower port; `m_atmSeqNo`; the
dispatcher and the requests. `arrived` are the packets that came in. -/
structure ControlState where
  bufs : List CtrlPacket
  reads : ListenKind → List Nat
  forResp : List (Nat × Nat)
  writes : List Nat
  lower : List Nat
  seqNo : Nat
  phase : CtrlPhase
  irp : Nat → CtrlIrp
  submitted : List Nat
  arrived : List CtrlPacket
  history : List CtrlEvent

/-- A request is sent; a listener waits; the front of the write queue goes to the
lower port; a request comes back from there; a packet comes in; the dispatcher goes on;
a request is being cancelled, and its cancellation is over; the queues are cleared. -/
inductive CtrlMove where
  | request (irp : Nat) (kind : CtrlKind)
  | listen (irp : Nat)
  | startSend
  | sent (irp : Nat) (ok : Bool)
  | recvPacket (kind : PacketKind)
  | dispatch
  | cancelBegin (irp : Nat)
  | cancelEnd (irp : Nat)
  | clear
deriving DecidableEq, Repr

namespace ControlState

def setIrp (state : ControlState) (irp : Nat) (request : CtrlIrp) : ControlState :=
  { state with irp := Function.update state.irp irp request }

def setState (state : ControlState) (irp : Nat) (new : IrpState) : ControlState :=
  state.setIrp irp { state.irp irp with state := new }

def setReads (state : ControlState) (kind : ListenKind) (reads : List Nat) : ControlState :=
  { state with reads := Function.update state.reads kind reads }

def record (state : ControlState) (events : List CtrlEvent) : ControlState :=
  { state with history := state.history ++ events }

/-- The responses so far, with the requests that got them. -/
def delivered (state : ControlState) : List (Nat × CtrlPacket) :=
  state.history.filterMap CtrlEvent.delivery

def removed (state : ControlState) : List Nat :=
  state.history.filterMap CtrlEvent.removal

/-- `m_mapIrpsForResp.erase`. -/
def eraseKey (state : ControlState) (seqNo : Nat) : ControlState :=
  { state with forResp := state.forResp.filter fun entry => entry.1 != seqNo }

/-- `HandleIoctlIrp` for a request that is sent. -/
def handleIoctl (state : ControlState) (irp : Nat) (kind : CtrlKind) : ControlState :=
  let numbered :=
    if kind = .reply then state else { state with seqNo := (state.seqNo + 1) % 0x100000000 }
  let submitted := { numbered with submitted := irp :: numbered.submitted }
  -- `ERROR_QUEUE_FULL`.
  if stmMaxRecvPackets < state.writes.length then
    submitted.setIrp irp ⟨kind, state.seqNo, false, .completed⟩
  else
    { submitted.setIrp irp ⟨kind, state.seqNo, false, .ready⟩ with writes := state.writes ++ [irp] }

/-- The loop of `HandleListening`: `rest` are the packets from the iterator on, behind
`itr` others. It looks at the front in every round. -/
def matchFront (kind : ListenKind) (bufs : List CtrlPacket) (itr : Nat) :
    List CtrlPacket → Option (CtrlPacket × List CtrlPacket)
  | [] => none
  | _ :: rest =>
    match bufs with
    | [] => none
    | front :: _ =>
      if front.kind = .event kind then some (front, bufs.eraseIdx itr)
      else matchFront kind bufs (itr + 1) rest

/-- `HandleListening`; the match of the listener is the registered one. -/
def handleListening (state : ControlState) (kind : ListenKind) (irp : Nat) : ControlState :=
  let state := { state with submitted := irp :: state.submitted }
  let waiting := state.setIrp irp ⟨.listening, 0, false, .ready⟩
  if state.bufs = [] ∨ state.reads kind ≠ [] then
    waiting.setReads kind (state.reads kind ++ [irp])
  else
    match matchFront kind state.bufs 0 state.bufs with
    | some (packet, bufs) =>
      ({ state with bufs := bufs }.setIrp irp ⟨.listening, 0, false, .completed⟩).record
        [.delivered irp packet]
    | none => waiting.setReads kind (state.reads kind ++ [irp])

/-- `QueueIrpForResp` in `CompleteIoctlIrp`, behind `SetIoctlReqState`. -/
def queueIrpForResp (state : ControlState) (irp : Nat) : ControlState :=
  let request := { state.irp irp with waits := true }
  match state.bufs.find? fun packet => packet.kind = .methodReturn (some request.seqNo) with
  -- The packet stays in the queue.
  | some packet => (state.setIrp irp { request with state := .completed }).record
      [.delivered irp packet]
  | none =>
    let state := (state.setIrp irp request).eraseKey request.seqNo
    { state with forResp := state.forResp ++ [(request.seqNo, irp)] }

/-- The lower port is done with a request. -/
def completeIoctl (state : ControlState) (irp : Nat) (ok : Bool) : ControlState :=
  let state := { state with lower := state.lower.erase irp }
  if ok = true ∧ (state.irp irp).kind = .call then state.queueIrpForResp irp
  else state.setState irp .completed

/-- `RecvPacket`, in front of `DispatchDataIncoming`. -/
def recvPacket (state : ControlState) (kind : PacketKind) : ControlState :=
  let packet := ⟨state.arrived.length, kind⟩
  let bufs := state.bufs ++ [packet]
  { state with
    bufs := if stmMaxRecvPackets < bufs.length then bufs.tail else bufs
    phase := .received
    arrived := state.arrived ++ [packet] }

/-- A packet goes with a request into `vecIrps`. -/
def pair (state : ControlState) (irp : Nat) (packet : CtrlPacket) : ControlState :=
  { state with phase := .responding (state.phase.pairs ++ [(irp, packet)]) }

/-- One round of `GetReadIrpsToComp`; `bufs` is `quePktPutback`. -/
def collectPacket (state : ControlState) (packet : CtrlPacket) : ControlState :=
  match packet.kind with
  | .event kind =>
    match state.reads kind with
    | [] => { state with bufs := state.bufs ++ [packet] }
    | irp :: reads => (state.setReads kind reads).pair irp packet
  | .methodReturn (some seqNo) =>
    match state.forResp.find? fun entry => entry.1 = seqNo with
    | none => { state with bufs := state.bufs ++ [packet] }
    | some entry => (state.eraseKey seqNo).pair entry.2 packet
  | .methodReturn none | .untyped => state

/-- `GetReadIrpsToComp`. -/
def getReadIrpsToComp (state : ControlState) : ControlState :=
  if (∀ kind ∈ [ListenKind.methodCall, .signal], state.reads kind = []) ∧ state.forResp = [] ∨
      state.bufs = [] then
    { state with phase := .responding [] }
  else state.bufs.foldl collectPacket { state with bufs := [], phase := .responding [] }

/-- The next step of the dispatcher. It waits for a request that is being cancelled. -/
def dispatch (state : ControlState) : Option ControlState :=
  match state.phase with
  | .idle => none
  | .received => some state.getReadIrpsToComp
  | .responding [] => some { state with phase := .idle }
  | .responding ((irp, packet) :: pairs) =>
    if (state.irp irp).state = .cancelling then none
    else if isError ((state.irp irp).state.canContinue .ready).1 then
      some { state with phase := .responding pairs }
    else some ({ state with phase := .responded irp pairs }.record [.delivered irp packet])
  | .responded irp pairs =>
    if (state.irp irp).state = .cancelling then none
    -- `CompleteIrp`.
    else if (state.irp irp).state = .ready then
      some { state.setState irp .completed with phase := .responding pairs }
    else some { state with phase := .responding pairs }

/-- `RemoveIrpFromMap`. The lower port lets the request go, too. -/
def removeIrpFromMap (state : ControlState) (kind : ListenKind) (irp : Nat) : ControlState :=
  let state := state.record [.removed irp]
  let dropped := { state with lower := state.lower.erase irp }
  if (state.irp irp).kind = .listening then state.setReads kind ((state.reads kind).erase irp)
  else if (state.irp irp).waits then state.eraseKey (state.irp irp).seqNo
  -- `-ENOTSUP`.
  else if (state.irp irp).kind = .event then dropped
  else { dropped with writes := state.writes.erase irp }

/-- `GetAllIrpsQueued`. -/
def allIrpsQueued (state : ControlState) : List Nat :=
  state.reads .methodCall ++ state.writes ++ state.forResp.map Prod.snd ++ state.reads .signal

/-- `ClearAllIrpsQueued` behind `GetAllIrpsQueued`. The map is not cleared. -/
def clearAllIrpsQueued (state : ControlState) : ControlState :=
  { state.record (state.allIrpsQueued.map .removed) with
    reads := fun _ => []
    writes := [] }

def step (kind : ListenKind) (state : ControlState) : CtrlMove → Option ControlState
  | .request irp ctrl =>
    if irp ∉ state.submitted ∧ ctrl ≠ .listening then some (state.handleIoctl irp ctrl) else none
  | .listen irp =>
    if irp ∉ state.submitted then some (state.handleListening kind irp) else none
  | .startSend =>
    match state.writes with
    | [] => none
    | irp :: writes => some { state with writes := writes, lower := state.lower ++ [irp] }
  | .sent irp ok =>
    if irp ∈ state.lower ∧ (state.irp irp).state = .ready then some (state.completeIoctl irp ok)
    else none
  | .recvPacket packet => if state.phase = .idle then some (state.recvPacket packet) else none
  | .dispatch => state.dispatch
  | .cancelBegin irp =>
    if irp ∈ state.submitted ∧ (state.irp irp).state = .ready then
      some (state.setState irp .cancelling)
    else none
  | .cancelEnd irp =>
    if irp ∈ state.submitted ∧ (state.irp irp).state = .cancelling then
      some ((state.setState irp .cancelled).removeIrpFromMap kind irp)
    else none
  | .clear => some state.clearAllIrpsQueued

end ControlState

def controlMachine (kind : ListenKind) (first : Nat) : Machine ControlState CtrlMove where
  start := ⟨[], fun _ => [], [], [], [], first, .idle, fun _ => .fresh, [], [], []⟩
  step := ControlState.step kind

end RpcFrmwrk.Rpc
