import RpcFrmwrk.Ipc.Irp
import RpcFrmwrk.Library.Machine

/-! The requests of a port that wait for their responses. A request wants a response
(`IRP_DIR_INOUT`). A thread holds the lock of a request from `SubmitIrp` to the answer of the send,
and takes the lock of the port and that of a request one after the other elsewhere; what it is about
to do between two locks is kept with the request. The requests have different serial numbers while
they are unanswered. Owns `HandleSendReq` of `CRpcPdoPort` and of `CDBusStreamPdo`, and
`CompleteWriteIrp`; `FindIrpForResp`, `DispatchRespMsg`, `OnRespMsgNoIrp` and `CompleteSendReq`;
`CompleteIrp`, `CancelIrp`, the timer of a request, `OnModOnOffline` and `CancelAllIrps`, as far as
they touch a request of the port; `ReqPdo.step`, one of these between two locks. -/

namespace RpcFrmwrk.Ipc

open RpcFrmwrk.Library

/-- `-EACCES`. -/
def eAcces : Int := -13

/-- `-ENOTCONN`. -/
def eNotConn : Int := -107

def errorFail : Int := 0x80000001 - 0x100000000

def errorPortStopped : Int := 0x80010006 - 0x100000000

/-- The two ports that keep a map from serial numbers to requests. -/
inductive PdoKind where
  | rpcPdo
  | dbusStreamPdo
deriving DecidableEq, Repr

/-- `DBUS_MESSAGE_TYPE_METHOD_RETURN`, or `DBUS_MESSAGE_TYPE_ERROR` with what `GetErrno` makes of it. -/
inductive RespType where
  | methodReturn
  | error (errno : Int)
deriving DecidableEq, Repr

/-- `ErrnoFromDbusErr` has no positive answer. -/
def RespType.known : RespType → Bool
  | .methodReturn => true
  | .error errno => decide (errno ≤ 0)

/-- A response. `answers` records the request with its serial number that was unanswered when it came. -/
structure RespMsg where
  serial : Nat
  type : RespType
  answers : Option Nat
deriving DecidableEq, Repr

/-- Where the write of a request stands: `SubmitIrp` has not returned, the callback of the write has not been called,
the callback is about to call `CompleteIrp`, or nothing is left of it. -/
inductive WriteStage where
  | submitting
  | writing
  | calling
  | done
deriving DecidableEq, Repr

/-- What the owner of a request is given. -/
structure Completion where
  status : Int
  respData : Option RespMsg
deriving DecidableEq, Repr

/-- A request. Threads that took a response of it from `FindIrpForResp`'s map stand in `found`, those behind
`FindIrpForResp` are counted by `respCalls`, and those about to call `CancelIrp` stand in `cancels`. The last
fields record that a response to it came and that its write failed. -/
structure ReqIrp where
  serial : Nat
  dest : Nat
  state : IrpState
  write : WriteStage
  status : Int
  respData : Option RespMsg
  waitWrite : Bool
  found : List RespMsg
  respCalls : Nat
  cancels : List Int
  completions : List Completion
  heard : Bool
  writeFailed : Bool
deriving DecidableEq, Repr

namespace ReqIrp

/-- A request behind the insertion into the map, with `m_bWaitWrite` of a `CDBusStreamPdo`. -/
def new (kind : PdoKind) (serial dest : Nat) : ReqIrp where
  serial := serial
  dest := dest
  state := .ready
  write := .submitting
  status := 0
  respData := none
  waitWrite := decide (kind = .dbusStreamPdo)
  found := []
  respCalls := 0
  cancels := []
  completions := []
  heard := false
  writeFailed := false

/-- The end of a request in `SubmitIrp` or `CompleteIrp`. -/
def complete (irp : ReqIrp) : ReqIrp :=
  { irp with state := .completed, completions := irp.completions ++ [⟨irp.status, irp.respData⟩] }

/-- The end of a request in `CancelIrp`. -/
def cancel (irp : ReqIrp) (error : Int) : ReqIrp :=
  { irp with state := .cancelled, status := error, completions := irp.completions ++ [⟨error, none⟩] }

/-- `FindIrpForResp` with the lock of the request, up to the call of `CompleteIrp`. -/
def takeResp (kind : PdoKind) (irp : ReqIrp) (msg : RespMsg) : ReqIrp :=
  let irp := { irp with found := irp.found.erase msg }
  if irp.state ≠ .ready then irp
  else
    match msg.type with
    | .methodReturn => { irp with respData := some msg, status := 0, respCalls := irp.respCalls + 1 }
    | .error errno =>
      match kind with
      | .rpcPdo =>
        { irp with status := if errno = 0 then errorFail else errno, respCalls := irp.respCalls + 1 }
      -- `DispatchRespMsg` returns on the error of `FindIrpForResp`, in front of `CompleteIrp`.
      | .dbusStreamPdo => { irp with status := eBadMsg }

end ReqIrp

/-- The callers of `CompleteIrp`: the callback of the write, and `DispatchRespMsg`. -/
inductive CompCaller where
  | write
  | response
deriving DecidableEq, Repr

/-- A port. A request stands for its number in `irps`. -/
structure ReqPdo where
  accepts : Bool
  irps : List ReqIrp
  serial2Resp : List (Nat × Nat)
  respMsgs : List (Nat × RespMsg)
deriving DecidableEq, Repr

/-- A move. `submit` comes with what stands in front of the insertion into the map, `sent` with the answer of the
send, `written` with the one of the write. A message without a serial number is malformed to a `CRpcPdoPort`, one
without call options or call flags to a `CDBusStreamPdo`. -/
inductive PdoMove where
  | submit (serial dest : Nat) (ret : Int)
  | sent (irp : Nat) (ret : Int)
  | written (irp : Nat) (ret : Int)
  | respond (serial : Nat) (type : RespType)
  | malformed (serial : Option Nat)
  | takeResp (irp : Nat) (msg : RespMsg)
  | completeIrp (caller : CompCaller) (irp : Nat)
  | cancelIrp (irp : Nat) (error : Int)
  | timeout (irp : Nat)
  | cancelNext (irp : Nat) (error : Int)
  | offline (dest : Nat)
  | stopping
  | cancelAll
deriving DecidableEq, Repr

namespace ReqPdo

def new : ReqPdo := ⟨true, [], [], []⟩

def asked (port : ReqPdo) (serial : Nat) : Option Nat :=
  port.irps.findIdx? fun irp => irp.serial = serial ∧ irp.state = .ready

def putIrp (port : ReqPdo) (index : Nat) (irp : ReqIrp) : ReqPdo :=
  { port with irps := port.irps.set index irp }

/-- `m_mapSerial2Resp.erase`. -/
def eraseSerial (port : ReqPdo) (serial : Nat) : ReqPdo :=
  { port with serial2Resp := port.serial2Resp.filter fun entry => entry.1 ≠ serial }

/-- `m_mapSerial2Resp.insert`, which leaves a present key alone. -/
def insertSerial (port : ReqPdo) (serial index : Nat) : ReqPdo :=
  if (port.serial2Resp.lookup serial).isSome then port
  else { port with serial2Resp := port.serial2Resp ++ [(serial, index)] }

/-- `HandleSendReq` up to the send. A request that fails here is completed by `SubmitIrp`. -/
def submit (kind : PdoKind) (port : ReqPdo) (serial dest : Nat) (ret : Int) : ReqPdo :=
  let irp := ReqIrp.new kind serial dest
  let failed (error : Int) : ReqPdo :=
    { port with irps := port.irps ++ [{ irp with write := .done, status := error }.complete] }
  let added : ReqPdo := { port with irps := port.irps ++ [irp] }
  if isError ret then failed ret
  else
    match kind with
    | .rpcPdo =>
      if (port.serial2Resp.lookup serial).isSome then failed eAcces
      else added.insertSerial serial port.irps.length
    | .dbusStreamPdo => added.insertSerial serial port.irps.length

/-- `HandleSendReq` behind the send, to the end of `SubmitIrp`. -/
def sent (kind : PdoKind) (port : ReqPdo) (index : Nat) (irp : ReqIrp) (ret : Int) : ReqPdo :=
  if isError ret then
    let port := if irp.serial ≠ 0 then port.eraseSerial irp.serial else port
    port.putIrp index ({ irp with write := .done, status := ret } : ReqIrp).complete
  else
    match kind with
    | .rpcPdo => port.putIrp index { irp with write := .done }
    | .dbusStreamPdo => port.putIrp index { irp with write := .writing }

/-- `CompleteWriteIrp` up to the call of `CompleteIrp`. -/
def written (port : ReqPdo) (index : Nat) (irp : ReqIrp) (ret : Int) : ReqPdo :=
  if irp.state ≠ .ready then port.putIrp index { irp with write := .done }
  else port.putIrp index { irp with write := .calling, status := ret, writeFailed := isError ret }

/-- The record that a response came. -/
def hear (port : ReqPdo) : Option Nat → ReqPdo
  | none => port
  | some index =>
    match port.irps[index]? with
    | none => port
    | some irp => port.putIrp index { irp with heard := true }

/-- `FindIrpForResp` with the lock of the port, and `OnRespMsgNoIrp`. -/
def findIrpForResp (kind : PdoKind) (port : ReqPdo) (msg : RespMsg) : ReqPdo :=
  match port.serial2Resp.lookup msg.serial with
  | none =>
    match kind with
    | .rpcPdo => port
    | .dbusStreamPdo =>
      { port with
        respMsgs := (port.respMsgs.filter fun entry => entry.1 ≠ msg.serial) ++ [(msg.serial, msg)] }
  | some index =>
    let port := port.eraseSerial msg.serial
    match port.irps[index]? with
    | none => port
    | some irp => port.putIrp index { irp with found := irp.found ++ [msg] }

/-- A response comes. -/
def respond (kind : PdoKind) (port : ReqPdo) (serial : Nat) (type : RespType) : ReqPdo :=
  if port.accepts then
    let answers := port.asked serial
    (port.findIrpForResp kind ⟨serial, type, answers⟩).hear answers
  else port

/-- A malformed message comes: it goes no further than `DispatchData` or `GetReplySerial`. -/
def malformed (port : ReqPdo) : Option Nat → ReqPdo
  | none => port
  | some serial => if port.accepts then port.hear (port.asked serial) else port

/-- `CompleteSendReq`, with what `CompleteIrp` makes of its answer. -/
def completeSendReq (port : ReqPdo) (index : Nat) (irp : ReqIrp) : ReqPdo :=
  if irp.waitWrite then
    if isError irp.status then port.putIrp index irp.complete
    else
      let irp := { irp with waitWrite := false }
      match port.respMsgs.lookup irp.serial with
      | none => (port.putIrp index irp).insertSerial irp.serial index
      | some msg =>
        let port := { port with respMsgs := port.respMsgs.filter fun entry => entry.1 ≠ irp.serial }
        port.putIrp index ({ irp with respData := some msg, status := 0 } : ReqIrp).complete
  else if succeeded irp.status then port.putIrp index irp.complete
  else
    let port := { port with respMsgs := port.respMsgs.filter fun entry => entry.1 ≠ irp.serial }
    port.putIrp index irp.complete

/-- `CompleteIrp`, down to the port. -/
def completeIrp (kind : PdoKind) (port : ReqPdo) (index : Nat) (irp : ReqIrp) : ReqPdo :=
  if irp.state ≠ .ready then port.putIrp index irp
  else
    match kind with
    | .rpcPdo => port.putIrp index irp.complete
    | .dbusStreamPdo => port.completeSendReq index irp

/-- `CancelIrp`, with `RemoveIrpFromMap`. A request stands in the map at most once. -/
def cancelIrp (port : ReqPdo) (index : Nat) (irp : ReqIrp) (error : Int) : ReqPdo :=
  if irp.state ≠ .ready then port.putIrp index irp
  else
    let port := { port with serial2Resp := port.serial2Resp.filter fun entry => entry.2 ≠ index }
    port.putIrp index (irp.cancel error)

def cancelEntries (port : ReqPdo) (which : Nat × Nat → Bool) (error : Int) : ReqPdo :=
  let gone := port.serial2Resp.filter which
  { port with
    serial2Resp := port.serial2Resp.filter fun entry => !which entry
    irps := port.irps.mapIdx fun index irp =>
      if gone.any fun entry => entry.2 = index then { irp with cancels := irp.cancels ++ [error] } else irp }

/-- `OnModOnOffline`, with `ClearReqIrpsOnDest`. -/
def offline (port : ReqPdo) (dest : Nat) : ReqPdo :=
  port.cancelEntries (fun entry => (port.irps[entry.2]?.map ReqIrp.dest) = some dest) eNotConn

/-- `CancelAllIrps` of a port that is being stopped. -/
def cancelAll (port : ReqPdo) : ReqPdo := port.cancelEntries (fun _ => true) errorPortStopped

/-- A call of `CompleteIrp` begins. -/
def takeCall (irp : ReqIrp) : CompCaller → Option ReqIrp
  | .write => if irp.write = .calling then some { irp with write := .done } else none
  | .response => if 0 < irp.respCalls then some { irp with respCalls := irp.respCalls - 1 } else none

def stepFree (kind : PdoKind) (port : ReqPdo) (index : Nat) (irp : ReqIrp) : PdoMove → Option ReqPdo
  | .written _ ret =>
    if irp.write = .writing ∧ (ret = 0 ∨ isError ret = true) then some (port.written index irp ret) else none
  | .takeResp _ msg => if msg ∈ irp.found then some (port.putIrp index (irp.takeResp kind msg)) else none
  | .completeIrp caller _ => (takeCall irp caller).map fun irp => port.completeIrp kind index irp
  | .cancelIrp _ error => if isError error = true then some (port.cancelIrp index irp error) else none
  | .timeout _ =>
    if irp.state = .ready then
      some (port.putIrp index { irp with status := eTimedOut, cancels := irp.cancels ++ [eTimedOut] })
    else none
  | .cancelNext _ error =>
    if error ∈ irp.cancels then
      some (port.cancelIrp index { irp with cancels := irp.cancels.erase error } error)
    else none
  | _ => none

def step (kind : PdoKind) (port : ReqPdo) (move : PdoMove) : Option ReqPdo :=
  match move with
  | .submit serial dest ret =>
    if port.accepts = true ∧ port.asked serial = none then some (port.submit kind serial dest ret) else none
  | .sent index ret =>
    port.irps[index]?.bind fun irp =>
      if irp.write = .submitting then some (port.sent kind index irp ret) else none
  | .respond serial type => if type.known then some (port.respond kind serial type) else none
  | .malformed serial =>
    if kind = .rpcPdo ∧ serial ≠ none then none else some (port.malformed serial)
  | .offline dest => if kind = .rpcPdo ∧ port.accepts = true then some (port.offline dest) else none
  | .stopping =>
    if port.irps.all fun irp => irp.write ≠ .submitting then some { port with accepts := false } else none
  | .cancelAll => if port.accepts then none else some port.cancelAll
  | .written index _ | .takeResp index _ | .completeIrp _ index | .cancelIrp index _ | .timeout index
  | .cancelNext index _ =>
    port.irps[index]?.bind fun irp =>
      if irp.write = .submitting then none else port.stepFree kind index irp move

end ReqPdo

def reqPdo (kind : PdoKind) : Machine ReqPdo PdoMove := ⟨ReqPdo.new, ReqPdo.step kind⟩

end RpcFrmwrk.Ipc
