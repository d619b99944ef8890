import RpcFrmwrk.Ipc.UxSock

/-! The end point of a stream in JavaScript. A handler runs to its end before the next one starts.
Numbers are exact. The socket takes a frame while it is connected, and a frame that comes is one
buffer. Owns `CFlowControl`, and `SendBuf`, `ReceiveBuf`, `SendHeadReq`, `ResumeWrite` and
`PassHeadToClient` of `CRpcStream`; `Bdge_StreamWrite` and `Bdge_DataConsumed` of a stream whose
handle is bound; `JsStream.step`, one handler. -/

namespace RpcFrmwrk.Rpc

open RpcFrmwrk.Library
open RpcFrmwrk.Ipc (FCState stmMaxPendingWrite stmMaxPacketsReport maxBytesPerTransfer stmMaxBytesPerBuf statusSuccess)

/-- The numbers of a report: `propRxBytes` and `propRxPkts`. -/
structure JsReport where
  rxBytes : Nat
  rxPkts : Nat
deriving DecidableEq, Repr

/-- `CFlowControl`. -/
structure JsFlowControl where
  rxBytes : Nat
  txBytes : Nat
  ackTxBytes : Nat
  ackRxBytes : Nat
  rxPkts : Nat
  txPkts : Nat
  ackTxPkts : Nat
  ackRxPkts : Nat
  byFlowCtrl : Int
deriving DecidableEq, Repr

namespace JsFlowControl

def new : JsFlowControl := ⟨0, 0, 0, 0, 0, 0, 0, 0, 0⟩

/-- `IsFlowCtrl`, which holds where a frame can be sent. -/
def isFlowCtrl (fc : JsFlowControl) : Bool := decide (fc.byFlowCtrl = 0)

/-- A difference below zero is below the limit, too. -/
def bytesAbove (now ack : Nat) : Bool := decide (stmMaxPendingWrite ≤ now - ack)

def pktsAbove (now ack : Nat) : Bool := decide (stmMaxPacketsReport ≤ now - ack)

/-- `IncFCCount`. -/
def incFCCount (fc : JsFlowControl) : FCState × JsFlowControl :=
  let fc := { fc with byFlowCtrl := fc.byFlowCtrl + 1 }
  (if fc.byFlowCtrl = 1 then .flowCtrl else .keep, fc)

/-- `DecFCCount`. -/
def decFCCount (fc : JsFlowControl) : FCState × JsFlowControl :=
  let fc := { fc with byFlowCtrl := fc.byFlowCtrl - 1 }
  (if fc.byFlowCtrl = 0 then .lift else .keep, fc)

/-- `IncTxBytes`. -/
def incTxBytes (fc : JsFlowControl) (bytes : Nat) : FCState × JsFlowControl :=
  if bytes = 0 ∨ maxBytesPerTransfer < bytes then (.keep, fc)
  else
    let next := { fc with txBytes := fc.txBytes + bytes, txPkts := fc.txPkts + 1 }
    if bytesAbove fc.txBytes fc.ackTxBytes ≠ bytesAbove next.txBytes fc.ackTxBytes ∨
        pktsAbove fc.txPkts fc.ackTxPkts ≠ pktsAbove next.txPkts fc.ackTxPkts then next.incFCCount
    else (.keep, next)

/-- `IncRxBytes`. -/
def incRxBytes (fc : JsFlowControl) (bytes : Nat) : FCState × JsFlowControl :=
  if bytes = 0 ∨ maxBytesPerTransfer < bytes then (.keep, fc)
  else
    let next := { fc with rxBytes := fc.rxBytes + bytes, rxPkts := fc.rxPkts + 1 }
    if bytesAbove fc.rxBytes fc.ackRxBytes ≠ bytesAbove next.rxBytes fc.ackRxBytes ∨
        pktsAbove fc.rxPkts fc.ackRxPkts ≠ pktsAbove next.rxPkts fc.ackRxPkts then
      (.report, { next with ackRxBytes := next.rxBytes, ackRxPkts := next.rxPkts })
    else (.keep, next)

/-- What has been sent and not been reported is at one of the limits. -/
def txAbove (fc : JsFlowControl) : Bool :=
  bytesAbove fc.txBytes fc.ackTxBytes || pktsAbove fc.txPkts fc.ackTxPkts

/-- `OnReportInternal`. -/
def onReportInternal (fc : JsFlowControl) (report : JsReport) : FCState × JsFlowControl :=
  if report.rxBytes ≤ fc.ackTxBytes ∨ report.rxPkts < fc.ackTxPkts then (.keep, fc)
  else
    let next := { fc with ackTxBytes := report.rxBytes, ackTxPkts := report.rxPkts }
    if fc.txAbove ≠ next.txAbove then next.decFCCount else (.keep, next)

/-- `GetReport`. -/
def getReport (fc : JsFlowControl) : JsReport := ⟨fc.rxBytes, fc.rxPkts⟩

end JsFlowControl

/-- A frame that is sent, with its size field. -/
inductive OutFrame where
  | data (size : Nat) (payload : List UInt8)
  | progress (size : Nat) (report : JsReport)
  | ping
deriving DecidableEq, Repr

/-- The length of a report: the header of a `CConfigDb2`, and two properties of eight bytes. -/
def jsReportSize : Nat := 16 + 2 * (4 + 1 + 8)

def jsFrameHeader : Nat := 5

/-- The side that sends: `m_oFlowCtrl`, the socket of the parent, and the frames it has taken. -/
structure JsSender where
  fc : JsFlowControl
  connected : Bool
  sent : List OutFrame
deriving DecidableEq, Repr

/-- `STATUS_SUCCESS`, `ERROR_FAIL` and `ERROR_STATE`. -/
inductive JsRet where
  | success
  | errorFail
  | errorState
deriving DecidableEq, Repr

/-- A request of `m_arrPendingWriteReqs`. -/
structure JsWriteReq where
  id : Nat
  bytes : List UInt8
  offset : Nat
deriving DecidableEq, Repr

namespace JsSender

/-- `SendMessage`. -/
def send (out : JsSender) (frame : OutFrame) : JsRet × JsSender :=
  if out.connected then (.success, { out with sent := out.sent ++ [frame] }) else (.errorState, out)

/-- `SendBuf` of `tokData`. -/
def sendData (out : JsSender) (payload : List UInt8) : JsRet × JsSender :=
  if out.fc.isFlowCtrl then
    let ret := out.send (.data payload.length payload)
    if ret.1 = .success then (.success, { ret.2 with fc := (ret.2.fc.incTxBytes payload.length).2 }) else ret
  else (.errorFail, out)

/-- `SendReport`. -/
def sendReport (out : JsSender) (report : JsReport) : JsSender :=
  (out.send (.progress jsFrameHeader report)).2

/-- The loop of `SendHeadReq`, with at most so many bytes left: the offset where the request has to wait, if it has. An
error other than `ERROR_FAIL` goes on with the next piece. -/
def sendPieces (bytes : List UInt8) : Nat → JsSender → Nat → Option Nat × JsSender
  | 0, out, _ => (none, out)
  | left + 1, out, offset =>
    if offset < bytes.length then
      let size := if stmMaxBytesPerBuf < bytes.length - offset then stmMaxBytesPerBuf else bytes.length - offset
      let ret := out.sendData ((bytes.drop offset).take size)
      if ret.1 = .errorFail then (some offset, ret.2)
      else if size = bytes.length - offset then (none, ret.2)
      else sendPieces bytes left ret.2 (offset + size)
    else (none, out)

/-- `SendHeadReq`. -/
def sendHeadReq (out : JsSender) (req : JsWriteReq) : Option Nat × JsSender :=
  sendPieces req.bytes (req.bytes.length - req.offset) out req.offset

/-- `ResumeWrite`, with the requests that are left and the answers. -/
def resumeWrite (out : JsSender) : List JsWriteReq → JsSender × List JsWriteReq × List (Nat × Int)
  | [] => (out, [], [])
  | head :: rest =>
    match out.sendHeadReq head with
    | (some offset, out) => (out, { head with offset := offset } :: rest, [])
    | (none, out) =>
      let resumed := resumeWrite out rest
      (resumed.1, resumed.2.1, (head.id, statusSuccess) :: resumed.2.2)

end JsSender

/-- An entry of `m_arrPendingBufs`: the `Object()` it starts with, or a payload and the report that is due with it. -/
inductive RecvBuf where
  | start
  | payload (bytes : List UInt8) (report : Option JsReport)
deriving DecidableEq, Repr

def RecvBuf.report : RecvBuf → Option JsReport
  | .start => none
  | .payload _ report => report

/-- A frame that comes: the bytes behind the size field are `rest`, or so many with a report in them, or with something
that cannot be deserialized. -/
inductive InFrame where
  | data (size : Nat) (rest : List UInt8)
  | progress (size rest : Nat) (report : Option JsReport)
  | ping
  | pong
  | flowCtrl
  | lift
deriving DecidableEq, Repr

/-- A stream. The last fields record the requests, the data frames that came whole, the requests of the client to go on,
whether the peer holds the stream, and whether `IoEvent.StreamClosed` was posted. -/
structure JsStream where
  bound : Bool
  out : JsSender
  recvQue : List RecvBuf
  writeReqs : List JsWriteReq
  answers : List (Nat × Int)
  passed : List RecvBuf
  requests : List (List UInt8)
  received : List (List UInt8)
  entries : List RecvBuf
  consumed : Nat
  peerHolds : Bool
  closed : Bool
deriving DecidableEq, Repr

/-- A handler that runs. -/
inductive JsEvent where
  | bind
  | write (bytes : List UInt8)
  | frame (frame : InFrame)
  | dataConsumed
  | pingTimer
  | disconnect
deriving DecidableEq, Repr

namespace JsStream

def new : JsStream :=
  ⟨false, ⟨JsFlowControl.new, true, []⟩, [.start], [], [], [], [], [], [], 0, false, false⟩

/-- `Bdge_StreamWrite`. -/
def streamWrite (stm : JsStream) (bytes : List UInt8) : JsStream :=
  let req : JsWriteReq := ⟨stm.requests.length, bytes, 0⟩
  let stm := { stm with requests := stm.requests ++ [bytes] }
  if stm.writeReqs ≠ [] ∨ stm.out.fc.isFlowCtrl = false then { stm with writeReqs := stm.writeReqs ++ [req] }
  else
    match stm.out.sendHeadReq req with
    | (some offset, out) => { stm with out := out, writeReqs := [{ req with offset := offset }] }
    | (none, out) => { stm with out := out, answers := stm.answers ++ [(req.id, statusSuccess)] }

/-- `PassHeadToClient`. -/
def passHeadToClient (stm : JsStream) : JsStream :=
  match stm.recvQue with
  | [] => stm
  | head :: _ =>
    let stm := { stm with passed := stm.passed ++ [head] }
    match head.report with
    | none => stm
    | some report => { stm with out := stm.out.sendReport report }

/-- `Bdge_DataConsumed`. -/
def dataConsumed (stm : JsStream) : JsStream :=
  match stm.recvQue with
  | [] => stm
  | _ :: rest => ({ stm with recvQue := rest, consumed := stm.consumed + 1 } : JsStream).passHeadToClient

/-- `ReceiveBuf` of `tokData`. -/
def receiveData (stm : JsStream) (size : Nat) (rest : List UInt8) : JsStream :=
  if rest.length < size then stm
  else
    let payload := rest.take size
    let stm := { stm with received := stm.received ++ [payload] }
    if stmMaxPendingWrite < payload.length then stm
    else
      let fcs := stm.out.fc.incRxBytes payload.length
      let entry : RecvBuf := .payload payload (if fcs.1 = .report then some fcs.2.getReport else none)
      let stm := { stm with
        out := { stm.out with fc := fcs.2 }
        recvQue := stm.recvQue ++ [entry]
        entries := stm.entries ++ [entry] }
      if stm.recvQue.length = 1 then stm.passHeadToClient else stm

/-- `ReceiveBuf` of `tokProgress`. -/
def receiveProgress (stm : JsStream) (size rest : Nat) (report : Option JsReport) : JsStream :=
  match report with
  | none => stm
  | some report =>
    if rest < size then stm
    else
      let fcs := stm.out.fc.onReportInternal report
      let stm := { stm with out := { stm.out with fc := fcs.2 } }
      if fcs.1 = .lift then
        let resumed := stm.out.resumeWrite stm.writeReqs
        { stm with out := resumed.1, writeReqs := resumed.2.1, answers := stm.answers ++ resumed.2.2 }
      else stm

/-- `ReceiveBuf` behind its `default`. -/
def receiveDefault (stm : JsStream) : JsStream := if stm.bound then { stm with closed := true } else stm

/-- `ReceiveBuf`, and the record of what the peer asks for. -/
def receiveBuf (stm : JsStream) : InFrame → JsStream
  | .data size rest => stm.receiveData size rest
  | .progress size rest report => stm.receiveProgress size rest report
  | .pong => stm
  | .ping => stm.receiveDefault
  | .flowCtrl => ({ stm with peerHolds := true } : JsStream).receiveDefault
  | .lift => ({ stm with peerHolds := false } : JsStream).receiveDefault

/-- `SendPing`. -/
def sendPing (stm : JsStream) : JsStream := { stm with out := (stm.out.send .ping).2 }

/-- A handler. The client can reach the stream by its handle only. -/
def step (stm : JsStream) : JsEvent → Option JsStream
  | .bind => some ({ stm with bound := true } : JsStream).sendPing
  | .write bytes => if stm.bound then some (stm.streamWrite bytes) else none
  | .frame frame => some (stm.receiveBuf frame)
  | .dataConsumed => if stm.bound then some stm.dataConsumed else none
  | .pingTimer => some stm.sendPing
  | .disconnect => some { stm with out := { stm.out with connected := false } }

end JsStream

def jsStream : Machine JsStream JsEvent := ⟨JsStream.new, JsStream.step⟩

end RpcFrmwrk.Rpc
