import RpcFrmwrk.Ipc.FlowControl
import RpcFrmwrk.Ipc.Irp

/-! The stream task that reads. A method runs under the lock of the task, but for a report: the lock
is dropped to send it. A packet stands for the bytes of its buffer from the offset on. A timer can
fire at any moment. Owns `CIfStmReadWriteTask` with `IsReading()` true: `ReadStreamInternal`,
`SetRdRespForIrp`, `CompleteReadIrp`, `OnStmRecv`, `ReschedRead` and `OnWorkerIrpComplete`;
`StmReader.step`, what a method does under one hold of the lock, or behind it. -/

namespace RpcFrmwrk.Ipc

open RpcFrmwrk.Library

/-- What a caller passes, with the size of its buffer. An empty one asks for a message. -/
structure ReadReq where
  id : Nat
  size : Nat
  noWait : Bool
deriving DecidableEq, Repr

/-- A buffer that was received, and its place among them. -/
structure ReadPkt where
  seq : Nat
  report : Bool
  bytes : List UInt8
deriving DecidableEq, Repr

/-- A request packet, and what is in its response. -/
structure QueuedRead where
  req : ReadReq
  state : IrpState
  status : Int
  filled : List UInt8
deriving DecidableEq, Repr

/-- What a caller gets back, and what it finds in its buffer then. -/
structure ReadDone where
  req : ReadReq
  status : Int
  bytes : List UInt8
deriving DecidableEq, Repr

/-- A call of `ReadStreamInternal`. It goes on without the lock behind a report that was not
the first packet. -/
structure ReadCall where
  req : ReadReq
  locked : Bool
deriving DecidableEq, Repr

/-- A report on its way to `SendProgress`, and the call that goes on behind it. -/
structure SendingReport where
  report : ReadPkt
  call : Option ReadCall
deriving DecidableEq, Repr

namespace QueuedRead

def done (irp : QueuedRead) : ReadDone := ⟨irp.req, irp.status, irp.filled⟩

/-- A message is the packet itself, and a block is copied into. -/
def setRdRespForIrp (irp : QueuedRead) (pkt : ReadPkt) : Int × QueuedRead × ReadPkt :=
  if irp.req.size = 0 then
    (statusSuccess, { irp with status := statusSuccess, filled := pkt.bytes }, pkt)
  else
    let count := min (irp.req.size - irp.filled.length) pkt.bytes.length
    let copied := { irp with filled := irp.filled ++ pkt.bytes.take count }
    if copied.filled.length < irp.req.size then (statusPending, copied, pkt)
    else if count < pkt.bytes.length then
      (statusMoreProcessNeeded, copied, { pkt with bytes := pkt.bytes.drop count })
    else (statusSuccess, copied, pkt)

/-- The loop of `CompleteReadIrp` of a new request: what it returns, the request, the packets
that stay, and the packet it returns. The timer of the request can fire before a round. -/
def takePackets (irp : QueuedRead) (fires : Option Nat) :
    List ReadPkt → Int × QueuedRead × List ReadPkt × List UInt8
  | [] => (statusPending, irp, [], [])
  | first :: rest =>
    if fires = some 0 then (errorState, irp, first :: rest, first.bytes)
    else
      let (ret, irp, left) := irp.setRdRespForIrp first
      if ret = statusPending then takePackets irp (fires.map Nat.pred) rest
      else if ret = statusSuccess then (statusSuccess, irp, rest, left.bytes)
      else (statusMoreProcessNeeded, irp, left :: rest, left.bytes)

/-- The loop of `OnStmRecv` over the requests: what it returns, the requests that stay, those
that are chosen, and the packet if it is queued. -/
def feedRequests (pkt : ReadPkt) :
    List QueuedRead → Int × List QueuedRead × List QueuedRead × Option ReadPkt
  | [] => (statusPending, [], [], some pkt)
  | irp :: rest =>
    if irp.state ≠ .ready then (errorState, irp :: rest, [], none)
    else
      let (ret, irp, left) := irp.setRdRespForIrp pkt
      if ret = statusPending then (statusPending, irp :: rest, [], none)
      else if ret = statusSuccess then
        (statusSuccess, rest, [{ irp with status := statusSuccess }], none)
      else
        let (ret, rest, chosen, queued) := feedRequests left rest
        (ret, rest, { irp with status := statusSuccess } :: chosen, queued)

end QueuedRead

/-- `CIfStmReadWriteTask` as a reader. The chosen requests are out of the queue and not yet
completed. The last fields record the ids of the callers, the packets accepted, what each
request has got in the order of the hand-outs, the place of each report sent and how many
bytes were handed out by then, the requests whose timer has fired, and the requests
completed. -/
structure StmReader where
  stopped : Bool
  discard : Bool
  paused : Bool
  queBufRead : List ReadPkt
  queRequests : List QueuedRead
  chosen : List QueuedRead
  calls : List ReadCall
  sending : List SendingReport
  asked : List Nat
  received : List ReadPkt
  given : List ReadDone
  sent : List (Nat × Nat)
  fired : List Nat
  done : List ReadDone
deriving DecidableEq, Repr

namespace StmReader

def new : StmReader where
  stopped := false
  discard := false
  paused := false
  queBufRead := []
  queRequests := []
  chosen := []
  calls := []
  sending := []
  asked := []
  received := []
  given := []
  sent := []
  fired := []
  done := []

/-- The bytes that the requests have got. -/
def handed (reader : StmReader) : List UInt8 :=
  reader.given.flatMap ReadDone.bytes ++ reader.queRequests.flatMap QueuedRead.filled

/-- A call returns. -/
def answer (reader : StmReader) (req : ReadReq) (status : Int) (bytes : List UInt8) : StmReader :=
  { reader with
    given := reader.given ++ [⟨req, status, bytes⟩], done := reader.done ++ [⟨req, status, bytes⟩] }

/-- `CompleteReadIrp` of a new request, and the return of the call unless it waits. A caller
that does not wait finds the last packet in its buffer. -/
def completeReadIrp (reader : StmReader) (req : ReadReq) (fires : Option Nat) : StmReader :=
  if reader.queRequests ≠ [] ∧ reader.queBufRead ≠ [] then reader.answer req errorState []
  else
    let new : QueuedRead := ⟨req, .ready, statusPending, []⟩
    let (ret, irp, left, temp) := new.takePackets fires reader.queBufRead
    let taken := { reader with queBufRead := left }
    if ret = statusPending then { taken with queRequests := taken.queRequests ++ [irp] }
    else if isError ret then
      { taken with fired := taken.fired ++ [req.id] }.answer req ret irp.filled
    else
      let resumed :=
        if ret = statusSuccess ∧ left.length < stmMaxPacketsReport then { taken with paused := false }
        else taken
      resumed.answer req statusSuccess temp

/-- `ReadStreamInternal` behind the reports. -/
def readPackets (reader : StmReader) (req : ReadReq) (fires : Option Nat) : StmReader :=
  if req.noWait ∧ req.size = 0 then
    match reader.queBufRead with
    | [] => reader.answer req eAgain []
    | first :: rest =>
      if reader.queRequests = [] then
        let popped := { reader with queBufRead := rest }
        let resumed :=
          if stmMaxPacketsReport ≤ reader.queBufRead.length ∧ rest.length < stmMaxPacketsReport then
            { popped with paused := false }
          else popped
        resumed.answer req statusSuccess first.bytes
      else reader.answer req errorState []
  else if req.noWait then reader.answer req eInval []
  else reader.completeReadIrp req fires

/-- `ReadStreamInternal`, as long as the lock is held. -/
def readStreamInternal (reader : StmReader) (call : ReadCall) (fires : Option Nat) : StmReader :=
  if call.locked = false then reader.readPackets call.req fires
  else if reader.stopped ∨ reader.discard then reader.answer call.req errorState []
  else
    match reader.queBufRead with
    | first :: rest =>
      if first.report then
        { reader with
          queBufRead := rest, sending := reader.sending ++ [⟨first, some ⟨call.req, true⟩⟩] }
      else
        match rest with
        | second :: rest =>
          if second.report then
            { reader with
              queBufRead := first :: rest
              sending := reader.sending ++ [⟨second, some ⟨call.req, false⟩⟩] }
          else reader.readPackets call.req fires
        | [] => reader.readPackets call.req fires
    | [] => reader.readPackets call.req fires

/-- The loop of `OnStmRecv` and of `ReschedRead`. -/
def completeReads (reader : StmReader) (pkt : ReadPkt) : Int × StmReader :=
  if reader.queRequests ≠ [] ∧ reader.queBufRead ≠ [] then (errorState, reader)
  else
    let (ret, requests, chosen, queued) := QueuedRead.feedRequests pkt reader.queRequests
    (ret,
      { reader with
        queRequests := requests
        queBufRead := reader.queBufRead ++ queued.toList
        chosen := reader.chosen ++ chosen
        given := reader.given ++ chosen.map QueuedRead.done })

def onStmRecv (reader : StmReader) (report : Bool) (bytes : List UInt8) : Int × StmReader :=
  let pkt : ReadPkt := ⟨reader.received.length, report, bytes⟩
  let accepted := { reader with received := reader.received ++ [pkt] }
  if bytes = [] then (eInval, reader)
  else if reader.stopped then (errorState, reader)
  else if report then
    if reader.queBufRead = [] ∨ reader.discard then
      (statusSuccess, { accepted with sending := accepted.sending ++ [⟨pkt, none⟩] })
    else (statusSuccess, { accepted with queBufRead := accepted.queBufRead ++ [pkt] })
  else if reader.discard then (statusSuccess, reader)
  else if reader.queRequests = [] then
    let queued := { accepted with queBufRead := accepted.queBufRead ++ [pkt] }
    if stmMaxPacketsReport ≤ queued.queBufRead.length then
      (statusSuccess, { queued with paused := true })
    else if queued.queBufRead.length = 1 then (statusMoreProcessNeeded, queued)
    else (statusSuccess, queued)
  else accepted.completeReads pkt

def reschedRead (reader : StmReader) : Int × StmReader :=
  if reader.discard then (statusSuccess, reader)
  else if reader.queRequests = [] then (statusSuccess, reader)
  else
    match reader.queBufRead with
    | [] => (statusSuccess, reader)
    | pkt :: rest => { reader with queBufRead := rest }.completeReads pkt

/-- `COMPLETE_IRP` behind the lock: a request that was retired meanwhile gets nothing. -/
def completeIrp (reader : StmReader) (irp : QueuedRead) : StmReader :=
  let left := { reader with chosen := reader.chosen.erase irp }
  if irp.state = .ready then { left with done := left.done ++ [irp.done] } else left

/-- `OnWorkerIrpComplete` of a request that was cancelled or has timed out. -/
def onWorkerIrpComplete (reader : StmReader) (irp : QueuedRead) : StmReader :=
  let left := { reader with queRequests := reader.queRequests.erase irp }.answer irp.req irp.status irp.filled
  if left.queRequests = [] ∧ stmMaxPacketsReport ≤ left.queBufRead.length then { left with paused := true }
  else left

/-- The timer of a request fires, or it is cancelled. -/
def retire (irps : List QueuedRead) (id : Nat) (status : Int) : List QueuedRead :=
  irps.map fun irp =>
    if irp.req.id = id ∧ irp.state = .ready then { irp with state := .cancelled, status := status } else irp

end StmReader

inductive StmReaderMove where
  | call (id size : Nat) (noWait : Bool)
  | read (call : ReadCall) (fires : Option Nat)
  | send (sending : SendingReport)
  | recv (report : Bool) (bytes : List UInt8)
  | resched
  | complete (irp : QueuedRead)
  | expire (id : Nat) (status : Int)
  | expired (irp : QueuedRead)
deriving DecidableEq, Repr

namespace StmReader

def step (reader : StmReader) : StmReaderMove → Option StmReader
  | .call id size noWait =>
    if id ∉ reader.asked then
      some { reader with
        asked := reader.asked ++ [id], calls := reader.calls ++ [⟨⟨id, size, noWait⟩, true⟩] }
    else none
  | .read call fires =>
    if call ∈ reader.calls then
      some ({ reader with calls := reader.calls.erase call }.readStreamInternal call fires)
    else none
  | .send sending =>
    if sending ∈ reader.sending then
      some { reader with
        sending := reader.sending.erase sending
        calls := reader.calls ++ sending.call.toList
        sent := reader.sent ++ [(sending.report.seq, reader.handed.length)] }
    else none
  | .recv report bytes => some (reader.onStmRecv report bytes).2
  | .resched => some reader.reschedRead.2
  | .complete irp => if irp ∈ reader.chosen then some (reader.completeIrp irp) else none
  | .expire id status =>
    if status < 0 ∧ ∃ irp ∈ reader.queRequests ++ reader.chosen, irp.req.id = id ∧ irp.state = .ready then
      some { reader with
        queRequests := retire reader.queRequests id status
        chosen := retire reader.chosen id status
        fired := reader.fired ++ [id] }
    else none
  | .expired irp =>
    if irp ∈ reader.queRequests ∧ irp.state = .cancelled then some (reader.onWorkerIrpComplete irp)
    else none

end StmReader

def stmReaderMachine : Machine StmReader StmReaderMove := ⟨.new, StmReader.step⟩

end RpcFrmwrk.Ipc
