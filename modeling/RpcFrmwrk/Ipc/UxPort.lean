import RpcFrmwrk.Ipc.StreamQueue
import RpcFrmwrk.Ipc.UxSock

/-! The port of a stream on a unix socket, on its reading side. The port's lock guards the queues,
the flag and the read watch. It is given away to take the lock of a request, and a request is locked
while it is cancelled. One thread reads the socket, and it goes on behind a watch that was stopped
as long as there are bytes; any thread may report an event, read, listen, cancel or send a command.
Owns `OnStmRecv`, `SendNotify`, `SubmitReadIrp`, `HandleListening` and `RemoveIrpFromMap` of
`CUnixSockStmPdo`, cut where the lock is given away; the commands of `HandleStreamCommand` that
switch the read watch; `UxPort.step`, one step of a thread. -/

namespace RpcFrmwrk.Ipc

open RpcFrmwrk.Library

/-- Where a call is that hands a buffer to a request: not in the port; with a request taken off, in
front of its lock; in front of `CompleteIrp`. -/
inductive HandOver where
  | idle
  | popped (irp : Nat) (buf : List UInt8)
  | responded (irp : Nat) (buf : List UInt8)
deriving DecidableEq, Repr

/-- `CUnixSockStmPdo`: `m_bListenOnly`, `m_bFlowCtrl`, whether the read watch is on, the data packets
and the requests that read, the event packets and the requests that listen. `reads` and
`listens` are the requests by their minor command. `recv` is the call of `OnStmRecv`, and
`call` those of `SendNotify`. `received` are the packets that `OnStmRecv` got for readers, `notified`
those of `SendNotify`, and `delivered` and `heard` the completed requests with theirs. `flying` are
the event packets that are taken off the queue but not delivered, and `promised` the requests
whose response is set to one of them. -/
structure UxPort where
  listenOnly : Bool
  flowCtrl : Bool
  watch : Bool
  dataPackets : List (List UInt8)
  reading : List Nat
  eventPackets : List (List UInt8)
  listening : List Nat
  irp : Nat → IrpState
  reads : List Nat
  listens : List Nat
  recv : HandOver
  call : Nat → HandOver
  received : List (List UInt8)
  notified : List (PktToken × List UInt8)
  delivered : List (Nat × List UInt8)
  heard : List (Nat × List UInt8)
  flying : List (List UInt8)
  promised : List Nat

/-- The reading thread gets a packet; it goes on in `OnStmRecv`; a thread reports an event; a thread goes
on in `SendNotify`; a request reads, or listens; a command to go on or to stop; a request is
being cancelled, and its cancellation is over. -/
inductive UxPortMove where
  | packet (token : PktToken) (payload : List UInt8)
  | recvGoOn
  | notify (tid : Nat) (token : PktToken) (payload : List UInt8)
  | goOn (tid : Nat)
  | read (own : Nat)
  | listen (own : Nat)
  | lift
  | flowCtrl
  | cancelBegin (irp : Nat)
  | cancelEnd (irp : Nat)
deriving DecidableEq, Repr

/-- The buffer that `SendNotify` makes, or none where it returns an error. -/
def eventBuf (token : PktToken) (payload : List UInt8) : Option (List UInt8) :=
  match token with
  | .ping | .pong | .flowCtrl | .lift => some [token.toByte]
  | .error => some (token.toByte :: payload)
  | .data | .progress =>
    if payload = [] then none else some (token.toByte :: (toBE 4 payload.length ++ payload))
  | .close => none

namespace UxPort

def setIrp (port : UxPort) (irp : Nat) (irpState : IrpState) : UxPort :=
  { port with irp := Function.update port.irp irp irpState }

def setCall (port : UxPort) (tid : Nat) (call : HandOver) : UxPort :=
  { port with call := Function.update port.call tid call }

/-- The canceller has the lock of the request. -/
def busy (port : UxPort) (irp : Nat) : Bool :=
  decide (port.irp irp = .cancelling)

/-- The request can still be completed. -/
def ready (port : UxPort) (irp : Nat) : Bool :=
  !isError ((port.irp irp).canContinue .ready).1

/-- The reading thread is not in the port. The calls of `SendNotify` by this thread have the number
zero. -/
def ioIdle (port : UxPort) : Bool :=
  decide (port.recv = .idle ∧ port.call 0 = .idle)

def packets (port : UxPort) : List (List UInt8) :=
  if port.listenOnly then port.eventPackets else port.dataPackets

/-- `SendNotify`. The packet is queued, and the first in the queue goes to the first request. -/
def sendNotify (port : UxPort) (tid : Nat) (token : PktToken) (payload : List UInt8) : UxPort :=
  let port := { port with notified := port.notified ++ [(token, payload)] }
  match eventBuf token payload with
  | none => port
  | some evtBuf =>
    match port.listening with
    | [] =>
      { port with
        eventPackets := port.eventPackets ++ [evtBuf]
        watch := if stmMaxQueueSize ≤ port.eventPackets.length + 1 then false else port.watch }
    | irp :: rest =>
      let front := port.eventPackets.headD evtBuf
      { port with
        listening := rest
        eventPackets := (port.eventPackets ++ [evtBuf]).tail
        flying := port.flying ++ [front] }.setCall tid (.popped irp front)

/-- The next step of a thread in `SendNotify`. It waits for the lock of a request. -/
def goOn (port : UxPort) (tid : Nat) : Option UxPort :=
  match port.call tid with
  | .idle => none
  | .popped irp buf =>
    if port.busy irp then none
    else if port.ready irp then
      some ({ port with promised := port.promised ++ [irp] }.setCall tid (.responded irp buf))
    else
      some
        ({ port with
            eventPackets := buf :: port.eventPackets
            flying := port.flying.erase buf }.setCall tid .idle)
  | .responded irp buf =>
    if port.busy irp then none
    else
      let left := { port with flying := port.flying.erase buf, promised := port.promised.erase irp }
      if port.ready irp then
        some (({ left with heard := port.heard ++ [(irp, buf)] }.setIrp irp .completed).setCall tid .idle)
      else some (left.setCall tid .idle)

/-- `OnStmRecv` for a port that does not only listen. -/
def onStmRecv (port : UxPort) (buf : List UInt8) : UxPort :=
  let port := { port with received := port.received ++ [buf] }
  match port.dataPackets, port.reading with
  | [], [] => { port with dataPackets := [buf] }
  | [], irp :: rest => { port with reading := rest, recv := .popped irp buf }
  | _, _ =>
    { port with
      dataPackets := port.dataPackets ++ [buf]
      watch := if stmMaxQueueSize ≤ port.dataPackets.length + 1 then false else port.watch }

/-- The next step in `OnStmRecv`. -/
def recvGoOn (port : UxPort) : Option UxPort :=
  match port.recv with
  | .idle => none
  | .popped irp buf =>
    if port.busy irp then none
    else if port.ready irp then some { port with recv := .responded irp buf }
    else some { port with recv := .idle }
  | .responded irp buf =>
    if port.busy irp then none
    else if port.ready irp then
      some ({ port with recv := .idle, delivered := port.delivered ++ [(irp, buf)] }.setIrp irp .completed)
    else some { port with recv := .idle }

/-- `SubmitReadIrp`. -/
def submitReadIrp (port : UxPort) (own : Nat) : UxPort :=
  let port := { port with reads := own :: port.reads }
  match port.reading, port.dataPackets with
  | [], buf :: later =>
    { port with
      dataPackets := later
      delivered := port.delivered ++ [(own, buf)]
      watch :=
        if port.flowCtrl then port.watch
        else if later.length + 1 = stmMaxQueueSize then true
        else port.watch }.setIrp own .completed
  | _, _ => { port with reading := port.reading ++ [own] }

/-- `HandleListening`. -/
def handleListening (port : UxPort) (own : Nat) : UxPort :=
  let port := { port with listens := own :: port.listens }
  match port.eventPackets with
  | buf :: later =>
    { port with
      eventPackets := later
      heard := port.heard ++ [(own, buf)]
      watch :=
        if port.flowCtrl then port.watch
        else if later.length = stmMaxQueueSize - 1 then true
        else port.watch }.setIrp own .completed
  | [] =>
    -- `ERROR_QUEUE_FULL` completes the request without a packet.
    if stmMaxQueueSize < port.listening.length then port.setIrp own .completed
    else { port with listening := port.listening ++ [own] }

/-- `HandleStreamCommand` with `tokLift`. -/
def lift (port : UxPort) : UxPort :=
  if stmMaxQueueSize ≤ port.dataPackets.length then { port with flowCtrl := false }
  else { port with flowCtrl := false, watch := true }

/-- `HandleStreamCommand` with `tokFlowCtrl`. -/
def stop (port : UxPort) : UxPort :=
  { port with flowCtrl := true, watch := false }

/-- `RemoveIrpFromMap`. -/
def removeIrpFromMap (port : UxPort) (irp : Nat) : UxPort :=
  if irp ∈ port.reads then { port with reading := port.reading.erase irp }
  else { port with listening := port.listening.erase irp }

def step (port : UxPort) : UxPortMove → Option UxPort
  | .packet token payload =>
    if port.ioIdle = true then
      some
        (if token = .data ∧ port.listenOnly = false then port.onStmRecv payload
         else port.sendNotify 0 token payload)
    else none
  | .recvGoOn => port.recvGoOn
  | .notify tid token payload =>
    if port.call tid = .idle ∧ (tid = 0 → port.recv = .idle) then
      some (port.sendNotify tid token payload)
    else none
  | .goOn tid => port.goOn tid
  | .read own =>
    if own ∉ port.reads ∧ own ∉ port.listens then some (port.submitReadIrp own) else none
  | .listen own =>
    if own ∉ port.reads ∧ own ∉ port.listens then some (port.handleListening own) else none
  | .lift => some port.lift
  | .flowCtrl => some port.stop
  | .cancelBegin irp =>
    if (irp ∈ port.reads ∨ irp ∈ port.listens) ∧ port.irp irp = .ready then
      some (port.setIrp irp .cancelling)
    else none
  | .cancelEnd irp =>
    if port.irp irp = .cancelling then some ((port.setIrp irp .cancelled).removeIrpFromMap irp)
    else none

def start (listenOnly : Bool) : UxPort where
  listenOnly := listenOnly
  flowCtrl := false
  watch := true
  dataPackets := []
  reading := []
  eventPackets := []
  listening := []
  irp := fun _ => .ready
  reads := []
  listens := []
  recv := .idle
  call := fun _ => .idle
  received := []
  notified := []
  delivered := []
  heard := []
  flying := []
  promised := []

end UxPort

def uxPortMachine (listenOnly : Bool) : Machine UxPort UxPortMove where
  start := UxPort.start listenOnly
  step := UxPort.step

end RpcFrmwrk.Ipc
