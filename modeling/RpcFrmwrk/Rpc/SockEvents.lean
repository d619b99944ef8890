import Mathlib.Logic.Function.Basic
import RpcFrmwrk.Ipc.Irp
import RpcFrmwrk.Library.Machine

/-! The events of a socket port and the requests that listen for them. The port's lock guards both
queues. It is given away to take the lock of a request; a request is locked while it is cancelled,
and its own caller holds its lock while it is submitted. One thread reads the socket; any thread may
report an error, listen or cancel. Owns `OnReceive`, `OnStmSockEvent` and `SubmitListeningCmd` of
`CTcpStreamPdo2`, cut where a lock is given away, with the task that completes the requests of a
listener; `RemoveIrpFromMap` of a listening request; `SockState.step`, one step of a thread. -/

namespace RpcFrmwrk.Rpc

open RpcFrmwrk.Library RpcFrmwrk.Ipc

/-- `STREAM_SOCK_EVENT`. -/
inductive StmSockEvent where
  | retWithBuf (inBuf : List UInt8)
  | error (data : Int)
deriving DecidableEq, Repr

/-- Where `OnReceive` is: not in the port; at the head of its loop behind a first buffer; with an
event queued, in front of the lock of a request; in front of `CompleteIrp`. -/
inductive SockRecv where
  | idle
  | reading
  | received (irp : Nat)
  | responded (irp : Nat) (evt : StmSockEvent)
deriving DecidableEq, Repr

/-- Where another thread is. In `OnStmSockEvent`: at the head of the loop again, with a request
taken off, in front of `CompleteIrp`. In `SubmitListeningCmd`: with the pairs that are left
and those whose response is set. -/
inductive SockCall where
  | idle
  | head (evt : StmSockEvent)
  | popped (irp : Nat) (evt : StmSockEvent)
  | responded (irp : Nat) (evt : StmSockEvent)
  | pairing (own : Nat) (pairs ready : List (Nat × StmSockEvent))
deriving DecidableEq, Repr

/-- The port: `m_queEvtToRecv`, `m_queListeningIrps`, the requests with those whose lock their
caller holds, the threads, and the tasks that complete requests. `happened` are the
events in their order, `delivered` the completed requests with theirs. `flying` are the
events that are given to a request but not delivered, `promised` the requests whose
response is set. -/
structure SockState where
  evts : List StmSockEvent
  listening : List Nat
  irp : Nat → IrpState
  held : Nat → Bool
  recv : SockRecv
  call : Nat → SockCall
  tasks : List (List (Nat × StmSockEvent))
  submitted : List Nat
  happened : List StmSockEvent
  delivered : List (Nat × StmSockEvent)
  flying : List StmSockEvent
  promised : List Nat

/-- A buffer is read; `OnReceive` goes on, completes its request, finds no more bytes; an event is
reported by a thread; the thread goes on; a new request listens; a task completes its
next request; a request is being cancelled, and its cancellation is over. -/
inductive SockMove where
  | receive (inBuf : List UInt8)
  | received
  | recvDone
  | receiveEnd
  | event (tid : Nat) (evt : StmSockEvent)
  | goOn (tid : Nat)
  | listen (tid own : Nat)
  | runTask (index : Nat)
  | cancelBegin (irp : Nat)
  | cancelEnd (irp : Nat)
deriving DecidableEq, Repr

namespace SockState

def setIrp (state : SockState) (irp : Nat) (irpState : IrpState) : SockState :=
  { state with irp := Function.update state.irp irp irpState }

def setHeld (state : SockState) (irp : Nat) (held : Bool) : SockState :=
  { state with held := Function.update state.held irp held }

def setCall (state : SockState) (tid : Nat) (call : SockCall) : SockState :=
  { state with call := Function.update state.call tid call }

/-- Another thread has the lock of the request. -/
def busy (state : SockState) (irp : Nat) : Bool :=
  state.held irp || decide (state.irp irp = .cancelling)

/-- The request can still be completed. -/
def ready (state : SockState) (irp : Nat) : Bool :=
  !isError ((state.irp irp).canContinue .ready).1

/-- `CompleteIrp`. What was given to a request that is gone is gone too. -/
def complete (state : SockState) (irp : Nat) (evt : StmSockEvent) : SockState :=
  if state.ready irp then
    { state.setIrp irp .completed with
      delivered := state.delivered ++ [(irp, evt)]
      flying := state.flying.erase evt
      promised := state.promised.erase irp }
  else { state with flying := state.flying.erase evt, promised := state.promised.erase irp }

/-- `OnReceive` behind `read`. -/
def receive (state : SockState) (inBuf : List UInt8) : SockState :=
  { state with
    evts := state.evts ++ [.retWithBuf inBuf]
    happened := state.happened ++ [.retWithBuf inBuf]
    recv :=
      match state.listening with
      | [] => .idle
      | irp :: _ => .received irp }

/-- `OnReceive` with the lock of the request and of the port. -/
def received (state : SockState) (irp : Nat) : SockState :=
  match state.listening, state.evts with
  | front :: rest, evt :: later =>
    if front ≠ irp then { state with recv := .reading }
    else if state.ready irp then
      { state with
        listening := rest
        evts := later
        flying := state.flying ++ [evt]
        promised := state.promised ++ [irp]
        recv := .responded irp evt }
    else { state with listening := rest, recv := .reading }
  | _, _ => { state with recv := .reading }

/-- `OnStmSockEvent`, its first loop. -/
def event (state : SockState) (tid : Nat) (evt : StmSockEvent) : SockState :=
  match state.listening with
  | [] => { state with evts := state.evts ++ [evt], happened := state.happened ++ [evt] }
  | irp :: rest =>
    { state with
      listening := rest
      happened := state.happened ++ [evt]
      flying := state.flying ++ [evt] }.setCall tid (.popped irp evt)

/-- The next step of a thread. It waits for the lock of a request. -/
def goOn (state : SockState) (tid : Nat) : Option SockState :=
  match state.call tid with
  | .idle => none
  | .head evt =>
    match state.listening with
    | [] =>
      some
        ({ state with
            evts := state.evts ++ [evt]
            flying := state.flying.erase evt }.setCall tid .idle)
    | irp :: rest => some ({ state with listening := rest }.setCall tid (.popped irp evt))
  | .popped irp evt =>
    if state.busy irp then none
    else if state.ready irp then
      some ({ state with promised := state.promised ++ [irp] }.setCall tid (.responded irp evt))
    else some (state.setCall tid (.head evt))
  | .responded irp evt =>
    if state.busy irp then none else some ((state.complete irp evt).setCall tid .idle)
  | .pairing own ((irp, evt) :: pairs) ready =>
    if irp ≠ own ∧ state.busy irp then none
    else if state.ready irp then
      some
        ({ state with promised := state.promised ++ [irp] }.setCall tid
          (.pairing own pairs (ready ++ [(irp, evt)])))
    -- "the event is discarded as the irp is canceled".
    else
      some
        ({ state with flying := state.flying.erase evt }.setCall tid (.pairing own pairs ready))
  | .pairing own [] [] =>
    -- `ERROR_FAIL` is returned for the own request.
    some (((state.setIrp own .completed).setHeld own false).setCall tid .idle)
  | .pairing own [] (pair :: ready) =>
    some
      (({ state with tasks := state.tasks ++ [pair :: ready] }.setHeld own false).setCall tid .idle)

/-- `SubmitListeningCmd` with the port's lock. -/
def listen (state : SockState) (tid own : Nat) : SockState :=
  let state := { state with submitted := own :: state.submitted, listening := state.listening ++ [own] }
  let pairs := state.listening.zip state.evts
  let left :=
    { state with
      listening := state.listening.drop pairs.length
      evts := state.evts.drop pairs.length }
  match pairs with
  | [] => state
  | [(irp, evt)] =>
    if irp = own then
      { left.setIrp own .completed with delivered := state.delivered ++ [(own, evt)] }
    else
      ({ left with flying := state.flying ++ [evt] }.setHeld own true).setCall tid
        (.pairing own pairs [])
  | _ =>
    ({ left with flying := state.flying ++ pairs.map Prod.snd }.setHeld own true).setCall tid
      (.pairing own pairs [])

def runTask (state : SockState) (index : Nat) : Option SockState :=
  match state.tasks[index]? with
  | some ((irp, evt) :: rest) =>
    if state.busy irp then none
    else
      some
        { state.complete irp evt with
          tasks := if rest = [] then state.tasks.eraseIdx index else state.tasks.set index rest }
  | _ => none

/-- `RemoveIrpFromMap`. -/
def removeIrpFromMap (state : SockState) (irp : Nat) : SockState :=
  { state with listening := state.listening.erase irp }

def step (state : SockState) : SockMove → Option SockState
  | .receive inBuf =>
    if (state.recv = .idle ∨ state.recv = .reading) ∧ inBuf ≠ [] then some (state.receive inBuf)
    else none
  | .received =>
    match state.recv with
    | .received irp => if state.busy irp then none else some (state.received irp)
    | _ => none
  | .recvDone =>
    match state.recv with
    | .responded irp evt =>
      if state.busy irp then none else some { state.complete irp evt with recv := .reading }
    | _ => none
  | .receiveEnd => if state.recv = .reading then some { state with recv := .idle } else none
  | .event tid evt => if state.call tid = .idle then some (state.event tid evt) else none
  | .goOn tid => state.goOn tid
  | .listen tid own =>
    if state.call tid = .idle ∧ own ∉ state.submitted then some (state.listen tid own) else none
  | .runTask index => state.runTask index
  | .cancelBegin irp =>
    if irp ∈ state.submitted ∧ state.irp irp = .ready ∧ state.held irp = false then
      some (state.setIrp irp .cancelling)
    else none
  | .cancelEnd irp =>
    if state.irp irp = .cancelling then some ((state.setIrp irp .cancelled).removeIrpFromMap irp)
    else none

end SockState

/-- A port that has just been started. -/
def sockMachine : Machine SockState SockMove where
  start := ⟨[], [], fun _ => .ready, fun _ => false, .idle, fun _ => .idle, [], [], [], [], [], []⟩
  step := SockState.step

end RpcFrmwrk.Rpc
