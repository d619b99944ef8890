import Mathlib.Logic.Function.Basic
import RpcFrmwrk.Ipc.Irp
import RpcFrmwrk.Library.Machine

/-! A queue of an in-process stream, its writers, readers and task. The parts of a method under the
queue's lock are one step. A request packet is locked while it is submitted and while it is
cancelled. Owns the methods of `CStreamQueue`, with the parts of `ProcessIrps` between which it
gives the queue's lock away; `QueueState.step`, one step of a writer, a reader, a canceller or the
task. -/

namespace RpcFrmwrk.Ipc

open RpcFrmwrk.Library

/-- `STM_MAX_QUEUE_SIZE`. -/
def stmMaxQueueSize : Nat := 128

/-- A buffer. Its first byte is the token. -/
abbrev Packet := List UInt8

def tokFlowCtrl : UInt8 := 6

def tokLift : UInt8 := 7

structure StreamQueue where
  state : TaskState
  pkts : List Packet
  irps : List Nat
  inProcess : Bool
deriving DecidableEq, Repr

/-- The result of a method: its return code, the packet it responds with,
whether it tells the connection point that the queue got full or has room again,
and whether it has scheduled a task for `ProcessIrps`. -/
structure QueueResult where
  ret : Int
  response : Option Packet
  notify : Bool
  task : Bool
  que : StreamQueue

namespace StreamQueue

/-- A queue after `Start`. -/
def start : StreamQueue := ⟨.started, [], [], false⟩

/-- Schedule a task for `ProcessIrps`; `taken` says whether `RescheduleTask` has
taken it. -/
def schedule (que : StreamQueue) (taken : Bool) : Bool × StreamQueue :=
  if taken then (true, { que with inProcess := true })
  else (false, { que with inProcess := false })

/-- `QueuePacket`. -/
def queuePacket (que : StreamQueue) (pkt : Packet) (scheduled : Int) : QueueResult :=
  match pkt with
  | [] => ⟨eInval, none, false, false, que⟩
  | token :: _ =>
    if que.state ≠ .started then ⟨errorState, none, false, false, que⟩
    else if stmMaxQueueSize ≤ que.pkts.length then ⟨errorQueueFull, none, false, false, que⟩
    else
      let que := { que with pkts := que.pkts ++ [pkt] }
      let notify := que.pkts.length == stmMaxQueueSize && token != tokFlowCtrl && token != tokLift
      if que.inProcess || que.irps.isEmpty then ⟨statusSuccess, none, notify, false, que⟩
      else
        -- `scheduled` is what `RescheduleTask` returns.
        let (task, que) := que.schedule !isError scheduled
        ⟨scheduled, none, notify, task, que⟩

/-- `SubmitIrp`. -/
def submitIrp (que : StreamQueue) (irp : Nat) (scheduled : Int) : QueueResult :=
  if que.state ≠ .started then ⟨errorState, none, false, false, que⟩
  else if stmMaxQueueSize ≤ que.irps.length then ⟨errorQueueFull, none, false, false, que⟩
  else if que.inProcess || que.pkts.isEmpty then
    ⟨statusPending, none, false, false, { que with irps := que.irps ++ [irp] }⟩
  else if que.irps.length ≠ 0 then
    let (task, que) := { que with irps := que.irps ++ [irp] }.schedule (succeeded scheduled)
    ⟨if task then statusPending else scheduled, none, false, task, que⟩
  else
    match que.pkts with
    | [] => ⟨statusSuccess, none, false, false, que⟩
    | pkt :: pkts =>
      ⟨statusSuccess, some pkt, pkts.length == stmMaxQueueSize - 1, false,
        { que with pkts := pkts }⟩

/-- The head of the loop of `ProcessIrps`: the next request with the next packet,
or the end of the task. -/
def processNext (que : StreamQueue) : Option (Nat × Packet) × StreamQueue :=
  match que.irps, que.pkts with
  | irp :: irps, pkt :: pkts => (some (irp, pkt), { que with irps := irps, pkts := pkts })
  | _, _ => (none, { que with inProcess := false })

/-- `ProcessIrps`, up to the first request. -/
def processBegin (que : StreamQueue) : Option (Nat × Packet) × StreamQueue :=
  if que.state = .stopped then (none, { que with inProcess := false })
  else { que with inProcess := true }.processNext

/-- `ProcessIrps` has the lock back: put the packet back, or tell that the queue
has room again. -/
def processBack (que : StreamQueue) (putBack : Option Packet) : Bool × StreamQueue :=
  match putBack with
  | some pkt => (false, { que with pkts := pkt :: que.pkts })
  | none => (que.pkts.length == stmMaxQueueSize - 1, que)

/-- `RemoveIrpFromMap`. -/
def removeIrpFromMap (que : StreamQueue) (irp : Nat) : Int × StreamQueue :=
  if que.state = .stopped then (errorState, que)
  else if irp ∈ que.irps then (statusSuccess, { que with irps := que.irps.erase irp })
  else (eNoEnt, que)

end StreamQueue

/-- Where `ProcessIrps` is: not scheduled; scheduled; with a request and a packet
taken off, in front of the request's lock; behind `CanContinue` and the lock, in
front of `CompleteIrp`; in front of the queue's lock, with a packet to be put back
if any; telling that the queue has room. -/
inductive Phase where
  | idle
  | scheduled
  | taken (irp : Nat) (pkt : Packet)
  | checked (irp : Nat) (pkt : Packet)
  | handled (putBack : Option Packet)
  | notifying
deriving DecidableEq, Repr

/-- The packet in the hand of `ProcessIrps`. -/
def Phase.held : Phase → List Packet
  | .taken _ pkt | .checked _ pkt | .handled (some pkt) => [pkt]
  | _ => []

/-- The queue and its requests. `accepted` are the packets `QueuePacket` has
taken, `delivered` the responses of completed requests, in their order. -/
structure QueueState where
  que : StreamQueue
  phase : Phase
  irp : Nat → IrpState
  submitted : List Nat
  accepted : List Packet
  delivered : List (Nat × Packet)

/-- A writer queues a packet; a reader submits a new request; a request is being
cancelled, and its cancellation is over; `ProcessIrps` goes on. -/
inductive QueueMove where
  | queuePacket (pkt : Packet) (scheduled : Int)
  | submitIrp (irp : Nat) (scheduled : Int)
  | cancelBegin (irp : Nat)
  | cancelEnd (irp : Nat)
  | process
deriving DecidableEq, Repr

def QueueState.loop (state : QueueState) (next : Option (Nat × Packet) × StreamQueue) :
    QueueState :=
  match next with
  | (some (irp, pkt), que) => { state with que := que, phase := .taken irp pkt }
  | (none, que) => { state with que := que, phase := .idle }

/-- The next step of `ProcessIrps`. It waits for a request that is being cancelled. -/
def QueueState.process (state : QueueState) : Option QueueState :=
  match state.phase with
  | .idle => none
  | .scheduled => some (state.loop state.que.processBegin)
  | .taken irp pkt =>
    if state.irp irp = .cancelling then none
    else if isError ((state.irp irp).canContinue .ready).1 then
      some { state with phase := .handled (some pkt) }
    else some { state with phase := .checked irp pkt }
  | .checked irp pkt =>
    if state.irp irp = .cancelling then none
    -- `CompleteIrp`, whose return code is not looked at.
    else if state.irp irp = .ready then
      some { state with
        phase := .handled none
        irp := Function.update state.irp irp .completed
        delivered := state.delivered ++ [(irp, pkt)] }
    else some { state with phase := .handled none }
  | .handled putBack =>
    let (notify, que) := state.que.processBack putBack
    if notify then some { state with que := que, phase := .notifying }
    else some (state.loop que.processNext)
  | .notifying => some (state.loop state.que.processNext)

def QueueState.step (state : QueueState) : QueueMove → Option QueueState
  | .queuePacket pkt scheduled =>
    let result := state.que.queuePacket pkt scheduled
    some { state with
      que := result.que
      phase := if result.task then .scheduled else state.phase
      accepted := if isError result.ret then state.accepted else state.accepted ++ [pkt] }
  | .submitIrp irp scheduled =>
    if irp ∈ state.submitted then none
    else
      let result := state.que.submitIrp irp scheduled
      some { state with
        que := result.que
        phase := if result.task then .scheduled else state.phase
        irp := if result.ret = statusPending then state.irp
          else Function.update state.irp irp .completed
        submitted := irp :: state.submitted
        delivered := match result.response with
          | some pkt => state.delivered ++ [(irp, pkt)]
          | none => state.delivered }
  | .cancelBegin irp =>
    if irp ∈ state.submitted ∧ state.irp irp = .ready then
      some { state with irp := Function.update state.irp irp .cancelling }
    else none
  | .cancelEnd irp =>
    if state.irp irp = .cancelling then
      some { state with
        que := (state.que.removeIrpFromMap irp).2
        irp := Function.update state.irp irp .cancelled }
    else none
  | .process => state.process

def queueMachine : Machine QueueState QueueMove where
  start := ⟨.start, .idle, fun _ => .ready, [], [], []⟩
  step := QueueState.step

end RpcFrmwrk.Ipc
