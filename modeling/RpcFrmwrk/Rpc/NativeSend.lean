import RpcFrmwrk.Rpc.StreamRead

/-! The sending side of the native protocol port. The port's lock guards the streams, their write
queues and the sending flag; one round of `StartSend` runs with it. A thread holds the lock of a
request while it submits, defers, completes or cancels it. Owns `AddStmToSendQue`, `GetStreamToSend`
and the rounds of `StartSend` of `CRpcNativeProtoFdo`, with `StartSend` and `StartSendDeferred` of
`CRpcStream2`; `SubmitWriteIrp`, `SubmitIoctlCmd`, `CompleteWriteIrp`, `CompleteIoctlIrp` and
`CancelFuncIrp`, cut where a lock is given away; `NativeState.step`, one step of a thread or of the
lower port. -/

namespace RpcFrmwrk.Rpc

open RpcFrmwrk.Library RpcFrmwrk.Ipc

/-- A request: its stream, whether it waits for a response (`IRP_DIR_INOUT`), its state
and the thread that holds its lock. -/
structure PacketIrp where
  stm : Nat
  inout : Bool
  state : IrpState
  lock : Option Nat
deriving DecidableEq, Repr

def PacketIrp.fresh : PacketIrp := ⟨0, false, .ready, none⟩

/-- The caller of `StartSend`: the submission of a request, its completion with a return
code, its cancellation, or `StartSendDeferred`. -/
inductive SendRole where
  | submit (irp : Nat)
  | complete (irp : Nat) (ret : Int)
  | cancel (irp : Nat)
  | deferred
deriving DecidableEq, Repr

/-- `pIrpLocked`. -/
def SendRole.irpLocked : SendRole → Option Nat
  | .submit irp => some irp
  | _ => none

/-- Where a thread is: not in the port; at the head of a round of `StartSend`, with
`vecIrpComplete`; in front of `SetSending( false )` and `StartSend`; in
`StartSendDeferred`, in front of the lock of the request; behind the answer of the lower
port, in front of `CompleteIrp`; in `CancelFuncIrp`, with `bSendDone`. -/
inductive NativeCall where
  | idle
  | starting (role : SendRole) (done : List (Nat × Int))
  | clearing (role : SendRole)
  | deferring (irp : Nat)
  | deferred (irp : Nat) (ret : Int)
  | cancelling (irp : Nat) (sendDone : Bool)
deriving DecidableEq, Repr

/-- What becomes of a request that is to go to the lower port: the port takes it and
answers later or at once; or it does not get there. -/
inductive LowerAnswer where
  | pending
  | done (ret : Int)
  | refused (ret : Int)
deriving DecidableEq, Repr

/-- The port: `m_mapStreams`, their `m_queWriteIrps`, `m_cycQueSend`, `m_bSending`; the
requests at the lower port; the scheduled calls of `StartSendDeferred` and the scheduled
completions; the requests and the threads. `accepted` are the requests in the order they
were queued, `handed` those that the lower port took. -/
structure NativeState where
  streams : List Nat
  opened : List Nat
  queue : Nat → List Nat
  cycQue : List Nat
  sending : Bool
  lower : List Nat
  scheduled : List Nat
  toComplete : List (Nat × Int)
  irp : Nat → PacketIrp
  call : Nat → NativeCall
  submitted : List Nat
  accepted : List Nat
  handed : List Nat

/-- A stream is added or removed; a thread submits a request; the lower port is done with
one; a scheduled call begins, or a scheduled completion; a thread cancels a request; the
queues are cleared; a thread goes on. -/
inductive NativeMove where
  | addStream (stm : Nat)
  | removeStream (stm : Nat)
  | submit (tid irp stm : Nat) (inout : Bool)
  | lowerDone (tid irp : Nat) (ret : Int)
  | task (tid irp : Nat)
  | completeTask (irp : Nat) (ret : Int)
  | cancel (tid irp : Nat)
  | clear
  | go (tid : Nat) (answer : LowerAnswer)
deriving DecidableEq, Repr

namespace NativeState

def setIrp (state : NativeState) (irp : Nat) (request : PacketIrp) : NativeState :=
  { state with irp := Function.update state.irp irp request }

def setCall (state : NativeState) (tid : Nat) (call : NativeCall) : NativeState :=
  { state with call := Function.update state.call tid call }

def setQueue (state : NativeState) (stm : Nat) (queue : List Nat) : NativeState :=
  { state with queue := Function.update state.queue stm queue }

/-- The state of a request changes, and its lock is given back. -/
def release (state : NativeState) (irp : Nat) (new : IrpState) : NativeState :=
  state.setIrp irp { state.irp irp with state := new, lock := none }

/-- `AddStmToSendQue`. -/
def addStmToSendQue (state : NativeState) (stm : Nat) : NativeState :=
  if stm ∈ state.cycQue then state else { state with cycQue := state.cycQue ++ [stm] }

def stateAfter (request : PacketIrp) (ret : Int) : IrpState :=
  if request.inout = true ∧ succeeded ret = true then request.state else .completed

/-- The end of `StartSend`, and what its caller does behind it. -/
def finish (state : NativeState) (tid : Nat) (role : SendRole) (done : List (Nat × Int)) :
    NativeState :=
  match role with
  | .submit irp =>
    match done with
    | [(other, ret)] =>
      if other = irp ∧ ((state.irp irp).inout = false ∨ succeeded ret = false) then
        (state.release irp .completed).setCall tid .idle
      else
        { (state.release irp (state.irp irp).state).setCall tid .idle with
          toComplete := state.toComplete ++ done }
    | _ =>
      { (state.release irp (state.irp irp).state).setCall tid .idle with
        toComplete := state.toComplete ++ done }
  | .complete irp ret =>
    { (state.release irp (stateAfter (state.irp irp) ret)).setCall tid .idle with
      toComplete := state.toComplete ++ done }
  | .cancel irp =>
    { (state.release irp .cancelled).setCall tid .idle with
      toComplete := state.toComplete ++ done }
  | .deferred => { state.setCall tid .idle with toComplete := state.toComplete ++ done }

/-- `GetStreamToSend`, with the streams of `m_cycQueSend` from the front on. -/
def getStreamToSend (state : NativeState) : List Nat → Option Nat × List Nat
  | [] => (none, [])
  | stm :: rest =>
    if state.queue stm = [] then state.getStreamToSend rest
    else (some stm, if rest = [] then [stm] else rest ++ [stm])

/-- One round of `StartSend`. A request that is not locked goes to `StartSendDeferred`. -/
def startSend (state : NativeState) (tid : Nat) (role : SendRole) (done : List (Nat × Int))
    (answer : LowerAnswer) : NativeState :=
  if state.sending then state.finish tid role done
  else
    match state.getStreamToSend state.cycQue with
    | (none, cycQue) => { state with cycQue := cycQue }.finish tid role done
    | (some stm, cycQue) =>
      match state.queue stm with
      | [] => { state with cycQue := cycQue }.finish tid role done
      | irp :: queue =>
        let state := { state.setQueue stm queue with cycQue := cycQue }
        if role.irpLocked = some irp then
          match answer with
          | .pending =>
            { state with
              sending := true
              lower := irp :: state.lower
              handed := state.handed ++ [irp] }.finish tid role done
          | .done ret =>
            { state with handed := state.handed ++ [irp] }.setCall tid
              (.starting role (done ++ [(irp, ret)]))
          | .refused ret => state.setCall tid (.starting role (done ++ [(irp, ret)]))
        else
          match answer with
          -- The task cannot be scheduled.
          | .refused ret => state.setCall tid (.starting role (done ++ [(irp, ret)]))
          | _ =>
            { state with
              sending := true
              scheduled := irp :: state.scheduled }.finish tid role done

/-- `SubmitWriteIrp` or `SubmitIoctlCmd`, in front of `StartSend`. -/
def submit (state : NativeState) (tid irp stm : Nat) (inout : Bool) : NativeState :=
  let state := { state with submitted := irp :: state.submitted }
  if stm ∉ state.streams ∨ stmMaxRecvPackets < (state.queue stm).length then
    state.setIrp irp ⟨stm, inout, .completed, none⟩
  else
    { ((state.setIrp irp ⟨stm, inout, .ready, some tid⟩).setQueue stm
        (state.queue stm ++ [irp])).addStmToSendQue stm with
      accepted := state.accepted ++ [irp] }.setCall tid (.starting (.submit irp) [])

/-- The next step of a thread. It waits for a lock that another thread holds. -/
def go (state : NativeState) (tid : Nat) (answer : LowerAnswer) : Option NativeState :=
  match state.call tid with
  | .idle => none
  | .starting role done => some (state.startSend tid role done answer)
  | .clearing role => some ({ state with sending := false }.setCall tid (.starting role []))
  | .deferring irp =>
    if (state.irp irp).lock.isSome then none
    else if isError ((state.irp irp).state.canContinue .ready).1 then
      some (state.setCall tid (.clearing .deferred))
    else
      match answer with
      | .pending =>
        some ({ state with lower := irp :: state.lower, handed := state.handed ++ [irp] }.setCall tid
          .idle)
      | .done ret =>
        some ({ state with handed := state.handed ++ [irp] }.setCall tid (.deferred irp ret))
      | .refused ret => some (state.setCall tid (.deferred irp ret))
  | .deferred irp ret =>
    if (state.irp irp).lock.isSome then none
    else if (state.irp irp).state = .ready then
      some ((state.release irp (stateAfter (state.irp irp) ret)).setCall tid (.clearing .deferred))
    else some (state.setCall tid (.clearing .deferred))
  | .cancelling irp sendDone =>
    let stm := (state.irp irp).stm
    -- `RemoveIrpFromMap`.
    let removed :=
      if stm ∈ state.streams then state.setQueue stm ((state.queue stm).erase irp) else state
    if sendDone then some (removed.setCall tid (.clearing (.cancel irp)))
    else some ((removed.release irp .cancelled).setCall tid .idle)

def step (state : NativeState) : NativeMove → Option NativeState
  | .addStream stm =>
    if stm ∉ state.opened then
      some { state with streams := stm :: state.streams, opened := stm :: state.opened }
    else none
  | .removeStream stm =>
    some { state with
      streams := state.streams.filter fun other => other != stm
      cycQue := state.cycQue.erase stm }
  | .submit tid irp stm inout =>
    if state.call tid = .idle ∧ irp ∉ state.submitted then some (state.submit tid irp stm inout)
    else none
  | .lowerDone tid irp ret =>
    if state.call tid = .idle ∧ irp ∈ state.lower ∧ (state.irp irp).lock = none ∧
        (state.irp irp).state = .ready then
      some ({ state.setIrp irp { state.irp irp with lock := some tid } with
        lower := state.lower.erase irp }.setCall tid (.clearing (.complete irp ret)))
    else none
  | .task tid irp =>
    if state.call tid = .idle ∧ irp ∈ state.scheduled then
      some ({ state with scheduled := state.scheduled.erase irp }.setCall tid (.deferring irp))
    else none
  | .completeTask irp ret =>
    if (irp, ret) ∈ state.toComplete ∧ (state.irp irp).lock = none then
      let state := { state with toComplete := state.toComplete.erase (irp, ret) }
      if (state.irp irp).state = .ready then
        some (state.release irp (stateAfter (state.irp irp) ret))
      else some state
    else none
  | .cancel tid irp =>
    if state.call tid = .idle ∧ irp ∈ state.submitted ∧ (state.irp irp).lock = none ∧
        (state.irp irp).state = .ready then
      -- The lower port lets the request go first.
      some ({ state.setIrp irp { state.irp irp with state := .cancelling, lock := some tid } with
        lower := state.lower.erase irp }.setCall tid
          (.cancelling irp (decide (irp ∈ state.lower))))
    else none
  | .clear =>
    some { state with queue := fun stm => if stm ∈ state.streams then [] else state.queue stm }
  | .go tid answer => state.go tid answer

end NativeState

/-- A port that has just become ready, without streams. -/
def nativeMachine : Machine NativeState NativeMove where
  start := ⟨[], [], fun _ => [], [], false, [], [], [], fun _ => .fresh, fun _ => .idle, [], [], []⟩
  step := NativeState.step

end RpcFrmwrk.Rpc
