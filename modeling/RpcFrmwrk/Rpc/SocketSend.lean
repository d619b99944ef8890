import Mathlib.Logic.Function.Basic
import RpcFrmwrk.Ipc.Irp
import RpcFrmwrk.Library.Machine

/-! The write queue of a socket port, its sender and the threads that use them. The port's lock
guards the queue, the sender and the write watch. A thread holds the lock of a request while it
submits, sends, completes or cancels it. The socket takes any part of what it is offered, or
nothing. Owns `CBytesSender` with its cursor, `SendImmediate` and `SetSendDone`; `StartSend2`,
`StartSend3`, `OnSendReady` and `RemoveIrpFromMap` of `CTcpStreamPdo2`, cut where the port's lock is
given away; `SendState.step`, one step of a thread. -/

namespace RpcFrmwrk.Rpc

open RpcFrmwrk.Library RpcFrmwrk.Ipc

/-- `STMPDO2_MAX_IDX_PER_REQ`. -/
def maxIdxPerReq : Nat := 1024

def errorNotHandled : Int := 0x8001000a - 0x100000000

/-- `-ERANGE`. -/
def eRange : Int := -34

/-- A write request: its buffers, its state and the thread that holds its lock. -/
structure WriteIrp where
  bufs : List (List UInt8)
  state : IrpState
  lock : Option Nat
deriving DecidableEq, Repr

/-- A request packet that has not been used. -/
def WriteIrp.fresh : WriteIrp := ⟨[], .ready, none⟩

/-- `CBytesSender` with a request: `m_pIrp`, `m_iBufIdx` and `m_dwOffset`. -/
structure BytesSender where
  irp : Nat
  bufIdx : Nat
  offset : Nat
deriving DecidableEq, Repr

def sentBytes (bufs : List (List UInt8)) (bufIdx offset : Nat) : List UInt8 :=
  (bufs.take bufIdx).flatten ++ (bufs.getD bufIdx []).take offset

/-- The loop of `SendImmediate` over `send`: `accepts` are the counts that the socket
takes before it answers `EAGAIN`. The result says whether the last buffer is
done, with the cursor and the bytes that went out. -/
def sendLoop (maxBytes : Nat) (bufs : List (List UInt8)) (bufIdx offset : Nat) :
    List Nat → Bool × Nat × Nat × List UInt8
  | [] => (false, bufIdx, offset, [])
  | count :: accepts =>
    let buf := bufs.getD bufIdx []
    let size := min (buf.length - offset) maxBytes
    let sent := (buf.drop offset).take (min count size)
    let newOff := offset + sent.length
    if buf.length = newOff then
      if bufIdx + 1 = bufs.length then (true, bufIdx + 1, 0, sent)
      else
        let (done, idx, off, more) := sendLoop maxBytes bufs (bufIdx + 1) 0 accepts
        (done, idx, off, sent ++ more)
    else
      let (done, idx, off, more) := sendLoop maxBytes bufs bufIdx newOff accepts
      (done, idx, off, sent ++ more)

/-- The function that calls `SendImmediate`. -/
inductive Caller where
  | startSend2
  | startSend3
  | onSendReady
deriving DecidableEq, Repr

/-- Where a thread is: not in the port; at the head of the loop of `StartSend3` or
`OnSendReady`; behind the sender's `OnSendReady`; in front of the lock of a request;
with the lock, in front of the send loop; in front of the lock of another
request that the sender has by now; in front of `StartWriteWatch`; in front of
`SetSendDone`; behind it, in front of `CompleteIrp`; in front of the `CompleteIrp` of
another request; in front of `RemoveIrpFromMap`. -/
inductive SendCall where
  | idle
  | taskHead
  | readyHead
  | readyBack
  | waiting (caller : Caller) (irp : Nat)
  | sending (caller : Caller) (irp : Nat)
  | crossing (caller : Caller) (irp other : Nat)
  | arming (caller : Caller) (irp : Nat)
  | sent (caller : Caller) (irp : Nat) (ret : Int)
  | done (caller : Caller) (irp : Nat) (ret : Int)
  | misdone (caller : Caller) (irp other : Nat)
  | cancelling (irp : Nat)
deriving DecidableEq, Repr

/-- The port: `m_queWriteIrps`, `m_oSender`, `m_bWriting`, the requests, the threads
and the scheduled calls of `StartSend3`. `accepted` are the requests in the order they
were queued, `wire` the bytes the socket took, `answered` the return codes of the
requests, in the order of their completion. -/
structure SendState where
  queue : List Nat
  sender : Option BytesSender
  writing : Bool
  irp : Nat → WriteIrp
  call : Nat → SendCall
  deferred : Nat
  accepted : List Nat
  wire : List UInt8
  answered : List (Nat × Int)

namespace SendState

def setIrp (state : SendState) (irp : Nat) (request : WriteIrp) : SendState :=
  { state with irp := Function.update state.irp irp request }

def setCall (state : SendState) (tid : Nat) (call : SendCall) : SendState :=
  { state with call := Function.update state.call tid call }

@[simp] theorem setIrp_self (state : SendState) (irp : Nat) (request : WriteIrp) :
    (state.setIrp irp request).irp irp = request := by
  simp [setIrp]

theorem setIrp_of_ne (state : SendState) {irp other : Nat} (apart : other ≠ irp) (request : WriteIrp) :
    (state.setIrp irp request).irp other = state.irp other := by
  simp [setIrp, apart]

@[simp] theorem setCall_self (state : SendState) (tid : Nat) (call : SendCall) :
    (state.setCall tid call).call tid = call := by
  simp [setCall]

theorem setCall_of_ne (state : SendState) {tid other : Nat} (apart : other ≠ tid) (call : SendCall) :
    (state.setCall tid call).call other = state.call other := by
  simp [setCall, apart]

theorem setCall_eq_self {state : SendState} {tid : Nat} {call : SendCall}
    (there : state.call tid = call) : state.setCall tid call = state := by
  subst there
  simp [setCall]

/-- The thread takes the lock of the request, or gives it back. -/
def setLock (state : SendState) (irp : Nat) (lock : Option Nat) : SendState :=
  state.setIrp irp { state.irp irp with lock := lock }

def answer (state : SendState) (irp : Nat) (ret : Int) (new : IrpState) : SendState :=
  { state.setIrp irp { state.irp irp with state := new } with
    answered := state.answered ++ [(irp, ret)] }

/-- Take the front of the queue into the sender. -/
def setIrpToSend (state : SendState) : SendState :=
  match state.queue with
  | [] => state
  | irp :: queue => { state with queue := queue, sender := some ⟨irp, 0, 0⟩ }

/-- The request in the sender. -/
def sending (state : SendState) : Option Nat :=
  state.sender.map BytesSender.irp

/-- `RemoveIrpFromMap`, with the `CancelSend` of the sender. -/
def removeIrpFromMap (state : SendState) (irp : Nat) : SendState :=
  if state.sending = some irp then { state with sender := none }
  else { state with queue := state.queue.erase irp }

/-- Put a new request at the end of the queue. -/
def push (state : SendState) (irp : Nat) (bufs : List (List UInt8)) : SendState :=
  { state.setIrp irp ⟨bufs, .ready, none⟩ with
    queue := state.queue ++ [irp]
    accepted := state.accepted ++ [irp] }

/-- `StartSend2`, up to `SendImmediate`. A request that is not sent at once is
pending. -/
def startSend2 (state : SendState) (tid irp : Nat) (bufs : List (List UInt8)) : SendState :=
  if state.sender.isSome ∨ 1 < (state.push irp bufs).queue.length then state.push irp bufs
  else
    ((state.push irp bufs).setIrpToSend.setLock irp (some tid)).setCall tid
      (.sending .startSend2 irp)

/-- The caller goes on behind `SendImmediate`, with the return code `ret`. -/
def back (state : SendState) (tid irp : Nat) (caller : Caller) (ret : Int) : SendState :=
  let state := state.setLock irp none
  match caller with
  | .onSendReady =>
    if succeeded ret ∨ ret = errorNotHandled then state.setCall tid .readyBack
    else if ret = statusPending ∨ ret = eNoEnt then state.setCall tid .idle
    else { state.setCall tid .idle with writing := false }
  | .startSend3 => state.setCall tid (if succeeded ret then .taskHead else .idle)
  | .startSend2 =>
    if ret = errorNotHandled ∨ ret = eNoEnt ∨ ret = statusPending then state.setCall tid .idle
    else
      let state := (state.answer irp ret .completed).setCall tid .idle
      if succeeded ret ∧ state.sender = none ∧ state.queue ≠ [] then
        { state with deferred := state.deferred + 1 }
      else state

/-- `SendImmediate` with the lock of the request. -/
def sendImmediate (state : SendState) (maxBytes tid irp : Nat) (caller : Caller)
    (accepts : List Nat) : SendState :=
  match state.sender with
  | none => state.back tid irp caller errorNotHandled
  | some sender =>
    if sender.irp ≠ irp then state.setCall tid (.crossing caller irp sender.irp)
    else
      let bufs := (state.irp irp).bufs
      if bufs.length = 0 ∨ maxIdxPerReq < bufs.length then
        state.setCall tid (.sent caller irp eInval)
      else if bufs.length ≤ sender.bufIdx then state.setCall tid (.sent caller irp statusSuccess)
      else if (bufs.getD sender.bufIdx []).length ≤ sender.offset then
        state.setCall tid (.sent caller irp eRange)
      else
        let (done, idx, off, bytes) := sendLoop maxBytes bufs sender.bufIdx sender.offset accepts
        let state := { state with
          sender := some ⟨irp, idx, off⟩
          wire := state.wire ++ bytes }
        if done then state.setCall tid (.sent caller irp statusSuccess)
        else
          match caller with
          | .onSendReady => state.back tid irp caller statusPending
          | _ => state.setCall tid (.arming caller irp)

/-- The next step of a thread. `accepts` are the counts that the socket takes;
`resumed` says that a port above answers the completion with `STATUS_PENDING`, so that
the request packet is ready again. A thread waits for a lock that another one holds. -/
def go (state : SendState) (maxBytes tid : Nat) (accepts : List Nat) (resumed : Bool) :
    Option SendState :=
  match state.call tid with
  | .idle => none
  | .taskHead =>
    match state.sender, state.queue with
    | none, irp :: _ => some (state.setIrpToSend.setCall tid (.waiting .startSend3 irp))
    | _, _ => some (state.setCall tid .idle)
  | .readyHead =>
    match state.sender with
    | none => some (state.setCall tid .readyBack)
    | some sender => some (state.setCall tid (.waiting .onSendReady sender.irp))
  | .readyBack =>
    if state.sender.isSome then some (state.setCall tid .readyHead)
    else if state.queue = [] then some { state.setCall tid .idle with writing := false }
    else some (state.setIrpToSend.setCall tid .readyHead)
  | .waiting caller irp =>
    if (state.irp irp).lock.isSome then none
    else if isError ((state.irp irp).state.canContinue .ready).1 then
      match caller with
      | .startSend3 => some (state.setCall tid .taskHead)
      | _ => some { state.setCall tid .idle with writing := false }
    else some ((state.setLock irp (some tid)).setCall tid (.sending caller irp))
  | .sending caller irp => some (state.sendImmediate maxBytes tid irp caller accepts)
  | .crossing caller irp other =>
    if (state.irp other).lock.isSome then none
    else
      match state.sender with
      | none => some (state.back tid irp caller statusSuccess)
      | some sender =>
        if sender.irp = other then some (state.back tid irp caller eNoEnt)
        -- `continue` leaves the loop with the return code 0.
        else some ({ state with sender := none }.setCall tid (.misdone caller irp sender.irp))
  | .arming caller irp =>
    some ({ state with writing := true }.back tid irp caller statusPending)
  | .sent caller irp ret => some ({ state with sender := none }.setCall tid (.done caller irp ret))
  | .done caller irp ret =>
    match caller with
    -- The request is not pending yet: `CompleteIrp` leaves it to the submitter.
    | .startSend2 => some (state.back tid irp caller ret)
    | _ =>
      let state := state.answer irp ret (if resumed then .ready else .completed)
      some (state.back tid irp caller ret)
  | .misdone caller irp other =>
    if (state.irp other).lock.isSome then none
    else if isError ((state.irp other).state.canContinue .ready).1 then
      some (state.back tid irp caller statusSuccess)
    else
      some ((state.answer other statusSuccess .completed).back tid irp caller statusSuccess)
  | .cancelling irp =>
    let removed := state.removeIrpFromMap irp
    let ended :=
      if irp ∈ removed.answered.map Prod.fst then
        removed.setIrp irp { removed.irp irp with state := .cancelled }
      else removed.answer irp eCanceled .cancelled
    some ((ended.setLock irp none).setCall tid .idle)

end SendState

/-- A thread submits a new request; the main loop finds the socket ready, on its own
thread; a scheduled `StartSend3` begins; a thread cancels a request or finds it
timed out; a thread goes on. -/
inductive SendMove where
  | submit (tid irp : Nat) (bufs : List (List UInt8))
  | ready
  | task (tid : Nat)
  | cancel (tid irp : Nat)
  | go (tid : Nat) (accepts : List Nat) (resumed : Bool)
deriving DecidableEq, Repr

def mainLoopTid : Nat := 0

def SendState.step (maxBytes : Nat) (state : SendState) : SendMove → Option SendState
  | .submit tid irp bufs =>
    if state.call tid = .idle ∧ irp ∉ state.accepted then some (state.startSend2 tid irp bufs)
    else none
  | .ready =>
    if state.call mainLoopTid = .idle ∧ state.writing = true then
      some (state.setCall mainLoopTid .readyHead)
    else none
  | .task tid =>
    if state.call tid = .idle ∧ 0 < state.deferred then
      some { state.setCall tid .taskHead with deferred := state.deferred - 1 }
    else none
  | .cancel tid irp =>
    if state.call tid = .idle ∧ irp ∈ state.accepted ∧ (state.irp irp).lock = none ∧
        (state.irp irp).state = .ready then
      some (((state.setIrp irp { state.irp irp with state := .cancelling }).setLock irp
        (some tid)).setCall tid (.cancelling irp))
    else none
  | .go tid accepts resumed => state.go maxBytes tid accepts resumed

/-- A port that has just become ready; `maxBytes` is the most that is offered to the
socket at once. -/
def sendMachine (maxBytes : Nat) : Machine SendState SendMove where
  start := ⟨[], none, false, fun _ => .fresh, fun _ => .idle, 0, [], [], []⟩
  step := SendState.step maxBytes

end RpcFrmwrk.Rpc
