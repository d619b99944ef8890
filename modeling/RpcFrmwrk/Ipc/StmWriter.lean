import RpcFrmwrk.Combase.Window
import RpcFrmwrk.Ipc.UxSock

/-! The stream task that writes. All methods run under the lock of the task. The callback of a
request is called under it and can write again, so a method is cut behind each request it completes.
The lower stream refuses a piece as its flow control is on, and tells when it is lifted. A buffer
belongs to one request as long as this waits. Owns `CIfStmReadWriteTask` with `IsReading()` false:
`WriteStreamInternal`, `AdjustSizeToWrite`, `RunTask`, `OnIoIrpComplete`, `OnWorkerIrpComplete`,
`RESCHED_WRITE_TASK`, `Pause`, `Resume` and `ReRun`; `StmWriter.step`, one part of a method, or what
the lower stream and the timers do. -/

namespace RpcFrmwrk.Ipc

open RpcFrmwrk.Library

/-- `-ENODATA`. -/
def eNoData : Int := -61

/-- What a caller passes, with the window of its buffer. A message has the control code
`CTRLCODE_WRITEMSG` and no timer. -/
structure WriteReq where
  id : Nat
  noWait : Bool
  buf : BufWindow
deriving DecidableEq, Repr

/-- A request packet of `m_queRequests` and the window of its buffer now. -/
structure QueuedWrite where
  req : WriteReq
  state : IrpState
  submitted : Bool
  win : BufWindow
deriving DecidableEq, Repr

/-- A window that is handed to the lower stream. -/
structure StmPiece where
  id : Nat
  offset : Nat
  tailOff : Nat
deriving DecidableEq, Repr

/-- A piece the lower stream has taken, with the answer that is on its way. -/
structure FlyingPiece where
  piece : StmPiece
  status : Option Int
deriving DecidableEq, Repr

/-- A completed request and the window its caller finds. -/
structure WriteDone where
  req : WriteReq
  status : Int
  win : BufWindow
deriving DecidableEq, Repr

/-- `EnumPauseReason`. -/
inductive PauseReason where
  | queLimit
  | flowCtrl
deriving DecidableEq, Repr

/-- Where a method under the lock goes on: in the loop of `RunTask`, in the loop of a failed
write, in front of `RESCHED_WRITE_TASK` of `OnIoIrpComplete` with the value it returns, or of
`OnWorkerIrpComplete` with `bHead`. -/
inductive WriterPlace where
  | loop
  | failing
  | resched (ret : Int)
  | worker (head : Bool)
deriving DecidableEq, Repr

namespace QueuedWrite

def piece (irp : QueuedWrite) : StmPiece := ⟨irp.req.id, irp.win.offset, irp.win.tailOff⟩

/-- The window is set back to `dwOffset` and `dwTailOff` of the `IRPCTX_EXT`. -/
def recover (irp : QueuedWrite) : QueuedWrite :=
  { irp with win := (irp.win.setOffset irp.req.buf.offset).setTailOff irp.req.buf.tailOff }

def adjustSizeToWrite (irp : QueuedWrite) (slide : Bool) : Int × QueuedWrite :=
  if irp.win.size = 0 then (eInval, irp)
  else if slide then
    let origTail := irp.req.buf.tailOff
    let tailOff := irp.win.tailOff
    if irp.win.shadowSize = 0 then (eNoData, irp)
    else if stmMaxBytesPerBuf ≤ sub32 origTail tailOff then
      (statusSuccess, { irp with win := irp.win.slideWindow stmMaxBytesPerBuf })
    else if tailOff < origTail then
      (statusSuccess, { irp with win := irp.win.slideWindow (origTail - tailOff) })
    else if origTail = tailOff then (eNoData, irp)
    else (eRange, irp)
  else if stmMaxBytesPerBuf < irp.win.size then
    (statusSuccess, { irp with win := irp.win.setWinSize stmMaxBytesPerBuf })
  else (statusSuccess, irp)

end QueuedWrite

/-- `CIfStmReadWriteTask` as a writer. `irpPtr` is the piece under `propIrpPtr`. A retired
request has timed out and was taken out of the queue before its callback came. `calling` is
set while the callback of a request can run. The last fields record the requests accepted,
the pieces handed to the lower stream, those it has written, the errors of the requests, and
the requests completed. -/
structure StmWriter where
  outLimit : Bool
  stopped : Bool
  paused : Bool
  queLimit : Bool
  flowCtrl : Bool
  queue : List QueuedWrite
  retired : List QueuedWrite
  irpPtr : Option StmPiece
  place : Option WriterPlace
  calling : Bool
  due : Nat
  canSend : Bool
  lifts : Nat
  flight : List FlyingPiece
  accepted : List WriteReq
  handed : List StmPiece
  written : List StmPiece
  failed : List (Nat × Int)
  done : List WriteDone
deriving DecidableEq, Repr

namespace StmWriter

def new (outLimit : Bool) : StmWriter where
  outLimit := outLimit
  stopped := false
  paused := false
  queLimit := false
  flowCtrl := false
  queue := []
  retired := []
  irpPtr := none
  place := none
  calling := false
  due := 1
  canSend := true
  lifts := 0
  flight := []
  accepted := []
  handed := []
  written := []
  failed := []
  done := []

/-- The queue has no room, as `HasOutQueLimit` is set. -/
def Full (writer : StmWriter) : Prop :=
  stmMaxPacketsReport ≤ writer.queue.length ∧ writer.outLimit = true

instance decidableFull (writer : StmWriter) : Decidable writer.Full :=
  inferInstanceAs (Decidable (_ ∧ _))

/-- `m_arrReasons[ iReason ]`. -/
def hasReason (writer : StmWriter) : PauseReason → Bool
  | .queLimit => writer.queLimit
  | .flowCtrl => writer.flowCtrl

def setReason (writer : StmWriter) (on : Bool) : PauseReason → StmWriter
  | .queLimit => { writer with queLimit := on }
  | .flowCtrl => { writer with flowCtrl := on }

/-- `iReason ^ 1`. -/
def otherReason : PauseReason → PauseReason
  | .queLimit => .flowCtrl
  | .flowCtrl => .queLimit

/-- The piece under `propIrpPtr` is cancelled without a callback, if it is still below. -/
def pause (writer : StmWriter) (reason : PauseReason) : StmWriter :=
  let marked := writer.setReason true reason
  if marked.stopped ∨ marked.paused then marked
  else
    { marked with
      paused := true
      irpPtr := none
      flight := match marked.irpPtr with
        | some piece => marked.flight.erase ⟨piece, none⟩
        | none => marked.flight }

def resume (writer : StmWriter) (reason : PauseReason) : Int × StmWriter :=
  let cleared := writer.setReason false reason
  if cleared.hasReason (otherReason reason) then (statusSuccess, cleared)
  else if cleared.stopped then (errorState, cleared)
  else if ¬cleared.paused then (statusSuccess, cleared)
  else (statusSuccess, { cleared with paused := false, due := cleared.due + 1 })

def reRun (writer : StmWriter) : Int × StmWriter :=
  if writer.stopped then (errorState, writer)
  else if writer.paused then (statusSuccess, writer)
  else (statusSuccess, { writer with due := writer.due + 1 })

/-- `RESCHED_WRITE_TASK`, which sets `ret` or leaves it. -/
def reschedWriteTask (writer : StmWriter) (ret : Int) : Int × StmWriter :=
  if writer.queue = [] then (statusPending, writer.pause .queLimit)
  else if writer.Full then (ret, writer)
  else
    let (ran, next) := if writer.paused then writer.resume .queLimit else writer.reRun
    (if succeeded ran then statusPending else ran, next)

/-- `COMPLETE_IRP`. -/
def complete (writer : StmWriter) (irp : QueuedWrite) (status : Int) : StmWriter :=
  { writer with done := writer.done ++ [⟨irp.req, status, irp.win⟩], calling := true }

def writeStreamInternal (writer : StmWriter) (id : Nat) (noWait callback : Bool) (buf : BufWindow) :
    Int × StmWriter :=
  let req : WriteReq := ⟨id, noWait, buf⟩
  if buf.size = 0 then (eInval, writer)
  else if noWait ∧ callback then (eInval, writer)
  else if writer.stopped then (errorState, writer)
  else if writer.Full then (errorQueueFull, writer)
  else if noWait ∧ stmMaxBytesPerBuf < buf.size then (eInval, writer)
  else
    let pushed := { writer with
      queue := writer.queue ++ [⟨req, .ready, false, buf⟩], accepted := writer.accepted ++ [req] }
    if writer.queue = [] ∧ writer.paused then (statusPending, (pushed.resume .queLimit).2)
    else (statusPending, pushed)

/-- The loop of `RunTask` behind a write of the lower stream that is neither pending nor
refused. -/
def answered (writer : StmWriter) (irp : QueuedWrite) (rest : List QueuedWrite) (ret : Int) : StmWriter :=
  let popped := { writer with queue := rest, irpPtr := none }
  if isError ret then
    let failing := { popped with failed := popped.failed ++ [(irp.req.id, ret)] }
    failing.complete (if irp.req.noWait then irp else irp.recover) ret
  else
    let sent := { popped with
      handed := popped.handed ++ [irp.piece], written := popped.written ++ [irp.piece] }
    if irp.req.noWait then sent.complete irp ret
    else if irp.req.buf.tailOff = irp.win.tailOff then sent.complete irp.recover ret
    else
      let (err, next) := irp.adjustSizeToWrite true
      if succeeded err then { sent with queue := next :: rest }
      else sent.complete next.recover (if err = eNoData then statusSuccess else err)

/-- One round of the loop of `RunTask`, and what the lower stream answers if it is called. -/
def runLoop (writer : StmWriter) (ret : Int) : StmWriter :=
  let writer := { writer with calling := false }
  match writer.queue with
  | [] => { writer.pause .queLimit with place := none }
  | irp :: rest =>
    if irp.state ≠ .ready then { writer with queue := rest, retired := irp :: writer.retired }
    else if irp.submitted then { writer with place := none }
    else
      let irp := if irp.req.noWait then irp else (irp.adjustSizeToWrite false).2
      if ret = statusPending then
        { writer with
          queue := { irp with submitted := true } :: rest
          irpPtr := some irp.piece
          flight := writer.flight ++ [⟨irp.piece, none⟩]
          handed := writer.handed ++ [irp.piece]
          place := none }
      else if ret = errorQueueFull then
        { { writer with queue := irp :: rest }.pause .flowCtrl with place := none }
      else writer.answered irp rest ret

/-- The end of `OnIrpComplete`: the task is over if it does not return `STATUS_PENDING`. -/
def finish (writer : StmWriter) (ret : Int) : StmWriter :=
  if ret = statusPending then { writer with place := none }
  else { writer with place := none, stopped := true }

def resched (writer : StmWriter) (ret : Int) : StmWriter :=
  let (ret, next) := { writer with calling := false }.reschedWriteTask ret
  next.finish ret

/-- `OnIoIrpComplete`, to the first request it completes. -/
def onIoIrpComplete (writer : StmWriter) (piece : StmPiece) (status : Int) : StmWriter :=
  if isError status then
    { writer with place := some .failing, failed := writer.failed ++ [(piece.id, status)] }
  else
    let sent := { writer with written := writer.written ++ [piece] }
    match sent.queue with
    | [] => sent.resched status
    | irp :: rest =>
      let popped := { sent with queue := rest }
      if isError (irp.state.canContinue .ready).1 then sent
      else if irp.req.id ≠ piece.id then
        { popped.complete irp eInval with place := some (.resched eInval) }
      else if irp.req.buf.tailOff = irp.win.tailOff then
        { popped.complete irp.recover statusSuccess with place := some (.resched statusSuccess) }
      else
        let (err, next) := { irp with submitted := false }.adjustSizeToWrite true
        if succeeded err then
          { sent with queue := next :: rest, place := some (.resched statusSuccess) }
        else
          { popped.complete next.recover (if err = eNoData then statusSuccess else err) with
            place := some (.resched statusSuccess) }

/-- One round of the loop of `OnIoIrpComplete` behind a failed write. -/
def failNext (writer : StmWriter) : StmWriter :=
  let writer := { writer with calling := false }
  match writer.queue with
  | [] => { (writer.reschedWriteTask statusPending).2 with place := none }
  | irp :: rest =>
    let popped := { writer with queue := rest }
    let ret := (irp.state.canContinue .ready).1
    if isError ret then { popped with retired := irp :: popped.retired } else popped.complete irp ret

def setState (irps : List QueuedWrite) (id : Nat) (state : IrpState) : List QueuedWrite :=
  irps.map fun irp => if irp.req.id = id then { irp with state := state } else irp

/-- `OnWorkerIrpComplete` of a request that has timed out, to its completion. -/
def onWorkerIrpComplete (writer : StmWriter) (irp : QueuedWrite) : StmWriter :=
  let isHead := writer.queue.head?.any fun head => head.req.id = irp.req.id
  { { writer with
      queue := writer.queue.eraseP fun held => held.req.id = irp.req.id
      retired := writer.retired.eraseP fun held => held.req.id = irp.req.id }.complete irp eTimedOut with
    place := some (.worker isHead) }

/-- Behind the end of the task a request that has timed out is only completed. -/
def completeStopped (writer : StmWriter) (irp : QueuedWrite) : StmWriter :=
  { writer with
    queue := setState writer.queue irp.req.id .completed
    retired := setState writer.retired irp.req.id .completed }.complete irp eTimedOut

end StmWriter

inductive StmWriterMove where
  | write (id : Nat) (noWait callback : Bool) (buf : BufWindow)
  | run
  | loop (ret : Int)
  | land (piece : StmPiece) (status : Int)
  | complete (piece : StmPiece) (status : Int)
  | failNext
  | resched
  | expire (id : Nat)
  | expired (irp : QueuedWrite)
  | flowCtrl
  | lift
  | onFCLifted
deriving DecidableEq, Repr

namespace StmWriter

def step (writer : StmWriter) : StmWriterMove → Option StmWriter
  | .write id noWait callback buf =>
    if (writer.place = none ∨ writer.calling) ∧ id ∉ writer.accepted.map WriteReq.id then
      some (writer.writeStreamInternal id noWait callback buf).2
    else none
  | .run =>
    if writer.place = none ∧ 0 < writer.due then
      if writer.stopped then some { writer with due := writer.due - 1 }
      else some { writer with due := writer.due - 1, place := some .loop, calling := false }
    else none
  | .loop ret => if writer.place = some .loop then some (writer.runLoop ret) else none
  | .land piece status =>
    if ⟨piece, none⟩ ∈ writer.flight ∧ status ≠ statusPending then
      some { writer with flight := writer.flight.erase ⟨piece, none⟩ ++ [⟨piece, some status⟩] }
    else none
  | .complete piece status =>
    if writer.place = none ∧ ⟨piece, some status⟩ ∈ writer.flight then
      let landed := { writer with
        flight := writer.flight.erase ⟨piece, some status⟩, calling := false }
      some (if landed.stopped then landed else landed.onIoIrpComplete piece status)
    else none
  | .failNext => if writer.place = some .failing then some writer.failNext else none
  | .resched =>
    match writer.place with
    | some (.resched ret) => some (writer.resched ret)
    | some (.worker _) =>
      some { ({ writer with calling := false }.reschedWriteTask statusSuccess).2 with place := none }
    | _ => none
  | .expire id =>
    if ∃ irp ∈ writer.queue, irp.req.id = id ∧ irp.state = .ready ∧ irp.req.noWait = false then
      some { writer with
        queue := setState writer.queue id .cancelled
        failed := writer.failed ++ [(id, eTimedOut)] }
    else none
  | .expired irp =>
    if writer.place = none ∧ irp ∈ writer.queue ++ writer.retired ∧ irp.state = .cancelled then
      some (if writer.stopped then writer.completeStopped irp else writer.onWorkerIrpComplete irp)
    else none
  | .flowCtrl => some { writer with canSend := false }
  | .lift =>
    if writer.canSend then none else some { writer with canSend := true, lifts := writer.lifts + 1 }
  | .onFCLifted =>
    if writer.place = none ∧ 0 < writer.lifts then
      let told := { writer with lifts := writer.lifts - 1 }
      some (if told.stopped then told else (told.resume .flowCtrl).2)
    else none

end StmWriter

namespace StmWriter

variable {writer : StmWriter}

theorem stopped_setReason (on : Bool) (reason : PauseReason) :
    (writer.setReason on reason).stopped = writer.stopped := by
  cases reason <;> rfl

theorem paused_setReason (on : Bool) (reason : PauseReason) :
    (writer.setReason on reason).paused = writer.paused := by
  cases reason <;> rfl

theorem flight_setReason (on : Bool) (reason : PauseReason) :
    (writer.setReason on reason).flight = writer.flight := by
  cases reason <;> rfl

theorem hasOther_setReason (on : Bool) (reason : PauseReason) :
    (writer.setReason on reason).hasReason (otherReason reason) = writer.hasReason (otherReason reason) := by
  cases reason <;> rfl

theorem pause_going (going : writer.stopped = false) (reason : PauseReason) :
    ∃ irpPtr flight, flight.Sublist writer.flight ∧
      writer.pause reason =
        { writer.setReason true reason with paused := true, irpPtr := irpPtr, flight := flight } := by
  have notOver : ¬(writer.setReason true reason).stopped = true := by
    rw [stopped_setReason, going]
    exact Bool.false_ne_true
  rw [pause, ← flight_setReason true reason]
  generalize writer.setReason true reason = marked at notOver
  by_cases paused : marked.paused = true
  · refine ⟨marked.irpPtr, marked.flight, List.Sublist.refl _, ?_⟩
    rw [if_pos (.inr paused), ← paused]
  · rw [if_neg (not_or.2 ⟨notOver, paused⟩)]
    refine ⟨none, _, ?_, rfl⟩
    split
    · exact List.erase_sublist
    · exact List.Sublist.refl _

theorem resume_going (going : writer.stopped = false) (reason : PauseReason) :
    writer.resume reason =
      (statusSuccess,
        if writer.hasReason (otherReason reason) = false ∧ writer.paused = true then
          { writer.setReason false reason with
            paused := false, due := (writer.setReason false reason).due + 1 }
        else writer.setReason false reason) := by
  have notOver : ¬(writer.setReason false reason).stopped = true := by
    rw [stopped_setReason, going]
    exact Bool.false_ne_true
  have sameOther := @hasOther_setReason writer false reason
  have samePaused := @paused_setReason writer false reason
  rw [resume]
  generalize writer.setReason false reason = cleared at notOver sameOther samePaused
  rw [← sameOther, ← samePaused]
  by_cases other : cleared.hasReason (otherReason reason) = true
  · rw [if_pos other, if_neg fun both => Bool.false_ne_true (both.1.symm.trans other)]
  · rw [if_neg other, if_neg notOver]
    by_cases paused : cleared.paused = true
    · rw [if_neg fun unpaused => unpaused paused, if_pos ⟨Bool.eq_false_iff.2 other, paused⟩]
    · rw [if_pos paused, if_neg fun both => paused both.2]

theorem reRun_going (going : writer.stopped = false) (paused : writer.paused = false) :
    writer.reRun = (statusSuccess, { writer with due := writer.due + 1 }) := by
  rw [reRun, going, paused]
  rfl

theorem reschedWriteTask_room (going : writer.stopped = false) (some : writer.queue ≠ [])
    (room : ¬writer.Full) (ret : Int) :
    writer.reschedWriteTask ret =
      (statusPending,
        if writer.paused = true then (writer.resume .queLimit).2
        else { writer with due := writer.due + 1 }) := by
  rw [reschedWriteTask, if_neg some, if_neg room]
  by_cases paused : writer.paused = true
  · rw [if_pos paused, if_pos paused, resume_going going]
    rfl
  · rw [if_neg paused, if_neg paused, reRun_going going (Bool.eq_false_iff.2 paused)]
    rfl

theorem reschedWriteTask_pending (going : writer.stopped = false) (room : ¬writer.Full) (ret : Int) :
    (writer.reschedWriteTask ret).1 = statusPending := by
  by_cases empty : writer.queue = []
  · rw [reschedWriteTask, if_pos empty]
  · rw [reschedWriteTask_room going empty room]

theorem not_full_of_nil (empty : writer.queue = []) : ¬writer.Full := by
  intro full
  have length := full.1
  rw [empty] at length
  exact absurd length (by decide)

end StmWriter

/-- A buffer of two pieces. -/
def longBuf : BufWindow := ⟨100000, 0, 100000, by decide, by decide, by decide⟩

def shortBuf : BufWindow := ⟨16, 0, 16, by decide, by decide, by decide⟩

def stmWriterMachine (outLimit : Bool) : Machine StmWriter StmWriterMove :=
  ⟨.new outLimit, StmWriter.step⟩

end RpcFrmwrk.Ipc
