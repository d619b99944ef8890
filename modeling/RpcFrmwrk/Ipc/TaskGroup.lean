import RpcFrmwrk.Ipc.Irp
import RpcFrmwrk.Library.Machine

/-! The sequential task group. The lock of the group is dropped around every call of a task, and
`m_bNoSched` is set meanwhile. A task notifies the group when it is complete and sets its own error
behind that; a task that has to be retried does neither before its last try. `m_bRunning` is set
while the group is `stateStarted`. Owns `CIfTaskGroup`: `AppendTask`, `RunTaskInternal`,
`OnChildComplete`, `OnCancel` and `OnComplete`, cut where the lock is dropped; `IfTaskGrp.step`, one
section of any thread. -/

namespace RpcFrmwrk.Ipc

open RpcFrmwrk.Library

/-- `ERROR_CANCEL_INSTEAD`. -/
def errorCancelInstead : Int := 0x8001000f - 0x100000000

/-- `EnumLogicOp`. -/
inductive LogicOp where
  | and
  | or
  | none
deriving DecidableEq, Repr

/-- Whether the tasks behind one with this answer are cancelled. -/
def LogicOp.stops (relation : LogicOp) (ret : Int) : Bool :=
  match relation with
  | .and => isError ret
  | .or => !isError ret
  | .none => false

/-- `EnumHeadState`. -/
inductive HeadState where
  | waitStart
  | waitComplete
  | waitRunning
deriving DecidableEq, Repr

/-- Where a thread of the group stands: in the call of a task, behind it with the error of
the task, between `RunTaskInternal` and `OnCancel`, in the cancelling of a task, or in front
of `OnComplete`. -/
inductive GrpThread where
  | inside (task : Nat)
  | ran (task : Nat) (err : Int)
  | instead
  | cancelling (task : Nat) (ret : Int)
  | ended (ret : Int)
deriving DecidableEq, Repr

/-- `CIfTaskGroup`. An answer in `m_vecRetVals` stands with its task. The results are those
the tasks have notified, and a task has settled when its own error is set. The last fields
record the tasks appended, those started, those cancelled without a start, and whether the
group was asked to cancel. -/
structure IfTaskGrp where
  relation : LogicOp
  state : TaskState
  headState : HeadState
  noSched : Bool
  canceling : Bool
  queTasks : List Nat
  retVals : List (Nat × Int)
  ret : Option Int
  threads : List GrpThread
  due : Nat
  results : List (Nat × Int)
  settled : List Nat
  accepted : List Nat
  started : List Nat
  skipped : List Nat
  asked : Bool
deriving DecidableEq, Repr

namespace IfTaskGrp

/-- A group whose first run is scheduled. -/
def new (relation : LogicOp) : IfTaskGrp where
  relation := relation
  state := .starting
  headState := .waitStart
  noSched := false
  canceling := false
  queTasks := []
  retVals := []
  ret := none
  threads := []
  due := 1
  results := []
  settled := []
  accepted := []
  started := []
  skipped := []
  asked := false

def isStopped (grp : IfTaskGrp) : Bool := grp.state = .stopping ∨ grp.state = .stopped

/-- `m_vecRetVals.back()`. -/
def lastRet (grp : IfTaskGrp) : Option Int := grp.retVals.getLast?.map Prod.snd

/-- `GetError` of a task, which can ask for a retry before it is complete. -/
def getError (grp : IfTaskGrp) (task : Nat) (retry : Bool) : Int :=
  let unset := if retry then statusMoreProcessNeeded else statusPending
  if task ∈ grp.settled then (grp.results.lookup task).getD unset else unset

def appendTask (grp : IfTaskGrp) (task : Nat) : Int × IfTaskGrp :=
  if grp.isStopped then (errorState, grp)
  else
    (statusSuccess,
      { grp with queTasks := grp.queTasks ++ [task], accepted := grp.accepted ++ [task] })

def goTo (grp : IfTaskGrp) (thread : GrpThread) : IfTaskGrp :=
  { grp with threads := grp.threads ++ [thread] }

/-- `RunTaskInternal` behind its loop. -/
def endRun (grp : IfTaskGrp) (ret : Int) : IfTaskGrp :=
  if ret = errorCancelInstead then { grp with state := .stopping }.goTo .instead
  else if ret ≠ statusPending then { grp with state := .stopping }.goTo (.ended ret)
  else grp

/-- The head of the loop of `RunTaskInternal`. -/
def runLoop (grp : IfTaskGrp) (prev : Option Nat) (ret : Int) : IfTaskGrp :=
  match grp.queTasks.dropWhile fun task => prev = some task with
  | [] => { grp with queTasks := [] }.endRun ret
  | task :: rest =>
    { grp with
      queTasks := task :: rest
      noSched := true
      started := grp.started ++ [task] }.goTo (.inside task)

def runTaskInternal (grp : IfTaskGrp) : IfTaskGrp :=
  if grp.isStopped then grp
  else if grp.canceling then grp
  else if grp.noSched then grp
  else
    let running := { grp with state := .started }
    if running.headState = .waitComplete then running
    else
      match running.lastRet with
      | some ret =>
        if running.relation.stops ret ∧ running.queTasks ≠ [] then running.endRun errorCancelInstead
        else running.runLoop none ret
      | none => running.runLoop none statusSuccess

/-- The loop of `RunTaskInternal` behind the call of a task. -/
def afterTask (grp : IfTaskGrp) (task : Nat) (err : Int) : IfTaskGrp :=
  let relocked := { grp with noSched := false }
  let ret := if err = statusMoreProcessNeeded then statusPending else err
  -- the task may be complete by now, though its error was not set when it was read
  let ret :=
    if relocked.queTasks.head? ≠ some task ∧ ret = statusPending then
      relocked.lastRet.getD statusPending
    else ret
  if ret = statusPending then { relocked with headState := .waitComplete }
  else if relocked.relation.stops ret ∧ relocked.queTasks ≠ [] then
    relocked.endRun errorCancelInstead
  else relocked.runLoop (some task) ret

def onChildComplete (grp : IfTaskGrp) (ret : Int) (child : Nat) : Int × IfTaskGrp :=
  match grp.queTasks with
  | [] => (eNoEnt, grp)
  | head :: rest =>
    if child ≠ head then (eNoEnt, { grp with queTasks := (head :: rest).erase child })
    else
      let popped := { grp with queTasks := rest, retVals := grp.retVals ++ [(child, ret)] }
      if popped.noSched ∨ popped.isStopped then (statusSuccess, popped)
      else if popped.headState ≠ .waitComplete then (statusSuccess, popped)
      else (statusSuccess, { popped with headState := .waitRunning, due := popped.due + 1 })

/-- The head of the loop of `OnCancel`. -/
def cancelLoop (grp : IfTaskGrp) (prev : Option Nat) (ret : Int) : IfTaskGrp :=
  match grp.queTasks.dropWhile fun task => prev = some task with
  | [] => { grp with queTasks := [] }.goTo (.ended ret)
  | task :: rest =>
    { grp with
      queTasks := task :: rest
      noSched := true
      skipped := if task ∈ grp.started then grp.skipped else grp.skipped ++ [task] }.goTo
        (.cancelling task ret)

/-- While another thread works on the group the call waits and comes again. -/
def onCancel (grp : IfTaskGrp) (instead : Bool) : IfTaskGrp :=
  if grp.isStopped ∧ ¬instead then grp
  else if grp.canceling then grp
  else if grp.noSched then grp
  else
    let stopping := { grp with canceling := true, state := .stopping, asked := grp.asked || !instead }
    let ret := if instead then stopping.lastRet.getD eCanceled else eCanceled
    stopping.cancelLoop none ret

/-- A task is complete: its group is told, and then its own error is set. -/
def notify (grp : IfTaskGrp) (task : Nat) (ret : Int) : IfTaskGrp :=
  ({ grp with results := grp.results ++ [(task, ret)] }.onChildComplete ret task).2

end IfTaskGrp

inductive IfTaskGrpMove where
  | appendTask (task : Nat)
  | schedule
  | run
  | returns (task : Nat) (retry : Bool)
  | afterTask (task : Nat) (err : Int)
  | notify (task : Nat) (ret : Int)
  | settle (task : Nat)
  | cancel
  | cancelInstead
  | cancelReturns (task : Nat) (ret : Int)
  | complete (ret : Int)
deriving DecidableEq, Repr

namespace IfTaskGrp

/-- The group when a thread has left its place. -/
def leave (grp : IfTaskGrp) (thread : GrpThread) : IfTaskGrp :=
  { grp with threads := grp.threads.erase thread }

/-- A task is appended once. A task that is started or cancelled notifies the group once,
with an answer that is final. -/
def step (grp : IfTaskGrp) : IfTaskGrpMove → Option IfTaskGrp
  | .appendTask task => if task ∈ grp.accepted then none else some (grp.appendTask task).2
  | .schedule => some { grp with due := grp.due + 1 }
  | .run => if 0 < grp.due then some { grp with due := grp.due - 1 }.runTaskInternal else none
  | .returns task retry =>
    if .inside task ∈ grp.threads then
      some ((grp.leave (.inside task)).goTo (.ran task (grp.getError task retry)))
    else none
  | .afterTask task err =>
    if .ran task err ∈ grp.threads then some ((grp.leave (.ran task err)).afterTask task err)
    else none
  | .notify task ret =>
    if (task ∈ grp.started ∨ task ∈ grp.skipped) ∧ grp.results.lookup task = none ∧
        ret ≠ statusPending ∧ ret ≠ statusMoreProcessNeeded then
      some (grp.notify task ret)
    else none
  | .settle task =>
    if (grp.results.lookup task).isSome then some { grp with settled := task :: grp.settled }
    else none
  | .cancel => some (grp.onCancel false)
  | .cancelInstead =>
    if .instead ∈ grp.threads ∧ ¬grp.noSched then some ((grp.leave .instead).onCancel true)
    else none
  | .cancelReturns task ret =>
    if .cancelling task ret ∈ grp.threads then
      some ({ grp.leave (.cancelling task ret) with noSched := false }.cancelLoop (some task) ret)
    else none
  | .complete ret =>
    if .ended ret ∈ grp.threads then
      some { grp.leave (.ended ret) with state := .stopped, ret := some ret }
    else none

end IfTaskGrp

def ifTaskGrpMachine (relation : LogicOp) : Machine IfTaskGrp IfTaskGrpMove :=
  ⟨.new relation, IfTaskGrp.step⟩

end RpcFrmwrk.Ipc
