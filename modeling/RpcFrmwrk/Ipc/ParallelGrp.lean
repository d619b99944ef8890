import RpcFrmwrk.Ipc.Irp
import RpcFrmwrk.Library.Machine

/-! The parallel task group with a limit on the tasks that run. The lock of the group is held
through every section of it and dropped around the start of a task. `m_bNoSched` is set while a run
has given the lock away, and `m_bRunning` while the group is started. Owns `RunTaskInternal` of
`CIfParallelTaskGrpRfc`, cut where it gives the lock away; `AddAndRun`, `AppendTask`, `SetLimit`,
`OnChildComplete` and `RemoveTask`; `RfcGrp.step`, one section of any of them. -/

namespace RpcFrmwrk.Ipc

open RpcFrmwrk.Library

/-- `RFC_MAX_REQS`. -/
def rfcMaxReqs : Nat := 16

/-- `RFC_MAX_PENDINGS`. -/
def rfcMaxPendings : Nat := 32

/-- `m_dwMaxRunning` and `m_dwMaxPending`. Whoever makes a group passes values within the
caps. -/
structure RfcLimits where
  maxRunning : Nat
  maxPending : Nat
  running_le : maxRunning ≤ rfcMaxReqs
  pending_le : maxPending ≤ rfcMaxPendings
deriving DecidableEq

/-- `EnumTaskState`. -/
inductive GrpState where
  | starting
  | started
  | stopping
deriving DecidableEq, Repr

/-- A group, with
- the tasks which the run under way has moved and not started yet;
- the runs that are scheduled or about to take the lock;
- the tasks that are started and not complete;
- every task accepted and every task started, in order;
- the sum of the limits when the last task was accepted;
- whether `AppendTask`, or `SetLimit` told not to reschedule, came behind the last look of
  a run at the queue. -/
structure RfcGrp where
  limits : RfcLimits
  state : GrpState
  setTasks : List Nat
  quePending : List Nat
  batch : Option (List Nat)
  due : Nat
  live : List Nat
  accepted : List Nat
  started : List Nat
  lastSum : Int
  unrun : Bool
deriving DecidableEq

namespace RfcGrp

/-- The constructor. -/
def new (limits : RfcLimits) : RfcGrp where
  limits := limits
  state := .starting
  setTasks := []
  quePending := []
  batch := none
  due := 0
  live := []
  accepted := []
  started := []
  lastSum := 0
  unrun := false

/-- `GetRunningCount`. The task left out is the placeholder that keeps the group. -/
def runningCount (grp : RfcGrp) : Int := grp.setTasks.length - 1

def pendingCount (grp : RfcGrp) : Int := grp.quePending.length

def maxRunning (grp : RfcGrp) : Int := grp.limits.maxRunning

def maxPending (grp : RfcGrp) : Int := grp.limits.maxPending

/-- `GetTaskCount`. -/
def taskCount (grp : RfcGrp) : Nat := grp.setTasks.length + grp.quePending.length

/-- `IsNoSched`. -/
def noSched (grp : RfcGrp) : Bool := grp.batch.isSome

/-- `IsQueueFull`. -/
def isQueueFull (grp : RfcGrp) : Prop :=
  grp.maxPending + grp.maxRunning ≤ grp.pendingCount + grp.runningCount

instance instDecidableIsQueueFull (grp : RfcGrp) : Decidable grp.isQueueFull :=
  inferInstanceAs (Decidable (_ ≤ _))

def pushBack (grp : RfcGrp) (task : Nat) : RfcGrp :=
  { grp with
    quePending := grp.quePending ++ [task]
    accepted := grp.accepted ++ [task]
    lastSum := grp.maxPending + grp.maxRunning }

/-- A run of the group that is on its way. -/
def reschedule (grp : RfcGrp) : RfcGrp := { grp with due := grp.due + 1 }

def addAndRun (grp : RfcGrp) (task : Nat) : Int × RfcGrp :=
  if grp.state = .stopping then (errorState, grp)
  else if grp.isQueueFull then (errorQueueFull, grp)
  else
    let added := grp.pushBack task
    if added.noSched then (statusSuccess, added)
    else if added.state ≠ .started ∨ added.maxRunning ≤ added.runningCount then (statusSuccess, added)
    else (statusPending, added.reschedule)

def appendTask (grp : RfcGrp) (task : Nat) : Int × RfcGrp :=
  if grp.isQueueFull then (errorQueueFull, grp)
  else if grp.state = .stopping then (errorState, grp)
  else (statusSuccess, { grp.pushBack task with unrun := true })

def capped (maxRunning maxPending : Nat) : RfcLimits where
  maxRunning := min maxRunning rfcMaxReqs
  maxPending := min maxPending rfcMaxPendings
  running_le := Nat.min_le_right _ _
  pending_le := Nat.min_le_right _ _

def setLimit (grp : RfcGrp) (maxRunning maxPending : Nat) (noResched : Bool) : Int × RfcGrp :=
  if maxPending = 0 then (eInval, grp)
  else if grp.state = .stopping then (errorState, grp)
  else
    let limited := { grp with limits := capped maxRunning maxPending }
    if limited.noSched then (statusSuccess, limited)
    else if noResched then (statusSuccess, { limited with unrun := true })
    else if limited.runningCount < limited.maxRunning ∧ 0 < limited.pendingCount then
      (statusSuccess, limited.reschedule)
    else (statusSuccess, limited)

def removeTask (grp : RfcGrp) (task : Nat) : RfcGrp :=
  if task ∈ grp.setTasks then { grp with setTasks := grp.setTasks.erase task }
  else { grp with quePending := grp.quePending.erase task }

/-- `OnChildComplete` of `CIfParallelTaskGrp`. -/
def onChildCompleteBase (grp : RfcGrp) (task : Nat) : RfcGrp :=
  let removed := grp.removeTask task
  if removed.noSched then removed
  else if removed.pendingCount = 0 ∧ 0 < removed.taskCount then removed
  else removed.reschedule

def onChildComplete (grp : RfcGrp) (task : Nat) : RfcGrp :=
  if grp.maxRunning < grp.runningCount then grp.removeTask task
  else grp.onChildCompleteBase task

def moveBatch (grp : RfcGrp) : RfcGrp :=
  let count := min (grp.maxRunning - grp.runningCount).toNat grp.quePending.length
  { grp with
    setTasks := grp.setTasks ++ grp.quePending.take count
    quePending := grp.quePending.drop count
    batch := some (grp.quePending.take count) }

/-- `RunTaskInternal` up to the first batch. -/
def runTaskInternal (grp : RfcGrp) : Int × RfcGrp :=
  if grp.state = .stopping then (statusPending, grp)
  else if grp.noSched then (statusPending, grp)
  else
    let running := { grp with state := .started, unrun := false }
    if running.taskCount = 0 then (statusSuccess, { running with state := .stopping })
    else if running.pendingCount = 0 then (statusPending, running)
    else if running.maxRunning - running.runningCount ≤ 0 then (statusPending, running)
    else (statusPending, running.moveBatch)

/-- The tail of the loop, when every task of the batch is started. -/
def afterBatch (grp : RfcGrp) : RfcGrp :=
  let relocked := { grp with batch := none, unrun := false }
  if 0 < relocked.pendingCount ∧ 0 < relocked.maxRunning - relocked.runningCount then
    relocked.moveBatch
  else if 0 < relocked.taskCount then relocked
  else { relocked with state := .stopping }

end RfcGrp

/-- One section of the group. A task is a new one where it is added, and one that is
started and not complete where it completes. -/
inductive RfcMove where
  | addAndRun (task : Nat)
  | appendTask (task : Nat)
  | setLimit (maxRunning maxPending : Nat) (noResched : Bool)
  | complete (task : Nat)
  | schedule
  | run
  | startTask
  | afterBatch
deriving DecidableEq, Repr

def RfcGrp.step (grp : RfcGrp) : RfcMove → Option RfcGrp
  | .addAndRun task => if task ∈ grp.accepted then none else some (grp.addAndRun task).2
  | .appendTask task => if task ∈ grp.accepted then none else some (grp.appendTask task).2
  | .setLimit maxRunning maxPending noResched =>
    some (grp.setLimit maxRunning maxPending noResched).2
  | .complete task =>
    if task ∈ grp.live then
      some ({ grp with live := grp.live.erase task }.onChildComplete task)
    else none
  | .schedule => some grp.reschedule
  | .run =>
    if 0 < grp.due then some ({ grp with due := grp.due - 1 }.runTaskInternal).2 else none
  | .startTask =>
    match grp.batch with
    | some (task :: rest) =>
      some { grp with
        batch := some rest
        live := grp.live ++ [task]
        started := grp.started ++ [task] }
    | _ => none
  | .afterBatch => if grp.batch = some [] then some grp.afterBatch else none

def rfcMachine (limits : RfcLimits) : Machine RfcGrp RfcMove := ⟨.new limits, RfcGrp.step⟩

end RpcFrmwrk.Ipc
