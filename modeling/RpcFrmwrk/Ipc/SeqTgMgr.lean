import Mathlib.Logic.Function.Basic
import RpcFrmwrk.Ipc.Irp
import RpcFrmwrk.Library.Machine

/-! The tasks of a handle, one behind the other. The map has a lock, which is dropped before a task
is put into a group. A call that has passed its check holds a reference into the slot, and a slot
that is erased under such a call is out of the model: no step follows. Owns `AllocSeqSlot`,
`AddStartTask`, `AddSeqTask`, `AddStopTask` and `RemoveTg` of `CSeqTaskGrpMgr`; `AddSeqTaskTempl` in
its two sections; the group of a slot as a queue whose head runs, and `SeqMgr.step`. -/

namespace RpcFrmwrk.Ipc

open RpcFrmwrk.Library

/-- `-EEXIST`. -/
def eExist : Int := -17

inductive SeqRole where
  | start
  | seq
  | stop
  | cleanup
deriving DecidableEq, Repr

structure SeqTask where
  role : SeqRole
  task : Nat
deriving DecidableEq, Repr

/-- The task that hands a `RemoveTg` on. -/
def cleanupTask : SeqTask := ⟨.cleanup, 0⟩

/-- A `CIfTaskGroup` with `logicNONE`. It is scheduled once, and from then on runs the
head of its queue until the queue is empty; then it is at its end and takes no more. -/
structure SeqGrp where
  id : Nat
  queue : List SeqTask
  running : Bool
  scheduled : Bool
  ended : Bool
deriving DecidableEq, Repr

namespace SeqGrp

def waiting (grp : SeqGrp) : List SeqTask := if grp.running then grp.queue.tail else grp.queue

def current (grp : SeqGrp) : List SeqTask := if grp.running then grp.queue.take 1 else []

end SeqGrp

/-- `m_iState` of `SEQTG_ELEM`. -/
inductive SlotState where
  | starting
  | started
  | stopped
deriving DecidableEq, Repr

/-- `SEQTG_ELEM`, with the tasks put into its groups, those started, those complete and
those cancelled, in order. -/
structure SeqSlot where
  life : Nat
  state : SlotState
  grp : Option SeqGrp
  accepted : List SeqTask
  begun : List SeqTask
  done : List SeqTask
  cancelled : List SeqTask
deriving DecidableEq, Repr

namespace SeqSlot

def waiting (slot : SeqSlot) : List SeqTask := slot.grp.elim [] SeqGrp.waiting

def current (slot : SeqSlot) : List SeqTask := slot.grp.elim [] SeqGrp.current

def cancel (slot : SeqSlot) : SeqSlot := { slot with grp := none, cancelled := slot.waiting }

end SeqSlot

/-- Where a call stands in `AddSeqTaskTempl`: in front of it, or between the two locks with
the group it has read and whether it made it. -/
inductive CallPlace where
  | checked
  | captured (grp : Nat) (isNew : Bool)
deriving DecidableEq, Repr

structure SeqCall where
  life : Nat
  task : SeqTask
  place : CallPlace
deriving DecidableEq, Repr

/-- `m_iMgrState`. -/
inductive MgrState where
  | started
  | stopping
  | stopped
deriving DecidableEq, Repr

/-- The map at one handle, with the slots erased from it, the calls under way, the `RemoveTg`
tasks under way, and the counts of the slots and the groups made. -/
structure SeqHandle where
  slot : Option SeqSlot
  gone : List SeqSlot
  calls : List SeqCall
  removals : Nat
  lives : Nat
  grps : Nat
deriving DecidableEq, Repr

namespace SeqHandle

def new : SeqHandle := ⟨none, [], [], 0, 0, 0⟩

/-- A call goes on with `AddSeqTaskTempl`. -/
def call (handle : SeqHandle) (life : Nat) (task : SeqTask) : SeqHandle :=
  { handle with calls := handle.calls ++ [⟨life, task, .checked⟩] }

def insert (handle : SeqHandle) (slot : Nat → SeqSlot) : SeqHandle :=
  { handle with slot := some (slot handle.lives), lives := handle.lives + 1 }

def allocSeqSlot (handle : SeqHandle) (mgr : MgrState) : Int × SeqHandle :=
  if mgr ≠ .started then (errorState, handle)
  else
    match handle.slot with
    | some _ => (eExist, handle)
    | none => (statusSuccess, handle.insert fun life => ⟨life, .starting, none, [], [], [], []⟩)

def addStartTask (handle : SeqHandle) (mgr : MgrState) (task : Nat) : Int × SeqHandle :=
  if mgr ≠ .started then (errorState, handle)
  else
    match handle.slot with
    | none =>
      let first : SeqTask := ⟨.start, task⟩
      let grp : SeqGrp := ⟨handle.grps, [first], false, true, false⟩
      (statusSuccess, { handle.insert fun life => ⟨life, .started, some grp, [first], [], [], []⟩ with
        grps := handle.grps + 1 })
    | some slot =>
      (statusSuccess, { handle with slot := some { slot with state := .started } }.call slot.life
        ⟨.start, task⟩)

def addSeqTask (handle : SeqHandle) (mgr : MgrState) (task : Nat) : Int × SeqHandle :=
  if mgr ≠ .started then (errorState, handle)
  else
    match handle.slot with
    | none => (eNoEnt, handle)
    | some slot =>
      if slot.state ≠ .started then (errorState, handle)
      else (statusSuccess, handle.call slot.life ⟨.seq, task⟩)

/-- While the slot is `stateStarting` the call yields and looks again. Without a stop task
only the task that cleans up is put in. -/
def addStopTask (handle : SeqHandle) (mgr : MgrState) (task : Option Nat) : Int × SeqHandle :=
  if mgr = .stopped then (errorState, handle)
  else
    match handle.slot with
    | none => (errorState, handle)
    | some slot =>
      match slot.state with
      | .starting => (statusPending, handle)
      | .stopped => (errorState, handle)
      | .started =>
        let last : SeqTask := match task with
          | some task => ⟨.stop, task⟩
          | none => cleanupTask
        (statusSuccess,
          { handle with slot := some { slot with state := .stopped } }.call slot.life last)

/-- The first section of `AddSeqTaskTempl`: the group is read, and made if there is none. -/
def capture (handle : SeqHandle) (call : SeqCall) (slot : SeqSlot) : SeqHandle :=
  let rest := handle.calls.erase call
  match slot.grp with
  | some grp => { handle with calls := rest ++ [{ call with place := .captured grp.id false }] }
  | none =>
    { handle with
      slot := some { slot with grp := some ⟨handle.grps, [], false, false, false⟩ }
      calls := rest ++ [{ call with place := .captured handle.grps true }]
      grps := handle.grps + 1 }

/-- What is left to do for a caller whose task is in: `AddStopTask` puts in the task that
cleans up. -/
def behind (call : SeqCall) : List SeqCall :=
  match call.task.role with
  | .stop => [⟨call.life, cleanupTask, .checked⟩]
  | _ => []

/-- The caller gets `ERROR_STATE`. `AddStartTask` erases the slot. -/
def fail (handle : SeqHandle) (call : SeqCall) (slot : SeqSlot) : SeqHandle :=
  let rest := handle.calls.erase call
  match call.task.role with
  | .start => { handle with slot := none, gone := handle.gone ++ [slot], calls := rest }
  | _ => { handle with calls := rest }

/-- The second section: the task goes into the group that was read, unless the group is at
its end or another one by now. Whoever made the group schedules it. -/
def append (handle : SeqHandle) (parentStopped : Bool) (call : SeqCall) (slot : SeqSlot)
    (captured : Nat) (isNew : Bool) : SeqHandle :=
  let rest := handle.calls.erase call
  let again := rest ++ [{ call with place := .checked }]
  if parentStopped then handle.fail call slot
  else
    match slot.grp with
    | none => { handle with calls := again }
    | some grp =>
      if grp.id ≠ captured then { handle with calls := again }
      else if grp.ended then
        { handle with slot := some { slot with grp := none }, calls := again }
      else
        let grp := { grp with
          queue := grp.queue ++ [call.task]
          scheduled := grp.scheduled || isNew }
        { handle with
          slot := some { slot with grp := some grp, accepted := slot.accepted ++ [call.task] }
          calls := rest ++ behind call }

/-- The group starts the head of its queue. The task that cleans up hands a `RemoveTg` on. -/
def runHead (handle : SeqHandle) (slot : SeqSlot) (grp : SeqGrp) (task : SeqTask) : SeqHandle :=
  { handle with
    slot := some { slot with
      grp := some { grp with running := true }
      begun := slot.begun ++ [task] }
    removals := if task.role = .cleanup then handle.removals + 1 else handle.removals }

def completeHead (handle : SeqHandle) (slot : SeqSlot) (grp : SeqGrp) (task : SeqTask) :
    SeqHandle :=
  { handle with
    slot := some { slot with
      grp := some { grp with running := false, queue := grp.queue.tail }
      done := slot.done ++ [task] } }

def removeTg (handle : SeqHandle) : Int × SeqHandle :=
  let taken := { handle with removals := handle.removals - 1 }
  match handle.slot with
  | none => (statusSuccess, taken)
  | some slot =>
    if slot.state ≠ .stopped then (errorState, taken)
    else (statusSuccess, { taken with slot := none, gone := handle.gone ++ [slot.cancel] })

end SeqHandle

/-- A call at the map, one of the sections behind it, or a step of the group. -/
inductive SeqMove where
  | allocSeqSlot
  | addStartTask (task : Nat)
  | addSeqTask (task : Nat)
  | addStopTask (task : Option Nat)
  | capture (call : SeqCall)
  | append (call : SeqCall)
  | runHead
  | completeHead
  | endGrp
  | removeTg
deriving DecidableEq, Repr

namespace SeqHandle

/-- The slot that a call refers to. -/
def slotOf (handle : SeqHandle) (call : SeqCall) : Option SeqSlot :=
  if call ∈ handle.calls then handle.slot.filter fun slot => slot.life = call.life else none

def step (handle : SeqHandle) (mgr : MgrState) (parentStopped : Bool) :
    SeqMove → Option SeqHandle
  | .allocSeqSlot => some (handle.allocSeqSlot mgr).2
  | .addStartTask task => some (handle.addStartTask mgr task).2
  | .addSeqTask task => some (handle.addSeqTask mgr task).2
  | .addStopTask task => some (handle.addStopTask mgr task).2
  | .capture call =>
    (handle.slotOf call).bind fun slot =>
      match call.place with
      | .checked => some (handle.capture call slot)
      | .captured _ _ => none
  | .append call =>
    (handle.slotOf call).bind fun slot =>
      match call.place with
      | .checked => none
      | .captured grp isNew => some (handle.append parentStopped call slot grp isNew)
  | .runHead =>
    handle.slot.bind fun slot => slot.grp.bind fun grp =>
      match grp.queue with
      | [] => none
      | task :: _ =>
        if grp.scheduled ∧ ¬grp.running ∧ ¬grp.ended then some (handle.runHead slot grp task)
        else none
  | .completeHead =>
    handle.slot.bind fun slot => slot.grp.bind fun grp =>
      match grp.queue with
      | [] => none
      | task :: _ => if grp.running then some (handle.completeHead slot grp task) else none
  | .endGrp =>
    handle.slot.bind fun slot => slot.grp.bind fun grp =>
      if grp.scheduled ∧ ¬grp.running ∧ ¬grp.ended ∧ grp.queue = [] then
        some { handle with slot := some { slot with grp := some { grp with ended := true } } }
      else none
  | .removeTg => if 0 < handle.removals then some handle.removeTg.2 else none

end SeqHandle

/-- `CSeqTaskGrpMgr` with the state of its parent. -/
structure SeqMgr (Handle : Type) where
  mgrState : MgrState
  parentStopped : Bool
  handles : Handle → SeqHandle

inductive SeqMgrMove (Handle : Type) where
  | setState (state : MgrState)
  | stopParent
  | at (htg : Handle) (move : SeqMove)
deriving DecidableEq, Repr

section

variable {Handle : Type} [DecidableEq Handle]

/-- The calls answer `-EINVAL` to a key that is invalid. -/
def SeqMgr.step (isKeyInvalid : Handle → Bool) (mgr : SeqMgr Handle) :
    SeqMgrMove Handle → Option (SeqMgr Handle)
  | .setState state => some { mgr with mgrState := state }
  | .stopParent => some { mgr with parentStopped := true }
  | .at htg move =>
    if isKeyInvalid htg then some mgr
    else
      ((mgr.handles htg).step mgr.mgrState mgr.parentStopped move).map fun handle =>
        { mgr with handles := Function.update mgr.handles htg handle }

def seqMachine (isKeyInvalid : Handle → Bool) : Machine (SeqMgr Handle) (SeqMgrMove Handle) :=
  ⟨⟨.started, false, fun _ => .new⟩, SeqMgr.step isKeyInvalid⟩

end

end RpcFrmwrk.Ipc
