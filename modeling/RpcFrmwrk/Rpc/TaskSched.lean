import Mathlib.Logic.Function.Basic
import RpcFrmwrk.Combase.Status
import RpcFrmwrk.Library.Machine

/-! The round-robin scheduler of the request forwarder. Every call runs with the scheduler's lock. A
task group is a number; its `CIfParallelTaskGrpRfc2` is read and limited through the group table.
Owns `SetLimit` of a task group and what the scheduler asks a group; the slot limit helpers of
`CRRTaskScheduler`; `SetSlotCount`, `AddConn`, `AddTaskGrp`, `RemoveConn`, `RemoveTaskGrp`,
`RemoveTaskGrps` and `GetNextTaskGrp`; `Sched.step`, one call, or a change of a group from outside.
-/

namespace RpcFrmwrk.Rpc

open RpcFrmwrk.Library

/-- `RFC_MAX_REQS`. -/
def rfcMaxReqs : Nat := 16

/-- `RFC_MAX_PENDINGS`. -/
def rfcMaxPendings : Nat := 32

/-- A `CIfParallelTaskGrpRfc2`: its limits, the sizes of `m_setTasks` and
`m_quePendingTasks`, `IsNoSched`, whether it fails `CHECK_GRP_STATE`, and
`propPrxyPortId`. -/
structure TaskGrp where
  maxRunning : Nat
  maxPending : Nat
  tasks : Nat
  pendings : Nat
  noSched : Bool
  stopped : Bool
  portId : Option Nat
deriving DecidableEq, Repr

namespace TaskGrp

/-- `SetLimit`, with `bNoResched`. -/
def setLimit (grp : TaskGrp) (maxRunning maxPending : Nat) : TaskGrp :=
  if maxPending = 0 then grp
  else if grp.stopped then grp
  else
    { grp with
      maxPending := min maxPending rfcMaxPendings
      maxRunning := min maxRunning rfcMaxReqs }

/-- `SetLimit( n, GetMaxPending(), true )`. -/
def setMaxRunning (grp : TaskGrp) (maxRunning : Nat) : TaskGrp :=
  grp.setLimit maxRunning grp.maxPending

/-- `HasFreeSlot`. One of the tasks is the placeholder. -/
def hasFreeSlot (grp : TaskGrp) : Bool :=
  !grp.noSched && decide ((grp.tasks : Int) - 1 < grp.maxRunning)

def hasTaskToRun (grp : TaskGrp) : Bool :=
  grp.hasFreeSlot && decide (grp.pendings ≠ 0)

end TaskGrp

abbrev GrpTable := Nat → TaskGrp

/-- Each of the groups in turn is changed. -/
def forGrps (table : GrpTable) (change : TaskGrp → TaskGrp) : List Nat → GrpTable
  | [] => table
  | grp :: rest => forGrps (Function.update table grp (change (table grp))) change rest

/-- `CONNQUE_ELEM`: `m_lstWaitSlot`, `m_plstReady`, `m_plstNextSched` and
`m_dwMaxSlots`. -/
structure ConnQue where
  waitSlot : List Nat
  ready : List Nat
  nextSched : List Nat
  maxSlots : UInt32
deriving DecidableEq, Repr

namespace ConnQue

def new : ConnQue := ⟨[], [], [], .ofNat (rfcMaxPendings + rfcMaxReqs)⟩

def taskGrpCount (ocq : ConnQue) : Nat :=
  ocq.waitSlot.length + ocq.nextSched.length + ocq.ready.length

end ConnQue

/-! ### Slot limits -/

def setLimitRunningGrps (table : GrpTable) (ocq : ConnQue) (newLimit : Nat) : GrpTable × ConnQue :=
  let limited := forGrps table
    (fun grp => if grp.maxRunning = newLimit then grp else grp.setMaxRunning newLimit) ocq.ready
  if newLimit = 0 ∧ 0 < ocq.ready.length then
    (limited, { ocq with waitSlot := ocq.ready ++ ocq.waitSlot, ready := [] })
  else (limited, ocq)

def setLimitGrps (table : GrpTable) (ocq : ConnQue) (newLimit : Nat) : GrpTable × ConnQue :=
  let (table, ocq) := setLimitRunningGrps table ocq newLimit
  if newLimit = 0 then (table, ocq)
  else
    (forGrps table (fun grp => grp.setMaxRunning newLimit) ocq.waitSlot,
      { ocq with waitSlot := [], ready := ocq.ready ++ ocq.waitSlot })

/-- The limits of the first `count` ready groups go up by one. -/
def incRunningGrps (table : GrpTable) (ocq : ConnQue) (count : Nat) : GrpTable :=
  forGrps table (fun grp => grp.setMaxRunning ((grp.maxRunning + 1) % 4294967296))
    (ocq.ready.take count)

/-- The first `count` waiting groups with tasks to run, and the groups that are left. -/
def pickPending (table : GrpTable) : Nat → List Nat → List Nat × List Nat
  | 0, waitSlot => ([], waitSlot)
  | _ + 1, [] => ([], [])
  | count + 1, grp :: rest =>
    if 0 < (table grp).pendings then
      let (picked, left) := pickPending table count rest
      (grp :: picked, left)
    else
      let (picked, left) := pickPending table (count + 1) rest
      (picked, grp :: left)

def incWaitingGrp (table : GrpTable) (ocq : ConnQue) (count : Nat) : GrpTable × ConnQue :=
  if count = 0 then (table, ocq)
  else
    let (picked, left) := pickPending table (min count ocq.waitSlot.length) ocq.waitSlot
    let more := left.take (count - picked.length)
    (forGrps (forGrps table (fun grp => grp.setMaxRunning 1) picked)
        (fun grp => grp.setMaxRunning 1) more,
      { ocq with
        waitSlot := left.drop (count - picked.length)
        ready := ocq.ready ++ picked ++ more })

def incSlotCount (table : GrpTable) (ocq : ConnQue) (count : UInt32) : GrpTable × ConnQue :=
  if count = 0 then (table, ocq)
  else if ocq.taskGrpCount = 0 then (table, ocq)
  else
    let newCount := (ocq.maxSlots + count).toNat
    let avg := newCount / ocq.taskGrpCount
    let modulo := newCount - avg * ocq.taskGrpCount
    if ocq.waitSlot = [] then
      let (table, ocq) := setLimitRunningGrps table ocq avg
      (incRunningGrps table ocq modulo, ocq)
    else if avg = 0 then incWaitingGrp table ocq count.toNat
    else
      let (table, ocq) := setLimitGrps table ocq avg
      (incRunningGrps table ocq modulo, ocq)

def resetSlotCountAlloc (table : GrpTable) (ocq : ConnQue) (delta : UInt32) : GrpTable × ConnQue :=
  if ocq.taskGrpCount = 0 then (table, ocq)
  else
    let newCount := (ocq.maxSlots - delta).toNat
    let avg := newCount / ocq.taskGrpCount
    let modulo := newCount - avg * ocq.taskGrpCount
    if avg = 0 then
      let (table, ocq) := setLimitGrps table ocq 0
      incWaitingGrp table ocq modulo
    else
      let (table, ocq) := setLimitGrps table ocq avg
      (incRunningGrps table ocq modulo, ocq)

def resetSlotCountRelease (table : GrpTable) (ocq : ConnQue) (delta : UInt32) : GrpTable × ConnQue :=
  if ocq.taskGrpCount = 0 then (table, ocq)
  else
    let newCount := (ocq.maxSlots + delta).toNat
    let avg := newCount / ocq.taskGrpCount
    let modulo := newCount - avg * ocq.taskGrpCount
    if avg = 0 then
      if ocq.ready.length < modulo then incWaitingGrp table ocq (modulo - ocq.ready.length)
      else (table, ocq)
    else
      let (table, ocq) := setLimitGrps table ocq avg
      (incRunningGrps table ocq modulo, ocq)

def decSlotCount (table : GrpTable) (ocq : ConnQue) (count : UInt32) : GrpTable × ConnQue :=
  if count = 0 then (table, ocq) else resetSlotCountAlloc table ocq count

/-- `SetSlotCount`, with the connection found. -/
def setSlots (table : GrpTable) (ocq : ConnQue) (numSlot : UInt32) : GrpTable × ConnQue :=
  if ocq.maxSlots = numSlot then (table, ocq)
  else if numSlot < ocq.maxSlots then
    let (table, ocq) := incSlotCount table ocq (ocq.maxSlots - numSlot)
    (table, { ocq with maxSlots := numSlot })
  else
    let (table, ocq) := decSlotCount table ocq (numSlot - ocq.maxSlots)
    (table, { ocq with maxSlots := numSlot })

/-- `AddTaskGrp`, with the connection found. -/
def addGrp (table : GrpTable) (ocq : ConnQue) (grp : Nat) : GrpTable × ConnQue :=
  if 0 < ocq.waitSlot.length then (table, { ocq with waitSlot := ocq.waitSlot ++ [grp] })
  else
    let numGrps := ocq.taskGrpCount + 1
    let avg := ocq.maxSlots.toNat / numGrps
    let modulo := ocq.maxSlots.toNat - avg * numGrps
    if avg = 0 then (table, { ocq with waitSlot := ocq.waitSlot ++ [grp] })
    else
      let (table, ocq) := setLimitRunningGrps table { ocq with ready := ocq.ready ++ [grp] } avg
      (incRunningGrps table ocq modulo, ocq)

/-- `RemoveTaskGrp`, with a ready group taken out. -/
def releaseSlots (table : GrpTable) (ocq : ConnQue) : GrpTable × ConnQue :=
  if ocq.taskGrpCount = 0 then (table, ocq)
  else
    let avg := ocq.maxSlots.toNat / ocq.taskGrpCount
    let modulo := ocq.maxSlots.toNat - avg * ocq.taskGrpCount
    if avg = 0 then
      if ocq.waitSlot = [] then (table, ocq) else incWaitingGrp table ocq 1
    else
      let (table, ocq) := setLimitRunningGrps table ocq avg
      (incRunningGrps table ocq modulo, ocq)

/-- The first ready group that has a task to run; the groups turn on the way. -/
def nextReady (table : GrpTable) : Nat → List Nat → Option Nat × List Nat
  | 0, ready => (none, ready)
  | _ + 1, [] => (none, [])
  | count + 1, head :: rest =>
    if !(table head).hasFreeSlot then nextReady table count (rest ++ [head])
    else if !(table head).hasTaskToRun then nextReady table count (rest ++ [head])
    else (some head, rest ++ [head])

def nextWaiting (table : GrpTable) : Nat → List Nat → Option Nat × List Nat
  | 0, waitSlot => (none, waitSlot)
  | _ + 1, [] => (none, [])
  | count + 1, head :: rest =>
    if 0 < (table head).pendings then (some head, rest)
    else nextWaiting table count (rest ++ [head])

/-- As `nextReady`; a ready group with a free slot gives its place to a waiting group with
tasks to run. -/
def nextSwapped (table : GrpTable) (ocq : ConnQue) : Nat → Option Nat × GrpTable × ConnQue
  | 0 => (none, table, ocq)
  | count + 1 =>
    match ocq.ready with
    | [] => (none, table, ocq)
    | head :: rest =>
      let turned := { ocq with ready := rest ++ [head] }
      if ocq.waitSlot = [] then
        if !(table head).hasFreeSlot then nextSwapped table turned count
        else if !(table head).hasTaskToRun then nextSwapped table turned count
        else (some head, table, turned)
      else if !(table head).hasFreeSlot then nextSwapped table turned count
      else
        match nextWaiting table ocq.waitSlot.length ocq.waitSlot with
        | (some waiting, waitSlot) =>
          let table := Function.update table head ((table head).setMaxRunning 0)
          (some waiting,
            Function.update table waiting ((table waiting).setMaxRunning 1),
            { ocq with ready := rest ++ [waiting], waitSlot := waitSlot ++ [head] })
        | (none, waitSlot) =>
          let turned := { turned with waitSlot := waitSlot }
          if !(table head).hasTaskToRun then nextSwapped table turned count
          else (some head, table, turned)

/-- `m_lstConns`, `m_mapConnQues`, `m_mapId2If`; the groups; and the groups that were given
to `RescheduleTask`. -/
structure Sched where
  conns : List Nat
  connQue : Nat → Option ConnQue
  id2If : Nat → Option Nat
  grp : GrpTable
  resched : List Nat

/-- The interface of the scheduler's manager, and `propPortId` of an interface. -/
structure SchedIfs where
  mgr : Nat
  portId : Nat → Option Nat

namespace Sched

/-- A connection's queues change, with the limits of the groups. -/
def setConn (sched : Sched) (conn : Nat) (changed : GrpTable × ConnQue) : Sched :=
  { sched with grp := changed.1, connQue := Function.update sched.connQue conn (some changed.2) }

def start (ifs : SchedIfs) (sched : Sched) : Sched :=
  { sched with conns := sched.conns ++ [ifs.mgr] }

def setSlotCount (sched : Sched) (conn : Nat) (numSlot : UInt32) : Status × Sched :=
  match sched.connQue conn with
  | none => (.enoent, sched)
  | some ocq => (.success, sched.setConn conn (setSlots sched.grp ocq numSlot))

/-- `AddConn`; `limit` is what `GetGrpRfc` and `GetLimit` of the proxy answer. -/
def addConn (ifs : SchedIfs) (sched : Sched) (conn : Nat) (limit : Except Status (UInt32 × UInt32)) :
    Status × Sched :=
  match ifs.portId conn with
  | none => (.enoent, sched)
  | some portId =>
    match limit with
    | .error ret => (ret, sched)
    | .ok (maxRunning, maxPending) =>
      if (sched.id2If portId).isSome then (.eexist, sched)
      else
        let sched :=
          { sched with
            conns := sched.conns ++ [conn]
            connQue := Function.update sched.connQue conn ((sched.connQue conn).getD .new)
            id2If := Function.update sched.id2If portId (some conn) }
        sched.setSlotCount conn (maxRunning + maxPending)

/-- `AddTaskGrp`, behind `AddConn`. -/
def addToConn (sched : Sched) (conn grp : Nat) : Sched :=
  match sched.connQue conn with
  | none => sched
  | some ocq => sched.setConn conn (addGrp sched.grp ocq grp)

def addTaskGrp (ifs : SchedIfs) (sched : Sched) (conn grp : Nat)
    (limit : Except Status (UInt32 × UInt32)) : Status × Sched :=
  if conn = ifs.mgr then (.success, sched)
  else
    match sched.connQue conn with
    | none =>
      let (ret, sched) := sched.addConn ifs conn limit
      if ret.failed then (ret, sched) else (.success, sched.addToConn conn grp)
    | some _ => (.success, sched.addToConn conn grp)

/-- `RemoveConn` of an interface that is there. -/
def removeConn (ifs : SchedIfs) (sched : Sched) (conn : Nat) : Sched :=
  if conn ∉ sched.conns then sched
  else
    let sched := { sched with conns := sched.conns.erase conn }
    match sched.connQue conn with
    | none => sched
    | some _ =>
      { sched with
        connQue := Function.update sched.connQue conn none
        id2If := Function.update sched.id2If ((ifs.portId conn).getD 4294967295) none }

/-- `GetNextTaskGrpsRMG`, and the groups it finds go to `RescheduleTask`. -/
def reschedule (ifs : SchedIfs) (sched : Sched) (conn : Nat) : Sched :=
  if conn = ifs.mgr then sched
  else
    match sched.connQue conn with
    | none => sched
    | some ocq =>
      { sched with
        resched := sched.resched ++ ocq.ready.filter fun grp => (sched.grp grp).hasTaskToRun }

/-- The connection of a group, by its port. -/
def connOf (sched : Sched) (grp : Nat) : Option Nat :=
  match (sched.grp grp).portId with
  | none => none
  | some portId => sched.id2If portId

def removeTaskGrp (ifs : SchedIfs) (sched : Sched) (grp : Nat) : Sched :=
  match sched.connOf grp with
  | none => sched
  | some conn =>
    let ocq := (sched.connQue conn).getD .new
    if grp ∈ ocq.waitSlot then
      sched.setConn conn (sched.grp, { ocq with waitSlot := ocq.waitSlot.erase grp })
    else if grp ∈ ocq.ready then
      let ocq := { ocq with ready := ocq.ready.erase grp }
      let sched' := sched.setConn conn (releaseSlots sched.grp ocq)
      if ocq.taskGrpCount = 0 then sched'
      else if ocq.maxSlots.toNat / ocq.taskGrpCount = 0 ∧ ocq.waitSlot = [] then sched'
      else sched'.reschedule ifs conn
    else sched.setConn conn (sched.grp, ocq)

/-- `RemoveTaskGrps` of a port. -/
def removePort (ifs : SchedIfs) (sched : Sched) (portId : Nat) : Status × Sched :=
  match sched.id2If portId with
  | none => (.enoent, sched)
  | some conn => (.success, sched.removeConn ifs conn)

/-- The first loop of `RemoveTaskGrps`: a group leaves its list. -/
def takeOut (sched : Sched) (grp : Nat) : Sched × Option Nat :=
  match sched.connOf grp with
  | none => (sched, none)
  | some conn =>
    let ocq := (sched.connQue conn).getD .new
    if grp ∈ ocq.waitSlot then
      (sched.setConn conn (sched.grp, { ocq with waitSlot := ocq.waitSlot.erase grp }), none)
    else if grp ∈ ocq.ready then
      (sched.setConn conn (sched.grp, { ocq with ready := ocq.ready.erase grp }), some conn)
    else (sched.setConn conn (sched.grp, ocq), none)

/-- The groups leave their lists; `setIfs` are the connections with a group that was
ready. -/
def takeAllOut (sched : Sched) (setIfs : List Nat) : List Nat → Sched × List Nat
  | [] => (sched, setIfs)
  | grp :: rest =>
    match sched.takeOut grp with
    | (sched, none) => sched.takeAllOut setIfs rest
    | (sched, some conn) => sched.takeAllOut (setIfs.insert conn) rest

/-- The second loop of `RemoveTaskGrps`, for one connection. -/
def releaseConn (ifs : SchedIfs) (sched : Sched) (conn : Nat) : Sched :=
  match sched.connQue conn with
  | none => sched
  | some ocq =>
    if ocq.maxSlots = 0 then sched
    else (sched.setConn conn (resetSlotCountRelease sched.grp ocq 0)).reschedule ifs conn

/-- `RemoveTaskGrps` of task groups. -/
def removeTaskGrps (ifs : SchedIfs) (sched : Sched) (grps : List Nat) : Sched :=
  let (sched, setIfs) := sched.takeAllOut [] grps
  setIfs.foldl (fun sched conn => sched.releaseConn ifs conn) sched

/-- `GetNextTaskGrpAAR`. The connections turn. -/
def nextAAR (ifs : SchedIfs) (sched : Sched) : Nat → Option Nat × Sched
  | 0 => (none, sched)
  | count + 1 =>
    match sched.conns with
    | [] => (none, sched)
    | conn :: rest =>
      let sched := { sched with conns := rest ++ [conn] }
      if conn = ifs.mgr then nextAAR ifs sched count
      else
        match sched.connQue conn with
        | none => nextAAR ifs sched count
        | some ocq =>
          let (found, ready) := nextReady sched.grp ocq.ready.length ocq.ready
          let sched := sched.setConn conn (sched.grp, { ocq with ready := ready })
          match found with
          | none => nextAAR ifs sched count
          | some grp => (some grp, sched)

/-- `GetNextTaskGrpOCC`. -/
def nextOCC (ifs : SchedIfs) (sched : Sched) : Nat → Option Nat × Sched
  | 0 => (none, sched)
  | count + 1 =>
    match sched.conns with
    | [] => (none, sched)
    | conn :: rest =>
      let sched := { sched with conns := rest ++ [conn] }
      if conn = ifs.mgr then nextOCC ifs sched count
      else
        match sched.connQue conn with
        | none => nextOCC ifs sched count
        | some ocq =>
          let (found, changed) := nextSwapped sched.grp ocq ocq.ready.length
          let sched := sched.setConn conn changed
          match found with
          | none => nextOCC ifs sched count
          | some grp => (some grp, sched)

/-- `GetNextTaskGrp`. -/
def getNextTaskGrp (ifs : SchedIfs) (sched : Sched) (hint : Nat) : Option Nat × Sched :=
  if hint = 0 then sched.nextAAR ifs sched.conns.length
  else if hint = 1 then sched.nextOCC ifs sched.conns.length
  else (none, sched)

end Sched

/-- A call of the scheduler; or, from outside, a group is created, its tasks change, or it
stops. -/
inductive SchedMove where
  | start
  | addConn (conn : Nat) (limit : Except Status (UInt32 × UInt32))
  | removeConn (conn : Nat)
  | addTaskGrp (conn grp : Nat) (limit : Except Status (UInt32 × UInt32))
  | removeTaskGrp (grp : Nat)
  | removePort (portId : Nat)
  | removeTaskGrps (grps : List Nat)
  | setSlotCount (conn : Nat) (numSlot : UInt32)
  | getNextTaskGrp (hint : Nat)
  | create (grp : Nat) (taskGrp : TaskGrp)
  | tasks (grp tasks pendings : Nat) (noSched : Bool)
  | stop (grp : Nat)

namespace Sched

def step (ifs : SchedIfs) (sched : Sched) : SchedMove → Option Sched
  | .start => some (sched.start ifs)
  | .addConn conn limit => if conn = ifs.mgr then none else some (sched.addConn ifs conn limit).2
  | .removeConn conn => some (sched.removeConn ifs conn)
  | .addTaskGrp conn grp limit => some (sched.addTaskGrp ifs conn grp limit).2
  | .removeTaskGrp grp => some (sched.removeTaskGrp ifs grp)
  | .removePort portId => some (sched.removePort ifs portId).2
  | .removeTaskGrps grps => some (sched.removeTaskGrps ifs grps)
  | .setSlotCount conn numSlot => some (sched.setSlotCount conn numSlot).2
  | .getNextTaskGrp hint => some (sched.getNextTaskGrp ifs hint).2
  | .create grp taskGrp => some { sched with grp := Function.update sched.grp grp taskGrp }
  | .tasks grp tasks pendings noSched =>
    some { sched with
      grp := Function.update sched.grp grp
        { sched.grp grp with tasks := tasks, pendings := pendings, noSched := noSched } }
  | .stop grp =>
    some { sched with grp := Function.update sched.grp grp { sched.grp grp with stopped := true } }

end Sched

/-- A scheduler without connections. -/
def schedMachine (ifs : SchedIfs) : Machine Sched SchedMove where
  start := ⟨[], fun _ => none, fun _ => none, fun _ => ⟨0, rfcMaxPendings, 0, 0, false, false, none⟩, []⟩
  step := Sched.step ifs

end RpcFrmwrk.Rpc
