import RpcFrmwrk.Library.Machine

/-! The state stack of a port and the requests that pass through it. Every method of the state runs
with the lock of the port. A request is in progress from its admission to the exit of its handler. A
request that is kept is not cancelled, and a task that is scheduled runs. Owns `m_arrStatMap`,
`IsValidSubmit`, `CanContinue` and the handlers of the states; `SetPortState`, `SetPortStateWake`,
`PushState`, `PopState` and the task that resumes a request; the ends of `SubmitFuncIrp`,
`SubmitQueryStopIrp`, `SubmitPortStackIrp`, `SubmitStopIrp` and `SubmitStartIrp`; `Port.step`, one
of these under its lock. -/

namespace RpcFrmwrk.Ipc

open RpcFrmwrk.Library

/-- `PORT_STATE_READY` to `PORT_STATE_BUSY_RESUME`. -/
inductive PortState where
  | ready
  | attached
  | starting
  | stopping
  | stopped
  | removed
  | busy
  | busyShared
  | excludePending
  | stopResume
  | busyResume
deriving DecidableEq, Repr

def PortState.index : PortState → Nat
  | .ready => 0
  | .attached => 1
  | .starting => 2
  | .stopping => 3
  | .stopped => 4
  | .removed => 5
  | .busy => 6
  | .busyShared => 7
  | .excludePending => 8
  | .stopResume => 9
  | .busyResume => 10

/-- `m_arrStatMap`. A row is the current state, a column the new one. -/
def arrStatMap : List (List Int) :=
  [ [1, 0, 0, 1, 0, 0, 1, 1, 0, 0, 0],
    [0, 2, 1, 0, 0, 0, 1, 0, 0, 0, 0],
    [4, 3, 2, 0, 2, 0, 0, 0, 0, 0, 0],
    [0, 0, 0, 2, 4, 0, 0, 0, 0, 0, 0],
    [0, 1, 0, 0, 2, 1, 1, 0, 0, 0, 0],
    [0, 0, 0, 0, 0, 2, 0, 0, 0, 0, 0],
    [3, 3, 0, 0, 3, 0, 2, 0, 0, 0, 0],
    [3, 0, 0, -1, 0, 0, 0, 1, 1, 0, 0],
    [0, 0, 0, 0, 0, 0, 0, 0, 0, 4, 4],
    [0, 0, 0, 1, 0, 0, 0, 0, 0, 0, 0],
    [0, 0, 0, 0, 0, 0, 1, 0, 0, 4, 0] ]

def statAction (cur new : PortState) : Int :=
  ((arrStatMap[cur.index]?.getD [])[new.index]?).getD 0

/-- The minor command of a request to the port stack. -/
inductive StackCmd where
  | built
  | ready
  | destroy
deriving DecidableEq, Repr

/-- The commands of a request that the handlers tell apart. -/
inductive IrpCmd where
  | func
  | start
  | stop
  | queryStop
  | stopChild
  | stack (cmd : StackCmd)
  | reattach
deriving DecidableEq, Repr

/-- `STATUS_SUCCESS`, `STATUS_PENDING`, `ERROR_STATE` and `-EAGAIN`. -/
inductive StatRet where
  | success
  | pending
  | errorState
  | eagain
deriving DecidableEq, Repr

/-- `CPortState`. The top of `m_vecStates` stands first. A request stands for its number, and the task of
`m_pResume` for the request it resumes. -/
structure CPortState where
  states : List PortState
  exclIrp : Option Nat
  resume : Option Nat
deriving DecidableEq, Repr

namespace CPortState

/-- `GetPortState`. -/
def top (stat : CPortState) : Option PortState := stat.states.head?

/-- `IsValidSubmit`. -/
def isValidSubmit (cur new : PortState) : Bool := statAction cur new = 1 || statAction cur new = -1

/-- `SetPortState`. A stop that is resumed takes the place of the state below, too. -/
def setPortState (stat : CPortState) (new : PortState) : StatRet × CPortState :=
  match stat.states with
  | [] => (.success, { stat with states := [new] })
  | cur :: below =>
    if statAction cur new = 0 then (.errorState, stat)
    else if new ≠ .stopResume then (.success, { stat with states := new :: below })
    else if cur ≠ .busyResume then (.errorState, stat)
    else
      match below with
      | .ready :: rest => (.success, { stat with states := new :: rest })
      | _ => (.errorState, { stat with states := below })

/-- `SetPortStateWake`. -/
def setPortStateWake (stat : CPortState) (cur new : PortState) : CPortState :=
  if stat.top = some cur then
    let set := stat.setPortState new
    if set.1 = .success then set.2 else stat
  else stat

/-- `PushState`. -/
def pushState (numCores : Nat) (checkLimit : Bool) (stat : CPortState) (state : PortState) : StatRet × CPortState :=
  if checkLimit && numCores + 1 < stat.states.length then (.eagain, stat)
  else (.success, { stat with states := state :: stat.states })

def handleReady (numCores : Nat) (stat : CPortState) (cmd : IrpCmd) (new : PortState) : StatRet × CPortState :=
  match cmd with
  | .queryStop | .stopChild =>
    if new = .busyShared then stat.pushState numCores false new else (.errorState, stat)
  | .stack .ready => if new = .busy then stat.pushState numCores false new else (.errorState, stat)
  | .stop => if new = .stopping then stat.setPortState new else (.errorState, stat)
  | .func =>
    if new = .busyShared ∨ new = .busy then stat.pushState numCores true new else (.errorState, stat)
  | _ => (.errorState, stat)

def handleAttached (numCores : Nat) (stat : CPortState) (cmd : IrpCmd) (new : PortState) : StatRet × CPortState :=
  match cmd with
  | .start => if new = .starting then stat.setPortState new else (.errorState, stat)
  | .stack .built => if new = .busy then stat.pushState numCores true new else (.errorState, stat)
  | .stack .destroy => if new = .busy then stat.pushState numCores false new else (.errorState, stat)
  | _ => (.errorState, stat)

def handleStarting (stat : CPortState) (cmd : IrpCmd) (new : PortState) : StatRet × CPortState :=
  if cmd = .stop ∧ new = .stopping then (.eagain, stat) else (.errorState, stat)

def handleStopped (numCores : Nat) (stat : CPortState) (cmd : IrpCmd) (new : PortState) : StatRet × CPortState :=
  match cmd with
  | .reattach => if new = .attached then stat.setPortState new else (.errorState, stat)
  | .stack .destroy => if new = .busy then stat.pushState numCores true new else (.errorState, stat)
  | _ => (.errorState, stat)

/-- `PushState` of `PORT_STATE_EXCLUDE_PENDING`, and the request that is kept. -/
def keepIrp (numCores : Nat) (stat : CPortState) (irp : Nat) : StatRet × CPortState :=
  let pushed := stat.pushState numCores true .excludePending
  if pushed.1 = .success then (.pending, { pushed.2 with exclIrp := some irp }) else pushed

def handleBusyShared (numCores : Nat) (stat : CPortState) (irp : Nat) (cmd : IrpCmd) (new : PortState) :
    StatRet × CPortState :=
  match cmd with
  | .queryStop | .stopChild =>
    if new = .busyShared then stat.pushState numCores false new else (.errorState, stat)
  | .stop => stat.keepIrp numCores irp
  | .start | .reattach | .stack _ => (.errorState, stat)
  | .func =>
    if new = .busy then stat.keepIrp numCores irp
    else if new = .busyShared then stat.pushState numCores false new
    else (.errorState, stat)

def handleStopResume (stat : CPortState) (new : PortState) : StatRet × CPortState :=
  if new ≠ .stopping then (.errorState, stat) else stat.setPortState new

def handleBusyResume (stat : CPortState) (new : PortState) : StatRet × CPortState :=
  if new ≠ .busy then (.errorState, stat) else stat.setPortState new

/-- `CanContinue`. `IsValidSubmit` lets nothing through to `HandleBusy`, which would wait. -/
def canContinue (numCores : Nat) (stat : CPortState) (irp : Nat) (cmd : IrpCmd) (new : PortState) :
    StatRet × CPortState :=
  match stat.top with
  | none => (.errorState, stat)
  | some cur =>
    if isValidSubmit cur new then
      match cur with
      | .ready => stat.handleReady numCores cmd new
      | .attached => stat.handleAttached numCores cmd new
      | .starting => stat.handleStarting cmd new
      | .stopped => stat.handleStopped numCores cmd new
      | .busyShared => stat.handleBusyShared numCores irp cmd new
      | .stopResume => stat.handleStopResume new
      | .busyResume => stat.handleBusyResume new
      | .stopping | .removed | .excludePending | .busy => (.errorState, stat)
    else (.errorState, stat)

/-- What `PopState` does beside the stack: nothing, the task of a request that is scheduled, or an exception. -/
inductive Popped where
  | done
  | scheduled (irp : Nat)
  | raised
deriving DecidableEq, Repr

/-- `PopState`. Under a request that is kept, a state of `PORT_STATE_BUSY_SHARED` is taken away, and the
request is resumed with the last of them. -/
def popState (stat : CPortState) : Popped × CPortState :=
  match stat.states with
  | .excludePending :: .busyShared :: below =>
    match below with
    | [] => (.done, { stat with states := [.busyShared] })
    | .busyShared :: _ => (.done, { stat with states := .excludePending :: below })
    | _ =>
      match stat.exclIrp, stat.resume with
      | some irp, some _ =>
        let stat : CPortState := ⟨.excludePending :: below, none, none⟩
        (.scheduled irp, (stat.setPortState .busyResume).2)
      | _, _ => (.raised, { stat with states := below })
  | _ :: below => (.done, { stat with states := below })
  | [] => (.done, stat)

end CPortState

/-! ### The port -/

/-- What a request to the port stack finds: a lower port, with whether it answers `STATUS_PENDING`, a registry path,
and a registry that takes it. -/
structure StackExit where
  lowerPort : Bool
  lowerPending : Bool
  regPath : Bool
  registry : Bool
deriving DecidableEq, Repr

/-- Whether `SubmitPortStackIrp` comes to its `PopState`. -/
def StackExit.popsState (exit : StackExit) : StackCmd → Bool
  | .built => if exit.lowerPort then !exit.lowerPending else exit.regPath && exit.registry
  | .destroy => if exit.lowerPort then !exit.lowerPending else exit.regPath
  | .ready => !exit.lowerPort || !exit.lowerPending

/-- A port: its state, the requests in progress, the resume tasks that are scheduled, and the requests whose task has
set `PORT_STATE_STOP_RESUME`. The last fields record an exception, the requests admitted whose handler has ended and
those that gave their state back, the stops refused while shared requests ran, the stops kept and resumed,
and the requests admitted over a kept stop and the stops resumed over shared requests. -/
structure Port where
  stat : CPortState
  shared : List Nat
  stack : List (Nat × StackCmd)
  stopping : List Nat
  starting : List Nat
  tasks : List Nat
  resuming : List Nat
  raised : Bool
  exited : List Nat
  gaveBack : List Nat
  refusedStops : List Nat
  kept : List Nat
  resumed : List Nat
  overtaking : List Nat
  early : List Nat
deriving DecidableEq, Repr

/-- A move of a request, by its number. -/
inductive PortMove where
  | submitFunc (irp : Nat)
  | submitQueryStop (irp : Nat)
  | endShared (irp : Nat)
  | submitPortStack (irp : Nat) (cmd : StackCmd)
  | endPortStack (irp : Nat) (cmd : StackCmd) (exit : StackExit)
  | submitStop (irp : Nat) (resumeTask : Bool)
  | endStop (irp : Nat)
  | runResumeTask (irp : Nat)
  | resumeStop (irp : Nat)
  | submitStart (irp : Nat)
  | endStart (irp : Nat) (started : Bool)
deriving DecidableEq, Repr

namespace Port

def new : Port :=
  ⟨⟨[.attached], none, none⟩, [], [], [], [], [], [], false, [], [], [], [], [], [], []⟩

/-- The stops that are kept and not resumed. -/
def waiting (port : Port) : List Nat := port.stat.exclIrp.toList ++ port.tasks ++ port.resuming

def admission (port : Port) (irp : Nat) : Port :=
  if port.waiting = [] then port else { port with overtaking := port.overtaking ++ [irp] }

/-- The front of `SubmitFuncIrp` and `SubmitQueryStopIrp`. -/
def submitShared (numCores : Nat) (cmd : IrpCmd) (port : Port) (irp : Nat) : Port :=
  let ret := port.stat.canContinue numCores irp cmd .busyShared
  if ret.1 = .success then { port.admission irp with stat := ret.2, shared := port.shared ++ [irp] }
  else { port with stat := ret.2 }

/-- `SubmitFuncIrp` up to `OnSubmitIrp`. -/
def submitFuncIrp (numCores : Nat) : Port → Nat → Port := submitShared numCores .func

/-- `SubmitQueryStopIrp` up to its work. -/
def submitQueryStopIrp (numCores : Nat) : Port → Nat → Port := submitShared numCores .queryStop

/-- `PopState` of a request whose handler ends. -/
def popState (port : Port) (irp : Nat) : Port :=
  let popped := port.stat.popState
  let port := { port with stat := popped.2, exited := port.exited ++ [irp], gaveBack := port.gaveBack ++ [irp] }
  match popped.1 with
  | .done => port
  | .scheduled kept => { port with tasks := port.tasks ++ [kept] }
  | .raised => { port with raised := true }

/-- The end of `SubmitFuncIrp` and `SubmitQueryStopIrp`. -/
def endShared (port : Port) (irp : Nat) : Port := ({ port with shared := port.shared.erase irp } : Port).popState irp

/-- `SubmitPortStackIrp` up to its work. -/
def submitPortStackIrp (numCores : Nat) (port : Port) (irp : Nat) (cmd : StackCmd) : Port :=
  let ret := port.stat.canContinue numCores irp (.stack cmd) .busy
  if ret.1 = .success then { port.admission irp with stat := ret.2, stack := port.stack ++ [(irp, cmd)] }
  else { port with stat := ret.2 }

/-- The exits of `SubmitPortStackIrp`. Some do not come to `PopState`. -/
def endPortStackIrp (port : Port) (irp : Nat) (cmd : StackCmd) (exit : StackExit) : Port :=
  let port := { port with stack := port.stack.erase (irp, cmd) }
  if exit.popsState cmd then
    let port := port.popState irp
    if cmd = .destroy then { port with stat := port.stat.setPortStateWake .stopped .removed } else port
  else { port with exited := port.exited ++ [irp] }

/-- `SubmitStopIrp` up to `StopEx`, with whether `GetStopResumeTask` makes a task. -/
def submitStopIrp (numCores : Nat) (port : Port) (irp : Nat) (resumeTask : Bool) : Port :=
  let ret := port.stat.canContinue numCores irp .stop .stopping
  match ret.1 with
  | .success => { port.admission irp with stat := ret.2, stopping := port.stopping ++ [irp] }
  | .pending =>
    { port with
      stat := if resumeTask then { ret.2 with resume := some irp } else ret.2
      kept := port.kept ++ [irp] }
  | _ =>
    { port with
      stat := ret.2
      refusedStops := if port.shared = [] then port.refusedStops else port.refusedStops ++ [irp] }

/-- The end of a stop, behind `StopEx`. -/
def endStop (port : Port) (irp : Nat) : Port :=
  let port := { port with stopping := port.stopping.erase irp }
  if port.stat.top = some .stopping then
    { port with
      stat := port.stat.setPortStateWake .stopping .stopped
      exited := port.exited ++ [irp]
      gaveBack := port.gaveBack ++ [irp] }
  else { port with raised := true, exited := port.exited ++ [irp] }

/-- `CPortStateResumeSubmitTask`, up to the task of the request. -/
def runResumeTask (port : Port) (irp : Nat) : Port :=
  let set := port.stat.setPortState .stopResume
  let port := { port with stat := set.2, tasks := port.tasks.erase irp }
  if set.1 = .success then { port with resuming := port.resuming ++ [irp] } else port

/-- The task of the request: `SubmitStopIrp` once more. -/
def resumeStop (numCores : Nat) (port : Port) (irp : Nat) : Port :=
  let ret := port.stat.canContinue numCores irp .stop .stopping
  let port := { port with stat := ret.2, resuming := port.resuming.erase irp }
  if ret.1 = .success then
    { port with
      stopping := port.stopping ++ [irp]
      resumed := port.resumed ++ [irp]
      early := if port.shared = [] then port.early else port.early ++ [irp] }
  else port

/-- `SubmitStartIrp` up to `StartEx`. -/
def submitStartIrp (numCores : Nat) (port : Port) (irp : Nat) : Port :=
  let ret := port.stat.canContinue numCores irp .start .starting
  if ret.1 = .success then { port.admission irp with stat := ret.2, starting := port.starting ++ [irp] }
  else { port with stat := ret.2 }

/-- The end of a start, behind `StartEx`. -/
def endStart (port : Port) (irp : Nat) (started : Bool) : Port :=
  { port with
    stat := (port.stat.setPortState (if started then .ready else .stopped)).2
    starting := port.starting.erase irp }

def step (numCores : Nat) (port : Port) (move : PortMove) : Option Port :=
  if port.raised then none
  else
    match move with
    | .submitFunc irp => some (port.submitFuncIrp numCores irp)
    | .submitQueryStop irp => some (port.submitQueryStopIrp numCores irp)
    | .endShared irp => if irp ∈ port.shared then some (port.endShared irp) else none
    | .submitPortStack irp cmd => some (port.submitPortStackIrp numCores irp cmd)
    | .endPortStack irp cmd exit =>
      if (irp, cmd) ∈ port.stack then some (port.endPortStackIrp irp cmd exit) else none
    | .submitStop irp resumeTask => some (port.submitStopIrp numCores irp resumeTask)
    | .endStop irp => if irp ∈ port.stopping then some (port.endStop irp) else none
    | .runResumeTask irp => if irp ∈ port.tasks then some (port.runResumeTask irp) else none
    | .resumeStop irp => if irp ∈ port.resuming then some (port.resumeStop numCores irp) else none
    | .submitStart irp => some (port.submitStartIrp numCores irp)
    | .endStart irp started => if irp ∈ port.starting then some (port.endStart irp started) else none

end Port

def port (numCores : Nat) : Machine Port PortMove := ⟨Port.new, Port.step numCores⟩

end RpcFrmwrk.Ipc
