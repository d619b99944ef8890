/-! Return codes, and states of I/O request packets and tasks. A `gint32` return code is an error
when it is negative. Owns the codes that the modelled methods return; `IRP_STATE_*` with
`CanContinue` and `SetState`; `EnumTaskState`. -/

namespace RpcFrmwrk.Ipc

def statusSuccess : Int := 0

def statusPending : Int := 0x10001

/-- `STATUS_MORE_PROCESS_NEEDED`. -/
def statusMoreProcessNeeded : Int := 0x10002

def errorState : Int := 0x80010003 - 0x100000000

def errorCannotComp : Int := 0x8001000b - 0x100000000

def errorQueueFull : Int := 0x8001000e - 0x100000000

/-- `-EPERM`. -/
def ePerm : Int := -1

/-- `-ENOENT`. -/
def eNoEnt : Int := -2

/-- `-EAGAIN`. -/
def eAgain : Int := -11

/-- `-EFAULT`. -/
def eFault : Int := -14

/-- `-EINVAL`. -/
def eInval : Int := -22

/-- `-ERANGE`. -/
def eRange : Int := -34

/-- `-EBADMSG`. -/
def eBadMsg : Int := -74

/-- `-ETIMEDOUT`. -/
def eTimedOut : Int := -110

/-- `-ECANCELED`. -/
def eCanceled : Int := -125

/-- `ERROR( ret )`. -/
def isError (ret : Int) : Bool := decide (ret < 0)

/-- `SUCCEEDED( ret )`. -/
def succeeded (ret : Int) : Bool := decide (ret = 0)

/-- `EnumTaskState`, as far as a queue or a group takes it. -/
inductive TaskState where
  | starting
  | started
  | stopping
  | stopped
deriving DecidableEq, Repr

inductive IrpState where
  | ready
  | completing
  | completed
  | cancelling
  | cancelled
  | cancelSlave
  | busy
  | completingAssoc
deriving DecidableEq, Repr

namespace IrpState

/-- `SetState`: the exchange takes place when the state is the expected one. -/
def setState (state current new : IrpState) : Bool × IrpState :=
  if state = current then (true, new) else (false, state)

/-- `CanContinue`. -/
def canContinue (state new : IrpState) : Int × IrpState :=
  if state = .ready then (statusSuccess, new)
  else
    match state with
    | .completed | .cancelled => (ePerm, state)
    | _ => (errorState, state)

theorem canContinue_ready (new : IrpState) : canContinue .ready new = (statusSuccess, new) := rfl

theorem canContinue_of_ne {state : IrpState} (busy : state ≠ .ready) (new : IrpState) :
    isError (state.canContinue new).1 = true ∧ (state.canContinue new).2 = state := by
  cases state with
  | ready => exact absurd rfl busy
  | _ => exact ⟨rfl, rfl⟩

end IrpState

end RpcFrmwrk.Ipc
