import Mathlib.Algebra.Order.Ring.Nat
import RpcFrmwrk.Library.Machine

/-! The flow control between the two ends of a stream. The counters are `guint64` and wrap at 2^64;
`m_byFlowCtrl` is a `gint8`. Owns the methods of `CFlowControl`; `FlowState.step`, one step of a
sender, of the channel or of a port's queue. -/

namespace RpcFrmwrk.Ipc

open RpcFrmwrk.Library

/-- `STM_MAX_PENDING_WRITE`. -/
def stmMaxPendingWrite : Nat := 1 * 1024 * 1024

/-- `STM_MAX_PACKETS_REPORT`. -/
def stmMaxPacketsReport : Nat := 32

/-- `MAX_BYTES_PER_TRANSFER`. -/
def maxBytesPerTransfer : Nat := 1024 * 1024

/-- `EnumFCState`. -/
inductive FCState where
  | keep
  | flowCtrl
  | lift
  | report
deriving DecidableEq, Repr

structure FlowControl where
  rxBytes : Nat
  txBytes : Nat
  ackTxBytes : Nat
  ackRxBytes : Nat
  rxPkts : Nat
  txPkts : Nat
  ackTxPkts : Nat
  ackRxPkts : Nat
  flowCtrl : Int
  monitor : Bool
deriving DecidableEq, Repr

namespace FlowControl

def init (monitor : Bool) : FlowControl := ⟨0, 0, 0, 0, 0, 0, 0, 0, 0, monitor⟩

/-- A sum of `guint64`. -/
def add64 (left right : Nat) : Nat := (left + right) % 2 ^ 64

/-- A difference of `guint64`. -/
def sub64 (left right : Nat) : Nat := (left + 2 ^ 64 - right) % 2 ^ 64

/-- A `gint8`. -/
def wrap8 (value : Int) : Int := (value + 128) % 256 - 128

def bytesAbove (now ack : Nat) : Bool := decide (stmMaxPendingWrite ≤ sub64 now ack)

def pktsAbove (now ack : Nat) : Bool := decide (stmMaxPacketsReport ≤ sub64 now ack)

/-- `IncFCCount`. -/
def incFCCount (fc : FlowControl) : FCState × FlowControl :=
  let fc := { fc with flowCtrl := wrap8 (fc.flowCtrl + 1) }
  (if fc.flowCtrl = 1 then .flowCtrl else .keep, fc)

/-- `DecFCCount`. -/
def decFCCount (fc : FlowControl) : FCState × FlowControl :=
  let fc := { fc with flowCtrl := wrap8 (fc.flowCtrl - 1) }
  (if fc.flowCtrl = 0 then .lift else .keep, fc)

/-- `OnReportInternal`. -/
def onReportInternal (fc : FlowControl) (ackTxBytes ackTxPkts : Nat) : FCState × FlowControl :=
  if ackTxBytes ≤ fc.ackTxBytes ∨ ackTxPkts ≤ fc.ackTxPkts then (.keep, fc)
  else
    let aboveLast := bytesAbove fc.txBytes fc.ackTxBytes || pktsAbove fc.txPkts fc.ackTxPkts
    let above := bytesAbove fc.txBytes ackTxBytes || pktsAbove fc.txPkts ackTxPkts
    let fc := { fc with ackTxBytes := ackTxBytes, ackTxPkts := ackTxPkts }
    if aboveLast ≠ above then fc.decFCCount else (.keep, fc)

/-- `IncTxBytes`. -/
def incTxBytes (fc : FlowControl) (size : Nat) : FCState × FlowControl :=
  if size = 0 ∨ maxBytesPerTransfer < size then (.keep, fc)
  else
    let aboveLastBytes := bytesAbove fc.txBytes fc.ackTxBytes
    let aboveLastPkts := pktsAbove fc.txPkts fc.ackTxPkts
    let fc := { fc with txBytes := add64 fc.txBytes size, txPkts := add64 fc.txPkts 1 }
    let aboveBytes := bytesAbove fc.txBytes fc.ackTxBytes
    let abovePkts := pktsAbove fc.txPkts fc.ackTxPkts
    if aboveLastBytes ≠ aboveBytes ∨ aboveLastPkts ≠ abovePkts then fc.incFCCount else (.keep, fc)

/-- `IncRxBytes`. -/
def incRxBytes (fc : FlowControl) (size : Nat) : FCState × FlowControl :=
  if size = 0 ∨ maxBytesPerTransfer < size then (.keep, fc)
  else
    let aboveLastBytes := bytesAbove fc.rxBytes fc.ackRxBytes
    let aboveLastPkts := pktsAbove fc.rxPkts fc.ackRxPkts
    let fc := { fc with rxBytes := add64 fc.rxBytes size, rxPkts := add64 fc.rxPkts 1 }
    let aboveBytes := bytesAbove fc.rxBytes fc.ackRxBytes
    let abovePkts := pktsAbove fc.rxPkts fc.ackRxPkts
    if aboveLastBytes ≠ aboveBytes ∨ aboveLastPkts ≠ abovePkts then
      (.report, { fc with ackRxBytes := fc.rxBytes, ackRxPkts := fc.rxPkts })
    else (.keep, fc)

/-- `GetReport`. -/
def getReport (fc : FlowControl) : Nat × Nat := (fc.rxBytes, fc.rxPkts)

/-- `CanSend`. -/
def canSend (fc : FlowControl) : Bool := fc.monitor || decide (fc.flowCtrl = 0)

end FlowControl

inductive Side where
  | left
  | right
deriving DecidableEq, Repr

def Side.other : Side → Side
  | .left => .right
  | .right => .left

/-- One end with what it has on the way to the other: the packets, and the
reports on what it received. `passed` are the senders that have seen `CanSend`
and have still to count their packet, `due` the reports decided and not yet
taken, `opened` the queue-full events that are not lifted. -/
structure Endpoint where
  fc : FlowControl
  passed : Nat
  opened : Nat
  data : List Nat
  due : Nat
  reports : List (Nat × Nat)
deriving DecidableEq, Repr

structure FlowState where
  left : Endpoint
  right : Endpoint
deriving DecidableEq, Repr

def FlowState.at (state : FlowState) : Side → Endpoint
  | .left => state.left
  | .right => state.right

def FlowState.set (state : FlowState) (side : Side) (endpoint : Endpoint) : FlowState :=
  match side with
  | .left => { state with left := endpoint }
  | .right => { state with right := endpoint }

/-- A sender sees `CanSend`; a sender that has seen it counts and sends its
packet; an end receives the next packet; it takes and sends a report; an end
handles the next report; the output queue of an end's port gets full, and is no
longer full. -/
inductive FlowMove where
  | test (side : Side)
  | send (side : Side) (size : Nat)
  | receive (side : Side)
  | report (side : Side)
  | handle (side : Side)
  | queueFull (side : Side)
  | lift (side : Side)
deriving DecidableEq, Repr

def FlowState.step (state : FlowState) : FlowMove → Option FlowState
  | .test side =>
    let own := state.at side
    if own.fc.canSend then some (state.set side { own with passed := own.passed + 1 }) else none
  | .send side size =>
    let own := state.at side
    if 0 < own.passed ∧ 0 < size ∧ size ≤ maxBytesPerTransfer then
      some (state.set side { own with
        fc := (own.fc.incTxBytes size).2
        passed := own.passed - 1
        data := own.data ++ [size] })
    else none
  | .receive side =>
    let own := state.at side
    let peer := state.at side.other
    match peer.data with
    | [] => none
    | size :: data =>
      let received := own.fc.incRxBytes size
      some ((state.set side.other { peer with data := data }).set side { own with
        fc := received.2
        due := if received.1 = .report then own.due + 1 else own.due })
  | .report side =>
    let own := state.at side
    if 0 < own.due then
      some (state.set side { own with
        due := own.due - 1
        reports := own.reports ++ [own.fc.getReport] })
    else none
  | .handle side =>
    let own := state.at side
    let peer := state.at side.other
    match peer.reports with
    | [] => none
    | report :: reports =>
      some ((state.set side.other { peer with reports := reports }).set side { own with
        fc := (own.fc.onReportInternal report.1 report.2).2 })
  | .queueFull side =>
    let own := state.at side
    some (state.set side { own with fc := own.fc.incFCCount.2, opened := own.opened + 1 })
  | .lift side =>
    let own := state.at side
    if 0 < own.opened then
      some (state.set side { own with fc := own.fc.decFCCount.2, opened := own.opened - 1 })
    else none

def Endpoint.init (monitor : Bool) : Endpoint := ⟨.init monitor, 0, 0, [], 0, []⟩

/-- Two ends of a new stream, each a monitor or not. -/
def flowMachine (left right : Bool) : Machine FlowState FlowMove where
  start := ⟨.init left, .init right⟩
  step := FlowState.step

end RpcFrmwrk.Ipc
