import RpcFrmwrk.Combase.Window
import RpcFrmwrk.Library.BigEndian
import RpcFrmwrk.Library.Machine

/-! The messages that a reader takes out of a file of `rpcfs`. Each call runs with the lock of the
file. A file has one opening at a time. A buffer of the queue stands for its bytes. Owns
`FillBufVec`, `fs_open`, `fs_read`, `fs_release` and `ReceiveEvtJson` of `CFuseEvtFile`;
`OnUserCancelRequest` of `CFuseReqFileSvr` and `CancelFsRequests` of `CFuseRespFileProxy`;
`EvtFile.step`, one call. -/

namespace RpcFrmwrk.Fuse

open RpcFrmwrk.Library

/-- `MAX_EVT_QUE_SIZE`. -/
def maxEvtQueSize : Nat := 1024

/-- `MAX_EVT_QUE_BYTES`. -/
def maxEvtQueBytes : Nat := 16 * (1024 * 1024)

/-- `INBUF`. -/
structure InBuf where
  buf : List UInt8
  off : Nat
  reqId : Nat
deriving DecidableEq, Repr

def InBuf.unread (inBuf : InBuf) : Nat := inBuf.buf.length - inBuf.off

def unreadBytes (que : List InBuf) : Nat := (que.map InBuf.unread).sum

/-- `GetBytesAvail`. -/
def getBytesAvail (que : List InBuf) : Nat := unreadBytes que % 2 ^ 32

/-- The last loop of `FillBufVec`: the bytes of the slots, and what is left of the queue. -/
def fillSlots : Nat → List InBuf → List UInt8 × List InBuf
  | _, [] => ([], [])
  | reqSize, front :: rest =>
    if front.unread < reqSize then
      let behind := fillSlots (reqSize - front.unread) rest
      (front.buf.drop front.off ++ behind.1, behind.2)
    else
      let off := front.off + reqSize
      ((front.buf.drop front.off).take reqSize,
        if off = front.buf.length then rest else { front with off := off } :: rest)

/-- `FillBufVec`: nothing if there is nothing to read or too little. -/
def fillBufVec (reqSize : Nat) (que : List InBuf) : Option (List UInt8 × List InBuf) :=
  if reqSize = 0 ∨ unreadBytes que < reqSize then none else some (fillSlots reqSize que)

/-- The buffer of a message: its length and its bytes. The error of `Append` is not looked at. -/
def evtBuf (msg : List UInt8) : List UInt8 :=
  let size := toBE 4 (msg.length % 2 ^ 32)
  (appendBuf size msg).getD size

/-- The loop that drops messages of a queue that is too long. Nothing is left of a queue it takes too
much from. -/
def dropOverflow : List InBuf → Nat → Option (List InBuf × Nat)
  | [], bytesAvail => if maxEvtQueBytes < bytesAvail then none else some ([], bytesAvail)
  | front :: rest, bytesAvail =>
    if maxEvtQueBytes < bytesAvail ∨ maxEvtQueSize < rest.length + 1 then
      dropOverflow rest (sub32 bytesAvail front.buf.length)
    else some (front :: rest, bytesAvail)

/-- `CFuseEvtFile`. The last fields record whether the loop of an overflow took from an empty queue, the
messages received, and the bytes read since the file was opened. -/
structure EvtFile where
  queIncoming : List InBuf
  bytesAvail : Nat
  opened : Bool
  nonBlock : Bool
  broken : Bool
  received : List (List UInt8)
  read : List UInt8
deriving DecidableEq, Repr

/-- A call. A cancellation of all requests comes with the responses made for them. -/
inductive EvtMove where
  | open (nonBlock : Bool)
  | setNonBlock (nonBlock : Bool)
  | read (size : Nat)
  | receive (msg : List UInt8) (reqId : Nat)
  | cancelRequest (reqId : Nat)
  | cancelRequests (resps : List (List UInt8))
  | release (resps : List (List UInt8))
deriving DecidableEq, Repr

namespace EvtFile

def new : EvtFile := ⟨[], 0, false, false, false, [], []⟩

/-- `fs_open`. -/
def fsOpen (file : EvtFile) (nonBlock : Bool) : EvtFile :=
  if file.opened then file
  else { file with opened := true, nonBlock := file.nonBlock || nonBlock, read := [] }

/-- `fs_read`. -/
def fsRead (file : EvtFile) (size : Nat) : EvtFile :=
  if size = 0 then file
  else
    let avail := getBytesAvail file.queIncoming
    if avail = 0 then file
    else
      let size := if file.nonBlock ∧ avail < size then avail else size
      match fillBufVec size file.queIncoming with
      | none => file
      | some (bytes, que) =>
        { file with
          queIncoming := que
          bytesAvail := sub32 file.bytesAvail size
          read := file.read ++ bytes }

/-- `ReceiveEvtJson`. -/
def receiveEvtJson (file : EvtFile) (msg : List UInt8) (reqId : Nat) : EvtFile :=
  let buf := evtBuf msg
  let received := file.received ++ [msg]
  match dropOverflow (file.queIncoming ++ [⟨buf, 0, reqId⟩]) ((file.bytesAvail + buf.length) % 2 ^ 32) with
  | some (que, bytesAvail) => { file with queIncoming := que, bytesAvail := bytesAvail, received := received }
  | none => { file with queIncoming := [], broken := true, received := received }

/-- `OnUserCancelRequest`. -/
def onUserCancelRequest (file : EvtFile) (reqId : Nat) : EvtFile :=
  if reqId = 0 then file
  else { file with queIncoming := file.queIncoming.eraseP fun inBuf => inBuf.reqId == reqId }

/-- `CancelFsRequests`. -/
def cancelFsRequests (file : EvtFile) (resps : List (List UInt8)) : EvtFile :=
  if resps = [] then file
  else
    { file with
      queIncoming := resps.map fun resp => ⟨evtBuf resp, 0, 0⟩
      received := file.received ++ resps }

/-- `fs_release`. -/
def fsRelease (file : EvtFile) (resps : List (List UInt8)) : EvtFile :=
  { file.cancelFsRequests resps with opened := false, queIncoming := [] }

def step (file : EvtFile) : EvtMove → Option EvtFile
  | .open nonBlock => some (file.fsOpen nonBlock)
  | .setNonBlock nonBlock => some { file with nonBlock := nonBlock }
  | .read size => if file.opened then some (file.fsRead size) else none
  | .receive msg reqId => some (file.receiveEvtJson msg reqId)
  | .cancelRequest reqId => some (file.onUserCancelRequest reqId)
  | .cancelRequests resps => some (file.cancelFsRequests resps)
  | .release resps => if file.opened then some (file.fsRelease resps) else none

end EvtFile

def evtFile : Machine EvtFile EvtMove where
  start := .new
  step := EvtFile.step

end RpcFrmwrk.Fuse
