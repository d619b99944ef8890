import RpcFrmwrk.ConfigDb.RoundTrip
import RpcFrmwrk.Library.Machine

/-! The messages of the fast RPC, and the stream channel that puts them together. A buffer is its
bytes; what lies behind them is unknown, and a method that reads there says so. What
`CConfigDb2::Deserialize` reads is not looked at here. The lock of the channel and that of the port
are held together: a method is cut where it drops them, and where it asks the stream for a buffer,
which hands out what has come in order. The number of read requests is taken as a natural number.
Owns `FASTRPC_MSG::Serialize` and `Deserialize`; `BuildNewMsgToSvr` and both `FillReadBuf` of
`CRpcStmChanBase`; `StmChan.step`, what `AddRecvReq`, `OnStmRecv`, `FillReadBuf` and `DispatchData`
do between two points where they can be overtaken. -/

namespace RpcFrmwrk.Ipc

open RpcFrmwrk.Library RpcFrmwrk.ConfigDb

variable {H : ConfigHost}

/-- The size field, the type and the signature. -/
def fastrpcHeader : Nat := 8

/-- `typeObj`, and `FRM`. -/
def fastrpcTag : List UInt8 := [9, 0x46, 0x52, 0x4d]

namespace FastrpcMsg

/-- The end of both `Serialize` methods: each patches its size field. -/
def finish (writer : Writer) : List UInt8 :=
  toBE 4 (writer.out.length - 4) ++ (writer.out.drop 4).take 4 ++
    ConfigDb.finish ⟨writer.out.drop fastrpcHeader, writer.cap⟩

/-- `FASTRPC_MSG::Serialize` into an empty buffer. The configuration is appended to it. -/
def serialize (props : List (Int32 × Value H)) : Option (List UInt8) :=
  if maxBytesPerBuffer < fastrpcHeader + seriHeader + H.qpage then none
  else
    (serializeProps props ⟨toBE 4 0 ++ fastrpcTag ++ header 0 (props.length % 2 ^ 32),
      fastrpcHeader + seriHeader + H.qpage⟩).map finish

end FastrpcMsg

/-- A buffer, and the memory behind it. -/
structure Block where
  bytes : List UInt8
  behind : Nat → UInt8

namespace Block

/-- `count` bytes from `offset` on. -/
def load (block : Block) (offset count : Nat) : List UInt8 :=
  (List.range count).map fun index =>
    (block.bytes[offset + index]?).getD (block.behind (offset + index))

def dwSize (block : Block) : Nat := ofBE (block.load 0 4)

end Block

/-- What a method answers, and whether it has read behind the buffer. -/
structure Read (α : Type) where
  answer : α
  outside : Bool

/-- `FASTRPC_MSG::Deserialize`; every error is `none`. -/
def FastrpcMsg.deserialize (block : Block) : Read (Option (List (Int32 × Value H))) :=
  let size := block.bytes.length
  if size < block.dwSize then ⟨none, size < 4⟩
  else if block.load 4 1 ≠ fastrpcTag.take 1 then ⟨none, size < 5⟩
  else if block.load 5 3 ≠ fastrpcTag.drop 1 then ⟨none, size < 8⟩
  else if size ≤ fastrpcHeader then ⟨none, size < 8⟩
  else ⟨ConfigDb.deserialize (block.bytes.drop fastrpcHeader), false⟩

/-- `propSrcDBusName`, `propContext` and the properties of the context. -/
def propSrcDBusName : Int32 := 0x1001
def propContext : Int32 := 0x3024
def propRouterPath : Int32 := 0x306d
def propSessHash : Int32 := 0x3071
def propTimestamp : Int32 := 0x3077
def propStmHandle : Int32 := 0x3094
def propLoginInfo : Int32 := 0x30af

/-- `SESS_INFO`. -/
structure SessInfo (H : ConfigHost) where
  strSessHash : List UInt8
  strRouterPath : List UInt8
  pLoginInfo : Value H

/-- A stream of the channel. A proxy has no session. -/
structure StmInfo (H : ConfigHost) where
  hstm : Nat
  session : Option (SessInfo H)

namespace StmInfo

/-- `":" + std::to_string( hstm )`. -/
def strSender (info : StmInfo H) : List UInt8 :=
  0x3a :: (Nat.toDigits 10 info.hstm).map fun digit => UInt8.ofNat digit.toNat

/-- `BuildNewMsgToSvr`, at the given time. -/
def buildNewMsgToSvr (info : StmInfo H) (time : UInt64) (msg : List (Int32 × Value H)) :
    List (Int32 × Value H) :=
  match info.session with
  | none => msg
  | some session =>
    let reqCtx : List (Int32 × Value H) :=
      [(propRouterPath, .string session.strRouterPath), (propSessHash, .string session.strSessHash),
        (propStmHandle, .uint64 (UInt64.ofNat info.hstm)), (propLoginInfo, session.pLoginInfo),
        (propTimestamp, .uint64 time)]
    setProperty msg propContext (.config reqCtx)

/-- What `FillReadBuf` puts into the queue. -/
def received (info : StmInfo H) (time : UInt64) (msg : List (Int32 × Value H)) : List (Int32 × Value H) :=
  info.buildNewMsgToSvr time (setProperty msg propSrcDBusName (.string info.strSender))

/-- What `FillReadBuf` finds: an error, a piece of a message, or a whole one. -/
inductive Filled (H : ConfigHost) where
  | error
  | more
  | message (msg : List (Int32 × Value H))

/-- `CBuffer::Append`. -/
def appendBuf (head block : List UInt8) : Option (List UInt8) :=
  if block.length = 0 ∨ bufMaxSize < block.length ∨ maxBytesPerBuffer < head.length + block.length then none
  else some (head ++ block)

/-- `FillReadBuf( hstm, pBuf )`: its answer, and `queBuf` behind it. -/
def fillReadBuf (info : StmInfo H) (time : UInt64) (queBuf : List (List UInt8)) (block : Block) :
    Read (Filled H × List (List UInt8)) :=
  match queBuf with
  | [] =>
    let short := decide (block.bytes.length < 4)
    let dwPayload := (block.bytes.length + 2 ^ 32 - 4) % 2 ^ 32
    if maxBytesPerBuffer < block.dwSize then ⟨(.error, []), short⟩
    else if dwPayload = block.dwSize then
      let read := FastrpcMsg.deserialize block
      match read.answer with
      | none => ⟨(.error, []), short || read.outside⟩
      | some msg => ⟨(.message (info.received time msg), []), short || read.outside⟩
    else if dwPayload < block.dwSize then ⟨(.more, [block.bytes]), short⟩
    else ⟨(.error, []), short⟩
  | headBuf :: rest =>
    let dwSize := ofBE (headBuf.take 4)
    let dwPayload := headBuf.length - 4 + block.bytes.length
    if dwPayload = dwSize then
      -- the head is completed, but it is the last piece that is deserialized
      let head := (appendBuf headBuf block.bytes).getD headBuf
      let read := FastrpcMsg.deserialize block
      match read.answer with
      | none => ⟨(.error, head :: rest), read.outside⟩
      | some msg => ⟨(.message (info.received time msg), rest), read.outside⟩
    else if dwPayload < dwSize then
      match appendBuf headBuf block.bytes with
      | none => ⟨(.error, headBuf :: rest), false⟩
      | some head => ⟨(.more, head :: rest), false⟩
    else ⟨(.error, headBuf :: rest), false⟩

end StmInfo

/-! ### The channel -/

/-- A buffer of a message. The last one of a message says which message is complete with it. -/
structure Piece (H : ConfigHost) where
  bytes : List UInt8
  whole : Option (List (Int32 × Value H))

/-- The last of these buffers completes the message. -/
def cutOf (msg : List (Int32 × Value H)) : List (List UInt8) → List (Piece H)
  | [] => []
  | [bytes] => [⟨bytes, some msg⟩]
  | bytes :: rest => ⟨bytes, none⟩ :: cutOf msg rest

/-- Where a call of `AddRecvReq` or `OnStmRecv`, or a task that is to dispatch, goes on: at the
first look of `FillReadBuf`, in its loop with so many messages still to read and whether it is
to dispatch, with a buffer it has read there, at the start of `DispatchData`, with messages it
has taken and how many of them the port has refused, or nowhere. A buffer and the first of the
messages come with their place in the stream. -/
inductive ChanCall (H : ConfigHost) where
  | look
  | reading (iToRead : Nat) (bDispatch : Bool)
  | filling (iToRead : Nat) (bDispatch : Bool) (place : Nat) (bytes : List UInt8)
  | dispatchData
  | dispatching (place : Nat) (vecMsgs : List (List (Int32 × Value H))) (dwCount : Nat)
  | done

/-- A stream of the channel. The last fields record the buffers on their way and those that
have come, how many were read and filled, how many requests were made, the messages queued
so far and how many were taken, and those the port has accepted. -/
structure StmChan (H : ConfigHost) where
  connected : Bool
  recvQue : List (List UInt8)
  queBuf : List (List UInt8)
  dwReqCount : Nat
  msgQue : List (List (Int32 × Value H))
  calls : List (ChanCall H)
  wire : List (Piece H)
  arrived : List (Piece H)
  reads : Nat
  fills : Nat
  requests : Nat
  queued : List (List (Int32 × Value H))
  taken : Nat
  dispatched : List (List (Int32 × Value H))

/-- The peer sends a message in pieces, a piece comes, a request is made, a call goes on, or
the interface is stopped. -/
inductive ChanEvent (H : ConfigHost) where
  | send (config : ConfigDb2 H) (pieces : List (List UInt8))
  | addRecvReq
  | onStmRecv
  | look (call : Nat)
  | read (call : Nat)
  | fill (call : Nat) (time : UInt64) (behind : Nat → UInt8)
  | take (call : Nat)
  | dispatch (call : Nat) (accepted : Bool)
  | stop

namespace StmChan

def new : StmChan H where
  connected := true
  recvQue := []
  queBuf := []
  dwReqCount := 0
  msgQue := []
  calls := []
  wire := []
  arrived := []
  reads := 0
  fills := 0
  requests := 0
  queued := []
  taken := 0
  dispatched := []

def goOn (chan : StmChan H) (call : Nat) (next : ChanCall H) : StmChan H :=
  { chan with calls := chan.calls.set call next }

/-- The end of `FillReadBuf( hstm )`. -/
def filled (bDispatch : Bool) : ChanCall H := if bDispatch then .dispatchData else .done

/-- `FillReadBuf( hstm )` up to its loop. -/
def look (chan : StmChan H) (call : Nat) : StmChan H :=
  if chan.dwReqCount = 0 then chan.goOn call .done
  else if chan.dwReqCount ≤ chan.msgQue.length then chan.goOn call .dispatchData
  else chan.goOn call (.reading (chan.dwReqCount - chan.msgQue.length) (!chan.msgQue.isEmpty))

/-- `ReadStreamNoWait`. -/
def read (chan : StmChan H) (call iToRead : Nat) (bDispatch : Bool) : StmChan H :=
  match chan.connected, chan.recvQue with
  | true, bytes :: rest =>
    { chan.goOn call (.filling iToRead bDispatch chan.reads bytes) with
      recvQue := rest, reads := chan.reads + 1 }
  | _, _ => chan.goOn call (filled bDispatch)

/-- `FillReadBuf( hstm, pBuf )` in the loop. -/
def fill (info : StmInfo H) (chan : StmChan H) (call iToRead : Nat) (bDispatch : Bool) (time : UInt64)
    (block : Block) : StmChan H :=
  let (answer, queBuf) := (info.fillReadBuf time chan.queBuf block).answer
  let chan := { chan with queBuf := queBuf, fills := chan.fills + 1 }
  match answer with
  | .error => chan.goOn call (filled bDispatch)
  | .more => chan.goOn call (.reading iToRead bDispatch)
  | .message msg =>
    let chan := { chan with msgQue := chan.msgQue ++ [msg], queued := chan.queued ++ [msg] }
    if iToRead ≤ 1 then chan.goOn call .dispatchData
    else chan.goOn call (.reading (iToRead - 1) true)

/-- `DispatchData` up to the port. -/
def take (chan : StmChan H) (call : Nat) : StmChan H :=
  let dwCount := min chan.dwReqCount chan.msgQue.length
  if chan.connected = false ∨ chan.msgQue = [] then chan.goOn call .done
  else
    { chan.goOn call (.dispatching chan.taken (chan.msgQue.take dwCount) 0) with
      msgQue := chan.msgQue.drop dwCount, dwReqCount := chan.dwReqCount - dwCount
      taken := chan.taken + dwCount }

/-- The next message goes to the port; behind the last one the requests whose message was
refused are counted again. -/
def dispatch (chan : StmChan H) (call place : Nat) (vecMsgs : List (List (Int32 × Value H)))
    (dwCount : Nat) (accepted : Bool) : StmChan H :=
  match vecMsgs with
  | [] => { chan.goOn call .done with dwReqCount := chan.dwReqCount + dwCount }
  | msg :: rest =>
    if accepted then
      { chan.goOn call (.dispatching (place + 1) rest dwCount) with dispatched := chan.dispatched ++ [msg] }
    else chan.goOn call (.dispatching (place + 1) rest (dwCount + 1))

def step (info : StmInfo H) (chan : StmChan H) : ChanEvent H → Option (StmChan H)
  | .send config pieces =>
    match FastrpcMsg.serialize config.props with
    | none => none
    | some bytes =>
      if pieces.flatten = bytes ∧ [] ∉ pieces ∧ 4 ≤ (pieces.headD []).length then
        some { chan with wire := chan.wire ++ cutOf config.props pieces }
      else none
  | .addRecvReq =>
    some { chan with
      dwReqCount := chan.dwReqCount + 1, requests := chan.requests + 1, calls := chan.calls ++ [.look] }
  | .onStmRecv =>
    match chan.wire with
    | [] => none
    | piece :: rest =>
      some { chan with
        wire := rest, arrived := chan.arrived ++ [piece], recvQue := chan.recvQue ++ [piece.bytes]
        calls := chan.calls ++ [.look] }
  | .look call =>
    match chan.calls[call]? with
    | some .look => some (chan.look call)
    | _ => none
  | .read call =>
    match chan.calls[call]? with
    | some (.reading iToRead bDispatch) => some (chan.read call iToRead bDispatch)
    | _ => none
  | .fill call time behind =>
    match chan.calls[call]? with
    | some (.filling iToRead bDispatch _ bytes) => some (chan.fill info call iToRead bDispatch time ⟨bytes, behind⟩)
    | _ => none
  | .take call =>
    match chan.calls[call]? with
    | some .dispatchData => some (chan.take call)
    | _ => none
  | .dispatch call accepted =>
    match chan.calls[call]? with
    | some (.dispatching place vecMsgs dwCount) => some (chan.dispatch call place vecMsgs dwCount accepted)
    | _ => none
  | .stop => some { chan with connected := false }

end StmChan

/-- A stream that is ready. -/
def stmChan (info : StmInfo H) : Machine (StmChan H) (ChanEvent H) where
  start := .new
  step := StmChan.step info

end RpcFrmwrk.Ipc
