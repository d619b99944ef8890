import Mathlib.Data.List.TakeDrop
import RpcFrmwrk.Combase.Buffer
import RpcFrmwrk.Ipc.FlowControl
import RpcFrmwrk.Ipc.Irp
import RpcFrmwrk.Library.BigEndian
import RpcFrmwrk.Library.Splice

/-! The packets of a connection, taken from a descriptor or from buffers. A `read` is answered with
a count: zero stands for `EAGAIN`, and any other count is cut to what is asked for and what is
there. A `read` of no bytes returns zero. Owns `CPacketHeader` and its `Deserialize`, on a
little-endian machine; `CIncomingPacket` and both forms of `FillPacket`; `Reader`, the packets that
came out and the error that ended the stream. -/

namespace RpcFrmwrk.Rpc

open RpcFrmwrk.Library RpcFrmwrk.Ipc

/-- `-EPROTO`. -/
def eProto : Int := -71

/-- `RPC_PACKET_MAGIC`. -/
def rpcPacketMagic : Nat := 0x72644850

/-- `sizeof( CPacketHeader )`. -/
def packetHeaderSize : Nat := 28

/-- `CPacketHeader`; the ids of the streams are kept as unsigned numbers. -/
structure PacketHeader where
  magic : Nat
  size : Nat
  stmId : Nat
  peerStmId : Nat
  flags : Nat
  protoId : Nat
  sessId : Nat
  seqNo : Nat
deriving DecidableEq, Repr

namespace PacketHeader

def new : PacketHeader := ⟨rpcPacketMagic, 0, 0, 0, 0, 0, 0, 0⟩

/-- `Deserialize`; no bytes stand for a null pointer. -/
def deserialize (buf : List UInt8) (size : Nat) : Except Int PacketHeader :=
  if buf = [] ∨ size < packetHeaderSize then .error eProto
  else if ofBE (slice buf 0 4) ≠ rpcPacketMagic then .error eProto
  else
    .ok
      { magic := ofBE (slice buf 0 4)
        size := ofBE (slice buf 4 4)
        stmId := ofBE (slice buf 8 4)
        peerStmId := ofBE (slice buf 12 4)
        flags := ofBE (slice buf 16 2)
        protoId := ofBE (slice buf 18 2)
        sessId := ofBE (slice buf 20 4)
        seqNo := ofBE (slice buf 24 4) }

end PacketHeader

/-- `sizeof( m_arrBuf )` of a `CBuffer`. -/
def arrBufSize : Nat := 48

/-- `m_pBuf`: its size and the block it lies in, at offset zero. No block stands for a null
pointer; what was not written yet is taken for zeros. -/
structure PacketBuf where
  size : Nat
  block : List UInt8
  bounded : size ≤ block.length
deriving DecidableEq

namespace PacketBuf

theorem nothing_bounded : 0 ≤ ([] : List UInt8).length := Nat.le_refl 0

def new : PacketBuf := ⟨0, [], nothing_bounded⟩

/-- `Resize`; a size that is refused changes nothing. Up to `arrBufSize` bytes lie in the
object itself. -/
def resize (buf : PacketBuf) (size : Nat) : PacketBuf :=
  if maxBytesPerBuffer < size then buf
  else if size = 0 then new
  else
    ⟨size, (buf.block.take (min buf.size size)).takeD (max size arrBufSize) 0, by
      rw [List.takeD_length]
      exact Nat.le_max_left _ _⟩

/-- Bytes are put into the block. Those that would leave it change nothing. -/
def fill (buf : PacketBuf) (start : Nat) (bytes : List UInt8) : PacketBuf :=
  if inside : start + bytes.length ≤ buf.block.length then
    ⟨buf.size, splice buf.block start bytes, by
      rw [length_splice inside]
      exact buf.bounded⟩
  else buf

def payload (buf : PacketBuf) : List UInt8 := buf.block.take buf.size

end PacketBuf

/-- `CIncomingPacket`. -/
structure IncomingPacket where
  bytesToRecv : Nat
  offset : Nat
  buf : Option PacketBuf
  header : PacketHeader
deriving DecidableEq

/-- How a round of `FillPacket` ends: the bytes that are left, whether it kept inside of its
buffer, and the return code unless there is another round. -/
structure FillRound where
  left : List UInt8
  pkt : IncomingPacket
  inside : Bool
  ret : Option Int
deriving DecidableEq

/-- How a call of `FillPacket` ends. -/
structure FillCall where
  left : List UInt8
  pkt : IncomingPacket
  inside : Bool
  ret : Int
deriving DecidableEq

namespace IncomingPacket

def new : IncomingPacket := ⟨0, 0, none, .new⟩

/-- `dwSize`. -/
def asked (pkt : IncomingPacket) : Nat :=
  if pkt.bytesToRecv = 0 then sub32 packetHeaderSize pkt.offset else pkt.bytesToRecv

/-- `dwBufOffset`. -/
def bufOffset (pkt : IncomingPacket) : Nat :=
  if pkt.offset < packetHeaderSize then pkt.offset else pkt.offset - packetHeaderSize

def prepared (pkt : IncomingPacket) : IncomingPacket :=
  match pkt.buf with
  | none => { pkt with buf := some (PacketBuf.new.resize packetHeaderSize) }
  | some _ => pkt

/-- The block behind `m_pBuf->ptr()`. -/
def block (pkt : IncomingPacket) : List UInt8 :=
  match pkt.buf with
  | none => []
  | some buf => buf.block

/-- Where the bytes that come next have to end: a header at the end of the block, a payload at the
size that was announced. -/
def limit (pkt : IncomingPacket) : Nat :=
  if pkt.bytesToRecv = 0 then pkt.block.length
  else
    match pkt.buf with
    | none => 0
    | some buf => buf.size

/-- So many bytes at `dwBufOffset` end where they have to. -/
def room (pkt : IncomingPacket) (count : Nat) : Bool :=
  decide (pkt.bufOffset + count ≤ pkt.limit)

/-- The bytes are put into the block, and `m_dwOffset` moves on. -/
def take (pkt : IncomingPacket) (chunk : List UInt8) : IncomingPacket :=
  { pkt with
    offset := pkt.offset + chunk.length
    buf := pkt.buf.map fun buf => buf.fill pkt.bufOffset chunk }

/-- The payload is what comes next. -/
def sized (pkt : IncomingPacket) (header : PacketHeader) : IncomingPacket :=
  { pkt with
    header := header
    bytesToRecv := header.size
    buf := pkt.buf.map fun buf => buf.resize header.size }

/-- The end of a round behind the header or in the payload, where `count` bytes were taken. -/
def settled (pkt : IncomingPacket) (asked count : Nat) : IncomingPacket × Int :=
  if count < asked then ({ pkt with bytesToRecv := pkt.bytesToRecv - count }, statusPending)
  else ({ pkt with bytesToRecv := 0, offset := 0 }, statusSuccess)

/-- A round of `FillPacket` on a descriptor. -/
def readRound (pkt : IncomingPacket) (wire : List UInt8) (gives : Nat) : FillRound :=
  if maxBytesPerTransfer < pkt.asked then ⟨wire, pkt, true, some eInval⟩
  else
    let count := min gives (min pkt.asked wire.length)
    let inside := pkt.prepared.room pkt.asked
    if count = 0 ∧ pkt.asked ≠ 0 then ⟨wire, pkt.prepared, inside, some statusPending⟩
    else
      let after := pkt.prepared.take (wire.take count)
      let left := wire.drop count
      if after.offset < packetHeaderSize then ⟨left, after, inside, some statusPending⟩
      else if after.offset = packetHeaderSize ∧ after.bytesToRecv = 0 then
        match PacketHeader.deserialize after.block packetHeaderSize with
        | .error ret => ⟨left, after, inside, some ret⟩
        | .ok header => ⟨left, after.sized header, inside, none⟩
      else
        ⟨left, (after.settled pkt.asked count).1, inside, some (after.settled pkt.asked count).2⟩

/-- `FillPacket` on a descriptor, with the answers of the socket. -/
def fillPacketFd (pkt : IncomingPacket) (wire : List UInt8) : List Nat → FillCall
  | [] =>
    let round := pkt.readRound wire 0
    ⟨round.left, round.pkt, round.inside, round.ret.getD statusPending⟩
  | gives :: answers =>
    let round := pkt.readRound wire gives
    match round.ret with
    | some ret => ⟨round.left, round.pkt, round.inside, ret⟩
    | none =>
      let call := round.pkt.fillPacketFd round.left answers
      ⟨call.left, call.pkt, round.inside && call.inside, call.ret⟩

/-- A round of `FillPacket` on a buffer. -/
def copyRound (pkt : IncomingPacket) (buf : List UInt8) : FillRound :=
  if maxBytesPerTransfer < pkt.asked then ⟨buf, pkt, true, some eInval⟩
  else
    let count := min pkt.asked buf.length
    let inside := pkt.prepared.room count
    let after := pkt.prepared.take (buf.take count)
    let left := buf.drop count
    if after.offset < packetHeaderSize then ⟨left, after, inside, some statusPending⟩
    else if after.offset = packetHeaderSize ∧ after.bytesToRecv = 0 then
      match PacketHeader.deserialize after.block packetHeaderSize with
      | .error ret => ⟨left, after, inside, some ret⟩
      | .ok header =>
        if maxBytesPerTransfer < header.size then
          ⟨left, { after with header := header }, inside, some eProto⟩
        else if header.size = 0 then ⟨left, { after with header := header }, inside, some eProto⟩
        else ⟨left, after.sized header, inside, none⟩
    else
      ⟨left, (after.settled pkt.asked count).1, inside, some (after.settled pkt.asked count).2⟩

/-- The rounds of `FillPacket` on a buffer, if they are enough. -/
def copyRounds : Nat → IncomingPacket → List UInt8 → Option FillCall
  | 0, _, _ => none
  | rounds + 1, pkt, buf =>
    let round := pkt.copyRound buf
    match round.ret with
    | some ret => some ⟨round.left, round.pkt, round.inside, ret⟩
    | none =>
      (copyRounds rounds round.pkt round.left).map fun call =>
        ⟨call.left, call.pkt, round.inside && call.inside, call.ret⟩

/-- `FillPacket` on a buffer: a header and a payload. -/
def fillPacket (pkt : IncomingPacket) (buf : List UInt8) : Option FillCall :=
  if buf = [] then some ⟨buf, pkt, true, eInval⟩ else copyRounds 2 pkt buf

end IncomingPacket

/-- A connection that is read: `m_pPackReceiving`, the bytes that are not taken yet, the packets
that came out, and the error that ended the stream. `inside` says that no call wrote
outside of its buffer. -/
structure Reader where
  pkt : IncomingPacket
  left : List UInt8
  packets : List (PacketHeader × List UInt8)
  failed : Option Int
  inside : Bool
deriving DecidableEq

namespace Reader

/-- `OnReceive` behind a call: an error ends the stream. A packet is handed on; where there is
no stream for it, the object is used again with its buffer. -/
def called (reader : Reader) (call : FillCall) (left : List UInt8) (keeps : Bool) : Reader :=
  if call.ret = statusPending then
    { reader with pkt := call.pkt, left := left, inside := reader.inside && call.inside }
  else if isError call.ret then
    { reader with
      pkt := .new
      left := left
      failed := some call.ret
      inside := reader.inside && call.inside }
  else
    { reader with
      pkt := if keeps then call.pkt else .new
      left := left
      packets := reader.packets ++ [(call.pkt.header, (call.pkt.buf.map (·.payload)).getD [])]
      inside := reader.inside && call.inside }

/-- A call on the descriptor, with the answers of the socket. -/
def stepFd (reader : Reader) (label : List Nat × Bool) : Option Reader :=
  if reader.failed.isSome then none
  else
    let call := reader.pkt.fillPacketFd reader.left label.1
    some (reader.called call call.left label.2)

/-- A call on a buffer that holds so many of the bytes. -/
def stepBuf (reader : Reader) (label : Nat × Bool) : Option Reader :=
  if reader.failed.isSome ∨ reader.left.take label.1 = [] then none
  else
    (reader.pkt.fillPacket (reader.left.take label.1)).map fun call =>
      reader.called call (call.left ++ reader.left.drop label.1) label.2

end Reader

/-- A connection with a descriptor, and all the bytes that will come in. -/
def fdMachine (input : List UInt8) : Machine Reader (List Nat × Bool) where
  start := ⟨.new, input, [], none, true⟩
  step := Reader.stepFd

/-- A connection that gets buffers, and all the bytes that will come in. -/
def bufMachine (input : List UInt8) : Machine Reader (Nat × Bool) where
  start := ⟨.new, input, [], none, true⟩
  step := Reader.stepBuf

end RpcFrmwrk.Rpc
