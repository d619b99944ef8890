import RpcFrmwrk.Combase.Buffer
import RpcFrmwrk.Ipc.FlowControl
import RpcFrmwrk.Ipc.Irp
import RpcFrmwrk.Library.BigEndian

/-! The frames of the web socket port. A buffer stands for its bytes from the offset on. A listen
request that finds no payload goes down again with the next receive event, and one that is completed
makes room for the next. A read behind the tail of a buffer finds nothing. Owns `makeFrame` and
`getFrame` of `WebSocket`; `CRpcWebSockFido::EncodeAndSend`, `ReceiveData` and
`CompleteListeningIrp`. -/

namespace RpcFrmwrk.Rpc

open RpcFrmwrk.Library
open RpcFrmwrk.Ipc

/-- `WebSocketFrameType`, as far as `getFrame` returns it. -/
inductive WebSocketFrameType where
  | errorFrame
  | incompleteFrame
  | incompleteTextFrame
  | incompleteBinaryFrame
  | textFrame
  | binaryFrame
  | pingFrame
  | pongFrame
  | closeFrame
deriving DecidableEq, Repr

/-- `BINARY_FRAME`. -/
def binaryFrame : UInt8 := 0x82

/-- `PING_FRAME`. -/
def pingFrame : UInt8 := 0x19

/-- `PONG_FRAME`. -/
def pongFrame : UInt8 := 0x1A

def maxFramePayload : Nat := 1024 * 1024

/-- `makeFrame` behind what the buffer holds. -/
def makeFrame (frameType : UInt8) (msg : List UInt8) : List UInt8 :=
  let size := msg.length
  if size ≤ 125 then [frameType, UInt8.ofNat size] ++ msg
  else if size ≤ 65535 then [frameType, 126] ++ toBE 2 size ++ msg
  else [frameType, 127] ++ [0, 0, 0, 0] ++ toBE 4 size ++ msg

/-- The frame header of `EncodeAndSend`. -/
def frameHeader (size : Nat) : List UInt8 :=
  if size < 126 then [binaryFrame, UInt8.ofNat size]
  else if size < 65536 then [binaryFrame, 126] ++ toBE 2 size
  else [binaryFrame, 126] ++ [0, 0, 0, 0] ++ toBE 4 size

/-- `EncodeAndSend`: the header and the buffers go down in one request. -/
def encodeAndSend (bufs : List (List UInt8)) : List UInt8 :=
  frameHeader ((bufs.map List.length).sum % 2 ^ 32) ++ bufs.flatten

def payloadLength (src : List UInt8) : Nat × Nat :=
  let lengthField := ((src.drop 1).head?.getD 0).toNat % 128
  if lengthField ≤ 125 then (lengthField, 2)
  else if lengthField = 126 then (ofBE ((src.drop 2).take 2), 4)
  else
    -- an `int` with the sign bit set widens to a `size_t`
    let word := ofBE ((src.drop 6).take 4)
    (if word < 2 ^ 31 then word else word + (2 ^ 64 - 2 ^ 32), 10)

def unmask (mask : List UInt8) (payload : List UInt8) : List UInt8 :=
  payload.mapIdx fun place byte => byte ^^^ mask.getD (place % 4) 0

def frameTypeOf (first : UInt8) : WebSocketFrameType :=
  let fin := first.toNat / 128 = 1
  match first.toNat % 16 with
  | 0 | 1 => if fin then .textFrame else .incompleteTextFrame
  | 2 => if fin then .binaryFrame else .incompleteBinaryFrame
  | 9 => .pingFrame
  | 10 => .pongFrame
  | 8 => .closeFrame
  | _ => .errorFrame

/-- `getFrame`: the type, what is left of the source and the destination. -/
def getFrame (src dest : List UInt8) : WebSocketFrameType × List UInt8 × List UInt8 :=
  if src.length < 3 then (.incompleteFrame, src, dest)
  else
    let first := src.head?.getD 0
    let masked := ((src.drop 1).head?.getD 0).toNat / 128 = 1
    let (payload, pos) := payloadLength src
    if src.length < (payload + pos) % 2 ^ 64 then (.incompleteFrame, src, dest)
    else
      let start := if masked then pos + 4 else pos
      let bytes := (src.drop start).take payload
      let plain := if masked then unmask ((src.drop pos).take 4) bytes else bytes
      let src := src.take start ++ plain ++ src.drop (start + payload)
      if maxFramePayload < payload then (.errorFrame, src, dest)
      else
        let frameSize := start + payload
        if src.length = frameSize ∧ dest = [] then (frameTypeOf first, [], src.drop start)
        else
          match appendBuf dest plain with
          | none => (.errorFrame, src, dest)
          | some dest =>
            if src.length < frameSize then (.errorFrame, src, dest)
            else (frameTypeOf first, src.drop frameSize, dest)

/-- `CRpcWebSockFido` as a receiver. `curFrame` is `m_pCurFrame`. The last fields record what
completed listen requests hand up and what the pong tasks send. -/
structure WebSockFido where
  curFrame : List UInt8
  failed : Bool
  closed : Bool
  handed : List (List UInt8)
  pongs : List (List UInt8)
deriving DecidableEq, Repr

namespace WebSockFido

def new : WebSockFido := ⟨[], false, false, [], []⟩

/-- The loop of `CompleteListeningIrp` with the payload decoded so far. The fuel is the
length of the bytes: every frame takes some. -/
def decodeFrames : Nat → WebSockFido → List UInt8 → WebSockFido
  | 0, fido, _ => { fido with failed := true }
  | fuel + 1, fido, decrypted =>
    let (frameType, src, decrypted) := getFrame fido.curFrame decrypted
    let fido := { fido with curFrame := src }
    match frameType with
    | .incompleteFrame | .incompleteTextFrame | .incompleteBinaryFrame =>
      if decrypted = [] then fido else { fido with handed := fido.handed ++ [decrypted] }
    | .textFrame | .binaryFrame =>
      if src = [] then { fido with handed := fido.handed ++ [decrypted] }
      else decodeFrames fuel fido decrypted
    | .closeFrame => { fido with closed := true }
    | .pingFrame => decodeFrames fuel { fido with pongs := fido.pongs ++ [decrypted] } decrypted
    | .pongFrame => decodeFrames fuel fido decrypted
    | .errorFrame => { fido with failed := true }

/-- `ReceiveData` and `CompleteListeningIrp` of one receive event. -/
def completeListeningIrp (fido : WebSockFido) (buf : List UInt8) : WebSockFido :=
  if fido.failed ∨ fido.closed then fido
  else if buf = [] then { fido with failed := true }
  else
    let received := if fido.curFrame = [] then some buf else appendBuf fido.curFrame buf
    match received with
    | none => { fido with failed := true }
    | some curFrame => decodeFrames (curFrame.length + 1) { fido with curFrame := curFrame } []

def receiveAll (events : List (List UInt8)) : WebSockFido :=
  events.foldl completeListeningIrp new

end WebSockFido

end RpcFrmwrk.Rpc
