import RpcFrmwrk.Combase.Buffer
import RpcFrmwrk.Ipc.FlowControl
import RpcFrmwrk.Library.BytesAt

/-! The packets of the security filter. The two ends share a session: what one of them wraps or
signs the other unwraps or verifies. A buffer stands for its bytes from the offset on. The lower
ports carry the bytes in order, and a receive event brings any of them. The upper port has one
listen request at a time, the first context of which is that of the filter. The filter is built with
its checks on. Owns `DoEncrypt`, `BuildSingedMsg`, `GetPktCached`, `DecryptPkt` and
`VerifySignedMsg`; `SubmitIoctlCmd`, `CompleteListeningIrp` and `SetProperty` of `CRpcSecFido`;
`secLink`, the steps of a connection in one direction. -/

namespace RpcFrmwrk.Rpc

open RpcFrmwrk.Library
open RpcFrmwrk.Ipc

/-- `ENC_PACKET_MAGIC`. -/
def encPacketMagic : Nat := 0x63655350

/-- `CLEAR_PACKET_MAGIC`. -/
def clearPacketMagic : Nat := 0x454C4350

/-- `SIGNED_PACKET_MAGIC`. -/
def signedPacketMagic : Nat := 0x4E475350

/-- The objects of a session at its two ends. What is wrapped fits in a buffer behind the header
of a packet. -/
structure Authenticate where
  wrapMessage : List UInt8 → Option (List UInt8)
  unwrapMessage : List UInt8 → Option (List UInt8)
  getMicMsg : List UInt8 → Option (List UInt8)
  verifyMicMsg : List UInt8 → List UInt8 → Bool
  unwrap_wrap : ∀ payload wrapped, wrapMessage payload = some wrapped → unwrapMessage wrapped = some payload
  verify_mic : ∀ payload mic, getMicMsg payload = some mic → verifyMicMsg payload mic = true
  wrapped_fits : ∀ payload wrapped, wrapMessage payload = some wrapped → 8 + wrapped.length ≤ maxBytesPerBuffer

/-- The security context: `propNoEnc` and `propSignMsg`. -/
structure SecCtx where
  noEnc : Bool
  signMsg : Bool
deriving DecidableEq, Repr

/-- `EncEnabled`. -/
def encEnabled : Option SecCtx → Bool
  | some ctx => !ctx.noEnc
  | none => false

/-- `SEC_PACKET_HEADER`. -/
def secPacketHeader (magic size : Nat) : List UInt8 := toBE 4 magic ++ toBE 4 size

/-- `BuildSingedMsg`. -/
def buildSignedMsg (auth : Authenticate) (payload : List UInt8) : Option (List UInt8) :=
  (auth.getMicMsg payload).bind fun mic =>
    if 65536 < 8 + 2 + mic.length then none
    else
      some (secPacketHeader signedPacketMagic (mic.length + payload.length + 2) ++
        (toBE 2 mic.length ++ mic ++ payload))

/-- `DoEncrypt` and `EncEnabled` of a write request: the packet, unless the request is refused. -/
def doEncrypt (auth : Authenticate) (secCtx : Option SecCtx) (bufs : List (List UInt8)) : Option (List UInt8) :=
  let payload := bufs.flatten
  if bufs = [] ∨ bufs.any List.isEmpty then none
  else if maxBytesPerTransfer < 8 + payload.length then none
  else
    match secCtx with
    | some ctx =>
      if ctx.noEnc then some (secPacketHeader clearPacketMagic payload.length ++ payload)
      else if ctx.signMsg then buildSignedMsg auth payload
      else
        (auth.wrapMessage payload).map fun wrapped =>
          secPacketHeader encPacketMagic wrapped.length ++ wrapped
    | none => some (secPacketHeader clearPacketMagic payload.length ++ payload)

/-- What `GetPktCached` finds: not all of a packet, no packet, or one and what is behind it. -/
inductive PktCached where
  | again
  | badMagic
  | packet (bytes rest : List UInt8) (encrypted : Bool)
deriving DecidableEq, Repr

/-- `GetPktCached`. -/
def getPktCached (inBuf : List UInt8) : PktCached :=
  if inBuf.length < 8 then .again
  else
    let magic := ofBE (inBuf.take 4)
    let pktSize := (ofBE ((inBuf.drop 4).take 4) + 8) % 2 ^ 32
    let cached := fun encrypted =>
      if pktSize ≤ inBuf.length then PktCached.packet (inBuf.take pktSize) (inBuf.drop pktSize) encrypted else .again
    if magic = encPacketMagic ∨ magic = signedPacketMagic then cached true
    else if magic = clearPacketMagic then cached false
    else .badMagic

/-- `VerifySignedMsg`. -/
def verifySignedMsg (auth : Authenticate) (inBuf : List UInt8) : Option (List UInt8) :=
  if inBuf = [] then none
  else
    let micSize := ofBE (inBuf.take 2)
    if inBuf.length ≤ micSize then none
    else
      let payload := inBuf.drop (2 + micSize)
      if auth.verifyMicMsg payload ((inBuf.drop 2).take micSize) then some payload else none

/-- `DecryptPkt`. -/
def decryptPkt (auth : Authenticate) (secCtx : Option SecCtx) (inBuf : List UInt8) (encrypted : Bool) :
    Option (List UInt8) :=
  if inBuf.length < 8 then none
  else if encEnabled secCtx ≠ encrypted then none
  else if !encrypted then some (inBuf.drop 8)
  else
    match secCtx with
    | none => none
    | some ctx =>
      let magic := ofBE (inBuf.take 4)
      if !ctx.signMsg ∧ magic = signedPacketMagic ∨ ctx.signMsg ∧ magic = encPacketMagic then none
      else if ctx.signMsg then verifySignedMsg auth (inBuf.drop 8)
      else auth.unwrapMessage (inBuf.drop 8)

/-- `SecCtxState`. -/
inductive SecCtxState where
  | wait
  | completing
  | ready
deriving DecidableEq, Repr

/-- Where the listen request is. A request that is parked holds a packet; it is resumed when the
deferred `CompleteIrp` runs. A request that is lost has a context copied from an empty stack. -/
inductive ListenState where
  | idle
  | atLower
  | parked (packet : List UInt8)
  | resuming (packet : List UInt8)
  | lost
deriving DecidableEq, Repr

/-- `CRpcSecFido` as a receiver. The last field records the payloads, and the errors, of completed
listen requests. -/
structure SecFido where
  inBuf : List UInt8
  waitSecCtx : SecCtxState
  secCtx : Option SecCtx
  listening : ListenState
  handed : List (Option (List UInt8))
deriving DecidableEq, Repr

/-- `m_pInBuf` of a receive event: a buffer, or a list of them. -/
inductive SockEvent where
  | single (buf : List UInt8)
  | list (bufs : List (List UInt8))
deriving DecidableEq, Repr

def SockEvent.bufs : SockEvent → List (List UInt8)
  | .single buf => [buf]
  | .list bufs => bufs

namespace SecFido

def new : SecFido := ⟨[], .wait, none, .idle, []⟩

/-- A listen request is completed. -/
def complete (fido : SecFido) (payload : Option (List UInt8)) : SecFido :=
  { fido with listening := .idle, handed := fido.handed ++ [payload] }

def appendAll (inBuf : List UInt8) (bufs : List (List UInt8)) : List UInt8 :=
  bufs.foldl (fun inBuf buf => (appendBuf inBuf buf).getD inBuf) inBuf

/-- `m_pInBuf` with the bytes of an event behind it. -/
def gather (inBuf : List UInt8) : SockEvent → Option (List UInt8)
  | .single buf => if inBuf = [] then some buf else appendBuf inBuf buf
  | .list [] => none
  | .list (first :: rest) =>
    if inBuf = [] then some (appendAll first rest) else some (appendAll inBuf (first :: rest))

/-- `CompleteListeningIrp` with an event. The request goes down again as long as the packet is not
complete. -/
def completeListeningIrp (auth : Authenticate) (fido : SecFido) (event : SockEvent) : SecFido :=
  match gather fido.inBuf event with
  | none => fido.complete none
  | some inBuf =>
    match getPktCached inBuf with
    | .badMagic => { fido with inBuf := inBuf }.complete none
    | .again => { fido with inBuf := inBuf, listening := .atLower }
    | .packet packet rest encrypted =>
      if encrypted ∧ fido.waitSecCtx = .wait then { fido with inBuf := rest, listening := .parked packet }
      else
        let waitSecCtx := if encrypted ∧ fido.waitSecCtx = .completing then .ready else fido.waitSecCtx
        { fido with inBuf := rest, waitSecCtx := waitSecCtx }.complete
          (decryptPkt auth fido.secCtx packet encrypted)

/-- `SubmitIoctlCmd` of a listen request. -/
def submitIoctlCmd (auth : Authenticate) (fido : SecFido) : SecFido :=
  match getPktCached fido.inBuf with
  | .badMagic => fido.complete none
  | .again => { fido with listening := .atLower }
  | .packet packet rest encrypted =>
    -- `PopCtxStack` takes away the only context, which `AllocNextStack` is to copy
    if encrypted ∧ fido.waitSecCtx = .wait then { fido with inBuf := rest, listening := .lost }
    else if encrypted ∧ fido.waitSecCtx = .completing then { fido with inBuf := rest }.complete none
    else { fido with inBuf := rest }.complete (decryptPkt auth fido.secCtx packet encrypted)

/-- `SetProperty` of `propSecCtx`. -/
def setSecCtx (fido : SecFido) (ctx : SecCtx) : SecFido :=
  match fido.listening with
  | .parked packet => { fido with secCtx := some ctx, waitSecCtx := .completing, listening := .resuming packet }
  | .lost => { fido with secCtx := some ctx, waitSecCtx := .completing }
  | _ => { fido with secCtx := some ctx, waitSecCtx := .ready }

end SecFido

/-- A packet on its way, with the payload that was written. -/
structure SecPacket where
  payload : List UInt8
  bytes : List UInt8
  encrypted : Bool
deriving DecidableEq, Repr

/-- One direction of a connection. `sent` and `clears` record the packets written, and how many of
them before the writer had its context. -/
structure SecLink where
  writerCtx : Option SecCtx
  sent : List SecPacket
  clears : Nat
  wire : List UInt8
  fido : SecFido
deriving DecidableEq, Repr

inductive SecMove where
  | write (bufs : List (List UInt8))
  | setWriterCtx
  | listen
  | receive (event : SockEvent)
  | setSecCtx
  | resume
deriving DecidableEq, Repr

namespace SecLink

def write (auth : Authenticate) (link : SecLink) (bufs : List (List UInt8)) : SecLink :=
  match doEncrypt auth link.writerCtx bufs with
  | none => link
  | some bytes =>
    { link with
      sent := link.sent ++ [⟨bufs.flatten, bytes, encEnabled link.writerCtx⟩]
      clears := if link.writerCtx = none then link.clears + 1 else link.clears
      wire := link.wire ++ bytes }

/-- The context is set at the reader once the last clear packet is handed up. -/
def setSecCtx (ctx : SecCtx) (link : SecLink) : Option SecLink :=
  if link.fido.secCtx = none ∧ (ctx.noEnc ∨ link.writerCtx ≠ none ∧ link.clears ≤ link.fido.handed.length) then
    some { link with fido := link.fido.setSecCtx ctx }
  else none

def step (auth : Authenticate) (ctx : SecCtx) (link : SecLink) : SecMove → Option SecLink
  | .write bufs => some (link.write auth bufs)
  | .setWriterCtx => if link.writerCtx = none then some { link with writerCtx := some ctx } else none
  | .listen =>
    if link.fido.listening = .idle then some { link with fido := link.fido.submitIoctlCmd auth } else none
  | .receive event =>
    if link.fido.listening = .atLower ∧ event.bufs ≠ [] ∧ (∀ buf ∈ event.bufs, buf ≠ []) ∧
        event.bufs.flatten.isPrefixOf link.wire then
      some { link with
        wire := link.wire.drop event.bufs.flatten.length
        fido := link.fido.completeListeningIrp auth event }
    else none
  | .setSecCtx => link.setSecCtx ctx
  | .resume =>
    match link.fido.listening with
    | .resuming packet => some { link with fido := link.fido.completeListeningIrp auth (.single packet) }
    | _ => none

end SecLink

/-- A connection whose two ends get the same context. -/
def secLink (auth : Authenticate) (ctx : SecCtx) : Machine SecLink SecMove where
  start := ⟨none, [], 0, [], .new⟩
  step := SecLink.step auth ctx

end RpcFrmwrk.Rpc
