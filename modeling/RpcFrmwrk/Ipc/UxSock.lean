import Mathlib.Data.List.TakeDrop
import RpcFrmwrk.Combase.Buffer
import RpcFrmwrk.Ipc.FlowControl
import RpcFrmwrk.Ipc.Irp
import RpcFrmwrk.Library.BigEndian

/-! The packets of a stream on a unix socket, from one end to the other. The socket answers every
`send` or `read` with a count: zero stands for `EAGAIN`, any other count is cut to what is asked for
and what is there. Owns `CSendQue`: `OnIoReady`, `WriteStream`, `SendPingPong` and `SendClose`;
`CRecvFilter`: `OnIoReady` and `ReadStream`; `UxState.step`, one call at one of the ends. -/

namespace RpcFrmwrk.Ipc

open RpcFrmwrk.Library

/-- `STM_MAX_BYTES_PER_BUF`. -/
def stmMaxBytesPerBuf : Nat := 64512

/-- `( guint32 )-1`, the offset while no packet is under way. -/
def noOffset : Nat := 4294967295

/-- `EnumPktToken`. -/
inductive PktToken where
  | data
  | ping
  | pong
  | close
  | progress
  | flowCtrl
  | lift
  | error
deriving DecidableEq, Repr

namespace PktToken

def toByte : PktToken → UInt8
  | .data => 1
  | .ping => 2
  | .pong => 3
  | .close => 4
  | .progress => 5
  | .flowCtrl => 6
  | .lift => 7
  | .error => 8

def ofByte (byte : UInt8) : Option PktToken :=
  if byte = 1 then some .data
  else if byte = 2 then some .ping
  else if byte = 3 then some .pong
  else if byte = 4 then some .close
  else if byte = 5 then some .progress
  else if byte = 6 then some .flowCtrl
  else if byte = 7 then some .lift
  else if byte = 8 then some .error
  else none

def isCommand : PktToken → Bool
  | .ping | .pong | .close | .flowCtrl | .lift => true
  | _ => false

theorem ofByte_toByte (token : PktToken) : ofByte token.toByte = some token := by
  cases token <;> rfl

theorem toByte_of_ofByte {byte : UInt8} {token : PktToken} (known : ofByte byte = some token) :
    token.toByte = byte := by
  cases token <;> grind [ofByte, toByte]

end PktToken

/-- `STM_PACKET`. -/
structure StmPacket where
  token : PktToken
  data : Option (List UInt8)
deriving DecidableEq, Repr

/-- `dwSize`. -/
def StmPacket.size (pkt : StmPacket) : Nat :=
  match pkt.data with
  | none => 0
  | some data => data.length

/-- `CSendQue`. -/
structure SendQue where
  bytesToWrite : Nat
  offsetWrite : Nat
  bytesPending : Nat
  restBytes : Nat
  blockSent : Nat
  queue : List StmPacket
deriving DecidableEq, Repr

inductive SendState where
  | tok
  | size
  | payload
deriving DecidableEq, Repr

namespace SendQue

def new : SendQue := ⟨0, noOffset, 0, 0, 0, []⟩

/-- `GetSendState`. -/
def sendState (que : SendQue) : SendState :=
  if que.bytesToWrite = 0 then
    if que.offsetWrite = noOffset then .tok else .size
  else .payload

def pktSize (que : SendQue) : Nat :=
  min (sub32 que.restBytes (stmMaxBytesPerBuf * que.blockSent % 4294967296)) stmMaxBytesPerBuf

/-- One `send` of `OnIoReady`, and what leads to the next one: the bytes that were sent
and, if there is no next one, the return code. What lies behind the end of a buffer is
taken for zeros. -/
def next (que : SendQue) (took : Nat) : List UInt8 × SendQue × Option Int :=
  match que.queue with
  | [] => ([], que, some eNoEnt)
  | pkt :: rest =>
    -- The head of the loop, where `m_dwRestBytes` is zero in front of a packet only.
    let que := if que.restBytes = 0 then { que with restBytes := pkt.size } else que
    match que.sendState with
    | .tok =>
      if took = 0 then ([], que, some eAgain)
      else if pkt.token.isCommand then
        let que := { que with bytesPending := sub32 que.bytesPending 1, queue := rest }
        ([pkt.token.toByte], que, if 0 < que.restBytes then none else some statusSuccess)
      else if pkt.token ≠ .data ∧ pkt.token ≠ .progress then
        ([pkt.token.toByte], que, some eBadMsg)
      else if pkt.token ≠ .data ∧ stmMaxBytesPerBuf < pkt.size then
        ([pkt.token.toByte], que, some eBadMsg)
      else ([pkt.token.toByte], { que with offsetWrite := 0 }, none)
    | .size =>
      let left := 4 - que.offsetWrite
      let count := min took left
      let bytes := ((toBE 4 que.pktSize).drop que.offsetWrite).take count
      if took = 0 then ([], que, some eAgain)
      else if count = left then
        (bytes, { que with offsetWrite := 0, bytesToWrite := que.pktSize }, none)
      else (bytes, { que with offsetWrite := que.offsetWrite + count }, none)
    | .payload =>
      match pkt.data with
      | none => ([], que, some eFault)
      | some data =>
        let left := sub32 que.pktSize que.offsetWrite
        let count := min took left
        let bytes :=
          (data.drop (que.blockSent * stmMaxBytesPerBuf + que.offsetWrite)).takeD count 0
        if left < que.bytesToWrite then ([], que, some eRange)
        else if took = 0 then ([], que, some eAgain)
        else if count = left then
          let que :=
            { que with
              offsetWrite := noOffset
              bytesToWrite := 0
              bytesPending := sub32 que.bytesPending (1 + 4 + que.pktSize)
              restBytes := sub32 que.restBytes que.pktSize }
          if 0 < que.restBytes then (bytes, { que with blockSent := que.blockSent + 1 }, none)
          else (bytes, { que with queue := rest }, some statusSuccess)
        else
          (bytes,
            { que with
              bytesToWrite := que.bytesToWrite - count
              offsetWrite := que.offsetWrite + count }, none)

/-- `OnIoReady`, with the answers of the socket. -/
def onIoReady (que : SendQue) : List Nat → List UInt8 × SendQue × Int
  | [] =>
    let (bytes, que, ret) := que.next 0
    (bytes, que, ret.getD eAgain)
  | took :: answers =>
    match que.next took with
    | (bytes, que, some ret) => (bytes, que, ret)
    | (bytes, que, none) =>
      let (more, que, ret) := que.onIoReady answers
      (bytes ++ more, que, ret)

/-- `OnIoReady` on behalf of a caller that waits for the rest. -/
def start (que : SendQue) (answers : List Nat) : List UInt8 × SendQue × Int :=
  let (bytes, que, ret) := que.onIoReady answers
  (bytes, que, if ret = eAgain then statusPending else ret)

/-- `SendPingPong` or `SendClose`. -/
def sendCommand (que : SendQue) (token : PktToken) (answers : List Nat) :
    List UInt8 × SendQue × Int :=
  let que :=
    { que with
      queue := que.queue ++ [StmPacket.mk token none]
      bytesPending := (que.bytesPending + 1) % 4294967296 }
  que.start answers

def sendPingPong (que : SendQue) (ping : Bool) (answers : List Nat) : List UInt8 × SendQue × Int :=
  que.sendCommand (if ping then .ping else .pong) answers

def sendClose (que : SendQue) (answers : List Nat) : List UInt8 × SendQue × Int :=
  que.sendCommand .close answers

def writeStream (que : SendQue) (data : List UInt8) (token : PktToken) (answers : List Nat) :
    List UInt8 × SendQue × Int :=
  let que :=
    { que with
      queue := que.queue ++ [StmPacket.mk token (some data)]
      bytesPending := (que.bytesPending + (1 + 4 + data.length)) % 4294967296 }
  if 1 < que.queue.length then ([], que, statusPending) else que.start answers

end SendQue

/-! ### Receiving -/

/-- `CRecvFilter`. A buffer has the size it is set to; what was not read yet is zero. -/
structure RecvFilter where
  bytesToRead : Nat
  offsetRead : Nat
  bytesPending : Nat
  token : Option PktToken
  queBufRead : List (List UInt8)
deriving DecidableEq, Repr

inductive RecvState where
  | tok
  | size
  | data
deriving DecidableEq, Repr

namespace RecvFilter

def new : RecvFilter := ⟨0, noOffset, 0, none, []⟩

/-- `GetRecvState`. -/
def recvState (filter : RecvFilter) : RecvState :=
  if filter.bytesToRead = 0 then
    if filter.offsetRead = noOffset then .tok else .size
  else .data

/-- The end of `OnIoReady` with an error. -/
def fail (filter : RecvFilter) : RecvFilter :=
  { filter with bytesToRead := 0, offsetRead := noOffset }

def fill (buf bytes : List UInt8) (offset : Nat) : List UInt8 :=
  buf.take offset ++ bytes ++ buf.drop (offset + bytes.length)

/-- One `read` of `OnIoReady`, and what leads to the next one: the bytes that are left in
the socket and, if there is no next one, the return code or the token. -/
def next (filter : RecvFilter) (wire : List UInt8) (gives : Nat) :
    List UInt8 × RecvFilter × Option (Except Int PktToken) :=
  match filter.recvState with
  | .tok =>
    match wire with
    | [] => (wire, filter, some (.error eAgain))
    | byte :: wire' =>
      if gives = 0 then (wire, filter, some (.error eAgain))
      else
        match PktToken.ofByte byte with
        | none => (wire', { filter with token := none }.fail, some (.error eBadMsg))
        | some token =>
          let filter := { filter with token := some token }
          if token.isCommand then (wire', filter, some (.ok token))
          else if token ≠ .data ∧ token ≠ .progress then
            (wire', filter.fail, some (.error eBadMsg))
          else
            (wire',
              { filter with
                offsetRead := 0
                queBufRead := filter.queBufRead ++ [List.replicate 4 0] }, none)
  | .size =>
    match filter.queBufRead.getLast? with
    | none => (wire, filter.fail, some (.error eFault))
    | some buf =>
      let left := 4 - filter.offsetRead
      let count := min gives (min left wire.length)
      let buf := fill buf (wire.take count) filter.offsetRead
      if count = 0 then (wire, filter, some (.error eAgain))
      else if count = left then
        let size := ofBE buf
        if stmMaxBytesPerBuf < size ∨ size = 0 then
          (wire.drop count,
            { filter with queBufRead := filter.queBufRead.dropLast ++ [buf] }.fail,
            some (.error eBadMsg))
        else
          (wire.drop count,
            { filter with
              bytesToRead := size
              offsetRead := 0
              queBufRead := filter.queBufRead.dropLast ++ [List.replicate size 0] }, none)
      else
        (wire.drop count,
          { filter with
            offsetRead := filter.offsetRead + count
            queBufRead := filter.queBufRead.dropLast ++ [buf] }, none)
  | .data =>
    match filter.queBufRead.getLast? with
    | none => (wire, filter.fail, some (.error eFault))
    | some buf =>
      let left := sub32 buf.length filter.offsetRead
      let count := min gives (min left wire.length)
      let bufs := filter.queBufRead.dropLast ++ [fill buf (wire.take count) filter.offsetRead]
      if left < filter.bytesToRead then (wire, filter.fail, some (.error eRange))
      else if count = 0 then (wire, filter, some (.error eAgain))
      else if count = left then
        (wire.drop count,
          { bytesToRead := 0
            offsetRead := noOffset
            bytesPending := (filter.bytesPending + buf.length) % 4294967296
            token := none
            queBufRead := bufs },
          match filter.token with
          | none => some (.error statusSuccess)
          | some token => some (.ok token))
      else
        (wire.drop count,
          { filter with
            bytesToRead := filter.bytesToRead - count
            offsetRead := filter.offsetRead + count
            queBufRead := bufs }, none)

/-- `OnIoReady`, with the answers of the socket. -/
def onIoReady (filter : RecvFilter) (wire : List UInt8) :
    List Nat → List UInt8 × RecvFilter × Except Int PktToken
  | [] =>
    let (wire, filter, ret) := filter.next wire 0
    (wire, filter, ret.getD (.error eAgain))
  | gives :: answers =>
    match filter.next wire gives with
    | (wire, filter, some ret) => (wire, filter, ret)
    | (wire, filter, none) => filter.onIoReady wire answers

def readStream (filter : RecvFilter) : Except Int (List UInt8) × RecvFilter :=
  match filter.queBufRead with
  | [] => (.error eNoEnt, filter)
  | buf :: rest =>
    if rest = [] ∧ filter.recvState ≠ .tok then (.error eNoEnt, filter)
    else
      (.ok buf,
        { filter with
          queBufRead := rest
          bytesPending := sub32 filter.bytesPending buf.length })

/-- What `CIoWatchTask` makes of a token: a data or a progress packet is read from the
filter. -/
def deliver (filter : RecvFilter) (token : PktToken) : Except Int StmPacket × RecvFilter :=
  if token = .data ∨ token = .progress then
    match filter.readStream with
    | (.error ret, filter) => (.error ret, filter)
    | (.ok buf, filter) => (.ok ⟨token, some buf⟩, filter)
  else (.ok ⟨token, none⟩, filter)

end RecvFilter

/-- Both ends and the bytes between them; the packets that were given to the sending end and
those that came out, in order; and the errors other than `-EAGAIN` and `-ENOENT`. -/
structure UxState where
  send : SendQue
  wire : List UInt8
  recv : RecvFilter
  submitted : List StmPacket
  received : List StmPacket
  faults : List Int
deriving DecidableEq, Repr

/-- `WriteStream`, `SendPingPong` or `SendClose` at the sending end, with the answers of
the socket; the socket is ready to send, or to read. -/
inductive UxMove where
  | writeStream (data : List UInt8) (progress : Bool) (answers : List Nat)
  | sendPingPong (ping : Bool) (answers : List Nat)
  | sendClose (answers : List Nat)
  | sendReady (answers : List Nat)
  | recvReady (answers : List Nat)
deriving DecidableEq, Repr

namespace UxState

def sent (state : UxState) (pkts : List StmPacket) (call : List UInt8 × SendQue × Int) : UxState :=
  { state with
    wire := state.wire ++ call.1
    send := call.2.1
    submitted := state.submitted ++ pkts
    faults := if isError call.2.2 ∧ call.2.2 ≠ eAgain ∧ call.2.2 ≠ eNoEnt then state.faults ++ [call.2.2]
      else state.faults }

def got (state : UxState) (call : List UInt8 × RecvFilter × Except Int PktToken) : UxState :=
  match call with
  | (wire, filter, .error ret) =>
    { state with
      wire := wire
      recv := filter
      faults := if ret = eAgain then state.faults else state.faults ++ [ret] }
  | (wire, filter, .ok token) =>
    match filter.deliver token with
    | (.error ret, filter) =>
      { state with wire := wire, recv := filter, faults := state.faults ++ [ret] }
    | (.ok pkt, filter) =>
      { state with wire := wire, recv := filter, received := state.received ++ [pkt] }

def step (state : UxState) : UxMove → Option UxState
  | .writeStream data progress answers =>
    let token : PktToken := if progress then .progress else .data
    if 0 < data.length ∧
        data.length ≤ (if progress then stmMaxBytesPerBuf else maxBytesPerTransfer) then
      some (state.sent [⟨token, some data⟩] (state.send.writeStream data token answers))
    else none
  | .sendPingPong ping answers =>
    some (state.sent [⟨if ping then .ping else .pong, none⟩] (state.send.sendPingPong ping answers))
  | .sendClose answers => some (state.sent [⟨.close, none⟩] (state.send.sendClose answers))
  | .sendReady answers => some (state.sent [] (state.send.onIoReady answers))
  | .recvReady answers => some (state.got (state.recv.onIoReady state.wire answers))

end UxState

/-- A socket that has just been opened. -/
def uxMachine : Machine UxState UxMove where
  start := ⟨.new, [], .new, [], [], []⟩
  step := UxState.step

end RpcFrmwrk.Ipc
