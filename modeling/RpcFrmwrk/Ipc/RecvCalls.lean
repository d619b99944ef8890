import RpcFrmwrk.Ipc.RespMap
import RpcFrmwrk.Ipc.UxSockRuns

/-! The calls of `CRecvFilter` on a stream that ends. A `read` is answered with a count: zero stands
for `EAGAIN`, and any other count is cut to what is asked for and what is there. Behind the last
byte it is the end of file. Owns `Front`, what the bytes of a stream say of the packet at its front;
`nextOrEnd`, one `read` of `OnIoReady` with the end of file, and where it writes to;
`RecvCalls.step`, one `read` of the call under way, or `ReadStream`. -/

namespace RpcFrmwrk.Ipc

open RpcFrmwrk.Library

/-- What is known of the packet at the front. -/
inductive Front where
  | part
  | packet (token : PktToken) (payload : Option (List UInt8))
  | bad
deriving DecidableEq, Repr

/-- A token; behind the token of a data packet a size and as many bytes. -/
def front : List UInt8 → Front
  | [] => .part
  | byte :: rest =>
    match PktToken.ofByte byte with
    | none => .bad
    | some token =>
      if token.isCommand then .packet token none
      else if token ≠ .data ∧ token ≠ .progress then .bad
      else if rest.length < 4 then .part
      else if stmMaxBytesPerBuf < ofBE (rest.take 4) ∨ ofBE (rest.take 4) = 0 then .bad
      else if rest.length < 4 + ofBE (rest.take 4) then .part
      else .packet token (some ((rest.drop 4).take (ofBE (rest.take 4))))

namespace RecvFilter

/-- One `read` of `OnIoReady`, where the stream ends behind the bytes of the wire. `first` is
`bFirst`. -/
def nextOrEnd (filter : RecvFilter) (first : Bool) (wire : List UInt8) (gives : Nat) :
    List UInt8 × RecvFilter × Option (Except Int PktToken) :=
  if wire = [] ∧ gives ≠ 0 then
    match filter.recvState with
    | .tok => (wire, filter.fail, some (.error eNotConn))
    | .size =>
      match filter.queBufRead.getLast? with
      | none => (wire, filter.fail, some (.error eFault))
      | some _ =>
        if first then (wire, filter.fail, some (.error eNotConn)) else (wire, filter, none)
    | .data =>
      match filter.queBufRead.getLast? with
      | none => (wire, filter.fail, some (.error eFault))
      | some buf =>
        if sub32 buf.length filter.offsetRead < filter.bytesToRead then
          (wire, filter.fail, some (.error eRange))
        else if first then (wire, filter.fail, some (.error eNotConn)) else (wire, filter, none)
  else filter.next wire gives

/-- The buffer that the next `read` writes to, the offset and the count. The token does not
go to a buffer. -/
def target (filter : RecvFilter) : Option (List UInt8 × Nat × Nat) :=
  match filter.recvState with
  | .tok => none
  | .size => filter.queBufRead.getLast?.map fun buf => (buf, filter.offsetRead, 4 - filter.offsetRead)
  | .data =>
    filter.queBufRead.getLast?.map fun buf =>
      (buf, filter.offsetRead, sub32 buf.length filter.offsetRead)

end RecvFilter

/-- A call of `OnIoReady` that has not returned. -/
structure RecvCall where
  first : Bool
  reads : Nat
deriving DecidableEq, Repr

/-- What a call returned: behind which bytes of the packet, and whether it saw the end of
file. -/
structure RecvAnswer where
  part : List UInt8
  ended : Bool
  ret : Except Int PktToken
deriving DecidableEq

/-- The filter, the bytes that are not read yet, and the bytes of the packet that is under
way. `waiting` says of every buffer of the queue whether its payload is complete.
`completed` are the payloads that came in, `handed` are those that `ReadStream` gave out. -/
structure RecvCalls where
  filter : RecvFilter
  wire : List UInt8
  part : List UInt8
  call : Option RecvCall
  waiting : List (Option (List UInt8))
  answers : List RecvAnswer
  completed : List (List UInt8)
  handed : List (List UInt8)
deriving DecidableEq

inductive RecvMove where
  | read (gives : Nat)
  | readStream
deriving DecidableEq, Repr

namespace RecvCalls

/-- The call goes on to its next `read`. -/
def goesOn (state : RecvCalls) (call : RecvCall) (wire : List UInt8) (filter : RecvFilter) :
    RecvCalls :=
  { state with
    filter := filter
    wire := wire
    part := state.part ++ state.wire.take (state.wire.length - wire.length)
    call := some ⟨call.first && decide (state.filter.recvState ≠ .tok), call.reads + 1⟩
    waiting := if state.filter.recvState = .tok then state.waiting ++ [none] else state.waiting }

def returns (state : RecvCalls) (part wire : List UInt8) (filter : RecvFilter) (ended : Bool)
    (ret : Except Int PktToken) : RecvCalls :=
  { state with
    filter := filter
    wire := wire
    part := if ret = .error eAgain then part else []
    call := none
    answers := state.answers ++ [⟨part, ended, ret⟩]
    waiting :=
      match front part with
      | .packet _ (some payload) => state.waiting.dropLast ++ [some payload]
      | _ => state.waiting
    completed :=
      match front part with
      | .packet _ (some payload) => state.completed ++ [payload]
      | _ => state.completed }

def step (state : RecvCalls) : RecvMove → Option RecvCalls
  | .read gives =>
    let call := state.call.getD ⟨true, 0⟩
    match state.filter.nextOrEnd call.first state.wire gives with
    | (wire, filter, none) => some (state.goesOn call wire filter)
    | (wire, filter, some ret) =>
      some (state.returns (state.part ++ state.wire.take (state.wire.length - wire.length)) wire filter
        (decide (state.wire = [] ∧ gives ≠ 0)) ret)
  | .readStream =>
    if state.call.isSome then none
    else
      match state.filter.readStream with
      | (.error _, filter) => some { state with filter := filter }
      | (.ok buf, filter) =>
        some
          { state with
            filter := filter
            waiting := state.waiting.tail
            handed := state.handed ++ [buf] }

end RecvCalls

/-- A socket that has just been opened, and all the bytes that will come in. -/
def recvMachine (input : List UInt8) : Machine RecvCalls RecvMove where
  start := ⟨.new, input, [], none, [], [], [], []⟩
  step := RecvCalls.step

end RpcFrmwrk.Ipc
