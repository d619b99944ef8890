import RpcFrmwrk.Combase.Buffer
import RpcFrmwrk.Fuse.JsonMsg
import RpcFrmwrk.Library.BigEndian
import RpcFrmwrk.Library.Machine

/-! The messages that a writer puts into a request or response file of `rpcfs`. A call stands at the
start of its vector of buffers, and no other call clears the file while a message is dispatched. A
block of memory in a vector stands for its bytes, and a fresh block of a pipe for what it holds
before it is read into. Owns `CopyFromPipe`, `CopyFromBufVec` and `GetReqSize`; `fs_write_buf` of
`CFuseReqFileProxy` and of `CFuseRespFileSvr`, and `fs_release` of both; `WriteFile.step`, one call.
-/

namespace RpcFrmwrk.Fuse

open RpcFrmwrk.Library

/-- `MAX_BYTES_PER_TRANSFER`. -/
def maxBytesPerTransfer : Nat := 1024 * 1024

/-- A buffer of `m_vecOutBufs`: the bytes that are left of it, and `IsNoFree`, whether they stand in memory
that belongs to the call. -/
structure OutBuf where
  bytes : List UInt8
  noFree : Bool
deriving DecidableEq, Repr

/-- `NewBufNoAlloc`. A block of less than 128 bytes is copied. -/
def newBufNoAlloc (bytes : List UInt8) : OutBuf := ⟨bytes, decide (128 ≤ bytes.length)⟩

/-- `IncOffset`. -/
def OutBuf.incOffset (buf : OutBuf) (count : Nat) : OutBuf := { buf with bytes := buf.bytes.drop count }

/-- The copy that is kept of a buffer. -/
def OutBuf.copied (buf : OutBuf) : OutBuf := { buf with noFree := false }

def bytesOf (bufs : List OutBuf) : List UInt8 := bufs.flatMap OutBuf.bytes

/-- What one `read` of a pipe answers. -/
inductive PipeRead where
  | bytes (block : List UInt8)
  | failed
deriving DecidableEq, Repr

/-- A `fuse_buf`: memory, or a pipe with the fresh block it is read into, `FUSE_BUF_FD_RETRY`, and the answers of
its reads, with the end of the file behind them. -/
inductive FuseBuf where
  | mem (bytes : List UInt8)
  | fd (block : List UInt8) (retry : Bool) (reads : List PipeRead)
deriving DecidableEq, Repr

/-- The loop of `CopyFromPipe`: the bytes copied and what is left of the length, unless the first read fails. -/
def pipeLoop (retry : Bool) : Nat → List UInt8 → List PipeRead → Option (List UInt8 × Nat)
  | len, copied, [] => some (copied, len)
  | len, copied, answer :: more =>
    if len = 0 then some (copied, len)
    else
      match answer with
      | .failed => if copied.isEmpty then none else some (copied, len)
      | .bytes block =>
        let got := block.take len
        if got.isEmpty then some (copied, len)
        else if retry then pipeLoop retry (len - got.length) (copied ++ got) more
        else some (copied ++ got, len)

/-- `CopyFromPipe`. The block is cut to what was copied if that is less than what is left of the length. -/
def copyFromPipe (block : List UInt8) (retry : Bool) (reads : List PipeRead) : Option (List UInt8) :=
  if maxBytesPerBuffer < block.length then none
  else
    (pipeLoop retry block.length [] reads).map fun (copied, len) =>
      if copied.length < len then copied else copied ++ block.drop copied.length

/-- `CopyFromBufVec`: the buffers behind those of the file, and whether every one was read. -/
def copyFromBufVec (vecBuf : List OutBuf) : List FuseBuf → List OutBuf × Bool
  | [] => (vecBuf, true)
  | .mem bytes :: more => copyFromBufVec (vecBuf ++ [newBufNoAlloc bytes]) more
  | .fd block retry reads :: more =>
    match copyFromPipe block retry reads with
    | none => (vecBuf, false)
    | some bytes =>
      if bytes.isEmpty then copyFromBufVec vecBuf more
      else copyFromBufVec (vecBuf ++ [⟨bytes, false⟩]) more

/-- The length of a `fuse_buf`. -/
def FuseBuf.size : FuseBuf → Nat
  | .mem bytes => bytes.length
  | .fd block _ _ => block.length

/-- The bytes a `fuse_buf` gives, unless it can not be read. -/
def FuseBuf.given : FuseBuf → Option (List UInt8)
  | .mem bytes => some bytes
  | .fd block retry reads =>
    if maxBytesPerBuffer < block.length then none else (pipeLoop retry block.length [] reads).map Prod.fst

/-- The bytes a call gives, up to a buffer that can not be read. -/
def givenBytes : List FuseBuf → List UInt8
  | [] => []
  | buf :: more =>
    match buf.given with
    | none => []
    | some bytes => bytes ++ givenBytes more

/-- The vector of a call. The kernel writes less than 2 GiB at once. -/
structure BufVec where
  bufs : List FuseBuf
  small : (bufs.map FuseBuf.size).sum < 2 ^ 31

/-! ### The size and the bytes of a message -/

/-- The loop of `GetReqSize`: the size word, the buffers behind it, and the bytes that are missing. -/
def fillReqSize : Nat → List UInt8 → List OutBuf → List UInt8 × List OutBuf × Nat
  | dwCopy, reqSize, [] => (reqSize, [], dwCopy)
  | dwCopy, reqSize, elem :: rest =>
    if elem.bytes.length ≤ dwCopy then
      let missing := dwCopy - elem.bytes.length
      if missing = 0 then (reqSize ++ elem.bytes, rest, 0) else fillReqSize missing (reqSize ++ elem.bytes) rest
    else (reqSize ++ elem.bytes.take dwCopy, elem.incOffset dwCopy :: rest, 0)

/-- `GetReqSize`. A size word that is too long is an error. -/
def getReqSize (reqSize : List UInt8) (vecBufs : List OutBuf) : Option (List UInt8 × List OutBuf × Nat) :=
  if reqSize.length = 4 then some (reqSize, vecBufs, 0)
  else if 4 < reqSize.length then none
  else some (fillReqSize (4 - reqSize.length) reqSize vecBufs)

/-- The loop that takes the bytes of a message out of the buffers. -/
def takeReq : Nat → List OutBuf → List OutBuf × List OutBuf
  | _, [] => ([], [])
  | dwToAdd, elem :: rest =>
    if elem.bytes.length ≤ dwToAdd then
      let more := dwToAdd - elem.bytes.length
      if 0 < more then
        let taken := takeReq more rest
        (elem :: taken.1, taken.2)
      else ([elem], rest)
    else ([newBufNoAlloc (elem.bytes.take dwToAdd)], elem.incOffset dwToAdd :: rest)

/-- `Append` of a buffer. Its error is not looked at. -/
def appendElem (bytes : List UInt8) (elem : OutBuf) : List UInt8 := (appendBuf bytes elem.bytes).getD bytes

/-- The single buffer that is made of the buffers of a message. There is none of an empty list. -/
def mergeBufs : List OutBuf → Option (List UInt8)
  | [] => none
  | [front] => some front.bytes
  | front :: second :: rest =>
    some (if front.noFree then (front :: second :: rest).foldl appendElem []
      else (second :: rest).foldl appendElem front.bytes)

/-- How a file answers a message: with an error, with an exception, or with the next message. -/
inductive Handled where
  | refused (taskIds : List Nat)
  | raised
  | taken (taskIds : List Nat)

/-- What `fs_write_buf` of `CFuseReqFileProxy` does with a request, where `dispatched` is the answer of
`DispatchReq`. -/
def handleReq (taskIds : List Nat) (valReq : JsonValue) (dispatched : Int) : Handled :=
  match valReq.isMember attrReqCtxId with
  | none => .raised
  | some false => .refused taskIds
  | some true =>
    match (valReq.get attrReqCtxId).asUInt64? with
    | none => .refused taskIds
    | some _ => if dispatched < 0 then .refused taskIds else .taken taskIds

def respTaskId (reqCtxId : JsonValue) : Option Nat :=
  match reqCtxId.asUInt64? with
  | some taskId => some taskId
  | none => reqCtxId.asString?.bind taskIdOfCtx

/-- What `fs_write_buf` of `CFuseRespFileSvr` does with a response or an event, where `dispatched` is the answer
of `DispatchMsg`. A response to a request that is gone is not dispatched. -/
def handleResp (taskIds : List Nat) (valResp : JsonValue) (dispatched : Int) : Handled :=
  match valResp.isMember attrMsgType with
  | none => .raised
  | some false => .refused taskIds
  | some true =>
    match (valResp.get attrMsgType).asString? with
    | none => .refused taskIds
    | some strType =>
      if valResp.isMember attrReqCtxId = some true then
        match respTaskId (valResp.get attrReqCtxId) with
        | none => .refused taskIds
        | some taskId =>
          let bResp := strType != "evt".toList
          if bResp && !taskIds.contains taskId then .taken taskIds
          else
            let taskIds := if bResp then taskIds.erase taskId else taskIds
            if dispatched < 0 then .refused taskIds else .taken taskIds
      else .refused taskIds

/-- A file that is written. The last fields record whether a call used an empty list or did not return, and
the bytes received and the messages handed to the reader since a write has returned an error. -/
structure WriteFile where
  reqSize : List UInt8
  outBufs : List OutBuf
  taskIds : List Nat
  broken : Bool
  received : List UInt8
  parsed : List (List UInt8)
deriving DecidableEq, Repr

/-- How a turn of the loop of `fs_write_buf` ends. -/
inductive Turn where
  | again
  | done
  | failed
  | broken
deriving DecidableEq, Repr

namespace WriteFile

def new : WriteFile := ⟨[], [], [], false, [], []⟩

section

variable (parse : List UInt8 → Parsed) (handle : List Nat → JsonValue → Int → Handled)

def handMsg (file : WriteFile) (msg : List UInt8) (dispatched : Int) : Turn × WriteFile :=
  let file := { file with parsed := file.parsed ++ [msg] }
  match parse msg with
  | .refused => (.failed, file)
  | .raised => (.broken, file)
  | .value val =>
    match handle file.taskIds val dispatched with
    | .refused taskIds => (.failed, { file with taskIds := taskIds })
    | .raised => (.broken, file)
    | .taken taskIds =>
      (if file.outBufs.isEmpty then .done else .again, { file with reqSize := [], taskIds := taskIds })

def takeMsg (file : WriteFile) (dispatched : Int) : Turn × WriteFile :=
  let dwReqSize := ofBE file.reqSize
  if maxBytesPerTransfer * 2 < dwReqSize then (.failed, file)
  else
    let dwAvail := (bytesOf file.outBufs).length % 2 ^ 32
    if dwAvail < dwReqSize then (.done, { file with outBufs := file.outBufs.map OutBuf.copied })
    else
      let taken := takeReq dwReqSize file.outBufs
      match mergeBufs taken.1 with
      | none => (.broken, file)
      | some msg => handMsg parse handle { file with outBufs := taken.2 } msg dispatched

/-- A turn of the loop of `fs_write_buf`. -/
def turn (file : WriteFile) (dispatched : Int) : Turn × WriteFile :=
  if file.reqSize.length < 4 then
    match getReqSize file.reqSize file.outBufs with
    | none => (.failed, file)
    | some (reqSize, outBufs, missing) =>
      let file := { file with reqSize := reqSize, outBufs := outBufs }
      if 0 < missing then (.done, file) else takeMsg parse handle file dispatched
  else takeMsg parse handle file dispatched

/-- The loop of `fs_write_buf`, with `answers` for the messages that are dispatched. -/
def writeLoop (answers : Nat → Int) : Nat → Nat → WriteFile → Turn × WriteFile
  | 0, _, file => (.broken, file)
  | fuel + 1, index, file =>
    match turn parse handle file (answers index) with
    | (.again, file) => writeLoop answers fuel (index + 1) file
    | ended => ended

/-- `fs_write_buf`. An error of the loop clears what is kept, an error of `CopyFromBufVec` does not. -/
def fsWriteBuf (file : WriteFile) (bufvec : List FuseBuf) (answers : Nat → Int) : WriteFile :=
  let copied := copyFromBufVec file.outBufs bufvec
  let file := { file with outBufs := copied.1, received := file.received ++ givenBytes bufvec }
  if copied.2 then
    match writeLoop parse handle answers (file.reqSize.length + (bytesOf file.outBufs).length + 1) 0 file with
    | (.broken, file) => { file with broken := true }
    | (.failed, file) => { file with reqSize := [], outBufs := [], received := [], parsed := [] }
    | (_, file) => file
  else { file with received := [], parsed := [] }

end

/-- `fs_release`. -/
def fsRelease (file : WriteFile) : WriteFile := { file with reqSize := [], outBufs := [], received := [], parsed := [] }

/-- `AddTaskId`. -/
def addTaskId (file : WriteFile) (taskId : Nat) : WriteFile := { file with taskIds := file.taskIds.insert taskId }

/-- `RemoveTaskId`. -/
def removeTaskId (file : WriteFile) (taskId : Nat) : WriteFile := { file with taskIds := file.taskIds.erase taskId }

end WriteFile

/-- The two classes of files. -/
inductive FileKind where
  | reqFileProxy
  | respFileSvr
deriving DecidableEq, Repr

/-- The part of `fs_write_buf` in which the two classes differ. -/
def FileKind.handle : FileKind → List Nat → JsonValue → Int → Handled
  | .reqFileProxy => handleReq
  | .respFileSvr => handleResp

/-- `CFuseReqFileProxy::fs_write_buf`. -/
def reqFileProxyWrite (parse : List UInt8 → Parsed) (file : WriteFile) (bufvec : BufVec) (answers : Nat → Int) :
    WriteFile :=
  file.fsWriteBuf parse handleReq bufvec.bufs answers

/-- `CFuseRespFileSvr::fs_write_buf`. -/
def respFileSvrWrite (parse : List UInt8 → Parsed) (file : WriteFile) (bufvec : BufVec) (answers : Nat → Int) :
    WriteFile :=
  file.fsWriteBuf parse handleResp bufvec.bufs answers

/-- A call, with the answers for the messages that are dispatched in it. -/
inductive WriteMove where
  | write (bufvec : BufVec) (answers : Nat → Int)
  | addTaskId (taskId : Nat)
  | removeTaskId (taskId : Nat)
  | release

/-- A call. There is none behind a call that did not return. -/
def WriteFile.step (kind : FileKind) (parse : List UInt8 → Parsed) (file : WriteFile) (move : WriteMove) :
    Option WriteFile :=
  if file.broken then none
  else
    match move with
    | .write bufvec answers =>
      some (match kind with
        | .reqFileProxy => reqFileProxyWrite parse file bufvec answers
        | .respFileSvr => respFileSvrWrite parse file bufvec answers)
    | .addTaskId taskId => some (file.addTaskId taskId)
    | .removeTaskId taskId => some (file.removeTaskId taskId)
    | .release => some file.fsRelease

def writeFile (kind : FileKind) (parse : List UInt8 → Parsed) : Machine WriteFile WriteMove :=
  ⟨WriteFile.new, WriteFile.step kind parse⟩

end RpcFrmwrk.Fuse
