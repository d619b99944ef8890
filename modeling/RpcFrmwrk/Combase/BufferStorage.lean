import Mathlib.Data.List.TakeDrop
import RpcFrmwrk.Combase.Buffer
import RpcFrmwrk.Library.Machine
import RpcFrmwrk.Library.Splice

/-! The storage of a `CBuffer`, in the object itself or in a block of its own. Memory never runs
out; what was not written yet is taken for zeros. Owns `Resize` and `ResizeWithOffset`, with every
move between the two kinds of storage; `Append`, `Attach`, `Detach` and the moves of the window;
`BufState.step`, one call, and the record of the calls. -/

namespace RpcFrmwrk

open RpcFrmwrk.Library

/-- `sizeof( m_arrBuf )`. -/
def arrSize : Nat := 48

/-- What `m_pData` points to: nothing, `m_arrBuf`, or a block of its own. -/
inductive BufData where
  | null
  | arr
  | heap (block : List UInt8)
deriving DecidableEq, Repr

/-- `CBuffer` of type `DataTypeMem`: `m_pData`, `m_arrBuf`, `m_dwSize`, `m_dwOffset`, `m_dwTailOff`
and `BUFFLAG_NOFREE`. -/
structure BufStore where
  data : BufData
  arr : List UInt8
  actSize : Nat
  offset : Nat
  tailOff : Nat
  noFree : Bool
deriving DecidableEq, Repr

namespace BufStore

def new : BufStore := ⟨.null, List.replicate arrSize 0, 0, 0, 0, false⟩

/-- The bytes behind `m_pData`. -/
def bytes (buf : BufStore) : List UInt8 :=
  match buf.data with
  | .null => []
  | .arr => buf.arr
  | .heap block => block

def size (buf : BufStore) : Nat := sub32 buf.tailOff buf.offset

/-- `GetShadowSize`. -/
def shadowSize (buf : BufStore) : Nat := sub32 buf.actSize buf.tailOff

/-- `size()` bytes from `ptr()`. -/
def window (buf : BufStore) : List UInt8 := slice buf.bytes buf.offset buf.size

def setBuffer (buf : BufStore) (data : BufData) (size : Nat) : BufStore :=
  { buf with data := data, actSize := size, offset := 0, tailOff := size }

/-- `SetBuffer( m_arrBuf, dwSize )` behind a copy to its front. -/
def toArr (buf : BufStore) (copied : List UInt8) (size : Nat) : BufStore :=
  { buf with arr := splice buf.arr 0 copied }.setBuffer .arr size

/-- `SetBuffer( pData, dwSize )` for a new block, behind a copy to its front. -/
def toHeap (buf : BufStore) (copied : List UInt8) (size : Nat) : BufStore :=
  buf.setBuffer (.heap (splice (List.replicate size 0) 0 copied)) size

/-- `ResizeWithOffset`, unless it fails. The copy is made where it says so. -/
def resizeWithOffset (buf : BufStore) (size : Nat) : Option BufStore :=
  if size = 0 ∨ maxBytesPerBuffer < size then none
  else if size = buf.size then some buf
  else
    let copied := buf.window.take (min buf.size size)
    let moved := if 0 < min buf.size size ∧ 0 < buf.offset then copied else []
    if size ≤ arrSize ∧ buf.actSize ≤ arrSize then some (buf.toArr moved size)
    else if arrSize < size ∧ buf.actSize ≤ arrSize then
      if buf.data ≠ .arr then none else some (buf.toHeap copied size)
    else if arrSize < buf.actSize ∧ size ≤ arrSize then
      if buf.data = .arr then none else some (buf.toArr copied size)
    else if buf.data = .arr then none
    else
      let block := splice buf.bytes 0 moved
      some (buf.setBuffer (.heap (if buf.actSize < size then block.takeD size 0 else block)) size)

/-- What a call answers; `Detach` gives out the block with its size, its offset and its tail. -/
inductive Ret where
  | status (ret : Status)
  | errorState
  | thrown
  | block (data : BufData) (actSize offset tailOff : Nat)
deriving DecidableEq, Repr

def resize (buf : BufStore) (size : Nat) : Ret × BufStore :=
  if maxBytesPerBuffer < size then (.status .e2big, buf)
  else if buf.noFree then (.status .eacces, buf)
  else if size = 0 then (.status .success, buf.setBuffer .null 0)
  else if 0 < buf.offset ∨ 0 < buf.shadowSize then
    match buf.resizeWithOffset size with
    | none => (.thrown, buf)
    | some after => (.status .success, after)
  else if size = buf.size then (.status .success, buf)
  else if size ≤ arrSize ∧ buf.size ≤ arrSize then (.status .success, buf.setBuffer .arr size)
  else if arrSize < size ∧ buf.size ≤ arrSize then
    (.status .success, buf.toHeap (buf.arr.take buf.size) size)
  else if arrSize < buf.size ∧ size ≤ arrSize then
    (.status .success, buf.toArr (buf.window.take size) size)
  else (.status .success, buf.setBuffer (.heap (buf.bytes.takeD size 0)) size)

/-- `memcpy` to a position behind `m_pData`. -/
def write (buf : BufStore) (start : Nat) (items : List UInt8) : BufStore :=
  match buf.data with
  | .null => buf
  | .arr => { buf with arr := splice buf.arr start items }
  | .heap block => { buf with data := .heap (splice block start items) }

def append (buf : BufStore) (block : List UInt8) : Ret × BufStore :=
  if buf.noFree then (.status .eacces, buf)
  else if bufMaxSize < block.length ∨ block.length = 0 then (.status .einval, buf)
  else
    match buf.resize ((buf.size + block.length) % 4294967296) with
    | (.status .success, after) =>
      (.status .success, after.write (after.offset + buf.size) block)
    | (ret, after) => (ret, after)

def setOffset (buf : BufStore) (offset : Nat) : Ret × BufStore :=
  if buf.data = .null then (.errorState, buf)
  else if buf.tailOff < offset then (.status .einval, buf)
  else (.status .success, { buf with offset := offset })

def setTailOff (buf : BufStore) (size : Nat) : BufStore :=
  { buf with tailOff := max (min size buf.actSize) buf.offset }

def setWinSize (buf : BufStore) (size : Nat) : BufStore :=
  buf.setTailOff ((buf.offset + size) % 4294967296)

def incOffset (buf : BufStore) (count : Nat) : Ret × BufStore :=
  buf.setOffset ((buf.offset + count) % 4294967296)

def slideWindow (buf : BufStore) (size : Nat) : Ret × BufStore :=
  (buf.setWinSize ((buf.size + size) % 4294967296)).incOffset buf.size

def detach (buf : BufStore) : Ret × BufStore :=
  if buf.data = .arr then (.status .eacces, buf)
  else
    (.block buf.data buf.actSize buf.offset buf.tailOff, { buf with data := .arr, actSize := 0 })

/-- `Attach`; the old storage is given up first. -/
def attach (buf : BufStore) (block : List UInt8) (offset tailOff : Nat) : Ret × BufStore :=
  if block.length < arrSize then (.status .eacces, buf)
  else
    let held := { (buf.resize 0).2 with data := .heap block, actSize := block.length }
    (.status .success, (held.setOffset offset).2.setTailOff tailOff)

end BufStore

inductive BufCall where
  | append (block : List UInt8)
  | resize (size : Nat)
  | setOffset (offset : Nat)
  | incOffset (count : Nat)
  | setTailOff (size : Nat)
  | setWinSize (size : Nat)
  | slideWindow (size : Nat)
  | attach (block : List UInt8) (offset tailOff : Nat)
  | detach
deriving DecidableEq, Repr

/-- The numbers of a call are of type `guint32`. -/
def BufCall.Valid : BufCall → Prop
  | .append block => block.length < 4294967296
  | .resize size | .setOffset size | .incOffset size | .setTailOff size | .setWinSize size
  | .slideWindow size => size < 4294967296
  | .attach block offset tailOff =>
    block.length < 4294967296 ∧ offset < 4294967296 ∧ tailOff < 4294967296
  | .detach => True

instance BufCall.decidableValid (call : BufCall) : Decidable call.Valid :=
  match call with
  | .append block => inferInstanceAs (Decidable (block.length < 4294967296))
  | .resize size | .setOffset size | .incOffset size | .setTailOff size | .setWinSize size
  | .slideWindow size => inferInstanceAs (Decidable (size < 4294967296))
  | .attach block offset tailOff =>
    inferInstanceAs
      (Decidable (block.length < 4294967296 ∧ offset < 4294967296 ∧ tailOff < 4294967296))
  | .detach => isTrue trivial

def BufStore.call (buf : BufStore) : BufCall → BufStore.Ret × BufStore
  | .append block => buf.append block
  | .resize size => buf.resize size
  | .setOffset offset => buf.setOffset offset
  | .incOffset count => buf.incOffset count
  | .setTailOff size => (.status .success, buf.setTailOff size)
  | .setWinSize size => (.status .success, buf.setWinSize size)
  | .slideWindow size => buf.slideWindow size
  | .attach block offset tailOff => buf.attach block offset tailOff
  | .detach => buf.detach

/-- A call that was made: the call in front of it, the buffer before and after, and the answer. -/
structure BufEntry where
  earlier : Option BufCall
  call : BufCall
  before : BufStore
  ret : BufStore.Ret
  after : BufStore
deriving DecidableEq, Repr

/-- A buffer and the calls so far. -/
structure BufState where
  buf : BufStore
  earlier : Option BufCall
  entries : List BufEntry
deriving DecidableEq, Repr

def BufState.step (state : BufState) (call : BufCall) : Option BufState :=
  if call.Valid then
    some
      ⟨(state.buf.call call).2, some call,
        state.entries ++
          [⟨state.earlier, call, state.buf, (state.buf.call call).1, (state.buf.call call).2⟩]⟩
  else none

/-- A buffer that has just been made. -/
def bufStoreMachine : Machine BufState BufCall where
  start := ⟨.new, none, []⟩
  step := BufState.step

end RpcFrmwrk
