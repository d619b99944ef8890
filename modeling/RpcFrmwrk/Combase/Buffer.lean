import Mathlib.Algebra.Order.Ring.Nat
import Mathlib.Data.List.Basic
import RpcFrmwrk.Combase.Status

/-! The memory window of `CBuffer`. Owns the allocated bytes and the window offset, with the offset
inside the block; `setOffset`, `incOffset`, `append` and the serializer's `APPEND` macro; `cursor`,
the buffer seen as the bytes before and after its offset. -/

namespace RpcFrmwrk

open List

/-- `MAX_BYTES_PER_BUFFER`, the largest size `Resize` grants. -/
def maxBytesPerBuffer : Nat := 16 * 1024 * 1024

/-- `BUF_MAX_SIZE`, the largest block `Append` takes. -/
def bufMaxSize : Nat := 512 * 1024 * 1024

/-- Subtraction of `guint32` values. -/
def sub32 (left right : Nat) : Nat := (left + (2 ^ 32 - right % 2 ^ 32)) % 2 ^ 32

theorem sub32_of_le {left right : Nat} (ordered : right ≤ left) (small : left < 2 ^ 32) :
    sub32 left right = left - right := by
  unfold sub32
  rw [Nat.mod_eq_of_lt (by omega : right < 2 ^ 32)]
  omega

/-- A `CBuffer` of type `DataTypeMem`: its block and `m_dwOffset`. -/
structure CBuffer where
  data : List UInt8
  offset : Nat
  bounded : offset ≤ data.length

namespace CBuffer

@[ext] theorem ext {left right : CBuffer} (data : left.data = right.data)
    (offset : left.offset = right.offset) : left = right := by
  cases left
  cases right
  simp_all

def empty : CBuffer := ⟨[], 0, Nat.le_refl 0⟩

/-- The bytes from `ptr()` to the tail. -/
def ptr (buf : CBuffer) : List UInt8 := buf.data.drop buf.offset

def size (buf : CBuffer) : Nat := buf.data.length - buf.offset

/-- `SetOffset`: an offset behind the tail is refused and nothing changes. -/
def setOffset (buf : CBuffer) (offset : Nat) : CBuffer :=
  if bounded : offset ≤ buf.data.length then ⟨buf.data, offset, bounded⟩ else buf

def incOffset (buf : CBuffer) (count : Nat) : CBuffer :=
  buf.setOffset (buf.offset + count)

/-- `Append`: grow the window by `block`. Growing moves the window to the base
of the block, so the bytes before the offset are lost. -/
def append (buf : CBuffer) (block : List UInt8) : Status × CBuffer :=
  if block.length = 0 ∨ bufMaxSize < block.length then (.einval, buf)
  else if maxBytesPerBuffer < buf.size + block.length then (.e2big, buf)
  else (.success, ⟨buf.ptr ++ block, 0, Nat.zero_le _⟩)

/-- The `APPEND` macro of the serializer. It drops the status of `Append`. -/
def appendAtTail (buf : CBuffer) (block : List UInt8) : CBuffer :=
  ((buf.setOffset 0).append block).2.setOffset (buf.offset + block.length)

/-- `memcpy` of `bytes` to the position `start` of the block. A copy that would
leave the block is not modelled and changes nothing. -/
def patch (buf : CBuffer) (start : Nat) (bytes : List UInt8) : CBuffer :=
  if inside : start + bytes.length ≤ buf.data.length then
    ⟨buf.data.take start ++ bytes ++ buf.data.drop (start + bytes.length), buf.offset, by
      have bounded := buf.bounded
      simp only [List.length_append, List.length_take, List.length_drop]
      omega⟩
  else buf

/-- The buffer whose offset stands between `before` and `after`. -/
def cursor (before after : List UInt8) : CBuffer :=
  ⟨before ++ after, before.length, by simp⟩

@[simp] theorem data_cursor (before after : List UInt8) : (cursor before after).data = before ++ after := rfl

@[simp] theorem offset_cursor (before after : List UInt8) : (cursor before after).offset = before.length := rfl

@[simp] theorem ptr_cursor (before after : List UInt8) : (cursor before after).ptr = after := by
  simp [ptr, cursor]

@[simp] theorem size_cursor (before after : List UInt8) : (cursor before after).size = after.length := by
  simp [size, cursor]

theorem incOffset_cursor (before block after : List UInt8) :
    (cursor before (block ++ after)).incOffset block.length = cursor (before ++ block) after := by
  apply ext <;> simp [incOffset, setOffset]

theorem incOffset_cursor_of_length {before block after : List UInt8} {count : Nat}
    (length : block.length = count) :
    (cursor before (block ++ after)).incOffset count = cursor (before ++ block) after := by
  subst length
  exact incOffset_cursor before block after

theorem setOffset_zero_cursor (before after : List UInt8) :
    (cursor before after).setOffset 0 = cursor [] (before ++ after) := by
  apply ext <;> simp [setOffset]

/-- At the tail, and within the size limit, `APPEND` writes its block and moves
the offset behind it. -/
theorem appendAtTail_cursor {before block : List UInt8} (nonempty : block ≠ [])
    (fits : before.length + block.length ≤ maxBytesPerBuffer) :
    (cursor before []).appendAtTail block = cursor (before ++ block) [] := by
  have positive : 0 < block.length := length_pos_of_ne_nil nonempty
  have small : ¬ bufMaxSize < block.length := by
    unfold bufMaxSize
    unfold maxBytesPerBuffer at fits
    omega
  have granted : ¬ maxBytesPerBuffer < (cursor [] (before ++ [])).size + block.length := by
    simpa using fits
  rw [appendAtTail, setOffset_zero_cursor, append, if_neg (not_or.2 ⟨by omega, small⟩), if_neg granted]
  apply ext <;> simp [setOffset]

theorem length_data_append {buf : CBuffer} {block : List UInt8}
    (within : buf.data.length ≤ maxBytesPerBuffer) :
    (buf.append block).2.data.length ≤ maxBytesPerBuffer := by
  unfold append
  split
  · exact within
  · split
    · exact within
    · rename_i granted
      simp only [length_append, ptr, length_drop]
      simp only [size] at granted
      omega

@[simp] theorem data_setOffset (buf : CBuffer) (offset : Nat) : (buf.setOffset offset).data = buf.data := by
  unfold setOffset
  split <;> rfl

theorem length_data_appendAtTail {buf : CBuffer} (block : List UInt8)
    (within : buf.data.length ≤ maxBytesPerBuffer) :
    (buf.appendAtTail block).data.length ≤ maxBytesPerBuffer := by
  rw [appendAtTail, data_setOffset]
  apply length_data_append
  rw [data_setOffset]
  exact within

@[simp] theorem length_data_patch (buf : CBuffer) (start : Nat) (bytes : List UInt8) :
    (buf.patch start bytes).data.length = buf.data.length := by
  unfold patch
  split
  · simp only [length_append, length_take, length_drop]
    omega
  · rfl

theorem patch_cursor (before old new after : List UInt8) (length : old.length = new.length) :
    (cursor (before ++ (old ++ after)) []).patch before.length new = cursor (before ++ (new ++ after)) [] := by
  have inside : before.length + new.length ≤ (cursor (before ++ (old ++ after)) []).data.length := by
    simp only [data_cursor, append_nil, length_append]
    omega
  rw [patch, dif_pos inside]
  apply ext
  · simp [← length, drop_append, drop_eq_nil_of_le]
  · simp [length]

end CBuffer

/-- `Append` to the bytes that are left of a buffer. -/
def appendBuf (buf block : List UInt8) : Option (List UInt8) :=
  if block.length = 0 ∨ bufMaxSize < block.length then none
  else if maxBytesPerBuffer < buf.length + block.length then none
  else some (buf ++ block)

theorem appendBuf_of_fits {buf block : List UInt8} (some : block ≠ [])
    (fits : buf.length + block.length ≤ maxBytesPerBuffer) : appendBuf buf block = .some (buf ++ block) := by
  have limit : maxBytesPerBuffer ≤ bufMaxSize := by decide
  have positive := length_pos_of_ne_nil some
  rw [appendBuf, if_neg (by omega), if_neg (by omega)]

theorem appendBuf_some {buf block appended : List UInt8} (took : appendBuf buf block = some appended) :
    appended = buf ++ block := by
  unfold appendBuf at took
  split at took
  · cases took
  · split at took
    · cases took
    · exact (Option.some.inj took).symm

end RpcFrmwrk
