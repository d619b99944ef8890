import RpcFrmwrk.Combase.BufferStorage

/-! The window of a `CBuffer` over any sequence of calls. Owns `BufStore.Sound`, what every call
keeps; what `Resize` and `Append` make of the window, wherever it lies; `BufState.Lawful` in the
runs that avoid the calls that go wrong. -/

namespace RpcFrmwrk

open RpcFrmwrk.Library List

/-- The offset is in front of the tail, and the tail inside the allocated bytes. -/
structure BufStore.Bounded (buf : BufStore) : Prop where
  ordered : buf.offset ≤ buf.tailOff
  bounded : buf.tailOff ≤ buf.actSize
  inside : buf.actSize ≤ buf.bytes.length

def BufEntry.Right (entry : BufEntry) : Prop :=
  match entry.call with
  | .append block =>
    if entry.ret = .status .success then entry.after.window = entry.before.window ++ block
    else entry.ret ≠ .thrown ∧ entry.after.window = entry.before.window
  | .resize size =>
    if entry.ret = .status .success then
      entry.after.size = size ∧
        entry.after.window.take (min size entry.before.size) =
          entry.before.window.take (min size entry.before.size)
    else entry.ret ≠ .thrown ∧ entry.after.window = entry.before.window
  | .detach =>
    ∀ block offset tailOff, entry.earlier = some (.attach block offset tailOff) →
      arrSize ≤ block.length → offset ≤ tailOff → tailOff ≤ block.length →
        entry.ret = .block (.heap block) block.length offset tailOff
  | _ => True

structure BufState.Lawful (state : BufState) : Prop where
  bounded : state.buf.Bounded
  right : ∀ entry ∈ state.entries, entry.Right

namespace BufStore

/-- `Resize` to this size does not lose what lies in a block of exactly `arrSize` bytes: it
gives the storage up, changes nothing, or copies. -/
def Keeps (buf : BufStore) (size : Nat) : Prop :=
  buf.data ≠ .arr → buf.actSize = arrSize →
    size = 0 ∨ size = buf.size ∨ maxBytesPerBuffer < size ∨
      (size ≤ arrSize ∧ (0 < buf.offset ∨ buf.size = 0))

instance (buf : BufStore) (size : Nat) : Decidable (buf.Keeps size) :=
  inferInstanceAs (Decidable (buf.data ≠ .arr → buf.actSize = arrSize →
    size = 0 ∨ size = buf.size ∨ maxBytesPerBuffer < size ∨
      (size ≤ arrSize ∧ (0 < buf.offset ∨ buf.size = 0))))

end BufStore

/-- No `Resize` loses a block of exactly `arrSize` bytes, the size behind an `Append` fits in
32 bits, and a block is detached with an empty window at its front only. -/
def BufCall.Fits (buf : BufStore) : BufCall → Prop
  | .append block =>
    0 < block.length → block.length ≤ bufMaxSize →
      buf.size + block.length < 4294967296 ∧ buf.Keeps (buf.size + block.length)
  | .resize size => buf.Keeps size
  | .detach => buf.data = .arr ∨ buf.tailOff = 0
  | _ => True

instance BufCall.decidableFits (buf : BufStore) (call : BufCall) : Decidable (call.Fits buf) :=
  match call with
  | .append block =>
    inferInstanceAs (Decidable (0 < block.length → block.length ≤ bufMaxSize →
      buf.size + block.length < 4294967296 ∧ buf.Keeps (buf.size + block.length)))
  | .resize size => inferInstanceAs (Decidable (buf.Keeps size))
  | .detach => inferInstanceAs (Decidable (buf.data = .arr ∨ buf.tailOff = 0))
  | .setOffset _ | .incOffset _ | .setTailOff _ | .setWinSize _ | .slideWindow _ | .attach _ _ _ =>
    isTrue trivial

namespace BufStore

/-- What every call that fits keeps. -/
structure Sound (buf : BufStore) : Prop extends buf.Bounded where
  small : buf.actSize < 4294967296
  arr : buf.arr.length = arrSize
  free : buf.noFree = false
  heap : ∀ block, buf.data = .heap block → arrSize ≤ buf.actSize

variable {buf : BufStore}

theorem sound_new : new.Sound where
  ordered := Nat.le_refl 0
  bounded := Nat.le_refl 0
  inside := Nat.le_refl 0
  small := Nat.zero_lt_succ _
  arr := length_replicate
  free := rfl
  heap := nofun

theorem Sound.size (sound : buf.Sound) : buf.size = buf.tailOff - buf.offset :=
  sub32_of_le sound.ordered (Nat.lt_of_le_of_lt sound.bounded sound.small)

theorem Sound.shadowSize (sound : buf.Sound) : buf.shadowSize = buf.actSize - buf.tailOff :=
  sub32_of_le sound.bounded sound.small

theorem Sound.inWindow (sound : buf.Sound) : buf.offset + buf.size ≤ buf.bytes.length := by
  have ordered := sound.ordered
  have bounded := sound.bounded
  have inside := sound.inside
  rw [sound.size]
  omega

theorem Sound.length_window (sound : buf.Sound) : buf.window.length = buf.size :=
  length_slice sound.inWindow

theorem Sound.onHeap (sound : buf.Sound) (large : arrSize < buf.actSize) : ∃ block, buf.data = .heap block := by
  have inside := sound.inside
  rw [bytes] at inside
  cases data : buf.data with
  | null =>
    rw [data] at inside
    have none : buf.actSize ≤ 0 := inside
    omega
  | arr =>
    rw [data] at inside
    have most : buf.actSize ≤ buf.arr.length := inside
    rw [sound.arr] at most
    omega
  | heap block => exact ⟨block, rfl⟩

variable {count size start : Nat} {block list items : List UInt8}

theorem take_takeD {α : Type} (list : List α) (fill : α) (within : count ≤ size)
    (inside : count ≤ list.length) : (list.takeD size fill).take count = list.take count := by
  induction count generalizing list size with
  | zero => rfl
  | succ count ih =>
    cases list with
    | nil =>
      rw [length_nil] at inside
      omega
    | cons head tail =>
      cases size with
      | zero => omega
      | succ size =>
        rw [takeD_succ, take_succ_cons, take_succ_cons]
        congr 1
        exact ih tail (Nat.le_of_succ_le_succ within) (Nat.le_of_succ_le_succ inside)

/-- What `Resize` makes of a buffer. -/
structure Resized (buf : BufStore) (size : Nat) (after : BufStore) : Prop where
  sound : after.Sound
  sized : after.size = size
  kept : after.window.take (min buf.size size) = buf.window.take (min buf.size size)

theorem resized_of_front {after : BufStore} (offset : after.offset = 0)
    (tailOff : after.tailOff = size) (actSize : after.actSize = size)
    (inside : size ≤ after.bytes.length) (small : size ≤ maxBytesPerBuffer)
    (arr : after.arr.length = arrSize) (free : after.noFree = false)
    (heap : ∀ block, after.data = .heap block → arrSize ≤ size)
    (kept : after.bytes.take (min buf.size size) = buf.window.take (min buf.size size)) :
    buf.Resized size after := by
  have narrow : size < 4294967296 := Nat.lt_of_le_of_lt small (by decide)
  have sound : after.Sound :=
    { ordered := by omega
      bounded := by omega
      inside := by omega
      small := by omega
      arr := arr
      free := free
      heap := fun block isBlock => actSize.symm ▸ heap block isBlock }
  have same : after.size = size := by
    rw [sound.size, offset, tailOff, Nat.sub_zero]
  refine ⟨sound, same, ?_⟩
  rw [window, slice, offset, same, drop_zero, take_take, Nat.min_eq_left (Nat.min_le_right _ _)]
  exact kept

theorem splice_front {list copied : List UInt8} : (splice list 0 copied).take copied.length = copied := by
  rw [splice, take_zero, nil_append, take_left]

theorem Sound.length_kept (sound : buf.Sound) (size : Nat) :
    (buf.window.take (min buf.size size)).length = min buf.size size :=
  length_take_of_le (sound.length_window ▸ Nat.min_le_left _ _)

theorem Sound.resized_toArr (sound : buf.Sound) (fits : size ≤ arrSize) :
    buf.Resized size (buf.toArr (buf.window.take (min buf.size size)) size) := by
  have length := sound.length_kept size
  have inside : 0 + (buf.window.take (min buf.size size)).length ≤ buf.arr.length := by
    rw [length, sound.arr]
    omega
  have arr : (splice buf.arr 0 (buf.window.take (min buf.size size))).length = arrSize :=
    (length_splice inside).trans sound.arr
  refine resized_of_front rfl rfl rfl ?_ (Nat.le_trans fits (by decide)) arr sound.free nofun ?_
  · show size ≤ (splice buf.arr 0 (buf.window.take (min buf.size size))).length
    omega
  · show (splice buf.arr 0 (buf.window.take (min buf.size size))).take (min buf.size size) = _
    have front := @splice_front buf.arr (buf.window.take (min buf.size size))
    rw [length] at front
    exact front

theorem Sound.resized_inArr (sound : buf.Sound) (fits : size ≤ arrSize)
    (same : (buf.arr.take (min buf.size size)) = buf.window.take (min buf.size size)) :
    buf.Resized size (buf.setBuffer .arr size) :=
  resized_of_front rfl rfl rfl (Nat.le_trans fits (Nat.le_of_eq sound.arr.symm))
    (Nat.le_trans fits (by decide)) sound.arr sound.free nofun same

theorem Sound.resized_toHeap (sound : buf.Sound) (large : arrSize < size)
    (small : size ≤ maxBytesPerBuffer) :
    buf.Resized size (buf.toHeap (buf.window.take (min buf.size size)) size) := by
  have length := sound.length_kept size
  have inside : 0 + (buf.window.take (min buf.size size)).length ≤ (List.replicate size (0 : UInt8)).length := by
    rw [length, length_replicate]
    omega
  have block := length_splice inside
  rw [length_replicate] at block
  refine resized_of_front rfl rfl rfl (Nat.le_of_eq block.symm) small sound.arr sound.free
    (fun _ _ => Nat.le_of_lt large) ?_
  show (splice (List.replicate size 0) 0 (buf.window.take (min buf.size size))).take (min buf.size size) = _
  have front := @splice_front (List.replicate size 0) (buf.window.take (min buf.size size))
  rw [length] at front
  exact front

theorem Sound.resized_inHeap (sound : buf.Sound)
    (large : arrSize < size) (small : size ≤ maxBytesPerBuffer) (inside : size ≤ block.length)
    (same : block.take (min buf.size size) = buf.window.take (min buf.size size)) :
    buf.Resized size (buf.setBuffer (.heap block) size) :=
  resized_of_front rfl rfl rfl inside small sound.arr sound.free (fun _ _ => Nat.le_of_lt large) same

theorem window_front (front : buf.offset = 0) (count : Nat) (within : count ≤ buf.size) :
    buf.window.take count = buf.bytes.take count := by
  rw [window, slice, front, drop_zero, take_take, Nat.min_eq_left within]

theorem Sound.moved_front (sound : buf.Sound) (size : Nat)
    (here : buf.offset = 0 → list = buf.bytes) :
    (splice list 0
        (if 0 < min buf.size size ∧ 0 < buf.offset then buf.window.take (min buf.size size) else [])).take
          (min buf.size size) = buf.window.take (min buf.size size) := by
  by_cases moves : 0 < min buf.size size ∧ 0 < buf.offset
  · have front := @splice_front list (buf.window.take (min buf.size size))
    rw [sound.length_kept] at front
    rw [if_pos moves]
    exact front
  · rw [if_neg moves]
    by_cases none : min buf.size size = 0
    · rw [none, take_zero, take_zero]
    · have front : buf.offset = 0 := by omega
      rw [window_front front _ (Nat.min_le_left _ _), here front]
      rfl

theorem Sound.length_moved (sound : buf.Sound) (size : Nat) :
    (if 0 < min buf.size size ∧ 0 < buf.offset then buf.window.take (min buf.size size) else []).length ≤
      min buf.size size := by
  split
  · exact Nat.le_of_eq (sound.length_kept size)
  · exact Nat.zero_le _

theorem Sound.notNull (sound : buf.Sound) (apart : 0 < buf.offset ∨ 0 < buf.shadowSize) : buf.data ≠ .null := by
  intro null
  have ordered := sound.ordered
  have bounded := sound.bounded
  have shadow := sound.shadowSize
  have inside := sound.inside
  rw [bytes, null] at inside
  have none : buf.actSize ≤ 0 := inside
  omega

theorem Sound.resizeWithOffset (sound : buf.Sound) (some : size ≠ 0)
    (small : size ≤ maxBytesPerBuffer) (keeps : buf.Keeps size)
    (apart : 0 < buf.offset ∨ 0 < buf.shadowSize) :
    ∃ after, buf.resizeWithOffset size = Option.some after ∧ buf.Resized size after := by
  have notNull := sound.notNull apart
  have limits : ¬ (size = 0 ∨ maxBytesPerBuffer < size) := by omega
  have moved := sound.length_moved size
  rw [BufStore.resizeWithOffset, if_neg limits]
  by_cases same : size = buf.size
  · rw [if_pos same]
    exact ⟨buf, rfl, sound, same.symm, rfl⟩
  · rw [if_neg same]
    by_cases inArr : size ≤ arrSize ∧ buf.actSize ≤ arrSize
    · rw [if_pos inArr]
      have fits : 0 + (if 0 < min buf.size size ∧ 0 < buf.offset then
          buf.window.take (min buf.size size) else []).length ≤ buf.arr.length := by
        rw [sound.arr]
        omega
      have arr := (length_splice fits).trans sound.arr
      refine ⟨_, rfl, resized_of_front rfl rfl rfl ?_ small arr sound.free nofun ?_⟩
      · exact Nat.le_trans inArr.1 (Nat.le_of_eq arr.symm)
      · by_cases none : min buf.size size = 0
        · rw [none, take_zero, take_zero]
        · refine sound.moved_front size fun front => ?_
          cases data : buf.data with
          | null => exact absurd data notNull
          | arr => rw [bytes, data]
          | heap block =>
            -- A block this small has `arrSize` bytes: it is only moved from behind its front.
            have full : buf.actSize = arrSize := Nat.le_antisymm inArr.2 (sound.heap block data)
            have allowed := keeps (by rw [data]; nofun) full
            omega
    · rw [if_neg inArr]
      by_cases toHeap : arrSize < size ∧ buf.actSize ≤ arrSize
      · rw [if_pos toHeap]
        have own : buf.data = .arr := by
          cases data : buf.data with
          | null => exact absurd data notNull
          | arr => rfl
          | heap block =>
            have full : buf.actSize = arrSize := Nat.le_antisymm toHeap.2 (sound.heap block data)
            have allowed := keeps (by rw [data]; nofun) full
            omega
        rw [if_neg (not_not.2 own)]
        exact ⟨_, rfl, sound.resized_toHeap toHeap.1 small⟩
      · rw [if_neg toHeap]
        by_cases toArr : arrSize < buf.actSize ∧ size ≤ arrSize
        · rw [if_pos toArr]
          obtain ⟨block, isBlock⟩ := sound.onHeap toArr.1
          rw [if_neg (by rw [isBlock]; nofun)]
          exact ⟨_, rfl, sound.resized_toArr toArr.2⟩
        · rw [if_neg toArr]
          obtain ⟨block, isBlock⟩ := sound.onHeap (by omega)
          rw [if_neg (by rw [isBlock]; nofun)]
          have windowed := sound.inWindow
          have fits : 0 + (if 0 < min buf.size size ∧ 0 < buf.offset then
              buf.window.take (min buf.size size) else []).length ≤ buf.bytes.length := by
            omega
          have length := length_splice fits
          have front := sound.moved_front size (fun _ => rfl : buf.offset = 0 → buf.bytes = buf.bytes)
          have inside := sound.inside
          refine ⟨_, rfl, sound.resized_inHeap (by omega) small ?_ ?_⟩
          · split
            · rw [takeD_length]
            · omega
          · split
            · rw [take_takeD _ _ (Nat.min_le_right _ _) (by omega), front]
            · exact front

theorem Sound.arr_front (sound : buf.Sound) (keeps : buf.Keeps size) (some : 0 < size)
    (small : size ≤ maxBytesPerBuffer) (front : buf.offset = 0) (full : buf.size = buf.actSize)
    (apart : size ≠ buf.size) (fits : buf.size ≤ arrSize) (count : Nat)
    (within : count ≤ buf.size) :
    buf.arr.take count = buf.window.take count := by
  by_cases none : count = 0
  · rw [none, take_zero, take_zero]
  · rw [window_front front _ within]
    cases data : buf.data with
    | null =>
      have inside := sound.inside
      rw [bytes, data] at inside
      have nothing : buf.actSize ≤ 0 := inside
      omega
    | arr => rw [bytes, data]
    | heap block =>
      have whole : buf.actSize = arrSize := Nat.le_antisymm (full ▸ fits) (sound.heap block data)
      have allowed := keeps (by rw [data]; nofun) whole
      omega

theorem Sound.resizeInPlace (sound : buf.Sound) (keeps : buf.Keeps size) (some : 0 < size)
    (small : size ≤ maxBytesPerBuffer) (front : buf.offset = 0) (full : buf.size = buf.actSize)
    (apart : size ≠ buf.size) :
    ∃ after,
      (if size ≤ arrSize ∧ buf.size ≤ arrSize then (Ret.status .success, buf.setBuffer .arr size)
        else if arrSize < size ∧ buf.size ≤ arrSize then
          (.status .success, buf.toHeap (buf.arr.take buf.size) size)
        else if arrSize < buf.size ∧ size ≤ arrSize then
          (.status .success, buf.toArr (buf.window.take size) size)
        else (.status .success, buf.setBuffer (.heap (buf.bytes.takeD size 0)) size)) =
          (.status .success, after) ∧ buf.Resized size after := by
  by_cases inArr : size ≤ arrSize ∧ buf.size ≤ arrSize
  · rw [if_pos inArr]
    have same := sound.arr_front keeps some small front full apart inArr.2 _ (Nat.min_le_left _ size)
    exact ⟨_, rfl, sound.resized_inArr inArr.1 same⟩
  · rw [if_neg inArr]
    by_cases toHeap : arrSize < size ∧ buf.size ≤ arrSize
    · have same := sound.arr_front keeps some small front full apart toHeap.2 _ (Nat.le_refl buf.size)
      have resized := sound.resized_toHeap toHeap.1 small
      rw [Nat.min_eq_left (by omega), ← same] at resized
      rw [if_pos toHeap]
      exact ⟨_, rfl, resized⟩
    · rw [if_neg toHeap]
      by_cases toArr : arrSize < buf.size ∧ size ≤ arrSize
      · have resized := sound.resized_toArr toArr.2
        rw [Nat.min_eq_right (by omega)] at resized
        rw [if_pos toArr]
        exact ⟨_, rfl, resized⟩
      · rw [if_neg toArr]
        have inside := sound.inside
        refine ⟨_, rfl, sound.resized_inHeap (by omega) small ?_ ?_⟩
        · rw [takeD_length]
        · rw [take_takeD _ _ (Nat.min_le_right _ _) (by omega), window_front front _ (Nat.min_le_left _ _)]

theorem Sound.resize (sound : buf.Sound) (keeps : buf.Keeps size) :
    (buf.resize size = (.status .e2big, buf) ∧ maxBytesPerBuffer < size) ∨
      ∃ after, buf.resize size = (.status .success, after) ∧ buf.Resized size after := by
  have free := sound.free
  rw [BufStore.resize]
  by_cases large : maxBytesPerBuffer < size
  · rw [if_pos large]
    exact .inl ⟨rfl, large⟩
  · have small : size ≤ maxBytesPerBuffer := Nat.not_lt.1 large
    rw [if_neg large, free, if_neg Bool.false_ne_true]
    right
    by_cases empty : size = 0
    · subst empty
      rw [if_pos rfl]
      refine ⟨_, rfl, resized_of_front rfl rfl rfl (Nat.zero_le _) small sound.arr sound.free nofun ?_⟩
      rw [Nat.min_zero, take_zero, take_zero]
    · rw [if_neg empty]
      by_cases apart : 0 < buf.offset ∨ 0 < buf.shadowSize
      · rw [if_pos apart]
        obtain ⟨after, done, resized⟩ := sound.resizeWithOffset empty small keeps apart
        rw [done]
        exact ⟨after, rfl, resized⟩
      · rw [if_neg apart]
        have front : buf.offset = 0 := by omega
        have full : buf.size = buf.actSize := by
          have shadow := sound.shadowSize
          have bounded := sound.bounded
          rw [sound.size]
          omega
        by_cases same : size = buf.size
        · rw [if_pos same]
          exact ⟨buf, rfl, sound, same.symm, rfl⟩
        · rw [if_neg same]
          exact sound.resizeInPlace keeps (Nat.pos_of_ne_zero empty) small front full same

/-! ### The other calls -/

theorem slice_splice
    (inside : start + count + items.length ≤ list.length) :
    slice (splice list (start + count) items) start (count + items.length) =
      slice list start count ++ items := by
  have front : (list.take (start + count)).length = start + count :=
    length_take_of_le (by omega)
  have part : ((list.drop start).take count).length = count := by
    rw [length_take, length_drop]
    omega
  have both : ((list.drop start).take count ++ items).length = count + items.length := by
    rw [length_append, part]
  rw [slice, slice, splice, append_assoc, drop_append_of_le_length (by omega), drop_take,
    Nat.add_sub_cancel_left, ← append_assoc, ← both, take_left]

theorem bytes_write (some : buf.data ≠ .null) (start : Nat) (items : List UInt8) :
    (buf.write start items).bytes = splice buf.bytes start items := by
  rw [write, bytes, bytes]
  cases data : buf.data with
  | null => exact absurd data some
  | arr => rfl
  | heap block => rfl

theorem Sound.some_of_size (sound : buf.Sound) (filled : 0 < buf.size) : buf.data ≠ .null := by
  intro null
  have windowed := sound.inWindow
  rw [bytes, null] at windowed
  have none : buf.offset + buf.size ≤ 0 := windowed
  omega

theorem Sound.write (sound : buf.Sound)
    (inside : start + items.length ≤ buf.bytes.length) :
    (buf.write start items).Sound ∧ (buf.write start items).offset = buf.offset ∧
      (buf.write start items).size = buf.size := by
  have within := sound.inside
  rw [bytes] at inside within
  rw [BufStore.write]
  cases data : buf.data with
  | null => exact ⟨sound, rfl, rfl⟩
  | arr =>
    rw [data] at inside within
    have length := length_splice inside
    refine ⟨⟨⟨sound.ordered, sound.bounded, ?_⟩, sound.small, length.trans sound.arr, sound.free, nofun⟩,
      rfl, rfl⟩
    show buf.actSize ≤ (splice buf.arr start items).length
    rw [length]
    exact within
  | heap block =>
    rw [data] at inside within
    have length := length_splice inside
    refine ⟨⟨⟨sound.ordered, sound.bounded, ?_⟩, sound.small, sound.arr, sound.free,
      fun _ _ => sound.heap block data⟩, rfl, rfl⟩
    show buf.actSize ≤ (splice block start items).length
    rw [length]
    exact within

theorem Sound.append (sound : buf.Sound)
    (fits : BufCall.Fits buf (.append block)) :
    (∃ after, buf.append block = (.status .success, after) ∧ after.Sound ∧ after.window = buf.window ++ block) ∨
      ∃ ret, buf.append block = (ret, buf) ∧ ret ≠ .status .success ∧ ret ≠ .thrown := by
  rw [BufStore.append, sound.free, if_neg Bool.false_ne_true]
  by_cases refused : bufMaxSize < block.length ∨ block.length = 0
  · rw [if_pos refused]
    exact .inr ⟨_, rfl, nofun, nofun⟩
  · rw [not_or, Nat.not_lt] at refused
    obtain ⟨narrow, keeps⟩ := fits (Nat.pos_of_ne_zero refused.2) refused.1
    rw [if_neg (by omega), Nat.mod_eq_of_lt narrow]
    rcases sound.resize keeps with ⟨tooLarge, _⟩ | ⟨after, done, resized⟩
    · rw [tooLarge]
      exact .inr ⟨_, rfl, nofun, nofun⟩
    · left
      have windowed := resized.sound.inWindow
      have kept := resized.kept
      rw [resized.sized] at windowed
      rw [Nat.min_eq_left (Nat.le_add_right _ _), take_of_length_le (Nat.le_of_eq sound.length_window)] at kept
      have inside : after.offset + buf.size + block.length ≤ after.bytes.length := by omega
      have some : after.data ≠ .null := by
        apply resized.sound.some_of_size
        rw [resized.sized]
        omega
      obtain ⟨written, offset, size⟩ := resized.sound.write inside
      rw [done]
      refine ⟨_, rfl, written, ?_⟩
      rw [window, bytes_write some, offset, size, resized.sized, slice_splice inside, ← kept, window, slice,
        resized.sized, slice, take_take, Nat.min_eq_left (Nat.le_add_right _ _)]

theorem Sound.setOffset (sound : buf.Sound) (offset : Nat) : (buf.setOffset offset).2.Sound := by
  rw [BufStore.setOffset]
  split
  · exact sound
  · split
    · exact sound
    · rename_i _ inside
      exact { sound with ordered := Nat.not_lt.1 inside }

theorem Sound.setTailOff (sound : buf.Sound) (size : Nat) : (buf.setTailOff size).Sound :=
  { sound with
    ordered := Nat.le_max_right _ _
    bounded := Nat.max_le.2 ⟨Nat.min_le_right _ _, Nat.le_trans sound.ordered sound.bounded⟩ }

theorem Sound.detach (sound : buf.Sound) (fits : BufCall.Fits buf .detach) : buf.detach.2.Sound := by
  rw [BufStore.detach]
  by_cases own : buf.data = .arr
  · rw [if_pos own]
    exact sound
  · rw [if_neg own]
    have empty : buf.tailOff = 0 := fits.resolve_left own
    have ordered := sound.ordered
    exact
      { ordered := ordered
        bounded := Nat.le_of_eq empty
        inside := Nat.zero_le _
        small := Nat.zero_lt_succ _
        arr := sound.arr
        free := sound.free
        heap := nofun }

theorem Sound.attach (sound : buf.Sound) (large : arrSize ≤ block.length)
    (offset tailOff : Nat) :
    buf.attach block offset tailOff =
      (.status .success, ⟨.heap block, buf.arr, block.length, 0, min tailOff block.length, false⟩) := by
  have given : (buf.resize 0).2 = buf.setBuffer .null 0 := by
    rw [BufStore.resize, if_neg (Nat.not_lt_zero _), sound.free, if_neg Bool.false_ne_true, if_pos rfl]
  have held : ({ (buf.resize 0).2 with data := .heap block, actSize := block.length } : BufStore) =
      ⟨.heap block, buf.arr, block.length, 0, 0, false⟩ := by
    rw [given, setBuffer, sound.free]
  have kept : (BufStore.setOffset ⟨.heap block, buf.arr, block.length, 0, 0, false⟩ offset).2 =
      ⟨.heap block, buf.arr, block.length, 0, 0, false⟩ := by
    rw [BufStore.setOffset, if_neg nofun]
    by_cases front : 0 < offset
    · rw [if_pos front]
    · rw [if_neg front]
      have zero : offset = 0 := by omega
      rw [zero]
  rw [BufStore.attach, if_neg (Nat.not_lt.2 large), held]
  simp only [kept]
  rw [BufStore.setTailOff, Nat.max_zero]

theorem Sound.attached (sound : buf.Sound) (narrow : block.length < 4294967296)
    (offset tailOff : Nat) : (buf.attach block offset tailOff).2.Sound := by
  by_cases large : arrSize ≤ block.length
  · rw [sound.attach large]
    exact
      { ordered := Nat.zero_le _
        bounded := Nat.min_le_right _ _
        inside := Nat.le_refl _
        small := narrow
        arr := sound.arr
        free := rfl
        heap := fun _ _ => large }
  · rw [BufStore.attach, if_pos (Nat.not_le.1 large)]
    exact sound

end BufStore

/-! ### The runs -/

def BufState.Given (state : BufState) : Prop :=
  ∀ block offset tailOff, state.earlier = some (.attach block offset tailOff) →
    arrSize ≤ block.length →
      state.buf.data = .heap block ∧ state.buf.actSize = block.length ∧ state.buf.offset = 0 ∧
        state.buf.tailOff = min tailOff block.length

namespace BufState

structure Inv (state : BufState) : Prop where
  sound : state.buf.Sound
  given : state.Given
  right : ∀ entry ∈ state.entries, entry.Right

theorem inv_start : Inv ⟨.new, none, []⟩ where
  sound := BufStore.sound_new
  given := by
    intro block offset tailOff never
    cases never
  right := forall_mem_nil _

variable {state next : BufState}

theorem Inv.called (inv : state.Inv) {call : BufCall} (valid : call.Valid)
    (fits : call.Fits state.buf) : (state.buf.call call).2.Sound := by
  have sound := inv.sound
  cases call with
  | append block =>
    rcases sound.append fits with ⟨after, done, kept, _⟩ | ⟨ret, done, _, _⟩
    · exact (congrArg Prod.snd done).symm ▸ kept
    · exact (congrArg Prod.snd done).symm ▸ sound
  | resize size =>
    rcases sound.resize fits with ⟨done, _⟩ | ⟨after, done, resized⟩
    · exact (congrArg Prod.snd done).symm ▸ sound
    · exact (congrArg Prod.snd done).symm ▸ resized.sound
  | setOffset offset => exact sound.setOffset offset
  | incOffset count => exact sound.setOffset _
  | setTailOff size => exact sound.setTailOff size
  | setWinSize size => exact sound.setTailOff _
  | slideWindow size => exact (sound.setTailOff _).setOffset _
  | attach block offset tailOff => exact sound.attached valid.1 offset tailOff
  | detach => exact sound.detach fits

theorem Inv.entry (inv : state.Inv) {call : BufCall} (fits : call.Fits state.buf) :
    BufEntry.Right ⟨state.earlier, call, state.buf, (state.buf.call call).1, (state.buf.call call).2⟩ := by
  have sound := inv.sound
  cases call with
  | append block =>
    rcases sound.append fits with ⟨after, done, _, whole⟩ | ⟨ret, done, failed, thrown⟩
    · have right : BufEntry.Right ⟨state.earlier, .append block, state.buf, .status .success, after⟩ := by
        rw [BufEntry.Right]
        simp only [if_pos]
        exact whole
      rw [show state.buf.call (.append block) = state.buf.append block from rfl, done]
      exact right
    · have right : BufEntry.Right ⟨state.earlier, .append block, state.buf, ret, state.buf⟩ := by
        rw [BufEntry.Right]
        simp only [if_neg failed]
        exact ⟨thrown, trivial⟩
      rw [show state.buf.call (.append block) = state.buf.append block from rfl, done]
      exact right
  | resize size =>
    rcases sound.resize fits with ⟨done, _⟩ | ⟨after, done, resized⟩
    · rw [show state.buf.call (.resize size) = state.buf.resize size from rfl, done, BufEntry.Right]
      simp
    · have kept := resized.kept
      rw [Nat.min_comm] at kept
      have right : BufEntry.Right ⟨state.earlier, .resize size, state.buf, .status .success, after⟩ := by
        rw [BufEntry.Right]
        simp only [if_pos]
        exact ⟨resized.sized, kept⟩
      rw [show state.buf.call (.resize size) = state.buf.resize size from rfl, done]
      exact right
  | detach =>
    intro block offset tailOff attached large ordered inside
    obtain ⟨data, actSize, front, tail⟩ := inv.given block offset tailOff attached large
    have own : state.buf.data ≠ .arr := by
      rw [data]
      nofun
    have empty : state.buf.tailOff = 0 := fits.resolve_left own
    show state.buf.detach.1 = _
    rw [BufStore.detach, if_neg own, data, actSize, front, tail]
    rw [tail, Nat.min_eq_left inside] at empty
    rw [Nat.min_eq_left inside]
    have zero : offset = 0 := by omega
    rw [zero]
  | setOffset | incOffset | setTailOff | setWinSize | slideWindow | attach => trivial

theorem Inv.step (inv : state.Inv) {call : BufCall} (fits : call.Fits state.buf)
    (moved : state.step call = some next) : next.Inv := by
  obtain ⟨valid, ⟨⟩⟩ := Option.ite_none_right_eq_some.1 moved
  refine ⟨inv.called valid fits, ?_, ?_⟩
  · intro block offset tailOff attached large
    obtain rfl := Option.some.inj attached
    have after : (state.buf.call (.attach block offset tailOff)).2 = _ :=
      congrArg Prod.snd (inv.sound.attach large offset tailOff)
    simp only [after]
    exact ⟨trivial, trivial, trivial, trivial⟩
  · intro entry member
    rcases mem_append.1 member with before | new
    · exact inv.right entry before
    · rw [mem_singleton.1 new]
      exact inv.entry fits

end BufState

/-- Any sequence of calls that fit. -/
theorem lawful_of_fits {state : BufState}
    (reachable : (bufStoreMachine.restrict fun state call => call.Fits state.buf).Reachable state) :
    state.Lawful := by
  have inv : state.Inv := by
    apply reachable.invariant BufState.inv_start
    intro before call after _ inv moved
    obtain ⟨fits, stepped⟩ := Machine.restrict_step.1 moved
    exact inv.step fits stepped
  exact ⟨inv.sound.toBounded, inv.right⟩

def thereAndBack : List BufCall :=
  [.append [1, 2, 3], .setOffset 1, .append (List.replicate 50 4), .resize 60, .incOffset 2, .slideWindow 7,
    .resize 5, .attach (List.replicate 49 9) 0 0, .detach, .append [5]]

theorem lawful_thereAndBack : ∃ state,
    (bufStoreMachine.restrict fun state call => call.Fits state.buf).run bufStoreMachine.start thereAndBack =
      some state ∧
    state.buf.window = [5] ∧ state.entries.length = 10 ∧ state.Lawful := by
  have ran : ((bufStoreMachine.restrict fun state call => call.Fits state.buf).run bufStoreMachine.start
      thereAndBack).map (fun state => (state.buf.window, state.entries.length)) = some ([5], 10) := by
    decide +kernel
  obtain ⟨state, ran, same⟩ := Option.map_eq_some_iff.1 ran
  obtain ⟨window, count⟩ := Prod.mk.inj same
  exact ⟨state, ran, window, count, lawful_of_fits (Machine.Reachable.start.run ran)⟩

/-- A block is attached and detached: the tail stays, with nothing left in front of it. -/
theorem detached_keepsTail : ¬ ∀ state, bufStoreMachine.Reachable state → state.Lawful := by
  intro all
  have ran : (bufStoreMachine.run bufStoreMachine.start
      [.attach (List.replicate 64 7) 0 64, .detach]).map
        (fun state => (state.buf.tailOff, state.buf.actSize)) = some (64, 0) := by
    decide +kernel
  obtain ⟨state, ran, same⟩ := Option.map_eq_some_iff.1 ran
  obtain ⟨tailOff, actSize⟩ := Prod.mk.inj same
  have bounded := (all state (Machine.Reachable.start.run ran)).bounded.bounded
  rw [tailOff, actSize] at bounded
  exact absurd bounded (by decide)

end RpcFrmwrk
