import RpcFrmwrk.Combase.Buffer

/-! The window of a `CBuffer` between its offset and its tail offset. Owns the window, inside the
block; `SetOffset`, `SetTailOff`, `SetWinSize`, `SlideWindow` and `IncOffset`. -/

namespace RpcFrmwrk

/-- `GetActSize`, `m_dwOffset` and `m_dwTailOff` of a `CBuffer` of type `DataTypeMem`. -/
structure BufWindow where
  actSize : Nat
  offset : Nat
  tailOff : Nat
  ordered : offset ≤ tailOff
  bounded : tailOff ≤ actSize
  small : actSize ≤ bufMaxSize
deriving DecidableEq, Repr

namespace BufWindow

@[ext] theorem ext {left right : BufWindow} (actSize : left.actSize = right.actSize)
    (offset : left.offset = right.offset) (tailOff : left.tailOff = right.tailOff) : left = right := by
  cases left
  cases right
  simp_all

def size (win : BufWindow) : Nat := win.tailOff - win.offset

/-- `GetShadowSize`, the bytes behind the tail. -/
def shadowSize (win : BufWindow) : Nat := win.actSize - win.tailOff

/-- An offset behind the tail is refused and nothing changes. -/
def setOffset (win : BufWindow) (offset : Nat) : BufWindow :=
  if ordered : offset ≤ win.tailOff then { win with offset := offset, ordered := ordered } else win

def incOffset (win : BufWindow) (count : Nat) : BufWindow := win.setOffset (win.offset + count)

/-- A tail outside the block or in front of the offset is moved to the end it passes. -/
def setTailOff (win : BufWindow) (tailOff : Nat) : BufWindow :=
  { win with
    tailOff := max (min tailOff win.actSize) win.offset
    ordered := le_max_right _ _
    bounded := max_le (min_le_right _ _) (win.ordered.trans win.bounded) }

def setWinSize (win : BufWindow) (size : Nat) : BufWindow := win.setTailOff (win.offset + size)

def slideWindow (win : BufWindow) (size : Nat) : BufWindow :=
  (win.setWinSize (win.size + size)).incOffset win.size

@[simp] theorem actSize_setOffset (win : BufWindow) (offset : Nat) :
    (win.setOffset offset).actSize = win.actSize := by
  unfold setOffset
  split <;> rfl

@[simp] theorem tailOff_setOffset (win : BufWindow) (offset : Nat) :
    (win.setOffset offset).tailOff = win.tailOff := by
  unfold setOffset
  split <;> rfl

theorem offset_setOffset {win : BufWindow} {offset : Nat} (ordered : offset ≤ win.tailOff) :
    (win.setOffset offset).offset = offset := by
  rw [setOffset, dif_pos ordered]

@[simp] theorem actSize_setTailOff (win : BufWindow) (tailOff : Nat) :
    (win.setTailOff tailOff).actSize = win.actSize := rfl

@[simp] theorem offset_setTailOff (win : BufWindow) (tailOff : Nat) :
    (win.setTailOff tailOff).offset = win.offset := rfl

theorem tailOff_setTailOff {win : BufWindow} {tailOff : Nat} (ordered : win.offset ≤ tailOff)
    (bounded : tailOff ≤ win.actSize) : (win.setTailOff tailOff).tailOff = tailOff := by
  show max (min tailOff win.actSize) win.offset = tailOff
  rw [min_eq_left bounded, max_eq_left ordered]

theorem setWinSize_fields {win : BufWindow} {size : Nat} (room : win.offset + size ≤ win.actSize) :
    (win.setWinSize size).actSize = win.actSize ∧ (win.setWinSize size).offset = win.offset ∧
      (win.setWinSize size).tailOff = win.offset + size :=
  ⟨rfl, rfl, tailOff_setTailOff (Nat.le_add_right _ _) room⟩

theorem setBack {win old : BufWindow} (same : win.actSize = old.actSize)
    (behind : old.offset ≤ win.tailOff) :
    (win.setOffset old.offset).setTailOff old.tailOff = old := by
  have offset := offset_setOffset behind
  apply ext
  · rw [actSize_setTailOff, actSize_setOffset, same]
  · rw [offset_setTailOff, offset]
  · apply tailOff_setTailOff
    · rw [offset]
      exact old.ordered
    · rw [actSize_setOffset, same]
      exact old.bounded

theorem slideWindow_fields {win : BufWindow} {size : Nat} (room : win.tailOff + size ≤ win.actSize) :
    (win.slideWindow size).actSize = win.actSize ∧ (win.slideWindow size).offset = win.tailOff ∧
      (win.slideWindow size).tailOff = win.tailOff + size := by
  have whole : win.offset + win.size = win.tailOff := Nat.add_sub_of_le win.ordered
  have tail : (win.setWinSize (win.size + size)).tailOff = win.tailOff + size := by
    have moved : win.offset + (win.size + size) = win.tailOff + size := by
      rw [← Nat.add_assoc, whole]
    rw [setWinSize, moved]
    exact tailOff_setTailOff (win.ordered.trans (Nat.le_add_right _ _)) room
  have start : (win.setWinSize (win.size + size)).offset = win.offset := rfl
  refine ⟨actSize_setOffset _ _, ?_, (tailOff_setOffset _ _).trans tail⟩
  rw [slideWindow, incOffset, start, whole]
  apply offset_setOffset
  rw [tail]
  exact Nat.le_add_right _ _

end BufWindow

end RpcFrmwrk
