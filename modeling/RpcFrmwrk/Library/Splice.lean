import Mathlib.Data.List.Basic

/-! Copying a block of items into a list. Owns `slice` and `splice`, a copy out of and into a list
of fixed length; `writeAt`, a write that may start behind the end. -/

namespace RpcFrmwrk.Library

open List

variable {α : Type}
variable {list items : List α} {start : Nat}

/-- `count` items from position `start`. -/
def slice (list : List α) (start count : Nat) : List α := (list.drop start).take count

/-- The items replace those from position `start`. -/
def splice (list : List α) (start : Nat) (items : List α) : List α :=
  list.take start ++ items ++ list.drop (start + items.length)

/-- As `splice`, after filling up to `start`. -/
def writeAt (fill : α) (list : List α) (start : Nat) (items : List α) : List α :=
  splice (list ++ List.replicate (start - list.length) fill) start items

theorem length_slice {count : Nat} (inside : start + count ≤ list.length) :
    (slice list start count).length = count := by
  simp only [slice, length_take, length_drop]
  omega

theorem getElem?_slice (list : List α) (start count pos : Nat) :
    (slice list start count)[pos]? = if pos < count then list[start + pos]? else none := by
  simp only [slice, List.getElem?_take, List.getElem?_drop]

theorem length_splice
    (inside : start + items.length ≤ list.length) :
    (splice list start items).length = list.length := by
  simp only [splice, length_append, length_take, length_drop]
  omega

theorem splice_append (front : List α) {old : List α} (rest : List α)
    (same : old.length = items.length) :
    splice (front ++ old ++ rest) front.length items = front ++ items ++ rest := by
  have behind : (front ++ old ++ rest).drop (front.length + items.length) = rest := by
    rw [← same, ← length_append, drop_left]
  rw [splice, behind, append_assoc front, take_left]

theorem getElem?_splice (list : List α) (start : Nat) (items : List α)
    (inside : start ≤ list.length) (pos : Nat) :
    (splice list start items)[pos]? =
      if start ≤ pos ∧ pos < start + items.length then items[pos - start]? else list[pos]? := by
  have front : (list.take start).length = start := by
    rw [length_take]
    omega
  rw [splice, append_assoc, List.getElem?_append, front]
  by_cases before : pos < start
  · rw [if_pos before, if_neg (by omega), List.getElem?_take, if_pos before]
  · rw [if_neg before, List.getElem?_append]
    by_cases within : pos - start < items.length
    · rw [if_pos within, if_pos (by omega)]
    · rw [if_neg within, if_neg (by omega), List.getElem?_drop]
      congr 1
      omega

theorem getElem?_writeAt (fill : α) (list : List α) (start : Nat) (items : List α) (pos : Nat) :
    (writeAt fill list start items)[pos]? =
      if start ≤ pos ∧ pos < start + items.length then items[pos - start]?
      else if list.length ≤ pos ∧ pos < start then some fill else list[pos]? := by
  have inside : start ≤ (list ++ List.replicate (start - list.length) fill).length := by
    rw [length_append, length_replicate]
    omega
  rw [writeAt, getElem?_splice _ _ _ inside, List.getElem?_append, List.getElem?_replicate]
  by_cases written : start ≤ pos ∧ pos < start + items.length
  · rw [if_pos written, if_pos written]
  · rw [if_neg written, if_neg written]
    by_cases old : pos < list.length
    · rw [if_pos old, if_neg (by omega)]
    · rw [if_neg old]
      by_cases gap : pos < start
      · rw [if_pos (by omega), if_pos ⟨by omega, gap⟩]
      · rw [if_neg (by omega), if_neg (by omega), List.getElem?_eq_none (by omega)]

theorem getElem?_writeAt_of_some {fill : α}
    {pos : Nat} {item : α} (outside : ¬ (start ≤ pos ∧ pos < start + items.length))
    (old : list[pos]? = some item) : (writeAt fill list start items)[pos]? = some item := by
  obtain ⟨inside, _⟩ := List.getElem?_eq_some_iff.1 old
  rw [getElem?_writeAt, if_neg outside, if_neg (by omega), old]

end RpcFrmwrk.Library
