import RpcFrmwrk.Library.BigEndian

/-! What stands at an offset of a block of bytes. Owns `BytesAt`, and the parts of a string that
stands there; the word and the slice that is read there; elements that stand one behind the other,
and the loop that reads them. -/

namespace RpcFrmwrk.Library

open List

def BytesAt (block : List UInt8) (offset : Nat) (bytes : List UInt8) : Prop :=
  offset ≤ block.length ∧ ∃ after, block.drop offset = bytes ++ after

namespace BytesAt

variable {block first second bytes : List UInt8} {offset : Nat}

theorem of_append (before bytes after : List UInt8) :
    BytesAt (before ++ (bytes ++ after)) before.length bytes :=
  ⟨by rw [length_append]; exact Nat.le_add_right _ _, after, drop_left⟩

theorem length_le (stands : BytesAt block offset bytes) : offset + bytes.length ≤ block.length := by
  obtain ⟨inside, after, rest⟩ := stands
  have total := congrArg List.length rest
  rw [length_drop, length_append] at total
  omega

theorem left (stands : BytesAt block offset (first ++ second)) : BytesAt block offset first := by
  obtain ⟨inside, after, rest⟩ := stands
  exact ⟨inside, second ++ after, by rw [rest, append_assoc]⟩

theorem right (stands : BytesAt block offset (first ++ second)) :
    BytesAt block (offset + first.length) second := by
  have whole := stands.length_le
  obtain ⟨_, after, rest⟩ := stands
  rw [length_append] at whole
  refine ⟨by omega, after, ?_⟩
  rw [← drop_drop, rest, append_assoc, drop_left]

theorem take_drop (stands : BytesAt block offset bytes) : (block.drop offset).take bytes.length = bytes := by
  obtain ⟨_, after, rest⟩ := stands
  rw [rest, take_left]

theorem ofBE_take {width value : Nat} (stands : BytesAt block offset (toBE width value))
    (small : value < 256 ^ width) : ofBE ((block.drop offset).take width) = value := by
  have taken := stands.take_drop
  rw [length_toBE] at taken
  rw [taken, ofBE_toBE_of_lt small]

end BytesAt

def wordAt (width : Nat) (block : List UInt8) (offset : Nat) : Option Nat :=
  if offset + width ≤ block.length then some (ofBE ((block.drop offset).take width)) else none

theorem BytesAt.wordAt {block : List UInt8} {offset width value : Nat}
    (stands : BytesAt block offset (toBE width value)) (small : value < 256 ^ width) :
    wordAt width block offset = some value := by
  have inside := stands.length_le
  rw [length_toBE] at inside
  rw [Library.wordAt, if_pos inside, stands.ofBE_take small]

section

variable {α β : Type} {block : List UInt8} {offset : Nat}
variable {read : α → Option β} {values : List α}

def readElems (elem : Nat → Option (β × Nat)) : Nat → Nat → Option (List β × Nat)
  | 0, offset => some ([], offset)
  | count + 1, offset =>
    (elem offset).bind fun (head, offset) =>
      (readElems elem count offset).map fun (tail, offset) => (head :: tail, offset)

/-- All the results, if each of them is there. -/
def collect (read : α → Option β) : List α → Option (List β)
  | [] => some []
  | head :: tail => (read head).bind fun first => (collect read tail).map fun rest => first :: rest

theorem collect_eq_map_iff {change : α → β} :
    collect read values = some (values.map change) ↔ ∀ value ∈ values, read value = some (change value) := by
  induction values with
  | nil => exact iff_of_true rfl (forall_mem_nil _)
  | cons head tail ih =>
    rw [collect, map_cons, Option.bind_eq_some_iff, forall_mem_cons, ← ih]
    constructor
    · rintro ⟨first, isFirst, isRest⟩
      obtain ⟨rest, isList, same⟩ := Option.map_eq_some_iff.1 isRest
      rw [isFirst, isList, (List.cons.inj same).1, (List.cons.inj same).2]
      exact ⟨rfl, rfl⟩
    · rintro ⟨isFirst, isRest⟩
      exact ⟨_, isFirst, by rw [isRest, Option.map_some]⟩

theorem length_of_collect {list : List β}
    (isRead : collect read values = some list) : list.length = values.length := by
  induction values generalizing list with
  | nil =>
    cases isRead
    rfl
  | cons head tail ih =>
    obtain ⟨first, _, isRest⟩ := Option.bind_eq_some_iff.1 isRead
    obtain ⟨rest, isList, same⟩ := Option.map_eq_some_iff.1 isRest
    rw [← same, length_cons, length_cons, ih isList]

theorem readElems_at {elem : Nat → Option (β × Nat)} {layout : α → List UInt8}
    (reads : ∀ value ∈ values, ∀ offset, BytesAt block offset (layout value) →
      elem offset = (read value).map fun read => (read, offset + (layout value).length))
    (stands : BytesAt block offset (values.flatMap layout)) :
    readElems elem values.length offset =
      (collect read values).map fun list => (list, offset + (values.flatMap layout).length) := by
  induction values generalizing offset with
  | nil => rfl
  | cons head tail ih =>
    rw [flatMap_cons] at stands
    have rest := ih (fun value member => reads value (mem_cons_of_mem _ member)) stands.right
    rw [length_cons, readElems, reads head mem_cons_self offset stands.left, collect]
    cases read head with
    | none => rfl
    | some first =>
      simp only [Option.map_some, Option.bind_some]
      rw [rest, Option.map_map, Option.map_map, flatMap_cons, length_append, ← Nat.add_assoc]
      rfl

theorem length_le_flatMap {layout : α → List UInt8}
    (positive : ∀ value ∈ values, 0 < (layout value).length) :
    values.length ≤ (values.flatMap layout).length := by
  induction values with
  | nil => exact Nat.zero_le _
  | cons head tail ih =>
    have first := positive head mem_cons_self
    have rest := ih fun value member => positive value (mem_cons_of_mem _ member)
    rw [flatMap_cons, length_append, length_cons]
    omega

end

end RpcFrmwrk.Library
