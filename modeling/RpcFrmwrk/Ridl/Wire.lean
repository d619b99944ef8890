import RpcFrmwrk.Ridl.Deserialize

/-! What one read or one write does to the buffer. Owns `Writes` and `Reads`, the statements that a
method appends, or consumes, exactly a given byte string; their rules for the methods of
`CSerialBase` that do not recurse. -/

namespace RpcFrmwrk.Ridl

open RpcFrmwrk.Library List
open CBuffer (cursor)

/-- At the tail of a buffer with room for them, the method appends `bytes`. -/
def Writes (write : CBuffer → Status × CBuffer) (bytes : List UInt8) : Prop :=
  ∀ before, before.length + bytes.length ≤ maxBytesPerBuffer →
    write (cursor before []) = (.success, cursor (before ++ bytes) [])

/-- In front of `bytes`, whatever stands around them, the method returns `value`
and leaves the offset right behind `bytes`. -/
def Reads {α : Type} (read : CBuffer → Status × α × CBuffer) (bytes : List UInt8)
    (value : α) : Prop :=
  ∀ before after,
    read (cursor before (bytes ++ after)) = (.success, value, cursor (before ++ bytes) after)

theorem toBE_ne_nil {width : Nat} (positive : 0 < width) (value : Nat) : toBE width value ≠ [] := by
  apply ne_nil_of_length_pos
  rwa [length_toBE]

theorem serializeUInt32_cursor {before : List UInt8} (value : Nat)
    (fits : before.length + 4 ≤ maxBytesPerBuffer) :
    serializeUInt32 value (cursor before []) = cursor (before ++ toBE 4 value) [] := by
  apply CBuffer.appendAtTail_cursor (toBE_ne_nil (by decide) value)
  rwa [length_toBE]

theorem serializeFixed_writes (type : FixedType) (value : type.Val) :
    Writes (serializeFixed type value) (type.layout value) := by
  intro before fits
  rw [FixedType.layout] at fits ⊢
  rw [serializeFixed, CBuffer.appendAtTail_cursor (toBE_ne_nil type.width_pos _) fits]

theorem serializeBytes_writes (value : List UInt8) : Writes (serializeBytes value) (layoutBytes value) := by
  intro before fits
  rw [length_layoutBytes] at fits
  have limit : maxBytesPerBuffer < 2 ^ 32 := by decide
  have size : value.length % 2 ^ 32 = value.length := Nat.mod_eq_of_lt (by omega)
  have accepted : ¬ maxBytesPerBuffer ≤ value.length := by omega
  rw [serializeBytes]
  simp only [size, if_neg accepted]
  rw [serializeUInt32_cursor _ (by omega), take_length]
  by_cases empty : value.length = 0
  · rw [if_pos empty, layoutBytes, eq_nil_of_length_eq_zero empty]
    simp
  · rw [if_neg empty, CBuffer.appendAtTail_cursor (ne_nil_of_length_pos (by omega))]
    · simp [layoutBytes, append_assoc]
    · rw [length_append, length_toBE]
      omega

theorem serializePrime_writes (type : PrimeType) (value : type.Val) :
    Writes (serializePrime type value) (type.layout value) := by
  cases type with
  | fixed type => exact serializeFixed_writes type value
  | string => exact serializeBytes_writes value

variable {C : RidlClasses}

theorem serializeObj_none_writes : Writes (serializeObj C none) (layoutObj (C := C) none) := by
  intro before fits
  simp only [layoutObj, length_append, length_toBE] at fits
  simp only [serializeObj]
  rw [serializeUInt32_cursor _ (by omega), serializeUInt32_cursor, serializeUInt32_cursor]
  · simp [layoutObj, append_assoc]
  · simp only [length_append, length_toBE]
    omega
  · simp only [length_append, length_toBE]
    omega

theorem serializeObj_some_writes {obj : C.Obj}
    (small : (C.serialized obj).length < maxBytesPerBuffer) :
    Writes (serializeObj C (some obj)) (layoutObj (some obj)) := by
  intro before fits
  rw [layoutObj] at fits ⊢
  have header : (C.serialized obj).length ≠ 0 := by
    rw [C.length_serialized]
    omega
  have accepted : ¬ ((C.serialized obj).length = 0 ∨ maxBytesPerBuffer ≤ (C.serialized obj).length) := by omega
  simp only [serializeObj, if_neg accepted]
  rw [CBuffer.appendAtTail_cursor (ne_nil_of_length_pos (by omega)) fits]

/-- The values of a variant that both sides of the serializer support. -/
def Variant.Clean : Variant C → Prop
  | .dMsg => False
  | .obj (some item) => (C.serialized item).length < maxBytesPerBuffer
  | .obj _ => False
  | _ => True

variable {bytes value : List UInt8} {α : Type} {elem : α → CBuffer → Status × CBuffer}
    {layout : α → List UInt8} {values : List α}

theorem writes_behind_byte {write : CBuffer → Status × CBuffer} {byte : UInt8}
    (writes : Writes write bytes) :
    Writes (fun buf => write (buf.appendAtTail [byte])) (byte :: bytes) := by
  intro before fits
  rw [length_cons] at fits
  have head : (cursor before []).appendAtTail [byte] = cursor (before ++ [byte]) [] := by
    apply CBuffer.appendAtTail_cursor (cons_ne_nil _ _)
    rw [length_singleton]
    omega
  show write ((cursor before []).appendAtTail [byte]) = _
  rw [head, writes]
  · simp
  · rw [length_append, length_singleton]
    omega

private theorem appendAtTail_writes (nonempty : bytes ≠ []) :
    Writes (fun buf => (.success, buf.appendAtTail bytes)) bytes := by
  intro before fits
  show (Status.success, (cursor before []).appendAtTail bytes) = _
  rw [CBuffer.appendAtTail_cursor nonempty fits]

private theorem success_writes : Writes (fun buf => (.success, buf)) [] := by
  intro before _
  simp

theorem serializeVariantValue_writes {value : Variant C} (clean : value.Clean) :
    Writes (serializeVariantValue C value) value.layoutValue := by
  cases value with
  | none => exact success_writes
  | byte value => exact serializeFixed_writes .byte value
  | uint16 value => exact serializeFixed_writes .uint16 value
  | uint32 value => exact serializeFixed_writes .uint32 value
  | uint64 value => exact serializeFixed_writes .uint64 value
  | float bits => exact serializeFixed_writes .float bits
  | double bits => exact serializeFixed_writes .double bits
  | string value | byteArr value => exact serializeBytes_writes value
  | dMsg => exact absurd clean id
  | obj value =>
    cases value with
    | none => exact absurd clean id
    | some item => exact serializeObj_some_writes clean
  | struct item =>
    have nonempty : C.serializedStruct item ≠ [] := by
      apply ne_nil_of_length_pos
      simp only [RidlClasses.serializedStruct, length_append, length_toBE]
      omega
    exact appendAtTail_writes nonempty

theorem serializeVariant_writes {value : Variant C} (clean : value.Clean) :
    Writes (serializeVariant C value) value.layout :=
  writes_behind_byte (serializeVariantValue_writes clean)

theorem serialElems_writes
    (writes : ∀ value ∈ values, Writes (elem value) (layout value)) :
    Writes (serialElems elem values) (values.flatMap layout) := by
  induction values with
  | nil => exact success_writes
  | cons head tail ih =>
    intro before fits
    simp only [flatMap_cons, length_append] at fits
    have first := writes head mem_cons_self before (by omega)
    have rest := ih fun value member =>
      writes value (mem_cons_of_mem _ member)
    simp only [serialElems, first, Status.failed_success]
    rw [if_neg Bool.false_ne_true, rest]
    · simp [append_assoc]
    · rw [length_append]
      omega

theorem serializeCounted_writes (count : values.length < maxElemCount)
    (writes : ∀ value ∈ values, Writes (elem value) (layout value)) :
    Writes (serializeCounted elem values) (layoutCounted values.length (values.flatMap layout)) := by
  intro before fits
  rw [length_layoutCounted] at fits
  have limit : maxBytesPerBuffer < 2 ^ 32 := by decide
  rw [serializeCounted]
  simp only [CBuffer.offset_cursor]
  rw [serializeUInt32_cursor 0 (by omega)]
  have room : (before ++ toBE 4 0).length + 4 ≤ maxBytesPerBuffer := by
    rw [length_append, length_toBE]
    omega
  by_cases none : values.length = 0
  · rw [if_pos none, serializeUInt32_cursor 0 room, eq_nil_of_length_eq_zero none]
    simp [layoutCounted, append_assoc]
  · rw [if_neg none, if_neg (by omega), serializeUInt32_cursor _ room]
    have body := serialElems_writes writes (before ++ toBE 4 0 ++ toBE 4 values.length) (by
      simp only [length_append, length_toBE]
      omega)
    simp only [body, Status.failed_success, Bool.false_eq_true, if_false]
    have byteCount :
        sub32 (sub32 (cursor (before ++ toBE 4 0 ++ toBE 4 values.length ++
            values.flatMap layout) []).offset before.length)
          (sub32 (cursor (before ++ toBE 4 0 ++ toBE 4 values.length) []).offset before.length) =
        (values.flatMap layout).length := by
      simp only [CBuffer.offset_cursor, length_append, length_toBE]
      have header : sub32 (before.length + 4 + 4) before.length = 8 := by
        rw [sub32_of_le (by omega) (by omega)]
        omega
      have whole : sub32 (before.length + 4 + 4 + (values.flatMap layout).length)
          before.length = 8 + (values.flatMap layout).length := by
        rw [sub32_of_le (by omega) (by omega)]
        omega
      rw [header, whole, sub32_of_le (by omega) (by omega)]
      omega
    rw [byteCount]
    have patched := CBuffer.patch_cursor before (toBE 4 0)
      (toBE 4 (values.flatMap layout).length)
      (toBE 4 values.length ++ values.flatMap layout) (by simp)
    simp only [layoutCounted, ← append_assoc] at patched ⊢
    rw [patched]

theorem deserializeWord_reads {width value : Nat} (positive : 0 < width)
    (small : value < 256 ^ width) :
    Reads (deserializeWord width) (toBE width value) value := by
  intro before after
  have size : (cursor before (toBE width value ++ after)).size = width + after.length := by
    simp
  have taken : (toBE width value ++ after).take width = toBE width value :=
    take_left' (length_toBE width value)
  rw [deserializeWord, size, if_neg (by omega), if_neg (by omega), CBuffer.ptr_cursor, taken,
    ofBE_toBE_of_lt small, CBuffer.incOffset_cursor_of_length (length_toBE width value)]

theorem deserializeFixed_reads (type : FixedType) (value : type.Val) :
    Reads (deserializeFixed type) (type.layout value) value := by
  intro before after
  have word := deserializeWord_reads type.width_pos (type.word_lt value) before after
  rw [FixedType.layout, deserializeFixed, word]
  simp

theorem deserializeWord_layoutBytes (small : value.length < 2 ^ 32)
    (before after : List UInt8) :
    deserializeWord 4 (cursor before (layoutBytes value ++ after)) =
      (.success, value.length, cursor (before ++ toBE 4 value.length) (value ++ after)) := by
  rw [layoutBytes, append_assoc]
  exact deserializeWord_reads (by decide) small before (value ++ after)

theorem deserializeString_reads (small : value.length < 2 ^ 32) :
    Reads deserializeString (layoutBytes value) value := by
  intro before after
  rw [deserializeString, deserializeWord_layoutBytes small]
  simp only [Status.failed_success, Bool.false_eq_true, if_false]
  by_cases empty : value.length = 0
  · rw [if_pos empty, eq_nil_of_length_eq_zero empty, layoutBytes]
    simp
  · have whole : min value.length (value.length + after.length) = value.length := by omega
    rw [if_neg empty]
    simp only [CBuffer.size_cursor, CBuffer.ptr_cursor, length_append, whole]
    rw [CBuffer.incOffset_cursor, take_left, layoutBytes, append_assoc]

theorem deserializeBuf_reads (small : value.length ≤ maxBytesPerBuffer) :
    Reads deserializeBuf (layoutBytes value) value := by
  intro before after
  have limits : maxBytesPerBuffer < 2 ^ 32 ∧ maxBytesPerBuffer ≤ bufMaxSize := by decide
  rw [deserializeBuf, deserializeWord_layoutBytes (by omega)]
  simp only [Status.failed_success, Bool.false_eq_true, if_false]
  by_cases empty : value.length = 0
  · rw [if_pos empty, eq_nil_of_length_eq_zero empty, layoutBytes]
    simp
  · rw [if_neg empty]
    simp only [CBuffer.size_cursor, CBuffer.ptr_cursor, length_append]
    rw [if_neg (by omega), if_neg (by omega), if_neg (by omega), CBuffer.incOffset_cursor,
      take_left, layoutBytes, append_assoc]

theorem deserializePrime_reads {type : PrimeType} {value : type.Val}
    (small : (type.layout value).length < 2 ^ 32) :
    Reads (deserializePrime type) (type.layout value) value := by
  cases type with
  | fixed type => exact deserializeFixed_reads type value
  | string =>
    simp only [PrimeType.layout, length_layoutBytes] at small
    exact deserializeString_reads (by omega)

private theorem take_word (value : Nat) (after : List UInt8) : (toBE 4 value ++ after).take 4 = toBE 4 value :=
  take_left' (length_toBE 4 value)

private theorem drop_word (value : Nat) (after : List UInt8) : (toBE 4 value ++ after).drop 4 = after :=
  drop_left' (length_toBE 4 value)

theorem deserializeObj_none (before after : List UInt8) :
    deserializeObj C (cursor before (layoutObj (C := C) none ++ after)) =
      (.success, none, cursor before (layoutObj (C := C) none ++ after)) := by
  have length : (layoutObj (C := C) none ++ after).length = 12 + after.length := by
    simp only [layoutObj, length_append, length_toBE]
  have size : ofBE (((layoutObj (C := C) none ++ after).drop 4).take 4) = 0 := by
    simp only [layoutObj, append_assoc]
    rw [drop_word, take_word, ofBE_toBE_of_lt (by decide)]
  rw [deserializeObj]
  simp only [CBuffer.size_cursor, CBuffer.ptr_cursor, length, size]
  rw [if_neg (by omega), if_neg (by omega), if_pos trivial]

theorem deserializeObj_some_reads {obj : C.Obj}
    (small : (C.serialized obj).length < 2 ^ 32) :
    Reads (deserializeObj C) (layoutObj (some obj)) (some obj) := by
  intro before after
  rw [C.length_serialized] at small
  have positive := C.body_pos obj
  have length : (C.serialized obj ++ after).length = 12 + (C.body obj).length + after.length := by
    rw [length_append, C.length_serialized]
  have clsid : ofBE ((C.serialized obj ++ after).take 4) = C.clsid obj := by
    simp only [ObjectClasses.serialized, append_assoc]
    rw [take_word, ofBE_toBE_of_lt (C.clsid_lt obj)]
  have size : ofBE (((C.serialized obj ++ after).drop 4).take 4) = (C.body obj).length := by
    simp only [ObjectClasses.serialized, append_assoc]
    rw [drop_word, take_word, ofBE_toBE_of_lt (by omega)]
  have made : C.newObj (C.clsid obj) (C.serialized obj ++ after) = some obj :=
    C.newObj_serialized obj after
  rw [layoutObj, deserializeObj]
  simp only [CBuffer.size_cursor, CBuffer.ptr_cursor, length, clsid, size, made]
  rw [if_neg (by omega), if_neg (by omega), if_neg (by omega),
    CBuffer.incOffset_cursor_of_length (by rw [C.length_serialized]; omega)]

theorem deserializeVariantObj_some_reads {obj : C.Obj}
    (small : (C.serialized obj).length < 2 ^ 32) :
    Reads (deserializeVariantObj C) (layoutObj (some obj)) (.obj (some obj)) := by
  intro before after
  have word : ofBE ((layoutObj (some obj) ++ after).take 4) = C.clsid obj := by
    simp only [layoutObj, ObjectClasses.serialized, append_assoc]
    rw [take_word, ofBE_toBE_of_lt (C.clsid_lt obj)]
  have length := length_layoutObj_ge (some obj)
  rw [deserializeVariantObj]
  simp only [CBuffer.size_cursor, CBuffer.ptr_cursor, word, length_append]
  rw [if_neg (by omega), if_neg (C.clsid_ne_magic obj), deserializeObj_some_reads small]

theorem deserializeVariantObj_none (before after : List UInt8) :
    deserializeVariantObj C (cursor before (layoutObj (C := C) none ++ after)) =
      (.success, .obj none, cursor before (layoutObj (C := C) none ++ after)) := by
  have word : ofBE ((layoutObj (C := C) none ++ after).take 4) = clsidInvalid := by
    simp only [layoutObj, append_assoc]
    rw [take_word, ofBE_toBE_of_lt (by decide)]
  have length := length_layoutObj_ge (C := C) none
  rw [deserializeVariantObj]
  simp only [CBuffer.size_cursor, CBuffer.ptr_cursor, word, length_append]
  rw [if_neg (by omega), if_neg (by decide), deserializeObj_none]

theorem deserializeVariantObj_struct_reads (item : C.Struct) :
    Reads (deserializeVariantObj C) (C.serializedStruct item) (.struct item) := by
  intro before after
  have length : (C.serializedStruct item).length = 8 + (C.fields item).length := by
    simp only [RidlClasses.serializedStruct, length_append, length_toBE]
  have magic : ofBE ((C.serializedStruct item ++ after).take 4) = serialStructMagic := by
    simp only [RidlClasses.serializedStruct, append_assoc]
    rw [take_word, ofBE_toBE_of_lt (by decide)]
  have msgId : ofBE (((C.serializedStruct item ++ after).drop 4).take 4) = C.msgId item := by
    simp only [RidlClasses.serializedStruct, append_assoc]
    rw [drop_word, take_word, ofBE_toBE_of_lt (C.msgId_lt item)]
  have made : C.newStruct (C.msgId item) (C.serializedStruct item ++ after) =
      some (item, 8 + (C.fields item).length) :=
    C.newStruct_serialized item after
  rw [deserializeVariantObj]
  simp only [CBuffer.size_cursor, CBuffer.ptr_cursor, length_append, magic, msgId, made]
  rw [if_neg (by omega), if_pos trivial, CBuffer.incOffset_cursor_of_length length]

private theorem setOffset_behind_byte (before after : List UInt8) (byte : UInt8) :
    (cursor before (byte :: after)).setOffset ((cursor before (byte :: after)).offset + 1) =
      cursor (before ++ [byte]) after := by
  have step := CBuffer.incOffset_cursor before [byte] after
  exact step

theorem deserializeVariant_behind_byte (value : Variant C) (before after : List UInt8) :
    deserializeVariant C (cursor before (value.layout ++ after)) =
      deserializeVariantValue C value.typeId
        (cursor (before ++ [value.typeId]) (value.layoutValue ++ after)) := by
  have ptr : (cursor before (value.layout ++ after)).ptr = value.typeId :: (value.layoutValue ++ after) := by
    rw [CBuffer.ptr_cursor, Variant.layout, cons_append]
  rw [deserializeVariant]
  simp only [ptr]
  rw [Variant.layout, cons_append, setOffset_behind_byte]

end RpcFrmwrk.Ridl
