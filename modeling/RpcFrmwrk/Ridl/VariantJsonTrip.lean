import RpcFrmwrk.Ridl.JsonText
import RpcFrmwrk.Ridl.Sequence

/-! What becomes of a `Variant` that is written as a JSON document and read again, and of texts from
which none can be built. Owns `JsonTrips` and `Reports`, and exactly when they hold. -/

namespace RpcFrmwrk.Ridl

open RpcFrmwrk.Library RpcFrmwrk.Combase List

variable {C : RidlClasses} (J : JsonLib) (build64 : Bool)

def JsonTrips (behind : List UInt8) (value : Variant C) : Prop :=
  ∃ count text, serializeToJson J behind value = .done count text ∧
    ∀ left old, ∃ ret, deserializeFromJson J build64 left old text = (.ok ret, value)

def Carries (C : RidlClasses) (typeId : UInt8) (val : J.Value) : Prop :=
  match typeId with
  | 1 | 2 | 3 => (J.asUInt val).isSome = true
  | 4 =>
    (J.asUInt64 val).isSome = true ∨
      J.isString val = true ∧ ∃ text, J.asString val = some text ∧ (readNumeral build64 text).isSome = true
  | 5 => (J.asFloat val).isSome = true
  | 6 => (J.asDouble val).isSome = true
  | 7 => (J.asString val).isSome = true
  | 9 =>
    ∃ text bytes, J.asString val = some text ∧ base64Decode text = .ok bytes ∧ 8 ≤ bytes.length ∧
      (deserializeObj C (CBuffer.cursor [] bytes)).1 = .success
  | 10 => ∃ text bytes, J.asString val = some text ∧ base64Decode text = .ok bytes
  | _ => False

def Builds (C : RidlClasses) (text : List UInt8) : Prop :=
  ∃ doc typeVal number, J.parse text = .value doc ∧ J.typeMember doc = some typeVal ∧
    J.asInt typeVal = some number ∧
      (UInt8.ofInt number = 0 ∨ ∃ val, J.member keyV doc = some val ∧ Carries J build64 C (UInt8.ofInt number) val)

def Reports (C : RidlClasses) (text : List UInt8) : Prop :=
  ¬ Builds J build64 C text →
    ∀ left (old : Variant C), ∃ ret, (deserializeFromJson J build64 left old text).1 = .error ret

def JsonLib.KeepsFloat (bits : UInt32) : Prop :=
  ∃ val, J.Holds (J.document 5 (some (J.ofFloat bits))) 5 val ∧ J.asFloat val = some bits

def JsonLib.KeepsDouble (bits : UInt64) : Prop :=
  ∃ val, J.Holds (J.document 6 (some (J.ofDouble bits))) 6 val ∧ J.asDouble val = some bits

/-- No byte array, struct, null pointer or message, and no 64-bit number from 2^31 to `MAX_SAFE_INTEGER`;
a larger one only where a `long` has 64 bits. The base64 text of an object is not too long for a buffer, and
it is still one with what stands behind it in memory. -/
def Kept (behind : List UInt8) : Variant C → Prop
  | .uint64 number => number.toNat < 2 ^ 31 ∨ maxSafeInteger < number.toNat ∧ build64 = true
  | .float bits => J.KeepsFloat bits
  | .double bits => J.KeepsDouble bits
  | .obj (some obj) =>
    base64EncLen (C.serialized obj).length ≤ maxBytesPerBuffer ∧
      ∃ bytes, base64Decode (base64Text (C.serialized obj) ++ behind) = .ok bytes
  | .struct _ | .obj none | .byteArr _ | .dMsg => False
  | _ => True

def Converts (typeId : UInt8) (val : J.Value) : Prop :=
  match typeId with
  | 1 | 2 | 3 => (J.asUInt val).isSome = true
  | 4 => (J.asUInt64 val).isSome = true ∨ J.isString val = true
  | 5 => (J.asFloat val).isSome = true
  | 6 => (J.asDouble val).isSome = true
  | 7 | 9 | 10 => (J.asString val).isSome = true
  | _ => True

/-- The parser raises no exception, and the value of a document can be converted to the announced type. -/
def Convertible (text : List UInt8) : Prop :=
  (J.parse text).Ends ∧ ∀ doc typeVal number val, J.parse text = .value doc → J.typeMember doc = some typeVal →
    J.asInt typeVal = some number → J.member keyV doc = some val → Converts J (UInt8.ofInt number) val

variable {J build64}

variable {text behind : List UInt8} {typeId : UInt8} {val : J.Value} {value : Variant C}
    {count ret : Nat} {α : Type}

theorem deserialize_holds (holds : J.Holds text typeId val)
    (typed : typeId ≠ 0) (left : UInt64) (old : Variant C) :
    deserializeFromJson J build64 left old text =
      concluded (readValue J build64 (clearedQword left old) typeId val) := by
  obtain ⟨doc, ⟨parsed, typeVal, number, found, as, rfl⟩, member⟩ := holds
  unfold deserializeFromJson
  rw [parsed]
  simp only
  rw [found]
  simp only
  rw [as]
  simp only
  rw [if_neg typed, member]

theorem jsonTrips_iff_read
    (typed : value.typeId ≠ 0) (written : serializeToJson J behind value = .done count text)
    (holds : J.Holds text value.typeId val) :
    JsonTrips J build64 behind value ↔ ∀ left (old : Variant C), ∃ ret,
      readValue J build64 (clearedQword left old) value.typeId val = .done ret value := by
  have other : value ≠ .none := by
    rintro rfl
    exact typed rfl
  constructor
  · rintro ⟨_, text', written', trips⟩ left old
    rw [written] at written'
    cases written'
    obtain ⟨ret, ran⟩ := trips left old
    rw [deserialize_holds holds typed] at ran
    cases read : readValue J build64 (clearedQword left old) value.typeId val with
    | done ret' value' =>
      rw [read, concluded, Prod.mk.injEq] at ran
      exact ⟨ret', by rw [ran.2]⟩
    | failed ret' =>
      rw [read] at ran
      cases (Prod.mk.inj ran).1
    | raised | fault =>
      rw [read] at ran
      exact absurd (Prod.mk.inj ran).2.symm other
  · intro trips
    refine ⟨count, text, written, fun left old => ?_⟩
    obtain ⟨ret, read⟩ := trips left old
    refine ⟨ret, ?_⟩
    rw [deserialize_holds holds typed, read]
    rfl

theorem jsonTrips_of_converted {conversion : J.Value → Option α} {make : α → Variant C} {payload : α}
    (typed : value.typeId ≠ 0) (written : serializeToJson J behind value = .done count text)
    (reads : ∀ cleared val, readValue J build64 cleared value.typeId val = converted (conversion val) make)
    (holds : J.Holds text value.typeId val) (as : conversion val = some payload)
    (made : make payload = value) :
    JsonTrips J build64 behind value := by
  refine (jsonTrips_iff_read typed written holds).2 fun left old => ⟨0, ?_⟩
  rw [reads, as, converted, made]

theorem jsonTrips_none (preserves : J.Preserves) (behind : List UInt8) :
    JsonTrips J build64 behind (Variant.none : Variant C) := by
  obtain ⟨doc, parsed, typeVal, number, found, as, isNone⟩ := preserves.noValue 0 (by decide)
  refine ⟨0, _, rfl, fun left old => ⟨0, ?_⟩⟩
  unfold deserializeFromJson
  rw [show (Variant.none : Variant C).typeId = 0 from rfl, parsed]
  simp only
  rw [found]
  simp only
  rw [as]
  exact if_pos isNone

theorem jsonTrips_uint64 (preserves : J.Preserves) (behind : List UInt8) (number : UInt64) :
    JsonTrips J build64 behind (Variant.uint64 number : Variant C) ↔
      number.toNat < 2 ^ 31 ∨ maxSafeInteger < number.toNat ∧ build64 = true := by
  have bounded := number.toNat_lt
  have typed : (Variant.uint64 number : Variant C).typeId ≠ 0 := show (4 : UInt8) ≠ 0 by decide
  by_cases safe : number.toNat ≤ maxSafeInteger
  · obtain ⟨val, holds, as, isInt, isString⟩ := preserves.uint64 4 (by decide) number.toNat bounded
    have written : serializeToJson J behind (Variant.uint64 number : Variant C) = .done 0 _ := if_pos safe
    rw [jsonTrips_iff_read typed written holds]
    have read (cleared : UInt64) : readValue J build64 cleared (4 : UInt8) val =
        (if number.toNat < 2 ^ 31 then .done 0 (.uint64 number) else .done 0 (.uint64 cleared) : Ended (Variant C)) := by
      show readQword J build64 cleared val = _
      unfold readQword
      rw [isInt, isString, as]
      by_cases small : number.toNat < 2 ^ 31
      · rw [if_pos (decide_eq_true small), if_pos small, converted, UInt64.ofNat_toNat]
      · rw [if_neg (by rw [decide_eq_false small]; exact Bool.false_ne_true), if_neg small,
          if_neg Bool.false_ne_true]
    constructor
    · intro trips
      -- A new variant has no number to leave.
      obtain ⟨ret, same⟩ := trips 0 .none
      rw [show (Variant.uint64 number : Variant C).typeId = 4 from rfl, read] at same
      by_cases small : number.toNat < 2 ^ 31
      · exact .inl small
      · rw [if_neg small, Ended.done.injEq, Variant.uint64.injEq] at same
        rw [← same.2] at small
        exact absurd (show (0 : UInt64).toNat < 2 ^ 31 by decide) small
    · rintro (small | ⟨large, _⟩) left old
      · exact ⟨0, by rw [show (Variant.uint64 number : Variant C).typeId = 4 from rfl, read, if_pos small]⟩
      · omega
  · obtain ⟨val, holds, as, isInt, isString⟩ := preserves.string 4 (by decide) (decimal number.toNat)
    have written : serializeToJson J behind (Variant.uint64 number : Variant C) = .done 0 _ := if_neg safe
    rw [jsonTrips_iff_read typed written holds]
    have whole : cString (decimal number.toNat) = decimal number.toNat := by
      refine takeWhile_eq_self_iff.2 fun char member => ?_
      obtain ⟨digit, small, rfl⟩ := mem_decimal member
      have all : ∀ digit : Fin 10, (48 + UInt8.ofNat digit != 0) = true := by decide
      exact all ⟨digit, small⟩
    have numeral : readNumeral build64 (decimal number.toNat) = some (min number.toNat (ulongMax build64)) := by
      unfold readNumeral
      rw [if_neg (decimal_ne_nil _), whole, strtoul_decimal]
      rfl
    have read (cleared : UInt64) : readValue J build64 cleared (4 : UInt8) val =
        (.done 0 (.uint64 (UInt64.ofNat (min number.toNat (ulongMax build64)))) : Ended (Variant C)) := by
      show readQword J build64 cleared val = _
      unfold readQword
      rw [isInt, isString, as, if_neg Bool.false_ne_true, if_pos rfl]
      simp only
      rw [numeral]
    rw [show (Variant.uint64 number : Variant C).typeId = 4 from rfl]
    simp only [read]
    unfold maxSafeInteger at safe ⊢
    cases build64 with
    | true =>
      have most : min number.toNat (ulongMax true) = number.toNat :=
        Nat.min_eq_left (show number.toNat ≤ 2 ^ 64 - 1 by omega)
      rw [most, UInt64.ofNat_toNat]
      exact ⟨fun _ => .inr ⟨by omega, rfl⟩, fun _ _ _ => ⟨0, rfl⟩⟩
    | false =>
      have most : min number.toNat (ulongMax false) = 2 ^ 32 - 1 :=
        Nat.min_eq_right (show 2 ^ 32 - 1 ≤ number.toNat by omega)
      rw [most]
      constructor
      · intro trips
        obtain ⟨ret, same⟩ := trips 0 .none
        rw [Ended.done.injEq, Variant.uint64.injEq] at same
        rw [← same.2] at safe
        exact absurd (by decide) safe
      · rintro (small | ⟨_, never⟩)
        · omega
        · cases never

/-! ### Objects and byte arrays -/

theorem typeId_le (value : Variant C) : value.typeId ≤ 10 := by
  have all (typeId : Nat) (small : typeId ≤ 10) : UInt8.ofNat typeId ≤ 10 := by
    have bounded : ∀ typeId : Fin 11, UInt8.ofNat typeId ≤ 10 := by decide
    exact bounded ⟨typeId, Nat.lt_succ_of_le small⟩
  cases value with
  | none => exact all 0 (by decide)
  | byte => exact all 1 (by decide)
  | uint16 => exact all 2 (by decide)
  | uint32 => exact all 3 (by decide)
  | uint64 => exact all 4 (by decide)
  | float => exact all 5 (by decide)
  | double => exact all 6 (by decide)
  | string => exact all 7 (by decide)
  | dMsg => exact all 8 (by decide)
  | obj | struct => exact all 9 (by decide)
  | byteArr => exact all 10 (by decide)

theorem jsonTrips_base64 (preserves : J.Preserves) {bytes : List UInt8}
    (typed : value.typeId ≠ 0) (known : value.typeId ≤ 10) (nonempty : bytes ≠ [])
    (written : serializeToJson J behind value = base64ToJson J behind value.typeId bytes)
    {make : List UInt8 → Ended (Variant C)}
    (reads : ∀ cleared val, readValue J build64 cleared value.typeId val = readBase64 J val make) :
    JsonTrips J build64 behind value ↔
      base64EncLen bytes.length ≤ maxBytesPerBuffer ∧
        ∃ decoded ret, base64Decode (base64Text bytes ++ behind) = .ok decoded ∧ make decoded = .done ret value := by
  by_cases fits : base64EncLen bytes.length ≤ maxBytesPerBuffer
  · have positive : base64EncLen bytes.length ≠ 0 := by
      have length := length_pos_of_ne_nil nonempty
      unfold base64EncLen
      omega
    have encoded : base64Encode bytes = .done (base64EncLen bytes.length) (some (base64Text bytes)) := by
      unfold base64Encode
      rw [if_neg (Nat.not_lt.2 fits), if_neg positive]
    have document : serializeToJson J behind value = .done (base64EncLen bytes.length)
        (J.document value.typeId (some (J.ofString (base64Text bytes ++ behind)))) := by
      rw [written, base64ToJson, encoded]
      simp only [Option.map_some]
      rw [preserves.chars]
    obtain ⟨val, holds, as, _, _⟩ := preserves.string value.typeId known (base64Text bytes ++ behind)
    rw [jsonTrips_iff_read typed document holds]
    simp only [reads]
    unfold readBase64
    rw [as]
    simp only
    cases decoding : base64Decode (base64Text bytes ++ behind) with
    | error ret =>
      refine ⟨fun trips => ?_, fun ⟨_, _, _, never, _⟩ => ?_⟩
      · obtain ⟨_, ⟨⟩⟩ := trips 0 .none
      · cases never
    | ok decoded =>
      constructor
      · intro trips
        obtain ⟨ret, made⟩ := trips 0 .none
        exact ⟨fits, decoded, ret, rfl, made⟩
      · rintro ⟨_, _, ret, same, made⟩ _ _
        cases same
        exact ⟨ret, made⟩
  · refine ⟨fun ⟨_, _, done, _⟩ => ?_, fun ⟨never, _⟩ => absurd never fits⟩
    rw [written, base64ToJson, base64Encode, if_pos (Nat.lt_of_not_le fits)] at done
    cases done

theorem jsonTrips_obj (preserves : J.Preserves) (behind : List UInt8) (obj : C.Obj) :
    JsonTrips J build64 behind (Variant.obj (some obj) : Variant C) ↔
      base64EncLen (C.serialized obj).length ≤ maxBytesPerBuffer ∧
        ∃ bytes, base64Decode (base64Text (C.serialized obj) ++ behind) = .ok bytes := by
  have length := C.length_serialized obj
  have nonempty : C.serialized obj ≠ [] := ne_nil_of_length_pos (by omega)
  have typed : (Variant.obj (some obj) : Variant C).typeId ≠ 0 := show (9 : UInt8) ≠ 0 by decide
  have reads (cleared : UInt64) (val : J.Value) :
      (readValue J build64 cleared (Variant.obj (some obj) : Variant C).typeId val : Ended (Variant C)) =
        readBase64 J val readObjJson := rfl
  refine (jsonTrips_base64 preserves typed (typeId_le _) nonempty rfl reads).trans (and_congr_right fun fits => ?_)
  constructor
  · rintro ⟨bytes, _, decoded, _⟩
    exact ⟨bytes, decoded⟩
  · rintro ⟨bytes, decoded⟩
    obtain ⟨rest, rfl, _⟩ := prefix_of_base64Decode decoded
    refine ⟨_, 0, decoded, ?_⟩
    have body := C.body_pos obj
    have small : (C.body obj).length < 256 ^ 4 := by
      unfold base64EncLen maxBytesPerBuffer at fits
      omega
    have total : (C.serialized obj ++ rest).length = 12 + (C.body obj).length + rest.length := by
      rw [length_append, length]
    have front : C.serialized obj ++ rest = toBE 4 (C.clsid obj) ++ (toBE 4 (C.body obj).length ++
        (C.info obj ++ (C.body obj ++ rest))) := by
      simp only [ObjectClasses.serialized, append_assoc]
    have clsid : ofBE ((C.serialized obj ++ rest).take 4) = C.clsid obj := by
      rw [front, take_left' (length_toBE 4 _)]
      exact ofBE_toBE_of_lt (C.clsid_lt obj)
    have size : ofBE (((C.serialized obj ++ rest).drop 4).take 4) = (C.body obj).length := by
      rw [front, drop_left' (length_toBE 4 _), take_left' (length_toBE 4 _)]
      exact ofBE_toBE_of_lt small
    have made : C.newObj (C.clsid obj) (C.serialized obj ++ rest) = some obj := C.newObj_serialized obj rest
    have ran : deserializeObj C (CBuffer.cursor [] (C.serialized obj ++ rest)) =
        (.success, some obj, (CBuffer.cursor [] (C.serialized obj ++ rest)).incOffset ((C.body obj).length + 12)) := by
      unfold deserializeObj
      rw [CBuffer.size_cursor, CBuffer.ptr_cursor, if_neg (by omega)]
      simp only
      rw [size, clsid, if_neg (by omega), if_neg (by omega), made]
    unfold readObjJson
    rw [if_neg (by omega), ran]
    rfl

theorem appendAtTail_refused {before block : List UInt8} (nonempty : block ≠ [])
    (large : maxBytesPerBuffer < before.length + block.length) :
    (CBuffer.cursor before []).appendAtTail block = CBuffer.cursor [] before := by
  have kept : ((CBuffer.cursor before []).setOffset 0).append block = (.einval, CBuffer.cursor [] before) ∨
      ((CBuffer.cursor before []).setOffset 0).append block = (.e2big, CBuffer.cursor [] before) := by
    rw [CBuffer.setOffset_zero_cursor, append_nil, CBuffer.append, CBuffer.size_cursor]
    by_cases bad : block.length = 0 ∨ bufMaxSize < block.length
    · exact .inl (if_pos bad)
    · rw [if_neg bad]
      exact .inr (if_pos large)
  have behind : ¬ before.length + block.length ≤ (CBuffer.cursor [] before).data.length := by
    have positive := length_pos_of_ne_nil nonempty
    rw [CBuffer.data_cursor, nil_append]
    omega
  rcases kept with same | same <;> rw [CBuffer.appendAtTail, same, CBuffer.offset_cursor, CBuffer.setOffset, dif_neg behind]

/-- What was written of a byte array is never read as the byte array: the text is made of nothing, or of the
length alone. -/
theorem not_jsonTrips_byteArr (preserves : J.Preserves) (behind bytes : List UInt8) :
    ¬ JsonTrips J build64 behind (Variant.byteArr bytes : Variant C) := by
  have ofNothing : base64ToJson J behind 10 [] = .raised := by
    rw [base64ToJson, show base64Encode [] = .done 0 none from rfl]
    simp only [Option.map_none]
    rw [preserves.null]
  have behindAll (front : List UInt8) (buf : CBuffer) (whole : buf = CBuffer.cursor front [])
      (written : serializeBytes bytes CBuffer.empty = (.success, buf)) :
      ¬ JsonTrips J build64 behind (Variant.byteArr bytes : Variant C) := by
    rintro ⟨_, _, done, _⟩
    rw [serializeToJson, written, whole] at done
    simp only [Status.failed_success, CBuffer.ptr_cursor] at done
    rw [if_neg Bool.false_ne_true] at done
    cases ofNothing.symm.trans done
  by_cases large : maxBytesPerBuffer ≤ bytes.length % 2 ^ 32
  · rintro ⟨_, _, done, _⟩
    have refused : serializeBytes bytes CBuffer.empty = (.erange, CBuffer.empty) := if_pos large
    rw [serializeToJson, refused] at done
    cases done
  · have start : CBuffer.empty = CBuffer.cursor [] [] := CBuffer.ext rfl rfl
    have room : ([] : List UInt8).length + 4 ≤ maxBytesPerBuffer := by decide
    have length := serializeUInt32_cursor (bytes.length % 2 ^ 32) room
    rw [← start, nil_append] at length
    by_cases zero : bytes.length % 2 ^ 32 = 0
    · have done : serializeBytes bytes CBuffer.empty =
          (.success, CBuffer.cursor (toBE 4 (bytes.length % 2 ^ 32)) []) := by
        unfold serializeBytes
        simp only
        rw [if_neg large, length, if_pos zero]
      exact behindAll _ _ rfl done
    · have taken : (bytes.take (bytes.length % 2 ^ 32)).length = bytes.length % 2 ^ 32 := by
        rw [length_take]
        exact Nat.min_eq_left (Nat.mod_le _ _)
      have nonempty : bytes.take (bytes.length % 2 ^ 32) ≠ [] := ne_nil_of_length_pos (by omega)
      have done : serializeBytes bytes CBuffer.empty =
          (.success, (CBuffer.cursor (toBE 4 (bytes.length % 2 ^ 32)) []).appendAtTail
            (bytes.take (bytes.length % 2 ^ 32))) := by
        unfold serializeBytes
        simp only
        rw [if_neg large, length, if_neg zero]
      by_cases fits : 4 + bytes.length % 2 ^ 32 ≤ maxBytesPerBuffer
      · refine behindAll (toBE 4 (bytes.length % 2 ^ 32) ++ bytes.take (bytes.length % 2 ^ 32)) _ ?_ done
        apply CBuffer.appendAtTail_cursor nonempty
        rw [length_toBE, taken]
        exact fits
      · -- The second block is refused, and the offset with it.
        have refused : (CBuffer.cursor (toBE 4 (bytes.length % 2 ^ 32)) []).appendAtTail
            (bytes.take (bytes.length % 2 ^ 32)) = CBuffer.cursor [] (toBE 4 (bytes.length % 2 ^ 32)) := by
          apply appendAtTail_refused nonempty
          rw [length_toBE, taken]
          exact Nat.lt_of_not_le fits
        have written : serializeToJson J behind (Variant.byteArr bytes : Variant C) =
            base64ToJson J behind (Variant.byteArr bytes : Variant C).typeId (toBE 4 (bytes.length % 2 ^ 32)) := by
          rw [serializeToJson, done, refused]
          simp only [Status.failed_success, CBuffer.ptr_cursor]
          exact if_neg Bool.false_ne_true
        have typed : (Variant.byteArr bytes : Variant C).typeId ≠ 0 := show (10 : UInt8) ≠ 0 by decide
        have reads (cleared : UInt64) (val : J.Value) :
            (readValue J build64 cleared (Variant.byteArr bytes : Variant C).typeId val : Ended (Variant C)) =
              readBase64 J val fun bytes => .done bytes.length (.byteArr bytes) := rfl
        rw [jsonTrips_base64 preserves typed (typeId_le _) (toBE_ne_nil (by decide) _) written reads]
        rintro ⟨_, decoded, _, decoding, same⟩
        obtain ⟨rest, whole, alone⟩ := prefix_of_base64Decode decoding
        rw [length_toBE] at alone
        rw [alone (by decide), append_nil] at whole
        rw [Ended.done.injEq, Variant.byteArr.injEq] at same
        rw [← same.2, whole, length_toBE] at fits
        exact fits (by decide)

theorem not_jsonTrips_struct (preserves : J.Preserves) (behind : List UInt8) (item : C.Struct) :
    ¬ JsonTrips J build64 behind (Variant.struct item : Variant C) := by
  have nonempty : C.serializedStruct item ≠ [] := by
    unfold RidlClasses.serializedStruct
    refine ne_nil_of_length_pos ?_
    rw [length_append, length_append, length_toBE, length_toBE]
    omega
  have typed : (Variant.struct item : Variant C).typeId ≠ 0 := show (9 : UInt8) ≠ 0 by decide
  have reads (cleared : UInt64) (val : J.Value) :
      (readValue J build64 cleared (Variant.struct item : Variant C).typeId val : Ended (Variant C)) =
        readBase64 J val readObjJson := rfl
  rw [jsonTrips_base64 preserves typed (typeId_le _) nonempty rfl reads]
  rintro ⟨_, decoded, ret, _, made⟩
  unfold readObjJson at made
  split at made
  · cases made
  · simp only at made
    split at made <;> cases made

/-! ### Errors -/

theorem typeId_cases (typeId : UInt8) :
    typeId ∈ ([1, 2, 3, 4, 5, 6, 7, 9, 10] : List UInt8) ∨
      (∀ cleared val, (readValue J build64 cleared typeId val : Ended (Variant C)) = .failed .enotsup) ∧
        (∀ val, Converts J typeId val) ∧ ∀ val, ¬ Carries J build64 C typeId val := by
  by_cases known : typeId ∈ ([1, 2, 3, 4, 5, 6, 7, 9, 10] : List UInt8)
  · exact .inl known
  · simp only [mem_cons, not_mem_nil, or_false, not_or] at known
    obtain ⟨not1, not2, not3, not4, not5, not6, not7, not9, not10⟩ := known
    refine .inr ⟨fun cleared val => ?_, fun val => ?_, fun val => ?_⟩
    · unfold readValue
      split <;> first | contradiction | rfl
    · unfold Converts
      split <;> first | contradiction | trivial
    · unfold Carries
      split <;> first | contradiction | exact id

/-- A value that can be converted gives a variant or an error; any other one gives neither. -/
def Settles (converts carries : Prop) (read : Ended (Variant C)) : Prop :=
  converts ∧ (carries ∨ ∃ ret, read = .failed ret) ∨ ¬ converts ∧ ¬ carries ∧ (concluded read).1 = .ok 0

theorem settles_converted (result : Option α) (make : α → Variant C) :
    Settles (result.isSome = true) (result.isSome = true) (converted result make) := by
  cases result with
  | none => exact .inr ⟨Bool.false_ne_true, Bool.false_ne_true, rfl⟩
  | some value => exact .inl ⟨rfl, .inl rfl⟩

theorem settles_readQword (preserves : J.Preserves) (cleared : UInt64) (val : J.Value) :
    Settles (Converts J 4 val) (Carries J build64 C 4 val)
      (readQword J build64 cleared val : Ended (Variant C)) := by
  show Settles ((J.asUInt64 val).isSome = true ∨ J.isString val = true)
    ((J.asUInt64 val).isSome = true ∨
      J.isString val = true ∧ ∃ text, J.asString val = some text ∧ (readNumeral build64 text).isSome = true) _
  unfold readQword
  by_cases isInt : J.isInt val = true
  · have noString : ¬ J.isString val = true := by
      rw [preserves.int_not_string val isInt]
      exact Bool.false_ne_true
    rw [if_pos isInt]
    rcases settles_converted (J.asUInt64 val) fun number => (Variant.uint64 (UInt64.ofNat number) : Variant C) with
      ⟨converts, _⟩ | ⟨raises, _, code⟩
    · exact .inl ⟨.inl converts, .inl (.inl converts)⟩
    · exact .inr ⟨fun some => some.elim raises noString, fun some => some.elim raises fun some => noString some.1, code⟩
  · rw [if_neg isInt]
    by_cases isString : J.isString val = true
    · rw [if_pos isString]
      refine .inl ⟨.inr isString, ?_⟩
      obtain ⟨text, as⟩ := Option.isSome_iff_exists.1 (preserves.asString_isString val isString)
      rw [as]
      cases numeral : readNumeral build64 text with
      | none => exact .inr ⟨.ebadmsg, by simp only [numeral]⟩
      | some number => exact .inl (.inr ⟨isString, text, rfl, by rw [numeral]; rfl⟩)
    · rw [if_neg isString]
      by_cases converts : (J.asUInt64 val).isSome = true
      · exact .inl ⟨.inl converts, .inl (.inl converts)⟩
      · exact .inr ⟨fun some => some.elim converts isString, fun some => some.elim converts fun some => isString some.1, rfl⟩

theorem settles_readBase64 (val : J.Value) {make : List UInt8 → Ended (Variant C)}
    {Makes : List UInt8 → Prop}
    (made : ∀ bytes, Makes bytes ∨ ∃ ret, make bytes = .failed ret) :
    Settles ((J.asString val).isSome = true)
      (∃ text bytes, J.asString val = some text ∧ base64Decode text = .ok bytes ∧ Makes bytes)
      (readBase64 J val make) := by
  unfold readBase64
  cases as : J.asString val with
  | none =>
    refine .inr ⟨Bool.false_ne_true, ?_, rfl⟩
    rintro ⟨_, _, never, _⟩
    cases never
  | some text =>
    refine .inl ⟨rfl, ?_⟩
    cases decoded : base64Decode text with
    | error ret => exact .inr ⟨ret, by simp only [decoded]⟩
    | ok bytes =>
      rcases made bytes with makes | ⟨ret, fails⟩
      · exact .inl ⟨text, bytes, rfl, decoded, makes⟩
      · exact .inr ⟨ret, by simp only [decoded]; exact fails⟩

theorem settles_readValue (preserves : J.Preserves) (cleared : UInt64) (typeId : UInt8)
    (val : J.Value) :
    Settles (Converts J typeId val) (Carries J build64 C typeId val)
      (readValue J build64 cleared typeId val : Ended (Variant C)) := by
  rcases @typeId_cases C J build64 typeId with known | ⟨reads, converts, _⟩
  · simp only [mem_cons, not_mem_nil, or_false] at known
    rcases known with rfl | rfl | rfl | rfl | rfl | rfl | rfl | rfl | rfl
    · exact settles_converted (J.asUInt val) _
    · exact settles_converted (J.asUInt val) _
    · exact settles_converted (J.asUInt val) _
    · exact settles_readQword preserves cleared val
    · exact settles_converted (J.asFloat val) _
    · exact settles_converted (J.asDouble val) _
    · exact settles_converted (J.asString val) _
    · refine settles_readBase64 val fun bytes => ?_
      unfold readObjJson
      by_cases short : bytes.length < 8
      · exact .inr ⟨.erange, if_pos short⟩
      · rw [if_neg short]
        simp only
        by_cases failed : (deserializeObj C (CBuffer.cursor [] bytes)).1.failed = true
        · exact .inr ⟨_, if_pos failed⟩
        · exact .inl ⟨Nat.le_of_not_lt short, (Status.failed_eq_false_iff _).1 (Bool.not_eq_true _ ▸ failed)⟩
    · have result := @settles_readBase64 C J val (fun bytes => .done bytes.length (.byteArr bytes)) (fun _ => True)
        fun _ => .inl trivial
      simp only [and_true] at result
      exact result
  · exact .inl ⟨converts val, .inr ⟨.enotsup, reads cleared val⟩⟩

theorem asInt_of_typeMember (preserves : J.Preserves) {doc typeVal : J.Value}
    (found : J.typeMember doc = some typeVal) :
    ∃ number, J.asInt typeVal = some number := by
  unfold JsonLib.typeMember at found
  split at found
  · exact Option.isSome_iff_exists.1 (preserves.asInt_isInt typeVal (Option.filter_eq_some_iff.1 found).2)
  · cases found

theorem reports_iff_convertible (preserves : J.Preserves) (text : List UInt8) :
    Reports J build64 C text ↔ Convertible J text := by
  constructor
  · intro reports
    constructor
    · cases parsed : J.parse text with
      | refused => trivial
      | value doc => trivial
      | raised =>
        have unbuilt : ¬ Builds J build64 C text := by
          rintro ⟨_, _, _, never, _⟩
          rw [parsed] at never
          cases never
        obtain ⟨ret, never⟩ := reports unbuilt 0 .none
        rw [deserializeFromJson, parsed] at never
        cases never
    · intro doc typeVal number val parsed found as member
      have decides := @settles_readValue C J build64 preserves (clearedQword 0 (.none : Variant C))
        (UInt8.ofInt number) val
      rcases decides with ⟨converts, _⟩ | ⟨raises, uncarried, code⟩
      · exact converts
      · by_cases noType : UInt8.ofInt number = 0
        · rw [noType]
          trivial
        · have unbuilt : ¬ Builds J build64 C text := by
            rintro ⟨doc', typeVal', number', parsed', found', as', built⟩
            rw [parsed] at parsed'
            cases parsed'
            rw [found] at found'
            cases found'
            rw [as] at as'
            cases as'
            rcases built with zero | ⟨val', member', carries⟩
            · exact noType zero
            · rw [member] at member'
              cases member'
              exact uncarried carries
          obtain ⟨ret, never⟩ := reports unbuilt 0 .none
          unfold deserializeFromJson at never
          rw [parsed] at never
          simp only at never
          rw [found] at never
          simp only at never
          rw [as] at never
          simp only at never
          rw [if_neg noType, member] at never
          simp only at never
          rw [code] at never
          cases never
  · rintro ⟨ends, converts⟩ unbuilt left old
    unfold deserializeFromJson
    cases parsed : J.parse text with
    | refused => exact ⟨.ebadmsg, rfl⟩
    | raised =>
      rw [parsed] at ends
      exact ends.elim
    | value doc =>
      simp only
      cases found : J.typeMember doc with
      | none => exact ⟨.einval, rfl⟩
      | some typeVal =>
        obtain ⟨number, as⟩ := asInt_of_typeMember preserves found
        simp only
        rw [as]
        simp only
        by_cases noType : UInt8.ofInt number = 0
        · exact absurd ⟨doc, typeVal, number, parsed, found, as, .inl noType⟩ unbuilt
        · rw [if_neg noType]
          cases member : J.member keyV doc with
          | none => exact ⟨.einval, rfl⟩
          | some val =>
            rcases @settles_readValue C J build64 preserves (clearedQword left old) (UInt8.ofInt number) val with
              ⟨_, carries | ⟨ret, failed⟩⟩ | ⟨raises, _⟩
            · exact absurd ⟨doc, typeVal, number, parsed, found, as, .inr ⟨val, member, carries⟩⟩ unbuilt
            · refine ⟨ret, ?_⟩
              simp only
              rw [failed]
              rfl
            · exact absurd (converts doc typeVal number val parsed found as member) raises

/-! ### Floating point numbers -/

theorem done_of_converted {α : Type} {result : Option α} {make : α → Variant C} {ret : Nat} {value : Variant C}
    (read : converted result make = .done ret value) : ∃ number, result = some number ∧ value = make number := by
  cases result with
  | none => cases read
  | some number =>
    rw [converted, Ended.done.injEq] at read
    exact ⟨number, rfl, read.2.symm⟩

theorem typeId_of_done {cleared : UInt64}
    (read : readValue J build64 cleared typeId val = .done ret value) : value.typeId = typeId := by
  rcases @typeId_cases C J build64 typeId with known | ⟨reads, _⟩
  · simp only [mem_cons, not_mem_nil, or_false] at known
    have ofBase64 {make : List UInt8 → Ended (Variant C)} (read : readBase64 J val make = .done ret value) :
        ∃ bytes, make bytes = .done ret value := by
      unfold readBase64 at read
      split at read
      · cases read
      · split at read
        · cases read
        · exact ⟨_, read⟩
    rcases known with rfl | rfl | rfl | rfl | rfl | rfl | rfl | rfl | rfl
    · obtain ⟨_, _, rfl⟩ := done_of_converted read
      rfl
    · obtain ⟨_, _, rfl⟩ := done_of_converted read
      rfl
    · obtain ⟨_, _, rfl⟩ := done_of_converted read
      rfl
    · have qword : readQword J build64 cleared val = .done ret value := read
      unfold readQword at qword
      split at qword
      · obtain ⟨_, _, rfl⟩ := done_of_converted qword
        rfl
      · split at qword
        · split at qword
          · cases qword
          · split at qword
            · cases qword
            · rw [Ended.done.injEq] at qword
              rw [← qword.2]
              rfl
        · rw [Ended.done.injEq] at qword
          rw [← qword.2]
          rfl
    · obtain ⟨_, _, rfl⟩ := done_of_converted read
      rfl
    · obtain ⟨_, _, rfl⟩ := done_of_converted read
      rfl
    · obtain ⟨_, _, rfl⟩ := done_of_converted read
      rfl
    · obtain ⟨bytes, made⟩ := ofBase64 read
      unfold readObjJson at made
      split at made
      · cases made
      · simp only at made
        split at made
        · cases made
        · rw [Ended.done.injEq] at made
          rw [← made.2]
          rfl
    · obtain ⟨bytes, made⟩ := ofBase64 read
      rw [Ended.done.injEq] at made
      rw [← made.2]
      rfl
  · rw [reads] at read
    cases read

theorem holds_of_read (other : value ≠ .none)
    (ran : deserializeFromJson J build64 0 (.none : Variant C) text = (.ok ret, value)) :
    ∃ val, J.Holds text value.typeId val ∧ readValue J build64 0 value.typeId val = .done ret value := by
  unfold deserializeFromJson at ran
  split at ran
  · exact absurd (Prod.mk.inj ran).2.symm other
  · cases (Prod.mk.inj ran).1
  · next doc parsed =>
      split at ran
      · cases (Prod.mk.inj ran).1
      · next typeVal found =>
          split at ran
          · exact absurd (Prod.mk.inj ran).2.symm other
          · next number as =>
              simp only at ran
              split at ran
              · exact absurd (Prod.mk.inj ran).2.symm other
              · split at ran
                · cases (Prod.mk.inj ran).1
                · next val member =>
                    cases read : readValue J build64 (clearedQword 0 (.none : Variant C)) (UInt8.ofInt number) val with
                    | done ret' value' =>
                      rw [read, concluded, Prod.mk.injEq, Except.ok.injEq] at ran
                      obtain ⟨rfl, rfl⟩ := ran
                      have same := typeId_of_done read
                      rw [← same] at read
                      exact ⟨val, ⟨doc, ⟨parsed, typeVal, number, found, as, same.symm⟩, member⟩, read⟩
                    | failed ret' =>
                      rw [read] at ran
                      cases (Prod.mk.inj ran).1
                    | raised | fault =>
                      rw [read] at ran
                      exact absurd (Prod.mk.inj ran).2.symm other

theorem jsonTrips_float (behind : List UInt8) (bits : UInt32) :
    JsonTrips J build64 behind (Variant.float bits : Variant C) ↔ J.KeepsFloat bits := by
  constructor
  · rintro ⟨_, _, written, trips⟩
    cases written
    obtain ⟨ret, ran⟩ := trips 0 .none
    have other : (Variant.float bits : Variant C) ≠ .none := by
      intro never
      cases never
    obtain ⟨val, holds, read⟩ := holds_of_read other ran
    obtain ⟨number, as, ⟨⟩⟩ := @done_of_converted C UInt32 _ .float _ _ read
    exact ⟨val, holds, as⟩
  · rintro ⟨val, holds, as⟩
    have typed : (Variant.float bits : Variant C).typeId ≠ 0 := show (5 : UInt8) ≠ 0 by decide
    exact jsonTrips_of_converted typed rfl (fun _ _ => rfl) holds as rfl

theorem jsonTrips_double (behind : List UInt8) (bits : UInt64) :
    JsonTrips J build64 behind (Variant.double bits : Variant C) ↔ J.KeepsDouble bits := by
  constructor
  · rintro ⟨_, _, written, trips⟩
    cases written
    obtain ⟨ret, ran⟩ := trips 0 .none
    have other : (Variant.double bits : Variant C) ≠ .none := by
      intro never
      cases never
    obtain ⟨val, holds, read⟩ := holds_of_read other ran
    obtain ⟨number, as, ⟨⟩⟩ := @done_of_converted C UInt64 _ .double _ _ read
    exact ⟨val, holds, as⟩
  · rintro ⟨val, holds, as⟩
    have typed : (Variant.double bits : Variant C).typeId ≠ 0 := show (6 : UInt8) ≠ 0 by decide
    exact jsonTrips_of_converted typed rfl (fun _ _ => rfl) holds as rfl

/-- A variant comes back from its document exactly when it is of a kind that is kept, and what no variant can
be built from is reported exactly when the library raises no exception over it. -/
theorem json_iff_kept (J : JsonLib) (preserves : J.Preserves) (C : RidlClasses) (build64 : Bool) :
    (∀ behind (value : Variant C), JsonTrips J build64 behind value ↔ Kept J build64 behind value) ∧
      ∀ text, Reports J build64 C text ↔ Convertible J text := by
  refine ⟨fun behind value => ?_, reports_iff_convertible preserves⟩
  cases value with
  | none => exact iff_of_true (jsonTrips_none preserves behind) trivial
  | byte number =>
    have typed : (Variant.byte number : Variant C).typeId ≠ 0 := show (1 : UInt8) ≠ 0 by decide
    obtain ⟨val, holds, as⟩ := preserves.uint 1 (by decide) number.toNat (Nat.lt_trans number.toNat_lt (by decide))
    exact iff_of_true (jsonTrips_of_converted typed rfl (fun _ _ => rfl) holds as (by rw [UInt8.ofNat_toNat])) trivial
  | uint16 number =>
    have typed : (Variant.uint16 number : Variant C).typeId ≠ 0 := show (2 : UInt8) ≠ 0 by decide
    obtain ⟨val, holds, as⟩ := preserves.uint 2 (by decide) number.toNat (Nat.lt_trans number.toNat_lt (by decide))
    exact iff_of_true (jsonTrips_of_converted typed rfl (fun _ _ => rfl) holds as (by rw [UInt16.ofNat_toNat])) trivial
  | uint32 number =>
    have typed : (Variant.uint32 number : Variant C).typeId ≠ 0 := show (3 : UInt8) ≠ 0 by decide
    obtain ⟨val, holds, as⟩ := preserves.uint 3 (by decide) number.toNat number.toNat_lt
    exact iff_of_true (jsonTrips_of_converted typed rfl (fun _ _ => rfl) holds as (by rw [UInt32.ofNat_toNat])) trivial
  | uint64 number => exact jsonTrips_uint64 preserves behind number
  | float bits => exact jsonTrips_float behind bits
  | double bits => exact jsonTrips_double behind bits
  | string text =>
    have typed : (Variant.string text : Variant C).typeId ≠ 0 := show (7 : UInt8) ≠ 0 by decide
    obtain ⟨val, holds, as, _⟩ := preserves.string 7 (by decide) text
    exact iff_of_true (jsonTrips_of_converted typed rfl (fun _ _ => rfl) holds as rfl) trivial
  | dMsg =>
    refine iff_of_false ?_ id
    rintro ⟨_, _, never, _⟩
    cases never
  | obj obj =>
    cases obj with
    | none =>
      refine iff_of_false ?_ id
      rintro ⟨_, _, never, _⟩
      cases never
    | some obj => exact jsonTrips_obj preserves behind obj
  | struct item => exact iff_of_false (not_jsonTrips_struct preserves behind item) id
  | byteArr bytes => exact iff_of_false (not_jsonTrips_byteArr preserves behind bytes) id

/-- A number of 32 bits comes back, and a text of no document is reported. -/
theorem json_uint32 :
    JsonTrips jsonText true [] (Variant.uint32 7 : Variant noObjects) ∧ Reports jsonText true noObjects [120] := by
  obtain ⟨trips, reports⟩ := json_iff_kept jsonText jsonText_preserves noObjects true
  refine ⟨(trips [] (.uint32 7)).2 trivial, (reports [120]).2 ⟨trivial, fun _ _ _ _ never => ?_⟩⟩
  cases never

/-- The number 3000000000 of 64 bits is read as zero. -/
theorem qword_lost : ¬ ∀ (J : JsonLib), J.Preserves → ∀ (C : RidlClasses) (build64 : Bool),
    (∀ behind (value : Variant C), JsonTrips J build64 behind value) ∧ ∀ text, Reports J build64 C text := by
  intro all
  have trips := (all jsonText jsonText_preserves noObjects true).1 [] (.uint64 3000000000)
  rcases (jsonTrips_uint64 jsonText_preserves [] 3000000000).1 trips with small | ⟨large, _⟩
  · exact absurd small (by decide)
  · exact absurd large (by decide)

end RpcFrmwrk.Ridl
