import RpcFrmwrk.Ridl.JavaRead
import RpcFrmwrk.Ridl.JavaWrite
import RpcFrmwrk.Ridl.Sequence

/-! Where the Java serializer and `CSerialBase` agree. Owns the Java value of a value, and what is
read back from its bytes; `Agrees`, writing and reading of one value at any place of a buffer; the
exact condition for it. -/

namespace RpcFrmwrk.Ridl.Java

open RpcFrmwrk.Library List

variable {C : RidlClasses}
variable (type : FixedType)

def primitive : FixedType → Primitive
  | .byte => .byte
  | .bool => .bool
  | .uint16 | .int16 => .short
  | .uint32 | .int32 => .int
  | .uint64 | .int64 => .long
  | .float => .float
  | .double => .double

def ofPrime (C : RidlClasses) : (type : PrimeType) → type.Val → JavaVal C
  | .fixed type, value => .prim (primitive type) (type.word value)
  | .string, value => .string value

/-- `m_val` of a `JVariant`. -/
def ofVariantValue : Variant C → JavaVal C
  | .none | .dMsg => .null
  | .byte value => .prim .byte value.toNat
  | .uint16 value => .prim .short value.toNat
  | .uint32 value => .prim .int value.toNat
  | .uint64 value => .prim .long value.toNat
  | .float bits => .prim .float bits.toNat
  | .double bits => .prim .double bits.toNat
  | .string value => .string value
  | .obj value => .objPtr value
  | .struct value => .struct value
  | .byteArr value => .buf value

/-- The Java value of a value. A map keeps its entries in the order of the other map. -/
def ofVal : (type : FieldType) → type.Val C → JavaVal C
  | .prime type, value => ofPrime C type value
  | .byteArray, value => .buf value
  | .objPtr, value => .objPtr value
  | .struct, value => .struct value
  | .variant, value => .variant value.typeId (ofVariantValue value)
  | .array (.prime (.fixed type)), values => .primArr (primitive type) (values.map type.word)
  | .array elem, values => .objArr (values.map (ofVal elem))
  | .map key elem, values =>
    .map (values.entries.map fun entry => (ofPrime C key entry.1, ofVal elem entry.2))

/-- Java writes the bytes of `CSerialBase` at any place, and reads the value back from them at any
offset. -/
def Agrees (structSig : List Char) (type : FieldType) (value : type.Val C) : Prop :=
  Appends (serialElem (type.signature structSig).length (ofVal type value) (type.signature structSig))
      (type.layout value) ∧
    ∀ before after,
      deserialElem (type.signature structSig).length (before ++ (type.layout value ++ after)) before.length
          (type.signature structSig) =
        some (ofVal type value, before.length + (type.layout value).length)

/-! ### What is written -/

def WordsClean : (type : FixedType) → List type.Val → Prop
  | .bool, _ => False
  | .float, values => ∀ bits ∈ values, bits = 0
  | .double, values => ∀ bits ∈ values, bits = 0
  | _, _ => True

def PrimeWriteClean : (type : PrimeType) → type.Val → Prop
  | .fixed _, _ => True
  | .string, value => Plain value

def VariantWriteClean : Variant C → Prop
  | .string value => Plain value
  | .obj value => value ≠ none
  | .dMsg => False
  | _ => True

/-- What the Java serializer writes as it should: no object is null, every string is plain, and
the numbers of every array are clean. -/
def WriteClean : (type : FieldType) → type.Val C → Prop
  | .prime type, value => PrimeWriteClean type value
  | .byteArray, _ => True
  | .objPtr, value => value ≠ none
  | .struct, _ => True
  | .variant, value => VariantWriteClean value
  | .array (.prime (.fixed type)), values => WordsClean type values
  | .array elem, values => ∀ value ∈ values, WriteClean elem value
  | .map key elem, values => ∀ entry ∈ values.entries, PrimeWriteClean key entry.1 ∧ WriteClean elem entry.2

theorem serialVariant_decides (value : Variant C) :
    Decides (serialVariant (.variant value.typeId (ofVariantValue value))) value.layout (VariantWriteClean value) := by
  cases value with
  | none => exact serialVariant_behind (fun _ => rfl) some_decides
  | byte value => exact serialVariant_behind (fun _ => rfl) (serialPrim_decides .byte value.toNat)
  | uint16 value => exact serialVariant_behind (fun _ => rfl) (serialPrim_decides .short value.toNat)
  | uint32 value => exact serialVariant_behind (fun _ => rfl) (serialPrim_decides .int value.toNat)
  | uint64 value => exact serialVariant_behind (fun _ => rfl) (serialPrim_decides .long value.toNat)
  | float bits => exact serialVariant_behind (fun _ => rfl) (serialPrim_decides .float bits.toNat)
  | double bits => exact serialVariant_behind (fun _ => rfl) (serialPrim_decides .double bits.toNat)
  | string value => exact serialVariant_behind (fun _ => rfl) (serialString_decides value)
  | dMsg => exact serialVariant_behind (fun _ => rfl) (none_decides [] id)
  | obj value => exact serialVariant_behind (fun _ => rfl) (serialObjPtr_decides value)
  | struct item => exact serialVariant_behind (fun _ => rfl) (serialStruct_decides item)
  | byteArr value => exact serialVariant_behind (fun _ => rfl) (put_decides (layoutBytes value) trivial)

theorem primitiveOf_signature : primitiveOf type.signature = some (primitive type) := by
  cases type <;> decide

theorem width_primitive : (primitive type).width = type.width := by
  cases type <;> rfl

theorem serialFunc_decides (type : PrimeType) (value : type.Val) :
    Decides (serialFunc type.signature (ofPrime C type value)) (type.layout value) (PrimeWriteClean type value) := by
  cases type with
  | fixed type =>
    have decides := serialPrim_decides (C := C) (primitive type) (type.word value)
    have same : serialFunc (C := C) type.signature (.prim (primitive type) (type.word value)) =
        serialPrim (C := C) (primitive type) (.prim (primitive type) (type.word value)) := by
      funext pos
      rw [serialFunc.eq_def, primitiveOf_signature]
    rw [← same, width_primitive] at decides
    exact decides
  | string => exact serialString_decides value

theorem serialElem_char {char : Char} (plain : char ≠ '(' ∧ char ≠ '[') (fuel : Nat) (val : JavaVal C)
    (rest : List Char) : serialElem (fuel + 1) val (char :: rest) = serialFunc char val := by
  funext pos
  rw [serialElem.eq_def]
  split
  · contradiction
  · next same isSucc =>
      cases isSucc
      split
      · next same => exact absurd (List.cons.inj same).1 plain.1
      · next same => exact absurd (List.cons.inj same).1 plain.2
      · next same =>
          rw [(List.cons.inj same).1]
      · contradiction

theorem prime_char (type : PrimeType) : type.signature ≠ '(' ∧ type.signature ≠ '[' := by
  cases type with
  | fixed type => cases type <;> decide
  | string => decide

def primitiveElem : FieldType → Option Primitive
  | .prime (.fixed type) => some (primitive type)
  | _ => none

theorem primSig_signature {structSig id : List Char} (isStruct : structSig = 'O' :: id) (type : FieldType) :
    primSig (type.signature structSig) = primitiveElem type := by
  cases type with
  | prime type =>
    cases type with
    | fixed type => exact primitiveOf_signature type
    | string => rfl
  | byteArray | objPtr | variant | map => rfl
  | struct =>
    rw [FieldType.signature, isStruct]
    cases id with
    | nil => rfl
    | cons => rfl
  | array elem =>
    show primSig ('(' :: (elem.signature structSig ++ [')'])) = none
    cases elem.signature structSig with
    | nil => rfl
    | cons => rfl

theorem serialPrimArray_decides (values : List type.Val) :
    Decides (serialPrimArray (primitive type) (values.map type.word))
      (layoutCounted values.length (values.flatMap type.layout)) (WordsClean type values) := by
  have layout : layoutCounted values.length (values.flatMap type.layout) =
      layoutCounted (values.map type.word).length ((values.map type.word).flatMap (toBE type.width)) := by
    rw [length_map, flatMap_map]
    rfl
  have words : Decides (serialWordArr type.width (values.map type.word))
      (layoutCounted values.length (values.flatMap type.layout)) True := by
    rw [layout]
    exact ⟨fun _ => serialWordArr_appends _ _, serialWordArr_covers _ _⟩
  cases type with
  | byte | uint16 | int16 | uint32 | int32 | uint64 | int64 => exact words
  | bool =>
    rw [layout]
    exact ⟨False.elim, serialBoolArr_covers _⟩
  | float =>
    have zeros : (∀ word ∈ values.map (FixedType.word .float), word = 0) ↔ WordsClean .float values := by
      rw [forall_mem_map]
      exact forall₂_congr fun bits _ => UInt32.toNat_inj (b := 0)
    rw [layout, ← zeros]
    refine ⟨serialRealArr_appends (by decide), serialRealArr_covers fun word member number converted same => ?_⟩
    obtain ⟨bits, _, isWord⟩ := mem_map.1 member
    have small : word < 2 ^ 32 := by
      rw [← isWord]
      exact UInt32.toNat_lt bits
    have equal := toBE_inj (lt_of_truncate converted) small same
    rw [equal] at converted
    exact float_eq_zero small converted
  | double =>
    have zeros : (∀ word ∈ values.map (FixedType.word .double), word = 0) ↔ WordsClean .double values := by
      rw [forall_mem_map]
      exact forall₂_congr fun bits _ => UInt64.toNat_inj (b := 0)
    rw [layout, ← zeros]
    refine ⟨serialRealArr_appends (by decide), serialRealArr_covers fun word member number converted same => ?_⟩
    obtain ⟨bits, _, isWord⟩ := mem_map.1 member
    have small : word < 2 ^ 64 := by
      rw [← isWord]
      exact UInt64.toNat_lt bits
    have equal := toBE_inj (lt_of_truncate converted) small same
    rw [equal] at converted
    exact double_eq_zero small converted

section

variable {structSig id : List Char}

theorem innerSig_array (isStruct : structSig = 'O' :: id) (elem : FieldType) :
    innerSig '(' ')' ((FieldType.array elem).signature structSig) = some (elem.signature structSig) := by
  apply innerSig_bracketed
  rw [isStruct]
  exact FieldType.signature_ne_nil (cons_ne_nil _ _) elem

theorem innerSig_map (key : PrimeType) (elem : FieldType) :
    innerSig '[' ']' ((FieldType.map key elem).signature structSig) = some (key.signature :: elem.signature structSig) :=
  innerSig_bracketed (cons_ne_nil _ _)

theorem ofVal_array {elem : FieldType} (general : primitiveElem elem = none) (values : List (elem.Val C)) :
    ofVal (.array elem) values = .objArr (values.map (ofVal elem)) := by
  rw [ofVal]
  rintro type _ _ rfl
  exact Option.some_ne_none _ general

theorem writeClean_array {elem : FieldType} (general : primitiveElem elem = none) (values : List (elem.Val C)) :
    WriteClean (.array elem) values = ∀ value ∈ values, WriteClean elem value := by
  rw [WriteClean]
  rintro type _ _ rfl
  exact Option.some_ne_none _ general

theorem eq_fixed_of_primitiveElem {elem : FieldType} {primitive : Primitive} (own : primitiveElem elem = some primitive) :
    ∃ type, elem = .prime (.fixed type) := by
  rw [primitiveElem.eq_def] at own
  split at own
  · exact ⟨_, rfl⟩
  · contradiction

theorem serialArray_decides (isStruct : structSig = 'O' :: id) {elem : FieldType}
    (general : primitiveElem elem = none) {write : JavaVal C → List Char → Pos → Option Pos}
    {values : List (elem.Val C)} (decides : ∀ value ∈ values,
      Decides (write (ofVal elem value) (elem.signature structSig)) (elem.layout value) (WriteClean elem value)) :
    Decides (serialArray write (.objArr (values.map (ofVal elem))) ((FieldType.array elem).signature structSig))
      (layoutCounted values.length (values.flatMap elem.layout)) (∀ value ∈ values, WriteClean elem value) := by
  have counted : Decides (serialCounted (fun val => write val (elem.signature structSig)) (values.map (ofVal elem)))
      (layoutCounted values.length (values.flatMap elem.layout)) (∀ value ∈ values, WriteClean elem value) :=
    serialCounted_decides decides fun value _ => elem.layout_pos value
  apply counted.congr
  intro pos
  rw [serialArray, innerSig_array isStruct, Option.bind_some, primSig_signature isStruct, general]

theorem serialElem_decides (isStruct : structSig = 'O' :: id) (type : FieldType) (value : type.Val C) {fuel : Nat}
    (enough : (type.signature structSig).length ≤ fuel) :
    Decides (serialElem fuel (ofVal type value) (type.signature structSig)) (type.layout value)
      (WriteClean type value) := by
  have some : structSig ≠ [] := by
    rw [isStruct]
    exact cons_ne_nil _ _
  induction type generalizing fuel with
  | prime type =>
    obtain ⟨fuel, rfl⟩ := FieldType.fuel_succ some enough
    exact (serialFunc_decides type value).congr fun pos => congrFun (serialElem_char (prime_char type) fuel _ []) pos
  | byteArray =>
    obtain ⟨fuel, rfl⟩ := FieldType.fuel_succ some enough
    exact put_decides (layoutBytes value) trivial
  | objPtr =>
    obtain ⟨fuel, rfl⟩ := FieldType.fuel_succ some enough
    exact serialObjPtr_decides value
  | struct =>
    obtain ⟨fuel, rfl⟩ := FieldType.fuel_succ some enough
    rw [FieldType.signature, isStruct]
    exact serialStruct_decides value
  | variant =>
    obtain ⟨fuel, rfl⟩ := FieldType.fuel_succ some enough
    exact serialVariant_decides value
  | array elem ih =>
    have inner : (elem.signature structSig).length + 2 ≤ fuel := by
      rw [FieldType.signature, length_append, length_cons, length_singleton] at enough
      omega
    obtain ⟨fuel, rfl⟩ := FieldType.fuel_succ some enough
    have elements : ∀ item ∈ value, Decides (serialElem fuel (ofVal elem item) (elem.signature structSig))
        (elem.layout item) (WriteClean elem item) :=
      fun item _ => ih item (by omega)
    have isArray : ∀ val, serialElem (fuel + 1) val ((FieldType.array elem).signature structSig) =
        serialArray (C := C) (serialElem fuel) val ((FieldType.array elem).signature structSig) := fun _ => rfl
    rw [isArray]
    cases own : primitiveElem elem with
    | none =>
      rw [ofVal_array own, writeClean_array own]
      exact serialArray_decides isStruct own elements
    | some primitive =>
      obtain ⟨type, rfl⟩ := eq_fixed_of_primitiveElem own
      apply (serialPrimArray_decides type value).congr
      intro pos
      rw [serialArray, innerSig_array isStruct, Option.bind_some, primSig_signature isStruct]
      exact if_pos rfl
  | map key elem ih =>
    have inner : (elem.signature structSig).length + 3 ≤ fuel := by
      rw [FieldType.signature, length_append, length_cons, length_cons, length_singleton] at enough
      omega
    obtain ⟨fuel, rfl⟩ := FieldType.fuel_succ some enough
    have entries : ∀ entry ∈ value.entries,
        Decides (fun pos => (serialElem fuel (ofPrime C key entry.1) [key.signature] pos).bind fun pos =>
            serialElem fuel (ofVal elem entry.2) (elem.signature structSig) pos)
          (key.layout entry.1 ++ elem.layout entry.2)
          (PrimeWriteClean key entry.1 ∧ WriteClean elem entry.2) := by
      intro entry _
      have second := ih entry.2 (show _ ≤ fuel by omega)
      obtain ⟨fuel, rfl⟩ := Nat.exists_eq_succ_of_ne_zero (show fuel ≠ 0 by omega)
      have first := serialFunc_decides (C := C) key entry.1
      rw [serialElem_char (prime_char key)]
      exact first.bind second
    have positive : ∀ entry ∈ value.entries, 0 < (key.layout entry.1 ++ elem.layout entry.2).length := by
      intro entry _
      have first := key.layout_pos entry.1
      rw [length_append]
      omega
    have counted : Decides (serialCounted (fun entry pos =>
          (serialElem fuel entry.1 [key.signature] pos).bind fun pos =>
            serialElem fuel entry.2 (elem.signature structSig) pos)
        (value.entries.map fun entry => (ofPrime C key entry.1, ofVal elem entry.2)))
        ((FieldType.map key elem).layout value) (WriteClean (.map key elem) value) :=
      serialCounted_decides entries positive
    have isMap : ∀ val, serialElem (fuel + 1) val ((FieldType.map key elem).signature structSig) =
        serialMap (C := C) (serialElem fuel) val ((FieldType.map key elem).signature structSig) := fun _ => rfl
    rw [isMap]
    apply counted.congr
    intro pos
    rw [serialMap, innerSig_map, Option.bind_some]
    rfl

end

def WordsReadClean : (type : FixedType) → List type.Val → Prop
  | .double, values => values = []
  | _, _ => True

def PrimeReadClean : (type : PrimeType) → type.Val → Prop
  | .fixed _, _ => True
  | .string, value => Text value

def VariantReadClean : Variant C → Prop
  | .string value => Text value
  | .obj value => SmallObj value
  | _ => True

/-- What Java reads back from the bytes of `CSerialBase`: no string and no object is larger than a
megabyte, and no array has doubles. -/
def ReadClean : (type : FieldType) → type.Val C → Prop
  | .prime type, value => PrimeReadClean type value
  | .byteArray, _ => True
  | .objPtr, value => SmallObj value
  | .struct, _ => True
  | .variant, value => VariantReadClean value
  | .array (.prime (.fixed type)), values => WordsReadClean type values
  | .array elem, values => ∀ value ∈ values, ReadClean elem value
  | .map key elem, values => ∀ entry ∈ values.entries, PrimeReadClean key entry.1 ∧ ReadClean elem entry.2

theorem word_primitive (value : type.Val) :
    type.word value < 256 ^ (primitive type).width ∧ (primitive type = .bool → type.word value ≤ 1) := by
  refine ⟨?_, fun isBool => ?_⟩
  · rw [width_primitive]
    exact type.word_lt value
  · cases type with
    | bool => exact Bool.toNat_le value
    | byte | uint16 | int16 | uint32 | int32 | uint64 | int64 | float | double => contradiction

theorem deserialFunc_readsBack (type : PrimeType) (value : type.Val)
    (small : (type.layout value).length ≤ maxBytesPerBuffer) :
    ReadsBack (deserialFunc type.signature) (type.layout value) (ofPrime C type value) (PrimeReadClean type value) := by
  cases type with
  | fixed type =>
    have word := word_primitive type value
    have prim := deserialPrim_readsBack (C := C) word.1 word.2
    rw [width_primitive] at prim
    apply prim.congr
    intro block offset _
    rw [PrimeType.signature, deserialFunc.eq_def, primitiveOf_signature]
  | string =>
    have limit : maxBytesPerBuffer < 256 ^ 4 := by decide
    rw [PrimeType.layout, length_layoutBytes] at small
    have text : List.length value < 256 ^ 4 := by omega
    exact deserialString_readsBack text

theorem deserialVariant_readsBack (value : Variant C) (small : value.layout.length ≤ maxBytesPerBuffer) :
    ReadsBack deserialVariant value.layout (.variant value.typeId (ofVariantValue value)) (VariantReadClean value) := by
  have payload : value.layoutValue.length ≤ maxBytesPerBuffer := by
    rw [Variant.layout, length_cons] at small
    omega
  have plain : ∀ iType : UInt8, ReadsBack (fun _ offset => some ((JavaVal.null : JavaVal C), offset)) [] .null True :=
    fun _ => ReadsBack.of_reads (fun _ _ _ => rfl) trivial
  cases value with
  | none =>
    apply deserialVariant_behind (plain 0)
    intro block offset isType _
    rw [deserialVariant, isType]
    rfl
  | dMsg =>
    apply deserialVariant_behind (plain 8)
    intro block offset isType _
    rw [deserialVariant, isType]
    rfl
  | byte value =>
    apply deserialVariant_behind (@deserialPrim_readsBack C .byte _ (UInt8.toNat_lt value) fun same => absurd same (by decide))
    intro block offset isType _
    rw [deserialVariant, isType]
    rfl
  | uint16 value =>
    apply deserialVariant_behind (@deserialPrim_readsBack C .short _ (UInt16.toNat_lt value) fun same => absurd same (by decide))
    intro block offset isType _
    rw [deserialVariant, isType]
    rfl
  | uint32 value =>
    apply deserialVariant_behind (@deserialPrim_readsBack C .int _ (UInt32.toNat_lt value) fun same => absurd same (by decide))
    intro block offset isType _
    rw [deserialVariant, isType]
    rfl
  | uint64 value =>
    apply deserialVariant_behind (@deserialPrim_readsBack C .long _ (UInt64.toNat_lt value) fun same => absurd same (by decide))
    intro block offset isType _
    rw [deserialVariant, isType]
    rfl
  | float bits =>
    apply deserialVariant_behind (@deserialPrim_readsBack C .float _ (UInt32.toNat_lt bits) fun same => absurd same (by decide))
    intro block offset isType _
    rw [deserialVariant, isType]
    rfl
  | double bits =>
    apply deserialVariant_behind (@deserialPrim_readsBack C .double _ (UInt64.toNat_lt bits) fun same => absurd same (by decide))
    intro block offset isType _
    rw [deserialVariant, isType]
    rfl
  | string value =>
    have limit : maxBytesPerBuffer < 256 ^ 4 := by decide
    rw [Variant.layoutValue, length_layoutBytes] at payload
    apply deserialVariant_behind (deserialString_readsBack (by omega))
    intro block offset isType _
    rw [deserialVariant, isType]
    rfl
  | obj value =>
    apply deserialVariant_behind (deserialObjPtr_readsBack payload)
    intro block offset isType stands
    obtain ⟨first, isFirst, other⟩ :
        ∃ first, getWord 4 block (offset + 1) = some (first, offset + 1 + 4) ∧ first ≠ serialStructMagic := by
      cases value with
      | none => exact ⟨clsidInvalid, getWord_at stands.left.left (by decide), by decide⟩
      | some obj =>
        have word : BytesAt block (offset + 1) (toBE 4 (C.clsid obj)) := stands.left.left.left
        exact ⟨C.clsid obj, getWord_at word (C.clsid_lt obj), C.clsid_ne_magic obj⟩
    have length := length_layoutObj_ge value
    have inside := stands.length_le
    obtain ⟨second, isSecond⟩ := @getWord_inside block (offset + 1 + 4) 4 (by
      have whole : (layoutObj value).length = (Variant.layoutValue (.obj value)).length := rfl
      omega)
    rw [deserialVariant, isType]
    show (getWord 4 block (offset + 1)).bind _ = _
    rw [isFirst, Option.bind_some]
    simp only
    rw [isSecond, Option.bind_some, if_neg other]
    rfl
  | struct item =>
    apply deserialVariant_behind (deserialStruct_readsBack item)
    intro block offset isType stands
    have words : BytesAt block (offset + 1) (toBE 4 serialStructMagic ++ toBE 4 (C.msgId item)) := stands.left
    have second := getWord_at words.right (C.msgId_lt item)
    rw [length_toBE] at second
    rw [deserialVariant, isType]
    show (getWord 4 block (offset + 1)).bind _ = _
    rw [getWord_at words.left (by decide), Option.bind_some]
    simp only
    rw [second, Option.bind_some, if_pos trivial]
    rfl
  | byteArr value =>
    rw [Variant.layoutValue, length_layoutBytes] at payload
    apply deserialVariant_behind (deserialBuf_readsBack (by omega))
    intro block offset isType _
    rw [deserialVariant, isType]
    rfl

/-! ### Keys -/

theorem same_of_equals (type : PrimeType) {left right : type.Val}
    (equal : equals (ofPrime C type left) (ofPrime C type right) = true) : type.same left right = true := by
  cases type with
  | string => exact equal
  | fixed type =>
    have word : (type.word left == type.word right || (primitive type == .float &&
        FixedType.isNaN 8 23 (type.word left) && FixedType.isNaN 8 23 (type.word right)) ||
        (primitive type == .double && FixedType.isNaN 11 52 (type.word left) &&
          FixedType.isNaN 11 52 (type.word right))) = true := by
      have both : (primitive type == primitive type && _) = true := equal
      rw [beq_self_eq_true, Bool.true_and] at both
      exact both
    have integer : primitive type ≠ .float → primitive type ≠ .double → (type.word left == type.word right) = true := by
      intro notFloat notDouble
      rw [beq_false_of_ne notFloat, beq_false_of_ne notDouble, Bool.false_and, Bool.false_and, Bool.false_and,
        Bool.false_and, Bool.or_false, Bool.or_false] at word
      exact word
    cases type with
    | byte | bool | uint16 | int16 | uint32 | int32 | uint64 | int64 => exact integer (by decide) (by decide)
    | float =>
      show FixedType.sameFloat 8 23 (FixedType.word .float left) (FixedType.word .float right) = true
      simp only [FixedType.sameFloat, Bool.or_eq_true, Bool.and_eq_true] at word ⊢
      rcases word with (bits | nans) | other
      · exact Or.inl (Or.inl (Or.inl bits))
      · exact Or.inr nans.2
      · exact absurd other.1.1 (by decide)
    | double =>
      show FixedType.sameFloat 11 52 (FixedType.word .double left) (FixedType.word .double right) = true
      simp only [FixedType.sameFloat, Bool.or_eq_true, Bool.and_eq_true] at word ⊢
      rcases word with (bits | other) | nans
      · exact Or.inl (Or.inl (Or.inl bits))
      · exact absurd other.1.1 (by decide)
      · exact Or.inr nans.2

theorem unique_keys {key : PrimeType} {elem : FieldType} (values : StdMap key.Val (elem.Val C) key.same) :
    (values.entries.map fun entry => (ofPrime C key entry.1, ofVal elem entry.2)).Pairwise
      fun earlier later => equals earlier.1 later.1 = false := by
  rw [pairwise_map]
  refine values.unique.imp fun {earlier later} apart => ?_
  cases same : equals (ofPrime C key earlier.1) (ofPrime C key later.1) with
  | false => rfl
  | true =>
    have equal := same_of_equals key same
    rw [apart] at equal
    exact absurd equal Bool.false_ne_true

theorem deserialElem_char {char : Char} (plain : char ≠ '(' ∧ char ≠ '[') (fuel : Nat) (buf : List UInt8) (pos : Nat)
    (rest : List Char) : deserialElem (C := C) (fuel + 1) buf pos (char :: rest) = deserialFunc char buf pos := by
  rw [deserialElem.eq_def]
  split
  · contradiction
  · next same isSucc =>
      cases isSucc
      split
      · next same => exact absurd (List.cons.inj same).1 plain.1
      · next same => exact absurd (List.cons.inj same).1 plain.2
      · next same =>
          rw [(List.cons.inj same).1]
      · contradiction

theorem readClean_array {elem : FieldType} (general : primitiveElem elem = none) (values : List (elem.Val C)) :
    ReadClean (.array elem) values = ∀ value ∈ values, ReadClean elem value := by
  rw [ReadClean]
  rintro type _ _ rfl
  exact Option.some_ne_none _ general

theorem deserialPrimArray_readsBack (values : List type.Val)
    (small : (values.flatMap type.layout).length ≤ maxBytesPerBuffer) :
    ReadsBack (deserialPrimArray (C := C) (primitive type)) (layoutCounted values.length (values.flatMap type.layout))
      (.primArr (primitive type) (values.map type.word)) (WordsReadClean type values) := by
  have layout : values.flatMap type.layout = (values.map type.word).flatMap (toBE (primitive type).width) := by
    rw [flatMap_map, width_primitive]
    rfl
  have fits : ∀ word ∈ values.map type.word, word < 256 ^ (primitive type).width := by
    rw [forall_mem_map]
    exact fun value _ => (word_primitive type value).1
  have positive : 0 < (primitive type).width := by
    rw [width_primitive]
    exact type.width_pos
  have length : values.length = (values.map type.word).length := (length_map type.word).symm
  rw [layout] at small
  have words := fun agree => @deserialWordArr_readsBack C agree (primitive type) _ positive fits small
  rw [layout, length]
  cases type with
  | byte | uint16 | int16 | uint32 | int32 | uint64 | int64 => exact (words _).imp (iff_of_true rfl trivial)
  | bool =>
    apply deserialBoolArr_readsBack _ small
    rw [forall_mem_map]
    exact fun value _ => (word_primitive .bool value).2 rfl
  | float =>
    refine (words _).imp (iff_of_true ?_ trivial)
    rw [beq_iff_eq]
    exact (Nat.mul_div_cancel _ (by decide)).symm
  | double =>
    refine (words _).imp ?_
    rw [beq_iff_eq, ← length]
    show _ = values.length * 8 / 4 ↔ values = []
    rw [← length_eq_zero_iff]
    omega

section

variable {structSig id : List Char}

/-- Java reads the value back from the bytes of `CSerialBase` exactly where it is clean. -/
theorem deserialElem_readsBack (isStruct : structSig = 'O' :: id) (type : FieldType) (value : type.Val C)
    (small : (type.layout value).length ≤ maxBytesPerBuffer) {fuel : Nat}
    (enough : (type.signature structSig).length ≤ fuel) :
    ReadsBack (fun buf pos => deserialElem fuel buf pos (type.signature structSig)) (type.layout value)
      (ofVal type value) (ReadClean type value) := by
  have some : structSig ≠ [] := by
    rw [isStruct]
    exact cons_ne_nil _ _
  induction type generalizing fuel with
  | prime type =>
    obtain ⟨fuel, rfl⟩ := FieldType.fuel_succ some enough
    apply (deserialFunc_readsBack type value small).congr
    exact fun block offset _ => deserialElem_char (prime_char type) fuel block offset []
  | byteArray =>
    obtain ⟨fuel, rfl⟩ := FieldType.fuel_succ some enough
    rw [FieldType.layout, length_layoutBytes] at small
    have bytes : List.length value ≤ maxBytesPerBuffer := by omega
    exact deserialBuf_readsBack bytes
  | objPtr =>
    obtain ⟨fuel, rfl⟩ := FieldType.fuel_succ some enough
    exact deserialObjPtr_readsBack small
  | struct =>
    obtain ⟨fuel, rfl⟩ := FieldType.fuel_succ some enough
    rw [FieldType.signature, isStruct]
    exact deserialStruct_readsBack value
  | variant =>
    obtain ⟨fuel, rfl⟩ := FieldType.fuel_succ some enough
    exact deserialVariant_readsBack value small
  | array elem ih =>
    have inner : (elem.signature structSig).length + 2 ≤ fuel := by
      rw [FieldType.signature, length_append, length_cons, length_singleton] at enough
      omega
    obtain ⟨fuel, rfl⟩ := FieldType.fuel_succ some enough
    rw [FieldType.layout, length_layoutCounted] at small
    have elements : ∀ item ∈ value, ReadsBack (fun buf pos => deserialElem fuel buf pos (elem.signature structSig))
        (elem.layout item) (ofVal elem item) (ReadClean elem item) := by
      intro item member
      have part := mem_layout_le elem.layout member
      exact ih item (by omega) (by omega)
    have isArray : ∀ buf pos, deserialElem (fuel + 1) buf pos ((FieldType.array elem).signature structSig) =
        deserialArray (C := C) (deserialElem fuel) buf pos ((FieldType.array elem).signature structSig) :=
      fun _ _ => rfl
    simp only [isArray]
    cases own : primitiveElem elem with
    | none =>
      rw [ofVal_array own, readClean_array own]
      have counted := (deserialCounted_readsBack (by omega) (fun item _ => elem.layout_pos item) elements).map
        JavaVal.objArr fun left same => JavaVal.objArr.inj same
      apply counted.congr
      intro block offset _
      rw [deserialArray, innerSig_array isStruct, Option.bind_some, primSig_signature isStruct, own]
    | some primitive =>
      obtain ⟨type, rfl⟩ := eq_fixed_of_primitiveElem own
      have body : (value.flatMap (FieldType.prime (.fixed type)).layout).length ≤ maxBytesPerBuffer := by omega
      apply (deserialPrimArray_readsBack type value body).congr
      intro block offset _
      rw [deserialArray, innerSig_array isStruct, Option.bind_some, primSig_signature isStruct]
      rfl
  | map key elem ih =>
    have inner : (elem.signature structSig).length + 3 ≤ fuel := by
      rw [FieldType.signature, length_append, length_cons, length_cons, length_singleton] at enough
      omega
    obtain ⟨fuel, rfl⟩ := FieldType.fuel_succ some enough
    rw [FieldType.layout, length_layoutCounted] at small
    have entries : ∀ entry ∈ value.entries, ReadsBack (fun buf pos =>
          (deserialElem fuel buf pos [key.signature]).bind fun first =>
            (deserialElem fuel buf first.2 (elem.signature structSig)).map fun second =>
              ((first.1, second.1), second.2))
        (key.layout entry.1 ++ elem.layout entry.2) (ofPrime C key entry.1, ofVal elem entry.2)
        (PrimeReadClean key entry.1 ∧ ReadClean elem entry.2) := by
      intro entry member
      have part := mem_layout_le (fun entry => key.layout entry.1 ++ elem.layout entry.2) member
      rw [length_append] at part
      have second := ih entry.2 (by omega) (show _ ≤ fuel by omega)
      obtain ⟨fuel, rfl⟩ := Nat.exists_eq_succ_of_ne_zero (show fuel ≠ 0 by omega)
      have first := deserialFunc_readsBack (C := C) key entry.1 (by omega)
      simp only [deserialElem_char (prime_char key)]
      exact first.bind second
    have positive : ∀ entry ∈ value.entries, 0 < (key.layout entry.1 ++ elem.layout entry.2).length := by
      intro entry _
      have first := key.layout_pos entry.1
      rw [length_append]
      omega
    have isMap : ∀ buf pos, deserialElem (fuel + 1) buf pos ((FieldType.map key elem).signature structSig) =
        deserialMap (C := C) (deserialElem fuel) buf pos ((FieldType.map key elem).signature structSig) :=
      fun _ _ => rfl
    simp only [isMap]
    apply (mapEntries_readsBack (by omega) positive entries (unique_keys value)).congr
    intro block offset _
    rw [deserialMap, innerSig_map, Option.bind_some]
    rfl

end

/-- `CSerialBase` writes the layout. Java writes it where the value is clean for writing, and reads
the value back from it where it is clean for reading. -/
theorem javaAgrees_iff {structSig id : List Char} (isStruct : structSig = 'O' :: id) (type : FieldType)
    {value : type.Val C} (carried : type.Carried value) (small : (type.layout value).length ≤ maxBytesPerBuffer) :
    Writes (Ridl.serialField C type (type.signature structSig) value) (type.layout value) ∧
      (Agrees structSig type value ↔ WriteClean type value ∧ ReadClean type value) := by
  refine ⟨serialField_writes structSig type carried, ?_⟩
  have decides := serialElem_decides isStruct type value (Nat.le_refl (type.signature structSig).length)
  have readsBack := deserialElem_readsBack isStruct type value small (Nat.le_refl (type.signature structSig).length)
  constructor
  · rintro ⟨appends, reads⟩
    constructor
    · obtain ⟨after, wrote, _, isWrote⟩ := appends ([0], 0) (cons_ne_nil _ _) (Nat.zero_le _)
        (by rw [Nat.zero_add]; exact small)
      obtain ⟨bytes, isBytes, _, cleans⟩ := decides.2 ([0], 0) after (Nat.zero_le _) wrote
      have same := isBytes.taken
      rw [isWrote.taken] at same
      exact cleans (append_cancel_left same).symm
    · obtain ⟨result, isRead, exact⟩ := readsBack
      have stands := BytesAt.of_append [] (type.layout value) []
      have found := (isRead _ _ stands).symm.trans (reads [] [])
      rw [Option.map_eq_some_iff] at found
      obtain ⟨made, isResult, same⟩ := found
      rw [(Prod.mk.inj same).1] at isResult
      exact exact.1 isResult
  · rintro ⟨writeClean, readClean⟩
    refine ⟨decides.1 writeClean, fun before after => ?_⟩
    exact readsBack.reads readClean (BytesAt.of_append before _ after)

/-- A map from a string to an array of numbers. -/
theorem javaAgrees_oneEntry :
    Agrees (C := noObjects) ['O'] (.map .string (.array (.prime (.fixed .int32))))
      ⟨[([65, 66], [(-5 : Int32), 7])], List.pairwise_singleton _ _⟩ := by
  have carried : (FieldType.map .string (.array (.prime (.fixed .int32)))).Carried (C := noObjects)
      ⟨[([65, 66], [(-5 : Int32), 7])], pairwise_singleton _ _⟩ := by
    refine ⟨by decide, fun entry member => ?_⟩
    rw [mem_singleton.1 member]
    exact ⟨by decide, fun _ _ => trivial⟩
  refine (javaAgrees_iff rfl _ carried (by decide)).2.2 ⟨fun entry member => ?_, fun entry member => ?_⟩
  · rw [mem_singleton.1 member]
    refine ⟨fun byte inside => ?_, trivial⟩
    rcases mem_cons.1 inside with same | inside
    · rw [same]
      decide
    · rw [mem_singleton.1 inside]
      decide
  · rw [mem_singleton.1 member]
    exact ⟨⟨by decide, by decide⟩, trivial⟩

/-- Of an array with the number one the bit pattern of it is not written. -/
theorem floatArray_disagrees : ¬∀ (C : RidlClasses) (structSig id : List Char), structSig = 'O' :: id →
    ∀ (type : FieldType) (value : type.Val C), type.Carried value →
      (type.layout value).length ≤ maxBytesPerBuffer → Agrees structSig type value := by
  intro agrees
  have carried : (FieldType.array (.prime (.fixed .float))).Carried (C := noObjects) [(0x3F800000 : UInt32)] :=
    ⟨by decide, fun _ _ => trivial⟩
  have appends := (agrees noObjects ['O'] [] rfl (.array (.prime (.fixed .float))) [(0x3F800000 : UInt32)] carried
    (by decide)).1
  obtain ⟨after, wrote, _, isWrote⟩ := appends (List.replicate 12 0, 0) (cons_ne_nil _ _) (Nat.zero_le _)
    (by decide)
  have ran : (serialElem (C := noObjects) 3 (.primArr .float [0x3F800000]) ['(', 'f', ')'] (List.replicate 12 0, 0)) =
      some ([0, 0, 0, 4, 0, 0, 0, 1, 0, 0, 0, 1], 12) := by decide +kernel
  have same := ran.symm.trans wrote
  have taken := isWrote.taken
  cases same
  exact absurd taken (by decide)

end RpcFrmwrk.Ridl.Java
