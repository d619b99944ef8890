import RpcFrmwrk.Ridl.JsSerial
import RpcFrmwrk.Ridl.Sequence

/-! Where the JavaScript serializer and `CSerialBase` agree. Owns the JavaScript value of a value,
and what is read back from its bytes; `Agrees`, writing and reading of one value at any place of a
buffer; the exact condition for it. -/

namespace RpcFrmwrk.Ridl.Js

open RpcFrmwrk.Library List

variable {C : RidlClasses}

def ofFixed (C : RidlClasses) : (type : FixedType) → type.Val → JsVal C
  | .byte, value => .num value.toNat
  | .bool, value => .bool value
  | .uint16, value => .num value.toNat
  | .int16, value => .num value.toInt
  | .uint32, value => .num value.toNat
  | .int32, value => .num value.toInt
  | .uint64, value => .num value.toNat
  | .int64, value => .num value.toInt
  | .float, bits => .float bits
  | .double, bits => .double bits

def ofPrime (C : RidlClasses) : (type : PrimeType) → type.Val → JsVal C
  | .fixed type, value => ofFixed C type value
  | .string, value => .text value

def ofObj : Option C.Obj → JsVal C
  | none => .null
  | some obj => .obj obj

/-- `m_val` of a `Variant`. -/
def ofVariantValue : Variant C → JsVal C
  | .none | .dMsg => .null
  | .byte value => .num value.toNat
  | .uint16 value => .num value.toNat
  | .uint32 value => .num value.toNat
  | .uint64 value => .num value.toNat
  | .float bits => .float bits
  | .double bits => .double bits
  | .string value => .text value
  | .obj value => ofObj value
  | .struct value => .struct value
  | .byteArr value => .bytes value

/-- The JavaScript value of a value. A `Map` keeps its entries in the order of the other map. -/
def ofVal : (type : FieldType) → type.Val C → JsVal C
  | .prime type, value => ofPrime C type value
  | .byteArray, value => .bytes value
  | .objPtr, value => ofObj value
  | .struct, value => .struct value
  | .variant, value => .variant value.typeId (ofVariantValue value)
  | .array elem, values => .array (values.map (ofVal elem))
  | .map key elem, values =>
    .map (values.entries.map fun entry => (ofPrime C key entry.1, ofVal elem entry.2))

/-- `JavaScript` appends the bytes of `CSerialBase` to any buffer, and reads the value back from
them at any offset. -/
def Agrees (type : FieldType) (value : type.Val C) : Prop :=
  (∀ oBuf, serialField (ofVal type value) (type.signature ['O']) oBuf = some (concat oBuf (type.layout value))) ∧
    ∀ before after,
      deserialField (before ++ (type.layout value ++ after)) before.length (type.signature ['O']) =
        some (ofVal type value, before.length + (type.layout value).length)

def FixedClean : (type : FixedType) → type.Val → Prop
  | .bool, _ => False
  | .int16, value => 0 ≤ value.toInt
  | .int32, value => 0 ≤ value.toInt
  | .int64, value => 0 ≤ value.toInt
  | _, _ => True

/-- A text that is neither empty nor ends with a null, without a byte order mark. -/
def TextClean (utf8 : List UInt8) : Prop :=
  utf8 ≠ [] ∧ validUtf8 utf8 = true ∧ utf8.take 3 ≠ byteOrderMark ∧ utf8.getLast? ≠ some 0

def PrimeClean : (type : PrimeType) → type.Val → Prop
  | .fixed type, value => FixedClean type value
  | .string, value => TextClean value

def VariantClean : Variant C → Prop
  | .string value => TextClean value
  | .byteArr value => value ≠ []
  | .obj value => value ≠ none
  | .dMsg => False
  | _ => True

/-- What is read back from inside a container: nothing is empty but an array, no object is null,
and there is no map. -/
def ElemClean : (type : FieldType) → type.Val C → Prop
  | .prime type, value => PrimeClean type value
  | .byteArray, value => value ≠ []
  | .objPtr, value => value ≠ none
  | .struct, _ => True
  | .variant, value => VariantClean value
  | .array elem, values => ∀ value ∈ values, ElemClean elem value
  | .map _ _, _ => False

def FieldClean : (type : FieldType) → type.Val C → Prop
  | .map key elem, values =>
    values.entries ≠ [] ∧ ∀ entry ∈ values.entries, PrimeClean key entry.1 ∧ ElemClean elem entry.2
  | type, value => ElemClean type value

theorem plain_struct : NoBrackets ['O'] := noBrackets_char (by decide)

theorem findStandaloneSig_signature (type : FieldType) :
    findStandaloneSig (type.signature ['O']) = some (type.signature ['O']) := by
  cases type with
  | prime type =>
    cases type with
    | fixed type => cases type <;> rfl
    | string => rfl
  | byteArray | objPtr | struct | variant => rfl
  | array elem =>
    show findContainerSig ('(' :: (elem.signature ['O'] ++ [')'])) false = _
    rw [findContainerSig]
    simp only [tail_cons, Bool.false_eq_true, if_false]
    rw [sigEnd_array plain_struct, Option.map_some, Nat.add_comm 1, take_succ_cons,
      take_of_length_le (by rw [length_append, length_singleton])]
    rfl
  | map key elem =>
    show findContainerSig ('[' :: (key.signature :: elem.signature ['O'] ++ [']'])) true = _
    rw [findContainerSig]
    simp only [tail_cons, if_true]
    rw [sigEnd_map plain_struct, Option.map_some, Nat.add_comm 1, take_succ_cons,
      take_of_length_le (by rw [length_append, length_singleton])]
    rfl

theorem keyValSig_signature (key : PrimeType) (elem : FieldType) :
    keyValSig (key.signature :: elem.signature ['O']) = some ([key.signature], elem.signature ['O']) := by
  have positive := length_pos_of_ne_nil (FieldType.signature_ne_nil (cons_ne_nil 'O' []) elem)
  have first : findStandaloneSig (key.signature :: elem.signature ['O']) = some [key.signature] := by
    cases key with
    | fixed type => cases type <;> rfl
    | string => rfl
  rw [keyValSig, first, Option.bind_some, length_singleton, length_cons, if_neg (by omega)]
  show (findStandaloneSig (elem.signature ['O'])).bind (fun sigValue =>
    if sigValue ≠ elem.signature ['O'] then none else some ([key.signature], sigValue)) = _
  rw [findStandaloneSig_signature, Option.bind_some, if_neg (not_not.2 rfl)]

theorem toNat_eq_toInt_iff {width : Nat} (bits : BitVec width) :
    (bits.toNat : Int) = bits.toInt ↔ 0 ≤ bits.toInt := by
  have small := bits.isLt
  rw [BitVec.toInt_eq_toNat_cond]
  split
  · omega
  · omega

def readFixed (C : RidlClasses) : (type : FixedType) → type.Val → Option (JsVal C)
  | .bool, _ => none
  | .float, bits => some (.float bits)
  | .double, bits => some (.double bits)
  | type, value => some (.num (type.word value))

theorem readFixed_iff (type : FixedType) (value : type.Val) :
    readFixed C type value = some (ofFixed C type value) ↔ FixedClean type value := by
  have signed : ∀ left right : Int, some (JsVal.num (C := C) left) = some (.num right) ↔ left = right := by
    intro left right
    exact ⟨fun same => JsVal.num.inj (Option.some.inj same), fun same => congrArg _ (congrArg _ same)⟩
  cases type with
  | byte | uint16 | uint32 | uint64 | float | double => exact iff_of_true rfl trivial
  | bool => exact iff_of_false (fun same => absurd same (by rw [readFixed]; exact Option.some_ne_none _ ∘ Eq.symm)) id
  | int16 | int32 | int64 => exact (signed _ _).trans (toNat_eq_toInt_iff value.toBitVec)

section

variable {oBuf : Option (List UInt8)} {value : Nat} {width : Nat}

theorem writeUint_of_lt (small : value < 256 ^ width) : writeUint width value = some (toBE width value) := by
  rw [writeUint, if_pos ⟨Int.natCast_nonneg _, by exact_mod_cast small⟩, Int.toNat_natCast]

theorem serialUint_num (small : value < 256 ^ width) (oBuf : Option (List UInt8)) :
    serialUint width (.num value : JsVal C) oBuf = some (concat oBuf (toBE width value)) := by
  rw [serialUint, writeUint_of_lt small, Option.map_some]

theorem concat_some (buf bytes : List UInt8) : concat (some buf) bytes = buf ++ bytes := rfl

theorem concat_concat (first second : List UInt8) :
    concat (some (concat oBuf first)) second = concat oBuf (first ++ second) :=
  append_assoc _ _ _

end

theorem serialFunc_fixed (type : FixedType) {value : type.Val} (clean : FixedClean type value)
    (oBuf : Option (List UInt8)) :
    serialFunc type.signature (ofFixed C type value) oBuf = some (concat oBuf (type.layout value)) := by
  have same := (readFixed_iff (C := C) type value).2 clean
  have wrote := serialUint_num (C := C) (type.word_lt value) oBuf
  cases type with
  | bool => exact absurd clean id
  | float => rfl
  | double => rfl
  | byte | uint16 | int16 | uint32 | int32 | uint64 | int64 =>
    rw [← Option.some.inj same]
    exact wrote

theorem serialString_text {utf8 : List UInt8} (small : utf8.length < 2 ^ 32) (oBuf : Option (List UInt8)) :
    serialString (.text utf8 : JsVal C) oBuf = some (concat oBuf (layoutBytes utf8)) := by
  rw [serialString, writeUint_of_lt (by exact_mod_cast small), Option.map_some, layoutBytes]

theorem serialByteArray_bytes {value : List UInt8} (small : value.length < 2 ^ 32) (oBuf : Option (List UInt8)) :
    serialByteArray (.bytes value : JsVal C) oBuf = some (concat oBuf (layoutBytes value)) := by
  rw [serialByteArray, writeUint_of_lt (by exact_mod_cast small), Option.map_some, layoutBytes]

theorem serialFunc_prime (type : PrimeType) {value : type.Val} (clean : PrimeClean type value)
    (small : (type.layout value).length < 2 ^ 32) (oBuf : Option (List UInt8)) :
    serialFunc type.signature (ofPrime C type value) oBuf = some (concat oBuf (type.layout value)) := by
  cases type with
  | fixed type => exact serialFunc_fixed type clean oBuf
  | string =>
    rw [PrimeType.layout, length_layoutBytes] at small
    have text : value.length < 2 ^ 32 := by omega
    exact serialString_text (C := C) text oBuf

theorem serialVariant_clean {value : Variant C} (clean : VariantClean value)
    (small : value.layout.length < 2 ^ 32) (oBuf : Option (List UInt8)) :
    serialVariant (.variant value.typeId (ofVariantValue value)) oBuf = some (concat oBuf value.layout) := by
  have whole : concat oBuf value.layout = concat (some (concat oBuf [value.typeId])) value.layoutValue := by
    rw [concat_concat]
    rfl
  have payload : value.layoutValue.length < 2 ^ 32 := by
    rw [Variant.layout, length_cons] at small
    omega
  rw [whole]
  cases value with
  | none => exact congrArg some (append_nil _).symm
  | byte value =>
    have wrote := serialUint_num (C := C) (FixedType.byte.word_lt value) (some (concat oBuf [1]))
    exact wrote
  | uint16 value =>
    have wrote := serialUint_num (C := C) (FixedType.uint16.word_lt value) (some (concat oBuf [2]))
    exact wrote
  | uint32 value =>
    have wrote := serialUint_num (C := C) (FixedType.uint32.word_lt value) (some (concat oBuf [3]))
    exact wrote
  | uint64 value =>
    have wrote := serialUint_num (C := C) (FixedType.uint64.word_lt value) (some (concat oBuf [4]))
    exact wrote
  | float | double | struct => rfl
  | string value =>
    rw [Variant.layoutValue, length_layoutBytes] at payload
    have text : value.length < 2 ^ 32 := by omega
    have wrote := serialString_text (C := C) text (some (concat oBuf [7]))
    exact wrote
  | dMsg => exact absurd clean id
  | obj value =>
    cases value with
    | none => exact absurd rfl clean
    | some item => rfl
  | byteArr value =>
    rw [Variant.layoutValue, length_layoutBytes] at payload
    have bytes : value.length < 2 ^ 32 := by omega
    have wrote := serialByteArray_bytes (C := C) bytes (some (concat oBuf [10]))
    exact wrote

theorem serialElems_layout {α : Type} {elem : α → List UInt8 → Option (List UInt8)} {layout : α → List UInt8}
    {values : List α} (writes : ∀ value ∈ values, ∀ oBuf, elem value oBuf = some (oBuf ++ layout value))
    (oBuf : List UInt8) : serialElems elem values oBuf = some (oBuf ++ values.flatMap layout) := by
  induction values generalizing oBuf with
  | nil =>
    rw [serialElems, flatMap_nil, append_nil]
  | cons head tail ih =>
    rw [serialElems, writes head mem_cons_self, Option.bind_some,
      ih fun value member => writes value (mem_cons_of_mem _ member), flatMap_cons,
      append_assoc]

theorem serialElems_map {α β : Type} (change : α → β) (elem : β → List UInt8 → Option (List UInt8))
    (values : List α) (oBuf : List UInt8) :
    serialElems elem (values.map change) oBuf = serialElems (fun value => elem (change value)) values oBuf := by
  induction values generalizing oBuf with
  | nil => rfl
  | cons head tail ih =>
    rw [map_cons, serialElems, serialElems]
    exact congrArg _ (funext ih)

theorem patchSize_counted {count : Nat} {body : List UInt8} (small : body.length < 2 ^ 32) :
    patchSize (toBE 4 0 ++ toBE 4 count ++ body) = some (layoutCounted count body) := by
  have length : ((toBE 4 0 ++ toBE 4 count ++ body).length : Int) - 8 = body.length := by
    rw [length_append, length_append, length_toBE, length_toBE]
    omega
  have rest : (toBE 4 0 ++ toBE 4 count ++ body).drop 4 = toBE 4 count ++ body := by
    rw [append_assoc]
    exact drop_left' (length_toBE 4 0)
  rw [patchSize, length, writeUint_of_lt (by exact_mod_cast small), Option.map_some, rest, layoutCounted,
    append_assoc]

theorem serialElem_char {char : Char} (plain : char ≠ '(' ∧ char ≠ '[') (fuel : Nat) (val : JsVal C)
    (rest : List Char) (oBuf : Option (List UInt8)) :
    serialElem (fuel + 1) val (char :: rest) oBuf = serialFunc char val oBuf := by
  rw [serialElem.eq_def]
  split
  · contradiction
  · next same isSucc =>
      cases isSucc
      split
      · next same => exact absurd (List.cons.inj same).1 plain.1
      · next same => exact absurd (List.cons.inj same).1 plain.2
      · next same =>
          rw [(List.cons.inj same).1]
      · contradiction

theorem deserialElem_char {char : Char} (plain : char ≠ '(' ∧ char ≠ '[') (fuel : Nat) (oBuf : List UInt8)
    (offset : Nat) (rest : List Char) :
    deserialElem (C := C) (fuel + 1) oBuf offset (char :: rest) = deserialFunc char oBuf offset := by
  rw [deserialElem.eq_def]
  split
  · contradiction
  · next same isSucc =>
      cases isSucc
      split
      · next same => exact absurd (List.cons.inj same).1 plain.1
      · next same => exact absurd (List.cons.inj same).1 plain.2
      · next same =>
          rw [(List.cons.inj same).1]
      · contradiction

theorem prime_char (type : PrimeType) : type.signature ≠ '(' ∧ type.signature ≠ '[' := by
  cases type with
  | fixed type => cases type <;> decide
  | string => decide

theorem serialArray_layout {α : Type} {elem : JsVal C → List Char → Option (List UInt8) → Option (List UInt8)}
    {change : α → JsVal C} {layout : α → List UInt8} {values : List α} {sigElem : List Char} (some : sigElem ≠ [])
    (few : values.length < 2 ^ 32) (small : (values.flatMap layout).length < 2 ^ 32)
    (writes : ∀ value ∈ values, ∀ oBuf,
      elem (change value) sigElem (.some oBuf) = .some (oBuf ++ layout value)) (oBuf : Option (List UInt8)) :
    serialArray elem (.array (values.map change)) ('(' :: sigElem ++ [')']) oBuf =
      .some (concat oBuf (layoutCounted values.length (values.flatMap layout))) := by
  rw [serialArray, innerSig_bracketed some, Option.bind_some]
  simp only [length_map]
  rw [writeUint_of_lt (by exact_mod_cast few), Option.bind_some, serialElems_map,
    serialElems_layout writes, Option.bind_some, patchSize_counted small, Option.map_some]

theorem serialMap_layout {α : Type} {elem : JsVal C → List Char → Option (List UInt8) → Option (List UInt8)}
    {change : α → JsVal C × JsVal C} {layout : α → List UInt8} {values : List α} {key : PrimeType}
    {type : FieldType} (nonempty : values ≠ [])
    (few : values.length < 2 ^ 32) (small : (values.flatMap layout).length < 2 ^ 32)
    (writes : ∀ value ∈ values, ∀ oBuf,
      ((elem (change value).1 [key.signature] (some oBuf)).bind fun oBuf =>
        elem (change value).2 (type.signature ['O']) (some oBuf)) = some (oBuf ++ layout value))
    (oBuf : Option (List UInt8)) :
    serialMap elem (.map (values.map change)) ((FieldType.map key type).signature ['O']) oBuf =
      some (concat oBuf (layoutCounted values.length (values.flatMap layout))) := by
  have inner : innerSig '[' ']' ((FieldType.map key type).signature ['O']) =
      some (key.signature :: type.signature ['O']) := innerSig_bracketed (cons_ne_nil _ _)
  have some := length_pos_of_ne_nil nonempty
  rw [serialMap, inner, Option.bind_some]
  simp only [length_map]
  rw [writeUint_of_lt (by exact_mod_cast few), Option.bind_some, if_neg (by omega), keyValSig_signature,
    Option.bind_some]
  simp only
  rw [serialElems_map, serialElems_layout writes, Option.bind_some, patchSize_counted small, Option.map_some]

theorem serialElem_clean (type : FieldType) {value : type.Val C} (clean : ElemClean type value)
    (small : (type.layout value).length < 2 ^ 32) {fuel : Nat} (enough : (type.signature ['O']).length ≤ fuel)
    (oBuf : Option (List UInt8)) :
    serialElem fuel (ofVal type value) (type.signature ['O']) oBuf = some (concat oBuf (type.layout value)) := by
  induction type generalizing fuel oBuf with
  | prime type =>
    obtain ⟨fuel, rfl⟩ := FieldType.fuel_succ (cons_ne_nil _ _) enough
    rw [FieldType.signature, serialElem_char (prime_char type)]
    exact serialFunc_prime type clean small oBuf
  | byteArray =>
    obtain ⟨fuel, rfl⟩ := FieldType.fuel_succ (cons_ne_nil _ _) enough
    rw [FieldType.layout, length_layoutBytes] at small
    have bytes : value.length < 2 ^ 32 := by omega
    exact serialByteArray_bytes (C := C) bytes oBuf
  | objPtr =>
    obtain ⟨fuel, rfl⟩ := FieldType.fuel_succ (cons_ne_nil _ _) enough
    cases value with
    | none => exact absurd rfl clean
    | some obj => rfl
  | struct =>
    obtain ⟨fuel, rfl⟩ := FieldType.fuel_succ (cons_ne_nil _ _) enough
    rfl
  | variant =>
    obtain ⟨fuel, rfl⟩ := FieldType.fuel_succ (cons_ne_nil _ _) enough
    exact serialVariant_clean clean small oBuf
  | array elem ih =>
    obtain ⟨fuel, rfl⟩ := FieldType.fuel_succ (cons_ne_nil _ _) enough
    rw [FieldType.layout, length_layoutCounted] at small
    have body : (value.flatMap elem.layout).length < 2 ^ 32 := by omega
    have count := length_le_flatMap fun item (_ : item ∈ value) => elem.layout_pos item
    have shorter : (elem.signature ['O']).length ≤ fuel := by
      rw [FieldType.signature, length_append, length_cons] at enough
      omega
    have writes : ∀ item ∈ value, ∀ oBuf, serialElem fuel (ofVal elem item) (elem.signature ['O']) (some oBuf) =
        some (oBuf ++ elem.layout item) := by
      intro item member oBuf
      have part := mem_layout_le elem.layout member
      exact ih (clean item member) (by omega) shorter (some oBuf)
    exact serialArray_layout (FieldType.signature_ne_nil (cons_ne_nil 'O' []) elem) (by omega) body writes oBuf
  | map key elem _ => exact absurd clean id

def readText (C : RidlClasses) (utf8 : List UInt8) : Option (JsVal C) :=
  if utf8 = [] then none
  else (textDecode utf8).map fun utf8 => .text (if utf8.getLast? = some 0 then utf8.dropLast else utf8)

def readBytes (C : RidlClasses) (value : List UInt8) : Option (JsVal C) :=
  if value = [] then none else some (.bytes value)

def readPrime (C : RidlClasses) : (type : PrimeType) → type.Val → Option (JsVal C)
  | .fixed type, value => readFixed C type value
  | .string, value => readText C value

def readObj (value : Option C.Obj) : Option (JsVal C) := value.map .obj

def readVariantValue : Variant C → Option (JsVal C)
  | .none => some .null
  | .dMsg => none
  | .byte value => some (.num value.toNat)
  | .uint16 value => some (.num value.toNat)
  | .uint32 value => some (.num value.toNat)
  | .uint64 value => some (.num value.toNat)
  | .float bits => some (.float bits)
  | .double bits => some (.double bits)
  | .string value => readText C value
  | .obj value => readObj value
  | .struct value => some (.struct value)
  | .byteArr value => readBytes C value

def readVariant (value : Variant C) : Option (JsVal C) :=
  (readVariantValue value).map (.variant value.typeId)

/-- What `deserialElem` makes of the bytes of a value. -/
def readElem : (type : FieldType) → type.Val C → Option (JsVal C)
  | .prime type, value => readPrime C type value
  | .byteArray, value => readBytes C value
  | .objPtr, value => readObj value
  | .struct, value => some (.struct value)
  | .variant, value => readVariant value
  | .array elem, values => (collect (readElem elem) values).map .array
  | .map _ _, _ => none

theorem readText_iff (utf8 : List UInt8) : readText C utf8 = some (.text utf8) ↔ TextClean utf8 := by
  rw [readText, TextClean, textDecode]
  by_cases empty : utf8 = []
  · rw [if_pos empty]
    exact iff_of_false (fun same => absurd same.symm (Option.some_ne_none _)) fun clean => clean.1 empty
  · have positive := length_pos_of_ne_nil empty
    rw [if_neg empty]
    by_cases valid : validUtf8 utf8 = true
    · rw [if_pos valid, Option.map_some]
      by_cases mark : utf8.take 3 = byteOrderMark
      · refine iff_of_false (fun same => ?_) fun clean => clean.2.2.1 mark
        have text := JsVal.text.inj (Option.some.inj same)
        rw [if_pos mark] at text
        have total := congrArg List.length text
        split at total
        · rw [length_dropLast, length_drop] at total
          omega
        · rw [length_drop] at total
          omega
      · rw [if_neg mark]
        by_cases null : utf8.getLast? = some 0
        · refine iff_of_false (fun same => ?_) fun clean => clean.2.2.2 null
          have text := JsVal.text.inj (Option.some.inj same)
          rw [if_pos null] at text
          have total := congrArg List.length text
          rw [length_dropLast] at total
          omega
        · rw [if_neg null]
          exact iff_of_true rfl ⟨empty, valid, mark, null⟩
    · rw [if_neg valid]
      exact iff_of_false (fun same => absurd same.symm (Option.some_ne_none _)) fun clean => valid clean.2.1

theorem readBytes_iff (value : List UInt8) : readBytes C value = some (.bytes value) ↔ value ≠ [] := by
  rw [readBytes]
  split
  · next empty => exact iff_of_false (fun same => absurd same.symm (Option.some_ne_none _)) fun clean => clean empty
  · next some => exact iff_of_true rfl some

theorem readObj_iff (value : Option C.Obj) : readObj value = some (ofObj value) ↔ value ≠ none := by
  cases value with
  | none => exact iff_of_false (fun same => absurd same.symm (Option.some_ne_none _)) fun clean => clean rfl
  | some obj => exact iff_of_true rfl (Option.some_ne_none _)

theorem readVariant_iff (value : Variant C) :
    readVariant value = some (.variant value.typeId (ofVariantValue value)) ↔ VariantClean value := by
  have inside : readVariant value = some (.variant value.typeId (ofVariantValue value)) ↔
      readVariantValue value = some (ofVariantValue value) := by
    rw [readVariant, Option.map_eq_some_iff]
    constructor
    · rintro ⟨read, isRead, same⟩
      rw [isRead, (JsVal.variant.inj same).2]
    · exact fun same => ⟨_, same, rfl⟩
  rw [inside]
  cases value with
  | string value => exact readText_iff value
  | obj value => exact readObj_iff value
  | byteArr value => exact readBytes_iff value
  | dMsg => exact iff_of_false (fun same => absurd same.symm (Option.some_ne_none _)) id
  | none | byte | uint16 | uint32 | uint64 | float | double | struct => exact iff_of_true rfl trivial

theorem readElem_iff (type : FieldType) (value : type.Val C) :
    readElem type value = some (ofVal type value) ↔ ElemClean type value := by
  induction type with
  | prime type =>
    cases type with
    | fixed type => exact readFixed_iff type value
    | string => exact readText_iff value
  | byteArray => exact readBytes_iff value
  | objPtr => exact readObj_iff value
  | struct => exact iff_of_true rfl trivial
  | variant => exact readVariant_iff value
  | array elem ih =>
    rw [readElem, Option.map_eq_some_iff]
    constructor
    · rintro ⟨elems, isRead, same⟩
      rw [JsVal.array.inj same] at isRead
      exact fun item member => (ih item).1 (collect_eq_map_iff.1 isRead item member)
    · intro clean
      exact ⟨_, collect_eq_map_iff.2 fun item member => (ih item).2 (clean item member), rfl⟩
  | map key elem _ => exact iff_of_false (fun same => absurd same.symm (Option.some_ne_none _)) id

/-! ### Reading at an offset -/

section

variable {oBuf : List UInt8} {offset : Nat}

theorem readUint_at {width value : Nat} (stands : BytesAt oBuf offset (toBE width value))
    (small : value < 256 ^ width) : readUint width oBuf offset = some value := stands.wordAt small

theorem deserialUint_at {width value : Nat} (stands : BytesAt oBuf offset (toBE width value))
    (small : value < 256 ^ width) :
    deserialUint width oBuf offset = some ((.num value : JsVal C), offset + width) := by
  rw [deserialUint, readUint_at stands small, Option.map_some]

theorem deserialFunc_fixed (type : FixedType) {value : type.Val}
    (stands : BytesAt oBuf offset (type.layout value)) :
    deserialFunc type.signature oBuf offset =
      (readFixed C type value).map fun read => (read, offset + (type.layout value).length) := by
  have word := readUint_at stands (type.word_lt value)
  have read := deserialUint_at (C := C) stands (type.word_lt value)
  rw [FixedType.length_layout]
  cases type with
  | bool => rfl
  | float =>
    show (readUint 4 oBuf offset).map _ = _
    rw [show readUint 4 oBuf offset = some (FixedType.word .float value) from word, Option.map_some]
    simp only [FixedType.word, UInt32.ofNat_toNat]
    rfl
  | double =>
    show (readUint 8 oBuf offset).map _ = _
    rw [show readUint 8 oBuf offset = some (FixedType.word .double value) from word, Option.map_some]
    simp only [FixedType.word, UInt64.ofNat_toNat]
    rfl
  | byte | uint16 | int16 | uint32 | int32 | uint64 | int64 => exact read

theorem deserialSize_at {value : List UInt8} (stands : BytesAt oBuf offset (layoutBytes value))
    (small : value.length ≤ maxBytesPerBuffer) :
    deserialSize oBuf offset = if value = [] then none else some value.length := by
  have limit : maxBytesPerBuffer < 256 ^ 4 := by decide
  rw [deserialSize, readUint_at stands.left (by omega), Option.bind_some]
  by_cases empty : value = []
  · rw [if_pos (Or.inl (by rw [empty]; rfl)), if_pos empty]
  · have positive := length_pos_of_ne_nil empty
    rw [if_neg (by omega), if_neg empty]

theorem slice_at {value : List UInt8} (stands : BytesAt oBuf offset (layoutBytes value)) :
    slice oBuf (offset + 4) value.length = value := by
  have payload := stands.right
  rw [length_toBE] at payload
  exact payload.take_drop

theorem deserialByteArray_at {value : List UInt8} (stands : BytesAt oBuf offset (layoutBytes value))
    (small : value.length ≤ maxBytesPerBuffer) :
    deserialByteArray oBuf offset =
      (readBytes C value).map fun read => (read, offset + (layoutBytes value).length) := by
  rw [deserialByteArray, deserialSize_at stands small, readBytes, length_layoutBytes]
  split
  · rfl
  · rw [Option.map_some, Option.map_some, slice_at stands, Nat.add_assoc]

theorem deserialString_at {utf8 : List UInt8} (stands : BytesAt oBuf offset (layoutBytes utf8))
    (small : utf8.length ≤ maxBytesPerBuffer) :
    deserialString oBuf offset =
      (readText C utf8).map fun read => (read, offset + (layoutBytes utf8).length) := by
  rw [deserialString, deserialSize_at stands small, readText, length_layoutBytes]
  split
  · rfl
  · rw [Option.bind_some, slice_at stands, Option.map_map, Nat.add_assoc, Nat.add_comm utf8.length]
    rfl

theorem deserialFunc_prime (type : PrimeType) {value : type.Val}
    (stands : BytesAt oBuf offset (type.layout value))
    (small : (type.layout value).length ≤ maxBytesPerBuffer) :
    deserialFunc type.signature oBuf offset =
      (readPrime C type value).map fun read => (read, offset + (type.layout value).length) := by
  cases type with
  | fixed type => exact deserialFunc_fixed type stands
  | string =>
    rw [PrimeType.layout, length_layoutBytes] at small
    have text : List.length value ≤ maxBytesPerBuffer := by omega
    exact deserialString_at stands text

theorem deserialObjPtr_at {value : Option C.Obj} (stands : BytesAt oBuf offset (layoutObj value))
    (small : (layoutObj value).length ≤ maxBytesPerBuffer) :
    deserialObjPtr oBuf offset = (readObj value).map fun read => (read, offset + (layoutObj value).length) := by
  have limit : maxBytesPerBuffer < 256 ^ 4 := by decide
  have inside := stands.length_le
  cases value with
  | none =>
    have clsid := readUint_at stands.left.left (by decide)
    have size := readUint_at stands.left.right (by decide)
    rw [length_toBE] at size
    rw [deserialObjPtr, clsid, Option.bind_some, size, Option.bind_some, if_pos (Or.inl rfl)]
    rfl
  | some obj =>
    have length := C.length_serialized obj
    have positive := C.body_pos obj
    have words : BytesAt oBuf offset (toBE 4 (C.clsid obj) ++ toBE 4 (C.body obj).length) := stands.left.left
    have clsid := readUint_at words.left (C.clsid_lt obj)
    rw [layoutObj] at small inside
    have size := readUint_at words.right (by omega : (C.body obj).length < 256 ^ 4)
    rw [length_toBE] at size
    obtain ⟨_, after, rest⟩ := stands
    have made : C.newObj (C.clsid obj) (oBuf.drop offset) = some obj := by
      rw [rest]
      exact C.newObj_serialized obj after
    rw [deserialObjPtr, clsid, Option.bind_some, size, Option.bind_some,
      if_neg (by rw [seriHeaderBase]; omega), made, readObj, Option.map_some, Option.map_some, Option.map_some,
      layoutObj, length, seriHeaderBase]
    congr 2
    omega

theorem deserialStruct_at {item : C.Struct} (stands : BytesAt oBuf offset (C.serializedStruct item)) :
    deserialStruct oBuf offset = some (.struct item, offset + (C.serializedStruct item).length) := by
  have words : BytesAt oBuf offset (toBE 4 serialStructMagic ++ toBE 4 (C.msgId item)) := stands.left
  have clsid := readUint_at words.right (C.msgId_lt item)
  rw [length_toBE] at clsid
  obtain ⟨_, after, rest⟩ := stands
  have made : C.newStruct (C.msgId item) (oBuf.drop offset) = some (item, 8 + (C.fields item).length) := by
    rw [rest]
    exact C.newStruct_serialized item after
  have length : (C.serializedStruct item).length = 8 + (C.fields item).length := by
    rw [RidlClasses.serializedStruct, length_append, length_append, length_toBE, length_toBE]
  rw [deserialStruct, clsid, Option.bind_some, made, length]
  rfl

theorem deserialVariant_at {value : Variant C} (carried : value.Carried)
    (stands : BytesAt oBuf offset value.layout) (small : value.layout.length ≤ maxBytesPerBuffer) :
    deserialVariant oBuf offset = (readVariant value).map fun read => (read, offset + value.layout.length) := by
  have first : BytesAt oBuf offset ([value.typeId] ++ value.layoutValue) := stands
  have byte : toBE 1 value.typeId.toNat = [value.typeId] := by
    rw [toBE, toBE]
    simp
  have typeId : readUint 1 oBuf offset = some value.typeId.toNat :=
    readUint_at (by rw [byte]; exact first.left) (UInt8.toNat_lt _)
  have payload : BytesAt oBuf (offset + 1) value.layoutValue := first.right
  have total : offset + value.layout.length = offset + 1 + value.layoutValue.length := by
    rw [Variant.layout, length_cons]
    omega
  have few : value.layoutValue.length ≤ maxBytesPerBuffer := by
    rw [Variant.layout, length_cons] at small
    omega
  rw [deserialVariant, typeId, Option.bind_some, total, readVariant, Option.map_map]
  cases value with
  | none => rfl
  | byte value =>
    have read := deserialUint_at (C := C) payload (FixedType.byte.word_lt value)
    exact congrArg (Option.map _) read
  | uint16 value =>
    have read := deserialUint_at (C := C) payload (FixedType.uint16.word_lt value)
    exact congrArg (Option.map _) read
  | uint32 value =>
    have read := deserialUint_at (C := C) payload (FixedType.uint32.word_lt value)
    exact congrArg (Option.map _) read
  | uint64 value =>
    have read := deserialUint_at (C := C) payload (FixedType.uint64.word_lt value)
    exact congrArg (Option.map _) read
  | float bits =>
    have read := @deserialFunc_fixed C _ _ .float bits payload
    exact congrArg (Option.map _) read
  | double bits =>
    have read := @deserialFunc_fixed C _ _ .double bits payload
    exact congrArg (Option.map _) read
  | string value =>
    rw [Variant.layoutValue, length_layoutBytes] at few
    have text : value.length ≤ maxBytesPerBuffer := by omega
    have read := @deserialString_at C _ _ value payload text
    exact (congrArg (Option.map _) read).trans (Option.map_map _ _ _)
  | dMsg => exact absurd carried id
  | obj value =>
    have read := @deserialObjPtr_at C _ _ value payload few
    obtain ⟨clsid, isClsid, other⟩ :
        ∃ clsid, readUint 4 oBuf (offset + 1) = some clsid ∧ clsid ≠ serialStructMagic := by
      cases value with
      | none => exact ⟨clsidInvalid, readUint_at payload.left.left (by decide), by decide⟩
      | some obj =>
        have word : BytesAt oBuf (offset + 1) (toBE 4 (C.clsid obj)) := payload.left.left.left
        exact ⟨C.clsid obj, readUint_at word (C.clsid_lt obj), C.clsid_ne_magic obj⟩
    show (readUint 4 oBuf (offset + 1)).bind _ = _
    rw [isClsid, Option.bind_some, if_neg other]
    exact (congrArg (Option.map _) read).trans (Option.map_map _ _ _)
  | struct item =>
    have words : BytesAt oBuf (offset + 1) (toBE 4 serialStructMagic) := payload.left.left
    have magic := readUint_at words (by decide)
    have read := deserialStruct_at payload
    show (readUint 4 oBuf (offset + 1)).bind _ = _
    rw [magic, Option.bind_some, if_pos rfl]
    exact congrArg (Option.map _) read
  | byteArr value =>
    rw [Variant.layoutValue, length_layoutBytes] at few
    have bytes : value.length ≤ maxBytesPerBuffer := by omega
    have read := @deserialByteArray_at C _ _ value payload bytes
    exact (congrArg (Option.map _) read).trans (Option.map_map _ _ _)

theorem deserialCount_at {count : Nat} {body : List UInt8} (stands : BytesAt oBuf offset (layoutCounted count body))
    (few : count < maxElemCount) (small : body.length ≤ maxBytesPerBuffer) (positive : count ≤ body.length) :
    deserialCount oBuf offset = some count ∧ BytesAt oBuf (offset + 8) body := by
  have limit : maxBytesPerBuffer < 256 ^ 4 := by decide
  have most : maxElemCount = 1000000 := rfl
  have size := readUint_at stands.left.left (by omega)
  have number := readUint_at stands.left.right (by omega)
  have rest := stands.right
  rw [length_toBE] at number
  rw [length_append, length_toBE, length_toBE] at rest
  refine ⟨?_, rest⟩
  rw [deserialCount, size, Option.bind_some, number, Option.bind_some]
  split
  · next none =>
      congr 1
      omega
  · rw [if_neg (by omega)]

theorem deserialElem_at (type : FieldType) {value : type.Val C} (carried : type.Carried value)
    (small : (type.layout value).length ≤ maxBytesPerBuffer) {fuel : Nat}
    (enough : (type.signature ['O']).length ≤ fuel) (stands : BytesAt oBuf offset (type.layout value)) :
    deserialElem fuel oBuf offset (type.signature ['O']) =
      (readElem type value).map fun read => (read, offset + (type.layout value).length) := by
  induction type generalizing fuel offset with
  | prime type =>
    obtain ⟨fuel, rfl⟩ := FieldType.fuel_succ (cons_ne_nil _ _) enough
    rw [FieldType.signature, deserialElem_char (prime_char type)]
    exact deserialFunc_prime type stands small
  | byteArray =>
    obtain ⟨fuel, rfl⟩ := FieldType.fuel_succ (cons_ne_nil _ _) enough
    rw [FieldType.layout, length_layoutBytes] at small
    have bytes : value.length ≤ maxBytesPerBuffer := by omega
    exact deserialByteArray_at stands bytes
  | objPtr =>
    obtain ⟨fuel, rfl⟩ := FieldType.fuel_succ (cons_ne_nil _ _) enough
    exact deserialObjPtr_at stands small
  | struct =>
    obtain ⟨fuel, rfl⟩ := FieldType.fuel_succ (cons_ne_nil _ _) enough
    exact deserialStruct_at stands
  | variant =>
    obtain ⟨fuel, rfl⟩ := FieldType.fuel_succ (cons_ne_nil _ _) enough
    exact deserialVariant_at carried stands small
  | array elem ih =>
    obtain ⟨fuel, rfl⟩ := FieldType.fuel_succ (cons_ne_nil _ _) enough
    have inner : innerSig '(' ')' ('(' :: elem.signature ['O'] ++ [')']) = some (elem.signature ['O']) :=
      innerSig_bracketed (FieldType.signature_ne_nil (cons_ne_nil 'O' []) elem)
    rw [FieldType.layout, length_layoutCounted] at small
    have shorter : (elem.signature ['O']).length ≤ fuel := by
      rw [FieldType.signature, length_append, length_cons] at enough
      omega
    have count := deserialCount_at stands carried.1 (by omega)
      (length_le_flatMap fun item _ => elem.layout_pos item)
    have reads : ∀ item ∈ value, ∀ offset, BytesAt oBuf offset (elem.layout item) →
        deserialElem fuel oBuf offset (elem.signature ['O']) =
          (readElem elem item).map fun read => (read, offset + (elem.layout item).length) := by
      intro item member offset stands
      have part := mem_layout_le elem.layout member
      exact ih (carried.2 item member) (by omega) shorter stands
    show deserialArray (deserialElem fuel) oBuf offset ('(' :: elem.signature ['O'] ++ [')']) = _
    rw [deserialArray, inner, Option.bind_some, count.1, Option.bind_some, readElems_at reads count.2,
      readElem, Option.map_map, Option.map_map, FieldType.layout, length_layoutCounted, Nat.add_assoc]
    rfl
  | map key elem _ =>
    obtain ⟨fuel, rfl⟩ := FieldType.fuel_succ (cons_ne_nil _ _) enough
    have other : innerSig '(' ')' ((FieldType.map key elem).signature ['O']) = none :=
      if_pos (Or.inl (by rw [FieldType.signature]; exact fun same => absurd (Option.some.inj same) (by decide)))
    show deserialArray (deserialElem fuel) oBuf offset ((FieldType.map key elem).signature ['O']) = _
    rw [deserialArray, other]
    rfl

end

/-! ### Maps -/

section

variable {key : PrimeType} {elem : FieldType}

def ofEntry (entry : key.Val × elem.Val C) : JsVal C × JsVal C := (ofPrime C key entry.1, ofVal elem entry.2)

def readEntry (entry : key.Val × elem.Val C) : Option (JsVal C × JsVal C) :=
  (readPrime C key entry.1).bind fun first => (readElem elem entry.2).map fun second => (first, second)

def entryLayout (entry : key.Val × elem.Val C) : List UInt8 := key.layout entry.1 ++ elem.layout entry.2

theorem readPrime_iff (type : PrimeType) (value : type.Val) :
    readPrime C type value = some (ofPrime C type value) ↔ PrimeClean type value := by
  cases type with
  | fixed type => exact readFixed_iff type value
  | string => exact readText_iff value

theorem readEntry_iff (entry : key.Val × elem.Val C) :
    readEntry entry = some (ofEntry entry) ↔ PrimeClean key entry.1 ∧ ElemClean elem entry.2 := by
  rw [← readPrime_iff (C := C), ← readElem_iff, readEntry, Option.bind_eq_some_iff]
  constructor
  · rintro ⟨first, isFirst, isSecond⟩
    obtain ⟨second, isRead, same⟩ := Option.map_eq_some_iff.1 isSecond
    rw [isFirst, isRead, (Prod.mk.inj same).1, (Prod.mk.inj same).2]
    exact ⟨rfl, rfl⟩
  · rintro ⟨isFirst, isSecond⟩
    exact ⟨_, isFirst, by rw [isSecond]; rfl⟩

theorem same_of_sameValueZero (type : PrimeType) {left right : type.Val}
    (same : sameValueZero (ofPrime C type left) (ofPrime C type right) = true) : type.same left right = true := by
  cases type with
  | string => exact same
  | fixed type =>
    cases type with
    | byte | uint16 | uint32 | uint64 =>
      have numbers : (left.toNat : Int) = right.toNat := eq_of_beq same
      exact beq_iff_eq.2 (Int.ofNat.inj numbers)
    | bool =>
      have equal : left = right := eq_of_beq same
      rw [equal]
      exact beq_self_eq_true _
    | int16 =>
      have equal : left = right := Int16.toInt_inj.1 (eq_of_beq same)
      rw [equal]
      exact beq_self_eq_true _
    | int32 =>
      have equal : left = right := Int32.toInt_inj.1 (eq_of_beq same)
      rw [equal]
      exact beq_self_eq_true _
    | int64 =>
      have equal : left = right := Int64.toInt_inj.1 (eq_of_beq same)
      rw [equal]
      exact beq_self_eq_true _
    | float =>
      have equal : (left == right || (left.toNat % 2 ^ 31 == 0 && right.toNat % 2 ^ 31 == 0) ||
        (FixedType.isNaN 8 23 left.toNat && FixedType.isNaN 8 23 right.toNat)) = true := same
      show FixedType.sameFloat 8 23 left.toNat right.toNat = true
      simp only [FixedType.sameFloat, Bool.or_eq_true, Bool.and_eq_true, beq_iff_eq] at equal ⊢
      rcases equal with (equal | zeros) | nans
      · rw [equal]
        exact Or.inl (Or.inl (Or.inl rfl))
      · exact Or.inl (Or.inl (Or.inr zeros))
      · exact Or.inr nans.2
    | double =>
      have equal : (left == right || (left.toNat % 2 ^ 63 == 0 && right.toNat % 2 ^ 63 == 0) ||
        (FixedType.isNaN 11 52 left.toNat && FixedType.isNaN 11 52 right.toNat)) = true := same
      show FixedType.sameFloat 11 52 left.toNat right.toNat = true
      simp only [FixedType.sameFloat, Bool.or_eq_true, Bool.and_eq_true, beq_iff_eq] at equal ⊢
      rcases equal with (equal | zeros) | nans
      · rw [equal]
        exact Or.inl (Or.inl (Or.inl rfl))
      · exact Or.inl (Or.inl (Or.inr zeros))
      · exact Or.inr nans.2

/-- What `deserialMap` makes of the entries. -/
def readMap (values : StdMap key.Val (elem.Val C) key.same) : Option (JsVal C) :=
  (collect readEntry values.entries).map fun entries => .map (entries.foldl mapSet [])

theorem readMap_iff (values : StdMap key.Val (elem.Val C) key.same) :
    readMap values = some (ofVal (.map key elem) values) ↔
      ∀ entry ∈ values.entries, PrimeClean key entry.1 ∧ ElemClean elem entry.2 := by
  have unique : (values.entries.map ofEntry).Pairwise fun earlier later =>
      sameValueZero (C := C) earlier.1 later.1 = false := by
    rw [pairwise_map]
    refine values.unique.imp fun {earlier later} apart => ?_
    cases same : sameValueZero (ofEntry earlier).1 (ofEntry later).1 with
    | false => rfl
    | true =>
      have equal := same_of_sameValueZero key same
      rw [apart] at equal
      exact absurd equal Bool.false_ne_true
  rw [readMap, Option.map_eq_some_iff]
  constructor
  · rintro ⟨list, isRead, same⟩ entry member
    have full : list.foldl mapSet [] = values.entries.map ofEntry := JsVal.map.inj same
    have length := congrArg List.length full
    rw [length_map, ← length_of_collect isRead] at length
    have whole : list.foldl mapSet [] = [] ++ list :=
      foldl_putEntry_of_length (by
        rw [length_nil, Nat.zero_add]
        exact length)
    rw [nil_append] at whole
    rw [whole] at full
    rw [full] at isRead
    exact (readEntry_iff entry).1 (collect_eq_map_iff.1 isRead entry member)
  · intro clean
    refine ⟨_, collect_eq_map_iff.2 fun entry member => (readEntry_iff entry).2 (clean entry member), ?_⟩
    exact congrArg JsVal.map (foldl_putEntry_of_unique unique)

theorem deserialMap_at {oBuf : List UInt8} {offset : Nat} {values : StdMap key.Val (elem.Val C) key.same}
    (carried : (FieldType.map key elem).Carried values)
    (small : ((FieldType.map key elem).layout values).length ≤ maxBytesPerBuffer)
    (stands : BytesAt oBuf offset ((FieldType.map key elem).layout values)) :
    deserialField oBuf offset ((FieldType.map key elem).signature ['O']) =
      (readMap values).map fun read => (read, offset + ((FieldType.map key elem).layout values).length) := by
  have inner : innerSig '[' ']' ((FieldType.map key elem).signature ['O']) =
      some (key.signature :: elem.signature ['O']) := innerSig_bracketed (cons_ne_nil _ _)
  have whole : (FieldType.map key elem).layout values =
      layoutCounted values.entries.length (values.entries.flatMap entryLayout) := rfl
  rw [whole] at small stands ⊢
  rw [length_layoutCounted] at small ⊢
  have some : ∀ entry ∈ values.entries, 0 < (entryLayout entry).length := by
    intro entry _
    have positive := key.layout_pos entry.1
    rw [entryLayout, length_append]
    omega
  have count := deserialCount_at stands carried.1 (by omega) (length_le_flatMap some)
  have length : ((FieldType.map key elem).signature ['O']).length = (elem.signature ['O']).length + 3 := by
    rw [FieldType.signature, length_append, length_cons, length_cons, length_singleton]
  show deserialMap (deserialElem ((FieldType.map key elem).signature ['O']).length) oBuf offset
    ((FieldType.map key elem).signature ['O']) = _
  rw [deserialMap, inner, Option.bind_some, count.1, Option.bind_some]
  by_cases none : values.entries.length = 0
  · have empty : values.entries = [] := eq_nil_of_length_eq_zero none
    rw [if_pos none, readMap, empty]
    rfl
  · have reads : ∀ entry ∈ values.entries, ∀ offset, BytesAt oBuf offset (entryLayout entry) →
        ((deserialElem (C := C) ((FieldType.map key elem).signature ['O']).length oBuf offset [key.signature]).bind
          fun read => (deserialElem ((FieldType.map key elem).signature ['O']).length oBuf read.2
            (elem.signature ['O'])).map fun next => ((read.1, next.1), next.2)) =
          (readEntry entry).map fun read => (read, offset + (entryLayout entry).length) := by
      intro entry member offset stands
      have part := mem_layout_le entryLayout member
      have both : (entryLayout entry).length = (key.layout entry.1).length + (elem.layout entry.2).length :=
        length_append
      have first := @deserialFunc_prime C oBuf offset key entry.1 stands.left (by omega)
      have second := @deserialElem_at C oBuf _ elem entry.2 (carried.2 entry member) (by omega)
        ((FieldType.map key elem).signature ['O']).length (by omega) stands.right
      rw [length] at second ⊢
      rw [deserialElem_char (prime_char key), first, readEntry]
      cases readPrime C key entry.1 with
      | none => rfl
      | some value =>
        simp only [Option.map_some, Option.bind_some]
        rw [second, Option.map_map, Option.map_map, both, Nat.add_assoc]
        rfl
    rw [if_neg none, keyValSig_signature, Option.bind_some]
    simp only
    rw [readElems_at reads count.2, readMap, Option.map_map, Option.map_map, Nat.add_assoc]
    rfl

end

theorem agrees_elem {type : FieldType} {value : type.Val C} (carried : type.Carried value)
    (small : (type.layout value).length ≤ maxBytesPerBuffer)
    (notMap : ∀ oBuf offset, deserialField (C := C) oBuf offset (type.signature ['O']) =
      deserialElem (type.signature ['O']).length oBuf offset (type.signature ['O'])) :
    Agrees type value ↔ ElemClean type value := by
  have limit : maxBytesPerBuffer < 2 ^ 32 := by decide
  have read := fun oBuf offset stands => @deserialElem_at C oBuf offset type value carried small _ (Nat.le_refl _) stands
  constructor
  · intro agrees
    have back := agrees.2 [] []
    rw [notMap, read _ _ (BytesAt.of_append [] _ []), Option.map_eq_some_iff] at back
    obtain ⟨made, isRead, same⟩ := back
    rw [(Prod.mk.inj same).1] at isRead
    exact (readElem_iff type value).1 isRead
  · intro clean
    refine ⟨fun oBuf => serialElem_clean type clean (by omega) (Nat.le_refl _) oBuf, fun before after => ?_⟩
    rw [notMap, read _ _ (BytesAt.of_append before _ after), (readElem_iff type value).2 clean]
    rfl

theorem serialField_entries {key : PrimeType} {elem : FieldType} {values : StdMap key.Val (elem.Val C) key.same}
    (some : values.entries ≠ [])
    (clean : ∀ entry ∈ values.entries, PrimeClean key entry.1 ∧ ElemClean elem entry.2)
    (small : ((FieldType.map key elem).layout values).length < 2 ^ 32) (oBuf : Option (List UInt8)) :
    serialField (ofVal (.map key elem) values) ((FieldType.map key elem).signature ['O']) oBuf =
      .some (concat oBuf ((FieldType.map key elem).layout values)) := by
  have whole : (FieldType.map key elem).layout values =
      layoutCounted values.entries.length (values.entries.flatMap entryLayout) := rfl
  rw [whole, length_layoutCounted] at small
  have positive : ∀ entry ∈ values.entries, 0 < (entryLayout entry).length := by
    intro entry _
    have first := key.layout_pos entry.1
    rw [entryLayout, length_append]
    omega
  have few := length_le_flatMap positive
  have length : ((FieldType.map key elem).signature ['O']).length = (elem.signature ['O']).length + 3 := by
    rw [FieldType.signature, length_append, length_cons, length_cons, length_singleton]
  have writes : ∀ entry ∈ values.entries, ∀ oBuf,
      ((serialElem ((elem.signature ['O']).length + 2) (ofEntry entry).1 [key.signature] (.some oBuf)).bind
        fun oBuf => serialElem ((elem.signature ['O']).length + 2) (ofEntry entry).2 (elem.signature ['O'])
          (.some oBuf)) = .some (oBuf ++ entryLayout entry) := by
    intro entry member oBuf
    have part := mem_layout_le entryLayout member
    have both : (entryLayout entry).length = (key.layout entry.1).length + (elem.layout entry.2).length :=
      length_append
    have first := serialFunc_prime (C := C) key (clean entry member).1 (by omega) (.some oBuf)
    have second := serialElem_clean elem (clean entry member).2 (by omega)
      (Nat.le_add_right _ 2) (.some (oBuf ++ key.layout entry.1))
    rw [ofEntry, serialElem_char (prime_char key), first, Option.bind_some, concat_some, second, concat_some,
      append_assoc]
    rfl
  have wrote := @serialMap_layout C _ (serialElem ((elem.signature ['O']).length + 2)) ofEntry entryLayout
    values.entries key elem some (by omega) (by omega) writes oBuf
  show serialElem ((FieldType.map key elem).signature ['O']).length _ _ _ = _
  rw [length]
  exact wrote

theorem agrees_map {key : PrimeType} {elem : FieldType} {values : StdMap key.Val (elem.Val C) key.same}
    (carried : (FieldType.map key elem).Carried values)
    (small : ((FieldType.map key elem).layout values).length ≤ maxBytesPerBuffer) :
    Agrees (.map key elem) values ↔ FieldClean (.map key elem) values := by
  have limit : maxBytesPerBuffer < 2 ^ 32 := by decide
  constructor
  · intro agrees
    constructor
    · intro empty
      have wrote := agrees.1 none
      have nothing : serialField (ofVal (.map key elem) values) ((FieldType.map key elem).signature ['O']) none =
          none := by
        have length : ((FieldType.map key elem).signature ['O']).length = (elem.signature ['O']).length + 3 := by
          rw [FieldType.signature, length_append, length_cons, length_cons, length_singleton]
        have inner : innerSig '[' ']' ((FieldType.map key elem).signature ['O']) =
            some (key.signature :: elem.signature ['O']) := innerSig_bracketed (cons_ne_nil _ _)
        show serialElem ((FieldType.map key elem).signature ['O']).length (ofVal (.map key elem) values)
          ((FieldType.map key elem).signature ['O']) none = none
        rw [length]
        show serialMap (serialElem ((elem.signature ['O']).length + 2)) (ofVal (.map key elem) values)
          ((FieldType.map key elem).signature ['O']) none = none
        rw [serialMap, inner, Option.bind_some, ofVal, empty, map_nil]
        simp only [length_nil]
        cases writeUint 4 ((0 : Nat) : Int) with
        | none => rfl
        | some count => rfl
      rw [nothing] at wrote
      exact absurd wrote.symm (Option.some_ne_none _)
    · have back := agrees.2 [] []
      rw [deserialMap_at carried small (BytesAt.of_append [] _ []), Option.map_eq_some_iff] at back
      obtain ⟨made, isRead, same⟩ := back
      rw [(Prod.mk.inj same).1] at isRead
      exact (readMap_iff values).1 isRead
  · intro clean
    refine ⟨fun oBuf => serialField_entries clean.1 clean.2 (by omega) oBuf, fun before after => ?_⟩
    rw [deserialMap_at carried small (BytesAt.of_append before _ after), (readMap_iff values).2 clean.2]
    rfl

/-- `CSerialBase` writes the layout, and `JavaScript` agrees with it on clean values. -/
theorem agrees_iff (type : FieldType) {value : type.Val C} (carried : type.Carried value)
    (small : (type.layout value).length ≤ maxBytesPerBuffer) :
    Writes (Ridl.serialField C type (type.signature ['O']) value) (type.layout value) ∧
      (Agrees type value ↔ FieldClean type value) := by
  refine ⟨serialField_writes ['O'] type carried, ?_⟩
  cases type with
  | prime type =>
    apply agrees_elem carried small
    intro oBuf offset
    cases type with
    | fixed type => cases type <;> rfl
    | string => rfl
  | byteArray | objPtr | struct | variant | array => exact agrees_elem carried small fun _ _ => rfl
  | map key elem => exact agrees_map carried small

/-- A map from a word to an array of byte arrays. -/
theorem agrees_oneEntry :
    Agrees (C := noObjects) (.map (.fixed .uint16) (.array .byteArray))
      ⟨[((5 : UInt16), [[1, 2], [3]])], List.pairwise_singleton _ _⟩ := by
  have carried : (FieldType.map (.fixed .uint16) (.array .byteArray)).Carried (C := noObjects)
      ⟨[((5 : UInt16), [[1, 2], [3]])], pairwise_singleton _ _⟩ := by
    refine ⟨by decide, fun entry member => ?_⟩
    rw [mem_singleton.1 member]
    exact ⟨by decide, fun _ _ => trivial⟩
  refine (agrees_iff _ carried (by decide)).2.2 ⟨cons_ne_nil _ _, fun entry member => ?_⟩
  rw [mem_singleton.1 member]
  refine ⟨trivial, fun bytes inside => ?_⟩
  rcases mem_cons.1 inside with same | inside
  · rw [same]
    exact cons_ne_nil _ _
  · rw [mem_singleton.1 inside]
    exact cons_ne_nil _ _

/-- The empty text does not come back. -/
theorem emptyText_disagrees : ¬∀ (C : RidlClasses) (type : FieldType) (value : type.Val C), type.Carried value →
    (type.layout value).length ≤ maxBytesPerBuffer → Agrees type value := by
  intro agrees
  have read := (agrees noObjects (.prime .string) [] trivial (by decide)).2 [] []
  exact absurd (congrArg Option.isSome read) (by decide)

end RpcFrmwrk.Ridl.Js
