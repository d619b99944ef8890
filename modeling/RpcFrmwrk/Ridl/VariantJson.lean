import RpcFrmwrk.Combase.Base64
import RpcFrmwrk.Library.Numerals
import RpcFrmwrk.Ridl.Deserialize

/-! A `Variant` as a JSON document. Owns `JsonLib`, what the two methods use of the JSON library,
and `Preserves`, what they rely on; `SerializeToJson` and `DeserializeFromJson`. -/

namespace RpcFrmwrk.Ridl

open RpcFrmwrk.Library RpcFrmwrk.Combase

/-! ### The JSON library -/

/-- `CharReader::parse`: a text is refused, or the parser raises an exception, or there is a value. -/
inductive JsonParsed (Value : Type) where
  | refused
  | raised
  | value (doc : Value)

/-- The parser raises no exception. -/
def JsonParsed.Ends {Value : Type} : JsonParsed Value → Prop
  | .raised => False
  | _ => True

/-- The JSON library. A conversion without a result raises an exception. -/
structure JsonLib where
  Value : Type
  ofInt : Nat → Value
  ofUInt : Nat → Value
  ofUInt64 : Nat → Value
  ofFloat : UInt32 → Value
  ofDouble : UInt64 → Value
  ofString : List UInt8 → Value
  /-- From a string that ends at a NUL, or a null pointer. -/
  ofChars : Option (List UInt8) → Option Value
  /-- An object with members that are set one after the other. -/
  object : List (List UInt8 × Value) → Value
  writeString : Value → List UInt8
  parse : List UInt8 → JsonParsed Value
  isObject : Value → Bool
  isInt : Value → Bool
  isString : Value → Bool
  /-- `isMember` and `operator[]`. -/
  member : List UInt8 → Value → Option Value
  asInt : Value → Option Int
  asUInt : Value → Option Nat
  asUInt64 : Value → Option Nat
  asFloat : Value → Option UInt32
  asDouble : Value → Option UInt64
  asString : Value → Option (List UInt8)

def keyT : List UInt8 := [116]

def keyV : List UInt8 := [118]

namespace JsonLib

variable (J : JsonLib)

def document (typeId : UInt8) (val : Option J.Value) : List UInt8 :=
  J.writeString (J.object ((val.map fun val => (keyV, val)).toList ++ [(keyT, J.ofInt typeId.toNat)]))

/-- The checks of `DeserializeFromJson` for the type. -/
def typeMember (doc : J.Value) : Option J.Value :=
  if J.isObject doc then (J.member keyT doc).filter J.isInt else none

def HasType (text : List UInt8) (typeId : UInt8) (doc : J.Value) : Prop :=
  J.parse text = .value doc ∧
    ∃ val number, J.typeMember doc = some val ∧ J.asInt val = some number ∧ UInt8.ofInt number = typeId

def Holds (text : List UInt8) (typeId : UInt8) (val : J.Value) : Prop :=
  ∃ doc, J.HasType text typeId doc ∧ J.member keyV doc = some val

/-- Types, integers and strings come back from the documents they are written to. -/
structure Preserves : Prop where
  asInt_isInt : ∀ val, J.isInt val = true → (J.asInt val).isSome = true
  asString_isString : ∀ val, J.isString val = true → (J.asString val).isSome = true
  int_not_string : ∀ val, J.isInt val = true → J.isString val = false
  chars : ∀ text, J.ofChars (some text) = some (J.ofString text)
  null : J.ofChars none = none
  noValue : ∀ typeId ≤ 10, ∃ doc, J.HasType (J.document typeId none) typeId doc
  uint : ∀ typeId ≤ 10, ∀ value < 2 ^ 32, ∃ val,
    J.Holds (J.document typeId (some (J.ofUInt value))) typeId val ∧ J.asUInt val = some value
  uint64 : ∀ typeId ≤ 10, ∀ value < 2 ^ 64, ∃ val,
    J.Holds (J.document typeId (some (J.ofUInt64 value))) typeId val ∧ J.asUInt64 val = some value ∧
      J.isInt val = decide (value < 2 ^ 31) ∧ J.isString val = false
  string : ∀ typeId ≤ 10, ∀ text, ∃ val,
    J.Holds (J.document typeId (some (J.ofString text))) typeId val ∧ J.asString val = some text ∧
      J.isInt val = false ∧ J.isString val = true

end JsonLib

/-- `MAX_SAFE_INTEGER`. -/
def maxSafeInteger : Nat := 9007199254740991

variable {C : RidlClasses} (J : JsonLib)

/-- The document with the base64 text of bytes. The text has no NUL of its own, so what is in memory behind
it, up to a NUL, belongs to it. -/
def base64ToJson (behind : List UInt8) (typeId : UInt8) (bytes : List UInt8) : Ended (List UInt8) :=
  match base64Encode bytes with
  | .done ret text =>
    match J.ofChars (text.map fun text => text ++ behind) with
    | none => .raised
    | some val => .done ret (J.document typeId (some val))
  | .failed ret => .failed ret
  | .raised => .raised
  | .fault => .fault

/-- `Variant::SerializeToJson`, with what is in memory behind the buffer of the base64 text. -/
def serializeToJson (behind : List UInt8) (value : Variant C) : Ended (List UInt8) :=
  match value with
  | .byte number => .done 0 (J.document value.typeId (some (J.ofUInt number.toNat)))
  | .uint16 number => .done 0 (J.document value.typeId (some (J.ofUInt number.toNat)))
  | .uint32 number => .done 0 (J.document value.typeId (some (J.ofUInt number.toNat)))
  | .uint64 number =>
    if number.toNat ≤ maxSafeInteger then .done 0 (J.document value.typeId (some (J.ofUInt64 number.toNat)))
    else .done 0 (J.document value.typeId (some (J.ofString (decimal number.toNat))))
  | .float bits => .done 0 (J.document value.typeId (some (J.ofFloat bits)))
  | .double bits => .done 0 (J.document value.typeId (some (J.ofDouble bits)))
  | .string text => .done 0 (J.document value.typeId (some (J.ofString text)))
  | .struct item => base64ToJson J behind value.typeId (C.serializedStruct item)
  -- The pointer is dereferenced.
  | .obj none => .fault
  | .obj (some obj) => base64ToJson J behind value.typeId (C.serialized obj)
  | .byteArr bytes =>
    -- The offset stands behind what was written, and the text is made of the bytes from the offset on.
    let (ret, buf) := serializeBytes bytes CBuffer.empty
    if ret.failed then .failed ret else base64ToJson J behind value.typeId buf.ptr
  | .none => .done 0 (J.document value.typeId none)
  | .dMsg => .failed .enotsup

/-- `ULONG_MAX`. -/
def ulongMax (build64 : Bool) : Nat := if build64 then 2 ^ 64 - 1 else 2 ^ 32 - 1

def cString (text : List UInt8) : List UInt8 := text.takeWhile fun char => char != 0

/-- The number in a string: decimal, or else hexadecimal. -/
def readNumeral (build64 : Bool) (text : List UInt8) : Option Nat :=
  if text = [] then none
  else
    let decimal := strtoul (ulongMax build64) 10 (cString text)
    if decimal.2 = [] then some decimal.1
    else
      let hexadecimal := strtoul (ulongMax build64) 16 (cString text)
      if hexadecimal.2 = [] then some hexadecimal.1 else none

/-- What `Clear` leaves in `m_qwVal`: nothing, unless there was a pointer. -/
def clearedQword (left : UInt64) : Variant C → UInt64
  | .dMsg | .obj _ | .struct _ | .byteArr _ => left
  | _ => 0

/-- The value of a conversion, which may raise an exception. -/
def converted {α : Type} (result : Option α) (make : α → Variant C) : Ended (Variant C) :=
  match result with
  | none => .raised
  | some value => .done 0 (make value)

/-- The `typeUInt64` case. A value that is neither an `int` nor a string is not looked at. -/
def readQword (build64 : Bool) (cleared : UInt64) (val : J.Value) : Ended (Variant C) :=
  if J.isInt val then converted (J.asUInt64 val) fun number => .uint64 (UInt64.ofNat number)
  else if J.isString val then
    match J.asString val with
    | none => .raised
    | some text =>
      match readNumeral build64 text with
      | none => .failed .ebadmsg
      | some number => .done 0 (.uint64 (UInt64.ofNat number))
  else .done 0 (.uint64 cleared)

def readBase64 (val : J.Value) (make : List UInt8 → Ended (Variant C)) : Ended (Variant C) :=
  match J.asString val with
  | none => .raised
  | some text =>
    match base64Decode text with
    | .error ret => .failed ret
    | .ok bytes => make bytes

/-- The rest of the `typeObj` case. Whether or not the first word is `SERIAL_STRUCT_MAGIC`, it reads an
object pointer. -/
def readObjJson (bytes : List UInt8) : Ended (Variant C) :=
  if bytes.length < 8 then .failed .erange
  else
    let (ret, value, _) := deserializeObj C (CBuffer.cursor [] bytes)
    if ret.failed then .failed ret else .done 0 (.obj value)

/-- The switch of `DeserializeFromJson`. -/
def readValue (build64 : Bool) (cleared : UInt64) (typeId : UInt8) (val : J.Value) : Ended (Variant C) :=
  match typeId with
  | 1 => converted (J.asUInt val) fun number => .byte (UInt8.ofNat number)
  | 2 => converted (J.asUInt val) fun number => .uint16 (UInt16.ofNat number)
  | 3 => converted (J.asUInt val) fun number => .uint32 (UInt32.ofNat number)
  | 4 => readQword J build64 cleared val
  | 5 => converted (J.asFloat val) .float
  | 6 => converted (J.asDouble val) .double
  | 7 => converted (J.asString val) .string
  | 9 => readBase64 J val readObjJson
  | 10 => readBase64 J val fun bytes => .done bytes.length (.byteArr bytes)
  | _ => .failed .enotsup

/-- The return code and the variant after the switch. After an exception of the library the code is still
zero. -/
def concluded : Ended (Variant C) → Except Status Nat × Variant C
  | .done ret value => (.ok ret, value)
  | .failed ret => (.error ret, .none)
  | .raised | .fault => (.ok 0, .none)

/-- `Variant::DeserializeFromJson` of the variant `old`: the return code and what the variant is then. -/
def deserializeFromJson (build64 : Bool) (left : UInt64) (old : Variant C) (text : List UInt8) :
    Except Status Nat × Variant C :=
  match J.parse text with
  | .raised => (.ok 0, old)
  | .refused => (.error .ebadmsg, old)
  | .value doc =>
    match J.typeMember doc with
    | none => (.error .einval, old)
    | some typeVal =>
      match J.asInt typeVal with
      | none => (.ok 0, .none)
      | some number =>
        let typeId := UInt8.ofInt number
        if typeId = 0 then (.ok 0, .none)
        else
          match J.member keyV doc with
          | none => (.error .einval, .none)
          | some val => concluded (readValue J build64 (clearedQword left old) typeId val)

end RpcFrmwrk.Ridl
