import RpcFrmwrk.Library.BytesAt
import RpcFrmwrk.Library.Splice
import RpcFrmwrk.Ridl.Field

/-! The serializer of the JavaScript runtime. An exception is no result. The objects and structs
have the same classes on both sides, and the object that a class id stands for reads itself. A text
stands for its UTF-8 bytes; where the text decoder would put in replacement characters the model has
no result, and neither has it where the runtime would convert a value to another type. Owns the
values of a program, and the `Serial*` and `Deserial*` methods of `CSerialBase` and `Variant`;
`serialElem` and `deserialElem`, which go by the signature; the method for a signature. -/

namespace RpcFrmwrk.Ridl.Js

open RpcFrmwrk.Library

variable (C : RidlClasses)

/-- The values of a program. Floating point numbers are kept by their bit patterns. -/
inductive JsVal where
  | null
  | num (value : Int)
  | bool (value : Bool)
  | float (bits : UInt32)
  | double (bits : UInt64)
  | text (utf8 : List UInt8)
  | bytes (value : List UInt8)
  | obj (value : C.Obj)
  | struct (value : C.Struct)
  | variant (typeId : UInt8) (value : JsVal)
  | array (elems : List JsVal)
  | map (entries : List (JsVal × JsVal))

variable {C}

/-- `Buffer.concat` behind `m_oBuf`, which is null before the first write. -/
def concat (oBuf : Option (List UInt8)) (bytes : List UInt8) : List UInt8 := oBuf.getD [] ++ bytes

/-- `writeUInt8`, `writeUInt16BE`, `writeUInt32BE` and `writeBigUInt64BE`. -/
def writeUint (width : Nat) (value : Int) : Option (List UInt8) :=
  if 0 ≤ value ∧ value < 256 ^ width then some (toBE width value.toNat) else none

/-- `SerialUint8` to `SerialUint64`. -/
def serialUint (width : Nat) (val : JsVal C) (oBuf : Option (List UInt8)) : Option (List UInt8) :=
  match val with
  | .num value => (writeUint width value).map (concat oBuf)
  | .bool value => (writeUint width value.toNat).map (concat oBuf)
  | _ => none

def serialFloat (val : JsVal C) (oBuf : Option (List UInt8)) : Option (List UInt8) :=
  match val with
  | .float bits => some (concat oBuf (toBE 4 bits.toNat))
  | _ => none

def serialDouble (val : JsVal C) (oBuf : Option (List UInt8)) : Option (List UInt8) :=
  match val with
  | .double bits => some (concat oBuf (toBE 8 bits.toNat))
  | _ => none

def serialByteArray (val : JsVal C) (oBuf : Option (List UInt8)) : Option (List UInt8) :=
  match val with
  | .bytes value => (writeUint 4 value.length).map fun size => concat oBuf (size ++ value)
  | _ => none

def serialString (val : JsVal C) (oBuf : Option (List UInt8)) : Option (List UInt8) :=
  match val with
  | .text utf8 => (writeUint 4 utf8.length).map fun size => concat oBuf (size ++ utf8)
  | _ => none

/-- `SerialObjPtr` and `SerialStruct`: the value's own `Serialize`. -/
def serialObject (val : JsVal C) (oBuf : Option (List UInt8)) : Option (List UInt8) :=
  match val with
  | .obj value => some (concat oBuf (C.serialized value))
  | .struct value => some (concat oBuf (C.serializedStruct value))
  | _ => none

/-- `Variant.Serialize`. -/
def serialVariant (val : JsVal C) (oBuf : Option (List UInt8)) : Option (List UInt8) :=
  match val with
  | .variant typeId value =>
    let oBuf := concat oBuf [typeId]
    match typeId with
    | 1 => serialUint 1 value (some oBuf)
    | 2 => serialUint 2 value (some oBuf)
    | 3 => serialUint 4 value (some oBuf)
    | 4 => serialUint 8 value (some oBuf)
    | 5 => serialFloat value (some oBuf)
    | 6 => serialDouble value (some oBuf)
    | 10 => serialByteArray value (some oBuf)
    | 7 => serialString value (some oBuf)
    | 9 => serialObject value (some oBuf)
    | 0 => some oBuf
    | _ => none
  | _ => none

/-- `m_oSerialMap`. -/
def serialFunc (char : Char) (val : JsVal C) (oBuf : Option (List UInt8)) : Option (List UInt8) :=
  match char with
  | 'Q' | 'q' => serialUint 8 val oBuf
  | 'D' | 'd' => serialUint 4 val oBuf
  | 'W' | 'w' => serialUint 2 val oBuf
  | 'F' => serialDouble val oBuf
  | 'f' => serialFloat val oBuf
  | 'B' => serialUint 1 val oBuf
  | 'b' => serialUint 1 val oBuf
  | 'h' => serialUint 8 val oBuf
  | 'a' => serialByteArray val oBuf
  | 'O' => serialObject val oBuf
  | 'o' => serialObject val oBuf
  | 's' => serialString val oBuf
  | 'v' => serialVariant val oBuf
  | _ => none

/-- The loop over the elements of a container. -/
def serialElems {α : Type} (elem : α → List UInt8 → Option (List UInt8)) :
    List α → List UInt8 → Option (List UInt8)
  | [], oBuf => some oBuf
  | head :: tail, oBuf => (elem head oBuf).bind (serialElems elem tail)

def patchSize (oBuf : List UInt8) : Option (List UInt8) :=
  (writeUint 4 ((oBuf.length : Int) - 8)).map fun size => size ++ oBuf.drop 4

def serialArray (elem : JsVal C → List Char → Option (List UInt8) → Option (List UInt8))
    (val : JsVal C) (sig : List Char) (oBackBuf : Option (List UInt8)) : Option (List UInt8) :=
  (innerSig '(' ')' sig).bind fun sigElem =>
    match val with
    | .array elems =>
      (writeUint 4 elems.length).bind fun count =>
        (serialElems (fun value oBuf => elem value sigElem (some oBuf)) elems (toBE 4 0 ++ count)).bind
          fun oBuf => (patchSize oBuf).map (concat oBackBuf)
    | _ => none

/-- `FindContainerSig`. -/
def findContainerSig (signature : List Char) (isMap : Bool) : Option (List Char) :=
  let count := if isMap then sigEnd '[' ']' 1 signature.tail else sigEnd '(' ')' 1 signature.tail
  count.map fun count => signature.take (1 + count)

/-- `FindStandaloneSig`. -/
def findStandaloneSig (signature : List Char) : Option (List Char) :=
  match signature with
  | '(' :: _ => findContainerSig signature false
  | '[' :: _ => findContainerSig signature true
  | char :: _ => some [char]
  | [] => none

def keyValSig (sigElem : List Char) : Option (List Char × List Char) :=
  (findStandaloneSig sigElem).bind fun sigKey =>
    if sigElem.length ≤ sigKey.length then none
    else
      let sigRest := sigElem.drop sigKey.length
      (findStandaloneSig sigRest).bind fun sigValue =>
        if sigValue ≠ sigRest then none else some (sigKey, sigValue)

def serialMap (elem : JsVal C → List Char → Option (List UInt8) → Option (List UInt8))
    (val : JsVal C) (sig : List Char) (oBackBuf : Option (List UInt8)) : Option (List UInt8) :=
  (innerSig '[' ']' sig).bind fun sigElem =>
    match val with
    | .map entries =>
      (writeUint 4 entries.length).bind fun count =>
        let oSizeBuf := toBE 4 0 ++ count
        if entries.length = 0 then
          -- the length of a null buffer is an exception
          oBackBuf.map fun back => if 0 < back.length then back ++ oSizeBuf else oSizeBuf
        else
          (keyValSig sigElem).bind fun (sigKey, sigValue) =>
            let entry := fun (entry : JsVal C × JsVal C) (oBuf : List UInt8) =>
              (elem entry.1 sigKey (some oBuf)).bind fun oBuf => elem entry.2 sigValue (some oBuf)
            (serialElems entry entries oSizeBuf).bind fun oBuf =>
              (patchSize oBuf).map (concat oBackBuf)
    | _ => none

/-- `SerialElem`. Every container has a shorter signature inside, so the length of the signature
is enough fuel. -/
def serialElem : Nat → JsVal C → List Char → Option (List UInt8) → Option (List UInt8)
  | 0, _, _, _ => none
  | fuel + 1, val, sig, oBuf =>
    match sig with
    | '(' :: _ => serialArray (serialElem fuel) val sig oBuf
    | '[' :: _ => serialMap (serialElem fuel) val sig oBuf
    | char :: _ => serialFunc char val oBuf
    | [] => none

/-- The method for a signature: `SerialArray`, `SerialMap` or that of `m_oSerialMap`. -/
def serialField (val : JsVal C) (sig : List Char) (oBuf : Option (List UInt8)) : Option (List UInt8) :=
  serialElem sig.length val sig oBuf

/-- `readUint8`, `readUint16BE`, `readUint32BE` and `readBigUInt64BE`. -/
def readUint (width : Nat) (oBuf : List UInt8) (offset : Nat) : Option Nat := wordAt width oBuf offset

/-- `DeserialUint8` to `DeserialUint64`. -/
def deserialUint (width : Nat) (oBuf : List UInt8) (offset : Nat) : Option (JsVal C × Nat) :=
  (readUint width oBuf offset).map fun (word : Nat) => (.num word, offset + width)

def deserialFloat (oBuf : List UInt8) (offset : Nat) : Option (JsVal C × Nat) :=
  (readUint 4 oBuf offset).map fun word => (.float (UInt32.ofNat word), offset + 4)

def deserialDouble (oBuf : List UInt8) (offset : Nat) : Option (JsVal C × Nat) :=
  (readUint 8 oBuf offset).map fun word => (.double (UInt64.ofNat word), offset + 8)

/-- The size in front of a string or a byte array. -/
def deserialSize (oBuf : List UInt8) (offset : Nat) : Option Nat :=
  (readUint 4 oBuf offset).bind fun size =>
    if size = 0 ∨ maxBytesPerBuffer < size then none else some size

def deserialByteArray (oBuf : List UInt8) (offset : Nat) : Option (JsVal C × Nat) :=
  (deserialSize oBuf offset).map fun size =>
    (.bytes (slice oBuf (offset + 4) size), offset + 4 + size)

def validUtf8 (bytes : List UInt8) : Bool := ByteArray.validateUTF8 ⟨bytes.toArray⟩

def byteOrderMark : List UInt8 := [0xEF, 0xBB, 0xBF]

/-- `TextDecoder.decode`, which drops a byte order mark in front. -/
def textDecode (bytes : List UInt8) : Option (List UInt8) :=
  if validUtf8 bytes then
    some (if bytes.take 3 = byteOrderMark then bytes.drop 3 else bytes)
  else none

def deserialString (oBuf : List UInt8) (offset : Nat) : Option (JsVal C × Nat) :=
  (deserialSize oBuf offset).bind fun size =>
    (textDecode (slice oBuf (offset + 4) size)).map fun utf8 =>
      (.text (if utf8.getLast? = some 0 then utf8.dropLast else utf8), offset + size + 4)

def deserialObjPtr (oBuf : List UInt8) (offset : Nat) : Option (JsVal C × Nat) :=
  (readUint 4 oBuf offset).bind fun clsid =>
    (readUint 4 oBuf (offset + 4)).bind fun size =>
      if size = 0 ∨ oBuf.length - offset < size + seriHeaderBase then none
      else (C.newObj clsid (oBuf.drop offset)).map fun obj => (.obj obj, offset + size + seriHeaderBase)

def deserialStruct (oBuf : List UInt8) (offset : Nat) : Option (JsVal C × Nat) :=
  (readUint 4 oBuf (offset + 4)).bind fun clsid =>
    (C.newStruct clsid (oBuf.drop offset)).map fun (item, count) => (.struct item, offset + count)

/-- `Variant.Deserialize`. -/
def deserialVariant (oBuf : List UInt8) (offset : Nat) : Option (JsVal C × Nat) :=
  (readUint 1 oBuf offset).bind fun typeId =>
    let offset := offset + 1
    let value := fun (ret : Option (JsVal C × Nat)) =>
      ret.map fun ret => (.variant (UInt8.ofNat typeId) ret.1, ret.2)
    match typeId with
    | 1 => value (deserialUint 1 oBuf offset)
    | 2 => value (deserialUint 2 oBuf offset)
    | 3 => value (deserialUint 4 oBuf offset)
    | 4 => value (deserialUint 8 oBuf offset)
    | 5 => value (deserialFloat oBuf offset)
    | 6 => value (deserialDouble oBuf offset)
    | 10 => value (deserialByteArray oBuf offset)
    | 7 => value (deserialString oBuf offset)
    | 9 =>
      (readUint 4 oBuf offset).bind fun magic =>
        if magic = serialStructMagic then value (deserialStruct oBuf offset)
        else value (deserialObjPtr oBuf offset)
    | 0 => some (.variant 0 .null, offset)
    | _ => none

/-- `m_oDeserialMap`. `DeserialBool` reads a variable that does not exist. -/
def deserialFunc (char : Char) (oBuf : List UInt8) (offset : Nat) : Option (JsVal C × Nat) :=
  match char with
  | 'Q' | 'q' => deserialUint 8 oBuf offset
  | 'D' | 'd' => deserialUint 4 oBuf offset
  | 'W' | 'w' => deserialUint 2 oBuf offset
  | 'F' => deserialDouble oBuf offset
  | 'f' => deserialFloat oBuf offset
  | 'B' => deserialUint 1 oBuf offset
  | 'b' => none
  | 'h' => deserialUint 8 oBuf offset
  | 'a' => deserialByteArray oBuf offset
  | 'O' => deserialStruct oBuf offset
  | 'o' => deserialObjPtr oBuf offset
  | 's' => deserialString oBuf offset
  | 'v' => deserialVariant oBuf offset
  | _ => none

/-- The two words in front of the elements: none of them is there when one word is zero. -/
def deserialCount (oBuf : List UInt8) (offset : Nat) : Option Nat :=
  (readUint 4 oBuf offset).bind fun size =>
    (readUint 4 oBuf (offset + 4)).bind fun count =>
      if size = 0 ∨ count = 0 then some 0
      else if maxBytesPerBuffer < size ∨ 1000000 < count then none
      else some count

def deserialArray (elem : List UInt8 → Nat → List Char → Option (JsVal C × Nat))
    (oBuf : List UInt8) (offset : Nat) (sig : List Char) : Option (JsVal C × Nat) :=
  (innerSig '(' ')' sig).bind fun sigElem =>
    (deserialCount oBuf offset).bind fun count =>
      (readElems (fun offset => elem oBuf offset sigElem) count (offset + 8)).map
        fun (elems, offset) => (.array elems, offset)

/-- The equality of the keys of a `Map`. Zeros are the same, and so are values that are not a
number. -/
def sameValueZero : JsVal C → JsVal C → Bool
  | .num left, .num right => left == right
  | .bool left, .bool right => left == right
  | .text left, .text right => left == right
  | .float left, .float right =>
    left == right || (left.toNat % 2 ^ 31 == 0 && right.toNat % 2 ^ 31 == 0) ||
      (FixedType.isNaN 8 23 left.toNat && FixedType.isNaN 8 23 right.toNat)
  | .double left, .double right =>
    left == right || (left.toNat % 2 ^ 63 == 0 && right.toNat % 2 ^ 63 == 0) ||
      (FixedType.isNaN 11 52 left.toNat && FixedType.isNaN 11 52 right.toNat)
  | _, _ => false

/-- `Map.set`. -/
def mapSet : List (JsVal C × JsVal C) → JsVal C × JsVal C → List (JsVal C × JsVal C) := putEntry sameValueZero

/-- `DeserialMap`. -/
def deserialMap (elem : List UInt8 → Nat → List Char → Option (JsVal C × Nat))
    (oBuf : List UInt8) (offset : Nat) (sig : List Char) : Option (JsVal C × Nat) :=
  (innerSig '[' ']' sig).bind fun sigElem =>
    (deserialCount oBuf offset).bind fun count =>
      if count = 0 then some (.map [], offset + 8)
      else
        (keyValSig sigElem).bind fun (sigKey, sigValue) =>
          let entry := fun offset =>
            (elem oBuf offset sigKey).bind fun (key, offset) =>
              (elem oBuf offset sigValue).map fun (value, offset) => ((key, value), offset)
          (readElems entry count (offset + 8)).map fun (entries, offset) =>
            (.map (entries.foldl mapSet []), offset)

/-- `DeserialElem`. A map goes to `DeserialArray` too. -/
def deserialElem : Nat → List UInt8 → Nat → List Char → Option (JsVal C × Nat)
  | 0, _, _, _ => none
  | fuel + 1, oBuf, offset, sig =>
    match sig with
    | '(' :: _ => deserialArray (deserialElem fuel) oBuf offset sig
    | '[' :: _ => deserialArray (deserialElem fuel) oBuf offset sig
    | char :: _ => deserialFunc char oBuf offset
    | [] => none

/-- The method for a signature: `DeserialArray`, `DeserialMap` or that of `m_oDeserialMap`. -/
def deserialField (oBuf : List UInt8) (offset : Nat) (sig : List Char) : Option (JsVal C × Nat) :=
  match sig with
  | '[' :: _ => deserialMap (deserialElem sig.length) oBuf offset sig
  | _ => deserialElem sig.length oBuf offset sig

end RpcFrmwrk.Ridl.Js
