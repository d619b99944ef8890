import RpcFrmwrk.Library.BytesAt
import RpcFrmwrk.Library.Splice
import RpcFrmwrk.Ridl.Field

/-! The serializer of the Java runtime. An exception, and a negative return value, is no result. The
offset is kept with the buffer; a write that fails leaves its error in the offset, which makes every
later write fail. The objects and structs have the same classes on both sides. A string stands for
its UTF-8 bytes; where the decoder would put in replacement characters the model has no result, and
neither has it where the conversion of a number is left undefined by the language, or an object is
not of the type it is cast to. Owns the values of a program; the helpers of `BufPtr` and the
`serial*` and `deserial*` methods of `JavaSerialBase`; `JVariant`, `serialElem` and `deserialElem`.
-/

namespace RpcFrmwrk.Ridl.Java

open RpcFrmwrk.Library

/-- The primitive types. -/
inductive Primitive where
  | long
  | int
  | short
  | byte
  | bool
  | float
  | double
deriving DecidableEq, Repr

def Primitive.width : Primitive → Nat
  | .long | .double => 8
  | .int | .float => 4
  | .short => 2
  | .byte | .bool => 1

variable (C : RidlClasses)

/-- The values of a program. A number is kept as its word. -/
inductive JavaVal where
  | null
  | prim (type : Primitive) (word : Nat)
  | string (utf8 : List UInt8)
  | buf (value : List UInt8)
  | objPtr (value : Option C.Obj)
  | struct (value : C.Struct)
  | variant (iType : UInt8) (val : JavaVal)
  | primArr (type : Primitive) (words : List Nat)
  | objArr (elems : List JavaVal)
  | map (entries : List (JavaVal × JavaVal))

variable {C}

/-! ### The helpers of `BufPtr` -/

/-- A buffer with the offset. -/
abbrev Pos : Type := List UInt8 × Nat

/-- `Resize` to more bytes. -/
def grow (buf : List UInt8) (size : Nat) : List UInt8 := buf ++ List.replicate (size - buf.length) 0

/-- `CheckAndResize`. -/
def checkAndResize (buf : List UInt8) (iPos iSize : Nat) : Option (List UInt8) :=
  if buf = [] then none
  else if maxBytesPerBuffer < iPos + iSize then none
  else if buf.length < iPos + iSize then
    if iPos + iSize < 2048 then some (grow buf 2048)
    else some (grow buf (min ((iPos + iSize) * 2) maxBytesPerBuffer))
  else some buf

/-- The bytes go to the offset once there is room for them. -/
def put (bytes : List UInt8) (pos : Pos) : Option Pos :=
  (checkAndResize pos.1 pos.2 bytes.length).map fun buf => (splice buf pos.2 bytes, pos.2 + bytes.length)

/-- `SerialByte`, `SerialShort`, `SerialInt`, `SerialLong`, and `SerialFloat` and `SerialDouble` with
the bits of the number. -/
def serialWord (width word : Nat) (pos : Pos) : Option Pos := put (toBE width word) pos

/-- The bytes of `GetStringUTFChars`: a null takes two bytes, and a character of four bytes takes
two surrogates of three. A broken sequence has become the replacement character. -/
def modifiedUtf8 : List UInt8 → List UInt8
  | [] => []
  | first :: rest =>
    if first = 0 then 0xC0 :: 0x80 :: modifiedUtf8 rest
    else if 0xF0 ≤ first.toNat then
      match rest with
      | second :: third :: fourth :: rest =>
        let point := (first.toNat % 8 * 2 ^ 18 + second.toNat % 64 * 2 ^ 12 + third.toNat % 64 * 2 ^ 6 +
          fourth.toNat % 64) - 0x10000
        let high := point / 2 ^ 10
        let low := point % 2 ^ 10
        0xED :: UInt8.ofNat (0xA0 + high / 64) :: UInt8.ofNat (0x80 + high % 64) ::
          0xED :: UInt8.ofNat (0xB0 + low / 64) :: UInt8.ofNat (0x80 + low % 64) :: modifiedUtf8 rest
      | broken => 0xEF :: 0xBF :: 0xBD :: modifiedUtf8 broken
    else first :: modifiedUtf8 rest

/-- `SerialString`. -/
def serialString (utf8 : List UInt8) (pos : Pos) : Option Pos :=
  let val := modifiedUtf8 utf8
  put (toBE 4 val.length ++ val) pos

/-- `SerialByteArray`. -/
def serialBuf (value : List UInt8) (pos : Pos) : Option Pos := put (toBE 4 value.length ++ value) pos

/-- `SerialObjPtr`. -/
def serialObjPtr (value : Option C.Obj) (pos : Pos) : Option Pos :=
  value.bind fun obj => put (C.serialized obj) pos

/-- The two words in front of the elements of an array of primitives. -/
def arrHeader (width count : Nat) : List UInt8 := toBE 4 (count * width) ++ toBE 4 count

/-- `SerialInt8Arr`, `SerialShortArr`, `SerialIntArr` and `SerialLongArr`. -/
def serialWordArr (width : Nat) (words : List Nat) (pos : Pos) : Option Pos :=
  put (arrHeader width words.length ++ words.flatMap (toBE width)) pos

/-- The conversion of a floating point number to an unsigned integer. The fraction is dropped; of
a number that does not fit the language says nothing. -/
def truncate (exponentBits fractionBits width bits : Nat) : Option Nat :=
  let exponent := bits / 2 ^ fractionBits % 2 ^ exponentBits
  let fraction := bits % 2 ^ fractionBits
  let bias := 2 ^ (exponentBits - 1) - 1
  if exponent < bias then some 0
  else if bits / 2 ^ (exponentBits + fractionBits) = 1 ∨ exponent = 2 ^ exponentBits - 1 then none
  else
    let value := (2 ^ fractionBits + fraction) * 2 ^ (exponent - bias) / 2 ^ fractionBits
    if 2 ^ width ≤ value then none else some value

/-- `SerialFloatArr` and `SerialDoubleArr`: `htonl` and `htonll` take the number itself. -/
def serialRealArr (convert : Nat → Option Nat) (width : Nat) (words : List Nat) (pos : Pos) : Option Pos :=
  (collect convert words).bind fun converted => serialWordArr width converted pos

/-- The loop over the elements of an array or a map. -/
def serialElems {α : Type} (elem : α → Pos → Option Pos) : List α → Pos → Option Pos
  | [], pos => some pos
  | head :: tail, pos => (elem head pos).bind (serialElems elem tail)

/-- `serialBoolArr`. The offset is moved on once more behind the first word. -/
def serialBoolArr (words : List Nat) (pos : Pos) : Option Pos :=
  (serialWord 4 words.length pos).bind fun pos =>
    (serialWord 4 words.length (pos.1, pos.2 + 4)).bind fun pos =>
      serialElems (fun word => serialWord 1 (if word = 0 then 0 else 1)) words pos

/-- `isPrimType`, with the array that is expected. -/
def primitiveOf : Char → Option Primitive
  | 'Q' | 'q' => some .long
  | 'D' | 'd' => some .int
  | 'W' | 'w' => some .short
  | 'f' => some .float
  | 'F' => some .double
  | 'b' => some .bool
  | 'B' => some .byte
  | _ => none

/-- `serialPrimArray`. -/
def serialPrimArray (type : Primitive) (words : List Nat) (pos : Pos) : Option Pos :=
  match type with
  | .long => serialWordArr 8 words pos
  | .int => serialWordArr 4 words pos
  | .short => serialWordArr 2 words pos
  | .byte => serialWordArr 1 words pos
  | .bool => serialBoolArr words pos
  | .float => serialRealArr (truncate 8 23 32) 4 words pos
  | .double => serialRealArr (truncate 11 52 64) 8 words pos

/-- `serialBool` to `serialDouble`. -/
def serialPrim (type : Primitive) (val : JavaVal C) (pos : Pos) : Option Pos :=
  match val with
  | .prim other word => if other = type then serialWord type.width word pos else none
  | _ => none

/-- `serialStruct`: the generated class writes the struct and cuts the buffer off behind it. -/
def serialStruct (val : JavaVal C) (pos : Pos) : Option Pos :=
  match val with
  | .struct value => (put (C.serializedStruct value) pos).map fun pos => (pos.1.take pos.2, pos.2)
  | _ => none

/-- `serialize` of `JVariant`. -/
def serialVariant (val : JavaVal C) (pos : Pos) : Option Pos :=
  match val with
  | .variant iType val =>
    (serialWord 1 iType.toNat pos).bind fun pos =>
      match iType, val with
      | 1, val => serialPrim .byte val pos
      | 2, val => serialPrim .short val pos
      | 3, val => serialPrim .int val pos
      | 4, val => serialPrim .long val pos
      | 5, val => serialPrim .float val pos
      | 6, val => serialPrim .double val pos
      | 7, .string utf8 => serialString utf8 pos
      | 10, .buf value => serialBuf value pos
      | 9, .struct value => serialStruct (.struct value) pos
      | 9, .objPtr value => serialObjPtr value pos
      | 0, _ => some pos
      | _, _ => none
  | _ => none

/-- `m_SerialFuncs`. -/
def serialFunc (char : Char) (val : JavaVal C) (pos : Pos) : Option Pos :=
  match primitiveOf char with
  | some type => serialPrim type val pos
  | none =>
    match char, val with
    | 's', .string utf8 => serialString utf8 pos
    | 'a', .buf value => serialBuf value pos
    | 'o', .objPtr value => serialObjPtr value pos
    | 'O', val => serialStruct val pos
    | 'v', val => serialVariant val pos
    | _, _ => none

/-- The primitive type of a signature that is one character long. -/
def primSig (sig : List Char) : Option Primitive :=
  match sig with
  | [char] => primitiveOf char
  | _ => none

/-- The count and the elements of a container, and the size in front of them. -/
def serialCounted {α : Type} (elem : α → Pos → Option Pos) (elems : List α) (pos : Pos) : Option Pos :=
  let sizeOff := pos.2
  (serialWord 4 0 pos).bind fun pos =>
    (serialWord 4 elems.length pos).bind fun pos =>
      if elems.length = 0 then some pos
      else
        (serialElems elem elems pos).bind fun pos =>
          if pos.2 ≤ sizeOff + 8 then none
          else (serialWord 4 (pos.2 - sizeOff - 8) (pos.1, sizeOff)).map fun sized => (sized.1, pos.2)

def serialArray (elem : JavaVal C → List Char → Pos → Option Pos) (val : JavaVal C) (sig : List Char)
    (pos : Pos) : Option Pos :=
  (innerSig '(' ')' sig).bind fun sigElem =>
    match primSig sigElem, val with
    | some type, .primArr other words => if other = type then serialPrimArray type words pos else none
    | none, .objArr elems => serialCounted (fun val => elem val sigElem) elems pos
    | _, _ => none

def serialMap (elem : JavaVal C → List Char → Pos → Option Pos) (val : JavaVal C) (sig : List Char)
    (pos : Pos) : Option Pos :=
  (innerSig '[' ']' sig).bind fun sigElem =>
    match val with
    | .map entries =>
      let entry := fun (entry : JavaVal C × JavaVal C) (pos : Pos) =>
        (elem entry.1 (sigElem.take 1) pos).bind fun pos => elem entry.2 (sigElem.drop 1) pos
      serialCounted entry entries pos
    | _ => none

/-- `serialElem`. Every container has a shorter signature inside, so the length of the signature
is enough fuel. -/
def serialElem : Nat → JavaVal C → List Char → Pos → Option Pos
  | 0, _, _, _ => none
  | fuel + 1, val, sig, pos =>
    match sig with
    | '(' :: _ => serialArray (serialElem fuel) val sig pos
    | '[' :: _ => serialMap (serialElem fuel) val sig pos
    | char :: _ => serialFunc char val pos
    | [] => none

/-- `get`, `getShort`, `getInt` and `getLong`. -/
def getWord (width : Nat) (buf : List UInt8) (pos : Nat) : Option (Nat × Nat) :=
  (wordAt width buf pos).map fun word => (word, pos + width)

/-- `get` into an array of bytes. -/
def getBytes (size : Nat) (buf : List UInt8) (pos : Nat) : Option (List UInt8 × Nat) :=
  if pos + size ≤ buf.length then some (slice buf pos size, pos + size) else none

/-- `deserialBool` to `deserialDouble`. -/
def deserialPrim (type : Primitive) (buf : List UInt8) (pos : Nat) : Option (JavaVal C × Nat) :=
  (getWord type.width buf pos).bind fun (word, pos) =>
    if type = .bool ∧ 1 < word then none else some (.prim type word, pos)

/-- The two words in front of the elements, and whether the count agrees with the size. -/
def deserialHeader (agree : Nat → Nat → Bool) (buf : List UInt8) (pos : Nat) : Option (Nat × Nat × Nat) :=
  (getWord 4 buf pos).bind fun (iBytes, pos) =>
    (getWord 4 buf pos).bind fun (count, pos) =>
      -- from 2 ^ 31 on the words are negative
      if maxBytesPerBuffer < iBytes then none
      else if !agree count iBytes ∨ 2 ^ 31 ≤ count then none
      else some (iBytes, count, pos)

/-- `deserialInt8Arr` to `deserialDoubleArr`. -/
def deserialWordArr (agree : Nat → Nat → Bool) (type : Primitive) (buf : List UInt8) (pos : Nat) :
    Option (JavaVal C × Nat) :=
  (deserialHeader agree buf pos).bind fun (_, count, pos) =>
    (readElems (getWord type.width buf) count pos).map fun (words, pos) => (.primArr type words, pos)

/-- `deserialBoolArr`. -/
def deserialBoolArr (buf : List UInt8) (pos : Nat) : Option (JavaVal C × Nat) :=
  (deserialHeader (fun _ _ => true) buf pos).bind fun (_, count, pos) =>
    (readElems (getWord 1 buf) count pos).map fun (words, pos) =>
      (.primArr .bool (words.map fun word => if word = 1 then 1 else 0), pos)

/-- `deserialPrimArray`. The size of an array of doubles is taken for that of one of floats. -/
def deserialPrimArray (type : Primitive) (buf : List UInt8) (pos : Nat) : Option (JavaVal C × Nat) :=
  match type with
  | .long => deserialWordArr (fun _ _ => true) .long buf pos
  | .int => deserialWordArr (fun _ _ => true) .int buf pos
  | .short => deserialWordArr (fun _ _ => true) .short buf pos
  | .byte => deserialWordArr (fun _ _ => true) .byte buf pos
  | .bool => deserialBoolArr buf pos
  | .float => deserialWordArr (fun count iBytes => count == iBytes / 4) .float buf pos
  | .double => deserialWordArr (fun count iBytes => count == iBytes / 4) .double buf pos

def maxStringSize : Nat := 1024 * 1024

def validUtf8 (bytes : List UInt8) : Bool := ByteArray.validateUTF8 ⟨bytes.toArray⟩

def deserialString (buf : List UInt8) (pos : Nat) : Option (JavaVal C × Nat) :=
  (getWord 4 buf pos).bind fun (iSize, pos) =>
    if iSize = 0 then some (.string [], pos)
    else if maxStringSize < iSize then none
    else
      (getBytes iSize buf pos).bind fun (bytes, pos) =>
        if validUtf8 bytes then some (.string bytes, pos) else none

def deserialBuf (buf : List UInt8) (pos : Nat) : Option (JavaVal C × Nat) :=
  (getWord 4 buf pos).bind fun (iSize, pos) =>
    if iSize = 0 then some (.buf [], pos)
    else if maxBytesPerBuffer < iSize then none
    else (getBytes iSize buf pos).map fun (bytes, pos) => (.buf bytes, pos)

def deserialObjPtr (buf : List UInt8) (pos : Nat) : Option (JavaVal C × Nat) :=
  (getWord 4 buf pos).bind fun (clsid, next) =>
    (getWord 4 buf next).bind fun (iSize, next) =>
      (getWord 4 buf next).bind fun (_, next) =>
        if maxStringSize < iSize then none
        else if iSize = 0 then some (.objPtr none, next)
        else
          (getBytes (next - pos + iSize) buf pos).bind fun (bytes, next) =>
            (C.newObj clsid bytes).map fun obj => (.objPtr (some obj), next)

def deserialStruct (buf : List UInt8) (pos : Nat) : Option (JavaVal C × Nat) :=
  (getWord 4 buf pos).bind fun (iMagic, next) =>
    if iMagic ≠ serialStructMagic then none
    else
      (getWord 4 buf next).bind fun (id, _) =>
        (C.newStruct id (buf.drop pos)).map fun (item, count) => (.struct item, pos + count)

/-- `deserialize` of `JVariant`. -/
def deserialVariant (buf : List UInt8) (pos : Nat) : Option (JavaVal C × Nat) :=
  (getWord 1 buf pos).bind fun (iType, pos) =>
    let val := fun (read : Option (JavaVal C × Nat)) =>
      read.map fun read => (.variant (UInt8.ofNat iType) read.1, read.2)
    match iType with
    | 1 => val (deserialPrim .byte buf pos)
    | 2 => val (deserialPrim .short buf pos)
    | 3 => val (deserialPrim .int buf pos)
    | 4 => val (deserialPrim .long buf pos)
    | 5 => val (deserialPrim .float buf pos)
    | 6 => val (deserialPrim .double buf pos)
    | 7 => val (deserialString buf pos)
    | 10 => val (deserialBuf buf pos)
    | 9 =>
      (getWord 4 buf pos).bind fun (first, next) =>
        (getWord 4 buf next).bind fun _ =>
          if first = serialStructMagic then val (deserialStruct buf pos)
          else val (deserialObjPtr buf pos)
    -- an unknown type is not an error here
    | _ => some (.variant (UInt8.ofNat iType) .null, pos)

/-- `m_DeserialFuncs`. -/
def deserialFunc (char : Char) (buf : List UInt8) (pos : Nat) : Option (JavaVal C × Nat) :=
  match primitiveOf char with
  | some type => deserialPrim type buf pos
  | none =>
    match char with
    | 's' => deserialString buf pos
    | 'a' => deserialBuf buf pos
    | 'o' => deserialObjPtr buf pos
    | 'O' => deserialStruct buf pos
    | 'v' => deserialVariant buf pos
    | _ => none

/-- The elements of a container have to end where its size says. -/
def deserialCounted {α : Type} (elem : Nat → Option (α × Nat)) (buf : List UInt8) (pos : Nat) :
    Option (List α × Nat) :=
  (deserialHeader (fun count iBytes => count ≤ iBytes) buf pos).bind fun (iBytes, count, beginPos) =>
    if count = 0 then some ([], beginPos)
    else
      (readElems elem count beginPos).bind fun (elems, pos) =>
        if pos - beginPos ≠ iBytes then none else some (elems, pos)

/-- `deserialArray` and `deserialArrayInternal`. -/
def deserialArray (elem : List UInt8 → Nat → List Char → Option (JavaVal C × Nat)) (buf : List UInt8)
    (pos : Nat) (sig : List Char) : Option (JavaVal C × Nat) :=
  (innerSig '(' ')' sig).bind fun sigElem =>
    match primSig sigElem with
    | some type => deserialPrimArray type buf pos
    | none =>
      (deserialCounted (fun pos => elem buf pos sigElem) buf pos).map fun (elems, pos) => (.objArr elems, pos)

/-- `equals` of the keys. Numbers that are not a number are equal. -/
def equals : JavaVal C → JavaVal C → Bool
  | .prim type left, .prim other right =>
    type == other && (left == right ||
      (type == .float && FixedType.isNaN 8 23 left && FixedType.isNaN 8 23 right) ||
      (type == .double && FixedType.isNaN 11 52 left && FixedType.isNaN 11 52 right))
  | .string left, .string right => left == right
  | _, _ => false

/-- `put` of a `HashMap`, whose order has no meaning. -/
def mapPut : List (JavaVal C × JavaVal C) → JavaVal C × JavaVal C → List (JavaVal C × JavaVal C) := putEntry equals

/-- `deserialMap` and `deserialMapInternal`. The keys of a map have one character. -/
def deserialMap (elem : List UInt8 → Nat → List Char → Option (JavaVal C × Nat)) (buf : List UInt8)
    (pos : Nat) (sig : List Char) : Option (JavaVal C × Nat) :=
  (innerSig '[' ']' sig).bind fun sigElem =>
    let entry := fun pos =>
      (elem buf pos (sigElem.take 1)).bind fun (key, pos) =>
        (elem buf pos (sigElem.drop 1)).map fun (val, pos) => ((key, val), pos)
    (deserialCounted entry buf pos).map fun (entries, pos) => (.map (entries.foldl mapPut []), pos)

/-- `deserialElem`. -/
def deserialElem : Nat → List UInt8 → Nat → List Char → Option (JavaVal C × Nat)
  | 0, _, _, _ => none
  | fuel + 1, buf, pos, sig =>
    match sig with
    | '(' :: _ => deserialArray (deserialElem fuel) buf pos sig
    | '[' :: _ => deserialMap (deserialElem fuel) buf pos sig
    | char :: _ => deserialFunc char buf pos
    | [] => none

end RpcFrmwrk.Ridl.Java
