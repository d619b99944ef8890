import RpcFrmwrk.Ridl.Serialize

/-! The reading half of `CSerialBase`. A method that fails leaves its output at the value it had,
which is the default value of its type wherever the callers of this model put one. Owns
`deserialElem`, dispatching on the type as the overloads do; `readAll`, values read one after the
other with the offset after each read. -/

namespace RpcFrmwrk.Ridl

open RpcFrmwrk.Library

/-- `Deserialize< T >` of the fixed-width types, up to the word. -/
def deserializeWord (width : Nat) (buf : CBuffer) : Status × Nat × CBuffer :=
  if buf.size = 0 then (.einval, 0, buf)
  else if buf.size < width then (.erange, 0, buf)
  else (.success, ofBE (buf.ptr.take width), buf.incOffset width)

def deserializeFixed (type : FixedType) (buf : CBuffer) : Status × type.Val × CBuffer :=
  let (ret, word, buf) := deserializeWord type.width buf
  (ret, type.ofWord word, buf)

/-- `Deserialize< std::string >`. A length behind the tail is cut down. -/
def deserializeString (buf : CBuffer) : Status × List UInt8 × CBuffer :=
  let (ret, count, buf) := deserializeWord 4 buf
  if ret.failed then (ret, [], buf)
  else if count = 0 then (ret, [], buf)
  else
    let bytes := min count buf.size
    (.success, buf.ptr.take bytes, buf.incOffset bytes)

/-- `Deserialize< BufPtr >`. -/
def deserializeBuf (buf : CBuffer) : Status × List UInt8 × CBuffer :=
  let (ret, count, buf) := deserializeWord 4 buf
  if ret.failed then (ret, [], buf)
  else if count = 0 then (.success, [], buf)
  else if buf.size < count then (.einval, [], buf)
  else if bufMaxSize < count then (.einval, [], buf)
  else if maxBytesPerBuffer < count then (.e2big, [], buf)
  else (.success, buf.ptr.take count, buf.incOffset count)

def deserializePrime : (type : PrimeType) → CBuffer → Status × type.Val × CBuffer
  | .fixed type, buf => deserializeFixed type buf
  | .string, buf => deserializeString buf

variable (C : RidlClasses)

/-- `Deserialize< ObjPtr >`. -/
def deserializeObj (buf : CBuffer) : Status × Option C.Obj × CBuffer :=
  if buf.size < 12 then (.erange, none, buf)
  else
    let clsid := ofBE (buf.ptr.take 4)
    let size := ofBE ((buf.ptr.drop 4).take 4)
    if buf.size - 12 < size then (.erange, none, buf)
    -- a null object: the pointer is cleared and the offset stays
    else if size = 0 then (.success, none, buf)
    else
      match C.newObj clsid buf.ptr with
      | none => (.enotsup, none, buf)
      | some obj => (.success, some obj, buf.incOffset (size + 12))

/-- The `typeObj` case of `Variant::Deserialize`. -/
def deserializeVariantObj (buf : CBuffer) : Status × Variant C × CBuffer :=
  if buf.size < 8 then (.erange, .obj none, buf)
  else if ofBE (buf.ptr.take 4) = serialStructMagic then
    match C.newStruct (ofBE ((buf.ptr.drop 4).take 4)) buf.ptr with
    | none => (.enotsup, .obj none, buf)
    | some (item, count) => (.success, .struct item, buf.incOffset count)
  else
    let (ret, value, buf) := deserializeObj C buf
    (ret, .obj value, buf)

/-- The switch of `Variant::Deserialize`. -/
def deserializeVariantValue (typeId : UInt8) (buf : CBuffer) : Status × Variant C × CBuffer :=
  match typeId with
  | 0 => (.success, .none, buf)
  | 1 => let (ret, value, buf) := deserializeFixed .byte buf; (ret, .byte value, buf)
  | 2 => let (ret, value, buf) := deserializeFixed .uint16 buf; (ret, .uint16 value, buf)
  | 3 => let (ret, value, buf) := deserializeFixed .uint32 buf; (ret, .uint32 value, buf)
  | 4 => let (ret, value, buf) := deserializeFixed .uint64 buf; (ret, .uint64 value, buf)
  | 5 => let (ret, value, buf) := deserializeFixed .float buf; (ret, .float value, buf)
  | 6 => let (ret, value, buf) := deserializeFixed .double buf; (ret, .double value, buf)
  | 7 => let (ret, value, buf) := deserializeString buf; (ret, .string value, buf)
  | 8 => (.enotsup, .dMsg, buf)
  | 9 => deserializeVariantObj C buf
  | 10 => let (ret, value, buf) := deserializeBuf buf; (ret, .byteArr value, buf)
  | _ => (.enotsup, .none, buf)

/-- `Variant::Deserialize`. -/
def deserializeVariant (buf : CBuffer) : Status × Variant C × CBuffer :=
  match buf.ptr with
  | [] => (.einval, .none, buf)
  | typeId :: _ => deserializeVariantValue C typeId (buf.setOffset (buf.offset + 1))

/-- The loop of `DeserialArray` over the resized vector: after a failed element
the rest keep the default value. -/
def deserialElems {α : Type} (default : α) (elem : CBuffer → Status × α × CBuffer) :
    Nat → CBuffer → Status × List α × CBuffer
  | 0, buf => (.success, [], buf)
  | count + 1, buf =>
    let (ret, head, buf) := elem buf
    if ret.failed then (ret, head :: List.replicate count default, buf)
    else
      let (ret, tail, buf) := deserialElems default elem count buf
      (ret, head :: tail, buf)

/-- `DeserialArray`. -/
def deserialArray {α : Type} (default : α) (elem : List Char → CBuffer → Status × α × CBuffer)
    (signature : List Char) (buf : CBuffer) : Status × List α × CBuffer :=
  if buf.size < 8 then (.einval, [], buf)
  else
    match elemSignature '(' ')' signature with
    | none => (.einval, [], buf)
    | some elemSig =>
      let (ret, bytes, buf) := deserializeWord 4 buf
      if ret.failed then (ret, [], buf)
      else if maxBytesPerBuffer < bytes then (.erange, [], buf)
      else
        let (ret, count, buf) := deserializeWord 4 buf
        if ret.failed then (ret, [], buf)
        else if bytes = 0 ∨ count = 0 then (.success, [], buf)
        -- from here on errors go to a second `ret` that hides the method's,
        -- the comparison of the byte counts included
        else if maxElemCount ≤ count then (.success, [], buf)
        else
          let (_, values, buf) := deserialElems default (elem elemSig) count buf
          (.success, values, buf)

/-- The loop of `DeserialMap`. -/
def deserialEntries {Key Val : Type} {same : Key → Key → Bool}
    (key : CBuffer → Status × Key × CBuffer) (elem : CBuffer → Status × Val × CBuffer) :
    Nat → StdMap Key Val same → CBuffer → Status × StdMap Key Val same × CBuffer
  | 0, map, buf => (.success, map, buf)
  | count + 1, map, buf =>
    let (ret, first, buf) := key buf
    if ret.failed then (ret, map, buf)
    else
      let (ret, second, buf) := elem buf
      if ret.failed then (ret, map, buf)
      else deserialEntries key elem count (map.insert (first, second)) buf

/-- `DeserialMap`. Here the byte count read first has to match. -/
def deserialMap {Key Val : Type} {same : Key → Key → Bool}
    (key : CBuffer → Status × Key × CBuffer) (elem : List Char → CBuffer → Status × Val × CBuffer)
    (signature : List Char) (buf : CBuffer) : Status × StdMap Key Val same × CBuffer :=
  if buf.size < 8 then (.einval, .empty, buf)
  else
    match elemSignature '[' ']' signature with
    | none => (.einval, .empty, buf)
    | some inner =>
      let (ret, bytes, buf) := deserializeWord 4 buf
      if ret.failed then (ret, .empty, buf)
      else if maxBytesPerBuffer < bytes then (.erange, .empty, buf)
      else
        let (ret, count, buf) := deserializeWord 4 buf
        if ret.failed then (ret, .empty, buf)
        else if count = 0 then (.success, .empty, buf)
        else if maxElemCount ≤ count then (.erange, .empty, buf)
        else
          let start := buf.offset
          let (ret, values, buf) := deserialEntries key (elem inner.tail) count .empty buf
          if ret.failed then (ret, values, buf)
          else if buf.offset - start ≠ bytes then (.ebadmsg, values, buf)
          else (.success, values, buf)

def RidlType.default : (type : RidlType) → type.Val C
  | .prime (.fixed type) => type.ofWord 0
  | .prime .string => []
  | .byteArray => []
  | .objPtr => none
  | .variant => Variant.none
  | .array _ => []
  | .map _ _ => .empty

/-- `DeserialElem`. -/
def deserialElem : (type : RidlType) → List Char → CBuffer → Status × type.Val C × CBuffer
  | .prime type, _, buf => deserializePrime type buf
  | .byteArray, _, buf => deserializeBuf buf
  | .objPtr, _, buf => deserializeObj C buf
  | .variant, _, buf => deserializeVariant C buf
  | .array elem, signature, buf =>
    deserialArray (elem.default C) (fun sig buf => deserialElem elem sig buf) signature buf
  | .map key elem, signature, buf =>
    deserialMap (deserializePrime key) (fun sig buf => deserialElem elem sig buf) signature buf

/-- Read values one after the other with their own signatures, noting the
offset after each read, until one fails. -/
def readAll : List RidlType → CBuffer → Status × List (Typed C × Nat)
  | [], _ => (.success, [])
  | type :: types, buf =>
    let (ret, value, buf) := deserialElem C type type.signature buf
    if ret.failed then (ret, [])
    else
      let (ret, values) := readAll types buf
      (ret, (⟨type, value⟩, buf.offset) :: values)

end RpcFrmwrk.Ridl
