import RpcFrmwrk.Combase.Buffer
import RpcFrmwrk.Ridl.Types

/-! The writing half of `CSerialBase`. Every method appends to the buffer through `APPEND`, whose
failure goes unnoticed; a container back-patches its byte count once its elements stand. Owns
`serialElem`, dispatching on the type as the overloads do, with the signature string passed along
and taken apart as the source does; `writeAll`, values written one after the other until one is
refused. -/

namespace RpcFrmwrk.Ridl

open RpcFrmwrk.Library

/-- `MAX_ELEM_COUNT`. -/
def maxElemCount : Nat := 1000000

/-- `Serialize< T >` of the fixed-width types: the bytes in network order. -/
def serializeFixed (type : FixedType) (value : type.Val) (buf : CBuffer) : Status × CBuffer :=
  (.success, buf.appendAtTail (toBE type.width (type.word value)))

/-- `Serialize< guint32 >`, whose status the callers drop. -/
def serializeUInt32 (value : Nat) (buf : CBuffer) : CBuffer :=
  buf.appendAtTail (toBE 4 value)

/-- `Serialize< std::string >` and `Serialize< BufPtr >`. The size is read into
32 bits first. -/
def serializeBytes (value : List UInt8) (buf : CBuffer) : Status × CBuffer :=
  let size := value.length % 2 ^ 32
  if maxBytesPerBuffer ≤ size then (.erange, buf)
  else
    let buf := serializeUInt32 size buf
    if size = 0 then (.success, buf)
    else (.success, buf.appendAtTail (value.take size))

def serializePrime : (type : PrimeType) → type.Val → CBuffer → Status × CBuffer
  | .fixed type, value, buf => serializeFixed type value buf
  | .string, value, buf => serializeBytes value buf

variable (C : RidlClasses)

/-- `Serialize< ObjPtr >`. -/
def serializeObj (value : Option C.Obj) (buf : CBuffer) : Status × CBuffer :=
  match value with
  | none =>
    -- protoSeriNone: class id, size, version
    let buf := serializeUInt32 clsidInvalid buf
    let buf := serializeUInt32 0 buf
    (.success, serializeUInt32 1 buf)
  | some obj =>
    let bytes := C.serialized obj
    if bytes.length = 0 ∨ maxBytesPerBuffer ≤ bytes.length then (.erange, buf)
    else (.success, buf.appendAtTail bytes)

/-- The switch of `Variant::Serialize`. -/
def serializeVariantValue (value : Variant C) (buf : CBuffer) : Status × CBuffer :=
  match value with
  | .byte value => serializeFixed .byte value buf
  | .uint16 value => serializeFixed .uint16 value buf
  | .uint32 value => serializeFixed .uint32 value buf
  | .uint64 value => serializeFixed .uint64 value buf
  | .float bits => serializeFixed .float bits buf
  | .double bits => serializeFixed .double bits buf
  | .struct item => (.success, buf.appendAtTail (C.serializedStruct item))
  | .obj value => serializeObj C value buf
  | .byteArr value => serializeBytes value buf
  | .string value => serializeBytes value buf
  | .none => (.success, buf)
  | .dMsg => (.enotsup, buf)

/-- `Variant::Serialize`: the type byte, then the value by its type. -/
def serializeVariant (value : Variant C) (buf : CBuffer) : Status × CBuffer :=
  serializeVariantValue C value (buf.appendAtTail [value.typeId])

/-- The loop of a container: write until an element is refused. -/
def serialElems {α : Type} (elem : α → CBuffer → Status × CBuffer) :
    List α → CBuffer → Status × CBuffer
  | [], buf => (.success, buf)
  | head :: tail, buf =>
    let (ret, buf) := elem head buf
    if ret.failed then (ret, buf) else serialElems elem tail buf

/-- The element signature of a container: what stands between its brackets. -/
def elemSignature (opening closing : Char) (signature : List Char) : Option (List Char) :=
  match signature with
  | [] => none
  | head :: tail =>
    if head ≠ opening then none
    else if tail.getLast? ≠ some closing then none
    else some tail.dropLast

/-- The part of `SerializeArray` and `SerializeMap` that follows the signature
checks, with the element loop as a parameter. -/
def serializeCounted {α : Type} (elem : α → CBuffer → Status × CBuffer)
    (values : List α) (buf : CBuffer) : Status × CBuffer :=
  let bytesOff := buf.offset
  let buf := serializeUInt32 0 buf
  if values.length = 0 then (.success, serializeUInt32 0 buf)
  else if maxElemCount ≤ values.length then (.erange, buf)
  else
    let buf := serializeUInt32 values.length buf
    let hdrSize := sub32 buf.offset bytesOff
    -- the loop assigns a second `ret` of the inner block, which hides the
    -- method's: a refused element leaves the method's status at success
    let (ret, buf) := serialElems elem values buf
    if ret.failed then (.success, buf)
    else (.success, buf.patch bytesOff (toBE 4 (sub32 (sub32 buf.offset bytesOff) hdrSize)))

/-- `SerializeArray`. -/
def serializeArray {α : Type} (elem : List Char → α → CBuffer → Status × CBuffer)
    (signature : List Char) (values : List α) (buf : CBuffer) : Status × CBuffer :=
  match elemSignature '(' ')' signature with
  | none => (.einval, buf)
  | some elemSig => serializeCounted (elem elemSig) values buf

/-- `SerializeMap`. The key signature is the first character; the method passes
it on, and no prime type looks at it. -/
def serializeMap {Key Val : Type} (key : Key → CBuffer → Status × CBuffer)
    (elem : List Char → Val → CBuffer → Status × CBuffer)
    (signature : List Char) (entries : List (Key × Val)) (buf : CBuffer) : Status × CBuffer :=
  match elemSignature '[' ']' signature with
  | none => (.einval, buf)
  | some inner =>
    let entry := fun (entry : Key × Val) (buf : CBuffer) =>
      let (ret, buf) := key entry.1 buf
      if ret.failed then (ret, buf) else elem inner.tail entry.2 buf
    serializeCounted entry entries buf

/-- `SerialElem`. -/
def serialElem : (type : RidlType) → List Char → type.Val C → CBuffer → Status × CBuffer
  | .prime type, _, value, buf => serializePrime type value buf
  | .byteArray, _, value, buf => serializeBytes value buf
  | .objPtr, _, value, buf => serializeObj C value buf
  | .variant, _, value, buf => serializeVariant C value buf
  | .array elem, signature, values, buf =>
    serializeArray (fun sig value buf => serialElem elem sig value buf) signature values buf
  | .map key elem, signature, values, buf =>
    serializeMap (serializePrime key) (fun sig value buf => serialElem elem sig value buf)
      signature values.entries buf

abbrev Typed := Σ type : RidlType, type.Val C

def writeAll (values : List (Typed C)) (buf : CBuffer) : Status × CBuffer :=
  serialElems (fun value buf => serialElem C value.1 value.1.signature value.2 buf) values buf

end RpcFrmwrk.Ridl
