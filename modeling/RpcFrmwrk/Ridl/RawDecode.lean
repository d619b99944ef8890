import RpcFrmwrk.Library.Monitor
import RpcFrmwrk.Ridl.Deserialize

/-! The memory that the reading half of `CSerialBase` reads, and what it makes of the counts of a
container. The buffer is a window in memory, and what stands behind it is memory like the rest. The
programs follow `deserialElem` line by line, without the values. Owns `ClassReads`, the reads of the
classes; `rawElem` with all its accesses, and with an event for each container. -/

namespace RpcFrmwrk.Ridl

open RpcFrmwrk.Library

inductive DecodeEvent where
  | read (access : Access)
  /-- A container returns: the byte and the element count that it declared, how many elements were read and the
  bytes that these occupy, the status of the elements, and the status that is returned. -/
  | container (bytes count decoded occupied : Nat) (inner ret : Status)
deriving DecidableEq

/-- Nothing behind the window is read; success is returned only for counts that agree with the elements; and
an error of an element is returned. -/
def DecodeEvent.Sound (limit : Nat) : DecodeEvent → Prop
  | .read access => access.Below limit
  | .container bytes count decoded occupied inner ret =>
    (ret = .success → decoded = count ∧ occupied = bytes) ∧ (inner.failed = true → ret = inner)

/-- What a decoder leaves: its status, the offset of the buffer, and the bytes that the value occupies. -/
structure Decoded where
  ret : Status
  off : Nat
  occupied : Nat
deriving DecidableEq

/-- The bytes of memory that `NewObj` and the new object's own `Deserialize` read, in a window from an offset
to the tail. -/
structure ClassReads where
  obj : (clsid off limit : Nat) → (Nat → UInt8) → List Access
  struct : (msgId off limit : Nat) → (Nat → UInt8) → List Access

def windowOf (limit off : Nat) (memory : Nat → UInt8) : List UInt8 := bytesFrom memory off (limit - off)

abbrev Decoding (α : Type) := Monitored DecodeEvent α

def readWord (off width : Nat) : Decoding Nat := do
  .tell [.read ⟨off, width⟩]
  .ask fun memory => wordFrom memory off width

def readBytes (off count : Nat) : Decoding Unit := .tell [.read ⟨off, count⟩]

/-! ### The decoders -/

variable (limit : Nat)

/-- `IncOffset`. -/
def stepped (off count : Nat) : Nat := if off + count ≤ limit then off + count else off

/-- A word that was read, with the offset behind it. -/
structure RawWord where
  ret : Status
  value : Nat
  off : Nat

/-- `Deserialize< T >` of the fixed-width types. -/
def rawWord (width off : Nat) : Decoding RawWord :=
  if limit ≤ off then pure ⟨.einval, 0, off⟩
  else if limit - off < width then pure ⟨.erange, 0, off⟩
  else do
    let word ← readWord off width
    pure ⟨.success, word, off + width⟩

def rawFixed (type : FixedType) (off : Nat) : Decoding Decoded := do
  let word ← rawWord limit type.width off
  pure ⟨word.ret, word.off, type.width⟩

/-- `Deserialize< std::string >`. -/
def rawString (off : Nat) : Decoding Decoded := do
  let count ← rawWord limit 4 off
  if count.ret.failed then pure ⟨count.ret, count.off, 0⟩
  else if count.value = 0 then pure ⟨count.ret, count.off, 4⟩
  else do
    readBytes count.off (min count.value (limit - count.off))
    pure ⟨.success, count.off + min count.value (limit - count.off), 4 + min count.value (limit - count.off)⟩

/-- `Deserialize< BufPtr >`. `Append` looks at the length, and not at the window. -/
def rawBuf (off : Nat) : Decoding Decoded := do
  let count ← rawWord limit 4 off
  if count.ret.failed then pure ⟨count.ret, count.off, 0⟩
  else if count.value = 0 then pure ⟨.success, count.off, 4⟩
  else if bufMaxSize < count.value then pure ⟨.einval, count.off, 0⟩
  else if maxBytesPerBuffer < count.value then pure ⟨.e2big, count.off, 0⟩
  else do
    readBytes count.off count.value
    pure ⟨.success, stepped limit count.off count.value, 4 + count.value⟩

def rawPrime : PrimeType → Nat → Decoding Decoded
  | .fixed type, off => rawFixed limit type off
  | .string, off => rawString limit off

variable (C : RidlClasses) (R : ClassReads)

/-- `Deserialize< ObjPtr >`. -/
def rawObj (off : Nat) : Decoding Decoded :=
  if limit - off < 12 then pure ⟨.erange, off, 0⟩
  else do
    let size ← readWord (off + 4) 4
    let clsid ← readWord off 4
    if limit - off - 12 < size then pure ⟨.erange, off, 0⟩
    -- The offset stays in front of a null object.
    else if size = 0 then pure ⟨.success, off, 12⟩
    else do
      let reads ← .ask (R.obj clsid off limit)
      .tell (reads.map .read)
      let made ← .ask fun memory => (C.newObj clsid (windowOf limit off memory)).isSome
      if made then pure ⟨.success, stepped limit off (size + 12), 12 + size⟩ else pure ⟨.enotsup, off, 0⟩

/-- The `typeObj` case of `Variant::Deserialize`: eight bytes are copied first. -/
def rawVariantObj (off : Nat) : Decoding Decoded := do
  let magic ← readWord off 4
  let msgId ← readWord (off + 4) 4
  if magic = serialStructMagic then do
    let reads ← .ask (R.struct msgId off limit)
    .tell (reads.map .read)
    let made ← .ask fun memory => (C.newStruct msgId (windowOf limit off memory)).map Prod.snd
    match made with
    | none => pure ⟨.enotsup, off, 0⟩
    | some count => pure ⟨.success, stepped limit off count, count⟩
  else rawObj limit C R off

/-- The switch of `Variant::Deserialize`. -/
def rawVariantValue (typeId : UInt8) (off : Nat) : Decoding Decoded :=
  match typeId with
  | 0 => pure ⟨.success, off, 0⟩
  | 1 => rawFixed limit .byte off
  | 2 => rawFixed limit .uint16 off
  | 3 => rawFixed limit .uint32 off
  | 4 => rawFixed limit .uint64 off
  | 5 => rawFixed limit .float off
  | 6 => rawFixed limit .double off
  | 7 => rawString limit off
  | 9 => rawVariantObj limit C R off
  | 10 => rawBuf limit off
  | _ => pure ⟨.enotsup, off, 0⟩

/-- `Variant::Deserialize`. -/
def rawVariant (off : Nat) : Decoding Decoded :=
  if limit ≤ off then pure ⟨.einval, off, 0⟩
  else do
    let typeId ← readWord off 1
    let value ← rawVariantValue limit C R (UInt8.ofNat typeId) (off + 1)
    pure ⟨value.ret, value.off, 1 + value.occupied⟩

/-- What a loop over elements leaves. -/
structure Elems where
  ret : Status
  off : Nat
  decoded : Nat
  occupied : Nat
deriving DecidableEq

/-- The loop of a container. -/
def rawElems (elem : Nat → Decoding Decoded) : Nat → Nat → Decoding Elems
  | 0, off => pure ⟨.success, off, 0, 0⟩
  | count + 1, off => do
      let head ← elem off
      if head.ret.failed then pure ⟨head.ret, head.off, 0, 0⟩
      else do
        let tail ← rawElems elem count head.off
        pure ⟨tail.ret, tail.off, tail.decoded + 1, head.occupied + tail.occupied⟩

/-- The elements of `DeserialArray`, behind its two counts. -/
def rawArrayRest (elem : Nat → Decoding Decoded) (bytes count off : Nat) : Decoding Decoded :=
  if bytes = 0 ∨ count = 0 then do
    .tell [.container bytes count 0 0 .success .success]
    pure ⟨.success, off, 8 + bytes⟩
  -- From here on errors go to a second `ret` that hides the method's.
  else if maxElemCount ≤ count then do
    .tell [.container bytes count 0 0 .success .success]
    pure ⟨.success, off, 8 + bytes⟩
  else do
    let elems ← rawElems elem count off
    .tell [.container bytes count elems.decoded elems.occupied elems.ret .success]
    pure ⟨.success, elems.off, 8 + bytes⟩

/-- The part of `DeserialArray` and of `DeserialMap` that follows the signature checks. -/
def rawCounted (rest : (bytes count off : Nat) → Decoding Decoded) (off : Nat) : Decoding Decoded := do
  let bytes ← rawWord limit 4 off
  if bytes.ret.failed then pure ⟨bytes.ret, bytes.off, 0⟩
  else if maxBytesPerBuffer < bytes.value then pure ⟨.erange, bytes.off, 0⟩
  else do
    let count ← rawWord limit 4 bytes.off
    if count.ret.failed then pure ⟨count.ret, count.off, 0⟩ else rest bytes.value count.value count.off

/-- `DeserialArray`. -/
def rawArray (elem : List Char → Nat → Decoding Decoded) (signature : List Char) (off : Nat) : Decoding Decoded :=
  if limit - off < 8 then pure ⟨.einval, off, 0⟩
  else
    match elemSignature '(' ')' signature with
    | none => pure ⟨.einval, off, 0⟩
    | some elemSig => rawCounted limit (rawArrayRest (elem elemSig)) off

def rawEntry (key elem : Nat → Decoding Decoded) (off : Nat) : Decoding Decoded := do
  let first ← key off
  if first.ret.failed then pure first
  else do
    let second ← elem first.off
    pure ⟨second.ret, second.off, first.occupied + second.occupied⟩

/-- The status of `DeserialMap` after its loop. -/
def mapRet (bytes start : Nat) (elems : Elems) : Status :=
  if elems.ret.failed then elems.ret
  else if elems.off - start ≠ bytes then .ebadmsg
  else .success

/-- The entries of `DeserialMap`, behind its two counts. -/
def rawMapRest (entry : Nat → Decoding Decoded) (bytes count off : Nat) : Decoding Decoded :=
  if count = 0 then do
    .tell [.container bytes count 0 0 .success .success]
    pure ⟨.success, off, 8 + bytes⟩
  else if maxElemCount ≤ count then pure ⟨.erange, off, 0⟩
  else do
    let elems ← rawElems entry count off
    .tell [.container bytes count elems.decoded elems.occupied elems.ret (mapRet bytes off elems)]
    pure ⟨mapRet bytes off elems, elems.off, 8 + bytes⟩

/-- `DeserialMap`. -/
def rawMap (key : Nat → Decoding Decoded) (elem : List Char → Nat → Decoding Decoded) (signature : List Char)
    (off : Nat) : Decoding Decoded :=
  if limit - off < 8 then pure ⟨.einval, off, 0⟩
  else
    match elemSignature '[' ']' signature with
    | none => pure ⟨.einval, off, 0⟩
    | some inner => rawCounted limit (rawMapRest (rawEntry key (elem inner.tail))) off

/-- `DeserialElem`. -/
def rawElem : RidlType → List Char → Nat → Decoding Decoded
  | .prime type, _, off => rawPrime limit type off
  | .byteArray, _, off => rawBuf limit off
  | .objPtr, _, off => rawObj limit C R off
  | .variant, _, off => rawVariant limit C R off
  | .array elem, signature, off => rawArray limit (fun sig off => rawElem elem sig off) signature off
  | .map key elem, signature, off =>
    rawMap limit (rawPrime limit key) (fun sig off => rawElem elem sig off) signature off

end RpcFrmwrk.Ridl
