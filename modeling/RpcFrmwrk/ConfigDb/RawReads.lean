import RpcFrmwrk.ConfigDb.Deserialize
import RpcFrmwrk.Library.Reading

/-! The memory `CConfigDb2::Deserialize` reads. The method gets a pointer and a size, and what
stands behind that size is memory like the rest. Offsets count from the pointer of the outermost
call. Some reads come before the size is asked, some behind a comparison with `pEnd`, and a few are
never compared. Owns `Loader`, the reads of the other classes; `Raw.deserialize` with all its
accesses. -/

namespace RpcFrmwrk.ConfigDb

open RpcFrmwrk.Library

/-- What the method takes from outside as a reader of memory: `NewObj` and the
new object's own `Deserialize`, with the offset and the length it is given, and
the error of a message that `dbus_message_demarshal` refuses. -/
structure Loader (H : ConfigHost) where
  newObj : (clsid pLoc len : Nat) → Reading Status H.Obj
  errno : List UInt8 → Status
  newObj_failed : ∀ {clsid pLoc len : Nat} {memory : Nat → UInt8} {ret : Status},
    (newObj clsid pLoc len).Fails memory ret → ret.failed = true
  errno_failed : ∀ msg, (errno msg).failed = true

namespace Raw

variable {H : ConfigHost} (L : Loader H)

/-- `dwClsid` of a header. -/
def hdrClsid (hdr : List UInt8) : Nat := ofBE (hdr.take 4)

/-- `dwSize` of a header. -/
def hdrSize (hdr : List UInt8) : Nat := ofBE ((hdr.drop 4).take 4)

/-- `bVersion` of a header. -/
def hdrVersion (hdr : List UInt8) : Nat := ofBE ((hdr.drop 8).take 1)

/-- `dwCount` of a `SERI_HEADER`. -/
def hdrCount (hdr : List UInt8) : Nat := ofBE ((hdr.drop 12).take 4)

/-- The bytes of an object with its header, in a `guint32`. -/
def objLen (hdr : List UInt8) : Nat := (hdrSize hdr + seriHeaderBase) % 2 ^ 32

/-- The length word of a string, a message or a byte array. -/
def readLength (pEnd pLoc : Nat) : Reading Status Nat :=
  if pEnd < pLoc + 4 then .fail .e2big else .word pLoc 4

/-- The numbers are read without a look at `pEnd`. -/
def deserializeNumber (width : Nat) (variant : Nat → Value H) (pLoc : Nat) :
    Reading Status (Value H × Nat) := do
  let val ← .word pLoc width
  pure (variant val, pLoc + width)

/-- The `typeString` case. -/
def deserializeString (pEnd pLoc : Nat) : Reading Status (Value H × Nat) := do
  let len ← readLength pEnd pLoc
  if len = 0 then pure (.string [], pLoc + 4)
  else if pEnd < pLoc + 4 + len then .fail .e2big
  else do
    let value ← .bytes (pLoc + 4) len
    pure (.string value, pLoc + 4 + len)

/-- `DMsgPtr::Deserialize`. The size is compared with all bytes there are, its
own four included. -/
def deserializeMsg (pBuf dwSizeMax : Nat) : Reading Status H.Msg := do
  let dwSize ← .word pBuf 4
  if dwSizeMax < dwSize ∨ dwSize = 0 then .fail .einval
  else do
    let msg ← .bytes (pBuf + 4) dwSize
    .ofOption (L.errno msg) (H.demarshal msg)

/-- The `typeDMsg` case. -/
def deserializeDMsg (pEnd pLoc : Nat) : Reading Status (Value H × Nat) := do
  let len ← readLength pEnd pLoc
  if pEnd < pLoc + 4 + len then .fail .e2big
  else do
    let _ ← deserializeMsg L (pLoc + 4) len
    pure (.byte 1, pLoc + 4 + len)

/-- The `typeByteArr` case. -/
def deserializeByteArr (pEnd pLoc : Nat) : Reading Status (Value H × Nat) := do
  let len ← readLength pEnd pLoc
  if pEnd < pLoc + 4 + len then .fail .e2big
  else if maxBytesPerBuffer < len then .fail .e2big
  else do
    let value ← .bytes (pLoc + 4) len
    pure (.byteArr value, pLoc + 4 + len)

/-- The `typeObj` case. -/
def deserializeObj (nested : Nat → Nat → Reading Status (List (Int32 × Value H)))
    (pEnd pLoc : Nat) : Reading Status (Value H × Nat) := do
  let oHdr ← .bytes pLoc seriHeaderBase
  if pEnd < pLoc + objLen oHdr then .fail .e2big
  else if objLen oHdr = 0 ∨ hdrClsid oHdr = clsidInvalid then pure (.null, pLoc + objLen oHdr)
  else if hdrClsid oHdr = clsidCConfigDb2 then do
    let props ← nested pLoc (objLen oHdr)
    pure (.config props, pLoc + objLen oHdr)
  else do
    let obj ← L.newObj (hdrClsid oHdr) pLoc (objLen oHdr)
    pure (.object obj, pLoc + objLen oHdr)

/-- The switch over the type byte. -/
def deserializeValue (nested : Nat → Nat → Reading Status (List (Int32 × Value H)))
    (pEnd : Nat) (byType : UInt8) (pLoc : Nat) : Reading Status (Value H × Nat) :=
  match byType with
  | 1 => deserializeNumber 1 (fun val => .byte (UInt8.ofNat val)) pLoc
  | 2 => deserializeNumber 2 (fun val => .uint16 (UInt16.ofNat val)) pLoc
  | 3 => deserializeNumber 4 (fun val => .uint32 (UInt32.ofNat val)) pLoc
  | 4 => deserializeNumber 8 (fun val => .uint64 (UInt64.ofNat val)) pLoc
  | 5 => deserializeNumber 4 (fun val => .float (UInt32.ofNat val)) pLoc
  | 6 => deserializeNumber 8 (fun val => .double (UInt64.ofNat val)) pLoc
  | 7 => deserializeString pEnd pLoc
  | 8 => deserializeDMsg L pEnd pLoc
  | 9 => deserializeObj L nested pEnd pLoc
  | 10 => deserializeByteArr pEnd pLoc
  | _ => .fail .einval

/-- The loop over the properties. -/
def deserializeProps (nested : Nat → Nat → Reading Status (List (Int32 × Value H)))
    (pEnd : Nat) : Nat → Nat → List (Int32 × Value H) → Reading Status (List (Int32 × Value H))
  | 0, _, props => pure props
  | count + 1, pLoc, props => do
      let iKey ← .word pLoc 4
      -- `dwValSize`, which nothing uses
      let _ ← .word (pLoc + 4) 4
      let byType ← .byte (pLoc + 4)
      let oVar ← deserializeValue L nested pEnd byType (pLoc + 5)
      if pEnd < oVar.2 then .fail .e2big
      else
        deserializeProps nested pEnd count oVar.2
          (setProperty props (UInt32.ofNat iKey).toInt32 oVar.1)

/-- The method on a new object. `nested` is the method of the objects in it. -/
def deserializeBody (nested : Nat → Nat → Reading Status (List (Int32 × Value H)))
    (pBuf dwSize : Nat) : Reading Status (List (Int32 × Value H)) :=
  if dwSize = 0 then .fail .einval
  else do
    let oHeader ← .bytes pBuf seriHeader
    if hdrClsid oHeader ≠ clsidCConfigDb2 ∨ cfgdbMaxItem < hdrCount oHeader ∨
        dwSize < hdrSize oHeader + seriHeaderBase ∨ cfgdbMaxSize < hdrSize oHeader then
      .fail .einval
    else if hdrVersion oHeader ≠ 2 then .fail .einval
    else
      deserializeProps L nested (pBuf + dwSize) (hdrCount oHeader) (pBuf + seriHeader) []

/-- The method with a bound on the nesting. -/
def deserializeConfig : Nat → Nat → Nat → Reading Status (List (Int32 × Value H))
  | 0 => fun _ _ => .fail .einval
  | depth + 1 => deserializeBody L (deserializeConfig depth)

/-- `CConfigDb2::Deserialize( pBuf, dwSize )`, offsets counted from `pBuf`. -/
def deserialize (dwSize : Nat) : Reading Status (List (Int32 × Value H)) :=
  deserializeConfig L (dwSize + 1) 0 dwSize

end Raw

end RpcFrmwrk.ConfigDb
