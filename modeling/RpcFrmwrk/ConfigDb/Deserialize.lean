import RpcFrmwrk.ConfigDb.Serialize

/-! `CConfigDb2::Deserialize`. The bytes from `pLoc` to `pEnd` are a list. A property that reaches
behind `pEnd` ends the method with an error in every branch of the source, some after the read; in
the model the read itself fails. Every error is `none`. Owns `deserialize`, with the configurations
nested in the bytes as its recursion. -/

namespace RpcFrmwrk.ConfigDb

open RpcFrmwrk.Library

/-- `CFGDB_MAX_ITEM`. -/
def cfgdbMaxItem : Nat := 1024

/-- `CFGDB_MAX_SIZE`. -/
def cfgdbMaxSize : Nat := 16 * 1024 * 1024

/-- The next `count` bytes and the rest. -/
def split (count : Nat) (bytes : List UInt8) : Option (List UInt8 × List UInt8) :=
  if bytes.length < count then none else some (bytes.take count, bytes.drop count)

/-- A word of `width` bytes and the rest. -/
def readWord (width : Nat) (bytes : List UInt8) : Option (Nat × List UInt8) :=
  (split width bytes).map fun (word, rest) => (ofBE word, rest)

def readBytes (bytes : List UInt8) : Option (List UInt8 × List UInt8) :=
  match readWord 4 bytes with
  | none => none
  | some (len, rest) => split len rest

/-- As `readBytes`, into a buffer that `Resize` has to grant. -/
def readByteArr (bytes : List UInt8) : Option (List UInt8 × List UInt8) :=
  match readBytes bytes with
  | none => none
  | some (value, rest) => if maxBytesPerBuffer < value.length then none else some (value, rest)

variable {H : ConfigHost}

/-- `m_mapProps[ iKey ] = oVar`. A new property goes behind the others. -/
def setProperty (props : List (Int32 × Value H)) (key : Int32) (value : Value H) :
    List (Int32 × Value H) :=
  match props with
  | [] => [(key, value)]
  | head :: tail =>
    if head.1 = key then (key, value) :: tail else head :: setProperty tail key value

/-- `DMsgPtr::Deserialize`. -/
def deserializeMsg (max : Nat) (bytes : List UInt8) : Option H.Msg :=
  match readWord 4 bytes with
  | none => none
  | some (size, rest) =>
    if max < size ∨ size = 0 then none
    else
      match split size rest with
      | none => none
      | some (msg, _) => H.demarshal msg

/-- The `typeObj` case: the header tells how many bytes belong to the object. -/
def deserializeObj (nested : List UInt8 → Option (List (Int32 × Value H)))
    (bytes : List UInt8) : Option (Value H × List UInt8) :=
  if bytes.length < seriHeaderBase then none
  else
    let clsid := ofBE (bytes.take 4)
    let len := (ofBE ((bytes.drop 4).take 4) + seriHeaderBase) % 2 ^ 32
    match split len bytes with
    | none => none
    | some (object, rest) =>
      if len = 0 ∨ clsid = clsidInvalid then some (.null, rest)
      else if clsid = clsidCConfigDb2 then
        (nested object).map fun props => (.config props, rest)
      else (H.newObj clsid object).map fun obj => (.object obj, rest)

/-- The switch over the type byte. -/
def deserializeValue (nested : List UInt8 → Option (List (Int32 × Value H)))
    (typeId : UInt8) (bytes : List UInt8) : Option (Value H × List UInt8) :=
  match typeId with
  | 1 => (readWord 1 bytes).map fun (word, rest) => (.byte (UInt8.ofNat word), rest)
  | 2 => (readWord 2 bytes).map fun (word, rest) => (.uint16 (UInt16.ofNat word), rest)
  | 3 => (readWord 4 bytes).map fun (word, rest) => (.uint32 (UInt32.ofNat word), rest)
  | 4 => (readWord 8 bytes).map fun (word, rest) => (.uint64 (UInt64.ofNat word), rest)
  | 5 => (readWord 4 bytes).map fun (word, rest) => (.float (UInt32.ofNat word), rest)
  | 6 => (readWord 8 bytes).map fun (word, rest) => (.double (UInt64.ofNat word), rest)
  | 7 => (readBytes bytes).map fun (value, rest) => (.string value, rest)
  | 8 =>
    match readWord 4 bytes with
    | none => none
    | some (len, tail) =>
      match split len tail with
      | none => none
      | some (_, rest) =>
        -- the variant is assigned from a `DBusMessage*`; with no such
        -- operator declared, the conversion to `bool` is the best match
        (deserializeMsg len tail : Option H.Msg).map fun _ => (.byte 1, rest)
  | 9 => deserializeObj nested bytes
  | 10 => (readByteArr bytes).map fun (value, rest) => (.byteArr value, rest)
  | _ => none

/-- The loop over the properties. -/
def deserializeProps (nested : List UInt8 → Option (List (Int32 × Value H))) :
    Nat → List UInt8 → List (Int32 × Value H) → Option (List (Int32 × Value H))
  | 0, _, props => some props
  | count + 1, bytes, props =>
    match readWord 4 bytes with
    | none => none
    | some (key, bytes) =>
      match bytes with
      | [] => none
      | typeId :: bytes =>
        match deserializeValue nested typeId bytes with
        | none => none
        | some (value, bytes) =>
          deserializeProps nested count bytes
            (setProperty props (UInt32.ofNat key).toInt32 value)

/-- The method on a new object, with a bound on the nesting. -/
def deserializeConfig : Nat → List UInt8 → Option (List (Int32 × Value H))
  | 0, _ => none
  | depth + 1, bytes =>
    if bytes.length < seriHeader then none
    else
      let clsid := ofBE (bytes.take 4)
      let size := ofBE ((bytes.drop 4).take 4)
      let count := ofBE ((bytes.drop 12).take 4)
      if clsid ≠ clsidCConfigDb2 ∨ cfgdbMaxItem < count ∨
          bytes.length < size + seriHeaderBase ∨ cfgdbMaxSize < size then none
      else if (bytes.drop 8).head? ≠ some 2 then none
      else deserializeProps (deserializeConfig depth) count (bytes.drop seriHeader) []

/-- `CConfigDb2::Deserialize`. An object nested in the bytes has fewer bytes
than they are, so their number bounds the nesting. -/
def deserialize (bytes : List UInt8) : Option (List (Int32 × Value H)) :=
  deserializeConfig (bytes.length + 1) bytes

end RpcFrmwrk.ConfigDb
