import RpcFrmwrk.ConfigDb.Value

/-! `CConfigDb2::Serialize`. The method advances `pLoc` through a buffer that it grows before a
write when too little is left behind `pLoc`. The macro that grows it drops the status of `Resize`:
when `Resize` refuses, the write goes past the end of the block. The model stops there, as it does
at an error status; both are `none`. Owns `Writer`, the written part of the buffer and the buffer's
size; `serialize`, over properties in the order the map visits them. -/

namespace RpcFrmwrk.ConfigDb

open RpcFrmwrk.Library

/-- `DMSG_MAX_SIZE`. -/
def dmsgMaxSize : Nat := 1024 * 1024

/-- The bytes up to `pLoc`, and `oBuf.size()`. -/
structure Writer where
  out : List UInt8
  cap : Nat

/-- The size of the buffer after the check in front of a write of `need` bytes,
with `RESIZE_BUF` adding `grow` when they do not fit. -/
def room (cap used need grow : Nat) : Option Nat :=
  if cap - used < need then
    if maxBytesPerBuffer < cap + grow then none else some (cap + grow)
  else some cap

def Writer.reserve (writer : Writer) (need grow : Nat) : Option Writer :=
  (room writer.cap writer.out.length need grow).map fun cap => { writer with cap := cap }

/-- `memcpy` to `pLoc`, which then moves behind it. -/
def Writer.emit (writer : Writer) (bytes : List UInt8) : Writer :=
  { writer with out := writer.out ++ bytes }

/-- Check for `need` bytes, then write. -/
def Writer.put (writer : Writer) (need grow : Nat) (bytes : List UInt8) : Option Writer :=
  (writer.reserve need grow).map fun writer => writer.emit bytes

variable {H : ConfigHost}

/-- The growth of the branches that write a length word and `len` bytes. -/
def lengthGrow (qpage cap used len : Nat) : Nat := len + 4 - (cap - used) + qpage

/-- The header as it is written first: class id, a size to be patched, version
two, reserved bytes, property count. -/
def header (size count : Nat) : List UInt8 :=
  toBE 4 clsidCConfigDb2 ++ toBE 4 size ++ [2, 0, 0, 0] ++ toBE 4 count

/-- `sizeof( SERI_HEADER )`. -/
def seriHeader : Nat := 16

/-- The end of the method: patch `dwSize`, cut the buffer at `pLoc`. -/
def finish (writer : Writer) : List UInt8 :=
  writer.out.take 4 ++ toBE 4 (writer.out.length - seriHeaderBase) ++ writer.out.drop 8

/-- `DMsgPtr::Serialize`: the size word and the marshalled message. `Append`
refuses an empty block. -/
def serializeMsg (msg : H.Msg) : Option (List UInt8) :=
  if dmsgMaxSize < (H.marshal msg).length ∨ (H.marshal msg).length = 0 then none
  else some (toBE 4 (H.marshal msg).length ++ H.marshal msg)

mutual
/-- The switch over the type of a property. -/
def serializeValue : Value H → Writer → Option Writer
  | .byte value, writer => writer.put 1 H.qpage (toBE 1 value.toNat)
  | .uint16 value, writer => writer.put 2 H.qpage (toBE 2 value.toNat)
  | .uint32 value, writer => writer.put 4 H.qpage (toBE 4 value.toNat)
  | .float bits, writer => writer.put 4 H.qpage (toBE 4 bits.toNat)
  | .uint64 value, writer => writer.put 8 H.qpage (toBE 8 value.toNat)
  | .double bits, writer => writer.put 8 H.qpage (toBE 8 bits.toNat)
  | .string value, writer =>
    let len := value.length % 2 ^ 32
    writer.put (4 + len) (lengthGrow H.qpage writer.cap writer.out.length len)
      (toBE 4 len ++ value.take len)
  | .dMsg msg, writer =>
    match serializeMsg msg with
    | none => none
    | some bytes =>
      writer.put (bytes.length + 4)
        (lengthGrow H.qpage writer.cap writer.out.length bytes.length)
        (toBE 4 bytes.length ++ bytes)
  | .null, writer =>
    -- a default header in host order, and no check in front of the write
    if writer.cap - writer.out.length < seriHeaderBase then none
    else some (writer.emit ([0, 0, 0, 0] ++ [0, 0, 0, 0] ++ [1, 0, 0, 0]))
  | .config props, writer =>
    match serializeProps props ⟨header 0 (props.length % 2 ^ 32), seriHeader + H.qpage⟩ with
    | none => none
    | some inner =>
      let bytes := finish inner
      writer.put bytes.length (bytes.length + H.qpage) bytes
  | .object obj, writer =>
    let bytes := H.serialized obj
    writer.put bytes.length (bytes.length + H.qpage) bytes
  | .byteArr value, writer =>
    let len := value.length % 2 ^ 32
    -- with nothing to copy the branch leaves before it moves behind the
    -- length word it has written
    if len = 0 then writer.reserve 4 (lengthGrow H.qpage writer.cap writer.out.length 0)
    else
      writer.put (len + 4) (lengthGrow H.qpage writer.cap writer.out.length len)
        (toBE 4 len ++ value.take len)

/-- The loop over the properties: id, type, value. -/
def serializeProps : List (Int32 × Value H) → Writer → Option Writer
  | [], writer => some writer
  | (key, value) :: tail, writer =>
    match writer.put 4 H.qpage (toBE 4 key.toUInt32.toNat) with
    | none => none
    | some writer =>
      match writer.put 1 H.qpage [value.typeId] with
      | none => none
      | some writer =>
        match serializeValue value writer with
        | none => none
        | some writer => serializeProps tail writer
end

/-- `CConfigDb2::Serialize` into an empty buffer. -/
def serialize (props : List (Int32 × Value H)) : Option (List UInt8) :=
  (serializeProps props ⟨header 0 (props.length % 2 ^ 32), seriHeader + H.qpage⟩).map finish

end RpcFrmwrk.ConfigDb
