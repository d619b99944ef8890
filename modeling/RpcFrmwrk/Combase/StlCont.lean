import RpcFrmwrk.Combase.Buffer
import RpcFrmwrk.Combase.Object
import RpcFrmwrk.Library.ByteOrder

/-! The containers that go through buffers as objects. A container writes itself to a new buffer and
is read into a new container. Words are in the order of the machine, and `htonl` and `ntohl` turn
them around. A result is none where memory outside of the buffer or of a local header is read or
written. Owns `Serialize` and `Deserialize` of the vectors of words, of strings and of objects, and
of the map of integers; `StlObj`, an object that is such a container or of another class, and
`NewObj` followed by its `Deserialize`. -/

namespace RpcFrmwrk.Combase

open RpcFrmwrk.Library

def clsidCStlIntMap : Nat := 0x845

def clsidCStlIntVector : Nat := 0x846

def clsidCStlStrVector : Nat := 0x851

def clsidCStlObjVector : Nat := 0x8ab

def clsidCStlLongWordVector : Nat := 0x8e9

def clsidCStlQwordVector : Nat := 0x900

/-- `MAX_ELEM_CONTAINER`. -/
def maxElemContainer : Nat := 10000

/-- `sizeof( SERI_HEADER )` of the containers. -/
def stlHeaderSize : Nat := 16

/-- `HEADER_NBSIZE`. -/
def headerNbSize : Nat := stlHeaderSize - seriHeaderBase

/-- None for memory that is touched outside; an error code, or the result. -/
abbrev Ran (α : Type) := Option (Except Status α)

/-- `SERI_HEADER` of `CStlVector` and `CStlMap`. -/
structure StlHeader where
  clsid : Nat
  size : Nat
  version : UInt8
  count : Nat
deriving DecidableEq, Repr

namespace StlHeader

variable (order : ByteOrder)

def bytes (header : StlHeader) : List UInt8 :=
  order.store 4 header.clsid ++ order.store 4 header.size ++ [header.version, 0, 0, 0] ++
    order.store 4 header.count

def read (buf : List UInt8) : StlHeader where
  clsid := order.load (buf.take 4)
  size := order.load ((buf.drop 4).take 4)
  version := (buf.drop 8).headD 0
  count := order.load ((buf.drop 12).take 4)

/-- `hton` and `ntoh`. -/
def swap (header : StlHeader) : StlHeader :=
  { header with
    clsid := order.swap 4 header.clsid
    size := order.swap 4 header.size
    count := order.swap 4 header.count }

end StlHeader

/-- The class of a vector of words, with the words of a fixed width that it holds. -/
structure WordClass where
  Word : Type
  clsid : Nat
  width : Nat
  toNat : Word → Nat
  ofNat : Nat → Word
  clsid_lt : clsid < 256 ^ 4
  width_pos : 0 < width
  toNat_lt : ∀ word, toNat word < 256 ^ width
  ofNat_toNat : ∀ word, ofNat (toNat word) = word

/-- Words of 32 bits. -/
def wordClass32 (clsid : Nat) (clsid_lt : clsid < 256 ^ 4) : WordClass where
  Word := UInt32
  clsid := clsid
  width := 4
  toNat := UInt32.toNat
  ofNat := UInt32.ofNat
  clsid_lt := clsid_lt
  width_pos := Nat.succ_pos 3
  toNat_lt := UInt32.toNat_lt
  ofNat_toNat _ := UInt32.ofNat_toNat

def wordClass64 (clsid : Nat) (clsid_lt : clsid < 256 ^ 4) : WordClass where
  Word := UInt64
  clsid := clsid
  width := 8
  toNat := UInt64.toNat
  ofNat := UInt64.ofNat
  clsid_lt := clsid_lt
  width_pos := Nat.succ_pos 7
  toNat_lt := UInt64.toNat_lt
  ofNat_toNat _ := UInt64.ofNat_toNat

theorem clsidCStlIntVector_lt : clsidCStlIntVector < 256 ^ 4 := by decide

theorem clsidCStlLongWordVector_lt : clsidCStlLongWordVector < 256 ^ 4 := by decide

theorem clsidCStlQwordVector_lt : clsidCStlQwordVector < 256 ^ 4 := by decide

/-- `CStlIntVector`. -/
def cStlIntVector : WordClass := wordClass32 clsidCStlIntVector clsidCStlIntVector_lt

/-- `CStlLongWordVector`, by `BUILD_64`. -/
def cStlLongWordVector (build64 : Bool) : WordClass :=
  if build64 then wordClass64 clsidCStlLongWordVector clsidCStlLongWordVector_lt
  else wordClass32 clsidCStlLongWordVector clsidCStlLongWordVector_lt

/-- `CStlQwordVector`. -/
def cStlQwordVector : WordClass := wordClass64 clsidCStlQwordVector clsidCStlQwordVector_lt

namespace WordClass

variable (order : ByteOrder) (cls : WordClass)

/-- `Serialize`. The sizes are `guint32`, and a `Resize` that is refused leaves no buffer to write to. -/
def serialize (elems : List cls.Word) : Ran (List UInt8) :=
  let dwSize := cls.width * elems.length % 2 ^ 32
  let header : StlHeader :=
    ⟨cls.clsid, (dwSize + headerNbSize) % 2 ^ 32, 1, elems.length % 2 ^ 32⟩
  let total := (stlHeaderSize + dwSize) % 2 ^ 32
  if maxBytesPerBuffer < total ∨ total < stlHeaderSize + cls.width * elems.length then none
  else
    some (.ok ((header.swap order).bytes order ++
      elems.flatMap fun elem => order.store cls.width (order.swap cls.width (cls.toNat elem))))

def readWords : Nat → List UInt8 → List cls.Word
  | 0, _ => []
  | count + 1, buf =>
    cls.ofNat (order.swap cls.width (order.load (buf.take cls.width))) ::
      readWords count (buf.drop cls.width)

/-- `Deserialize`. -/
def deserialize (buf : List UInt8) : Ran (List cls.Word) :=
  if buf.length < stlHeaderSize then some (.error .einval)
  else
    let header := (StlHeader.read order buf).swap order
    if header.clsid ≠ cls.clsid then some (.error .enotsup)
    else if bufMaxSize < header.size then some (.error .einval)
    else if sub32 header.size headerNbSize / cls.width ≠ header.count then some (.error .einval)
    else if buf.length < stlHeaderSize + cls.width * header.count then none
    else if header.version ≠ 1 then some (.error .enotsup)
    else some (.ok (cls.readWords order header.count (buf.drop stlHeaderSize)))

end WordClass

/-- The entries of a `std::map`. -/
structure IntMap where
  entries : List (UInt32 × UInt32)
  sorted : entries.Pairwise fun first second => first.1 < second.1

namespace IntMap

def empty : IntMap := ⟨[], List.Pairwise.nil⟩

variable (order : ByteOrder)

/-- `CStlIntMap::Serialize`. -/
def serialize (map : IntMap) : Ran (List UInt8) :=
  let dwSize := 8 * map.entries.length % 2 ^ 32
  let header : StlHeader :=
    ⟨clsidCStlIntMap, (dwSize + headerNbSize) % 2 ^ 32, 1, map.entries.length % 2 ^ 32⟩
  let total := (stlHeaderSize + dwSize) % 2 ^ 32
  if maxBytesPerBuffer < total ∨ total < stlHeaderSize + 8 * map.entries.length then none
  else
    some (.ok ((header.swap order).bytes order ++
      map.entries.flatMap fun entry =>
        order.store 4 (order.swap 4 entry.1.toNat) ++ order.store 4 (order.swap 4 entry.2.toNat)))

/-- `CStlIntMap::Deserialize`. It asks for the class id of the vector, and it takes the entries from
behind its own copy of the header. -/
def deserialize (buf : List UInt8) : Ran IntMap :=
  if buf.length < stlHeaderSize then some (.error .einval)
  else
    let header := (StlHeader.read order buf).swap order
    if header.clsid ≠ clsidCStlIntVector then some (.error .enotsup)
    else if bufMaxSize < header.size then some (.error .einval)
    else if sub32 header.size headerNbSize / 8 ≠ header.count then some (.error .einval)
    else if header.count ≠ 0 then none
    else if header.version ≠ 1 then some (.error .enotsup)
    else some (.ok empty)

end IntMap

namespace StrVector

variable (order : ByteOrder)

/-- `CStlStrVector::Serialize`. -/
def serialize (elems : List (List UInt8)) : Ran (List UInt8) :=
  let payload := (elems.map fun elem => elem.length + 4).sum
  let dwSize := payload % 2 ^ 32
  let header : StlHeader :=
    ⟨clsidCStlStrVector, (dwSize + headerNbSize) % 2 ^ 32, 1, elems.length % 2 ^ 32⟩
  let total := (seriHeaderBase + header.size) % 2 ^ 32
  if maxBytesPerBuffer < total ∨ total < stlHeaderSize + payload then none
  else
    some (.ok ((header.swap order).bytes order ++
      elems.flatMap fun elem => order.store 4 (order.swap 4 (elem.length % 2 ^ 32)) ++ elem))

/-- The loop of `Deserialize`, which ends at the end of the buffer, too. -/
def readStrs : Nat → List UInt8 → List (List UInt8) → Ran (List (List UInt8))
  | 0, _, done => some (.ok done)
  | _ + 1, [], done => some (.ok done)
  | count + 1, first :: rest, done =>
    let buf := first :: rest
    if buf.length < 4 then none
    else
      let dwBytes := order.swap 4 (order.load (buf.take 4))
      let elems := buf.drop 4
      if elems.length < dwBytes then some (.error .erange)
      else readStrs count (elems.drop dwBytes) (done ++ [elems.take dwBytes])

/-- `CStlStrVector::Deserialize`. -/
def deserialize (buf : List UInt8) : Ran (List (List UInt8)) :=
  if buf.length < stlHeaderSize then some (.error .einval)
  else
    let header := (StlHeader.read order buf).swap order
    if header.clsid ≠ clsidCStlStrVector then some (.error .enotsup)
    else if bufMaxSize < header.size then some (.error .einval)
    else
      match readStrs order header.count (buf.drop stlHeaderSize) [] with
      | some (.ok elems) => if header.version ≠ 1 then some (.error .enotsup) else some (.ok elems)
      | other => other

end StrVector

namespace ObjVector

variable (order : ByteOrder)

/-- The bytes that put a position on a boundary of four. -/
def padding (pos : Nat) : Nat := if pos % 4 = 0 then 0 else 4 - pos % 4

/-- The loop of `Serialize` over the results of the objects, none for a null pointer: `base` bytes stand in
front of the payload. The status of the `Append` of a padding is dropped. -/
def appendObjs (base : Nat) :
    List (Option (Ran (List UInt8))) → List UInt8 → Nat → List Nat → Ran (List UInt8 × List Nat)
  | [], payload, dwPos, offsets => some (.ok (payload, offsets ++ [dwPos]))
  | none :: _, _, _, _ => some (.error .efault)
  | some none :: _, _, _, _ => none
  | some (some (.error ret)) :: _, _, _, _ => some (.error ret)
  | some (some (.ok obj)) :: objs, payload, dwPos, offsets =>
    if obj.length = 0 ∨ bufMaxSize < obj.length then some (.error .einval)
    else if maxBytesPerBuffer < base + payload.length + obj.length then some (.error .e2big)
    else
      let payload := payload ++ obj
      let pad := padding (dwPos + obj.length)
      let payload :=
        if base + payload.length + pad ≤ maxBytesPerBuffer then payload ++ List.replicate pad 0
        else payload
      appendObjs base objs payload (dwPos + obj.length + pad) (offsets ++ [dwPos])

/-- `CStlObjVector::Serialize`. With too many offsets `hton` does nothing. -/
def serialize (objs : List (Option (Ran (List UInt8)))) : Ran (List UInt8) :=
  let dwOffsetCount := objs.length + 1
  let base := stlHeaderSize + 4 * dwOffsetCount
  if maxBytesPerBuffer < base % 2 ^ 32 ∨ base % 2 ^ 32 < base then none
  else
    match appendObjs base objs [] 0 [] with
    | none => none
    | some (.error ret) => some (.error ret)
    | some (.ok (payload, offsets)) =>
      let header : StlHeader :=
        ⟨clsidCStlObjVector, base + payload.length - seriHeaderBase, 1, dwOffsetCount⟩
      if maxElemContainer < dwOffsetCount then
        some (.ok (header.bytes order ++ offsets.flatMap (order.store 4) ++ payload))
      else
        some (.ok ((header.swap order).bytes order ++
          offsets.flatMap (fun offset => order.store 4 (order.swap 4 offset)) ++ payload))

def readOffsets : Nat → List UInt8 → List Nat
  | 0, _ => []
  | count + 1, buf => order.swap 4 (order.load (buf.take 4)) :: readOffsets count (buf.drop 4)

variable {Obj : Type} (newObj : Nat → List UInt8 → Ran Obj)

/-- The loop of `Deserialize` over the offsets: `start` is where the payload begins. -/
def readObjs (buf : List UInt8) (start : Nat) : List Nat → List Obj → Ran (List Obj)
  | dwPos :: next :: offsets, done =>
    let dwObjSize := sub32 next dwPos
    if buf.length ≤ start + dwPos then some (.error .enomem)
    else if buf.length < start + dwPos + 4 ∨ buf.length < start + dwPos + dwObjSize then none
    else
      let obj := buf.drop (start + dwPos)
      match newObj (order.swap 4 (order.load (obj.take 4))) (obj.take dwObjSize) with
      | none => none
      | some (.error ret) => some (.error ret)
      | some (.ok obj) => readObjs buf start (next :: offsets) (done ++ [obj])
  | _, done => some (.ok done)

/-- `CStlObjVector::Deserialize`. -/
def deserialize (buf : List UInt8) : Ran (List Obj) :=
  if buf.length < stlHeaderSize then some (.error .einval)
  else
    let header := (StlHeader.read order buf).swap order
    if header.clsid ≠ clsidCStlObjVector then some (.error .einval)
    else if buf.length < header.size + headerNbSize then some (.error .erange)
    else if maxElemContainer < header.count then some (.error .erange)
    -- Without an offset the count of the objects wraps.
    else if buf.length < stlHeaderSize + 4 * header.count ∨ header.count = 0 then none
    else
      readObjs order newObj buf (stlHeaderSize + 4 * header.count)
        (readOffsets order header.count (buf.drop stlHeaderSize)) []

end ObjVector

/-- Classes of other objects, with class ids of their own. -/
structure OtherClasses extends ObjectClasses where
  clsid_other : ∀ obj, clsid obj ∉ [clsidCStlIntVector, clsidCStlLongWordVector, clsidCStlQwordVector,
    clsidCStlIntMap, clsidCStlStrVector, clsidCStlObjVector]

/-- An object: one of the containers, or one of another class. An object vector may hold null pointers. -/
inductive StlObj (build64 : Bool) (Obj : Type) where
  | intVector (elems : List cStlIntVector.Word)
  | longWordVector (elems : List (cStlLongWordVector build64).Word)
  | qwordVector (elems : List cStlQwordVector.Word)
  | intMap (map : IntMap)
  | strVector (elems : List (List UInt8))
  | objVector (elems : List (Option (StlObj build64 Obj)))
  | other (obj : Obj)

namespace StlObj

variable (order : ByteOrder) {build64 : Bool} (C : OtherClasses)

mutual

/-- `Serialize`. -/
def serialize : StlObj build64 C.Obj → Ran (List UInt8)
  | .intVector elems => cStlIntVector.serialize order elems
  | .longWordVector elems => (cStlLongWordVector build64).serialize order elems
  | .qwordVector elems => cStlQwordVector.serialize order elems
  | .intMap map => map.serialize order
  | .strVector elems => StrVector.serialize order elems
  | .objVector elems => ObjVector.serialize order (serializeAll elems)
  | .other obj => some (.ok (C.serialized obj))

def serializeAll : List (Option (StlObj build64 C.Obj)) → List (Option (Ran (List UInt8)))
  | [] => []
  | none :: objs => none :: serializeAll objs
  | some obj :: objs => some (serialize obj) :: serializeAll objs

end

/-- The class id of an object. -/
def clsid : StlObj build64 C.Obj → Nat
  | .intVector _ => clsidCStlIntVector
  | .longWordVector _ => clsidCStlLongWordVector
  | .qwordVector _ => clsidCStlQwordVector
  | .intMap _ => clsidCStlIntMap
  | .strVector _ => clsidCStlStrVector
  | .objVector _ => clsidCStlObjVector
  | .other obj => C.clsid obj

/-- `NewObj`, and `Deserialize` of the new object. The bound is on the nesting. -/
def newObj : Nat → Nat → List UInt8 → Ran (StlObj build64 C.Obj)
  | 0, _, _ => none
  | fuel + 1, clsid, buf =>
    if clsid = clsidCStlIntVector then (cStlIntVector.deserialize order buf).map (Except.map .intVector)
    else if clsid = clsidCStlLongWordVector then
      ((cStlLongWordVector build64).deserialize order buf).map (Except.map .longWordVector)
    else if clsid = clsidCStlQwordVector then
      (cStlQwordVector.deserialize order buf).map (Except.map .qwordVector)
    else if clsid = clsidCStlIntMap then (IntMap.deserialize order buf).map (Except.map .intMap)
    else if clsid = clsidCStlStrVector then (StrVector.deserialize order buf).map (Except.map .strVector)
    else if clsid = clsidCStlObjVector then
      (ObjVector.deserialize order (newObj fuel) buf).map
        (Except.map fun objs => .objVector (objs.map some))
    else
      match C.newObj clsid buf with
      | none => some (.error .enotsup)
      | some obj => some (.ok (.other obj))

/-- `Deserialize` of a new object of the same class. Objects in a buffer are not nested deeper than the
buffer is long. -/
def deserialize (clsid : Nat) (buf : List UInt8) : Ran (StlObj build64 C.Obj) :=
  newObj order C (buf.length + 1) clsid buf

end StlObj

end RpcFrmwrk.Combase
