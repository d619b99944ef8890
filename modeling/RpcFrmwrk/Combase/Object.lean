import RpcFrmwrk.Library.BigEndian

/-! Objects that write themselves behind a `SERI_HEADER_BASE`. The classes of a program form an open
set, so they enter as a parameter. What the containers of this development rely on is the frame:
class id, size of what follows the header, and the version word with its reserved bytes. Owns
`ObjectClasses` and the bytes of an object. -/

namespace RpcFrmwrk

open RpcFrmwrk.Library

/-- `clsid( Invalid )`. -/
def clsidInvalid : Nat := 0xFFFFFFFF

/-- `sizeof( SERI_HEADER_BASE )`. -/
def seriHeaderBase : Nat := 12

/-- Classes whose objects keep the frame. `newObj` stands for `NewObj( clsid )`
followed by the new object's own `Deserialize` on the bytes that start with the
header; the bytes behind the object do not matter to it. -/
structure ObjectClasses where
  Obj : Type
  clsid : Obj → Nat
  info : Obj → List UInt8
  body : Obj → List UInt8
  newObj : Nat → List UInt8 → Option Obj
  clsid_lt : ∀ obj, clsid obj < 256 ^ 4
  info_length : ∀ obj, (info obj).length = 4
  body_pos : ∀ obj, 0 < (body obj).length
  newObj_serialized : ∀ obj rest,
    newObj (clsid obj)
      (toBE 4 (clsid obj) ++ toBE 4 (body obj).length ++ info obj ++ body obj ++ rest) = some obj

namespace ObjectClasses

variable (C : ObjectClasses)

/-- The bytes an object's own `Serialize` produces. -/
def serialized (obj : C.Obj) : List UInt8 :=
  toBE 4 (C.clsid obj) ++ toBE 4 (C.body obj).length ++ C.info obj ++ C.body obj

@[simp] theorem length_serialized (obj : C.Obj) : (C.serialized obj).length = 12 + (C.body obj).length := by
  simp only [serialized, List.length_append, length_toBE, C.info_length]

def empty : ObjectClasses where
  Obj := Empty
  clsid := Empty.elim
  info := Empty.elim
  body := Empty.elim
  newObj _ _ := none
  clsid_lt obj := obj.elim
  info_length obj := obj.elim
  body_pos obj := obj.elim
  newObj_serialized obj := obj.elim

end ObjectClasses

end RpcFrmwrk
