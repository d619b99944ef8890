import RpcFrmwrk.Combase.Buffer
import RpcFrmwrk.Combase.Object

/-! The configuration objects of `CConfigDb2`. A configuration is a hash map from property ids to
variants. It is kept as its list of properties in the order the map visits them, which Serialize
follows and which nothing else may depend on; two configurations are the same when they hold the
same properties in some order, at every depth. Owns `ConfigHost`, the surroundings of a
configuration; values, properties and their equality; the sizes that the output of `Serialize` is
measured against. -/

namespace RpcFrmwrk.ConfigDb

open RpcFrmwrk.Library

/-- `clsid( CConfigDb2 )`. -/
def clsidCConfigDb2 : Nat := 0x917

/-- What `CConfigDb2` takes from outside: the other classes, the messages of the
bus library with `dbus_message_marshal` and `dbus_message_demarshal`, and the
half page `QPAGE` by which a buffer grows. No class restores an object from
fewer bytes than it writes, and no class has the id zero. -/
structure ConfigHost extends ObjectClasses where
  clsid_ne_config : ∀ obj, clsid obj ≠ clsidCConfigDb2
  clsid_ne_invalid : ∀ obj, clsid obj ≠ clsidInvalid
  newObj_zero : ∀ bytes, newObj 0 bytes = none
  newObj_frugal : ∀ {id : Nat} {bytes : List UInt8} {obj : Obj}, newObj id bytes = some obj →
    12 + (body obj).length ≤ bytes.length
  Msg : Type
  marshal : Msg → List UInt8
  demarshal : List UInt8 → Option Msg
  qpage : Nat
  qpage_ge : 16 ≤ qpage
  qpage_le : 16 + qpage ≤ maxBytesPerBuffer

variable (H : ConfigHost)

/-- The variants a configuration holds. `bool` is stored as a byte, floating
point numbers by their bit pattern. -/
inductive Value where
  | byte (value : UInt8)
  | uint16 (value : UInt16)
  | uint32 (value : UInt32)
  | uint64 (value : UInt64)
  | float (bits : UInt32)
  | double (bits : UInt64)
  | string (value : List UInt8)
  | dMsg (msg : H.Msg)
  | null
  | config (props : List (Int32 × Value))
  | object (obj : H.Obj)
  | byteArr (value : List UInt8)

abbrev Property := Int32 × Value H

variable {H}

/-- `GetTypeId()`. -/
def Value.typeId : Value H → UInt8
  | .byte _ => 1
  | .uint16 _ => 2
  | .uint32 _ => 3
  | .uint64 _ => 4
  | .float _ => 5
  | .double _ => 6
  | .string _ => 7
  | .dMsg _ => 8
  | .null | .config _ | .object _ => 9
  | .byteArr _ => 10

mutual
/-- Equal values; nested configurations are compared as maps. -/
inductive Value.Same : Value H → Value H → Prop where
  | refl (value : Value H) : Value.Same value value
  | config {left right : List (Int32 × Value H)} :
      SameProps left right → Value.Same (.config left) (.config right)

/-- The same properties in some order. -/
inductive SameProps : List (Int32 × Value H) → List (Int32 × Value H) → Prop where
  | nil : SameProps [] []
  | cons (key : Int32) {left right : Value H} {leftTail rightTail : List (Int32 × Value H)} :
      Value.Same left right → SameProps leftTail rightTail →
        SameProps ((key, left) :: leftTail) ((key, right) :: rightTail)
  | swap (first second : Int32 × Value H) (tail : List (Int32 × Value H)) :
      SameProps (first :: second :: tail) (second :: first :: tail)
  | trans {first second third : List (Int32 × Value H)} :
      SameProps first second → SameProps second third → SameProps first third
end

theorem SameProps.refl (props : List (Int32 × Value H)) : SameProps props props := by
  induction props with
  | nil => exact .nil
  | cons head tail ih =>
    exact .cons head.1 (.refl head.2) ih

mutual
/-- Some value, at any depth, satisfies the test. -/
def Value.anywhere (test : Value H → Bool) : Value H → Bool
  | .config props => test (.config props) || anywhereProps test props
  | value => test value

def anywhereProps (test : Value H → Bool) : List (Int32 × Value H) → Bool
  | [] => false
  | (_, value) :: tail => value.anywhere test || anywhereProps test tail
end

def Value.isNull : Value H → Bool
  | .null => true
  | _ => false

/-- A byte array whose length, in 32 bits, is zero. -/
def Value.isEmptyArr : Value H → Bool
  | .byteArr value => value.length % 2 ^ 32 == 0
  | _ => false

mutual
def Value.size : Value H → Nat
  | .byte _ => 1
  | .uint16 _ => 2
  | .uint32 _ | .float _ => 4
  | .uint64 _ | .double _ => 8
  | .string value => 4 + value.length
  | .dMsg msg => 4 + (4 + (H.marshal msg).length)
  | .null => 12
  | .config props => 16 + sizeProps props
  | .object obj => 12 + (H.body obj).length
  | .byteArr value => 4 + value.length

/-- Each property takes four bytes for its id and one for its type. -/
def sizeProps : List (Int32 × Value H) → Nat
  | [] => 0
  | (_, value) :: tail => 5 + value.size + sizeProps tail
end

end RpcFrmwrk.ConfigDb
