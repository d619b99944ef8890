import RpcFrmwrk.Combase.Object
import RpcFrmwrk.Library.StdMap

/-! The value types of the interface language and their byte layout. Stream handles are outside this
model: they are bound to a connection. Floating point numbers are carried as their bit patterns.
Owns the type syntax, its signature strings and the values of each type; `RidlClasses`, what the
serializer relies on from the classes of the objects and structs it carries; `layout`, the bytes a
value occupies on the wire. -/

namespace RpcFrmwrk.Ridl

open RpcFrmwrk.Library

/-! ### Prime types -/

/-- The prime types that travel as a fixed number of bytes. -/
inductive FixedType where
  | byte
  | bool
  | uint16
  | int16
  | uint32
  | int32
  | uint64
  | int64
  | float
  | double
deriving DecidableEq, Repr

namespace FixedType

/-- The C++ type of a field; floating point types by their bit pattern. -/
@[reducible] def Val : FixedType → Type
  | .byte => UInt8
  | .bool => Bool
  | .uint16 => UInt16
  | .int16 => Int16
  | .uint32 => UInt32
  | .int32 => Int32
  | .uint64 => UInt64
  | .int64 => Int64
  | .float => UInt32
  | .double => UInt64

/-- `sizeof` of the type. -/
def width : FixedType → Nat
  | .byte | .bool => 1
  | .uint16 | .int16 => 2
  | .uint32 | .int32 | .float => 4
  | .uint64 | .int64 | .double => 8

/-- The unsigned word that `htons`, `htonl` or `htonll` is applied to. -/
def word : (type : FixedType) → type.Val → Nat
  | .byte, value => value.toNat
  | .bool, value => value.toNat
  | .uint16, value => value.toNat
  | .int16, value => value.toUInt16.toNat
  | .uint32, value => value.toNat
  | .int32, value => value.toUInt32.toNat
  | .uint64, value => value.toNat
  | .int64, value => value.toUInt64.toNat
  | .float, value => value.toNat
  | .double, value => value.toNat

def ofWord : (type : FixedType) → Nat → type.Val
  | .byte, word => UInt8.ofNat word
  | .bool, word => word != 0
  | .uint16, word => UInt16.ofNat word
  | .int16, word => (UInt16.ofNat word).toInt16
  | .uint32, word => UInt32.ofNat word
  | .int32, word => (UInt32.ofNat word).toInt32
  | .uint64, word => UInt64.ofNat word
  | .int64, word => (UInt64.ofNat word).toInt64
  | .float, word => UInt32.ofNat word
  | .double, word => UInt64.ofNat word

theorem word_lt (type : FixedType) (value : type.Val) : type.word value < 256 ^ type.width := by
  cases type with
  | byte => exact UInt8.toNat_lt value
  | bool => cases value <;> simp [word, width]
  | uint16 => exact UInt16.toNat_lt value
  | int16 => exact UInt16.toNat_lt value.toUInt16
  | uint32 | float => exact UInt32.toNat_lt value
  | int32 => exact UInt32.toNat_lt value.toUInt32
  | uint64 | double => exact UInt64.toNat_lt value
  | int64 => exact UInt64.toNat_lt value.toUInt64

@[simp] theorem ofWord_word (type : FixedType) (value : type.Val) : type.ofWord (type.word value) = value := by
  cases type with
  | bool => cases value <;> rfl
  | _ => simp [word, ofWord]

theorem width_pos (type : FixedType) : 0 < type.width := by
  cases type <;> decide

def isNaN (exponentBits fractionBits word : Nat) : Bool :=
  word / 2 ^ fractionBits % 2 ^ exponentBits == 2 ^ exponentBits - 1 &&
    word % 2 ^ fractionBits != 0

/-- `operator<` holds in neither direction between two floating point numbers:
equal bits, two zeros, or a NaN on either side. -/
def sameFloat (exponentBits fractionBits left right : Nat) : Bool :=
  left == right ||
    (left % 2 ^ (exponentBits + fractionBits) == 0 &&
      right % 2 ^ (exponentBits + fractionBits) == 0) ||
    isNaN exponentBits fractionBits left || isNaN exponentBits fractionBits right

/-- Key equivalence of `std::map`. -/
def same : (type : FixedType) → type.Val → type.Val → Bool
  | .float, left, right => sameFloat 8 23 left.toNat right.toNat
  | .double, left, right => sameFloat 11 52 left.toNat right.toNat
  | type, left, right => type.word left == type.word right

def signature : FixedType → Char
  | .byte => 'B'
  | .bool => 'b'
  | .uint16 => 'W'
  | .int16 => 'w'
  | .uint32 => 'D'
  | .int32 => 'd'
  | .uint64 => 'Q'
  | .int64 => 'q'
  | .float => 'f'
  | .double => 'F'

end FixedType

/-- The comparable types, which a map may use for its keys. -/
inductive PrimeType where
  | fixed (type : FixedType)
  | string
deriving DecidableEq, Repr

namespace PrimeType

@[reducible] def Val : PrimeType → Type
  | .fixed type => type.Val
  | .string => List UInt8

def same : (type : PrimeType) → type.Val → type.Val → Bool
  | .fixed type, left, right => type.same left right
  | .string, left, right => left == right

def signature : PrimeType → Char
  | .fixed type => type.signature
  | .string => 's'

end PrimeType

/-- `SERIAL_STRUCT_MAGIC`, the first word of a serialized `CStructBase`. -/
def serialStructMagic : Nat := 0x73747275

/-- The objects an interface carries, and its structs.

A `Struct` is a `CStructBase`: it writes the magic word, its message id and its
fields, and it advances the buffer when it reads itself back. `newStruct` stands
for `NewObj( msgId )` followed by that `Deserialize`. Structs travel inside
variants; an object pointer holds an object that writes a header. -/
structure RidlClasses extends ObjectClasses where
  clsid_ne_magic : ∀ obj, clsid obj ≠ serialStructMagic
  Struct : Type
  msgId : Struct → Nat
  fields : Struct → List UInt8
  newStruct : Nat → List UInt8 → Option (Struct × Nat)
  msgId_lt : ∀ item, msgId item < 256 ^ 4
  newStruct_serialized : ∀ item rest,
    newStruct (msgId item)
      (toBE 4 serialStructMagic ++ toBE 4 (msgId item) ++ fields item ++ rest) =
        some (item, 8 + (fields item).length)

variable (C : RidlClasses)

/-- The bytes a struct's own `Serialize` appends. -/
def RidlClasses.serializedStruct (item : C.Struct) : List UInt8 :=
  toBE 4 serialStructMagic ++ toBE 4 (C.msgId item) ++ C.fields item

/-- A `Variant`. A message is carried by pointer only; the serializer refuses it
without looking at it. -/
inductive Variant where
  | none
  | byte (value : UInt8)
  | uint16 (value : UInt16)
  | uint32 (value : UInt32)
  | uint64 (value : UInt64)
  | float (bits : UInt32)
  | double (bits : UInt64)
  | string (value : List UInt8)
  | dMsg
  | obj (value : Option C.Obj)
  | struct (value : C.Struct)
  | byteArr (value : List UInt8)

variable {C}

/-- `m_iType`, as one byte. -/
def Variant.typeId : Variant C → UInt8
  | .none => 0
  | .byte _ => 1
  | .uint16 _ => 2
  | .uint32 _ => 3
  | .uint64 _ => 4
  | .float _ => 5
  | .double _ => 6
  | .string _ => 7
  | .dMsg => 8
  | .obj _ | .struct _ => 9
  | .byteArr _ => 10

variable (C)

/-- The types of the interface language. -/
inductive RidlType where
  | prime (type : PrimeType)
  | byteArray
  | objPtr
  | variant
  | array (elem : RidlType)
  | map (key : PrimeType) (elem : RidlType)
deriving DecidableEq, Repr

namespace RidlType

/-- Values by type. A null and an empty buffer are the same byte array. -/
@[reducible] def Val : RidlType → Type
  | .prime type => type.Val
  | .byteArray => List UInt8
  | .objPtr => Option C.Obj
  | .variant => Variant C
  | .array elem => List elem.Val
  | .map key elem => StdMap key.Val elem.Val key.same

/-- `GetSignature()`. -/
def signature : RidlType → List Char
  | .prime type => [type.signature]
  | .byteArray => ['a']
  | .objPtr => ['o']
  | .variant => ['v']
  | .array elem => '(' :: elem.signature ++ [')']
  | .map key elem => '[' :: (key.signature :: elem.signature) ++ [']']

theorem signature_ne_nil (type : RidlType) : type.signature ≠ [] := by
  cases type <;> simp [signature]

end RidlType

def layoutBytes (value : List UInt8) : List UInt8 := toBE 4 value.length ++ value

def FixedType.layout (type : FixedType) (value : type.Val) : List UInt8 :=
  toBE type.width (type.word value)

def PrimeType.layout : (type : PrimeType) → type.Val → List UInt8
  | .fixed type, value => type.layout value
  | .string, value => layoutBytes value

variable {C}

/-- A null pointer is a header with an invalid class id and size zero. -/
def layoutObj : Option C.Obj → List UInt8
  | none => toBE 4 clsidInvalid ++ toBE 4 0 ++ toBE 4 1
  | some obj => C.serialized obj

def Variant.layoutValue : Variant C → List UInt8
  | .none | .dMsg => []
  | .byte value => FixedType.byte.layout value
  | .uint16 value => FixedType.uint16.layout value
  | .uint32 value => FixedType.uint32.layout value
  | .uint64 value => FixedType.uint64.layout value
  | .float bits => FixedType.float.layout bits
  | .double bits => FixedType.double.layout bits
  | .string value => layoutBytes value
  | .obj value => layoutObj value
  | .struct value => C.serializedStruct value
  | .byteArr value => layoutBytes value

def Variant.layout (value : Variant C) : List UInt8 := value.typeId :: value.layoutValue

def layoutCounted (count : Nat) (body : List UInt8) : List UInt8 :=
  toBE 4 body.length ++ toBE 4 count ++ body

/-- The bytes a value occupies. -/
def RidlType.layout : (type : RidlType) → type.Val C → List UInt8
  | .prime type, value => type.layout value
  | .byteArray, value => layoutBytes value
  | .objPtr, value => layoutObj value
  | .variant, value => value.layout
  | .array elem, values => layoutCounted values.length (values.flatMap elem.layout)
  | .map key elem, values =>
    layoutCounted values.entries.length
      (values.entries.flatMap fun entry => key.layout entry.1 ++ elem.layout entry.2)

@[simp] theorem length_layoutBytes (value : List UInt8) : (layoutBytes value).length = 4 + value.length := by
  simp [layoutBytes]

@[simp] theorem length_layoutCounted (count : Nat) (body : List UInt8) :
    (layoutCounted count body).length = 8 + body.length := by
  simp only [layoutCounted, List.length_append, length_toBE]

@[simp] theorem FixedType.length_layout (type : FixedType) (value : type.Val) :
    (type.layout value).length = type.width := length_toBE _ _

theorem PrimeType.layout_pos (type : PrimeType) (value : type.Val) : 0 < (type.layout value).length := by
  cases type with
  | fixed type => simpa only [layout, FixedType.length_layout] using type.width_pos
  | string => simp only [layout, length_layoutBytes]; omega

theorem length_layoutObj_ge (value : Option C.Obj) : 12 ≤ (layoutObj value).length := by
  cases value with
  | none | some => simp [layoutObj]

theorem RidlType.layout_pos (type : RidlType) (value : type.Val C) : 0 < (type.layout value).length := by
  cases type with
  | prime type => exact type.layout_pos value
  | byteArray => simp only [layout, length_layoutBytes]; omega
  | objPtr =>
    have header := length_layoutObj_ge value
    simp only [layout]
    omega
  | variant => simp [layout, Variant.layout]
  | array | map => simp only [layout, length_layoutCounted]; omega

end RpcFrmwrk.Ridl
