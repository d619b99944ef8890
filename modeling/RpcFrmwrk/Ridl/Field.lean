import RpcFrmwrk.Ridl.RoundTrip

/-! The fields of structs and the arguments of methods, and the bytes that `CSerialBase` writes for
them. A struct is a field like any other here, and an element of a container. Owns `FieldType`, its
values, signatures and byte layout; `serialField`, the writer, and the bytes it writes for the
values it carries; the end of a container inside a signature, and what it holds. -/

namespace RpcFrmwrk.Ridl

open RpcFrmwrk.Library List
open CBuffer (cursor)

/-- The types of the interface language, structs among them. -/
inductive FieldType where
  | prime (type : PrimeType)
  | byteArray
  | objPtr
  | struct
  | variant
  | array (elem : FieldType)
  | map (key : PrimeType) (elem : FieldType)
deriving DecidableEq, Repr

variable (C : RidlClasses)

namespace FieldType

@[reducible] def Val : FieldType → Type
  | .prime type => type.Val
  | .byteArray => List UInt8
  | .objPtr => Option C.Obj
  | .struct => C.Struct
  | .variant => Variant C
  | .array elem => List elem.Val
  | .map key elem => StdMap key.Val elem.Val key.same

/-- `GetTypeSig`. The languages differ in the signature of a struct. -/
def signature (structSig : List Char) : FieldType → List Char
  | .prime type => [type.signature]
  | .byteArray => ['a']
  | .objPtr => ['o']
  | .struct => structSig
  | .variant => ['v']
  | .array elem => '(' :: elem.signature structSig ++ [')']
  | .map key elem => '[' :: (key.signature :: elem.signature structSig) ++ [']']

variable {C}

/-- The bytes a value occupies. -/
def layout : (type : FieldType) → type.Val C → List UInt8
  | .prime type, value => type.layout value
  | .byteArray, value => layoutBytes value
  | .objPtr, value => layoutObj value
  | .struct, value => C.serializedStruct value
  | .variant, value => value.layout
  | .array elem, values => layoutCounted values.length (values.flatMap elem.layout)
  | .map key elem, values =>
    layoutCounted values.entries.length
      (values.entries.flatMap fun entry => key.layout entry.1 ++ elem.layout entry.2)

theorem layout_pos (type : FieldType) (value : type.Val C) : 0 < (type.layout value).length := by
  cases type with
  | prime type => exact type.layout_pos value
  | byteArray =>
    rw [layout, length_layoutBytes]
    omega
  | objPtr =>
    have header := length_layoutObj_ge value
    rw [layout]
    omega
  | struct =>
    rw [layout, RidlClasses.serializedStruct, length_append, length_append, length_toBE]
    omega
  | variant => exact Nat.zero_lt_succ _
  | array | map =>
    rw [layout, length_layoutCounted]
    omega

theorem signature_ne_nil {structSig : List Char} (some : structSig ≠ []) (type : FieldType) :
    type.signature structSig ≠ [] := by
  cases type with
  | struct => exact some
  | _ => exact cons_ne_nil _ _

theorem fuel_succ {structSig : List Char} (some : structSig ≠ []) {type : FieldType} {fuel : Nat}
    (enough : (type.signature structSig).length ≤ fuel) : ∃ less, fuel = less + 1 := by
  have positive := length_pos_of_ne_nil (signature_ne_nil some type)
  exact Nat.exists_eq_succ_of_ne_zero (by omega)

end FieldType

/-- `SerialStruct`. -/
def serialStruct (item : C.Struct) (buf : CBuffer) : Status × CBuffer :=
  (.success, buf.appendAtTail (C.serializedStruct item))

/-- `SerialElem`, structs included. -/
def serialField : (type : FieldType) → List Char → type.Val C → CBuffer → Status × CBuffer
  | .prime type, _, value, buf => serializePrime type value buf
  | .byteArray, _, value, buf => serializeBytes value buf
  | .objPtr, _, value, buf => serializeObj C value buf
  | .struct, _, value, buf => serialStruct C value buf
  | .variant, _, value, buf => serializeVariant C value buf
  | .array elem, signature, values, buf =>
    serializeArray (fun sig value buf => serialField elem sig value buf) signature values buf
  | .map key elem, signature, values, buf =>
    serializeMap (serializePrime key) (fun sig value buf => serialField elem sig value buf)
      signature values.entries buf

variable {C}

def Variant.Carried : Variant C → Prop
  | .dMsg => False
  | .obj (some item) => (C.serialized item).length < maxBytesPerBuffer
  | _ => True

/-- No message anywhere, every object smaller than a buffer, and fewer than `MAX_ELEM_COUNT`
elements in every container. -/
def FieldType.Carried : (type : FieldType) → type.Val C → Prop
  | .prime _, _ => True
  | .byteArray, _ => True
  | .objPtr, value => ∀ obj ∈ value, (C.serialized obj).length < maxBytesPerBuffer
  | .struct, _ => True
  | .variant, value => value.Carried
  | .array elem, values => values.length < maxElemCount ∧ ∀ value ∈ values, elem.Carried value
  | .map _ elem, values =>
    values.entries.length < maxElemCount ∧ ∀ entry ∈ values.entries, elem.Carried entry.2

theorem serializeObj_writes {value : Option C.Obj}
    (carried : ∀ obj ∈ value, (C.serialized obj).length < maxBytesPerBuffer) :
    Writes (serializeObj C value) (layoutObj value) := by
  cases value with
  | none => exact serializeObj_none_writes
  | some obj => exact serializeObj_some_writes (carried obj rfl)

theorem serializeVariant_carried {value : Variant C} (carried : value.Carried) :
    Writes (serializeVariant C value) value.layout := by
  apply writes_behind_byte
  cases value with
  | obj value =>
    cases value with
    | none => exact @serializeObj_none_writes C
    | some item => exact serializeObj_some_writes carried
  | dMsg => exact absurd carried id
  | _ => exact serializeVariantValue_writes trivial

theorem serialStruct_writes (item : C.Struct) : Writes (serialStruct C item) (C.serializedStruct item) := by
  intro before fits
  have positive : 0 < (C.serializedStruct item).length := FieldType.layout_pos .struct item
  rw [serialStruct, CBuffer.appendAtTail_cursor (ne_nil_of_length_pos positive) fits]

theorem serialField_writes (structSig : List Char) (type : FieldType) {value : type.Val C}
    (carried : type.Carried value) :
    Writes (serialField C type (type.signature structSig) value) (type.layout value) := by
  induction type with
  | prime type => exact serializePrime_writes type value
  | byteArray => exact serializeBytes_writes value
  | objPtr => exact serializeObj_writes carried
  | struct => exact serialStruct_writes value
  | variant => exact serializeVariant_carried carried
  | array elem ih =>
    have elements : ∀ item ∈ value,
        Writes (serialField C elem (elem.signature structSig) item) (elem.layout item) :=
      fun item member => ih (carried.2 item member)
    simp only [serialField, FieldType.signature, serializeArray, elemSignature_bracketed]
    exact serializeCounted_writes carried.1 elements
  | map key elem ih =>
    simp only [serialField, FieldType.signature, serializeMap, elemSignature_bracketed]
    apply serializeCounted_writes carried.1
    intro entry member before fits
    rw [length_append] at fits
    have first := serializePrime_writes key entry.1 before (by omega)
    have second := ih (carried.2 entry member) (before ++ key.layout entry.1) (by rw [length_append]; omega)
    simp only [first, Status.failed_success, Bool.false_eq_true, if_false, tail_cons]
    rw [second, append_assoc]

/-! ### Containers inside a signature -/

/-- What stands between the brackets of a container's signature. -/
def innerSig (opening closing : Char) (sig : List Char) : Option (List Char) :=
  if sig.head? ≠ some opening ∨ sig.getLast? ≠ some closing ∨ sig.length ≤ 2 then none
  else some sig.tail.dropLast

theorem innerSig_bracketed {opening closing : Char} {inner : List Char} (some : inner ≠ []) :
    innerSig opening closing (opening :: inner ++ [closing]) = .some inner := by
  have positive := length_pos_of_ne_nil some
  have isLast : (opening :: inner ++ [closing]).getLast? = .some closing := List.getLast?_concat
  have length : (opening :: inner ++ [closing]).length = inner.length + 2 := by
    rw [length_append, length_cons, length_singleton]
  have inside : (opening :: inner ++ [closing]).tail.dropLast = inner := dropLast_concat
  rw [innerSig, isLast, length, inside, if_neg]
  rintro (other | other | short)
  · exact other rfl
  · exact other rfl
  · omega

def sigEnd (opening closing : Char) : Nat → List Char → Option Nat
  | _, [] => none
  | balance, char :: rest =>
    if char = opening then (sigEnd opening closing (balance + 1) rest).map (· + 1)
    else if char = closing then
      if balance = 1 then some 1 else (sigEnd opening closing (balance - 1) rest).map (· + 1)
    else (sigEnd opening closing balance rest).map (· + 1)

def bracketPairs : List (Char × Char) := [('(', ')'), ('[', ']')]

@[reducible] def NoBrackets (signature : List Char) : Prop :=
  ∀ char ∈ signature, ∀ pair ∈ bracketPairs, char ≠ pair.1 ∧ char ≠ pair.2

section

variable {opening closing : Char} {rest : List Char} {balance : Nat}

theorem sigEnd_plain (inside : (opening, closing) ∈ bracketPairs) {signature : List Char}
    (plain : NoBrackets signature) (balance : Nat) (rest : List Char) :
    sigEnd opening closing balance (signature ++ rest) =
      (sigEnd opening closing balance rest).map (· + signature.length) := by
  induction signature with
  | nil => exact (Option.map_id' (x := sigEnd opening closing balance rest)).symm
  | cons char others ih =>
    have other := plain char mem_cons_self _ inside
    have more := ih fun char member => plain char (mem_cons_of_mem _ member)
    rw [cons_append, sigEnd, if_neg other.1, if_neg other.2, more, Option.map_map]
    apply congrArg (fun count => Option.map count (sigEnd opening closing balance rest))
    funext count
    exact Nat.add_assoc _ _ _

theorem noBrackets_char {char : Char} (plain : ∀ pair ∈ bracketPairs, char ≠ pair.1 ∧ char ≠ pair.2) :
    NoBrackets [char] := by
  intro other member
  rw [mem_singleton.1 member]
  exact plain

theorem PrimeType.noBrackets (type : PrimeType) : NoBrackets [type.signature] := by
  apply noBrackets_char
  cases type with
  | fixed type => cases type <;> decide
  | string => decide

theorem bracketPairs_apart : ∀ pair ∈ bracketPairs, pair.1 ≠ pair.2 ∧ ∀ other ∈ bracketPairs,
    pair = other ∨ (pair.1 ≠ other.1 ∧ pair.1 ≠ other.2) ∧ pair.2 ≠ other.1 ∧ pair.2 ≠ other.2 := by
  decide

/-- Brackets of one kind around a signature: those of the other kind pass, and those of the same
kind are closed. -/
theorem sigEnd_bracketed (inside : (opening, closing) ∈ bracketPairs) {pair : Char × Char}
    (container : pair ∈ bracketPairs) {inner : List Char} (positive : 0 < balance)
    (through : ∀ balance rest, 0 < balance → sigEnd opening closing balance (inner ++ rest) =
      (sigEnd opening closing balance rest).map (· + inner.length)) :
    sigEnd opening closing balance (pair.1 :: inner ++ [pair.2] ++ rest) =
      (sigEnd opening closing balance rest).map (· + (inner.length + 2)) := by
  have shift : ∀ count : Option Nat, Option.map (· + 1) (Option.map (· + inner.length) (Option.map (· + 1) count)) =
      count.map (· + (inner.length + 2)) := by
    intro count
    cases count with
    | none => rfl
    | some count =>
      show some (count + 1 + inner.length + 1) = some (count + (inner.length + 2))
      congr 1
      omega
  have whole : pair.1 :: inner ++ [pair.2] ++ rest = pair.1 :: (inner ++ (pair.2 :: rest)) := by
    rw [append_assoc]
    rfl
  have apart := bracketPairs_apart pair container
  rw [whole]
  rcases apart.2 _ inside with same | ⟨first, second⟩
  · rw [same] at apart ⊢
    rw [sigEnd, if_pos rfl, through _ _ (Nat.succ_pos balance), sigEnd, if_neg apart.1.symm, if_pos rfl,
      if_neg (by omega)]
    exact shift _
  · rw [sigEnd, if_neg first.1, if_neg first.2, through _ _ positive, sigEnd, if_neg second.1, if_neg second.2]
    exact shift _

theorem sigEnd_key (inside : (opening, closing) ∈ bracketPairs) (key : PrimeType) {inner : List Char}
    (through : ∀ balance rest, 0 < balance → sigEnd opening closing balance (inner ++ rest) =
      (sigEnd opening closing balance rest).map (· + inner.length)) (balance : Nat) (rest : List Char)
    (positive : 0 < balance) :
    sigEnd opening closing balance (key.signature :: inner ++ rest) =
      (sigEnd opening closing balance rest).map (· + (key.signature :: inner).length) := by
  have first := sigEnd_plain inside key.noBrackets balance (inner ++ rest)
  rw [cons_append, ← singleton_append, first, through balance rest positive, Option.map_map]
  exact congrArg (fun count => Option.map count (sigEnd opening closing balance rest))
    (funext fun count => Nat.add_assoc _ _ _)

theorem sigEnd_signature (inside : (opening, closing) ∈ bracketPairs) {structSig : List Char}
    (plain : NoBrackets structSig) (type : FieldType) (balance : Nat) (rest : List Char)
    (positive : 0 < balance) :
    sigEnd opening closing balance (type.signature structSig ++ rest) =
      (sigEnd opening closing balance rest).map (· + (type.signature structSig).length) := by
  induction type generalizing balance rest with
  | prime type => exact sigEnd_plain inside type.noBrackets balance rest
  | byteArray | objPtr | variant => exact sigEnd_plain inside (noBrackets_char (by decide)) balance rest
  | struct => exact sigEnd_plain inside plain balance rest
  | array elem ih =>
    have bracketed := @sigEnd_bracketed opening closing rest balance inside ('(', ')') (by decide)
      (elem.signature structSig) positive ih
    rw [FieldType.signature, bracketed, length_append, length_cons, length_singleton]
  | map key elem ih =>
    have bracketed := @sigEnd_bracketed opening closing rest balance inside ('[', ']') (by decide)
      (key.signature :: elem.signature structSig) positive (sigEnd_key inside key ih)
    rw [FieldType.signature, bracketed, length_append, length_cons, length_singleton]
    rfl

end

theorem sigEnd_container {pair : Char × Char} (container : pair ∈ bracketPairs) {inner : List Char}
    (through : ∀ balance rest, 0 < balance → sigEnd pair.1 pair.2 balance (inner ++ rest) =
      (sigEnd pair.1 pair.2 balance rest).map (· + inner.length)) :
    sigEnd pair.1 pair.2 1 (inner ++ [pair.2]) = some (inner.length + 1) := by
  have apart := bracketPairs_apart pair container
  rw [through 1 _ Nat.one_pos, sigEnd, if_neg apart.1.symm, if_pos rfl, if_pos rfl]
  exact congrArg some (Nat.add_comm _ _)

theorem sigEnd_array {structSig : List Char} (plain : NoBrackets structSig) (elem : FieldType) :
    sigEnd '(' ')' 1 (elem.signature structSig ++ [')']) = some ((elem.signature structSig).length + 1) :=
  @sigEnd_container ('(', ')') (by decide) _ (sigEnd_signature (by decide) plain elem)

theorem sigEnd_map {structSig : List Char} (plain : NoBrackets structSig) (key : PrimeType) (elem : FieldType) :
    sigEnd '[' ']' 1 (key.signature :: elem.signature structSig ++ [']']) =
      some ((key.signature :: elem.signature structSig).length + 1) :=
  @sigEnd_container ('[', ']') (by decide) _
    (sigEnd_key (by decide) key (sigEnd_signature (by decide) plain elem))

end RpcFrmwrk.Ridl
