import RpcFrmwrk.Ridl.RoundTrip

/-! A sequence of values written into one buffer and read back. The offsets are those of
`layoutAll`: a value starts where the values before it end. The same is asked of the elements inside
containers, which the serializer reads and writes with the same methods. Owns `RoundTrips`, the
round trip of a sequence, offsets included; `roundTrips_iff`, the exact condition for it. -/

namespace RpcFrmwrk.Ridl

open RpcFrmwrk.Library List
open CBuffer (cursor)

variable {α : Type} {elem : α → CBuffer → Status × CBuffer} {buf : CBuffer}

/-! ### Reading leaves the bytes alone -/

@[simp] theorem data_incOffset (buf : CBuffer) (count : Nat) :
    (buf.incOffset count).data = buf.data := CBuffer.data_setOffset _ _

@[simp] theorem data_deserializeWord (width : Nat) (buf : CBuffer) :
    (deserializeWord width buf).2.2.data = buf.data := by
  unfold deserializeWord
  split
  · rfl
  · split
    · rfl
    · exact data_incOffset _ _

@[simp] theorem data_deserializeFixed (type : FixedType) (buf : CBuffer) :
    (deserializeFixed type buf).2.2.data = buf.data := data_deserializeWord _ _

@[simp] theorem data_deserializeString (buf : CBuffer) : (deserializeString buf).2.2.data = buf.data := by
  unfold deserializeString
  dsimp only
  repeat' split
  all_goals simp

@[simp] theorem data_deserializeBuf (buf : CBuffer) : (deserializeBuf buf).2.2.data = buf.data := by
  unfold deserializeBuf
  dsimp only
  repeat' split
  all_goals simp

@[simp] theorem data_deserializePrime (type : PrimeType) (buf : CBuffer) :
    (deserializePrime type buf).2.2.data = buf.data := by
  cases type with
  | fixed type => exact data_deserializeFixed type buf
  | string => exact data_deserializeString buf

variable {C : RidlClasses}

@[simp] theorem data_deserializeObj (buf : CBuffer) : (deserializeObj C buf).2.2.data = buf.data := by
  unfold deserializeObj
  dsimp only
  repeat' split
  all_goals simp

@[simp] theorem data_deserializeVariantObj (buf : CBuffer) :
    (deserializeVariantObj C buf).2.2.data = buf.data := by
  unfold deserializeVariantObj
  dsimp only
  repeat' split
  all_goals simp

@[simp] theorem data_deserializeVariant (buf : CBuffer) : (deserializeVariant C buf).2.2.data = buf.data := by
  unfold deserializeVariant
  split
  · rfl
  · unfold deserializeVariantValue
    split <;> simp

theorem data_deserialElems {default : α} {elem : CBuffer → Status × α × CBuffer}
    (keeps : ∀ buf, (elem buf).2.2.data = buf.data) (count : Nat) (buf : CBuffer) :
    (deserialElems default elem count buf).2.2.data = buf.data := by
  induction count generalizing buf with
  | zero => rfl
  | succ count ih =>
    unfold deserialElems
    dsimp only
    split
    · exact keeps buf
    · exact (ih _).trans (keeps buf)

theorem data_deserialEntries {Key Val : Type} {same : Key → Key → Bool}
    {key : CBuffer → Status × Key × CBuffer} {elem : CBuffer → Status × Val × CBuffer}
    (keys : ∀ buf, (key buf).2.2.data = buf.data) (elems : ∀ buf, (elem buf).2.2.data = buf.data)
    (count : Nat) (map : StdMap Key Val same) (buf : CBuffer) :
    (deserialEntries key elem count map buf).2.2.data = buf.data := by
  induction count generalizing map buf with
  | zero => rfl
  | succ count ih =>
    unfold deserialEntries
    dsimp only
    split
    · exact keys buf
    · split
      · exact (elems _).trans (keys buf)
      · exact (ih _ _).trans ((elems _).trans (keys buf))

theorem data_deserialElem (type : RidlType) (signature : List Char) (buf : CBuffer) :
    (deserialElem C type signature buf).2.2.data = buf.data := by
  induction type generalizing signature buf with
  | prime type => exact data_deserializePrime type buf
  | byteArray => exact data_deserializeBuf buf
  | objPtr => exact data_deserializeObj buf
  | variant => exact data_deserializeVariant buf
  | array elem ih =>
    simp only [deserialElem]
    unfold deserialArray
    dsimp only
    repeat' split
    all_goals simp [data_deserialElems, ih]
  | map key elem ih =>
    simp only [deserialElem]
    unfold deserialMap
    dsimp only
    repeat' split
    all_goals simp [data_deserialEntries, ih]

/-- The bytes of values written one after the other. -/
def layoutAll (values : List (Typed C)) : List UInt8 :=
  values.flatMap fun value => value.1.layout value.2

def marks (start : Nat) : List (Typed C) → List (Typed C × Nat)
  | [] => []
  | head :: tail =>
    let next := start + (head.1.layout head.2).length
    (head, next) :: marks next tail

/-- Every element inside a container, at any depth, is written as its layout
and read back from it in step. Keys are prime values, which always are. -/
def EachElement : (type : RidlType) → type.Val C → Prop
  | .array elem, values => ∀ value ∈ values,
      Writes (serialElem C elem elem.signature value) (elem.layout value) ∧
      Reads (deserialElem C elem elem.signature) (elem.layout value) value ∧
      EachElement elem value
  | .map _ elem, values => ∀ entry ∈ values.entries,
      Writes (serialElem C elem elem.signature entry.2) (elem.layout entry.2) ∧
      Reads (deserialElem C elem elem.signature) (elem.layout entry.2) entry.2 ∧
      EachElement elem entry.2
  | _, _ => True

/-- Written one after the other, values are read back equal and in step. -/
structure RoundTrips (values : List (Typed C)) : Prop where
  written : writeAll C values .empty = (.success, cursor (layoutAll values) [])
  readBack : readAll C (values.map Sigma.fst) ((cursor (layoutAll values) []).setOffset 0) =
    (.success, marks 0 values)
  elements : ∀ value ∈ values, EachElement value.1 value.2

theorem eachElement_of_clean (type : RidlType) {value : type.Val C} (clean : type.Clean value)
    (small : (type.layout value).length ≤ maxBytesPerBuffer) : EachElement type value := by
  induction type with
  | array elem ih =>
    intro item member
    have itemClean := clean.2 item member
    have part := mem_layout_le elem.layout member
    simp only [RidlType.layout, length_layoutCounted] at small
    exact ⟨serialElem_writes elem itemClean, deserialElem_reads elem itemClean (by omega),
      ih itemClean (by omega)⟩
  | map key elem ih =>
    intro entry member
    have entryClean := clean.2 entry member
    have part := mem_layout_le (fun entry => key.layout entry.1 ++ elem.layout entry.2) member
    simp only [RidlType.layout, length_layoutCounted] at small
    rw [length_append] at part
    exact ⟨serialElem_writes elem entryClean, deserialElem_reads elem entryClean (by omega),
      ih entryClean (by omega)⟩
  | _ => trivial

theorem writeAll_writes {values : List (Typed C)}
    (clean : ∀ value ∈ values, value.1.Clean value.2) :
    Writes (writeAll C values) (layoutAll values) :=
  serialElems_writes fun value member => serialElem_writes value.1 (clean value member)

theorem readAll_cursor {values : List (Typed C)}
    (clean : ∀ value ∈ values, value.1.Clean value.2)
    (small : (layoutAll values).length ≤ maxBytesPerBuffer) (before : List UInt8) :
    readAll C (values.map Sigma.fst) (cursor before (layoutAll values)) =
      (.success, marks before.length values) := by
  induction values generalizing before with
  | nil => rfl
  | cons head tail ih =>
    have split : layoutAll (head :: tail) = head.1.layout head.2 ++ layoutAll tail :=
      flatMap_cons
    rw [split, length_append] at small
    have first := deserialElem_reads head.1 (clean head mem_cons_self) (by omega) before (layoutAll tail)
    have rest := ih (fun value member =>
      clean value (mem_cons_of_mem _ member)) (by omega) (before ++ head.1.layout head.2)
    rw [length_append] at rest
    rw [split, map_cons, readAll]
    simp only [first, Status.failed_success, Bool.false_eq_true, if_false, rest, marks,
      CBuffer.offset_cursor, length_append]

theorem accepted_of_serialElems
    {values : List α} (success : (serialElems elem values buf).1 = .success) :
    ∀ value ∈ values, ∃ at_, (elem value at_).1 = .success := by
  induction values generalizing buf with
  | nil => simp
  | cons head tail ih =>
    simp only [serialElems] at success
    split at success
    · rename_i failed
      rw [success] at failed
      exact absurd failed Bool.false_ne_true
    · rename_i accepted
      intro value member
      rcases mem_cons.1 member with rfl | later
      · exact ⟨buf, (Status.failed_eq_false_iff _).1 (Bool.not_eq_true _ ▸ accepted)⟩
      · exact ih success value later

theorem accepted_counted {values : List α}
    (success : (serializeCounted elem values buf).1 = .success) :
    values.length < maxElemCount := by
  by_contra many
  have positive : values.length ≠ 0 := by
    have limit : 0 < maxElemCount := by decide
    omega
  simp only [serializeCounted] at success
  rw [if_neg positive, if_pos (by omega)] at success
  simp at success

/-- A value that the writer accepts, that is read back in step, and whose
elements are, is clean. -/
theorem clean_of_roundTrip (type : RidlType) {value : type.Val C}
    {before after : List UInt8}
    (accepted : (serialElem C type type.signature value buf).1 = .success)
    (read : deserialElem C type type.signature (cursor before (type.layout value ++ after)) =
      (.success, value, cursor (before ++ type.layout value) after))
    (elements : EachElement type value)
    (small : (type.layout value).length ≤ maxBytesPerBuffer) : type.Clean value := by
  induction type generalizing buf before after with
  | prime type => trivial
  | byteArray => trivial
  | objPtr =>
    cases value with
    | none =>
      have stays := deserializeObj_none (C := C) before after
      have offsets := congrArg (fun result => result.2.2.offset) (stays.symm.trans read)
      have header := length_layoutObj_ge (C := C) none
      simp only [CBuffer.offset_cursor, length_append, RidlType.layout] at offsets
      omega
    | some obj =>
      refine ⟨obj, rfl, ?_⟩
      by_contra large
      simp only [serialElem, serializeObj] at accepted
      rw [if_pos (Or.inr (by omega))] at accepted
      simp at accepted
  | variant =>
    simp only [serialElem, serializeVariant] at accepted
    simp only [deserialElem, RidlType.layout] at read
    cases value with
    | dMsg => simp [serializeVariantValue] at accepted
    | obj value =>
      cases value with
      | none =>
        have stays := deserializeVariantObj_none (C := C) (before ++ [9]) after
        have typed := deserializeVariant_behind_byte (C := C) (.obj none) before after
        rw [read] at typed
        have offsets := congrArg (fun result => result.2.2.offset) (typed.trans stays)
        have header := length_layoutObj_ge (C := C) none
        simp only [CBuffer.offset_cursor, length_append, Variant.layout,
          Variant.layoutValue, length_cons, length_nil] at offsets
        omega
      | some obj =>
        by_contra large
        have refused : maxBytesPerBuffer ≤ (C.serialized obj).length := Nat.not_lt.1 large
        simp only [serializeVariantValue, serializeObj] at accepted
        rw [if_pos (Or.inr refused)] at accepted
        simp at accepted
    | _ => trivial
  | array elem ih =>
    simp only [serialElem, RidlType.signature, serializeArray, elemSignature_bracketed] at accepted
    refine ⟨accepted_counted accepted, fun item member => ?_⟩
    obtain ⟨writes, reads, inner⟩ := elements item member
    have part := mem_layout_le elem.layout member
    simp only [RidlType.layout, length_layoutCounted] at small
    have written := writes [] (by simp only [length_nil]; omega)
    exact ih (congrArg Prod.fst written) (reads [] []) inner (by omega)
  | map key elem ih =>
    simp only [serialElem, RidlType.signature, serializeMap, elemSignature_bracketed] at accepted
    refine ⟨accepted_counted accepted, fun entry member => ?_⟩
    obtain ⟨writes, reads, inner⟩ := elements entry member
    have part := mem_layout_le (fun entry => key.layout entry.1 ++ elem.layout entry.2) member
    simp only [RidlType.layout, length_layoutCounted] at small
    rw [length_append] at part
    have written := writes [] (by simp only [length_nil]; omega)
    exact ih (congrArg Prod.fst written) (reads [] []) inner (by omega)

def KeepsLimit (write : CBuffer → Status × CBuffer) : Prop :=
  ∀ buf : CBuffer, buf.data.length ≤ maxBytesPerBuffer →
    (write buf).2.data.length ≤ maxBytesPerBuffer

theorem serializeFixed_keepsLimit (type : FixedType) (value : type.Val) :
    KeepsLimit (serializeFixed type value) :=
  fun _ within => CBuffer.length_data_appendAtTail _ within

theorem serializeUInt32_keepsLimit (value : Nat)
    (within : buf.data.length ≤ maxBytesPerBuffer) :
    (serializeUInt32 value buf).data.length ≤ maxBytesPerBuffer :=
  CBuffer.length_data_appendAtTail _ within

theorem serializeBytes_keepsLimit (value : List UInt8) : KeepsLimit (serializeBytes value) := by
  intro buf within
  have word := serializeUInt32_keepsLimit (value.length % 2 ^ 32) within
  unfold serializeBytes
  dsimp only
  split
  · exact within
  · split
    · exact word
    · exact CBuffer.length_data_appendAtTail _ word

theorem serializePrime_keepsLimit (type : PrimeType) (value : type.Val) :
    KeepsLimit (serializePrime type value) := by
  cases type with
  | fixed type => exact serializeFixed_keepsLimit type value
  | string => exact serializeBytes_keepsLimit value

theorem serializeObj_keepsLimit (value : Option C.Obj) : KeepsLimit (serializeObj C value) := by
  intro buf within
  cases value with
  | none =>
    have first := serializeUInt32_keepsLimit clsidInvalid within
    have second := serializeUInt32_keepsLimit 0 first
    have third := serializeUInt32_keepsLimit 1 second
    simpa only [serializeObj] using third
  | some obj =>
    simp only [serializeObj]
    split
    · exact within
    · exact CBuffer.length_data_appendAtTail _ within

theorem serializeVariant_keepsLimit (value : Variant C) : KeepsLimit (serializeVariant C value) := by
  intro buf within
  have typed := CBuffer.length_data_appendAtTail [value.typeId] within
  unfold serializeVariant
  cases value with
  | none => exact typed
  | dMsg => exact typed
  | string value | byteArr value => exact serializeBytes_keepsLimit value _ typed
  | obj value => exact serializeObj_keepsLimit value _ typed
  | struct item => exact CBuffer.length_data_appendAtTail _ typed
  | byte value => exact serializeFixed_keepsLimit .byte value _ typed
  | uint16 value => exact serializeFixed_keepsLimit .uint16 value _ typed
  | uint32 value => exact serializeFixed_keepsLimit .uint32 value _ typed
  | uint64 value => exact serializeFixed_keepsLimit .uint64 value _ typed
  | float bits => exact serializeFixed_keepsLimit .float bits _ typed
  | double bits => exact serializeFixed_keepsLimit .double bits _ typed

theorem serialElems_keepsLimit
    (keeps : ∀ value, KeepsLimit (elem value)) (values : List α) :
    KeepsLimit (serialElems elem values) := by
  induction values with
  | nil => exact fun _ within => within
  | cons head tail ih =>
    intro buf within
    unfold serialElems
    dsimp only
    split
    · exact keeps head buf within
    · exact ih _ (keeps head buf within)

theorem serializeCounted_keepsLimit
    (keeps : ∀ value, KeepsLimit (elem value)) (values : List α) :
    KeepsLimit (serializeCounted elem values) := by
  intro buf within
  have word := serializeUInt32_keepsLimit 0 within
  have header := serializeUInt32_keepsLimit values.length word
  have body := serialElems_keepsLimit keeps values _ header
  unfold serializeCounted
  dsimp only
  split
  · exact serializeUInt32_keepsLimit _ word
  · split
    · exact word
    · split
      · exact body
      · rw [CBuffer.length_data_patch]
        exact body

theorem serialElem_keepsLimit (type : RidlType) (signature : List Char) (value : type.Val C) :
    KeepsLimit (serialElem C type signature value) := by
  induction type generalizing signature with
  | prime type => exact serializePrime_keepsLimit type value
  | byteArray => exact serializeBytes_keepsLimit value
  | objPtr => exact serializeObj_keepsLimit value
  | variant => exact serializeVariant_keepsLimit value
  | array elem ih =>
    intro buf within
    simp only [serialElem, serializeArray]
    split
    · exact within
    · exact serializeCounted_keepsLimit (fun item => ih _ item) value buf within
  | map key elem ih =>
    intro buf within
    simp only [serialElem, serializeMap]
    split
    · exact within
    · refine serializeCounted_keepsLimit ?_ value.entries buf within
      intro entry buf within
      have first := serializePrime_keepsLimit key entry.1 buf within
      dsimp only
      split
      · exact first
      · exact ih _ entry.2 _ first

/-! ### The exact condition -/

theorem clean_of_readAll {values : List (Typed C)} {before : List UInt8}
    (accepted : ∀ value ∈ values, ∃ buf, (serialElem C value.1 value.1.signature value.2 buf).1 = .success)
    (read : readAll C (values.map Sigma.fst) (cursor before (layoutAll values)) =
      (.success, marks before.length values))
    (elements : ∀ value ∈ values, EachElement value.1 value.2)
    (small : (layoutAll values).length ≤ maxBytesPerBuffer) :
    ∀ value ∈ values, value.1.Clean value.2 := by
  induction values generalizing before with
  | nil => simp
  | cons head tail ih =>
    have split : layoutAll (head :: tail) = head.1.layout head.2 ++ layoutAll tail :=
      flatMap_cons
    have kept := data_deserialElem (C := C) head.1 head.1.signature (cursor before (layoutAll (head :: tail)))
    rw [split, length_append] at small
    rw [map_cons, readAll] at read
    generalize result : deserialElem C head.1 head.1.signature
      (cursor before (layoutAll (head :: tail))) = outcome at read kept
    obtain ⟨ret, first, buf⟩ := outcome
    by_cases failed : ret.failed = true
    · simp [failed, marks] at read
    · have success := (Status.failed_eq_false_iff ret).1 (Bool.not_eq_true _ ▸ failed)
      subst success
      simp only [Status.failed_success, Bool.false_eq_true, if_false, marks, Prod.mk.injEq,
        List.cons.injEq] at read
      obtain ⟨outer, ⟨same, offset⟩, rest⟩ := read
      have value : first = head.2 := eq_of_heq (Sigma.mk.inj_iff.1 same).2
      subst value
      have stands : buf = cursor (before ++ head.1.layout head.2) (layoutAll tail) := by
        apply CBuffer.ext
        · rw [kept, split]
          simp
        · rw [offset]
          simp
      subst stands
      rw [split] at result
      obtain ⟨at_, written⟩ := accepted head mem_cons_self
      have headClean := clean_of_roundTrip head.1 written result (elements head mem_cons_self) (by omega)
      have tailRead : readAll C (tail.map Sigma.fst)
          (cursor (before ++ head.1.layout head.2) (layoutAll tail)) =
          (.success, marks (before ++ head.1.layout head.2).length tail) := by
        rw [length_append]
        exact Prod.ext outer rest
      have tailClean := ih
        (fun value member => accepted value (mem_cons_of_mem _ member)) tailRead
        (fun value member => elements value (mem_cons_of_mem _ member)) (by omega)
      intro value member
      rcases mem_cons.1 member with rfl | later
      · exact headClean
      · exact tailClean value later

/-- A sequence is read back equal and in step exactly when it fits one buffer
and every value is clean. -/
theorem roundTrips_iff (values : List (Typed C)) :
    RoundTrips values ↔
      (layoutAll values).length ≤ maxBytesPerBuffer ∧
        ∀ value ∈ values, value.1.Clean value.2 := by
  have rewound : (cursor (layoutAll values) []).setOffset 0 = cursor [] (layoutAll values) := by
    rw [CBuffer.setOffset_zero_cursor, append_nil]
  constructor
  · intro trips
    have limit := serialElems_keepsLimit
      (fun value : Typed C => serialElem_keepsLimit value.1 value.1.signature value.2)
      values .empty (Nat.zero_le _)
    have written := trips.written
    rw [writeAll] at written
    rw [written] at limit
    have small : (layoutAll values).length ≤ maxBytesPerBuffer := by simpa using limit
    have read := trips.readBack
    rw [rewound] at read
    exact ⟨small, clean_of_readAll (accepted_of_serialElems (congrArg Prod.fst written)) read
      trips.elements small⟩
  · rintro ⟨small, clean⟩
    refine ⟨?_, ?_, ?_⟩
    · exact writeAll_writes clean [] (by simpa using small)
    · rw [rewound]
      exact readAll_cursor clean small []
    · intro value member
      have part := mem_layout_le (fun value : Typed C => value.1.layout value.2) member
      exact eachElement_of_clean value.1 (clean value member) (Nat.le_trans part small)

/-- An interface that carries no objects but the null one. -/
def noObjects : RidlClasses where
  toObjectClasses := .empty
  Struct := PEmpty
  msgId := PEmpty.elim
  fields := PEmpty.elim
  newStruct := fun _ _ => none
  clsid_ne_magic := fun obj => obj.elim
  msgId_lt := fun item => item.elim
  newStruct_serialized := fun item => item.elim

def nullThenWord : List (Typed noObjects) :=
  [⟨.objPtr, none⟩, ⟨.prime (.fixed .uint32), (7 : UInt32)⟩]

/-- The null object leaves the offset at zero, and the word is then read from
the class id of the null object. -/
theorem readAll_nullThenWord :
    (writeAll noObjects nullThenWord .empty).1 = .success ∧
      readAll noObjects (nullThenWord.map Sigma.fst)
          ((writeAll noObjects nullThenWord .empty).2.setOffset 0) =
        (.success, [(⟨.objPtr, none⟩, 0),
          (⟨.prime (.fixed .uint32), (0xFFFFFFFF : UInt32)⟩, 4)]) ∧
      ¬ RoundTrips nullThenWord := by
  refine ⟨rfl, rfl, ?_⟩
  intro trips
  have offsets := congrArg (fun result => result.2.map Prod.snd) trips.readBack
  exact absurd offsets (by decide)

def Storable (values : List (Typed C)) : Prop :=
  (layoutAll values).length ≤ maxBytesPerBuffer ∧ ∀ value ∈ values, value.1.Clean value.2

theorem layoutAll_inj {left right : List (Typed C)} (types : left.map Sigma.fst = right.map Sigma.fst)
    (storable : Storable left) (other : Storable right) {behindLeft behindRight : List UInt8}
    (same : layoutAll left ++ behindLeft = layoutAll right ++ behindRight) :
    left = right ∧ behindLeft = behindRight := by
  obtain ⟨small, clean⟩ := storable
  obtain ⟨smallRight, cleanRight⟩ := other
  induction left generalizing right with
  | nil =>
    cases right with
    | nil => exact ⟨rfl, same⟩
    | cons => cases types
  | cons head tail ih =>
    cases right with
    | nil => cases types
    | cons first rest =>
      obtain ⟨type, value⟩ := head
      obtain ⟨_, item⟩ := first
      obtain ⟨isType, inner⟩ := cons.inj types
      subst isType
      have split (value : type.Val C) (rest : List (Typed C)) : layoutAll (⟨type, value⟩ :: rest) =
          type.layout value ++ layoutAll rest := flatMap_cons
      rw [split, length_append] at small smallRight
      rw [split, split, append_assoc, append_assoc] at same
      have valueClean : type.Clean value := clean _ mem_cons_self
      have itemClean : type.Clean item := cleanRight _ mem_cons_self
      have read := deserialElem_reads type valueClean (by omega) [] (layoutAll tail ++ behindLeft)
      have again := deserialElem_reads type itemClean (by omega) [] (layoutAll rest ++ behindRight)
      rw [same] at read
      obtain rfl : value = item := congrArg (fun result => result.2.1) (read.symm.trans again)
      obtain ⟨rfl, behind⟩ := ih inner (append_cancel_left same) (by omega)
        (fun value member => clean value (mem_cons_of_mem _ member)) (by omega)
        fun value member => cleanRight value (mem_cons_of_mem _ member)
      exact ⟨rfl, behind⟩

end RpcFrmwrk.Ridl
