import RpcFrmwrk.Ridl.JavaSerial

/-! What the methods of the Java serializer read from the bytes of `CSerialBase`. Owns `ReadsBack`,
the statement that a method reads this value exactly where a condition holds; its rules for the
methods that do not recurse, and for the loops. -/

namespace RpcFrmwrk.Ridl.Java

open RpcFrmwrk.Library List

/-- Wherever the bytes stand, the method has the same result and leaves the offset behind them, and
the result is the value just where the condition holds. -/
def ReadsBack {β : Type} (read : List UInt8 → Nat → Option (β × Nat)) (bytes : List UInt8) (value : β)
    (clean : Prop) : Prop :=
  ∃ result : Option β,
    (∀ block offset, BytesAt block offset bytes →
      read block offset = result.map fun found => (found, offset + bytes.length)) ∧
    (result = some value ↔ clean)

namespace ReadsBack

variable {α β γ : Type} {read : List UInt8 → Nat → Option (β × Nat)} {bytes : List UInt8} {value : β} {clean : Prop}

theorem of_reads (reads : ∀ block offset, BytesAt block offset bytes → read block offset = some (value, offset + bytes.length))
    (holds : clean) : ReadsBack read bytes value clean :=
  ⟨some value, reads, iff_of_true rfl holds⟩

theorem of_none (reads : ∀ block offset, BytesAt block offset bytes → read block offset = none)
    (never : ¬clean) : ReadsBack read bytes value clean :=
  ⟨none, reads, iff_of_false (Option.some_ne_none _).symm never⟩

theorem congr {other : List UInt8 → Nat → Option (β × Nat)} (readsBack : ReadsBack read bytes value clean)
    (same : ∀ block offset, BytesAt block offset bytes → other block offset = read block offset) :
    ReadsBack other bytes value clean := by
  obtain ⟨result, reads, exact⟩ := readsBack
  exact ⟨result, fun block offset stands => (same block offset stands).trans (reads block offset stands), exact⟩

theorem imp {other : Prop} (readsBack : ReadsBack read bytes value clean) (same : clean ↔ other) :
    ReadsBack read bytes value other := by
  obtain ⟨result, reads, exact⟩ := readsBack
  exact ⟨result, reads, exact.trans same⟩

theorem map (form : β → γ) (readsBack : ReadsBack read bytes value clean)
    (injective : ∀ left, form left = form value → left = value) :
    ReadsBack (fun block offset => (read block offset).map fun found => (form found.1, found.2)) bytes (form value)
      clean := by
  obtain ⟨result, reads, exact⟩ := readsBack
  refine ⟨result.map form, fun block offset stands => ?_, ?_⟩
  · show (read block offset).map _ = _
    rw [reads block offset stands, Option.map_map, Option.map_map]
    rfl
  · rw [← exact, Option.map_eq_some_iff]
    constructor
    · rintro ⟨found, isResult, same⟩
      rw [isResult, injective found same]
    · exact fun isResult => ⟨value, isResult, rfl⟩

theorem bind {next : List UInt8 → Nat → Option (γ × Nat)} {rest : List UInt8} {second : γ} {cleanSecond : Prop}
    (readsFirst : ReadsBack read bytes value clean) (readsSecond : ReadsBack next rest second cleanSecond) :
    ReadsBack (fun block offset => (read block offset).bind fun first =>
        (next block first.2).map fun second => ((first.1, second.1), second.2))
      (bytes ++ rest) (value, second) (clean ∧ cleanSecond) := by
  obtain ⟨result, reads, exact⟩ := readsFirst
  obtain ⟨found, readsNext, exactNext⟩ := readsSecond
  refine ⟨result.bind fun first => found.map fun second => (first, second), fun block offset stands => ?_, ?_⟩
  · show (read block offset).bind _ = _
    rw [reads block offset stands.left]
    cases result with
    | none => rfl
    | some first =>
      rw [Option.map_some, Option.bind_some, Option.bind_some, readsNext block _ stands.right, Option.map_map,
        Option.map_map, length_append, ← Nat.add_assoc]
      rfl
  · rw [← exact, ← exactNext]
    cases result with
    | none => exact iff_of_false (Option.some_ne_none _).symm fun both => (Option.some_ne_none _).symm both.1
    | some first =>
      rw [Option.bind_some, Option.map_eq_some_iff]
      constructor
      · rintro ⟨last, isLast, same⟩
        rw [isLast, (Prod.mk.inj same).1, (Prod.mk.inj same).2]
        exact ⟨rfl, rfl⟩
      · rintro ⟨isFirst, isSecond⟩
        exact ⟨second, isSecond, by rw [Option.some.inj isFirst]⟩

theorem reads (readsBack : ReadsBack read bytes value clean) (holds : clean) {block : List UInt8} {offset : Nat}
    (stands : BytesAt block offset bytes) : read block offset = some (value, offset + bytes.length) := by
  obtain ⟨result, isRead, exact⟩ := readsBack
  rw [isRead block offset stands, exact.2 holds, Option.map_some]

theorem behind {other : List UInt8 → Nat → Option (β × Nat)} {front : List UInt8}
    (readsBack : ReadsBack read bytes value clean)
    (same : ∀ block offset, BytesAt block offset (front ++ bytes) →
      other block offset = read block (offset + front.length)) :
    ReadsBack other (front ++ bytes) value clean := by
  obtain ⟨result, reads, exact⟩ := readsBack
  refine ⟨result, fun block offset stands => ?_, exact⟩
  rw [same block offset stands, reads block _ stands.right, length_append, Nat.add_assoc]

theorem elems (change : α → β) {elem : List UInt8 → Nat → Option (β × Nat)} {layout : α → List UInt8}
    {cleanElem : α → Prop} {items : List α}
    (readsBack : ∀ item ∈ items, ReadsBack elem (layout item) (change item) (cleanElem item)) :
    ReadsBack (fun block => readElems (elem block) items.length) (items.flatMap layout) (items.map change)
      (∀ item ∈ items, cleanElem item) := by
  induction items with
  | nil => exact of_reads (fun _ _ _ => rfl) (forall_mem_nil _)
  | cons head tail ih =>
    have first := readsBack head mem_cons_self
    have rest := ih fun item member => readsBack item (mem_cons_of_mem _ member)
    have pairs := (first.bind rest).map (fun pair => pair.1 :: pair.2) fun left same =>
      Prod.ext (List.cons.inj same).1 (List.cons.inj same).2
    refine (pairs.congr fun block offset _ => ?_).imp forall_mem_cons.symm
    show readElems (elem block) (tail.length + 1) offset = _
    rw [readElems, Option.map_bind]
    apply congrArg
    funext first
    show _ = Option.map _ (Option.map _ _)
    rw [Option.map_map]
    rfl

end ReadsBack

section

variable {buf : List UInt8} {pos width value : Nat}

theorem getWord_at (stands : BytesAt buf pos (toBE width value)) (small : value < 256 ^ width) :
    getWord width buf pos = some (value, pos + width) := by
  rw [getWord, stands.wordAt small, Option.map_some]

theorem getWord_inside (inside : pos + width ≤ buf.length) : ∃ word, getWord width buf pos = some (word, pos + width) := by
  rw [getWord, wordAt, if_pos inside]
  exact ⟨_, rfl⟩

theorem getBytes_at {bytes : List UInt8} (stands : BytesAt buf pos bytes) :
    getBytes bytes.length buf pos = some (bytes, pos + bytes.length) := by
  rw [getBytes, if_pos stands.length_le, slice, stands.take_drop]

end

variable {C : RidlClasses}

theorem getWord_readsBack {width word : Nat} (small : word < 256 ^ width) :
    ReadsBack (getWord width) (toBE width word) word True := by
  apply ReadsBack.of_reads _ trivial
  intro block offset stands
  rw [getWord_at stands small, length_toBE]

theorem deserialPrim_readsBack {type : Primitive} {word : Nat} (small : word < 256 ^ type.width)
    (bool : type = .bool → word ≤ 1) :
    ReadsBack (deserialPrim (C := C) type) (toBE type.width word) (.prim type word) True := by
  apply ReadsBack.of_reads _ trivial
  intro block offset stands
  rw [deserialPrim, getWord_at stands small, Option.bind_some, length_toBE]
  refine if_neg fun both => ?_
  exact absurd (bool both.1) (Nat.not_le.2 both.2)

def Text (utf8 : List UInt8) : Prop := utf8.length ≤ maxStringSize ∧ validUtf8 utf8 = true

theorem deserialString_readsBack {utf8 : List UInt8} (small : utf8.length < 256 ^ 4) :
    ReadsBack (deserialString (C := C)) (layoutBytes utf8) (.string utf8) (Text utf8) := by
  have size : ∀ block offset, BytesAt block offset (layoutBytes utf8) →
      getWord 4 block offset = some (utf8.length, offset + 4) :=
    fun block offset stands => getWord_at stands.left small
  by_cases empty : utf8.length = 0
  · have nil := eq_nil_of_length_eq_zero empty
    subst nil
    apply ReadsBack.of_reads _ ⟨Nat.zero_le _, by decide⟩
    intro block offset stands
    rw [deserialString, size block offset stands, Option.bind_some]
    exact if_pos rfl
  · by_cases long : maxStringSize < utf8.length
    · apply ReadsBack.of_none _ fun text => absurd text.1 (Nat.not_le.2 long)
      intro block offset stands
      rw [deserialString, size block offset stands, Option.bind_some]
      simp only
      rw [if_neg empty, if_pos long]
    · have bytes : ∀ block offset, BytesAt block offset (layoutBytes utf8) →
          deserialString (C := C) block offset =
            if validUtf8 utf8 then some (.string utf8, offset + 4 + utf8.length) else none := by
        intro block offset stands
        have payload := stands.right
        rw [length_toBE] at payload
        rw [deserialString, size block offset stands, Option.bind_some]
        simp only
        rw [if_neg empty, if_neg long, getBytes_at payload, Option.bind_some]
      by_cases valid : validUtf8 utf8 = true
      · apply ReadsBack.of_reads _ ⟨Nat.not_lt.1 long, valid⟩
        intro block offset stands
        rw [bytes block offset stands, if_pos valid, length_layoutBytes, Nat.add_assoc]
      · apply ReadsBack.of_none _ fun text => valid text.2
        intro block offset stands
        rw [bytes block offset stands, if_neg valid]

theorem deserialBuf_readsBack {value : List UInt8} (small : value.length ≤ maxBytesPerBuffer) :
    ReadsBack (deserialBuf (C := C)) (layoutBytes value) (.buf value) True := by
  have limit : maxBytesPerBuffer < 256 ^ 4 := by decide
  apply ReadsBack.of_reads _ trivial
  intro block offset stands
  have payload := stands.right
  rw [length_toBE] at payload
  rw [deserialBuf, getWord_at stands.left (by omega), Option.bind_some]
  simp only
  by_cases empty : value.length = 0
  · have nil := eq_nil_of_length_eq_zero empty
    subst nil
    exact if_pos rfl
  · rw [if_neg empty, if_neg (by omega), getBytes_at payload, Option.map_some, length_layoutBytes, Nat.add_assoc]

/-- No object, or one whose body takes at most a megabyte. -/
def SmallObj (value : Option C.Obj) : Prop := ∀ obj ∈ value, (C.body obj).length ≤ maxStringSize

theorem deserialObjPtr_readsBack {value : Option C.Obj} (small : (layoutObj value).length ≤ maxBytesPerBuffer) :
    ReadsBack (deserialObjPtr (C := C)) (layoutObj value) (.objPtr value) (SmallObj value) := by
  have limit : maxBytesPerBuffer < 256 ^ 4 := by decide
  cases value with
  | none =>
    apply ReadsBack.of_reads _ fun _ absent => absurd absent.symm (Option.some_ne_none _)
    intro block offset stands
    have clsid := getWord_at stands.left.left (by decide)
    have size := getWord_at stands.left.right (by decide)
    have version := getWord_at stands.right (by decide)
    rw [length_toBE] at size
    rw [length_append, length_toBE, length_toBE] at version
    rw [deserialObjPtr, clsid, Option.bind_some]
    simp only
    rw [size, Option.bind_some]
    simp only
    rw [show offset + 4 + 4 = offset + (4 + 4) from Nat.add_assoc _ _ _, version, Option.bind_some]
    rfl
  | some obj =>
    have length := C.length_serialized obj
    have positive := C.body_pos obj
    rw [layoutObj] at small ⊢
    have header : ∀ block offset, BytesAt block offset (C.serialized obj) →
        deserialObjPtr (C := C) block offset =
          if maxStringSize < (C.body obj).length then none
          else some (.objPtr (some obj), offset + (C.serialized obj).length) := by
      intro block offset stands
      have words : BytesAt block offset (toBE 4 (C.clsid obj) ++ toBE 4 (C.body obj).length) := stands.left.left
      have clsid := getWord_at words.left (C.clsid_lt obj)
      have size := getWord_at words.right (by omega : (C.body obj).length < 256 ^ 4)
      rw [length_toBE] at size
      have inside := stands.length_le
      obtain ⟨info, isInfo⟩ := @getWord_inside block (offset + 4 + 4) 4 (by omega)
      have whole : offset + 4 + 4 + 4 - offset + (C.body obj).length = (C.serialized obj).length := by omega
      have made : C.newObj (C.clsid obj) (C.serialized obj) = some obj := by
        have fresh := C.newObj_serialized obj []
        rw [append_nil] at fresh
        exact fresh
      rw [deserialObjPtr, clsid, Option.bind_some]
      simp only
      rw [size, Option.bind_some]
      simp only
      rw [isInfo, Option.bind_some]
      simp only
      rw [whole, getBytes_at stands, Option.bind_some, made, if_neg (show ¬(C.body obj).length = 0 by omega)]
      rfl
    by_cases large : maxStringSize < (C.body obj).length
    · apply ReadsBack.of_none _ fun few => absurd (few obj rfl) (Nat.not_le.2 large)
      intro block offset stands
      rw [header block offset stands, if_pos large]
    · apply ReadsBack.of_reads
      · intro block offset stands
        rw [header block offset stands, if_neg large]
      · intro other same
        cases same
        exact Nat.not_lt.1 large

theorem deserialStruct_readsBack (item : C.Struct) :
    ReadsBack (deserialStruct (C := C)) (C.serializedStruct item) (.struct item) True := by
  apply ReadsBack.of_reads _ trivial
  intro block offset stands
  have words : BytesAt block offset (toBE 4 serialStructMagic ++ toBE 4 (C.msgId item)) := stands.left
  have magic := getWord_at words.left (by decide)
  have id := getWord_at words.right (C.msgId_lt item)
  rw [length_toBE] at id
  obtain ⟨_, after, rest⟩ := stands
  have made : C.newStruct (C.msgId item) (block.drop offset) = some (item, 8 + (C.fields item).length) := by
    rw [rest]
    exact C.newStruct_serialized item after
  have length : (C.serializedStruct item).length = 8 + (C.fields item).length := by
    rw [RidlClasses.serializedStruct, length_append, length_append, length_toBE, length_toBE]
  rw [deserialStruct, magic, Option.bind_some]
  simp only
  rw [if_neg (not_not.2 rfl), id, Option.bind_some]
  simp only
  rw [made, Option.map_some, length]

/-! ### Arrays -/

section

variable {agree : Nat → Nat → Bool} {buf body : List UInt8} {pos count : Nat}

theorem length_twoWords (first second : Nat) : (toBE 4 first ++ toBE 4 second).length = 8 := by
  rw [length_append, length_toBE, length_toBE]

theorem deserialHeader_at (stands : BytesAt buf pos (toBE 4 body.length ++ toBE 4 count)) (small : body.length ≤ maxBytesPerBuffer)
    (few : count ≤ body.length) :
    deserialHeader agree buf pos = if agree count body.length then some (body.length, count, pos + 8) else none := by
  have limit : maxBytesPerBuffer < 2 ^ 31 := by decide
  have size := getWord_at stands.left (by omega : body.length < 256 ^ 4)
  have number := getWord_at stands.right (by omega : count < 256 ^ 4)
  rw [length_toBE] at number
  rw [deserialHeader, size, Option.bind_some]
  simp only
  rw [number, Option.bind_some]
  simp only
  rw [if_neg (by omega)]
  cases agree count body.length with
  | false => exact if_pos (Or.inl rfl)
  | true =>
    refine if_neg ?_
    rintro (other | many)
    · exact Bool.false_ne_true other
    · omega

theorem length_flatMap_words (width : Nat) (words : List Nat) :
    (words.flatMap (toBE width)).length = words.length * width := by
  rw [length_flatMap]
  simp only [length_toBE, map_const', sum_replicate_nat]

end

section

variable {agree : Nat → Nat → Bool} {type : Primitive} {words : List Nat}

theorem readElems_words {width : Nat} (fits : ∀ word ∈ words, word < 256 ^ width) :
    ReadsBack (fun block => readElems (getWord width block) words.length) (words.flatMap (toBE width)) words True := by
  have elements := ReadsBack.elems (fun word => word) fun word member => getWord_readsBack (fits word member)
  rw [map_id'] at elements
  exact elements.imp (iff_of_true (fun _ _ => trivial) trivial)

theorem few_words (width : Nat) (positive : 0 < width) (words : List Nat) :
    words.length ≤ (words.flatMap (toBE width)).length := by
  rw [length_flatMap_words]
  exact Nat.le_mul_of_pos_right _ positive

theorem deserialWordArr_readsBack (positive : 0 < type.width) (fits : ∀ word ∈ words, word < 256 ^ type.width)
    (small : (words.flatMap (toBE type.width)).length ≤ maxBytesPerBuffer) :
    ReadsBack (deserialWordArr (C := C) agree type) (layoutCounted words.length (words.flatMap (toBE type.width)))
      (.primArr type words) (agree words.length (words.length * type.width) = true) := by
  have head := fun block offset
      (stands : BytesAt block offset (layoutCounted words.length (words.flatMap (toBE type.width)))) =>
    @deserialHeader_at agree block _ offset _ stands.left small (few_words _ positive words)
  rw [length_flatMap_words] at head
  by_cases agrees : agree words.length (words.length * type.width) = true
  · have elements := (readElems_words fits).map (JavaVal.primArr (C := C) type)
      fun left same => (JavaVal.primArr.inj same).2
    refine (elements.imp (iff_of_true trivial agrees)).behind fun block offset stands => ?_
    rw [deserialWordArr, head block offset stands, if_pos agrees, Option.bind_some, length_twoWords]
  · apply ReadsBack.of_none _ agrees
    intro block offset stands
    rw [deserialWordArr, head block offset stands, if_neg agrees, Option.bind_none]

theorem deserialBoolArr_readsBack (fits : ∀ word ∈ words, word ≤ 1)
    (small : (words.flatMap (toBE 1)).length ≤ maxBytesPerBuffer) :
    ReadsBack (deserialBoolArr (C := C)) (layoutCounted words.length (words.flatMap (toBE 1))) (.primArr .bool words)
      True := by
  apply ReadsBack.of_reads _ trivial
  intro block offset stands
  have bits : ∀ word ∈ words, word < 256 ^ 1 := by
    intro word member
    have one := fits word member
    omega
  have elements := (readElems_words bits).reads trivial stands.right
  have same : (words.map fun word => if word = 1 then 1 else 0) = words := by
    have each : ∀ word ∈ words, (if word = 1 then 1 else 0) = word := by
      intro word member
      have one := fits word member
      split
      · omega
      · omega
    rw [map_congr_left each, map_id']
  rw [length_twoWords] at elements
  rw [deserialBoolArr, deserialHeader_at stands.left small (few_words 1 Nat.one_pos words), if_pos rfl,
    Option.bind_some]
  simp only
  rw [elements, Option.map_some, same, length_layoutCounted, Nat.add_assoc]

end

theorem length_of_readElems {β : Type} {elem : Nat → Option (β × Nat)} {count offset next : Nat} {list : List β}
    (isRead : readElems elem count offset = some (list, next)) : list.length = count := by
  induction count generalizing offset list next with
  | zero =>
    rw [← (Prod.mk.inj (Option.some.inj isRead)).1]
    rfl
  | succ count ih =>
    obtain ⟨first, _, rest⟩ := Option.bind_eq_some_iff.1 isRead
    obtain ⟨tail, isTail, same⟩ := Option.map_eq_some_iff.1 rest
    rw [← (Prod.mk.inj same).1, length_cons, ih isTail]

section

variable {α β : Type} {elem : List UInt8 → Nat → Option (β × Nat)} {layout : α → List UInt8} {change : α → β}
  {clean : α → Prop} {items : List α}

theorem deserialCounted_at (small : (items.flatMap layout).length ≤ maxBytesPerBuffer)
    (positive : ∀ item ∈ items, 0 < (layout item).length)
    (readsBack : ∀ item ∈ items, ReadsBack elem (layout item) (change item) (clean item)) {block : List UInt8}
    {offset : Nat} (stands : BytesAt block offset (layoutCounted items.length (items.flatMap layout))) :
    deserialCounted (elem block) block offset = readElems (elem block) items.length (offset + 8) := by
  have few := length_le_flatMap positive
  have body := stands.right
  rw [length_twoWords] at body
  rw [deserialCounted, deserialHeader_at stands.left small few, if_pos (decide_eq_true few), Option.bind_some]
  simp only
  by_cases none : items.length = 0
  · rw [if_pos none, none]
    rfl
  · obtain ⟨result, reads, _⟩ := ReadsBack.elems change readsBack
    have isRead : readElems (elem block) items.length (offset + 8) = _ := reads block _ body
    rw [if_neg none, isRead]
    cases result with
    | none => rfl
    | some list =>
      rw [Option.map_some, Option.bind_some]
      exact if_neg (not_not.2 (Nat.add_sub_cancel_left _ _))

theorem deserialCounted_readsBack (small : (items.flatMap layout).length ≤ maxBytesPerBuffer)
    (positive : ∀ item ∈ items, 0 < (layout item).length)
    (readsBack : ∀ item ∈ items, ReadsBack elem (layout item) (change item) (clean item)) :
    ReadsBack (fun block => deserialCounted (elem block) block)
      (layoutCounted items.length (items.flatMap layout)) (items.map change) (∀ item ∈ items, clean item) := by
  apply (ReadsBack.elems change readsBack).behind
  intro block offset stands
  rw [length_twoWords]
  exact deserialCounted_at small positive readsBack stands

end

section

variable {α : Type} {entry : List UInt8 → Nat → Option ((JavaVal C × JavaVal C) × Nat)} {layout : α → List UInt8}
  {change : α → JavaVal C × JavaVal C} {clean : α → Prop} {items : List α}

theorem mapEntries_readsBack (small : (items.flatMap layout).length ≤ maxBytesPerBuffer)
    (positive : ∀ item ∈ items, 0 < (layout item).length)
    (readsBack : ∀ item ∈ items, ReadsBack entry (layout item) (change item) (clean item))
    (unique : (items.map change).Pairwise fun earlier later => equals earlier.1 later.1 = false) :
    ReadsBack (fun block offset =>
        (deserialCounted (entry block) block offset).map fun found =>
          (JavaVal.map (found.1.foldl mapPut []), found.2))
      (layoutCounted items.length (items.flatMap layout)) (.map (items.map change)) (∀ item ∈ items, clean item) := by
  obtain ⟨result, reads, exact⟩ := deserialCounted_readsBack small positive readsBack
  refine ⟨result.map fun entries => .map (entries.foldl mapPut []), fun block offset stands => ?_, ?_⟩
  · show (deserialCounted _ _ _).map _ = _
    have isRead : deserialCounted (entry block) block offset = _ := reads block offset stands
    rw [isRead, Option.map_map, Option.map_map]
    rfl
  · rw [← exact, Option.map_eq_some_iff]
    constructor
    · rintro ⟨list, isResult, same⟩
      have full : list.foldl mapPut [] = items.map change := JavaVal.map.inj same
      have stands := BytesAt.of_append [] (layoutCounted items.length (items.flatMap layout)) []
      have isRead := reads _ _ stands
      rw [isResult, Option.map_some] at isRead
      beta_reduce at isRead
      rw [deserialCounted_at small positive readsBack stands] at isRead
      have length := length_of_readElems isRead
      have whole : list.foldl mapPut [] = [] ++ list := by
        apply foldl_putEntry_of_length
        show (list.foldl mapPut []).length = _
        rw [full, length_map, length_nil, Nat.zero_add, length]
      rw [isResult, ← full, whole, nil_append]
    · intro isResult
      refine ⟨_, isResult, congrArg JavaVal.map ?_⟩
      exact foldl_putEntry_of_unique unique

end

theorem deserialVariant_behind {iType : UInt8} {val : JavaVal C} {read : List UInt8 → Nat → Option (JavaVal C × Nat)}
    {bytes : List UInt8} {clean : Prop} (readsBack : ReadsBack read bytes val clean)
    (same : ∀ block offset, getWord 1 block offset = some (iType.toNat, offset + 1) →
      BytesAt block (offset + 1) bytes → deserialVariant block offset =
        (read block (offset + 1)).map fun found => (.variant iType found.1, found.2)) :
    ReadsBack (deserialVariant (C := C)) (iType :: bytes) (.variant iType val) clean := by
  have inside := readsBack.map (JavaVal.variant (C := C) iType) fun left same => (JavaVal.variant.inj same).2
  have byte : [iType] = toBE 1 iType.toNat := by
    rw [toBE, toBE]
    simp
  apply @ReadsBack.behind _ _ _ _ _ _ [iType] inside
  intro block offset stands
  have front := stands.left
  rw [byte] at front
  exact same block offset (getWord_at front (UInt8.toNat_lt iType)) stands.right

end RpcFrmwrk.Ridl.Java
