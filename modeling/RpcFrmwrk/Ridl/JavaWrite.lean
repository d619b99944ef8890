import RpcFrmwrk.Ridl.JavaSerial

/-! What the methods of the Java serializer do to the buffer. Owns `Appends`, the statement that a
method writes exactly these bytes wherever there is room; `Covers`, the statement that it writes no
fewer, and these bytes only if a condition holds; `Decides`, both of them, and its rules for the
methods that do not recurse, and for the loops. -/

namespace RpcFrmwrk.Ridl.Java

open RpcFrmwrk.Library List

/-- The bytes stand behind what stood in front of the offset. -/
structure Wrote (pos after : Pos) (bytes : List UInt8) : Prop where
  offset : after.2 = pos.2 + bytes.length
  inside : after.2 ≤ after.1.length
  taken : after.1.take after.2 = pos.1.take pos.2 ++ bytes

/-- At an offset of a buffer with room for them, the method writes the bytes. -/
def Appends (write : Pos → Option Pos) (bytes : List UInt8) : Prop :=
  ∀ pos : Pos, pos.1 ≠ [] → pos.2 ≤ pos.1.length → pos.2 + bytes.length ≤ maxBytesPerBuffer →
    ∃ after, write pos = some after ∧ after.1 ≠ [] ∧ Wrote pos after bytes

def Covers (write : Pos → Option Pos) (bytes : List UInt8) (clean : Prop) : Prop :=
  ∀ pos after : Pos, pos.2 ≤ pos.1.length → write pos = some after →
    ∃ wrote, Wrote pos after wrote ∧ bytes.length ≤ wrote.length ∧ (wrote = bytes → clean)

variable {pos after : Pos} {bytes : List UInt8} {clean : Prop} {write : Pos → Option Pos}
    {fractionBits bits width : Nat}

theorem Wrote.nil (inside : pos.2 ≤ pos.1.length) : Wrote pos pos [] :=
  ⟨rfl, inside, (append_nil _).symm⟩

theorem Wrote.append {middle : Pos} {first second : List UInt8} (front : Wrote pos middle first)
    (back : Wrote middle after second) : Wrote pos after (first ++ second) where
  offset := by rw [back.offset, front.offset, length_append, Nat.add_assoc]
  inside := back.inside
  taken := by rw [back.taken, front.taken, append_assoc]

section

variable {buf grown : List UInt8} {iPos iSize gap : Nat} {bytes : List UInt8}

theorem checkAndResize_some (resized : checkAndResize buf iPos iSize = some grown) :
    ∃ more, grown = buf ++ more ∧ iPos + iSize ≤ grown.length := by
  have grows : ∀ size, iPos + iSize ≤ size → ∃ more, grow buf size = buf ++ more ∧ iPos + iSize ≤ (grow buf size).length := by
    intro size enough
    refine ⟨List.replicate (size - buf.length) 0, rfl, ?_⟩
    rw [grow, length_append, length_replicate]
    omega
  rw [checkAndResize] at resized
  split at resized
  · contradiction
  · split at resized
    · contradiction
    · split at resized
      · split at resized
        · cases resized
          exact grows _ (by omega)
        · cases resized
          exact grows _ (by omega)
      · cases resized
        exact ⟨[], (append_nil buf).symm, by omega⟩

theorem checkAndResize_isSome (some : buf ≠ []) (fits : iPos + iSize ≤ maxBytesPerBuffer) :
    ∃ grown, checkAndResize buf iPos iSize = .some grown := by
  rw [checkAndResize, if_neg some, if_neg (by omega)]
  split
  · split
    · exact ⟨_, rfl⟩
    · exact ⟨_, rfl⟩
  · exact ⟨_, rfl⟩

theorem put_gap {after : Pos} (inside : iPos ≤ buf.length)
    (isPut : put bytes (buf, iPos + gap) = some after) :
    ∃ filler, filler.length = gap ∧ Wrote (buf, iPos) after (filler ++ bytes) := by
  obtain ⟨grown, resized, same⟩ := Option.map_eq_some_iff.1 isPut
  obtain ⟨more, isGrown, enough⟩ := checkAndResize_some resized
  have front : (grown.take (iPos + gap)).length = iPos + gap := by
    rw [length_take]
    omega
  refine ⟨(grown.drop iPos).take gap, ?_, ?_⟩
  · rw [length_take, length_drop]
    omega
  · rw [← same]
    have filled : grown.take (iPos + gap) = buf.take iPos ++ (grown.drop iPos).take gap := by
      rw [take_add, isGrown, take_append_of_le_length inside]
    have length : ((grown.drop iPos).take gap).length = gap := by
      rw [length_take, length_drop]
      omega
    refine ⟨?_, ?_, ?_⟩
    · rw [length_append, length, Nat.add_assoc]
    · rw [length_splice enough]
      exact enough
    · rw [splice, take_append_of_le_length (by rw [length_append, front])]
      rw [take_of_length_le (by rw [length_append, front]), filled, append_assoc]

theorem put_wrote {pos after : Pos} (inside : pos.2 ≤ pos.1.length)
    (isPut : put bytes pos = some after) :
    Wrote pos after bytes := by
  obtain ⟨filler, none, wrote⟩ := @put_gap _ _ 0 _ _ inside isPut
  rw [eq_nil_of_length_eq_zero none] at wrote
  exact wrote

end

theorem put_appends (bytes : List UInt8) : Appends (put bytes) bytes := by
  intro pos some inside fits
  obtain ⟨grown, resized⟩ := checkAndResize_isSome some fits
  have isPut : put bytes pos = .some (splice grown pos.2 bytes, pos.2 + bytes.length) := by
    rw [put, resized, Option.map_some]
  obtain ⟨more, isGrown, enough⟩ := checkAndResize_some resized
  refine ⟨_, isPut, ?_, put_wrote inside isPut⟩
  intro empty
  have length := congrArg List.length empty
  have positive := length_pos_of_ne_nil some
  have atLeast := congrArg List.length isGrown
  rw [length_splice enough, length_nil] at length
  rw [length_append] at atLeast
  omega

theorem put_covers {wrote : List UInt8} (atLeast : bytes.length ≤ wrote.length)
    (cleans : wrote = bytes → clean) : Covers (put wrote) bytes clean :=
  fun _ _ inside isPut => ⟨wrote, put_wrote inside isPut, atLeast, cleans⟩

theorem put_covers_self (bytes : List UInt8) (holds : clean) : Covers (put bytes) bytes clean :=
  put_covers (Nat.le_refl _) fun _ => holds

theorem none_covers (bytes : List UInt8) (clean : Prop) : Covers (fun _ => none) bytes clean :=
  fun _ _ _ wrote => absurd wrote.symm (Option.some_ne_none _)

theorem Covers.imp {weak : Prop}
    (covers : Covers write bytes clean) (weakens : clean → weak) : Covers write bytes weak := by
  intro pos after inside wrote
  obtain ⟨bytes, isWrote, atLeast, cleans⟩ := covers pos after inside wrote
  exact ⟨bytes, isWrote, atLeast, fun same => weakens (cleans same)⟩

section

variable {first second : Pos → Option Pos} {front back : List UInt8}

theorem Appends.bind (appendsFirst : Appends first front) (appendsSecond : Appends second back) :
    Appends (fun pos => (first pos).bind second) (front ++ back) := by
  intro pos some inside fits
  rw [length_append] at fits
  obtain ⟨middle, wroteFirst, someMiddle, isFront⟩ := appendsFirst pos some inside (by omega)
  obtain ⟨after, wroteSecond, someAfter, isBack⟩ := appendsSecond middle someMiddle isFront.inside
    (by rw [isFront.offset]; omega)
  refine ⟨after, ?_, someAfter, isFront.append isBack⟩
  show (first pos).bind second = _
  rw [wroteFirst, Option.bind_some, wroteSecond]

theorem Covers.bind {cleanFirst cleanSecond : Prop} (coversFirst : Covers first front cleanFirst)
    (coversSecond : Covers second back cleanSecond) :
    Covers (fun pos => (first pos).bind second) (front ++ back) (cleanFirst ∧ cleanSecond) := by
  intro pos after inside wrote
  obtain ⟨middle, wroteFirst, wroteSecond⟩ := Option.bind_eq_some_iff.1 wrote
  obtain ⟨bytes, isFront, atLeast, cleans⟩ := coversFirst pos middle inside wroteFirst
  obtain ⟨more, isBack, moreAtLeast, moreCleans⟩ := coversSecond middle after isFront.inside wroteSecond
  refine ⟨bytes ++ more, isFront.append isBack, ?_, fun same => ?_⟩
  · rw [length_append, length_append]
    omega
  · have total := congrArg List.length same
    rw [length_append, length_append] at total
    have parts := append_inj same (by omega)
    exact ⟨cleans parts.1, moreCleans parts.2⟩

end

section

variable {α : Type} {elem : α → Pos → Option Pos} {layout : α → List UInt8} {elems : List α}

theorem serialElems_appends (appends : ∀ item ∈ elems, Appends (elem item) (layout item)) :
    Appends (serialElems elem elems) (elems.flatMap layout) := by
  induction elems with
  | nil => exact fun pos some inside _ => ⟨pos, rfl, some, Wrote.nil inside⟩
  | cons head tail ih =>
    have first := appends head mem_cons_self
    have rest := ih fun item member => appends item (mem_cons_of_mem _ member)
    exact first.bind rest

theorem serialElems_covers {clean : α → Prop}
    (covers : ∀ item ∈ elems, Covers (elem item) (layout item) (clean item)) :
    Covers (serialElems elem elems) (elems.flatMap layout) (∀ item ∈ elems, clean item) := by
  induction elems with
  | nil =>
    intro pos after inside wrote
    cases wrote
    exact ⟨[], Wrote.nil inside, Nat.le_refl _, fun _ _ none => absurd none not_mem_nil⟩
  | cons head tail ih =>
    have first := covers head mem_cons_self
    have rest := ih fun item member => covers item (mem_cons_of_mem _ member)
    exact (first.bind rest).imp forall_mem_cons.2

/-! ### A size in front -/

theorem Wrote.patched {pos body sized : Pos} {count size : Nat} {bytes : List UInt8}
    (wrote : Wrote pos body (toBE 4 0 ++ (toBE 4 count ++ bytes))) (inside : pos.2 ≤ pos.1.length)
    (patches : serialWord 4 size (body.1, pos.2) = some sized) :
    Wrote pos (sized.1, body.2) (toBE 4 size ++ (toBE 4 count ++ bytes)) := by
  obtain ⟨grown, resized, same⟩ := Option.map_eq_some_iff.1 patches
  obtain ⟨more, isGrown, enough⟩ := checkAndResize_some resized
  have front : (pos.1.take pos.2).length = pos.2 := by
    rw [length_take]
    omega
  have whole : grown = pos.1.take pos.2 ++ toBE 4 0 ++ (toBE 4 count ++ bytes ++ body.1.drop body.2 ++ more) := by
    have parts := take_append_drop body.2 body.1
    rw [wrote.taken] at parts
    rw [isGrown]
    exact (congrArg (· ++ more) parts.symm).trans (by simp only [append_assoc])
  have spliced : sized.1 =
      pos.1.take pos.2 ++ (toBE 4 size ++ (toBE 4 count ++ bytes)) ++ (body.1.drop body.2 ++ more) := by
    have exchanged := splice_append (pos.1.take pos.2) (toBE 4 count ++ bytes ++ body.1.drop body.2 ++ more)
      (show (toBE 4 0).length = (toBE 4 size).length by rw [length_toBE, length_toBE])
    rw [front, ← whole] at exchanged
    rw [← same]
    exact exchanged.trans (by simp only [append_assoc])
  have offset := wrote.offset
  rw [length_append, length_append, length_toBE, length_toBE] at offset
  have taken : sized.1.take body.2 = pos.1.take pos.2 ++ (toBE 4 size ++ (toBE 4 count ++ bytes)) := by
    rw [spliced, take_left']
    rw [length_append, length_append, length_append, front, length_toBE, length_toBE]
    exact offset.symm
  refine ⟨?_, ?_, taken⟩
  · rw [length_append, length_append, length_toBE, length_toBE]
    exact offset
  · have length := congrArg List.length taken
    rw [length_take, length_append, length_append, length_append, front, length_toBE, length_toBE] at length
    show body.2 ≤ sized.1.length
    omega

theorem serialWord_appends (width word : Nat) : Appends (serialWord width word)
    (toBE width word) := put_appends _

theorem serialCounted_appends (appends : ∀ item ∈ elems, Appends (elem item) (layout item))
    (positive : ∀ item ∈ elems, 0 < (layout item).length) :
    Appends (serialCounted elem elems) (layoutCounted elems.length (elems.flatMap layout)) := by
  intro pos some inside fits
  have header := (serialWord_appends 4 0).bind (serialWord_appends 4 elems.length)
  have atLeast := length_le_flatMap positive
  rw [length_layoutCounted] at fits
  obtain ⟨front, wroteFront, someFront, isFront⟩ := header pos some inside
    (by rw [length_append, length_toBE, length_toBE]; omega)
  obtain ⟨word, wroteWord, wroteCount⟩ := Option.bind_eq_some_iff.1 wroteFront
  rw [serialCounted, wroteWord, Option.bind_some, wroteCount, Option.bind_some]
  by_cases none : elems.length = 0
  · rw [if_pos none]
    refine ⟨front, rfl, someFront, ?_⟩
    rw [eq_nil_of_length_eq_zero none] at isFront ⊢
    rw [flatMap_nil, layoutCounted, append_nil]
    exact isFront
  · have offset := isFront.offset
    rw [length_append, length_toBE, length_toBE] at offset
    obtain ⟨body, wroteBody, someBody, isBody⟩ := serialElems_appends appends front someFront isFront.inside
      (by omega)
    have isWhole := isFront.append isBody
    rw [append_assoc] at isWhole
    have bodyEnd := isBody.offset
    have size : body.2 - pos.2 - 8 = (elems.flatMap layout).length := by omega
    have room : (body.1, pos.2).2 + (toBE 4 (body.2 - pos.2 - 8)).length ≤ maxBytesPerBuffer := by
      rw [length_toBE]
      show pos.2 + 4 ≤ _
      omega
    have within : (body.1, pos.2).2 ≤ (body.1, pos.2).1.length := by
      have whole := isBody.inside
      show pos.2 ≤ body.1.length
      omega
    obtain ⟨sized, wroteSize, someSized, _⟩ :=
      serialWord_appends 4 (body.2 - pos.2 - 8) (body.1, pos.2) someBody within room
    have isSized := isWhole.patched inside wroteSize
    rw [if_neg none, wroteBody, Option.bind_some, if_neg (by omega), wroteSize, Option.map_some]
    refine ⟨(sized.1, body.2), rfl, someSized, ?_⟩
    rw [size] at isSized
    rw [layoutCounted, append_assoc]
    exact isSized

theorem serialWord_covers (width word : Nat) : Covers (serialWord width word) (toBE width word) True :=
  put_covers_self _ trivial

theorem serialCounted_covers {clean : α → Prop}
    (covers : ∀ item ∈ elems, Covers (elem item) (layout item) (clean item)) :
    Covers (serialCounted elem elems) (layoutCounted elems.length (elems.flatMap layout))
      (∀ item ∈ elems, clean item) := by
  intro pos after inside wrote
  rw [serialCounted] at wrote
  obtain ⟨word, wroteWord, wroteRest⟩ := Option.bind_eq_some_iff.1 wrote
  obtain ⟨front, wroteCount, wroteBody⟩ := Option.bind_eq_some_iff.1 wroteRest
  have isFront := (put_wrote inside wroteWord).append (put_wrote (put_wrote inside wroteWord).inside wroteCount)
  by_cases none : elems.length = 0
  · rw [if_pos none] at wroteBody
    have empty := eq_nil_of_length_eq_zero none
    subst empty
    cases wroteBody
    refine ⟨_, isFront, ?_, fun _ item member => absurd member not_mem_nil⟩
    rw [flatMap_nil, layoutCounted, append_nil]
    exact Nat.le_refl _
  · rw [if_neg none] at wroteBody
    obtain ⟨body, wroteElems, wroteSize⟩ := Option.bind_eq_some_iff.1 wroteBody
    obtain ⟨bytes, isBody, atLeast, cleans⟩ := serialElems_covers covers front body isFront.inside wroteElems
    split at wroteSize
    · contradiction
    · obtain ⟨sized, patches, same⟩ := Option.map_eq_some_iff.1 wroteSize
      have isWhole := isFront.append isBody
      rw [append_assoc] at isWhole
      have isSized := isWhole.patched inside patches
      rw [same] at isSized
      refine ⟨_, isSized, ?_, fun whole => ?_⟩
      · rw [length_layoutCounted, length_append, length_append, length_toBE, length_toBE]
        omega
      · rw [layoutCounted, append_assoc] at whole
        have rest := (append_inj whole (by rw [length_toBE, length_toBE])).2
        exact cleans (append_inj rest rfl).2

end

/-- A string of characters that take one to three bytes, and no null. -/
def Plain (utf8 : List UInt8) : Prop := ∀ byte ∈ utf8, byte ≠ 0 ∧ byte.toNat < 0xF0

theorem modifiedUtf8_covers (utf8 : List UInt8) :
    utf8.length ≤ (modifiedUtf8 utf8).length ∧ (modifiedUtf8 utf8 = utf8 ↔ Plain utf8) := by
  fun_induction modifiedUtf8 utf8 with
  | case1 => exact ⟨Nat.le_refl _, iff_of_true rfl (forall_mem_nil _)⟩
  | case2 rest ih =>
    constructor
    · rw [length_cons, length_cons, length_cons]
      have atLeast := ih.1
      omega
    · refine iff_of_false (fun same => ?_) fun plain => (plain 0 mem_cons_self).1 rfl
      exact absurd (List.cons.inj same).1 (by decide)
  | case3 first notNull long second third fourth rest point high low ih =>
    have atLeast := ih.1
    have longer : (second :: third :: fourth :: rest).length + 1 < (0xED :: UInt8.ofNat (0xA0 + high / 64) ::
        UInt8.ofNat (0x80 + high % 64) :: 0xED :: UInt8.ofNat (0xB0 + low / 64) ::
          UInt8.ofNat (0x80 + low % 64) :: modifiedUtf8 rest).length := by
      simp only [length_cons]
      omega
    refine ⟨Nat.le_of_lt longer, iff_of_false (fun same => ?_) fun plain => ?_⟩
    · rw [same] at longer
      exact absurd longer (Nat.lt_irrefl _)
    · exact absurd (plain first mem_cons_self).2 (Nat.not_lt.2 long)
  | case4 first notNull long broken _ ih =>
    have atLeast := ih.1
    have longer : broken.length + 1 < (0xEF :: 0xBF :: 0xBD :: modifiedUtf8 broken).length := by
      simp only [length_cons]
      omega
    refine ⟨Nat.le_of_lt longer, iff_of_false (fun same => ?_) fun plain => ?_⟩
    · rw [same] at longer
      exact absurd longer (Nat.lt_irrefl _)
    · exact absurd (plain first mem_cons_self).2 (Nat.not_lt.2 long)
  | case5 first rest notNull short ih =>
    refine ⟨Nat.succ_le_succ ih.1, ?_⟩
    rw [Plain, forall_mem_cons, cons_eq_cons, ih.2]
    exact and_congr_left fun _ => iff_of_true rfl ⟨notNull, Nat.not_le.1 short⟩

theorem serialString_appends {utf8 : List UInt8} (plain : Plain utf8) :
    Appends (serialString utf8) (layoutBytes utf8) := by
  have wrote := put_appends (toBE 4 (modifiedUtf8 utf8).length ++ modifiedUtf8 utf8)
  rw [(modifiedUtf8_covers utf8).2.2 plain] at wrote
  intro pos
  rw [serialString, (modifiedUtf8_covers utf8).2.2 plain]
  exact wrote pos

theorem serialString_covers (utf8 : List UInt8) : Covers (serialString utf8) (layoutBytes utf8)
    (Plain utf8) := by
  have covers := modifiedUtf8_covers utf8
  apply put_covers
  · rw [length_layoutBytes, length_append, length_toBE]
    exact Nat.add_le_add_left covers.1 4
  · intro same
    have rest := (append_inj same (by rw [length_toBE, length_toBE])).2
    exact covers.2.1 rest

theorem layoutCounted_words (width : Nat) (words : List Nat) :
    layoutCounted words.length (words.flatMap (toBE width)) =
      arrHeader width words.length ++ words.flatMap (toBE width) := by
  have length : (words.flatMap (toBE width)).length = words.length * width := by
    induction words with
    | nil => exact (Nat.zero_mul _).symm
    | cons head tail ih =>
      rw [flatMap_cons, length_append, length_toBE, ih, length_cons, Nat.succ_mul, Nat.add_comm]
  rw [layoutCounted, arrHeader, length]

theorem serialWordArr_appends (width : Nat) (words : List Nat) :
    Appends (serialWordArr width words) (layoutCounted words.length (words.flatMap (toBE width))) := by
  rw [layoutCounted_words]
  exact put_appends _

theorem serialWordArr_covers (width : Nat) (words : List Nat) :
    Covers (serialWordArr width words) (layoutCounted words.length (words.flatMap (toBE width))) True := by
  rw [layoutCounted_words]
  exact put_covers_self _ trivial

theorem serialBoolArr_covers (words : List Nat) :
    Covers (serialBoolArr words) (layoutCounted words.length (words.flatMap (toBE 1))) False := by
  intro pos after inside wrote
  obtain ⟨front, wroteCount, wroteRest⟩ := Option.bind_eq_some_iff.1 wrote
  obtain ⟨middle, wroteAgain, wroteElems⟩ := Option.bind_eq_some_iff.1 wroteRest
  have isFront := put_wrote inside wroteCount
  obtain ⟨filler, length, isMiddle⟩ := put_gap isFront.inside wroteAgain
  have bools : ∀ word ∈ words,
      Covers (serialWord 1 (if word = 0 then 0 else 1)) (toBE 1 (if word = 0 then 0 else 1)) True :=
    fun word _ => serialWord_covers 1 _
  obtain ⟨bytes, isBody, atLeast, _⟩ := serialElems_covers bools middle after isMiddle.inside wroteElems
  have same : (words.flatMap fun word => toBE 1 (if word = 0 then 0 else 1)).length =
      (words.flatMap (toBE 1)).length := by
    rw [length_flatMap, length_flatMap]
    simp only [length_toBE]
  have longer : (layoutCounted words.length (words.flatMap (toBE 1))).length <
      (toBE 4 words.length ++ (filler ++ toBE 4 words.length ++ bytes)).length := by
    rw [length_layoutCounted, length_append, length_append, length_append, length_toBE, length, ← same]
    omega
  have isWhole := isFront.append (isMiddle.append isBody)
  refine ⟨_, isWhole, Nat.le_of_lt longer, fun same => ?_⟩
  rw [same] at longer
  exact Nat.lt_irrefl _ longer

/-! ### Arrays of floating point numbers -/

theorem value_ne_bits {half power fraction : Nat} (exponents : 2 ≤ half)
    (unlike : (2 ^ fractionBits + fraction) * 2 ^ half ≠
      (2 ^ half - 1 + (half + fractionBits)) * 2 ^ fractionBits + fraction)
    (inside : fraction < 2 ^ fractionBits)
    (small : (2 ^ half - 1 + power) * 2 ^ fractionBits + fraction < 2 ^ (half + fractionBits + 1)) :
    (2 ^ fractionBits + fraction) * 2 ^ power / 2 ^ fractionBits ≠
      (2 ^ half - 1 + power) * 2 ^ fractionBits + fraction := by
  have unit := Nat.two_pow_pos fractionBits
  have bias : 4 ≤ 2 ^ half := Nat.pow_le_pow_right (n := 2) (by decide) exponents
  have low : 2 ^ power ≤ (2 ^ fractionBits + fraction) * 2 ^ power / 2 ^ fractionBits := by
    rw [Nat.le_div_iff_mul_le unit, Nat.mul_comm]
    exact Nat.mul_le_mul_right _ (Nat.le_add_right _ _)
  have high : (2 ^ fractionBits + fraction) * 2 ^ power / 2 ^ fractionBits < 2 ^ (power + 1) := by
    rw [Nat.div_lt_iff_lt_mul unit, Nat.pow_succ, Nat.mul_assoc, Nat.mul_comm (2 ^ power)]
    exact Nat.mul_lt_mul_of_pos_right (by omega) (Nat.two_pow_pos power)
  intro same
  rcases Nat.lt_trichotomy power (half + fractionBits) with below | equal | above
  · rcases Nat.eq_zero_or_pos power with zero | positive
    · have least : 3 * 1 ≤ (2 ^ half - 1 + power) * 2 ^ fractionBits := Nat.mul_le_mul (by omega) unit
      rw [zero] at high least same
      omega
    · have most : 2 ^ (power + 1) ≤ 2 ^ half * 2 ^ fractionBits := by
        rw [← Nat.pow_add]
        exact Nat.pow_le_pow_right (by decide) below
      have least : 2 ^ half * 2 ^ fractionBits ≤ (2 ^ half - 1 + power) * 2 ^ fractionBits :=
        Nat.mul_le_mul_right _ (by omega)
      omega
  · rw [equal] at same
    rw [Nat.pow_add, ← Nat.mul_assoc, Nat.mul_div_cancel _ unit] at same
    exact unlike same
  · have most : 2 ^ (half + fractionBits + 1) ≤ 2 ^ power := Nat.pow_le_pow_right (by decide) above
    omega

theorem eq_zero_of_truncate {half fractionBits width bits : Nat} (exponents : 2 ≤ half)
    (unlike : ∀ fraction, (2 ^ fractionBits + fraction) * 2 ^ half ≠
      (2 ^ half - 1 + (half + fractionBits)) * 2 ^ fractionBits + fraction)
    (small : bits < 2 ^ (half + 1 + fractionBits + 1))
    (same : truncate (half + 1) fractionBits width bits = some bits) : bits = 0 := by
  rw [truncate] at same
  simp only [Nat.add_sub_cancel] at same
  split at same
  · exact (Option.some.inj same).symm
  · next large =>
    split at same
    · contradiction
    · next number =>
      split at same
      · contradiction
      · have value := Option.some.inj same
        -- the sign is not set, so the exponent and the fraction are all of the word
        have unsigned : bits < 2 ^ (half + 1 + fractionBits) := by
          have below : bits / 2 ^ (half + 1 + fractionBits) < 2 := by
            rw [Nat.div_lt_iff_lt_mul (Nat.two_pow_pos _), Nat.mul_comm, ← Nat.pow_succ]
            exact small
          rcases Nat.eq_zero_or_pos (bits / 2 ^ (half + 1 + fractionBits)) with zero | positive
          · exact (Nat.div_eq_zero_iff_lt (Nat.two_pow_pos _)).1 zero
          · exact absurd (by omega) (not_or.1 number).1
        have exponent : bits / 2 ^ fractionBits % 2 ^ (half + 1) = bits / 2 ^ fractionBits := by
          apply Nat.mod_eq_of_lt
          rw [Nat.div_lt_iff_lt_mul (Nat.two_pow_pos _), ← Nat.pow_add]
          exact unsigned
        rw [exponent] at value large
        obtain ⟨power, isPower⟩ := Nat.exists_eq_add_of_le (Nat.not_lt.1 large)
        have whole : bits = (2 ^ half - 1 + power) * 2 ^ fractionBits + bits % 2 ^ fractionBits := by
          rw [← isPower, Nat.mul_comm]
          exact (Nat.div_add_mod bits (2 ^ fractionBits)).symm
        have inside := Nat.mod_lt bits (Nat.two_pow_pos fractionBits)
        rw [isPower, Nat.add_sub_cancel_left] at value
        refine absurd (value.trans whole) (value_ne_bits exponents (unlike _) inside ?_)
        rw [← whole, Nat.add_right_comm]
        exact unsigned

theorem float_eq_zero (small : bits < 2 ^ 32) (same : truncate 8 23 32 bits = some bits) : bits = 0 :=
  @eq_zero_of_truncate 7 23 32 bits (by decide) (by intro fraction; omega) small same

theorem double_eq_zero (small : bits < 2 ^ 64) (same : truncate 11 52 64 bits = some bits) : bits = 0 :=
  @eq_zero_of_truncate 10 52 64 bits (by decide) (by intro fraction; omega) small same

theorem lt_of_truncate {exponentBits value : Nat}
    (converted : truncate exponentBits fractionBits width bits = some value) : value < 2 ^ width := by
  rw [truncate] at converted
  simp only at converted
  split at converted
  · cases converted
    exact Nat.two_pow_pos width
  · split at converted
    · contradiction
    · split at converted
      · contradiction
      · next small =>
          cases converted
          exact Nat.not_le.1 small

theorem toBE_inj {left right : Nat} (leftSmall : left < 256 ^ width)
    (rightSmall : right < 256 ^ width)
    (same : toBE width left = toBE width right) : left = right := by
  rw [← ofBE_toBE_of_lt leftSmall, same, ofBE_toBE_of_lt rightSmall]

section

variable {convert : Nat → Option Nat} {width : Nat} {words : List Nat}

theorem serialRealArr_appends (zero : convert 0 = some 0) (zeros : ∀ word ∈ words, word = 0) :
    Appends (serialRealArr convert width words) (layoutCounted words.length (words.flatMap (toBE width))) := by
  have converted : collect convert words = some words := by
    have each := (@collect_eq_map_iff Nat Nat convert words (fun word => word)).2
    rw [map_id'] at each
    apply each
    intro word member
    rw [zeros word member, zero]
  intro pos
  rw [serialRealArr, converted]
  exact serialWordArr_appends width words pos

theorem words_of_flatMap {converted : List Nat} {clean : Nat → Prop}
    (isConverted : collect convert words = some converted)
    (cleans : ∀ word ∈ words, ∀ value, convert word = some value → toBE width value = toBE width word → clean word)
    (same : converted.flatMap (toBE width) = words.flatMap (toBE width)) : ∀ word ∈ words, clean word := by
  induction words generalizing converted with
  | nil => exact forall_mem_nil _
  | cons head tail ih =>
    obtain ⟨first, isFirst, isRest⟩ := Option.bind_eq_some_iff.1 isConverted
    obtain ⟨rest, isTail, whole⟩ := Option.map_eq_some_iff.1 isRest
    rw [← whole, flatMap_cons, flatMap_cons] at same
    have parts := append_inj same (by rw [length_toBE, length_toBE])
    rw [forall_mem_cons]
    refine ⟨cleans head mem_cons_self first isFirst parts.1, ih isTail ?_ parts.2⟩
    exact fun word member => cleans word (mem_cons_of_mem _ member)

theorem serialRealArr_covers {clean : Nat → Prop}
    (cleans : ∀ word ∈ words, ∀ value, convert word = some value → toBE width value = toBE width word → clean word) :
    Covers (serialRealArr convert width words) (layoutCounted words.length (words.flatMap (toBE width)))
      (∀ word ∈ words, clean word) := by
  intro pos after inside wrote
  obtain ⟨converted, isConverted, isPut⟩ := Option.bind_eq_some_iff.1 wrote
  have length := length_of_collect isConverted
  refine ⟨_, put_wrote inside isPut, ?_, fun same => ?_⟩
  · rw [← layoutCounted_words, length_layoutCounted, length_layoutCounted, length_flatMap, length_flatMap]
    simp only [length_toBE, map_const', length, Nat.le_refl]
  · rw [layoutCounted_words, length] at same
    exact words_of_flatMap isConverted cleans (append_inj same rfl).2

end

/-- Both statements about a method that writes. -/
def Decides (write : Pos → Option Pos) (bytes : List UInt8) (clean : Prop) : Prop :=
  (clean → Appends write bytes) ∧ Covers write bytes clean

section

variable {first second : Pos → Option Pos} {front back : List UInt8}

theorem Decides.bind {cleanFirst cleanSecond : Prop} (decidesFirst : Decides first front cleanFirst)
    (decidesSecond : Decides second back cleanSecond) :
    Decides (fun pos => (first pos).bind second) (front ++ back) (cleanFirst ∧ cleanSecond) :=
  ⟨fun clean => (decidesFirst.1 clean.1).bind (decidesSecond.1 clean.2), decidesFirst.2.bind decidesSecond.2⟩

theorem put_decides (bytes : List UInt8) {clean : Prop} (holds : clean) : Decides (put bytes) bytes clean :=
  ⟨fun _ => put_appends bytes, put_covers_self bytes holds⟩

theorem some_decides : Decides some [] True := by
  refine ⟨fun _ pos some inside _ => ⟨pos, rfl, some, Wrote.nil inside⟩, fun pos after inside wrote => ?_⟩
  cases wrote
  exact ⟨[], Wrote.nil inside, Nat.le_refl _, fun _ => trivial⟩

theorem none_decides (bytes : List UInt8) {clean : Prop} (never : ¬clean) : Decides
    (fun _ => none) bytes clean :=
  ⟨fun clean => absurd clean never, none_covers bytes clean⟩

end

variable {C : RidlClasses}

theorem serialPrim_decides (type : Primitive) (word : Nat) :
    Decides (serialPrim type (.prim type word : JavaVal C)) (toBE type.width word) True := by
  have same : serialPrim type (.prim type word : JavaVal C) = put (toBE type.width word) := by
    funext pos
    rw [serialPrim, if_pos rfl, serialWord]
  rw [same]
  exact put_decides _ trivial

theorem serialString_decides (utf8 : List UInt8) :
    Decides (serialString utf8) (layoutBytes utf8) (Plain utf8) :=
  ⟨serialString_appends, serialString_covers utf8⟩

theorem serialObjPtr_decides (value : Option C.Obj) :
    Decides (serialObjPtr value) (layoutObj value) (value ≠ none) := by
  cases value with
  | none => exact none_decides _ fun some => some rfl
  | some obj => exact put_decides _ (Option.some_ne_none obj)

theorem Wrote.cut (wrote : Wrote pos after bytes) : Wrote pos (after.1.take after.2, after.2) bytes where
  offset := wrote.offset
  inside := by
    show after.2 ≤ (after.1.take after.2).length
    rw [length_take_of_le wrote.inside]
  taken := by
    show (after.1.take after.2).take after.2 = _
    rw [take_take, Nat.min_self, wrote.taken]

theorem serialStruct_decides (item : C.Struct) :
    Decides (serialStruct (.struct item : JavaVal C)) (C.serializedStruct item) True := by
  constructor
  · intro _ pos some inside fits
    obtain ⟨after, isPut, _, wrote⟩ := put_appends (C.serializedStruct item) pos some inside fits
    refine ⟨(after.1.take after.2, after.2), ?_, ?_, wrote.cut⟩
    · rw [serialStruct, isPut, Option.map_some]
    · apply ne_nil_of_length_pos
      have positive := FieldType.layout_pos (C := C) .struct item
      have offset := wrote.offset
      show 0 < (after.1.take after.2).length
      rw [length_take_of_le wrote.inside, offset]
      exact Nat.lt_of_lt_of_le positive (Nat.le_add_left _ _)
  · intro pos after inside wrote
    obtain ⟨middle, isPut, same⟩ := Option.map_eq_some_iff.1 wrote
    rw [← same]
    exact ⟨_, (put_wrote inside isPut).cut, Nat.le_refl _, fun _ => trivial⟩

theorem byte_layout (byte : UInt8) : toBE 1 byte.toNat = [byte] := by
  rw [toBE, toBE]
  simp

theorem serialVariant_behind {iType : UInt8} {val : JavaVal C} {payload : Pos → Option Pos}
    (writes : ∀ pos, serialVariant (.variant iType val) pos = (serialWord 1 iType.toNat pos).bind payload)
    (decides : Decides payload bytes clean) :
    Decides (serialVariant (.variant iType val)) (iType :: bytes) clean := by
  have typeId : Decides (put (toBE 1 iType.toNat)) [iType] True := by
    rw [byte_layout]
    exact put_decides _ trivial
  have both := typeId.bind decides
  have same : serialVariant (.variant iType val) = fun pos => (put (toBE 1 iType.toNat) pos).bind payload :=
    funext writes
  rw [same]
  exact ⟨fun clean => both.1 ⟨trivial, clean⟩, both.2.imp And.right⟩

theorem Decides.congr {other : Pos → Option Pos}
    (decides : Decides write bytes clean)
    (same : ∀ pos, other pos = write pos) : Decides other bytes clean := by
  rw [funext same]
  exact decides

theorem serialCounted_decides {α β : Type} {elem : β → Pos → Option Pos} {change : α → β} {layout : α → List UInt8}
    {clean : α → Prop} {elems : List α}
    (decides : ∀ item ∈ elems, Decides (elem (change item)) (layout item) (clean item))
    (positive : ∀ item ∈ elems, 0 < (layout item).length) :
    Decides (serialCounted elem (elems.map change)) (layoutCounted elems.length (elems.flatMap layout))
      (∀ item ∈ elems, clean item) := by
  have same : ∀ pos, serialElems elem (elems.map change) pos = serialElems (fun item => elem (change item)) elems pos := by
    induction elems with
    | nil => exact fun _ => rfl
    | cons head tail ih =>
      intro pos
      have rest := ih (fun item member => decides item (mem_cons_of_mem _ member))
        fun item member => positive item (mem_cons_of_mem _ member)
      rw [map_cons, serialElems, serialElems]
      exact congrArg _ (funext rest)
  have counted : Decides (serialCounted (fun item => elem (change item)) elems)
      (layoutCounted elems.length (elems.flatMap layout)) (∀ item ∈ elems, clean item) :=
    ⟨fun clean => serialCounted_appends (fun item member => (decides item member).1 (clean item member)) positive,
      serialCounted_covers fun item member => (decides item member).2⟩
  apply counted.congr
  intro pos
  rw [serialCounted, serialCounted, length_map]
  simp only [same]

end RpcFrmwrk.Ridl.Java
