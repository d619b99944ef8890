import RpcFrmwrk.Ridl.RawDecode
import RpcFrmwrk.Ridl.Sequence

/-! Which windows the decoders read soundly. The input and the decoders are told apart. An `Outline`
says how far the value at an offset reaches and how many bytes it occupies, and `Clean` says of the
bytes alone that no value is there over which the decoders stumble. Owns the outlines and the clean
values of each type; `sound_iff_clean`. -/

namespace RpcFrmwrk.Ridl

open RpcFrmwrk.Library Monitored List

variable (memory : Nat → UInt8) (limit : Nat)

/-! ### Outlines -/

/-- The offset behind the value that begins at an offset, and the bytes that it occupies; none where an error
is reported. -/
abbrev Outline := Nat → Option (Nat × Nat)

abbrev wordAt (off : Nat) : Nat := wordFrom memory off 4

def fixedOutline (width : Nat) : Outline := fun off =>
  if off + width ≤ limit then some (off + width, width) else none

def stringOutline : Outline := fun off =>
  if off + 4 ≤ limit then
    some (off + 4 + min (wordAt memory off) (limit - (off + 4)), 4 + min (wordAt memory off) (limit - (off + 4)))
  else none

def primeOutline : PrimeType → Outline
  | .fixed type => fixedOutline limit type.width
  | .string => stringOutline memory limit

def bufOutline : Outline := fun off =>
  if off + 4 ≤ limit ∧ wordAt memory off ≤ maxBytesPerBuffer then
    some (off + 4 + wordAt memory off, 4 + wordAt memory off)
  else none

variable (C : RidlClasses) (R : ClassReads)

/-- There is a header of an object in the window, and as many bytes as it says. -/
def ObjFits (off : Nat) : Prop := off + 12 ≤ limit ∧ wordAt memory (off + 4) ≤ limit - off - 12

instance (off : Nat) : Decidable (ObjFits memory limit off) := inferInstanceAs (Decidable (_ ∧ _))

def objOutline : Outline := fun off =>
  if ObjFits memory limit off then
    if wordAt memory (off + 4) = 0 then some (off, 12)
    else if (C.newObj (wordAt memory off) (windowOf limit off memory)).isSome then
      some (off + (wordAt memory (off + 4) + 12), 12 + wordAt memory (off + 4))
    else none
  else none

def variantObjOutline : Outline := fun off =>
  if wordAt memory off = serialStructMagic then
    ((C.newStruct (wordAt memory (off + 4)) (windowOf limit off memory)).map Prod.snd).map fun count =>
      (stepped limit off count, count)
  else objOutline memory limit C off

def variantValueOutline (typeId : UInt8) : Outline := fun off =>
  match typeId with
  | 0 => some (off, 0)
  | 1 => fixedOutline limit 1 off
  | 2 => fixedOutline limit 2 off
  | 3 => fixedOutline limit 4 off
  | 4 => fixedOutline limit 8 off
  | 5 => fixedOutline limit 4 off
  | 6 => fixedOutline limit 8 off
  | 7 => stringOutline memory limit off
  | 9 => variantObjOutline memory limit C off
  | 10 => bufOutline memory limit off
  | _ => none

def variantOutline : Outline := fun off =>
  if off < limit then
    (variantValueOutline memory limit C (memory off) (off + 1)).map fun value =>
    (value.1, 1 + value.2)
  else none

def elemsOutline (elem : Outline) : Nat → Outline
  | 0, off => some (off, 0)
  | count + 1, off =>
    (elem off).bind fun head =>
      (elemsOutline elem count head.1).map fun tail => (tail.1, head.2 + tail.2)

/-- There are the two counts of a container in the window, and the first one is not too large. -/
def CountsFit (off : Nat) : Prop := off + 8 ≤ limit ∧ wordAt memory off ≤ maxBytesPerBuffer

instance (off : Nat) : Decidable (CountsFit memory limit off) := inferInstanceAs (Decidable (_ ∧ _))

def arrayOutline (elem : Outline) : Outline := fun off =>
  if CountsFit memory limit off then
    if wordAt memory off = 0 ∨ wordAt memory (off + 4) = 0 then some (off + 8, 8 + wordAt memory off)
    else (elemsOutline elem (wordAt memory (off + 4)) (off + 8)).map fun last => (last.1, 8 + wordAt memory off)
  else none

def entryOutline (key elem : Outline) : Outline := fun off =>
  (key off).bind fun first => (elem first.1).map fun second => (second.1, first.2 + second.2)

def mapOutline (entry : Outline) : Outline := fun off =>
  if CountsFit memory limit off then
    if wordAt memory (off + 4) = 0 then some (off + 8, 8 + wordAt memory off)
    else if maxElemCount ≤ wordAt memory (off + 4) then none
    else
      ((elemsOutline entry (wordAt memory (off + 4)) (off + 8)).filter fun last =>
        last.1 - (off + 8) = wordAt memory off).map fun last => (last.1, 8 + wordAt memory off)
  else none

def outline : RidlType → Outline
  | .prime type => primeOutline memory limit type
  | .byteArray => bufOutline memory limit
  | .objPtr => objOutline memory limit C
  | .variant => variantOutline memory limit C
  | .array elem => arrayOutline memory limit (outline elem)
  | .map key elem => mapOutline memory limit (entryOutline (primeOutline memory limit key) (outline elem))

/-- A byte array that is short enough for a buffer does not reach behind the window. -/
def BufClean (off : Nat) : Prop :=
  off + 4 ≤ limit → wordAt memory off ≤ maxBytesPerBuffer → off + 4 + wordAt memory off ≤ limit

def ObjClean (off : Nat) : Prop :=
  ObjFits memory limit off → wordAt memory (off + 4) ≠ 0 →
    ∀ access ∈ R.obj (wordAt memory off) off limit memory, access.Below limit

/-- The eight bytes that are copied are in the window, and so is what the class of a struct, or of an object,
reads. -/
def VariantObjClean (off : Nat) : Prop :=
  off + 8 ≤ limit ∧
    if wordAt memory off = serialStructMagic then
      ∀ access ∈ R.struct (wordAt memory (off + 4)) off limit memory, access.Below limit
    else ObjClean memory limit R off

def VariantClean (off : Nat) : Prop :=
  off < limit → (memory off = 9 → VariantObjClean memory limit R (off + 1)) ∧
    (memory off = 10 → BufClean memory limit (off + 1))

def ElemsClean (clean : Nat → Prop) (elem : Outline) : Nat → Nat → Prop
  | 0, _ => True
  | count + 1, off => clean off ∧ ∀ next occupied, elem off = some (next, occupied) → ElemsClean clean elem count next

/-- The two counts of an array are both zero, or it has as many elements, without an error, and they occupy as
many bytes. -/
def ArrayClean (clean : Nat → Prop) (elem : Outline) (off : Nat) : Prop :=
  CountsFit memory limit off →
    (wordAt memory off = 0 ∧ wordAt memory (off + 4) = 0) ∨
      wordAt memory off ≠ 0 ∧ wordAt memory (off + 4) ≠ 0 ∧ wordAt memory (off + 4) < maxElemCount ∧
        ElemsClean clean elem (wordAt memory (off + 4)) (off + 8) ∧
          ∃ last, elemsOutline elem (wordAt memory (off + 4)) (off + 8) = some (last, wordAt memory off)

/-- A map without entries has no bytes. The entries of any other one are clean, and if they reach as far as the
byte count says they occupy all these bytes: there is no null object among them. -/
def MapClean (clean : Nat → Prop) (entry : Outline) (off : Nat) : Prop :=
  CountsFit memory limit off →
    (wordAt memory (off + 4) = 0 → wordAt memory off = 0) ∧
      (wordAt memory (off + 4) ≠ 0 → wordAt memory (off + 4) < maxElemCount →
        ElemsClean clean entry (wordAt memory (off + 4)) (off + 8) ∧
          ∀ last occupied, elemsOutline entry (wordAt memory (off + 4)) (off + 8) = some (last, occupied) →
            last - (off + 8) = wordAt memory off → occupied = wordAt memory off)

def EntryClean (key : Outline) (clean : Nat → Prop) (off : Nat) : Prop :=
  ∀ next occupied, key off = some (next, occupied) → clean next

def Clean : RidlType → Nat → Prop
  | .prime _ => fun _ => True
  | .byteArray => BufClean memory limit
  | .objPtr => ObjClean memory limit R
  | .variant => VariantClean memory limit R
  | .array elem => ArrayClean memory limit (Clean elem) (outline memory limit C elem)
  | .map key elem =>
    MapClean memory limit (EntryClean (primeOutline memory limit key) (Clean elem))
      (entryOutline (primeOutline memory limit key) (outline memory limit C elem))

/-! ### Decoders that follow the outlines -/

def Matches (decoded : Decoded) : Option (Nat × Nat) → Prop
  | none => decoded.ret.failed = true
  | some (next, occupied) => decoded = ⟨.success, next, occupied⟩

def FollowsAt (clean : Prop) (outline : Option (Nat × Nat)) (program : Decoding Decoded) : Prop :=
  (program.Keeps (DecodeEvent.Sound limit) memory ↔ clean) ∧ (clean → Matches (program.result memory) outline)

def Follows (clean : Nat → Prop) (outline : Outline) (program : Nat → Decoding Decoded) : Prop :=
  ∀ off, FollowsAt memory limit (clean off) (outline off) (program off)

variable {memory limit}

variable {width off count bytes : Nat} {decoded : Decoded} {program : Decoding Decoded} {α : Type}
    {before : Prop} {first : Decoding α} {next : α → Decoding Decoded} {key : Outline}
    {keyProgram : Nat → Decoding Decoded} {signature : List Char}
    {body : List Char → Nat → Decoding Decoded}

theorem rawWord_fits (positive : 0 < width) (fits : off + width ≤ limit) :
    rawWord limit width off = readWord off width >>= fun word => pure ⟨.success, word, off + width⟩ := by
  unfold rawWord
  rw [if_neg (by omega), if_neg (by omega)]

theorem rawWord_short (short : ¬ off + width ≤ limit) :
    ∃ ret, ret.failed = true ∧ rawWord limit width off = pure ⟨ret, 0, off⟩ := by
  unfold rawWord
  by_cases empty : limit ≤ off
  · exact ⟨.einval, rfl, if_pos empty⟩
  · rw [if_neg empty, if_pos (by omega)]
    exact ⟨.erange, rfl, rfl⟩

@[simp] theorem keeps_readWord (off width : Nat) :
    (readWord off width).Keeps
    (DecodeEvent.Sound limit) memory ↔ width = 0 ∨ off + width ≤ limit := by
  simp only [readWord, keeps_bind, keeps_tell, keeps_ask, mem_singleton, forall_eq, and_true]
  exact Access.below_iff _ _ _

@[simp] theorem keeps_readBytes (off count : Nat) :
    (readBytes off count).Keeps
    (DecodeEvent.Sound limit) memory ↔ count = 0 ∨ off + count ≤ limit := by
  simp only [readBytes, keeps_tell, mem_singleton, forall_eq]
  exact Access.below_iff _ _ _

theorem followsAt_pure {clean : Prop} {outline : Option (Nat × Nat)} (holds : clean)
    (same : Matches decoded outline) : FollowsAt memory limit clean outline (pure decoded) :=
  ⟨iff_of_true (keeps_pure _) holds, fun _ => same⟩

theorem FollowsAt.congr {clean other : Prop} {outline : Option (Nat × Nat)}
    (follows : FollowsAt memory limit clean outline program) (same : clean ↔ other) :
    FollowsAt memory limit other outline program :=
  ⟨follows.1.trans same, fun holds => follows.2 (same.2 holds)⟩

theorem followsAt_bind {clean : Prop} {outline : Option (Nat × Nat)}
    (kept : first.Keeps (DecodeEvent.Sound limit) memory ↔ before)
    (follows : FollowsAt memory limit clean outline (next (first.result memory))) :
    FollowsAt memory limit (before ∧ clean) outline (first >>= next) := by
  refine ⟨?_, fun holds => follows.2 holds.2⟩
  rw [keeps_bind]
  exact and_congr kept follows.1

theorem followsAt_anyWord {clean : Prop} {outline : Option (Nat × Nat)}
    {next : Nat → Decoding Decoded} (positive : 0 < width)
    (follows : FollowsAt memory limit clean outline (next (wordFrom memory off width))) :
    FollowsAt memory limit (off + width ≤ limit ∧ clean) outline (readWord off width >>= next) :=
  followsAt_bind ((keeps_readWord off width).trans (or_iff_right (Nat.ne_of_gt positive))) follows

theorem followsAt_readWord {clean : Prop} {outline : Option (Nat × Nat)}
    {next : Nat → Decoding Decoded} (inside : off + width ≤ limit)
    (follows : FollowsAt memory limit clean outline (next (wordFrom memory off width))) :
    FollowsAt memory limit clean outline (readWord off width >>= next) :=
  (followsAt_bind (keeps_readWord off width) follows).congr (and_iff_right (.inr inside))

theorem followsAt_ask {clean : Prop} {outline : Option (Nat × Nat)} {question : (Nat → UInt8) → α}
    (follows : FollowsAt memory limit clean outline (next (question memory))) :
    FollowsAt memory limit clean outline (.ask question >>= next) :=
  (followsAt_bind (iff_of_true (keeps_ask question) trivial) follows).congr (and_iff_right trivial)

theorem followsAt_reads {clean : Prop} {outline : Option (Nat × Nat)} {reads : List Access}
    {next : Unit → Decoding Decoded} (follows : FollowsAt memory limit clean outline (next ())) :
    FollowsAt memory limit ((∀ access ∈ reads, access.Below limit) ∧ clean) outline
      (.tell (reads.map .read) >>= next) := by
  refine followsAt_bind ?_ follows
  rw [keeps_tell, forall_mem_map]
  rfl

theorem followsAt_word {clean : Prop} {outline : Option (Nat × Nat)}
    {next : RawWord → Decoding Decoded} (positive : 0 < width) (fits : off + width ≤ limit)
    (follows : FollowsAt memory limit clean outline (next ⟨.success, wordFrom memory off width, off + width⟩)) :
    FollowsAt memory limit clean outline (rawWord limit width off >>= next) := by
  rw [rawWord_fits positive fits]
  refine ⟨Iff.trans ?_ follows.1, follows.2⟩
  simp only [keeps_bind, keeps_readWord, keeps_pure, and_true]
  exact and_iff_right (.inr fits)

theorem followsAt_short {clean : Prop} {outline : Option (Nat × Nat)}
    {next : RawWord → Decoding Decoded} (short : ¬ off + width ≤ limit)
    (follows : ∀ ret, ret.failed = true → FollowsAt memory limit clean outline (next ⟨ret, 0, off⟩)) :
    FollowsAt memory limit clean outline (rawWord limit width off >>= next) := by
  obtain ⟨ret, failed, same⟩ := rawWord_short short
  rw [same]
  exact follows ret failed

theorem followsAt_readBytes {clean : Prop} {outline : Option (Nat × Nat)}
    (inside : clean ↔ count = 0 ∨ off + count ≤ limit) (same : clean → Matches decoded outline) :
    FollowsAt memory limit clean outline (readBytes off count >>= fun _ => pure decoded) := by
  refine ⟨?_, same⟩
  simp only [keeps_bind, keeps_readBytes, keeps_pure, and_true]
  exact inside.symm

theorem follows_fixed (type : FixedType) :
    Follows memory limit (fun _ => True) (fixedOutline limit type.width) (rawFixed limit type) := by
  intro off
  unfold rawFixed fixedOutline
  by_cases fits : off + type.width ≤ limit
  · rw [if_pos fits]
    exact followsAt_word type.width_pos fits (followsAt_pure trivial rfl)
  · rw [if_neg fits]
    exact followsAt_short fits fun ret failed => followsAt_pure trivial failed

theorem follows_string : Follows memory limit (fun _ => True) (stringOutline memory limit)
    (rawString limit) := by
  intro off
  unfold rawString stringOutline
  by_cases fits : off + 4 ≤ limit
  · rw [if_pos fits]
    refine followsAt_word (by decide) fits ?_
    dsimp only
    rw [Status.failed_success, if_neg Bool.false_ne_true]
    by_cases empty : wordAt memory off = 0
    · rw [if_pos empty, empty, Nat.zero_min]
      exact followsAt_pure trivial rfl
    · rw [if_neg empty]
      refine followsAt_readBytes (iff_of_true trivial (.inr ?_)) fun _ => rfl
      omega
  · rw [if_neg fits]
    refine followsAt_short fits fun ret failed => ?_
    dsimp only
    rw [if_pos failed]
    exact followsAt_pure trivial failed

theorem follows_prime (type : PrimeType) :
    Follows memory limit (fun _ => True) (primeOutline memory limit type) (rawPrime limit type) := by
  cases type with
  | fixed type => exact follows_fixed type
  | string => exact follows_string

theorem follows_buf : Follows memory limit (BufClean memory limit) (bufOutline memory limit)
    (rawBuf limit) := by
  intro off
  unfold rawBuf bufOutline
  by_cases fits : off + 4 ≤ limit
  · refine followsAt_word (by decide) fits ?_
    dsimp only
    rw [Status.failed_success, if_neg Bool.false_ne_true]
    have limits : maxBytesPerBuffer ≤ bufMaxSize := by decide
    by_cases empty : wordAt memory off = 0
    · rw [if_pos empty, if_pos (And.intro fits (empty ▸ Nat.zero_le _)), empty]
      exact followsAt_pure (fun _ _ => empty ▸ fits) rfl
    · rw [if_neg empty]
      by_cases large : maxBytesPerBuffer < wordAt memory off
      · have refused : ¬ wordAt memory off ≤ maxBytesPerBuffer := Nat.not_le.2 large
        rw [if_neg fun both => refused both.2]
        by_cases larger : bufMaxSize < wordAt memory off
        · rw [if_pos larger]
          exact followsAt_pure (fun _ never => absurd never refused) rfl
        · rw [if_neg larger, if_pos large]
          exact followsAt_pure (fun _ never => absurd never refused) rfl
      · have granted : wordAt memory off ≤ maxBytesPerBuffer := Nat.le_of_not_lt large
        rw [if_neg (Nat.not_lt.2 (Nat.le_trans granted limits)), if_neg large, if_pos (And.intro fits granted)]
        refine followsAt_readBytes ⟨fun clean => .inr (clean fits granted), fun inside _ _ => ?_⟩ fun clean => ?_
        · exact inside.resolve_left empty
        · show Decoded.mk .success (stepped limit (off + 4) (wordAt memory off)) _ = _
          rw [stepped, if_pos (clean fits granted)]
  · rw [if_neg fun both => fits both.1]
    refine followsAt_short fits fun ret failed => ?_
    dsimp only
    rw [if_pos failed]
    exact followsAt_pure (fun never => absurd never fits) failed

variable {C : RidlClasses} {R : ClassReads}

theorem follows_obj : Follows memory limit (ObjClean memory limit R) (objOutline memory limit C)
    (rawObj limit C R) := by
  intro off
  unfold rawObj objOutline
  by_cases header : off + 12 ≤ limit
  · rw [if_neg (show ¬ limit - off < 12 by omega)]
    refine followsAt_readWord (by omega) (followsAt_readWord (by omega) ?_)
    by_cases large : limit - off - 12 < wordAt memory (off + 4)
    · have unfit : ¬ ObjFits memory limit off := fun fits => absurd fits.2 (Nat.not_le.2 large)
      rw [if_pos large, if_neg unfit]
      exact followsAt_pure (fun fits => absurd fits unfit) rfl
    · have fits : ObjFits memory limit off := ⟨header, Nat.le_of_not_lt large⟩
      rw [if_neg large, if_pos fits]
      by_cases null : wordAt memory (off + 4) = 0
      · rw [if_pos null, if_pos null]
        exact followsAt_pure (fun _ some => absurd null some) rfl
      · rw [if_neg null, if_neg null]
        have inside : off + (wordAt memory (off + 4) + 12) ≤ limit := by
          have bound := fits.2
          omega
        have same : (∀ access ∈ R.obj (wordAt memory off) off limit memory, access.Below limit) ∧ True ↔
            ObjClean memory limit R off := by
          refine (and_iff_left trivial).trans ⟨fun reads _ _ => reads, fun clean => clean fits null⟩
        refine FollowsAt.congr (followsAt_ask (followsAt_reads (followsAt_ask ?_))) same
        by_cases made : (C.newObj (wordAt memory off) (windowOf limit off memory)).isSome = true
        · rw [if_pos made, if_pos made, stepped, if_pos inside]
          exact followsAt_pure trivial rfl
        · rw [if_neg made, if_neg made]
          exact followsAt_pure trivial rfl
  · have unfit : ¬ ObjFits memory limit off := fun fits => header fits.1
    rw [if_pos (show limit - off < 12 by omega), if_neg unfit]
    exact followsAt_pure (fun fits => absurd fits unfit) rfl

theorem follows_variantObj :
    Follows memory limit (VariantObjClean memory limit R) (variantObjOutline memory limit C) (rawVariantObj limit C R) := by
  intro off
  unfold rawVariantObj variantObjOutline VariantObjClean
  have eight {rest : Prop} : off + 4 ≤ limit ∧ off + 4 + 4 ≤ limit ∧ rest ↔ off + 8 ≤ limit ∧ rest := by
    refine and_assoc.symm.trans (and_congr_left' ?_)
    omega
  refine FollowsAt.congr (followsAt_anyWord (by decide) (followsAt_anyWord (by decide) ?_)) eight
  by_cases struct : wordAt memory off = serialStructMagic
  · rw [if_pos struct, if_pos struct, if_pos struct]
    refine FollowsAt.congr (followsAt_ask (followsAt_reads (followsAt_ask ?_))) (and_iff_left trivial)
    cases (C.newStruct (wordAt memory (off + 4)) (windowOf limit off memory)).map Prod.snd with
    | none | some => exact followsAt_pure trivial rfl
  · rw [if_neg struct, if_neg struct, if_neg struct]
    exact follows_obj off

theorem followsAt_true {clean : Prop} {outline : Option (Nat × Nat)}
    (follows : FollowsAt memory limit True outline program) (holds : clean) :
    FollowsAt memory limit clean outline program :=
  follows.congr (iff_of_true trivial holds)

def VariantValueClean (memory : Nat → UInt8) (limit : Nat) (R : ClassReads) (typeId : UInt8) (off : Nat) : Prop :=
  (typeId = 9 → VariantObjClean memory limit R off) ∧ (typeId = 10 → BufClean memory limit off)

theorem variantValueOutline_obj {typeId : UInt8} (isObj : typeId = 9) (off : Nat) :
    variantValueOutline memory limit C typeId off = variantObjOutline memory limit C off := by
  unfold variantValueOutline
  split
  case h_9 => rfl
  all_goals contradiction

theorem follows_variantValue (typeId : UInt8) :
    Follows memory limit (VariantValueClean memory limit R typeId) (variantValueOutline memory limit C typeId)
      (rawVariantValue limit C R typeId) := by
  intro off
  by_cases isObj : typeId = 9
  · rw [variantValueOutline_obj isObj off]
    subst isObj
    exact (follows_variantObj off).congr ⟨fun clean => ⟨fun _ => clean, fun never => absurd never (by decide)⟩,
      fun clean => clean.1 rfl⟩
  by_cases isBuf : typeId = 10
  · subst isBuf
    exact (follows_buf off).congr ⟨fun clean => ⟨fun never => absurd never (by decide), fun _ => clean⟩,
      fun clean => clean.2 rfl⟩
  refine followsAt_true ?_ ⟨fun same => absurd same isObj, fun same => absurd same isBuf⟩
  by_cases known : typeId ∈ ([0, 1, 2, 3, 4, 5, 6, 7] : List UInt8)
  · simp only [mem_cons, not_mem_nil, or_false] at known
    rcases known with rfl | rfl | rfl | rfl | rfl | rfl | rfl | rfl
    · exact followsAt_pure trivial rfl
    · exact follows_fixed .byte off
    · exact follows_fixed .uint16 off
    · exact follows_fixed .uint32 off
    · exact follows_fixed .uint64 off
    · exact follows_fixed .float off
    · exact follows_fixed .double off
    · exact follows_string off
  · simp only [mem_cons, not_mem_nil, or_false, not_or] at known
    obtain ⟨not0, not1, not2, not3, not4, not5, not6, not7⟩ := known
    have refused : rawVariantValue limit C R typeId off = pure ⟨.enotsup, off, 0⟩ := by
      unfold rawVariantValue
      split <;> first | contradiction | rfl
    have nothing : variantValueOutline memory limit C typeId off = none := by
      unfold variantValueOutline
      split <;> first | contradiction | rfl
    rw [refused, nothing]
    exact followsAt_pure trivial rfl

theorem wordFrom_one (off : Nat) : UInt8.ofNat (wordFrom memory off 1) = memory off := by
  have one : wordFrom memory off 1 = (memory off).toNat * 256 ^ 0 + 0 := rfl
  rw [one, Nat.pow_zero, Nat.mul_one, Nat.add_zero, UInt8.ofNat_toNat]

theorem followsAt_behind {clean : Prop} {outline : Option (Nat × Nat)}
    (follows : FollowsAt memory limit clean outline program) (front : Nat) :
    FollowsAt memory limit clean (outline.map fun value => (value.1, front + value.2))
      (program >>= fun value => pure ⟨value.ret, value.off, front + value.occupied⟩) := by
  refine ⟨?_, fun holds => ?_⟩
  · rw [keeps_bind]
    exact (and_iff_left (keeps_pure _)).trans follows.1
  · have same := follows.2 holds
    rw [result_bind, result_pure]
    cases outline with
    | none => exact same
    | some value =>
      obtain ⟨next, occupied⟩ := value
      rw [show program.result memory = ⟨.success, next, occupied⟩ from same]
      rfl

theorem follows_variant :
    Follows memory limit (VariantClean memory limit R) (variantOutline memory limit C) (rawVariant limit C R) := by
  intro off
  unfold rawVariant variantOutline
  by_cases empty : limit ≤ off
  · rw [if_pos empty, if_neg (Nat.not_lt.2 empty)]
    exact followsAt_pure (fun never => absurd never (Nat.not_lt.2 empty)) rfl
  · have some : off < limit := Nat.lt_of_not_le empty
    rw [if_neg empty, if_pos some]
    refine followsAt_readWord some ?_
    rw [wordFrom_one]
    exact (followsAt_behind (follows_variantValue (memory off) (off + 1)) 1).congr
      ⟨fun clean _ => clean, fun clean => clean some⟩

def ElemsMatch (elems : Elems) (count : Nat) : Option (Nat × Nat) → Prop
  | none => elems.ret.failed = true
  | some (last, occupied) => elems = ⟨.success, last, count, occupied⟩

variable {clean : Nat → Prop} {elem : Outline} {program : Nat → Decoding Decoded}

/-- The loop is sound exactly on clean elements, by induction on their number. -/
theorem follows_elems (follows : Follows memory limit clean elem program) (count off : Nat) :
    ((rawElems program count off).Keeps (DecodeEvent.Sound limit) memory ↔ ElemsClean clean elem count off) ∧
      (ElemsClean clean elem count off →
        ElemsMatch ((rawElems program count off).result memory) count (elemsOutline elem count off)) := by
  induction count generalizing off with
  | zero => exact ⟨iff_of_true (keeps_pure _) trivial, fun _ => rfl⟩
  | succ count ih =>
    obtain ⟨kept, same⟩ := follows off
    rw [rawElems, ElemsClean, elemsOutline, keeps_bind, result_bind, kept]
    by_cases holds : clean off
    · have decoded := same holds
      cases reach : elem off with
      | none =>
        rw [reach] at decoded
        rw [if_pos (show ((program off).result memory).ret.failed = true from decoded)]
        exact ⟨iff_of_true ⟨holds, keeps_pure _⟩ ⟨holds, fun _ _ never => by cases never⟩, fun _ => decoded⟩
      | some value =>
        obtain ⟨next, occupied⟩ := value
        rw [reach] at decoded
        obtain ⟨tailKept, tailSame⟩ := ih next
        rw [show (program off).result memory = ⟨.success, next, occupied⟩ from decoded]
        dsimp only
        rw [Status.failed_success, if_neg Bool.false_ne_true, keeps_bind, result_bind, result_pure, tailKept]
        refine ⟨and_congr_right fun _ => ?_, fun ⟨_, rest⟩ => ?_⟩
        · refine (and_iff_left (keeps_pure _)).trans ⟨fun rest _ _ equal => ?_, fun rest => rest next occupied rfl⟩
          cases equal
          exact rest
        · have tail := tailSame (rest next occupied rfl)
          rw [Option.bind_some]
          cases tailReach : elemsOutline elem count next with
          | none =>
            rw [tailReach] at tail
            exact tail
          | some last =>
            rw [tailReach] at tail
            obtain ⟨last, total⟩ := last
            rw [show (rawElems program count next).result memory = ⟨.success, last, count, total⟩ from tail]
            rfl
    · exact ⟨iff_of_false (fun both => holds both.1) fun both => holds both.1, fun both => absurd both.1 holds⟩

theorem followsAt_tell {clean : Prop} {outline : Option (Nat × Nat)} {event : DecodeEvent}
    (sound : event.Sound limit ↔ clean) (same : clean → Matches decoded outline) :
    FollowsAt memory limit clean outline (.tell [event] >>= fun _ => pure decoded) := by
  refine ⟨?_, same⟩
  rw [keeps_bind, keeps_tell, forall_mem_singleton]
  exact (and_iff_left (keeps_pure _)).trans sound

theorem sound_container {decoded occupied : Nat} {inner ret : Status} :
    (DecodeEvent.container bytes count decoded occupied inner ret).Sound limit ↔
      (ret = .success → decoded = count ∧ occupied = bytes) ∧ (inner.failed = true → ret = inner) := Iff.rfl

theorem follows_counted {holds : Prop} {outline : Option (Nat × Nat)}
    {rest : Nat → Nat → Nat → Decoding Decoded} (room : off + 8 ≤ limit)
    (follows : CountsFit memory limit off →
      FollowsAt memory limit holds outline (rest (wordAt memory off) (wordAt memory (off + 4)) (off + 8)))
    (refused : ¬ CountsFit memory limit off → holds ∧ outline = none) :
    FollowsAt memory limit holds outline (rawCounted limit rest off) := by
  unfold rawCounted
  refine followsAt_word (by decide) (by omega) ?_
  dsimp only
  rw [Status.failed_success, if_neg Bool.false_ne_true]
  by_cases large : maxBytesPerBuffer < wordAt memory off
  · obtain ⟨clean, nothing⟩ := refused fun fits => absurd fits.2 (Nat.not_le.2 large)
    rw [if_pos large, nothing]
    exact followsAt_pure clean rfl
  rw [if_neg large]
  refine followsAt_word (by decide) (by omega) ?_
  rw [Status.failed_success, if_neg Bool.false_ne_true]
  exact follows ⟨room, Nat.le_of_not_lt large⟩

theorem followsAt_elems {clean : Prop} {outline : Option (Nat × Nat)}
    (kept : first.Keeps (DecodeEvent.Sound limit) memory ↔ before)
    (follows : before → FollowsAt memory limit clean outline (next (first.result memory))) :
    FollowsAt memory limit (before ∧ clean) outline (first >>= next) := by
  refine ⟨?_, fun holds => (follows holds.1).2 holds.2⟩
  rw [keeps_bind, kept]
  exact and_congr_right fun holds => (follows holds).1

theorem follows_arrayRest (follows : Follows memory limit clean elem program) :
    FollowsAt memory limit
      ((bytes = 0 ∧ count = 0) ∨ bytes ≠ 0 ∧ count ≠ 0 ∧ count < maxElemCount ∧ ElemsClean clean elem count off ∧
        ∃ last, elemsOutline elem count off = some (last, bytes))
      (if bytes = 0 ∨ count = 0 then some (off, 8 + bytes)
        else (elemsOutline elem count off).map fun last => (last.1, 8 + bytes))
      (rawArrayRest program bytes count off) := by
  unfold rawArrayRest
  by_cases zero : bytes = 0 ∨ count = 0
  · rw [if_pos zero, if_pos zero]
    refine followsAt_tell (sound_container.trans ?_) fun _ => rfl
    refine ⟨fun ⟨agree, _⟩ => ?_, fun holds => ?_⟩
    · obtain ⟨noElems, noBytes⟩ := agree rfl
      exact .inl ⟨noBytes.symm, noElems.symm⟩
    · rcases holds with ⟨noBytes, noElems⟩ | ⟨someBytes, someElems, _⟩
      · exact ⟨fun _ => ⟨noElems.symm, noBytes.symm⟩, fun never => by cases never⟩
      · exact absurd zero (not_or.2 ⟨someBytes, someElems⟩)
  obtain ⟨someBytes, someElems⟩ := not_or.1 zero
  rw [if_neg zero, if_neg zero]
  by_cases many : maxElemCount ≤ count
  · rw [if_pos many]
    have refused : ¬ ((bytes = 0 ∧ count = 0) ∨ bytes ≠ 0 ∧ count ≠ 0 ∧ count < maxElemCount ∧
        ElemsClean clean elem count off ∧ ∃ last, elemsOutline elem count off = some (last, bytes)) := by
      rintro (⟨none, _⟩ | ⟨_, _, few, _⟩)
      · exact someBytes none
      · exact absurd few (Nat.not_lt.2 many)
    refine followsAt_tell (sound_container.trans (iff_of_false (fun ⟨agree, _⟩ => ?_) refused)) fun holds => absurd holds refused
    exact someElems (agree rfl).1.symm
  rw [if_neg many]
  obtain ⟨kept, same⟩ := follows_elems follows count off
  have few : count < maxElemCount := Nat.lt_of_not_le many
  have parts : ((bytes = 0 ∧ count = 0) ∨ bytes ≠ 0 ∧ count ≠ 0 ∧ count < maxElemCount ∧ ElemsClean clean elem count off ∧
        ∃ last, elemsOutline elem count off = some (last, bytes)) ↔
      ElemsClean clean elem count off ∧ ∃ last, elemsOutline elem count off = some (last, bytes) :=
    ⟨fun holds => (holds.resolve_left fun both => someBytes both.1).2.2.2, fun rest => .inr ⟨someBytes, someElems, few, rest⟩⟩
  refine FollowsAt.congr (followsAt_elems kept fun elemsClean => ?_) parts.symm
  have decoded := same elemsClean
  cases reach : elemsOutline elem count off with
  | none =>
    rw [reach] at decoded
    refine followsAt_tell (iff_of_false (fun sound => ?_) fun ⟨_, never⟩ => by cases never) fun ⟨_, never⟩ => by cases never
    have failed : Status.success.failed = true := (sound_container.1 sound).2 decoded ▸ decoded
    cases failed
  | some last =>
    obtain ⟨last, occupied⟩ := last
    rw [reach] at decoded
    rw [show (rawElems program count off).result memory = ⟨.success, last, count, occupied⟩ from decoded]
    refine followsAt_tell (sound_container.trans ⟨fun ⟨agree, _⟩ => ?_, fun ⟨_, equal⟩ => ?_⟩) fun _ => rfl
    · obtain ⟨_, rfl⟩ := agree rfl
      exact ⟨last, rfl⟩
    · cases equal
      exact ⟨fun _ => ⟨rfl, rfl⟩, fun never => by cases never⟩

theorem mapRet_failed {elems : Elems} (failed : elems.ret.failed = true) (bytes start : Nat) :
    mapRet bytes start elems = elems.ret := if_pos failed

theorem mapRet_reached (bytes start last decoded occupied : Nat) :
    mapRet bytes start ⟨.success, last, decoded, occupied⟩ = if last - start ≠ bytes then .ebadmsg else .success := rfl

theorem follows_mapRest (follows : Follows memory limit clean elem program) :
    FollowsAt memory limit
      ((count = 0 → bytes = 0) ∧ (count ≠ 0 → count < maxElemCount → ElemsClean clean elem count off ∧
        ∀ last occupied, elemsOutline elem count off = some (last, occupied) → last - off = bytes → occupied = bytes))
      (if count = 0 then some (off, 8 + bytes)
        else if maxElemCount ≤ count then none
        else ((elemsOutline elem count off).filter fun last => last.1 - off = bytes).map fun last =>
          (last.1, 8 + bytes))
      (rawMapRest program bytes count off) := by
  unfold rawMapRest
  by_cases zero : count = 0
  · rw [if_pos zero, if_pos zero]
    refine followsAt_tell (sound_container.trans ⟨fun ⟨agree, _⟩ => ?_, fun holds => ?_⟩) fun _ => rfl
    · exact ⟨fun _ => (agree rfl).2.symm, fun someElems => absurd zero someElems⟩
    · exact ⟨fun _ => ⟨zero.symm, (holds.1 zero).symm⟩, fun never => by cases never⟩
  rw [if_neg zero, if_neg zero]
  by_cases many : maxElemCount ≤ count
  · rw [if_pos many, if_pos many]
    exact followsAt_pure ⟨fun none => absurd none zero, fun _ few => absurd few (Nat.not_lt.2 many)⟩ rfl
  rw [if_neg many, if_neg many]
  obtain ⟨kept, same⟩ := follows_elems follows count off
  have parts : ((count = 0 → bytes = 0) ∧ (count ≠ 0 → count < maxElemCount → ElemsClean clean elem count off ∧
        ∀ last occupied, elemsOutline elem count off = some (last, occupied) → last - off = bytes → occupied = bytes)) ↔
      ElemsClean clean elem count off ∧
        ∀ last occupied, elemsOutline elem count off = some (last, occupied) → last - off = bytes → occupied = bytes :=
    ⟨fun holds => holds.2 zero (Nat.lt_of_not_le many), fun rest => ⟨fun none => absurd none zero, fun _ _ => rest⟩⟩
  refine FollowsAt.congr (followsAt_elems kept fun elemsClean => ?_) parts.symm
  have decoded := same elemsClean
  cases reach : elemsOutline elem count off with
  | none =>
    rw [reach] at decoded
    have failed : ((rawElems program count off).result memory).ret.failed = true := decoded
    refine followsAt_tell ?_ fun _ => ?_
    · rw [mapRet_failed failed]
      refine sound_container.trans (iff_of_true ⟨fun success => ?_, fun _ => rfl⟩ fun _ _ never => by cases never)
      rw [success] at failed
      cases failed
    · show (mapRet _ _ _).failed = true
      rw [mapRet_failed failed]
      exact failed
  | some last =>
    obtain ⟨last, occupied⟩ := last
    rw [reach] at decoded
    rw [show (rawElems program count off).result memory = ⟨.success, last, count, occupied⟩ from decoded]
    rw [Option.filter_some, mapRet_reached]
    by_cases reached : last - off = bytes
    · rw [if_neg (not_not.2 reached), if_pos (decide_eq_true reached)]
      refine followsAt_tell (sound_container.trans ⟨fun ⟨agree, _⟩ => ?_, fun holds => ?_⟩) fun _ => rfl
      · intro _ _ equal _
        cases equal
        exact (agree rfl).2
      · exact ⟨fun _ => ⟨rfl, holds last occupied rfl reached⟩, fun never => by cases never⟩
    · rw [if_pos reached, if_neg fun true => reached (of_decide_eq_true true)]
      have clean : ∀ end' total, some (last, occupied) = some (end', total) → end' - off = bytes → total = bytes := by
        intro _ _ equal same
        cases equal
        exact absurd same reached
      have sound : (DecodeEvent.container bytes count count occupied .success .ebadmsg).Sound limit :=
        sound_container.2 ⟨fun never => (by cases never), fun never => (by cases never)⟩
      exact followsAt_tell (iff_of_true sound clean) fun _ => rfl

theorem follows_entry
    (keyFollows : Follows memory limit (fun _ => True) key keyProgram)
    (follows : Follows memory limit clean elem program) :
    Follows memory limit (EntryClean key clean) (entryOutline key elem) (rawEntry keyProgram program) := by
  intro off
  obtain ⟨kept, same⟩ := keyFollows off
  unfold rawEntry entryOutline EntryClean
  refine FollowsAt.congr (followsAt_elems kept fun _ => ?_) (and_iff_right trivial)
  have decoded := same trivial
  cases reach : key off with
  | none =>
    rw [reach] at decoded
    rw [if_pos (show ((keyProgram off).result memory).ret.failed = true from decoded)]
    exact followsAt_pure (fun _ _ never => by cases never) decoded
  | some value =>
    obtain ⟨next, occupied⟩ := value
    rw [reach] at decoded
    rw [show (keyProgram off).result memory = ⟨.success, next, occupied⟩ from decoded]
    dsimp only
    rw [Status.failed_success, if_neg Bool.false_ne_true, Option.bind_some]
    refine (followsAt_behind (follows next) occupied).congr ⟨fun holds _ _ equal => ?_, fun holds => holds next occupied rfl⟩
    cases equal
    exact holds

theorem follows_array {elemSig : List Char}
    (bracketed : elemSignature '(' ')' signature = some elemSig)
    (follows : Follows memory limit clean elem (body elemSig)) :
    Follows memory limit (ArrayClean memory limit clean elem) (arrayOutline memory limit elem)
      (rawArray limit body signature) := by
  intro off
  unfold rawArray arrayOutline
  by_cases room : off + 8 ≤ limit
  · rw [if_neg (show ¬ limit - off < 8 by omega), bracketed]
    dsimp only
    refine follows_counted room (fun fits => ?_) fun unfit => ⟨fun fits => absurd fits unfit, if_neg unfit⟩
    rw [if_pos fits]
    exact (follows_arrayRest follows).congr ⟨fun holds _ => holds, fun holds => holds fits⟩
  · have unfit : ¬ CountsFit memory limit off := fun fits => room fits.1
    rw [if_pos (show limit - off < 8 by omega), if_neg unfit]
    exact followsAt_pure (fun fits => absurd fits unfit) rfl

theorem follows_map
    (keyFollows : Follows memory limit (fun _ => True) key keyProgram)
    {inner : List Char}
    (bracketed : elemSignature '[' ']' signature = some inner)
    (follows : Follows memory limit clean elem (body inner.tail)) :
    Follows memory limit (MapClean memory limit (EntryClean key clean) (entryOutline key elem))
      (mapOutline memory limit (entryOutline key elem)) (rawMap limit keyProgram body signature) := by
  intro off
  unfold rawMap mapOutline
  by_cases room : off + 8 ≤ limit
  · rw [if_neg (show ¬ limit - off < 8 by omega), bracketed]
    dsimp only
    refine follows_counted room (fun fits => ?_) fun unfit => ⟨fun fits => absurd fits unfit, if_neg unfit⟩
    rw [if_pos fits]
    exact (follows_mapRest (follows_entry keyFollows follows)).congr ⟨fun holds _ => holds, fun holds => holds fits⟩
  · have unfit : ¬ CountsFit memory limit off := fun fits => room fits.1
    rw [if_pos (show limit - off < 8 by omega), if_neg unfit]
    exact followsAt_pure (fun fits => absurd fits unfit) rfl

theorem follows_elem (type : RidlType) :
    Follows memory limit (Clean memory limit C R type) (outline memory limit C type)
      (rawElem limit C R type type.signature) := by
  induction type with
  | prime type => exact follows_prime type
  | byteArray => exact follows_buf
  | objPtr => exact follows_obj
  | variant => exact follows_variant
  | array elem ih =>
    exact follows_array (elemSignature_bracketed '(' ')' elem.signature) ih
  | map key elem ih =>
    exact follows_map (follows_prime key) (elemSignature_bracketed '[' ']' (key.signature :: elem.signature)) ih

/-- The decoders read nothing behind the window, return success only for counts that agree with the elements, and
return every error of an element, exactly when the value in the window is clean. -/
theorem sound_iff_clean (C : RidlClasses) (R : ClassReads) (type : RidlType) (memory : Nat → UInt8)
    (limit off : Nat) :
    (rawElem limit C R type type.signature off).Keeps (DecodeEvent.Sound limit) memory ↔
      Clean memory limit C R type off := (follows_elem type off).1

def noReads : ClassReads := ⟨fun _ _ _ _ => [], fun _ _ _ _ => []⟩

def emptyArray : Nat → UInt8 := fun off => if off = 3 ∨ off = 7 then 1 else 0

/-- The array's element is missing, and the error that reports it stays behind: `DeserialArray` succeeds. -/
theorem sound_missingElem :
    ¬ (rawElem 8 noObjects noReads (.array (.prime (.fixed .byte))) ['(', 'B', ')'] 0).Keeps (DecodeEvent.Sound 8)
      emptyArray := by
  intro sound
  have dropped := sound (.container 1 1 0 0 .einval .success) (by decide +kernel)
  exact absurd (dropped.1 rfl).1 (by decide)

end RpcFrmwrk.Ridl
