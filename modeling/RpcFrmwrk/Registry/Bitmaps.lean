import RpcFrmwrk.Library.Bits
import RpcFrmwrk.Registry.Addresses

/-! The bitmaps of the block groups and of the blocks of a group. A bitmap is scanned in words of
eight bytes, and the last two bytes hold its count; the count is also kept beside the bytes, and
written to them when the bitmap is formatted. The safe mode is off, so that no call writes the
bitmap. Owns `CBlockBitmap`: `InitBitmap`, `AllocBlocks`, `FreeBlocks`, `IsBlockFree` and `IsEmpty`;
`CGroupBitmap`: `Format`, `AllocGroup`, `FreeGroup` and `IsBlockGroupFree`; what a scan takes of a
bitmap. -/

namespace RpcFrmwrk.Registry

open RpcFrmwrk.Library List

/-- `STATUS_SUCCESS`, `STATUS_MORE_PROCESS_NEEDED`, `-EINVAL`, `-ENOMEM` and `ERROR_FAIL`. -/
inductive AllocRet where
  | success
  | moreProcessNeeded
  | einval
  | enomem
  | fail
deriving DecidableEq, Repr

/-- `ERROR( ret )`. -/
def AllocRet.failed : AllocRet → Bool
  | .success | .moreProcessNeeded => false
  | _ => true

/-- `BLKBMP_SIZE` and `GRPBMP_SIZE`, in words. -/
def blkbmpWords : Nat := blocksPerGroupFull / 8 / 8
def grpbmpWords : Nat := grpbmpSize / 8

def wordBytes (words word : Nat) : List Nat := List.range' (word * 8) (if word = words - 1 then 6 else 8)

def freeByte (bytes : Bytes) (words word : Nat) : Option Nat :=
  (wordBytes words word).find? fun byte => bytes byte ≠ BitVec.allOnes 8

def storeCount (bytes : Bytes) (size count : Nat) : Bytes := fun pos =>
  if pos + 2 = size then BitVec.ofNat 8 (count / 256)
  else if pos + 1 = size then BitVec.ofNat 8 count
  else bytes pos

/-- `m_arrBytes` and `m_wFreeCount`. -/
structure BlockBitmap where
  bytes : Bytes
  free : Nat

namespace BlockBitmap

def blocks : Nat := blocksPerGroup - blkbmpBlknum

/-- `InitBitmap`: the blocks of the bitmap itself are taken. -/
def initBitmap : BlockBitmap where
  bytes := storeCount
    (fun pos =>
      if pos < blkbmpBlknum / 8 then BitVec.allOnes 8
      else if pos = blkbmpBlknum / 8 then BitVec.ofNat 8 (2 ^ (blkbmpBlknum % 8) - 1)
      else 0)
    (blocksPerGroupFull / 8) blocks
  free := blocks

def takeBits (byte want : Nat) : List Nat → Bytes → List Nat × Bytes
  | [], bytes => ([], bytes)
  | bit :: rest, bytes =>
    let blkIdx := byte * 8 + bit
    if bytes.bitAt blkIdx then takeBits byte want rest bytes
    else if want = 1 then ([blkIdx], bytes.setBit blkIdx)
    else
      let (taken, after) := takeBits byte (want - 1) rest (bytes.setBit blkIdx)
      (blkIdx :: taken, after)

def takeWords : Nat → List Nat → Bytes → List Nat × Bytes
  | _, [], bytes => ([], bytes)
  | want, word :: rest, bytes =>
    if want = 0 then ([], bytes)
    else
      match freeByte bytes blkbmpWords word with
      | none => takeWords want rest bytes
      | some byte =>
        let (taken, bytes) := takeBits byte want (List.range 8) bytes
        let (more, bytes) := takeWords (want - taken.length) rest bytes
        (taken ++ more, bytes)

/-- `AllocBlocks`: its answer, the blocks and the bitmap. -/
def allocBlocks (bmp : BlockBitmap) (dwNumBlocks : Nat) : AllocRet × List Nat × BlockBitmap :=
  if dwNumBlocks = 0 then (.einval, [], bmp)
  else if bmp.free = 0 then (.enomem, [], bmp)
  else
    let (taken, bytes) := takeWords dwNumBlocks (List.range blkbmpWords) bmp.bytes
    if bmp.free < taken.length then (.fail, taken, { bmp with bytes := bytes })
    else
      (if taken.length = dwNumBlocks then .success else .moreProcessNeeded, taken,
        ⟨bytes, bmp.free - taken.length⟩)

/-- One round of the loop of `FreeBlocks`. The test is for the byte. -/
def freeOne (bmp : BlockBitmap) (blkIdx : Nat) : BlockBitmap :=
  let idx := blockIndex blkIdx
  if idx = 0 then bmp
  else if bmp.bytes (idx / 8) = 0 then bmp
  else ⟨bmp.bytes.clearBit idx, (bmp.free + 1) % 2 ^ 16⟩

/-- `FreeBlocks`. -/
def freeBlocks (bmp : BlockBitmap) (blkIdxs : List Nat) : BlockBitmap :=
  if bmp.free = blocks then bmp else blkIdxs.foldl freeOne bmp

/-- `IsBlockFree`, where it is asked for a block. -/
def isBlockFree (bmp : BlockBitmap) (blkIdx : Nat) : Bool := bmp.free = blocks || !bmp.bytes.bitAt blkIdx

/-- `IsEmpty`. -/
def isEmpty (bmp : BlockBitmap) : Bool := bmp.free = blocks

end BlockBitmap

/-- `m_arrBytes` and `m_wFreeCount`. -/
structure GroupBitmap where
  bytes : Bytes
  free : Nat

namespace GroupBitmap

/-- `Format`. -/
def format : GroupBitmap := ⟨storeCount (fun _ => 0) grpbmpSize blkgrpNumber, blkgrpNumber⟩

/-- `AllocGroup`. -/
def allocGroup (bmp : GroupBitmap) : Option (Nat × GroupBitmap) :=
  if bmp.free = 0 then none
  else
    match (List.range grpbmpWords).findSome? (freeByte bmp.bytes grpbmpWords) with
    | none => none
    | some byte =>
      match (List.range 8).find? fun bit => !bmp.bytes.bitAt (byte * 8 + bit) with
      | none => none
      | some bit => some (byte * 8 + bit, ⟨bmp.bytes.setBit (byte * 8 + bit), bmp.free - 1⟩)

/-- `FreeGroup`. -/
def freeGroup (bmp : GroupBitmap) (dwGrpIdx : Nat) : GroupBitmap :=
  if bmp.free = blkgrpNumber ∨ blkgrpNumber ≤ dwGrpIdx then bmp
  else if bmp.bytes (dwGrpIdx / 8) = 0 then bmp
  else ⟨bmp.bytes.clearBit dwGrpIdx, (bmp.free + 1) % 2 ^ 16⟩

/-- `SUCCEEDED( IsBlockGroupFree( dwGrpIdx ) )`. -/
def isBlockGroupFree (bmp : GroupBitmap) (dwGrpIdx : Nat) : Bool :=
  bmp.free = blkgrpNumber || decide (dwGrpIdx < blkgrpNumber) && !bmp.bytes.bitAt dwGrpIdx

end GroupBitmap

/-! ### Scans -/

section

variable {bytes : Bytes} {words : Nat}

theorem mem_wordBytes {word byte : Nat} (small : word < words) (member : byte ∈ wordBytes words word) :
    byte / 8 = word ∧ byte + 2 < words * 8 := by
  rw [wordBytes, mem_range'_1] at member
  split at member
  · omega
  · omega

theorem freeByte_some {word byte : Nat} (found : freeByte bytes words word = some byte) :
    byte ∈ wordBytes words word ∧ bytes byte ≠ BitVec.allOnes 8 := by
  rw [freeByte] at found
  have free := List.find?_some found
  exact ⟨mem_of_find?_eq_some found, of_decide_eq_true free⟩

theorem freeByte_none {word pos : Nat} (none : freeByte bytes words word = none) (within : pos / 64 = word)
    (below : pos + 16 < words * 64) : bytes.bitAt pos = true := by
  apply Bytes.bitAt_of_full
  have member : pos / 8 ∈ wordBytes words word := by
    rw [wordBytes, mem_range'_1]
    split
    · omega
    · omega
  exact Decidable.not_not.1 fun free => List.find?_eq_none.1 none _ member (decide_eq_true free)

end

namespace BlockBitmap

/-- What the loop over the bits of a byte takes. -/
structure TakesOf (before : Bytes) (want : Nat) (result : List Nat × Bytes) : Prop where
  takes : before.Takes result.1 result.2
  few : result.1.length ≤ want

theorem takeBits_takes {byte want : Nat} {bits : List Nat} {bytes : Bytes} (some : 0 < want) :
    TakesOf bytes want (takeBits byte want bits bytes) ∧
      (∀ index ∈ (takeBits byte want bits bytes).1, ∃ bit ∈ bits, index = byte * 8 + bit) ∧
      ((∃ bit ∈ bits, bytes.bitAt (byte * 8 + bit) = false) → (takeBits byte want bits bytes).1 ≠ []) := by
  induction bits generalizing want bytes with
  | nil =>
    refine ⟨⟨Bytes.Takes.nil bytes, Nat.zero_le _⟩, forall_mem_nil _, ?_⟩
    rintro ⟨bit, member, _⟩
    exact absurd member not_mem_nil
  | cons bit bits ih =>
    rw [takeBits]
    dsimp only
    by_cases set : bytes.bitAt (byte * 8 + bit) = true
    · rw [if_pos set]
      obtain ⟨takes, among, progress⟩ := @ih want bytes some
      refine ⟨takes, ?_, ?_⟩
      · intro index member
        obtain ⟨other, present, same⟩ := among index member
        exact ⟨other, mem_cons_of_mem _ present, same⟩
      · rintro ⟨other, member, clear⟩
        rcases mem_cons.1 member with same | later
        · rw [same, set] at clear
          exact absurd clear.symm Bool.false_ne_true
        · exact progress ⟨other, later, clear⟩
    · have clear : bytes.bitAt (byte * 8 + bit) = false := Bool.eq_false_iff.2 set
      rw [if_neg set]
      by_cases last : want = 1
      · rw [if_pos last]
        refine ⟨⟨Bytes.Takes.single clear, Nat.le_of_eq last.symm⟩, ?_, fun _ => cons_ne_nil _ _⟩
        intro index member
        exact ⟨bit, mem_cons_self, mem_singleton.1 member⟩
      · have more : 0 < want - 1 := by omega
        obtain ⟨takes, among, _⟩ := @ih _ (bytes.setBit (byte * 8 + bit)) more
        rw [if_neg last]
        refine ⟨⟨(Bytes.Takes.single clear).append takes.takes, ?_⟩, ?_, fun _ => cons_ne_nil _ _⟩
        · have few := takes.few
          rw [length_cons]
          omega
        · intro index member
          rcases mem_cons.1 member with same | later
          · exact ⟨bit, mem_cons_self, same⟩
          · obtain ⟨other, present, same⟩ := among index later
            exact ⟨other, mem_cons_of_mem _ present, same⟩

theorem takeWords_takes {want : Nat} {words : List Nat} {bytes : Bytes} (small : ∀ word ∈ words, word < blkbmpWords) :
    TakesOf bytes want (takeWords want words bytes) ∧
      (∀ index ∈ (takeWords want words bytes).1, index < blocksPerGroup) ∧
      (0 < want → (∃ pos, pos / 64 ∈ words ∧ pos < blocksPerGroup ∧ bytes.bitAt pos = false) →
        (takeWords want words bytes).1 ≠ []) := by
  induction words generalizing want bytes with
  | nil =>
    refine ⟨⟨Bytes.Takes.nil bytes, Nat.zero_le _⟩, forall_mem_nil _, ?_⟩
    rintro _ ⟨pos, member, _⟩
    exact absurd member not_mem_nil
  | cons word words ih =>
    have tail : ∀ word ∈ words, word < blkbmpWords := fun word member => small word (mem_cons_of_mem _ member)
    have head : word < blkbmpWords := small word mem_cons_self
    have groups : blkbmpWords * 64 = blocksPerGroup + 16 := by decide
    rw [takeWords]
    by_cases none : want = 0
    · rw [if_pos none]
      refine ⟨⟨Bytes.Takes.nil bytes, Nat.zero_le _⟩, forall_mem_nil _, ?_⟩
      intro some
      exact absurd none (Nat.ne_of_gt some)
    · have some : 0 < want := Nat.pos_of_ne_zero none
      rw [if_neg none]
      cases found : freeByte bytes blkbmpWords word with
      | none =>
        obtain ⟨takes, among, progress⟩ := @ih want bytes tail
        refine ⟨takes, among, ?_⟩
        rintro _ ⟨pos, member, below, clear⟩
        rcases mem_cons.1 member with same | later
        · have set := freeByte_none found same (by omega)
          exact absurd (clear.symm.trans set) Bool.false_ne_true
        · exact progress some ⟨pos, later, below, clear⟩
      | some byte =>
        obtain ⟨within, free⟩ := freeByte_some found
        obtain ⟨_, below⟩ := mem_wordBytes head within
        obtain ⟨takes, bits, progress⟩ := @takeBits_takes byte want (List.range 8) bytes some
        obtain ⟨bit, inByte, clear⟩ := Bytes.exists_clear free
        have taken := progress ⟨bit, mem_range.2 inByte, clear⟩
        obtain ⟨more, among, _⟩ := @ih (want - (takeBits byte want (List.range 8) bytes).1.length)
          (takeBits byte want (List.range 8) bytes).2 tail
        dsimp only
        refine ⟨⟨takes.takes.append more.takes, ?_⟩, ?_, fun _ _ => append_ne_nil_of_left_ne_nil taken _⟩
        · have few := takes.few
          have fewMore := more.few
          rw [length_append]
          omega
        · intro index member
          rcases mem_append.1 member with early | late
          · obtain ⟨bit, member, same⟩ := bits index early
            have bound := mem_range.1 member
            omega
          · exact among index late

/-- The count is right, and the blocks of the bitmap are taken. -/
structure Counted (bmp : BlockBitmap) : Prop where
  free : bmp.free = (bmp.bytes.clearBits blkbmpBlknum blocksPerGroup).card
  reserved : ∀ pos < blkbmpBlknum, bmp.bytes.bitAt pos = true

variable {bmp : BlockBitmap}

/-- `AllocBlocks` of a bitmap whose count is right takes blocks that were free, and some if there is one. -/
structure Allocates (bmp : BlockBitmap) (want : Nat) (taken : List Nat) (after : BlockBitmap) : Prop where
  takes : bmp.bytes.Takes taken after.bytes
  among : ∀ index ∈ taken, blkbmpBlknum ≤ index ∧ index < blocksPerGroup
  few : taken.length ≤ want
  some : taken ≠ []
  counted : after.Counted
  count : after.free + taken.length = bmp.free

theorem Counted.take (counted : bmp.Counted) {taken : List Nat} {after : Bytes}
    (takes : bmp.bytes.Takes taken after) (below : ∀ index ∈ taken, index < blocksPerGroup) :
    (∀ index ∈ taken, blkbmpBlknum ≤ index ∧ index < blocksPerGroup) ∧ taken.length ≤ bmp.free ∧
      Counted ⟨after, bmp.free - taken.length⟩ := by
  have among : ∀ index ∈ taken, blkbmpBlknum ≤ index ∧ index < blocksPerGroup := by
    intro index member
    refine ⟨Nat.le_of_not_lt fun reserved => ?_, below index member⟩
    exact Bool.false_ne_true ((takes.clear index member).symm.trans (counted.reserved index reserved))
  have card := takes.card among
  rw [← counted.free] at card
  refine ⟨among, by omega, ?_, ?_⟩
  · show bmp.free - taken.length = (after.clearBits blkbmpBlknum blocksPerGroup).card
    omega
  · intro pos reserved
    show after.bitAt pos = true
    rw [takes.bits, counted.reserved pos reserved, Bool.true_or]

theorem Counted.allocBlocks (counted : bmp.Counted) {want : Nat} (wanted : 0 < want) (free : 0 < bmp.free) :
    ∃ taken after, bmp.allocBlocks want =
        (if taken.length = want then .success else .moreProcessNeeded, taken, after) ∧
      bmp.Allocates want taken after := by
  have words : ∀ word ∈ List.range blkbmpWords, word < blkbmpWords := fun word member => mem_range.1 member
  obtain ⟨takes, below, progress⟩ := @takeWords_takes want (List.range blkbmpWords) bmp.bytes words
  obtain ⟨among, enough, after⟩ := counted.take takes.takes below
  have clear : ∃ pos, pos / 64 ∈ List.range blkbmpWords ∧ pos < blocksPerGroup ∧ bmp.bytes.bitAt pos = false := by
    rw [counted.free] at free
    obtain ⟨pos, member⟩ := Finset.card_pos.1 free
    obtain ⟨⟨_, inside⟩, clear⟩ := Bytes.mem_clearBits.1 member
    have groups : blkbmpWords * 64 = blocksPerGroup + 16 := by decide
    exact ⟨pos, mem_range.2 (by omega), inside, clear⟩
  have present := progress wanted clear
  have few := takes.few
  have moved := takes.takes
  rw [BlockBitmap.allocBlocks, if_neg (Nat.ne_of_gt wanted), if_neg (Nat.ne_of_gt free)]
  generalize takeWords want (List.range blkbmpWords) bmp.bytes = result at *
  obtain ⟨taken, bytes⟩ := result
  dsimp only at *
  rw [if_neg (Nat.not_lt.2 enough)]
  exact ⟨taken, ⟨bytes, bmp.free - taken.length⟩, rfl, moved, among, few, present, after, Nat.sub_add_cancel enough⟩

end BlockBitmap

end RpcFrmwrk.Registry
