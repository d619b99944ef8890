import RpcFrmwrk.Registry.BlkAllocRuns

/-! The end of a check of a registry file, which frees orphan blocks and shrinks the file. Owns
`ClaimOrphanBlocks` and `CollectBlockGroups`; `Keeps`, what is to hold of the length to which the
file is cut. -/

namespace RpcFrmwrk.Registry

open RpcFrmwrk.Library List

namespace BlkAlloc

def claimBlk (bClaimOrphans : Bool) (setBlocks : Nat → Bool) (dwGrpIdx : Nat) (pbit : BlockBitmap) (i : Nat) : BlockBitmap :=
  if pbit.isBlockFree i then pbit
  else if setBlocks (dwGrpIdx * blocksPerGroupFull + i) then pbit
  else if bClaimOrphans then pbit.freeBlocks [i]
  else pbit

def claimGrp (bClaimOrphans : Bool) (setBlocks : Nat → Bool) (grp : Nat × BlockBitmap) : Nat × BlockBitmap :=
  (grp.1, (List.range' blkbmpBlknum BlockBitmap.blocks).foldl (claimBlk bClaimOrphans setBlocks grp.1) grp.2)

/-- `CollectBlockGroups`. -/
def collectBlockGroups (grpBmp : GroupBitmap) : List Nat :=
  (List.range (grpbmpSize - 2)).filter fun i => !grpBmp.isBlockGroupFree i

/-- `dwMaxAlloced * GROUP_SIZE + SUPER_BLOCK_SIZE + GRPBMP_SIZE`, of which every operand is a `guint32`. -/
def tail (dwMaxAlloced : Nat) : Nat := (dwMaxAlloced * groupSize % 2 ^ 32 + superBlockSize + grpbmpSize) % 2 ^ 32

def freeEmptyGrps (bClaimOrphans : Bool) (setBlocks : Nat → Bool) (alloc : BlkAlloc) : BlkAlloc :=
  let grps := alloc.grps.map (claimGrp bClaimOrphans setBlocks)
  let vecFreeGrps := (grps.filter fun grp => grp.2.isEmpty).map Prod.fst
  ⟨grps.filter fun grp => !vecFreeGrps.contains grp.1, vecFreeGrps.foldl GroupBitmap.freeGroup alloc.grpBmp⟩

/-- `ClaimOrphanBlocks`: the allocator, and the length to which the file is cut. -/
def claimOrphanBlocks (bClaimOrphans : Bool) (setBlocks : Nat → Bool) (stSize : Nat) (alloc : BlkAlloc) :
    BlkAlloc × Option Nat :=
  let after := alloc.freeEmptyGrps bClaimOrphans setBlocks
  match (collectBlockGroups after.grpBmp).getLast? with
  | none => (after, none)
  | some back =>
    let qwTail := tail (back + 1)
    (after, if qwTail < stSize then some qwTail else none)

/-- The blocks of the bitmaps, and the blocks that are allocated, before the claim or after it, are
in front of the end. -/
structure Keeps (setBlocks : Nat → Bool) (alloc after : BlkAlloc) (length : Nat) : Prop where
  bitmaps : ∀ dwGrpIdx < blkgrpNumber, after.grpBmp.isBlockGroupFree dwGrpIdx = false → ∀ index < blkbmpBlknum,
    blockAbs (dwGrpIdx * blocksPerGroupFull + index) + blockSize ≤ length
  taken : ∀ blkIdx, Allocatable blkIdx → after.Taken blkIdx → blockAbs blkIdx + blockSize ≤ length
  inodes : ∀ blkIdx, Allocatable blkIdx → alloc.Taken blkIdx → setBlocks blkIdx = true →
    blockAbs blkIdx + blockSize ≤ length

def Shrinks (bClaimOrphans : Bool) (setBlocks : Nat → Bool) (alloc : BlkAlloc) : Prop :=
  ∀ stSize length, (alloc.claimOrphanBlocks bClaimOrphans setBlocks stSize).2 = some length →
    Keeps setBlocks alloc (alloc.claimOrphanBlocks bClaimOrphans setBlocks stSize).1 length

def Remains (bClaimOrphans : Bool) (setBlocks : Nat → Bool) (alloc : BlkAlloc) (dwGrpIdx : Nat) : Prop :=
  ∃ blkIdx, Allocatable blkIdx ∧ blkIdx / blocksPerGroupFull = dwGrpIdx ∧ alloc.Taken blkIdx ∧
    (bClaimOrphans = true → setBlocks blkIdx = true)

/-- The number of groups that `CollectBlockGroups` looks at, one for each byte of the bitmap. -/
def collectedGrps : Nat := 510

/-! ### The groups that are left -/

section

variable {bClaimOrphans : Bool} {setBlocks : Nat → Bool} {bmp : BlockBitmap} {dwGrpIdx : Nat}

theorem isBlockFree_iff (counted : bmp.Counted) {index : Nat} (above : blkbmpBlknum ≤ index)
    (below : index < blocksPerGroup) : bmp.isBlockFree index = !bmp.bytes.bitAt index := by
  rw [BlockBitmap.isBlockFree]
  by_cases all : bmp.free = BlockBitmap.blocks
  · have clear := Bytes.clear_of_card (counted.free.symm.trans all) above below
    rw [decide_eq_true all, clear]
    rfl
  · rw [decide_eq_false all, Bool.false_or]

theorem bitAt_freeBlocks (counted : bmp.Counted) {index : Nat} (above : blkbmpBlknum ≤ index)
    (below : index < blocksPerGroup) (set : bmp.bytes.bitAt index = true) :
    (bmp.freeBlocks [index]).Counted ∧
      ∀ pos, (bmp.freeBlocks [index]).bytes.bitAt pos = (bmp.bytes.bitAt pos && !decide (pos = index)) := by
  have size : blocksPerGroupFull = 65536 := by decide
  have last : blocksPerGroup = 65520 := by decide
  have first : blkbmpBlknum = 16 := by decide
  have place : blockIndex index = index := by
    rw [blockIndex, size]
    omega
  have frees : bmp.FreesOne index := by
    refine .inr (.inr ⟨?_, ?_⟩)
    · rw [place]
      exact ⟨above, below⟩
    · rw [place]
      exact set
  refine ⟨counted.freeBlocks fun _ => ⟨frees, trivial⟩, ?_⟩
  have some : bmp.free ≠ BlockBitmap.blocks := by
    intro all
    have clear := Bytes.clear_of_card (counted.free.symm.trans all) above below
    exact Bool.false_ne_true (clear.symm.trans set)
  have byte : bmp.bytes (index / 8) ≠ 0 := by
    intro zero
    rw [Bytes.bitAt, zero] at set
    exact Bool.false_ne_true (BitVec.getLsbD_zero.symm.trans set)
  intro pos
  rw [BlockBitmap.freeBlocks, if_neg some, foldl_cons, foldl_nil, BlockBitmap.freeOne, place,
    if_neg (by omega), if_neg byte]
  exact Bytes.bitAt_clearBit bmp.bytes index pos

theorem bitAt_claimBlk (counted : bmp.Counted) {index : Nat} (above : blkbmpBlknum ≤ index)
    (below : index < blocksPerGroup) :
    (claimBlk bClaimOrphans setBlocks dwGrpIdx bmp index).Counted ∧
      ∀ pos, (claimBlk bClaimOrphans setBlocks dwGrpIdx bmp index).bytes.bitAt pos =
        (bmp.bytes.bitAt pos &&
          !(decide (pos = index) && bClaimOrphans && !setBlocks (dwGrpIdx * blocksPerGroupFull + pos))) := by
  rw [claimBlk, isBlockFree_iff counted above below]
  cases set : bmp.bytes.bitAt index with
  | false =>
    refine ⟨counted, ?_⟩
    intro pos
    by_cases same : pos = index
    · rw [same, Bool.not_false, if_pos rfl, set, Bool.false_and]
    · rw [Bool.not_false, if_pos rfl, decide_eq_false same, Bool.false_and, Bool.false_and, Bool.not_false, Bool.and_true]
  | true =>
    rw [Bool.not_true, if_neg Bool.false_ne_true]
    cases used : setBlocks (dwGrpIdx * blocksPerGroupFull + index) with
    | true =>
      refine ⟨counted, ?_⟩
      intro pos
      by_cases same : pos = index
      · rw [if_pos rfl, same, used, Bool.not_true, Bool.and_false, Bool.not_false, Bool.and_true]
      · rw [if_pos rfl, decide_eq_false same, Bool.false_and, Bool.false_and, Bool.not_false, Bool.and_true]
    | false =>
      rw [if_neg Bool.false_ne_true]
      cases bClaimOrphans with
      | false =>
        refine ⟨counted, ?_⟩
        intro pos
        rw [if_neg Bool.false_ne_true, Bool.and_false, Bool.false_and, Bool.not_false, Bool.and_true]
      | true =>
        obtain ⟨freed, bits⟩ := bitAt_freeBlocks counted above below set
        refine ⟨freed, ?_⟩
        intro pos
        rw [if_pos rfl, bits pos, Bool.and_true]
        by_cases same : pos = index
        · rw [same, used, Bool.not_false, Bool.and_true]
        · rw [decide_eq_false same, Bool.false_and]

theorem bitAt_claimBlks (counted : bmp.Counted) {indexes : List Nat}
    (among : ∀ index ∈ indexes, blkbmpBlknum ≤ index ∧ index < blocksPerGroup) :
    (indexes.foldl (claimBlk bClaimOrphans setBlocks dwGrpIdx) bmp).Counted ∧
      ∀ pos, (indexes.foldl (claimBlk bClaimOrphans setBlocks dwGrpIdx) bmp).bytes.bitAt pos =
        (bmp.bytes.bitAt pos &&
          !(decide (pos ∈ indexes) && bClaimOrphans && !setBlocks (dwGrpIdx * blocksPerGroupFull + pos))) := by
  induction indexes generalizing bmp with
  | nil =>
    refine ⟨counted, ?_⟩
    intro pos
    rw [decide_eq_false not_mem_nil, Bool.false_and, Bool.false_and, Bool.not_false, Bool.and_true]
    rfl
  | cons index rest ih =>
    obtain ⟨⟨above, below⟩, others⟩ := forall_mem_cons.1 among
    obtain ⟨after, bits⟩ := @bitAt_claimBlk bClaimOrphans setBlocks bmp dwGrpIdx counted index above below
    obtain ⟨last, later⟩ := ih after others
    rw [foldl_cons]
    refine ⟨last, ?_⟩
    intro pos
    have either : decide (pos ∈ index :: rest) = (decide (pos = index) || decide (pos ∈ rest)) := by
      rw [← Bool.decide_or, decide_eq_decide, mem_cons]
    rw [later pos, bits pos, either, Bool.and_assoc, ← Bool.not_or, Bool.and_or_distrib_right,
      Bool.and_or_distrib_right]

theorem claimGrp_fst (grp : Nat × BlockBitmap) : (claimGrp bClaimOrphans setBlocks grp).1 = grp.1 := by
  rw [claimGrp]

theorem claimGrp_spec {grp : Nat × BlockBitmap} (counted : grp.2.Counted) :
    (claimGrp bClaimOrphans setBlocks grp).2.Counted ∧
      ∀ index, blkbmpBlknum ≤ index → index < blocksPerGroup →
        ((claimGrp bClaimOrphans setBlocks grp).2.bytes.bitAt index = true ↔
          grp.2.bytes.bitAt index = true ∧
            (bClaimOrphans = true → setBlocks (grp.1 * blocksPerGroupFull + index) = true)) := by
  have size : blkbmpBlknum + BlockBitmap.blocks = blocksPerGroup := by decide
  have among : ∀ index ∈ List.range' blkbmpBlknum BlockBitmap.blocks, blkbmpBlknum ≤ index ∧ index < blocksPerGroup := by
    intro index member
    rw [mem_range'_1, size] at member
    exact member
  obtain ⟨after, bits⟩ := @bitAt_claimBlks bClaimOrphans setBlocks grp.2 grp.1 counted _ among
  rw [claimGrp]
  dsimp only
  refine ⟨after, ?_⟩
  intro index above below
  have member : index ∈ List.range' blkbmpBlknum BlockBitmap.blocks := by
    rw [mem_range'_1, size]
    exact ⟨above, below⟩
  rw [bits index, decide_eq_true member, Bool.true_and, Bool.and_eq_true, Bool.not_eq_true']
  apply and_congr_right
  intro _
  cases bClaimOrphans with
  | false => exact ⟨fun _ never => absurd never Bool.false_ne_true, fun _ => rfl⟩
  | true =>
    rw [Bool.true_and, Bool.not_eq_false']
    exact ⟨fun used _ => used, fun used => used rfl⟩

theorem isEmpty_iff (counted : bmp.Counted) :
    bmp.isEmpty = false ↔ ∃ index, (blkbmpBlknum ≤ index ∧ index < blocksPerGroup) ∧ bmp.bytes.bitAt index = true := by
  rw [BlockBitmap.isEmpty, decide_eq_false_iff_not]
  constructor
  · intro some
    apply Classical.byContradiction
    intro none
    apply some
    have clear : ∀ index, blkbmpBlknum ≤ index → index < blocksPerGroup → bmp.bytes.bitAt index = false := by
      intro index above below
      exact Bool.eq_false_iff.2 fun set => none ⟨index, ⟨above, below⟩, set⟩
    have all : _ = blocksPerGroup - blkbmpBlknum := Bytes.card_of_clear clear
    exact counted.free.trans all
  · rintro ⟨index, ⟨above, below⟩, set⟩ all
    have clear := Bytes.clear_of_card (counted.free.symm.trans all) above below
    exact Bool.false_ne_true (clear.symm.trans set)

end

section

variable {grpBmp : GroupBitmap}

theorem isBlockGroupFree_iff (counted : grpBmp.Counted) {dwGrpIdx : Nat} (below : dwGrpIdx < blkgrpNumber) :
    grpBmp.isBlockGroupFree dwGrpIdx = !grpBmp.bytes.bitAt dwGrpIdx := by
  rw [GroupBitmap.isBlockGroupFree, decide_eq_true below, Bool.true_and]
  by_cases all : grpBmp.free = blkgrpNumber
  · have clear := Bytes.clear_of_card (counted.symm.trans all) (Nat.zero_le _) below
    rw [decide_eq_true all, clear]
    rfl
  · rw [decide_eq_false all, Bool.false_or]

theorem bitAt_freeGroup (counted : grpBmp.Counted) {dwGrpIdx : Nat} (below : dwGrpIdx < blkgrpNumber)
    (set : grpBmp.bytes.bitAt dwGrpIdx = true) :
    (grpBmp.freeGroup dwGrpIdx).Counted ∧
      ∀ pos, (grpBmp.freeGroup dwGrpIdx).bytes.bitAt pos = (grpBmp.bytes.bitAt pos && !decide (pos = dwGrpIdx)) := by
  have some : grpBmp.free ≠ blkgrpNumber := by
    intro all
    have clear := Bytes.clear_of_card (counted.symm.trans all) (Nat.zero_le _) below
    exact Bool.false_ne_true (clear.symm.trans set)
  have byte : grpBmp.bytes (dwGrpIdx / 8) ≠ 0 := by
    intro zero
    rw [Bytes.bitAt, zero] at set
    exact Bool.false_ne_true (BitVec.getLsbD_zero.symm.trans set)
  have outside : ¬(grpBmp.free = blkgrpNumber ∨ blkgrpNumber ≤ dwGrpIdx) := not_or.2 ⟨some, Nat.not_le.2 below⟩
  have card := Bytes.card_clearBit (Nat.zero_le _) below set
  have most := @Bytes.card_clearBits_le (grpBmp.bytes.clearBit dwGrpIdx) 0 blkgrpNumber
  have room : blkgrpNumber - 0 < 2 ^ 16 := by decide
  rw [GroupBitmap.freeGroup, if_neg outside, if_neg byte]
  refine ⟨?_, fun pos => Bytes.bitAt_clearBit grpBmp.bytes dwGrpIdx pos⟩
  show (grpBmp.free + 1) % 2 ^ 16 = ((grpBmp.bytes.clearBit dwGrpIdx).clearBits 0 blkgrpNumber).card
  rw [GroupBitmap.Counted] at counted
  rw [counted, ← card, Nat.mod_eq_of_lt (Nat.lt_of_le_of_lt most room)]

theorem bitAt_freeGroups (counted : grpBmp.Counted) {freed : List Nat} (nodup : freed.Nodup)
    (taken : ∀ dwGrpIdx ∈ freed, dwGrpIdx < blkgrpNumber ∧ grpBmp.bytes.bitAt dwGrpIdx = true) :
    (freed.foldl GroupBitmap.freeGroup grpBmp).Counted ∧
      ∀ pos, (freed.foldl GroupBitmap.freeGroup grpBmp).bytes.bitAt pos =
        (grpBmp.bytes.bitAt pos && !decide (pos ∈ freed)) := by
  induction freed generalizing grpBmp with
  | nil =>
    refine ⟨counted, ?_⟩
    intro pos
    rw [decide_eq_false not_mem_nil, Bool.not_false, Bool.and_true]
    rfl
  | cons dwGrpIdx freed ih =>
    obtain ⟨absent, distinct⟩ := nodup_cons.1 nodup
    obtain ⟨⟨below, set⟩, others⟩ := forall_mem_cons.1 taken
    obtain ⟨after, bits⟩ := bitAt_freeGroup counted below set
    have rest : ∀ other ∈ freed, other < blkgrpNumber ∧ (grpBmp.freeGroup dwGrpIdx).bytes.bitAt other = true := by
      intro other member
      obtain ⟨small, isSet⟩ := others other member
      have different : other ≠ dwGrpIdx := fun same => absent (same ▸ member)
      refine ⟨small, ?_⟩
      rw [bits, isSet, decide_eq_false different]
      rfl
    obtain ⟨last, later⟩ := ih after distinct rest
    rw [foldl_cons]
    refine ⟨last, ?_⟩
    intro pos
    have either : decide (pos ∈ dwGrpIdx :: freed) = (decide (pos = dwGrpIdx) || decide (pos ∈ freed)) := by
      rw [← Bool.decide_or, decide_eq_decide, mem_cons]
    rw [later pos, bits pos, either, Bool.and_assoc, ← Bool.not_or]

theorem collectBlockGroups_last (counted : grpBmp.Counted) {back : Nat} :
    (collectBlockGroups grpBmp).getLast? = some back ↔
      (back < collectedGrps ∧ grpBmp.bytes.bitAt back = true) ∧
        ∀ dwGrpIdx < collectedGrps, grpBmp.bytes.bitAt dwGrpIdx = true → dwGrpIdx ≤ back := by
  have size : grpbmpSize - 2 = collectedGrps := by decide
  have few : collectedGrps < blkgrpNumber := by decide
  have member : ∀ dwGrpIdx, dwGrpIdx ∈ collectBlockGroups grpBmp ↔
      dwGrpIdx < collectedGrps ∧ grpBmp.bytes.bitAt dwGrpIdx = true := by
    intro dwGrpIdx
    rw [collectBlockGroups, mem_filter, mem_range, size]
    apply and_congr_right
    intro below
    rw [isBlockGroupFree_iff counted (Nat.lt_trans below few), Bool.not_not]
  have sorted : (collectBlockGroups grpBmp).Pairwise (· < ·) := pairwise_lt_range.filter _
  have last : ∀ top, (collectBlockGroups grpBmp).getLast? = some top →
      top ∈ collectBlockGroups grpBmp ∧ ∀ dwGrpIdx ∈ collectBlockGroups grpBmp, dwGrpIdx ≤ top := by
    intro top isLast
    obtain ⟨front, split⟩ := List.getLast?_eq_some_iff.1 isLast
    rw [split] at sorted
    rw [split]
    refine ⟨mem_append_right _ mem_cons_self, ?_⟩
    intro dwGrpIdx among
    rcases mem_append.1 among with early | same
    · exact Nat.le_of_lt ((pairwise_append.1 sorted).2.2 dwGrpIdx early top mem_cons_self)
    · exact Nat.le_of_eq (mem_singleton.1 same)
  constructor
  · intro isLast
    obtain ⟨present, most⟩ := last back isLast
    exact ⟨(member back).1 present, fun dwGrpIdx below set => most dwGrpIdx ((member dwGrpIdx).2 ⟨below, set⟩)⟩
  · rintro ⟨inside, most⟩
    cases isLast : (collectBlockGroups grpBmp).getLast? with
    | none =>
      have present := (member back).2 inside
      rw [List.getLast?_eq_none_iff.1 isLast] at present
      exact absurd present not_mem_nil
    | some top =>
      obtain ⟨present, above⟩ := last top isLast
      obtain ⟨below, set⟩ := (member top).1 present
      rw [Nat.le_antisymm (most top below set) (above back ((member back).2 inside))]

end

/-! ### The end of the file -/

section

variable {alloc : BlkAlloc} {bClaimOrphans : Bool} {setBlocks : Nat → Bool}

/-- What is left of the groups. -/
structure Leaves (bClaimOrphans : Bool) (setBlocks : Nat → Bool) (alloc after : BlkAlloc) : Prop where
  counted : after.grpBmp.Counted
  groups : ∀ dwGrpIdx < blkgrpNumber,
    (after.grpBmp.bytes.bitAt dwGrpIdx = true ↔ Remains bClaimOrphans setBlocks alloc dwGrpIdx)
  taken : ∀ blkIdx, Allocatable blkIdx →
    (after.Taken blkIdx → alloc.Taken blkIdx ∧ (bClaimOrphans = true → setBlocks blkIdx = true))

theorem blkIdx_eq (blkIdx : Nat) : blkIdx / blocksPerGroupFull * blocksPerGroupFull + blockIndex blkIdx = blkIdx := by
  rw [blockIndex, Nat.mul_comm]
  exact Nat.div_add_mod _ _

theorem Sound.bmp_eq {grps : BlkGrps} (sound : Sound grps) {dwGrpIdx : Nat} {left right : BlockBitmap}
    (first : (dwGrpIdx, left) ∈ grps) (second : (dwGrpIdx, right) ∈ grps) : left = right := by
  induction grps with
  | nil => exact absurd first not_mem_nil
  | cons grp grps ih =>
    have before := (pairwise_cons.1 sound.sorted).1
    rcases mem_cons.1 first with same | later
    · rcases mem_cons.1 second with also | behind
      · exact (Prod.mk.inj (same.trans also.symm)).2
      · have order := before _ behind
        rw [← same] at order
        exact absurd order (Nat.lt_irrefl _)
    · rcases mem_cons.1 second with also | behind
      · have order := before _ later
        rw [← also] at order
        exact absurd order (Nat.lt_irrefl _)
      · exact ih sound.tail later behind

theorem Inv.remains_iff (inv : alloc.Inv) {grp : Nat × BlockBitmap} (member : grp ∈ alloc.grps) :
    (claimGrp bClaimOrphans setBlocks grp).2.isEmpty = false ↔ Remains bClaimOrphans setBlocks alloc grp.1 := by
  obtain ⟨after, bits⟩ := @claimGrp_spec bClaimOrphans setBlocks grp (inv.sound.counted grp member)
  have below := inv.sound.bounded grp member
  rw [isEmpty_iff after]
  constructor
  · rintro ⟨index, ⟨above, inside⟩, set⟩
    obtain ⟨isSet, used⟩ := (bits index above inside).1 set
    obtain ⟨group, place⟩ := @div_mod_of_lt grp.1 index inside
    refine ⟨grp.1 * blocksPerGroupFull + index, ⟨?_, ?_, ?_⟩, group, ⟨grp.2, ?_, ?_⟩, used⟩
    · rw [group]
      exact below
    · rw [place]
      exact above
    · rw [place]
      exact inside
    · rw [group]
      exact member
    · rw [place]
      exact isSet
  · rintro ⟨blkIdx, ⟨_, above, inside⟩, group, ⟨bmp, among, set⟩, used⟩
    have same : bmp = grp.2 := by
      rw [group] at among
      exact inv.sound.bmp_eq among member
    refine ⟨blockIndex blkIdx, ⟨above, inside⟩, (bits _ above inside).2 ⟨same ▸ set, ?_⟩⟩
    rw [← group, blkIdx_eq]
    exact used

theorem Inv.leaves (inv : alloc.Inv) :
    Leaves bClaimOrphans setBlocks alloc (alloc.freeEmptyGrps bClaimOrphans setBlocks) := by
  have keys : (alloc.grps.map (claimGrp bClaimOrphans setBlocks)).map Prod.fst = alloc.grps.map Prod.fst := by
    rw [map_map]
    exact map_congr_left fun grp _ => claimGrp_fst grp
  have distinct : (alloc.grps.map Prod.fst).Nodup := by
    have sorted := pairwise_map.2 inv.sound.sorted
    exact sorted.imp fun order => Nat.ne_of_lt order
  have freed : ∀ dwGrpIdx, dwGrpIdx ∈ ((alloc.grps.map (claimGrp bClaimOrphans setBlocks)).filter
        fun grp => grp.2.isEmpty).map Prod.fst ↔
      dwGrpIdx ∈ alloc.grps.map Prod.fst ∧ ¬Remains bClaimOrphans setBlocks alloc dwGrpIdx := by
    intro dwGrpIdx
    constructor
    · intro among
      obtain ⟨grp, member, same⟩ := mem_map.1 among
      obtain ⟨mapped, empty⟩ := mem_filter.1 member
      obtain ⟨old, present, claimed⟩ := mem_map.1 mapped
      have key : old.1 = dwGrpIdx := by
        rw [← same, ← claimed, claimGrp_fst]
      refine ⟨key ▸ mem_map_of_mem present, ?_⟩
      rw [← key, ← inv.remains_iff present, claimed, empty]
      exact Bool.noConfusion
    · rintro ⟨among, gone⟩
      obtain ⟨old, present, key⟩ := mem_map.1 among
      rw [← key, ← inv.remains_iff present, Bool.not_eq_false] at gone
      have claimed := @claimGrp_fst bClaimOrphans setBlocks old
      exact mem_map.2 ⟨_, mem_filter.2 ⟨mem_map_of_mem present, gone⟩, claimed.trans key⟩
  have nodup : (((alloc.grps.map (claimGrp bClaimOrphans setBlocks)).filter
      fun grp => grp.2.isEmpty).map Prod.fst).Nodup := by
    rw [← keys] at distinct
    exact distinct.sublist (filter_sublist.map _)
  have bounded : ∀ dwGrpIdx ∈ alloc.grps.map Prod.fst, dwGrpIdx < blkgrpNumber ∧
      alloc.grpBmp.bytes.bitAt dwGrpIdx = true := by
    intro dwGrpIdx among
    obtain ⟨old, present, key⟩ := mem_map.1 among
    have below := inv.sound.bounded old present
    rw [key] at below
    exact ⟨below, (inv.groups dwGrpIdx below).2 among⟩
  obtain ⟨counted, bits⟩ := bitAt_freeGroups inv.counted nodup
    (fun dwGrpIdx among => bounded dwGrpIdx ((freed dwGrpIdx).1 among).1)
  refine ⟨counted, ?_, ?_⟩
  · intro dwGrpIdx below
    rw [freeEmptyGrps]
    dsimp only
    rw [bits, Bool.and_eq_true, Bool.not_eq_true', decide_eq_false_iff_not, freed, inv.groups dwGrpIdx below]
    constructor
    · rintro ⟨among, left⟩
      exact Classical.byContradiction fun gone => left ⟨among, gone⟩
    · intro remains
      refine ⟨?_, fun both => both.2 remains⟩
      obtain ⟨blkIdx, _, group, ⟨bmp, member, _⟩, _⟩ := remains
      rw [← group]
      exact mem_map_of_mem member
  · rintro blkIdx ⟨_, above, inside⟩ ⟨bmp, member, set⟩
    obtain ⟨mapped, _⟩ := mem_filter.1 member
    obtain ⟨old, present, claimed⟩ := mem_map.1 mapped
    obtain ⟨_, blocks⟩ := @claimGrp_spec bClaimOrphans setBlocks old (inv.sound.counted old present)
    have key : old.1 = blkIdx / blocksPerGroupFull := (claimGrp_fst old).symm.trans (congrArg Prod.fst claimed)
    have bitmap : (claimGrp bClaimOrphans setBlocks old).2 = bmp := congrArg Prod.snd claimed
    obtain ⟨isSet, used⟩ := (blocks (blockIndex blkIdx) above inside).1 (bitmap ▸ set)
    rw [key, blkIdx_eq] at used
    exact ⟨⟨old.2, key ▸ present, isSet⟩, used⟩

/-- The end of a block is not behind the length if its group is in front of the last one, where both
are told apart only by what is left of 128. -/
theorem blockEnd_le_iff {dwGrpIdx index back : Nat} (inside : index < blocksPerGroup)
    (small : dwGrpIdx < blkgrpNumber) :
    blockAbs (dwGrpIdx * blocksPerGroupFull + index) + blockSize ≤ tail (back + 1) ↔
      dwGrpIdx % addressedGroups < (back + 1) % addressedGroups := by
  obtain ⟨group, place⟩ := @div_mod_of_lt dwGrpIdx index inside
  have few : blkgrpNumber ≤ blkgrpNumberFull := by decide
  have last : blocksPerGroup = 65520 := by decide
  rw [blockAbs, groupStart, groupIndex, group, place, Nat.mod_eq_of_lt (Nat.lt_of_lt_of_le small few), tail]
  unfold groupSize superBlockSize grpbmpSize addressedGroups blocksPerGroupFull blockSize blkgrpNumberFull
  omega

theorem claimOrphanBlocks_some {back stSize : Nat}
    (last : (collectBlockGroups (alloc.freeEmptyGrps bClaimOrphans setBlocks).grpBmp).getLast? = some back) :
    alloc.claimOrphanBlocks bClaimOrphans setBlocks stSize =
      (alloc.freeEmptyGrps bClaimOrphans setBlocks, if tail (back + 1) < stSize then some (tail (back + 1)) else none) := by
  unfold claimOrphanBlocks
  simp only [last]

theorem claimOrphanBlocks_none {stSize : Nat}
    (last : (collectBlockGroups (alloc.freeEmptyGrps bClaimOrphans setBlocks).grpBmp).getLast? = none) :
    alloc.claimOrphanBlocks bClaimOrphans setBlocks stSize = (alloc.freeEmptyGrps bClaimOrphans setBlocks, none) := by
  unfold claimOrphanBlocks
  simp only [last]

theorem Inv.cuts_iff (inv : alloc.Inv) :
    alloc.Shrinks bClaimOrphans setBlocks ↔
      ∀ back < collectedGrps, Remains bClaimOrphans setBlocks alloc back →
        (∀ dwGrpIdx < collectedGrps, Remains bClaimOrphans setBlocks alloc dwGrpIdx → dwGrpIdx ≤ back) →
        ∀ dwGrpIdx, Remains bClaimOrphans setBlocks alloc dwGrpIdx →
          dwGrpIdx % addressedGroups < (back + 1) % addressedGroups := by
  have leaves := @Inv.leaves alloc bClaimOrphans setBlocks inv
  have few : collectedGrps < blkgrpNumber := by decide
  have reserved : 0 < blkbmpBlknum := by decide
  have inGroup : blkbmpBlknum ≤ blocksPerGroup := by decide
  have bounded : ∀ dwGrpIdx, Remains bClaimOrphans setBlocks alloc dwGrpIdx → dwGrpIdx < blkgrpNumber := by
    rintro dwGrpIdx ⟨blkIdx, allocatable, group, _⟩
    rw [← group]
    exact allocatable.1
  constructor
  · intro shrinks back below remains most dwGrpIdx other
    have last : (collectBlockGroups (alloc.freeEmptyGrps bClaimOrphans setBlocks).grpBmp).getLast? = some back := by
      apply (collectBlockGroups_last leaves.counted).2
      refine ⟨⟨below, (leaves.groups back (Nat.lt_trans below few)).2 remains⟩, ?_⟩
      intro group inside set
      exact most group inside ((leaves.groups group (Nat.lt_trans inside few)).1 set)
    have small := bounded dwGrpIdx other
    have keeps := shrinks (tail (back + 1) + 1) (tail (back + 1))
    rw [claimOrphanBlocks_some last, if_pos (Nat.lt_add_one (tail (back + 1)))] at keeps
    have keeps := keeps rfl
    have taken : (alloc.freeEmptyGrps bClaimOrphans setBlocks).grpBmp.isBlockGroupFree dwGrpIdx = false := by
      rw [isBlockGroupFree_iff leaves.counted small, (leaves.groups dwGrpIdx small).2 other]
      rfl
    exact (blockEnd_le_iff (Nat.lt_of_lt_of_le reserved inGroup) small).1 (keeps.bitmaps dwGrpIdx small taken 0 reserved)
  · intro condition stSize length cut
    cases last : (collectBlockGroups (alloc.freeEmptyGrps bClaimOrphans setBlocks).grpBmp).getLast? with
    | none =>
      rw [claimOrphanBlocks_none last] at cut
      cases cut
    | some back =>
      rw [claimOrphanBlocks_some last] at cut ⊢
      obtain ⟨_, cut⟩ := Option.ite_none_right_eq_some.1 cut
      rw [← Option.some.inj cut]
      obtain ⟨⟨below, set⟩, most⟩ := (collectBlockGroups_last leaves.counted).1 last
      have inFront := condition back below ((leaves.groups back (Nat.lt_trans below few)).1 set) fun dwGrpIdx inside other =>
        most dwGrpIdx inside ((leaves.groups dwGrpIdx (Nat.lt_trans inside few)).2 other)
      have ends : ∀ blkIdx, Allocatable blkIdx → alloc.Taken blkIdx →
          (bClaimOrphans = true → setBlocks blkIdx = true) → blockAbs blkIdx + blockSize ≤ tail (back + 1) := by
        intro blkIdx allocatable taken used
        have remains : Remains bClaimOrphans setBlocks alloc (blkIdx / blocksPerGroupFull) :=
          ⟨blkIdx, allocatable, rfl, taken, used⟩
        rw [← blkIdx_eq blkIdx]
        exact (blockEnd_le_iff allocatable.2.2 allocatable.1).2 (inFront _ remains)
      refine ⟨?_, ?_, ?_⟩
      · intro dwGrpIdx small taken index inBitmap
        rw [isBlockGroupFree_iff leaves.counted small, Bool.not_eq_false'] at taken
        exact (blockEnd_le_iff (Nat.lt_of_lt_of_le inBitmap inGroup) small).2
          (inFront dwGrpIdx ((leaves.groups dwGrpIdx small).1 taken))
      · intro blkIdx allocatable taken
        obtain ⟨before, used⟩ := leaves.taken blkIdx allocatable taken
        exact ends blkIdx allocatable before used
      · intro blkIdx allocatable taken used
        exact ends blkIdx allocatable taken fun _ => used

/-- The file is only cut behind its blocks if and only if no group that remains is collected, or the
group of each block, up to a multiple of 128, is not behind the last one that is collected. -/
theorem shrinks_iff (reached : (machine.restrict Fits).Reachable alloc) (bClaimOrphans : Bool) (setBlocks : Nat → Bool) :
    alloc.Shrinks bClaimOrphans setBlocks ↔
      ∀ back < collectedGrps, Remains bClaimOrphans setBlocks alloc back →
        (∀ dwGrpIdx < collectedGrps, Remains bClaimOrphans setBlocks alloc dwGrpIdx → dwGrpIdx ≤ back) →
        ∀ dwGrpIdx, Remains bClaimOrphans setBlocks alloc dwGrpIdx →
          dwGrpIdx % addressedGroups < (back + 1) % addressedGroups :=
  (inv_of_fits reached).cuts_iff

end

theorem key_of_remains {alloc : BlkAlloc} {bClaimOrphans : Bool} {setBlocks : Nat → Bool} {dwGrpIdx : Nat}
    (remains : Remains bClaimOrphans setBlocks alloc dwGrpIdx) : dwGrpIdx ∈ alloc.grps.map Prod.fst := by
  obtain ⟨blkIdx, _, group, ⟨bmp, member, _⟩, _⟩ := remains
  rw [← group]
  exact mem_map_of_mem member

/-- A file of one group, in which an inode has one of two blocks. -/
theorem shrinks_oneGroup : ∃ alloc : BlkAlloc, alloc.grps.map Prod.fst = [0] ∧ alloc.Shrinks true (· == 16) := by
  have ran : ((machine.restrict Fits).run format [.allocBlocks .works 2]).map (fun alloc => alloc.grps.map Prod.fst) =
      some [0] := by
    decide +kernel
  obtain ⟨alloc, run, keys⟩ := Option.map_eq_some_iff.1 ran
  have only : ∀ dwGrpIdx, Remains true (· == 16) alloc dwGrpIdx → dwGrpIdx = 0 := by
    intro dwGrpIdx remains
    have member := key_of_remains remains
    rw [keys] at member
    exact mem_singleton.1 member
  refine ⟨alloc, keys, (shrinks_iff (Machine.Reachable.start.run run) true (· == 16)).2 ?_⟩
  intro back _ remains _ dwGrpIdx other
  rw [only back remains, only dwGrpIdx other]
  decide

/-! ### A file of many groups -/

theorem each_allocGrps {grps : BlkGrps} {want : Nat} (sound : Sound grps) (few : givesAll grps 0 < want) :
    ∀ grp ∈ grps, 0 < grp.2.free → ∃ blkIdx ∈ (allocGrps want grps).1, blkIdx / blocksPerGroupFull = grp.1 := by
  induction grps generalizing want with
  | nil => exact forall_mem_nil _
  | cons first grps ih =>
    obtain ⟨dwGrpIdx, bmp⟩ := first
    have all : givesAll ((dwGrpIdx, bmp) :: grps) 0 = bmp.gives 0 + givesAll grps 0 := sum_cons
    have counted : bmp.Counted := sound.counted (dwGrpIdx, bmp) mem_cons_self
    rw [all] at few
    rw [allocGrps]
    by_cases none : bmp.free = 0
    · rw [if_pos none]
      refine forall_mem_cons.2 ⟨fun free => absurd none (Nat.ne_of_gt free), ?_⟩
      exact ih sound.tail (by omega)
    · have free : 0 < bmp.free := Nat.pos_of_ne_zero none
      have some : 0 < min bmp.free want := Nat.lt_min.2 ⟨free, by omega⟩
      obtain ⟨idxs, after, answer, allocates⟩ := counted.allocBlocks some free
      have length := (BlockBitmap.gives_allocBlocks some free).1
      rw [answer] at length
      dsimp only at length
      have fine : (if idxs.length = min bmp.free want then AllocRet.success else .moreProcessNeeded).failed = false := by
        split
        · rfl
        · rfl
      have groups := @group_of_allocates (dwGrpIdx, bmp) _ idxs after allocates
      rw [if_neg none, answer]
      dsimp only
      rw [fine, if_neg Bool.false_ne_true, if_neg (by omega)]
      refine forall_mem_cons.2 ⟨?_, ?_⟩
      · intro _
        obtain ⟨index, member⟩ := exists_mem_of_ne_nil idxs allocates.some
        have mapped := mem_map_of_mem (f := (dwGrpIdx * blocksPerGroupFull + ·)) member
        exact ⟨_, mem_append_left _ mapped, groups _ mapped⟩
      · intro grp member free
        obtain ⟨blkIdx, among, group⟩ := @ih (want - idxs.length) sound.tail (by omega) grp member free
        exact ⟨blkIdx, mem_append_right _ among, group⟩

section

variable {alloc : BlkAlloc} {io : BlockIo} {rounds dwRest dwGrpIdx : Nat}

theorem Inv.each_allocLoop (inv : alloc.Inv) (few : givesAll alloc.grps 0 < dwRest) :
    ∀ grp ∈ alloc.grps, 0 < grp.2.free →
      ∃ blkIdx ∈ (BlkAlloc.allocLoop io (rounds + 1) dwRest alloc).2.1, blkIdx / blocksPerGroupFull = grp.1 := by
  have wanted : 0 < dwRest := by omega
  intro grp member free
  obtain ⟨blkIdx, among, group⟩ := each_allocGrps inv.sound few grp member free
  refine ⟨blkIdx, ?_, group⟩
  rw [inv.allocLoop_succ wanted]
  dsimp only
  split
  · exact among
  · split
    · exact mem_append_left _ among
    · exact among

theorem Sound.free_of_not_taken {grps : BlkGrps} (sound : Sound grps) {bmp : BlockBitmap}
    (member : (dwGrpIdx, bmp) ∈ grps) (clear : ∀ blkIdx, blkIdx / blocksPerGroupFull = dwGrpIdx → Allocatable blkIdx →
      ¬TakenIn grps blkIdx) : 0 < bmp.free := by
  apply Nat.pos_of_ne_zero
  intro none
  have counted : bmp.Counted := sound.counted _ member
  have below : dwGrpIdx < blkgrpNumber := sound.bounded _ member
  have inside : blkbmpBlknum < blocksPerGroup := by decide
  obtain ⟨group, place⟩ := @div_mod_of_lt dwGrpIdx blkbmpBlknum inside
  have allocatable : Allocatable (dwGrpIdx * blocksPerGroupFull + blkbmpBlknum) := by
    rw [Allocatable, group, place]
    exact ⟨below, Nat.le_refl _, inside⟩
  apply clear _ group allocatable
  refine ⟨bmp, group.symm ▸ member, ?_⟩
  rw [place]
  cases set : bmp.bytes.bitAt blkbmpBlknum with
  | true => rfl
  | false =>
    have empty := Finset.card_eq_zero.1 (counted.free.symm.trans none)
    have present := Bytes.mem_clearBits.2 ⟨⟨Nat.le_refl _, inside⟩, set⟩
    rw [empty] at present
    exact absurd present (Finset.notMem_empty _)

theorem Inv.newGrps_allocLoop (inv : alloc.Inv) (works : io.failing = [])
    (all : grpsFor (dwRest - givesAll alloc.grps 0) = alloc.grpBmp.freeGrps.length)
    (more : 8 * blkbmpWords * blkgrpNumber < dwRest - givesAll alloc.grps 0) (below : dwGrpIdx < blkgrpNumber)
    (absent : dwGrpIdx ∉ alloc.grps.map Prod.fst) :
    ∃ blkIdx ∈ (BlkAlloc.allocLoop io (rounds + 2) dwRest alloc).2.1, blkIdx / blocksPerGroupFull = dwGrpIdx := by
  have wanted : 0 < dwRest := by omega
  have allocs := allocsGrps inv.sound wanted
  have between := inv.of_keys allocs.sound allocs.keys
  have length := (gives_allocGrps inv.sound wanted).1
  rw [inv.allocLoop_succ wanted]
  generalize allocGrps dwRest alloc.grps = result at *
  obtain ⟨taken, grps⟩ := result
  dsimp only at *
  have rest : dwRest - taken.length = dwRest - givesAll alloc.grps 0 := by omega
  have made : (grow io (dwRest - taken.length) ⟨grps, alloc.grpBmp⟩).1 = true := by
    rw [rest]
    apply (between.createGrps_iff (Nat.lt_succ_self _)).2
    refine ⟨Nat.le_of_eq all, ?_⟩
    intro group _
    rw [BlockIo.formats, works]
    rfl
  have makes : MakesGrps _ _ (grow io (dwRest - taken.length) ⟨grps, alloc.grpBmp⟩).2 := between.makesGrps made
  rw [if_neg (by omega)]
  generalize grow io (dwRest - taken.length) ⟨grps, alloc.grpBmp⟩ = result at *
  obtain ⟨isMade, later⟩ := result
  dsimp only at *
  obtain ⟨grows, free, _⟩ := makes
  have noneFree : later.grpBmp.freeGrps = [] := by
    rw [free, rest, all]
    exact drop_length
  have set : later.grpBmp.bytes.bitAt dwGrpIdx = true := by
    cases clear : later.grpBmp.bytes.bitAt dwGrpIdx with
    | true => rfl
    | false =>
      have member : dwGrpIdx ∈ later.grpBmp.freeGrps := by
        rw [GroupBitmap.freeGrps, mem_filter, clear]
        exact ⟨mem_range.2 below, rfl⟩
      rw [noneFree] at member
      exact absurd member not_mem_nil
  obtain ⟨⟨key, bmp⟩, member, same⟩ := mem_map.1 ((grows.inv.groups dwGrpIdx below).1 set)
  have same : key = dwGrpIdx := same
  rw [same] at member
  have room : 0 < bmp.free := by
    apply grows.inv.sound.free_of_not_taken member
    intro blkIdx group allocatable isTaken
    obtain ⟨other, among, _⟩ := ((grows.takes.state blkIdx allocatable).1 isTaken).resolve_right not_mem_nil
    have old : blkIdx / blocksPerGroupFull ∈ grps.map Prod.fst := mem_map_of_mem among
    rw [allocs.keys, group] at old
    exact absent old
  have count := grows.inv.count
  have most := givesAll_le later.grps 0
  have few : givesAll later.grps 0 < dwRest - taken.length := by
    have bound : 8 * blkbmpWords * later.grps.length ≤ 8 * blkbmpWords * blkgrpNumber :=
      Nat.mul_le_mul_left _ (by omega)
    omega
  obtain ⟨blkIdx, among, group⟩ := @Inv.each_allocLoop later io rounds _ grows.inv few _ member room
  rw [made, if_pos rfl]
  exact ⟨blkIdx, mem_append_right _ among, group⟩

theorem Inv.everyGrp_allocBlocks {dwNumBlocks : Nat} (inv : alloc.Inv) (works : io.failing = [])
    (all : grpsFor (dwNumBlocks - givesAll alloc.grps 0) = alloc.grpBmp.freeGrps.length)
    (more : 8 * blkbmpWords * blkgrpNumber < dwNumBlocks - givesAll alloc.grps 0) (below : dwGrpIdx < blkgrpNumber)
    (absent : dwGrpIdx ∉ alloc.grps.map Prod.fst) :
    Remains false (fun _ => true) (alloc.allocBlocks io dwNumBlocks).2.2 dwGrpIdx := by
  have wanted : 0 < dwNumBlocks := by omega
  obtain ⟨rounds, call⟩ : ∃ rounds, alloc.allocBlocks io dwNumBlocks =
      BlkAlloc.allocLoop io (rounds + 2) dwNumBlocks alloc := by
    refine ⟨dwNumBlocks + blkgrpNumberFull - 1, ?_⟩
    have sum : dwNumBlocks + blkgrpNumberFull - 1 + 2 = dwNumBlocks + blkgrpNumberFull + 1 := by omega
    rw [BlkAlloc.allocBlocks, if_neg (Nat.ne_of_gt wanted), sum]
  have takes := @Inv.takes_allocBlocks alloc io inv dwNumBlocks wanted
  obtain ⟨blkIdx, among, group⟩ := @Inv.newGrps_allocLoop alloc io rounds dwNumBlocks dwGrpIdx inv works all more below absent
  rw [call] at takes ⊢
  have allocatable := takes.takes.allocatable blkIdx among
  exact ⟨blkIdx, allocatable, group, (takes.takes.state blkIdx allocatable).2 (.inr among), fun _ => rfl⟩

end

theorem group127_remains :
    Remains false (fun _ => true) (format.allocBlocks .works (65504 * 4079)).2.2 127 := by
  have one : format.grps.length = 1 := by decide +kernel
  have free : format.grpBmp.free = 4079 := by decide +kernel
  have keys : format.grps.map Prod.fst = [0] := by decide +kernel
  have most := givesAll_le format.grps 0
  have words : blkbmpWords = 1024 := by decide
  have size : BlockBitmap.blocks = 65504 := by decide
  have number : blkgrpNumber = 4080 := by decide
  have length := inv_format.counted.length_freeGrps
  rw [one, words] at most
  rw [free] at length
  have quotient : ∀ first blocks, blocks = 65504 → first ≤ 8192 → (65504 * 4079 - first + blocks - 1) / blocks = 4079 := by
    intro first blocks same few
    subst same
    omega
  have all : grpsFor (65504 * 4079 - givesAll format.grps 0) = 4079 := quotient _ _ size most
  have more : 8 * blkbmpWords * blkgrpNumber < 65504 * 4079 - givesAll format.grps 0 := by
    rw [words, number]
    omega
  have absent : 127 ∉ format.grps.map Prod.fst := by
    rw [keys]
    decide
  exact inv_format.everyGrp_allocBlocks rfl (all.trans length.symm) more (by decide) absent

/-- Behind group 127 the length wraps around. -/
theorem group127_cutOff :
    ¬∀ alloc : BlkAlloc, machine.Reachable alloc → ∀ bClaimOrphans setBlocks, alloc.Shrinks bClaimOrphans setBlocks := by
  intro shrinks
  have remains := group127_remains
  have inv : (format.allocBlocks .works (65504 * 4079)).2.2.Inv :=
    (inv_format.takes_allocBlocks (by decide : 0 < 65504 * 4079)).inv rfl
  have reached : machine.Reachable (format.allocBlocks .works (65504 * 4079)).2.2 :=
    @Machine.Reachable.step _ _ machine format _ (.allocBlocks .works (65504 * 4079)) .start rfl
  generalize (format.allocBlocks .works (65504 * 4079)).2.2 = alloc at *
  have condition := inv.cuts_iff.1 (shrinks alloc reached false fun _ => true)
  classical
  have small : 127 ≤ collectedGrps - 1 := by decide
  have some : 0 < collectedGrps := by decide
  have back := Nat.findGreatest_spec (P := Remains false (fun _ => true) alloc) small remains
  have bound := Nat.findGreatest_le (P := Remains false (fun _ => true) alloc) (collectedGrps - 1)
  have after := condition _ (by omega) back
    (fun dwGrpIdx inside other => Nat.le_findGreatest (by omega) other) 127 remains
  have groups : addressedGroups = 128 := by decide
  rw [groups] at after
  omega

end BlkAlloc

end RpcFrmwrk.Registry
