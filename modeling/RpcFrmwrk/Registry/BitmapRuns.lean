import RpcFrmwrk.Library.Machine
import RpcFrmwrk.Registry.Bitmaps

/-! The runs of the bitmap of a block group. Owns `Counts`, what is to hold of the count of free
blocks, and of a group that can be released; `Fits`, the frees that keep the count right. -/

namespace RpcFrmwrk.Registry

open RpcFrmwrk.Library

namespace BlockBitmap

/-- A call of `AllocBlocks` or `FreeBlocks`. -/
inductive Call where
  | allocBlocks (dwNumBlocks : Nat)
  | freeBlocks (blkIdxs : List Nat)
deriving DecidableEq, Repr

def machine : Machine BlockBitmap Call where
  start := initBitmap
  step bmp
    | .allocBlocks dwNumBlocks => some (bmp.allocBlocks dwNumBlocks).2.2
    | .freeBlocks blkIdxs => some (bmp.freeBlocks blkIdxs)

/-- The count is the number of clear bits, and a group that is released has no block taken. -/
structure Counts (bmp : BlockBitmap) : Prop where
  free : bmp.free = (bmp.bytes.clearBits blkbmpBlknum blocksPerGroup).card
  released : bmp.isEmpty = true → ∀ blkIdx, blkbmpBlknum ≤ blkIdx → blkIdx < blocksPerGroup →
    bmp.bytes.bitAt blkIdx = false

/-- The block is taken when it is freed; or the loop skips it, since it is the first one of the
group, or the whole byte is clear. -/
def FreesOne (bmp : BlockBitmap) (blkIdx : Nat) : Prop :=
  blockIndex blkIdx = 0 ∨ bmp.bytes (blockIndex blkIdx / 8) = 0 ∨
    (blkbmpBlknum ≤ blockIndex blkIdx ∧ blockIndex blkIdx < blocksPerGroup) ∧
      bmp.bytes.bitAt (blockIndex blkIdx) = true

instance (bmp : BlockBitmap) (blkIdx : Nat) : Decidable (bmp.FreesOne blkIdx) :=
  inferInstanceAs (Decidable (_ ∨ _ ∨ _ ∧ _))

def Frees (bmp : BlockBitmap) : List Nat → Prop
  | [] => True
  | blkIdx :: rest => bmp.FreesOne blkIdx ∧ (bmp.freeOne blkIdx).Frees rest

def decideFrees (bmp : BlockBitmap) : (blkIdxs : List Nat) → Decidable (bmp.Frees blkIdxs)
  | [] => isTrue trivial
  | blkIdx :: rest =>
    match inferInstanceAs (Decidable (bmp.FreesOne blkIdx)), (bmp.freeOne blkIdx).decideFrees rest with
    | isTrue first, isTrue later => isTrue ⟨first, later⟩
    | isFalse never, _ => isFalse fun both => never both.1
    | _, isFalse never => isFalse fun both => never both.2

instance (bmp : BlockBitmap) (blkIdxs : List Nat) : Decidable (bmp.Frees blkIdxs) := bmp.decideFrees blkIdxs

def Fits (bmp : BlockBitmap) : Call → Prop
  | .allocBlocks _ => True
  | .freeBlocks blkIdxs => bmp.free ≠ blocks → bmp.Frees blkIdxs

instance (bmp : BlockBitmap) (call : Call) : Decidable (bmp.Fits call) :=
  match call with
  | .allocBlocks _ => isTrue trivial
  | .freeBlocks blkIdxs => inferInstanceAs (Decidable (bmp.free ≠ blocks → bmp.Frees blkIdxs))

variable {bmp : BlockBitmap}

theorem counted_initBitmap : Counted initBitmap where
  free := by
    have all : (initBitmap.bytes.clearBits blkbmpBlknum blocksPerGroup).card = blocksPerGroup - blkbmpBlknum := by
      apply Bytes.card_of_clear
      intro index above below
      have byte : initBitmap.bytes (index / 8) = 0 := by
        have first : blkbmpBlknum = 16 := by decide
        have last : blocksPerGroup = 65520 := by decide
        have size : blocksPerGroupFull / 8 = 8192 := by decide
        rw [initBitmap]
        dsimp only
        rw [storeCount, size, first, if_neg (by omega), if_neg (by omega), if_neg (by omega)]
        split
        · rfl
        · rfl
      rw [Bytes.bitAt, byte]
      exact BitVec.getLsbD_zero
    exact all.symm
  reserved := by decide

theorem Counted.freeOne (counted : bmp.Counted) {blkIdx : Nat} (fits : bmp.FreesOne blkIdx) :
    (bmp.freeOne blkIdx).Counted := by
  rw [BlockBitmap.freeOne]
  by_cases first : blockIndex blkIdx = 0
  · rw [if_pos first]
    exact counted
  · rw [if_neg first]
    by_cases clear : bmp.bytes (blockIndex blkIdx / 8) = 0
    · rw [if_pos clear]
      exact counted
    · obtain ⟨⟨above, below⟩, set⟩ := (fits.resolve_left first).resolve_left clear
      have card := Bytes.card_clearBit above below set
      have most := @Bytes.card_clearBits_le (bmp.bytes.clearBit (blockIndex blkIdx)) blkbmpBlknum blocksPerGroup
      have room : blocksPerGroup - blkbmpBlknum < 2 ^ 16 := by decide
      rw [if_neg clear]
      refine ⟨?_, ?_⟩
      · show (bmp.free + 1) % 2 ^ 16 = _
        rw [counted.free, ← card, Nat.mod_eq_of_lt (Nat.lt_of_le_of_lt most room)]
      · intro pos reserved
        have other : pos ≠ blockIndex blkIdx := Nat.ne_of_lt (Nat.lt_of_lt_of_le reserved above)
        show (bmp.bytes.clearBit (blockIndex blkIdx)).bitAt pos = true
        rw [Bytes.bitAt_clearBit, counted.reserved pos reserved, decide_eq_false other]
        rfl

theorem Counted.freeBlocks (counted : bmp.Counted) {blkIdxs : List Nat}
    (fits : bmp.free ≠ blocks → bmp.Frees blkIdxs) : (bmp.freeBlocks blkIdxs).Counted := by
  rw [BlockBitmap.freeBlocks]
  by_cases full : bmp.free = blocks
  · rw [if_pos full]
    exact counted
  · have frees := fits full
    rw [if_neg full]
    clear fits full
    induction blkIdxs generalizing bmp with
    | nil => exact counted
    | cons blkIdx rest ih =>
      rw [List.foldl_cons]
      exact ih (counted.freeOne frees.1) frees.2

theorem Counted.step (counted : bmp.Counted) {call : Call} {next : BlockBitmap} (fits : bmp.Fits call)
    (moved : machine.step bmp call = some next) : next.Counted := by
  cases call with
  | freeBlocks blkIdxs =>
    cases moved
    exact counted.freeBlocks fits
  | allocBlocks dwNumBlocks =>
    cases moved
    by_cases none : dwNumBlocks = 0
    · rw [BlockBitmap.allocBlocks, if_pos none]
      exact counted
    · by_cases free : bmp.free = 0
      · rw [BlockBitmap.allocBlocks, if_neg none, if_pos free]
        exact counted
      · obtain ⟨taken, after, answer, allocates⟩ :=
          counted.allocBlocks (Nat.pos_of_ne_zero none) (Nat.pos_of_ne_zero free)
        rw [answer]
        exact allocates.counted

theorem Counted.counts (counted : bmp.Counted) : bmp.Counts where
  free := counted.free
  released := by
    intro empty blkIdx above below
    have all : bmp.free = blocksPerGroup - blkbmpBlknum := of_decide_eq_true empty
    exact Bytes.clear_of_card (counted.free.symm.trans all) above below

/-- A bitmap of which only blocks are freed that are taken has the right count. -/
theorem freeCount_of_fits (reached : (machine.restrict Fits).Reachable bmp) : bmp.Counts := by
  have counted : bmp.Counted := by
    apply @Machine.Reachable.invariant _ _ _ Counted _ reached
    · exact counted_initBitmap
    · intro state call next _ counted moved
      obtain ⟨fits, moved⟩ := Machine.restrict_step.1 moved
      exact counted.step fits moved
  exact counted.counts

/-- Blocks are taken and freed, and freed again when the group is all free. -/
theorem freeCount_freedAgain : ∃ bmp : BlockBitmap, bmp.free = blocks ∧ bmp.Counts := by
  have ran : ((machine.restrict Fits).run initBitmap
      [.allocBlocks 2, .freeBlocks [17, 0], .freeBlocks [16], .freeBlocks [16, 17]]).map BlockBitmap.free =
      some blocks := by
    decide +kernel
  obtain ⟨bmp, run, same⟩ := Option.map_eq_some_iff.1 ran
  exact ⟨bmp, same, freeCount_of_fits (Machine.Reachable.start.run run)⟩

/-- A block that is freed twice, with its neighbour taken, is counted twice. -/
theorem freedTwice_releases : ¬∀ bmp : BlockBitmap, machine.Reachable bmp → bmp.Counts := by
  intro counts
  have ran : (machine.run initBitmap [.allocBlocks 2, .freeBlocks [16], .freeBlocks [16]]).map
      (fun bmp => (bmp.isEmpty, bmp.bytes.bitAt 17)) = some (true, true) := by
    decide +kernel
  obtain ⟨bmp, run, same⟩ := Option.map_eq_some_iff.1 ran
  have empty : bmp.isEmpty = true := congrArg Prod.fst same
  have taken : bmp.bytes.bitAt 17 = true := congrArg Prod.snd same
  have clear := (counts bmp (Machine.Reachable.start.run run)).released empty 17 (by decide) (by decide)
  exact Bool.false_ne_true (clear.symm.trans taken)

end BlockBitmap

end RpcFrmwrk.Registry
