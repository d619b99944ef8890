import RpcFrmwrk.Registry.Cache

/-! The file offsets at which blocks are read and written. The file is a function from offsets to
bytes. The blocks of a call are transferred run by run, and a run is behind the others in the
buffer. `BLOCK_SIZE`, `GROUP_SIZE` and a block index are `guint32`, and so is their product. What a
call has transferred before an error is left out. Owns `readWriteBlocks2` and `readWriteBlocks`
without the cache; `Separate`, what is to hold of two blocks, and `separate_iff`, for which blocks
it does; that a call over blocks of the first groups transfers each at its own address. -/

namespace RpcFrmwrk.Registry

/-! ### Transfers -/

/-- `BLOCKS_PER_GROUP`, `BLKBMP_BLKNUM` and `BLKGRP_NUMBER`. -/
def blocksPerGroup : Nat := blocksPerGroupFull - 16
def blkbmpBlknum : Nat := blocksPerGroupFull / (blockSize * 8)
def blkgrpNumber : Nat := blkgrpNumberFull - 16

/-- `MAX_FILE_SIZE` and `MAX_FS_SIZE`. -/
def maxFileSize : Nat := (13 + blockSize / 4 + blockSize / 4 * (blockSize / 4)) * blockSize
def maxFsSize : Nat := (blocksPerGroupFull * blkgrpNumberFull + 1 + 1) * blockSize

/-- A call of `ReadWriteFile`, or a hole that is read as zeros. -/
inductive Transfer where
  | file (off size : Nat)
  | hole (size : Nat)
deriving DecidableEq, Repr

/-- `ReadWriteBlocks2`. -/
def readWriteBlocks2 (bRead : Bool) : List ContBlks → Option (List Transfer)
  | [] => some []
  | run :: rest =>
    if blkgrpNumberFull * blocksPerGroupFull ≤ run.first then none
    else if maxFileSize < blockSize * run.second then none
    else if run.first = invalidBlockIdx then
      if bRead then (readWriteBlocks2 bRead rest).map (.hole (blockSize * run.second) :: ·) else none
    else (readWriteBlocks2 bRead rest).map (.file (blockAbs run.first) (blockSize * run.second) :: ·)

/-- `ReadWriteBlocks` where nothing is cached. -/
def readWriteBlocks (bRead : Bool) (blocks : List Nat) (bContigous : Bool) : Option (List Transfer) :=
  match blocks with
  | [] => none
  | first :: rest =>
    let last := rest.getLastD first
    if bContigous then
      if (last + 2 ^ 32 - first + 1) % 2 ^ 32 ≠ blocks.length then none
      else if groupIndex first = groupIndex last then
        some [.file (blockAbs first) (blockSize * blocks.length % 2 ^ 32)]
      else readWriteBlocks2 bRead (findContigousBlocks blocks)
    else readWriteBlocks2 bRead (findContigousBlocks blocks)

/-- `write` at an offset. -/
def writeFile (file : Nat → UInt8) (off : Nat) (bytes : List UInt8) : Nat → UInt8 :=
  fun pos => if off ≤ pos then (bytes[pos - off]?).getD (file pos) else file pos

/-- `read` at an offset. -/
def readFile (file : Nat → UInt8) (off size : Nat) : List UInt8 := (List.range size).map fun pos => file (off + pos)

def writeTransfers (file : Nat → UInt8) (buf : List UInt8) : List Transfer → Nat → UInt8
  | [] => file
  | .file off size :: rest => writeTransfers (writeFile file off (buf.take size)) (buf.drop size) rest
  | .hole size :: rest => writeTransfers file (buf.drop size) rest

def readTransfers (file : Nat → UInt8) (transfers : List Transfer) : List UInt8 :=
  transfers.flatMap fun
    | .file off size => readFile file off size
    | .hole size => List.replicate size 0

/-- `WriteBlock`. -/
def writeBlock (file : Nat → UInt8) (blkIdx : Nat) (bytes : List UInt8) : Option (Nat → UInt8) :=
  if blkIdx = invalidBlockIdx then none
  else (readWriteBlocks false [blkIdx] false).map (writeTransfers file bytes)

/-- `ReadBlock`. -/
def readBlock (file : Nat → UInt8) (blkIdx : Nat) : Option (List UInt8) :=
  if blkIdx = invalidBlockIdx then none
  else (readWriteBlocks true [blkIdx] false).map (readTransfers file)

/-- A block that the allocator can hand out. -/
def Allocatable (blkIdx : Nat) : Prop :=
  blkIdx / blocksPerGroupFull < blkgrpNumber ∧ blkbmpBlknum ≤ blockIndex blkIdx ∧ blockIndex blkIdx < blocksPerGroup

instance (blkIdx : Nat) : Decidable (Allocatable blkIdx) :=
  inferInstanceAs (Decidable (_ ∧ _ ∧ _))

/-- The block is behind the super block and the group bitmap and in the largest file system, and
no product or sum on the way to its address wraps around. -/
structure Located (blkIdx : Nat) : Prop where
  beyond : superBlockSize + grpbmpSize ≤ blockAbs blkIdx
  inside : blockAbs blkIdx + blockSize ≤ maxFsSize
  product : groupIndex blkIdx * groupSize < 2 ^ 32
  sum : groupIndex blkIdx * groupSize + blockIndex blkIdx * blockSize + superBlockSize + grpbmpSize < 2 ^ 32

/-- Two blocks have no byte in common, and a write of one leaves the other. -/
structure Separate (left right : Nat) : Prop where
  locatedLeft : Located left
  locatedRight : Located right
  apart : blockAbs left + blockSize ≤ blockAbs right ∨ blockAbs right + blockSize ≤ blockAbs left
  unchanged : ∀ (file : Nat → UInt8) (bytes : List UInt8), bytes.length = blockSize →
    (writeBlock file left bytes).bind (readBlock · right) = readBlock file right

/-- The number of groups whose blocks have an address of 32 bits. -/
def addressedGroups : Nat := 128

variable {blkIdx left right : Nat}

theorem Allocatable.lt (allocatable : Allocatable blkIdx) : blkIdx < blkgrpNumberFull * blocksPerGroupFull := by
  obtain ⟨group, _, _⟩ := allocatable
  unfold blkgrpNumber blkgrpNumberFull blocksPerGroupFull at *
  omega

theorem Allocatable.ne_invalid (allocatable : Allocatable blkIdx) : blkIdx ≠ invalidBlockIdx := by
  intro same
  rw [same] at allocatable
  exact absurd allocatable (by decide)

theorem Allocatable.groupIndex_eq (allocatable : Allocatable blkIdx) :
    groupIndex blkIdx = blkIdx / blocksPerGroupFull := by
  have few : blkgrpNumber < blkgrpNumberFull := by decide
  exact Nat.mod_eq_of_lt (Nat.lt_trans allocatable.1 few)

theorem blockAbs_eq (allocatable : Allocatable blkIdx) (low : groupIndex blkIdx < addressedGroups) :
    blockAbs blkIdx = (blkIdx + 2) * blockSize := by
  have group := allocatable.groupIndex_eq
  obtain ⟨_, _, below⟩ := allocatable
  unfold addressedGroups at low
  rw [group] at low
  unfold blockAbs groupStart
  rw [group]
  unfold blockIndex blocksPerGroup superBlockSize grpbmpSize groupSize blocksPerGroupFull blkgrpNumberFull blockSize at *
  omega

theorem located_of_low (allocatable : Allocatable blkIdx) (low : groupIndex blkIdx < addressedGroups) : Located blkIdx := by
  have address := blockAbs_eq allocatable low
  have group := allocatable.groupIndex_eq
  obtain ⟨_, above, below⟩ := allocatable
  unfold addressedGroups at low
  refine ⟨?_, ?_, ?_, ?_⟩
  · rw [address]
    unfold superBlockSize grpbmpSize blkgrpNumberFull blockSize
    omega
  · rw [address]
    rw [group] at low
    unfold maxFsSize blocksPerGroupFull blkgrpNumberFull blockSize at *
    omega
  · unfold groupSize blocksPerGroupFull blockSize
    omega
  · unfold blockIndex blocksPerGroup superBlockSize grpbmpSize groupSize blocksPerGroupFull blkgrpNumberFull blockSize at *
    omega

theorem low_of_located (located : Located blkIdx) : groupIndex blkIdx < addressedGroups := by
  have product := located.product
  unfold groupSize blocksPerGroupFull blockSize at product
  unfold addressedGroups
  omega

theorem readWriteBlocks_single (allocatable : Allocatable blkIdx) (bRead : Bool) :
    readWriteBlocks bRead [blkIdx] false = some [.file (blockAbs blkIdx) blockSize] := by
  have within : ¬blkgrpNumberFull * blocksPerGroupFull ≤ blkIdx := Nat.not_le.2 allocatable.lt
  have small : ¬maxFileSize < blockSize * 1 := by decide
  rw [readWriteBlocks, if_neg Bool.false_ne_true, findContigousBlocks, contigousLoop, readWriteBlocks2]
  dsimp only
  rw [if_neg within, if_neg small, if_neg allocatable.ne_invalid]
  rfl

theorem writeBlock_eq (allocatable : Allocatable blkIdx) (file : Nat → UInt8) {bytes : List UInt8}
    (length : bytes.length = blockSize) :
    writeBlock file blkIdx bytes = some (writeFile file (blockAbs blkIdx) bytes) := by
  have whole : bytes.take blockSize = bytes := List.take_of_length_le (Nat.le_of_eq length)
  rw [writeBlock, if_neg allocatable.ne_invalid, readWriteBlocks_single allocatable, Option.map_some, writeTransfers,
    writeTransfers, whole]

theorem readBlock_eq (allocatable : Allocatable blkIdx) (file : Nat → UInt8) :
    readBlock file blkIdx = some (readFile file (blockAbs blkIdx) blockSize) := by
  rw [readBlock, if_neg allocatable.ne_invalid, readWriteBlocks_single allocatable, Option.map_some, readTransfers,
    List.flatMap_singleton]

theorem writeFile_beside {file : Nat → UInt8} {off pos : Nat} {bytes : List UInt8}
    (beside : pos < off ∨ off + bytes.length ≤ pos) : writeFile file off bytes pos = file pos := by
  rw [writeFile]
  by_cases behind : off ≤ pos
  · have none : bytes[pos - off]? = none := by
      apply List.getElem?_eq_none
      omega
    rw [if_pos behind, none]
    rfl
  · rw [if_neg behind]

theorem readFile_beside {file : Nat → UInt8} {off start size : Nat} {bytes : List UInt8}
    (beside : start + size ≤ off ∨ off + bytes.length ≤ start) :
    readFile (writeFile file off bytes) start size = readFile file start size := by
  apply List.map_congr_left
  intro pos member
  have within := List.mem_range.1 member
  apply writeFile_beside
  omega

theorem apart_of_low (first : Allocatable left) (second : Allocatable right) (lowLeft : groupIndex left < addressedGroups)
    (lowRight : groupIndex right < addressedGroups) (different : left ≠ right) :
    blockAbs left + blockSize ≤ blockAbs right ∨ blockAbs right + blockSize ≤ blockAbs left := by
  rw [blockAbs_eq first lowLeft, blockAbs_eq second lowRight]
  unfold blockSize
  omega

/-- Two blocks are apart, and placed where they should be, if and only if both are in the first groups. -/
theorem separate_iff (first : Allocatable left) (second : Allocatable right) (different : left ≠ right) :
    Separate left right ↔ groupIndex left < addressedGroups ∧ groupIndex right < addressedGroups := by
  constructor
  · intro separate
    exact ⟨low_of_located separate.locatedLeft, low_of_located separate.locatedRight⟩
  · rintro ⟨lowLeft, lowRight⟩
    have apart := apart_of_low first second lowLeft lowRight different
    refine ⟨located_of_low first lowLeft, located_of_low second lowRight, apart, ?_⟩
    intro file bytes length
    rw [writeBlock_eq first file length, Option.bind_some, readBlock_eq second, readBlock_eq second]
    apply congrArg some
    apply readFile_beside
    rw [length]
    exact apart.symm

/-- The last block of one group and the first one of the next. -/
theorem separate_neighbours : Separate (blocksPerGroup - 1) (blocksPerGroupFull + blkbmpBlknum) :=
  (separate_iff (by decide) (by decide) (by decide)).2 (by decide)

/-- A block of group 128 has the address of one of group 0. -/
theorem group128_collides :
    ¬∀ left right : Nat, Allocatable left → Allocatable right → left ≠ right → Separate left right := by
  intro separate
  have apart := (separate (128 * blocksPerGroupFull + blkbmpBlknum) blkbmpBlknum (by decide) (by decide)
    (by decide)).apart
  exact absurd apart (by decide)

def ContBlks.blocks (run : ContBlks) : List Nat := (List.range run.second).map (run.first + ·)

end RpcFrmwrk.Registry
