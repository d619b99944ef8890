import Mathlib.Algebra.Order.Ring.Nat

/-! Where the blocks of a registry file are. The file starts with the super block and the group
bitmap, one block each, and goes on with the block groups. A block index names a group and a block
in it. Owns the sizes of a formatted file system; `blockAbs`, the byte address of a block in
`guint32` arithmetic. -/

namespace RpcFrmwrk.Registry

/-- `BLOCK_SIZE`. -/
def blockSize : Nat := 512

/-- `BLOCKS_PER_GROUP_FULL`. -/
def blocksPerGroupFull : Nat := 64 * 1024

/-- `BLKGRP_NUMBER_FULL`. -/
def blkgrpNumberFull : Nat := 4096

/-- `SUPER_BLOCK_SIZE`. -/
def superBlockSize : Nat := blockSize

/-- `GRPBMP_SIZE`. -/
def grpbmpSize : Nat := blkgrpNumberFull / 8

/-- `GROUP_SIZE`. -/
def groupSize : Nat := blocksPerGroupFull * blockSize

/-- `INVALID_BLOCK_IDX`, the mark of a hole. -/
def invalidBlockIdx : Nat := 0xFFFF

/-- The index `( guint32 )-2`, under which the super block is cached. -/
def superBlkIdx : Nat := 0xFFFFFFFE

/-- The index `( guint32 )-4`, under which the group bitmap is cached. -/
def grpbmpBlkIdx : Nat := 0xFFFFFFFC

abbrev Block := Vector UInt8 blockSize

def zeroBlock : Block := Vector.replicate blockSize 0

def groupIndex (blkIdx : Nat) : Nat := blkIdx / blocksPerGroupFull % blkgrpNumberFull

def groupStart (blkIdx : Nat) : Nat := groupIndex blkIdx * groupSize % 2 ^ 32

def blockIndex (blkIdx : Nat) : Nat := blkIdx % blocksPerGroupFull

/-- `BLOCK_ABS`. Every operand is a `guint32`, and so is the sum. -/
def blockAbs (blkIdx : Nat) : Nat :=
  (groupStart blkIdx + blockIndex blkIdx * blockSize + superBlockSize + grpbmpSize) % 2 ^ 32

/-- The first index whose address is not below 2 GiB. -/
def addressable : Nat := 2 ^ 22 - 2

theorem blockAbs_of_lt {blkIdx : Nat} (small : blkIdx < addressable) :
    blockAbs blkIdx = (blkIdx + 2) * blockSize := by
  unfold addressable at small
  unfold blockAbs groupStart groupIndex blockIndex superBlockSize grpbmpSize groupSize
    blocksPerGroupFull blkgrpNumberFull blockSize
  omega

end RpcFrmwrk.Registry
