import RpcFrmwrk.Registry.BitmapRuns

/-! The allocator of the blocks of a registry file. A call holds the lock of the allocator. The
group of a bitmap is its key in the map, which is kept in the order of the keys. The disk answers a
call: it fails to write some groups, and it holds the bitmaps of groups that are not in the map.
Owns `CBlockAllocator::AllocBlocks` and `FreeBlocks`, without the safe mode; `BlkAlloc.Good`, what
is to hold of a request that can be met. -/

namespace RpcFrmwrk.Registry

open RpcFrmwrk.Library

/-- What the disk does during a call. -/
structure BlockIo where
  failing : List Nat
  stored : List (Nat × BlockBitmap)

namespace BlockIo

/-- A disk that writes every group. -/
def works : BlockIo := ⟨[], []⟩

/-- `Format` of a new group. -/
def formats (io : BlockIo) (dwGrpIdx : Nat) : Bool := !io.failing.contains dwGrpIdx

/-- `Reload` of a group. -/
def reload (io : BlockIo) (dwGrpIdx : Nat) : Option BlockBitmap := io.stored.lookup dwGrpIdx

end BlockIo

abbrev BlkGrps := List (Nat × BlockBitmap)

/-- `m_mapBlkGrps` and `m_pGroupBitmap`. -/
structure BlkAlloc where
  grps : BlkGrps
  grpBmp : GroupBitmap

namespace BlkAlloc

/-- `m_mapBlkGrps.insert`. -/
def insertGrp (dwGrpIdx : Nat) (bmp : BlockBitmap) : BlkGrps → BlkGrps
  | [] => [(dwGrpIdx, bmp)]
  | grp :: rest =>
    if dwGrpIdx < grp.1 then (dwGrpIdx, bmp) :: grp :: rest
    else if dwGrpIdx = grp.1 then grp :: rest
    else grp :: insertGrp dwGrpIdx bmp rest

/-- `Format`: the first group is made. -/
def format : BlkAlloc :=
  match GroupBitmap.format.allocGroup with
  | none => ⟨[], GroupBitmap.format⟩
  | some (dwGrpIdx, grpBmp) => ⟨[(dwGrpIdx, BlockBitmap.initBitmap)], grpBmp⟩

/-- The loop over the groups in the map. An error ends it, and is dropped. -/
def allocGrps : Nat → BlkGrps → List Nat × BlkGrps
  | _, [] => ([], [])
  | dwRest, (dwGrpIdx, bmp) :: rest =>
    if bmp.free = 0 then
      let (taken, rest) := allocGrps dwRest rest
      (taken, (dwGrpIdx, bmp) :: rest)
    else
      let (ret, idxs, after) := bmp.allocBlocks (min bmp.free dwRest)
      if ret.failed then ([], (dwGrpIdx, after) :: rest)
      else
        let taken := idxs.map (dwGrpIdx * blocksPerGroupFull + ·)
        if dwRest ≤ idxs.length then (taken, (dwGrpIdx, after) :: rest)
        else
          let (more, rest) := allocGrps (dwRest - idxs.length) rest
          (taken ++ more, (dwGrpIdx, after) :: rest)

def loadGrps (io : BlockIo) (grpBmp : GroupBitmap) : List Nat → Nat → BlkGrps → Nat × BlkGrps
  | [], dwNeed, grps => (dwNeed, grps)
  | dwGrpIdx :: rest, dwNeed, grps =>
    if grpBmp.isBlockGroupFree dwGrpIdx || (grps.map Prod.fst).contains dwGrpIdx then
      loadGrps io grpBmp rest dwNeed grps
    else
      match io.reload dwGrpIdx with
      | none => (dwNeed, grps)
      | some bmp =>
        let grps := insertGrp dwGrpIdx bmp grps
        if dwNeed ≤ bmp.free then (0, grps)
        else if grps.length < blkgrpNumber - grpBmp.free then loadGrps io grpBmp rest (dwNeed - bmp.free) grps
        else (dwNeed - bmp.free, grps)

/-- The loop that makes new groups. Each takes one of the group bitmap, which bounds it. -/
def createGrps (io : BlockIo) : Nat → Nat → BlkAlloc → Bool × BlkAlloc
  | 0, _, alloc => (false, alloc)
  | rounds + 1, dwNeed, alloc =>
    if dwNeed = 0 then (true, alloc)
    else
      match alloc.grpBmp.allocGroup with
      | none => (false, alloc)
      | some (dwGrpIdx, grpBmp) =>
        if io.formats dwGrpIdx then
          createGrps io rounds (dwNeed - BlockBitmap.blocks)
            ⟨insertGrp dwGrpIdx BlockBitmap.initBitmap alloc.grps, grpBmp⟩
        else (false, ⟨alloc.grps, grpBmp⟩)

def grow (io : BlockIo) (dwNeed : Nat) (alloc : BlkAlloc) : Bool × BlkAlloc :=
  createGrps io (alloc.grpBmp.free + 1) dwNeed alloc

/-- The loop of `AllocBlocks`: whether it ends well, the blocks, and the allocator. -/
def allocLoop (io : BlockIo) : Nat → Nat → BlkAlloc → Bool × List Nat × BlkAlloc
  | 0, _, alloc => (false, [], alloc)
  | rounds + 1, dwRest, alloc =>
    let (taken, grps) := allocGrps dwRest alloc.grps
    if dwRest ≤ taken.length then (true, taken, ⟨grps, alloc.grpBmp⟩)
    else
      let (dwNeed, grps) :=
        if grps.length < blkgrpNumber - alloc.grpBmp.free then
          loadGrps io alloc.grpBmp (List.range blkgrpNumber) (dwRest - taken.length) grps
        else (dwRest - taken.length, grps)
      let (made, alloc) := grow io dwNeed ⟨grps, alloc.grpBmp⟩
      if made then
        let (ok, more, alloc) := allocLoop io rounds (dwRest - taken.length) alloc
        (ok, taken ++ more, alloc)
      else (false, taken, alloc)

/-- `AllocBlocks`. A round takes a block, or adds a group of which the next one takes. -/
def allocBlocks (io : BlockIo) (dwNumBlocks : Nat) (alloc : BlkAlloc) : Bool × List Nat × BlkAlloc :=
  if dwNumBlocks = 0 then (false, [], alloc)
  else allocLoop io (dwNumBlocks + blkgrpNumberFull + 1) dwNumBlocks alloc

def changeGrp (dwGrpIdx : Nat) (change : BlockBitmap → BlockBitmap) (grps : BlkGrps) : BlkGrps :=
  grps.map fun grp => if grp.1 = dwGrpIdx then (grp.1, change grp.2) else grp

/-- One round of `FreeBlocks`; an error ends the loop. -/
def freeRun (io : BlockIo) (alloc : BlkAlloc) (run : ContBlks) : Option BlkAlloc :=
  let dwGrpIdx := groupIndex run.first
  if run.first = 0 then some alloc
  else if alloc.grpBmp.isBlockGroupFree dwGrpIdx then some alloc
  else if (alloc.grps.map Prod.fst).contains dwGrpIdx then
    some { alloc with grps := changeGrp dwGrpIdx (·.freeBlocks run.blocks) alloc.grps }
  else
    match io.reload dwGrpIdx with
    | none => none
    | some bmp => some { alloc with grps := insertGrp dwGrpIdx (bmp.freeBlocks run.blocks) alloc.grps }

/-- `FreeBlocks`. -/
def freeRuns (io : BlockIo) : List ContBlks → BlkAlloc → BlkAlloc
  | [], alloc => alloc
  | run :: rest, alloc =>
    match alloc.freeRun io run with
    | none => alloc
    | some alloc => freeRuns io rest alloc

def freeBlocks (io : BlockIo) (blkIdxs : List Nat) (alloc : BlkAlloc) : BlkAlloc :=
  freeRuns io (findContigousBlocks blkIdxs) alloc

/-- A call, and what the disk does. -/
inductive Call where
  | allocBlocks (io : BlockIo) (dwNumBlocks : Nat)
  | freeBlocks (io : BlockIo) (blkIdxs : List Nat)

/-- The allocator of a file that was formatted. -/
def machine : Machine BlkAlloc Call where
  start := format
  step alloc
    | .allocBlocks io dwNumBlocks => some (alloc.allocBlocks io dwNumBlocks).2.2
    | .freeBlocks io blkIdxs => some (alloc.freeBlocks io blkIdxs)

/-- The block is allocated. -/
def Taken (alloc : BlkAlloc) (blkIdx : Nat) : Prop :=
  ∃ bmp, (blkIdx / blocksPerGroupFull, bmp) ∈ alloc.grps ∧ bmp.bytes.bitAt (blockIndex blkIdx) = true

/-- The free blocks of the groups, and of those that can be made. -/
def available (alloc : BlkAlloc) : Nat :=
  (alloc.grps.map fun grp => grp.2.free).sum + BlockBitmap.blocks * alloc.grpBmp.free

/-- As many blocks as asked for, each of them free before and allocated now, and no other changed. -/
structure Met (alloc : BlkAlloc) (dwNumBlocks : Nat) (taken : List Nat) (after : BlkAlloc) : Prop where
  length : taken.length = dwNumBlocks
  nodup : taken.Nodup
  allocatable : ∀ blkIdx ∈ taken, Allocatable blkIdx ∧ blkIdx ≠ invalidBlockIdx
  free : ∀ blkIdx ∈ taken, ¬alloc.Taken blkIdx
  marked : ∀ blkIdx ∈ taken, after.Taken blkIdx
  others : ∀ blkIdx, Allocatable blkIdx → blkIdx ∉ taken → (after.Taken blkIdx ↔ alloc.Taken blkIdx)

/-- A request for no more blocks than there are is met. -/
def Good (io : BlockIo) (dwNumBlocks : Nat) (alloc : BlkAlloc) : Prop :=
  dwNumBlocks ≤ alloc.available →
    ∃ taken after, alloc.allocBlocks io dwNumBlocks = (true, taken, after) ∧ alloc.Met dwNumBlocks taken after

end BlkAlloc

end RpcFrmwrk.Registry
