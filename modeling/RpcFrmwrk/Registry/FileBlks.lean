import RpcFrmwrk.Registry.Addresses

/-! The blocks of a registry file. An inode names thirteen data blocks, a table of data blocks, and
a table of such tables. Zero stands for a block that is not there. The tables are kept in the order
of their entries; that they are stored in network order is not part of the model, nor are the
contents of the data blocks. A second-level table is read from the disk unless it is in the map. The
disk answers every call, and the allocator has blocks to give until it runs out of them. Owns
`CFileImage::CollectBlocksForWrite` and `WriteFileNoLock`; `TruncBlkDirect`, `TruncBlkIndirect`,
`TruncBlkSecIndirect`, `TruncateNoLock` and `Extend`. -/

namespace RpcFrmwrk.Registry

/-- `DIRECT_BLOCKS`. -/
def directBlocks : Nat := 13

/-- `BLKIDX_PER_TABLE`. -/
def blkidxPerTable : Nat := 128

/-- `SEC_INDIRECT_BLOCK_START`, in blocks. -/
def secBlkStart : Nat := directBlocks + blkidxPerTable

/-- `MAX_FILE_SIZE`, in blocks. -/
def maxFileBlks : Nat := secBlkStart + blkidxPerTable * blkidxPerTable

/-- The blocks of as many bytes, `( bytes + BLOCK_MASK ) >> BLOCK_SHIFT`. -/
def blksOf (bytes : Nat) : Nat := (bytes + (blockSize - 1)) / blockSize

/-- `SEC_BIT_IDX`. -/
def secBitIdx (offset : Nat) : Nat :=
  (offset - secBlkStart * blockSize) / (blockSize * blkidxPerTable) % blkidxPerTable

/-- `SEC_BLKIDX_IDX`. -/
def secBlkidxIdx (offset : Nat) : Nat := (offset - secBlkStart * blockSize) / blockSize % blkidxPerTable

/-- Block indices in a block. -/
abbrev BlkTable := Nat → Nat

namespace BlkTable

def empty : BlkTable := fun _ => 0

def set (table : BlkTable) (index blkIdx : Nat) : BlkTable :=
  fun other => if other = index then blkIdx else table other

/-- Entries are set to zero. -/
def clear (table : BlkTable) (first count : Nat) : BlkTable :=
  fun index => if first ≤ index ∧ index < first + count then 0 else table index

def entries (table : BlkTable) (first count : Nat) : List Nat := (List.range' first count).map table

end BlkTable

/-- The allocator: the blocks it gives one after the other, and those it got back. -/
structure BlkPool where
  spare : List Nat
  freed : List Nat

/-- `FreeBlocks`, which passes over zeros. -/
def BlkPool.free (pool : BlkPool) (blkIdxs : List Nat) : BlkPool :=
  { pool with freed := pool.freed ++ blkIdxs.filter (· ≠ 0) }

/-- `CFileImage`: size, `m_arrBlocks`, `m_pBitBlk`, `m_pBitdBlk`, `m_mapSecBitBlks`, and the
second-level tables on the disk. -/
structure FileImage where
  dwSize : Nat
  direct : BlkTable
  bit : Nat
  bitd : Nat
  bitBlk : Option BlkTable
  bitdBlk : Option BlkTable
  secBitBlks : Nat → Option BlkTable
  stored : Nat → BlkTable

namespace FileImage

/-- `Format`. -/
def format (stored : Nat → BlkTable) : FileImage where
  dwSize := 0
  direct := .empty
  bit := 0
  bitd := 0
  bitBlk := none
  bitdBlk := none
  secBitBlks _ := none
  stored := stored

/-- An entry of `m_pBitdBlk`. -/
def dirAt (img : FileImage) (i : Nat) : Nat := img.bitdBlk.getD .empty i

def setDir (img : FileImage) (i blkIdx : Nat) : FileImage :=
  { img with bitdBlk := some ((img.bitdBlk.getD .empty).set i blkIdx) }

/-- The entry of `m_mapSecBitBlks` is set. -/
def setSec (img : FileImage) (i : Nat) (table : Option BlkTable) : FileImage :=
  { img with secBitBlks := fun other => if other = i then table else img.secBitBlks other }

def secTable (img : FileImage) (i : Nat) : Option BlkTable :=
  match img.secBitBlks i with
  | some table => some table
  | none => if img.dirAt i = 0 then none else some (img.stored (img.dirAt i))

abbrev Step := FileImage × BlkPool → Status × FileImage × BlkPool

/-- `AllocBlocks` of one block, and what is done with it. -/
def withBlk (use : Nat → FileImage → FileImage) : Step := fun (img, pool) =>
  match pool.spare with
  | [] => (.enomem, img, pool)
  | blkIdx :: spare => (.success, use blkIdx img, { pool with spare := spare })

def andThen (first second : Step) : Step := fun start =>
  if (first start).1 = .success then second (first start).2 else first start

def collectDirect (i : Nat) : Step := fun (img, pool) =>
  if img.direct i = 0 then
    withBlk (fun blkIdx img => { img with direct := img.direct.set i blkIdx }) (img, pool)
  else (.success, img, pool)

/-- `m_pBitBlk`, made when there is none. -/
def collectBit : Step := fun (img, pool) =>
  if img.bit = 0 then
    withBlk (fun blkIdx img => { img with bit := blkIdx, bitBlk := some .empty }) (img, pool)
  else if img.bitBlk.isNone then (.success, { img with bitBlk := some (img.stored img.bit) }, pool)
  else (.success, img, pool)

def collectIndirect (j : Nat) : Step := fun (img, pool) =>
  if img.bitBlk.getD .empty j = 0 then
    withBlk (fun blkIdx img => { img with bitBlk := some ((img.bitBlk.getD .empty).set j blkIdx) }) (img, pool)
  else (.success, img, pool)

/-- `m_pBitdBlk`, made when there is none. -/
def collectBitd : Step := fun (img, pool) =>
  if img.bitd = 0 then
    withBlk (fun blkIdx img => { img with bitd := blkIdx, bitdBlk := some .empty }) (img, pool)
  else (.success, img, pool)

def collectSecTable (k : Nat) : Step := fun (img, pool) =>
  if img.dirAt k = 0 then
    withBlk (fun blkIdx img =>
      (img.setDir k blkIdx).setSec k (some ((img.secBitBlks k).getD .empty))) (img, pool)
  else (.success, img, pool)

/-- A block of a second-level table, which is in the map afterwards unless there are no blocks left. -/
def collectSec (k j : Nat) : Step := fun (img, pool) =>
  match img.secTable k with
  | none => (.efault, img, pool)
  | some table =>
    if table j = 0 then
      withBlk (fun blkIdx img => img.setSec k (some (table.set j blkIdx))) (img, pool)
    else (.success, img.setSec k (some table), pool)

/-- A round of the loop of `CollectBlocksForWrite`. -/
def collectBlk (i : Nat) : Step :=
  if i < directBlocks then collectDirect i
  else if i < secBlkStart then andThen collectBit (collectIndirect (i - directBlocks))
  else if i < maxFileBlks then
    andThen collectBitd
      (andThen (collectSecTable (secBitIdx (i * blockSize)))
        (collectSec (secBitIdx (i * blockSize)) (secBlkidxIdx (i * blockSize))))
  else fun (img, pool) => (.erange, img, pool)

/-- The loop; an error ends it. -/
def collectBlks : List Nat → Step
  | [] => fun (img, pool) => (.success, img, pool)
  | i :: rest => andThen (collectBlk i) (collectBlks rest)

/-- `CollectBlocksForWrite`, for a range that ends inside `MAX_FILE_SIZE`. -/
def collectBlocksForWrite (dwOff dwSize : Nat) : Step := fun (img, pool) =>
  if maxFileSize ≤ dwOff ∨ dwSize = 0 then (.einval, img, pool)
  else
    collectBlks (List.range' (dwOff / blockSize) (blksOf (dwOff + dwSize) - dwOff / blockSize)) (img, pool)

/-- The bytes a write takes, cut at `MAX_FILE_SIZE`. -/
def bytesToWrite (dwOff dwSize : Nat) : Nat :=
  if maxFileSize ≤ dwOff + dwSize then maxFileSize - dwOff else dwSize

/-- `WriteFileNoLock`. -/
def writeFile (dwOff dwSize : Nat) : Step := fun (img, pool) =>
  if maxFileSize ≤ dwOff then (.efbig, img, pool)
  else
    andThen (collectBlocksForWrite dwOff (bytesToWrite dwOff dwSize))
      (fun (img, pool) =>
        (.success, { img with dwSize := max img.dwSize (dwOff + bytesToWrite dwOff dwSize) }, pool))
      (img, pool)

/-! ### Truncating -/

/-- `TruncBlkDirect`. No blocks are an error of `FreeBlocks`. -/
def truncBlkDirect (lablkidx : Nat) : Step := fun (img, pool) =>
  if directBlocks ≤ lablkidx then (.einval, img, pool)
  else if blksOf img.dwSize = 0 then (.einval, img, pool)
  else
    (.success,
      { img with direct := img.direct.clear lablkidx (min (directBlocks - lablkidx) (blksOf img.dwSize)) },
      pool.free (img.direct.entries lablkidx (min (directBlocks - lablkidx) (blksOf img.dwSize))))

/-- `TruncBlkIndirect`, where `i` is the entry of the table at which it begins and `dwCount` the number
of the entries. -/
def truncBit (i dwCount : Nat) (pbit : BlkTable) : Step := fun (img, pool) =>
  if dwCount = 0 then (.success, img, pool)
  else if i = 0 then
    (.success, { img with bitBlk := none, bit := 0 }, (pool.free (pbit.entries i dwCount)).free [img.bit])
  else (.success, { img with bitBlk := some (pbit.clear i dwCount) }, pool.free (pbit.entries i dwCount))

def truncBlkIndirect (lablkidx : Nat) : Step := fun (img, pool) =>
  match img.bitBlk with
  | none => (.efault, img, pool)
  | some pbit =>
    if blkidxPerTable < lablkidx - directBlocks then (.erange, img, pool)
    else
      truncBit (lablkidx - directBlocks)
        (min (blksOf img.dwSize - lablkidx) (blkidxPerTable - (lablkidx - directBlocks))) pbit (img, pool)

/-- The indices `TruncBlkSecIndirect` begins with: `dwBitIdx`, `dwBlkIdxIdx`, `dwBitCount` and
`dwIdxCountLastBit`. -/
structure SecCut where
  bitIdx : Nat
  blkIdxIdx : Nat
  bitCount : Nat
  idxCountLastBit : Nat

def secCut (dwByteStart dwByteEnd : Nat) : SecCut where
  bitIdx := secBitIdx dwByteStart
  blkIdxIdx := secBlkidxIdx dwByteStart
  bitCount :=
    min (secBitIdx (dwByteEnd - 1) - secBitIdx dwByteStart + 1) (blkidxPerTable - secBitIdx dwByteStart)
  idxCountLastBit :=
    if secBitIdx dwByteStart < secBitIdx (dwByteEnd - 1) then secBlkidxIdx (dwByteEnd - 1) + 1
    else secBlkidxIdx (dwByteEnd - 1) - secBlkidxIdx dwByteStart + 1

/-- The blocks of a table, and the table. `bBitdDirty` says that the directory changed. -/
structure SecTrunc where
  img : FileImage
  pool : BlkPool
  bBitdDirty : Bool

/-- The block of a table is freed, and its entry cleared. -/
def SecTrunc.freeDir (i : Nat) (trunc : SecTrunc) : SecTrunc :=
  if trunc.img.dirAt i = 0 then trunc
  else ⟨trunc.img.setDir i 0, trunc.pool.free [trunc.img.dirAt i], true⟩

/-- A round of the loop over the tables behind the first. -/
def SecTrunc.freeTable (i dwBlksToFree : Nat) (trunc : SecTrunc) : SecTrunc :=
  match trunc.img.secTable i with
  | none => freeDir i ⟨trunc.img.setSec i none, trunc.pool, trunc.bBitdDirty⟩
  | some table =>
    freeDir i ⟨trunc.img.setSec i none, trunc.pool.free (table.entries 0 dwBlksToFree), trunc.bBitdDirty⟩

/-- The loop. The bound is the number of the tables, not the index of the last. -/
def SecTrunc.freeTables (cut : SecCut) (trunc : SecTrunc) : SecTrunc :=
  (List.range' (cut.bitIdx + 1) (cut.bitCount - (cut.bitIdx + 1))).foldl
    (fun trunc i =>
      trunc.freeTable i (if i < cut.bitCount - 1 then blkidxPerTable else cut.idxCountLastBit)) trunc

def SecCut.firstCount (cut : SecCut) : Nat :=
  if cut.bitCount = 1 then cut.idxCountLastBit else blkidxPerTable - cut.blkIdxIdx

def SecTrunc.cutTable (cut : SecCut) (trunc : SecTrunc) : Status × SecTrunc :=
  match trunc.img.secTable cut.bitIdx with
  | some table =>
    (.success, SecTrunc.mk
      (if (trunc.img.secBitBlks cut.bitIdx).isNone ∧ cut.blkIdxIdx = 0 then trunc.img
        else trunc.img.setSec cut.bitIdx (some (table.clear cut.blkIdxIdx cut.firstCount)))
      (trunc.pool.free (table.entries cut.blkIdxIdx cut.firstCount)) trunc.bBitdDirty)
  | none =>
    if cut.blkIdxIdx = 0 then (.success, trunc)
    else
      match trunc.pool.spare with
      | [] => (.enomem, trunc)
      | blkIdx :: spare =>
        (.success, SecTrunc.mk ((trunc.img.setDir cut.bitIdx blkIdx).setSec cut.bitIdx (some .empty))
          { trunc.pool with spare := spare } true)

/-- The first table goes when nothing of it is kept. -/
def SecTrunc.dropTable (cut : SecCut) (trunc : SecTrunc) : SecTrunc :=
  if cut.blkIdxIdx = 0 then trunc.freeDir cut.bitIdx else trunc

/-- The directory goes when nothing of it is kept. In the safe mode it is written when it changed, and
the result of that is returned. -/
def SecTrunc.finish (bSafe : Bool) (lablkidx : Nat) (ret : Status) (trunc : SecTrunc) :
    Status × FileImage × BlkPool :=
  if lablkidx = secBlkStart then
    (.success, { trunc.img with bitdBlk := none, bitd := 0 }, trunc.pool.free [trunc.img.bitd])
  else if trunc.bBitdDirty ∧ bSafe then (.success, trunc.img, trunc.pool)
  else (ret, trunc.img, trunc.pool)

/-- `TruncBlkSecIndirect`, with its indices. -/
def truncSec (bSafe : Bool) (lablkidx : Nat) (cut : SecCut) : Step := fun (img, pool) =>
  ((SecTrunc.mk img pool false).freeTables cut |>.cutTable cut).2 |>.dropTable cut |>.finish bSafe lablkidx
    ((SecTrunc.mk img pool false).freeTables cut |>.cutTable cut).1

def truncBlkSecIndirect (bSafe : Bool) (lablkidx : Nat) : Step := fun (img, pool) =>
  if img.bitdBlk.isNone then (.efault, img, pool)
  else truncSec bSafe lablkidx (secCut (lablkidx * blockSize) img.dwSize) (img, pool)

/-- `SetSize( dwOff )`, after an error too. -/
def setSize (dwOff : Nat) (first : Step) : Step := fun start =>
  ((first start).1, { (first start).2.1 with dwSize := dwOff }, (first start).2.2)

def dropError (first : Step) : Step := fun start => (.success, (first start).2)

/-- The blocks from `dwTruncIdx` on. The areas behind the one it is in go first. -/
def truncBlks (bSafe : Bool) (dwOff dwTruncIdx : Nat) : Step := fun (img, pool) =>
  if secBlkStart ≤ dwTruncIdx then setSize dwOff (truncBlkSecIndirect bSafe dwTruncIdx) (img, pool)
  else if directBlocks ≤ dwTruncIdx then
    if secBlkStart * blockSize < img.dwSize then
      andThen (truncBlkSecIndirect bSafe secBlkStart) (setSize dwOff (truncBlkIndirect dwTruncIdx)) (img, pool)
    else setSize dwOff (truncBlkIndirect dwTruncIdx) (img, pool)
  else if secBlkStart * blockSize < img.dwSize then
    andThen (truncBlkSecIndirect bSafe secBlkStart)
      (andThen (dropError (truncBlkIndirect directBlocks)) (setSize dwOff (truncBlkDirect dwTruncIdx))) (img, pool)
  else if directBlocks * blockSize < img.dwSize then
    andThen (truncBlkIndirect directBlocks) (setSize dwOff (truncBlkDirect dwTruncIdx)) (img, pool)
  else setSize dwOff (truncBlkDirect dwTruncIdx) (img, pool)

/-- `Extend`: the part of the last block in front of the new end is written. -/
def extend (dwOff : Nat) : Step := writeFile (dwOff - dwOff % blockSize) (dwOff % blockSize)

/-- `dwTruncOff` is set: there are bytes behind the block of the new end. -/
def cutsBlks (dwOff dwSize : Nat) : Bool := blksOf dwOff * blockSize < dwSize

/-- `TruncateNoLock`. -/
def truncateNoLock (bSafe : Bool) (dwOff : Nat) : Step := fun (img, pool) =>
  if maxFileSize ≤ dwOff then (.erange, img, pool)
  else if img.dwSize < dwOff then extend dwOff (img, pool)
  else if img.dwSize = dwOff then (.success, img, pool)
  else if cutsBlks dwOff img.dwSize then truncBlks bSafe dwOff (blksOf dwOff) (img, pool)
  else (.success, { img with dwSize := dwOff }, pool)

end FileImage

end RpcFrmwrk.Registry
