import Mathlib.Data.List.Sort
import RpcFrmwrk.Combase.Buffer
import RpcFrmwrk.Library.Extents
import RpcFrmwrk.Registry.Layout

/-! The block cache of `CBlockAllocator` in safe mode. Dirty blocks are kept as runs, a map from the
first index of a run to its buffer. All buffers are sequences of whole blocks. Block indices are
below 2^28, so that their sums stay in 32 bits; only the byte address can leave them. Owns the
backing file with `ReadWriteFile`; `findContigousBlocks`, `intersectIntervals`, `subtractIntervals`;
`cacheBlocks`, `readCache`, `mergeBlocks`, `commitCache`. -/

namespace RpcFrmwrk.Registry

open RpcFrmwrk.Library

/-- An error number, or a count of bytes. -/
abbrev Ret := Except Nat Nat

/-- `ERROR( ret )`. -/
def failed : Ret → Bool
  | .error _ => true
  | .ok _ => false

def e2big : Nat := 7

def einval : Nat := 22

/-- `CONTBLKS`. `second` is a number of blocks or, as an interval, the index
behind the last block; `off` is a position in the caller's buffer; `key` is the
first index of a cached run. -/
structure ContBlks where
  first : Nat
  second : Nat
  off : Nat
  key : Nat
deriving DecidableEq, Repr

/-- The members of `CBlockAllocator` the cache works on: `m_mapDirtyBlks`, the
backing file behind `m_iFd`, and `errno` as the last failed call left it. -/
structure Allocator where
  dirtyBlks : List (Extent Block)
  file : List Block
  errno : Nat

/-- `lseek` returns the position, which is kept in a `gint32` and taken for an
error when it is negative. -/
def seekFails (off : Nat) : Bool := decide (2 ^ 31 ≤ off % 2 ^ 32)

/-- The status of `ReadWriteFile` when `lseek` seems to have failed. -/
def Allocator.staleErrno (alloc : Allocator) : Ret :=
  if alloc.errno = 0 then .ok 0 else .error alloc.errno

/-- `ReadWriteFile` for a read of `count` blocks to position `start` of the
buffer. It stops at the end of the file. -/
def Allocator.readFile (alloc : Allocator) (buf : List Block) (start off count : Nat) :
    Ret × List Block :=
  if seekFails off then (alloc.staleErrno, buf)
  else
    let blocks := slice alloc.file (off / blockSize) count
    (.ok (blocks.length * blockSize), splice buf start blocks)

/-- `ReadWriteFile` for a write. A gap behind the end of the file reads as zero. -/
def Allocator.writeFile (alloc : Allocator) (off : Nat) (blocks : List Block) : Ret × Allocator :=
  if seekFails off then (alloc.staleErrno, alloc)
  else
    (.ok (blocks.length * blockSize),
      { alloc with file := writeAt zeroBlock alloc.file (off / blockSize) blocks })

/-! ### Intervals -/

def contigousLoop (base prev count : Nat) : List Nat → List ContBlks
  | [] => [⟨base, count, 0, 0⟩]
  | blkIdx :: blocks =>
    if blkIdx = prev + 1 ∧ blkIdx % blocksPerGroupFull ≠ 0 then
      contigousLoop base (prev + 1) (count + 1) blocks
    else if blkIdx = invalidBlockIdx ∧ base = invalidBlockIdx then
      contigousLoop base blkIdx (count + 1) blocks
    else ⟨base, count, 0, 0⟩ :: contigousLoop blkIdx blkIdx 1 blocks

/-- `FindContigousBlocks`: runs of consecutive indices inside a group, and runs
of holes. -/
def findContigousBlocks : List Nat → List ContBlks
  | [] => []
  | blkIdx :: blocks => contigousLoop blkIdx blkIdx 1 blocks

/-- Turn counts into ends and note where each run lies in the buffer. -/
def toIntervals (off : Nat) : List ContBlks → List ContBlks
  | [] => []
  | elem :: elems =>
    { elem with off := off, second := elem.second + elem.first } ::
      toIntervals (off + elem.second) elems

/-- The inner part of the loop of `IntersectIntervals`: one interval against the
cached runs. The runs it leaves are those the next interval starts with. -/
def intersectOne (interval : ContBlks) :
    List (Extent Block) → List ContBlks × List (Extent Block)
  | [] => ([], [])
  | run :: runs =>
    let start := max interval.first run.first
    let stop := min interval.second run.last
    let hit :=
      if start < stop then
        [⟨start, stop, interval.off + (start - interval.first), run.first⟩]
      else []
    if interval.second < run.last then (hit, run :: runs)
    else
      let (hits, rest) := intersectOne interval runs
      (hit ++ hits, rest)

def intersectLoop : List ContBlks → List (Extent Block) → List ContBlks
  | [], _ => []
  | interval :: intervals, runs =>
    let (hits, rest) := intersectOne interval runs
    hits ++ intersectLoop intervals rest

/-- `lower_bound` of the index, one step back. -/
def fromPredecessor (first : Nat) : List (Extent Block) → List (Extent Block)
  | run :: next :: runs =>
    if next.first < first then fromPredecessor first (next :: runs) else run :: next :: runs
  | runs => runs

/-- `IntersectIntervals`: the cached parts of the intervals. -/
def intersectIntervals (intervals : List ContBlks) (runs : List (Extent Block)) :
    List ContBlks :=
  match intervals with
  | [] => []
  | interval :: rest => intersectLoop (interval :: rest) (fromPredecessor interval.first runs)

/-- What is left of an interval from `current` on, between the cached parts. -/
def remainder (interval : ContBlks) (current : Nat) : List ContBlks → List ContBlks
  | [] =>
    if current < interval.second then
      [⟨current, interval.second, interval.off + current - interval.first, 0⟩]
    else []
  | common :: commons =>
    (if current < common.first then
      [⟨current, common.first, interval.off + current - interval.first, 0⟩]
    else []) ++ remainder interval (max current common.second) commons

def subtractLoop : List ContBlks → List ContBlks → List ContBlks
  | [], _ => []
  | interval :: intervals, commons =>
    let ahead := commons.dropWhile fun common => common.second ≤ interval.first
    remainder interval interval.first
        (ahead.takeWhile fun common => common.first < interval.second) ++
      subtractLoop intervals (ahead.dropWhile fun common => common.first < interval.second)

/-- `SubtractIntervals`: the parts of the intervals that are not cached. -/
def subtractIntervals (intervals commons : List ContBlks) : List ContBlks :=
  match commons with
  | [] => intervals
  | commons => subtractLoop intervals commons

def isSpecial (blkIdx : Nat) : Bool := blkIdx == superBlkIdx || blkIdx == grpbmpBlkIdx

def assignRun (runs : List (Extent Block)) (run : Extent Block) : List (Extent Block) :=
  emplace (runs.filter fun other => other.first ≠ run.first) run

/-- The intervals of a request, sorted by their first index. The order among
runs of holes does not matter to what follows. -/
def requestIntervals (contigous : Bool) (blocks : List Nat) : List ContBlks :=
  if contigous then
    match blocks with
    | [] => []
    | first :: _ => [⟨first, first + blocks.length, 0, 0⟩]
  else
    (toIntervals 0 (findContigousBlocks blocks)).mergeSort
      fun left right => decide (left.first ≤ right.first)

/-- Copy one cached part into its run. -/
def storeHit (buf : List Block) (state : List (Extent Block) × Nat) (elem : ContBlks) :
    List (Extent Block) × Nat :=
  let key := if isSpecial elem.first then elem.first else elem.key
  match state.1.find? fun run => run.first == key with
  | none => state
  | some run =>
    let count := elem.second - elem.first
    if run.items.length < elem.first - run.first then state
    else
      (overwrite state.1 run.first (elem.first - run.first) (slice buf elem.off count),
        state.2 + count * blockSize)

def storeNew (buf : List Block) : List ContBlks → List (Extent Block) × Nat →
    Ret × List (Extent Block)
  | [], (runs, bytes) => (.ok bytes, runs)
  | elem :: elems, (runs, bytes) =>
    let count := elem.second - elem.first
    -- `Resize`
    if maxBytesPerBuffer < count * blockSize then (.error e2big, runs)
    else
      storeNew buf elems
        (emplace runs ⟨elem.first, slice buf elem.off count⟩, bytes + count * blockSize)

/-- `CacheBlocks`. No result when it aborts the process. -/
def cacheBlocks (alloc : Allocator) (blocks : List Nat) (buf : List Block) (contigous : Bool) :
    Option (Ret × Allocator) :=
  match blocks with
  | [] => none
  | first :: _ =>
    if isSpecial first then
      some (.ok blockSize,
        { alloc with dirtyBlks := assignRun alloc.dirtyBlks ⟨first, buf.take 1⟩ })
    else
      let intervals := requestIntervals contigous blocks
      let commons := intersectIntervals intervals alloc.dirtyBlks
      let news := subtractIntervals intervals commons
      if commons.any fun elem => elem.first == invalidBlockIdx then none
      else
        let (ret, runs) := storeNew buf news (commons.foldl (storeHit buf) (alloc.dirtyBlks, 0))
        some (ret, { alloc with dirtyBlks := runs })

/-- Zero the holes among the sorted intervals and drop them. -/
def fillHoles : List ContBlks → List Block → List ContBlks × List Block
  | [], buf => ([], buf)
  | elem :: elems, buf =>
    if elem.first < invalidBlockIdx then
      let (rest, buf) := fillHoles elems buf
      (elem :: rest, buf)
    else if elem.first = invalidBlockIdx then
      fillHoles elems
        (splice buf elem.off (List.replicate (elem.second - elem.first) zeroBlock))
    else (elem :: elems, buf)

def readHit (runs : List (Extent Block)) (state : List Block × Nat) (elem : ContBlks) :
    List Block × Nat :=
  match runs.find? fun run => run.first == elem.key with
  | none => state
  | some run =>
    let count := elem.second - elem.first
    if run.items.length < elem.first - run.first then state
    else
      (splice state.1 elem.off (slice run.items (elem.first - run.first) count),
        state.2 + count * blockSize)

def readMiss (alloc : Allocator) : List ContBlks → List Block × Nat → Ret × List Block
  | [], (buf, bytes) => (.ok bytes, buf)
  | elem :: elems, (buf, bytes) =>
    let count := elem.second - elem.first
    let read := alloc.readFile buf elem.off (blockAbs elem.first) count
    if failed read.1 then read
    else readMiss alloc elems (read.2, bytes + count * blockSize)

/-- `ReadCache`. -/
def readCache (alloc : Allocator) (blocks : List Nat) (buf : List Block) (contigous : Bool) :
    Ret × List Block :=
  match blocks with
  | [] => (.error einval, buf)
  | first :: _ =>
    if isSpecial first then
      match alloc.dirtyBlks.find? fun run => run.first == first with
      | some run => (.ok 0, splice buf 0 (run.items.take blocks.length))
      | none =>
        alloc.readFile buf 0 (if first = grpbmpBlkIdx then superBlockSize else 0)
          blocks.length
    else
      let (intervals, buf) :=
        if contigous then (requestIntervals contigous blocks, buf)
        else fillHoles (requestIntervals contigous blocks) buf
      let commons := intersectIntervals intervals alloc.dirtyBlks
      let news := subtractIntervals intervals commons
      readMiss alloc news (commons.foldl (readHit alloc.dirtyBlks) (buf, 0))

/-- `WriteBlocks`. -/
def writeBlocks (alloc : Allocator) (blocks : List Nat) (buf : List Block) (contigous : Bool) :
    Option (Ret × Allocator) :=
  if blocks.length = 0 then some (.error einval, alloc)
  else cacheBlocks alloc blocks buf contigous

/-- `ReadBlocks`. -/
def readBlocks (alloc : Allocator) (blocks : List Nat) (buf : List Block) (contigous : Bool) :
    Ret × List Block :=
  if blocks.length = 0 then (.error einval, buf) else readCache alloc blocks buf contigous

/-- The loop of `MergeBlocks`. -/
def mergeLoop (current : Extent Block) : List (Extent Block) → List (Extent Block)
  | [] => [current]
  | next :: runs =>
    if next.first = current.first + current.items.length then
      if (current.items.length + next.items.length) * blockSize ≤ maxBytesPerBuffer then
        mergeLoop (current.join next) runs
      else current :: mergeLoop next runs
    else current :: mergeLoop next runs

/-- `MergeBlocks`. -/
def mergeBlocks (alloc : Allocator) : Allocator :=
  match alloc.dirtyBlks with
  | [] => alloc
  | run :: runs => { alloc with dirtyBlks := mergeLoop run runs }

def runOffset (run : Extent Block) : Nat :=
  if run.first = superBlkIdx then 0
  else if run.first = grpbmpBlkIdx then superBlockSize
  else blockAbs run.first

/-- The loop of `CommitCache`. No result when it aborts the process. -/
def commitLoop (alloc : Allocator) : List (Extent Block) → Option Allocator
  | [] => some alloc
  | run :: runs =>
    let written := alloc.writeFile (runOffset run) run.items
    if failed written.1 then none else commitLoop written.2 runs

/-- `CommitCache`. -/
def commitCache (alloc : Allocator) : Option Allocator :=
  (commitLoop alloc alloc.dirtyBlks).map fun alloc => { alloc with dirtyBlks := [] }

end RpcFrmwrk.Registry
