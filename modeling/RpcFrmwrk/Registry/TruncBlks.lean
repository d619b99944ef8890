import Mathlib.Data.List.Perm.Subperm
import Mathlib.Data.List.Range
import RpcFrmwrk.Registry.FileBlks

/-! What `CFileImage::Truncate` frees. A block is named at one place: by the inode, or by an entry
of a table. The loops go over places, and each call of `FreeBlocks` gets the blocks of a range of
places. Owns `Slot` and `FileImage.ref`; `reached`, the places that are gone over when a file is
cut; `Cuts`, what cutting at a block does, and its proof for each area. -/

namespace RpcFrmwrk.Registry

open List

/-- A place that names a block: of data, of the table, of the directory, of a second-level table. -/
inductive Slot where
  | data (idx : Nat)
  | bit
  | bitd
  | table (k : Nat)
deriving DecidableEq, Repr

namespace Slot

/-- The block of the file is reached through the place. -/
def Covers : Slot → Nat → Prop
  | .data idx, other => other = idx
  | .bit, other => directBlocks ≤ other ∧ other < secBlkStart
  | .bitd, other => secBlkStart ≤ other
  | .table k, other =>
    secBlkStart + blkidxPerTable * k ≤ other ∧ other < secBlkStart + blkidxPerTable * (k + 1)

instance (slot : Slot) (idx : Nat) : Decidable (slot.Covers idx) := by
  cases slot <;> unfold Covers <;> infer_instance

/-- The places of an inode. -/
def all : List Slot :=
  (List.range maxFileBlks).map data ++ [bit, bitd] ++ (List.range blkidxPerTable).map table

end Slot

/-- Blocks are added to what is freed. -/
def BlkPool.take (pool : BlkPool) (blkIdxs : List Nat) : BlkPool :=
  { pool with freed := pool.freed ++ blkIdxs }

theorem BlkPool.take_take (pool : BlkPool) (first second : List Nat) :
    (pool.take first).take second = pool.take (first ++ second) := by
  simp [take]

theorem BlkPool.take_nil (pool : BlkPool) : pool.take [] = pool := by
  simp [take]

theorem BlkPool.free_eq (pool : BlkPool) (blkIdxs : List Nat) :
    pool.free blkIdxs = pool.take (blkIdxs.filter (· ≠ 0)) := rfl

namespace FileImage

/-- The second-level table, empty where the directory has none. -/
def sec (img : FileImage) (k : Nat) : BlkTable :=
  if img.dirAt k = 0 then .empty else (img.secTable k).getD .empty

/-- The block that is named. -/
def ref (img : FileImage) : Slot → Nat
  | .data idx =>
    if idx < directBlocks then img.direct idx
    else if idx < secBlkStart then img.bitBlk.getD .empty (idx - directBlocks)
    else img.sec ((idx - secBlkStart) / blkidxPerTable) ((idx - secBlkStart) % blkidxPerTable)
  | .bit => img.bit
  | .bitd => img.bitd
  | .table k => img.dirAt k

def blocksAt (img : FileImage) (slots : List Slot) : List Nat := (slots.map img.ref).filter (· ≠ 0)

/-- The tables of the inode are in memory, and a table in the map that the directory does not name is
empty. -/
structure Loaded (img : FileImage) : Prop where
  size_le : img.dwSize ≤ maxFileSize
  bit_eq_zero : img.bit = 0 ↔ img.bitBlk = none
  bitd_eq_zero : img.bitd = 0 ↔ img.bitdBlk = none
  stale : ∀ k table, img.secBitBlks k = some table → img.dirAt k = 0 → ∀ j, table j = 0

/-- Entries of a second-level table. -/
def tableData (k first count : Nat) : List Slot :=
  (List.range' first count).map fun j => .data (secBlkStart + blkidxPerTable * k + j)

def tableSlots (k count : Nat) : List Slot := tableData k 0 count ++ [.table k]

/-- The places `TruncBlkSecIndirect` goes over. -/
def secReached (lablkidx : Nat) (cut : SecCut) : List Slot :=
  (List.range' (cut.bitIdx + 1) (cut.bitCount - (cut.bitIdx + 1))).flatMap
    (fun i => tableSlots i (if i < cut.bitCount - 1 then blkidxPerTable else cut.idxCountLastBit)) ++
  tableData cut.bitIdx cut.blkIdxIdx cut.firstCount ++
  (if cut.blkIdxIdx = 0 then [.table cut.bitIdx] else []) ++
  if lablkidx = secBlkStart then [.bitd] else []

/-- The places `TruncBlkIndirect` goes over, where the file has `dwBlks` blocks. -/
def bitReached (lablkidx dwBlks : Nat) : List Slot :=
  (List.range' lablkidx (min (dwBlks - lablkidx) (secBlkStart - lablkidx))).map .data ++
    if lablkidx = directBlocks then [.bit] else []

/-- The places `TruncBlkDirect` goes over. -/
def directReached (lablkidx dwBlks : Nat) : List Slot :=
  (List.range' lablkidx (min (directBlocks - lablkidx) dwBlks)).map .data

/-- The places that are gone over when a file of `dwSize` bytes is cut at a block. -/
def reached (lablkidx dwSize : Nat) : List Slot :=
  if secBlkStart ≤ lablkidx then secReached lablkidx (secCut (lablkidx * blockSize) dwSize)
  else
    (if secBlkStart < blksOf dwSize then
      secReached secBlkStart (secCut (secBlkStart * blockSize) dwSize) else []) ++
    (if directBlocks < blksOf dwSize then bitReached (max directBlocks lablkidx) (blksOf dwSize) else []) ++
    if lablkidx < directBlocks then directReached lablkidx (blksOf dwSize) else []

/-- The file was cut at a block: the places gone over are empty, what they named is freed, places in
front of the cut are as before, and no place got another block. -/
structure Cuts (lablkidx : Nat) (slots : List Slot) (img : FileImage) (pool : BlkPool) (after : FileImage)
    (rest : BlkPool) : Prop where
  freed : rest.freed = pool.freed ++ img.blocksAt slots
  gone : ∀ slot ∈ slots, after.ref slot = 0
  others : ∀ slot, after.ref slot = 0 ∨ after.ref slot = img.ref slot
  kept : ∀ slot idx, slot.Covers idx → idx < lablkidx → after.ref slot = img.ref slot

section Places

variable (img : FileImage)

@[simp] theorem blocksAt_nil : img.blocksAt [] = [] := rfl

@[simp] theorem blocksAt_append (first second : List Slot) :
    img.blocksAt (first ++ second) = img.blocksAt first ++ img.blocksAt second := by
  simp [blocksAt]

theorem blocksAt_congr {img other : FileImage} {slots : List Slot}
    (same : ∀ slot ∈ slots, other.ref slot = img.ref slot) : other.blocksAt slots = img.blocksAt slots := by
  unfold blocksAt
  rw [map_congr_left same]

theorem ref_direct {idx : Nat} (area : idx < directBlocks) : img.ref (.data idx) = img.direct idx := by
  rw [ref, if_pos area]

theorem ref_indirect {idx : Nat} (area : directBlocks ≤ idx) (inside : idx < secBlkStart) :
    img.ref (.data idx) = img.bitBlk.getD .empty (idx - directBlocks) := by
  rw [ref, if_neg (by omega), if_pos inside]

theorem ref_sec {idx : Nat} (area : secBlkStart ≤ idx) : img.ref (.data idx) =
    img.sec ((idx - secBlkStart) / blkidxPerTable) ((idx - secBlkStart) % blkidxPerTable) := by
  have behind : directBlocks ≤ idx := by
    unfold secBlkStart at area
    omega
  rw [ref, if_neg (by omega), if_neg (by omega)]

theorem ref_tableData {k j : Nat} (small : j < blkidxPerTable) :
    img.ref (.data (secBlkStart + blkidxPerTable * k + j)) = img.sec k j := by
  have position : (secBlkStart + blkidxPerTable * k + j) - secBlkStart = blkidxPerTable * k + j := by omega
  have entry : (blkidxPerTable * k + j) / blkidxPerTable = k ∧ (blkidxPerTable * k + j) % blkidxPerTable = j := by
    unfold blkidxPerTable at small ⊢
    omega
  rw [ref_sec img (by omega), position, entry.1, entry.2]

theorem blocksAt_tableData {k first count : Nat} (fits : first + count ≤ blkidxPerTable) :
    img.blocksAt (tableData k first count) = ((img.sec k).entries first count).filter (· ≠ 0) := by
  unfold blocksAt tableData BlkTable.entries
  rw [map_map]
  congr 1
  apply map_congr_left
  intro j member
  have range := mem_range'_1.1 member
  exact ref_tableData img (by omega)

end Places

/-! ### The tables behind the first -/

/-- Tables are taken out of the directory and of the map. -/
def dropTables (img : FileImage) (tables : List Nat) : FileImage :=
  { img with
    bitdBlk := img.bitdBlk.map fun dir j => if j ∈ tables then 0 else dir j
    secBitBlks := fun j => if j ∈ tables then none else img.secBitBlks j }

section Tables

variable {img : FileImage} {pool : BlkPool}

theorem dirAt_dropTables (tables : List Nat) (j : Nat) :
    (img.dropTables tables).dirAt j = if j ∈ tables then 0 else img.dirAt j := by
  unfold dirAt dropTables
  cases img.bitdBlk with
  | none => simp [BlkTable.empty]
  | some dir => rfl

theorem secTable_dropTables {tables : List Nat} {k : Nat} (left : k ∉ tables) :
    (img.dropTables tables).secTable k = img.secTable k := by
  unfold secTable
  rw [dirAt_dropTables]
  simp [left, dropTables]

theorem sec_dropTables (tables : List Nat) (k : Nat) :
    (img.dropTables tables).sec k = if k ∈ tables then .empty else img.sec k := by
  unfold sec
  rw [dirAt_dropTables]
  by_cases dropped : k ∈ tables
  · simp [dropped]
  · simp only [dropped, if_false, secTable_dropTables dropped]

theorem dropTables_nil : img.dropTables [] = img := by
  unfold dropTables
  cases img with
  | mk _ _ _ _ _ bitdBlk _ _ => cases bitdBlk <;> simp

theorem dropTables_append (first second : List Nat) :
    (img.dropTables first).dropTables second = img.dropTables (first ++ second) := by
  unfold dropTables
  cases img with
  | mk _ _ _ _ _ bitdBlk secBitBlks _ =>
    have tables : ∀ (dir : BlkTable) (j : Nat), (if j ∈ second then 0 else if j ∈ first then 0 else dir j) =
        if j ∈ first ++ second then 0 else dir j := by
      intro dir j
      by_cases left : j ∈ first <;> by_cases right : j ∈ second <;> simp [left, right]
    have mapped : ∀ j, (if j ∈ second then none else if j ∈ first then none else secBitBlks j) =
        if j ∈ first ++ second then none else secBitBlks j := by
      intro j
      by_cases left : j ∈ first <;> by_cases right : j ∈ second <;> simp [left, right]
    cases bitdBlk <;> simp [tables, mapped]

theorem entries_eq_nil {table : BlkTable} (zero : ∀ j, table j = 0) (first count : Nat) :
    (table.entries first count).filter (· ≠ 0) = [] := by
  apply filter_eq_nil_iff.2
  intro blkIdx member
  obtain ⟨j, _, named⟩ := mem_map.1 member
  simp [← named, zero]

theorem entries_empty (first count : Nat) : (BlkTable.empty.entries first count).filter (· ≠ 0) = [] :=
  entries_eq_nil (fun _ => rfl) first count

theorem blocksAt_tableSlots (i : Nat) {count : Nat} (fits : count ≤ blkidxPerTable) :
    img.blocksAt (tableSlots i count) =
      ((img.sec i).entries 0 count).filter (· ≠ 0) ++ [img.dirAt i].filter (· ≠ 0) := by
  unfold tableSlots
  rw [blocksAt_append, blocksAt_tableData img (by omega)]
  rfl

theorem sec_of_absent {i : Nat} (absent : img.dirAt i = 0) : img.sec i = .empty := if_pos absent

theorem secTable_of_present {i : Nat} (present : img.dirAt i ≠ 0) : img.secTable i = some (img.sec i) := by
  have found : ∃ table, img.secTable i = some table := by
    unfold secTable
    cases img.secBitBlks i with
    | none => exact ⟨_, if_neg present⟩
    | some table => exact ⟨table, rfl⟩
  obtain ⟨table, found⟩ := found
  rw [sec, if_neg present, found, Option.getD_some]

theorem Loaded.secTable_of_absent (loaded : img.Loaded) {i : Nat} (absent : img.dirAt i = 0)
    (first count : Nat) :
    (((img.secTable i).getD .empty).entries first count).filter (· ≠ 0) = [] := by
  unfold secTable
  cases inMap : img.secBitBlks i with
  | none => simp only [absent, if_true, Option.getD_none, entries_empty]
  | some table => exact entries_eq_nil (loaded.stale i table inMap absent) first count

theorem setSec_eq_dropTables {i : Nat} (absent : img.dirAt i = 0) : img.setSec i none = img.dropTables [i] := by
  unfold setSec dropTables
  unfold dirAt at absent
  cases img with
  | mk _ _ _ _ _ bitdBlk _ _ =>
    cases bitdBlk with
    | none => simp
    | some dir =>
      have same : (fun j => if j = i then 0 else dir j) = dir := by
        funext j
        by_cases here : j = i
        · rw [if_pos here, here]
          exact absent.symm
        · rw [if_neg here]
      simp [same]

theorem setDir_eq_dropTables (dir : img.bitdBlk.isSome) (i : Nat) :
    (img.setSec i none).setDir i 0 = img.dropTables [i] := by
  obtain ⟨dir, found⟩ := Option.isSome_iff_exists.1 dir
  unfold setSec setDir dropTables BlkTable.set
  simp [found]

theorem freeDir_of_absent {i : Nat} {trunc : SecTrunc} (absent : trunc.img.dirAt i = 0) :
    trunc.freeDir i = trunc := if_pos absent

theorem freeTable_eq (loaded : img.Loaded) (dir : img.bitdBlk.isSome) (i : Nat) {count : Nat}
    (fits : count ≤ blkidxPerTable) (bBitdDirty : Bool) :
    (SecTrunc.mk img pool bBitdDirty).freeTable i count =
      ⟨img.dropTables [i], pool.take (img.blocksAt (tableSlots i count)),
        bBitdDirty || decide (img.dirAt i ≠ 0)⟩ := by
  have entries : (SecTrunc.mk img pool bBitdDirty).freeTable i count =
      SecTrunc.freeDir i ⟨img.setSec i none,
        pool.free (((img.secTable i).getD .empty).entries 0 count), bBitdDirty⟩ := by
    unfold SecTrunc.freeTable
    cases img.secTable i with
    | none => rw [Option.getD_none, BlkPool.free_eq, entries_empty, BlkPool.take_nil]
    | some table => rfl
  rw [entries, blocksAt_tableSlots i fits]
  by_cases absent : img.dirAt i = 0
  · have gone : (img.setSec i none).dirAt i = 0 := absent
    rw [freeDir_of_absent gone, setSec_eq_dropTables absent, sec_of_absent absent, entries_empty]
    rw [BlkPool.free_eq, loaded.secTable_of_absent absent]
    simp [absent]
  · have present : ¬ (img.setSec i none).dirAt i = 0 := absent
    rw [SecTrunc.freeDir, if_neg present, secTable_of_present absent, setDir_eq_dropTables dir]
    have block : (img.setSec i none).dirAt i = img.dirAt i := rfl
    rw [BlkPool.free_eq, BlkPool.free_eq, BlkPool.take_take, Option.getD_some, block]
    simp [absent]

theorem Loaded.dropTables (loaded : img.Loaded) (tables : List Nat) : (img.dropTables tables).Loaded where
  size_le := loaded.size_le
  bit_eq_zero := loaded.bit_eq_zero
  bitd_eq_zero := by
    rw [FileImage.dropTables, Option.map_eq_none_iff]
    exact loaded.bitd_eq_zero
  stale := by
    intro k table inMap absent
    have left : k ∉ tables ∧ img.secBitBlks k = some table := by
      simpa [FileImage.dropTables] using inMap
    rw [dirAt_dropTables, if_neg left.1] at absent
    exact loaded.stale k table left.2 absent

theorem isSome_dropTables (dir : img.bitdBlk.isSome) (tables : List Nat) :
    (img.dropTables tables).bitdBlk.isSome := by
  simpa [dropTables] using dir

theorem blocksAt_flatMap (tables : List Nat) (slots : Nat → List Slot) :
    img.blocksAt (tables.flatMap slots) = tables.flatMap fun i => img.blocksAt (slots i) := by
  induction tables with
  | nil => rfl
  | cons i rest ih =>
    rw [flatMap_cons, flatMap_cons, blocksAt_append, ih]

theorem foldl_freeTable (pool : BlkPool) (loaded : img.Loaded) (dir : img.bitdBlk.isSome)
    {tables : List Nat} (nodup : tables.Nodup)
    (count : Nat → Nat) (fits : ∀ i, count i ≤ blkidxPerTable) (bBitdDirty : Bool) :
    tables.foldl (fun trunc i => SecTrunc.freeTable i (count i) trunc) ⟨img, pool, bBitdDirty⟩ =
      ⟨img.dropTables tables,
        pool.take (img.blocksAt (tables.flatMap fun i => tableSlots i (count i))),
        bBitdDirty || tables.any fun i => img.dirAt i ≠ 0⟩ := by
  induction tables generalizing img pool bBitdDirty with
  | nil => simp [dropTables_nil, BlkPool.take_nil]
  | cons i rest ih =>
    obtain ⟨fresh, nodup⟩ := nodup_cons.1 nodup
    rw [foldl_cons, freeTable_eq loaded dir i (fits i),
      ih _ (loaded.dropTables [i]) (isSome_dropTables dir [i]) nodup, dropTables_append]
    have other : ∀ j ∈ rest, j ∉ [i] := by
      intro j member same
      exact fresh (mem_singleton.1 same ▸ member)
    have blocks : (img.dropTables [i]).blocksAt (rest.flatMap fun i => tableSlots i (count i)) =
        img.blocksAt (rest.flatMap fun i => tableSlots i (count i)) := by
      rw [blocksAt_flatMap, blocksAt_flatMap]
      apply flatMap_congr
      intro j member
      rw [blocksAt_tableSlots j (fits j), blocksAt_tableSlots j (fits j), dirAt_dropTables, sec_dropTables,
        if_neg (other j member), if_neg (other j member)]
    have dirty : (rest.any fun j => (img.dropTables [i]).dirAt j ≠ 0) = rest.any fun j => img.dirAt j ≠ 0 := by
      rw [Bool.eq_iff_iff, any_eq_true, any_eq_true]
      apply exists_congr
      intro j
      apply and_congr_right
      intro member
      rw [dirAt_dropTables, if_neg (other j member)]
    rw [blocks, dirty, flatMap_cons, blocksAt_append, BlkPool.take_take]
    simp [Bool.or_assoc]

end Tables

section FirstTable

variable {img : FileImage} {pool : BlkPool}

def OnlyMap (img after : FileImage) : Prop := after = { img with secBitBlks := after.secBitBlks }

theorem OnlyMap.dirAt {img after : FileImage} (only : OnlyMap img after)
    (j : Nat) : after.dirAt j = img.dirAt j := by
  rw [only]
  rfl

theorem sec_setSec (k : Nat) (table : BlkTable) (j : Nat) :
    (img.setSec k (some table)).sec j =
      if j = k then if img.dirAt k = 0 then .empty else table else img.sec j := by
  have dir : (img.setSec k (some table)).dirAt j = img.dirAt j := rfl
  unfold sec
  rw [dir]
  by_cases here : j = k
  · subst here
    simp [secTable, setSec]
  · have same : (img.setSec k (some table)).secTable j = img.secTable j := by
      unfold secTable
      rw [dir]
      simp [setSec, here]
    simp only [same, if_neg here]

/-- The first table is missing where entries of it would be kept. -/
def Hole (img : FileImage) (cut : SecCut) : Prop :=
  (img.secTable cut.bitIdx).isNone ∧ cut.blkIdxIdx ≠ 0

instance (cut : SecCut) : Decidable (img.Hole cut) := inferInstanceAs (Decidable (_ ∧ _))

theorem Loaded.secTable_entries (loaded : img.Loaded) {k first count : Nat}
    (fits : first + count ≤ blkidxPerTable) :
    (((img.secTable k).getD .empty).entries first count).filter (· ≠ 0) = img.blocksAt
    (tableData k first count) := by
  rw [blocksAt_tableData img fits]
  by_cases absent : img.dirAt k = 0
  · rw [loaded.secTable_of_absent absent, sec_of_absent absent, entries_empty]
  · rw [secTable_of_present absent, Option.getD_some]

theorem cutTable_spec (pool : BlkPool) (loaded : img.Loaded) (cut : SecCut)
    (fits : cut.blkIdxIdx + cut.firstCount ≤ blkidxPerTable)
    (bBitdDirty : Bool) (full : ¬ (img.Hole cut ∧ pool.spare ≠ [])) :
    ∃ after, OnlyMap img after ∧ (∀ j, j ≠ cut.bitIdx → after.sec j = img.sec j) ∧
      (cut.blkIdxIdx ≠ 0 → ∀ j, after.sec cut.bitIdx j =
        (img.sec cut.bitIdx).clear cut.blkIdxIdx cut.firstCount j) ∧
      (SecTrunc.mk img pool bBitdDirty).cutTable cut =
        (if img.Hole cut then .enomem else .success, SecTrunc.mk after
          (pool.take (img.blocksAt (tableData cut.bitIdx cut.blkIdxIdx cut.firstCount))) bBitdDirty) := by
  rw [← loaded.secTable_entries fits]
  cases found : img.secTable cut.bitIdx with
  | some table =>
    have noHole : ¬ img.Hole cut := by simp [Hole, found]
    by_cases untouched : (img.secBitBlks cut.bitIdx).isNone ∧ cut.blkIdxIdx = 0
    · refine ⟨img, rfl, fun _ _ => rfl, fun kept => absurd untouched.2 kept, ?_⟩
      simp [SecTrunc.cutTable, found, untouched, noHole, BlkPool.free, BlkPool.take]
    · refine ⟨img.setSec cut.bitIdx (some (table.clear cut.blkIdxIdx cut.firstCount)), rfl, ?_, ?_, ?_⟩
      · intro j other
        rw [sec_setSec, if_neg other]
      · intro _ j
        rw [sec_setSec, if_pos rfl]
        by_cases absent : img.dirAt cut.bitIdx = 0
        · rw [if_pos absent, sec_of_absent absent]
          simp [BlkTable.clear, BlkTable.empty]
        · have same := secTable_of_present absent
          rw [found, Option.some.injEq] at same
          rw [if_neg absent, same]
      · simp only [SecTrunc.cutTable, found, if_neg untouched, if_neg noHole, Option.getD_some]
        rfl
  | none =>
    have absent : img.dirAt cut.bitIdx = 0 := by
      by_contra present
      rw [secTable_of_present present] at found
      exact absurd found (by simp)
    rw [Option.getD_none, entries_empty, BlkPool.take_nil]
    refine ⟨img, rfl, fun _ _ => rfl, fun _ j => ?_, ?_⟩
    · rw [sec_of_absent absent]
      simp [BlkTable.clear, BlkTable.empty]
    · by_cases whole : cut.blkIdxIdx = 0
      · simp [SecTrunc.cutTable, found, whole, Hole]
      · have hole : img.Hole cut := by simp [Hole, whole, found]
        have spent : pool.spare = [] := not_not.1 fun left => full ⟨hole, left⟩
        simp [SecTrunc.cutTable, found, whole, Hole, spent]

theorem freeDir_eq (img : FileImage) (pool : BlkPool) (k : Nat) (bBitdDirty : Bool) :
    ∃ after, (∀ j, after.dirAt j = if j = k then 0 else img.dirAt j) ∧
      (∀ j, j ≠ k → after.sec j = img.sec j) ∧ after = { img with bitdBlk := after.bitdBlk } ∧
      (SecTrunc.mk img pool bBitdDirty).freeDir k =
        ⟨after, pool.take (img.blocksAt [.table k]), bBitdDirty || decide (img.dirAt k ≠ 0)⟩ := by
  by_cases absent : img.dirAt k = 0
  · refine ⟨img, fun j => ?_, fun _ _ => rfl, rfl, ?_⟩
    · by_cases here : j = k
      · rw [if_pos here, here, absent]
      · rw [if_neg here]
    · simp [SecTrunc.freeDir, absent, blocksAt, ref, BlkPool.take_nil]
  · have dirAt : ∀ j, (img.setDir k 0).dirAt j = if j = k then 0 else img.dirAt j := fun _ => rfl
    refine ⟨img.setDir k 0, dirAt, fun j other => ?_, rfl, ?_⟩
    · unfold sec secTable
      rw [dirAt, if_neg other]
      rfl
    · simp [SecTrunc.freeDir, absent, blocksAt, ref, BlkPool.free_eq]

end FirstTable

/-! ### The second-level area -/

section SecArea

variable {img : FileImage} {pool : BlkPool}
variable {lablkidx : Nat} {cut : SecCut}

/-- The indices of a cut at a block of the area. -/
structure CutAt (cut : SecCut) (lablkidx : Nat) : Prop where
  position : lablkidx = secBlkStart + blkidxPerTable * cut.bitIdx + cut.blkIdxIdx
  first : cut.blkIdxIdx + cut.firstCount ≤ blkidxPerTable
  last : cut.idxCountLastBit ≤ blkidxPerTable
  entry : cut.blkIdxIdx < blkidxPerTable

/-- The tables behind the first that the loop goes over. -/
def loopTables (cut : SecCut) : List Nat :=
  List.range' (cut.bitIdx + 1) (cut.bitCount - (cut.bitIdx + 1))

theorem not_mem_loopTables (cut : SecCut) : cut.bitIdx ∉ loopTables cut := by
  intro member
  have range := mem_range'_1.1 member
  omega

def HidesError (img : FileImage) (bSafe : Bool) (cut : SecCut) : Prop :=
  bSafe = true ∧ ∃ i ∈ loopTables cut, img.dirAt i ≠ 0

theorem freeTables_cutTable (pool : BlkPool) (loaded : img.Loaded) (dir : img.bitdBlk.isSome)
    (indices : CutAt cut lablkidx) (full : ¬ (img.Hole cut ∧ pool.spare ≠ [])) :
    ∃ after, (∀ j, after.dirAt j = if j ∈ loopTables cut then 0 else img.dirAt j) ∧
      (∀ j, after.dirAt j ≠ 0 → j ≠ cut.bitIdx → after.sec j = img.sec j) ∧
      (cut.blkIdxIdx ≠ 0 → ∀ j, after.sec cut.bitIdx j =
        (img.sec cut.bitIdx).clear cut.blkIdxIdx cut.firstCount j) ∧
      (∃ bitdBlk secBitBlks, after = { img with bitdBlk := bitdBlk, secBitBlks := secBitBlks }) ∧
      ((SecTrunc.mk img pool false).freeTables cut).cutTable cut =
        (if img.Hole cut then .enomem else .success, SecTrunc.mk after
          (pool.take (img.blocksAt ((loopTables cut).flatMap (fun i =>
              tableSlots i (if i < cut.bitCount - 1 then blkidxPerTable else cut.idxCountLastBit)) ++
            tableData cut.bitIdx cut.blkIdxIdx cut.firstCount)))
          ((loopTables cut).any fun i => img.dirAt i ≠ 0)) := by
  have counts : ∀ i, (if i < cut.bitCount - 1 then blkidxPerTable else cut.idxCountLastBit) ≤ blkidxPerTable := by
    intro i
    have last := indices.last
    split <;> omega
  have fresh := not_mem_loopTables cut
  have loop : (SecTrunc.mk img pool false).freeTables cut = _ :=
    foldl_freeTable pool loaded dir (nodup_range' (s := cut.bitIdx + 1)) _ counts false
  have hole : (img.dropTables (loopTables cut)).Hole cut ↔ img.Hole cut := by
    unfold Hole
    rw [secTable_dropTables fresh]
  have same : (img.dropTables (loopTables cut)).sec cut.bitIdx = img.sec cut.bitIdx := by
    rw [sec_dropTables, if_neg fresh]
  obtain ⟨after, only, others, first, ends⟩ := cutTable_spec
    (pool.take (img.blocksAt ((loopTables cut).flatMap fun i =>
      tableSlots i (if i < cut.bitCount - 1 then blkidxPerTable else cut.idxCountLastBit))))
    (loaded.dropTables (loopTables cut)) cut indices.first
    (false || (loopTables cut).any fun i => img.dirAt i ≠ 0)
    (fun both => full ⟨hole.1 both.1, both.2⟩)
  refine ⟨after, ?_, ?_, ?_, ?_, ?_⟩
  · intro j
    rw [only.dirAt, dirAt_dropTables]
  · intro j present other
    rw [only.dirAt, dirAt_dropTables] at present
    have left : j ∉ loopTables cut := fun member => present (if_pos member)
    rw [others j other, sec_dropTables, if_neg left]
  · intro kept j
    rw [first kept j, same]
  · refine ⟨(img.dropTables (loopTables cut)).bitdBlk, after.secBitBlks, ?_⟩
    rw [only]
    rfl
  · have data : (img.dropTables (loopTables cut)).blocksAt (tableData cut.bitIdx cut.blkIdxIdx cut.firstCount) =
        img.blocksAt (tableData cut.bitIdx cut.blkIdxIdx cut.firstCount) := by
      rw [blocksAt_tableData _ indices.first, blocksAt_tableData _ indices.first, same]
    rw [loop]
    refine ends.trans ?_
    simp only [hole, data, BlkPool.take_take, blocksAt_append, Bool.false_or]

def tablesReached (cut : SecCut) : List Slot :=
  (loopTables cut).flatMap
    (fun i => tableSlots i (if i < cut.bitCount - 1 then blkidxPerTable else cut.idxCountLastBit)) ++
  tableData cut.bitIdx cut.blkIdxIdx cut.firstCount ++
  if cut.blkIdxIdx = 0 then [.table cut.bitIdx] else []

theorem dropTable_spec (pool : BlkPool) (loaded : img.Loaded) (dir : img.bitdBlk.isSome)
    (indices : CutAt cut lablkidx) (full : ¬ (img.Hole cut ∧ pool.spare ≠ [])) :
    ∃ after bBitdDirty,
      (∀ j, after.dirAt j = if j ∈ loopTables cut ∨ j = cut.bitIdx ∧ cut.blkIdxIdx = 0 then 0 else img.dirAt j) ∧
      (∀ j, after.dirAt j ≠ 0 → after.sec j =
        if j = cut.bitIdx then (img.sec j).clear cut.blkIdxIdx cut.firstCount else img.sec j) ∧
      (∃ bitdBlk secBitBlks, after = { img with bitdBlk := bitdBlk, secBitBlks := secBitBlks }) ∧
      (img.Hole cut → (bBitdDirty = true ↔ ∃ i ∈ loopTables cut, img.dirAt i ≠ 0)) ∧
      (((SecTrunc.mk img pool false).freeTables cut).cutTable cut).1 =
        (if img.Hole cut then .enomem else .success) ∧
      (((SecTrunc.mk img pool false).freeTables cut).cutTable cut).2.dropTable cut =
        ⟨after, pool.take (img.blocksAt (tablesReached cut)), bBitdDirty⟩ := by
  obtain ⟨cutImg, dirAt, others, first, ⟨bitdBlk, secBitBlks, inode⟩, begins⟩ :=
    freeTables_cutTable pool loaded dir indices full
  have fresh := not_mem_loopTables cut
  rw [begins, tablesReached]
  by_cases whole : cut.blkIdxIdx = 0
  · obtain ⟨after, dropDir, dropSec, dropInode, ends⟩ := freeDir_eq cutImg
      (pool.take (img.blocksAt ((loopTables cut).flatMap (fun i =>
              tableSlots i (if i < cut.bitCount - 1 then blkidxPerTable else cut.idxCountLastBit)) ++
            tableData cut.bitIdx cut.blkIdxIdx cut.firstCount))) cut.bitIdx
      ((loopTables cut).any fun i => img.dirAt i ≠ 0)
    have noHole : ¬ img.Hole cut := fun hole => hole.2 whole
    have block : cutImg.blocksAt [.table cut.bitIdx] = img.blocksAt [.table cut.bitIdx] := by
      simp only [blocksAt, map_cons, map_nil, ref, dirAt, if_neg fresh]
    refine ⟨after, ((loopTables cut).any fun i => img.dirAt i ≠ 0) || decide (cutImg.dirAt cut.bitIdx ≠ 0),
      ?_, ?_, ?_, fun hole => absurd hole noHole, rfl, ?_⟩
    · intro j
      rw [dropDir, dirAt]
      by_cases here : j = cut.bitIdx
      · simp [here, whole]
      · simp [here]
    · intro j present
      rw [dropDir] at present
      have other : j ≠ cut.bitIdx := fun here => present (if_pos here)
      rw [if_neg other] at present
      rw [if_neg other, dropSec j other, others j present other]
    · refine ⟨after.bitdBlk, secBitBlks, ?_⟩
      apply dropInode.trans
      rw [inode]
    · rw [SecTrunc.dropTable, if_pos whole, ends, block, BlkPool.take_take, if_pos whole]
      simp only [blocksAt_append]
  · refine ⟨cutImg, (loopTables cut).any fun i => img.dirAt i ≠ 0, ?_, ?_, ⟨bitdBlk, secBitBlks, inode⟩, ?_,
      rfl, ?_⟩
    · intro j
      rw [dirAt]
      simp [whole]
    · intro j present
      by_cases here : j = cut.bitIdx
      · rw [if_pos here, here]
        funext entry
        exact first whole entry
      · rw [if_neg here, others j present here]
    · intro _
      simp
    · rw [SecTrunc.dropTable, if_neg whole, if_neg whole, append_nil]

theorem truncSec_spec (loaded : img.Loaded) (dir : img.bitdBlk.isSome) (bSafe : Bool)
    (indices : CutAt cut lablkidx) (full : ¬ (img.Hole cut ∧ pool.spare ≠ [])) :
    ∃ after,
      (truncSec bSafe lablkidx cut (img, pool)).2 =
        (after, pool.take (img.blocksAt (secReached lablkidx cut))) ∧
      ((truncSec bSafe lablkidx cut (img, pool)).1 = .success ↔ (img.Hole cut → img.HidesError bSafe cut)) ∧
      (∃ bitd bitdBlk secBitBlks,
        after = { img with bitd := bitd, bitdBlk := bitdBlk, secBitBlks := secBitBlks }) ∧
      after.bitd = (if lablkidx = secBlkStart then 0 else img.bitd) ∧
      (∀ j, after.dirAt j = if lablkidx = secBlkStart ∨ j ∈ loopTables cut ∨ j = cut.bitIdx ∧ cut.blkIdxIdx = 0 then 0
        else img.dirAt j) ∧
      ∀ j, after.dirAt j ≠ 0 → after.sec j =
        if j = cut.bitIdx then (img.sec j).clear cut.blkIdxIdx cut.firstCount else img.sec j := by
  obtain ⟨mid, bBitdDirty, dirAt, sec, ⟨bitdBlk, secBitBlks, inode⟩, dirty, ret, dropped⟩ :=
    dropTable_spec pool loaded dir indices full
  have finished : truncSec bSafe lablkidx cut (img, pool) = SecTrunc.finish bSafe lablkidx
      (((SecTrunc.mk img pool false).freeTables cut).cutTable cut).1
      ((((SecTrunc.mk img pool false).freeTables cut).cutTable cut).2.dropTable cut) := rfl
  have reached : secReached lablkidx cut = tablesReached cut ++ if lablkidx = secBlkStart then [.bitd] else [] := rfl
  rw [finished, ret, dropped, reached, SecTrunc.finish]
  by_cases start : lablkidx = secBlkStart
  · have position := indices.position
    have noHole : ¬ img.Hole cut := fun hole => hole.2 (by omega)
    have block : [mid.bitd].filter (· ≠ 0) = img.blocksAt [.bitd] := by
      rw [inode]
      rfl
    refine ⟨{ mid with bitdBlk := none, bitd := 0 }, ?_, ?_, ⟨0, none, secBitBlks, ?_⟩, ?_, ?_, ?_⟩
    · simp only [if_pos start, BlkPool.free_eq, BlkPool.take_take, block, blocksAt_append]
    · simp [if_pos start, noHole]
    · rw [inode]
    · rw [if_pos start]
    · intro j
      rw [if_pos (.inl start)]
      rfl
    · intro j present
      exact absurd rfl present
  · have bitd : mid.bitd = if lablkidx = secBlkStart then 0 else img.bitd := by rw [if_neg start, inode]
    have whole : mid = { img with bitd := img.bitd, bitdBlk := bitdBlk, secBitBlks := secBitBlks } := inode
    have directory : ∀ j, mid.dirAt j =
        if lablkidx = secBlkStart ∨ j ∈ loopTables cut ∨ j = cut.bitIdx ∧ cut.blkIdxIdx = 0 then 0
        else img.dirAt j := by
      intro j
      rw [dirAt]
      simp only [start, false_or]
    rw [if_neg start, if_neg start, append_nil]
    by_cases written : bBitdDirty = true ∧ bSafe = true
    · rw [if_pos written]
      refine ⟨mid, rfl, ?_, ⟨_, _, _, whole⟩, bitd, directory, sec⟩
      simp only [true_iff]
      exact fun hole => ⟨written.2, (dirty hole).1 written.1⟩
    · rw [if_neg written]
      refine ⟨mid, rfl, ?_, ⟨_, _, _, whole⟩, bitd, directory, sec⟩
      by_cases hole : img.Hole cut
      · have open' : ¬ img.HidesError bSafe cut := fun hides => written ⟨(dirty hole).2 hides.2, hides.1⟩
        simp [hole, open']
      · simp [hole]

theorem mem_tableData {slot : Slot} {k first count : Nat} :
    slot ∈ tableData k first count ↔
      ∃ j, first ≤ j ∧ j < first + count ∧ slot = .data (secBlkStart + blkidxPerTable * k + j) := by
  unfold tableData
  rw [mem_map]
  apply exists_congr
  intro j
  rw [mem_range'_1, and_assoc]
  simp only [eq_comm]

theorem sec_clear_of_mem {table : BlkTable} {first count j : Nat}
    (inside : first ≤ j ∧ j < first + count) :
    table.clear first count j = 0 := if_pos inside

theorem clear_cases (table : BlkTable) (first count j : Nat) :
    table.clear first count j = 0 ∨ table.clear first count j = table j := by
  unfold BlkTable.clear
  split
  · exact .inl rfl
  · exact .inr rfl

theorem truncSec_cuts (loaded : img.Loaded) (dir : img.bitdBlk.isSome) (bSafe : Bool)
    (indices : CutAt cut lablkidx) (full : ¬ (img.Hole cut ∧ pool.spare ≠ [])) :
    Cuts lablkidx (secReached lablkidx cut) img pool (truncSec bSafe lablkidx cut (img, pool)).2.1
      (truncSec bSafe lablkidx cut (img, pool)).2.2 := by
  obtain ⟨after, ends, _, ⟨bitd, bitdBlk, secBitBlks, inode⟩, bitdIs, dirAt, sec⟩ :=
    truncSec_spec loaded dir bSafe indices full
  have position := indices.position
  have secZero : ∀ k j, after.dirAt k = 0 → after.sec k j = 0 := by
    intro k j absent
    rw [sec_of_absent absent]
    rfl
  have low : ∀ idx, idx < secBlkStart → after.ref (.data idx) = img.ref (.data idx) := by
    intro idx small
    rw [inode]
    simp [ref, small]
  rw [ends]
  constructor
  · rfl
  · intro slot member
    have counts : ∀ i, (if i < cut.bitCount - 1 then blkidxPerTable else cut.idxCountLastBit) ≤ blkidxPerTable := by
      intro i
      have last := indices.last
      split <;> omega
    have reached : slot ∈ tablesReached cut ∨ slot ∈ if lablkidx = secBlkStart then [Slot.bitd] else [] :=
      mem_append.1 member
    simp only [tablesReached, mem_append, mem_flatMap, tableSlots] at reached
    rcases reached with ((⟨i, inLoop, inTable⟩ | inFirst) | first) | directory
    · have absent : after.dirAt i = 0 := by rw [dirAt, if_pos (.inr (.inl inLoop))]
      rcases inTable with data | table
      · obtain ⟨j, _, small, rfl⟩ := mem_tableData.1 data
        rw [ref_tableData after (by have := counts i; omega)]
        exact secZero i j absent
      · rw [mem_singleton.1 table]
        exact absent
    · obtain ⟨j, least, small, rfl⟩ := mem_tableData.1 inFirst
      rw [ref_tableData after (by have := indices.first; omega)]
      by_cases absent : after.dirAt cut.bitIdx = 0
      · exact secZero _ j absent
      · rw [sec _ absent, if_pos rfl]
        exact sec_clear_of_mem ⟨least, small⟩
    · by_cases whole : cut.blkIdxIdx = 0
      · rw [if_pos whole, mem_singleton] at first
        rw [first]
        exact (dirAt _).trans (if_pos (.inr (.inr ⟨rfl, whole⟩)))
      · simp [whole] at first
    · by_cases start : lablkidx = secBlkStart
      · rw [if_pos start, mem_singleton] at directory
        rw [directory]
        exact bitdIs.trans (if_pos start)
      · simp [start] at directory
  · intro slot
    cases slot with
    | bit =>
      right
      rw [inode]
      rfl
    | bitd =>
      change after.bitd = 0 ∨ after.bitd = img.bitd
      rw [bitdIs]
      split <;> simp
    | table k =>
      change after.dirAt k = 0 ∨ after.dirAt k = img.dirAt k
      rw [dirAt]
      split <;> simp
    | data idx =>
      by_cases small : idx < secBlkStart
      · exact .inr (low idx small)
      · rw [ref_sec _ (not_lt.1 small), ref_sec _ (not_lt.1 small)]
        generalize (idx - secBlkStart) / blkidxPerTable = k
        generalize (idx - secBlkStart) % blkidxPerTable = j
        by_cases absent : after.dirAt k = 0
        · exact .inl (secZero k j absent)
        · rw [sec k absent]
          split
          · exact clear_cases _ _ _ _
          · exact .inr rfl
  · intro slot idx covers front
    have behind : ∀ k, k ∈ loopTables cut → cut.bitIdx < k := by
      intro k member
      have range := mem_range'_1.1 member
      omega
    -- a table that begins in front of the cut stays in the directory
    have begun : ∀ k, secBlkStart + blkidxPerTable * k ≤ idx → after.dirAt k = img.dirAt k := by
      intro k begins
      rw [dirAt, if_neg]
      unfold blkidxPerTable at begins position
      rintro (start | inLoop | ⟨rfl, whole⟩)
      · omega
      · have order := behind k inLoop
        have entry := indices.entry
        unfold blkidxPerTable at entry
        omega
      · omega
    cases slot with
    | bit =>
      rw [inode]
      rfl
    | bitd =>
      have later : lablkidx ≠ secBlkStart := by
        have covers : secBlkStart ≤ idx := covers
        omega
      exact bitdIs.trans (if_neg later)
    | table k => exact begun k covers.1
    | data other =>
      obtain rfl : idx = other := covers
      by_cases small : idx < secBlkStart
      · exact low idx small
      · rw [ref_sec _ (not_lt.1 small), ref_sec _ (not_lt.1 small)]
        have split := Nat.div_add_mod (idx - secBlkStart) blkidxPerTable
        generalize (idx - secBlkStart) / blkidxPerTable = k at split
        generalize (idx - secBlkStart) % blkidxPerTable = j at split
        have same := begun k (by omega)
        by_cases absent : after.dirAt k = 0
        · rw [sec_of_absent absent, sec_of_absent (same ▸ absent)]
        · rw [sec k absent]
          by_cases here : k = cut.bitIdx
          · rw [if_pos here]
            exact if_neg fun inside => by
              subst here
              omega
          · rw [if_neg here]

theorem cutAt_secCut {dwSize : Nat} (area : secBlkStart ≤ lablkidx)
    (cuts : lablkidx < blksOf dwSize)
    (small : dwSize ≤ maxFileSize) : CutAt (secCut (lablkidx * blockSize) dwSize) lablkidx := by
  unfold secBlkStart directBlocks blkidxPerTable at area
  unfold blksOf blockSize at cuts
  unfold maxFileSize blockSize at small
  have bounds : secBlkidxIdx (dwSize - 1) < blkidxPerTable := Nat.mod_lt _ (by decide)
  have entry : secBlkidxIdx (lablkidx * blockSize) < blkidxPerTable := Nat.mod_lt _ (by decide)
  have position : lablkidx = secBlkStart + blkidxPerTable * secBitIdx (lablkidx * blockSize) +
      secBlkidxIdx (lablkidx * blockSize) := by
    unfold secBitIdx secBlkidxIdx secBlkStart directBlocks blkidxPerTable blockSize
    omega
  have ordered : secBitIdx (lablkidx * blockSize) ≤ secBitIdx (dwSize - 1) := by
    unfold secBitIdx secBlkStart directBlocks blkidxPerTable blockSize
    omega
  have last : secBitIdx (lablkidx * blockSize) = secBitIdx (dwSize - 1) →
      secBlkidxIdx (lablkidx * blockSize) ≤ secBlkidxIdx (dwSize - 1) := by
    unfold secBitIdx secBlkidxIdx secBlkStart directBlocks blkidxPerTable blockSize
    omega
  have few : secBitIdx (dwSize - 1) < blkidxPerTable := Nat.mod_lt _ (by decide)
  -- only the order of the four indices is used from here on
  clear area cuts small
  refine ⟨position, ?_, ?_, entry⟩
  · unfold secCut SecCut.firstCount
    simp only
    clear position
    split
    · split <;> omega
    · omega
  · unfold secCut
    simp only
    clear position
    split <;> omega

end SecArea

/-! ### The indirect area -/

section IndirectArea

variable {img : FileImage} {pool : BlkPool}

theorem blocksAt_entries {table : BlkTable} {start first count : Nat} (behind : start ≤ first)
    (named : ∀ idx, first ≤ idx → idx < first + count → img.ref (.data idx) = table (idx - start)) :
    img.blocksAt ((List.range' first count).map .data) = (table.entries (first - start) count).filter (· ≠ 0) := by
  have shift : List.range' first count = (List.range' (first - start) count).map (start + ·) := by
    rw [map_add_range', Nat.add_sub_cancel' behind]
  unfold blocksAt BlkTable.entries
  rw [map_map, shift, map_map]
  congr 1
  apply map_congr_left
  intro j member
  have range := mem_range'_1.1 member
  have entry := named (start + j) (by omega) (by omega)
  rw [Nat.add_sub_cancel_left] at entry
  exact entry

theorem mem_bitReached {slot : Slot} {lablkidx dwBlks : Nat} :
    slot ∈ bitReached lablkidx dwBlks ↔
      (∃ idx, lablkidx ≤ idx ∧ idx < dwBlks ∧ idx < secBlkStart ∧ slot = .data idx) ∨
        lablkidx = directBlocks ∧ slot = .bit := by
  unfold bitReached
  rw [mem_append, mem_map]
  apply or_congr
  · apply exists_congr
    intro idx
    rw [mem_range'_1]
    constructor
    · rintro ⟨range, rfl⟩
      exact ⟨range.1, by omega, by omega, rfl⟩
    · rintro ⟨least, below, inside, rfl⟩
      exact ⟨⟨least, by omega⟩, rfl⟩
  · by_cases first : lablkidx = directBlocks <;> simp [first]

theorem cuts_of_table {lablkidx bit : Nat} {bitBlk : Option BlkTable} {dwBlks : Nat}
    (area : directBlocks ≤ lablkidx)
    (entries : ∀ j, directBlocks + j < secBlkStart →
      (lablkidx ≤ directBlocks + j ∧ directBlocks + j < dwBlks → bitBlk.getD .empty j = 0) ∧
      (bitBlk.getD .empty j = 0 ∨ bitBlk.getD .empty j = img.bitBlk.getD .empty j) ∧
      (directBlocks + j < lablkidx → bitBlk.getD .empty j = img.bitBlk.getD .empty j))
    (block : bit = if lablkidx = directBlocks then 0 else img.bit) :
    Cuts lablkidx (bitReached lablkidx dwBlks) img pool { img with bit := bit, bitBlk := bitBlk }
      (pool.take (img.blocksAt (bitReached lablkidx dwBlks))) := by
  have other : ∀ slot, slot ≠ .bit → (∀ idx, slot = .data idx → ¬ (directBlocks ≤ idx ∧ idx < secBlkStart)) →
      ({ img with bit := bit, bitBlk := bitBlk } : FileImage).ref slot = img.ref slot := by
    intro slot notBit outside
    cases slot with
    | bit => exact absurd rfl notBit
    | bitd => rfl
    | table k => rfl
    | data idx =>
      have away := outside idx rfl
      by_cases direct : idx < directBlocks
      · rw [ref_direct _ direct, ref_direct _ direct]
      · rw [ref_sec _ (by omega), ref_sec _ (by omega)]
        rfl
  have entry : ∀ idx, directBlocks ≤ idx ∧ idx < secBlkStart → ∃ j, idx = directBlocks + j ∧
      ∀ image : FileImage, image.ref (.data idx) = image.bitBlk.getD .empty j := by
    intro idx inside
    refine ⟨idx - directBlocks, by omega, fun image => ref_indirect image inside.1 inside.2⟩
  constructor
  · rfl
  · intro slot member
    rcases mem_bitReached.1 member with ⟨idx, least, below, small, rfl⟩ | ⟨first, rfl⟩
    · obtain ⟨j, rfl, named⟩ := entry idx ⟨by omega, small⟩
      rw [named]
      exact (entries j small).1 ⟨least, below⟩
    · exact block.trans (if_pos first)
  · intro slot
    by_cases here : slot = .bit
    · rw [here]
      change bit = 0 ∨ bit = img.bit
      rw [block]
      split <;> simp
    · by_cases inside : ∃ idx, slot = .data idx ∧ directBlocks ≤ idx ∧ idx < secBlkStart
      · obtain ⟨idx, rfl, inside⟩ := inside
        obtain ⟨j, rfl, named⟩ := entry idx inside
        rw [named, named]
        exact (entries j inside.2).2.1
      · exact .inr (other slot here fun idx same range => inside ⟨idx, same, range⟩)
  · intro slot idx covers front
    by_cases here : slot = .bit
    · subst here
      have covers : directBlocks ≤ idx ∧ idx < secBlkStart := covers
      exact block.trans (if_neg (by omega))
    · by_cases inside : ∃ idx, slot = .data idx ∧ directBlocks ≤ idx ∧ idx < secBlkStart
      · obtain ⟨place, rfl, inside⟩ := inside
        obtain rfl : idx = place := covers
        obtain ⟨j, rfl, named⟩ := entry idx inside
        rw [named, named]
        exact (entries j inside.2).2.2 front
      · exact other slot here fun idx same range => inside ⟨idx, same, range⟩

theorem truncBlkIndirect_cuts (pool : BlkPool) {pbit : BlkTable} (table : img.bitBlk = some pbit)
    {lablkidx : Nat}
    (area : directBlocks ≤ lablkidx) (inside : lablkidx < secBlkStart)
    (cuts : lablkidx < blksOf img.dwSize) :
    ∃ after, truncBlkIndirect lablkidx (img, pool) =
        (.success, after, pool.take (img.blocksAt (bitReached lablkidx (blksOf img.dwSize)))) ∧
      (∃ bit bitBlk, after = { img with bit := bit, bitBlk := bitBlk }) ∧
      Cuts lablkidx (bitReached lablkidx (blksOf img.dwSize)) img pool after
        (pool.take (img.blocksAt (bitReached lablkidx (blksOf img.dwSize)))) := by
  have rest : blkidxPerTable - (lablkidx - directBlocks) = secBlkStart - lablkidx := by
    unfold secBlkStart
    omega
  have blocks : img.blocksAt ((List.range' lablkidx (min (blksOf img.dwSize - lablkidx) (secBlkStart - lablkidx))).map
      .data) = (pbit.entries (lablkidx - directBlocks)
        (min (blksOf img.dwSize - lablkidx) (secBlkStart - lablkidx))).filter (· ≠ 0) := by
    apply blocksAt_entries area
    intro idx least small
    rw [ref_indirect img (by omega) (by omega), table, Option.getD_some]
  have some : min (blksOf img.dwSize - lablkidx) (secBlkStart - lablkidx) ≠ 0 := by omega
  have few : ¬ blkidxPerTable < lablkidx - directBlocks := by
    unfold secBlkStart at inside
    omega
  have step : truncBlkIndirect lablkidx (img, pool) = truncBit (lablkidx - directBlocks)
      (min (blksOf img.dwSize - lablkidx) (secBlkStart - lablkidx)) pbit (img, pool) := by
    simp only [truncBlkIndirect, table, if_neg few, rest]
  rw [step]
  by_cases first : lablkidx = directBlocks
  · have whole : lablkidx - directBlocks = 0 := by omega
    have freed : (pool.free (pbit.entries (lablkidx - directBlocks)
        (min (blksOf img.dwSize - lablkidx) (secBlkStart - lablkidx)))).free [img.bit] =
        pool.take (img.blocksAt (bitReached lablkidx (blksOf img.dwSize))) := by
      rw [BlkPool.free_eq, BlkPool.free_eq, BlkPool.take_take, bitReached, if_pos first, blocksAt_append, blocks]
      rfl
    refine ⟨{ img with bit := 0, bitBlk := none }, ?_, ⟨0, none, rfl⟩, cuts_of_table area ?_ (if_pos first).symm⟩
    · rw [← freed]
      simp only [truncBit, if_neg some, if_pos whole]
    · intro j _
      exact ⟨fun _ => rfl, .inl rfl, fun front => by omega⟩
  · have part : lablkidx - directBlocks ≠ 0 := by omega
    refine ⟨{ img with bitBlk := Option.some (pbit.clear (lablkidx - directBlocks)
      (min (blksOf img.dwSize - lablkidx) (secBlkStart - lablkidx))) }, ?_, ⟨_, _, rfl⟩,
      cuts_of_table area ?_ (if_neg first).symm⟩
    · rw [bitReached, if_neg first, append_nil, blocks, ← BlkPool.free_eq]
      simp only [truncBit, if_neg some, if_neg part]
    · intro j small
      rw [table, Option.getD_some, Option.getD_some]
      exact ⟨fun range => if_pos (by omega), clear_cases _ _ _ _, fun front => if_neg (by omega)⟩

end IndirectArea

section DirectArea

variable {img : FileImage} {pool : BlkPool}

theorem mem_directReached {slot : Slot} {lablkidx dwBlks : Nat} :
    slot ∈ directReached lablkidx dwBlks ↔
      ∃ idx, lablkidx ≤ idx ∧ idx < lablkidx + min (directBlocks - lablkidx) dwBlks ∧ slot = .data idx := by
  unfold directReached
  rw [mem_map]
  apply exists_congr
  intro idx
  rw [mem_range'_1, and_assoc]
  simp only [eq_comm]

theorem truncBlkDirect_cuts (img : FileImage) (pool : BlkPool) {lablkidx : Nat}
    (area : lablkidx < directBlocks) (some : blksOf img.dwSize ≠ 0) :
    ∃ direct, truncBlkDirect lablkidx (img, pool) =
        (.success, { img with direct := direct },
          pool.take (img.blocksAt (directReached lablkidx (blksOf img.dwSize)))) ∧
      Cuts lablkidx (directReached lablkidx (blksOf img.dwSize)) img pool { img with direct := direct }
        (pool.take (img.blocksAt (directReached lablkidx (blksOf img.dwSize)))) := by
  have named : ∀ idx, lablkidx ≤ idx → idx < lablkidx + min (directBlocks - lablkidx) (blksOf img.dwSize) →
      img.ref (.data idx) = img.direct (idx - 0) := by
    intro idx _ small
    exact ref_direct img (by omega)
  have blocks : img.blocksAt (directReached lablkidx (blksOf img.dwSize)) =
      (img.direct.entries lablkidx (min (directBlocks - lablkidx) (blksOf img.dwSize))).filter (· ≠ 0) :=
    blocksAt_entries (Nat.zero_le _) named
  have other : ∀ (direct : BlkTable) (slot : Slot), (∀ idx, slot = .data idx → directBlocks ≤ idx) →
      ({ img with direct := direct } : FileImage).ref slot = img.ref slot := by
    intro direct slot outside
    cases slot with
    | bit | bitd | table => rfl
    | data idx =>
      have away := outside idx rfl
      by_cases inside : idx < secBlkStart
      · rw [ref_indirect _ away inside, ref_indirect _ away inside]
      · rw [ref_sec _ (by omega), ref_sec _ (by omega)]
        rfl
  refine ⟨img.direct.clear lablkidx (min (directBlocks - lablkidx) (blksOf img.dwSize)), ?_, rfl, ?_, ?_, ?_⟩
  · rw [blocks, ← BlkPool.free_eq]
    simp only [truncBlkDirect, if_neg (not_le.2 area), if_neg some]
  · intro slot member
    obtain ⟨idx, least, small, rfl⟩ := mem_directReached.1 member
    rw [ref_direct _ (by omega)]
    exact if_pos ⟨least, small⟩
  · intro slot
    by_cases inside : ∃ idx, slot = .data idx ∧ idx < directBlocks
    · obtain ⟨idx, rfl, inside⟩ := inside
      rw [ref_direct _ inside, ref_direct _ inside]
      exact clear_cases _ _ _ _
    · exact .inr (other _ slot fun idx same => not_lt.1 fun small => inside ⟨idx, same, small⟩)
  · intro slot idx covers front
    by_cases inside : ∃ idx, slot = .data idx ∧ idx < directBlocks
    · obtain ⟨place, rfl, inside⟩ := inside
      obtain rfl : idx = place := covers
      rw [ref_direct _ inside, ref_direct _ inside]
      exact if_neg fun range => by omega
    · exact other _ slot fun idx same => not_lt.1 fun small => inside ⟨idx, same, small⟩

end DirectArea

namespace Cuts

variable {lablkidx : Nat} {first second : List Slot} {img mid after : FileImage} {pool between rest : BlkPool}

theorem trans {front : Nat} (left : Cuts front first img pool mid between)
    (right : Cuts lablkidx second mid between after rest) (order : lablkidx ≤ front)
    (apart : ∀ slot ∈ second, mid.ref slot = img.ref slot) :
    Cuts lablkidx (first ++ second) img pool after rest where
  freed := by
    rw [right.freed, left.freed, blocksAt_append, blocksAt_congr apart, append_assoc]
  gone := by
    intro slot member
    rcases mem_append.1 member with inFirst | inSecond
    · rcases right.others slot with zero | same
      · exact zero
      · rw [same, left.gone slot inFirst]
    · exact right.gone slot inSecond
  others := by
    intro slot
    rcases right.others slot with zero | same
    · exact .inl zero
    · rw [same]
      exact left.others slot
  kept := by
    intro slot idx covers front
    rw [right.kept slot idx covers front, left.kept slot idx covers (by omega)]

theorem refl (img : FileImage) (pool : BlkPool) : Cuts lablkidx [] img pool img pool where
  freed := (append_nil _).symm
  gone := by simp
  others _ := .inr rfl
  kept _ _ _ _ := rfl

theorem setSize (cuts : Cuts lablkidx first img pool after rest) (dwSize : Nat) :
    Cuts lablkidx first img pool { after with dwSize := dwSize } rest := by
  have same : ∀ slot, ({ after with dwSize := dwSize } : FileImage).ref slot = after.ref slot := fun slot => by
    cases slot <;> rfl
  exact ⟨cuts.freed, fun slot member => (same slot).trans (cuts.gone slot member),
    fun slot => by rw [same]; exact cuts.others slot,
    fun slot idx covers front => (same slot).trans (cuts.kept slot idx covers front)⟩

end Cuts

/-! ### The whole file -/

section WholeFile

variable {img : FileImage} {pool : BlkPool} {bSafe : Bool} {dwOff lablkidx : Nat}
variable {mid : FileImage} {between : BlkPool} {slots : List Slot}

def FillsHole (img : FileImage) (pool : BlkPool) (lablkidx : Nat) : Prop :=
  secBlkStart ≤ lablkidx ∧ img.Hole (secCut (lablkidx * blockSize) img.dwSize) ∧ pool.spare ≠ []

theorem truncBlkSecIndirect_cuts (bSafe : Bool) (loaded : img.Loaded) (dir : img.bitdBlk.isSome)
    (area : secBlkStart ≤ lablkidx)
    (cuts : lablkidx < blksOf img.dwSize) (noFill : ¬ img.FillsHole pool lablkidx) :
    Cuts lablkidx (secReached lablkidx (secCut (lablkidx * blockSize) img.dwSize)) img pool
        (truncBlkSecIndirect bSafe lablkidx (img, pool)).2.1 (truncBlkSecIndirect bSafe lablkidx (img, pool)).2.2 ∧
      (∃ bitd bitdBlk secBitBlks, (truncBlkSecIndirect bSafe lablkidx (img, pool)).2.1 =
        { img with bitd := bitd, bitdBlk := bitdBlk, secBitBlks := secBitBlks }) ∧
      ((truncBlkSecIndirect bSafe lablkidx (img, pool)).1 = .success ↔
        (img.Hole (secCut (lablkidx * blockSize) img.dwSize) →
          img.HidesError bSafe (secCut (lablkidx * blockSize) img.dwSize))) := by
  have indices := cutAt_secCut area cuts loaded.size_le
  have full : ¬ (img.Hole (secCut (lablkidx * blockSize) img.dwSize) ∧ pool.spare ≠ []) :=
    fun both => noFill ⟨area, both⟩
  have step : truncBlkSecIndirect bSafe lablkidx (img, pool) =
      truncSec bSafe lablkidx (secCut (lablkidx * blockSize) img.dwSize) (img, pool) := by
    have loadedDir : ¬ img.bitdBlk.isNone = true := by
      intro missing
      rw [Option.isNone_iff_eq_none.1 missing] at dir
      exact absurd dir (by simp)
    exact if_neg loadedDir
  rw [step]
  obtain ⟨after, ends, ret, inode, _⟩ := truncSec_spec loaded dir bSafe indices full
  refine ⟨truncSec_cuts loaded dir bSafe indices full, ?_, ret⟩
  rw [ends]
  exact inode

theorem not_hole_start (dwSize : Nat) : ¬ img.Hole (secCut (secBlkStart * blockSize) dwSize) := by
  have first : secBlkidxIdx (secBlkStart * blockSize) = 0 := by
    rw [secBlkidxIdx, Nat.sub_self, Nat.zero_div, Nat.zero_mod]
  exact fun hole => hole.2 first

theorem lt_blksOf_iff (blks dwSize : Nat) : blks < blksOf dwSize ↔ blks * blockSize < dwSize := by
  unfold blksOf blockSize
  omega

theorem cuts_of_noTable (table : img.bitBlk = none) (block : img.bit = 0) (dwBlks : Nat) :
    Cuts directBlocks (bitReached directBlocks dwBlks) img pool img pool := by
  have empty : ∀ slot ∈ bitReached directBlocks dwBlks, img.ref slot = 0 := by
    intro slot member
    rcases mem_bitReached.1 member with ⟨idx, least, _, small, rfl⟩ | ⟨_, rfl⟩
    · rw [ref_indirect _ least small, table]
      rfl
    · exact block
  have none : img.blocksAt (bitReached directBlocks dwBlks) = [] := by
    apply filter_eq_nil_iff.2
    intro blkIdx member
    obtain ⟨slot, inside, named⟩ := mem_map.1 member
    simp [← named, empty slot inside]
  exact ⟨by rw [none, append_nil], empty, fun _ => .inr rfl, fun _ _ _ _ => rfl⟩

theorem start_cuts (pool : BlkPool) (bSafe : Bool) (loaded : img.Loaded) (dir : img.bitdBlk.isSome)
    (long : secBlkStart < blksOf img.dwSize) :
    ∃ mid between, truncBlkSecIndirect bSafe secBlkStart (img, pool) = (.success, mid, between) ∧
      Cuts secBlkStart (secReached secBlkStart (secCut (secBlkStart * blockSize) img.dwSize)) img pool mid between ∧
      ∃ bitd bitdBlk secBitBlks, mid = { img with bitd := bitd, bitdBlk := bitdBlk, secBitBlks := secBitBlks } := by
  have noFill : ¬ img.FillsHole pool secBlkStart := fun fills => not_hole_start img.dwSize fills.2.1
  obtain ⟨cuts, inode, ret⟩ := truncBlkSecIndirect_cuts bSafe loaded dir le_rfl long noFill
  have success := ret.2 fun hole => absurd hole (not_hole_start img.dwSize)
  refine ⟨_, _, ?_, cuts, inode⟩
  rw [← success]

/-- The cut returns no error: the tables that are asked for are there, and a new one can be made. -/
def Cuttable (img : FileImage) (pool : BlkPool) (bSafe : Bool) (lablkidx : Nat) : Prop :=
  (secBlkStart < blksOf img.dwSize → img.bitd ≠ 0) ∧
    (lablkidx < secBlkStart → (directBlocks ≤ lablkidx ∨
      directBlocks < blksOf img.dwSize ∧ blksOf img.dwSize ≤ secBlkStart) → img.bit ≠ 0) ∧
    (secBlkStart ≤ lablkidx → img.Hole (secCut (lablkidx * blockSize) img.dwSize) → pool.spare ≠ [] ∨
      img.HidesError bSafe (secCut (lablkidx * blockSize) img.dwSize))

def CutsTo (img : FileImage) (pool : BlkPool) (bSafe : Bool) (dwOff lablkidx : Nat)
    (ends : Status × FileImage × BlkPool) : Prop :=
  (ends.1 = .success ↔ img.Cuttable pool bSafe lablkidx) ∧
    (ends.1 = .success → Cuts lablkidx (reached lablkidx img.dwSize) img pool ends.2.1 ends.2.2 ∧
      ends.2.1.dwSize = dwOff)

theorem truncBlks_sec (loaded : img.Loaded) (cuts : lablkidx < blksOf img.dwSize)
    (area : secBlkStart ≤ lablkidx) (noFill : ¬ img.FillsHole pool lablkidx) :
    img.CutsTo pool bSafe dwOff lablkidx (truncBlks bSafe dwOff lablkidx (img, pool)) := by
  have step : truncBlks bSafe dwOff lablkidx (img, pool) =
      setSize dwOff (truncBlkSecIndirect bSafe lablkidx) (img, pool) := if_pos area
  rw [step, CutsTo, Cuttable]
  by_cases dir : img.bitd = 0
  · have failed : truncBlkSecIndirect bSafe lablkidx (img, pool) = (.efault, img, pool) := by
      have missing : img.bitdBlk.isNone = true := by rw [loaded.bitd_eq_zero.1 dir]; rfl
      exact if_pos missing
    have code : (setSize dwOff (truncBlkSecIndirect bSafe lablkidx) (img, pool)).1 = .efault := by
      rw [setSize, failed]
    rw [code]
    refine ⟨⟨fun same => absurd same (by decide), fun able => absurd dir (able.1 (by omega))⟩,
      fun same => absurd same (by decide)⟩
  · have present : img.bitdBlk.isSome := by
      rw [Option.isSome_iff_ne_none]
      exact fun missing => dir (loaded.bitd_eq_zero.2 missing)
    obtain ⟨cut, inode, ret⟩ := truncBlkSecIndirect_cuts bSafe loaded present area cuts noFill
    have spent : img.Hole (secCut (lablkidx * blockSize) img.dwSize) → ¬ pool.spare ≠ [] :=
      fun hole left => noFill ⟨area, hole, left⟩
    constructor
    · refine Iff.trans ret ⟨fun hides => ⟨fun _ => dir, fun small => by omega, fun _ hole => .inr (hides hole)⟩, ?_⟩
      rintro ⟨_, _, filled⟩ hole
      exact (filled area hole).resolve_left (spent hole)
    · intro _
      rw [reached, if_pos area]
      exact ⟨cut.setSize dwOff, rfl⟩

theorem andThen_success {first second : Step} {start middle : FileImage × BlkPool}
    (ends : first start = (.success, middle)) : andThen first second start = second middle := by
  rw [andThen, ends, if_pos rfl]

theorem andThen_failed {first second : Step} {start middle : FileImage × BlkPool} {ret : Status}
    (ends : first start = (ret, middle)) (failed : ret ≠ .success) :
    andThen first second start = (ret, middle) := by
  rw [andThen, ends, if_neg failed]

theorem not_directory {dwSize : Nat} : secBlkStart * blockSize < dwSize ↔ secBlkStart < blksOf dwSize :=
  (lt_blksOf_iff _ _).symm

theorem start_fails (loaded : img.Loaded) (missing : img.bitd = 0) :
    truncBlkSecIndirect bSafe secBlkStart (img, pool) = (.efault, img, pool) := by
  have none : img.bitdBlk.isNone = true := by rw [loaded.bitd_eq_zero.1 missing]; rfl
  exact if_pos none

/-- What is left when the second-level area is done. -/
structure Done (img mid : FileImage) : Prop where
  dwSize : mid.dwSize = img.dwSize
  bit : mid.bit = img.bit
  bitBlk : mid.bitBlk = img.bitBlk

theorem indirect_behind
    (left : Cuts secBlkStart slots img pool mid between) (done : Done img mid) {pbit : BlkTable}
    (table : img.bitBlk = some pbit) (area : directBlocks ≤ lablkidx)
    (inside : lablkidx < secBlkStart)
    (cuts : lablkidx < blksOf img.dwSize) :
    ∃ after rest, truncBlkIndirect lablkidx (mid, between) = (.success, after, rest) ∧
      Cuts lablkidx (slots ++ bitReached lablkidx (blksOf img.dwSize)) img pool after rest ∧
      after.dwSize = img.dwSize := by
  have cuts : lablkidx < blksOf mid.dwSize := by rw [done.dwSize]; exact cuts
  obtain ⟨after, ends, ⟨bit, bitBlk, inode⟩, right⟩ :=
    truncBlkIndirect_cuts between (done.bitBlk.trans table) area inside cuts
  rw [done.dwSize] at ends right
  refine ⟨after, _, ends, left.trans right inside.le ?_, ?_⟩
  · intro slot member
    rcases mem_bitReached.1 member with ⟨idx, _, _, small, rfl⟩ | ⟨_, rfl⟩
    · exact left.kept _ idx rfl small
    · exact done.bit
  · rw [inode]
    exact done.dwSize

theorem direct_behind (dwOff : Nat)
    (left : Cuts directBlocks slots img pool mid between) (same : mid.dwSize = img.dwSize)
    (area : lablkidx < directBlocks) (cuts : lablkidx < blksOf img.dwSize) :
    (setSize dwOff (truncBlkDirect lablkidx) (mid, between)).1 = .success ∧
      Cuts lablkidx (slots ++ directReached lablkidx (blksOf img.dwSize)) img pool
        (setSize dwOff (truncBlkDirect lablkidx) (mid, between)).2.1
        (setSize dwOff (truncBlkDirect lablkidx) (mid, between)).2.2 ∧
      (setSize dwOff (truncBlkDirect lablkidx) (mid, between)).2.1.dwSize = dwOff := by
  obtain ⟨direct, ends, right⟩ := truncBlkDirect_cuts mid between area (by rw [same]; omega)
  rw [same] at ends right
  rw [setSize, ends]
  refine ⟨rfl, (left.trans right area.le ?_).setSize dwOff, rfl⟩
  intro slot member
  obtain ⟨idx, _, small, rfl⟩ := mem_directReached.1 member
  exact left.kept _ idx rfl (by omega)

theorem sec_front (pool : BlkPool) (bSafe : Bool) (loaded : img.Loaded)
    (dir : secBlkStart < blksOf img.dwSize → img.bitd ≠ 0) :
    ∃ mid between, Done img mid ∧
      Cuts secBlkStart (if secBlkStart < blksOf img.dwSize then
        secReached secBlkStart (secCut (secBlkStart * blockSize) img.dwSize) else []) img pool mid between ∧
      (secBlkStart < blksOf img.dwSize → truncBlkSecIndirect bSafe secBlkStart (img, pool) = (.success, mid, between)) ∧
      (¬ secBlkStart < blksOf img.dwSize → mid = img ∧ between = pool) := by
  by_cases long : secBlkStart < blksOf img.dwSize
  · have present : img.bitdBlk.isSome := by
      rw [Option.isSome_iff_ne_none]
      exact fun missing => dir long (loaded.bitd_eq_zero.2 missing)
    obtain ⟨mid, between, ends, left, bitd, bitdBlk, secBitBlks, inode⟩ := start_cuts pool bSafe loaded present long
    refine ⟨mid, between, ?_, ?_, fun _ => ends, fun short => absurd long short⟩
    · rw [inode]
      exact ⟨rfl, rfl, rfl⟩
    · rw [if_pos long]
      exact left
  · refine ⟨img, pool, ⟨rfl, rfl, rfl⟩, ?_, fun far => absurd far long, fun _ => ⟨rfl, rfl⟩⟩
    rw [if_neg long]
    exact .refl img pool

theorem directory_missing (pool : BlkPool) (bSafe : Bool) (loaded : img.Loaded)
    (dir : ¬ (secBlkStart < blksOf img.dwSize → img.bitd ≠ 0)) :
    secBlkStart < blksOf img.dwSize ∧
      truncBlkSecIndirect bSafe secBlkStart (img, pool) = (.efault, img, pool) := by
  rw [Classical.not_imp, not_not] at dir
  exact ⟨dir.1, start_fails loaded dir.2⟩

theorem cutsTo_failed {ends : Status × FileImage × BlkPool} (ret : ends.1 = .efault)
    (unable : ¬ img.Cuttable pool bSafe lablkidx) : img.CutsTo pool bSafe dwOff lablkidx ends := by
  have failed : ends.1 ≠ .success := by
    rw [ret]
    decide
  exact ⟨⟨fun same => absurd same failed, fun able => absurd able unable⟩, fun same => absurd same failed⟩

theorem truncBlks_indirect (loaded : img.Loaded) (cuts : lablkidx < blksOf img.dwSize)
    (area : directBlocks ≤ lablkidx) (inside : lablkidx < secBlkStart) :
    img.CutsTo pool bSafe dwOff lablkidx (truncBlks bSafe dwOff lablkidx (img, pool)) := by
  have step : truncBlks bSafe dwOff lablkidx (img, pool) =
      if secBlkStart * blockSize < img.dwSize then
        andThen (truncBlkSecIndirect bSafe secBlkStart) (setSize dwOff (truncBlkIndirect lablkidx)) (img, pool)
      else setSize dwOff (truncBlkIndirect lablkidx) (img, pool) := by
    simp only [truncBlks, if_neg (not_le.2 inside), if_pos area]
  rw [step]
  by_cases dir : secBlkStart < blksOf img.dwSize → img.bitd ≠ 0
  · obtain ⟨mid, between, done, left, long, short⟩ := sec_front pool bSafe loaded dir
    have behind : (if secBlkStart * blockSize < img.dwSize then
        andThen (truncBlkSecIndirect bSafe secBlkStart) (setSize dwOff (truncBlkIndirect lablkidx)) (img, pool)
        else setSize dwOff (truncBlkIndirect lablkidx) (img, pool)) =
        setSize dwOff (truncBlkIndirect lablkidx) (mid, between) := by
      by_cases far : secBlkStart < blksOf img.dwSize
      · rw [if_pos (not_directory.2 far), andThen_success (long far)]
      · rw [if_neg (not_directory.not.2 far), (short far).1, (short far).2]
    rw [behind]
    cases table : img.bitBlk with
    | none =>
      have failed : truncBlkIndirect lablkidx (mid, between) = (.efault, mid, between) := by
        simp only [truncBlkIndirect, done.bitBlk, table]
      apply cutsTo_failed
      · rw [setSize, failed]
      · exact fun able => able.2.1 inside (.inl area) (loaded.bit_eq_zero.2 table)
    | some pbit =>
      have present : img.bit ≠ 0 := by
        intro missing
        rw [loaded.bit_eq_zero.1 missing] at table
        exact absurd table (by simp)
      obtain ⟨after, rest, ends, right, same⟩ := indirect_behind left done table area inside cuts
      have slots : reached lablkidx img.dwSize = (if secBlkStart < blksOf img.dwSize then
          secReached secBlkStart (secCut (secBlkStart * blockSize) img.dwSize) else []) ++
          bitReached lablkidx (blksOf img.dwSize) := by
        rw [reached, if_neg (not_le.2 inside), if_neg (not_lt.2 area), append_nil,
          if_pos (lt_of_le_of_lt area cuts), max_eq_right area]
      rw [setSize, ends, CutsTo, slots]
      refine ⟨⟨fun _ => ⟨dir, fun _ _ => present, fun sec => absurd inside (not_lt.2 sec)⟩, fun _ => rfl⟩,
        fun _ => ⟨right.setSize dwOff, rfl⟩⟩
  · obtain ⟨far, failed⟩ := directory_missing pool bSafe loaded dir
    rw [if_pos (not_directory.2 far), andThen_failed failed (by decide)]
    exact cutsTo_failed rfl fun able => dir able.1

theorem indirect_done
    (loaded : img.Loaded) (left : Cuts secBlkStart slots img pool mid between) (done : Done img mid)
    (cuts : directBlocks < blksOf img.dwSize) :
    ∃ after rest, dropError (truncBlkIndirect directBlocks) (mid, between) = (.success, after, rest) ∧
      Cuts directBlocks (slots ++ bitReached directBlocks (blksOf img.dwSize)) img pool after rest ∧
      after.dwSize = img.dwSize := by
  have order : directBlocks < secBlkStart := by decide
  cases table : img.bitBlk with
  | none =>
    have failed : truncBlkIndirect directBlocks (mid, between) = (.efault, mid, between) := by
      simp only [truncBlkIndirect, done.bitBlk, table]
    have missing : mid.bit = 0 := done.bit.trans (loaded.bit_eq_zero.2 table)
    refine ⟨mid, between, by rw [dropError, failed],
      left.trans (cuts_of_noTable (done.bitBlk.trans table) missing _) order.le ?_, done.dwSize⟩
    intro slot member
    rcases mem_bitReached.1 member with ⟨idx, _, _, small, rfl⟩ | ⟨_, rfl⟩
    · exact left.kept _ idx rfl small
    · exact done.bit
  | some pbit =>
    obtain ⟨after, rest, ends, right, same⟩ := indirect_behind left done table le_rfl order cuts
    exact ⟨after, rest, by rw [dropError, ends], right, same⟩

theorem truncBlks_direct (loaded : img.Loaded) (cuts : lablkidx < blksOf img.dwSize)
    (area : lablkidx < directBlocks) :
    img.CutsTo pool bSafe dwOff lablkidx (truncBlks bSafe dwOff lablkidx (img, pool)) := by
  have order : directBlocks < secBlkStart := by decide
  have inside : lablkidx < secBlkStart := area.trans order
  have slots : reached lablkidx img.dwSize = (if secBlkStart < blksOf img.dwSize then
      secReached secBlkStart (secCut (secBlkStart * blockSize) img.dwSize) else []) ++
      (if directBlocks < blksOf img.dwSize then bitReached directBlocks (blksOf img.dwSize) else []) ++
      directReached lablkidx (blksOf img.dwSize) := by
    rw [reached, if_neg (not_le.2 inside), if_pos area, max_eq_left area.le]
  by_cases far : secBlkStart < blksOf img.dwSize
  · have step : truncBlks bSafe dwOff lablkidx (img, pool) = andThen (truncBlkSecIndirect bSafe secBlkStart)
        (andThen (dropError (truncBlkIndirect directBlocks)) (setSize dwOff (truncBlkDirect lablkidx)))
        (img, pool) := by
      simp only [truncBlks, if_neg (not_le.2 inside), if_neg (not_le.2 area), if_pos (not_directory.2 far)]
    rw [step]
    by_cases dir : secBlkStart < blksOf img.dwSize → img.bitd ≠ 0
    · obtain ⟨mid, between, done, left, long, _⟩ := sec_front pool bSafe loaded dir
      obtain ⟨late, rest, ends, right, same⟩ := indirect_done loaded left done (order.trans far)
      obtain ⟨ret, last, size⟩ := direct_behind dwOff right same area cuts
      rw [andThen_success (long far), andThen_success ends, CutsTo, slots, if_pos (order.trans far)]
      refine ⟨⟨fun _ => ⟨dir, fun _ asked => ?_, fun sec => absurd inside (not_lt.2 sec)⟩, fun _ => ret⟩,
        fun _ => ⟨last, size⟩⟩
      omega
    · obtain ⟨_, failed⟩ := directory_missing pool bSafe loaded dir
      rw [andThen_failed failed (by decide)]
      exact cutsTo_failed rfl fun able => dir able.1
  · have dir : secBlkStart < blksOf img.dwSize → img.bitd ≠ 0 := fun long => absurd long far
    have step : truncBlks bSafe dwOff lablkidx (img, pool) = if directBlocks * blockSize < img.dwSize then
        andThen (truncBlkIndirect directBlocks) (setSize dwOff (truncBlkDirect lablkidx)) (img, pool)
        else setSize dwOff (truncBlkDirect lablkidx) (img, pool) := by
      simp only [truncBlks, if_neg (not_le.2 inside), if_neg (not_le.2 area), if_neg (not_directory.not.2 far)]
    have start : Cuts secBlkStart [] img pool img pool := .refl img pool
    rw [if_neg far, nil_append] at slots
    rw [step]
    by_cases table : directBlocks < blksOf img.dwSize
    · rw [if_pos ((lt_blksOf_iff _ _).1 table)]
      rw [if_pos table] at slots
      cases found : img.bitBlk with
      | none =>
        have failed : truncBlkIndirect directBlocks (img, pool) = (.efault, img, pool) := by
          simp only [truncBlkIndirect, found]
        rw [andThen_failed failed (by decide)]
        exact cutsTo_failed rfl fun able =>
          able.2.1 inside (.inr ⟨table, not_lt.1 far⟩) (loaded.bit_eq_zero.2 found)
      | some pbit =>
        have present : img.bit ≠ 0 := by
          intro missing
          rw [loaded.bit_eq_zero.1 missing] at found
          exact absurd found (by simp)
        obtain ⟨late, rest, ends, right, same⟩ :=
          indirect_behind start ⟨rfl, rfl, rfl⟩ found le_rfl order table
        obtain ⟨ret, last, size⟩ := direct_behind dwOff right same area cuts
        rw [andThen_success ends, CutsTo, slots]
        exact ⟨⟨fun _ => ⟨dir, fun _ _ => present, fun sec => absurd inside (not_lt.2 sec)⟩, fun _ => ret⟩,
          fun _ => ⟨last, size⟩⟩
    · rw [if_neg ((lt_blksOf_iff _ _).not.1 table)]
      rw [if_neg table, nil_append] at slots
      have front : Cuts directBlocks [] img pool img pool := .refl img pool
      obtain ⟨ret, last, size⟩ := direct_behind dwOff front rfl area cuts
      rw [CutsTo, slots]
      refine ⟨⟨fun _ => ⟨dir, fun _ asked => ?_, fun sec => absurd inside (not_lt.2 sec)⟩, fun _ => ret⟩,
        fun _ => ⟨last, size⟩⟩
      omega

theorem truncBlks_cutsTo (bSafe : Bool) (dwOff : Nat) (loaded : img.Loaded)
    (cuts : lablkidx < blksOf img.dwSize)
    (noFill : ¬ img.FillsHole pool lablkidx) :
    img.CutsTo pool bSafe dwOff lablkidx (truncBlks bSafe dwOff lablkidx (img, pool)) := by
  by_cases sec : secBlkStart ≤ lablkidx
  · exact truncBlks_sec loaded cuts sec noFill
  · by_cases indirect : directBlocks ≤ lablkidx
    · exact truncBlks_indirect loaded cuts indirect (not_le.1 sec)
    · exact truncBlks_direct loaded cuts (not_le.1 indirect)

end WholeFile

end FileImage

end RpcFrmwrk.Registry
