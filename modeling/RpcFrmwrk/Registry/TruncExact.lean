import RpcFrmwrk.Registry.TruncBlks

/-! When `CFileImage::Truncate` frees the tail of a file and nothing else. Owns `Slot.Passed`, the
places the loops of the truncation pass, without the lists; `TailFreed`, what is expected of the
inode and of the allocator; the files and ends for which it holds. -/

namespace RpcFrmwrk.Registry

open List

def tableOf (idx : Nat) : Nat := (idx - secBlkStart) / blkidxPerTable

def entryOf (idx : Nat) : Nat := (idx - secBlkStart) % blkidxPerTable

/-- The place is passed when a file of `dwBlks` blocks is cut at `lablkidx`. Behind the first table the
loop counts to the number of the tables, and takes the table it ends with for the last of the file. -/
def Slot.Passed (lablkidx dwBlks : Nat) : Slot → Prop
  | .data idx => lablkidx ≤ idx ∧
      if idx < directBlocks then idx < lablkidx + dwBlks
      else if idx < secBlkStart then idx < dwBlks
      else tableOf idx = tableOf lablkidx ∧ idx < dwBlks ∨
        tableOf lablkidx < tableOf idx ∧ (tableOf idx + tableOf lablkidx < tableOf (dwBlks - 1) ∨
          tableOf idx + tableOf lablkidx = tableOf (dwBlks - 1) ∧ entryOf idx ≤ entryOf (dwBlks - 1))
  | .bit => lablkidx ≤ directBlocks ∧ directBlocks < dwBlks
  | .bitd => lablkidx ≤ secBlkStart ∧ secBlkStart < dwBlks
  | .table k => secBlkStart < dwBlks ∧
      (k = tableOf lablkidx ∧ lablkidx ≤ secBlkStart + blkidxPerTable * k ∨
        tableOf lablkidx < k ∧ k + tableOf lablkidx ≤ tableOf (dwBlks - 1))

def Slot.SecLevel : Slot → Prop
  | .data idx => secBlkStart ≤ idx
  | .bit => False
  | .bitd => True
  | .table _ => True

namespace FileImage

/-! ### The places, without lists -/

section Membership

variable {lablkidx dwSize : Nat} {slot : Slot}

theorem mem_tableSlots {k count : Nat} :
    slot ∈ tableSlots k count ↔
      (∃ j, j < count ∧ slot = .data (secBlkStart + blkidxPerTable * k + j)) ∨ slot = .table k := by
  unfold tableSlots
  rw [mem_append, mem_tableData, mem_singleton]
  simp only [Nat.zero_le, Nat.zero_add, true_and]

theorem secCut_eq (area : secBlkStart ≤ lablkidx) (cuts : lablkidx < blksOf dwSize) (small : dwSize ≤ maxFileSize) :
    secCut (lablkidx * blockSize) dwSize =
      ⟨tableOf lablkidx, entryOf lablkidx, tableOf (blksOf dwSize - 1) - tableOf lablkidx + 1,
        if tableOf lablkidx < tableOf (blksOf dwSize - 1) then entryOf (blksOf dwSize - 1) + 1
        else entryOf (blksOf dwSize - 1) - entryOf lablkidx + 1⟩ := by
  have begins : secBitIdx (lablkidx * blockSize) = tableOf lablkidx ∧
      secBlkidxIdx (lablkidx * blockSize) = entryOf lablkidx := by
    unfold blksOf blockSize at cuts
    unfold maxFileSize blockSize at small
    unfold secBitIdx secBlkidxIdx tableOf entryOf secBlkStart directBlocks blkidxPerTable blockSize
    omega
  have ends : secBitIdx (dwSize - 1) = tableOf (blksOf dwSize - 1) ∧
      secBlkidxIdx (dwSize - 1) = entryOf (blksOf dwSize - 1) := by
    unfold secBlkStart directBlocks blkidxPerTable at area
    unfold blksOf blockSize at cuts
    unfold maxFileSize blockSize at small
    unfold secBitIdx secBlkidxIdx tableOf entryOf secBlkStart directBlocks blkidxPerTable blksOf blockSize
    omega
  have few : tableOf (blksOf dwSize - 1) < blkidxPerTable := by
    rw [← ends.1]
    exact Nat.mod_lt _ (by decide)
  have order : tableOf lablkidx ≤ tableOf (blksOf dwSize - 1) :=
    Nat.div_le_div_right (by omega)
  have count : min (tableOf (blksOf dwSize - 1) - tableOf lablkidx + 1) (blkidxPerTable - tableOf lablkidx) =
      tableOf (blksOf dwSize - 1) - tableOf lablkidx + 1 := by
    omega
  rw [secCut, begins.1, begins.2, ends.1, ends.2, count]

theorem tableOf_position {k j : Nat} (entry : j < blkidxPerTable) :
    tableOf (secBlkStart + blkidxPerTable * k + j) = k ∧ entryOf (secBlkStart + blkidxPerTable * k + j) = j := by
  unfold tableOf entryOf
  unfold blkidxPerTable at entry ⊢
  omega

theorem position_tableOf {idx : Nat} (area : secBlkStart ≤ idx) :
    idx = secBlkStart + blkidxPerTable * tableOf idx + entryOf idx ∧ entryOf idx < blkidxPerTable := by
  unfold tableOf entryOf blkidxPerTable
  omega

/-- The places of a cut whose first table and entry are `first` and `entry`, in a file that ends in
`last` and `end`. -/
theorem mem_secReached_iff {first entry last ending : Nat} (order : first ≤ last) (inside : entry < blkidxPerTable)
    (inLast : ending < blkidxPerTable) (sameTable : first = last → entry ≤ ending) :
    slot ∈ secReached lablkidx ⟨first, entry, last - first + 1,
        if first < last then ending + 1 else ending - entry + 1⟩ ↔
      (∃ k j, slot = .data (secBlkStart + blkidxPerTable * k + j) ∧ j < blkidxPerTable ∧
        (first < k ∧ (k + first < last ∨ k + first = last ∧ j ≤ ending) ∨
          k = first ∧ entry ≤ j ∧ (first = last → j ≤ ending))) ∨
      (∃ k, slot = .table k ∧ (first < k ∧ k + first ≤ last ∨ k = first ∧ entry = 0)) ∨
      lablkidx = secBlkStart ∧ slot = .bitd := by
  have inTables : (∃ i ∈ List.range' (first + 1) (last - first + 1 - (first + 1)),
      slot ∈ tableSlots i (if i < last - first + 1 - 1 then blkidxPerTable
        else if first < last then ending + 1 else ending - entry + 1)) ↔
      (∃ k j, slot = .data (secBlkStart + blkidxPerTable * k + j) ∧ j < blkidxPerTable ∧
        first < k ∧ (k + first < last ∨ k + first = last ∧ j ≤ ending)) ∨
      ∃ k, slot = .table k ∧ first < k ∧ k + first ≤ last := by
    simp only [mem_range'_1, mem_tableSlots]
    constructor
    · rintro ⟨k, range, ⟨j, small, rfl⟩ | rfl⟩
      · have far : first < last := by omega
        rw [if_pos far] at small
        refine .inl ⟨k, j, rfl, ?_⟩
        split at small <;> omega
      · exact .inr ⟨k, rfl, by omega, by omega⟩
    · rintro (⟨k, j, rfl, small, behind, range⟩ | ⟨k, rfl, behind, range⟩)
      · refine ⟨k, by omega, .inl ⟨j, ?_, rfl⟩⟩
        rw [if_pos (show first < last by omega)]
        split <;> omega
      · exact ⟨k, by omega, .inr rfl⟩
  have inFirst : slot ∈ tableData first entry (SecCut.firstCount ⟨first, entry, last - first + 1,
      if first < last then ending + 1 else ending - entry + 1⟩) ↔
      ∃ j, slot = .data (secBlkStart + blkidxPerTable * first + j) ∧ j < blkidxPerTable ∧
        entry ≤ j ∧ (first = last → j ≤ ending) := by
    rw [mem_tableData]
    apply exists_congr
    intro j
    have count : (SecCut.firstCount ⟨first, entry, last - first + 1,
        if first < last then ending + 1 else ending - entry + 1⟩) =
        if first = last then ending - entry + 1 else blkidxPerTable - entry := by
      unfold SecCut.firstCount
      by_cases same : first = last
      · simp [same]
      · simp [same, show last - first ≠ 0 by omega]
    rw [count]
    constructor
    · rintro ⟨least, small, rfl⟩
      refine ⟨rfl, ?_⟩
      split at small <;> omega
    · rintro ⟨rfl, small, least, range⟩
      refine ⟨least, ?_, rfl⟩
      split <;> omega
  unfold secReached
  simp only [mem_append, mem_flatMap]
  rw [inTables, inFirst]
  have firstBlock : slot ∈ (if entry = 0 then [Slot.table first] else []) ↔ slot = .table first ∧ entry = 0 := by
    split <;> simp [*]
  have directory : slot ∈ (if lablkidx = secBlkStart then [Slot.bitd] else []) ↔
      lablkidx = secBlkStart ∧ slot = .bitd := by
    split <;> simp [*]
  rw [firstBlock, directory]
  constructor
  · rintro ((((⟨k, j, rfl, small, behind⟩ | ⟨k, rfl, behind⟩) | ⟨j, rfl, small, range⟩) | ⟨rfl, whole⟩) | start)
    · exact .inl ⟨k, j, rfl, small, .inl behind⟩
    · exact .inr (.inl ⟨k, rfl, .inl behind⟩)
    · exact .inl ⟨first, j, rfl, small, .inr ⟨rfl, range⟩⟩
    · exact .inr (.inl ⟨first, rfl, .inr ⟨rfl, whole⟩⟩)
    · exact .inr (.inr start)
  · rintro (⟨k, j, rfl, small, behind | ⟨rfl, range⟩⟩ | ⟨k, rfl, behind | ⟨rfl, whole⟩⟩ | start)
    · exact .inl (.inl (.inl (.inl ⟨k, j, rfl, small, behind⟩)))
    · exact .inl (.inl (.inr ⟨j, rfl, small, range⟩))
    · exact .inl (.inl (.inl (.inr ⟨k, rfl, behind⟩)))
    · exact .inl (.inr ⟨rfl, whole⟩)
    · exact .inr start

theorem mem_secReached (area : secBlkStart ≤ lablkidx) (cuts : lablkidx < blksOf dwSize) (small : dwSize ≤ maxFileSize) :
    slot ∈ secReached lablkidx (secCut (lablkidx * blockSize) dwSize) ↔
      slot.SecLevel ∧ slot.Passed lablkidx (blksOf dwSize) := by
  have start := position_tableOf area
  have behind : secBlkStart ≤ blksOf dwSize - 1 := by omega
  have finish := position_tableOf behind
  have order : tableOf lablkidx ≤ tableOf (blksOf dwSize - 1) :=
    Nat.div_le_div_right (by omega)
  rw [secCut_eq area cuts small, mem_secReached_iff order start.2 finish.2 (by intro same; rw [same] at start; omega)]
  cases slot with
  | bit => simp [Slot.SecLevel]
  | bitd =>
    simp only [Slot.SecLevel, Slot.Passed]
    simp
    omega
  | table k =>
    have long : secBlkStart < blksOf dwSize := by omega
    have whole : k = tableOf lablkidx → (entryOf lablkidx = 0 ↔ lablkidx ≤ secBlkStart + blkidxPerTable * k) := by
      intro here
      rw [here]
      omega
    simp only [Slot.SecLevel, Slot.Passed, Slot.table.injEq, exists_eq_left', long, true_and]
    simp
    rw [or_comm, and_congr_right whole]
  | data idx =>
    simp only [Slot.SecLevel, Slot.Passed, Slot.data.injEq]
    simp
    have notDirect : secBlkStart ≤ idx → ¬ idx < directBlocks := by
      intro far
      unfold secBlkStart at far
      omega
    have ends : blksOf dwSize - 1 + 1 = blksOf dwSize := by omega
    constructor
    · rintro ⟨k, j, rfl, small, range⟩
      obtain ⟨table, position⟩ := tableOf_position (k := k) small
      have behind : secBlkStart ≤ secBlkStart + blkidxPerTable * k + j := by omega
      rw [if_neg (notDirect behind), if_neg (not_lt.2 behind), table, position]
      rcases range with loop | ⟨here, least, sameEnd⟩
      · refine ⟨behind, ?_, .inr loop⟩
        have far := loop.1
        unfold blkidxPerTable at start ⊢
        omega
      · rw [here]
        refine ⟨by omega, by omega, .inl ⟨rfl, ?_⟩⟩
        unfold blkidxPerTable at small finish ⊢
        omega
    · rintro ⟨behind, least, range⟩
      obtain ⟨position, small⟩ := position_tableOf behind
      rw [if_neg (notDirect behind), if_neg (not_lt.2 behind)] at range
      refine ⟨tableOf idx, entryOf idx, position, small, ?_⟩
      rcases range with ⟨here, below⟩ | loop
      · rw [here] at position
        exact .inr ⟨here, by omega, fun same => by rw [← same] at finish; omega⟩
      · exact .inl loop

theorem passed_start {dwBlks : Nat} (front : lablkidx < secBlkStart) (sec : slot.SecLevel) :
    slot.Passed lablkidx dwBlks ↔ secBlkStart < dwBlks ∧ slot.Passed secBlkStart dwBlks := by
  have first : tableOf lablkidx = 0 ∧ tableOf secBlkStart = 0 := by
    unfold tableOf
    rw [Nat.sub_eq_zero_of_le front.le, Nat.sub_self]
    exact ⟨Nat.zero_div _, Nat.zero_div _⟩
  have short : dwBlks ≤ secBlkStart → tableOf (dwBlks - 1) = 0 := by
    intro few
    unfold tableOf
    rw [Nat.sub_eq_zero_of_le (by omega)]
    exact Nat.zero_div _
  cases slot with
  | bit => exact absurd sec id
  | bitd =>
    simp only [Slot.Passed]
    omega
  | table k =>
    simp only [Slot.Passed, first.1, first.2]
    omega
  | data idx =>
    have behind : secBlkStart ≤ idx := sec
    have direct : ¬ idx < directBlocks := by
      unfold secBlkStart at behind
      omega
    simp only [Slot.Passed, first.1, first.2, if_neg direct, if_neg (not_lt.2 behind)]
    omega

theorem mem_reached (cuts : lablkidx < blksOf dwSize) (small : dwSize ≤ maxFileSize) :
    slot ∈ reached lablkidx dwSize ↔ slot.Passed lablkidx (blksOf dwSize) := by
  have order : directBlocks < secBlkStart := by decide
  by_cases sec : secBlkStart ≤ lablkidx
  · rw [reached, if_pos sec, mem_secReached sec cuts small, and_iff_right_iff_imp]
    cases slot with
    | bit => exact fun passed => absurd passed.1 (by omega)
    | bitd | table => exact fun _ => trivial
    | data idx => exact fun passed => sec.trans passed.1
  · have front := not_le.1 sec
    have inSec : slot ∈ (if secBlkStart < blksOf dwSize then
        secReached secBlkStart (secCut (secBlkStart * blockSize) dwSize) else []) ↔
        slot.SecLevel ∧ slot.Passed lablkidx (blksOf dwSize) := by
      by_cases far : secBlkStart < blksOf dwSize
      · rw [if_pos far, mem_secReached le_rfl far small]
        apply and_congr_right
        intro level
        rw [passed_start front level]
        exact (and_iff_right far).symm
      · rw [if_neg far]
        refine iff_of_false (by simp) ?_
        rintro ⟨level, passed⟩
        exact far ((passed_start front level).1 passed).1
    have inBit : slot ∈ (if directBlocks < blksOf dwSize then bitReached (max directBlocks lablkidx) (blksOf dwSize)
        else []) ↔ (∃ idx, slot = .data idx ∧ lablkidx ≤ idx ∧ directBlocks ≤ idx ∧ idx < secBlkStart ∧
          idx < blksOf dwSize) ∨ slot = .bit ∧ lablkidx ≤ directBlocks ∧ directBlocks < blksOf dwSize := by
      by_cases far : directBlocks < blksOf dwSize
      · rw [if_pos far, mem_bitReached]
        apply or_congr
        · apply exists_congr
          intro idx
          constructor
          · rintro ⟨least, below, inside, rfl⟩
            exact ⟨rfl, by omega, by omega, inside, below⟩
          · rintro ⟨rfl, least, area, inside, below⟩
            exact ⟨by omega, below, inside, rfl⟩
        · constructor
          · rintro ⟨first, rfl⟩
            exact ⟨rfl, by omega, far⟩
          · rintro ⟨rfl, first, _⟩
            exact ⟨by omega, rfl⟩
      · rw [if_neg far]
        refine iff_of_false (by simp) ?_
        rintro (⟨idx, _, _, area, _, below⟩ | ⟨_, _, long⟩)
        · omega
        · exact far long
    have inDirect : slot ∈ (if lablkidx < directBlocks then directReached lablkidx (blksOf dwSize) else []) ↔
        ∃ idx, slot = .data idx ∧ lablkidx ≤ idx ∧ idx < directBlocks ∧ idx < lablkidx + blksOf dwSize := by
      by_cases area : lablkidx < directBlocks
      · rw [if_pos area, mem_directReached]
        apply exists_congr
        intro idx
        constructor
        · rintro ⟨least, inside, rfl⟩
          exact ⟨rfl, least, by omega, by omega⟩
        · rintro ⟨rfl, least, inside, below⟩
          exact ⟨least, by omega, rfl⟩
      · rw [if_neg area]
        refine iff_of_false (by simp) ?_
        rintro ⟨idx, _, least, inside, _⟩
        omega
    rw [reached, if_neg sec, mem_append, mem_append, inSec, inBit, inDirect]
    cases slot with
    | bit => simp [Slot.SecLevel, Slot.Passed]
    | bitd | table => simp [Slot.SecLevel]
    | data idx =>
      simp only [Slot.SecLevel, Slot.data.injEq, exists_eq_left', reduceCtorEq, false_and, or_false]
      simp only [Slot.Passed]
      by_cases direct : idx < directBlocks
      · simp only [if_pos direct]
        omega
      · simp only [if_neg direct]
        by_cases indirect : idx < secBlkStart
        · simp only [if_pos indirect]
          omega
        · simp only [if_neg indirect]
          omega

end Membership

/-! ### A place is passed once -/

section Once

variable {lablkidx dwSize : Nat}

theorem tableData_nodup (k first count : Nat) : (tableData k first count).Nodup := by
  apply (nodup_range' (s := first)).map
  intro left right same
  have equal : secBlkStart + blkidxPerTable * k + left = secBlkStart + blkidxPerTable * k + right :=
    Slot.data.inj same
  omega

theorem tableSlots_nodup (k count : Nat) : (tableSlots k count).Nodup := by
  apply nodup_append.2
  refine ⟨tableData_nodup k 0 count, nodup_singleton _, ?_⟩
  intro slot member other same
  obtain ⟨j, _, _, rfl⟩ := mem_tableData.1 member
  rw [mem_singleton.1 same]
  simp

theorem tableSlots_disjoint {left right : Nat} (apart : left ≠ right) {many few : Nat} (leftFits : many ≤ blkidxPerTable)
    (rightFits : few ≤ blkidxPerTable) : List.Disjoint (tableSlots left many) (tableSlots right few) := by
  intro slot inLeft inRight
  rcases mem_tableSlots.1 inLeft with ⟨i, iSmall, rfl⟩ | rfl
  · rcases mem_tableSlots.1 inRight with ⟨j, jSmall, same⟩ | same
    · have first := tableOf_position (k := left) (lt_of_lt_of_le iSmall leftFits)
      have second := tableOf_position (k := right) (lt_of_lt_of_le jSmall rightFits)
      rw [Slot.data.inj same] at first
      exact apart (first.1.symm.trans second.1)
    · exact absurd same (by simp)
  · rcases mem_tableSlots.1 inRight with ⟨j, _, same⟩ | same
    · exact absurd same (by simp)
    · exact apart (Slot.table.inj same)

theorem secReached_nodup (lablkidx : Nat) {cut : SecCut} (last : cut.idxCountLastBit ≤ blkidxPerTable)
    (first : cut.blkIdxIdx + cut.firstCount ≤ blkidxPerTable) : (secReached lablkidx cut).Nodup := by
  have counts : ∀ i, (if i < cut.bitCount - 1 then blkidxPerTable else cut.idxCountLastBit) ≤ blkidxPerTable := by
    intro i
    split <;> omega
  have loop : ((loopTables cut).flatMap fun i =>
      tableSlots i (if i < cut.bitCount - 1 then blkidxPerTable else cut.idxCountLastBit)).Nodup := by
    apply nodup_flatMap.2
    refine ⟨fun i _ => tableSlots_nodup _ _, ?_⟩
    apply (nodup_range' (s := cut.bitIdx + 1)).imp
    intro left right apart
    exact tableSlots_disjoint apart (counts left) (counts right)
  have fresh : ∀ i ∈ loopTables cut, i ≠ cut.bitIdx := fun i member same =>
    not_mem_loopTables cut (same ▸ member)
  have whole : (tableData cut.bitIdx cut.blkIdxIdx cut.firstCount ++
      if cut.blkIdxIdx = 0 then [Slot.table cut.bitIdx] else []).Nodup := by
    apply nodup_append.2
    refine ⟨tableData_nodup _ _ _, by split <;> simp, ?_⟩
    intro slot member other same
    obtain ⟨j, _, _, rfl⟩ := mem_tableData.1 member
    split at same <;> simp_all
  have tables : ((loopTables cut).flatMap (fun i =>
      tableSlots i (if i < cut.bitCount - 1 then blkidxPerTable else cut.idxCountLastBit)) ++
      (tableData cut.bitIdx cut.blkIdxIdx cut.firstCount ++
        if cut.blkIdxIdx = 0 then [Slot.table cut.bitIdx] else [])).Nodup := by
    apply nodup_append'.2
    refine ⟨loop, whole, ?_⟩
    intro slot inLoop inFirst
    obtain ⟨i, member, inTable⟩ := mem_flatMap.1 inLoop
    have apart := tableSlots_disjoint (fresh i member) (counts i) (le_refl blkidxPerTable)
    apply apart inTable
    apply mem_tableSlots.2
    rcases mem_append.1 inFirst with data | table
    · obtain ⟨j, _, small, rfl⟩ := mem_tableData.1 data
      exact .inl ⟨j, by omega, rfl⟩
    · split at table
      · exact .inr (mem_singleton.1 table)
      · exact absurd table (by simp)
  unfold secReached
  rw [append_assoc ((List.range' _ _).flatMap _)]
  apply nodup_append.2
  refine ⟨tables, by split <;> simp, ?_⟩
  intro slot member other same
  have directory : other = .bitd := by
    split at same
    · exact mem_singleton.1 same
    · exact absurd same (by simp)
  rw [directory]
  rintro rfl
  rcases mem_append.1 member with inLoop | inFirst
  · obtain ⟨i, _, inTable⟩ := mem_flatMap.1 inLoop
    rcases mem_tableSlots.1 inTable with ⟨j, _, equal⟩ | equal <;> exact absurd equal (by simp)
  · rcases mem_append.1 inFirst with data | table
    · obtain ⟨j, _, _, equal⟩ := mem_tableData.1 data
      exact absurd equal (by simp)
    · split at table <;> simp at table

theorem reached_nodup (cuts : lablkidx < blksOf dwSize) (small : dwSize ≤ maxFileSize) : (reached lablkidx dwSize).Nodup := by
  have secCuts : ∀ lablkidx, secBlkStart ≤ lablkidx → lablkidx < blksOf dwSize →
      (secReached lablkidx (secCut (lablkidx * blockSize) dwSize)).Nodup := by
    intro lablkidx area cuts
    have indices := cutAt_secCut area cuts small
    exact secReached_nodup lablkidx indices.last indices.first
  have data : ∀ first count, ((List.range' first count).map Slot.data).Nodup := by
    intro first count
    exact (nodup_range' (s := first)).map fun _ _ same => Slot.data.inj same
  unfold reached
  by_cases sec : secBlkStart ≤ lablkidx
  · rw [if_pos sec]
    exact secCuts lablkidx sec cuts
  · rw [if_neg sec]
    have order : directBlocks < secBlkStart := by decide
    have first : (if secBlkStart < blksOf dwSize then
        secReached secBlkStart (secCut (secBlkStart * blockSize) dwSize) else []).Nodup := by
      split
      · exact secCuts secBlkStart le_rfl ‹_›
      · exact nodup_nil
    have second : (if directBlocks < blksOf dwSize then bitReached (max directBlocks lablkidx) (blksOf dwSize)
        else []).Nodup := by
      split
      · apply nodup_append.2
        refine ⟨data _ _, by split <;> simp, ?_⟩
        intro slot member other same
        obtain ⟨idx, _, rfl⟩ := mem_map.1 member
        split at same <;> simp_all
      · exact nodup_nil
    have third : (if lablkidx < directBlocks then directReached lablkidx (blksOf dwSize) else []).Nodup := by
      split
      · exact data _ _
      · exact nodup_nil
    apply nodup_append'.2
    refine ⟨nodup_append'.2 ⟨first, second, ?_⟩, third, ?_⟩
    · intro slot inFirst inSecond
      split at inFirst
      · have level := ((mem_secReached le_rfl ‹_› small).1 inFirst).1
        split at inSecond
        · rcases mem_bitReached.1 inSecond with ⟨idx, _, _, inside, rfl⟩ | ⟨_, rfl⟩
          · exact absurd inside (not_lt.2 level)
          · exact level
        · exact absurd inSecond (by simp)
      · exact absurd inFirst (by simp)
    · intro slot behind inThird
      split at inThird
      · obtain ⟨idx, _, inside, rfl⟩ := mem_directReached.1 inThird
        rcases mem_append.1 behind with inFirst | inSecond
        · split at inFirst
          · have level : secBlkStart ≤ idx := ((mem_secReached le_rfl ‹_› small).1 inFirst).1
            omega
          · exact absurd inFirst (by simp)
        · split at inSecond
          · rcases mem_bitReached.1 inSecond with ⟨other, least, _, _, same⟩ | ⟨_, same⟩
            · have equal := Slot.data.inj same
              omega
            · exact absurd same (by simp)
          · exact absurd inSecond (by simp)
      · exact absurd inThird (by simp)

theorem mem_all_of_passed (small : blksOf dwSize ≤ maxFileBlks) {slot : Slot} (passed : slot.Passed lablkidx (blksOf dwSize))
    (cuts : lablkidx < blksOf dwSize) : slot ∈ Slot.all := by
  have last : tableOf (blksOf dwSize - 1) < blkidxPerTable := by
    unfold tableOf secBlkStart directBlocks blkidxPerTable
    unfold maxFileBlks secBlkStart directBlocks blkidxPerTable at small
    omega
  have first : tableOf lablkidx ≤ tableOf (blksOf dwSize - 1) := Nat.div_le_div_right (by omega)
  have tables : ∀ k, k ∈ List.range blkidxPerTable ↔ k < blkidxPerTable := fun k => mem_range
  unfold Slot.all
  cases slot with
  | bit => simp
  | bitd => simp
  | table k =>
    have inside : k < blkidxPerTable := by
      rcases passed.2 with here | behind <;> omega
    simp [inside]
  | data idx =>
    have inside : idx < maxFileBlks := by
      have range := passed.2
      by_cases direct : idx < directBlocks
      · exact direct.trans (by decide)
      · by_cases indirect : idx < secBlkStart
        · exact indirect.trans (by decide)
        · rw [if_neg direct, if_neg indirect] at range
          obtain ⟨position, entry⟩ := position_tableOf (not_lt.1 indirect)
          rcases range with ⟨_, below⟩ | behind
          · omega
          · unfold maxFileBlks
            unfold blkidxPerTable at *
            omega
    simp [inside]

end Once

section Exact

variable {img after : FileImage} {pool rest : BlkPool} {lablkidx : Nat}

def Kept (img : FileImage) (lablkidx : Nat) (slot : Slot) : Prop :=
  ∃ idx, idx < lablkidx ∧ slot.Covers idx ∧ img.ref (.data idx) ≠ 0

instance (slot : Slot) : Decidable (img.Kept lablkidx slot) :=
  inferInstanceAs (Decidable (∃ idx, idx < lablkidx ∧ _))

/-- The places that are needed are as before and the others are empty, and what these named is freed
once. -/
structure TailFreed (img : FileImage) (pool : BlkPool) (lablkidx : Nat) (after : FileImage) (rest : BlkPool) :
    Prop where
  refs : ∀ slot ∈ Slot.all, after.ref slot = if img.Kept lablkidx slot then img.ref slot else 0
  freed : rest.freed.Perm (pool.freed ++ img.blocksAt (Slot.all.filter fun slot => ¬ img.Kept lablkidx slot))

theorem all_nodup : Slot.all.Nodup := by
  have data : ((List.range maxFileBlks).map Slot.data).Nodup :=
    nodup_range.map fun _ _ same => Slot.data.inj same
  have tables : ((List.range blkidxPerTable).map Slot.table).Nodup :=
    nodup_range.map fun _ _ same => Slot.table.inj same
  unfold Slot.all
  apply nodup_append'.2
  refine ⟨nodup_append'.2 ⟨data, by simp, ?_⟩, tables, ?_⟩
  · intro slot member other
    obtain ⟨idx, _, rfl⟩ := mem_map.1 member
    simp at other
  · intro slot member other
    obtain ⟨k, _, rfl⟩ := mem_map.1 other
    simp at member

theorem blocksAt_eq (slots : List Slot) :
    img.blocksAt slots = (slots.filter fun slot => img.ref slot ≠ 0).map img.ref := by
  unfold blocksAt
  rw [filter_map]
  rfl

theorem tailFreed_of_cuts {slots : List Slot} (cuts : Cuts lablkidx slots img pool after rest) (once : slots.Nodup)
    (inside : ∀ slot ∈ slots, slot ∈ Slot.all) :
    TailFreed img pool lablkidx after rest ↔
      ∀ slot ∈ Slot.all, img.ref slot ≠ 0 → img.Kept lablkidx slot ∨ slot ∈ slots := by
  have notKept : ∀ slot ∈ slots, img.ref slot ≠ 0 → ¬ img.Kept lablkidx slot := by
    rintro slot member named ⟨idx, front, covers, _⟩
    rw [← cuts.kept slot idx covers front, cuts.gone slot member] at named
    exact named rfl
  have goneOnce : (slots.filter fun slot => img.ref slot ≠ 0).Nodup := once.filter _
  constructor
  · intro exact slot member named
    by_contra left
    rw [not_or] at left
    have perm := exact.freed
    rw [cuts.freed, perm_append_left_iff, blocksAt_eq, blocksAt_eq] at perm
    have length := perm.length_eq
    rw [length_map, length_map] at length
    have sub : (slots.filter fun slot => img.ref slot ≠ 0).Subperm
        ((Slot.all.filter fun slot => ¬ img.Kept lablkidx slot).filter fun slot => img.ref slot ≠ 0) := by
      apply subperm_of_subset goneOnce
      intro other passed
      simp only [mem_filter, decide_eq_true_eq] at passed ⊢
      exact ⟨⟨inside other passed.1, notKept other passed.1 passed.2⟩, passed.2⟩
    have whole := (sub.perm_of_length_le length.ge).mem_iff (a := slot)
    simp only [mem_filter, decide_eq_true_eq] at whole
    exact left.2 (whole.2 ⟨⟨member, left.1⟩, named⟩).1
  · intro passed
    constructor
    · intro slot member
      by_cases kept : img.Kept lablkidx slot
      · rw [if_pos kept]
        obtain ⟨idx, front, covers, _⟩ := kept
        exact cuts.kept slot idx covers front
      · rw [if_neg kept]
        by_cases named : img.ref slot = 0
        · rcases cuts.others slot with zero | same
          · exact zero
          · rw [same, named]
        · exact cuts.gone slot ((passed slot member named).resolve_left kept)
    · rw [cuts.freed, perm_append_left_iff, blocksAt_eq, blocksAt_eq]
      apply List.Perm.map
      apply (perm_ext_iff_of_nodup goneOnce ((all_nodup.filter _).filter _)).2
      intro slot
      simp only [mem_filter, decide_eq_true_eq]
      constructor
      · rintro ⟨member, named⟩
        exact ⟨⟨inside slot member, notKept slot member named⟩, named⟩
      · rintro ⟨⟨member, kept⟩, named⟩
        exact ⟨(passed slot member named).resolve_left kept, named⟩

end Exact

/-! ### A hole that is filled -/

section Fill

variable {img : FileImage} {pool : BlkPool} {bSafe : Bool} {lablkidx dwOff : Nat}

theorem cutTable_fills (pool : BlkPool) {cut : SecCut} (hole : img.Hole cut) {blkIdx : Nat} {spare : List Nat}
    (given : pool.spare = blkIdx :: spare) (bBitdDirty : Bool) :
    (SecTrunc.mk img pool bBitdDirty).cutTable cut =
      (.success, SecTrunc.mk ((img.setDir cut.bitIdx blkIdx).setSec cut.bitIdx (some .empty))
        { pool with spare := spare } true) := by
  have missing : img.secTable cut.bitIdx = none := Option.isNone_iff_eq_none.1 hole.1
  simp only [SecTrunc.cutTable, missing, if_neg hole.2, given]

theorem truncSec_fills (bSafe : Bool) (loaded : img.Loaded) (dir : img.bitdBlk.isSome) {cut : SecCut} (indices : CutAt cut lablkidx)
    (hole : img.Hole cut) {blkIdx : Nat} {spare : List Nat} (given : pool.spare = blkIdx :: spare) :
    (truncSec bSafe lablkidx cut (img, pool)).2.1.dirAt cut.bitIdx = blkIdx := by
  have counts : ∀ i, (if i < cut.bitCount - 1 then blkidxPerTable else cut.idxCountLastBit) ≤ blkidxPerTable := by
    intro i
    have last := indices.last
    split <;> omega
  have loop : (SecTrunc.mk img pool false).freeTables cut = SecTrunc.mk (img.dropTables (loopTables cut))
      (pool.take (img.blocksAt ((loopTables cut).flatMap fun i =>
        tableSlots i (if i < cut.bitCount - 1 then blkidxPerTable else cut.idxCountLastBit))))
      (false || (loopTables cut).any fun i => img.dirAt i ≠ 0) :=
    foldl_freeTable pool loaded dir (nodup_range' (s := cut.bitIdx + 1)) _ counts false
  have holeLeft : (img.dropTables (loopTables cut)).Hole cut := by
    refine ⟨?_, hole.2⟩
    rw [secTable_dropTables (not_mem_loopTables cut)]
    exact hole.1
  have behind : lablkidx ≠ secBlkStart := by
    have position := indices.position
    have part := hole.2
    omega
  have filled := cutTable_fills (pool.take (img.blocksAt ((loopTables cut).flatMap fun i =>
    tableSlots i (if i < cut.bitCount - 1 then blkidxPerTable else cut.idxCountLastBit)))) holeLeft given
    (false || (loopTables cut).any fun i => img.dirAt i ≠ 0)
  have finished : truncSec bSafe lablkidx cut (img, pool) = SecTrunc.finish bSafe lablkidx
      (((SecTrunc.mk img pool false).freeTables cut).cutTable cut).1
      ((((SecTrunc.mk img pool false).freeTables cut).cutTable cut).2.dropTable cut) := rfl
  have dropped : ∀ trunc : SecTrunc, trunc.dropTable cut = trunc := fun trunc => if_neg hole.2
  have named : ∀ (ret : Status) (trunc : SecTrunc), (trunc.finish bSafe lablkidx ret).2.1 = trunc.img := by
    intro ret trunc
    rw [SecTrunc.finish, if_neg behind]
    split <;> rfl
  rw [finished, named, dropped, loop, filled]
  exact if_pos rfl

theorem Hole.absent {cut : SecCut} (hole : img.Hole cut) : img.dirAt cut.bitIdx = 0 := by
  by_contra present
  have missing := hole.1
  rw [secTable_of_present present] at missing
  exact absurd missing (by simp)

theorem truncBlks_fills (loaded : img.Loaded) (cuts : lablkidx < blksOf img.dwSize)
    (fills : img.FillsHole pool lablkidx) (success : (truncBlks bSafe dwOff lablkidx (img, pool)).1 = .success) :
    ∃ k blkIdx, k < blkidxPerTable ∧ blkIdx ∈ pool.spare ∧ img.ref (.table k) = 0 ∧
      (truncBlks bSafe dwOff lablkidx (img, pool)).2.1.ref (.table k) = blkIdx := by
  obtain ⟨area, hole, left⟩ := fills
  obtain ⟨blkIdx, spare, given⟩ := exists_cons_of_ne_nil left
  have step : truncBlks bSafe dwOff lablkidx (img, pool) =
      setSize dwOff (truncBlkSecIndirect bSafe lablkidx) (img, pool) := if_pos area
  have indices := cutAt_secCut area cuts loaded.size_le
  have few : secBitIdx (lablkidx * blockSize) < blkidxPerTable := Nat.mod_lt _ (by decide)
  refine ⟨secBitIdx (lablkidx * blockSize), blkIdx, few, by rw [given]; exact mem_cons_self, hole.absent, ?_⟩
  rw [step] at success ⊢
  by_cases dir : img.bitdBlk.isNone = true
  · have failed : truncBlkSecIndirect bSafe lablkidx (img, pool) = (.efault, img, pool) := if_pos dir
    rw [setSize, failed] at success
    have ret : Status.efault = .success := success
    exact absurd ret (by decide)
  · have present : img.bitdBlk.isSome := by
      rw [Option.isSome_iff_ne_none]
      exact fun none => dir (Option.isNone_iff_eq_none.2 none)
    have sec : truncBlkSecIndirect bSafe lablkidx (img, pool) =
        truncSec bSafe lablkidx (secCut (lablkidx * blockSize) img.dwSize) (img, pool) := if_neg dir
    have named := truncSec_fills bSafe loaded present indices hole given
    rw [← sec] at named
    exact named

end Fill

section WholeTail

variable {img : FileImage} {pool : BlkPool} {bSafe : Bool}

/-- When the tail is freed, over all files in memory and all ends. -/
theorem tailFreed_iff (bSafe : Bool) (n : Nat) (loaded : img.Loaded) (inside : n ≤ img.dwSize)
    (blocks : ∀ blkIdx ∈ pool.spare, blkIdx ≠ 0) (success : (truncateNoLock bSafe n (img, pool)).1 = .success) :
    TailFreed img pool (blksOf n) (truncateNoLock bSafe n (img, pool)).2.1 (truncateNoLock bSafe n (img, pool)).2.2 ↔
      (∀ slot ∈ Slot.all, img.ref slot ≠ 0 → img.Kept (blksOf n) slot ∨
        blksOf n < blksOf img.dwSize ∧ slot.Passed (blksOf n) (blksOf img.dwSize)) ∧
      ¬ (blksOf n < blksOf img.dwSize ∧ img.FillsHole pool (blksOf n)) := by
  have limit : ¬ maxFileSize ≤ n := by
    intro beyond
    have ret : (truncateNoLock bSafe n (img, pool)).1 = .erange := by
      simp only [truncateNoLock, if_pos beyond]
    rw [ret] at success
    exact absurd success (by decide)
  by_cases cuts : blksOf n < blksOf img.dwSize
  · have behind : blksOf n * blockSize < img.dwSize := (lt_blksOf_iff _ _).1 cuts
    have shorter : n < img.dwSize := by
      unfold blksOf blockSize at behind
      omega
    have step : truncateNoLock bSafe n (img, pool) = truncBlks bSafe n (blksOf n) (img, pool) := by
      simp only [truncateNoLock, if_neg limit, if_neg (not_lt.2 inside), if_neg shorter.ne', cutsBlks, behind,
        decide_true, if_true]
    rw [step] at success ⊢
    by_cases fills : img.FillsHole pool (blksOf n)
    · refine iff_of_false ?_ fun both => both.2 ⟨cuts, fills⟩
      intro exact
      obtain ⟨k, blkIdx, few, given, absent, named⟩ := truncBlks_fills loaded cuts fills success
      have member : Slot.table k ∈ Slot.all := by simp [Slot.all, few]
      have expected := exact.refs (.table k) member
      rw [named, absent, ite_self] at expected
      exact blocks blkIdx given expected
    · have cut := (truncBlks_cutsTo bSafe n loaded cuts fills).2 success
      have few : blksOf img.dwSize ≤ maxFileBlks := by
        have size := loaded.size_le
        unfold maxFileSize at size
        unfold blksOf maxFileBlks secBlkStart directBlocks blkidxPerTable
        unfold blockSize at *
        omega
      have places := tailFreed_of_cuts cut.1 (reached_nodup cuts loaded.size_le) fun slot member =>
        mem_all_of_passed few ((mem_reached cuts loaded.size_le).1 member) cuts
      rw [places]
      simp only [mem_reached cuts loaded.size_le, cuts, fills, true_and, and_true, not_false_eq_true]
  · have whole : truncateNoLock bSafe n (img, pool) = (.success, { img with dwSize := n }, pool) := by
      have notBehind : ¬ blksOf n * blockSize < img.dwSize := (lt_blksOf_iff _ _).not.1 cuts
      by_cases same : img.dwSize = n
      · have unchanged : ({ img with dwSize := n } : FileImage) = img := by rw [← same]
        simp only [truncateNoLock, if_neg limit, if_neg (not_lt.2 inside), if_pos same, unchanged]
      · simp only [truncateNoLock, if_neg limit, if_neg (not_lt.2 inside), if_neg same, cutsBlks, notBehind,
          decide_false, Bool.false_eq_true, if_false]
    have cut : Cuts (blksOf n) [] img pool { img with dwSize := n } pool := (Cuts.refl img pool).setSize n
    rw [whole, tailFreed_of_cuts cut nodup_nil (by simp)]
    simp [cuts]

def twoBlks : FileImage :=
  { format (fun _ => .empty) with dwSize := 1024, direct := (BlkTable.empty.set 0 5).set 1 6 }

theorem twoBlks_loaded : twoBlks.Loaded where
  size_le := by decide
  bit_eq_zero := by decide
  bitd_eq_zero := by decide
  stale := by
    intro k table inMap
    exact absurd inMap (by simp [twoBlks, format])

/-- Of two blocks the second is freed. -/
theorem tailFreed_twoBlks :
    TailFreed twoBlks ⟨[], []⟩ 1 (truncateNoLock false 512 (twoBlks, ⟨[], []⟩)).2.1
        (truncateNoLock false 512 (twoBlks, ⟨[], []⟩)).2.2 := by
  have named : ∀ slot, twoBlks.ref slot ≠ 0 → slot = .data 0 ∨ slot = .data 1 := by
    intro slot present
    cases slot with
    | bit | bitd | table => exact absurd rfl present
    | data idx =>
      by_contra other
      simp only [Slot.data.injEq, not_or] at other
      apply present
      by_cases direct : idx < directBlocks
      · rw [ref_direct _ direct]
        simp [twoBlks, BlkTable.set, BlkTable.empty, other]
      · by_cases indirect : idx < secBlkStart
        · rw [ref_indirect _ (not_lt.1 direct) indirect]
          rfl
        · rw [ref_sec _ (not_lt.1 indirect)]
          rfl
  apply (tailFreed_iff false 512 twoBlks_loaded (by decide) (by simp) (by decide)).2
  refine ⟨?_, ?_⟩
  · intro slot _ present
    rcases named slot present with rfl | rfl
    · exact .inl ⟨0, by decide, rfl, by decide⟩
    · exact .inr ⟨by decide, by decide, by decide⟩
  · exact fun fills => absurd fills.2.1 (by decide)

def threeTables : FileImage :=
  { format (fun blkIdx j => if blkIdx = 33 ∧ j = 0 then 40 else 0) with
    dwSize := 526 * 512
    bitd := 30
    bitdBlk := some fun k => if 1 ≤ k ∧ k ≤ 3 then 30 + k else 0 }

theorem threeTables_loaded : threeTables.Loaded where
  size_le := by decide
  bit_eq_zero := by simp [threeTables, format]
  bitd_eq_zero := by simp [threeTables]
  stale := by
    intro k table inMap
    exact absurd inMap (by simp [threeTables, format])

/-- Cut at the start of the first of them, the file keeps the last. -/
theorem threeTables_keepsLast :
    ¬ ∀ (img : FileImage) (pool : BlkPool) (bSafe : Bool) (n : Nat), img.Loaded → n ≤ img.dwSize →
      (∀ blkIdx ∈ pool.spare, blkIdx ≠ 0) → (truncateNoLock bSafe n (img, pool)).1 = .success →
      TailFreed img pool (blksOf n) (truncateNoLock bSafe n (img, pool)).2.1
        (truncateNoLock bSafe n (img, pool)).2.2 := by
  intro freed
  have exact := freed threeTables ⟨[], []⟩ false (269 * 512) threeTables_loaded (by decide) (by simp)
    (by decide +kernel)
  have member : Slot.table 3 ∈ Slot.all := by simp [Slot.all, blkidxPerTable]
  have expected := exact.refs (.table 3) member
  have needless : ¬ threeTables.Kept (blksOf (269 * 512)) (.table 3) := by
    rintro ⟨idx, front, covers, _⟩
    have least := covers.1
    have cut : blksOf (269 * 512) = 269 := by decide
    rw [cut] at front
    unfold secBlkStart directBlocks blkidxPerTable at least
    omega
  have left : (truncateNoLock false (269 * 512) (threeTables, ⟨[], []⟩)).2.1.ref (.table 3) = 33 := by
    decide +kernel
  rw [left, if_neg needless] at expected
  exact absurd expected (by decide)

end WholeTail

end FileImage

end RpcFrmwrk.Registry
