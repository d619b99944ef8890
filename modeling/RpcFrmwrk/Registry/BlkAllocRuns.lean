import RpcFrmwrk.Registry.BlkAlloc
import RpcFrmwrk.Registry.BlkRounds

/-! The runs of the allocator of a registry file. Owns `Inv`, which holds of an allocator whose
blocks are freed once and whose groups are written; what each loop of `AllocBlocks` takes, and that
it takes nothing else; `Suffices`, the requests that end well, and what a request that fails leaves
behind. -/

namespace RpcFrmwrk.Registry

open RpcFrmwrk.Library List

namespace GroupBitmap

def Counted (bmp : GroupBitmap) : Prop := bmp.free = (bmp.bytes.clearBits 0 blkgrpNumber).card

variable {bmp : GroupBitmap}

theorem findSome?_range {value : Type} {find : Nat → Option value} {count : Nat} {found : value}
    (isFound : (List.range count).findSome? find = some found) :
    ∃ index < count, find index = some found ∧ ∀ before < index, find before = none := by
  obtain ⟨early, index, late, split, ofIndex, none⟩ := List.findSome?_eq_some_iff.1 isFound
  have sorted := @List.pairwise_lt_range count
  have among : index ∈ List.range count := by
    rw [split]
    exact mem_append_right _ mem_cons_self
  refine ⟨index, mem_range.1 among, ofIndex, ?_⟩
  intro before below
  have member := mem_range.2 (Nat.lt_trans below (mem_range.1 among))
  rw [split] at member sorted
  rcases mem_append.1 member with first | behind
  · exact none before first
  · obtain ⟨above, _⟩ := pairwise_cons.1 (pairwise_append.1 sorted).2.1
    rcases mem_cons.1 behind with same | later
    · exact absurd same (Nat.ne_of_lt below)
    · exact absurd (above before later) (Nat.lt_asymm below)

theorem freeByte_before {bytes : Bytes} {words word byte other : Nat}
    (found : freeByte bytes words word = some byte)
    (inWord : word * 8 ≤ other) (before : other < byte) : bytes other = BitVec.allOnes 8 := by
  rw [freeByte, wordBytes, List.find?_range'_eq_some] at found
  have full := found.2.2 other inWord before
  rw [Bool.not_eq_true', decide_eq_false_iff_not] at full
  exact Decidable.not_not.1 full

theorem allocGroup_first {byte bit word : Nat}
    (ofWord : freeByte bmp.bytes grpbmpWords word = some byte)
    (small : word < grpbmpWords)
    (words : ∀ before < word, freeByte bmp.bytes grpbmpWords before = none)
    (inByte : bit < 8) (bits : ∀ before < bit, bmp.bytes.bitAt (byte * 8 + before) = true) :
    ∀ before < byte * 8 + bit, bmp.bytes.bitAt before = true := by
  intro before below
  obtain ⟨place, inside⟩ := mem_wordBytes small (freeByte_some ofWord).1
  by_cases same : before / 8 = byte
  · have set := bits (before % 8) (by omega)
    rw [← same, Nat.mul_comm, Nat.div_add_mod] at set
    exact set
  · by_cases sameWord : before / 64 = word
    · apply Bytes.bitAt_of_full
      exact freeByte_before ofWord (by omega) (by omega)
    · exact freeByte_none (words (before / 64) (by omega)) rfl (by omega)

theorem Counted.allocGroup (counted : bmp.Counted) (free : 0 < bmp.free) :
    ∃ dwGrpIdx, bmp.allocGroup = some (dwGrpIdx, ⟨bmp.bytes.setBit dwGrpIdx, bmp.free - 1⟩) ∧
      dwGrpIdx < blkgrpNumber ∧ bmp.bytes.bitAt dwGrpIdx = false ∧
      (∀ before < dwGrpIdx, bmp.bytes.bitAt before = true) ∧
      Counted ⟨bmp.bytes.setBit dwGrpIdx, bmp.free - 1⟩ := by
  have words : grpbmpWords * 64 = blkgrpNumber + 16 := by decide
  rw [Counted] at counted
  rw [counted] at free
  obtain ⟨pos, member⟩ := Finset.card_pos.1 free
  obtain ⟨⟨_, below⟩, clear⟩ := Bytes.mem_clearBits.1 member
  have found : (List.range grpbmpWords).findSome? (freeByte bmp.bytes grpbmpWords) ≠ none := by
    intro none
    have set := freeByte_none (List.findSome?_eq_none_iff.1 none (pos / 64) (mem_range.2 (by omega))) rfl
      (by omega : pos + 16 < grpbmpWords * 64)
    exact Bool.false_ne_true (clear.symm.trans set)
  obtain ⟨byte, isByte⟩ := Option.ne_none_iff_exists'.1 found
  obtain ⟨word, small, ofWord, before⟩ := findSome?_range isByte
  obtain ⟨within, notFull⟩ := freeByte_some ofWord
  obtain ⟨_, inside⟩ := mem_wordBytes small within
  obtain ⟨bit, inByte, isClear⟩ := Bytes.exists_clear notFull
  have someBit : (List.range 8).find? (fun bit => !bmp.bytes.bitAt (byte * 8 + bit)) ≠ none := by
    intro none
    have set := List.find?_eq_none.1 none bit (mem_range.2 inByte)
    rw [isClear] at set
    exact set rfl
  obtain ⟨first, isFirst⟩ := Option.ne_none_iff_exists'.1 someBit
  obtain ⟨test, among, others⟩ := List.find?_range_eq_some.1 isFirst
  have firstClear : bmp.bytes.bitAt (byte * 8 + first) = false := Bool.not_eq_true' _ ▸ test
  have firstSmall := mem_range.1 among
  have below : byte * 8 + first < blkgrpNumber := by omega
  have bits : ∀ before < first, bmp.bytes.bitAt (byte * 8 + before) = true := by
    intro before earlier
    have set := others before earlier
    rw [Bool.not_not] at set
    exact set
  refine ⟨byte * 8 + first, ?_, below, firstClear, allocGroup_first ofWord small before firstSmall bits, ?_⟩
  · rw [GroupBitmap.allocGroup, counted, if_neg (Nat.ne_of_gt free), isByte]
    dsimp only
    rw [isFirst]
  · have only : ∀ index ∈ [byte * 8 + first], 0 ≤ index ∧ index < blkgrpNumber := by
      intro index member
      rw [mem_singleton.1 member]
      exact ⟨Nat.zero_le _, below⟩
    have card := (Bytes.Takes.single firstClear).card only
    rw [length_singleton] at card
    show bmp.free - 1 = ((bmp.bytes.setBit (byte * 8 + first)).clearBits 0 blkgrpNumber).card
    omega

def freeGrps (bmp : GroupBitmap) : List Nat := (List.range blkgrpNumber).filter fun dwGrpIdx => !bmp.bytes.bitAt dwGrpIdx

theorem Counted.length_freeGrps (counted : bmp.Counted) : bmp.freeGrps.length = bmp.free := by
  have nodup : bmp.freeGrps.Nodup := nodup_range.filter _
  have same : bmp.freeGrps.toFinset = bmp.bytes.clearBits 0 blkgrpNumber := by
    ext dwGrpIdx
    rw [mem_toFinset, Bytes.mem_clearBits, freeGrps, mem_filter, mem_range, Bool.not_eq_true',
      and_iff_right (Nat.zero_le _)]
  rw [Counted] at counted
  rw [counted, ← same, toFinset_card_of_nodup nodup]

theorem freeGrps_setBit {dwGrpIdx free : Nat} (below : dwGrpIdx < blkgrpNumber)
    (clear : bmp.bytes.bitAt dwGrpIdx = false)
    (first : ∀ before < dwGrpIdx, bmp.bytes.bitAt before = true) :
    bmp.freeGrps = dwGrpIdx :: freeGrps ⟨bmp.bytes.setBit dwGrpIdx, free⟩ := by
  have split : List.range blkgrpNumber =
      List.range dwGrpIdx ++ dwGrpIdx :: List.range' (dwGrpIdx + 1) (blkgrpNumber - dwGrpIdx - 1) := by
    rw [range_eq_range', range_eq_range', ← List.range'_succ, Nat.sub_add_cancel (by omega)]
    have parts := @List.range'_append_1 0 dwGrpIdx (blkgrpNumber - dwGrpIdx)
    rw [Nat.zero_add, Nat.add_sub_cancel' (Nat.le_of_lt below)] at parts
    exact parts.symm
  have early : ∀ before ∈ List.range dwGrpIdx, ¬(!bmp.bytes.bitAt before) = true := by
    intro before member
    rw [first before (mem_range.1 member)]
    exact Bool.false_ne_true
  have earlySet : ∀ before ∈ List.range dwGrpIdx, ¬(!(bmp.bytes.setBit dwGrpIdx).bitAt before) = true := by
    intro before member
    rw [Bytes.bitAt_setBit, first before (mem_range.1 member)]
    exact Bool.false_ne_true
  have others : (List.range' (dwGrpIdx + 1) (blkgrpNumber - dwGrpIdx - 1)).filter (fun other => !bmp.bytes.bitAt other) =
      (List.range' (dwGrpIdx + 1) (blkgrpNumber - dwGrpIdx - 1)).filter
        (fun other => !(bmp.bytes.setBit dwGrpIdx).bitAt other) := by
    apply filter_congr
    intro other member
    have different : other ≠ dwGrpIdx := by
      have above := mem_range'_1.1 member
      omega
    rw [Bytes.bitAt_setBit, decide_eq_false different, Bool.or_false]
  have headClear : (!bmp.bytes.bitAt dwGrpIdx) = true := by
    rw [clear]
    rfl
  have headSet : ¬(!(bmp.bytes.setBit dwGrpIdx).bitAt dwGrpIdx) = true := by
    rw [Bytes.bitAt_setBit, decide_eq_true rfl, Bool.or_true]
    exact Bool.false_ne_true
  show (List.range blkgrpNumber).filter (fun other => !bmp.bytes.bitAt other) =
    dwGrpIdx :: (List.range blkgrpNumber).filter (fun other => !(bmp.bytes.setBit dwGrpIdx).bitAt other)
  rw [split, filter_append, filter_append, filter_eq_nil_iff.2 early, filter_eq_nil_iff.2 earlySet,
    filter_cons, filter_cons, if_pos headClear, if_neg headSet, others]
  rfl

theorem allocGroup_none (none : bmp.free = 0) : bmp.allocGroup = Option.none := by
  rw [GroupBitmap.allocGroup, if_pos none]

end GroupBitmap

namespace BlkAlloc

/-! ### The groups in the map -/

section

variable {grps : BlkGrps} {dwGrpIdx blkIdx : Nat} {bmp : BlockBitmap}

def TakenIn (grps : BlkGrps) (blkIdx : Nat) : Prop :=
  ∃ bmp, (blkIdx / blocksPerGroupFull, bmp) ∈ grps ∧ bmp.bytes.bitAt (blockIndex blkIdx) = true

theorem takenIn_cons :
    TakenIn ((dwGrpIdx, bmp) :: grps) blkIdx ↔
      (blkIdx / blocksPerGroupFull = dwGrpIdx ∧ bmp.bytes.bitAt (blockIndex blkIdx) = true) ∨ TakenIn grps blkIdx := by
  constructor
  · rintro ⟨other, member, set⟩
    rcases mem_cons.1 member with same | later
    · obtain ⟨group, bitmap⟩ := Prod.mk.inj same
      rw [bitmap] at set
      exact .inl ⟨group, set⟩
    · exact .inr ⟨other, later, set⟩
  · rintro (⟨group, set⟩ | ⟨other, later, set⟩)
    · exact ⟨bmp, mem_cons.2 (.inl (by rw [group])), set⟩
    · exact ⟨other, mem_cons_of_mem _ later, set⟩

/-- The map holds groups in the order of their keys, and the count of each is right. -/
structure Sound (grps : BlkGrps) : Prop where
  sorted : grps.Pairwise fun left right => left.1 < right.1
  counted : ∀ grp ∈ grps, grp.2.Counted
  bounded : ∀ grp ∈ grps, grp.1 < blkgrpNumber

variable {grp : Nat × BlockBitmap} {taken more idxs : List Nat} {want count : Nat}
    {after : BlockBitmap} {rest : BlkGrps}

theorem Sound.tail (sound : Sound (grp :: grps)) : Sound grps where
  sorted := (pairwise_cons.1 sound.sorted).2
  counted other member := sound.counted other (mem_cons_of_mem _ member)
  bounded other member := sound.bounded other (mem_cons_of_mem _ member)

theorem Sound.cons {grp : Nat × BlockBitmap} {rest : BlkGrps} {after : BlockBitmap}
    (sound : Sound (grp :: grps))
    (tail : Sound rest) (keys : rest.map Prod.fst = grps.map Prod.fst) (counted : after.Counted) :
    Sound ((grp.1, after) :: rest) where
  sorted := by
    refine pairwise_cons.2 ⟨?_, tail.sorted⟩
    intro other member
    have key : other.1 ∈ grps.map Prod.fst := keys ▸ mem_map_of_mem member
    obtain ⟨old, among, same⟩ := mem_map.1 key
    have before := (pairwise_cons.1 sound.sorted).1 old among
    rw [same] at before
    exact before
  counted := forall_mem_cons.2 ⟨counted, tail.counted⟩
  bounded := forall_mem_cons.2 ⟨sound.bounded grp mem_cons_self, tail.bounded⟩

theorem Sound.not_takenIn (sound : Sound (grp :: grps))
    (group : blkIdx / blocksPerGroupFull = grp.1) : ¬TakenIn grps blkIdx := by
  rintro ⟨bmp, member, _⟩
  have before := (pairwise_cons.1 sound.sorted).1 _ member
  exact Nat.lt_irrefl _ (group ▸ before)

theorem div_mod_of_lt {index : Nat} (below : index < blocksPerGroup) :
    (dwGrpIdx * blocksPerGroupFull + index) / blocksPerGroupFull = dwGrpIdx ∧
      blockIndex (dwGrpIdx * blocksPerGroupFull + index) = index := by
  have size : blocksPerGroupFull = 65536 := by decide
  have last : blocksPerGroup = 65520 := by decide
  rw [blockIndex, size]
  omega

/-- What a loop over groups does: it takes blocks that were free, and nothing else changes. -/
structure Extends (before : BlkGrps) (taken : List Nat) (after : BlkGrps) : Prop where
  nodup : taken.Nodup
  allocatable : ∀ blkIdx ∈ taken, Allocatable blkIdx
  free : ∀ blkIdx ∈ taken, ¬TakenIn before blkIdx
  state : ∀ blkIdx, Allocatable blkIdx → (TakenIn after blkIdx ↔ TakenIn before blkIdx ∨ blkIdx ∈ taken)

theorem Extends.refl (grps : BlkGrps) : Extends grps [] grps where
  nodup := nodup_nil
  allocatable _ member := absurd member not_mem_nil
  free _ member := absurd member not_mem_nil
  state _ _ := ⟨.inl, fun either => either.resolve_right not_mem_nil⟩

theorem Extends.append {first second third : BlkGrps} (before : Extends first taken second)
    (behind : Extends second more third) : Extends first (taken ++ more) third where
  nodup := by
    refine nodup_append.2 ⟨before.nodup, behind.nodup, ?_⟩
    intro blkIdx member other later same
    apply behind.free other later
    rw [← same]
    exact (before.state blkIdx (before.allocatable blkIdx member)).2 (.inr member)
  allocatable blkIdx member := (mem_append.1 member).elim (before.allocatable blkIdx) (behind.allocatable blkIdx)
  free blkIdx member := by
    rcases mem_append.1 member with early | late
    · exact before.free blkIdx early
    · intro taken
      exact behind.free blkIdx late ((before.state blkIdx (behind.allocatable blkIdx late)).2 (.inl taken))
  state blkIdx allocatable := by
    rw [behind.state blkIdx allocatable, before.state blkIdx allocatable, mem_append, or_assoc]

theorem Extends.head (sound : Sound (grp :: grps)) (allocates : grp.2.Allocates want idxs after) :
    Extends (grp :: grps) (idxs.map (grp.1 * blocksPerGroupFull + ·)) ((grp.1, after) :: grps) := by
  obtain ⟨dwGrpIdx, bmp⟩ := grp
  have inside : ∀ index ∈ idxs, index < blocksPerGroup := fun index member => (allocates.among index member).2
  have reserved : ∀ blkIdx ∈ idxs.map (dwGrpIdx * blocksPerGroupFull + ·), ∃ index ∈ idxs,
      blkIdx = dwGrpIdx * blocksPerGroupFull + index ∧ blkIdx / blocksPerGroupFull = dwGrpIdx ∧
        blockIndex blkIdx = index := by
    intro blkIdx member
    obtain ⟨index, among, same⟩ := mem_map.1 member
    obtain ⟨group, place⟩ := @div_mod_of_lt dwGrpIdx index (inside index among)
    rw [same] at group place
    exact ⟨index, among, same.symm, group, place⟩
  refine ⟨?_, ?_, ?_, ?_⟩
  · refine allocates.takes.nodup.map ?_
    intro left right same
    exact Nat.add_left_cancel same
  · intro blkIdx member
    obtain ⟨index, among, _, group, place⟩ := reserved blkIdx member
    rw [Allocatable, group, place]
    exact ⟨sound.bounded (dwGrpIdx, bmp) mem_cons_self, allocates.among index among⟩
  · intro blkIdx member
    obtain ⟨index, among, _, group, place⟩ := reserved blkIdx member
    rw [takenIn_cons, place]
    rintro (⟨_, set⟩ | later)
    · exact Bool.false_ne_true ((allocates.takes.clear index among).symm.trans set)
    · exact sound.not_takenIn group later
  · intro blkIdx allocatable
    rw [takenIn_cons, takenIn_cons, allocates.takes.bits, Bool.or_eq_true, decide_eq_true_iff]
    have member : blkIdx ∈ idxs.map (dwGrpIdx * blocksPerGroupFull + ·) ↔
        blkIdx / blocksPerGroupFull = dwGrpIdx ∧ blockIndex blkIdx ∈ idxs := by
      constructor
      · intro member
        obtain ⟨index, among, _, group, place⟩ := reserved blkIdx member
        exact ⟨group, place ▸ among⟩
      · rintro ⟨group, among⟩
        refine mem_map.2 ⟨blockIndex blkIdx, among, ?_⟩
        rw [← group, blockIndex, Nat.mul_comm]
        exact Nat.div_add_mod _ _
    rw [member]
    constructor
    · rintro (⟨group, set | among⟩ | later)
      · exact .inl (.inl ⟨group, set⟩)
      · exact .inr ⟨group, among⟩
      · exact .inl (.inr later)
    · rintro ((⟨group, set⟩ | later) | ⟨group, among⟩)
      · exact .inl ⟨group, .inl set⟩
      · exact .inr later
      · exact .inl ⟨group, .inr among⟩

theorem Extends.tail (sound : Sound (grp :: grps))
    (extends' : Extends grps taken rest)
    (keys : ∀ blkIdx ∈ taken, blkIdx / blocksPerGroupFull ∈ grps.map Prod.fst) :
    Extends (grp :: grps) taken (grp :: rest) where
  nodup := extends'.nodup
  allocatable := extends'.allocatable
  free := by
    intro blkIdx member
    obtain ⟨dwGrpIdx, bmp⟩ := grp
    rw [takenIn_cons]
    rintro (⟨group, _⟩ | later)
    · obtain ⟨old, among, same⟩ := mem_map.1 (keys blkIdx member)
      have before := (pairwise_cons.1 sound.sorted).1 old among
      rw [same, group] at before
      exact Nat.lt_irrefl _ before
    · exact extends'.free blkIdx member later
  state := by
    intro blkIdx allocatable
    obtain ⟨dwGrpIdx, bmp⟩ := grp
    rw [takenIn_cons, takenIn_cons, extends'.state blkIdx allocatable, or_assoc]

/-- What the loop over the groups in the map does. -/
structure AllocsGrps (grps : BlkGrps) (want : Nat) (taken : List Nat) (after : BlkGrps) : Prop where
  keys : after.map Prod.fst = grps.map Prod.fst
  sound : Sound after
  takes : Extends grps taken after
  groups : ∀ blkIdx ∈ taken, blkIdx / blocksPerGroupFull ∈ grps.map Prod.fst
  few : taken.length ≤ want
  progress : (∃ grp ∈ grps, 0 < grp.2.free) → taken ≠ []

theorem AllocsGrps.skip {after : BlkGrps}
    (sound : Sound (grp :: grps)) (none : grp.2.free = 0)
    (allocs : AllocsGrps grps want taken after) :
    AllocsGrps (grp :: grps) want taken (grp :: after) where
  keys := by rw [map_cons, map_cons, allocs.keys]
  sound := sound.cons allocs.sound allocs.keys (sound.counted grp mem_cons_self)
  takes := allocs.takes.tail sound allocs.groups
  groups blkIdx member := mem_cons_of_mem _ (allocs.groups blkIdx member)
  few := allocs.few
  progress := by
    rintro ⟨other, member, free⟩
    rcases mem_cons.1 member with same | later
    · rw [same, none] at free
      exact absurd free (Nat.lt_irrefl 0)
    · exact allocs.progress ⟨other, later, free⟩

theorem group_of_allocates {grp : Nat × BlockBitmap} {want : Nat} {idxs : List Nat} {after : BlockBitmap}
    (allocates : grp.2.Allocates want idxs after) :
    ∀ blkIdx ∈ idxs.map (grp.1 * blocksPerGroupFull + ·), blkIdx / blocksPerGroupFull = grp.1 := by
  intro blkIdx member
  obtain ⟨index, among, same⟩ := mem_map.1 member
  rw [← same]
  exact (div_mod_of_lt (allocates.among index among).2).1

theorem AllocsGrps.last
    (sound : Sound (grp :: grps)) (few : count ≤ want)
    (allocates : grp.2.Allocates count idxs after) :
    AllocsGrps (grp :: grps) want (idxs.map (grp.1 * blocksPerGroupFull + ·)) ((grp.1, after) :: grps) where
  keys := rfl
  sound := sound.cons sound.tail rfl allocates.counted
  takes := Extends.head sound allocates
  groups blkIdx member := mem_cons.2 (.inl (group_of_allocates allocates blkIdx member))
  few := by
    rw [length_map]
    exact Nat.le_trans allocates.few few
  progress _ none := allocates.some (map_eq_nil_iff.1 none)

theorem AllocsGrps.next (sound : Sound (grp :: grps)) (within : idxs.length ≤ want)
    (allocates : grp.2.Allocates count idxs after)
    (allocs : AllocsGrps grps (want - idxs.length) more rest) :
    AllocsGrps (grp :: grps) want (idxs.map (grp.1 * blocksPerGroupFull + ·) ++ more) ((grp.1, after) :: rest) where
  keys := by rw [map_cons, map_cons, allocs.keys]
  sound := sound.cons allocs.sound allocs.keys allocates.counted
  takes := by
    have changed := sound.cons sound.tail rfl allocates.counted
    exact (Extends.head sound allocates).append (allocs.takes.tail changed allocs.groups)
  groups := by
    intro blkIdx member
    rcases mem_append.1 member with early | late
    · exact mem_cons.2 (.inl (group_of_allocates allocates blkIdx early))
    · exact mem_cons_of_mem _ (allocs.groups blkIdx late)
  few := by
    have later := allocs.few
    rw [length_append, length_map]
    omega
  progress _ none := allocates.some (map_eq_nil_iff.1 (append_eq_nil_iff.1 none).1)

theorem allocsGrps (sound : Sound grps) (wanted : 0 < want) :
    AllocsGrps grps want (allocGrps want grps).1 (allocGrps want grps).2 := by
  induction grps generalizing want with
  | nil =>
    refine ⟨rfl, sound, Extends.refl [], forall_mem_nil _, Nat.zero_le _, ?_⟩
    rintro ⟨grp, member, _⟩
    exact absurd member not_mem_nil
  | cons grp grps ih =>
    obtain ⟨dwGrpIdx, bmp⟩ := grp
    rw [allocGrps]
    by_cases none : bmp.free = 0
    · rw [if_pos none]
      exact AllocsGrps.skip sound none (ih sound.tail wanted)
    · have free : 0 < bmp.free := Nat.pos_of_ne_zero none
      have counted := sound.counted _ mem_cons_self
      obtain ⟨idxs, after, answer, allocates⟩ := counted.allocBlocks (Nat.lt_min.2 ⟨free, wanted⟩) free
      have few := Nat.min_le_right bmp.free want
      have within := Nat.le_trans allocates.few few
      have fine : (if idxs.length = min bmp.free want then AllocRet.success else .moreProcessNeeded).failed = false := by
        split
        · rfl
        · rfl
      rw [if_neg none, answer]
      dsimp only
      rw [fine, if_neg Bool.false_ne_true]
      by_cases enough : want ≤ idxs.length
      · rw [if_pos enough]
        exact AllocsGrps.last sound few allocates
      · rw [if_neg enough]
        exact AllocsGrps.next sound within allocates (ih sound.tail (by omega))

theorem allocGrps_full (full : ∀ grp ∈ grps, grp.2.free = 0) : allocGrps want grps = ([], grps) := by
  induction grps with
  | nil => rfl
  | cons grp grps ih =>
    obtain ⟨none, others⟩ := forall_mem_cons.1 full
    rw [allocGrps, if_pos none, ih others]

/-! ### New groups -/

theorem mem_insertGrp (absent : dwGrpIdx ∉ grps.map Prod.fst) :
    grp ∈ insertGrp dwGrpIdx bmp grps ↔ grp = (dwGrpIdx, bmp) ∨ grp ∈ grps := by
  induction grps with
  | nil => rw [insertGrp, mem_singleton, or_iff_left not_mem_nil]
  | cons first grps ih =>
    rw [map_cons, mem_cons, not_or] at absent
    rw [insertGrp, if_neg absent.1]
    split
    · exact mem_cons
    · rw [mem_cons, ih absent.2, mem_cons, or_left_comm]

theorem length_insertGrp (absent : dwGrpIdx ∉ grps.map Prod.fst) :
    (insertGrp dwGrpIdx bmp grps).length = grps.length + 1 := by
  induction grps with
  | nil => rfl
  | cons first grps ih =>
    rw [map_cons, mem_cons, not_or] at absent
    rw [insertGrp, if_neg absent.1]
    split
    · rfl
    · rw [length_cons, ih absent.2, length_cons]

theorem sorted_insertGrp (absent : dwGrpIdx ∉ grps.map Prod.fst)
    (sorted : grps.Pairwise fun left right => left.1 < right.1) :
    (insertGrp dwGrpIdx bmp grps).Pairwise fun left right => left.1 < right.1 := by
  induction grps with
  | nil => exact pairwise_singleton _ _
  | cons first grps ih =>
    rw [map_cons, mem_cons, not_or] at absent
    obtain ⟨before, tail⟩ := pairwise_cons.1 sorted
    rw [insertGrp, if_neg absent.1]
    split
    · rename_i below
      refine pairwise_cons.2 ⟨?_, sorted⟩
      intro other member
      rcases mem_cons.1 member with same | later
      · rw [same]
        exact below
      · exact Nat.lt_trans below (before other later)
    · rename_i above
      refine pairwise_cons.2 ⟨?_, ih absent.2 tail⟩
      intro other member
      rcases (mem_insertGrp absent.2).1 member with same | later
      · rw [same]
        exact Nat.lt_of_le_of_ne (Nat.not_lt.1 above) fun same => absent.1 same.symm
      · exact before other later

theorem extends_insertGrp (absent : dwGrpIdx ∉ grps.map Prod.fst) :
    Extends grps [] (insertGrp dwGrpIdx BlockBitmap.initBitmap grps) where
  nodup := nodup_nil
  allocatable _ member := absurd member not_mem_nil
  free _ member := absurd member not_mem_nil
  state := by
    intro blkIdx allocatable
    rw [or_iff_left not_mem_nil]
    constructor
    · rintro ⟨other, member, set⟩
      rcases (mem_insertGrp absent).1 member with same | old
      · have all := BlockBitmap.counted_initBitmap.free.symm
        rw [(Prod.mk.inj same).2] at set
        have clear := Bytes.clear_of_card all allocatable.2.1 allocatable.2.2
        exact absurd (clear.symm.trans set) Bool.false_ne_true
      · exact ⟨other, old, set⟩
    · rintro ⟨other, member, set⟩
      exact ⟨other, (mem_insertGrp absent).2 (.inr member), set⟩

end

/-- The groups in the map are the ones that are taken in the group bitmap. -/
structure Inv (alloc : BlkAlloc) : Prop where
  sound : Sound alloc.grps
  counted : alloc.grpBmp.Counted
  count : alloc.grpBmp.free + alloc.grps.length = blkgrpNumber
  groups : ∀ dwGrpIdx < blkgrpNumber, (alloc.grpBmp.bytes.bitAt dwGrpIdx = true ↔ dwGrpIdx ∈ alloc.grps.map Prod.fst)

variable {alloc : BlkAlloc} {io : BlockIo}

/-- A group is made. -/
structure Makes (alloc : BlkAlloc) (dwGrpIdx : Nat) (grpBmp : GroupBitmap) : Prop where
  answer : alloc.grpBmp.allocGroup = some (dwGrpIdx, grpBmp)
  count : grpBmp.free + 1 = alloc.grpBmp.free
  first : alloc.grpBmp.freeGrps = dwGrpIdx :: grpBmp.freeGrps
  absent : dwGrpIdx ∉ alloc.grps.map Prod.fst
  inv : Inv ⟨insertGrp dwGrpIdx BlockBitmap.initBitmap alloc.grps, grpBmp⟩

theorem Inv.makes (inv : alloc.Inv) (free : 0 < alloc.grpBmp.free) :
    ∃ dwGrpIdx grpBmp, alloc.Makes dwGrpIdx grpBmp := by
  obtain ⟨dwGrpIdx, answer, below, clear, first, counted⟩ := inv.counted.allocGroup free
  have absent : dwGrpIdx ∉ alloc.grps.map Prod.fst := by
    intro member
    have set := (inv.groups dwGrpIdx below).2 member
    exact Bool.false_ne_true (clear.symm.trans set)
  refine ⟨dwGrpIdx, _, answer, Nat.sub_add_cancel free, GroupBitmap.freeGrps_setBit below clear first, absent, ⟨sorted_insertGrp absent inv.sound.sorted, ?_, ?_⟩,
    counted, ?_, ?_⟩
  · intro grp member
    rcases (mem_insertGrp absent).1 member with same | old
    · rw [same]
      exact BlockBitmap.counted_initBitmap
    · exact inv.sound.counted grp old
  · intro grp member
    rcases (mem_insertGrp absent).1 member with same | old
    · rw [same]
      exact below
    · exact inv.sound.bounded grp old
  · have count := inv.count
    show alloc.grpBmp.free - 1 + (insertGrp dwGrpIdx BlockBitmap.initBitmap alloc.grps).length = blkgrpNumber
    rw [length_insertGrp absent]
    omega
  · intro other inside
    show (alloc.grpBmp.bytes.setBit dwGrpIdx).bitAt other = true ↔ _
    rw [Bytes.bitAt_setBit, Bool.or_eq_true, inv.groups other inside, decide_eq_true_iff, mem_map, mem_map]
    constructor
    · rintro (⟨grp, member, same⟩ | same)
      · exact ⟨grp, (mem_insertGrp absent).2 (.inr member), same⟩
      · exact ⟨_, (mem_insertGrp absent).2 (.inl rfl), same.symm⟩
    · rintro ⟨grp, member, same⟩
      rcases (mem_insertGrp absent).1 member with new | old
      · rw [new] at same
        exact .inr same.symm
      · exact .inl ⟨grp, old, same⟩

/-- What the loop that makes groups does when it ends well. -/
structure Grows (alloc : BlkAlloc) (dwNeed : Nat) (after : BlkAlloc) : Prop where
  inv : after.Inv
  takes : Extends alloc.grps [] after.grps
  kept : ∀ grp ∈ alloc.grps, grp ∈ after.grps
  room : 0 < dwNeed → ∃ grp ∈ after.grps, 0 < grp.2.free
  enough : dwNeed ≤ BlockBitmap.blocks * alloc.grpBmp.free

variable {rounds dwRest dwNumBlocks : Nat}

theorem Inv.createGrps (inv : alloc.Inv) {dwNeed : Nat}
    (made : (BlkAlloc.createGrps io rounds dwNeed alloc).1 = true) :
    alloc.Grows dwNeed (BlkAlloc.createGrps io rounds dwNeed alloc).2 := by
  induction rounds generalizing dwNeed alloc with
  | zero => exact absurd made Bool.false_ne_true
  | succ rounds ih =>
    rw [BlkAlloc.createGrps] at made ⊢
    by_cases none : dwNeed = 0
    · rw [if_pos none] at made ⊢
      exact ⟨inv, Extends.refl _, fun _ member => member, fun some => absurd none (Nat.ne_of_gt some),
        none ▸ Nat.zero_le _⟩
    · rw [if_neg none] at made ⊢
      by_cases free : alloc.grpBmp.free = 0
      · rw [GroupBitmap.allocGroup_none free] at made
        exact absurd made Bool.false_ne_true
      · obtain ⟨dwGrpIdx, grpBmp, makes⟩ := inv.makes (Nat.pos_of_ne_zero free)
        rw [makes.answer] at made ⊢
        dsimp only at made ⊢
        by_cases formats : io.formats dwGrpIdx = true
        · rw [if_pos formats] at made ⊢
          have grows := ih makes.inv made
          have count := makes.count
          have enough := grows.enough
          refine ⟨grows.inv, (extends_insertGrp makes.absent).append grows.takes, ?_, ?_, ?_⟩
          · intro grp member
            exact grows.kept grp ((mem_insertGrp makes.absent).2 (.inr member))
          · intro _
            exact ⟨_, grows.kept _ ((mem_insertGrp makes.absent).2 (.inl rfl)), (by decide : 0 < BlockBitmap.blocks)⟩
          · rw [← count, Nat.mul_add]
            dsimp only at enough
            omega
        · rw [if_neg formats] at made
          exact absurd made Bool.false_ne_true

theorem Inv.createGrps_works (inv : alloc.Inv) (works : io.failing = []) {dwNeed : Nat} :
    (BlkAlloc.createGrps io rounds dwNeed alloc).2.Inv := by
  induction rounds generalizing dwNeed alloc with
  | zero => exact inv
  | succ rounds ih =>
    rw [BlkAlloc.createGrps]
    by_cases none : dwNeed = 0
    · rw [if_pos none]
      exact inv
    · rw [if_neg none]
      by_cases free : alloc.grpBmp.free = 0
      · rw [GroupBitmap.allocGroup_none free]
        exact inv
      · obtain ⟨dwGrpIdx, grpBmp, makes⟩ := inv.makes (Nat.pos_of_ne_zero free)
        have formats : io.formats dwGrpIdx = true := by
          rw [BlockIo.formats, works]
          rfl
        rw [makes.answer]
        dsimp only
        rw [if_pos formats]
        exact ih makes.inv

theorem Inv.extends_createGrps (inv : alloc.Inv) {dwNeed : Nat} :
    Extends alloc.grps [] (BlkAlloc.createGrps io rounds dwNeed alloc).2.grps := by
  induction rounds generalizing dwNeed alloc with
  | zero => exact Extends.refl _
  | succ rounds ih =>
    rw [BlkAlloc.createGrps]
    by_cases none : dwNeed = 0
    · rw [if_pos none]
      exact Extends.refl _
    · rw [if_neg none]
      by_cases free : alloc.grpBmp.free = 0
      · rw [GroupBitmap.allocGroup_none free]
        exact Extends.refl _
      · obtain ⟨dwGrpIdx, grpBmp, makes⟩ := inv.makes (Nat.pos_of_ne_zero free)
        rw [makes.answer]
        dsimp only
        split
        · exact (extends_insertGrp makes.absent).append (ih makes.inv)
        · exact Extends.refl _

theorem Inv.free_createGrps (inv : alloc.Inv) {dwNeed : Nat} :
    (BlkAlloc.createGrps io rounds dwNeed alloc).2.grpBmp.free ≤ alloc.grpBmp.free ∧
      (0 < rounds → 0 < dwNeed → 0 < alloc.grpBmp.free →
        (BlkAlloc.createGrps io rounds dwNeed alloc).2.grpBmp.free < alloc.grpBmp.free) := by
  induction rounds generalizing dwNeed alloc with
  | zero => exact ⟨Nat.le_refl _, fun some => absurd some (Nat.lt_irrefl 0)⟩
  | succ rounds ih =>
    rw [BlkAlloc.createGrps]
    by_cases none : dwNeed = 0
    · rw [if_pos none]
      exact ⟨Nat.le_refl _, fun _ some => absurd none (Nat.ne_of_gt some)⟩
    · rw [if_neg none]
      by_cases free : alloc.grpBmp.free = 0
      · rw [GroupBitmap.allocGroup_none free]
        exact ⟨Nat.le_refl _, fun _ _ some => absurd free (Nat.ne_of_gt some)⟩
      · obtain ⟨dwGrpIdx, grpBmp, makes⟩ := inv.makes (Nat.pos_of_ne_zero free)
        have fewer : grpBmp.free < alloc.grpBmp.free := Nat.lt_of_succ_le (Nat.le_of_eq makes.count)
        rw [makes.answer]
        dsimp only
        split
        · have lower := Nat.lt_of_le_of_lt (@ih _ makes.inv (dwNeed - BlockBitmap.blocks)).1 fewer
          exact ⟨Nat.le_of_lt lower, fun _ _ _ => lower⟩
        · exact ⟨Nat.le_of_lt fewer, fun _ _ _ => fewer⟩

/-! ### What the rounds take -/

def givesAll (grps : BlkGrps) (round : Nat) : Nat := (grps.map fun grp => grp.2.gives round).sum

def grpsFor (dwNeed : Nat) : Nat := (dwNeed + BlockBitmap.blocks - 1) / BlockBitmap.blocks

/-- The rounds of a request end with all its blocks. A round takes of each word of the groups the
first byte that is not full; for what is left, it makes groups that would hold all of it. -/
inductive Served (io : BlockIo) : Nat → (Nat → Nat) → List Nat → Prop where
  | taken {dwRest : Nat} {gives : Nat → Nat} {free : List Nat} (enough : dwRest ≤ gives 0) : Served io dwRest gives free
  | grown {dwRest made : Nat} {gives : Nat → Nat} {free : List Nat} (few : gives 0 < dwRest)
      (needed : made = grpsFor (dwRest - gives 0)) (present : made ≤ free.length)
      (written : ∀ dwGrpIdx ∈ free.take made, io.formats dwGrpIdx = true)
      (later : Served io (dwRest - gives 0) (fun round => gives (round + 1) + made * BlockBitmap.initBitmap.gives round)
        (free.drop made)) :
      Served io dwRest gives free

section

variable {grps : BlkGrps} {want : Nat}

theorem givesAll_nil (round : Nat) : givesAll [] round = 0 := rfl

theorem gives_allocGrps (sound : Sound grps) (wanted : 0 < want) :
    (allocGrps want grps).1.length = min want (givesAll grps 0) ∧
      (givesAll grps 0 < want → ∀ round, givesAll (allocGrps want grps).2 round = givesAll grps (round + 1)) := by
  induction grps generalizing want with
  | nil => exact ⟨(Nat.min_zero want).symm, fun _ round => (givesAll_nil round).trans (givesAll_nil (round + 1)).symm⟩
  | cons grp grps ih =>
    obtain ⟨dwGrpIdx, bmp⟩ := grp
    have all : ∀ bmp grps round, givesAll ((dwGrpIdx, bmp) :: grps) round = bmp.gives round + givesAll grps round :=
      fun _ _ _ => sum_cons
    have counted : bmp.Counted := sound.counted (dwGrpIdx, bmp) mem_cons_self
    have most := counted.gives_le
    rw [allocGrps, all]
    by_cases none : bmp.free = 0
    · rw [none] at most
      have nothing : bmp.gives 0 = 0 := Nat.le_zero.1 most
      obtain ⟨length, shifts⟩ := ih sound.tail wanted
      rw [if_pos none, nothing, Nat.zero_add]
      refine ⟨length, ?_⟩
      intro few round
      rw [all, all, shifts few, BlockBitmap.gives_of_none nothing, BlockBitmap.gives_of_none nothing]
    · have free : 0 < bmp.free := Nat.pos_of_ne_zero none
      have some : 0 < min bmp.free want := Nat.lt_min.2 ⟨free, wanted⟩
      obtain ⟨idxs, after, answer, _⟩ := counted.allocBlocks some free
      obtain ⟨length, shifts⟩ := BlockBitmap.gives_allocBlocks some free
      rw [answer] at length shifts
      dsimp only at length shifts
      have fine : (if idxs.length = min bmp.free want then AllocRet.success else .moreProcessNeeded).failed = false := by
        split
        · rfl
        · rfl
      rw [if_neg none, answer]
      dsimp only
      rw [fine, if_neg Bool.false_ne_true]
      by_cases enough : want ≤ idxs.length
      · rw [if_pos enough, length_map]
        exact ⟨by omega, fun few => absurd few (by omega)⟩
      · obtain ⟨lengthRest, shiftsRest⟩ := @ih (want - idxs.length) sound.tail (by omega)
        rw [if_neg enough, length_append, length_map]
        refine ⟨by omega, ?_⟩
        intro few round
        show givesAll ((dwGrpIdx, after) :: _) round = _
        rw [all, all, shifts (by omega), shiftsRest (by omega)]

theorem givesAll_insertGrp {dwGrpIdx : Nat} {bmp : BlockBitmap}
    (absent : dwGrpIdx ∉ grps.map Prod.fst) (round : Nat) :
    givesAll (insertGrp dwGrpIdx bmp grps) round = bmp.gives round + givesAll grps round := by
  induction grps with
  | nil => rfl
  | cons first grps ih =>
    rw [map_cons, mem_cons, not_or] at absent
    rw [insertGrp, if_neg absent.1]
    split
    · exact sum_cons
    · have rest := ih absent.2
      rw [givesAll, givesAll, map_cons, map_cons, sum_cons, sum_cons]
      rw [givesAll, givesAll] at rest
      omega

end

theorem grpsFor_zero : grpsFor 0 = 0 := by decide

theorem grpsFor_succ {dwNeed : Nat} (some : dwNeed ≠ 0) :
    grpsFor dwNeed = grpsFor (dwNeed - BlockBitmap.blocks) + 1 := by
  have size : BlockBitmap.blocks = 65504 := by decide
  rw [grpsFor, grpsFor, size]
  omega

/-- What groups are made, and what they give. -/
structure MakesGrps (alloc : BlkAlloc) (dwNeed : Nat) (after : BlkAlloc) : Prop where
  grows : alloc.Grows dwNeed after
  made : after.grpBmp.freeGrps = alloc.grpBmp.freeGrps.drop (grpsFor dwNeed) ∧ ∀ round, givesAll after.grps round = givesAll alloc.grps round + grpsFor dwNeed * BlockBitmap.initBitmap.gives round

theorem Inv.makesGrps (inv : alloc.Inv) {dwNeed : Nat}
    (made : (BlkAlloc.createGrps io rounds dwNeed alloc).1 = true) :
    alloc.MakesGrps dwNeed (BlkAlloc.createGrps io rounds dwNeed alloc).2 := by
  refine ⟨inv.createGrps made, ?_⟩
  induction rounds generalizing dwNeed alloc with
  | zero => exact absurd made Bool.false_ne_true
  | succ rounds ih =>
    rw [BlkAlloc.createGrps] at made ⊢
    by_cases none : dwNeed = 0
    · rw [if_pos none, none, grpsFor_zero]
      refine ⟨rfl, ?_⟩
      intro round
      rw [Nat.zero_mul, Nat.add_zero]
    · rw [if_neg none] at made ⊢
      by_cases free : alloc.grpBmp.free = 0
      · rw [GroupBitmap.allocGroup_none free] at made
        exact absurd made Bool.false_ne_true
      · obtain ⟨dwGrpIdx, grpBmp, makes⟩ := inv.makes (Nat.pos_of_ne_zero free)
        rw [makes.answer] at made ⊢
        dsimp only at made ⊢
        by_cases formats : io.formats dwGrpIdx = true
        · rw [if_pos formats] at made ⊢
          obtain ⟨others, gives⟩ := ih makes.inv made
          rw [grpsFor_succ none]
          refine ⟨?_, ?_⟩
          · rw [others, makes.first, drop_succ_cons]
          · intro round
            rw [gives round, givesAll_insertGrp makes.absent, Nat.add_mul, Nat.one_mul]
            omega
        · rw [if_neg formats] at made
          exact absurd made Bool.false_ne_true

theorem Inv.createGrps_iff (inv : alloc.Inv) {dwNeed : Nat} (enough : alloc.grpBmp.free < rounds) :
    (BlkAlloc.createGrps io rounds dwNeed alloc).1 = true ↔
      grpsFor dwNeed ≤ alloc.grpBmp.freeGrps.length ∧
        ∀ dwGrpIdx ∈ alloc.grpBmp.freeGrps.take (grpsFor dwNeed), io.formats dwGrpIdx = true := by
  induction rounds generalizing dwNeed alloc with
  | zero => exact absurd enough (Nat.not_lt_zero _)
  | succ rounds ih =>
    rw [BlkAlloc.createGrps]
    by_cases none : dwNeed = 0
    · rw [if_pos none, none, grpsFor_zero]
      exact ⟨fun _ => ⟨Nat.zero_le _, forall_mem_nil _⟩, fun _ => rfl⟩
    · rw [if_neg none, grpsFor_succ none]
      by_cases free : alloc.grpBmp.free = 0
      · rw [GroupBitmap.allocGroup_none free, inv.counted.length_freeGrps, free]
        exact ⟨fun never => absurd never Bool.false_ne_true, fun both => absurd both.1 (Nat.not_succ_le_zero _)⟩
      · obtain ⟨dwGrpIdx, grpBmp, makes⟩ := inv.makes (Nat.pos_of_ne_zero free)
        have count := makes.count
        rw [makes.answer, makes.first, length_cons, take_succ_cons, forall_mem_cons, Nat.add_le_add_iff_right]
        dsimp only
        by_cases formats : io.formats dwGrpIdx = true
        · rw [if_pos formats, ih makes.inv (by dsimp only; omega), and_iff_right formats]
        · rw [if_neg formats]
          exact ⟨fun never => absurd never Bool.false_ne_true, fun both => absurd both.2.1 formats⟩

theorem Inv.of_keys (inv : alloc.Inv) {grps : BlkGrps} (sound : Sound grps)
    (keys : grps.map Prod.fst = alloc.grps.map Prod.fst) : Inv ⟨grps, alloc.grpBmp⟩ where
  sound := sound
  counted := inv.counted
  count := by
    have lengths := congrArg List.length keys
    rw [length_map, length_map] at lengths
    show alloc.grpBmp.free + grps.length = blkgrpNumber
    rw [lengths]
    exact inv.count
  groups := by
    show ∀ dwGrpIdx < blkgrpNumber, (alloc.grpBmp.bytes.bitAt dwGrpIdx = true ↔ dwGrpIdx ∈ grps.map Prod.fst)
    rw [keys]
    exact inv.groups

theorem Inv.allocLoop_succ (inv : alloc.Inv) (wanted : 0 < dwRest) :
    BlkAlloc.allocLoop io (rounds + 1) dwRest alloc =
      let (taken, grps) := allocGrps dwRest alloc.grps
      if dwRest ≤ taken.length then (true, taken, ⟨grps, alloc.grpBmp⟩)
      else
        let (made, alloc) := grow io (dwRest - taken.length) ⟨grps, alloc.grpBmp⟩
        if made then
          let (ok, more, alloc) := BlkAlloc.allocLoop io rounds (dwRest - taken.length) alloc
          (ok, taken ++ more, alloc)
        else (false, taken, alloc) := by
  have count := (inv.of_keys (allocsGrps inv.sound wanted).sound (allocsGrps inv.sound wanted).keys).count
  rw [BlkAlloc.allocLoop]
  generalize allocGrps dwRest alloc.grps = result at *
  obtain ⟨taken, grps⟩ := result
  dsimp only at *
  rw [if_neg (by omega : ¬grps.length < blkgrpNumber - alloc.grpBmp.free)]

/-- A request takes blocks that were free, and nothing else changes. -/
structure Takes (io : BlockIo) (alloc : BlkAlloc) (dwRest : Nat) (ok : Bool) (taken : List Nat) (after : BlkAlloc) : Prop where
  takes : Extends alloc.grps taken after.grps
  length : ok = true → taken.length = dwRest
  inv : io.failing = [] → after.Inv

theorem Inv.takes_allocLoop (inv : alloc.Inv) {rounds dwRest : Nat} (wanted : 0 < dwRest) :
    Takes io alloc dwRest (BlkAlloc.allocLoop io rounds dwRest alloc).1 (BlkAlloc.allocLoop io rounds dwRest alloc).2.1
      (BlkAlloc.allocLoop io rounds dwRest alloc).2.2 := by
  induction rounds generalizing dwRest alloc with
  | zero => exact ⟨Extends.refl _, fun never => absurd never Bool.false_ne_true, fun _ => inv⟩
  | succ rounds ih =>
    have allocs := allocsGrps inv.sound wanted
    have between := inv.of_keys allocs.sound allocs.keys
    have few := allocs.few
    rw [inv.allocLoop_succ wanted]
    generalize allocGrps dwRest alloc.grps = result at *
    obtain ⟨taken, grps⟩ := result
    dsimp only at *
    by_cases enough : dwRest ≤ taken.length
    · rw [if_pos enough]
      exact ⟨allocs.takes, fun _ => Nat.le_antisymm few enough, fun _ => between⟩
    · have grown : Extends grps [] (grow io (dwRest - taken.length) ⟨grps, alloc.grpBmp⟩).2.grps :=
        between.extends_createGrps
      have works : io.failing = [] → (grow io (dwRest - taken.length) ⟨grps, alloc.grpBmp⟩).2.Inv :=
        fun works => between.createGrps_works works
      have grows : (grow io (dwRest - taken.length) ⟨grps, alloc.grpBmp⟩).1 = true →
          (grow io (dwRest - taken.length) ⟨grps, alloc.grpBmp⟩).2.Inv :=
        fun made => (between.createGrps made).inv
      rw [if_neg enough]
      generalize grow io (dwRest - taken.length) ⟨grps, alloc.grpBmp⟩ = result at *
      obtain ⟨made, later⟩ := result
      dsimp only at *
      have behind := allocs.takes.append grown
      rw [append_nil] at behind
      cases made with
      | false => exact ⟨behind, fun never => absurd never Bool.false_ne_true, works⟩
      | true =>
        obtain ⟨takes, length, inv⟩ := ih (grows rfl) (Nat.sub_pos_of_lt (Nat.not_le.1 enough))
        rw [if_pos rfl]
        refine ⟨behind.append takes, ?_, inv⟩
        intro ok
        rw [length_append, length ok]
        exact Nat.add_sub_cancel' (Nat.le_of_not_le enough)

theorem served_iff {gives : Nat → Nat} {free : List Nat} (few : gives 0 < dwRest) :
    Served io dwRest gives free ↔
      grpsFor (dwRest - gives 0) ≤ free.length ∧
        (∀ dwGrpIdx ∈ free.take (grpsFor (dwRest - gives 0)), io.formats dwGrpIdx = true) ∧
        Served io (dwRest - gives 0)
          (fun round => gives (round + 1) + grpsFor (dwRest - gives 0) * BlockBitmap.initBitmap.gives round)
          (free.drop (grpsFor (dwRest - gives 0))) := by
  constructor
  · intro served
    cases served with
    | taken enough => exact absurd few (Nat.not_lt.2 enough)
    | grown _ needed present written later =>
      rw [needed] at present written later
      exact ⟨present, written, later⟩
  · rintro ⟨present, written, later⟩
    exact .grown few rfl present written later

theorem Inv.allocLoop_iff (inv : alloc.Inv) (wanted : 0 < dwRest)
    (enough : alloc.grpBmp.freeGrps.length < rounds) :
    (BlkAlloc.allocLoop io rounds dwRest alloc).1 = true ↔ Served io dwRest
    (givesAll alloc.grps) alloc.grpBmp.freeGrps := by
  induction rounds generalizing dwRest alloc with
  | zero => exact absurd enough (Nat.not_lt_zero _)
  | succ rounds ih =>
    have allocs := allocsGrps inv.sound wanted
    have between := inv.of_keys allocs.sound allocs.keys
    obtain ⟨length, shifts⟩ := gives_allocGrps inv.sound wanted
    rw [inv.allocLoop_succ wanted]
    generalize allocGrps dwRest alloc.grps = result at *
    obtain ⟨taken, grps⟩ := result
    dsimp only at *
    by_cases all : dwRest ≤ givesAll alloc.grps 0
    · rw [if_pos (by omega)]
      exact ⟨fun _ => .taken all, fun _ => rfl⟩
    · have few := Nat.not_le.1 all
      have rest : dwRest - taken.length = dwRest - givesAll alloc.grps 0 := by omega
      have some : 0 < dwRest - givesAll alloc.grps 0 := Nat.sub_pos_of_lt few
      have made : (grow io (dwRest - taken.length) ⟨grps, alloc.grpBmp⟩).1 = true ↔ _ :=
        between.createGrps_iff (Nat.lt_succ_self _)
      have makes : (grow io (dwRest - taken.length) ⟨grps, alloc.grpBmp⟩).1 = true →
          MakesGrps _ _ (grow io (dwRest - taken.length) ⟨grps, alloc.grpBmp⟩).2 := between.makesGrps
      rw [if_neg (by omega)]
      rw [rest] at made makes ⊢
      generalize grow io (dwRest - givesAll alloc.grps 0) ⟨grps, alloc.grpBmp⟩ = result at *
      obtain ⟨isMade, later⟩ := result
      dsimp only at *
      rw [served_iff few]
      cases isMade with
      | false =>
        refine ⟨fun never => absurd never Bool.false_ne_true, ?_⟩
        rintro ⟨present, written, _⟩
        exact absurd (made.2 ⟨present, written⟩) Bool.false_ne_true
      | true =>
        obtain ⟨present, written⟩ := made.1 rfl
        obtain ⟨grows, free, gives⟩ := makes rfl
        have fewer : later.grpBmp.freeGrps.length < rounds := by
          have one := grpsFor_succ (Nat.ne_of_gt some)
          rw [free, length_drop]
          dsimp only
          omega
        have nextGives : givesAll later.grps = fun round => givesAll alloc.grps (round + 1) +
            grpsFor (dwRest - givesAll alloc.grps 0) * BlockBitmap.initBitmap.gives round := by
          funext round
          rw [gives round, shifts few round]
        have next := ih grows.inv some fewer
        rw [nextGives, free] at next
        rw [if_pos rfl]
        exact next.trans ⟨fun served => ⟨present, written, served⟩, fun both => both.2.2⟩

theorem Inv.allocBlocks_iff (inv : alloc.Inv) (wanted : 0 < dwNumBlocks) :
    (alloc.allocBlocks io dwNumBlocks).1 = true ↔
      Served io dwNumBlocks (givesAll alloc.grps) alloc.grpBmp.freeGrps := by
  have count := inv.count
  have few : blkgrpNumber ≤ blkgrpNumberFull := by decide
  rw [BlkAlloc.allocBlocks, if_neg (Nat.ne_of_gt wanted)]
  apply inv.allocLoop_iff wanted
  rw [inv.counted.length_freeGrps]
  omega

theorem Inv.takes_allocBlocks (inv : alloc.Inv) {dwNumBlocks : Nat} (wanted : 0 < dwNumBlocks) :
    Takes io alloc dwNumBlocks (alloc.allocBlocks io dwNumBlocks).1 (alloc.allocBlocks io dwNumBlocks).2.1
      (alloc.allocBlocks io dwNumBlocks).2.2 := by
  rw [BlkAlloc.allocBlocks, if_neg (Nat.ne_of_gt wanted)]
  exact inv.takes_allocLoop wanted

theorem Takes.met {taken : List Nat} {after : BlkAlloc}
    (takes : Takes io alloc dwNumBlocks true taken after) : alloc.Met dwNumBlocks taken after where
  length := takes.length rfl
  nodup := takes.takes.nodup
  allocatable blkIdx member := ⟨takes.takes.allocatable blkIdx member, (takes.takes.allocatable blkIdx member).ne_invalid⟩
  free := takes.takes.free
  marked blkIdx member := (takes.takes.state blkIdx (takes.takes.allocatable blkIdx member)).2 (.inr member)
  others blkIdx allocatable other := by
    have state := takes.takes.state blkIdx allocatable
    rw [or_iff_left other] at state
    exact state

def FitsRun (alloc : BlkAlloc) (run : ContBlks) : Prop :=
  run.first = 0 ∨ alloc.grpBmp.isBlockGroupFree (groupIndex run.first) = true ∨
    groupIndex run.first ∈ alloc.grps.map Prod.fst ∧
      ∀ grp ∈ alloc.grps, grp.1 = groupIndex run.first → grp.2.free ≠ BlockBitmap.blocks → grp.2.Frees run.blocks

instance (alloc : BlkAlloc) (run : ContBlks) : Decidable (alloc.FitsRun run) :=
  inferInstanceAs (Decidable (_ ∨ _ ∨ _ ∧ _))

def FitsRuns (io : BlockIo) : List ContBlks → BlkAlloc → Prop
  | [], _ => True
  | run :: rest, alloc => alloc.FitsRun run ∧ ((alloc.freeRun io run).map (FitsRuns io rest)).getD True

def decideFitsRuns (io : BlockIo) : (runs : List ContBlks) → (alloc : BlkAlloc) → Decidable (FitsRuns io runs alloc)
  | [], _ => isTrue trivial
  | run :: rest, alloc =>
    match inferInstanceAs (Decidable (alloc.FitsRun run)) with
    | isFalse never => isFalse fun both => never both.1
    | isTrue first =>
      match same : alloc.freeRun io run with
      | none => isTrue ⟨first, by rw [same]; trivial⟩
      | some next =>
        match decideFitsRuns io rest next with
        | isTrue later => isTrue ⟨first, by rw [same]; exact later⟩
        | isFalse never => isFalse fun both => never (by have later := both.2; rw [same] at later; exact later)

instance (io : BlockIo) (runs : List ContBlks) (alloc : BlkAlloc) : Decidable (FitsRuns io runs alloc) :=
  decideFitsRuns io runs alloc

/-- Every group that is made is written, and only blocks are freed that are taken. -/
def Fits (alloc : BlkAlloc) : Call → Prop
  | .allocBlocks io _ => io.failing = []
  | .freeBlocks io blkIdxs => FitsRuns io (findContigousBlocks blkIdxs) alloc

instance (alloc : BlkAlloc) (call : Call) : Decidable (alloc.Fits call) :=
  match call with
  | .allocBlocks io _ => inferInstanceAs (Decidable (io.failing = []))
  | .freeBlocks io blkIdxs => inferInstanceAs (Decidable (FitsRuns io (findContigousBlocks blkIdxs) alloc))

theorem Inv.changeGrp (inv : alloc.Inv) {dwGrpIdx : Nat} {change : BlockBitmap → BlockBitmap}
    (counted : ∀ grp ∈ alloc.grps, grp.1 = dwGrpIdx → (change grp.2).Counted) :
    Inv ⟨BlkAlloc.changeGrp dwGrpIdx change alloc.grps, alloc.grpBmp⟩ := by
  have keys : (BlkAlloc.changeGrp dwGrpIdx change alloc.grps).map Prod.fst = alloc.grps.map Prod.fst := by
    rw [BlkAlloc.changeGrp, map_map]
    apply map_congr_left
    intro grp _
    rw [Function.comp_apply]
    split
    · rfl
    · rfl
  apply inv.of_keys _ keys
  refine ⟨?_, ?_, ?_⟩
  · have sorted := pairwise_map.2 inv.sound.sorted
    rw [← keys] at sorted
    exact pairwise_map.1 sorted
  · intro grp member
    obtain ⟨old, among, same⟩ := mem_map.1 member
    rw [← same]
    split
    · rename_i key
      exact counted old among key
    · exact inv.sound.counted old among
  · intro grp member
    have key : grp.1 ∈ alloc.grps.map Prod.fst := keys ▸ mem_map_of_mem member
    obtain ⟨old, among, same⟩ := mem_map.1 key
    rw [← same]
    exact inv.sound.bounded old among

theorem Inv.freeRun (inv : alloc.Inv) {run : ContBlks} {next : BlkAlloc} (fits : alloc.FitsRun run)
    (freed : alloc.freeRun io run = some next) : next.Inv := by
  rw [BlkAlloc.freeRun] at freed
  by_cases first : run.first = 0
  · rw [if_pos first] at freed
    cases freed
    exact inv
  · rw [if_neg first] at freed
    by_cases free : alloc.grpBmp.isBlockGroupFree (groupIndex run.first) = true
    · rw [if_pos free] at freed
      cases freed
      exact inv
    · obtain ⟨present, frees⟩ := (fits.resolve_left first).resolve_left free
      rw [if_neg free, if_pos (contains_iff_mem.2 present)] at freed
      cases freed
      apply inv.changeGrp
      intro grp member key
      exact (inv.sound.counted grp member).freeBlocks (frees grp member key)

theorem Inv.freeRuns (inv : alloc.Inv) {runs : List ContBlks} (fits : FitsRuns io runs alloc) :
    (BlkAlloc.freeRuns io runs alloc).Inv := by
  induction runs generalizing alloc with
  | nil => exact inv
  | cons run rest ih =>
    rw [BlkAlloc.freeRuns]
    obtain ⟨first, later⟩ := fits
    cases freed : alloc.freeRun io run with
    | none => exact inv
    | some next =>
      rw [freed] at later
      exact ih (inv.freeRun first freed) later

theorem inv_format : format.Inv := by
  have empty : Inv ⟨[], GroupBitmap.format⟩ := by
    have clear : ∀ dwGrpIdx < blkgrpNumber, GroupBitmap.format.bytes.bitAt dwGrpIdx = false := by
      intro dwGrpIdx below
      have byte : GroupBitmap.format.bytes (dwGrpIdx / 8) = 0 := by
        have size : grpbmpSize = 512 := by decide
        have last : blkgrpNumber = 4080 := by decide
        rw [GroupBitmap.format]
        dsimp only
        rw [storeCount, size, if_neg (by omega), if_neg (by omega)]
      rw [Bytes.bitAt, byte]
      exact BitVec.getLsbD_zero
    refine ⟨⟨List.Pairwise.nil, ?_, ?_⟩, ?_, rfl, ?_⟩
    · exact forall_mem_nil _
    · exact forall_mem_nil _
    · have all : (GroupBitmap.format.bytes.clearBits 0 blkgrpNumber).card = blkgrpNumber :=
        Bytes.card_of_clear fun dwGrpIdx _ below => clear dwGrpIdx below
      exact all.symm
    · intro dwGrpIdx below
      rw [clear dwGrpIdx below]
      exact ⟨fun never => absurd never Bool.false_ne_true, fun member => absurd member not_mem_nil⟩
  obtain ⟨dwGrpIdx, grpBmp, makes⟩ := empty.makes (by decide : 0 < GroupBitmap.format.free)
  have made : format = ⟨insertGrp dwGrpIdx BlockBitmap.initBitmap [], grpBmp⟩ := by
    rw [format, makes.answer]
    rfl
  rw [made]
  exact makes.inv

theorem inv_of_fits (reached : (machine.restrict Fits).Reachable alloc) : alloc.Inv := by
  apply @Machine.Reachable.invariant _ _ _ Inv _ reached
  · exact inv_format
  · intro state call next _ inv moved
    obtain ⟨fits, moved⟩ := Machine.restrict_step.1 moved
    cases call with
    | freeBlocks io blkIdxs =>
      cases moved
      exact inv.freeRuns fits
    | allocBlocks io dwNumBlocks =>
      cases moved
      by_cases none : dwNumBlocks = 0
      · rw [BlkAlloc.allocBlocks, if_pos none]
        exact inv
      · exact (inv.takes_allocBlocks (Nat.pos_of_ne_zero none)).inv fits

/-- A request for no more blocks than there are is met if and only if its rounds end with them. -/
theorem met_iff (reached : (machine.restrict Fits).Reachable alloc) (io : BlockIo)
    {dwNumBlocks : Nat}
    (wanted : 0 < dwNumBlocks) :
    alloc.Good io dwNumBlocks ↔
      (dwNumBlocks ≤ alloc.available → Served io dwNumBlocks (givesAll alloc.grps) alloc.grpBmp.freeGrps) := by
  have inv := inv_of_fits reached
  constructor
  · intro good few
    obtain ⟨taken, after, answer, _⟩ := good few
    apply (inv.allocBlocks_iff wanted).1
    rw [answer]
  · intro served few
    have ok := (inv.allocBlocks_iff wanted).2 (served few)
    have takes := @Inv.takes_allocBlocks alloc io inv dwNumBlocks wanted
    refine ⟨_, _, Prod.ext ok rfl, ?_⟩
    rw [ok] at takes
    exact takes.met

/-- Blocks are taken, and one of them is freed. -/
theorem met_twoBlocks : ∃ alloc : BlkAlloc, alloc.available = 65504 * 4080 - 1 ∧ alloc.Good .works 2 := by
  have ran : ((machine.restrict Fits).run format [.allocBlocks .works 2, .freeBlocks .works [17]]).map
      (fun alloc => (alloc.available, decide (2 ≤ givesAll alloc.grps 0))) = some (65504 * 4080 - 1, true) := by
    decide +kernel
  obtain ⟨alloc, run, same⟩ := Option.map_eq_some_iff.1 ran
  have available := congrArg Prod.fst same
  have enough := of_decide_eq_true (congrArg Prod.snd same)
  exact ⟨alloc, available, (met_iff (Machine.Reachable.start.run run) .works (by decide)).2 fun _ => .taken enough⟩

theorem givesAll_le (grps : BlkGrps) (round : Nat) : givesAll grps round ≤ 8 * blkbmpWords * grps.length := by
  induction grps with
  | nil => exact Nat.zero_le _
  | cons grp grps ih =>
    have first := BlockBitmap.gives_le_words grp.2 round
    have split : givesAll (grp :: grps) round = grp.2.gives round + givesAll grps round := sum_cons
    rw [split, length_cons, Nat.mul_succ]
    omega

theorem not_served_format : ¬Served .works (65504 * 4080) (givesAll format.grps) format.grpBmp.freeGrps := by
  have most := givesAll_le format.grps 0
  have one : format.grps.length = 1 := by decide +kernel
  have free : format.grpBmp.free = 4079 := by decide +kernel
  have words : blkbmpWords = 1024 := by decide
  have size : BlockBitmap.blocks = 65504 := by decide
  rw [one, words] at most
  rw [served_iff (by omega), inv_format.counted.length_freeGrps, free, grpsFor, size]
  rintro ⟨few, _⟩
  omega

/-- A request for every block of a new file system fails. -/
theorem wholeDisk_fails :
    ¬∀ alloc : BlkAlloc, machine.Reachable alloc → ∀ dwNumBlocks, 0 < dwNumBlocks → alloc.Good .works dwNumBlocks := by
  intro good
  have all : format.available = 65504 * 4080 := by decide +kernel
  have wanted : 0 < 65504 * 4080 := by decide
  obtain ⟨taken, after, answer, _⟩ := good format .start (65504 * 4080) wanted (Nat.le_of_eq all.symm)
  apply not_served_format
  apply (inv_format.allocBlocks_iff wanted).1
  rw [answer]

/-! ### Requests that fail -/

def Untouched (io : BlockIo) (dwNumBlocks : Nat) (alloc : BlkAlloc) : Prop :=
  (alloc.allocBlocks io dwNumBlocks).1 = false → (alloc.allocBlocks io dwNumBlocks).2.2 = alloc

def Full (alloc : BlkAlloc) : Prop := alloc.grpBmp.free = 0 ∧ ∀ grp ∈ alloc.grps, grp.2.free = 0

theorem Inv.free_allocLoop (inv : alloc.Inv) {rounds dwRest : Nat} (wanted : 0 < dwRest) :
    (BlkAlloc.allocLoop io rounds dwRest alloc).2.2.grpBmp.free ≤ alloc.grpBmp.free := by
  induction rounds generalizing dwRest alloc with
  | zero => exact Nat.le_refl _
  | succ rounds ih =>
    have allocs := allocsGrps inv.sound wanted
    have between := inv.of_keys allocs.sound allocs.keys
    rw [inv.allocLoop_succ wanted]
    generalize allocGrps dwRest alloc.grps = result at *
    obtain ⟨taken, grps⟩ := result
    dsimp only at *
    by_cases enough : dwRest ≤ taken.length
    · rw [if_pos enough]
    · have fewer : (grow io (dwRest - taken.length) ⟨grps, alloc.grpBmp⟩).2.grpBmp.free ≤ alloc.grpBmp.free :=
        between.free_createGrps.1
      have grows : (grow io (dwRest - taken.length) ⟨grps, alloc.grpBmp⟩).1 = true →
          (grow io (dwRest - taken.length) ⟨grps, alloc.grpBmp⟩).2.Inv :=
        fun made => (between.createGrps made).inv
      rw [if_neg enough]
      generalize grow io (dwRest - taken.length) ⟨grps, alloc.grpBmp⟩ = result at *
      obtain ⟨made, later⟩ := result
      dsimp only at *
      cases made with
      | false => exact fewer
      | true =>
        have rest := @ih later (grows rfl) (dwRest - taken.length) (by omega)
        exact Nat.le_trans rest fewer

theorem Inv.some_allocLoop (inv : alloc.Inv) {rounds dwRest : Nat} (wanted : 0 < dwRest)
    (running : 0 < rounds)
    (free : ∃ grp ∈ alloc.grps, 0 < grp.2.free) : (BlkAlloc.allocLoop io rounds dwRest alloc).2.1 ≠
    [] := by
  obtain ⟨rounds, same⟩ := Nat.exists_eq_succ_of_ne_zero (Nat.ne_of_gt running)
  have progress := (allocsGrps inv.sound wanted).progress free
  rw [same, inv.allocLoop_succ wanted]
  dsimp only
  split
  · exact progress
  · split
    · exact append_ne_nil_of_left_ne_nil progress _
    · exact progress

theorem Inv.less_allocLoop (inv : alloc.Inv) {rounds dwRest : Nat} (wanted : 0 < dwRest)
    (running : 0 < rounds)
    (full : ∀ grp ∈ alloc.grps, grp.2.free = 0) (free : 0 < alloc.grpBmp.free) :
    (BlkAlloc.allocLoop io rounds dwRest alloc).2.2.grpBmp.free < alloc.grpBmp.free := by
  obtain ⟨rounds, same⟩ := Nat.exists_eq_succ_of_ne_zero (Nat.ne_of_gt running)
  rw [same, inv.allocLoop_succ wanted, allocGrps_full full]
  dsimp only
  rw [length_nil, Nat.sub_zero, if_neg (Nat.not_le.2 wanted)]
  have fewer : (grow io dwRest alloc).2.grpBmp.free < alloc.grpBmp.free :=
    inv.free_createGrps.2 (Nat.succ_pos _) wanted free
  have grows : (grow io dwRest alloc).1 = true → (grow io dwRest alloc).2.Inv := fun made => (inv.createGrps made).inv
  generalize grow io dwRest alloc = result at *
  obtain ⟨made, later⟩ := result
  dsimp only at *
  cases made with
  | false => exact fewer
  | true =>
    have rest := @Inv.free_allocLoop later io (grows rfl) rounds dwRest wanted
    exact Nat.lt_of_le_of_lt rest fewer

theorem Inv.full_allocLoop (inv : alloc.Inv) (wanted : 0 < dwRest) (full : alloc.Full) :
    (BlkAlloc.allocLoop io rounds dwRest alloc).2.2 = alloc := by
  cases rounds with
  | zero => rfl
  | succ rounds =>
    have none : grow io dwRest alloc = (false, alloc) := by
      rw [grow, BlkAlloc.createGrps, if_neg (Nat.ne_of_gt wanted), GroupBitmap.allocGroup_none full.1]
    rw [inv.allocLoop_succ wanted, allocGrps_full full.2]
    dsimp only
    rw [length_nil, Nat.sub_zero, if_neg (Nat.not_le.2 wanted), none]
    rfl

theorem Inv.keeps_iff (inv : alloc.Inv) (io : BlockIo) (dwNumBlocks : Nat) :
    alloc.Untouched io dwNumBlocks ↔
      dwNumBlocks = 0 ∨ Served io dwNumBlocks (givesAll alloc.grps) alloc.grpBmp.freeGrps ∨ alloc.Full := by
  by_cases none : dwNumBlocks = 0
  · refine ⟨fun _ => .inl none, fun _ _ => ?_⟩
    rw [BlkAlloc.allocBlocks, if_pos none]
  · have wanted : 0 < dwNumBlocks := Nat.pos_of_ne_zero none
    have running : 0 < dwNumBlocks + blkgrpNumberFull + 1 := Nat.succ_pos _
    have call : alloc.allocBlocks io dwNumBlocks =
        BlkAlloc.allocLoop io (dwNumBlocks + blkgrpNumberFull + 1) dwNumBlocks alloc := by
      rw [BlkAlloc.allocBlocks, if_neg none]
    rw [or_iff_right none, ← inv.allocBlocks_iff wanted, Untouched, call]
    constructor
    · intro untouched
      cases ok : (BlkAlloc.allocLoop io (dwNumBlocks + blkgrpNumberFull + 1) dwNumBlocks alloc).1 with
      | true => exact .inl rfl
      | false =>
        have same := untouched ok
        have takes := (@Inv.takes_allocLoop alloc io inv (dwNumBlocks + blkgrpNumberFull + 1) dwNumBlocks wanted).takes
        have full : ∀ grp ∈ alloc.grps, grp.2.free = 0 := by
          intro grp member
          apply Nat.eq_zero_of_not_pos
          intro free
          have some := @Inv.some_allocLoop alloc io inv _ dwNumBlocks wanted running ⟨grp, member, free⟩
          obtain ⟨blkIdx, among⟩ := exists_mem_of_ne_nil _ some
          rw [same] at takes
          have taken := (takes.state blkIdx (takes.allocatable blkIdx among)).2 (.inr among)
          exact takes.free blkIdx among taken
        refine .inr ⟨?_, full⟩
        apply Nat.eq_zero_of_not_pos
        intro free
        have less := @Inv.less_allocLoop alloc io inv _ dwNumBlocks wanted running full free
        rw [same] at less
        exact Nat.lt_irrefl _ less
    · rintro (ok | full) failed
      · exact absurd (ok.symm.trans failed) Bool.noConfusion
      · exact inv.full_allocLoop wanted full

/-- A request that fails changes nothing if and only if it is for no block, its rounds end well, or
there is nothing left. -/
theorem untouched_iff (reached : (machine.restrict Fits).Reachable alloc) (io : BlockIo)
    (dwNumBlocks : Nat) :
    alloc.Untouched io dwNumBlocks ↔
      dwNumBlocks = 0 ∨ Served io dwNumBlocks (givesAll alloc.grps) alloc.grpBmp.freeGrps ∨ alloc.Full :=
  (inv_of_fits reached).keeps_iff io dwNumBlocks

/-- A request ends well, behind others. -/
theorem untouched_threeBlocks : ∃ alloc : BlkAlloc, alloc.available = 65504 * 4080 - 2 ∧ alloc.Untouched .works 3 := by
  have ran : ((machine.restrict Fits).run format [.allocBlocks .works 0, .allocBlocks .works 2]).map
      (fun alloc => (alloc.available, decide (3 ≤ givesAll alloc.grps 0))) = some (65504 * 4080 - 2, true) := by
    decide +kernel
  obtain ⟨alloc, run, same⟩ := Option.map_eq_some_iff.1 ran
  have available := congrArg Prod.fst same
  have enough := of_decide_eq_true (congrArg Prod.snd same)
  exact ⟨alloc, available, (untouched_iff (Machine.Reachable.start.run run) .works 3).2 (.inr (.inl (.taken enough)))⟩

/-- A request for every block of a new file system keeps what it took. -/
theorem failedRequest_keepsBlocks :
    ¬∀ alloc : BlkAlloc, machine.Reachable alloc → ∀ dwNumBlocks, alloc.Untouched .works dwNumBlocks := by
  intro untouched
  have free : format.grpBmp.free = 4079 := by decide +kernel
  rcases (inv_format.keeps_iff .works (65504 * 4080)).1 (untouched format .start (65504 * 4080)) with none | served | full
  · exact absurd none (by decide)
  · exact not_served_format served
  · exact absurd (free.symm.trans full.1) (by decide)

end BlkAlloc

end RpcFrmwrk.Registry
