import RpcFrmwrk.Registry.CacheRequests

/-! The cache and the file together are an array of blocks. Owns `Allocator.Sound`, the invariant of
the cache, and `Allocator.view`, the array; the effect of `cacheBlocks` on the array, and what
`readCache` copies out of it. -/

namespace RpcFrmwrk.Registry

open RpcFrmwrk.Library List

def Backed (runs : List (Extent Block)) (part : ContBlks) : Prop :=
  ∃ run ∈ runs, part.key = run.first ∧ run.first ≤ part.first ∧ part.second ≤ run.last

theorem Backed.of_shape {left right : List (Extent Block)} (same : shape left = shape right)
    {part : ContBlks} (backed : Backed right part) : Backed left part := by
  obtain ⟨run, member, key, lower, upper⟩ := backed
  obtain ⟨other, found, first, last⟩ := exists_of_shape same member
  exact ⟨other, found, by rw [first, key], by rw [first]; exact lower, by rw [last]; exact upper⟩

variable {runs : List (Extent Block)} {blkIdx : Nat} {alloc : Allocator}

theorem find_backed (ordered : Ordered runs) {part : ContBlks}
    (backed : Backed runs part) :
    ∃ run ∈ runs, runs.find? (fun run => run.first == part.key) = some run ∧
      part.key = run.first ∧ run.first ≤ part.first ∧ part.second ≤ run.last := by
  obtain ⟨run, member, key, lower, upper⟩ := backed
  have found : (runs.find? fun run => run.first == part.key).isSome :=
    List.find?_isSome.2 ⟨run, member, by simp [key]⟩
  obtain ⟨other, equal⟩ := Option.isSome_iff_exists.1 found
  have otherMember := mem_of_find?_eq_some equal
  have otherKey := List.find?_some equal
  rw [beq_iff_eq] at otherKey
  have same := ordered.eq_of_first_eq otherMember member (by rw [otherKey, key])
  subst same
  exact ⟨other, member, equal, key, lower, upper⟩

section Hits

variable {runs : List (Extent Block)} {part : ContBlks}

theorem storeHit_spec (buf : List Block) (bytes : Nat) (ordered : Ordered runs)
    (backed : Backed runs part) (nonempty : part.first < part.second)
    (inside : part.off + (part.second - part.first) ≤ buf.length)
    (plain : isSpecial part.first = false) :
    shape (storeHit buf (runs, bytes) part).1 = shape runs ∧
      Ordered (storeHit buf (runs, bytes) part).1 ∧
      ∀ blkIdx, (part.Holds blkIdx →
          lookup (storeHit buf (runs, bytes) part).1 blkIdx = buf[part.off + (blkIdx - part.first)]?) ∧
        (¬ part.Holds blkIdx → lookup (storeHit buf (runs, bytes) part).1 blkIdx = lookup runs blkIdx) := by
  obtain ⟨run, member, found, key, lower, upper⟩ := find_backed ordered backed
  have length := length_slice inside
  unfold Extent.last at upper
  have room : part.first - run.first + (slice buf part.off (part.second - part.first)).length ≤
      run.items.length := by
    rw [length]
    omega
  have after : (storeHit buf (runs, bytes) part).1 = overwrite runs run.first
      (part.first - run.first) (slice buf part.off (part.second - part.first)) := by
    simp only [storeHit, plain, Bool.false_eq_true, if_false, found,
      if_neg (by omega : ¬ run.items.length < part.first - run.first)]
  rw [after]
  refine ⟨shape_overwrite ordered member room, ordered_overwrite ordered member room, ?_⟩
  intro blkIdx
  have result := lookup_overwrite ordered member room blkIdx
  rw [length] at result
  unfold ContBlks.Holds
  constructor
  · intro holds
    rw [result, if_pos (by omega), getElem?_slice, if_pos (by omega)]
    congr 1
    omega
  · intro outside
    rw [result, if_neg (by omega)]

theorem storeHits_spec (buf : List Block) (bytes : Nat) {commons : List ContBlks}
    (ordered : Ordered runs) (ascending : Ascending commons)
    (backed : ∀ part ∈ commons, Backed runs part)
    (inside : ∀ part ∈ commons, part.off + (part.second - part.first) ≤ buf.length)
    (plain : ∀ part ∈ commons, isSpecial part.first = false) :
    shape (commons.foldl (storeHit buf) (runs, bytes)).1 = shape runs ∧
      Ordered (commons.foldl (storeHit buf) (runs, bytes)).1 ∧
      ∀ blkIdx, (∀ part ∈ commons, part.Holds blkIdx →
          lookup (commons.foldl (storeHit buf) (runs, bytes)).1 blkIdx =
            buf[part.off + (blkIdx - part.first)]?) ∧
        ((∀ part ∈ commons, ¬ part.Holds blkIdx) →
          lookup (commons.foldl (storeHit buf) (runs, bytes)).1 blkIdx = lookup runs blkIdx) := by
  induction commons generalizing runs bytes with
  | nil => exact ⟨rfl, ordered, fun blkIdx => ⟨by simp, fun _ => rfl⟩⟩
  | cons part commons ih =>
    obtain ⟨sameShape, hereOrdered, here⟩ := storeHit_spec buf bytes ordered
      (backed part mem_cons_self) (ascending.nonempty part mem_cons_self)
      (inside part mem_cons_self) (plain part mem_cons_self)
    rw [foldl_cons]
    obtain ⟨laterShape, laterOrdered, later⟩ := ih
      (storeHit buf (runs, bytes) part).2 hereOrdered ascending.tail
      (fun other member => (backed other (mem_cons_of_mem part member)).of_shape sameShape)
      (fun other member => inside other (mem_cons_of_mem part member))
      (fun other member => plain other (mem_cons_of_mem part member))
    refine ⟨laterShape.trans sameShape, laterOrdered, fun blkIdx => ⟨?_, ?_⟩⟩
    · intro other member holds
      rcases mem_cons.1 member with rfl | member
      · rw [(later blkIdx).2, (here blkIdx).1 holds]
        intro third thirdMember thirdHolds
        have apart := ascending.head third thirdMember
        unfold ContBlks.Holds at holds thirdHolds
        omega
      · exact (later blkIdx).1 other member holds
    · intro outside
      rw [(later blkIdx).2 fun other member => outside other (mem_cons_of_mem part member),
        (here blkIdx).2 (outside part mem_cons_self)]

end Hits

theorem storeNew_spec (buf : List Block) (bytes : Nat) {news : List ContBlks}
    (ordered : Ordered runs) (ascending : Ascending news)
    (apart : ∀ part ∈ news, ∀ run ∈ runs, run.last ≤ part.first ∨ part.second ≤ run.first)
    (inside : ∀ part ∈ news, part.off + (part.second - part.first) ≤ buf.length)
    (small : ∀ part ∈ news, (part.second - part.first) * blockSize ≤ maxBytesPerBuffer) :
    ∃ total, (storeNew buf news (runs, bytes)).1 = .ok total ∧
      Ordered (storeNew buf news (runs, bytes)).2 ∧
      (∀ run ∈ (storeNew buf news (runs, bytes)).2, run ∈ runs ∨
        ∃ part ∈ news, run.first = part.first ∧ run.last = part.second) ∧
      ∀ blkIdx, (∀ part ∈ news, part.Holds blkIdx →
          lookup (storeNew buf news (runs, bytes)).2 blkIdx = buf[part.off + (blkIdx - part.first)]?) ∧
        ((∀ part ∈ news, ¬ part.Holds blkIdx) →
          lookup (storeNew buf news (runs, bytes)).2 blkIdx = lookup runs blkIdx) := by
  induction news generalizing runs bytes with
  | nil =>
    exact ⟨bytes, rfl, ordered, fun run member => .inl member, fun blkIdx => ⟨by simp, fun _ => rfl⟩⟩
  | cons part news ih =>
    have nonempty := ascending.nonempty part mem_cons_self
    have length := length_slice (inside part mem_cons_self)
    have fits := small part mem_cons_self
    let fresh : Extent Block := ⟨part.first, slice buf part.off (part.second - part.first)⟩
    have last : fresh.last = part.second := by
      show part.first + (slice _ _ _).length = _
      rw [length]
      omega
    have positive : 0 < fresh.items.length := by
      show 0 < (slice _ _ _).length
      omega
    have disjoint : Apart runs fresh := by
      intro run member
      rw [last]
      exact apart part mem_cons_self run member
    have members := mem_emplace ordered positive disjoint
    rw [storeNew]
    simp only [if_neg (Nat.not_lt.2 fits)]
    obtain ⟨total, ok, laterOrdered, laterRuns, later⟩ := ih
      (bytes + (part.second - part.first) * blockSize)
      (ordered_emplace ordered positive disjoint) ascending.tail
      (by
        intro other member run runMember
        rcases (members run).1 runMember with rfl | runMember
        · rw [last]
          exact .inl (ascending.head other member)
        · exact apart other (mem_cons_of_mem part member) run runMember)
      (fun other member => inside other (mem_cons_of_mem part member))
      (fun other member => small other (mem_cons_of_mem part member))
    have here : ∀ blkIdx,
        (part.Holds blkIdx → lookup (emplace runs fresh) blkIdx = buf[part.off + (blkIdx - part.first)]?) ∧
        (¬ part.Holds blkIdx → lookup (emplace runs fresh) blkIdx = lookup runs blkIdx) := by
      intro blkIdx
      have found := lookup_emplace ordered positive disjoint blkIdx
      rw [last] at found
      refine ⟨fun holds => ?_, fun outside => found.trans (if_neg outside)⟩
      refine found.trans ((if_pos holds).trans ?_)
      unfold ContBlks.Holds at holds
      show (slice _ _ _)[blkIdx - part.first]? = _
      rw [getElem?_slice, if_pos (by omega)]
    refine ⟨total, ok, laterOrdered, ?_, fun blkIdx => ⟨?_, ?_⟩⟩
    · intro run member
      rcases laterRuns run member with old | ⟨other, otherMember, same⟩
      · rcases (members run).1 old with rfl | old
        · exact .inr ⟨part, mem_cons_self, rfl, last⟩
        · exact .inl old
      · exact .inr ⟨other, mem_cons_of_mem part otherMember, same⟩
    · intro other member holds
      rcases mem_cons.1 member with rfl | member
      · rw [(later blkIdx).2, (here blkIdx).1 holds]
        intro third thirdMember thirdHolds
        have after := ascending.head third thirdMember
        unfold ContBlks.Holds at holds thirdHolds
        omega
      · exact (later blkIdx).1 other member holds
    · intro outside
      rw [(later blkIdx).2 fun other member => outside other (mem_cons_of_mem part member),
        (here blkIdx).2 (outside part mem_cons_self)]

/-! ### Parts of a request -/

section Parts

variable {intervals : List ContBlks} {blocks : List Nat} {runs : List (Extent Block)}

theorem Places.part (places : Places intervals blocks) {interval part : ContBlks}
    (member : interval ∈ intervals) (inside : part.Inside interval) (blkIdx : Nat)
    (holds : part.Holds blkIdx) : blocks[part.off + (blkIdx - part.first)]? = some blkIdx := by
  obtain ⟨lower, nonempty, upper, aligned⟩ := inside
  unfold ContBlks.Holds at holds
  have found := places.sound interval member blkIdx ⟨by omega, by omega⟩
  rw [← found]
  congr 1
  omega

theorem Places.bounds (places : Places intervals blocks) {interval part : ContBlks}
    (member : interval ∈ intervals) (inside : part.Inside interval) :
    part.off + (part.second - part.first) ≤ blocks.length ∧ part.first ∈ blocks ∧ part.second - 1 ∈ blocks := by
  have nonempty := inside.nonempty
  have first := places.part member inside _ ⟨Nat.le_refl _, nonempty⟩
  have last := places.part member inside (part.second - 1) ⟨by omega, by omega⟩
  obtain ⟨bound, _⟩ := List.getElem?_eq_some_iff.1 last
  exact ⟨by omega, mem_of_getElem? first, mem_of_getElem? last⟩

theorem split_request (places : Places intervals blocks) (ordered : Ordered runs) :
    Intersects intervals runs (intersectIntervals intervals runs) ∧
      Subtracts intervals (intersectIntervals intervals runs)
        (subtractIntervals intervals (intersectIntervals intervals runs)) ∧
      (∀ part ∈ subtractIntervals intervals (intersectIntervals intervals runs), ∀ run ∈ runs,
        run.last ≤ part.first ∨ part.second ≤ run.first) ∧
      ∀ pos blkIdx, blocks[pos]? = some blkIdx → blkIdx ≠ invalidBlockIdx →
        (∃ part ∈ intersectIntervals intervals runs, part.Holds blkIdx ∧
          pos = part.off + (blkIdx - part.first)) ∨
        ∃ part ∈ subtractIntervals intervals (intersectIntervals intervals runs),
          part.Holds blkIdx ∧ pos = part.off + (blkIdx - part.first) := by
  have commons := intersects_intervals places.ascending ordered
  have news := subtracts_intervals places.ascending commons.ascending (by
    intro part member
    obtain ⟨interval, found, _, _, cached⟩ := commons.sound part member
    exact ⟨interval, found, cached.first_le, cached.second_le⟩)
  refine ⟨commons, news, ?_, ?_⟩
  · intro part member run runMember
    obtain ⟨interval, found, inside⟩ := news.sound part member
    have nonempty := inside.nonempty
    have runNonempty := ordered.nonempty run runMember
    by_contra overlap
    -- the first index both hold would be in a cached part
    have lower := inside.first_le
    have upper := inside.second_le
    unfold Extent.last at overlap
    obtain ⟨common, commonMember, holds⟩ := commons.complete interval found run runMember
      (max part.first run.first) ⟨by omega, by omega⟩ (by omega) (by unfold Extent.last; omega)
    have apart := news.apart part member common commonMember
    unfold ContBlks.Holds at holds
    omega
  · intro pos blkIdx at? proper
    obtain ⟨interval, found, holds, place⟩ := places.complete pos blkIdx at? proper
    have aligned : ∀ part whole : ContBlks, whole ∈ intervals → part.Inside whole →
        part.Holds blkIdx → pos = part.off + (blkIdx - part.first) := by
      intro part whole wholeMember inside partHolds
      obtain ⟨lower, nonempty, upper, offset⟩ := inside
      unfold ContBlks.Holds at partHolds
      have same := places.ascending.eq_of_common wholeMember found blkIdx ⟨by omega, by omega⟩ holds
      subst same
      unfold ContBlks.Holds at holds
      omega
    by_cases cached : ∃ common ∈ intersectIntervals intervals runs, common.Holds blkIdx
    · obtain ⟨common, member, commonHolds⟩ := cached
      obtain ⟨whole, wholeMember, _, _, part⟩ := commons.sound common member
      exact .inl ⟨common, member, commonHolds, aligned common whole wholeMember part.toInside commonHolds⟩
    · obtain ⟨part, member, partHolds⟩ := news.complete interval found blkIdx holds
        fun common member commonHolds => cached ⟨common, member, commonHolds⟩
      obtain ⟨whole, wholeMember, inside⟩ := news.sound part member
      exact .inr ⟨part, member, partHolds, aligned part whole wholeMember inside partHolds⟩

end Parts

def Indexed (runs : List (Extent Block)) : Prop :=
  ∀ run ∈ runs, run.last ≤ addressable ∨ (isSpecial run.first = true ∧ run.last = run.first + 1)

theorem isSpecial_of_lt (small : blkIdx < addressable) : isSpecial blkIdx = false := by
  unfold addressable at small
  unfold isSpecial superBlkIdx grpbmpBlkIdx
  simp only [Bool.or_eq_false_iff, beq_eq_false_iff_ne, ne_eq]
  omega

/-- The members a request works on are consistent. -/
structure Allocator.Sound (alloc : Allocator) : Prop where
  ordered : Ordered alloc.dirtyBlks
  indexed : Indexed alloc.dirtyBlks

/-- The next allocator holds the buffer at the indices of the list, and what it
held elsewhere. -/
structure Stored (alloc next : Allocator) (blocks : List Nat) (buf : List Block) : Prop where
  sound : next.Sound
  file : next.file = alloc.file
  errno : next.errno = alloc.errno
  written : ∀ (pos blkIdx : Nat), blocks[pos]? = some blkIdx →
    lookup next.dirtyBlks blkIdx = buf[pos]?
  kept : ∀ blkIdx, blkIdx ∉ blocks → lookup next.dirtyBlks blkIdx = lookup alloc.dirtyBlks blkIdx

theorem cacheBlocks_plain (sound : alloc.Sound) {blocks : List Nat}
    {buf : List Block} {contigous : Bool} (nonempty : blocks ≠ [])
    (places : Places (requestIntervals contigous blocks) blocks)
    (small : ∀ blkIdx ∈ blocks, blkIdx < addressable)
    (proper : invalidBlockIdx ∉ blocks)
    (fits : ∀ elem ∈ requestIntervals contigous blocks,
      (elem.second - elem.first) * blockSize ≤ maxBytesPerBuffer)
    (length : buf.length = blocks.length) :
    ∃ total next, cacheBlocks alloc blocks buf contigous = some (.ok total, next) ∧
      Stored alloc next blocks buf := by
  obtain ⟨commons, news, apart, complete⟩ := split_request places sound.ordered
  have commonInside : ∀ part ∈ intersectIntervals (requestIntervals contigous blocks)
      alloc.dirtyBlks, ∃ interval ∈ requestIntervals contigous blocks, part.Inside interval := by
    intro part member
    obtain ⟨interval, found, _, _, cached⟩ := commons.sound part member
    exact ⟨interval, found, cached.toInside⟩
  have hits := storeHits_spec buf 0 sound.ordered commons.ascending
    (by
      intro part member
      obtain ⟨interval, _, run, runMember, cached⟩ := commons.sound part member
      exact ⟨run, runMember, cached.key, cached.run_first_le, cached.run_last_ge⟩)
    (by
      intro part member
      obtain ⟨interval, found, inside⟩ := commonInside part member
      rw [length]
      exact (places.bounds found inside).1)
    (by
      intro part member
      obtain ⟨interval, found, inside⟩ := commonInside part member
      exact isSpecial_of_lt (small _ (places.bounds found inside).2.1))
  obtain ⟨sameShape, hitsOrdered, hitsLookup⟩ := hits
  obtain ⟨total, ok, ordered, runs, newLookup⟩ := storeNew_spec buf
    ((intersectIntervals (requestIntervals contigous blocks) alloc.dirtyBlks).foldl
      (storeHit buf) (alloc.dirtyBlks, 0)).2 hitsOrdered news.ascending
    (by
      intro part member run runMember
      obtain ⟨other, otherMember, first, last⟩ := exists_of_shape sameShape.symm runMember
      rw [← first, ← last]
      exact apart part member other otherMember)
    (by
      intro part member
      obtain ⟨interval, found, inside⟩ := news.sound part member
      rw [length]
      exact (places.bounds found inside).1)
    (by
      intro part member
      obtain ⟨interval, found, inside⟩ := news.sound part member
      refine Nat.le_trans (Nat.mul_le_mul_right _ ?_) (fits interval found)
      have lower := inside.first_le
      have upper := inside.second_le
      omega)
  have noAbort : (intersectIntervals (requestIntervals contigous blocks) alloc.dirtyBlks).any
      (fun elem => elem.first == invalidBlockIdx) = false := by
    rw [any_eq_false]
    intro part member isHole
    rw [beq_iff_eq] at isHole
    obtain ⟨interval, found, inside⟩ := commonInside part member
    exact proper (isHole ▸ (places.bounds found inside).2.1)
  have value : cacheBlocks alloc blocks buf contigous = some (.ok total, { alloc with
      dirtyBlks := (storeNew buf (subtractIntervals (requestIntervals contigous blocks)
        (intersectIntervals (requestIntervals contigous blocks) alloc.dirtyBlks))
        ((intersectIntervals (requestIntervals contigous blocks) alloc.dirtyBlks).foldl
          (storeHit buf) (alloc.dirtyBlks, 0))).2 }) := by
    obtain ⟨first, tail, rfl⟩ := exists_cons_of_ne_nil nonempty
    have plain := isSpecial_of_lt (small first mem_cons_self)
    simp only [cacheBlocks, plain, noAbort, Bool.false_eq_true, if_false]
    rw [← ok]
  refine ⟨total, _, value, ⟨ordered, ?_⟩, rfl, rfl, ?_, ?_⟩
  · intro run member
    rcases runs run member with old | ⟨part, partMember, first, last⟩
    · obtain ⟨other, otherMember, sameFirst, sameLast⟩ := exists_of_shape sameShape.symm old
      rw [← sameFirst, ← sameLast]
      exact sound.indexed other otherMember
    · obtain ⟨interval, found, inside⟩ := news.sound part partMember
      have bound := small _ (places.bounds found inside).2.2
      exact .inl (by omega)
  · intro pos blkIdx at?
    have notHole : blkIdx ≠ invalidBlockIdx := by
      rintro rfl
      exact proper (mem_of_getElem? at?)
    rcases complete pos blkIdx at? notHole with ⟨part, member, holds, place⟩ | ⟨part, member, holds, place⟩
    · refine ((newLookup blkIdx).2 ?_).trans ?_
      · intro other otherMember otherHolds
        have disjoint := news.apart other otherMember part member
        unfold ContBlks.Holds at holds otherHolds
        omega
      · rw [(hitsLookup blkIdx).1 part member holds, place]
    · rw [place]
      exact (newLookup blkIdx).1 part member holds
  · intro blkIdx outside
    refine ((newLookup blkIdx).2 ?_).trans ((hitsLookup blkIdx).2 ?_)
    · intro part member holds
      obtain ⟨interval, found, inside⟩ := news.sound part member
      exact outside (mem_of_getElem? (places.part found inside _ holds))
    · intro part member holds
      obtain ⟨interval, found, inside⟩ := commonInside part member
      exact outside (mem_of_getElem? (places.part found inside _ holds))

theorem isSpecial_eq : isSpecial blkIdx = true ↔ blkIdx = superBlkIdx ∨ blkIdx = grpbmpBlkIdx := by
  rw [isSpecial, Bool.or_eq_true, beq_iff_eq, beq_iff_eq]

theorem addressable_le_of_special (special : isSpecial blkIdx = true) : addressable ≤ blkIdx := by
  rcases isSpecial_eq.1 special with rfl | rfl
  · decide
  · decide

theorem cacheBlocks_special (sound : alloc.Sound)
    (special : isSpecial blkIdx = true) {block : Block} (contigous : Bool) :
    ∃ total next, cacheBlocks alloc [blkIdx] [block] contigous = some (.ok total, next) ∧
      Stored alloc next [blkIdx] [block] := by
  have behind := addressable_le_of_special special
  let fresh : Extent Block := ⟨blkIdx, [block]⟩
  let others := alloc.dirtyBlks.filter fun other => decide (other.first ≠ blkIdx)
  have members : ∀ run, run ∈ others ↔ run ∈ alloc.dirtyBlks ∧ run.first ≠ blkIdx := by
    intro run
    rw [mem_filter, decide_eq_true_iff]
  have ordered : Ordered others := ⟨sound.ordered.apart.filter _, fun run member =>
    sound.ordered.nonempty run ((members run).1 member).1⟩
  have apart : Apart others fresh := by
    intro run member
    obtain ⟨old, distinct⟩ := (members run).1 member
    show run.last ≤ blkIdx ∨ blkIdx + 1 ≤ run.first
    rcases sound.indexed run old with small | ⟨_, last⟩
    · exact .inl (by omega)
    · omega
  have positive : 0 < fresh.items.length := Nat.one_pos
  have whole := mem_emplace ordered positive apart
  have found := lookup_emplace ordered positive apart
  have value : cacheBlocks alloc [blkIdx] [block] contigous =
      some (.ok blockSize, { alloc with dirtyBlks := emplace others fresh }) := by
    simp only [cacheBlocks, special, if_true, take_succ_cons, take_zero, assignRun]
    rfl
  refine ⟨_, _, value, ⟨ordered_emplace ordered positive apart, ?_⟩, rfl, rfl, ?_, ?_⟩
  · intro run member
    rcases (whole run).1 member with rfl | member
    · exact .inr ⟨special, rfl⟩
    · exact sound.indexed run ((members run).1 member).1
  · intro pos other at?
    obtain ⟨inside, _⟩ := List.getElem?_eq_some_iff.1 at?
    have first : pos = 0 := by simpa using inside
    subst first
    rw [List.getElem?_cons_zero, Option.some.injEq] at at?
    subst at?
    refine (found blkIdx).trans ((if_pos ⟨Nat.le_refl _, Nat.lt_succ_self _⟩).trans ?_)
    show [block][blkIdx - blkIdx]? = _
    rw [Nat.sub_self]
  · intro other outside
    have distinct : other ≠ blkIdx := fun same => outside (same ▸ mem_singleton_self _)
    refine (found other).trans ((if_neg ?_).trans ?_)
    · show ¬ (blkIdx ≤ other ∧ other < blkIdx + 1)
      omega
    · refine lookup_congr ordered sound.ordered fun item => ?_
      constructor
      · rintro ⟨run, member, at?⟩
        exact ⟨run, ((members run).1 member).1, at?⟩
      · rintro ⟨run, member, at?⟩
        refine ⟨run, (members run).2 ⟨member, ?_⟩, at?⟩
        rintro rfl
        obtain ⟨lower, upper, _⟩ := Extent.get?_eq_some.1 at?
        rcases sound.indexed run member with small | ⟨_, last⟩
        · omega
        · omega

def sectorOf (blkIdx : Nat) : Nat :=
  if blkIdx = superBlkIdx then 0 else if blkIdx = grpbmpBlkIdx then 1 else blkIdx + 2

theorem sectorOf_of_lt (small : blkIdx < addressable) : sectorOf blkIdx = blkIdx + 2 := by
  unfold addressable at small
  unfold sectorOf superBlkIdx grpbmpBlkIdx
  rw [if_neg (by omega), if_neg (by omega)]

def Allocator.view (alloc : Allocator) (blkIdx : Nat) : Option Block :=
  (lookup alloc.dirtyBlks blkIdx).or alloc.file[sectorOf blkIdx]?

section Reading

variable {alloc : Allocator} {blocks : List Nat} {buf : List Block}
variable {part : ContBlks} {blkIdx : Nat}

/-- The part lies where the list of the request has its indices. -/
structure Placed (blocks : List Nat) (part : ContBlks) : Prop where
  inside : part.off + (part.second - part.first) ≤ blocks.length
  sound : ∀ blkIdx, part.Holds blkIdx → blocks[part.off + (blkIdx - part.first)]? = some blkIdx
  proper : ¬ part.Holds invalidBlockIdx

variable {intervals news : List ContBlks} {pos : Nat} {runs : List (Extent Block)}

theorem Places.placed (places : Places intervals blocks)
    {interval : ContBlks} (member : interval ∈ intervals) (inside : part.Inside interval) :
    Placed blocks part := by
  refine ⟨(places.bounds member inside).1, places.part member inside, ?_⟩
  rintro ⟨lower, upper⟩
  exact places.proper interval member
    ⟨Nat.le_trans inside.first_le lower, Nat.lt_of_lt_of_le upper inside.second_le⟩

theorem Placed.spans_iff (placed : Placed blocks part)
    (distinct : Distinct blocks) (at? : blocks[pos]? = some blkIdx) :
    part.Spans pos ↔ part.Holds blkIdx := by
  unfold ContBlks.Spans
  constructor
  · rintro ⟨lower, upper⟩
    have held : part.Holds (part.first + (pos - part.off)) := ⟨by omega, by omega⟩
    have here := placed.sound _ held
    have place : part.off + (part.first + (pos - part.off) - part.first) = pos := by omega
    rw [place, at?, Option.some.injEq] at here
    exact here ▸ held
  · intro holds
    have notHole : blkIdx ≠ invalidBlockIdx := fun isHole => placed.proper (isHole ▸ holds)
    have same := distinct _ _ _ at? (placed.sound blkIdx holds) notHole
    obtain ⟨lower, upper⟩ := holds
    omega

theorem Placed.pos_eq (placed : Placed blocks part)
    (distinct : Distinct blocks) (at? : blocks[pos]? = some blkIdx)
    (holds : part.Holds blkIdx) : pos = part.off + (blkIdx - part.first) :=
  distinct _ _ _ at? (placed.sound blkIdx holds) fun isHole => placed.proper (isHole ▸ holds)

theorem readHit_spec (bytes : Nat)
    (distinct : Distinct blocks) (ordered : Ordered runs) (backed : Backed runs part)
    (nonempty : part.first < part.second) (placed : Placed blocks part)
    (length : buf.length = blocks.length) :
    (readHit runs (buf, bytes) part).1.length = buf.length ∧
      ∀ pos blkIdx : Nat, blocks[pos]? = some blkIdx →
        (part.Holds blkIdx → (readHit runs (buf, bytes) part).1[pos]? = lookup runs blkIdx) ∧
        (¬ part.Holds blkIdx → (readHit runs (buf, bytes) part).1[pos]? = buf[pos]?) := by
  obtain ⟨run, member, found, key, lower, upper⟩ := find_backed ordered backed
  have inside := placed.inside
  have room := upper
  unfold Extent.last at room
  have sliceLength : (slice run.items (part.first - run.first) (part.second - part.first)).length =
      part.second - part.first := length_slice (by omega)
  have after : (readHit runs (buf, bytes) part).1 = splice buf part.off
      (slice run.items (part.first - run.first) (part.second - part.first)) := by
    simp only [readHit, found, if_neg (by omega : ¬ run.items.length < part.first - run.first)]
  rw [after]
  refine ⟨length_splice (by rw [sliceLength, length]; exact inside), ?_⟩
  intro pos blkIdx at?
  have spans := placed.spans_iff distinct at?
  have result := getElem?_splice buf part.off
    (slice run.items (part.first - run.first) (part.second - part.first)) (by omega) pos
  rw [sliceLength] at result
  constructor
  · intro holds
    refine result.trans ((if_pos (spans.2 holds)).trans ?_)
    rw [getElem?_slice]
    have inSpan := spans.2 holds
    have same := placed.pos_eq distinct at? holds
    unfold ContBlks.Spans at inSpan
    unfold ContBlks.Holds at holds
    rw [if_pos (by omega), lookup_of_mem ordered member (by omega) (by omega)]
    congr 1
    omega
  · intro outside
    exact result.trans (if_neg fun inSpan => outside (spans.1 inSpan))

theorem readHits_spec {commons : List ContBlks} (bytes : Nat)
    (distinct : Distinct blocks) (ordered : Ordered runs) (ascending : Ascending commons)
    (backed : ∀ part ∈ commons, Backed runs part) (placed : ∀ part ∈ commons, Placed blocks part)
    (length : buf.length = blocks.length) :
    (commons.foldl (readHit runs) (buf, bytes)).1.length = buf.length ∧
      ∀ pos blkIdx : Nat, blocks[pos]? = some blkIdx →
        ((∃ part ∈ commons, part.Holds blkIdx) →
          (commons.foldl (readHit runs) (buf, bytes)).1[pos]? = lookup runs blkIdx) ∧
        ((∀ part ∈ commons, ¬ part.Holds blkIdx) →
          (commons.foldl (readHit runs) (buf, bytes)).1[pos]? = buf[pos]?) := by
  induction commons generalizing buf bytes with
  | nil => exact ⟨rfl, fun pos blkIdx _ => ⟨by simp, fun _ => rfl⟩⟩
  | cons part commons ih =>
    obtain ⟨hereLength, here⟩ := readHit_spec bytes distinct ordered
      (backed part mem_cons_self) (ascending.nonempty part mem_cons_self)
      (placed part mem_cons_self) length
    rw [foldl_cons]
    obtain ⟨laterLength, later⟩ := ih
      (readHit runs (buf, bytes) part).2 ascending.tail
      (fun other member => backed other (mem_cons_of_mem part member))
      (fun other member => placed other (mem_cons_of_mem part member))
      (hereLength.trans length)
    refine ⟨laterLength.trans hereLength, fun pos blkIdx at? => ⟨?_, ?_⟩⟩
    · rintro ⟨other, member, holds⟩
      by_cases behind : ∃ other ∈ commons, other.Holds blkIdx
      · exact (later pos blkIdx at?).1 behind
      · rcases mem_cons.1 member with rfl | member
        · rw [(later pos blkIdx at?).2 fun third found thirdHolds =>
            behind ⟨third, found, thirdHolds⟩]
          exact (here pos blkIdx at?).1 holds
        · exact absurd ⟨other, member, holds⟩ behind
    · intro outside
      rw [(later pos blkIdx at?).2 fun other member =>
        outside other (mem_cons_of_mem part member)]
      exact (here pos blkIdx at?).2 (outside part mem_cons_self)

theorem seekFails_of_lt (small : blkIdx < addressable) : seekFails ((blkIdx + 2) * blockSize) = false := by
  unfold addressable at small
  unfold seekFails blockSize
  rw [decide_eq_false_iff_not]
  omega

theorem readFile_spec (alloc : Allocator) (distinct : Distinct blocks) (placed : Placed blocks part)
    (small : part.first < addressable) (length : buf.length = blocks.length) :
    ∃ total after, alloc.readFile buf part.off (blockAbs part.first) (part.second - part.first) =
        (.ok total, after) ∧ after.length = buf.length ∧
      ∀ pos blkIdx : Nat, blocks[pos]? = some blkIdx →
        (part.Holds blkIdx → after[pos]? = (alloc.file[blkIdx + 2]?).or buf[pos]?) ∧
        (¬ part.Holds blkIdx → after[pos]? = buf[pos]?) := by
  have inside := placed.inside
  rw [blockAbs_of_lt small, Allocator.readFile, seekFails_of_lt small]
  have sector : (part.first + 2) * blockSize / blockSize = part.first + 2 :=
    Nat.mul_div_cancel _ (by decide)
  simp only [Bool.false_eq_true, if_false, sector]
  let items := slice alloc.file (part.first + 2) (part.second - part.first)
  have short : items.length ≤ part.second - part.first := by
    show ((alloc.file.drop _).take _).length ≤ _
    rw [length_take]
    exact Nat.min_le_left _ _
  refine ⟨_, _, rfl, length_splice (by show part.off + items.length ≤ _; omega), ?_⟩
  intro pos blkIdx at?
  have spans := placed.spans_iff distinct at?
  have result := getElem?_splice buf part.off items (by omega) pos
  constructor
  · intro holds
    obtain ⟨lower, upper⟩ := spans.2 holds
    have same := placed.pos_eq distinct at? holds
    unfold ContBlks.Holds at holds
    have item : items[pos - part.off]? = alloc.file[blkIdx + 2]? := by
      show (slice _ _ _)[_]? = _
      rw [getElem?_slice, if_pos (by omega)]
      congr 1
      omega
    refine result.trans ?_
    by_cases present : pos - part.off < items.length
    · rw [if_pos (by omega), item]
      rw [← item, List.getElem?_eq_getElem present, Option.some_or]
    · rw [if_neg (by omega), ← item, List.getElem?_eq_none (l := items) (by omega), Option.none_or]
  · intro outside
    refine result.trans (if_neg ?_)
    rintro ⟨lower, upper⟩
    exact outside (spans.1 ⟨lower, by omega⟩)

theorem readMiss_cons {next : List Block} {count : Nat}
    (bytes : Nat) (read : alloc.readFile buf part.off (blockAbs part.first)
      (part.second - part.first) = (.ok count, next)) :
    readMiss alloc (part :: news) (buf, bytes) =
      readMiss alloc news (next, bytes + (part.second - part.first) * blockSize) := by
  rw [readMiss, read]
  exact if_neg Bool.false_ne_true

theorem readMiss_spec (alloc : Allocator) (bytes : Nat)
    (distinct : Distinct blocks)
    (ascending : Ascending news) (placed : ∀ part ∈ news, Placed blocks part)
    (small : ∀ part ∈ news, part.first < addressable) (length : buf.length = blocks.length) :
    ∃ total after, readMiss alloc news (buf, bytes) = (.ok total, after) ∧
      ∀ pos blkIdx : Nat, blocks[pos]? = some blkIdx →
        ((∃ part ∈ news, part.Holds blkIdx) → after[pos]? = (alloc.file[blkIdx + 2]?).or buf[pos]?) ∧
        ((∀ part ∈ news, ¬ part.Holds blkIdx) → after[pos]? = buf[pos]?) := by
  induction news generalizing buf bytes with
  | nil => exact ⟨bytes, buf, rfl, fun pos blkIdx _ => ⟨by simp, fun _ => rfl⟩⟩
  | cons part news ih =>
    obtain ⟨count, next, read, hereLength, here⟩ := readFile_spec alloc distinct
      (placed part mem_cons_self)
      (small part mem_cons_self) length
    obtain ⟨total, after, laterRead, later⟩ := ih
      (bytes + (part.second - part.first) * blockSize) ascending.tail
      (fun other member => placed other (mem_cons_of_mem part member))
      (fun other member => small other (mem_cons_of_mem part member))
      (hereLength.trans length)
    refine ⟨total, after, ?_, fun pos blkIdx at? => ⟨?_, ?_⟩⟩
    · exact (readMiss_cons bytes read).trans laterRead
    · rintro ⟨other, member, holds⟩
      rcases mem_cons.1 member with rfl | member
      · rw [(later pos blkIdx at?).2]
        · exact (here pos blkIdx at?).1 holds
        · intro third found thirdHolds
          have apart := ascending.head third found
          unfold ContBlks.Holds at holds thirdHolds
          omega
      · rw [(later pos blkIdx at?).1 ⟨other, member, holds⟩, (here pos blkIdx at?).2]
        intro hereHolds
        have apart := ascending.head other member
        unfold ContBlks.Holds at holds hereHolds
        omega
    · intro outside
      rw [(later pos blkIdx at?).2 fun other member =>
        outside other (mem_cons_of_mem part member)]
      exact (here pos blkIdx at?).2 (outside part mem_cons_self)

/-- What a read leaves in the buffer: the array where there is one, and the old
buffer otherwise. -/
theorem readParts_spec (buf : List Block) (sound : alloc.Sound)
    (distinct : Distinct blocks) (places : Places intervals blocks)
    (small : ∀ blkIdx ∈ blocks, blkIdx < addressable) (length : buf.length = blocks.length) :
    ∃ total after, readMiss alloc
        (subtractIntervals intervals (intersectIntervals intervals alloc.dirtyBlks))
        ((intersectIntervals intervals alloc.dirtyBlks).foldl (readHit alloc.dirtyBlks) (buf, 0)) =
          (.ok total, after) ∧
      ∀ pos blkIdx : Nat, blocks[pos]? = some blkIdx →
        (blkIdx ≠ invalidBlockIdx → after[pos]? = (alloc.view blkIdx).or buf[pos]?) ∧
        (blkIdx = invalidBlockIdx → after[pos]? = buf[pos]?) := by
  obtain ⟨commons, news, apart, complete⟩ := split_request places sound.ordered
  have commonPlaced : ∀ part ∈ intersectIntervals intervals alloc.dirtyBlks,
      Placed blocks part := by
    intro part member
    obtain ⟨interval, found, _, _, cached⟩ := commons.sound part member
    exact places.placed found cached.toInside
  have newPlaced : ∀ part ∈ subtractIntervals intervals
      (intersectIntervals intervals alloc.dirtyBlks), Placed blocks part := by
    intro part member
    obtain ⟨interval, found, inside⟩ := news.sound part member
    exact places.placed found inside
  obtain ⟨hitsLength, hits⟩ := readHits_spec 0 distinct sound.ordered commons.ascending
    (by
      intro part member
      obtain ⟨interval, _, run, runMember, cached⟩ := commons.sound part member
      exact ⟨run, runMember, cached.key, cached.run_first_le, cached.run_last_ge⟩)
    commonPlaced length
  obtain ⟨total, after, read, misses⟩ := readMiss_spec alloc
    ((intersectIntervals intervals alloc.dirtyBlks).foldl
      (readHit alloc.dirtyBlks) (buf, 0)).2 distinct news.ascending newPlaced
    (by
      intro part member
      obtain ⟨interval, found, inside⟩ := news.sound part member
      exact small _ (places.bounds found inside).2.1)
    (hitsLength.trans length)
  refine ⟨total, after, read, fun pos blkIdx at? => ⟨fun proper => ?_, ?_⟩⟩
  · have sector := sectorOf_of_lt (small blkIdx (mem_of_getElem? at?))
    rw [Allocator.view, sector]
    rcases complete pos blkIdx at? proper with ⟨part, member, holds, _⟩ | ⟨part, member, holds, _⟩
    · rw [(misses pos blkIdx at?).2, (hits pos blkIdx at?).1 ⟨part, member, holds⟩]
      · obtain ⟨_, _, run, runMember, cached⟩ := commons.sound part member
        have lower := cached.run_first_le
        have upper := cached.run_last_ge
        obtain ⟨partLower, partUpper⟩ := holds
        obtain ⟨block, found⟩ := Option.isSome_iff_exists.1
          (Extent.get?_isSome.2 ⟨Nat.le_trans lower partLower, Nat.lt_of_lt_of_le partUpper upper⟩)
        rw [(lookup_eq_some sound.ordered).2 ⟨run, runMember, found⟩, Option.some_or, Option.some_or]
      · intro other otherMember otherHolds
        have disjoint := news.apart other otherMember part member
        unfold ContBlks.Holds at holds otherHolds
        omega
    · rw [(misses pos blkIdx at?).1 ⟨part, member, holds⟩, (hits pos blkIdx at?).2]
      · have absent : lookup alloc.dirtyBlks blkIdx = none := by
          rw [lookup_eq_none sound.ordered]
          rintro run runMember ⟨lower, upper⟩
          have disjoint := apart part member run runMember
          unfold ContBlks.Holds at holds
          omega
        rw [absent, Option.none_or]
      · intro other otherMember otherHolds
        have disjoint := news.apart part member other otherMember
        unfold ContBlks.Holds at holds otherHolds
        omega
  · intro isHole
    rw [(misses pos blkIdx at?).2, (hits pos blkIdx at?).2]
    · exact fun part member holds => (commonPlaced part member).proper (isHole ▸ holds)
    · exact fun part member holds => (newPlaced part member).proper (isHole ▸ holds)

/-- A request that the functions of the cache can serve: one of the two special
blocks, or blocks below 2 GiB with no hole in a consecutive request and none
right behind index 65534. -/
def Request.Reachable (request : Request) : Prop :=
  (∃ blkIdx, request.blocks = [blkIdx] ∧ isSpecial blkIdx = true) ∨
    ((∀ blkIdx ∈ request.blocks, blkIdx < addressable) ∧
      (request.contigous = true → invalidBlockIdx ∉ request.blocks) ∧ HolesApart request.blocks)

def Delivers (alloc : Allocator) (blocks : List Nat) (buf after : List Block) : Prop :=
  ∀ pos blkIdx : Nat, blocks[pos]? = some blkIdx →
    after[pos]? = if blkIdx = invalidBlockIdx then some zeroBlock
      else (alloc.view blkIdx).or buf[pos]?

theorem readCache_special (sound : alloc.Sound)
    (special : isSpecial blkIdx = true) (block : Block) (contigous : Bool) :
    ∃ total after, readCache alloc [blkIdx] [block] contigous = (.ok total, after) ∧
      Delivers alloc [blkIdx] [block] after := by
  have behind := addressable_le_of_special special
  have notHole : blkIdx ≠ invalidBlockIdx := by
    unfold addressable at behind
    unfold invalidBlockIdx
    omega
  have delivers : ∀ after, after[0]? = (alloc.view blkIdx).or (some block) →
      Delivers alloc [blkIdx] [block] after := by
    intro after first pos other at?
    obtain ⟨inside, _⟩ := List.getElem?_eq_some_iff.1 at?
    have zero : pos = 0 := by simpa using inside
    subst zero
    rw [List.getElem?_cons_zero, Option.some.injEq] at at?
    subst at?
    rw [if_neg notHole, first, List.getElem?_cons_zero]
  simp only [readCache, special, if_true]
  split
  · rename_i run found
    have member := mem_of_find?_eq_some found
    have first := List.find?_some found
    rw [beq_iff_eq] at first
    subst first
    have nonempty := sound.ordered.nonempty run member
    have single : run.items.length = 1 := by
      rcases sound.indexed run member with small | ⟨_, last⟩
      · unfold Extent.last at small
        omega
      · unfold Extent.last at last
        omega
    obtain ⟨item, items⟩ := length_eq_one_iff.1 single
    refine ⟨_, _, rfl, delivers _ ?_⟩
    have cached := lookup_of_mem sound.ordered member (Nat.le_refl _) (by unfold Extent.last; omega)
    rw [Nat.sub_self] at cached
    rw [Allocator.view, cached, items]
    rfl
  · rename_i missing
    rw [List.find?_eq_none] at missing
    have absent : lookup alloc.dirtyBlks blkIdx = none := by
      rw [lookup_eq_none sound.ordered]
      rintro run member ⟨lower, upper⟩
      rcases sound.indexed run member with small | ⟨_, last⟩
      · omega
      · refine missing run member ?_
        rw [beq_iff_eq]
        omega
    have sector : sectorOf blkIdx * blockSize = if blkIdx = grpbmpBlkIdx then superBlockSize else 0 := by
      rcases isSpecial_eq.1 special with rfl | rfl
      · decide
      · decide
    have low : seekFails (sectorOf blkIdx * blockSize) = false := by
      rcases isSpecial_eq.1 special with rfl | rfl
      · decide
      · decide
    rw [← sector, Allocator.readFile, low, Nat.mul_div_cancel _ (by decide : 0 < blockSize)]
    refine ⟨_, _, rfl, delivers _ ?_⟩
    rw [Allocator.view, absent, Option.none_or]
    have item : (slice alloc.file (sectorOf blkIdx) 1)[0]? = alloc.file[sectorOf blkIdx]? := by
      rw [getElem?_slice, if_pos Nat.one_pos, Nat.add_zero]
    show (splice [block] 0 (slice alloc.file (sectorOf blkIdx) 1))[0]? = _
    rw [getElem?_splice _ _ _ (Nat.zero_le _), Nat.zero_add, Nat.sub_zero, ← item]
    by_cases present : 0 < (slice alloc.file (sectorOf blkIdx) 1).length
    · rw [if_pos ⟨Nat.le_refl _, present⟩, List.getElem?_eq_getElem present, Option.some_or]
    · rw [if_neg fun inside => present inside.2,
        List.getElem?_eq_none (l := slice _ _ _) (Nat.le_of_not_lt present), Option.none_or]
      rfl

theorem readCache_plain (request : Request) (sound : alloc.Sound)
    (small : ∀ blkIdx ∈ request.blocks, blkIdx < addressable)
    (proper : request.contigous = true → invalidBlockIdx ∉ request.blocks)
    (apart : HolesApart request.blocks) (length : buf.length = request.blocks.length) :
    ∃ total after, readCache alloc request.blocks buf request.contigous = (.ok total, after) ∧
      Delivers alloc request.blocks buf after := by
  obtain ⟨first, tail, cons⟩ := exists_cons_of_ne_nil request.nonempty
  have plain : isSpecial first = false := isSpecial_of_lt (small first (cons ▸ mem_cons_self))
  cases marked : request.contigous with
  | true =>
    obtain ⟨total, after, read, found⟩ := readParts_spec buf sound request.distinct
      (places_consecutive request marked (proper marked)) small length
    refine ⟨total, after, ?_, ?_⟩
    · rw [← read]
      simp only [readCache, cons, plain, Bool.false_eq_true, if_false, if_true]
    · intro pos blkIdx at?
      have notHole : blkIdx ≠ invalidBlockIdx := fun isHole =>
        proper marked (isHole ▸ mem_of_getElem? at?)
      rw [if_neg notHole]
      exact (found pos blkIdx at?).1 notHole
  | false =>
    have runs := runs_findContigousBlocks apart
    obtain ⟨perm, sorted⟩ := sorted_requestIntervals request.blocks
    have inside : ∀ elem ∈ requestIntervals false request.blocks,
        elem.off + (elem.second - elem.first) ≤ buf.length := by
      intro elem member
      have found := perm.mem_iff.1 member
      have nonempty := runs.nonempty elem found
      have last := (runs.spans (elem.off + (elem.second - elem.first) - 1) _).1
        ⟨elem, found, ⟨by omega, by omega⟩, rfl⟩
      obtain ⟨bound, _⟩ := List.getElem?_eq_some_iff.1 last.2
      omega
    obtain ⟨kept, filledLength, filled⟩ := fillHoles_spec buf sorted inside
    obtain ⟨total, after, read, found⟩ := readParts_spec
      (fillHoles (requestIntervals false request.blocks) buf).2 sound request.distinct
      (places_request request apart) small (filledLength.trans length)
    refine ⟨total, after, ?_, ?_⟩
    · rw [← read, ← kept]
      simp only [readCache, cons, plain, Bool.false_eq_true, if_false]
    · intro pos blkIdx at?
      by_cases isHole : blkIdx = invalidBlockIdx
      · obtain ⟨elem, member, spans, index⟩ := (runs.spans pos blkIdx).2 ⟨Nat.zero_le _, at?⟩
        have hole : elem.first = invalidBlockIdx := by
          by_contra notHole
          rw [ContBlks.index, if_neg notHole] at index
          obtain ⟨lower, upper⟩ := spans
          refine runs.proper elem member notHole ⟨by omega, by omega⟩
        rw [if_pos isHole, (found pos blkIdx at?).2 isHole]
        exact (filled pos).2 ⟨elem, perm.mem_iff.2 member, hole, spans⟩
      · rw [if_neg isHole, (found pos blkIdx at?).1 isHole, (filled pos).1]
        intro elem member hole spans
        have same := (runs.spans pos _).1 ⟨elem, perm.mem_iff.1 member, spans, rfl⟩
        rw [Nat.sub_zero, at?, Option.some.injEq, ContBlks.index, if_pos hole] at same
        exact isHole same.2

end Reading

end RpcFrmwrk.Registry
