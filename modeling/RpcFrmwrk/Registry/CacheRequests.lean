import RpcFrmwrk.Registry.CacheIntervals

/-! The intervals of a request. Owns `Request`, a list of block indices a caller may pass; `Places`,
the intervals that stand for the indices at their positions; `fillHoles`, the holes among them. -/

namespace RpcFrmwrk.Registry

open RpcFrmwrk.Library List

/-- Only holes are repeated. -/
def Distinct (blocks : List Nat) : Prop :=
  ∀ left right blkIdx : Nat, blocks[left]? = some blkIdx → blocks[right]? = some blkIdx →
    blkIdx ≠ invalidBlockIdx → left = right

/-- A nonempty list of distinct block indices; a caller that says they are
consecutive is right. -/
structure Request where
  blocks : List Nat
  contigous : Bool
  nonempty : blocks ≠ []
  distinct : Distinct blocks
  consecutive : contigous = true → ∃ first, blocks = List.range' first blocks.length

/-- No hole right behind the index in front of the mark: the two would be taken
for consecutive blocks. -/
def HolesApart (blocks : List Nat) : Prop :=
  blocks.IsChain fun left right => ¬ (left + 1 = invalidBlockIdx ∧ right = invalidBlockIdx)

/-- The intervals hold the indices of the list other than holes, each where the
list has it. -/
structure Places (intervals : List ContBlks) (blocks : List Nat) : Prop where
  ascending : Ascending intervals
  proper : ∀ interval ∈ intervals, ¬ interval.Holds invalidBlockIdx
  sound : ∀ interval ∈ intervals, ∀ blkIdx, interval.Holds blkIdx →
    blocks[interval.off + (blkIdx - interval.first)]? = some blkIdx
  complete : ∀ pos blkIdx, blocks[pos]? = some blkIdx → blkIdx ≠ invalidBlockIdx →
    ∃ interval ∈ intervals, interval.Holds blkIdx ∧
      pos = interval.off + (blkIdx - interval.first)

/-! ### Runs of a list -/

/-- The position belongs to the interval. -/
def ContBlks.Spans (elem : ContBlks) (pos : Nat) : Prop :=
  elem.off ≤ pos ∧ pos < elem.off + (elem.second - elem.first)

def ContBlks.index (elem : ContBlks) (pos : Nat) : Nat :=
  if elem.first = invalidBlockIdx then invalidBlockIdx else elem.first + (pos - elem.off)

/-- The indices of a run. -/
def expand (base count : Nat) : List Nat :=
  if base = invalidBlockIdx then List.replicate count invalidBlockIdx else List.range' base count

@[simp] theorem length_expand (base count : Nat) : (expand base count).length = count := by
  unfold expand
  split <;> simp

theorem getElem?_expand (base count pos : Nat) :
    (expand base count)[pos]? =
      if pos < count then some (if base = invalidBlockIdx then invalidBlockIdx else base + pos)
      else none := by
  unfold expand
  by_cases hole : base = invalidBlockIdx
  · simp only [if_pos hole, List.getElem?_replicate]
  · simp only [if_neg hole]
    by_cases inside : pos < count
    · rw [if_pos inside, List.getElem?_range' inside, Nat.one_mul]
    · rw [if_neg inside, List.getElem?_eq_none (by simpa using inside)]

theorem expand_succ (base count : Nat) :
    expand base (count + 1) =
      expand base count ++ [if base = invalidBlockIdx then invalidBlockIdx else base + count] := by
  unfold expand
  by_cases hole : base = invalidBlockIdx
  · simp only [if_pos hole, replicate_succ']
  · simp only [if_neg hole, List.range'_concat, Nat.one_mul]

/-- Intervals that cover the positions from `off` on, one behind the other, and
stand for the indices of a list. -/
structure Runs (intervals : List ContBlks) (off : Nat) (blocks : List Nat) : Prop where
  spans : ∀ pos blkIdx,
    (∃ elem ∈ intervals, elem.Spans pos ∧ elem.index pos = blkIdx) ↔
      off ≤ pos ∧ blocks[pos - off]? = some blkIdx
  nonempty : ∀ elem ∈ intervals, elem.first < elem.second
  proper : ∀ elem ∈ intervals, elem.first ≠ invalidBlockIdx → ¬ elem.Holds invalidBlockIdx
  off_le : ∀ elem ∈ intervals, off ≤ elem.off
  apart : intervals.Pairwise fun left right => ∀ pos, left.Spans pos → ¬ right.Spans pos

theorem spans_single (base count off pos blkIdx : Nat) :
    ((⟨base, count + base, off, 0⟩ : ContBlks).Spans pos ∧
        (⟨base, count + base, off, 0⟩ : ContBlks).index pos = blkIdx) ↔
      off ≤ pos ∧ (expand base count)[pos - off]? = some blkIdx := by
  unfold ContBlks.Spans ContBlks.index
  simp only [Nat.add_sub_cancel, getElem?_expand]
  by_cases inside : pos - off < count
  · simp only [if_pos inside, Option.some.injEq]
    constructor
    · rintro ⟨⟨lower, _⟩, found⟩
      exact ⟨lower, found⟩
    · rintro ⟨lower, found⟩
      exact ⟨⟨lower, by omega⟩, found⟩
  · simp only [if_neg inside, reduceCtorEq, and_false, iff_false]
    rintro ⟨⟨lower, upper⟩, _⟩
    omega

theorem runs_loop (base prev count off : Nat) {blocks : List Nat} (positive : 0 < count)
    (hole : base = invalidBlockIdx → prev = invalidBlockIdx)
    (run : base ≠ invalidBlockIdx → prev + 1 = base + count ∧
      ¬ (base ≤ invalidBlockIdx ∧ invalidBlockIdx ≤ prev))
    (apart : HolesApart (prev :: blocks)) :
    Runs (toIntervals off (contigousLoop base prev count blocks)) off (expand base count ++ blocks) := by
  have here : base ≠ invalidBlockIdx → ¬ (⟨base, count + base, off, 0⟩ : ContBlks).Holds invalidBlockIdx := by
    rintro proper ⟨lower, upper⟩
    have ends := run proper
    simp only at lower upper
    omega
  induction blocks generalizing base prev count off with
  | nil =>
    simp only [contigousLoop, toIntervals, append_nil]
    refine ⟨?_, ?_, ?_, ?_, pairwise_singleton _ _⟩
    · intro pos blkIdx
      simp only [mem_singleton, exists_eq_left]
      exact spans_single base count off pos blkIdx
    · simpa using positive
    · simpa only [mem_singleton, forall_eq] using here
    · simp
  | cons next blocks ih =>
    have chain := isChain_cons_cons.1 apart
    have longer : (if base = invalidBlockIdx then invalidBlockIdx else base + count) = next →
        expand base count ++ next :: blocks = expand base (count + 1) ++ blocks := by
      intro same
      rw [expand_succ, same, append_assoc, singleton_append]
    rw [contigousLoop]
    by_cases consecutive : next = prev + 1 ∧ next % blocksPerGroupFull ≠ 0
    · have proper : base ≠ invalidBlockIdx := by
        intro isHole
        rw [hole isHole] at consecutive
        unfold invalidBlockIdx blocksPerGroupFull at consecutive
        omega
      have ends := run proper
      rw [if_pos consecutive, longer (by rw [if_neg proper]; omega)]
      have notHole : prev + 1 ≠ invalidBlockIdx := fun isHole =>
        chain.1 ⟨isHole, by rw [consecutive.1, isHole]⟩
      have longerRun : base ≠ invalidBlockIdx → prev + 1 + 1 = base + (count + 1) ∧
          ¬ (base ≤ invalidBlockIdx ∧ invalidBlockIdx ≤ prev + 1) := fun _ =>
        ⟨by omega, by omega⟩
      refine ih _ _ _ _ (Nat.succ_pos count) (fun isHole => absurd isHole proper)
        longerRun (consecutive.1 ▸ chain.2) ?_
      rintro _ ⟨lower, upper⟩
      simp only at lower upper
      omega
    · rw [if_neg consecutive]
      by_cases holes : next = invalidBlockIdx ∧ base = invalidBlockIdx
      · rw [if_pos holes, longer (by rw [if_pos holes.2, holes.1])]
        exact ih _ _ _ _ (Nat.succ_pos count) (fun _ => holes.1)
          (fun proper => absurd holes.2 proper) chain.2 (fun proper => absurd holes.2 proper)
      · rw [if_neg holes]
        have later := ih next next 1 (off + count)
          Nat.one_pos id (fun proper => ⟨rfl, by omega⟩) chain.2 (by
            rintro proper ⟨lower, upper⟩
            simp only at lower upper
            omega)
        have front : expand next 1 ++ blocks = next :: blocks := by
          unfold expand
          split <;> simp [*]
        rw [front] at later
        simp only [toIntervals]
        refine ⟨?_, ?_, ?_, ?_, ?_⟩
        · intro pos blkIdx
          have here := spans_single base count off pos blkIdx
          have behind := later.spans pos blkIdx
          rw [getElem?_expand] at here
          simp only [mem_cons, exists_eq_or_imp]
          rw [here, behind, List.getElem?_append, length_expand, getElem?_expand]
          by_cases inside : pos - off < count
          · rw [if_pos inside, if_pos inside]
            constructor
            · rintro (found | ⟨lower, found⟩)
              · exact found
              · have empty : pos - (off + count) = 0 := by omega
                omega
            · exact .inl
          · rw [if_neg inside, if_neg inside]
            have shift : pos - off - count = pos - (off + count) := by omega
            rw [shift]
            simp only [reduceCtorEq, and_false, false_or]
            constructor
            · rintro ⟨lower, found⟩
              exact ⟨by omega, found⟩
            · rintro ⟨lower, found⟩
              exact ⟨by omega, found⟩
        · intro elem member
          rcases mem_cons.1 member with rfl | member
          · show base < count + base
            omega
          · exact later.nonempty elem member
        · intro elem member proper
          rcases mem_cons.1 member with rfl | member
          · exact here proper
          · exact later.proper elem member proper
        · intro elem member
          rcases mem_cons.1 member with rfl | member
          · exact Nat.le_refl _
          · have lower := later.off_le elem member
            omega
        · refine pairwise_cons.2 ⟨?_, later.apart⟩
          rintro other member pos ⟨_, upper⟩ ⟨lower, _⟩
          have start := later.off_le other member
          simp only at upper
          omega

theorem runs_findContigousBlocks {blocks : List Nat} (apart : HolesApart blocks) :
    Runs (toIntervals 0 (findContigousBlocks blocks)) 0 blocks := by
  cases blocks with
  | nil =>
    refine ⟨?_, ?_, ?_, ?_, ?_⟩ <;> simp [findContigousBlocks, toIntervals]
  | cons first blocks =>
    have loop := runs_loop first first 1 0 Nat.one_pos id (fun proper => ⟨rfl, by omega⟩) apart
    have front : expand first 1 ++ blocks = first :: blocks := by
      unfold expand
      split <;> simp [*]
    rw [front] at loop
    exact loop

theorem fillHoles_spec {intervals : List ContBlks} (buf : List Block)
    (sorted : intervals.Pairwise fun left right => left.first ≤ right.first)
    (inside : ∀ elem ∈ intervals, elem.off + (elem.second - elem.first) ≤ buf.length) :
    (fillHoles intervals buf).1 = intervals.filter (fun elem => elem.first ≠ invalidBlockIdx) ∧
      (fillHoles intervals buf).2.length = buf.length ∧
      ∀ pos,
        ((∀ elem ∈ intervals, elem.first = invalidBlockIdx → ¬ elem.Spans pos) →
          (fillHoles intervals buf).2[pos]? = buf[pos]?) ∧
        ((∃ elem ∈ intervals, elem.first = invalidBlockIdx ∧ elem.Spans pos) →
          (fillHoles intervals buf).2[pos]? = some zeroBlock) := by
  induction intervals generalizing buf with
  | nil => exact ⟨rfl, rfl, fun pos => ⟨fun _ => rfl, by simp⟩⟩
  | cons elem elems ih =>
    obtain ⟨front, tailSorted⟩ := pairwise_cons.1 sorted
    have tailInside : ∀ other ∈ elems, other.off + (other.second - other.first) ≤ buf.length :=
      fun other member => inside other (mem_cons_of_mem elem member)
    rcases Nat.lt_trichotomy elem.first invalidBlockIdx with before | hole | behind
    · obtain ⟨kept, length, zeroed⟩ := ih buf tailSorted tailInside
      have notHole : elem.first ≠ invalidBlockIdx := by omega
      rw [fillHoles]
      simp only [if_pos before]
      refine ⟨?_, length, fun pos => ⟨fun outside => ?_, ?_⟩⟩
      · rw [kept, filter_cons_of_pos (by simpa using notHole)]
      · exact (zeroed pos).1 fun other member =>
          outside other (mem_cons_of_mem elem member)
      · rintro ⟨other, member, isHole, spans⟩
        rcases mem_cons.1 member with rfl | member
        · exact absurd isHole notHole
        · exact (zeroed pos).2 ⟨other, member, isHole, spans⟩
    · have here := inside elem mem_cons_self
      have zeros : (List.replicate (elem.second - elem.first) zeroBlock).length =
          elem.second - elem.first := length_replicate
      have sameLength : (splice buf elem.off
          (List.replicate (elem.second - elem.first) zeroBlock)).length = buf.length :=
        length_splice (by rw [zeros]; exact here)
      obtain ⟨kept, length, zeroed⟩ := ih
        (splice buf elem.off (List.replicate (elem.second - elem.first) zeroBlock))
        tailSorted (by rw [sameLength]; exact tailInside)
      have spliced := getElem?_splice buf elem.off
        (List.replicate (elem.second - elem.first) zeroBlock) (by omega)
      rw [zeros] at spliced
      rw [fillHoles]
      simp only [if_neg (by omega : ¬ elem.first < invalidBlockIdx), if_pos hole]
      refine ⟨?_, by rw [length, sameLength], fun pos => ⟨fun outside => ?_, ?_⟩⟩
      · rw [kept, filter_cons_of_neg (by simpa using hole)]
      · have notHere := outside elem mem_cons_self hole
        unfold ContBlks.Spans at notHere
        rw [(zeroed pos).1 fun other member => outside other (mem_cons_of_mem elem member),
          spliced, if_neg notHere]
      · rintro ⟨other, member, isHole, spans⟩
        by_cases later : ∃ other ∈ elems, other.first = invalidBlockIdx ∧ other.Spans pos
        · exact (zeroed pos).2 later
        · rcases mem_cons.1 member with rfl | member
          · obtain ⟨lower, upper⟩ := spans
            rw [(zeroed pos).1 fun other member isHole spans => later ⟨other, member, isHole, spans⟩,
              spliced, if_pos ⟨lower, upper⟩, List.getElem?_replicate, if_pos (by omega)]
          · exact absurd ⟨other, member, isHole, spans⟩ later
    · have later : ∀ other ∈ elem :: elems, other.first ≠ invalidBlockIdx := by
        intro other member
        rcases mem_cons.1 member with rfl | member
        · omega
        · have ordered := front other member
          omega
      rw [fillHoles]
      simp only [if_neg (by omega : ¬ elem.first < invalidBlockIdx),
        if_neg (by omega : ¬ elem.first = invalidBlockIdx)]
      refine ⟨?_, trivial, fun pos => ⟨fun _ => trivial, ?_⟩⟩
      · rw [filter_eq_self.2]
        exact fun other member => by simpa using later other member
      · rintro ⟨other, member, isHole, _⟩
        exact absurd isHole (later other member)

theorem sorted_requestIntervals (blocks : List Nat) :
    (requestIntervals false blocks).Perm (toIntervals 0 (findContigousBlocks blocks)) ∧
      (requestIntervals false blocks).Pairwise fun left right => left.first ≤ right.first := by
  refine ⟨mergeSort_perm _ _, ?_⟩
  have sorted : ((toIntervals 0 (findContigousBlocks blocks)).mergeSort
      fun left right => decide (left.first ≤ right.first)).Pairwise
        fun left right => decide (left.first ≤ right.first) = true :=
    pairwise_mergeSort (by simp only [decide_eq_true_iff]; omega)
      (by simp only [Bool.or_eq_true, decide_eq_true_iff]; omega) _
  exact sorted.imp fun ordered => by simpa using ordered

theorem places_request (request : Request) (apart : HolesApart request.blocks) :
    Places ((requestIntervals false request.blocks).filter fun elem =>
      elem.first ≠ invalidBlockIdx) request.blocks := by
  have runs := runs_findContigousBlocks apart
  obtain ⟨perm, sorted⟩ := sorted_requestIntervals request.blocks
  have member : ∀ elem, elem ∈ (requestIntervals false request.blocks).filter
      (fun elem => elem.first ≠ invalidBlockIdx) ↔
      elem ∈ toIntervals 0 (findContigousBlocks request.blocks) ∧ elem.first ≠ invalidBlockIdx := by
    intro elem
    rw [mem_filter, perm.mem_iff, decide_eq_true_iff]
  have placed : ∀ elem ∈ toIntervals 0 (findContigousBlocks request.blocks),
      elem.first ≠ invalidBlockIdx → ∀ blkIdx, elem.Holds blkIdx →
        elem.Spans (elem.off + (blkIdx - elem.first)) ∧
          request.blocks[elem.off + (blkIdx - elem.first)]? = some blkIdx := by
    intro elem found proper blkIdx holds
    unfold ContBlks.Holds at holds
    have spans : elem.Spans (elem.off + (blkIdx - elem.first)) := by
      unfold ContBlks.Spans
      omega
    refine ⟨spans, ?_⟩
    have index : elem.index (elem.off + (blkIdx - elem.first)) = blkIdx := by
      unfold ContBlks.index
      rw [if_neg proper]
      omega
    exact ((runs.spans _ _).1 ⟨elem, found, spans, index⟩).2
  constructor
  · constructor
    · have positions := (perm.pairwise_iff (R := fun left right : ContBlks => ∀ pos,
        left.Spans pos → ¬ right.Spans pos) fun apart pos first second =>
          apart pos second first).2 runs.apart
      refine ((sorted.and positions).filter _).imp_of_mem ?_
      rintro left right leftFound rightFound ⟨ordered, disjoint⟩
      obtain ⟨leftMember, leftProper⟩ := (member left).1 leftFound
      obtain ⟨rightMember, rightProper⟩ := (member right).1 rightFound
      by_contra overlap
      have nonempty := runs.nonempty right rightMember
      obtain ⟨leftSpans, leftAt⟩ := placed left leftMember leftProper right.first ⟨ordered, by omega⟩
      obtain ⟨rightSpans, rightAt⟩ := placed right rightMember rightProper right.first ⟨Nat.le_refl _, nonempty⟩
      have same := request.distinct _ _ _ leftAt rightAt rightProper
      rw [same] at leftSpans
      exact disjoint _ leftSpans rightSpans
    · exact fun elem found => runs.nonempty elem ((member elem).1 found).1
  · intro elem found
    obtain ⟨elemMember, proper⟩ := (member elem).1 found
    exact runs.proper elem elemMember proper
  · intro elem found blkIdx holds
    obtain ⟨elemMember, proper⟩ := (member elem).1 found
    exact (placed elem elemMember proper blkIdx holds).2
  · intro pos blkIdx found proper
    obtain ⟨elem, elemMember, ⟨lower, upper⟩, index⟩ :=
      (runs.spans pos blkIdx).2 ⟨Nat.zero_le _, found⟩
    have notHole : elem.first ≠ invalidBlockIdx := by
      intro hole
      rw [ContBlks.index, if_pos hole] at index
      exact proper index.symm
    rw [ContBlks.index, if_neg notHole] at index
    refine ⟨elem, (member elem).2 ⟨elemMember, notHole⟩, ?_, by omega⟩
    unfold ContBlks.Holds
    omega

theorem places_consecutive (request : Request) (marked : request.contigous = true)
    (proper : invalidBlockIdx ∉ request.blocks) :
    Places (requestIntervals true request.blocks) request.blocks := by
  obtain ⟨first, same⟩ := request.consecutive marked
  have nonempty := length_pos_iff.2 request.nonempty
  have at? : ∀ pos, pos < request.blocks.length → request.blocks[pos]? = some (first + pos) := by
    intro pos inside
    rw [same, List.getElem?_range' (by simpa using inside), Nat.one_mul]
  have head : requestIntervals true request.blocks = [⟨first, first + request.blocks.length, 0, 0⟩] := by
    have start := at? 0 nonempty
    unfold requestIntervals
    simp only [if_pos]
    split
    · rename_i empty
      exact absurd empty request.nonempty
    · rename_i other tail cons
      rw [cons, List.getElem?_cons_zero, Option.some.injEq, Nat.add_zero] at start
      rw [start, cons]
  rw [head]
  have sound : ∀ blkIdx, (⟨first, first + request.blocks.length, 0, 0⟩ : ContBlks).Holds blkIdx →
      request.blocks[0 + (blkIdx - first)]? = some blkIdx := by
    rintro blkIdx ⟨lower, upper⟩
    simp only at lower upper
    rw [at? _ (by omega)]
    congr 1
    omega
  refine ⟨Ascending.singleton (by simpa using nonempty), ?_, ?_, ?_⟩
  · intro elem found holds
    rw [mem_singleton] at found
    subst found
    exact proper (mem_of_getElem? (sound _ holds))
  · intro elem found blkIdx holds
    rw [mem_singleton] at found
    subst found
    exact sound blkIdx holds
  · intro pos blkIdx found _
    obtain ⟨inside, _⟩ := List.getElem?_eq_some_iff.1 found
    rw [at? pos inside, Option.some.injEq] at found
    refine ⟨_, mem_singleton_self _, ?_, ?_⟩
    · unfold ContBlks.Holds
      simp only
      omega
    · simp only
      omega

end RpcFrmwrk.Registry
