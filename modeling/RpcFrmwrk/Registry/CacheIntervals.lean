import Mathlib.Data.List.TakeWhile
import RpcFrmwrk.Registry.Cache

/-! What the interval functions of the cache compute. Owns `Ascending` lists of intervals and
`Inside`, a part aligned with its interval; the specifications of `intersectIntervals` and
`subtractIntervals`. -/

namespace RpcFrmwrk.Registry

open RpcFrmwrk.Library List

variable {interval : ContBlks} {intervals commons : List ContBlks} {runs : List (Extent Block)}

def ContBlks.Holds (elem : ContBlks) (blkIdx : Nat) : Prop :=
  elem.first ≤ blkIdx ∧ blkIdx < elem.second

/-- Nonempty intervals in ascending order that do not overlap. -/
structure Ascending (intervals : List ContBlks) : Prop where
  apart : intervals.Pairwise fun left right => left.second ≤ right.first
  nonempty : ∀ interval ∈ intervals, interval.first < interval.second

/-- A nonempty part of an interval that lies at the same place of the buffer. -/
structure ContBlks.Inside (part whole : ContBlks) : Prop where
  first_le : whole.first ≤ part.first
  nonempty : part.first < part.second
  second_le : part.second ≤ whole.second
  aligned : part.off = whole.off + (part.first - whole.first)

theorem Ascending.nil : Ascending [] := ⟨List.Pairwise.nil, by simp⟩

theorem Ascending.tail (ascending : Ascending (interval :: intervals)) : Ascending intervals :=
  ⟨(pairwise_cons.1 ascending.apart).2, fun other member =>
    ascending.nonempty other (mem_cons_of_mem interval member)⟩

theorem Ascending.head
    (ascending : Ascending (interval :: intervals)) :
    ∀ other ∈ intervals, interval.second ≤ other.first :=
  (pairwise_cons.1 ascending.apart).1

theorem Ascending.append {left right : List ContBlks} (leftAscending : Ascending left)
    (rightAscending : Ascending right)
    (apart : ∀ first ∈ left, ∀ second ∈ right, first.second ≤ second.first) :
    Ascending (left ++ right) := by
  refine ⟨pairwise_append.2 ⟨leftAscending.apart, rightAscending.apart, apart⟩, ?_⟩
  intro interval member
  rcases mem_append.1 member with member | member
  · exact leftAscending.nonempty interval member
  · exact rightAscending.nonempty interval member

theorem Ascending.singleton (nonempty : interval.first < interval.second) : Ascending [interval] :=
  ⟨pairwise_singleton _ _, by simpa using nonempty⟩

theorem Ascending.eq_of_common (ascending : Ascending intervals)
    {left right : ContBlks} (leftMember : left ∈ intervals) (rightMember : right ∈ intervals)
    (blkIdx : Nat) (leftHolds : left.Holds blkIdx) (rightHolds : right.Holds blkIdx) :
    left = right := by
  unfold ContBlks.Holds at leftHolds rightHolds
  induction intervals with
  | nil => cases leftMember
  | cons head tail ih =>
    rcases mem_cons.1 leftMember with leftHead | leftTail
    · rcases mem_cons.1 rightMember with rightHead | rightTail
      · rw [leftHead, rightHead]
      · have apart := ascending.head right rightTail
        subst leftHead
        omega
    · rcases mem_cons.1 rightMember with rightHead | rightTail
      · have apart := ascending.head left leftTail
        subst rightHead
        omega
      · exact ih ascending.tail leftTail rightTail

/-! ### Intersection -/

/-- A cached part of an interval: where it lies in its run. -/
structure CachedPart (interval : ContBlks) (run : Extent Block) (part : ContBlks) : Prop
    extends ContBlks.Inside part interval where
  key : part.key = run.first
  run_first_le : run.first ≤ part.first
  run_last_ge : part.second ≤ run.last

/-- What `intersectIntervals` returns for intervals and runs. -/
structure Intersects (intervals : List ContBlks) (runs : List (Extent Block))
    (parts : List ContBlks) : Prop where
  ascending : Ascending parts
  sound : ∀ part ∈ parts, ∃ interval ∈ intervals, ∃ run ∈ runs, CachedPart interval run part
  complete : ∀ interval ∈ intervals, ∀ run ∈ runs, ∀ blkIdx, interval.Holds blkIdx →
    run.first ≤ blkIdx → blkIdx < run.last → ∃ part ∈ parts, part.Holds blkIdx

theorem intersects_one (interval : ContBlks)
    (ordered : Ordered runs) : Intersects [interval] runs (intersectOne interval runs).1 := by
  induction runs with
  | nil => exact ⟨Ascending.nil, by simp [intersectOne], by simp⟩
  | cons run runs ih =>
    have later := ih ordered.tail
    have runNonempty := ordered.nonempty run mem_cons_self
    have hitSound : ∀ part : ContBlks, max interval.first run.first <
        min interval.second run.last →
        part = ⟨max interval.first run.first, min interval.second run.last,
          interval.off + (max interval.first run.first - interval.first), run.first⟩ →
        CachedPart interval run part := by
      intro part meets equal
      subst equal
      exact ⟨⟨Nat.le_max_left _ _, meets, Nat.min_le_left _ _, rfl⟩, rfl,
        Nat.le_max_right _ _, Nat.min_le_right _ _⟩
    rw [intersectOne]
    by_cases meets : max interval.first run.first < min interval.second run.last
    · simp only [if_pos meets]
      by_cases inside : interval.second < run.last
      · rw [if_pos inside]
        refine ⟨Ascending.singleton meets, ?_, ?_⟩
        · intro part member
          exact ⟨interval, mem_singleton_self _, run, mem_cons_self,
            hitSound part meets (mem_singleton.1 member)⟩
        · intro other otherMember cached cachedMember blkIdx holds behind before
          rw [mem_singleton] at otherMember
          subst otherMember
          unfold ContBlks.Holds at holds
          refine ⟨_, mem_singleton_self _, ?_⟩
          rcases mem_cons.1 cachedMember with rfl | cachedMember
          · exact ⟨by show max _ _ ≤ _; omega, by show _ < min _ _; omega⟩
          · have apart := ordered.head cached cachedMember
            omega
      · rw [if_neg inside]
        refine ⟨(Ascending.singleton meets).append later.ascending ?_, ?_, ?_⟩
        · intro first firstMember second secondMember
          rw [mem_singleton] at firstMember
          subst firstMember
          obtain ⟨_, _, cached, cachedMember, part⟩ := later.sound second secondMember
          have apart := ordered.head cached cachedMember
          have behind := part.run_first_le
          show min _ _ ≤ _
          omega
        · intro part member
          rcases mem_append.1 member with member | member
          · exact ⟨interval, mem_singleton_self _, run, mem_cons_self,
              hitSound part meets (mem_singleton.1 member)⟩
          · obtain ⟨whole, wholeMember, cached, cachedMember, found⟩ := later.sound part member
            exact ⟨whole, wholeMember, cached, mem_cons_of_mem run cachedMember, found⟩
        · intro other otherMember cached cachedMember blkIdx holds behind before
          rcases mem_cons.1 cachedMember with rfl | cachedMember
          · rw [mem_singleton] at otherMember
            subst otherMember
            unfold ContBlks.Holds at holds
            refine ⟨_, mem_append_left _ (mem_singleton_self _), ?_⟩
            exact ⟨by show max _ _ ≤ _; omega, by show _ < min _ _; omega⟩
          · obtain ⟨part, member, found⟩ :=
              later.complete other otherMember cached cachedMember blkIdx holds behind before
            exact ⟨part, mem_append_right _ member, found⟩
    · simp only [if_neg meets]
      by_cases inside : interval.second < run.last
      · rw [if_pos inside]
        refine ⟨Ascending.nil, by simp, ?_⟩
        intro other otherMember cached cachedMember blkIdx holds behind before
        rw [mem_singleton] at otherMember
        subst otherMember
        unfold ContBlks.Holds at holds
        rcases mem_cons.1 cachedMember with rfl | cachedMember
        · omega
        · have apart := ordered.head cached cachedMember
          omega
      · rw [if_neg inside]
        refine ⟨later.ascending, ?_, ?_⟩
        · intro part member
          obtain ⟨whole, wholeMember, cached, cachedMember, found⟩ := later.sound part member
          exact ⟨whole, wholeMember, cached, mem_cons_of_mem run cachedMember, found⟩
        · intro other otherMember cached cachedMember blkIdx holds behind before
          rcases mem_cons.1 cachedMember with rfl | cachedMember
          · rw [mem_singleton] at otherMember
            subst otherMember
            unfold ContBlks.Holds at holds
            omega
          · exact later.complete other otherMember cached cachedMember blkIdx holds behind before

theorem intersectOne_rest (interval : ContBlks)
    (ordered : Ordered runs) :
    (intersectOne interval runs).2 <:+ runs ∧
      ∀ run ∈ runs, interval.second < run.last → run ∈ (intersectOne interval runs).2 := by
  induction runs with
  | nil => exact ⟨suffix_rfl, by simp⟩
  | cons run runs ih =>
    obtain ⟨suffix, keeps⟩ := ih ordered.tail
    rw [intersectOne]
    by_cases inside : interval.second < run.last
    · simp only [if_pos inside]
      exact ⟨suffix_rfl, fun _ member _ => member⟩
    · simp only [if_neg inside]
      refine ⟨suffix.trans (suffix_cons run runs), ?_⟩
      intro other member behind
      rcases mem_cons.1 member with rfl | member
      · exact absurd behind inside
      · exact keeps other member behind

theorem Ordered.suffix {left right : List (Extent Block)} (suffix : left <:+ right)
    (ordered : Ordered right) : Ordered left :=
  ⟨ordered.apart.sublist suffix.sublist, fun run member =>
    ordered.nonempty run (suffix.subset member)⟩

theorem intersects_loop
    (ascending : Ascending intervals) (ordered : Ordered runs) :
    Intersects intervals runs (intersectLoop intervals runs) := by
  induction intervals generalizing runs with
  | nil => exact ⟨Ascending.nil, by simp [intersectLoop], by simp⟩
  | cons interval intervals ih =>
    obtain ⟨suffix, keeps⟩ := intersectOne_rest interval ordered
    have here := intersects_one interval ordered
    have later := ih ascending.tail (Ordered.suffix suffix ordered)
    rw [intersectLoop]
    refine ⟨here.ascending.append later.ascending ?_, ?_, ?_⟩
    · intro first firstMember second secondMember
      obtain ⟨whole, wholeMember, _, _, firstPart⟩ := here.sound first firstMember
      obtain ⟨other, otherMember, _, _, secondPart⟩ := later.sound second secondMember
      rw [mem_singleton] at wholeMember
      subst wholeMember
      have apart := ascending.head other otherMember
      have ends := firstPart.second_le
      have starts := secondPart.first_le
      omega
    · intro part member
      rcases mem_append.1 member with member | member
      · obtain ⟨whole, wholeMember, run, runMember, found⟩ := here.sound part member
        rw [mem_singleton] at wholeMember
        subst wholeMember
        exact ⟨whole, mem_cons_self, run, runMember, found⟩
      · obtain ⟨whole, wholeMember, run, runMember, found⟩ := later.sound part member
        exact ⟨whole, mem_cons_of_mem interval wholeMember, run, suffix.subset runMember, found⟩
    · intro whole wholeMember run runMember blkIdx holds behind before
      rcases mem_cons.1 wholeMember with rfl | wholeMember
      · obtain ⟨part, member, found⟩ := here.complete whole (mem_singleton_self _) run
          runMember blkIdx holds behind before
        exact ⟨part, mem_append_left _ member, found⟩
      · have apart := ascending.head whole wholeMember
        unfold ContBlks.Holds at holds
        obtain ⟨part, member, found⟩ := later.complete whole wholeMember run
          (keeps run runMember (by omega)) blkIdx holds behind before
        exact ⟨part, mem_append_right _ member, found⟩

theorem fromPredecessor_spec (first : Nat) (ordered : Ordered runs) :
    fromPredecessor first runs <:+ runs ∧
      ∀ run ∈ runs, first < run.last → run ∈ fromPredecessor first runs := by
  induction runs with
  | nil => exact ⟨suffix_rfl, by simp [fromPredecessor]⟩
  | cons run runs ih =>
    cases runs with
    | nil => exact ⟨suffix_rfl, fun _ member _ => member⟩
    | cons next runs =>
      obtain ⟨suffix, keeps⟩ := ih ordered.tail
      rw [fromPredecessor]
      by_cases skips : next.first < first
      · rw [if_pos skips]
        refine ⟨suffix.trans (suffix_cons run _), ?_⟩
        intro other member behind
        rcases mem_cons.1 member with rfl | member
        · have apart := ordered.head next mem_cons_self
          omega
        · exact keeps other member behind
      · rw [if_neg skips]
        exact ⟨suffix_rfl, fun _ member _ => member⟩

theorem intersects_intervals
    (ascending : Ascending intervals) (ordered : Ordered runs) :
    Intersects intervals runs (intersectIntervals intervals runs) := by
  cases intervals with
  | nil => exact ⟨Ascending.nil, by simp [intersectIntervals], by simp⟩
  | cons interval rest =>
    obtain ⟨suffix, keeps⟩ := fromPredecessor_spec interval.first ordered
    have loop := intersects_loop ascending (Ordered.suffix suffix ordered)
    refine ⟨loop.ascending, ?_, ?_⟩
    · intro part member
      obtain ⟨whole, wholeMember, run, runMember, found⟩ := loop.sound part member
      exact ⟨whole, wholeMember, run, suffix.subset runMember, found⟩
    · intro whole wholeMember run runMember blkIdx holds behind before
      have front : interval.first ≤ whole.first := by
        rcases mem_cons.1 wholeMember with rfl | wholeMember
        · exact Nat.le_refl _
        · have apart := ascending.head whole wholeMember
          have nonempty := ascending.nonempty interval mem_cons_self
          omega
      unfold ContBlks.Holds at holds
      exact loop.complete whole wholeMember run (keeps run runMember (by omega)) blkIdx holds behind before

/-! ### Subtraction -/

/-- What `subtractIntervals` returns for intervals and parts of them. -/
structure Subtracts (intervals commons parts : List ContBlks) : Prop where
  ascending : Ascending parts
  sound : ∀ part ∈ parts, ∃ interval ∈ intervals, part.Inside interval
  apart : ∀ part ∈ parts, ∀ common ∈ commons,
    part.second ≤ common.first ∨ common.second ≤ part.first
  complete : ∀ interval ∈ intervals, ∀ blkIdx, interval.Holds blkIdx →
    (∀ common ∈ commons, ¬ common.Holds blkIdx) → ∃ part ∈ parts, part.Holds blkIdx

theorem remainder_spec
    (ascending : Ascending commons) (current : Nat) (behind : interval.first ≤ current)
    (before : ∀ common ∈ commons, common.first < interval.second) :
    Ascending (remainder interval current commons) ∧
      (∀ part ∈ remainder interval current commons, part.Inside interval ∧
        current ≤ part.first ∧
        ∀ common ∈ commons, part.second ≤ common.first ∨ common.second ≤ part.first) ∧
      ∀ blkIdx, current ≤ blkIdx → blkIdx < interval.second →
        (∀ common ∈ commons, ¬ common.Holds blkIdx) →
          ∃ part ∈ remainder interval current commons, part.Holds blkIdx := by
  induction commons generalizing current with
  | nil =>
    rw [remainder]
    by_cases rest : current < interval.second
    · rw [if_pos rest]
      refine ⟨Ascending.singleton rest, ?_, ?_⟩
      · intro part member
        rw [mem_singleton] at member
        subst member
        exact ⟨⟨behind, rest, Nat.le_refl _, Nat.add_sub_assoc behind _⟩, Nat.le_refl _, by simp⟩
      · intro blkIdx lower upper _
        exact ⟨_, mem_singleton_self _, lower, upper⟩
    · rw [if_neg rest]
      exact ⟨Ascending.nil, by simp, fun blkIdx lower upper => by omega⟩
  | cons common commons ih =>
    have nonempty := ascending.nonempty common mem_cons_self
    have starts := before common mem_cons_self
    obtain ⟨laterAscending, laterSound, laterComplete⟩ :=
      ih ascending.tail (max current common.second) (by omega)
        fun other member => before other (mem_cons_of_mem common member)
    rw [remainder]
    by_cases gap : current < common.first
    · rw [if_pos gap]
      refine ⟨(Ascending.singleton gap).append laterAscending ?_, ?_, ?_⟩
      · intro first firstMember second secondMember
        rw [mem_singleton] at firstMember
        subst firstMember
        have lower := (laterSound second secondMember).2.1
        show common.first ≤ _
        omega
      · intro part member
        rcases mem_append.1 member with member | member
        · rw [mem_singleton] at member
          subst member
          refine ⟨⟨behind, gap, Nat.le_of_lt starts, Nat.add_sub_assoc behind _⟩, Nat.le_refl _, ?_⟩
          intro other otherMember
          rcases mem_cons.1 otherMember with rfl | otherMember
          · exact .inl (Nat.le_refl _)
          · have apart := ascending.head other otherMember
            refine .inl ?_
            show common.first ≤ _
            omega
        · obtain ⟨inside, lower, apart⟩ := laterSound part member
          refine ⟨inside, by omega, ?_⟩
          intro other otherMember
          rcases mem_cons.1 otherMember with rfl | otherMember
          · exact .inr (by omega)
          · exact apart other otherMember
      · intro blkIdx lower upper outside
        have notHere := outside common mem_cons_self
        unfold ContBlks.Holds at notHere
        by_cases inGap : blkIdx < common.first
        · exact ⟨_, mem_append_left _ (mem_singleton_self _), lower, inGap⟩
        · obtain ⟨part, member, holds⟩ := laterComplete blkIdx (by omega) upper
            fun other otherMember => outside other (mem_cons_of_mem common otherMember)
          exact ⟨part, mem_append_right _ member, holds⟩
    · rw [if_neg gap, nil_append]
      refine ⟨laterAscending, ?_, ?_⟩
      · intro part member
        obtain ⟨inside, lower, apart⟩ := laterSound part member
        refine ⟨inside, by omega, ?_⟩
        intro other otherMember
        rcases mem_cons.1 otherMember with rfl | otherMember
        · exact .inr (by omega)
        · exact apart other otherMember
      · intro blkIdx lower upper outside
        have notHere := outside common mem_cons_self
        unfold ContBlks.Holds at notHere
        exact laterComplete blkIdx (by omega) upper fun other otherMember =>
          outside other (mem_cons_of_mem common otherMember)

theorem Ascending.sublist {left right : List ContBlks} (sublist : List.Sublist left right)
    (ascending : Ascending right) : Ascending left :=
  ⟨ascending.apart.sublist sublist, fun interval member =>
    ascending.nonempty interval (sublist.subset member)⟩

theorem Ascending.first_ge_of_dropWhile (ascending : Ascending commons)
    {bound : Nat} : ∀ common ∈ commons.dropWhile fun common => decide (common.first < bound),
      bound ≤ common.first := by
  induction commons with
  | nil => simp
  | cons head tail ih =>
    by_cases starts : head.first < bound
    · rw [dropWhile_cons_of_pos (by simpa using starts)]
      exact ih ascending.tail
    · rw [dropWhile_cons_of_neg (by simpa using starts)]
      intro common member
      rcases mem_cons.1 member with rfl | member
      · omega
      · have apart := ascending.head common member
        have nonempty := ascending.nonempty head mem_cons_self
        omega

theorem subtracts_loop (ascending : Ascending intervals)
    (commonsAscending : Ascending commons)
    (within : ∀ common ∈ commons, ∃ interval ∈ intervals,
      interval.first ≤ common.first ∧ common.second ≤ interval.second) :
    Subtracts intervals commons (subtractLoop intervals commons) := by
  induction intervals generalizing commons with
  | nil => exact ⟨Ascending.nil, by simp [subtractLoop], by simp [subtractLoop], by simp⟩
  | cons interval intervals ih =>
    have nonempty := ascending.nonempty interval mem_cons_self
    rw [subtractLoop]
    -- no part of an interval lies in front of the first one
    have ahead : commons.dropWhile (fun common => decide (common.second ≤ interval.first)) =
        commons := by
      cases commons with
      | nil => rfl
      | cons common commons =>
        refine dropWhile_cons_of_neg ?_
        obtain ⟨whole, wholeMember, lower, upper⟩ := within common mem_cons_self
        have commonNonempty := commonsAscending.nonempty common mem_cons_self
        rw [decide_eq_true_iff]
        rcases mem_cons.1 wholeMember with rfl | wholeMember
        · omega
        · have apart := ascending.head whole wholeMember
          omega
    simp only [ahead]
    let taken := commons.takeWhile fun common => decide (common.first < interval.second)
    let left := commons.dropWhile fun common => decide (common.first < interval.second)
    have split : taken ++ left = commons := takeWhile_append_dropWhile
    have takenFirst : ∀ common ∈ taken, common.first < interval.second := fun common member => by
      simpa using mem_takeWhile_imp member
    have leftFirst : ∀ common ∈ left, interval.second ≤ common.first :=
      commonsAscending.first_ge_of_dropWhile
    have takenMember : ∀ common ∈ taken, common ∈ commons := fun common member =>
      split ▸ mem_append_left _ member
    have leftMember : ∀ common ∈ left, common ∈ commons := fun common member =>
      split ▸ mem_append_right _ member
    have takenSecond : ∀ common ∈ taken, common.second ≤ interval.second := by
      intro common member
      obtain ⟨whole, wholeMember, lower, upper⟩ := within common (takenMember common member)
      rcases mem_cons.1 wholeMember with rfl | wholeMember
      · exact upper
      · have apart := ascending.head whole wholeMember
        have starts := takenFirst common member
        omega
    have takenAscending : Ascending taken :=
      commonsAscending.sublist (split ▸ sublist_append_left _ _)
    have leftAscending : Ascending left :=
      commonsAscending.sublist (split ▸ sublist_append_right _ _)
    obtain ⟨hereAscending, hereSound, hereComplete⟩ :=
      remainder_spec takenAscending interval.first (Nat.le_refl interval.first) takenFirst
    have later := ih ascending.tail leftAscending (by
      intro common member
      obtain ⟨whole, wholeMember, lower, upper⟩ := within common (leftMember common member)
      rcases mem_cons.1 wholeMember with rfl | wholeMember
      · have starts := leftFirst common member
        have commonNonempty := leftAscending.nonempty common member
        omega
      · exact ⟨whole, wholeMember, lower, upper⟩)
    refine ⟨hereAscending.append later.ascending ?_, ?_, ?_, ?_⟩
    · intro first firstMember second secondMember
      obtain ⟨whole, wholeMember, inside⟩ := later.sound second secondMember
      have apart := ascending.head whole wholeMember
      have ends := (hereSound first firstMember).1.second_le
      have starts := inside.first_le
      omega
    · intro part member
      rcases mem_append.1 member with member | member
      · exact ⟨interval, mem_cons_self, (hereSound part member).1⟩
      · obtain ⟨whole, wholeMember, inside⟩ := later.sound part member
        exact ⟨whole, mem_cons_of_mem interval wholeMember, inside⟩
    · intro part member common commonMember
      rw [← split] at commonMember
      rcases mem_append.1 member with member | member
      · obtain ⟨inside, _, apart⟩ := hereSound part member
        rcases mem_append.1 commonMember with commonMember | commonMember
        · exact apart common commonMember
        · have starts := leftFirst common commonMember
          have ends := inside.second_le
          exact .inl (by omega)
      · rcases mem_append.1 commonMember with commonMember | commonMember
        · obtain ⟨whole, wholeMember, inside⟩ := later.sound part member
          have apart := ascending.head whole wholeMember
          have ends := takenSecond common commonMember
          have starts := inside.first_le
          exact .inr (by omega)
        · exact later.apart part member common commonMember
    · intro whole wholeMember blkIdx holds outside
      rcases mem_cons.1 wholeMember with rfl | wholeMember
      · obtain ⟨part, member, found⟩ := hereComplete blkIdx holds.1 holds.2
          fun common member => outside common (takenMember common member)
        exact ⟨part, mem_append_left _ member, found⟩
      · obtain ⟨part, member, found⟩ := later.complete whole wholeMember blkIdx holds
          fun common member => outside common (leftMember common member)
        exact ⟨part, mem_append_right _ member, found⟩

theorem subtracts_intervals (ascending : Ascending intervals)
    (commonsAscending : Ascending commons)
    (within : ∀ common ∈ commons, ∃ interval ∈ intervals,
      interval.first ≤ common.first ∧ common.second ≤ interval.second) :
    Subtracts intervals commons (subtractIntervals intervals commons) := by
  cases commons with
  | nil =>
    refine ⟨ascending, ?_, by simp, ?_⟩
    · intro part member
      exact ⟨part, member, Nat.le_refl _, ascending.nonempty part member, Nat.le_refl _,
        by rw [Nat.sub_self, Nat.add_zero]⟩
    · exact fun whole wholeMember _ holds _ => ⟨whole, wholeMember, holds⟩
  | cons common commons => exact subtracts_loop ascending commonsAscending within

end RpcFrmwrk.Registry
