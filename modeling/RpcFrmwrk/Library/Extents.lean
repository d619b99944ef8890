import RpcFrmwrk.Library.Splice

/-! A partial array kept as runs of consecutive positions. Owns `Extent` and the array a list of
extents stands for; inserting a run, overwriting inside a run, joining adjacent runs. -/

namespace RpcFrmwrk.Library

open List

variable {α : Type}

/-- Items at consecutive positions from `first` on. -/
structure Extent (α : Type) where
  first : Nat
  items : List α

namespace Extent

def last (run : Extent α) : Nat := run.first + run.items.length

def get? (run : Extent α) (pos : Nat) : Option α :=
  if run.first ≤ pos then run.items[pos - run.first]? else none

theorem get?_eq_some {run : Extent α} {pos : Nat} {item : α} :
    run.get? pos = some item ↔ run.first ≤ pos ∧ pos < run.last ∧ run.items[pos - run.first]? = some item := by
  unfold get? last
  by_cases behind : run.first ≤ pos
  · rw [if_pos behind]
    constructor
    · intro found
      obtain ⟨inside, _⟩ := List.getElem?_eq_some_iff.1 found
      exact ⟨behind, by omega, found⟩
    · exact fun found => found.2.2
  · rw [if_neg behind]
    constructor
    · intro found
      cases found
    · exact fun found => absurd found.1 behind

theorem get?_isSome {run : Extent α} {pos : Nat} :
    (run.get? pos).isSome ↔ run.first ≤ pos ∧ pos < run.last := by
  rw [Option.isSome_iff_exists]
  constructor
  · rintro ⟨item, found⟩
    exact ⟨(get?_eq_some.1 found).1, (get?_eq_some.1 found).2.1⟩
  · rintro ⟨behind, before⟩
    unfold last at before
    refine ⟨run.items[pos - run.first], ?_⟩
    rw [get?, if_pos behind]
    exact List.getElem?_eq_getElem (by omega)

end Extent

def lookup : List (Extent α) → Nat → Option α
  | [], _ => none
  | run :: runs, pos => (run.get? pos).or (lookup runs pos)

/-- Nonempty runs in ascending order that do not overlap. -/
structure Ordered (runs : List (Extent α)) : Prop where
  apart : runs.Pairwise fun left right => left.last ≤ right.first
  nonempty : ∀ run ∈ runs, 0 < run.items.length

theorem Ordered.nil : Ordered ([] : List (Extent α)) :=
  ⟨List.Pairwise.nil, by simp⟩

variable {run left right : Extent α} {runs : List (Extent α)} {pos : Nat}

theorem Ordered.tail (ordered : Ordered (run :: runs)) :
    Ordered runs :=
  ⟨(pairwise_cons.1 ordered.apart).2, fun other member =>
    ordered.nonempty other (mem_cons_of_mem run member)⟩

theorem Ordered.cons {run : Extent α} {runs : List (Extent α)} (ordered : Ordered runs)
    (nonempty : 0 < run.items.length) (front : ∀ other ∈ runs, run.last ≤ other.first) :
    Ordered (run :: runs) := by
  refine ⟨pairwise_cons.2 ⟨front, ordered.apart⟩, ?_⟩
  intro other member
  rcases mem_cons.1 member with rfl | member
  · exact nonempty
  · exact ordered.nonempty other member

theorem Ordered.head (ordered : Ordered (run :: runs)) : ∀ other ∈ runs, run.last ≤ other.first :=
  (pairwise_cons.1 ordered.apart).1

theorem Ordered.first_lt {other : Extent α}
    (ordered : Ordered (run :: runs)) (member : other ∈ runs) : run.first < other.first := by
  have apart := ordered.head other member
  have nonempty := ordered.nonempty run mem_cons_self
  unfold Extent.last at apart
  omega

theorem Ordered.eq_of_common (ordered : Ordered runs) (leftMember : left ∈ runs)
    (rightMember : right ∈ runs) (pos : Nat)
    (leftCovers : left.first ≤ pos ∧ pos < left.last)
    (rightCovers : right.first ≤ pos ∧ pos < right.last) : left = right := by
  induction runs with
  | nil => cases leftMember
  | cons head tail ih =>
    rcases mem_cons.1 leftMember with leftHead | leftTail
    · rcases mem_cons.1 rightMember with rightHead | rightTail
      · rw [leftHead, rightHead]
      · have apart := ordered.head right rightTail
        subst leftHead
        omega
    · rcases mem_cons.1 rightMember with rightHead | rightTail
      · have apart := ordered.head left leftTail
        subst rightHead
        omega
      · exact ih ordered.tail leftTail rightTail

theorem Ordered.eq_of_first_eq (ordered : Ordered runs) (leftMember : left ∈ runs)
    (rightMember : right ∈ runs)
    (same : left.first = right.first) : left = right := by
  have leftNonempty := ordered.nonempty left leftMember
  have rightNonempty := ordered.nonempty right rightMember
  refine ordered.eq_of_common leftMember rightMember left.first ?_ ?_
  · unfold Extent.last
    omega
  · unfold Extent.last
    omega

theorem lookup_eq_some (ordered : Ordered runs) {item : α} :
    lookup runs pos = some item ↔ ∃ run ∈ runs, run.get? pos = some item := by
  induction runs with
  | nil => simp [lookup]
  | cons run runs ih =>
    have tail := ih ordered.tail
    rw [lookup, Option.or_eq_some_iff, tail]
    constructor
    · rintro (found | ⟨_, other, member, found⟩)
      · exact ⟨run, mem_cons_self, found⟩
      · exact ⟨other, mem_cons_of_mem run member, found⟩
    · rintro ⟨other, member, found⟩
      rcases mem_cons.1 member with rfl | member
      · exact .inl found
      · refine .inr ⟨?_, other, member, found⟩
        have apart := ordered.head other member
        have behind := (Extent.get?_eq_some.1 found).1
        rw [← Option.not_isSome_iff_eq_none, Extent.get?_isSome]
        omega

theorem lookup_of_mem (ordered : Ordered runs)
    (member : run ∈ runs) (behind : run.first ≤ pos) (before : pos < run.last) :
    lookup runs pos = run.items[pos - run.first]? := by
  obtain ⟨item, found⟩ := Option.isSome_iff_exists.1 (Extent.get?_isSome.2 ⟨behind, before⟩)
  rw [(lookup_eq_some ordered).2 ⟨run, member, found⟩, (Extent.get?_eq_some.1 found).2.2]

theorem lookup_eq_none (ordered : Ordered runs) :
    lookup runs pos = none ↔ ∀ run ∈ runs, ¬ (run.first ≤ pos ∧ pos < run.last) := by
  rw [Option.eq_none_iff_forall_ne_some]
  constructor
  · rintro absent run member ⟨behind, before⟩
    obtain ⟨item, found⟩ := Option.isSome_iff_exists.1 (Extent.get?_isSome.2 ⟨behind, before⟩)
    exact absent item ((lookup_eq_some ordered).2 ⟨run, member, found⟩)
  · intro outside item found
    obtain ⟨run, member, inside⟩ := (lookup_eq_some ordered).1 found
    exact outside run member (Extent.get?_isSome.1 (Option.isSome_iff_exists.2 ⟨item, inside⟩))

theorem lookup_congr {left right : List (Extent α)} (leftOrdered : Ordered left)
    (rightOrdered : Ordered right)
    (same : ∀ item, (∃ run ∈ left, run.get? pos = some item) ↔
      ∃ run ∈ right, run.get? pos = some item) : lookup left pos = lookup right pos := by
  apply Option.ext
  intro item
  rw [lookup_eq_some leftOrdered, lookup_eq_some rightOrdered]
  exact same item

/-- Insert by the first position; a run that starts there already stays. -/
def emplace (runs : List (Extent α)) (run : Extent α) : List (Extent α) :=
  match runs with
  | [] => [run]
  | head :: tail =>
    if run.first < head.first then run :: head :: tail
    else if run.first = head.first then head :: tail
    else head :: emplace tail run

def Apart (runs : List (Extent α)) (run : Extent α) : Prop :=
  ∀ other ∈ runs, other.last ≤ run.first ∨ run.last ≤ other.first

theorem mem_emplace (ordered : Ordered runs)
    (nonempty : 0 < run.items.length) (apart : Apart runs run) (other : Extent α) :
    other ∈ emplace runs run ↔ other = run ∨ other ∈ runs := by
  induction runs with
  | nil => simp [emplace]
  | cons head tail ih =>
    rw [emplace]
    by_cases before : run.first < head.first
    · rw [if_pos before, mem_cons]
    · have distinct : run.first ≠ head.first := by
        intro equal
        have disjoint := apart head mem_cons_self
        have headNonempty := ordered.nonempty head mem_cons_self
        unfold Extent.last at disjoint
        omega
      rw [if_neg before, if_neg distinct, mem_cons, mem_cons,
        ih ordered.tail fun other member =>
          apart other (mem_cons_of_mem head member)]
      exact ⟨fun found => by rcases found with first | second | third <;> simp [*],
        fun found => by rcases found with first | second | third <;> simp [*]⟩

theorem ordered_emplace (ordered : Ordered runs)
    (nonempty : 0 < run.items.length) (apart : Apart runs run) : Ordered (emplace runs run) := by
  induction runs with
  | nil => exact Ordered.nil.cons nonempty (by simp)
  | cons head tail ih =>
    have tailApart : Apart tail run := fun other member =>
      apart other (mem_cons_of_mem head member)
    have headNonempty := ordered.nonempty head mem_cons_self
    have disjoint := apart head mem_cons_self
    rw [emplace]
    by_cases before : run.first < head.first
    · rw [if_pos before]
      refine ordered.cons nonempty ?_
      intro other member
      have front : run.last ≤ head.first := by
        unfold Extent.last at disjoint ⊢
        omega
      rcases mem_cons.1 member with rfl | member
      · exact front
      · have later := ordered.first_lt member
        omega
    · have behind : head.last ≤ run.first := by
        unfold Extent.last at disjoint ⊢
        omega
      rw [if_neg before, if_neg (by unfold Extent.last at behind; omega)]
      refine (ih ordered.tail tailApart).cons headNonempty ?_
      intro other member
      rcases (mem_emplace ordered.tail nonempty tailApart other).1 member with rfl | member
      · exact behind
      · exact ordered.head other member

theorem lookup_emplace (ordered : Ordered runs)
    (nonempty : 0 < run.items.length) (apart : Apart runs run) (pos : Nat) :
    lookup (emplace runs run) pos =
      if run.first ≤ pos ∧ pos < run.last then run.items[pos - run.first]? else lookup runs pos := by
  have whole := ordered_emplace ordered nonempty apart
  have members := mem_emplace ordered nonempty apart
  by_cases inside : run.first ≤ pos ∧ pos < run.last
  · rw [if_pos inside]
    exact lookup_of_mem whole ((members run).2 (.inl rfl)) inside.1 inside.2
  · rw [if_neg inside]
    refine lookup_congr whole ordered fun item => ?_
    constructor
    · rintro ⟨other, member, found⟩
      rcases (members other).1 member with rfl | member
      · exact absurd (Extent.get?_isSome.1 (Option.isSome_iff_exists.2 ⟨item, found⟩)) inside
      · exact ⟨other, member, found⟩
    · rintro ⟨other, member, found⟩
      exact ⟨other, (members other).2 (.inr member), found⟩

/-! ### Overwriting inside a run -/

/-- Copy the items to offset `start` of the run that begins at `key`. -/
def overwrite (runs : List (Extent α)) (key start : Nat) (items : List α) : List (Extent α) :=
  runs.map fun run =>
    if run.first = key then { run with items := splice run.items start items } else run

section Overwrite

variable {runs : List (Extent α)} {target : Extent α} {start : Nat} {items : List α}

theorem lengths_overwrite (ordered : Ordered runs) (member : target ∈ runs)
    (inside : start + items.length ≤ target.items.length) (run : Extent α) (found : run ∈ runs) :
    (if run.first = target.first then { run with items := splice run.items start items }
      else run).items.length = run.items.length := by
  by_cases same : run.first = target.first
  · have equal := ordered.eq_of_first_eq found member same
    subst equal
    rw [if_pos rfl]
    exact length_splice inside
  · rw [if_neg same]

theorem first_overwrite (run : Extent α) (key : Nat) :
    (if run.first = key then { run with items := splice run.items start items }
      else run).first = run.first := by
  split <;> rfl

theorem ordered_overwrite (ordered : Ordered runs) (member : target ∈ runs)
    (inside : start + items.length ≤ target.items.length) :
    Ordered (overwrite runs target.first start items) := by
  have lengths := lengths_overwrite ordered member inside
  constructor
  · rw [overwrite, pairwise_map]
    refine ordered.apart.imp_of_mem ?_
    intro left right leftMember rightMember apart
    unfold Extent.last at apart ⊢
    rw [lengths left leftMember, first_overwrite, first_overwrite]
    exact apart
  · intro run found
    obtain ⟨old, oldMember, rfl⟩ := mem_map.1 found
    rw [lengths old oldMember]
    exact ordered.nonempty old oldMember

theorem lookup_overwrite (ordered : Ordered runs) (member : target ∈ runs)
    (inside : start + items.length ≤ target.items.length) (pos : Nat) :
    lookup (overwrite runs target.first start items) pos =
      if target.first + start ≤ pos ∧ pos < target.first + start + items.length then
        items[pos - (target.first + start)]?
      else lookup runs pos := by
  have after := ordered_overwrite ordered member inside
  have lengths := lengths_overwrite ordered member inside
  by_cases covered : ∃ run ∈ runs, run.first ≤ pos ∧ pos < run.last
  · obtain ⟨run, found, behind, before⟩ := covered
    have image := mem_map_of_mem (f := fun run : Extent α =>
      if run.first = target.first then { run with items := splice run.items start items }
      else run) found
    have length := lengths run found
    rw [lookup_of_mem ordered found behind before,
      lookup_of_mem after image (by rw [first_overwrite]; exact behind)
        (by unfold Extent.last at before ⊢; rw [length, first_overwrite]; exact before),
      first_overwrite]
    by_cases same : run.first = target.first
    · have equal := ordered.eq_of_first_eq found member same
      subst equal
      rw [if_pos rfl]
      show (splice run.items start items)[pos - run.first]? = _
      rw [getElem?_splice _ _ _ (by omega)]
      by_cases written : run.first + start ≤ pos ∧ pos < run.first + start + items.length
      · rw [if_pos (by omega), if_pos written]
        congr 1
        omega
      · rw [if_neg (by omega), if_neg written]
    · rw [if_neg same, if_neg]
      intro written
      have equal := ordered.eq_of_common found member pos ⟨behind, before⟩
        ⟨by omega, by unfold Extent.last; omega⟩
      exact same (congrArg Extent.first equal)
  · have absent : lookup runs pos = none := (lookup_eq_none ordered).2 fun run found inRun =>
      covered ⟨run, found, inRun⟩
    rw [absent, if_neg, lookup_eq_none after]
    · intro run found inRun
      obtain ⟨old, oldMember, rfl⟩ := mem_map.1 found
      unfold Extent.last at inRun
      rw [lengths old oldMember, first_overwrite] at inRun
      exact covered ⟨old, oldMember, inRun⟩
    · intro written
      exact covered ⟨target, member, by omega, by unfold Extent.last; omega⟩

def shape (runs : List (Extent α)) : List (Nat × Nat) :=
  runs.map fun run => (run.first, run.items.length)

theorem shape_overwrite (ordered : Ordered runs) (member : target ∈ runs)
    (inside : start + items.length ≤ target.items.length) :
    shape (overwrite runs target.first start items) = shape runs := by
  rw [shape, shape, overwrite, map_map]
  refine map_congr_left fun run found => ?_
  have length := lengths_overwrite ordered member inside run found
  simp only [Function.comp_apply, first_overwrite, length]

theorem exists_of_shape {left right : List (Extent α)} (same : shape left = shape right)
    {run : Extent α} (member : run ∈ right) :
    ∃ other ∈ left, other.first = run.first ∧ other.last = run.last := by
  have image : (run.first, run.items.length) ∈ shape left := by
    rw [same]
    exact mem_map_of_mem (f := fun run : Extent α => (run.first, run.items.length)) member
  obtain ⟨other, found, equal⟩ := mem_map.1 image
  obtain ⟨first, length⟩ := Prod.mk.inj equal
  exact ⟨other, found, first, by rw [Extent.last, Extent.last, first, length]⟩

end Overwrite

/-- Two runs of which the second starts where the first ends, as one. -/
def Extent.join (left right : Extent α) : Extent α := ⟨left.first, left.items ++ right.items⟩

theorem Extent.last_join (meet : right.first = left.last) : (left.join right).last = right.last := by
  unfold Extent.last at meet ⊢
  simp only [join, length_append]
  omega

theorem lookup_join
    (meet : right.first = left.last) (pos : Nat) :
    lookup (left.join right :: runs) pos = lookup (left :: right :: runs) pos := by
  simp only [lookup, ← Option.or_assoc]
  congr 1
  unfold Extent.get? Extent.join
  unfold Extent.last at meet
  by_cases behind : left.first ≤ pos
  · rw [if_pos behind, if_pos behind]
    show (left.items ++ right.items)[pos - left.first]? = _
    rw [List.getElem?_append]
    by_cases within : pos - left.first < left.items.length
    · rw [if_pos within, List.getElem?_eq_getElem within, Option.some_or]
    · rw [if_neg within, List.getElem?_eq_none (l := left.items) (by omega), Option.none_or, if_pos (by omega)]
      congr 1
      omega
  · rw [if_neg behind, if_neg behind, if_neg (by omega), Option.none_or]

theorem Ordered.join
    (ordered : Ordered (left :: right :: runs)) (meet : right.first = left.last) :
    Ordered (left.join right :: runs) := by
  have nonempty := ordered.nonempty left mem_cons_self
  refine ordered.tail.tail.cons ?_ ?_
  · show 0 < (left.items ++ right.items).length
    rw [length_append]
    omega
  · rw [Extent.last_join meet]
    exact ordered.tail.head

end RpcFrmwrk.Library
