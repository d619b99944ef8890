import Mathlib.Data.List.Nodup

/-! A table of counts that stands for a bag of references. A key occurs once in the table, with the
number of references to it and with what was stored with the first one. The bag holds the references
one by one. Owns the table and its updates; the bag and its updates; `Represents`, which the updates
keep. -/

namespace RpcFrmwrk.Library

open List

/-- An entry of the table: a key, what is stored with it, and the number of references. -/
structure Counted (κ ι : Type) where
  key : κ
  info : ι
  count : Nat
deriving DecidableEq

namespace Counted

variable {κ ι : Type}

/-! ### Sums -/

/-- The references to the entries that meet a condition. -/
def sumWhere (wanted : κ → ι → Bool) : List (Counted κ ι) → Nat
  | [] => 0
  | entry :: table => (if wanted entry.key entry.info then entry.count else 0) + sumWhere wanted table

theorem count_le_sumWhere {wanted : κ → ι → Bool} {table : List (Counted κ ι)} {entry : Counted κ ι}
    (member : entry ∈ table) (holds : wanted entry.key entry.info = true) :
    entry.count ≤ sumWhere wanted table := by
  induction table with
  | nil => exact absurd member not_mem_nil
  | cons other table ih =>
    rw [sumWhere]
    rcases mem_cons.1 member with rfl | later
    · rw [if_pos holds]
      exact Nat.le_add_right _ _
    · exact Nat.le_trans (ih later) (Nat.le_add_left _ _)

variable {wanted : κ → ι → Bool} {table : List (Counted κ ι)} {bag : List (κ × ι)}
    {entry : Counted κ ι} {key : κ}

theorem exists_of_sumWhere (some : 0 < sumWhere wanted table) :
    ∃ entry ∈ table, wanted entry.key entry.info = true := by
  induction table with
  | nil => exact absurd some (Nat.lt_irrefl 0)
  | cons entry table ih =>
    by_cases holds : wanted entry.key entry.info = true
    · exact ⟨entry, mem_cons_self, holds⟩
    · rw [sumWhere, if_neg holds, Nat.zero_add] at some
      obtain ⟨other, member, holds⟩ := ih some
      exact ⟨other, mem_cons_of_mem _ member, holds⟩

theorem sumWhere_congr {other : κ → ι → Bool}
    (same : ∀ entry ∈ table, wanted entry.key entry.info = other entry.key entry.info) :
    sumWhere wanted table = sumWhere other table := by
  induction table with
  | nil => rfl
  | cons entry table ih =>
    rw [sumWhere, sumWhere, same entry mem_cons_self,
      ih fun other later => same other (mem_cons_of_mem _ later)]

theorem sumWhere_filter (wanted keep : κ → ι → Bool) (table : List (Counted κ ι)) :
    sumWhere wanted (table.filter fun entry => keep entry.key entry.info) =
      sumWhere (fun key info => wanted key info && keep key info) table := by
  induction table with
  | nil => rfl
  | cons entry table ih =>
    rw [filter_cons, sumWhere]
    by_cases kept : keep entry.key entry.info = true
    · rw [if_pos kept, sumWhere, ih, kept, Bool.and_true]
    · rw [if_neg kept, ih, Bool.eq_false_iff.2 kept, Bool.and_false, if_neg Bool.false_ne_true, Nat.zero_add]

/-- The table has each key once, with at least one reference, and as many references as the bag. -/
structure Represents (table : List (Counted κ ι)) (bag : List (κ × ι)) : Prop where
  unique : (table.map Counted.key).Nodup
  positive : ∀ entry ∈ table, 0 < entry.count
  sums : ∀ wanted, sumWhere wanted table = bag.countP fun held => wanted held.1 held.2

theorem represents_empty : Represents ([] : List (Counted κ ι)) [] :=
  ⟨nodup_nil, forall_mem_nil _, fun _ => rfl⟩

theorem Represents.eq_of_key
    (represents : Represents table bag) {other : Counted κ ι} (member : entry ∈ table)
    (another : other ∈ table)
    (same : entry.key = other.key) : entry = other :=
  inj_on_of_nodup_map represents.unique member another same

theorem Represents.clear
    (represents : Represents table bag) (keep : κ → ι → Bool) :
    Represents (table.filter fun entry => keep entry.key entry.info) (bag.filter fun held => keep held.1 held.2) where
  unique := (filter_sublist.map Counted.key).nodup represents.unique
  positive other member := represents.positive other (mem_of_mem_filter member)
  sums wanted := by
    rw [sumWhere_filter, represents.sums, countP_filter]

variable [DecidableEq κ]

def find (table : List (Counted κ ι)) (key : κ) : Option (Counted κ ι) :=
  table.find? fun entry => entry.key = key

/-- The count of a key that is in the table. -/
def setCount (table : List (Counted κ ι)) (key : κ) (count : Nat) : List (Counted κ ι) :=
  table.map fun entry => if entry.key = key then { entry with count } else entry

def erase (table : List (Counted κ ι)) (key : κ) : List (Counted κ ι) :=
  table.filter fun entry => entry.key ≠ key

theorem find_mem (found : find table key = some entry) : entry ∈ table ∧ entry.key = key := by
  have same := List.find?_some found
  exact ⟨mem_of_find?_eq_some found, of_decide_eq_true same⟩

theorem map_key_setCount (table : List (Counted κ ι)) (key : κ) (count : Nat) :
    (setCount table key count).map Counted.key = table.map Counted.key := by
  rw [setCount, map_map]
  refine map_congr_left fun entry _ => ?_
  simp only [Function.comp_apply]
  split <;> rfl

theorem sumWhere_setCount {table : List (Counted κ ι)} {wanted : κ → ι → Bool} {entry : Counted κ ι}
    (unique : (table.map Counted.key).Nodup) (member : entry ∈ table) (count : Nat) :
    sumWhere wanted (setCount table entry.key count) + (if wanted entry.key entry.info then entry.count else 0) =
      sumWhere wanted table + (if wanted entry.key entry.info then count else 0) := by
  induction table with
  | nil => exact absurd member not_mem_nil
  | cons first table ih =>
    have fresh := (nodup_cons.1 unique).1
    rw [setCount, map_cons, sumWhere, sumWhere]
    rcases mem_cons.1 member with rfl | later
    · have others : table.map (fun other => if other.key = entry.key then { other with count } else other) = table := by
        refine (map_congr_left fun other inTable => if_neg fun same => fresh ?_).trans (map_id table)
        exact same ▸ mem_map_of_mem inTable
      rw [others, if_pos rfl]
      dsimp only
      omega
    · have other : first.key ≠ entry.key := fun same => fresh (same ▸ mem_map_of_mem later)
      have rest := ih (nodup_cons.1 unique).2 later
      rw [setCount] at rest
      rw [if_neg other]
      omega

theorem positive_setCount {count : Nat}
    (positive : ∀ entry ∈ table, 0 < entry.count) (some : 0 < count) :
    ∀ entry ∈ setCount table key count, 0 < entry.count := by
  intro entry member
  obtain ⟨before, inTable, rfl⟩ := mem_map.1 member
  split
  · exact some
  · exact positive before inTable

theorem sumWhere_erase {table : List (Counted κ ι)} {wanted : κ → ι → Bool} {entry : Counted κ ι}
    (unique : (table.map Counted.key).Nodup) (member : entry ∈ table) :
    sumWhere wanted (erase table entry.key) + (if wanted entry.key entry.info then entry.count else 0) =
      sumWhere wanted table := by
  induction table with
  | nil => exact absurd member not_mem_nil
  | cons first table ih =>
    have fresh := (nodup_cons.1 unique).1
    rw [erase, filter_cons, sumWhere]
    rcases mem_cons.1 member with rfl | later
    · have others : table.filter (fun other => decide (other.key ≠ entry.key)) = table :=
        filter_eq_self.2 fun other inTable =>
          decide_eq_true fun same => fresh (same ▸ mem_map_of_mem inTable)
      rw [if_neg (by simp), others, Nat.add_comm]
    · have other : first.key ≠ entry.key := fun same => fresh (same ▸ mem_map_of_mem later)
      have rest := ih (nodup_cons.1 unique).2 later
      rw [erase] at rest
      rw [if_pos (decide_eq_true other), sumWhere]
      omega

theorem sumWhere_only
    (unique : (table.map Counted.key).Nodup) (member : entry ∈ table)
    (holds : wanted entry.key entry.info = true)
    (only : ∀ other ∈ table, wanted other.key other.info = true → other.key = entry.key) :
    sumWhere wanted table = entry.count := by
  have sum := @sumWhere_erase _ _ _ table wanted _ unique member
  have rest : sumWhere wanted (erase table entry.key) = 0 := by
    refine Nat.eq_zero_of_not_pos fun some => ?_
    obtain ⟨other, inRest, alsoHolds⟩ := exists_of_sumWhere some
    obtain ⟨inTable, differs⟩ := mem_filter.1 inRest
    exact of_decide_eq_true differs (only other inTable alsoHolds)
  rw [rest, if_pos holds, Nat.zero_add] at sum
  exact sum.symm

theorem map_info_setCount (table : List (Counted κ ι)) (key : κ) (count : Nat) :
    (setCount table key count).map Counted.info = table.map Counted.info := by
  rw [setCount, map_map]
  refine map_congr_left fun entry _ => ?_
  simp only [Function.comp_apply]
  split <;> rfl

theorem perm_erase (unique : (table.map Counted.key).Nodup)
    (member : entry ∈ table) : table.Perm (entry :: erase table entry.key) := by
  induction table with
  | nil => exact absurd member not_mem_nil
  | cons first table ih =>
    have fresh := (nodup_cons.1 unique).1
    rw [erase, filter_cons]
    rcases mem_cons.1 member with rfl | later
    · have others : table.filter (fun other => decide (other.key ≠ entry.key)) = table :=
        filter_eq_self.2 fun other inTable =>
          decide_eq_true fun same => fresh (same ▸ mem_map_of_mem inTable)
      rw [if_neg (by simp), others]
    · have other : first.key ≠ entry.key := fun same => fresh (same ▸ mem_map_of_mem later)
      rw [if_pos (decide_eq_true other)]
      exact ((ih (nodup_cons.1 unique).2 later).cons first).trans (List.Perm.swap _ _ _)

/-! ### The count of one key -/

def countOf (table : List (Counted κ ι)) (key : κ) : Nat := sumWhere (fun other _ => decide (other = key)) table

variable {table : List (Counted κ ι)} {key other : κ} {entry : Counted κ ι}

theorem countOf_found (unique : (table.map Counted.key).Nodup)
    (found : find table key = some entry) :
    countOf table key = entry.count := by
  obtain ⟨member, rfl⟩ := find_mem found
  exact sumWhere_only unique member (decide_eq_true rfl) fun _ _ same => of_decide_eq_true same

theorem countOf_absent (absent : ∀ entry ∈ table, entry.key ≠ key) : countOf table key = 0 := by
  refine Nat.eq_zero_of_not_pos fun some => ?_
  obtain ⟨entry, member, same⟩ := exists_of_sumWhere some
  exact absent entry member (of_decide_eq_true same)

theorem find_none
    (absent : find table key = none) : ∀ entry ∈ table, entry.key ≠ key := fun entry member same =>
  List.find?_eq_none.1 absent entry member (decide_eq_true same)

theorem countOf_insert (info : ι) (count : Nat) :
    countOf (⟨key, info, count⟩ :: table) other = (if other = key then count else 0) + countOf table other := by
  rw [countOf, sumWhere]
  by_cases same : key = other
  · rw [if_pos (decide_eq_true same), if_pos same.symm]
    rfl
  · rw [if_neg (by simpa using same), if_neg fun equal => same equal.symm]
    rfl

theorem countOf_setCount (unique : (table.map Counted.key).Nodup)
    (found : find table key = some entry) (count : Nat) :
    countOf (setCount table key count) other = if other = key then count else countOf table other := by
  have own := countOf_found unique found
  obtain ⟨member, rfl⟩ := find_mem found
  have sum := @sumWhere_setCount _ _ _ table (fun key _ => decide (key = other)) entry unique member count
  by_cases same : other = entry.key
  · rw [if_pos same]
    rw [if_pos (decide_eq_true same.symm), if_pos (decide_eq_true same.symm)] at sum
    rw [countOf] at own ⊢
    rw [← same] at own
    rw [own] at sum
    rw [← same] at sum ⊢
    omega
  · rw [if_neg same]
    rw [if_neg (by simpa using fun equal => same equal.symm), if_neg (by simpa using fun equal => same equal.symm)] at sum
    exact sum

theorem countOf_erase (unique : (table.map Counted.key).Nodup)
    (found : find table key = some entry) :
    countOf (erase table key) other = if other = key then 0 else countOf table other := by
  have own := countOf_found unique found
  obtain ⟨member, rfl⟩ := find_mem found
  have sum := @sumWhere_erase _ _ _ table (fun key _ => decide (key = other)) entry unique member
  by_cases same : other = entry.key
  · rw [if_pos same]
    refine countOf_absent fun left isLeft => ?_
    rw [same]
    exact of_decide_eq_true (mem_filter.1 isLeft).2
  · rw [if_neg same]
    rw [if_neg (by simpa using fun equal => same equal.symm)] at sum
    exact sum

theorem countOf_filter (unique : (table.map Counted.key).Nodup) (wanted : Counted κ ι → Bool) :
    countOf (table.filter fun entry => !wanted entry) key =
      if key ∈ (table.filter wanted).map Counted.key then 0 else countOf table key := by
  by_cases removed : key ∈ (table.filter wanted).map Counted.key
  · rw [if_pos removed]
    obtain ⟨entry, member, rfl⟩ := mem_map.1 removed
    obtain ⟨inTable, isWanted⟩ := mem_filter.1 member
    refine countOf_absent fun left isLeft same => ?_
    obtain ⟨also, unwanted⟩ := mem_filter.1 isLeft
    rw [inj_on_of_nodup_map unique also inTable same, isWanted] at unwanted
    cases unwanted
  · rw [if_neg removed]
    induction table with
    | nil => rfl
    | cons first table ih =>
      have rest : key ∉ (table.filter wanted).map Counted.key := by
        intro member
        obtain ⟨entry, isIn, equal⟩ := mem_map.1 member
        obtain ⟨inTable, isWanted⟩ := mem_filter.1 isIn
        exact removed (mem_map.2 ⟨entry, mem_filter.2 ⟨mem_cons_of_mem _ inTable, isWanted⟩, equal⟩)
      have goOn := ih (nodup_cons.1 unique).2 rest
      rw [countOf, countOf] at goOn
      rw [countOf, countOf, filter_cons]
      by_cases isWanted : wanted first = true
      · have differs : first.key ≠ key := fun equal =>
          removed (mem_map.2 ⟨first, mem_filter.2 ⟨mem_cons_self, isWanted⟩, equal⟩)
        rw [isWanted, if_neg (by decide), goOn, sumWhere, if_neg (by simpa using differs), Nat.zero_add]
      · rw [Bool.eq_false_iff.2 isWanted, if_pos (by decide), sumWhere, sumWhere, goOn]

def infoOf (bag : List (κ × ι)) (key : κ) (info : ι) : ι := ((bag.find? fun held => held.1 = key).map Prod.snd).getD info

def addTo (bag : List (κ × ι)) (key : κ) (info : ι) : List (κ × ι) := (key, infoOf bag key info) :: bag

def dropFrom [DecidableEq ι] (bag : List (κ × ι)) (key : κ) : List (κ × ι) :=
  match bag.find? fun held => held.1 = key with
  | none => bag
  | some held => bag.erase held

variable [DecidableEq ι] {bag : List (κ × ι)}

theorem Represents.entry_of_held (represents : Represents table bag) {held : κ × ι}
    (member : held ∈ bag) :
    ∃ entry ∈ table, entry.key = held.1 ∧ entry.info = held.2 := by
  have some : 0 < bag.countP fun other => decide (other.1 = held.1) && decide (other.2 = held.2) :=
    countP_pos_iff.2 ⟨held, member, by simp⟩
  rw [← represents.sums fun key info => decide (key = held.1) && decide (info = held.2)] at some
  obtain ⟨entry, inTable, same⟩ := exists_of_sumWhere some
  simp only [Bool.and_eq_true, decide_eq_true_eq] at same
  exact ⟨entry, inTable, same⟩

theorem Represents.held_of_entry (represents : Represents table bag) (member : entry ∈ table) :
    (entry.key, entry.info) ∈ bag := by
  have counted : entry.count ≤ sumWhere (fun key info => decide (key = entry.key) && decide (info = entry.info)) table :=
    count_le_sumWhere member (by simp)
  rw [represents.sums] at counted
  obtain ⟨held, inBag, same⟩ := countP_pos_iff.1 (Nat.lt_of_lt_of_le (represents.positive entry member) counted)
  simp only [Bool.and_eq_true, decide_eq_true_eq] at same
  obtain ⟨sameKey, sameInfo⟩ := same
  rw [← sameKey, ← sameInfo]
  exact inBag

theorem Represents.find_bag (represents : Represents table bag)
    (found : find table key = some entry) : bag.find? (fun held => held.1 = key) = some
    (key, entry.info) := by
  obtain ⟨member, rfl⟩ := find_mem found
  cases search : bag.find? fun held => held.1 = entry.key with
  | none =>
    have absent := List.find?_eq_none.1 search _ (represents.held_of_entry member)
    exact absurd (decide_eq_true rfl) absent
  | some held =>
    obtain ⟨heldKey, heldInfo⟩ := held
    have same := List.find?_some search
    obtain rfl : heldKey = entry.key := of_decide_eq_true same
    obtain ⟨other, inTable, sameKey, sameInfo⟩ := represents.entry_of_held (mem_of_find?_eq_some search)
    have equal := represents.eq_of_key inTable member sameKey
    rw [← equal]
    exact congrArg some (Prod.ext rfl sameInfo.symm)

theorem Represents.find_bag_none (represents : Represents table bag)
    (absent : find table key = none) :
    bag.find? (fun held => held.1 = key) = none := by
  refine List.find?_eq_none.2 fun held member same => ?_
  obtain ⟨entry, inTable, sameKey, _⟩ := represents.entry_of_held member
  exact List.find?_eq_none.1 absent entry inTable (decide_eq_true (sameKey.trans (of_decide_eq_true same)))

theorem Represents.insert (represents : Represents table bag) (info : ι)
    (absent : find table key = none) :
    Represents (⟨key, info, 1⟩ :: table) (addTo bag key info) where
  unique := by
    refine nodup_cons.2 ⟨fun member => ?_, represents.unique⟩
    obtain ⟨entry, inTable, same⟩ := mem_map.1 member
    exact List.find?_eq_none.1 absent entry inTable (decide_eq_true same)
  positive := forall_mem_cons.2 ⟨Nat.zero_lt_one, represents.positive⟩
  sums wanted := by
    rw [addTo, infoOf, represents.find_bag_none absent, countP_cons, sumWhere, represents.sums, Nat.add_comm]
    rfl

theorem Represents.increment (represents : Represents table bag) (info : ι)
    (found : find table key = some entry) :
    Represents (setCount table key (entry.count + 1)) (addTo bag key info) where
  unique := by
    rw [map_key_setCount]
    exact represents.unique
  positive := positive_setCount represents.positive (Nat.succ_pos _)
  sums wanted := by
    obtain ⟨member, rfl⟩ := find_mem found
    have sum := @sumWhere_setCount _ _ _ table wanted entry represents.unique member (entry.count + 1)
    rw [addTo, infoOf, represents.find_bag found, countP_cons, ← represents.sums]
    simp only [Option.map_some, Option.getD_some]
    split at sum
    · rw [if_pos ‹_›]
      omega
    · rw [if_neg ‹_›]
      omega

theorem countP_erase_held {α : Type} [BEq α] [LawfulBEq α] {list : List α} {held : α}
    (member : held ∈ list)
    (wanted : α → Bool) : list.countP wanted =
    (list.erase held).countP wanted + if wanted held then 1 else 0 := by
  rw [(perm_cons_erase member).countP_eq, countP_cons]

theorem Represents.decrement (represents : Represents table bag) {key : κ} {entry : Counted κ ι}
    (found : find table key = some entry) (several : 1 < entry.count) :
    Represents (setCount table key (entry.count - 1)) (dropFrom bag key) where
  unique := by
    rw [map_key_setCount]
    exact represents.unique
  positive := positive_setCount represents.positive (Nat.sub_pos_of_lt several)
  sums wanted := by
    obtain ⟨member, rfl⟩ := find_mem found
    have sum := @sumWhere_setCount _ _ _ table wanted entry represents.unique member (entry.count - 1)
    have less := countP_erase_held (represents.held_of_entry member) fun held => wanted held.1 held.2
    rw [dropFrom, represents.find_bag found]
    rw [← represents.sums] at less
    dsimp only at less ⊢
    split at sum
    · rw [if_pos ‹_›] at less
      omega
    · rw [if_neg ‹_›] at less
      omega

theorem Represents.removeLast (represents : Represents table bag) {key : κ} {entry : Counted κ ι}
    (found : find table key = some entry) (last : entry.count = 1) :
    Represents (erase table key) (dropFrom bag key) where
  unique := (filter_sublist.map Counted.key).nodup represents.unique
  positive other member := represents.positive other (mem_of_mem_filter member)
  sums wanted := by
    obtain ⟨member, rfl⟩ := find_mem found
    have sum := @sumWhere_erase _ _ _ table wanted entry represents.unique member
    have less := countP_erase_held (represents.held_of_entry member) fun held => wanted held.1 held.2
    rw [dropFrom, represents.find_bag found]
    rw [← represents.sums, last] at *
    dsimp only at less ⊢
    split at sum
    · rw [if_pos ‹_›] at less
      omega
    · rw [if_neg ‹_›] at less
      omega

end Counted

end RpcFrmwrk.Library
