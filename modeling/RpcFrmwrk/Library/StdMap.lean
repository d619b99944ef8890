import Mathlib.Data.List.Basic

/-! Associative containers with unique keys, in iteration order. A `StdMap` is the list of its
entries in the order an iterator visits them. Its `unique` field says that no two entries carry
equivalent keys, for the container's own key equivalence `same`. Its only insertion is the one that
leaves a present key alone. Owns `StdMap`, `insert` and the repeated insertion `insertAll`; the fact
that re-inserting the entries of a map in order rebuilds the map; `putEntry`, the insertion of other
languages, which replaces the value of a present key. -/

namespace RpcFrmwrk.Library

open List

universe u v

/-- Entries in iteration order, no two with equivalent keys. -/
structure StdMap (Key : Type u) (Val : Type v) (same : Key → Key → Bool) where
  entries : List (Key × Val)
  unique : entries.Pairwise fun earlier later => same earlier.1 later.1 = false

namespace StdMap

variable {Key : Type u} {Val : Type v} {same : Key → Key → Bool}

@[ext] theorem ext {left right : StdMap Key Val same}
    (entries : left.entries = right.entries) : left = right := by
  cases left
  cases right
  simp_all

def empty : StdMap Key Val same := ⟨[], List.Pairwise.nil⟩

@[simp] theorem entries_empty : (empty : StdMap Key Val same).entries = [] := rfl

/-- An equivalent key is already present. -/
def contains (map : StdMap Key Val same) (key : Key) : Bool :=
  map.entries.any fun entry => same entry.1 key

def insert (map : StdMap Key Val same) (entry : Key × Val) : StdMap Key Val same :=
  if present : map.contains entry.1 = true then map
  else
    ⟨map.entries ++ [entry], by
      rw [List.pairwise_append]
      refine ⟨map.unique, List.pairwise_singleton _ _, ?_⟩
      intro earlier member later isEntry
      rw [List.mem_singleton] at isEntry
      subst isEntry
      simp only [contains, List.any_eq_true, not_exists, not_and, Bool.not_eq_true] at present
      exact present earlier member⟩

theorem entries_insert_of_fresh {map : StdMap Key Val same} {entry : Key × Val}
    (fresh : ∀ earlier ∈ map.entries, same earlier.1 entry.1 = false) :
    (map.insert entry).entries = map.entries ++ [entry] := by
  have absent : ¬ map.contains entry.1 = true := by
    simp only [contains, any_eq_true, not_exists, not_and, Bool.not_eq_true]
    exact fresh
  simp [insert, absent]

def insertAll (map : StdMap Key Val same) (entries : List (Key × Val)) : StdMap Key Val same :=
  entries.foldl insert map

theorem entries_insertAll {entries : List (Key × Val)} {map : StdMap Key Val same}
    (unique : (map.entries ++ entries).Pairwise fun earlier later => same earlier.1 later.1 = false) :
    (map.insertAll entries).entries = map.entries ++ entries := by
  induction entries generalizing map with
  | nil => simp [insertAll]
  | cons head tail ih =>
    have fresh : ∀ earlier ∈ map.entries, same earlier.1 head.1 = false := by
      intro earlier member
      exact (pairwise_append.1 unique).2.2 earlier member head mem_cons_self
    have grown := entries_insert_of_fresh fresh
    have step : map.insertAll (head :: tail) = (map.insert head).insertAll tail := rfl
    rw [step, ih, grown, append_assoc, singleton_append]
    rw [grown, append_assoc, singleton_append]
    exact unique

theorem insertAll_self (map : StdMap Key Val same) :
    (empty : StdMap Key Val same).insertAll map.entries = map := by
  apply ext
  rw [entries_insertAll] <;> simp [map.unique]

end StdMap

section

variable {Key : Type u} {Val : Type v} {same : Key → Key → Bool}

def putEntry (same : Key → Key → Bool) (entries : List (Key × Val)) (entry : Key × Val) : List (Key × Val) :=
  if entries.any fun old => same old.1 entry.1 then
    entries.map fun old => if same old.1 entry.1 then (old.1, entry.2) else old
  else entries ++ [entry]

theorem length_putEntry_le (entries : List (Key × Val)) (entry : Key × Val) :
    (putEntry same entries entry).length ≤ entries.length + 1 := by
  rw [putEntry]
  split
  · rw [length_map]
    exact Nat.le_succ _
  · rw [length_append]
    exact Nat.le_refl _

theorem length_foldl_putEntry_le (more entries : List (Key × Val)) :
    (more.foldl (putEntry same) entries).length ≤ entries.length + more.length := by
  induction more generalizing entries with
  | nil => exact Nat.le_refl _
  | cons head tail ih =>
    have rest := ih (putEntry same entries head)
    have step := @length_putEntry_le _ _ same entries head
    rw [foldl_cons, length_cons]
    omega

theorem foldl_putEntry_of_length {more entries : List (Key × Val)}
    (full : (more.foldl (putEntry same) entries).length = entries.length + more.length) :
    more.foldl (putEntry same) entries = entries ++ more := by
  induction more generalizing entries with
  | nil => exact (append_nil _).symm
  | cons head tail ih =>
    have rest := @length_foldl_putEntry_le _ _ same tail (putEntry same entries head)
    rw [foldl_cons, length_cons] at full
    rw [foldl_cons]
    have put : putEntry same entries head = entries ++ [head] := by
      rw [putEntry] at rest full ⊢
      split at rest
      · next present =>
          rw [if_pos present] at full
          rw [length_map] at rest
          omega
      · next absent => rw [if_neg absent]
    rw [put] at full ⊢
    rw [ih (by rw [length_append, length_singleton]; omega), append_assoc]
    rfl

theorem foldl_putEntry_of_unique {more entries : List (Key × Val)}
    (unique : (entries ++ more).Pairwise fun earlier later => same earlier.1 later.1 = false) :
    more.foldl (putEntry same) entries = entries ++ more := by
  induction more generalizing entries with
  | nil => exact (append_nil _).symm
  | cons head tail ih =>
    have apart := (pairwise_append.1 unique).2.2
    have absent : ¬(entries.any fun old => same old.1 head.1) = true := by
      intro present
      obtain ⟨old, member, equal⟩ := any_eq_true.1 present
      rw [apart old member head mem_cons_self] at equal
      exact Bool.false_ne_true equal
    rw [foldl_cons, putEntry, if_neg absent, ih, append_assoc]
    · rfl
    · rw [append_assoc]
      exact unique

end

end RpcFrmwrk.Library
