import Mathlib.Data.List.Basic

/-! Lists cut at a separator. Owns `segments`, the pieces between the separators, in their order;
`lastSep`, the position of the last separator, and the segment behind it. -/

namespace RpcFrmwrk.Library

open List

variable {α : Type} [DecidableEq α]

def consFirst (item : α) : List (List α) → List (List α)
  | [] => [[item]]
  | first :: others => (item :: first) :: others

def segments (sep : α) : List α → List (List α)
  | [] => [[]]
  | item :: rest => if item = sep then [] :: segments sep rest else consFirst item (segments sep rest)

def lastSep (sep : α) : List α → Option Nat
  | [] => none
  | item :: rest =>
    match lastSep sep rest with
    | some pos => some (pos + 1)
    | none => if item = sep then some 0 else none

variable {sep : α}

omit [DecidableEq α] in
theorem consFirst_append {item : α} {left right : List (List α)} (some : left ≠ []) :
    consFirst item (left ++ right) = consFirst item left ++ right := by
  cases left with
  | nil => exact absurd rfl some
  | cons first others => rfl

theorem segments_ne_nil (list : List α) : segments sep list ≠ [] := by
  cases list with
  | nil => exact cons_ne_nil _ _
  | cons item rest =>
    rw [segments]
    split
    · exact cons_ne_nil _ _
    · cases segments sep rest with
      | nil | cons => exact cons_ne_nil _ _

theorem segments_append (front last : List α) :
    segments sep (front ++ sep :: last) = segments sep front ++ segments sep last := by
  induction front with
  | nil =>
    have first : segments sep (sep :: last) = [] :: segments sep last := by rw [segments, if_pos rfl]
    rw [nil_append, first]
    rfl
  | cons item front ih =>
    rw [cons_append, segments, segments, ih]
    split
    · rfl
    · exact consFirst_append (segments_ne_nil front)

theorem segments_of_absent {list : List α} (absent : sep ∉ list) : segments sep list = [list] := by
  induction list with
  | nil => rfl
  | cons item rest ih =>
    rw [mem_cons, not_or] at absent
    rw [segments, if_neg fun same => absent.1 same.symm, ih absent.2, consFirst]

theorem segments_head {list : List α} (some : list ≠ []) :
    (segments sep list).head? = Option.some [] ↔ list.head? = Option.some sep := by
  cases list with
  | nil => exact absurd rfl some
  | cons item rest =>
    rw [segments, List.head?_cons]
    split
    · rename_i same
      exact ⟨fun _ => congrArg Option.some same, fun _ => rfl⟩
    · rename_i different
      refine ⟨?_, fun same => absurd (Option.some.inj same) different⟩
      intro empty
      cases parts : segments sep rest with
      | nil | cons =>
        rw [parts] at empty
        exact absurd (Option.some.inj empty) (cons_ne_nil _ _)

theorem absent_of_mem_segments {list piece : List α} (member : piece ∈ segments sep list) : sep ∉ piece := by
  induction list generalizing piece with
  | nil =>
    rw [segments, mem_singleton] at member
    rw [member]
    exact not_mem_nil
  | cons item rest ih =>
    rw [segments] at member
    split at member
    · rcases mem_cons.1 member with same | later
      · rw [same]
        exact not_mem_nil
      · exact ih later
    · rename_i different
      cases parts : segments sep rest with
      | nil => exact absurd parts (segments_ne_nil rest)
      | cons first others =>
        rw [parts, consFirst] at member
        rw [parts] at ih
        rcases mem_cons.1 member with same | later
        · rw [same, mem_cons, not_or]
          exact ⟨fun is => different is.symm, ih mem_cons_self⟩
        · exact ih (mem_cons_of_mem _ later)

theorem lastSep_none {list : List α} (none : lastSep sep list = none) : sep ∉ list := by
  induction list with
  | nil => exact not_mem_nil
  | cons item rest ih =>
    rw [lastSep] at none
    cases later : lastSep sep rest with
    | some pos =>
      rw [later] at none
      cases none
    | none =>
      rw [later] at none
      dsimp only at none
      split at none
      · cases none
      · rename_i different
        rw [mem_cons, not_or]
        exact ⟨fun same => different same.symm, ih later⟩

theorem lastSep_some {list : List α} {pos : Nat} (found : lastSep sep list = some pos) :
    list = list.take pos ++ sep :: list.drop (pos + 1) ∧ sep ∉ list.drop (pos + 1) := by
  induction list generalizing pos with
  | nil => cases found
  | cons item rest ih =>
    rw [lastSep] at found
    cases later : lastSep sep rest with
    | some before =>
      rw [later] at found
      cases found
      obtain ⟨split, absent⟩ := ih later
      refine ⟨?_, absent⟩
      rw [take_succ_cons, drop_succ_cons, cons_append, ← split]
    | none =>
      rw [later] at found
      dsimp only at found
      split at found
      · rename_i same
        cases found
        refine ⟨?_, lastSep_none later⟩
        rw [take_zero, nil_append, drop_succ_cons, drop_zero, same]
      · cases found

theorem lastSep_cut {list : List α} {pos : Nat} (found : lastSep sep list = some pos) :
    ∃ front last, list = front ++ sep :: last ∧ sep ∉ last ∧ front.length = pos ∧ list.take pos = front ∧
      list.take (pos + 1) = front ++ [sep] ∧ list.drop (pos + 1) = last := by
  obtain ⟨split, absent⟩ := lastSep_some found
  have lengths := congrArg List.length split
  rw [length_append, length_cons, length_take, length_drop] at lengths
  have front : (list.take pos).length = pos := by
    rw [length_take]
    omega
  refine ⟨_, _, split, absent, front, rfl, ?_, rfl⟩
  conv_lhs => rw [split, take_append, front]
  rw [take_of_length_le (by omega), Nat.add_sub_cancel_left]
  rfl

end RpcFrmwrk.Library
