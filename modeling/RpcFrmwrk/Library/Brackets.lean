import Mathlib.Algebra.Order.Ring.Nat

/-! Sequences of actions with nested brackets. Owns `Event`, and `close`, the number of brackets
open behind a sequence; `Balanced` sequences, and the brackets open inside an enclosed one; the sum
of the brackets open in several sequences at a time. -/

namespace RpcFrmwrk.Library

open List

/-- An action, or one end of a bracket. -/
inductive Event (α : Type) where
  | enter
  | act (action : α)
  | leave

variable {α : Type}

/-- The brackets open behind the events, when `depth` are open in front of them.
No result when one is closed that is not open. -/
def close (depth : Nat) : List (Event α) → Option Nat
  | [] => some depth
  | .enter :: events => close (depth + 1) events
  | .act _ :: events => close depth events
  | .leave :: events => if depth = 0 then none else close (depth - 1) events

/-- Every bracket is closed inside the sequence. -/
def Balanced (events : List (Event α)) : Prop := close 0 events = some 0

def actions : List (Event α) → List α
  | [] => []
  | .act action :: events => action :: actions events
  | _ :: events => actions events

theorem close_append (depth : Nat) (front back : List (Event α)) :
    close depth (front ++ back) = (close depth front).bind fun inner => close inner back := by
  induction front generalizing depth with
  | nil => rfl
  | cons event front ih =>
    cases event with
    | enter => exact ih (depth + 1)
    | act action => exact ih depth
    | leave =>
      simp only [cons_append, close]
      by_cases closed : depth = 0
      · rw [if_pos closed, if_pos closed]
        rfl
      · rw [if_neg closed, if_neg closed]
        exact ih (depth - 1)

theorem close_add (depth : Nat) {result : Nat} {events : List (Event α)}
    (closed : close depth events = some result) (extra : Nat) :
    close (depth + extra) events = some (result + extra) := by
  induction events generalizing depth with
  | nil =>
    rw [close, Option.some.injEq] at closed ⊢
    rw [closed]
  | cons event events ih =>
    cases event with
    | enter =>
      have later := ih (depth + 1) closed
      rw [Nat.add_right_comm] at later
      exact later
    | act action => exact ih depth closed
    | leave =>
      rw [close] at closed ⊢
      obtain ⟨zero, closed⟩ := Option.ite_none_left_eq_some.1 closed
      rw [if_neg (by omega), Nat.sub_add_comm (by omega : 1 ≤ depth)]
      exact ih (depth - 1) closed

theorem actions_append (front back : List (Event α)) :
    actions (front ++ back) = actions front ++ actions back := by
  induction front with
  | nil => rfl
  | cons event front ih =>
    cases event with
    | enter | leave => exact ih
    | act action => exact congrArg (action :: ·) ih

def openBehind (front : List (Event α)) : Nat := (close 0 front).getD 0

theorem close_front {front back : List (Event α)} (balanced : Balanced (front ++ back)) :
    close 0 front = some (openBehind front) ∧ close (openBehind front) back = some 0 := by
  rw [Balanced, close_append] at balanced
  unfold openBehind
  cases closed : close 0 front with
  | none =>
    rw [closed] at balanced
    cases balanced
  | some depth =>
    rw [closed] at balanced
    exact ⟨rfl, balanced⟩

/-- A bracket around a balanced sequence. -/
def enclose (inner : List (Event α)) : List (Event α) := .enter :: (inner ++ [.leave])

theorem Balanced.enclose {inner : List (Event α)} (balanced : Balanced inner) : Balanced (enclose inner) := by
  have raised := close_add 0 balanced 1
  show close 1 (inner ++ [.leave]) = some 0
  rw [close_append]
  rw [Nat.zero_add] at raised
  rw [raised]
  rfl

theorem openBehind_pos {inner front back : List (Event α)} (balanced : Balanced inner)
    (whole : front ++ back = enclose inner) (begun : front ≠ []) (unfinished : back ≠ []) :
    0 < openBehind front := by
  obtain ⟨event, front, rfl⟩ := exists_cons_of_ne_nil begun
  obtain ⟨init, last, rfl⟩ := (eq_nil_or_concat back).resolve_left unfinished
  rw [enclose, cons_append, List.cons.injEq, concat_eq_append, ← append_assoc] at whole
  obtain ⟨rfl, tail⟩ := whole
  have split := (append_inj' tail rfl).1
  have closed : close 0 (front ++ init) = some 0 := split ▸ balanced
  have before := (close_front closed).1
  have raised := close_add 0 before 1
  have behind : close 0 (Event.enter :: front) = some (openBehind front + 1) := by
    rw [Nat.zero_add] at raised
    exact raised
  rw [openBehind, behind]
  exact Nat.succ_pos _

theorem sum_set {values : List Nat} {pos old : Nat} (new : Nat) (at? : values[pos]? = some old) :
    (values.set pos new).sum + old = values.sum + new := by
  induction values generalizing pos with
  | nil => cases at?
  | cons head tail ih =>
    cases pos with
    | zero =>
      rw [List.getElem?_cons_zero, Option.some.injEq] at at?
      simp only [set_cons_zero, sum_cons]
      omega
    | succ pos =>
      have later := ih at?
      simp only [set_cons_succ, sum_cons]
      omega

end RpcFrmwrk.Library
