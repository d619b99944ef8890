import Mathlib.Logic.Function.Basic

/-! Threads of which one is inside of a call. Owns what a step of that thread leaves of the others;
what one thread of a list leaves of the others. -/

namespace RpcFrmwrk.Library

open List

variable {κ : Type} {calls : Nat → κ} {idle : κ} {tid : Nat}

theorem others_update (others : ∀ other, other ≠ tid → calls other = idle) (call : κ) :
    ∀ other, other ≠ tid → Function.update calls tid call other = idle := by
  intro other differs
  rw [Function.update_of_ne differs]
  exact others other differs

theorem idle_update (others : ∀ other, other ≠ tid → calls other = idle) :
    ∀ other, Function.update calls tid idle other = idle := by
  intro other
  by_cases same : other = tid
  · rw [same, Function.update_self]
  · exact others_update others idle other same

theorem task_set {tasks : List κ} {put found : κ} {other : Nat} (is : (tasks.set tid put)[other]? = some found) :
    other = tid ∧ found = put ∨ other ≠ tid ∧ tasks[other]? = some found := by
  rw [List.getElem?_set] at is
  by_cases same : tid = other
  · rw [if_pos same] at is
    exact .inl ⟨same.symm, (Option.some.inj (Option.ite_none_right_eq_some.1 is).2).symm⟩
  · rw [if_neg same] at is
    exact .inr ⟨fun equal => same equal.symm, is⟩

theorem mem_set_task {tasks : List κ} {put old task : κ} (is : tasks[tid]? = some old) (member : task ∈ tasks)
    (differs : task ≠ old) : task ∈ tasks.set tid put := by
  obtain ⟨other, found⟩ := mem_iff_getElem?.1 member
  have apart : tid ≠ other := by
    intro same
    rw [← same, is] at found
    exact differs (Option.some.inj found).symm
  exact mem_iff_getElem?.2 ⟨other, by rw [List.getElem?_set_ne apart, found]⟩

theorem countP_set_task {tasks : List κ} {old : κ} (put : κ) (wanted : κ → Bool) (is : tasks[tid]? = some old) :
    (tasks.set tid put).countP wanted + (wanted old).toNat = tasks.countP wanted + (wanted put).toNat := by
  induction tasks generalizing tid with
  | nil => cases is
  | cons head tail ih =>
    cases tid with
    | zero =>
      rw [List.getElem?_cons_zero, Option.some.injEq] at is
      subst is
      rw [set_cons_zero, countP_cons, countP_cons]
      cases wanted head <;> cases wanted put <;> simp
    | succ tid =>
      have later := ih is
      rw [set_cons_succ, countP_cons, countP_cons]
      omega

end RpcFrmwrk.Library
