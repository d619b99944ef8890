import Mathlib.Data.List.Nodup
import RpcFrmwrk.Ipc.Irp

/-! Requests that are complete, each with what it was answered with. Owns `Completed`, kept where
another request changes and where one more is complete; that a request is not answered twice; which
requests can be completed. -/

namespace RpcFrmwrk.Ipc

open List

theorem IrpState.ready_iff {state : IrpState} : (!isError (state.canContinue .ready).1) = true ↔ state = .ready := by
  constructor
  · intro continues
    by_contra busy
    rw [(IrpState.canContinue_of_ne busy .ready).1] at continues
    cases continues
  · rintro rfl
    rfl

variable {α : Type} {irps : Nat → IrpState} {known : List Nat} {entries : List (Nat × α)}

def Completed (irps : Nat → IrpState) (known : List Nat) (entries : List (Nat × α)) : Prop :=
  ∀ entry ∈ entries, irps entry.1 = .completed ∧ entry.1 ∈ known

namespace Completed

theorem not_mem (completed : Completed irps known entries) {irp : Nat}
    (unfinished : irps irp ≠ .completed) : irp ∉ entries.map Prod.fst := by
  intro member
  obtain ⟨entry, answered, rfl⟩ := mem_map.1 member
  exact unfinished (completed entry answered).1

theorem not_mem_of_new (completed : Completed irps known entries) {irp : Nat} (new : irp ∉ known) :
    irp ∉ entries.map Prod.fst := by
  intro member
  obtain ⟨entry, answered, rfl⟩ := mem_map.1 member
  exact new (completed entry answered).2

theorem submit (completed : Completed irps known entries) (own : Nat) :
    Completed irps (own :: known) entries := fun entry member =>
  ⟨(completed entry member).1, mem_cons_of_mem own (completed entry member).2⟩

theorem update (completed : Completed irps known entries) {irp : Nat} (state : IrpState)
    (unanswered : irp ∉ entries.map Prod.fst) :
    Completed (Function.update irps irp state) known entries := by
  intro entry member
  have other : entry.1 ≠ irp := fun same => unanswered (same ▸ mem_map_of_mem member)
  rw [Function.update_of_ne other]
  exact completed entry member

theorem append (completed : Completed irps known entries) {irp : Nat} (answer : α)
    (member : irp ∈ known) :
    Completed (Function.update irps irp .completed) known (entries ++ [(irp, answer)]) := by
  intro entry found
  rcases mem_append.1 found with old | new
  · refine ⟨?_, (completed entry old).2⟩
    by_cases same : entry.1 = irp
    · rw [same, Function.update_self]
    · rw [Function.update_of_ne same]
      exact (completed entry old).1
  · rw [mem_singleton.1 new]
    exact ⟨Function.update_self irp _ irps, member⟩

end Completed

theorem nodup_answer (once : (entries.map Prod.fst).Nodup) {irp : Nat} (answer : α)
    (unanswered : irp ∉ entries.map Prod.fst) :
    ((entries ++ [(irp, answer)]).map Prod.fst).Nodup := by
  rw [map_append, nodup_append]
  refine ⟨once, nodup_singleton irp, ?_⟩
  intro one answered other new same
  have own : other = irp := mem_singleton.1 new
  subst same own
  exact unanswered answered

end RpcFrmwrk.Ipc
