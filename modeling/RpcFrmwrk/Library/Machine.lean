/-! Machines that take labelled steps. A label resolves every choice that is left open: who moves,
and what the environment answers. A step has no result where the label is not possible. Owns
`Machine`, its runs and its reachable states; the rule that an invariant kept by every step holds in
every reachable state; the machine whose steps all meet a condition. -/

namespace RpcFrmwrk.Library

structure Machine (σ α : Type) where
  start : σ
  step : σ → α → Option σ

namespace Machine

variable {σ α : Type}

/-- The state behind the labels. -/
def run (machine : Machine σ α) : σ → List α → Option σ
  | state, [] => some state
  | state, label :: labels => (machine.step state label).bind fun next => machine.run next labels

inductive Reachable (machine : Machine σ α) : σ → Prop where
  | start : Reachable machine machine.start
  | step {state next : σ} {label : α} (before : Reachable machine state)
      (moved : machine.step state label = some next) : Reachable machine next

variable {machine : Machine σ α}

theorem Reachable.run {state next : σ} (reachable : machine.Reachable state) {labels : List α}
    (ran : machine.run state labels = some next) : machine.Reachable next := by
  induction labels generalizing state with
  | nil =>
    cases ran
    exact reachable
  | cons label labels ih =>
    rw [Machine.run, Option.bind_eq_some_iff] at ran
    obtain ⟨middle, moved, rest⟩ := ran
    exact ih (reachable.step moved) rest

theorem Reachable.invariant {inv : σ → Prop} {state : σ} (reachable : machine.Reachable state)
    (start : inv machine.start)
    (kept : ∀ state label next, machine.Reachable state → inv state →
      machine.step state label = some next → inv next) : inv state := by
  induction reachable with
  | start => exact start
  | step before moved ih => exact kept _ _ _ before ih moved

def restrict (machine : Machine σ α) (meets : σ → α → Prop)
    [∀ state label, Decidable (meets state label)] : Machine σ α where
  start := machine.start
  step state label := if meets state label then machine.step state label else none

theorem restrict_step {meets : σ → α → Prop} [∀ state label, Decidable (meets state label)]
    {state next : σ} {label : α} :
    (machine.restrict meets).step state label = some next ↔
      meets state label ∧ machine.step state label = some next := by
  show (if meets state label then machine.step state label else none) = some next ↔ _
  by_cases holds : meets state label
  · rw [if_pos holds]
    exact ⟨fun moved => ⟨holds, moved⟩, And.right⟩
  · rw [if_neg holds]
    exact ⟨fun never => (nomatch never), fun both => absurd both.1 holds⟩

end Machine

end RpcFrmwrk.Library
