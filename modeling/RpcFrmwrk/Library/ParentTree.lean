import Mathlib.Algebra.BigOperators.Group.List.Basic

/-! Trees whose nodes are numbered in the order they were made. Owns `visits`, the nodes a
depth-first walk meets; `ParentTree`, the children of each node as the nodes with that parent; that
a walk from the root meets each node once, and what stands at one node. -/

namespace RpcFrmwrk.Library

variable {children : Nat → List Nat} {parent : Nat → Option Nat} {size : Nat}

/-- Children in their order, each with all below it. -/
def visits (children : Nat → List Nat) : Nat → Nat → List Nat
  | 0, _ => []
  | fuel + 1, node => node :: (children node).flatMap (visits children fuel)

structure ParentTree (children : Nat → List Nat) (parent : Nat → Option Nat) (size : Nat) : Prop where
  counted : ∀ node child, (children node).count child = if parent child = some node then 1 else 0
  made : ∀ node child, parent child = some node → node < child ∧ child < size
  root : ∀ child, child < size → parent child = none → child = 0

namespace ParentTree

/-- A node is met with its parent, or because the walk starts there. -/
theorem count_visits (tree : ParentTree children parent size) (child : Nat) {fuel node : Nat}
    (enough : size ≤ fuel + node) (inside : node < size) : (visits children fuel node).count child =
      ((parent child).elim 0 fun owner => (visits children fuel node).count owner) + if node = child then 1 else 0 := by
  induction fuel generalizing node with
  | zero => omega
  | succ fuel ih =>
    have below (nodes : List Nat) (members : ∀ other ∈ nodes, node < other ∧ other < size) :
        (nodes.flatMap (visits children fuel)).count child =
          ((parent child).elim 0 fun owner => (nodes.flatMap (visits children fuel)).count owner) + nodes.count child := by
      induction nodes with
      | nil => cases parent child <;> rfl
      | cons head rest later =>
        have ⟨behind, inside⟩ := members head List.mem_cons_self
        have first := ih (by omega : size ≤ fuel + head) inside
        have others := later fun other member => members other (List.mem_cons_of_mem _ member)
        cases hasParent : parent child <;> simp [hasParent, List.count_cons] at first others ⊢ <;> omega
    have together := below (children node) fun other member => tree.made node other (by
      by_contra apart
      have counted := tree.counted node other
      rw [if_neg apart, List.count_eq_zero] at counted
      exact counted member)
    have counted := tree.counted node child
    cases hasParent : parent child with
    | none =>
      simp [hasParent] at counted
      simp [visits, hasParent, List.count_cons] at together ⊢
      omega
    | some owner =>
      simp [hasParent, @eq_comm _ owner] at counted
      simp [visits, hasParent, List.count_cons] at together ⊢
      omega

theorem count_visits_root (tree : ParentTree children parent size) {fuel : Nat} (enough : size ≤ fuel) {child : Nat}
    (inside : child < size) : (visits children fuel 0).count child = 1 := by
  induction child using Nat.strongRecOn with
  | _ child ih =>
    rw [tree.count_visits child enough (by omega)]
    cases hasParent : parent child with
    | none => simp [tree.root child inside hasParent]
    | some owner =>
      have ⟨before, _⟩ := tree.made owner child hasParent
      simp [ih owner before (by omega)]
      omega

/-- What stands at one node is met once. -/
theorem count_flatMap_visits {β : Type} [BEq β] (tree : ParentTree children parent size) {fuel : Nat} (enough : size ≤ fuel)
    {owner : Nat} (inside : owner < size) {content : Nat → List β} {item : β}
    (single : ∀ node, (content node).count item = if node = owner then 1 else 0) :
    ((visits children fuel 0).flatMap content).count item = 1 := by
  rw [← tree.count_visits_root enough inside]
  induction visits children fuel 0 with
  | nil => rfl
  | cons head rest ih => simp [single, ih, List.count_cons, Nat.add_comm]

end ParentTree

end RpcFrmwrk.Library
