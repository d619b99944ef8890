import Mathlib.Algebra.Ring.Nat
import Mathlib.Data.List.Perm.Basic

/-! A number of slots shared evenly among takers, each with a cap. Owns `evenShare`, the shares in
the order they are given out; their sum, and that two of them differ by at most one. -/

namespace RpcFrmwrk.Library

open List

/-- The shares of `count` takers in `total` slots: the average each, and one more for the
first ones as long as slots are left; nobody gets more than the cap. -/
def evenShare (cap total : Nat) : Nat → List Nat
  | 0 => []
  | count + 1 =>
    List.replicate (total % (count + 1)) (min cap (total / (count + 1) + 1)) ++
      List.replicate (count + 1 - total % (count + 1)) (min cap (total / (count + 1)))

variable {cap total count : Nat}

theorem evenShare_of_pos (cap total : Nat) (some : 0 < count) :
    evenShare cap total count =
      List.replicate (total % count) (min cap (total / count + 1)) ++
        List.replicate (count - total % count) (min cap (total / count)) := by
  cases count with
  | zero => omega
  | succ count => rfl

theorem mem_evenShare {share : Nat} (member : share ∈ evenShare cap total count) :
    share = min cap (total / count + 1) ∨ share = min cap (total / count) := by
  cases count with
  | zero => cases member
  | succ count =>
    rw [evenShare, mem_append, mem_replicate, mem_replicate] at member
    rcases member with ⟨_, rfl⟩ | ⟨_, rfl⟩
    · exact .inl rfl
    · exact .inr rfl

theorem evenShare_le_succ {share other : Nat} (one : share ∈ evenShare cap total count)
    (two : other ∈ evenShare cap total count) : share ≤ other + 1 := by
  rcases mem_evenShare one with rfl | rfl <;> rcases mem_evenShare two with rfl | rfl <;> omega

theorem sum_evenShare (cap total : Nat) (some : 0 < count) :
    (evenShare cap total count).sum = min total (cap * count) := by
  rw [evenShare_of_pos cap total some, sum_append, sum_replicate_nat, sum_replicate_nat]
  have whole : count * (total / count) + total % count = total := Nat.div_add_mod total count
  have rest : total % count < count := Nat.mod_lt _ some
  by_cases capped : cap ≤ total / count
  · have all : total % count * cap + (count - total % count) * cap = cap * count := by
      rw [← Nat.add_mul, Nat.add_sub_cancel' (Nat.le_of_lt rest), Nat.mul_comm]
    have enough : cap * count ≤ total :=
      calc cap * count ≤ total / count * count := Nat.mul_le_mul_right count capped
        _ ≤ total := Nat.div_mul_le_self total count
    rw [Nat.min_eq_left (Nat.le_succ_of_le capped), Nat.min_eq_left capped, all, Nat.min_eq_right enough]
  · have average : total / count + 1 ≤ cap := by omega
    have within : total ≤ cap * count :=
      calc total ≤ (total / count + 1) * count := by
            rw [Nat.add_mul, Nat.one_mul, Nat.mul_comm]
            omega
        _ ≤ cap * count := Nat.mul_le_mul_right count average
    rw [Nat.min_eq_right average, Nat.min_eq_right (Nat.le_of_succ_le average), Nat.min_eq_left within]
    calc total % count * (total / count + 1) + (count - total % count) * (total / count)
        = (total % count + (count - total % count)) * (total / count) + total % count := by
          rw [Nat.mul_add, Nat.add_mul]
          omega
      _ = total := by
          rw [Nat.add_sub_cancel' (Nat.le_of_lt rest)]
          exact whole

theorem evenShare_self (some : 0 < cap) (count : Nat) : evenShare cap count count = List.replicate count 1 := by
  cases count with
  | zero => rfl
  | succ count =>
    have one : min cap 1 = 1 := by omega
    rw [evenShare, Nat.mod_self, Nat.div_self (by omega), one, replicate_zero, nil_append, Nat.sub_zero]

theorem evenShare_of_average (some : 0 < count) :
    evenShare cap total count =
      ((List.replicate count (min cap (total / count))).take (total % count)).map
          (fun share => min cap (share + 1)) ++
        (List.replicate count (min cap (total / count))).drop (total % count) := by
  have rest : total % count < count := Nat.mod_lt _ some
  have again : min cap (min cap (total / count) + 1) = min cap (total / count + 1) := by omega
  rw [evenShare_of_pos cap total some, take_replicate, drop_replicate, map_replicate,
    again, Nat.min_eq_left (Nat.le_of_lt rest)]

end RpcFrmwrk.Library
