import Mathlib.Algebra.Order.Ring.Nat
import Mathlib.Data.Nat.ModEq

/-! Fixed-width big-endian byte strings. Owns `toBE`, the `width` big-endian bytes of a natural
number; `ofBE`, the number a byte string denotes; the round trip between them for numbers that fit
the width. -/

namespace RpcFrmwrk.Library

/-- The `width` big-endian bytes of `value`; higher digits are dropped. -/
def toBE : (width : Nat) → (value : Nat) → List UInt8
  | 0, _ => []
  | width + 1, value => UInt8.ofNat (value / 256 ^ width) :: toBE width value

/-- The number denoted by a big-endian byte string. -/
def ofBE : List UInt8 → Nat
  | [] => 0
  | head :: tail => head.toNat * 256 ^ tail.length + ofBE tail

@[simp] theorem length_toBE (width value : Nat) : (toBE width value).length = width := by
  induction width with
  | zero => rfl
  | succ width ih => simp [toBE, ih]

theorem ofBE_toBE (width value : Nat) : ofBE (toBE width value) = value % 256 ^ width := by
  induction width with
  | zero => simp [toBE, ofBE, Nat.mod_one]
  | succ width ih =>
    have digit : (UInt8.ofNat (value / 256 ^ width)).toNat = value / 256 ^ width % 256 := by
      simp [UInt8.toNat_ofNat']
    simp only [toBE, ofBE, length_toBE, digit, ih]
    rw [Nat.mod_pow_succ, Nat.mul_comm (value / 256 ^ width % 256), Nat.add_comm]

theorem ofBE_append (high low : List UInt8) : ofBE (high ++ low) = ofBE high * 256 ^ low.length + ofBE low := by
  induction high with
  | nil => simp [ofBE]
  | cons head tail ih =>
    rw [List.cons_append, ofBE, ofBE, ih, List.length_append, Nat.pow_add, Nat.add_mul,
      ← Nat.mul_assoc, Nat.add_assoc]

theorem ofBE_toBE_of_lt {width value : Nat} (fits : value < 256 ^ width) : ofBE (toBE width value) = value := by
  rw [ofBE_toBE, Nat.mod_eq_of_lt fits]

theorem ofBE_lt (bytes : List UInt8) : ofBE bytes < 256 ^ bytes.length := by
  induction bytes with
  | nil => simp [ofBE]
  | cons head tail ih =>
    have headLt : head.toNat + 1 ≤ 256 := UInt8.toNat_lt head
    have scaled : (head.toNat + 1) * 256 ^ tail.length ≤ 256 * 256 ^ tail.length :=
      Nat.mul_le_mul_right _ headLt
    rw [Nat.add_mul, Nat.one_mul] at scaled
    simp only [ofBE, List.length_cons, Nat.pow_succ]
    omega

theorem toBE_add_mul (width value high : Nat) : toBE width (value + high * 256 ^ width) = toBE width value := by
  induction width generalizing high with
  | zero => rfl
  | succ width ih =>
    have shifted : high * 256 ^ (width + 1) = high * 256 * 256 ^ width := by
      rw [Nat.pow_succ, Nat.mul_assoc, Nat.mul_comm 256]
    have digit : (value + high * 256 * 256 ^ width) / 256 ^ width = value / 256 ^ width + high * 256 :=
      Nat.add_mul_div_right _ _ (Nat.pow_pos (by decide))
    have same : UInt8.ofNat (value / 256 ^ width + high * 256) = UInt8.ofNat (value / 256 ^ width) := by
      apply UInt8.toNat_inj.1
      rw [UInt8.toNat_ofNat', UInt8.toNat_ofNat']
      exact Nat.add_mul_mod_self_right _ _ _
    rw [shifted, toBE, toBE, digit, same, ih]

theorem toBE_ofBE (bytes : List UInt8) : toBE bytes.length (ofBE bytes) = bytes := by
  induction bytes with
  | nil => rfl
  | cons head tail ih =>
    have small := ofBE_lt tail
    have digit : (head.toNat * 256 ^ tail.length + ofBE tail) / 256 ^ tail.length = head.toNat := by
      rw [Nat.add_comm, Nat.add_mul_div_right _ _ (Nat.pow_pos (by decide)), Nat.div_eq_of_lt small, Nat.zero_add]
    rw [List.length_cons, toBE, ofBE, digit, UInt8.ofNat_toNat, Nat.add_comm, toBE_add_mul, ih]

end RpcFrmwrk.Library
