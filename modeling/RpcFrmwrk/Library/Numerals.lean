import Mathlib.Data.List.TakeWhile
import Mathlib.Data.Nat.Digits.Defs

/-! Numbers as text, as the C library writes and reads them. Owns `decimal`, the digits of a number;
`strtoul`, which gives the value and where it stopped; what `strtoul` makes of the digits of a
number. -/

namespace RpcFrmwrk.Library

open List

def digitValue (char : UInt8) : Nat :=
  if 48 ≤ char ∧ char ≤ 57 then char.toNat - 48
  else if 97 ≤ char ∧ char ≤ 122 then char.toNat - 87
  else if 65 ≤ char ∧ char ≤ 90 then char.toNat - 55
  else 36

def isDigit (base : Nat) (char : UInt8) : Bool := digitValue char < base

/-- `isspace`. -/
def isSpace (char : UInt8) : Bool := char = 32 || (9 ≤ char && char ≤ 13)

def decimal (value : Nat) : List UInt8 :=
  if value = 0 then [48] else (Nat.digits 10 value).reverse.map fun digit => 48 + UInt8.ofNat digit

def valueOf (base : Nat) (digits : List UInt8) : Nat :=
  digits.foldl (fun value digit => value * base + digitValue digit) 0

def splitSign : List UInt8 → Bool × List UInt8
  | 45 :: text => (true, text)
  | 43 :: text => (false, text)
  | text => (false, text)

def skipHexPrefix : List UInt8 → List UInt8
  | zero :: mark :: digit :: text =>
    if zero = 48 ∧ (mark = 120 ∨ mark = 88) ∧ isDigit 16 digit then digit :: text
    else zero :: mark :: digit :: text
  | text => text

/-- The value at the front of a text, no larger than `most`, and the text behind it. -/
def strtoul (most base : Nat) (text : List UInt8) : Nat × List UInt8 :=
  let (negative, body) := splitSign (text.dropWhile isSpace)
  let body := if base = 16 then skipHexPrefix body else body
  let digits := body.takeWhile (isDigit base)
  if digits = [] then (0, text)
  else
    let value := valueOf base digits
    let rest := body.dropWhile (isDigit base)
    if most < value then (most, rest)
    else (if negative then (most + 1 - value) % (most + 1) else value, rest)

theorem digitValue_ascii {digit : Nat} (small : digit < 10) : digitValue (48 + UInt8.ofNat digit) = digit := by
  have all : ∀ digit : Fin 10, digitValue (48 + UInt8.ofNat digit) = digit := by decide
  exact all ⟨digit, small⟩

theorem mem_decimal {value : Nat} {char : UInt8} (member : char ∈ decimal value) :
    ∃ digit < 10, char = 48 + UInt8.ofNat digit := by
  unfold decimal at member
  by_cases zero : value = 0
  · rw [if_pos zero] at member
    exact ⟨0, by decide, (mem_singleton.1 member)⟩
  · rw [if_neg zero] at member
    obtain ⟨digit, among, rfl⟩ := mem_map.1 member
    exact ⟨digit, Nat.digits_lt_base (by decide) (mem_reverse.1 among), rfl⟩

theorem isDigit_decimal {value : Nat} {char : UInt8} (member : char ∈ decimal value) : isDigit 10 char = true := by
  obtain ⟨digit, small, rfl⟩ := mem_decimal member
  rw [isDigit, digitValue_ascii small]
  exact decide_eq_true small

theorem decimal_ne_nil (value : Nat) : decimal value ≠ [] := by
  unfold decimal
  by_cases zero : value = 0
  · rw [if_pos zero]
    exact cons_ne_nil _ _
  · rw [if_neg zero]
    intro never
    rw [map_eq_nil_iff, reverse_eq_nil_iff] at never
    exact Nat.digits_ne_nil_iff_ne_zero.2 zero never

theorem valueOf_decimal (value : Nat) : valueOf 10 (decimal value) = value := by
  unfold decimal
  by_cases zero : value = 0
  · rw [if_pos zero, zero]
    rfl
  · have digits {all : List Nat} (small : ∀ digit ∈ all, digit < 10) :
        valueOf 10 (all.reverse.map fun digit => 48 + UInt8.ofNat digit) = Nat.ofDigits 10 all := by
      induction all with
      | nil => rfl
      | cons digit all ih =>
        have rest := ih fun other member => small other (mem_cons_of_mem digit member)
        unfold valueOf at rest ⊢
        rw [reverse_cons, map_append, foldl_append, rest, map_singleton, foldl_cons,
          foldl_nil, digitValue_ascii (small digit mem_cons_self), Nat.ofDigits_cons,
          Nat.mul_comm, Nat.add_comm]
    rw [if_neg zero, digits fun digit member => Nat.digits_lt_base (by decide) member, Nat.ofDigits_digits]

/-- Of the digits of a number everything is read, and its value if it is not too large. -/
theorem strtoul_decimal (most value : Nat) : strtoul most 10 (decimal value) = (min value most, []) := by
  have digits := valueOf_decimal value
  have every {char : UInt8} := @isDigit_decimal value char
  have nonempty := decimal_ne_nil value
  obtain ⟨first, rest, whole⟩ := exists_cons_of_ne_nil nonempty
  obtain ⟨digit, small, ascii⟩ := @mem_decimal value first (whole ▸ mem_cons_self)
  have plain : ∀ digit : Fin 10, isSpace (48 + UInt8.ofNat digit) = false ∧
      48 + UInt8.ofNat digit ≠ 45 ∧ 48 + UInt8.ofNat digit ≠ 43 := by decide
  obtain ⟨noSpace, noMinus, noPlus⟩ := plain ⟨digit, small⟩
  rw [← ascii] at noSpace noMinus noPlus
  have front : (decimal value).dropWhile isSpace = decimal value := by
    rw [whole, dropWhile_cons_of_neg (by rw [noSpace]; exact Bool.false_ne_true)]
  have unsigned : splitSign (decimal value) = (false, decimal value) := by
    rw [whole]
    unfold splitSign
    split
    · next same => exact absurd (List.cons.inj same).1 noMinus
    · next same => exact absurd (List.cons.inj same).1 noPlus
    · rfl
  have taken : (decimal value).takeWhile (isDigit 10) = decimal value :=
    takeWhile_eq_self_iff.2 fun _ member => every member
  have left : (decimal value).dropWhile (isDigit 10) = [] :=
    dropWhile_eq_nil_iff.2 fun _ member => every member
  unfold strtoul
  rw [front, unsigned]
  simp only
  rw [if_neg (show ¬ 10 = 16 by decide), taken, left, if_neg nonempty, digits]
  by_cases large : most < value
  · rw [if_pos large, Nat.min_eq_right (Nat.le_of_lt large)]
  · rw [if_neg large, Nat.min_eq_left (Nat.le_of_not_lt large)]
    rfl

end RpcFrmwrk.Library
