import Mathlib.Order.Interval.Finset.Nat

/-! Arrays of bytes as arrays of bits. Bit `index` is the bit `index % 8` of the byte `index / 8`,
the lowest one first. Owns `bitAt`, `setBit` and `clearBit`, and what they do to each bit; the clear
bits of an interval, and how their number changes when bits of it are set or cleared; `Takes`, the
effect of setting the bits of a list that were clear. -/

namespace RpcFrmwrk.Library

open List

abbrev Bytes := Nat → BitVec 8

namespace Bytes

def bitAt (bytes : Bytes) (index : Nat) : Bool := (bytes (index / 8)).getLsbD (index % 8)

/-- `bytes[ index / 8 ] |= 1 << index % 8`. -/
def setBit (bytes : Bytes) (index : Nat) : Bytes := fun pos =>
  if pos = index / 8 then bytes pos ||| (1#8 <<< (index % 8)) else bytes pos

/-- `bytes[ index / 8 ] &= ~( 1 << index % 8 )`. -/
def clearBit (bytes : Bytes) (index : Nat) : Bytes := fun pos =>
  if pos = index / 8 then bytes pos &&& ~~~(1#8 <<< (index % 8)) else bytes pos

variable {bytes : Bytes}

theorem getLsbD_one_shiftLeft {left right : Nat} (within : right < 8) :
    (1#8 <<< left).getLsbD right = decide (right = left) := by
  rw [BitVec.getLsbD_shiftLeft, BitVec.getLsbD_one]
  simp only [within, decide_true, Bool.true_and]
  by_cases before : right < left
  · have unequal : right ≠ left := Nat.ne_of_lt before
    simp only [before, decide_true, Bool.not_true, Bool.false_and, unequal, decide_false]
  · have same : right - left = 0 ↔ right = left := by omega
    simp only [before, decide_false, Bool.not_false, Bool.true_and, same, Nat.zero_lt_succ, decide_true]

theorem bitAt_setBit (bytes : Bytes) (index pos : Nat) :
    (bytes.setBit index).bitAt pos = (bytes.bitAt pos || decide (pos = index)) := by
  have within : pos % 8 < 8 := Nat.mod_lt _ (by decide)
  rw [bitAt, setBit, bitAt]
  by_cases byte : pos / 8 = index / 8
  · have same : pos % 8 = index % 8 ↔ pos = index := by omega
    rw [if_pos byte, BitVec.getLsbD_or, getLsbD_one_shiftLeft within, decide_eq_decide.2 same]
  · have other : pos ≠ index := fun same => byte (by rw [same])
    rw [if_neg byte, decide_eq_false other, Bool.or_false]

theorem bitAt_clearBit (bytes : Bytes) (index pos : Nat) :
    (bytes.clearBit index).bitAt pos = (bytes.bitAt pos && !decide (pos = index)) := by
  have within : pos % 8 < 8 := Nat.mod_lt _ (by decide)
  rw [bitAt, clearBit, bitAt]
  by_cases byte : pos / 8 = index / 8
  · have same : pos % 8 = index % 8 ↔ pos = index := by omega
    rw [if_pos byte, BitVec.getLsbD_and, BitVec.getLsbD_not, getLsbD_one_shiftLeft within, decide_eq_decide.2 same,
      decide_eq_true within, Bool.true_and]
  · have other : pos ≠ index := fun same => byte (by rw [same])
    rw [if_neg byte, decide_eq_false other, Bool.not_false, Bool.and_true]

theorem bitAt_of_full {pos : Nat} (full : bytes (pos / 8) = BitVec.allOnes 8) : bytes.bitAt pos = true := by
  rw [bitAt, full, BitVec.getLsbD_allOnes, decide_eq_true_iff]
  exact Nat.mod_lt _ (by decide)

theorem exists_clear {byte : Nat} (free : bytes byte ≠ BitVec.allOnes 8) :
    ∃ bit < 8, bytes.bitAt (byte * 8 + bit) = false := by
  apply Decidable.byContradiction
  intro none
  apply free
  apply BitVec.eq_of_getLsbD_eq
  intro bit within
  have place : (byte * 8 + bit) / 8 = byte ∧ (byte * 8 + bit) % 8 = bit := by omega
  rw [BitVec.getLsbD_allOnes, decide_eq_true within]
  cases value : (bytes byte).getLsbD bit with
  | true => rfl
  | false =>
    refine absurd ⟨bit, within, ?_⟩ none
    rw [bitAt, place.1, place.2, value]

/-- The clear bits from `low` up to `high`. -/
def clearBits (bytes : Bytes) (low high : Nat) : Finset Nat :=
  (Finset.Ico low high).filter fun index => bytes.bitAt index = false

variable {low high : Nat}

theorem mem_clearBits {index : Nat} :
    index ∈ bytes.clearBits low high ↔ (low ≤ index ∧ index < high) ∧ bytes.bitAt index = false := by
  rw [clearBits, Finset.mem_filter, Finset.mem_Ico]

theorem card_clearBits_le : (bytes.clearBits low high).card ≤ high - low := by
  apply (Finset.card_filter_le _ _).trans
  rw [Nat.card_Ico]

theorem clear_of_card {index : Nat} (all : (bytes.clearBits low high).card = high - low) (above : low ≤ index)
    (below : index < high) : bytes.bitAt index = false := by
  have whole : bytes.clearBits low high = Finset.Ico low high := by
    apply Finset.eq_of_subset_of_card_le (Finset.filter_subset _ _)
    rw [Nat.card_Ico]
    exact Nat.le_of_eq all.symm
  have member : index ∈ bytes.clearBits low high := by
    rw [whole, Finset.mem_Ico]
    exact ⟨above, below⟩
  exact (mem_clearBits.1 member).2

theorem card_of_clear (clear : ∀ index, low ≤ index → index < high → bytes.bitAt index = false) :
    (bytes.clearBits low high).card = high - low := by
  have whole : bytes.clearBits low high = Finset.Ico low high := by
    apply Finset.filter_true_of_mem
    intro index member
    obtain ⟨above, below⟩ := Finset.mem_Ico.1 member
    exact clear index above below
  rw [whole, Nat.card_Ico]

theorem card_clearBit {index : Nat} (above : low ≤ index) (below : index < high) (set : bytes.bitAt index = true) :
    ((bytes.clearBit index).clearBits low high).card = (bytes.clearBits low high).card + 1 := by
  have absent : index ∉ bytes.clearBits low high := by
    intro member
    exact Bool.false_ne_true ((mem_clearBits.1 member).2.symm.trans set)
  rw [← Finset.card_insert_of_notMem absent]
  congr 1
  ext pos
  rw [Finset.mem_insert, mem_clearBits, mem_clearBits, bitAt_clearBit]
  by_cases same : pos = index
  · rw [same]
    simp [above, below]
  · simp [same]

/-- The bits of the list were clear, and are set now. -/
structure Takes (before : Bytes) (taken : List Nat) (after : Bytes) : Prop where
  nodup : taken.Nodup
  clear : ∀ index ∈ taken, before.bitAt index = false
  bits : ∀ pos, after.bitAt pos = (before.bitAt pos || decide (pos ∈ taken))

theorem Takes.nil (bytes : Bytes) : Takes bytes [] bytes where
  nodup := nodup_nil
  clear _ member := absurd member not_mem_nil
  bits pos := by rw [decide_eq_false not_mem_nil, Bool.or_false]

theorem Takes.append {first second third : Bytes} {taken more : List Nat} (before : Takes first taken second)
    (behind : Takes second more third) : Takes first (taken ++ more) third where
  nodup := by
    refine nodup_append.2 ⟨before.nodup, behind.nodup, ?_⟩
    intro index member other later same
    have clear := behind.clear other later
    rw [before.bits, ← same, decide_eq_true member, Bool.or_true] at clear
    exact Bool.false_ne_true clear.symm
  clear index member := by
    rcases mem_append.1 member with early | late
    · exact before.clear index early
    · have clear := behind.clear index late
      rw [before.bits, Bool.or_eq_false_iff] at clear
      exact clear.1
  bits pos := by
    rw [behind.bits, before.bits, Bool.or_assoc]
    congr 1
    rw [← Bool.decide_or]
    exact decide_eq_decide.2 mem_append.symm

theorem Takes.single {index : Nat} (clear : bytes.bitAt index = false) :
    Takes bytes [index] (bytes.setBit index) where
  nodup := nodup_singleton _
  clear other member := by
    rw [mem_singleton.1 member]
    exact clear
  bits pos := by
    rw [bitAt_setBit]
    congr 1
    exact decide_eq_decide.2 mem_singleton.symm

theorem Takes.card {before after : Bytes} {taken : List Nat} (takes : Takes before taken after)
    (within : ∀ index ∈ taken, low ≤ index ∧ index < high) :
    (after.clearBits low high).card + taken.length = (before.clearBits low high).card := by
  have subset : taken.toFinset ⊆ before.clearBits low high := by
    intro index member
    have among := mem_toFinset.1 member
    exact mem_clearBits.2 ⟨within index among, takes.clear index among⟩
  have rest : after.clearBits low high = before.clearBits low high \ taken.toFinset := by
    ext pos
    rw [Finset.mem_sdiff, mem_clearBits, mem_clearBits, mem_toFinset, takes.bits, Bool.or_eq_false_iff,
      decide_eq_false_iff_not, and_assoc, and_assoc, and_assoc]
  rw [rest, ← toFinset_card_of_nodup takes.nodup]
  exact Finset.card_sdiff_add_card_eq_card subset

end Bytes

end RpcFrmwrk.Library
