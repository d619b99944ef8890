import Mathlib.Data.List.TakeWhile
import RpcFrmwrk.Combase.Buffer

/-! The text form of bytes in a JSON document. Owns `base64_encode` and `base64_decode` with the
buffers that they resize; what is decoded from a text that begins with an encoded one. -/

namespace RpcFrmwrk.Combase

open List

/-- How a method ends that may throw. -/
inductive Ended (α : Type) where
  /-- Memory outside of a buffer, or behind a null pointer, is touched. -/
  | fault
  /-- An exception leaves the method. -/
  | raised
  | failed (ret : Status)
  /-- `ret` is not negative. -/
  | done (ret : Nat) (value : α)

/-- `base64_chars`. -/
def base64Chars : List UInt8 :=
  "ABCDEFGHIJKLMNOPQRSTUVWXYZabcdefghijklmnopqrstuvwxyz0123456789+/".toList.map fun char => UInt8.ofNat char.toNat

def base64Char (index : Nat) : UInt8 := base64Chars.getD index 0

/-- `is_base64`. -/
def isBase64 (char : UInt8) : Bool :=
  (48 ≤ char && char ≤ 57) || (65 ≤ char && char ≤ 90) || (97 ≤ char && char ≤ 122) || char = 43 || char = 47

/-- `base64_enc_len`. -/
def base64EncLen (length : Nat) : Nat := (length + 2) / 3 * 4

/-- `base64_dec_len`, with the last four characters. -/
def base64DecLen (length : Nat) (padding : List UInt8) : Nat :=
  let paddingNum :=
    if padding.getD 3 0 = 61 then if padding.getD 2 0 = 61 then 2 else 1 else 0
  length / 4 * 3 - paddingNum

/-- The loop of `base64_encode`. -/
def base64Text : List UInt8 → List UInt8
  | first :: second :: third :: bytes =>
    base64Char (first.toNat / 4) :: base64Char (first.toNat % 4 * 16 + second.toNat / 16) ::
      base64Char (second.toNat % 16 * 4 + third.toNat / 64) :: base64Char (third.toNat % 64) :: base64Text bytes
  | [first, second] =>
    [base64Char (first.toNat / 4), base64Char (first.toNat % 4 * 16 + second.toNat / 16),
      base64Char (second.toNat % 16 * 4), 61]
  | [first] => [base64Char (first.toNat / 4), base64Char (first.toNat % 4 * 16), 61, 61]
  | [] => []

/-- `base64_encode` to a new buffer. The status of `Resize` is dropped; resized to nothing, the buffer has a
null pointer. -/
def base64Encode (bytes : List UInt8) : Ended (Option (List UInt8)) :=
  let destBytes := base64EncLen bytes.length
  if maxBytesPerBuffer < destBytes then .fault
  else .done destBytes (if destBytes = 0 then none else some (base64Text bytes))

/-- A character that the loop of `base64_decode` takes. -/
def isBase64Taken (char : UInt8) : Bool := char != 61 && isBase64 char

/-- The position of a character. -/
def base64Index (char : UInt8) : Nat := base64Chars.idxOf char

/-- The loop of `base64_decode` over the characters it takes. -/
def base64Bytes : List UInt8 → List UInt8
  | first :: second :: third :: fourth :: chars =>
    UInt8.ofNat (base64Index first * 4 + base64Index second / 16) ::
      UInt8.ofNat (base64Index second % 16 * 16 + base64Index third / 4) ::
        UInt8.ofNat (base64Index third % 4 * 64 + base64Index fourth) :: base64Bytes chars
  | [first, second, third] =>
    [UInt8.ofNat (base64Index first * 4 + base64Index second / 16),
      UInt8.ofNat (base64Index second % 16 * 16 + base64Index third / 4)]
  | [first, second] => [UInt8.ofNat (base64Index first * 4 + base64Index second / 16)]
  | _ => []

/-- `base64_decode` to a new buffer. -/
def base64Decode (text : List UInt8) : Except Status (List UInt8) :=
  if text.length < 4 then .error .einval
  else if text.length % 4 ≠ 0 then .error .einval
  else
    let destBytes := base64DecLen text.length (text.drop (text.length - 4))
    if destBytes = 0 then .error .einval
    else if maxBytesPerBuffer < destBytes then .error .e2big
    else
      let bytes := base64Bytes (text.takeWhile isBase64Taken)
      if bytes.length ≠ destBytes then .error .erange else .ok bytes

theorem base64Char_spec {index : Nat} (small : index < 64) :
    base64Index (base64Char index) = index ∧ isBase64Taken (base64Char index) = true := by
  have all : ∀ index : Fin 64, base64Index (base64Char index) = index ∧
      isBase64Taken (base64Char index) = true := by decide +kernel
  exact all ⟨index, small⟩

theorem base64Bytes_text (bytes tail : List UInt8) :
    ∃ rest, base64Bytes ((base64Text bytes ++ tail).takeWhile isBase64Taken) =
        bytes ++ rest ∧ (bytes.length % 3 ≠ 0 → rest = []) ∧
      (tail = [] → rest = []) := by
  have ends (rest : List UInt8) : ((61 :: rest).takeWhile isBase64Taken) = [] := rfl
  induction bytes using base64Text.induct with
  | case1 first second third bytes ih =>
    obtain ⟨rest, whole, padded, alone⟩ := ih
    have one := first.toNat_lt
    have two := second.toNat_lt
    have three := third.toNat_lt
    obtain ⟨index1, taken1⟩ := @base64Char_spec (first.toNat / 4) (by omega)
    obtain ⟨index2, taken2⟩ := @base64Char_spec (first.toNat % 4 * 16 + second.toNat / 16) (by omega)
    obtain ⟨index3, taken3⟩ := @base64Char_spec (second.toNat % 16 * 4 + third.toNat / 64) (by omega)
    obtain ⟨index4, taken4⟩ := @base64Char_spec (third.toNat % 64) (by omega)
    refine ⟨rest, ?_, fun short => padded ?_, alone⟩
    · rw [base64Text]
      simp only [cons_append]
      rw [takeWhile_cons_of_pos taken1, takeWhile_cons_of_pos taken2, takeWhile_cons_of_pos taken3,
        takeWhile_cons_of_pos taken4, base64Bytes, index1, index2, index3, index4, whole]
      have byte1 : first.toNat / 4 * 4 + (first.toNat % 4 * 16 + second.toNat / 16) / 16 = first.toNat := by omega
      have byte2 : (first.toNat % 4 * 16 + second.toNat / 16) % 16 * 16 +
          (second.toNat % 16 * 4 + third.toNat / 64) / 4 = second.toNat := by omega
      have byte3 : (second.toNat % 16 * 4 + third.toNat / 64) % 4 * 64 + third.toNat % 64 = third.toNat := by omega
      rw [byte1, byte2, byte3]
      simp only [UInt8.ofNat_toNat]
    · simp only [length_cons] at short
      omega
  | case2 first second =>
    have one := first.toNat_lt
    have two := second.toNat_lt
    obtain ⟨index1, taken1⟩ := @base64Char_spec (first.toNat / 4) (by omega)
    obtain ⟨index2, taken2⟩ := @base64Char_spec (first.toNat % 4 * 16 + second.toNat / 16) (by omega)
    obtain ⟨index3, taken3⟩ := @base64Char_spec (second.toNat % 16 * 4) (by omega)
    refine ⟨[], ?_, fun _ => rfl, fun _ => rfl⟩
    rw [base64Text]
    simp only [cons_append, nil_append]
    rw [takeWhile_cons_of_pos taken1, takeWhile_cons_of_pos taken2, takeWhile_cons_of_pos taken3,
      ends, base64Bytes, index1, index2, index3]
    have byte1 : first.toNat / 4 * 4 + (first.toNat % 4 * 16 + second.toNat / 16) / 16 = first.toNat := by omega
    have byte2 : (first.toNat % 4 * 16 + second.toNat / 16) % 16 * 16 + second.toNat % 16 * 4 / 4 =
        second.toNat := by omega
    rw [byte1, byte2]
    simp only [UInt8.ofNat_toNat]
  | case3 first =>
    have one := first.toNat_lt
    obtain ⟨index1, taken1⟩ := @base64Char_spec (first.toNat / 4) (by omega)
    obtain ⟨index2, taken2⟩ := @base64Char_spec (first.toNat % 4 * 16) (by omega)
    refine ⟨[], ?_, fun _ => rfl, fun _ => rfl⟩
    rw [base64Text]
    simp only [cons_append, nil_append]
    rw [takeWhile_cons_of_pos taken1, takeWhile_cons_of_pos taken2, ends, base64Bytes, index1, index2]
    have byte1 : first.toNat / 4 * 4 + first.toNat % 4 * 16 / 16 = first.toNat := by omega
    rw [byte1]
    simp only [UInt8.ofNat_toNat]
  | case4 =>
    refine ⟨_, rfl, fun never => absurd rfl never, fun nothing => ?_⟩
    rw [nothing]
    rfl

/-- Decoding, when it succeeds on a text that begins with an encoded one, gives the encoded bytes first. -/
theorem prefix_of_base64Decode {bytes tail decoded : List UInt8}
    (ran : base64Decode (base64Text bytes ++ tail) = .ok decoded) :
    ∃ rest, decoded = bytes ++ rest ∧ (bytes.length % 3 ≠ 0 → rest = []) := by
  obtain ⟨rest, whole, padded, _⟩ := base64Bytes_text bytes tail
  unfold base64Decode at ran
  split at ran
  · cases ran
  split at ran
  · cases ran
  simp only at ran
  split at ran
  · cases ran
  split at ran
  · cases ran
  split at ran
  · cases ran
  · rw [whole] at ran
    exact ⟨rest, (Except.ok.inj ran).symm, padded⟩

end RpcFrmwrk.Combase
