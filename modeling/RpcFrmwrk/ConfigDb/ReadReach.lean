import RpcFrmwrk.ConfigDb.ReadBounds

/-! What `CConfigDb2::Deserialize` reads when its caller tells it too large a size. The comparisons
with `pEnd` keep the reader in the size it is told. Where the buffer ends before, each of the
counted values has to be inside by itself. Owns `Raw.Reach` and `Raw.within_reach`, for any end of
the buffer. -/

namespace RpcFrmwrk.ConfigDb.Raw

open RpcFrmwrk.Library Reading

variable {H : ConfigHost} (L : Loader H) (memory : Nat → UInt8) (limit : Nat)

/-- A length word in front of `pEnd` is inside, and so are the bytes it counts, if they are read. -/
def CountedReach (granted : Nat → Prop) (pEnd pLoc : Nat) : Prop :=
  pLoc + 4 ≤ pEnd → pLoc + 4 ≤ limit ∧
    (pLoc + 4 + lengthAt memory pLoc ≤ pEnd → granted (lengthAt memory pLoc) →
      pLoc + 4 + lengthAt memory pLoc ≤ limit)

/-- As `ValueInside`, with the counted values. -/
def ValueReach (reach : Nat → Nat → Prop) (pEnd : Nat) (byType : UInt8) (pLoc : Nat) : Prop :=
  pLoc + width byType ≤ limit ∧
    (byType = 7 → CountedReach memory limit (fun _ => True) pEnd pLoc) ∧
    (byType = 8 → pLoc + 4 ≤ pEnd → pLoc + 4 ≤ limit ∧
      (pLoc + 4 + lengthAt memory pLoc ≤ pEnd →
        MsgInside memory limit (pLoc + 4) (lengthAt memory pLoc))) ∧
    (byType = 9 → pLoc + objLen (objHdrAt memory pLoc) ≤ pEnd →
      ObjInside L memory limit reach pLoc (objLen (objHdrAt memory pLoc))) ∧
    (byType = 10 → CountedReach memory limit (fun len => len ≤ maxBytesPerBuffer) pEnd pLoc)

/-- Eight bytes, whatever the type, and what the value needs, of each property the loop comes to. -/
def PropsReach (formed reach : Nat → Nat → Prop) (pEnd : Nat) : Nat → Nat → Prop
  | 0, _ => True
  | count + 1, pLoc =>
    pLoc + 8 ≤ limit ∧ ValueReach L memory limit reach pEnd (memory (pLoc + 4)) (pLoc + 5) ∧
      ∀ next, ValueFormed L memory formed pEnd (memory (pLoc + 4)) (pLoc + 5) next →
        PropsReach formed reach pEnd count next

def Reach : Nat → Nat → Nat → Prop
  | 0, _, _ => True
  | depth + 1, pBuf, dwSize =>
    dwSize ≠ 0 → pBuf + seriHeader ≤ limit ∧
      (HeaderFits (configHdrAt memory pBuf) dwSize →
        PropsReach L memory limit (Formed L memory depth) (Reach depth) (pBuf + dwSize)
          (hdrCount (configHdrAt memory pBuf)) (pBuf + seriHeader))

variable {L memory limit}
variable {nested : Nat → Nat → Reading Status (List (Int32 × Value H))}
variable {formed reach : Nat → Nat → Prop} {pEnd pLoc : Nat}

theorem within_string_reach :
    (deserializeString (H := H) pEnd pLoc).Within limit memory ↔
      CountedReach memory limit (fun _ => True) pEnd pLoc := by
  simp only [deserializeString, within_bind, within_readLength, yields_readLength, within_ite, within_pure,
    within_fail, within_bytes, CountedReach]
  grind

theorem within_byteArr_reach :
    (deserializeByteArr (H := H) pEnd pLoc).Within limit memory ↔
      CountedReach memory limit (fun len => len ≤ maxBytesPerBuffer) pEnd pLoc := by
  simp only [deserializeByteArr, within_bind, within_readLength, yields_readLength, within_ite, within_pure,
    within_fail, within_bytes, CountedReach]
  grind

theorem within_dMsg_reach :
    (deserializeDMsg L pEnd pLoc).Within limit memory ↔
      (pLoc + 4 ≤ pEnd → pLoc + 4 ≤ limit ∧
        (pLoc + 4 + lengthAt memory pLoc ≤ pEnd →
          MsgInside memory limit (pLoc + 4) (lengthAt memory pLoc))) := by
  simp only [deserializeDMsg, within_bind, within_readLength, yields_readLength, within_ite, within_pure,
    within_fail, within_msg]
  grind

theorem within_value_reach (begins : pLoc + 3 ≤ limit)
    (reads : ∀ len, pLoc + len ≤ pEnd → ((nested pLoc len).Within limit memory ↔ reach pLoc len))
    (byType : UInt8) :
    (deserializeValue L nested pEnd byType pLoc).Within limit memory ↔
      ValueReach L memory limit reach pEnd byType pLoc := by
  have start : pLoc ≤ limit := by omega
  unfold deserializeValue ValueReach
  split
  case h_11 => simp_all [width]
  all_goals simp [within_number, within_string_reach, within_byteArr_reach, within_dMsg_reach,
    within_obj reads, width, start]

theorem within_props_reach
    (yields : ∀ pLoc len, (∃ props, (nested pLoc len).Yields memory props) ↔ formed pLoc len)
    (reads : ∀ pLoc len, (nested pLoc len).Within limit memory ↔ reach pLoc len)
    (count : Nat) (props : List (Int32 × Value H)) :
    (deserializeProps L nested pEnd count pLoc props).Within limit memory ↔
      PropsReach L memory limit formed reach pEnd count pLoc := by
  induction count generalizing pLoc props with
  | zero => simp [deserializeProps, PropsReach]
  | succ count ih =>
    simp only [deserializeProps, PropsReach, within_bind, within_word, yields_word,
      within_byte, yields_byte, forall_eq', within_ite, within_fail, not_lt, implies_true, true_and,
      ih, ← yields_value fun len _ => yields (pLoc + 5) len]
    by_cases begins : pLoc + 8 ≤ limit
    · have first : pLoc + 4 ≤ limit := by omega
      have third : pLoc + 4 + 1 ≤ limit := by omega
      rw [within_value_reach (by omega) fun len _ => reads (pLoc + 5) len]
      simp only [begins, first, third, or_true, true_and]
      apply and_congr_right
      intro _
      constructor
      · rintro rest next ⟨ends, oVar, read⟩
        exact rest (oVar, next) read ends
      · intro rest oVar read ends
        exact rest oVar.2 ⟨ends, oVar.1, read⟩
    · simp [begins]

theorem within_reach (depth pBuf dwSize : Nat) :
    (deserializeConfig L depth pBuf dwSize).Within limit memory ↔
      Reach L memory limit depth pBuf dwSize := by
  induction depth generalizing pBuf dwSize with
  | zero => simp [deserializeConfig, Reach]
  | succ depth ih =>
    have props : (deserializeProps L (deserializeConfig L depth) (pBuf + dwSize)
        (hdrCount (configHdrAt memory pBuf)) (pBuf + seriHeader) []).Within limit memory ↔ _ :=
      within_props_reach (fun pLoc len => yields_config depth pLoc len) ih _ []
    rw [Reach, ← props, headerFits_iff, deserializeConfig, deserializeBody]
    simp only [within_ite, within_bind, within_bytes, yields_bytes, forall_eq', within_fail, implies_true,
      true_and, not_not, ne_eq, and_imp]
    exact forall_congr' fun _ => and_congr_left' (or_iff_right (by decide))

end RpcFrmwrk.ConfigDb.Raw
