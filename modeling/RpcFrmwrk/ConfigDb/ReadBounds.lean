import RpcFrmwrk.ConfigDb.Converse
import RpcFrmwrk.ConfigDb.RawReads

/-! Where `CConfigDb2::Deserialize` leaves its buffer. The reader and the format are told apart.
`Raw.Formed` says of bytes that they are a configuration, without a reader; the reader returns a
configuration on these bytes and on no others. `Raw.Inside` says which bytes must be in the buffer:
the header, and of each property the reader comes to the part that is read before the first
comparison with `pEnd`. Owns the format and `Raw.yields_iff`; `Raw.Inside` and `safe_iff`. -/

namespace RpcFrmwrk.ConfigDb

open RpcFrmwrk.Library Reading

namespace Raw

variable {H : ConfigHost} (L : Loader H) (memory : Nat → UInt8)

def lengthAt (pLoc : Nat) : Nat := wordFrom memory pLoc 4

/-- The header of a configuration that is given `dwSize` bytes. -/
def HeaderFits (hdr : List UInt8) (dwSize : Nat) : Prop :=
  hdrClsid hdr = clsidCConfigDb2 ∧ hdrCount hdr ≤ cfgdbMaxItem ∧
    hdrSize hdr + seriHeaderBase ≤ dwSize ∧ hdrSize hdr ≤ cfgdbMaxSize ∧ hdrVersion hdr = 2

abbrev configHdrAt (pBuf : Nat) : List UInt8 := bytesFrom memory pBuf seriHeader

abbrev objHdrAt (pLoc : Nat) : List UInt8 := bytesFrom memory pLoc seriHeaderBase

def width : UInt8 → Nat
  | 1 => 1
  | 2 => 2
  | 3 => 4
  | 4 => 8
  | 5 => 4
  | 6 => 8
  | 9 => seriHeaderBase
  | _ => 0

/-- A message with its size word in front, in `len` bytes. -/
def MsgFormed (pLoc len : Nat) : Prop :=
  0 < lengthAt memory pLoc ∧ lengthAt memory pLoc ≤ len ∧
    ∃ msg, H.demarshal (bytesFrom memory (pLoc + 4) (lengthAt memory pLoc)) = some msg

/-- An object in `len` bytes. -/
def ObjFormed (nested : Nat → Nat → Prop) (pLoc len : Nat) : Prop :=
  len = 0 ∨ hdrClsid (objHdrAt memory pLoc) = clsidInvalid ∨
    if hdrClsid (objHdrAt memory pLoc) = clsidCConfigDb2 then nested pLoc len
    else ∃ obj, (L.newObj (hdrClsid (objHdrAt memory pLoc)) pLoc len).Yields memory obj

/-- A value of the type stands at `pLoc`, and `next` is behind it. -/
def ValueFormed (nested : Nat → Nat → Prop) (pEnd : Nat) (byType : UInt8) (pLoc next : Nat) : Prop :=
  next ≤ pEnd ∧
    (byType ∈ [1, 2, 3, 4, 5, 6] ∧ next = pLoc + width byType ∨
      byType = 7 ∧ next = pLoc + 4 + lengthAt memory pLoc ∨
      byType = 8 ∧ next = pLoc + 4 + lengthAt memory pLoc ∧
        MsgFormed (H := H) memory (pLoc + 4) (lengthAt memory pLoc) ∨
      byType = 9 ∧ next = pLoc + objLen (objHdrAt memory pLoc) ∧
        ObjFormed L memory nested pLoc (objLen (objHdrAt memory pLoc)) ∨
      byType = 10 ∧ next = pLoc + 4 + lengthAt memory pLoc ∧
        lengthAt memory pLoc ≤ maxBytesPerBuffer)

def PropsFormed (nested : Nat → Nat → Prop) (pEnd : Nat) : Nat → Nat → Prop
  | 0, _ => True
  | count + 1, pLoc =>
    ∃ next, ValueFormed L memory nested pEnd (memory (pLoc + 4)) (pLoc + 5) next ∧
      PropsFormed nested pEnd count next

/-- A configuration stands in the `dwSize` bytes from `pBuf` on. -/
def Formed : Nat → Nat → Nat → Prop
  | 0, _, _ => False
  | depth + 1, pBuf, dwSize =>
    dwSize ≠ 0 ∧ HeaderFits (configHdrAt memory pBuf) dwSize ∧
      PropsFormed L memory (Formed depth) (pBuf + dwSize) (hdrCount (configHdrAt memory pBuf))
        (pBuf + seriHeader)

variable (limit : Nat)

/-- A message needs its size word, and a size that is not larger than `len`
needs as many bytes behind the word. -/
def MsgInside (pLoc len : Nat) : Prop :=
  pLoc + 4 ≤ limit ∧ (lengthAt memory pLoc ≤ len → pLoc + 4 + lengthAt memory pLoc ≤ limit)

def ObjInside (inside : Nat → Nat → Prop) (pLoc len : Nat) : Prop :=
  len ≠ 0 → hdrClsid (objHdrAt memory pLoc) ≠ clsidInvalid →
    if hdrClsid (objHdrAt memory pLoc) = clsidCConfigDb2 then inside pLoc len
    else (L.newObj (hdrClsid (objHdrAt memory pLoc)) pLoc len).Within limit memory

/-- A value needs the whole of a number or of the header of an object, and a
message or an object that fits needs its parts. -/
def ValueInside (inside : Nat → Nat → Prop) (pEnd : Nat) (byType : UInt8) (pLoc : Nat) : Prop :=
  pLoc + width byType ≤ limit ∧
    (byType = 8 → pLoc + 4 + lengthAt memory pLoc ≤ pEnd →
      MsgInside memory limit (pLoc + 4) (lengthAt memory pLoc)) ∧
    (byType = 9 → pLoc + objLen (objHdrAt memory pLoc) ≤ pEnd →
      ObjInside L memory limit inside pLoc (objLen (objHdrAt memory pLoc)))

/-- A property needs eight bytes, whatever its type, and what its value needs. -/
def PropInside (inside : Nat → Nat → Prop) (pEnd pLoc : Nat) : Prop :=
  pLoc + 8 ≤ limit ∧ ValueInside L memory limit inside pEnd (memory (pLoc + 4)) (pLoc + 5)

def PropsInside (formed inside : Nat → Nat → Prop) (pEnd : Nat) : Nat → Nat → Prop
  | 0, _ => True
  | count + 1, pLoc =>
    PropInside L memory limit inside pEnd pLoc ∧
      ∀ next, ValueFormed L memory formed pEnd (memory (pLoc + 4)) (pLoc + 5) next →
        PropsInside formed inside pEnd count next

def Inside : Nat → Nat → Nat → Prop
  | 0, _, _ => True
  | depth + 1, pBuf, dwSize =>
    dwSize ≠ 0 → pBuf + seriHeader ≤ limit ∧
      (HeaderFits (configHdrAt memory pBuf) dwSize →
        PropsInside L memory limit (Formed L memory depth) (Inside depth) (pBuf + dwSize)
          (hdrCount (configHdrAt memory pBuf)) (pBuf + seriHeader))

/-! ### The reader follows the format -/

section Values

variable {L memory limit}
variable {nested : Nat → Nat → Reading Status (List (Int32 × Value H))}
variable {formed inside : Nat → Nat → Prop} {pEnd pLoc next : Nat}

theorem yields_readLength (len : Nat) :
    (readLength pEnd pLoc).Yields memory len ↔ pLoc + 4 ≤ pEnd ∧ lengthAt memory pLoc = len := by
  by_cases room : pLoc + 4 ≤ pEnd
  · simp [readLength, lengthAt, room]
  · simp [readLength, room]

theorem yields_number (width : Nat) (variant : Nat → Value H) :
    (∃ oVar, (deserializeNumber width variant pLoc).Yields memory (oVar, next)) ↔ next = pLoc + width := by
  simp [deserializeNumber, eq_comm]

theorem yields_string :
    (∃ oVar, (deserializeString (H := H) pEnd pLoc).Yields memory (oVar, next)) ↔
      pLoc + 4 + lengthAt memory pLoc ≤ pEnd ∧ next = pLoc + 4 + lengthAt memory pLoc := by
  simp only [deserializeString, yields_bind, yields_readLength]
  rcases Nat.eq_zero_or_pos (lengthAt memory pLoc) with empty | pos
  · simp [empty, eq_comm]
  · by_cases room : pLoc + 4 + lengthAt memory pLoc ≤ pEnd
    · simp [pos.ne', room, eq_comm]
      intro
      omega
    · simp [pos.ne', room]

theorem yields_msg (msg : H.Msg) (len : Nat) :
    (deserializeMsg L pLoc len).Yields memory msg ↔
      0 < lengthAt memory pLoc ∧ lengthAt memory pLoc ≤ len ∧
        H.demarshal (bytesFrom memory (pLoc + 4) (lengthAt memory pLoc)) = some msg := by
  simp only [deserializeMsg, yields_bind, yields_word, exists_eq_left', ← lengthAt.eq_1]
  by_cases refused : len < lengthAt memory pLoc ∨ lengthAt memory pLoc = 0
  · simp only [refused, if_true, not_yields_fail, false_iff]
    omega
  · have taken : 0 < lengthAt memory pLoc ∧ lengthAt memory pLoc ≤ len := by omega
    simp [refused, taken]

theorem yields_dMsg :
    (∃ oVar, (deserializeDMsg L pEnd pLoc).Yields memory (oVar, next)) ↔
      pLoc + 4 + lengthAt memory pLoc ≤ pEnd ∧ next = pLoc + 4 + lengthAt memory pLoc ∧
        MsgFormed (H := H) memory (pLoc + 4) (lengthAt memory pLoc) := by
  simp only [deserializeDMsg, yields_bind, yields_readLength]
  by_cases room : pLoc + 4 + lengthAt memory pLoc ≤ pEnd
  · have length : pLoc + 4 ≤ pEnd := by omega
    simp only [length, true_and, exists_eq_left', room, not_lt.2 room, if_false, yields_bind, yields_msg,
      yields_pure, Prod.mk.injEq, MsgFormed]
    grind
  · simp [room]

theorem yields_byteArr :
    (∃ oVar, (deserializeByteArr (H := H) pEnd pLoc).Yields memory (oVar, next)) ↔
      pLoc + 4 + lengthAt memory pLoc ≤ pEnd ∧ next = pLoc + 4 + lengthAt memory pLoc ∧
        lengthAt memory pLoc ≤ maxBytesPerBuffer := by
  simp only [deserializeByteArr, yields_bind, yields_readLength]
  by_cases room : pLoc + 4 + lengthAt memory pLoc ≤ pEnd
  · have length : pLoc + 4 ≤ pEnd := by omega
    by_cases granted : lengthAt memory pLoc ≤ maxBytesPerBuffer
    · simp [room, length, granted, eq_comm]
    · simp [room, granted]
  · simp [room]

theorem yields_obj
    (reads : ∀ len, pLoc + len ≤ pEnd → ((∃ props, (nested pLoc len).Yields memory props) ↔ formed pLoc len)) :
    (∃ oVar, (deserializeObj L nested pEnd pLoc).Yields memory (oVar, next)) ↔
      pLoc + objLen (objHdrAt memory pLoc) ≤ pEnd ∧ next = pLoc + objLen (objHdrAt memory pLoc) ∧
        ObjFormed L memory formed pLoc (objLen (objHdrAt memory pLoc)) := by
  simp only [deserializeObj, yields_bind, yields_bytes, exists_eq_left', ObjFormed]
  generalize hdrClsid (objHdrAt memory pLoc) = dwClsid
  generalize objLen (objHdrAt memory pLoc) = len
  by_cases room : pLoc + len ≤ pEnd
  · simp only [not_lt.2 room, room, if_false, true_and]
    by_cases null : len = 0 ∨ dwClsid = clsidInvalid
    · simp only [null, ← or_assoc, if_true, yields_pure, Prod.mk.injEq, true_or, and_true]
      simp [eq_comm]
    · rw [if_neg null]
      have object : ∀ formed : Prop, (len = 0 ∨ dwClsid = clsidInvalid ∨ formed) ↔ formed := by
        intro formed
        rw [← or_assoc]
        exact or_iff_right null
      rw [object]
      by_cases config : dwClsid = clsidCConfigDb2
      · simp only [if_pos config, yields_bind, yields_pure, Prod.mk.injEq, ← reads len room]
        grind
      · simp only [if_neg config, yields_bind, yields_pure, Prod.mk.injEq]
        grind
  · simp [room]

theorem yields_value
    (reads : ∀ len, pLoc + len ≤ pEnd →
      ((∃ props, (nested pLoc len).Yields memory props) ↔ formed pLoc len)) (byType : UInt8) :
    (next ≤ pEnd ∧ ∃ oVar, (deserializeValue L nested pEnd byType pLoc).Yields memory (oVar, next)) ↔
      ValueFormed L memory formed pEnd byType pLoc next := by
  unfold deserializeValue ValueFormed
  apply and_congr_right
  intro inside
  split
  case h_11 => simp_all
  all_goals simp only [yields_number, yields_string, yields_dMsg, yields_byteArr, yields_obj reads, width]
  all_goals simp
  all_goals
    intro ends
    subst ends
    simp [inside]

theorem yields_props
    (reads : ∀ pLoc len, pLoc + len ≤ pEnd →
      ((∃ props, (nested pLoc len).Yields memory props) ↔ formed pLoc len))
    (count : Nat) (props : List (Int32 × Value H)) :
    (∃ all, (deserializeProps L nested pEnd count pLoc props).Yields memory all) ↔
      PropsFormed L memory formed pEnd count pLoc := by
  induction count generalizing pLoc props with
  | zero => simp [deserializeProps, PropsFormed]
  | succ count ih =>
    simp only [PropsFormed, ← yields_value fun len => reads (pLoc + 5) len]
    simp only [deserializeProps, yields_bind, yields_word, yields_byte, exists_eq_left', yields_ite,
      not_yields_fail, imp_false, not_lt]
    constructor
    · rintro ⟨all, ⟨oVar, next⟩, read, inside, rest⟩
      exact ⟨next, ⟨inside, oVar, read⟩, (ih _).1 ⟨all, rest inside⟩⟩
    · rintro ⟨next, ⟨inside, oVar, read⟩, rest⟩
      obtain ⟨all, rest⟩ := (ih (setProperty props (UInt32.ofNat (wordFrom memory pLoc 4)).toInt32 oVar)).2 rest
      exact ⟨all, (oVar, next), read, inside, fun _ => rest⟩

theorem headerFits_iff (hdr : List UInt8) (dwSize : Nat) :
    HeaderFits hdr dwSize ↔
      ¬ (hdrClsid hdr ≠ clsidCConfigDb2 ∨ cfgdbMaxItem < hdrCount hdr ∨
        dwSize < hdrSize hdr + seriHeaderBase ∨ cfgdbMaxSize < hdrSize hdr) ∧ hdrVersion hdr = 2 := by
  simp only [HeaderFits, not_or, not_ne_iff, not_lt, and_assoc]

theorem yields_config (depth pBuf dwSize : Nat) :
    (∃ props, (deserializeConfig L depth pBuf dwSize).Yields memory props) ↔
      Formed L memory depth pBuf dwSize := by
  induction depth generalizing pBuf dwSize with
  | zero => simp [deserializeConfig, Formed]
  | succ depth ih =>
    rw [Formed, ← yields_props (fun pLoc len _ => ih pLoc len) _ [], headerFits_iff,
      deserializeConfig, deserializeBody]
    simp only [yields_ite, yields_bind, yields_bytes, exists_eq_left', not_yields_fail, imp_false,
      not_not, ne_eq]
    constructor
    · rintro ⟨props, nonempty, accepted⟩
      obtain ⟨header, behind⟩ := accepted nonempty
      obtain ⟨version, read⟩ := behind header
      exact ⟨nonempty, ⟨header, version⟩, props, read version⟩
    · rintro ⟨nonempty, ⟨header, version⟩, props, read⟩
      exact ⟨props, nonempty, fun _ => ⟨header, fun _ => ⟨version, fun _ => read⟩⟩⟩

theorem within_readLength :
    (readLength pEnd pLoc).Within limit memory ↔ (pLoc + 4 ≤ pEnd → pLoc + 4 ≤ limit) := by
  simp [readLength]

theorem within_string (below : pEnd ≤ limit) : (deserializeString (H := H) pEnd pLoc).Within limit memory := by
  simp only [deserializeString, within_bind, within_readLength, yields_readLength, within_ite, within_pure,
    within_fail, within_bytes]
  grind

theorem within_byteArr (below : pEnd ≤ limit) :
    (deserializeByteArr (H := H) pEnd pLoc).Within limit memory := by
  simp only [deserializeByteArr, within_bind, within_readLength, yields_readLength, within_ite, within_pure,
    within_fail, within_bytes]
  grind

theorem within_number (width : Nat) (pos : 0 < width) (variant : Nat → Value H) :
    (deserializeNumber width variant pLoc).Within limit memory ↔ pLoc + width ≤ limit := by
  simp [deserializeNumber, pos.ne']

theorem within_msg (len : Nat) :
    (deserializeMsg L pLoc len).Within limit memory ↔ MsgInside memory limit pLoc len := by
  simp only [deserializeMsg, within_bind, within_word, yields_word, within_ite, within_fail, within_bytes,
    within_ofOption, MsgInside, ← lengthAt.eq_1]
  grind

theorem within_dMsg (below : pEnd ≤ limit) :
    (deserializeDMsg L pEnd pLoc).Within limit memory ↔
      (pLoc + 4 + lengthAt memory pLoc ≤ pEnd → MsgInside memory limit (pLoc + 4) (lengthAt memory pLoc)) := by
  simp only [deserializeDMsg, within_bind, within_readLength, yields_readLength, within_ite, within_pure,
    within_fail, within_msg]
  grind

theorem within_obj
    (reads : ∀ len, pLoc + len ≤ pEnd → ((nested pLoc len).Within limit memory ↔ inside pLoc len)) :
    (deserializeObj L nested pEnd pLoc).Within limit memory ↔
      pLoc + seriHeaderBase ≤ limit ∧
        (pLoc + objLen (objHdrAt memory pLoc) ≤ pEnd →
          ObjInside L memory limit inside pLoc (objLen (objHdrAt memory pLoc))) := by
  simp only [deserializeObj, within_bind, within_bytes, yields_bytes, ObjInside, forall_eq']
  generalize hdrClsid (objHdrAt memory pLoc) = dwClsid
  generalize objLen (objHdrAt memory pLoc) = len
  apply and_congr (or_iff_right (by decide))
  by_cases room : pLoc + len ≤ pEnd
  · simp only [not_lt.2 room, room, if_false, true_imp_iff]
    by_cases null : len = 0 ∨ dwClsid = clsidInvalid
    · simp only [null, if_true, within_pure, true_iff]
      exact fun nonempty valid => absurd null (not_or.2 ⟨nonempty, valid⟩)
    · rw [if_neg null]
      obtain ⟨nonempty, valid⟩ := not_or.1 null
      simp only [nonempty, valid, not_false_eq_true, true_imp_iff, ne_eq]
      by_cases config : dwClsid = clsidCConfigDb2
      · simp only [if_pos config, within_bind, within_pure, implies_true, and_true, reads len room]
      · simp only [if_neg config, within_bind, within_pure, implies_true, and_true]
  · simp [room]

theorem within_value (below : pEnd ≤ limit) (begins : pLoc + 3 ≤ limit)
    (reads : ∀ len, pLoc + len ≤ pEnd → ((nested pLoc len).Within limit memory ↔ inside pLoc len))
    (byType : UInt8) :
    (deserializeValue L nested pEnd byType pLoc).Within limit memory ↔
      ValueInside L memory limit inside pEnd byType pLoc := by
  have start : pLoc ≤ limit := by omega
  unfold deserializeValue ValueInside
  split
  case h_11 => simp_all [width]
  all_goals simp [within_number, within_string below, within_byteArr below, within_dMsg below,
    within_obj reads, width, start]

theorem within_props (below : pEnd ≤ limit)
    (yields : ∀ pLoc len, pLoc + len ≤ pEnd →
      ((∃ props, (nested pLoc len).Yields memory props) ↔ formed pLoc len))
    (reads : ∀ pLoc len, pLoc + len ≤ pEnd → ((nested pLoc len).Within limit memory ↔ inside pLoc len))
    (count : Nat) (props : List (Int32 × Value H)) :
    (deserializeProps L nested pEnd count pLoc props).Within limit memory ↔
      PropsInside L memory limit formed inside pEnd count pLoc := by
  induction count generalizing pLoc props with
  | zero => simp [deserializeProps, PropsInside]
  | succ count ih =>
    simp only [deserializeProps, PropsInside, PropInside, within_bind, within_word, yields_word,
      within_byte, yields_byte, forall_eq', within_ite, within_fail, not_lt, implies_true, true_and,
      ih, ← yields_value fun len => yields (pLoc + 5) len]
    by_cases begins : pLoc + 8 ≤ limit
    · have first : pLoc + 4 ≤ limit := by omega
      have third : pLoc + 4 + 1 ≤ limit := by omega
      rw [within_value below (by omega) fun len => reads (pLoc + 5) len]
      simp only [begins, first, third, or_true, true_and]
      apply and_congr_right
      intro _
      constructor
      · rintro rest next ⟨ends, oVar, read⟩
        exact rest (oVar, next) read ends
      · intro rest oVar read ends
        exact rest oVar.2 ⟨ends, oVar.1, read⟩
    · simp [begins]

theorem within_config (depth : Nat) {pBuf dwSize : Nat} (below : pBuf + dwSize ≤ limit) :
    (deserializeConfig L depth pBuf dwSize).Within limit memory ↔
      Inside L memory limit depth pBuf dwSize := by
  induction depth generalizing pBuf dwSize with
  | zero => simp [deserializeConfig, Inside]
  | succ depth ih =>
    have reads : ∀ pLoc len, pLoc + len ≤ pBuf + dwSize →
        ((deserializeConfig L depth pLoc len).Within limit memory ↔ Inside L memory limit depth pLoc len) :=
      fun pLoc len fits => ih (by omega)
    have props : (deserializeProps L (deserializeConfig L depth) (pBuf + dwSize)
        (hdrCount (configHdrAt memory pBuf)) (pBuf + seriHeader) []).Within limit memory ↔ _ :=
      within_props below (fun pLoc len _ => yields_config depth pLoc len) reads _ []
    rw [Inside, ← props, headerFits_iff, deserializeConfig, deserializeBody]
    simp only [within_ite, within_bind, within_bytes, yields_bytes, forall_eq', within_fail, implies_true,
      true_and, not_not, ne_eq, and_imp]
    exact forall_congr' fun _ => and_congr_left' (or_iff_right (by decide))

end Values

section Errors

variable {L}
variable {nested : Nat → Nat → Reading Status (List (Int32 × Value H))}

abbrev Failing {α : Type} (program : Reading Status α) : Prop :=
  FailsWith (fun ret => ret.failed = true) program

theorem failing_readLength (pEnd pLoc : Nat) : Failing (readLength pEnd pLoc) :=
  .ite (fun _ => .fail rfl) fun _ => .word _ _

theorem failing_string (pEnd pLoc : Nat) : Failing (deserializeString (H := H) pEnd pLoc) := by
  unfold deserializeString
  refine .bind (failing_readLength _ _) fun len => ?_
  refine .ite (fun _ => .pure _) fun _ => ?_
  exact .ite (fun _ => .fail rfl) fun _ => .bind (.bytes _ _) fun _ => .pure _

theorem failing_msg (pBuf dwSizeMax : Nat) : Failing (deserializeMsg L pBuf dwSizeMax) := by
  unfold deserializeMsg
  refine .bind (.word _ _) fun dwSize => ?_
  refine .ite (fun _ => .fail rfl) fun _ => ?_
  exact .bind (.bytes _ _) fun msg => .ofOption (fun ret : Status => ret.failed = true) (L.errno_failed msg) _

theorem failing_dMsg (pEnd pLoc : Nat) : Failing (deserializeDMsg L pEnd pLoc) := by
  unfold deserializeDMsg
  refine .bind (failing_readLength _ _) fun len => ?_
  exact .ite (fun _ => .fail rfl) fun _ => .bind (failing_msg _ _) fun _ => .pure _

theorem failing_byteArr (pEnd pLoc : Nat) : Failing (deserializeByteArr (H := H) pEnd pLoc) := by
  unfold deserializeByteArr
  refine .bind (failing_readLength _ _) fun len => ?_
  refine .ite (fun _ => .fail rfl) fun _ => ?_
  exact .ite (fun _ => .fail rfl) fun _ => .bind (.bytes _ _) fun _ => .pure _

theorem failing_obj (reads : ∀ pLoc len, Failing (nested pLoc len)) (pEnd pLoc : Nat) :
    Failing (deserializeObj L nested pEnd pLoc) := by
  unfold deserializeObj
  refine .bind (.bytes _ _) fun oHdr => ?_
  refine .ite (fun _ => .fail rfl) fun _ => ?_
  refine .ite (fun _ => .pure _) fun _ => ?_
  apply FailsWith.ite
  · exact fun _ => .bind (reads _ _) fun _ => .pure _
  · exact fun _ => .bind (fun _ _ => L.newObj_failed) fun _ => .pure _

theorem failing_value (reads : ∀ pLoc len, Failing (nested pLoc len)) (pEnd : Nat) (byType : UInt8)
    (pLoc : Nat) : Failing (deserializeValue L nested pEnd byType pLoc) := by
  unfold deserializeValue
  split
  case h_7 => exact failing_string _ _
  case h_8 => exact failing_dMsg _ _
  case h_9 => exact failing_obj reads _ _
  case h_10 => exact failing_byteArr _ _
  case h_11 => exact .fail rfl
  all_goals exact .bind (.word _ _) fun _ => .pure _

theorem failing_props (reads : ∀ pLoc len, Failing (nested pLoc len)) (pEnd count pLoc : Nat)
    (props : List (Int32 × Value H)) : Failing (deserializeProps L nested pEnd count pLoc props) := by
  induction count generalizing pLoc props with
  | zero => exact .pure _
  | succ count ih =>
    unfold deserializeProps
    refine .bind (.word _ _) fun iKey => .bind (.word _ _) fun _ => .bind (.byte _) fun byType => ?_
    refine .bind (failing_value reads _ _ _) fun oVar => ?_
    exact .ite (fun _ => .fail rfl) fun _ => ih _ _

theorem failing_config (depth pBuf dwSize : Nat) : Failing (deserializeConfig L depth pBuf dwSize) := by
  induction depth generalizing pBuf dwSize with
  | zero => exact .fail rfl
  | succ depth ih =>
    unfold deserializeConfig deserializeBody
    refine .ite (fun _ => .fail rfl) fun _ => .bind (.bytes _ _) fun oHeader => ?_
    refine .ite (fun _ => .fail rfl) fun _ => ?_
    exact .ite (fun _ => .fail rfl) fun _ => failing_props ih _ _ _ _

end Errors

section Nesting

variable {L memory}
variable {nested other : Nat → Nat → Reading Status (List (Int32 × Value H))} {pEnd : Nat}

end Nesting

end Raw

/-- The method fails with an error or yields a configuration, and reads no byte
behind the `dwSize` bytes it is given. -/
structure Safe {H : ConfigHost} (L : Loader H) (memory : Nat → UInt8) (dwSize : Nat) : Prop where
  outcome : (∃ props, (Raw.deserialize L dwSize).Yields memory props) ∨
    ∃ ret, (Raw.deserialize L dwSize).Fails memory ret ∧ ret.failed = true
  within : (Raw.deserialize L dwSize).Within dwSize memory

/-- The method is safe exactly when the buffer holds the header and, of every
property the loop comes to, what is read without a comparison. -/
theorem safe_iff {H : ConfigHost} (L : Loader H) (memory : Nat → UInt8) (dwSize : Nat) :
    Safe L memory dwSize ↔ Raw.Inside L memory dwSize (dwSize + 1) 0 dwSize := by
  have below : 0 + dwSize ≤ dwSize := (Nat.zero_add dwSize).le
  rw [← Raw.within_config (dwSize + 1) below]
  constructor
  · exact fun safe => safe.within
  · intro within
    refine ⟨?_, within⟩
    rcases (Raw.deserialize L dwSize).yields_or_fails memory with yields | ⟨ret, fails⟩
    · exact .inl yields
    · exact .inr ⟨ret, fails, Raw.failing_config _ _ _ _ _ fails⟩

def bareLoader : Loader bareHost where
  newObj _ _ _ := .fail .einval
  errno _ := .ebadmsg
  newObj_failed fails := (Reading.fails_fail _ _).1 fails ▸ rfl
  errno_failed _ := rfl

/-- One property, a number of four bytes, that ends with the buffer. -/
example : (Raw.deserialize bareLoader 25).Within 25 fun offset =>
    [0, 0, 9, 0x17, 0, 0, 0, 13, 2, 0, 0, 0, 0, 0, 0, 1, 0, 0, 0, 5, 3, 0, 0, 0, 7].getD offset 0 := by
  decide

/-- One byte is a buffer, and sixteen are read from it. -/
theorem oneByte_unsafe : ¬ ∀ (memory : Nat → UInt8) (dwSize : Nat), Safe bareLoader memory dwSize := by
  intro safe
  have within := (safe (fun _ => 0) 1).within
  exact absurd within (by decide)

end RpcFrmwrk.ConfigDb
