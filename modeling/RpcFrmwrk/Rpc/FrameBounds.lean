import RpcFrmwrk.Rpc.WebSock

/-! One call of `getFrame` against the bytes a peer may send. A frame is what its own header
announces: the type, all bytes of the length, the mask and the payload. A call meets this if it
stays inside the buffer, leaves an unfinished frame as it was, refuses what is to be refused, and
gives the announced frame with nothing left out. Owns the bytes that `getFrame` touches, and the
call that knows the end of its buffer; `frameAt`, the frame in front of a byte string, which more
bytes do not change; the condition under which a call meets it, and that this is the exact one. -/

namespace RpcFrmwrk.Rpc

open RpcFrmwrk.Library List

def lengthByte (src : List UInt8) : Nat := ((src.drop 1).head?.getD 0).toNat

def payloadStart (src : List UInt8) (pos : Nat) : Nat :=
  if lengthByte src / 128 = 1 then pos + 4 else pos

def plainPayload (src : List UInt8) (pos payload : Nat) : List UInt8 :=
  if lengthByte src / 128 = 1 then
    unmask ((src.drop pos).take 4) ((src.drop (payloadStart src pos)).take payload)
  else (src.drop (payloadStart src pos)).take payload

def changedBy (src : List UInt8) (pos payload : Nat) : List UInt8 :=
  src.take (payloadStart src pos) ++ plainPayload src pos payload ++
    src.drop (payloadStart src pos + payload)

/-- Where the bytes end that `getFrame` reads or changes: the header, and for a payload that
counts as arrived the mask and the bytes behind it. -/
def touchedBy (src : List UInt8) : Nat :=
  if src.length < 3 then 0
  else
    let (payload, pos) := payloadLength src
    if src.length < (payload + pos) % 2 ^ 64 then pos
    else if lengthByte src / 128 = 1 then pos + 4 + payload
    else if maxFramePayload < payload then pos
    else pos + payload

/-- `getFrame` on a buffer of its own: there is no result if the call leaves the buffer. -/
def getFrameIn (src dest : List UInt8) : Option (WebSocketFrameType × List UInt8 × List UInt8) :=
  if touchedBy src ≤ src.length then some (getFrame src dest) else none

/-- The announced length, all of its bytes, and the length of the header in front of the mask. -/
def announced (src : List UInt8) : Nat × Nat :=
  if lengthByte src % 128 ≤ 125 then (lengthByte src % 128, 2)
  else if lengthByte src % 128 = 126 then (ofBE ((src.drop 2).take 2), 4)
  else (ofBE ((src.drop 2).take 8), 10)

inductive Framed where
  | incomplete
  | refused
  | frame (frameType : WebSocketFrameType) (payload rest : List UInt8)
deriving DecidableEq, Repr

/-- The frame in front. One with too long a payload is refused as soon as its header is there,
one of a reserved type once it is whole. -/
def frameAt (src : List UInt8) : Framed :=
  let (count, pos) := announced src
  if src.length < pos then .incomplete
  else if maxFramePayload < count then .refused
  else if src.length < payloadStart src pos + count then .incomplete
  else if frameTypeOf (src.head?.getD 0) = .errorFrame then .refused
  else .frame (frameTypeOf (src.head?.getD 0)) (plainPayload src pos count)
    (src.drop (payloadStart src pos + count))

def Meets (src dest : List UInt8) : Prop :=
  match frameAt src with
  | .incomplete => getFrameIn src dest = some (.incompleteFrame, src, dest)
  | .refused => (getFrameIn src dest).map Prod.fst = some .errorFrame
  | .frame frameType payload rest => getFrameIn src dest = some (frameType, rest, dest ++ payload)

/-- `Append` takes a block of this length. -/
def Appendable (dest : List UInt8) (count : Nat) : Prop :=
  0 < count ∧ dest.length + count ≤ maxBytesPerBuffer

instance (dest : List UInt8) (count : Nat) : Decidable (Appendable dest count) :=
  inferInstanceAs (Decidable (_ ∧ _))

/-- The calls on which the code does what the header says. Two bytes are no whole frame; from
three bytes on the header is there. A payload within the limit has not arrived up to the length
of the mask, or has arrived and finds room. One beyond the limit also passes for arrived with the
low word of its length, and this word is beyond the limit, or the call fails by itself. -/
def FrameFits (src dest : List UInt8) : Prop :=
  let (count, pos) := announced src
  let word := (payloadLength src).1
  let start := payloadStart src pos
  let reserved := frameTypeOf (src.head?.getD 0) = .errorFrame
  src.length < 2 ∨ (src.length = 2 ∧ lengthByte src ≠ 0) ∨
    (3 ≤ src.length ∧ pos ≤ src.length ∧
      (count ≤ maxFramePayload ∧
          (src.length < pos + count ∨
            (start + count ≤ src.length ∧
              (reserved ∨ (src.length = start + count ∧ dest = []) ∨ Appendable dest count))) ∨
        maxFramePayload < count ∧ (word + pos) % 2 ^ 64 ≤ src.length ∧
          (start = pos ∨ start + word ≤ src.length) ∧
          (maxFramePayload < word ∨ reserved ∨
            (¬(src.length = start + word ∧ dest = []) ∧ ¬Appendable dest word))))

instance (src dest : List UInt8) : Decidable (FrameFits src dest) := by
  unfold FrameFits
  infer_instance

section

variable {src dest more : List UInt8} {count pos : Nat}
variable {frameType : WebSocketFrameType} {payload rest : List UInt8}

theorem payloadLength_snd (src : List UInt8) : (payloadLength src).2 = (announced src).2 := by
  unfold payloadLength announced lengthByte
  dsimp only
  split
  · rfl
  · split
    · rfl
    · rfl

theorem header_bounds (isLength : announced src = (count, pos)) : 2 ≤ pos ∧ pos ≤ 10 := by
  unfold announced at isLength
  split at isLength
  · cases isLength
    decide
  · split at isLength
    · cases isLength
      decide
    · cases isLength
      decide

theorem word_eq (isLength : announced src = (count, pos)) (header : pos ≤ src.length) :
    (payloadLength src).1 =
      if count % 2 ^ 32 < 2 ^ 31 then count % 2 ^ 32 else count % 2 ^ 32 + (2 ^ 64 - 2 ^ 32) := by
  unfold announced at isLength
  unfold payloadLength
  dsimp only
  rw [← lengthByte]
  split at isLength
  next short =>
    cases isLength
    have small : lengthByte src % 128 < 2 ^ 32 := by omega
    rw [if_pos short, Nat.mod_eq_of_lt small, if_pos (by omega)]
  next notShort =>
    split at isLength
    next long =>
      cases isLength
      have small := ofBE_lt ((src.drop 2).take 2)
      have isTwo : ((src.drop 2).take 2).length = 2 := by
        rw [length_take, length_drop]
        omega
      rw [isTwo] at small
      have fits : ofBE ((src.drop 2).take 2) < 2 ^ 32 := by omega
      rw [if_neg notShort, if_pos long, Nat.mod_eq_of_lt fits, if_pos (by omega)]
    next huge =>
      cases isLength
      have halves : (src.drop 2).take 8 = (src.drop 2).take 4 ++ (src.drop 6).take 4 := by
        rw [show 8 = 4 + 4 from rfl, take_add, drop_drop]
      have isFour : ((src.drop 6).take 4).length = 4 := by
        rw [length_take, length_drop]
        omega
      have small := ofBE_lt ((src.drop 6).take 4)
      rw [isFour] at small
      have low : ofBE ((src.drop 2).take 8) % 2 ^ 32 = ofBE ((src.drop 6).take 4) := by
        rw [halves, ofBE_append, isFour, show (256 : Nat) ^ 4 = 2 ^ 32 by decide, Nat.mul_add_mod_self_right]
        exact Nat.mod_eq_of_lt (by omega)
      rw [if_neg notShort, if_neg huge, low]

theorem word_of_small (isLength : announced src = (count, pos)) (header : pos ≤ src.length)
    (small : count ≤ maxFramePayload) : (payloadLength src).1 = count := by
  have limit : maxFramePayload < 2 ^ 31 := by decide
  rw [word_eq isLength header, Nat.mod_eq_of_lt (by omega), if_pos (by omega)]

theorem length_plainPayload (arrived : payloadStart src pos + count ≤ src.length) :
    (plainPayload src pos count).length = count := by
  have taken : ((src.drop (payloadStart src pos)).take count).length = count := by
    rw [length_take, length_drop]
    omega
  unfold plainPayload
  split
  · rw [unmask, length_mapIdx, taken]
  · exact taken

theorem length_changedBy (arrived : payloadStart src pos + count ≤ src.length) :
    (changedBy src pos count).length = src.length := by
  rw [changedBy, length_append, length_append, length_take, length_drop, length_plainPayload arrived]
  omega

theorem drop_changedBy (arrived : payloadStart src pos + count ≤ src.length) :
    (changedBy src pos count).drop (payloadStart src pos + count) =
      src.drop (payloadStart src pos + count) := by
  have ahead : (src.take (payloadStart src pos) ++ plainPayload src pos count).length =
      payloadStart src pos + count := by
    rw [length_append, length_take, length_plainPayload arrived]
    omega
  rw [changedBy, drop_left' ahead]

theorem drop_start (whole : src.length = payloadStart src pos + count) :
    (changedBy src pos count).drop (payloadStart src pos) = plainPayload src pos count := by
  have ahead : (src.take (payloadStart src pos)).length = payloadStart src pos := by
    rw [length_take]
    omega
  rw [changedBy, ← whole, drop_length, append_nil, drop_left' ahead]

theorem getFrame_taken (isLength : payloadLength src = (count, pos)) (long : ¬src.length < 3)
    (enough : ¬src.length < (count + pos) % 2 ^ 64)
    (arrived : payloadStart src pos + count ≤ src.length) :
    getFrame src dest =
      if maxFramePayload < count then (.errorFrame, changedBy src pos count, dest)
      else if src.length = payloadStart src pos + count ∧ dest = [] then
        (frameTypeOf (src.head?.getD 0), [], plainPayload src pos count)
      else
        match appendBuf dest (plainPayload src pos count) with
        | none => (.errorFrame, changedBy src pos count, dest)
        | some dest => (frameTypeOf (src.head?.getD 0), src.drop (payloadStart src pos + count), dest) := by
  have sameLength := length_changedBy arrived
  have unfolded : getFrame src dest =
      if maxFramePayload < count then (.errorFrame, changedBy src pos count, dest)
      else if (changedBy src pos count).length = payloadStart src pos + count ∧ dest = [] then
        (frameTypeOf (src.head?.getD 0), [], (changedBy src pos count).drop (payloadStart src pos))
      else
        match appendBuf dest (plainPayload src pos count) with
        | none => (.errorFrame, changedBy src pos count, dest)
        | some dest =>
          if (changedBy src pos count).length < payloadStart src pos + count then
            (.errorFrame, changedBy src pos count, dest)
          else
            (frameTypeOf (src.head?.getD 0),
              (changedBy src pos count).drop (payloadStart src pos + count), dest) := by
    rw [getFrame, if_neg long, isLength]
    dsimp only
    rw [if_neg enough]
    rfl
  rw [unfolded, sameLength, drop_changedBy arrived]
  simp only [if_neg (Nat.not_lt_of_le arrived)]
  by_cases whole : src.length = payloadStart src pos + count
  · rw [drop_start whole]
  · have notWhole : ¬(src.length = payloadStart src pos + count ∧ dest = []) := fun both => whole both.1
    rw [if_neg notWhole, if_neg notWhole]

theorem getFrame_long (isLength : payloadLength src = (count, pos)) (long : ¬src.length < 3)
    (enough : ¬src.length < (count + pos) % 2 ^ 64) (large : maxFramePayload < count) :
    getFrame src dest = (.errorFrame, changedBy src pos count, dest) := by
  rw [getFrame, if_neg long, isLength]
  dsimp only
  rw [if_neg enough, if_pos large]
  rfl

theorem getFrame_waits (isLength : payloadLength src = (count, pos))
    (part : src.length < (count + pos) % 2 ^ 64) : getFrame src dest =
    (.incompleteFrame, src, dest) := by
  by_cases short : src.length < 3
  · rw [getFrame, if_pos short]
  · rw [getFrame, if_neg short, isLength]
    dsimp only
    rw [if_pos part]

theorem appendBuf_eq {block : List UInt8} (limited : block.length ≤ maxFramePayload) :
    appendBuf dest block = if Appendable dest block.length then some (dest ++ block) else none := by
  have limit : maxFramePayload ≤ bufMaxSize := by decide
  unfold appendBuf
  by_cases noBytes : block.length = 0
  · have refused : ¬Appendable dest block.length := fun fits => Nat.ne_of_gt fits.1 noBytes
    rw [if_pos (Or.inl noBytes), if_neg refused]
  · rw [if_neg (by omega)]
    by_cases large : maxBytesPerBuffer < dest.length + block.length
    · have refused : ¬Appendable dest block.length := fun fits => Nat.not_lt_of_le fits.2 large
      rw [if_pos large, if_neg refused]
    · have fits : Appendable dest block.length := ⟨Nat.pos_of_ne_zero noBytes, Nat.le_of_not_lt large⟩
      rw [if_neg large, if_pos fits]

theorem touchedBy_arrived (isLength : payloadLength src = (count, pos)) (long : ¬src.length < 3)
    (enough : ¬src.length < (count + pos) % 2 ^ 64)
    (read : lengthByte src / 128 = 1 ∨ count ≤ maxFramePayload) :
    touchedBy src = payloadStart src pos + count := by
  rw [touchedBy, if_neg long, isLength]
  dsimp only
  rw [if_neg enough, payloadStart]
  by_cases masked : lengthByte src / 128 = 1
  · rw [if_pos masked, if_pos masked]
  · rw [if_neg masked, if_neg masked, if_neg (by omega)]

theorem pos_le_touchedBy (isLength : payloadLength src = (count, pos)) (long : ¬src.length < 3) :
    pos ≤ touchedBy src := by
  rw [touchedBy, if_neg long, isLength]
  dsimp only
  split
  · exact Nat.le_refl pos
  · split
    · omega
    · split
      · exact Nat.le_refl pos
      · omega

theorem touchedBy_waits (isLength : payloadLength src = (count, pos)) (long : ¬src.length < 3)
    (part : src.length < (count + pos) % 2 ^ 64) : touchedBy src = pos := by
  rw [touchedBy, if_neg long, isLength]
  dsimp only
  rw [if_pos part]

theorem touchedBy_long (isLength : payloadLength src = (count, pos)) (long : ¬src.length < 3)
    (enough : ¬src.length < (count + pos) % 2 ^ 64) (unmasked : ¬lengthByte src / 128 = 1)
    (large : maxFramePayload < count) : touchedBy src = pos := by
  rw [touchedBy, if_neg long, isLength]
  dsimp only
  rw [if_neg enough, if_neg unmasked, if_pos large]

theorem getFrameIn_inside (inside : touchedBy src ≤ src.length) :
    getFrameIn src dest = some (getFrame src dest) := if_pos inside

theorem getFrameIn_outside (outside : src.length < touchedBy src) : getFrameIn src dest = none :=
  if_neg (Nat.not_le_of_lt outside)

/-! ### The frame in front of more bytes -/

theorem frameAt_eq (isLength : announced src = (count, pos)) :
    frameAt src =
      if src.length < pos then .incomplete
      else if maxFramePayload < count then .refused
      else if src.length < payloadStart src pos + count then .incomplete
      else if frameTypeOf (src.head?.getD 0) = .errorFrame then .refused
      else .frame (frameTypeOf (src.head?.getD 0)) (plainPayload src pos count)
        (src.drop (payloadStart src pos + count)) := by
  rw [frameAt, isLength]

theorem frameTypeOf_ne (first : UInt8) : frameTypeOf first ≠ .incompleteFrame := by
  unfold frameTypeOf
  dsimp only
  split
  all_goals first | decide | (split <;> decide)

theorem frameAt_cases (isLength : announced src = (count, pos)) :
    ((src.length < pos ∨ (count ≤ maxFramePayload ∧ src.length < payloadStart src pos + count)) ∧
        frameAt src = .incomplete) ∨
      (pos ≤ src.length ∧ (maxFramePayload < count ∨
          (count ≤ maxFramePayload ∧ payloadStart src pos + count ≤ src.length ∧
            frameTypeOf (src.head?.getD 0) = .errorFrame)) ∧
        frameAt src = .refused) ∨
      (pos ≤ src.length ∧ count ≤ maxFramePayload ∧ payloadStart src pos + count ≤ src.length ∧
        frameTypeOf (src.head?.getD 0) ≠ .errorFrame ∧
        frameAt src = .frame (frameTypeOf (src.head?.getD 0)) (plainPayload src pos count)
          (src.drop (payloadStart src pos + count))) := by
  rw [frameAt_eq isLength]
  by_cases noHeader : src.length < pos
  · rw [if_pos noHeader]
    exact Or.inl ⟨Or.inl noHeader, rfl⟩
  · rw [if_neg noHeader]
    have header := Nat.le_of_not_lt noHeader
    by_cases large : maxFramePayload < count
    · rw [if_pos large]
      exact Or.inr (Or.inl ⟨header, Or.inl large, rfl⟩)
    · rw [if_neg large]
      have small := Nat.le_of_not_lt large
      by_cases part : src.length < payloadStart src pos + count
      · rw [if_pos part]
        exact Or.inl ⟨Or.inr ⟨small, part⟩, rfl⟩
      · rw [if_neg part]
        have whole := Nat.le_of_not_lt part
        by_cases reserved : frameTypeOf (src.head?.getD 0) = .errorFrame
        · rw [if_pos reserved]
          exact Or.inr (Or.inl ⟨header, Or.inr ⟨small, whole, reserved⟩, rfl⟩)
        · rw [if_neg reserved]
          exact Or.inr (Or.inr ⟨header, small, whole, reserved, rfl⟩)

theorem length_rest (framed : frameAt src = .frame frameType payload rest) : rest.length < src.length := by
  cases isLength : announced src with
  | mk count pos =>
    have near := header_bounds isLength
    have behind : pos ≤ payloadStart src pos := by
      unfold payloadStart
      split
      all_goals omega
    rcases frameAt_cases isLength with ⟨-, other⟩ | ⟨-, -, other⟩ | ⟨-, -, whole, -, this⟩
    · rw [other] at framed
      cases framed
    · rw [other] at framed
      cases framed
    · rw [this] at framed
      cases framed
      rw [length_drop]
      omega

theorem head?_append_of_pos (some : 0 < src.length) : (src ++ more).head? = src.head? := by
  cases src with
  | nil => exact absurd some (Nat.lt_irrefl 0)
  | cons first rest => rfl

theorem lengthByte_append (header : 2 ≤ src.length) : lengthByte (src ++ more) = lengthByte src := by
  have shorter : 0 < (src.drop 1).length := by
    rw [length_drop]
    omega
  rw [lengthByte, drop_append_of_le_length (by omega), head?_append_of_pos shorter, lengthByte]

theorem take_drop_append {first count : Nat} (inside : first + count ≤ src.length) :
    ((src ++ more).drop first).take count = (src.drop first).take count := by
  rw [drop_append_of_le_length (by omega), take_append_of_le_length]
  rw [length_drop]
  omega

theorem announced_append (isLength : announced src = (count, pos)) (header : pos ≤ src.length) :
    announced (src ++ more) = (count, pos) := by
  have near := header_bounds isLength
  rw [← isLength]
  unfold announced at isLength ⊢
  rw [lengthByte_append (by omega)]
  split at isLength
  next short => rw [if_pos short, if_pos short]
  next notShort =>
    rw [if_neg notShort, if_neg notShort]
    split at isLength
    next long =>
      cases isLength
      rw [if_pos long, if_pos long, take_drop_append (by omega)]
    next huge =>
      cases isLength
      rw [if_neg huge, if_neg huge, take_drop_append (by omega)]

theorem payloadStart_append (header : 2 ≤ src.length) :
    payloadStart (src ++ more) pos = payloadStart src pos := by
  rw [payloadStart, payloadStart, lengthByte_append header]

theorem plainPayload_append (header : 2 ≤ src.length)
    (arrived : payloadStart src pos + count ≤ src.length) :
    plainPayload (src ++ more) pos count = plainPayload src pos count := by
  unfold plainPayload
  rw [payloadStart_append header, lengthByte_append header, take_drop_append arrived]
  by_cases masked : lengthByte src / 128 = 1
  · have behind : payloadStart src pos = pos + 4 := if_pos masked
    rw [if_pos masked, if_pos masked, take_drop_append (by omega)]
  · rw [if_neg masked, if_neg masked]

theorem frameAt_append
    (framed : frameAt src = .frame frameType payload rest) :
    frameAt (src ++ more) = .frame frameType payload (rest ++ more) := by
  cases isLength : announced src with
  | mk count pos =>
    have near := header_bounds isLength
    rcases frameAt_cases isLength with ⟨-, other⟩ | ⟨-, -, other⟩ | ⟨header, small, whole, known, this⟩
    · rw [other] at framed
      cases framed
    · rw [other] at framed
      cases framed
    · have twoBytes : 2 ≤ src.length := by omega
      rw [this] at framed
      cases framed
      rw [frameAt_eq (announced_append isLength header), payloadStart_append twoBytes,
        plainPayload_append twoBytes whole, head?_append_of_pos (by omega), length_append,
        if_neg (by omega), if_neg (by omega), if_neg (by omega), if_neg known,
        drop_append_of_le_length whole]

theorem refused_append (refused : frameAt src = .refused) : frameAt (src ++ more) = .refused := by
  cases isLength : announced src with
  | mk count pos =>
    have near := header_bounds isLength
    rcases frameAt_cases isLength with ⟨-, other⟩ | ⟨header, why, -⟩ | ⟨-, -, -, -, other⟩
    · rw [other] at refused
      cases refused
    · have twoBytes : 2 ≤ src.length := by omega
      rw [frameAt_eq (announced_append isLength header), payloadStart_append twoBytes,
        head?_append_of_pos (by omega), length_append, if_neg (by omega)]
      rcases why with large | ⟨small, whole, reserved⟩
      · rw [if_pos large]
      · rw [if_neg (by omega), if_neg (by omega), if_pos reserved]
    · rw [other] at refused
      cases refused

/-! ### When a call meets the frame in front -/

theorem meets_incomplete (incomplete : frameAt src = .incomplete) :
    Meets src dest ↔ getFrameIn src dest = some (.incompleteFrame, src, dest) := by
  rw [Meets, incomplete]

theorem meets_refused (refused : frameAt src = .refused) :
    Meets src dest ↔ (getFrameIn src dest).map Prod.fst = some .errorFrame := by
  rw [Meets, refused]

theorem meets_frame
    (framed : frameAt src = .frame frameType payload rest) :
    Meets src dest ↔ getFrameIn src dest = some (frameType, rest, dest ++ payload) := by
  rw [Meets, framed]

theorem not_meets_outside (outside : src.length < touchedBy src) : ¬Meets src dest := by
  have nothing : getFrameIn src dest = none := getFrameIn_outside outside
  intro meets
  unfold Meets at meets
  split at meets
  all_goals
    rw [nothing] at meets
    cases meets

theorem meets_waits (waits : getFrame src dest = (.incompleteFrame, src, dest))
    (inside : touchedBy src ≤ src.length) : Meets src dest ↔ frameAt src = .incomplete := by
  constructor
  · intro meets
    cases framed : frameAt src with
    | incomplete => rfl
    | refused =>
      rw [meets_refused framed, getFrameIn_inside inside, waits] at meets
      cases meets
    | frame frameType payload rest =>
      rw [meets_frame framed, getFrameIn_inside inside, waits] at meets
      have same : WebSocketFrameType.incompleteFrame = frameType :=
        congrArg Prod.fst (Option.some.inj meets)
      cases isLength : announced src with
      | mk count pos =>
        rcases frameAt_cases isLength with ⟨-, other⟩ | ⟨-, -, other⟩ | ⟨-, -, -, -, this⟩
        · rw [other] at framed
          cases framed
        · rw [other] at framed
          cases framed
        · rw [this] at framed
          injection framed with isType
          exact absurd (isType.trans same.symm) (frameTypeOf_ne _)
  · intro incomplete
    rw [meets_incomplete incomplete, getFrameIn_inside inside, waits]

theorem meets_short (short : src.length < 3) :
    Meets src dest ↔ src.length < 2 ∨ (src.length = 2 ∧ lengthByte src ≠ 0) := by
  have waits : getFrame src dest = (.incompleteFrame, src, dest) := by
    rw [getFrame, if_pos short]
  have inside : touchedBy src ≤ src.length := by
    rw [touchedBy, if_pos short]
    exact Nat.zero_le _
  rw [meets_waits waits inside]
  cases isLength : announced src with
  | mk count pos =>
    have near := header_bounds isLength
    by_cases two : src.length < 2
    · rw [frameAt_eq isLength, if_pos (by omega)]
      exact ⟨fun _ => Or.inl two, fun _ => rfl⟩
    · have isTwo : src.length = 2 := by omega
      by_cases zero : lengthByte src = 0
      · have isZero : announced src = (0, 2) := by
          rw [announced, zero]
          rfl
        have start : payloadStart src 2 = 2 := by
          rw [payloadStart, zero]
          rfl
        rw [frameAt_eq isZero, start, isTwo, if_neg (by decide), if_neg (by decide), if_neg (by decide)]
        constructor
        · intro never
          split at never
          all_goals cases never
        · rintro (never | ⟨-, never⟩)
          · omega
          · exact absurd zero never
      · refine ⟨fun _ => Or.inr ⟨isTwo, zero⟩, fun _ => ?_⟩
        rw [frameAt_eq isLength]
        by_cases noHeader : src.length < pos
        · rw [if_pos noHeader]
        · have header : pos = 2 := by omega
          unfold announced at isLength
          split at isLength
          next small =>
            cases isLength
            have start : lengthByte src % 128 ≠ 0 ∨ payloadStart src 2 = 6 := by
              by_cases field : lengthByte src % 128 = 0
              · refine Or.inr ?_
                have byte : lengthByte src < 256 := UInt8.toNat_lt _
                exact if_pos (by omega)
              · exact Or.inl field
            have behind : 2 ≤ payloadStart src 2 := by
              unfold payloadStart
              split
              all_goals omega
            have limit : ¬maxFramePayload < lengthByte src % 128 :=
              Nat.not_lt_of_le (Nat.le_trans small (by decide))
            rw [if_neg noHeader, if_neg limit, if_pos (by omega)]
          next =>
            split at isLength
            all_goals
              cases isLength
              omega

theorem not_meets_cut (isLength : announced src = (count, pos)) (long : ¬src.length < 3)
    (cut : src.length < pos) : ¬Meets src dest := by
  have isWord : payloadLength src = ((payloadLength src).1, pos) := by
    rw [← show (announced src).2 = pos from congrArg Prod.snd isLength, ← payloadLength_snd]
  have touched := pos_le_touchedBy isWord long
  exact not_meets_outside (by omega)

theorem meets_small (isLength : announced src = (count, pos)) (long : ¬src.length < 3)
    (header : pos ≤ src.length) (small : count ≤ maxFramePayload) :
    Meets src dest ↔
      src.length < pos + count ∨
        (payloadStart src pos + count ≤ src.length ∧
          (frameTypeOf (src.head?.getD 0) = .errorFrame ∨
            (src.length = payloadStart src pos + count ∧ dest = []) ∨ Appendable dest count)) := by
  have near := header_bounds isLength
  have limit : maxFramePayload + 10 < 2 ^ 64 := by decide
  have behind : pos ≤ payloadStart src pos := by
    unfold payloadStart
    split
    all_goals omega
  have isWord : payloadLength src = (count, pos) :=
    Prod.ext (word_of_small isLength header small) ((payloadLength_snd src).trans (congrArg Prod.snd isLength))
  have noWrap : (count + pos) % 2 ^ 64 = count + pos := Nat.mod_eq_of_lt (by omega)
  by_cases part : src.length < pos + count
  · have waits : src.length < (count + pos) % 2 ^ 64 := by omega
    have inside : touchedBy src ≤ src.length := by
      rw [touchedBy_waits isWord long waits]
      exact header
    rw [meets_waits (getFrame_waits isWord waits) inside, frameAt_eq isLength, if_neg (by omega),
      if_neg (by omega), if_pos (by omega)]
    exact ⟨fun _ => Or.inl part, fun _ => rfl⟩
  · have enough : ¬src.length < (count + pos) % 2 ^ 64 := by omega
    have touched := touchedBy_arrived isWord long enough (Or.inr small)
    by_cases arrived : payloadStart src pos + count ≤ src.length
    · have call : getFrameIn src dest = some (getFrame src dest) := getFrameIn_inside (touched.trans_le arrived)
      rw [getFrame_taken isWord long enough arrived, if_neg (Nat.not_lt_of_le small)] at call
      have framed := frameAt_eq isLength
      rw [if_neg (by omega), if_neg (by omega), if_neg (by omega)] at framed
      by_cases reserved : frameTypeOf (src.head?.getD 0) = .errorFrame
      · rw [if_pos reserved] at framed
        refine ⟨fun _ => Or.inr ⟨arrived, Or.inl reserved⟩, fun _ => ?_⟩
        rw [meets_refused framed, call, reserved]
        split
        · rfl
        · split
          all_goals rfl
      · rw [if_neg reserved] at framed
        rw [meets_frame framed, call]
        by_cases whole : src.length = payloadStart src pos + count ∧ dest = []
        · refine ⟨fun _ => Or.inr ⟨arrived, Or.inr (Or.inl whole)⟩, fun _ => ?_⟩
          rw [if_pos whole, whole.2, ← whole.1, drop_length, nil_append]
        · have length := length_plainPayload arrived
          rw [if_neg whole, appendBuf_eq (by omega), length]
          by_cases fits : Appendable dest count
          · rw [if_pos fits]
            exact ⟨fun _ => Or.inr ⟨arrived, Or.inr (Or.inr fits)⟩, fun _ => rfl⟩
          · rw [if_neg fits]
            constructor
            · intro same
              exact absurd (congrArg Prod.fst (Option.some.inj same)).symm reserved
            · rintro (never | ⟨-, never | never | never⟩)
              · exact absurd never part
              · exact absurd never reserved
              · exact absurd never whole
              · exact absurd never fits
    · refine ⟨fun meets => absurd meets (not_meets_outside (by omega)), ?_⟩
      rintro (never | ⟨never, -⟩)
      · exact absurd never part
      · exact absurd never arrived

theorem meets_large (isLength : announced src = (count, pos)) (long : ¬src.length < 3)
    (header : pos ≤ src.length) (large : maxFramePayload < count) :
    Meets src dest ↔
      ((payloadLength src).1 + pos) % 2 ^ 64 ≤ src.length ∧
        (payloadStart src pos = pos ∨ payloadStart src pos + (payloadLength src).1 ≤ src.length) ∧
        (maxFramePayload < (payloadLength src).1 ∨ frameTypeOf (src.head?.getD 0) = .errorFrame ∨
          (¬(src.length = payloadStart src pos + (payloadLength src).1 ∧ dest = []) ∧
            ¬Appendable dest (payloadLength src).1)) := by
  have near := header_bounds isLength
  have limit : maxFramePayload + 10 < 2 ^ 64 := by decide
  have refused : frameAt src = .refused := by
    rw [frameAt_eq isLength, if_neg (by omega), if_pos large]
  have isPos : (payloadLength src).2 = pos :=
    (payloadLength_snd src).trans (congrArg Prod.snd isLength)
  cases isWord : payloadLength src with
  | mk word wordPos =>
    rw [isWord] at isPos
    replace isPos : wordPos = pos := isPos
    subst wordPos
    dsimp only
    by_cases waits : src.length < (word + pos) % 2 ^ 64
    · have inside : touchedBy src ≤ src.length := by
        rw [touchedBy_waits isWord long waits]
        exact header
      rw [meets_waits (getFrame_waits isWord waits) inside, refused]
      exact ⟨fun never => (by cases never), fun never => absurd waits (Nat.not_lt_of_le never.1)⟩
    · by_cases unmaskedLong : payloadStart src pos = pos ∧ maxFramePayload < word
      · have unmasked : ¬lengthByte src / 128 = 1 := by
          intro masked
          have start : payloadStart src pos = pos + 4 := if_pos masked
          omega
        have inside : touchedBy src ≤ src.length := by
          rw [touchedBy_long isWord long waits unmasked unmaskedLong.2]
          exact header
        rw [meets_refused refused, getFrameIn_inside inside, getFrame_long isWord long waits unmaskedLong.2]
        exact ⟨fun _ => ⟨Nat.le_of_not_lt waits, Or.inl unmaskedLong.1, Or.inl unmaskedLong.2⟩, fun _ => rfl⟩
      · have read : lengthByte src / 128 = 1 ∨ word ≤ maxFramePayload := by
          by_cases masked : lengthByte src / 128 = 1
          · exact Or.inl masked
          · have start : payloadStart src pos = pos := if_neg masked
            exact Or.inr (by omega)
        have touched := touchedBy_arrived isWord long waits read
        by_cases arrived : payloadStart src pos + word ≤ src.length
        · have length := length_plainPayload arrived
          rw [meets_refused refused, getFrameIn_inside (touched.trans_le arrived),
            getFrame_taken isWord long waits arrived]
          by_cases longWord : maxFramePayload < word
          · rw [if_pos longWord]
            exact ⟨fun _ => ⟨Nat.le_of_not_lt waits, Or.inr arrived, Or.inl longWord⟩, fun _ => rfl⟩
          · rw [if_neg longWord, appendBuf_eq (by omega), length]
            by_cases whole : src.length = payloadStart src pos + word ∧ dest = []
            · rw [if_pos whole]
              constructor
              · intro isError
                exact ⟨Nat.le_of_not_lt waits, Or.inr arrived, Or.inr (Or.inl (Option.some.inj isError))⟩
              · rintro ⟨-, -, never | reserved | ⟨never, -⟩⟩
                · exact absurd never longWord
                · exact congrArg some reserved
                · exact absurd whole never
            · rw [if_neg whole]
              by_cases fits : Appendable dest word
              · rw [if_pos fits]
                constructor
                · intro isError
                  exact ⟨Nat.le_of_not_lt waits, Or.inr arrived, Or.inr (Or.inl (Option.some.inj isError))⟩
                · rintro ⟨-, -, never | reserved | ⟨-, never⟩⟩
                  · exact absurd never longWord
                  · exact congrArg some reserved
                  · exact absurd fits never
              · rw [if_neg fits]
                exact ⟨fun _ => ⟨Nat.le_of_not_lt waits, Or.inr arrived, Or.inr (Or.inr ⟨whole, fits⟩)⟩,
                  fun _ => rfl⟩
        · refine ⟨fun meets => absurd meets (not_meets_outside (by omega)), ?_⟩
          rintro ⟨inside, never | never, -⟩
          · have small : word ≤ maxFramePayload := by
              refine Nat.le_of_not_lt fun longWord => unmaskedLong ⟨never, longWord⟩
            rw [Nat.mod_eq_of_lt (by omega)] at inside
            omega
          · exact absurd never arrived

theorem meets_iff_fits (src dest : List UInt8) : Meets src dest ↔ FrameFits src dest := by
  by_cases short : src.length < 3
  · rw [meets_short short]
    constructor
    · rintro (none | two)
      · exact Or.inl none
      · exact Or.inr (Or.inl two)
    · rintro (none | two | ⟨never, -⟩)
      · exact Or.inl none
      · exact Or.inr two
      · omega
  · have three : 3 ≤ src.length := Nat.le_of_not_lt short
    cases isLength : announced src with
    | mk count pos =>
      unfold FrameFits
      rw [isLength]
      dsimp only
      have others : ¬src.length < 2 ∧ ¬(src.length = 2 ∧ lengthByte src ≠ 0) := by omega
      rw [or_iff_right others.1, or_iff_right others.2, and_iff_right three]
      by_cases header : pos ≤ src.length
      · rw [and_iff_right header]
        by_cases small : count ≤ maxFramePayload
        · have notLarge := Nat.not_lt_of_le small
          rw [meets_small isLength short header small, and_iff_right small]
          exact ⟨Or.inl, fun either => either.resolve_right fun never => notLarge never.1⟩
        · have large := Nat.lt_of_not_le small
          rw [meets_large isLength short header large, and_iff_right large]
          exact ⟨Or.inr, fun either => either.resolve_left fun never => small never.1⟩
      · exact ⟨fun meets => absurd meets (not_meets_cut isLength short (by omega)),
          fun never => absurd never.1 header⟩

end

end RpcFrmwrk.Rpc
