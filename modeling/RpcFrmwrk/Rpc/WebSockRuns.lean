import RpcFrmwrk.Rpc.WebSock

/-! What the web socket port hands up, for every cut of the bytes it receives. Owns the frames of
one end, writes and control frames, and their bytes; one frame in front of other bytes, and a part
of a frame; when the payload handed up is what was written, however the bytes are cut. -/

namespace RpcFrmwrk.Rpc

open RpcFrmwrk.Library List
open RpcFrmwrk.Ipc

/-- A write of non-empty buffers, up to the limit of the receiver. -/
structure WsWrite where
  bufs : List (List UInt8)
  some : bufs ≠ []
  nonempty : ∀ buf ∈ bufs, buf ≠ []
  limited : bufs.flatten.length ≤ maxFramePayload

theorem WsWrite.flatten_ne_nil (item : WsWrite) : item.bufs.flatten ≠ [] := by
  obtain ⟨buf, member⟩ := exists_mem_of_ne_nil _ item.some
  exact fun none => item.nonempty buf member (flatten_eq_nil_iff.1 none buf member)

/-- What one end sends. A control frame keeps the limit of the receiver too. -/
inductive WsFrame where
  | write (item : WsWrite)
  | control (pong : Bool) (payload : List UInt8) (limited : payload.length ≤ maxFramePayload)

namespace WsFrame

def wire : WsFrame → List UInt8
  | .write item => encodeAndSend item.bufs
  | .control pong payload _ => makeFrame (if pong then pongFrame else pingFrame) payload

def payload : WsFrame → List UInt8
  | .write item => item.bufs.flatten
  | .control _ payload _ => payload

def data : WsFrame → List UInt8
  | .write item => item.bufs.flatten
  | .control _ _ _ => []

def wires (frames : List WsFrame) : List UInt8 := frames.flatMap wire

def payloads (frames : List WsFrame) : List UInt8 := frames.flatMap payload

def written (frames : List WsFrame) : List UInt8 := frames.flatMap data

def Plain : WsFrame → Prop
  | .write item => item.bufs.flatten.length < 65536
  | .control _ payload _ => payload ≠ []

/-- Writes of less than 64 KiB, and no control frame, but for an empty one behind them all. -/
def Clean : List WsFrame → Prop
  | [] => True
  | .write item :: rest => item.bufs.flatten.length < 65536 ∧ Clean rest
  | .control _ payload _ :: rest => payload = [] ∧ rest = []

def Mute (frames : List WsFrame) : Prop :=
  (∀ frame ∈ frames, frame.data = []) ∧ ∃ frame ∈ frames.head?, frame.payload = []

end WsFrame

/-! ### One frame -/

section

variable {src dest : List UInt8} {count pos : Nat}

theorem getFrame_short (short : src.length < 3) : getFrame src dest = (.incompleteFrame, src, dest) := by
  rw [getFrame, if_pos short]

theorem getFrame_incomplete (isLength : payloadLength src = (count, pos)) (small : count + pos < 2 ^ 64)
    (part : src.length < count + pos) : getFrame src dest = (.incompleteFrame, src, dest) := by
  rw [getFrame]
  split
  · rfl
  · simp only
    rw [isLength]
    simp only
    rw [Nat.mod_eq_of_lt small, if_pos part]

theorem getFrame_arrived (long : ¬src.length < 3) (unmasked : ((src.drop 1).head?.getD 0).toNat < 128)
    (isLength : payloadLength src = (count, pos)) (small : count ≤ maxFramePayload) (near : pos ≤ 10)
    (whole : count + pos ≤ src.length) :
    getFrame src dest =
      if src.length = pos + count ∧ dest = [] then
        (frameTypeOf (src.head?.getD 0), [], src.drop pos)
      else
        match appendBuf dest ((src.drop pos).take count) with
        | none => (.errorFrame, src, dest)
        | some dest => (frameTypeOf (src.head?.getD 0), src.drop (pos + count), dest) := by
  have notMasked : ¬((src.drop 1).head?.getD 0).toNat / 128 = 1 := by omega
  have limit : maxFramePayload + 10 < 2 ^ 64 := by decide
  have inside : ¬src.length < (count + pos) % 2 ^ 64 := by
    rw [Nat.mod_eq_of_lt (by omega)]
    exact Nat.not_lt_of_le whole
  have same : src.take pos ++ (src.drop pos).take count ++ src.drop (pos + count) = src := by
    rw [append_assoc, ← drop_drop, take_append_drop, take_append_drop]
  have complete : ¬src.length < pos + count := by omega
  rw [getFrame, if_neg long]
  simp only
  rw [isLength]
  simp only
  rw [if_neg inside, if_neg notMasked, if_neg notMasked, same, if_neg (Nat.not_lt_of_le small)]
  split
  · rfl
  · cases appendBuf dest ((src.drop pos).take count) with
    | none => rfl
    | some appended => rfl

end

/-- A header that tells the length of the payload. -/
inductive FrameHeader (first : UInt8) (count : Nat) : List UInt8 → Prop where
  | short (small : count ≤ 125) : FrameHeader first count [first, UInt8.ofNat count]
  | long (large : 125 < count) (small : count < 65536) :
      FrameHeader first count (first :: 126 :: toBE 2 count)
  | huge (large : 65536 ≤ count) (limited : count ≤ maxFramePayload) :
      FrameHeader first count (first :: 127 :: 0 :: 0 :: 0 :: 0 :: toBE 4 count)

section

variable {first : UInt8} {count : Nat} {header payload rest src dest : List UInt8}

theorem toNat_small {count : Nat} (small : count ≤ 125) : (UInt8.ofNat count).toNat = count := by
  rw [UInt8.toNat_ofNat', Nat.mod_eq_of_lt (by omega)]

theorem payloadLength_long (first : UInt8) (rest : List UInt8) :
    payloadLength (first :: 126 :: rest) = (ofBE (rest.take 2), 4) := rfl

theorem payloadLength_huge (first : UInt8) (rest : List UInt8) :
    payloadLength (first :: 127 :: rest) =
      (if ofBE ((rest.drop 4).take 4) < 2 ^ 31 then ofBE ((rest.drop 4).take 4)
        else ofBE ((rest.drop 4).take 4) + (2 ^ 64 - 2 ^ 32), 10) := rfl

theorem FrameHeader.unmasked (isHeader : FrameHeader first count header) :
    (((header ++ rest).drop 1).head?.getD 0).toNat < 128 := by
  cases isHeader with
  | short small =>
    show (UInt8.ofNat count).toNat < 128
    rw [toNat_small small]
    omega
  | long => exact (by decide : (126 : UInt8).toNat < 128)
  | huge => exact (by decide : (127 : UInt8).toNat < 128)

theorem FrameHeader.head_eq (isHeader : FrameHeader first count header) :
    (header ++ rest).head?.getD 0 = first := by
  cases isHeader with
  | short => rfl
  | long => rfl
  | huge => rfl

theorem FrameHeader.payloadLength (isHeader : FrameHeader first count header) :
    payloadLength (header ++ rest) = (count, header.length) := by
  rw [Rpc.payloadLength]
  cases isHeader with
  | short small =>
    have second : (((first :: UInt8.ofNat count :: rest).drop 1).head?.getD 0).toNat % 128 = count := by
      show (UInt8.ofNat count).toNat % 128 = count
      rw [toNat_small small, Nat.mod_eq_of_lt (by omega)]
    simp only [cons_append, nil_append]
    rw [second, if_pos small]
    rfl
  | long large small =>
    rw [← Rpc.payloadLength, cons_append, cons_append, payloadLength_long,
      take_left' (length_toBE 2 count), ofBE_toBE_of_lt small, length_cons, length_cons,
      length_toBE]
  | huge large limited =>
    have limit : maxFramePayload < 2 ^ 31 := by decide
    rw [← Rpc.payloadLength]
    simp only [cons_append]
    rw [payloadLength_huge]
    simp only [drop_succ_cons, drop_zero]
    rw [take_left' (length_toBE 4 count), ofBE_toBE_of_lt (by omega), if_pos (by omega)]
    simp only [length_cons, length_toBE]

theorem FrameHeader.length_le (isHeader : FrameHeader first count header) :
    2 ≤ header.length ∧ header.length ≤ 10 := by
  cases isHeader with
  | short => exact ⟨Nat.le_refl 2, Nat.le_add_right 2 8⟩
  | long =>
    rw [length_cons, length_cons, length_toBE]
    exact ⟨Nat.le_add_left 2 2, Nat.le_add_right 4 6⟩
  | huge =>
    simp only [length_cons, length_toBE]
    exact ⟨Nat.le_add_left 2 8, Nat.le_refl 10⟩

theorem getFrame_whole (isHeader : FrameHeader first payload.length header) (some : payload ≠ [])
    (small : payload.length ≤ maxFramePayload) (fits : dest.length + payload.length ≤ maxBytesPerBuffer) :
    getFrame (header ++ (payload ++ rest)) dest = (frameTypeOf first, rest, dest ++ payload) := by
  have lengths := isHeader.length_le
  have positive := length_pos_of_ne_nil some
  have total : (header ++ (payload ++ rest)).length = header.length + payload.length + rest.length := by
    rw [length_append, length_append, Nat.add_assoc]
  have huge : maxFramePayload ≤ bufMaxSize := by decide
  have body : (header ++ (payload ++ rest)).drop header.length = payload ++ rest := drop_left
  rw [getFrame_arrived (by omega) isHeader.unmasked isHeader.payloadLength (by omega) (by omega) (by omega),
    isHeader.head_eq, body, take_left]
  split
  · next whole =>
      have none : rest = [] := eq_nil_of_length_eq_zero (by omega)
      rw [none, whole.2, append_nil, nil_append]
  · have appended : appendBuf dest payload = .some (dest ++ payload) := by
      rw [appendBuf, if_neg (by omega), if_neg (by omega)]
    rw [appended]
    simp only
    rw [← drop_drop, body, drop_left]

theorem getFrame_part {more : List UInt8} (isHeader : FrameHeader first payload.length header)
    (small : payload.length ≤ maxFramePayload) (cut : src ++ more = header ++ payload) (some : more ≠ []) :
    getFrame src dest = (.incompleteFrame, src, dest) := by
  have lengths := isHeader.length_le
  have limit : maxFramePayload + 10 < 2 ^ 31 := by decide
  have positive := length_pos_of_ne_nil some
  have total := congrArg List.length cut
  rw [length_append, length_append] at total
  rcases append_eq_append_iff.1 cut with ⟨left, isHead, _⟩ | ⟨left, isSrc, _⟩
  · by_cases all : left = []
    · rw [all, append_nil] at isHead
      have isLength : Rpc.payloadLength (header ++ []) = (payload.length, header.length) := isHeader.payloadLength
      rw [append_nil, isHead] at isLength
      rw [isHead] at total lengths
      exact getFrame_incomplete isLength (by omega) (by omega)
    · have oneMore := length_pos_of_ne_nil all
      have headLength := congrArg List.length isHead
      rw [length_append] at headLength
      match src with
      | [] | [_] | [_, _] => exact getFrame_short (by simp)
      | a :: b :: c :: behind =>
        rw [length_cons, length_cons, length_cons] at headLength
        cases isHeader with
        | short short =>
          simp only [length_cons, length_nil] at headLength
          omega
        | long large _ =>
          simp only [length_cons, length_toBE] at headLength
          have last : behind = [] := eq_nil_of_length_eq_zero (by omega)
          have second : b = 126 := (List.cons.inj (List.cons.inj isHead).2).1.symm
          rw [last, second]
          have word : ofBE [c] < 256 ^ 1 := ofBE_lt [c]
          refine getFrame_incomplete (payloadLength_long a [c]) ?_ ?_
          · show ofBE [c] + 4 < 2 ^ 64
            omega
          · show 3 < ofBE [c] + 4
            omega
        | huge large _ =>
          simp only [length_cons, length_toBE] at headLength
          have second : b = 127 := (List.cons.inj (List.cons.inj isHead).2).1.symm
          rw [second]
          have word := ofBE_lt (((c :: behind).drop 4).take 4)
          have few : (((c :: behind).drop 4).take 4).length ≤ 3 := by
            rw [length_take, length_drop, length_cons]
            omega
          have bound : 256 ^ (((c :: behind).drop 4).take 4).length ≤ 256 ^ 3 :=
            Nat.pow_le_pow_right (by decide) few
          refine getFrame_incomplete (payloadLength_huge a (c :: behind)) ?_ ?_
          · rw [if_pos (by omega)]
            omega
          · simp only [length_cons]
            omega
  · rw [isSrc] at total ⊢
    rw [length_append] at total
    exact getFrame_incomplete isHeader.payloadLength (by omega) (by rw [length_append]; omega)

end

namespace WsFrame

variable {frame : WsFrame} {frames : List WsFrame}

def first : WsFrame → UInt8
  | .write _ => binaryFrame
  | .control pong _ _ => if pong then pongFrame else pingFrame

theorem frameTypeOf_write (item : WsWrite) : frameTypeOf (write item).first = .binaryFrame :=
  (by decide : frameTypeOf binaryFrame = .binaryFrame)

theorem frameTypeOf_ping (payload : List UInt8) (limited : payload.length ≤ maxFramePayload) :
    frameTypeOf (control false payload limited).first = .pingFrame :=
  (by decide : frameTypeOf pingFrame = .pingFrame)

theorem frameTypeOf_pong (payload : List UInt8) (limited : payload.length ≤ maxFramePayload) :
    frameTypeOf (control true payload limited).first = .pongFrame :=
  (by decide : frameTypeOf pongFrame = .pongFrame)

theorem sum_lengths (bufs : List (List UInt8)) : (bufs.map List.length).sum = bufs.flatten.length := by
  rw [length_flatten]

theorem plain_wire (plain : frame.Plain) :
    frame.payload ≠ [] ∧ frame.payload.length ≤ maxFramePayload ∧
      ∃ header, FrameHeader frame.first frame.payload.length header ∧ frame.wire = header ++ frame.payload := by
  cases frame with
  | write item =>
    have small : item.bufs.flatten.length < 65536 := plain
    have noWrap : item.bufs.flatten.length % 2 ^ 32 = item.bufs.flatten.length :=
      Nat.mod_eq_of_lt (by omega)
    refine ⟨item.flatten_ne_nil, item.limited, frameHeader item.bufs.flatten.length, ?_, ?_⟩
    · show FrameHeader binaryFrame item.bufs.flatten.length _
      rw [frameHeader]
      split
      · exact .short (by omega)
      · exact .long (by omega) small
    · show encodeAndSend item.bufs = _
      rw [encodeAndSend, sum_lengths, noWrap]
      rfl
  | control pong payload limited =>
    show payload ≠ [] ∧ payload.length ≤ maxFramePayload ∧ ∃ header,
      FrameHeader (if pong then pongFrame else pingFrame) payload.length header ∧
        makeFrame (if pong then pongFrame else pingFrame) payload = header ++ payload
    generalize (if pong then pongFrame else pingFrame) = first
    rw [makeFrame]
    split
    · next small => exact ⟨plain, limited, _, .short small, rfl⟩
    · split
      · exact ⟨plain, limited, _, .long (by omega) (by omega), rfl⟩
      · exact ⟨plain, limited, _, .huge (by omega) limited, rfl⟩

theorem plain_getFrame (plain : frame.Plain) {dest : List UInt8} (rest : List UInt8)
    (fits : dest.length + frame.payload.length ≤ maxBytesPerBuffer) :
    getFrame (frame.wire ++ rest) dest = (frameTypeOf frame.first, rest, dest ++ frame.payload) := by
  obtain ⟨some, small, header, isHeader, whole⟩ := plain_wire plain
  rw [whole, append_assoc]
  exact getFrame_whole isHeader some small fits

theorem plain_part (plain : frame.Plain) {src more : List UInt8} (cut : src ++ more = frame.wire)
    (some : more ≠ []) (dest : List UInt8) : getFrame src dest = (.incompleteFrame, src, dest) := by
  obtain ⟨_, small, header, isHeader, whole⟩ := plain_wire plain
  rw [whole] at cut
  exact getFrame_part isHeader small cut some

theorem length_payload_le (plain : frame.Plain) :
    frame.payload.length < frame.wire.length ∧ frame.wire.length ≤ maxFramePayload + 10 := by
  obtain ⟨_, small, header, isHeader, whole⟩ := plain_wire plain
  have lengths := isHeader.length_le
  rw [whole, length_append]
  omega

theorem wires_cons : wires (frame :: frames) = frame.wire ++ wires frames := flatMap_cons

theorem payloads_cons : payloads (frame :: frames) = frame.payload ++ payloads frames := flatMap_cons

theorem length_payloads_le (plain : ∀ frame ∈ frames, frame.Plain) :
    (payloads frames).length + frames.length ≤ (wires frames).length := by
  induction frames with
  | nil => exact Nat.le_refl 0
  | cons frame rest ih =>
    have less := (length_payload_le (plain frame mem_cons_self)).1
    have more := ih fun other member => plain other (mem_cons_of_mem _ member)
    rw [wires_cons, payloads_cons, length_append, length_append, length_cons]
    omega

def Waiting (part : List UInt8) : Prop :=
  part.length ≤ maxFramePayload + 10 ∧ ∀ dest, getFrame part dest = (.incompleteFrame, part, dest)

def Silent (tail : List UInt8) : Prop := ∀ part more, part ++ more = tail → Waiting part

def Bad (bytes : List UInt8) : Prop :=
  bytes ≠ [] ∧ ∀ dest, (getFrame bytes dest).1 = .errorFrame

theorem split_arrived (plain : ∀ frame ∈ frames, frame.Plain) {tail src more : List UInt8}
    (silent : Silent tail) (cut : src ++ more = wires frames ++ tail) :
    ∃ front back part, frames = front ++ back ∧ src = wires front ++ part ∧
      part ++ more = wires back ++ tail ∧ Waiting part := by
  induction frames generalizing src with
  | nil => exact ⟨[], [], src, rfl, rfl, cut, silent src more cut⟩
  | cons frame rest ih =>
    have isPlain := plain frame mem_cons_self
    rw [wires_cons, append_assoc] at cut
    rcases append_eq_append_iff.1 cut with ⟨left, isWire, isMore⟩ | ⟨left, isSrc, isRest⟩
    · by_cases none : left = []
      · rw [none, append_nil] at isWire
        rw [none, nil_append] at isMore
        obtain ⟨front, back, part, whole, isPart, isBack, waiting⟩ :=
          @ih (fun other member => plain other (mem_cons_of_mem _ member)) [] isMore
        refine ⟨frame :: front, back, part, by rw [whole]; rfl, ?_, isBack, waiting⟩
        rw [wires_cons, ← isWire, append_assoc, ← isPart, append_nil]
      · refine ⟨[], frame :: rest, src, rfl, rfl, ?_, ?_, plain_part isPlain isWire.symm none⟩
        · rw [wires_cons, append_assoc]
          exact cut
        · have bound := (length_payload_le isPlain).2
          rw [isWire, length_append] at bound
          omega
    · obtain ⟨front, back, part, whole, isPart, isBack, waiting⟩ :=
        @ih (fun other member => plain other (mem_cons_of_mem _ member)) left isRest.symm
      refine ⟨frame :: front, back, part, by rw [whole]; rfl, ?_, isBack, waiting⟩
      rw [wires_cons, isSrc, isPart, append_assoc]

end WsFrame

namespace WebSockFido

variable {before : WebSockFido} {frames : List WsFrame} {part dest : List UInt8} {fuel : Nat}

/-! ### The loop over the frames -/

/-- The receiver goes on with a part of a frame, and has handed the bytes up. -/
structure Delivers (before after : WebSockFido) (bytes part : List UInt8) : Prop where
  curFrame : after.curFrame = part
  failed : after.failed = before.failed
  closed : after.closed = before.closed
  handed : after.handed.flatten = before.handed.flatten ++ bytes

theorem decodeFrames_plain (plain : ∀ frame ∈ frames, frame.Plain) (waiting : WsFrame.Waiting part)
    (enough : frames.length < fuel) (arrived : before.curFrame = WsFrame.wires frames ++ part)
    (fits : dest.length + (WsFrame.payloads frames).length ≤ maxBytesPerBuffer) :
    Delivers before (decodeFrames fuel before dest) (dest ++ WsFrame.payloads frames) part := by
  induction frames generalizing fuel before dest with
  | nil =>
    match fuel, enough with
    | fuel + 1, _ =>
      have isPart : before.curFrame = part := arrived
      rw [decodeFrames, isPart, waiting.2 dest]
      simp only
      split
      · next none =>
          rw [none]
          exact ⟨rfl, rfl, rfl, (append_nil _).symm⟩
      · refine ⟨rfl, rfl, rfl, ?_⟩
        show (before.handed ++ [dest]).flatten = before.handed.flatten ++ (dest ++ [])
        rw [flatten_append, flatten_singleton, append_nil]
  | cons frame rest ih =>
    match fuel, enough with
    | fuel + 1, enough =>
      have isPlain := plain frame mem_cons_self
      have restPlain : ∀ other ∈ rest, other.Plain := fun other member =>
        plain other (mem_cons_of_mem _ member)
      rw [WsFrame.payloads_cons, length_append] at fits
      rw [WsFrame.wires_cons, append_assoc] at arrived
      have restFits : (dest ++ frame.payload).length + (WsFrame.payloads rest).length ≤ maxBytesPerBuffer := by
        rw [length_append]
        omega
      have restEnough : rest.length < fuel := Nat.lt_of_succ_lt_succ enough
      rw [WsFrame.payloads_cons, ← append_assoc, decodeFrames, arrived,
        WsFrame.plain_getFrame isPlain (WsFrame.wires rest ++ part) (by omega)]
      simp only
      cases frame with
      | write item =>
        rw [WsFrame.frameTypeOf_write]
        simp only
        split
        · next none =>
            have parts := append_eq_nil_iff.1 none
            have few := WsFrame.length_payloads_le restPlain
            rw [parts.1, length_nil] at few
            have noPayload : WsFrame.payloads rest = [] := eq_nil_of_length_eq_zero (by omega)
            refine ⟨?_, rfl, rfl, ?_⟩
            · show WsFrame.wires rest ++ part = part
              rw [parts.1, nil_append]
            · rw [noPayload, append_nil]
              show (before.handed ++ [_]).flatten = _
              rw [flatten_append, flatten_singleton]
        · have goesOn := @ih { before with curFrame := WsFrame.wires rest ++ part }
            (dest ++ (WsFrame.write item).payload) fuel restPlain restEnough rfl restFits
          exact { goesOn with }
      | control pong payload limited =>
        cases pong with
        | false =>
          rw [WsFrame.frameTypeOf_ping]
          have goesOn := @ih
            { before with
              curFrame := WsFrame.wires rest ++ part, pongs := before.pongs ++ [dest ++ payload] }
            (dest ++ payload) fuel restPlain restEnough rfl restFits
          exact { goesOn with }
        | true =>
          rw [WsFrame.frameTypeOf_pong]
          have goesOn := @ih { before with curFrame := WsFrame.wires rest ++ part }
            (dest ++ payload) fuel restPlain restEnough rfl restFits
          exact { goesOn with }

theorem decodeFrames_bad {bad : List UInt8} (plain : ∀ frame ∈ frames, frame.Plain)
    (isBad : WsFrame.Bad bad) (enough : frames.length < fuel)
    (arrived : before.curFrame = WsFrame.wires frames ++ bad)
    (fits : dest.length + (WsFrame.payloads frames).length ≤ maxBytesPerBuffer) :
    (decodeFrames fuel before dest).failed = true ∧ (decodeFrames fuel before dest).handed = before.handed := by
  induction frames generalizing fuel before dest with
  | nil =>
    match fuel, enough with
    | fuel + 1, _ =>
      have isPart : before.curFrame = bad := arrived
      have error := isBad.2 dest
      rw [decodeFrames, isPart]
      cases read : getFrame bad dest with
      | mk frameType rest =>
        have isError : frameType = .errorFrame := by
          rw [read] at error
          exact error
        rw [isError]
        exact ⟨rfl, rfl⟩
  | cons frame rest ih =>
    match fuel, enough with
    | fuel + 1, enough =>
      have isPlain := plain frame mem_cons_self
      have restPlain : ∀ other ∈ rest, other.Plain := fun other member =>
        plain other (mem_cons_of_mem _ member)
      have behind : WsFrame.wires rest ++ bad ≠ [] := fun none =>
        isBad.1 (append_eq_nil_iff.1 none).2
      rw [WsFrame.payloads_cons, length_append] at fits
      rw [WsFrame.wires_cons, append_assoc] at arrived
      have restFits : (dest ++ frame.payload).length + (WsFrame.payloads rest).length ≤ maxBytesPerBuffer := by
        rw [length_append]
        omega
      have restEnough : rest.length < fuel := Nat.lt_of_succ_lt_succ enough
      rw [decodeFrames, arrived, WsFrame.plain_getFrame isPlain (WsFrame.wires rest ++ bad) (by omega)]
      simp only
      cases frame with
      | write item =>
        rw [WsFrame.frameTypeOf_write]
        simp only
        rw [if_neg behind]
        exact @ih { before with curFrame := WsFrame.wires rest ++ bad } _ fuel restPlain restEnough rfl restFits
      | control pong payload limited =>
        cases pong with
        | false =>
          rw [WsFrame.frameTypeOf_ping]
          exact @ih
            { before with
              curFrame := WsFrame.wires rest ++ bad, pongs := before.pongs ++ [dest ++ payload] }
            _ fuel restPlain restEnough rfl restFits
        | true =>
          rw [WsFrame.frameTypeOf_pong]
          exact @ih { before with curFrame := WsFrame.wires rest ++ bad } _ fuel
            restPlain restEnough rfl restFits

def Event (buf : List UInt8) : Prop := buf ≠ [] ∧ buf.length ≤ maxBytesPerTransfer

theorem completeListeningIrp_event {buf : List UInt8} (going : before.failed = false ∧ before.closed = false)
    (few : before.curFrame.length ≤ maxFramePayload + 10) (event : Event buf) :
    completeListeningIrp before buf =
      decodeFrames ((before.curFrame ++ buf).length + 1) { before with curFrame := before.curFrame ++ buf } [] := by
  have some := length_pos_of_ne_nil event.1
  have limited := event.2
  have transfer : maxBytesPerTransfer ≤ bufMaxSize := by decide
  have room : maxFramePayload + 10 + maxBytesPerTransfer ≤ maxBytesPerBuffer := by decide
  have goes : ¬(before.failed = true ∨ before.closed = true) := by
    rw [going.1, going.2]
    decide
  have received : (if before.curFrame = [] then .some buf else appendBuf before.curFrame buf) =
      .some (before.curFrame ++ buf) := by
    split
    · next none => rw [none, nil_append]
    · rw [appendBuf, if_neg (by omega), if_neg (by omega)]
  rw [completeListeningIrp, if_neg goes, if_neg event.1, received]

/-- What the receiver has handed up is the payload of the frames in front. What it holds and
what is still to come are the frames behind them and the tail. -/
def Delivered (fido : WebSockFido) (frames : List WsFrame) (later tail : List UInt8) : Prop :=
  (fido.failed = false ∧ fido.closed = false) ∧ WsFrame.Waiting fido.curFrame ∧
    ∃ front back, frames = front ++ back ∧ fido.handed.flatten = WsFrame.payloads front ∧
      fido.curFrame ++ later = WsFrame.wires back ++ tail

variable {buf later tail : List UInt8} {events : List (List UInt8)}

theorem payloads_fit (plain : ∀ frame ∈ frames, frame.Plain) (few : before.curFrame.length ≤ maxFramePayload + 10)
    (event : Event buf) (arrived : before.curFrame ++ buf = WsFrame.wires frames ++ part) :
    frames.length ≤ (before.curFrame ++ buf).length ∧ (WsFrame.payloads frames).length ≤ maxBytesPerBuffer := by
  have room : maxFramePayload + 10 + maxBytesPerTransfer ≤ maxBytesPerBuffer := by decide
  have lengths := WsFrame.length_payloads_le plain
  have total := congrArg List.length arrived
  have limited := event.2
  rw [length_append, length_append] at total
  rw [length_append]
  omega

theorem delivered_step (plain : ∀ frame ∈ frames, frame.Plain) (silent : WsFrame.Silent tail)
    (event : Event buf) (delivered : Delivered before frames (buf ++ later) tail) :
    Delivered (completeListeningIrp before buf) frames later tail := by
  obtain ⟨going, waiting, front, back, whole, handed, cut⟩ := delivered
  have backPlain : ∀ frame ∈ back, frame.Plain := fun frame member =>
    plain frame (by rw [whole]; exact mem_append_right _ member)
  rw [← append_assoc] at cut
  obtain ⟨arrived, awaited, part, split, isSrc, isRest, partWaits⟩ := WsFrame.split_arrived backPlain silent cut
  have arrivedPlain : ∀ frame ∈ arrived, frame.Plain := fun frame member =>
    backPlain frame (by rw [split]; exact mem_append_left _ member)
  have fit := payloads_fit arrivedPlain waiting.1 event isSrc
  have delivers := @decodeFrames_plain { before with curFrame := before.curFrame ++ buf } arrived part []
    ((before.curFrame ++ buf).length + 1) arrivedPlain partWaits (Nat.lt_succ_of_le fit.1) isSrc
    (by rw [length_nil, Nat.zero_add]; exact fit.2)
  rw [← completeListeningIrp_event going waiting.1 event] at delivers
  refine ⟨⟨delivers.failed.trans going.1, delivers.closed.trans going.2⟩, ?_, front ++ arrived, awaited, ?_, ?_, ?_⟩
  · rw [delivers.curFrame]
    exact partWaits
  · rw [whole, split, append_assoc]
  · rw [delivers.handed, handed, nil_append]
    exact flatMap_append.symm
  · rw [delivers.curFrame]
    exact isRest

theorem delivered_run (plain : ∀ frame ∈ frames, frame.Plain) (silent : WsFrame.Silent tail)
    (valid : ∀ buf ∈ events, Event buf) (delivered : Delivered before frames (events.flatten ++ later) tail) :
    Delivered (events.foldl completeListeningIrp before) frames later tail := by
  induction events generalizing before with
  | nil => exact delivered
  | cons buf rest ih =>
    rw [flatten_cons, append_assoc] at delivered
    apply ih fun other member => valid other (mem_cons_of_mem _ member)
    exact delivered_step plain silent (valid buf mem_cons_self) delivered

theorem waiting_nil : WsFrame.Waiting [] := ⟨Nat.zero_le _, fun _ => getFrame_short (by decide)⟩

theorem delivered_receiveAll (plain : ∀ frame ∈ frames, frame.Plain) (silent : WsFrame.Silent tail)
    (valid : ∀ buf ∈ events, Event buf) (cut : events.flatten ++ later = WsFrame.wires frames ++ tail) :
    Delivered (receiveAll events) frames later tail :=
  delivered_run plain silent valid ⟨⟨rfl, rfl⟩, waiting_nil, [], frames, rfl, rfl, cut⟩

theorem completeListeningIrp_bad {bad : List UInt8} (plain : ∀ frame ∈ frames, frame.Plain)
    (isBad : WsFrame.Bad bad) (going : before.failed = false ∧ before.closed = false)
    (few : before.curFrame.length ≤ maxFramePayload + 10) (event : Event buf)
    (arrived : before.curFrame ++ buf = WsFrame.wires frames ++ bad) :
    (completeListeningIrp before buf).failed = true ∧
      (completeListeningIrp before buf).handed = before.handed := by
  have fit := payloads_fit plain few event arrived
  rw [completeListeningIrp_event going few event]
  exact @decodeFrames_bad { before with curFrame := before.curFrame ++ buf } frames [] _ bad plain isBad
    (Nat.lt_succ_of_le fit.1) arrived (by rw [length_nil, Nat.zero_add]; exact fit.2)

theorem foldl_failed (failed : before.failed = true) (events : List (List UInt8)) :
    events.foldl completeListeningIrp before = before := by
  induction events with
  | nil => rfl
  | cons buf rest ih =>
    rw [foldl_cons, completeListeningIrp, if_pos (Or.inl failed)]
    exact ih

def Transparent (frames : List WsFrame) : Prop :=
  ∀ events, (∀ buf ∈ events, Event buf) → events.flatten = WsFrame.wires frames →
    (receiveAll events).handed.flatten = WsFrame.written frames

def singles (bytes : List UInt8) : List (List UInt8) := bytes.map fun byte => [byte]

theorem flatten_singles (bytes : List UInt8) : (singles bytes).flatten = bytes := by
  induction bytes with
  | nil => rfl
  | cons byte rest ih =>
    show [byte] ++ (singles rest).flatten = byte :: rest
    rw [ih]
    rfl

theorem event_singles (bytes : List UInt8) : ∀ buf ∈ singles bytes, Event buf := by
  intro buf member
  obtain ⟨byte, _, isSingle⟩ := mem_map.1 member
  rw [← isSingle]
  exact ⟨cons_ne_nil _ _, (by decide : 1 ≤ maxBytesPerTransfer)⟩

theorem event_append {cut bad : List UInt8} (isBad : WsFrame.Bad bad) (limited : bad.length ≤ 5)
    (few : cut.length ≤ 1) : Event (cut ++ bad) := by
  refine ⟨fun none => isBad.1 (append_eq_nil_iff.1 none).2, ?_⟩
  have transfer : 6 ≤ maxBytesPerTransfer := by decide
  rw [length_append]
  omega

theorem handed_bad {left cut bad more : List UInt8} (plain : ∀ frame ∈ frames, frame.Plain)
    (isBad : WsFrame.Bad bad) (limited : bad.length ≤ 5) (few : cut.length ≤ 1) (isCut : left ++ cut = WsFrame.wires frames) :
    ∃ front back held, frames = front ++ back ∧ WsFrame.Waiting held ∧ held ++ cut = WsFrame.wires back ∧
      (receiveAll (singles left ++ [cut ++ bad] ++ singles more)).handed.flatten = WsFrame.payloads front := by
  have silent : WsFrame.Silent [] := fun part more none => by
    rw [(append_eq_nil_iff.1 none).1]
    exact waiting_nil
  have delivered := @delivered_receiveAll frames cut [] (singles left) plain silent (event_singles left)
    (by rw [flatten_singles, isCut, append_nil])
  obtain ⟨going, waiting, front, back, whole, handed, rest⟩ := delivered
  rw [append_nil] at rest
  have backPlain : ∀ frame ∈ back, frame.Plain := fun frame member =>
    plain frame (by rw [whole]; exact mem_append_right _ member)
  have fails := completeListeningIrp_bad backPlain isBad going waiting.1 (event_append isBad limited few)
    (by rw [← append_assoc, rest])
  refine ⟨front, back, _, whole, waiting, rest, ?_⟩
  rw [receiveAll, foldl_append, foldl_append, foldl_cons, foldl_nil]
  rw [← receiveAll, foldl_failed fails.1, fails.2, handed]

theorem waiting_wires (plain : ∀ frame ∈ frames, frame.Plain)
    (waiting : WsFrame.Waiting (WsFrame.wires frames ++ part)) : frames = [] := by
  cases frames with
  | nil => rfl
  | cons frame rest =>
    have isPlain := plain frame mem_cons_self
    have few := WsFrame.length_payload_le isPlain
    have room : maxFramePayload + 10 ≤ maxBytesPerBuffer := by decide
    have waits := waiting.2 []
    rw [WsFrame.wires_cons, append_assoc, WsFrame.plain_getFrame isPlain _ (by rw [length_nil]; omega)] at waits
    have total := congrArg (fun read => read.2.1.length) waits
    simp only [length_append] at total
    omega

end WebSockFido

/-! ### Frames that fail -/

section

variable {first : UInt8} {src dest : List UInt8}

theorem appendBuf_nil : appendBuf dest [] = none := by
  rw [appendBuf, if_pos (Or.inl length_nil)]

theorem getFrame_empty (more : src ≠ []) : (getFrame (first :: 0 :: src) dest).1 = .errorFrame := by
  have positive := length_pos_of_ne_nil more
  have unmasked : (((first :: 0 :: src).drop 1).head?.getD 0).toNat < 128 := (by decide : (0 : UInt8).toNat < 128)
  have isLength : payloadLength (first :: 0 :: src) = (0, 2) := rfl
  have total : (first :: 0 :: src).length = src.length + 2 := rfl
  rw [getFrame_arrived (by omega) unmasked isLength (Nat.zero_le _) (by decide) (by omega), if_neg (by omega),
    take_zero, appendBuf_nil]

theorem getFrame_large : (getFrame [binaryFrame, 126, 0, 0, 0] dest).1 = .errorFrame := by
  have isLength : payloadLength [binaryFrame, 126, 0, 0, 0] = (0, 4) := by decide
  have total : [binaryFrame, 126, 0, 0, 0].length = 5 := rfl
  rw [getFrame_arrived (by omega) (by decide) isLength (Nat.zero_le _) (by decide) (by omega), if_neg (by omega),
    take_zero, appendBuf_nil]

end

namespace WsFrame

variable {frame : WsFrame} {frames behind : List WsFrame}

theorem wire_ne_nil (frame : WsFrame) : frame.wire ≠ [] := by
  cases frame with
  | write item =>
    show encodeAndSend item.bufs ≠ []
    rw [encodeAndSend, frameHeader]
    split
    · exact cons_ne_nil _ _
    · split
      · exact cons_ne_nil _ _
      · exact cons_ne_nil _ _
  | control pong payload limited =>
    show makeFrame _ payload ≠ []
    rw [makeFrame]
    split
    · exact cons_ne_nil _ _
    · split
      · exact cons_ne_nil _ _
      · exact cons_ne_nil _ _

theorem bad_of_not_plain (notPlain : ¬frame.Plain) :
    (∃ bad more, frame.wire ++ wires behind = bad ++ more ∧ Bad bad ∧ bad.length ≤ 5) ∨
      behind = [] ∧ frame.payload = [] ∧ ∃ first, frame.wire = [first, 0] := by
  cases frame with
  | write item =>
    have large : ¬item.bufs.flatten.length < 65536 := notPlain
    have limit : maxFramePayload < 2 ^ 32 := by decide
    have noWrap : item.bufs.flatten.length % 2 ^ 32 = item.bufs.flatten.length :=
      Nat.mod_eq_of_lt (Nat.lt_of_le_of_lt item.limited limit)
    have whole : (write item).wire = [binaryFrame, 126, 0, 0, 0] ++
        (0 :: (toBE 4 item.bufs.flatten.length ++ item.bufs.flatten)) := by
      show encodeAndSend item.bufs = _
      rw [encodeAndSend, sum_lengths, noWrap, frameHeader, if_neg (by omega), if_neg large]
      rfl
    exact Or.inl ⟨[binaryFrame, 126, 0, 0, 0], _, by rw [whole, append_assoc],
      ⟨cons_ne_nil _ _, fun _ => getFrame_large⟩, Nat.le_refl 5⟩
  | control pong payload limited =>
    have none : payload = [] := Decidable.not_not.1 notPlain
    have whole : (control pong payload limited).wire = [if pong then pongFrame else pingFrame, 0] := by
      show makeFrame _ payload = _
      rw [none]
      rfl
    cases behind with
    | nil => exact Or.inr ⟨rfl, none, _, whole⟩
    | cons next rest =>
      obtain ⟨byte, bytes, isWire⟩ := exists_cons_of_ne_nil (wire_ne_nil next)
      refine Or.inl ⟨[if pong then pongFrame else pingFrame, 0, byte], bytes ++ wires rest, ?_,
        ⟨cons_ne_nil _ _, fun dest => ?_⟩, (by decide : 3 ≤ 5)⟩
      · rw [whole, wires_cons, isWire]
        rfl
      · exact getFrame_empty (cons_ne_nil _ _)

theorem split_plain (frames : List WsFrame) :
    ∃ front rest, frames = front ++ rest ∧ (∀ frame ∈ front, frame.Plain) ∧
      ∀ frame ∈ rest.head?, ¬frame.Plain := by
  induction frames with
  | nil => exact ⟨[], [], rfl, forall_mem_nil _, fun _ none => absurd none (Option.not_mem_none _)⟩
  | cons frame others ih =>
    by_cases plain : frame.Plain
    · obtain ⟨front, rest, whole, isPlain, stops⟩ := ih
      refine ⟨frame :: front, rest, by rw [whole]; rfl, fun other member => ?_, stops⟩
      rcases mem_cons.1 member with same | member
      · rw [same]
        exact plain
      · exact isPlain other member
    · refine ⟨[], frame :: others, rfl, forall_mem_nil _, fun other isFirst => ?_⟩
      rw [← Option.mem_some.1 isFirst]
      exact plain

theorem written_cons : written (frame :: frames) = frame.data ++ written frames := flatMap_cons

theorem length_written_le (frames : List WsFrame) : (written frames).length ≤ (payloads frames).length := by
  induction frames with
  | nil => exact Nat.le_refl 0
  | cons frame rest ih =>
    have less : frame.data.length ≤ frame.payload.length := by
      cases frame with
      | write => exact Nat.le_refl _
      | control => exact Nat.zero_le _
    rw [written_cons, payloads_cons, length_append, length_append]
    omega

theorem clean_of_payloads (plain : ∀ frame ∈ frames, frame.Plain) (silent : behind = [] ∨ ∃ frame, behind = [frame] ∧
    frame.payload = []) (same : payloads frames = written (frames ++ behind)) : Clean (frames ++ behind) := by
  have unwritten : written behind = [] := by
    rcases silent with none | ⟨frame, isSingle, none⟩
    · rw [none]
      rfl
    · have few := length_written_le [frame]
      rw [payloads_cons, none] at few
      rw [isSingle]
      exact eq_nil_of_length_eq_zero (Nat.le_zero.1 few)
  induction frames with
  | nil =>
    rcases silent with none | ⟨frame, isSingle, none⟩
    · rw [none]
      exact trivial
    · rw [isSingle]
      cases frame with
      | write item => exact absurd none item.flatten_ne_nil
      | control => exact ⟨none, rfl⟩
  | cons frame rest ih =>
    have restPlain : ∀ other ∈ rest, other.Plain := fun other member => plain other (mem_cons_of_mem _ member)
    have isPlain := plain frame mem_cons_self
    rw [payloads_cons, cons_append, written_cons] at same
    cases frame with
    | write item => exact ⟨isPlain, ih restPlain (append_cancel_left same)⟩
    | control pong payload limited =>
      have some := length_pos_of_ne_nil (isPlain : payload ≠ [])
      have few := length_written_le rest
      have total := congrArg List.length same
      have behindLength := congrArg List.length unwritten
      rw [written, flatMap_append, length_append, length_append, length_append] at total
      have parts : (payload.length + (payloads rest).length : Nat) =
        0 + ((written rest).length + (written behind).length) := total
      rw [length_nil] at behindLength
      omega

theorem Clean.split (clean : Clean frames) : ∃ front tail, (∀ frame ∈ front, frame.Plain) ∧ tail.length ≤ 2 ∧
    wires frames = wires front ++ tail ∧ written frames = payloads front := by
  induction frames with
  | nil => exact ⟨[], [], forall_mem_nil _, Nat.zero_le 2, rfl, rfl⟩
  | cons frame rest ih =>
    cases frame with
    | write item =>
      obtain ⟨front, tail, plain, few, isWires, isWritten⟩ := ih clean.2
      refine ⟨write item :: front, tail, fun other member => ?_, few, ?_, ?_⟩
      · rcases mem_cons.1 member with same | member
        · rw [same]
          exact clean.1
        · exact plain other member
      · rw [wires_cons, wires_cons, isWires, append_assoc]
      · rw [written_cons, payloads_cons, isWritten]
        rfl
    | control pong payload limited =>
      have none : payload = [] := clean.1
      refine ⟨[], makeFrame (if pong then pongFrame else pingFrame) payload, forall_mem_nil _, ?_, ?_, ?_⟩
      · rw [none]
        exact Nat.le_refl 2
      · rw [clean.2, wires_cons]
        exact append_nil _
      · rw [clean.2]
        rfl

theorem silent_short {tail : List UInt8} (few : tail.length ≤ 2) : Silent tail := by
  intro part more cut
  have total := congrArg List.length cut
  rw [length_append] at total
  exact ⟨by omega, fun _ => getFrame_short (by omega)⟩

end WsFrame

namespace WebSockFido

variable {before : WebSockFido} {frames : List WsFrame} {got buf later rest : List UInt8} {first : UInt8}
  {events : List (List UInt8)}

/-- Nothing is handed up, and the receiver has failed or got two bytes at most. -/
def Muted (fido : WebSockFido) (got : List UInt8) : Prop :=
  fido.handed = [] ∧ (fido.failed = true ∨
    (fido.failed = false ∧ fido.closed = false) ∧ fido.curFrame = got ∧ got.length ≤ 2)

theorem muted_step (muted : Muted before got) (event : Event buf)
    (arrived : got ++ (buf ++ later) = first :: 0 :: rest) :
    Muted (completeListeningIrp before buf) (got ++ buf) := by
  rcases muted with ⟨none, failed | ⟨going, isGot, few⟩⟩
  · have stays : completeListeningIrp before buf = before := foldl_failed failed [buf]
    rw [stays]
    exact ⟨none, Or.inl failed⟩
  · have short : before.curFrame.length ≤ maxFramePayload + 10 := by
      rw [isGot]
      omega
    by_cases waits : (got ++ buf).length ≤ 2
    · have delivers := @decodeFrames_plain { before with curFrame := got ++ buf } [] (got ++ buf) []
        ((got ++ buf).length + 1) (forall_mem_nil _)
        ⟨Nat.le_trans waits (by decide), fun _ => getFrame_short (by omega)⟩ (Nat.zero_lt_succ _) rfl
        (by decide)
      rw [completeListeningIrp_event going short event, isGot]
      refine ⟨?_, Or.inr ⟨⟨delivers.failed.trans going.1, delivers.closed.trans going.2⟩, delivers.curFrame, waits⟩⟩
      have silent : decodeFrames ((got ++ buf).length + 1) { before with curFrame := got ++ buf } [] =
          { before with curFrame := got ++ buf } := by
        have incomplete : getFrame (got ++ buf) [] = (.incompleteFrame, got ++ buf, []) := getFrame_short (by omega)
        rw [decodeFrames]
        simp only
        rw [incomplete]
        exact if_pos rfl
      rw [silent]
      exact none
    · have isBad : WsFrame.Bad (got ++ buf) := by
        rw [← append_assoc] at arrived
        match isBytes : got ++ buf, waits with
        | [], waits => exact absurd (Nat.zero_le 2) waits
        | [_], waits => exact absurd (Nat.le_succ 1) waits
        | [_, _], waits => exact absurd (Nat.le_refl 2) waits
        | a :: b :: c :: behind, _ =>
          rw [isBytes] at arrived
          have second : b = 0 := (List.cons.inj (List.cons.inj arrived).2).1
          rw [second]
          exact ⟨cons_ne_nil _ _, fun dest => getFrame_empty (cons_ne_nil _ _)⟩
      have fails := @completeListeningIrp_bad before [] buf (got ++ buf)
        (forall_mem_nil _) isBad going short event (by rw [isGot]; rfl)
      exact ⟨fails.2.trans none, Or.inl fails.1⟩

theorem muted_run (muted : Muted before got) (valid : ∀ buf ∈ events, Event buf)
    (arrived : got ++ (events.flatten ++ later) = first :: 0 :: rest) :
    Muted (events.foldl completeListeningIrp before) (got ++ events.flatten) := by
  induction events generalizing before got with
  | nil =>
    rw [flatten_nil, append_nil]
    exact muted
  | cons buf others ih =>
    rw [flatten_cons, append_assoc] at arrived
    have goesOn := muted_step muted (valid buf mem_cons_self) arrived
    rw [flatten_cons, ← append_assoc]
    apply ih goesOn fun other member => valid other (mem_cons_of_mem _ member)
    rw [append_assoc]
    exact arrived

theorem transparent_mute (mute : WsFrame.Mute frames) : Transparent frames := by
  intro events valid isCut
  obtain ⟨unwritten, frame, isFirst, none⟩ := mute
  have nothing : WsFrame.written frames = [] := flatMap_eq_nil_iff.2 unwritten
  obtain ⟨others, whole⟩ : ∃ others, frames = frame :: others := List.head?_eq_some_iff.1 isFirst
  have empty : ∃ first, frame.wire = [first, 0] := by
    cases frame with
    | write item => exact absurd none item.flatten_ne_nil
    | control pong payload limited =>
      have isEmpty : payload = [] := none
      refine ⟨if pong then pongFrame else pingFrame, ?_⟩
      show makeFrame _ payload = _
      rw [isEmpty]
      rfl
  obtain ⟨first, isWire⟩ := empty
  have start : Muted new [] := ⟨rfl, Or.inr ⟨⟨rfl, rfl⟩, rfl, Nat.zero_le 2⟩⟩
  have muted := @muted_run new [] [] (WsFrame.wires others) first events start valid (by
    rw [nil_append, append_nil, isCut, whole, WsFrame.wires_cons, isWire]
    rfl)
  rw [nothing, receiveAll, muted.1]
  rfl

theorem transparent_clean (clean : WsFrame.Clean frames) : Transparent frames := by
  intro events valid isCut
  obtain ⟨front, tail, plain, few, isWires, isWritten⟩ := clean.split
  have delivered := @delivered_receiveAll front [] tail events plain (WsFrame.silent_short few) valid
    (by rw [append_nil, isCut, isWires])
  obtain ⟨_, waiting, handed, back, whole, isHanded, isRest⟩ := delivered
  rw [append_nil] at isRest
  rw [isRest] at waiting
  have all : back = [] := waiting_wires
    (fun frame member => plain frame (by rw [whole]; exact mem_append_right _ member)) waiting
  rw [isHanded, isWritten, whole, all, append_nil]

theorem mute_of_transparent {front : List WsFrame} {bad more : List UInt8} (plain : ∀ frame ∈ front, frame.Plain)
    (isBad : WsFrame.Bad bad) (limited : bad.length ≤ 5)
    (isWires : WsFrame.wires frames = WsFrame.wires front ++ (bad ++ more)) (transparent : Transparent frames) :
    front = [] ∧ WsFrame.written frames = [] := by
  have handedUp : ∀ left cut, cut.length ≤ 1 → left ++ cut = WsFrame.wires front →
      ∃ read back held, front = read ++ back ∧ WsFrame.Waiting held ∧ held ++ cut = WsFrame.wires back ∧
        WsFrame.payloads read = WsFrame.written frames := by
    intro left cut few isCut
    obtain ⟨read, back, held, whole, waiting, isHeld, handed⟩ := 
      @handed_bad front left cut bad more plain isBad limited few isCut
    refine ⟨read, back, held, whole, waiting, isHeld, handed.symm.trans (transparent _ ?_ ?_)⟩
    · intro buf member
      rcases mem_append.1 member with member | member
      · rcases mem_append.1 member with member | member
        · exact event_singles _ buf member
        · rw [mem_singleton.1 member]
          exact event_append isBad limited few
      · exact event_singles _ buf member
    · rw [flatten_append, flatten_append, flatten_singles, flatten_singles, flatten_singleton, isWires, ← isCut]
      simp only [append_assoc]
  obtain ⟨read, back, held, whole, waiting, isHeld, isRead⟩ :=
    handedUp (WsFrame.wires front) [] (Nat.zero_le 1) (append_nil _)
  have backPlain : ∀ frame ∈ back, frame.Plain := fun frame member =>
    plain frame (by rw [whole]; exact mem_append_right _ member)
  rw [append_nil] at isHeld
  have all : back = [] := @waiting_wires back [] backPlain (by
    rw [append_nil, ← isHeld]
    exact waiting)
  rw [all, append_nil] at whole
  rw [← whole] at isRead
  by_cases none : front = []
  · refine ⟨none, ?_⟩
    rw [← isRead, none]
    rfl
  · exfalso
    -- with the last byte behind the cut the last frame is lost
    have some : WsFrame.wires front ≠ [] := by
      obtain ⟨frame, others, isFront⟩ := exists_cons_of_ne_nil none
      rw [isFront, WsFrame.wires_cons]
      exact fun empty => frame.wire_ne_nil (append_eq_nil_iff.1 empty).1
    obtain ⟨read, back, held, parts, _, isHeld, isLess⟩ :=
      handedUp (WsFrame.wires front).dropLast [(WsFrame.wires front).getLast some] (Nat.le_refl 1)
        (dropLast_append_getLast some)
    cases back with
    | nil => exact absurd isHeld (append_ne_nil_of_right_ne_nil _ (cons_ne_nil _ _))
    | cons frame others =>
      have isPlain := plain frame (by rw [parts]; exact mem_append_right _ mem_cons_self)
      have same := isLess.trans isRead.symm
      rw [parts, WsFrame.payloads, WsFrame.payloads, flatMap_append] at same
      have lost := append_right_eq_self.1 same.symm
      exact (WsFrame.plain_wire isPlain).1 (append_eq_nil_iff.1 lost).1

/-- The payload is what was written, however the bytes are cut, when no write reaches 64 KiB
and no control frame is mixed in. -/
theorem transparent_iff (frames : List WsFrame) :
    Transparent frames ↔ WsFrame.Clean frames ∨ WsFrame.Mute frames := by
  constructor
  · intro transparent
    obtain ⟨front, rest, whole, plain, stops⟩ := WsFrame.split_plain frames
    have uncut : ∀ behind, WsFrame.wires frames = WsFrame.wires front ++ behind → WsFrame.Silent behind →
        WsFrame.payloads front = WsFrame.written frames := by
      intro behind isWires silent
      have delivered := @delivered_receiveAll front [] behind (singles (WsFrame.wires frames)) plain silent
        (event_singles _) (by rw [append_nil, flatten_singles, isWires])
      obtain ⟨_, waiting, read, back, parts, isHanded, isRest⟩ := delivered
      rw [append_nil] at isRest
      rw [isRest] at waiting
      have all : back = [] := waiting_wires
        (fun frame member => plain frame (by rw [parts]; exact mem_append_right _ member)) waiting
      rw [parts, all, append_nil, ← isHanded]
      exact transparent _ (event_singles _) (flatten_singles _)
    cases rest with
    | nil =>
      have same := uncut [] (by rw [whole, append_nil, append_nil]) (WsFrame.silent_short (Nat.zero_le 2))
      rw [whole] at same ⊢
      exact Or.inl (WsFrame.clean_of_payloads plain (Or.inl rfl) same)
    | cons frame behind =>
      have isWires : WsFrame.wires frames = WsFrame.wires front ++ (frame.wire ++ WsFrame.wires behind) := by
        rw [whole, ← WsFrame.wires_cons]
        exact flatMap_append
      rcases @WsFrame.bad_of_not_plain frame behind (stops frame rfl) with
        ⟨bad, more, isBad, bads, limited⟩ | ⟨last, none, first, isWire⟩
      · rw [isBad] at isWires
        have mute := mute_of_transparent plain bads limited isWires transparent
        have unwritten := flatMap_eq_nil_iff.1 mute.2
        rw [mute.1, nil_append] at whole
        refine Or.inr ⟨unwritten, frame, by rw [whole]; rfl, ?_⟩
        cases frame with
        | write item =>
          have nothing := unwritten (.write item) (by rw [whole]; exact mem_cons_self)
          exact absurd nothing item.flatten_ne_nil
        | control pong payload limited => exact Decidable.not_not.1 (stops _ rfl)
      · have same := uncut frame.wire (by rw [isWires, last]; exact congrArg _ (append_nil _))
          (WsFrame.silent_short (by rw [isWire]; exact Nat.le_refl 2))
        rw [whole, last] at same ⊢
        exact Or.inl (WsFrame.clean_of_payloads plain (Or.inr ⟨frame, rfl, none⟩) same)
  · rintro (clean | mute)
    · exact transparent_clean clean
    · exact transparent_mute mute

/-- A write, and a ping behind it in the same event. -/
theorem pingPayload_handedUp : ¬∀ frames, Transparent frames := by
  intro transparent
  have events : ∀ buf ∈ [[0x82, 1, 1, 0x19, 1, 9]], Event buf := by
    intro buf member
    rw [mem_singleton.1 member]
    exact ⟨cons_ne_nil _ _, by decide⟩
  have same := transparent [.write ⟨[[1]], by decide, by decide, by decide⟩, .control false [9] (by decide)]
    [[0x82, 1, 1, 0x19, 1, 9]] events (by decide)
  exact absurd same (by decide)

end WebSockFido

end RpcFrmwrk.Rpc
