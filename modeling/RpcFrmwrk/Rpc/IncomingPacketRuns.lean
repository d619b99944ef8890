import RpcFrmwrk.Rpc.IncomingPacket

/-! Both forms of `FillPacket` take the same packets from the same bytes. Owns `Parses`, the packets
of a byte string and what stands behind them; what a `CIncomingPacket` holds of a packet, and what a
round and a call make of it; `Agree`, for any two ways in which the bytes come in. -/

namespace RpcFrmwrk.Rpc

open RpcFrmwrk.Library RpcFrmwrk.Ipc List

/-- What stands in front: less than a packet, something else, or a packet and the rest. -/
inductive PacketAt where
  | more
  | bad
  | packet (header : PacketHeader) (payload rest : List UInt8)
deriving DecidableEq

def packetAt (bytes : List UInt8) : PacketAt :=
  if bytes.length < packetHeaderSize then .more
  else
    match PacketHeader.deserialize (bytes.take packetHeaderSize) packetHeaderSize with
    | .error _ => .bad
    | .ok header =>
      if maxBytesPerTransfer < header.size ∨ header.size = 0 then .bad
      else if bytes.length < packetHeaderSize + header.size then .more
      else
        .packet header (slice bytes packetHeaderSize header.size)
          (bytes.drop (packetHeaderSize + header.size))

/-- What a stream waits for, or why it ended. -/
inductive FillOutcome where
  | more
  | protocol
deriving DecidableEq, Repr

inductive Parses : List UInt8 → List (PacketHeader × List UInt8) → FillOutcome → Prop where
  | more {bytes : List UInt8} (short : packetAt bytes = .more) : Parses bytes [] .more
  | bad {bytes : List UInt8} (wrong : packetAt bytes = .bad) : Parses bytes [] .protocol
  | packet {bytes payload rest : List UInt8} {header : PacketHeader}
      {packets : List (PacketHeader × List UInt8)} {outcome : FillOutcome}
      (front : packetAt bytes = .packet header payload rest) (later : Parses rest packets outcome) :
      Parses bytes ((header, payload) :: packets) outcome

variable {bytes payload input : List UInt8} {packets : List (PacketHeader × List UInt8)}
    {header : PacketHeader} {reader : Reader}

theorem Parses.unique {others : List (PacketHeader × List UInt8)}
    {outcome other : FillOutcome} (parses : Parses bytes packets outcome)
    (again : Parses bytes others other) : packets = others ∧ outcome = other := by
  induction parses generalizing others other with
  | more short =>
    cases again with
    | more _ => exact ⟨rfl, rfl⟩
    | bad wrong | packet wrong _ => cases short.symm.trans wrong
  | bad wrong =>
    cases again with
    | more short | packet short _ => cases wrong.symm.trans short
    | bad _ => exact ⟨rfl, rfl⟩
  | packet front later ih =>
    cases again with
    | more short | bad short => cases front.symm.trans short
    | packet same after =>
      cases front.symm.trans same
      obtain ⟨rfl, rfl⟩ := ih after
      exact ⟨rfl, rfl⟩

theorem take_append_header (long : ¬ bytes.length < packetHeaderSize)
    (more : List UInt8) : (bytes ++ more).take packetHeaderSize = bytes.take packetHeaderSize :=
  take_append_of_le_length (Nat.not_lt.1 long)

theorem packetAt_bad_append (wrong : packetAt bytes = .bad)
    (more : List UInt8) :
    packetAt (bytes ++ more) = .bad := by
  rw [packetAt] at wrong ⊢
  by_cases short : bytes.length < packetHeaderSize
  · rw [if_pos short] at wrong
    cases wrong
  · have longer : ¬ (bytes ++ more).length < packetHeaderSize := by
      rw [length_append]
      omega
    rw [if_neg short] at wrong
    rw [if_neg longer, take_append_header short]
    cases known : PacketHeader.deserialize (bytes.take packetHeaderSize) packetHeaderSize with
    | error ret => rfl
    | ok header =>
      rw [known] at wrong
      simp only at wrong ⊢
      by_cases size : maxBytesPerTransfer < header.size ∨ header.size = 0
      · rw [if_pos size]
      · rw [if_neg size] at wrong
        split at wrong <;> cases wrong

theorem packetAt_packet_append {rest : List UInt8}
    (front : packetAt bytes = .packet header payload rest) (more : List UInt8) :
    packetAt (bytes ++ more) = .packet header payload (rest ++ more) := by
  rw [packetAt] at front ⊢
  by_cases short : bytes.length < packetHeaderSize
  · rw [if_pos short] at front
    cases front
  · have longer : ¬ (bytes ++ more).length < packetHeaderSize := by
      rw [length_append]
      omega
    rw [if_neg short] at front
    rw [if_neg longer, take_append_header short]
    cases known : PacketHeader.deserialize (bytes.take packetHeaderSize) packetHeaderSize with
    | error ret =>
      rw [known] at front
      cases front
    | ok found =>
      rw [known] at front
      simp only at front ⊢
      by_cases size : maxBytesPerTransfer < found.size ∨ found.size = 0
      · rw [if_pos size] at front
        cases front
      · rw [if_neg size] at front ⊢
        by_cases part : bytes.length < packetHeaderSize + found.size
        · rw [if_pos part] at front
          cases front
        · have whole : ¬ (bytes ++ more).length < packetHeaderSize + found.size := by
            rw [length_append]
            omega
          rw [if_neg part] at front
          cases front
          rw [if_neg whole, drop_append_of_le_length (Nat.not_lt.1 part)]
          have same : slice (bytes ++ more) packetHeaderSize header.size =
              slice bytes packetHeaderSize header.size := by
            rw [slice, slice, drop_append_of_le_length (Nat.not_lt.1 short), take_append_of_le_length]
            rw [length_drop]
            omega
          rw [same]

def Frames (bytes : List UInt8) (packets : List (PacketHeader × List UInt8)) : Prop :=
  ∀ more others outcome, Parses more others outcome →
    Parses (bytes ++ more) (packets ++ others) outcome

theorem frames_nil : Frames [] [] := fun _ _ _ parses => parses

theorem Frames.snoc {part : List UInt8} (frames : Frames bytes packets)
    (front : packetAt part = .packet header payload []) :
    Frames (bytes ++ part) (packets ++ [(header, payload)]) := by
  intro more others outcome parses
  have first := packetAt_packet_append front more
  have both := frames _ _ _ (.packet first parses)
  rw [append_assoc, append_assoc]
  exact both

/-! ### What is held of a packet -/

theorem slice_take (bytes : List UInt8) {start count limit : Nat} (inside : start + count ≤ limit) :
    slice (bytes.take limit) start count = slice bytes start count := by
  rw [slice, slice, drop_take, take_take, Nat.min_eq_left (by omega)]

theorem deserialize_take (bytes : List UInt8) :
    PacketHeader.deserialize (bytes.take packetHeaderSize) packetHeaderSize =
      PacketHeader.deserialize bytes packetHeaderSize := by
  have empty : bytes.take packetHeaderSize = [] ↔ bytes = [] := by
    rw [take_eq_nil_iff]
    exact or_iff_right (by decide)
  have cut {start count : Nat} (inside : start + count ≤ 28) :
      slice (bytes.take packetHeaderSize) start count = slice bytes start count :=
    slice_take bytes inside
  rw [PacketHeader.deserialize, PacketHeader.deserialize, cut (by decide), cut (by decide),
    cut (by decide), cut (by decide), cut (by decide), cut (by decide), cut (by decide), cut (by decide)]
  simp only [empty]

theorem PacketBuf.fill_spec {buf : PacketBuf} {got chunk : List UInt8}
    (same : buf.block.take got.length = got)
    (inside : got.length + chunk.length ≤ buf.block.length) :
    (buf.fill got.length chunk).block.take (got ++ chunk).length = got ++ chunk ∧
      (buf.fill got.length chunk).block.length = buf.block.length ∧
        (buf.fill got.length chunk).size = buf.size := by
  have filled : (buf.fill got.length chunk).block = splice buf.block got.length chunk := by
    rw [PacketBuf.fill, dif_pos inside]
  have size : (buf.fill got.length chunk).size = buf.size := by
    rw [PacketBuf.fill, dif_pos inside]
  refine ⟨?_, ?_, size⟩
  · rw [filled, splice, same, take_left]
  · rw [filled, length_splice inside]

theorem PacketBuf.resize_spec (buf : PacketBuf) {size : Nat} (filled : 0 < size)
    (small : size ≤ maxBytesPerTransfer) :
    (buf.resize size).size = size ∧ packetHeaderSize ≤ (buf.resize size).block.length := by
  have accepted : ¬ maxBytesPerBuffer < size :=
    Nat.not_lt.2 (Nat.le_trans small (by decide))
  rw [PacketBuf.resize, if_neg accepted, if_neg (Nat.ne_of_gt filled)]
  refine ⟨rfl, ?_⟩
  rw [takeD_length]
  exact Nat.le_trans (by decide) (Nat.le_max_right _ _)

namespace IncomingPacket

variable {pkt : IncomingPacket} {part bytes buf : List UInt8} {header : PacketHeader}
variable {after : IncomingPacket} {count : Nat}

/-- The object has a buffer, and these bytes of a packet in it: of the header, or of the
payload behind its header. -/
inductive Ready : IncomingPacket → List UInt8 → Prop where
  | header {buf : PacketBuf} {part : List UInt8} {header : PacketHeader}
      (early : part.length < packetHeaderSize) (room : packetHeaderSize ≤ buf.block.length)
      (same : buf.block.take part.length = part) :
      Ready ⟨0, part.length, some buf, header⟩ part
  | payload {buf : PacketBuf} {head got : List UInt8} {header : PacketHeader}
      (length : head.length = packetHeaderSize)
      (known : PacketHeader.deserialize head packetHeaderSize = .ok header)
      (early : got.length < header.size) (small : header.size ≤ maxBytesPerTransfer)
      (sized : buf.size = header.size) (room : packetHeaderSize ≤ buf.block.length)
      (same : buf.block.take got.length = got) :
      Ready ⟨header.size - got.length, packetHeaderSize + got.length, some buf, header⟩ (head ++ got)

def Holds (pkt : IncomingPacket) (part : List UInt8) : Prop :=
  pkt.prepared.Ready part

theorem Ready.prepared (ready : pkt.Ready part) : pkt.prepared = pkt := by
  cases ready <;> rfl

theorem Ready.holds (ready : pkt.Ready part) : pkt.Holds part := by
  rw [Holds, ready.prepared]
  exact ready

theorem holds_new : new.Holds [] := by
  have ready := @Ready.header (PacketBuf.new.resize packetHeaderSize) [] .new (by decide) (by decide) rfl
  exact ready

@[simp] theorem asked_prepared (pkt : IncomingPacket) : pkt.prepared.asked = pkt.asked := by
  obtain ⟨bytes, offset, buf, header⟩ := pkt
  cases buf <;> rfl

theorem packetAt_payload {head got : List UInt8}
    (length : head.length = packetHeaderSize)
    (known : PacketHeader.deserialize head packetHeaderSize = .ok header) (filled : 0 < header.size)
    (small : header.size ≤ maxBytesPerTransfer) :
    packetAt (head ++ got) =
      if got.length < header.size then .more
      else .packet header (got.take header.size) (got.drop header.size) := by
  have long : ¬ (head ++ got).length < packetHeaderSize := by
    rw [length_append]
    omega
  have fits : ¬ (maxBytesPerTransfer < header.size ∨ header.size = 0) := by omega
  rw [packetAt, if_neg long, take_left' length, known]
  simp only
  rw [if_neg fits, length_append, length, slice, drop_left' length, ← drop_drop, drop_left' length]
  by_cases early : got.length < header.size
  · rw [if_pos early, if_pos (by omega)]
  · rw [if_neg early, if_neg (by omega)]

theorem Ready.more (ready : pkt.Ready part) : packetAt part = .more := by
  cases ready with
  | header early room same => rw [packetAt, if_pos early]
  | payload length known early small sized room same =>
    rw [packetAt_payload length known (Nat.zero_lt_of_lt early) small, if_pos early]

theorem Ready.room (ready : pkt.Ready part) :
    0 < pkt.asked ∧ pkt.asked ≤ maxBytesPerTransfer ∧ ∀ count, count ≤ pkt.asked → pkt.room count = true := by
  cases ready with
  | @header buf part header early room same =>
    have asked : (IncomingPacket.mk 0 part.length (some buf) header).asked =
        packetHeaderSize - part.length := by
      rw [IncomingPacket.asked, if_pos rfl]
      exact sub32_of_le (Nat.le_of_lt early) (by decide)
    have offset : (IncomingPacket.mk 0 part.length (some buf) header).bufOffset = part.length :=
      if_pos early
    rw [asked]
    refine ⟨Nat.sub_pos_of_lt early, ?_, fun count within => ?_⟩
    · exact Nat.le_trans (Nat.sub_le _ _) (by decide)
    · rw [IncomingPacket.room, offset, decide_eq_true_eq]
      show part.length + count ≤ buf.block.length
      omega
  | @payload buf head got header length known early small sized room same =>
    have asked : (IncomingPacket.mk (header.size - got.length) (packetHeaderSize + got.length) (some buf)
        header).asked = header.size - got.length :=
      if_neg (Nat.sub_ne_zero_of_lt early)
    have offset : (IncomingPacket.mk (header.size - got.length) (packetHeaderSize + got.length) (some buf)
        header).bufOffset = got.length := by
      rw [bufOffset, if_neg (by simp)]
      exact Nat.add_sub_cancel_left _ _
    rw [asked]
    refine ⟨Nat.sub_pos_of_lt early, Nat.le_trans (Nat.sub_le _ _) small, fun count within => ?_⟩
    rw [IncomingPacket.room, offset, decide_eq_true_eq, limit, if_neg (Nat.sub_ne_zero_of_lt early)]
    show got.length + count ≤ buf.size
    omega

def content (pkt : IncomingPacket) : List UInt8 := (pkt.buf.map (·.payload)).getD []

/-- What the object is behind the bytes it took: still in the header, at its end, in the payload,
or done. -/
inductive Took (pkt after : IncomingPacket) (bytes : List UInt8) (count : Nat) : Prop where
  | short (early : after.offset < packetHeaderSize) (ready : after.Ready bytes)
  | header {buf : PacketBuf} (full : after.offset = packetHeaderSize) (sizeless : after.bytesToRecv = 0)
      (length : bytes.length = packetHeaderSize) (stored : after.buf = some buf)
      (same : buf.block.take packetHeaderSize = bytes)
  | part (behind : ¬ after.offset < packetHeaderSize)
      (sized : ¬ (after.offset = packetHeaderSize ∧ after.bytesToRecv = 0)) (less : count < pkt.asked)
      (ready : Ready { after with bytesToRecv := after.bytesToRecv - count } bytes)
  | whole (behind : ¬ after.offset < packetHeaderSize)
      (sized : ¬ (after.offset = packetHeaderSize ∧ after.bytesToRecv = 0)) (all : ¬ count < pkt.asked)
      (front : packetAt bytes = .packet after.header after.content [])
      (ready : Ready { after with bytesToRecv := 0, offset := 0 } [])

theorem Ready.took {chunk : List UInt8} (ready : pkt.Ready part)
    (within : chunk.length ≤ pkt.asked) : Took pkt (pkt.take chunk)
    (part ++ chunk) chunk.length := by
  have inside := of_decide_eq_true (ready.room.2.2 _ within)
  cases ready with
  | @header buf part header early room same =>
    have asked : (IncomingPacket.mk 0 part.length (some buf) header).asked =
        packetHeaderSize - part.length := by
      rw [IncomingPacket.asked, if_pos rfl]
      exact sub32_of_le (Nat.le_of_lt early) (by decide)
    have offset : (IncomingPacket.mk 0 part.length (some buf) header).bufOffset = part.length :=
      if_pos early
    rw [asked] at within
    rw [offset] at inside
    obtain ⟨stored, length, size⟩ := PacketBuf.fill_spec same inside
    have after : (IncomingPacket.mk 0 part.length (some buf) header).take chunk =
        ⟨0, (part ++ chunk).length, some (buf.fill part.length chunk), header⟩ := by
      rw [take, offset, length_append]
      rfl
    rw [after]
    by_cases short : (part ++ chunk).length < packetHeaderSize
    · exact .short short (.header short (length ▸ room) stored)
    · have full : (part ++ chunk).length = packetHeaderSize := by
        rw [length_append] at short ⊢
        omega
      rw [full] at stored
      exact .header full rfl full rfl stored
  | @payload buf head got header length known early small sized room same =>
    have asked : (IncomingPacket.mk (header.size - got.length) (packetHeaderSize + got.length) (some buf)
        header).asked = header.size - got.length :=
      if_neg (Nat.sub_ne_zero_of_lt early)
    have offset : (IncomingPacket.mk (header.size - got.length) (packetHeaderSize + got.length) (some buf)
        header).bufOffset = got.length := by
      rw [bufOffset, if_neg (by simp)]
      exact Nat.add_sub_cancel_left _ _
    rw [offset, limit, if_neg (Nat.sub_ne_zero_of_lt early)] at inside
    obtain ⟨stored, lengths, size⟩ := PacketBuf.fill_spec same (Nat.le_trans inside buf.bounded)
    have after : (IncomingPacket.mk (header.size - got.length) (packetHeaderSize + got.length) (some buf)
        header).take chunk =
        ⟨header.size - got.length, packetHeaderSize + (got ++ chunk).length,
          some (buf.fill got.length chunk), header⟩ := by
      rw [take, offset, length_append, Nat.add_assoc]
      rfl
    have behind : ¬ packetHeaderSize + (got ++ chunk).length < packetHeaderSize :=
      Nat.not_lt.2 (Nat.le_add_right _ _)
    have going : header.size - got.length ≠ 0 := Nat.sub_ne_zero_of_lt early
    rw [after, append_assoc]
    by_cases less : chunk.length < header.size - got.length
    · refine .part behind (fun both => going both.2) (by rwa [asked]) ?_
      have under : (got ++ chunk).length < header.size := by
        rw [length_append]
        omega
      have ready := @Ready.payload _ head (got ++ chunk) header length known under small
        (size.trans sized) (lengths ▸ room) stored
      rw [length_append, ← Nat.sub_sub] at ready
      rw [length_append]
      exact ready
    · have full : (got ++ chunk).length = header.size := by
        rw [asked] at within
        rw [length_append]
        omega
      refine .whole behind (fun both => going both.2) (by rwa [asked]) ?_
        (@Ready.header _ [] _ (by decide) (lengths ▸ room) rfl)
      have content : (IncomingPacket.mk (header.size - got.length) (packetHeaderSize + (got ++ chunk).length)
          (some (buf.fill got.length chunk)) header).content = got ++ chunk := by
        show (buf.fill got.length chunk).block.take (buf.fill got.length chunk).size = got ++ chunk
        rw [size, sized, ← full, stored]
      rw [packetAt_payload length known (Nat.zero_lt_of_lt early) small,
        if_neg (Nat.not_lt.2 (Nat.le_of_eq full.symm)), content, take_of_length_le (Nat.le_of_eq full),
        drop_of_length_le (Nat.le_of_eq full)]

/-! ### A round and a call -/

/-- How a call ends that took these bytes. -/
inductive Ends (bytes : List UInt8) (pkt : IncomingPacket) (ret : Int) : Prop where
  | more (pending : ret = statusPending) (holds : pkt.Holds bytes)
  | bad (protocol : ret = eProto ∨ ret = eInval) (wrong : packetAt bytes = .bad)
  | packet (success : ret = statusSuccess) (front : packetAt bytes = .packet pkt.header pkt.content [])
      (holds : pkt.Holds [])

/-- A header of the right form but with a wrong size: the next `read` is the last one. -/
def Doomed (pkt : IncomingPacket) : Prop :=
  ∀ wire gives, ∃ after ret, pkt.readRound wire gives = ⟨wire, after, true, some ret⟩ ∧
    (ret = eProto ∨ ret = eInval)

theorem Took.sized {buf : PacketBuf}
    (length : bytes.length = packetHeaderSize) (stored : pkt.buf = some buf)
    (full : pkt.offset = packetHeaderSize)
    (known : PacketHeader.deserialize bytes packetHeaderSize = .ok header)
    (filled : 0 < header.size)
    (small : header.size ≤ maxBytesPerTransfer) : (pkt.sized header).Ready bytes := by
  obtain ⟨size, room⟩ := buf.resize_spec filled small
  have ready := @Ready.payload (buf.resize header.size) bytes [] header length known filled small size room rfl
  obtain ⟨toRecv, offset, some, old⟩ := pkt
  cases stored
  cases full
  rw [append_nil] at ready
  exact ready

theorem packetAt_header (length : bytes.length = packetHeaderSize) :
    packetAt bytes =
      match PacketHeader.deserialize bytes packetHeaderSize with
      | .error _ => .bad
      | .ok header => if maxBytesPerTransfer < header.size ∨ header.size = 0 then .bad else .more := by
  have long : ¬ bytes.length < packetHeaderSize := Nat.not_lt.2 (Nat.le_of_eq length.symm)
  rw [packetAt, if_neg long, take_of_length_le (Nat.le_of_eq length)]
  cases PacketHeader.deserialize bytes packetHeaderSize with
  | error ret => rfl
  | ok header =>
    simp only
    by_cases wrong : maxBytesPerTransfer < header.size ∨ header.size = 0
    · rw [if_pos wrong, if_pos wrong]
    · rw [if_neg wrong, if_neg wrong, if_pos (by omega)]

theorem deserialize_error {size : Nat} {ret : Int}
    (wrong : PacketHeader.deserialize bytes size = .error ret) : ret = eProto := by
  rw [PacketHeader.deserialize] at wrong
  split at wrong
  · exact (Except.error.inj wrong).symm
  · split at wrong
    · exact (Except.error.inj wrong).symm
    · cases wrong

theorem doomed_empty {buf : PacketBuf}
    (stored : pkt.buf = some buf) (full : pkt.offset = packetHeaderSize) (empty : header.size = 0) :
    (pkt.sized header).Doomed := by
  intro wire gives
  obtain ⟨toRecv, offset, some, old⟩ := pkt
  cases stored
  have full : offset = packetHeaderSize := full
  subst full
  have sized : sized ⟨toRecv, packetHeaderSize, Option.some buf, old⟩ header =
      ⟨0, packetHeaderSize, Option.some .new, header⟩ := by
    have null : buf.resize 0 = .new := by
      rw [PacketBuf.resize, if_neg (by decide), if_pos rfl]
    rw [IncomingPacket.sized, empty]
    simp only [Option.map_some, null]
  have asked : (IncomingPacket.mk 0 packetHeaderSize (Option.some .new) header).asked = 0 :=
    (if_pos rfl).trans (show sub32 packetHeaderSize packetHeaderSize = 0 by decide)
  refine ⟨⟨0, packetHeaderSize, Option.some .new, header⟩, eProto, ?_, .inl rfl⟩
  rw [sized, readRound, asked, if_neg (Nat.not_lt_zero _)]
  have none : min gives (min 0 wire.length) = 0 := by omega
  rw [none]
  rfl

theorem doomed_large (large : maxBytesPerTransfer < header.size) : (pkt.sized header).Doomed := by
  intro wire gives
  have asked : (pkt.sized header).asked = header.size :=
    if_neg (Nat.ne_of_gt (Nat.zero_lt_of_lt large))
  exact ⟨_, eInval, by rw [readRound, asked, if_pos large], .inr rfl⟩

/-- What a round does with the bytes of a packet that it takes: it goes on behind the header, or
the call ends. An object may go on that is doomed. -/
def RoundEnds (doomed : IncomingPacket → Prop) (part wire : List UInt8) (round : FillRound) : Prop :=
  round.inside = true ∧ ∃ chunk, wire = chunk ++ round.left ∧
    match round.ret with
    | none =>
      round.pkt.Ready (part ++ chunk) ∨ (doomed round.pkt ∧ packetAt (part ++ chunk) = .bad)
    | some ret => Ends (part ++ chunk) round.pkt ret

theorem Took.ends
    (took : Took pkt after bytes count)
    (notHeader : ¬ (after.offset = packetHeaderSize ∧ after.bytesToRecv = 0))
    (behind : ¬ after.offset < packetHeaderSize) :
    Ends bytes (after.settled pkt.asked count).1 (after.settled pkt.asked count).2 := by
  cases took with
  | short early ready => exact absurd early behind
  | header full sizeless length stored same => exact absurd ⟨full, sizeless⟩ notHeader
  | part _ _ less ready =>
    rw [settled, if_pos less]
    exact .more rfl ready.holds
  | whole _ _ all front ready =>
    rw [settled, if_neg all]
    exact .packet rfl front ready.holds

theorem Took.atHeader
    (took : Took pkt after bytes count)
    (full : after.offset = packetHeaderSize ∧ after.bytesToRecv = 0) :
    ∃ buf, after.buf = some buf ∧ bytes.length = packetHeaderSize ∧
      PacketHeader.deserialize after.block packetHeaderSize =
        PacketHeader.deserialize bytes packetHeaderSize := by
  cases took with
  | short early ready => exact absurd full.1 (Nat.ne_of_lt early)
  | part behind sized less ready | whole behind sized all front ready => exact absurd full sized
  | @header buf _ _ length stored same =>
    refine ⟨buf, stored, length, ?_⟩
    have block : after.block = buf.block := by rw [IncomingPacket.block, stored]
    rw [← same, deserialize_take, block]

theorem Took.early
    (took : Took pkt after bytes count)
    (early : after.offset < packetHeaderSize) : after.Ready bytes := by
  cases took with
  | short _ ready => exact ready
  | header full sizeless length stored same => exact absurd full (Nat.ne_of_lt early)
  | part behind sized less ready | whole behind sized all front ready => exact absurd early behind

theorem readRound_spec (holds : pkt.Holds part)
    (wire : List UInt8) (gives : Nat) : RoundEnds Doomed part wire (pkt.readRound wire gives) := by
  have ready : pkt.prepared.Ready part := holds
  obtain ⟨some, small, room⟩ := ready.room
  rw [asked_prepared] at some small room
  rw [readRound, if_neg (Nat.not_lt.2 small)]
  simp only [room _ (Nat.le_refl _)]
  generalize counted : min gives (min pkt.asked wire.length) = count
  have within : count ≤ wire.length := by omega
  have split : wire = wire.take count ++ wire.drop count := (take_append_drop count wire).symm
  have length : (wire.take count).length = count := length_take_of_le within
  by_cases silent : count = 0 ∧ pkt.asked ≠ 0
  · rw [if_pos silent]
    refine ⟨rfl, [], rfl, .more rfl ?_⟩
    rw [append_nil]
    exact ready.holds
  · rw [if_neg silent]
    have fits : (wire.take count).length ≤ pkt.prepared.asked := by
      rw [asked_prepared]
      omega
    have took := ready.took fits
    rw [length] at took
    by_cases early : (pkt.prepared.take (wire.take count)).offset < packetHeaderSize
    · rw [if_pos early]
      exact ⟨rfl, _, split, .more rfl (took.early early).holds⟩
    · rw [if_neg early]
      by_cases full : (pkt.prepared.take (wire.take count)).offset = packetHeaderSize ∧
          (pkt.prepared.take (wire.take count)).bytesToRecv = 0
      · obtain ⟨buf, stored, whole, same⟩ := took.atHeader full
        have front := packetAt_header whole
        rw [if_pos full, same]
        cases known : PacketHeader.deserialize (part ++ wire.take count) packetHeaderSize with
        | error ret =>
          rw [known] at front
          exact ⟨rfl, _, split, .bad (.inl (deserialize_error known)) front⟩
        | ok header =>
          rw [known] at front
          simp only at front
          refine ⟨rfl, _, split, ?_⟩
          by_cases empty : header.size = 0
          · rw [if_pos (.inr empty)] at front
            exact .inr ⟨doomed_empty stored full.1 empty, front⟩
          · by_cases large : maxBytesPerTransfer < header.size
            · rw [if_pos (.inl large)] at front
              exact .inr ⟨doomed_large large, front⟩
            · exact .inl (Took.sized whole stored full.1 known (Nat.pos_of_ne_zero empty) (Nat.not_lt.1 large))
      · rw [if_neg full]
        have ends := took.ends full early
        rw [asked_prepared] at ends
        exact ⟨rfl, _, split, ends⟩

@[simp] theorem bytesToRecv_prepared (pkt : IncomingPacket) : pkt.prepared.bytesToRecv = pkt.bytesToRecv := by
  obtain ⟨bytes, offset, buf, header⟩ := pkt
  cases buf <;> rfl

@[simp] theorem bytesToRecv_take (pkt : IncomingPacket) (chunk : List UInt8) :
    (pkt.take chunk).bytesToRecv = pkt.bytesToRecv := rfl

theorem copyRound_again
    (again : (pkt.copyRound buf).ret = none) :
    pkt.bytesToRecv = 0 ∧ (pkt.copyRound buf).pkt.bytesToRecv ≠ 0 := by
  by_cases large : maxBytesPerTransfer < pkt.asked
  · rw [copyRound, if_pos large] at again
    cases again
  · rw [copyRound, if_neg large] at again ⊢
    simp only at again ⊢
    split at again
    · cases again
    · split at again
      · rename_i early full
        rw [if_neg early, if_pos full]
        have first : pkt.bytesToRecv = 0 := by simpa using full.2
        refine ⟨first, ?_⟩
        cases known : PacketHeader.deserialize
            (pkt.prepared.take (buf.take (min pkt.asked buf.length))).block packetHeaderSize with
        | error ret =>
          rw [known] at again
          cases again
        | ok header =>
          rw [known] at again
          simp only at again ⊢
          by_cases tooLarge : maxBytesPerTransfer < header.size
          · rw [if_pos tooLarge] at again
            cases again
          · rw [if_neg tooLarge] at again ⊢
            by_cases empty : header.size = 0
            · rw [if_pos empty] at again
              cases again
            · rw [if_neg empty]
              exact empty
      · cases again

theorem copyRound_spec (holds : pkt.Holds part)
    (buf : List UInt8) : RoundEnds (fun _ => False) part buf (pkt.copyRound buf) := by
  have ready : pkt.prepared.Ready part := holds
  obtain ⟨some, small, room⟩ := ready.room
  rw [asked_prepared] at some small room
  rw [copyRound, if_neg (Nat.not_lt.2 small)]
  generalize counted : min pkt.asked buf.length = count
  simp only [room count (by omega)]
  have within : count ≤ buf.length := by omega
  have split : buf = buf.take count ++ buf.drop count := (take_append_drop count buf).symm
  have length : (buf.take count).length = count := length_take_of_le within
  have fits : (buf.take count).length ≤ pkt.prepared.asked := by
    rw [asked_prepared]
    omega
  have took := ready.took fits
  rw [length] at took
  by_cases early : (pkt.prepared.take (buf.take count)).offset < packetHeaderSize
  · rw [if_pos early]
    exact ⟨rfl, _, split, .more rfl (took.early early).holds⟩
  · rw [if_neg early]
    by_cases full : (pkt.prepared.take (buf.take count)).offset = packetHeaderSize ∧
        (pkt.prepared.take (buf.take count)).bytesToRecv = 0
    · obtain ⟨stored, isStored, whole, same⟩ := took.atHeader full
      have front := packetAt_header whole
      rw [if_pos full, same]
      cases known : PacketHeader.deserialize (part ++ buf.take count) packetHeaderSize with
      | error ret =>
        rw [known] at front
        exact ⟨rfl, _, split, .bad (.inl (deserialize_error known)) front⟩
      | ok header =>
        rw [known] at front
        simp only at front ⊢
        by_cases large : maxBytesPerTransfer < header.size
        · rw [if_pos (.inl large)] at front
          rw [if_pos large]
          exact ⟨rfl, _, split, .bad (.inl rfl) front⟩
        · rw [if_neg large]
          by_cases empty : header.size = 0
          · rw [if_pos (.inr empty)] at front
            rw [if_pos empty]
            exact ⟨rfl, _, split, .bad (.inl rfl) front⟩
          · rw [if_neg empty]
            exact ⟨rfl, _, split, .inl (Took.sized whole isStored full.1 known
              (Nat.pos_of_ne_zero empty) (Nat.not_lt.1 large))⟩
    · rw [if_neg full]
      have ends := took.ends full early
      rw [asked_prepared] at ends
      exact ⟨rfl, _, split, ends⟩

def CallEnds (part wire : List UInt8) (call : FillCall) : Prop :=
  call.inside = true ∧ ∃ chunk, wire = chunk ++ call.left ∧ Ends (part ++ chunk) call.pkt call.ret

theorem readRound_silent (holds : pkt.Holds part)
    (wire : List UInt8) : pkt.readRound wire 0 = ⟨wire, pkt.prepared, true, some statusPending⟩ := by
  have ready : pkt.prepared.Ready part := holds
  obtain ⟨asks, small, room⟩ := ready.room
  rw [asked_prepared] at asks small room
  rw [readRound, if_neg (Nat.not_lt.2 small)]
  simp only [Nat.zero_min, room _ (Nat.le_refl _)]
  rw [if_pos ⟨trivial, Nat.ne_of_gt asks⟩]

theorem Doomed.ends (doomed : pkt.Doomed) (wire : List UInt8)
    (answers : List Nat) : ∃ after ret, pkt.fillPacketFd wire answers = ⟨wire, after, true, ret⟩ ∧
      (ret = eProto ∨ ret = eInval) := by
  cases answers with
  | nil =>
    obtain ⟨after, ret, round, protocol⟩ := doomed wire 0
    exact ⟨after, ret, by rw [fillPacketFd, round]; rfl, protocol⟩
  | cons gives answers =>
    obtain ⟨after, ret, round, protocol⟩ := doomed wire gives
    exact ⟨after, ret, by rw [fillPacketFd, round], protocol⟩

theorem fillPacketFd_spec (holds : pkt.Holds part)
    (wire : List UInt8) (answers : List Nat) : CallEnds part wire
    (pkt.fillPacketFd wire answers) := by
  induction answers generalizing pkt part wire with
  | nil =>
    rw [fillPacketFd, readRound_silent holds]
    refine ⟨rfl, [], rfl, .more rfl ?_⟩
    rw [append_nil]
    exact Ready.holds holds
  | cons gives answers ih =>
    obtain ⟨inside, chunk, split, ends⟩ := readRound_spec holds wire gives
    rw [fillPacketFd]
    simp only
    cases known : (pkt.readRound wire gives).ret with
    | some ret =>
      rw [known] at ends
      exact ⟨inside, chunk, split, ends⟩
    | none =>
      rw [known] at ends
      rcases ends with ready | ⟨doomed, wrong⟩
      · obtain ⟨later, more, rest, ends⟩ :=
          ih ready.holds (pkt.readRound wire gives).left
        refine ⟨?_, chunk ++ more, ?_, ?_⟩
        · simp only [inside, later, Bool.and_self]
        · rw [append_assoc, ← rest]
          exact split
        · rw [← append_assoc]
          exact ends
      · obtain ⟨after, ret, call, protocol⟩ := doomed.ends (pkt.readRound wire gives).left answers
        rw [call]
        refine ⟨?_, chunk, split, .bad protocol wrong⟩
        simp only [inside, Bool.and_self]

theorem fillPacket_spec (holds : pkt.Holds part)
    (filled : buf ≠ []) :
    ∃ call, pkt.fillPacket buf = some call ∧ CallEnds part buf call := by
  rw [fillPacket, if_neg filled, copyRounds]
  obtain ⟨inside, chunk, split, ends⟩ := copyRound_spec holds buf
  cases known : (pkt.copyRound buf).ret with
  | some ret =>
    rw [known] at ends
    exact ⟨_, rfl, inside, chunk, split, ends⟩
  | none =>
    obtain ⟨_, sized⟩ := copyRound_again known
    rw [known] at ends
    rcases ends with ready | ⟨doomed, wrong⟩
    · obtain ⟨later, more, rest, ends⟩ := copyRound_spec ready.holds (pkt.copyRound buf).left
      rw [copyRounds]
      simp only
      cases last : ((pkt.copyRound buf).pkt.copyRound (pkt.copyRound buf).left).ret with
      | none => exact absurd (copyRound_again last).1 sized
      | some ret =>
        rw [last] at ends
        refine ⟨_, rfl, ?_, chunk ++ more, ?_, ?_⟩
        · simp only [inside, later, Bool.and_self]
        · rw [append_assoc, ← rest]
          exact split
        · rw [← append_assoc]
          exact ends
    · exact doomed.elim

theorem readRound_moves {wire : List UInt8} {gives : Nat}
    (holds : pkt.Holds part) (given : gives ≠ 0) (filled : wire ≠ []) :
    (pkt.readRound wire gives).left.length < wire.length := by
  have ready : pkt.prepared.Ready part := holds
  obtain ⟨asks, small, room⟩ := ready.room
  rw [asked_prepared] at asks small
  have some : 0 < wire.length := length_pos_iff.2 filled
  have counted : min gives (min pkt.asked wire.length) ≠ 0 := by omega
  have shorter : (wire.drop (min gives (min pkt.asked wire.length))).length < wire.length := by
    rw [length_drop]
    omega
  rw [readRound, if_neg (Nat.not_lt.2 small)]
  simp only
  rw [if_neg (fun both => counted both.1)]
  split
  · exact shorter
  · split
    · split
      · exact shorter
      · exact shorter
    · exact shorter

theorem copyRound_moves (holds : pkt.Holds part)
    (filled : buf ≠ []) : (pkt.copyRound buf).left.length < buf.length := by
  have ready : pkt.prepared.Ready part := holds
  obtain ⟨asks, small, room⟩ := ready.room
  rw [asked_prepared] at asks small
  have some : 0 < buf.length := length_pos_iff.2 filled
  have shorter : (buf.drop (min pkt.asked buf.length)).length < buf.length := by
    rw [length_drop]
    omega
  rw [copyRound, if_neg (Nat.not_lt.2 small)]
  simp only
  split
  · exact shorter
  · split
    · split
      · exact shorter
      · split
        · exact shorter
        · split
          · exact shorter
          · exact shorter
    · exact shorter

theorem fillPacketFd_moves {wire : List UInt8} {gives : Nat}
    (holds : pkt.Holds part) (given : gives ≠ 0) (filled : wire ≠ []) (answers : List Nat) :
    (pkt.fillPacketFd wire (gives :: answers)).left.length < wire.length := by
  have moves := readRound_moves holds given filled
  obtain ⟨inside, chunk, split, ends⟩ := readRound_spec holds wire gives
  rw [fillPacketFd]
  simp only
  cases known : (pkt.readRound wire gives).ret with
  | some ret => exact moves
  | none =>
    rw [known] at ends
    rcases ends with ready | ⟨doomed, wrong⟩
    · obtain ⟨later, more, rest, ends⟩ :=
        fillPacketFd_spec ready.holds (pkt.readRound wire gives).left answers
      rw [rest, length_append] at moves
      exact Nat.lt_of_le_of_lt (Nat.le_add_left _ _) moves
    · obtain ⟨after, ret, call, protocol⟩ := doomed.ends (pkt.readRound wire gives).left answers
      rw [call]
      exact moves

theorem fillPacket_moves (holds : pkt.Holds part)
    (filled : buf ≠ []) {call : FillCall} (done : pkt.fillPacket buf = some call) :
    call.left.length < buf.length := by
  have moves := copyRound_moves holds filled
  obtain ⟨inside, chunk, split, ends⟩ := copyRound_spec holds buf
  rw [fillPacket, if_neg filled, copyRounds] at done
  cases known : (pkt.copyRound buf).ret with
  | some ret =>
    simp only [known, Option.some.injEq] at done
    rw [← done]
    exact moves
  | none =>
    simp only [known] at done
    rw [known] at ends
    rcases ends with ready | ⟨doomed, wrong⟩
    · obtain ⟨last, again, rfl⟩ := Option.map_eq_some_iff.1 done
      obtain ⟨later, more, rest, ends⟩ := copyRound_spec ready.holds (pkt.copyRound buf).left
      rw [rest, length_append] at moves
      rw [copyRounds] at again
      cases round : ((pkt.copyRound buf).pkt.copyRound (pkt.copyRound buf).left).ret with
      | none => exact absurd (copyRound_again round).1 (copyRound_again known).2
      | some ret =>
        simp only [round, Option.some.injEq] at again
        rw [← again]
        exact Nat.lt_of_le_of_lt (Nat.le_add_left _ _) moves
    · exact doomed.elim

end IncomingPacket

/-! ### The connection -/

namespace Reader

/-- What the stream waits for, or how it ended; another error has no place here. -/
def outcome (reader : Reader) : Option FillOutcome :=
  match reader.failed with
  | none => some .more
  | some ret => if ret = eProto ∨ ret = eInval then some .protocol else none

def Done (reader : Reader) : Prop :=
  reader.left = [] ∨ reader.failed.isSome

/-- What was taken of the input are whole packets and a part of one, or a header that is wrong. -/
structure Inv (input : List UInt8) (reader : Reader) : Prop where
  split : ∃ done part, input = done ++ part ++ reader.left ∧ Frames done reader.packets ∧
    match reader.failed with
    | none => reader.pkt.Holds part
    | some ret => (ret = eProto ∨ ret = eInval) ∧ packetAt part = .bad
  inside : reader.inside = true

variable {input : List UInt8} {reader : Reader}

theorem inv_start (input : List UInt8) : Inv input ⟨.new, input, [], none, true⟩ where
  split := ⟨[], [], rfl, frames_nil, IncomingPacket.holds_new⟩
  inside := rfl

theorem Inv.called {left : List UInt8} (inv : reader.Inv input) (running : reader.failed = none)
    {call : FillCall} (keeps : Bool)
    (ends : ∀ part, reader.pkt.Holds part → ∃ chunk, reader.left = chunk ++ left ∧
      call.inside = true ∧ IncomingPacket.Ends (part ++ chunk) call.pkt call.ret) :
    (reader.called call left keeps).Inv input := by
  obtain ⟨⟨done, part, split, frames, holds⟩, inside⟩ := inv
  rw [running] at holds
  obtain ⟨chunk, taken, within, ends⟩ := ends part holds
  have bytes : input = done ++ (part ++ chunk) ++ left := by
    rw [split, taken]
    simp only [append_assoc]
  have both : (reader.inside && call.inside) = true := by rw [inside, within]; rfl
  cases ends with
  | more pending holds =>
    rw [Reader.called, if_pos pending]
    refine ⟨⟨done, part ++ chunk, bytes, frames, ?_⟩, both⟩
    simp only [running]
    exact holds
  | bad protocol wrong =>
    have settled : call.ret ≠ statusPending ∧ isError call.ret = true := by
      rcases protocol with ret | ret <;> rw [ret] <;> decide
    rw [Reader.called, if_neg settled.1, if_pos settled.2]
    exact ⟨⟨done, part ++ chunk, bytes, frames, protocol, wrong⟩, both⟩
  | packet success front holds =>
    have settled : call.ret ≠ statusPending ∧ ¬ isError call.ret = true := by
      rw [success]
      decide
    rw [Reader.called, if_neg settled.1, if_neg settled.2]
    refine ⟨⟨done ++ (part ++ chunk), [], ?_, frames.snoc front, ?_⟩, both⟩
    · rw [append_nil]
      exact bytes
    · simp only [running]
      cases keeps
      · exact IncomingPacket.holds_new
      · exact holds

theorem Inv.stepFd {next : Reader} {label : List Nat × Bool} (inv : reader.Inv input)
    (moved : reader.stepFd label = some next) : next.Inv input := by
  obtain ⟨running, called⟩ := Option.ite_none_left_eq_some.1 moved
  have running : reader.failed = none := by simpa using running
  cases called
  apply inv.called running
  intro part holds
  obtain ⟨inside, chunk, split, ends⟩ := IncomingPacket.fillPacketFd_spec holds reader.left label.1
  exact ⟨chunk, split, inside, ends⟩

theorem Inv.stepBuf {next : Reader} {label : Nat × Bool} (inv : reader.Inv input)
    (moved : reader.stepBuf label = some next) : next.Inv input := by
  obtain ⟨running, called⟩ := Option.ite_none_left_eq_some.1 moved
  rw [not_or] at running
  obtain ⟨running, filled⟩ := running
  have running : reader.failed = none := by simpa using running
  obtain ⟨call, done, rfl⟩ := Option.map_eq_some_iff.1 called
  apply inv.called running
  intro part holds
  obtain ⟨again, same, inside, chunk, split, ends⟩ := IncomingPacket.fillPacket_spec holds filled
  cases same.symm.trans done
  refine ⟨chunk, ?_, inside, ends⟩
  rw [← append_assoc, ← split, take_append_drop]

theorem Inv.parses (inv : reader.Inv input) :
    ∃ taken outcome, input = taken ++ reader.left ∧ reader.outcome = some outcome ∧
      Parses taken reader.packets outcome := by
  obtain ⟨⟨done, part, split, frames, holds⟩, inside⟩ := inv
  rw [outcome]
  cases failed : reader.failed with
  | none =>
    rw [failed] at holds
    have parses := frames _ _ _ (.more (IncomingPacket.Ready.more holds))
    rw [append_nil] at parses
    exact ⟨done ++ part, .more, split, rfl, parses⟩
  | some ret =>
    rw [failed] at holds
    have parses := frames _ _ _ (.bad holds.2)
    rw [append_nil] at parses
    exact ⟨done ++ part, .protocol, split, if_pos holds.1, parses⟩

theorem Inv.parses_input (inv : reader.Inv input) (done : reader.Done) :
    ∃ outcome, reader.outcome = some outcome ∧ Parses input reader.packets outcome := by
  rcases done with empty | failed
  · obtain ⟨taken, outcome, split, known, parses⟩ := inv.parses
    rw [empty, append_nil] at split
    exact ⟨outcome, known, split ▸ parses⟩
  · obtain ⟨⟨done, part, split, frames, holds⟩, inside⟩ := inv
    obtain ⟨ret, failed⟩ := Option.isSome_iff_exists.1 failed
    rw [failed] at holds
    have parses := frames _ _ _ (.bad (packetAt_bad_append holds.2 reader.left))
    rw [append_nil, ← append_assoc, ← split] at parses
    refine ⟨.protocol, ?_, parses⟩
    rw [outcome, failed]
    exact if_pos holds.1

end Reader

/-- A reader of a descriptor and one of buffers, on the same input. Where they have taken the same
bytes, and where both are done, they have handed on the same packets, and they wait for more
bytes or failed for a wrong packet alike. A call that finds bytes takes some; a call on a
buffer returns. Nothing is written outside of a buffer. -/
structure Agree (fd buf : Reader) : Prop where
  same : fd.left = buf.left → fd.packets = buf.packets ∧ fd.outcome = buf.outcome
  whole : fd.Done → buf.Done → fd.packets = buf.packets ∧ fd.outcome = buf.outcome
  known : fd.outcome.isSome ∧ buf.outcome.isSome
  readMoves : ∀ gives answers keeps next, fd.stepFd (gives :: answers, keeps) = some next →
    gives ≠ 0 → fd.left ≠ [] → next.left.length < fd.left.length
  copyMoves : ∀ count keeps, buf.failed = none → buf.left.take count ≠ [] →
    ∃ next, buf.stepBuf (count, keeps) = some next ∧ next.left.length < buf.left.length
  inside : fd.inside = true ∧ buf.inside = true

theorem left_called (reader : Reader) (call : FillCall) (left : List UInt8) (keeps : Bool) :
    (reader.called call left keeps).left = left := by
  rw [Reader.called]
  split
  · rfl
  · split <;> rfl

theorem Reader.Inv.readMoves {next : Reader} {gives : Nat}
    {answers : List Nat} {keeps : Bool} (inv : reader.Inv input)
    (moved : reader.stepFd (gives :: answers, keeps) = some next) (given : gives ≠ 0)
    (filled : reader.left ≠ []) : next.left.length < reader.left.length := by
  obtain ⟨running, called⟩ := Option.ite_none_left_eq_some.1 moved
  have running : reader.failed = none := by simpa using running
  obtain ⟨⟨done, part, split, frames, holds⟩, inside⟩ := inv
  rw [running] at holds
  cases called
  rw [left_called]
  exact IncomingPacket.fillPacketFd_moves holds given filled answers

theorem Reader.Inv.copyMoves (inv : reader.Inv input)
    (count : Nat) (keeps : Bool) (running : reader.failed = none)
    (filled : reader.left.take count ≠ []) :
    ∃ next, reader.stepBuf (count, keeps) = some next ∧ next.left.length < reader.left.length := by
  obtain ⟨⟨done, part, split, frames, holds⟩, inside⟩ := inv
  rw [running] at holds
  obtain ⟨call, made, ends⟩ := IncomingPacket.fillPacket_spec holds filled
  have shorter := IncomingPacket.fillPacket_moves holds filled made
  have runs : ¬ (reader.failed.isSome = true ∨ reader.left.take count = []) := by
    rw [running]
    simpa using filled
  refine ⟨reader.called call (call.left ++ reader.left.drop count) keeps, ?_, ?_⟩
  · rw [Reader.stepBuf, if_neg runs, made]
    rfl
  · rw [left_called]
    calc (call.left ++ reader.left.drop count).length
        = call.left.length + (reader.left.drop count).length := length_append
      _ < (reader.left.take count).length + (reader.left.drop count).length :=
          Nat.add_lt_add_right shorter _
      _ = (reader.left.take count ++ reader.left.drop count).length := length_append.symm
      _ = reader.left.length := by rw [take_append_drop]

/-- Any input, however it comes in. -/
theorem agree_of_reachable {input : List UInt8} {fd buf : Reader}
    (read : (fdMachine input).Reachable fd) (copied : (bufMachine input).Reachable buf) :
    Agree fd buf := by
  have fdInv : fd.Inv input :=
    read.invariant (Reader.inv_start input) fun _ _ _ _ inv moved => inv.stepFd moved
  have bufInv : buf.Inv input :=
    copied.invariant (Reader.inv_start input) fun _ _ _ _ inv moved => inv.stepBuf moved
  obtain ⟨taken, outcome, split, known, parses⟩ := fdInv.parses
  obtain ⟨other, ending, cut, ends, again⟩ := bufInv.parses
  refine ⟨fun same => ?_, fun fdDone bufDone => ?_, ?_, ?_, bufInv.copyMoves, fdInv.inside, bufInv.inside⟩
  · rw [split, same] at cut
    obtain rfl := append_cancel_right cut
    obtain ⟨packets, outcomes⟩ := parses.unique again
    exact ⟨packets, by rw [known, ends, outcomes]⟩
  · obtain ⟨first, isFirst, parses⟩ := fdInv.parses_input fdDone
    obtain ⟨second, isSecond, again⟩ := bufInv.parses_input bufDone
    obtain ⟨packets, outcomes⟩ := parses.unique again
    exact ⟨packets, by rw [isFirst, isSecond, outcomes]⟩
  · rw [known, ends]
    exact ⟨rfl, rfl⟩
  · intro gives answers keeps next moved given filled
    exact fdInv.readMoves moved given filled

def goodAndBad : List UInt8 :=
  toBE 4 rpcPacketMagic ++ toBE 4 3 ++ List.replicate 20 0 ++ [7, 8, 9] ++ List.replicate 28 1

theorem agree_goodAndBad : ∃ fd buf, Agree fd buf ∧
    fd.packets.map Prod.snd = [[7, 8, 9]] ∧ fd.outcome = some .protocol ∧
    buf.packets.map Prod.snd = [[7, 8, 9]] ∧ buf.outcome = some .protocol := by
  have read : ((fdMachine goodAndBad).run (fdMachine goodAndBad).start
      [([10], false), ([18, 2], true), ([1], true), ([20], false), ([8], false)]).map
        (fun reader => (reader.packets.map Prod.snd, reader.outcome)) =
      some ([[7, 8, 9]], some .protocol) := by
    decide +kernel
  have copied : ((bufMachine goodAndBad).run (bufMachine goodAndBad).start
      [(40, false), (9, false), (19, true)]).map
        (fun reader => (reader.packets.map Prod.snd, reader.outcome)) =
      some ([[7, 8, 9]], some .protocol) := by
    decide +kernel
  obtain ⟨fd, ranFd, sameFd⟩ := Option.map_eq_some_iff.1 read
  obtain ⟨buf, ranBuf, sameBuf⟩ := Option.map_eq_some_iff.1 copied
  obtain ⟨fdPackets, fdOutcome⟩ := Prod.mk.inj sameFd
  obtain ⟨bufPackets, bufOutcome⟩ := Prod.mk.inj sameBuf
  exact ⟨fd, buf, agree_of_reachable (Machine.Reachable.start.run ranFd) (Machine.Reachable.start.run ranBuf),
    fdPackets, fdOutcome, bufPackets, bufOutcome⟩

end RpcFrmwrk.Rpc
