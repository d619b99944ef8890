import RpcFrmwrk.Rpc.IncomingPacketRuns
import RpcFrmwrk.Rpc.SecFidoRuns
import RpcFrmwrk.Rpc.SocketSendRuns

/-! The packets of a stream, from the write queue of one port to the reader of the other. The request
that a port sends is a packet, as `CRpcStream2` makes it. Owns `Serialize` of `CPacketHeader`, and
the buffers of a packet; the packets of a part of what was sent; what the reader has got. -/

namespace RpcFrmwrk.Rpc

open RpcFrmwrk.Library RpcFrmwrk.Ipc List

/-- `Serialize`. -/
def PacketHeader.serialize (header : PacketHeader) : List UInt8 :=
  toBE 4 header.magic ++ (toBE 4 header.size ++ (toBE 4 header.stmId ++ (toBE 4 header.peerStmId ++
    (toBE 2 header.flags ++ (toBE 2 header.protoId ++ (toBE 4 header.sessId ++ toBE 4 header.seqNo))))))

abbrev Packet := PacketHeader × List UInt8

namespace Packet

variable {packet : Packet} {packets : List Packet} {bytes : List UInt8}

/-- What `SetupIrpForLowerPort` gives to the lower port: one buffer if the packet is smaller than a page. -/
def bufs (pageSize : Nat) (packet : Packet) : List (List UInt8) :=
  if packetHeaderSize + packet.2.length < pageSize then [packet.1.serialize ++ packet.2]
  else [packet.1.serialize, packet.2]

/-- The header is that of the payload, which is not empty and fits a transfer. -/
structure Sendable (packet : Packet) : Prop where
  magic : packet.1.magic = rpcPacketMagic
  size : packet.1.size = packet.2.length
  some : packet.2 ≠ []
  fits : packet.2.length ≤ maxBytesPerTransfer
  words : packet.1.stmId < 256 ^ 4 ∧ packet.1.peerStmId < 256 ^ 4 ∧ packet.1.flags < 256 ^ 2 ∧
    packet.1.protoId < 256 ^ 2 ∧ packet.1.sessId < 256 ^ 4 ∧ packet.1.seqNo < 256 ^ 4

def frame (packet : Packet) : List UInt8 := packet.1.serialize ++ packet.2

theorem flatten_bufs (pageSize : Nat) (packet : Packet) : (packet.bufs pageSize).flatten = packet.frame := by
  rw [bufs, frame]
  split <;> simp

theorem length_serialize (header : PacketHeader) : header.serialize.length = packetHeaderSize := by
  simp [PacketHeader.serialize, packetHeaderSize]

theorem length_frame (packet : Packet) : packet.frame.length = packetHeaderSize + packet.2.length := by
  rw [frame, length_append, length_serialize]

theorem Sendable.deserialize (sendable : packet.Sendable) :
    PacketHeader.deserialize packet.1.serialize packetHeaderSize = .ok packet.1 := by
  obtain ⟨header, payload⟩ := packet
  obtain ⟨magic, size, -, fits, stmId, peerStmId, flags, protoId, sessId, seqNo⟩ := sendable
  have limit : maxBytesPerTransfer < 256 ^ 4 := by decide
  have known : header.magic < 256 ^ 4 := by rw [magic]; decide
  have small : header.size < 256 ^ 4 := by rw [size]; exact Nat.lt_of_le_of_lt fits limit
  have some : header.serialize ≠ [] := ne_nil_of_length_pos (by rw [length_serialize]; decide)
  rw [PacketHeader.deserialize, if_neg (not_or.2 ⟨some, Nat.lt_irrefl _⟩)]
  simp [PacketHeader.serialize, slice, drop_append, drop_of_length_le, take_of_length_le, ofBE_toBE_of_lt known,
    ofBE_toBE_of_lt small, ofBE_toBE_of_lt stmId, ofBE_toBE_of_lt peerStmId, ofBE_toBE_of_lt flags,
    ofBE_toBE_of_lt protoId, ofBE_toBE_of_lt sessId, ofBE_toBE_of_lt seqNo, ← magic]

/-- A whole packet stands in front. -/
theorem Sendable.packetAt_frame (sendable : packet.Sendable) (rest : List UInt8) :
    packetAt (packet.frame ++ rest) = .packet packet.1 packet.2 rest := by
  have length := length_serialize packet.1
  have positive := length_pos_of_ne_nil sendable.some
  rw [packetAt, if_neg (by rw [length_append, length_frame]; omega), frame, append_assoc, take_left' length,
    sendable.deserialize]
  simp only [sendable.size]
  rw [if_neg (by have := sendable.fits; omega), if_neg (by simp only [length_append]; omega), slice, drop_left' length,
    take_left, ← append_assoc, drop_left' (by rw [length_append, length])]

/-- A part of a packet does not. -/
theorem Sendable.packetAt_part (sendable : packet.Sendable) (front : bytes <+: packet.frame)
    (part : bytes.length < packet.frame.length) : packetAt bytes = .more := by
  rw [packetAt]
  split
  · rfl
  · next long =>
    obtain ⟨rest, whole⟩ := front
    rw [length_frame] at part
    have header : bytes.take packetHeaderSize = packet.1.serialize := by
      rw [← take_append_header long rest, whole, frame, take_left' (length_serialize _)]
    have positive := length_pos_of_ne_nil sendable.some
    rw [header, sendable.deserialize]
    simp only [sendable.size]
    rw [if_neg (by have := sendable.fits; omega), if_pos part]

/-- A part of what is sent are the first packets, those that are whole in it, and a part of the next one. -/
theorem parses_part (sendable : ∀ packet ∈ packets, packet.Sendable) (front : bytes <+: packets.flatMap frame) :
    ∃ got, got <+: packets ∧ Parses bytes got .more ∧
      ∀ first, first <+: packets → first.flatMap frame <+: bytes → first <+: got := by
  induction packets generalizing bytes with
  | nil =>
    rw [flatMap_nil, prefix_nil] at front
    rw [front]
    exact ⟨[], prefix_refl [], .more rfl, fun _ isFirst _ => isFirst⟩
  | cons head tail ih =>
    have isHead := sendable head mem_cons_self
    rw [flatMap_cons] at front
    by_cases part : bytes.length < head.frame.length
    · have isPart := prefix_of_prefix_length_le front (prefix_append _ _) (Nat.le_of_lt part)
      refine ⟨[], nil_prefix, .more (isHead.packetAt_part isPart part), fun first isFirst inside => ?_⟩
      rcases prefix_cons_iff.1 isFirst with rfl | ⟨rest, rfl, -⟩
      · exact nil_prefix
      · have length := inside.length_le
        rw [flatMap_cons, length_append] at length
        omega
    · obtain ⟨rest, rfl⟩ := prefix_of_prefix_length_le (prefix_append _ _) front (Nat.not_lt.1 part)
      obtain ⟨got, isPrefix, parses, whole⟩ := ih (fun packet member => sendable packet (mem_cons_of_mem _ member))
        ((prefix_append_right_inj _).1 front)
      refine ⟨head :: got, cons_prefix_cons.2 ⟨rfl, isPrefix⟩, .packet (isHead.packetAt_frame rest) parses, ?_⟩
      intro first isFirst inside
      rcases prefix_cons_iff.1 isFirst with rfl | ⟨more, rfl, isMore⟩
      · exact nil_prefix
      · exact cons_prefix_cons.2 ⟨rfl, whole more isMore ((prefix_append_right_inj _).1 inside)⟩

/-- A reader of such a part does not fail. Its packets are the first ones, and all that are whole once it has
read the part. -/
theorem read_part {input : List UInt8} {reader : Reader} (inv : reader.Inv input)
    (sendable : ∀ packet ∈ packets, packet.Sendable) (front : input <+: packets.flatMap frame) :
    reader.failed = none ∧ reader.packets <+: packets ∧
      (reader.left = [] → ∀ first, first <+: packets → first.flatMap frame <+: input → first <+: reader.packets) := by
  obtain ⟨taken, outcome, split, isOutcome, parses⟩ := inv.parses
  obtain ⟨got, isPrefix, parsed, known⟩ := parses_part sendable ((split ▸ prefix_append taken _).trans front)
  obtain ⟨rfl, rfl⟩ := parses.unique parsed
  refine ⟨?_, isPrefix, fun read first isFirst inside => known first isFirst ?_⟩
  · rw [Reader.outcome] at isOutcome
    clear known
    grind
  · rwa [split, read, append_nil] at inside

end Packet

/-- The reader has got packets of accepted requests in their order, none twice, and all that were
answered with success once it has read all bytes. It does not fail. -/
def Delivered (packets : Nat → Packet) (state : SendState) (reader : Reader) : Prop :=
  reader.failed = none ∧ ∃ got : List Nat, got.Sublist state.accepted ∧ got.Nodup ∧ reader.packets = got.map packets ∧
    (reader.left = [] → ∀ entry ∈ state.answered, entry.2 = statusSuccess → entry.1 ∈ got)

def sentPort (maxBytes : Nat) : Machine SendState SendMove :=
  (sendMachine maxBytes).restrict fun state move => move.Orderly state ∧ move.Uncut state

def onePacket : Packet := ({ PacketHeader.new with size := 1, protoId := 6, seqNo := 1 }, [7])

theorem sendable_onePacket : onePacket.Sendable := ⟨rfl, rfl, cons_ne_nil _ _, by decide, by decide⟩

/-- Where each write to the security filter is a packet, a reader of what the other filter hands up gets these in order,
and all of them once nothing is on the way. -/
theorem delivered_behindFilter {auth : Authenticate} {ctx : SecCtx} {link : SecLink} {reader : Reader}
    {packets : List Packet} (sendable : ∀ packet ∈ packets, packet.Sendable)
    (sent : ((secLink auth ctx).restrict SecLink.Fits).Reachable link)
    (carries : link.sent.map SecPacket.payload = packets.map Packet.frame)
    (read : (bufMachine (link.fido.handed.flatMap fun payload => payload.getD [])).Reachable reader) :
    reader.failed = none ∧ reader.packets <+: packets ∧
      (reader.left = [] → reader.packets.length = link.fido.handed.length) ∧
      (link.fido.listening = .atLower → link.wire = [] → reader.left = [] → reader.packets = packets) := by
  obtain ⟨done, rest, filter⟩ : ∃ done rest, link.Inv auth ctx done rest := by
    apply @Machine.Reachable.invariant _ _ _ (fun link => ∃ done rest, link.Inv auth ctx done rest) _ sent
      ⟨[], [], SecLink.Inv.start⟩
    rintro link move next _ ⟨_, _, filter⟩ moved
    obtain ⟨fits, moved⟩ := Machine.restrict_step.1 moved
    exact filter.step fits moved
  have inv : reader.Inv _ := read.invariant (Reader.inv_start _) fun _ _ _ _ inv moved => inv.stepBuf moved
  have count : link.fido.handed.length = done.length := by rw [filter.handed, length_map]
  have first : done.map SecPacket.payload = (packets.take done.length).map Packet.frame := by
    rw [map_take, ← carries, filter.sent, map_append, take_left' (length_map _)]
  have input : (link.fido.handed.flatMap fun payload => payload.getD []) =
      (packets.take done.length).flatMap Packet.frame := by
    rw [filter.handed, flatMap_map, flatMap_def, flatMap_def, ← first]
    rfl
  rw [input] at inv
  obtain ⟨intact, isPrefix, known⟩ := Packet.read_part inv
    (fun packet member => sendable packet (mem_of_mem_take member)) (prefix_refl _)
  have all (read : reader.left = []) : reader.packets = packets.take done.length :=
    isPrefix.eq_of_length_le (known read _ (prefix_refl _) (prefix_refl _)).length_le
  have total := congrArg length carries
  rw [length_map, length_map, filter.sent, length_append] at total
  refine ⟨intact, isPrefix.trans ( take_prefix _ _), fun read => ?_, fun waits none read => ?_⟩
  · rw [all read, length_take, count]
    omega
  · have handed := congrArg length (filter.delivers.all waits none)
    rw [length_map, count, filter.sent, length_append] at handed
    rw [all read, take_of_length_le (by omega)]

theorem delivered_behindReversing : ∃ link : SecLink, ∃ reader : Reader, link.fido.handed = [some onePacket.frame] ∧
    reader.failed = none ∧ reader.packets <+: [onePacket] ∧ reader.packets.length = link.fido.handed.length := by
  have ran : (((secLink SecLink.reversing ⟨false, false⟩).restrict SecLink.Fits).run
      (secLink SecLink.reversing ⟨false, false⟩).start
      [.setWriterCtx, .setSecCtx, .write [onePacket.frame], .listen,
        .receive (.single (secPacketHeader encPacketMagic 29 ++ onePacket.frame.reverse)), .listen]).map
        (fun link => (link.sent.map SecPacket.payload, link.fido.handed)) =
      some ([onePacket].map Packet.frame, [some onePacket.frame]) := by
    decide +kernel
  obtain ⟨link, run, isLink⟩ := Option.map_eq_some_iff.1 ran
  obtain ⟨carries, handed⟩ := Prod.mk.inj isLink
  have read : (bufMachine (link.fido.handed.flatMap fun payload => payload.getD [])).run
      (bufMachine (link.fido.handed.flatMap fun payload => payload.getD [])).start [(29, false)] = some
        ⟨.new, [], [onePacket], none, true⟩ := by
    rw [handed]
    rfl
  obtain ⟨intact, isPrefix, count, -⟩ := delivered_behindFilter (forall_mem_singleton.2 sendable_onePacket)
    (Machine.Reachable.start.run run) carries (Machine.Reachable.start.run read)
  exact ⟨link, _, handed, intact, isPrefix, count rfl⟩

end RpcFrmwrk.Rpc
