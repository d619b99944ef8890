import Mathlib.Algebra.Group.Nat.Defs
import Mathlib.Algebra.Ring.Int.Defs
import Mathlib.Data.List.Sort
import RpcFrmwrk.Combase.Status
import RpcFrmwrk.Library.Machine

/-! The numbers of the streams of the native protocol port. Numbers are `gint32`. The streams are
those of `m_mapStreams`, in the order of their numbers. The port's lock is held by every call. A
request to open a stream at the peer takes a number, and the stream is added when the response to it
comes. Owns `GetSeedStmId`, `NewStreamId`, `AddStream`, `RemoveStream`, `GetStream` and
`GetStreamByPeerId` of `CRpcNativeProtoFdo`; the commands of `HandleIoctlIrp` about the numbers of
streams; when the numbers of the live streams and of their peers are found from each other. -/

namespace RpcFrmwrk.Rpc

open RpcFrmwrk.Library List

/-- `STMSOCK_STMID_FLOOR`. -/
def stmIdFloor : Int := 0x400

/-- `TCP_CONN_DEFAULT_CMD` and `TCP_CONN_DEFAULT_STM`. -/
def tcpConnDefaultCmd : Int := 0

def tcpConnDefaultStm : Int := 1

/-- `IsReserveStm`. -/
def IsReserveStm (iStmId : Int) : Prop := 0 ≤ iStmId ∧ iStmId < stmIdFloor

instance (iStmId : Int) : Decidable (IsReserveStm iStmId) := inferInstanceAs (Decidable (_ ∧ _))

/-- `EnumProtoId`, as far as there are streams of it. -/
inductive StmProto where
  | protoStream
  | protoDBusRelay
  | protoControl
  | other
deriving DecidableEq, Repr

/-- `CRpcStream2`, its numbers and its protocol. -/
structure Stm where
  iStmId : Int
  wProtoId : StmProto
  iPeerStmId : Int
deriving DecidableEq, Repr

/-- `m_iStmCounter`, `m_mapStreams`, and the numbers of the requests that are sent to the peer. -/
structure NativeFdo where
  iStmCounter : Int
  mapStreams : List Stm
  sent : List Int

namespace NativeFdo

variable {stm : Stm} {fdo : NativeFdo}

/-- `GetSeedStmId`: the counter wraps below zero, and starts again. -/
def getSeedStmId (fdo : NativeFdo) : Int × NativeFdo :=
  (fdo.iStmCounter,
    { fdo with
      iStmCounter :=
        if (fdo.iStmCounter + 1).bmod (2 ^ 32) < 0 then stmIdFloor else (fdo.iStmCounter + 1).bmod (2 ^ 32) })

/-- `NewStreamId`. -/
def newStreamId (fdo : NativeFdo) : Int × NativeFdo := fdo.getSeedStmId

/-- `GetStream`. -/
def getStream (fdo : NativeFdo) (iIndex : Int) : Option Stm :=
  fdo.mapStreams.find? fun stm => stm.iStmId = iIndex

/-- A stream in the map, in front of those with greater numbers. -/
def insertStm (stm : Stm) : List Stm → List Stm
  | [] => [stm]
  | first :: rest =>
    if stm.iStmId < first.iStmId then stm :: first :: rest else first :: insertStm stm rest

/-- `AddStream`. -/
def addStream (fdo : NativeFdo) (iStream : Int) (wProtoId : StmProto) (iPeerStmId : Int) : Status × NativeFdo :=
  if iStream < 0 then (.einval, fdo)
  else if (fdo.getStream iStream).isSome then (.eexist, fdo)
  else if wProtoId = .other then (.enotsup, fdo)
  else (.success, { fdo with mapStreams := insertStm ⟨iStream, wProtoId, iPeerStmId⟩ fdo.mapStreams })

/-- `RemoveStream`. -/
def removeStream (fdo : NativeFdo) (iStream : Int) : Status × NativeFdo :=
  if iStream < 0 then (.einval, fdo)
  else if (fdo.getStream iStream).isNone then (.enoent, fdo)
  else (.success, { fdo with mapStreams := fdo.mapStreams.filter fun stm => stm.iStmId ≠ iStream })

/-- `GetStreamByPeerId`. Every stream has a peer's number, and the loop ends with the first it comes to. -/
def getStreamByPeerId (fdo : NativeFdo) (iPeerId : Int) : Option Stm :=
  if iPeerId < 0 then none
  else if IsReserveStm iPeerId then fdo.getStream iPeerId
  else fdo.mapStreams.head?

/-- `CTRLCODE_GET_LOCAL_STMID`. The result is set before the stream is looked up. -/
def getLocalStmId (fdo : NativeFdo) (iStmId : Int) : Option Int :=
  if iStmId = tcpConnDefaultCmd ∨ iStmId = tcpConnDefaultStm then some iStmId
  else (fdo.getStreamByPeerId iStmId).map fun _ => iStmId

/-- `CTRLCODE_GET_RMT_STMID`. -/
def getRmtStmId (fdo : NativeFdo) (iStmId : Int) : Option Int :=
  if iStmId = tcpConnDefaultCmd ∨ iStmId = tcpConnDefaultStm then some iStmId
  else (fdo.getStream iStmId).map (·.iPeerStmId)

inductive StmCall where
  /-- `CTRLCODE_OPEN_STREAM_LOCAL_PDO`, on behalf of the peer's stream. -/
  | openLocal (iRequiredStm : Int) (dwProtoId : StmProto)
  /-- `CTRLCODE_OPEN_STREAM_PDO`. -/
  | openPeer
  /-- `CompleteOpenStmIrp` for a request that was sent. -/
  | completeOpen (index : Nat) (dwProtoId : StmProto) (iPeerId : Int)
  /-- A request that was sent fails. -/
  | failOpen (index : Nat)
  /-- `CTRLCODE_CLOSE_STREAM_LOCAL_PDO`. -/
  | closeLocal (iStreamId : Int)
  /-- `CompleteCloseStmIrp`. -/
  | completeClose (iLocalStmId : Int)
deriving DecidableEq, Repr

def openLocal (fdo : NativeFdo) (iRequiredStm : Int) (dwProtoId : StmProto) : Status × NativeFdo :=
  if IsReserveStm iRequiredStm then (.einval, fdo)
  else fdo.newStreamId.2.addStream fdo.newStreamId.1 dwProtoId iRequiredStm

def openPeer (fdo : NativeFdo) : NativeFdo :=
  { fdo.newStreamId.2 with sent := fdo.sent ++ [fdo.newStreamId.1] }

def completeOpen (fdo : NativeFdo) (index : Nat) (dwProtoId : StmProto) (iPeerId : Int) : Option NativeFdo :=
  fdo.sent[index]?.map fun iReqStmId =>
    { (fdo.addStream iReqStmId dwProtoId iPeerId).2 with sent := fdo.sent.eraseIdx index }

def closeLocal (fdo : NativeFdo) (iStreamId : Int) : NativeFdo :=
  if IsReserveStm iStreamId then fdo else (fdo.removeStream iStreamId).2

def step (fdo : NativeFdo) : StmCall → Option NativeFdo
  | .openLocal iRequiredStm dwProtoId => some (fdo.openLocal iRequiredStm dwProtoId).2
  | .openPeer => some fdo.openPeer
  | .completeOpen index dwProtoId iPeerId => fdo.completeOpen index dwProtoId iPeerId
  | .failOpen index => some { fdo with sent := fdo.sent.eraseIdx index }
  | .closeLocal iStreamId => some (fdo.closeLocal iStreamId)
  | .completeClose iLocalStmId => some (fdo.removeStream iLocalStmId).2

/-- The port behind `PostStart`, with its two streams. -/
def postStart : NativeFdo where
  iStmCounter := stmIdFloor
  mapStreams := [⟨tcpConnDefaultCmd, .protoControl, tcpConnDefaultCmd⟩,
    ⟨tcpConnDefaultStm, .protoDBusRelay, tcpConnDefaultStm⟩]
  sent := []

def machine : Machine NativeFdo StmCall := ⟨postStart, step⟩

/-! ### What holds of the numbers -/

/-- What is expected: a new number is not that of a live stream, a live stream is found by the number
of its peer's, and the two numbers are found from each other. -/
structure Numbered (fdo : NativeFdo) : Prop where
  floor : stmIdFloor ≤ fdo.newStreamId.1
  fresh : ∀ stm ∈ fdo.mapStreams, stm.iStmId ≠ fdo.newStreamId.1
  byPeer : ∀ stm ∈ fdo.mapStreams, fdo.getStreamByPeerId stm.iPeerStmId = some stm
  toLocal : ∀ stm ∈ fdo.mapStreams, fdo.getLocalStmId stm.iPeerStmId = some stm.iStmId
  toPeer : ∀ stm ∈ fdo.mapStreams, fdo.getRmtStmId stm.iStmId = some stm.iPeerStmId

/-- What holds of every port. -/
structure Sound (fdo : NativeFdo) : Prop where
  floor : stmIdFloor ≤ fdo.iStmCounter
  small : fdo.iStmCounter < 2 ^ 31
  ordered : fdo.mapStreams.Pairwise fun left right => left.iStmId < right.iStmId
  positive : ∀ stm ∈ fdo.mapStreams, 0 ≤ stm.iStmId

theorem mem_insertStm {other : Stm} {list : List Stm} : other ∈ insertStm stm list ↔ other = stm ∨ other ∈ list := by
  induction list with
  | nil => simp [insertStm]
  | cons first rest ih =>
    rw [insertStm]
    split
    · simp
    · simp only [mem_cons, ih]
      tauto

theorem insertStm_ordered {list : List Stm}
    (ordered : list.Pairwise fun left right => left.iStmId < right.iStmId)
    (fresh : ∀ other ∈ list, other.iStmId ≠ stm.iStmId) :
    (insertStm stm list).Pairwise fun left right => left.iStmId < right.iStmId := by
  induction list with
  | nil => exact pairwise_singleton _ _
  | cons first rest ih =>
    obtain ⟨least, ordered⟩ := pairwise_cons.1 ordered
    have apart := fresh first mem_cons_self
    rw [insertStm]
    by_cases front : stm.iStmId < first.iStmId
    · rw [if_pos front]
      refine pairwise_cons.2 ⟨?_, pairwise_cons.2 ⟨least, ordered⟩⟩
      intro other member
      rcases mem_cons.1 member with rfl | behind
      · exact front
      · exact front.trans (least other behind)
    · rw [if_neg front]
      refine pairwise_cons.2 ⟨?_, ih ordered fun other member =>
        fresh other (mem_cons_of_mem _ member)⟩
      intro other member
      rcases mem_insertStm.1 member with rfl | behind
      · omega
      · exact least other behind

theorem getStream_eq_none {iIndex : Int} :
    fdo.getStream iIndex = none ↔ ∀ stm ∈ fdo.mapStreams, stm.iStmId ≠ iIndex := by
  simp [getStream]

theorem Sound.getStream (sound : fdo.Sound) (live : stm ∈ fdo.mapStreams) :
    fdo.getStream stm.iStmId = some stm := by
  have ordered := sound.ordered
  unfold NativeFdo.getStream
  generalize fdo.mapStreams = list at live ordered
  induction list with
  | nil => exact absurd live not_mem_nil
  | cons first rest ih =>
    obtain ⟨least, ordered⟩ := pairwise_cons.1 ordered
    rcases mem_cons.1 live with rfl | behind
    · simp
    · have apart : first.iStmId ≠ stm.iStmId := (least stm behind).ne
      rw [List.find?_cons_of_neg (by simpa using apart)]
      exact ih behind ordered

theorem newStreamId_sound (sound : fdo.Sound) : fdo.newStreamId.2.Sound := by
  have floor := sound.floor
  have small := sound.small
  have next : (fdo.iStmCounter + 1).bmod (2 ^ 32) =
      if fdo.iStmCounter + 1 < 2 ^ 31 then fdo.iStmCounter + 1 else -2 ^ 31 := by
    unfold stmIdFloor at floor
    split
    · rw [Int.bmod_def]
      omega
    · rw [Int.bmod_def]
      omega
  have counter : fdo.newStreamId.2.iStmCounter =
      if fdo.iStmCounter + 1 < 2 ^ 31 then fdo.iStmCounter + 1 else stmIdFloor := by
    unfold newStreamId getSeedStmId
    simp only [next]
    unfold stmIdFloor at floor ⊢
    split <;> split <;> omega
  refine ⟨?_, ?_, sound.ordered, sound.positive⟩
  · rw [counter]
    split <;> omega
  · rw [counter]
    unfold stmIdFloor
    split <;> omega

theorem addStream_sound (sound : fdo.Sound) (iStream : Int) (wProtoId : StmProto)
    (iPeerStmId : Int) : (fdo.addStream iStream wProtoId iPeerStmId).2.Sound := by
  unfold addStream
  by_cases negative : iStream < 0
  · rw [if_pos negative]
    exact sound
  · rw [if_neg negative]
    by_cases exists' : (fdo.getStream iStream).isSome
    · rw [if_pos exists']
      exact sound
    · rw [if_neg exists']
      have fresh := getStream_eq_none.1 (Option.not_isSome_iff_eq_none.1 exists')
      split
      · exact sound
      · refine ⟨sound.floor, sound.small, insertStm_ordered sound.ordered fresh, ?_⟩
        intro stm member
        rcases mem_insertStm.1 member with rfl | before
        · exact not_lt.1 negative
        · exact sound.positive stm before

theorem removeStream_sound (sound : fdo.Sound) (iStream : Int) : (fdo.removeStream iStream).2.Sound := by
  unfold removeStream
  split
  · exact sound
  · split
    · exact sound
    · exact ⟨sound.floor, sound.small, sound.ordered.filter _, fun stm member =>
        sound.positive stm (mem_of_mem_filter member)⟩

theorem Sound.withSent (sound : fdo.Sound) (sent : List Int) : Sound { fdo with sent := sent } :=
  { sound with }

theorem step_sound {next : NativeFdo} {call : StmCall} (sound : fdo.Sound)
    (moved : fdo.step call = some next) :
    next.Sound := by
  cases call with
  | openLocal iRequiredStm dwProtoId =>
    cases moved
    unfold openLocal
    split
    · exact sound
    · exact addStream_sound (newStreamId_sound sound) _ _ _
  | openPeer =>
    cases moved
    exact (newStreamId_sound sound).withSent _
  | completeOpen index dwProtoId iPeerId =>
    obtain ⟨iReqStmId, _, rfl⟩ := Option.map_eq_some_iff.1 moved
    exact (addStream_sound sound _ _ _).withSent _
  | failOpen index =>
    cases moved
    exact sound.withSent _
  | closeLocal iStreamId =>
    cases moved
    unfold closeLocal
    split
    · exact sound
    · exact removeStream_sound sound iStreamId
  | completeClose iLocalStmId =>
    cases moved
    exact removeStream_sound sound iLocalStmId

theorem postStart_sound : postStart.Sound where
  floor := by decide
  small := by decide
  ordered := by decide
  positive := by decide

theorem sound_of_reachable (reachable : machine.Reachable fdo) : fdo.Sound :=
  reachable.invariant postStart_sound fun _ _ _ _ sound moved => step_sound sound moved

theorem getStreamByPeerId_eq (sound : fdo.Sound) (live : stm ∈ fdo.mapStreams)
    (same : stm.iPeerStmId = stm.iStmId) :
    fdo.getStreamByPeerId stm.iPeerStmId = some stm ↔
      stm.iStmId < stmIdFloor ∨ fdo.mapStreams.head? = some stm := by
  have positive := sound.positive stm live
  rw [getStreamByPeerId, same, if_neg (not_lt.2 positive)]
  by_cases reserved : stm.iStmId < stmIdFloor
  · rw [if_pos ⟨positive, reserved⟩, sound.getStream live]
    simp [reserved]
  · rw [if_neg fun both => reserved both.2]
    simp [reserved]

/-- When the numbers are as expected, over all ports that are reached. -/
theorem numbered_iff {fdo : NativeFdo} (reachable : machine.Reachable fdo) :
    fdo.Numbered ↔ (∀ stm ∈ fdo.mapStreams, stm.iStmId ≠ fdo.iStmCounter) ∧
      ∀ stm ∈ fdo.mapStreams, stm.iPeerStmId = stm.iStmId ∧
        (stm.iStmId < stmIdFloor ∨ fdo.mapStreams.head? = some stm) := by
  have sound := sound_of_reachable reachable
  constructor
  · intro numbered
    refine ⟨numbered.fresh, ?_⟩
    intro stm live
    have same : stm.iPeerStmId = stm.iStmId := by
      have found := numbered.toLocal stm live
      rw [getLocalStmId, numbered.byPeer stm live] at found
      split at found <;> exact Option.some.inj found
    exact ⟨same, (getStreamByPeerId_eq sound live same).1 (numbered.byPeer stm live)⟩
  · rintro ⟨fresh, peers⟩
    have byPeer : ∀ stm ∈ fdo.mapStreams, fdo.getStreamByPeerId stm.iPeerStmId = some stm := fun stm live =>
      (getStreamByPeerId_eq sound live (peers stm live).1).2 (peers stm live).2
    refine ⟨sound.floor, fresh, byPeer, ?_, ?_⟩
    · intro stm live
      rw [getLocalStmId, byPeer stm live, (peers stm live).1]
      split <;> rfl
    · intro stm live
      rw [getRmtStmId, sound.getStream live, (peers stm live).1]
      split
      · rfl
      · rw [Option.map_some, (peers stm live).1]

/-- A stream comes and goes. -/
theorem numbered_openedAndClosed : ∃ fdo, machine.Reachable fdo ∧ fdo.iStmCounter = 0x401 ∧ fdo.Numbered := by
  have ran : (machine.run postStart [.openLocal 0x1b58 .protoStream, .closeLocal 0x400]).map
      (fun fdo => (fdo.iStmCounter, fdo.mapStreams)) = some (0x401, postStart.mapStreams) := by
    decide +kernel
  obtain ⟨fdo, ran, fields⟩ := Option.map_eq_some_iff.1 ran
  obtain ⟨counter, streams⟩ := Prod.mk.inj fields
  refine ⟨fdo, Machine.Reachable.start.run ran, counter, (numbered_iff (Machine.Reachable.start.run ran)).2 ?_⟩
  rw [counter, streams]
  decide

/-- The stream opened for the peer's stream 7000 is not found by that number: the control stream is. -/
theorem openedForPeer_notFound : ¬ ∀ fdo, machine.Reachable fdo → fdo.Numbered := by
  intro numbered
  have opened : machine.step postStart (.openLocal 7000 .protoStream) =
      some (postStart.openLocal 7000 .protoStream).2 := rfl
  have byPeer := (numbered _ (.step .start opened)).byPeer ⟨0x400, .protoStream, 7000⟩ (by decide)
  exact absurd byPeer (by decide)

end NativeFdo

end RpcFrmwrk.Rpc
