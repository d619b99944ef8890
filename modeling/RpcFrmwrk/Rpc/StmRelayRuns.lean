import RpcFrmwrk.Library.Brackets
import RpcFrmwrk.Library.Threads
import RpcFrmwrk.Rpc.StmRelay

/-! Streams that are taken down once, on both sides. A channel in the map is bound, or one call has
unbound it and is going to close it; a TCP stream is bound, or it is owed one close by a call or by
the queue, or it has been closed. What a side reports is a call that waits for the lock, as long as
the object is bound. Owns `Right`, what is expected of the maps and of both sides; that it holds in
every run whose steps fit, and that calls and queue come to an end. -/

namespace RpcFrmwrk.Rpc

open RpcFrmwrk.Library List Function
open Relay

namespace StreamRelay

def isOpen (relay : StreamRelay) (stm : Nat) : Bool :=
  match relay.streams[stm]? with
  | none => false
  | some stream => relay.mapUxStreams stream.hChannel = some stm

def bound (relay : StreamRelay) (stm : Nat) : Bool :=
  match relay.streams[stm]? with
  | none => false
  | some stream => relay.mapUxStreams stream.hChannel = some stm && (relay.mapHandleToStmId stream.hChannel).isSome

/-- Every call has returned, and the queue is empty. -/
structure Idle (relay : StreamRelay) : Prop where
  calls : ∀ call ∈ relay.calls, ∃ ret, call = .returned ret
  seqTasks : relay.seqTasks = []

/-- The maps are inverse to each other, no side is closed twice, and when nothing is going on any more,
the other side of each that has reported an error or a close is closed. -/
structure Right (relay : StreamRelay) : Prop where
  inverse : ∀ hChannel iStmId,
    relay.mapHandleToStmId hChannel = some iStmId ↔ relay.mapStmIdToHandle iStmId = some hChannel
  channelOnce : ∀ stm, relay.channelCloses stm ≤ 1
  tcpOnce : ∀ stm, relay.tcpCloses stm ≤ 1
  channelClosed : relay.Idle → ∀ stm, relay.tcpSide stm = true → relay.channelCloses stm = 1
  tcpClosed : relay.Idle → ∀ stm, relay.localSide stm = true → relay.tcpCloses stm = 1

end StreamRelay

/-- Streams are bound once at a time and are no reserved ones; a read of a bound stream ends with no
error but that of a port that is stopped; and what the calls and the queue hand on is accepted. -/
def RelayEvent.Fits (relay : StreamRelay) : RelayEvent → Bool
  | .bind _ iStmId => stmsockStmIdFloor ≤ iStmId && (relay.mapStmIdToHandle iStmId).isNone
  | .onClose _ | .onChannelError _ _ => true
  | .irpComplete stm status _ _ => 0 ≤ status || status = errorPortStopped || !relay.bound stm
  | .read stm ret _ _ => 0 ≤ ret || !relay.bound stm
  | .call _ accepted | .seqTask accepted => accepted

def Call.holds (hChannel : Handle) : Call → Bool
  | .unlocked other _ _ _ | .tcpClosed other => other = hChannel
  | _ => false

def Call.closes (stm : Nat) : Call → Bool
  | .unlocked _ _ _ other => other = some stm
  | _ => false

def SeqTask.closes (stm : Nat) : SeqTask → Bool
  | .closeLocalStream _ other => other = some stm
  | .writeStream _ _ => false

def Call.Unreserved : Call → Prop
  | .unlocked _ iStmId _ _ => stmsockStmIdFloor ≤ iStmId
  | _ => True

def SeqTask.Unreserved : SeqTask → Prop
  | .closeLocalStream iStmId _ => stmsockStmIdFloor ≤ iStmId
  | .writeStream _ _ => True

namespace StreamRelay

/-- The maps belong together, and belong to the objects. -/
structure Tied (relay : StreamRelay) : Prop where
  inverse : ∀ hChannel iStmId,
    relay.mapHandleToStmId hChannel = some iStmId ↔ relay.mapStmIdToHandle iStmId = some hChannel
  objects : ∀ hChannel stm, relay.mapUxStreams hChannel = some stm → ∃ stream, relay.streams[stm]? = some stream ∧
    stream.hChannel = hChannel ∧ hChannel ≠ 0 ∧
      ∀ iStmId, relay.mapHandleToStmId hChannel = some iStmId → stream.iStmId = iStmId
  unreserved : ∀ stream ∈ relay.streams, stmsockStmIdFloor ≤ stream.iStmId

/-- Each channel and each TCP stream is somewhere once. -/
structure Sound (relay : StreamRelay) : Prop where
  tied : relay.Tied
  calls : ∀ call ∈ relay.calls, call.Unreserved
  tasks : ∀ task ∈ relay.seqTasks, task.Unreserved
  handles : ∀ hChannel, relay.calls.countP (Call.holds hChannel) + (relay.mapHandleToStmId hChannel).isSome.toNat =
    (relay.mapUxStreams hChannel).isSome.toNat
  channels : ∀ stm, relay.channelCloses stm + (relay.isOpen stm).toNat = (decide (stm < relay.streams.length)).toNat
  tcpStreams : ∀ stm, relay.tcpCloses stm + relay.calls.countP (Call.closes stm) +
    relay.seqTasks.countP (SeqTask.closes stm) + (relay.bound stm).toNat = (decide (stm < relay.streams.length)).toNat
  tcpSide : ∀ stm, relay.tcpSide stm = true → ∃ stream, relay.streams[stm]? = some stream ∧
    (relay.bound stm = true → .onCloseStm stream.iStmId ∈ relay.calls)
  localSide : ∀ stm, relay.localSide stm = true → ∃ stream, relay.streams[stm]? = some stream ∧
    (relay.bound stm = true → .onClose stream.hChannel ∈ relay.calls)

theorem sound_new : StreamRelay.new.Sound := by
  constructor
  case tied =>
    refine ⟨fun hChannel iStmId => ⟨fun never => (by cases never), fun never => (by cases never)⟩, ?_, ?_⟩
    · intro hChannel stm never
      cases never
    · intro stream never
      cases never
  case calls =>
    intro call never
    cases never
  case tasks =>
    intro task never
    cases never
  case handles => exact fun _ => rfl
  case channels => exact fun _ => rfl
  case tcpStreams => exact fun _ => rfl
  case tcpSide =>
    intro stm never
    cases never
  case localSide =>
    intro stm never
    cases never

variable {relay : StreamRelay} {hChannel : Handle} {iStmId : Int32} {stm : Nat} {stream : UxStream}

theorem isOpen_iff : relay.isOpen stm = true ↔
    ∃ stream, relay.streams[stm]? = some stream ∧ relay.mapUxStreams stream.hChannel = some stm := by
  unfold isOpen
  cases relay.streams[stm]? with
  | none => simp
  | some stream => simp

theorem bound_iff : relay.bound stm = true ↔ ∃ stream, relay.streams[stm]? = some stream ∧
    relay.mapUxStreams stream.hChannel = some stm ∧ (relay.mapHandleToStmId stream.hChannel).isSome = true := by
  unfold bound
  cases relay.streams[stm]? with
  | none => simp
  | some stream => simp

theorem Tied.of_bound (tied : relay.Tied) (isBound : relay.bound stm = true)
    (object : relay.streams[stm]? = some stream) :
    stream.hChannel ≠ 0 ∧ relay.mapUxStreams stream.hChannel = some stm ∧
      relay.mapHandleToStmId stream.hChannel = some stream.iStmId ∧
      relay.mapStmIdToHandle stream.iStmId = some stream.hChannel := by
  obtain ⟨found, again, inMap, some⟩ := bound_iff.1 isBound
  rw [object, Option.some.injEq] at again
  subst again
  obtain ⟨iStmId, toStm⟩ := Option.isSome_iff_exists.1 some
  obtain ⟨other, same, -, nonNull, ids⟩ := tied.objects _ _ inMap
  rw [object, Option.some.injEq] at same
  subst same
  rw [← ids iStmId toStm] at toStm
  exact ⟨nonNull, inMap, toStm, (tied.inverse _ _).1 toStm⟩

variable {tid : Nat} {call : Call}

def Awaits (call : Call) (stream : UxStream) : Prop :=
  call = .onClose stream.hChannel ∨ call = .onCloseStm stream.iStmId

variable {next : StreamRelay} {owner : Nat} {bSend : Bool} {tcpCloses : Nat → Nat}
    {ret forwarded : Int32} {pBuf : List UInt8}

/-- A call goes on: what it held and was to close is accounted for, and nothing waits for it any more. -/
theorem Sound.goOn (sound : relay.Sound) (is : relay.calls[tid]? = some call) {put : Call}
    (set : next.calls = relay.calls.set tid put)
    (same : next.streams = relay.streams ∧ next.tcpSide = relay.tcpSide ∧ next.localSide = relay.localSide)
    (tied : next.Tied) (unreserved : put.Unreserved)
    (tasks : ∀ task ∈ next.seqTasks, task.Unreserved)
    (handles : ∀ hChannel, (put.holds hChannel).toNat + (next.mapHandleToStmId hChannel).isSome.toNat +
      (relay.mapUxStreams hChannel).isSome.toNat = (call.holds hChannel).toNat +
        (relay.mapHandleToStmId hChannel).isSome.toNat + (next.mapUxStreams hChannel).isSome.toNat)
    (channels : ∀ stm, next.channelCloses stm + (next.isOpen stm).toNat = relay.channelCloses stm + (relay.isOpen stm).toNat)
    (tcpStreams : ∀ stm, next.tcpCloses stm + (put.closes stm).toNat + next.seqTasks.countP (SeqTask.closes stm) +
      (next.bound stm).toNat = relay.tcpCloses stm + (call.closes stm).toNat +
        relay.seqTasks.countP (SeqTask.closes stm) + (relay.bound stm).toNat)
    (waits : ∀ stm stream, next.bound stm = true → relay.streams[stm]? = some stream →
      relay.bound stm = true ∧ ¬Awaits call stream) : next.Sound := by
  obtain ⟨streams, tcpSide, localSide⟩ := same
  constructor
  case tied => exact tied
  case calls =>
    intro other member
    rw [set] at member
    rcases mem_or_eq_of_mem_set member with before | rfl
    · exact sound.calls other before
    · exact unreserved
  case tasks => exact tasks
  case handles =>
    intro hChannel
    have counted := countP_set_task put (Call.holds hChannel) is
    have before := sound.handles hChannel
    have moved := handles hChannel
    rw [set]
    omega
  case channels =>
    intro stm
    rw [streams, channels, sound.channels]
  case tcpStreams =>
    intro stm
    have counted := countP_set_task put (Call.closes stm) is
    have before := sound.tcpStreams stm
    have moved := tcpStreams stm
    rw [set, streams]
    omega
  case tcpSide =>
    intro stm reported
    rw [tcpSide] at reported
    obtain ⟨stream, object, waiting⟩ := sound.tcpSide stm reported
    refine ⟨stream, by rw [streams, object], fun isBound => ?_⟩
    obtain ⟨wasBound, apart⟩ := waits stm stream isBound object
    rw [set]
    exact mem_set_task is (waiting wasBound) fun equal => apart (.inr equal.symm)
  case localSide =>
    intro stm reported
    rw [localSide] at reported
    obtain ⟨stream, object, waiting⟩ := sound.localSide stm reported
    refine ⟨stream, by rw [streams, object], fun isBound => ?_⟩
    obtain ⟨wasBound, apart⟩ := waits stm stream isBound object
    rw [set]
    exact mem_set_task is (waiting wasBound) fun equal => apart (.inl equal.symm)

theorem Sound.refuse (sound : relay.Sound) (is : relay.calls[tid]? = some call) (ret : Int32)
    (holds : ∀ hChannel, call.holds hChannel = false) (closes : ∀ stm, call.closes stm = false)
    (apart : ∀ stm stream, relay.bound stm = true → relay.streams[stm]? = some stream → ¬Awaits call stream) :
    { relay with calls := relay.calls.set tid (.returned ret) }.Sound := by
  refine sound.goOn is rfl ⟨rfl, rfl, rfl⟩ { sound.tied with } trivial
    sound.tasks (fun hChannel => ?_) (fun _ => rfl) (fun stm => ?_) fun stm stream isBound object =>
      ⟨isBound, apart stm stream isBound object⟩
  · rw [holds]
    rfl
  · rw [closes]
    rfl

/-! ### A call that unbinds -/

def unbind (relay : StreamRelay) (hChannel : Handle) (iStmId : Int32) : StreamRelay :=
  { relay with
    mapHandleToStmId := update relay.mapHandleToStmId hChannel none
    mapStmIdToHandle := update relay.mapStmIdToHandle iStmId none }

theorem removeBinding_found (toStm : relay.mapHandleToStmId hChannel = some iStmId) :
    (relay.removeBinding hChannel iStmId).2 = relay.unbind hChannel iStmId := by
  unfold removeBinding
  rw [toStm]
  dsimp only
  rw [if_neg (Decidable.not_not.2 rfl)]
  rfl

theorem Tied.unbind (tied : relay.Tied) (toStm : relay.mapHandleToStmId hChannel = some iStmId) :
    (relay.unbind hChannel iStmId).Tied := by
  have toHandle := (tied.inverse _ _).1 toStm
  constructor
  case inverse =>
    intro other id
    show update _ _ _ _ = _ ↔ update _ _ _ _ = _
    rw [update_apply, update_apply]
    by_cases sameHandle : other = hChannel
    · by_cases sameId : id = iStmId
      · simp [sameHandle, sameId]
      · rw [if_pos sameHandle, if_neg sameId]
        refine ⟨fun never => (by cases never), fun found => ?_⟩
        have back := (tied.inverse _ _).2 found
        rw [sameHandle, toStm, Option.some.injEq] at back
        exact absurd back.symm sameId
    · rw [if_neg sameHandle]
      by_cases sameId : id = iStmId
      · rw [if_pos sameId]
        refine ⟨fun found => ?_, fun never => (by cases never)⟩
        have there := (tied.inverse _ _).1 found
        rw [sameId, toHandle, Option.some.injEq] at there
        exact absurd there.symm sameHandle
      · rw [if_neg sameId]
        exact tied.inverse other id
  case objects =>
    intro other stm inMap
    obtain ⟨stream, object, same, nonNull, ids⟩ := tied.objects other stm inMap
    refine ⟨stream, object, same, nonNull, fun id found => ids id ?_⟩
    have : update relay.mapHandleToStmId hChannel none other = some id := found
    rw [update_apply] at this
    exact (Option.ite_none_left_eq_some.1 this).2
  case unreserved => exact tied.unreserved

theorem bound_unbind (tied : relay.Tied) (inMap : relay.mapUxStreams hChannel = some owner)
    (toStm : relay.mapHandleToStmId hChannel = some iStmId) (stm : Nat) :
    (relay.bound stm).toNat = ((relay.unbind hChannel iStmId).bound stm).toNat +
    (decide (some owner = some stm)).toNat := by
  obtain ⟨stream, object, same, -, -⟩ := tied.objects _ _ inMap
  by_cases isOwner : owner = stm
  · subst isOwner
    have before : relay.bound owner = true := by
      rw [bound_iff]
      exact ⟨stream, object, by rw [same, inMap], by rw [same, toStm]; rfl⟩
    have after : (relay.unbind hChannel iStmId).bound owner = false := by
      rw [Bool.eq_false_iff]
      intro still
      obtain ⟨found, again, -, isBound⟩ := bound_iff.1 still
      have again : relay.streams[owner]? = some found := again
      rw [object, Option.some.injEq] at again
      subst again
      have isBound : (update relay.mapHandleToStmId hChannel none stream.hChannel).isSome = true := isBound
      rw [same, update_self] at isBound
      cases isBound
    rw [before, after]
    simp
  · have apart : ∀ found, relay.streams[stm]? = some found → relay.mapUxStreams found.hChannel = some stm →
        found.hChannel ≠ hChannel := by
      intro found _ isOpen equal
      rw [equal, inMap, Option.some.injEq] at isOpen
      exact isOwner isOpen
    have unchanged : relay.bound stm = (relay.unbind hChannel iStmId).bound stm := by
      rw [Bool.eq_iff_iff, bound_iff, bound_iff]
      refine exists_congr fun found => and_congr_right fun isThere => and_congr_right fun isOpen => ?_
      show _ ↔ (update relay.mapHandleToStmId hChannel none found.hChannel).isSome = true
      rw [update_of_ne (apart found isThere isOpen)]
    rw [unchanged, decide_eq_false fun equal => isOwner (Option.some.inj equal)]
    rfl

theorem Sound.unlock (sound : relay.Sound) (is : relay.calls[tid]? = some call) (bSend : Bool)
    (holds : ∀ hChannel, call.holds hChannel = false) (closes : ∀ stm, call.closes stm = false)
    (toStm : relay.mapHandleToStmId hChannel = some iStmId)
    (awaited : call = .onClose hChannel ∨ call = .onCloseStm iStmId) :
    { relay.unbind hChannel iStmId with
      calls := relay.calls.set tid (.unlocked hChannel iStmId bSend (relay.mapUxStreams hChannel)) }.Sound := by
  have counted := sound.handles hChannel
  have isOpen : (relay.mapUxStreams hChannel).isSome = true := by
    cases inMap : relay.mapUxStreams hChannel with
    | some owner => rfl
    | none =>
      rw [toStm, inMap] at counted
      simp at counted
  obtain ⟨owner, inMap⟩ := Option.isSome_iff_exists.1 isOpen
  obtain ⟨object, atOwner, same, -, ids⟩ := sound.tied.objects _ _ inMap
  have unreserved : stmsockStmIdFloor ≤ iStmId := by
    rw [← ids _ toStm]
    exact sound.tied.unreserved _ (mem_of_getElem? atOwner)
  have split := bound_unbind sound.tied inMap toStm
  have tied := sound.tied.unbind toStm
  refine sound.goOn is rfl ⟨rfl, rfl, rfl⟩ { tied with } unreserved sound.tasks ?_ (fun _ => rfl) ?_ ?_
  · intro other
    rw [holds]
    show (decide _).toNat + (update relay.mapHandleToStmId hChannel none other).isSome.toNat + _ = _
    by_cases equal : other = hChannel
    · subst equal
      rw [update_self, toStm, decide_eq_true rfl]
      rfl
    · rw [update_of_ne equal, decide_eq_false fun same => equal same.symm]
      rfl
  · intro stm
    rw [closes, split stm, ← inMap]
    show relay.tcpCloses stm + (decide _).toNat + relay.seqTasks.countP _ + ((relay.unbind hChannel iStmId).bound stm).toNat = _
    rw [Bool.toNat_false]
    omega
  · intro stm stream stillBound isThere
    have split := split stm
    have stillBound : (relay.unbind hChannel iStmId).bound stm = true := stillBound
    rw [stillBound] at split
    have wasBound : relay.bound stm = true := by
      cases was : relay.bound stm with
      | true => rfl
      | false =>
        rw [was] at split
        simp at split
        omega
    obtain ⟨-, found, bindsId, bindsHandle⟩ := sound.tied.of_bound wasBound isThere
    have differs : stream.hChannel ≠ hChannel := by
      intro equal
      rw [equal, inMap, Option.some.injEq] at found
      rw [wasBound, found, decide_eq_true rfl] at split
      simp at split
    have idDiffers : stream.iStmId ≠ iStmId := by
      intro equal
      rw [equal, (sound.tied.inverse _ _).1 toStm, Option.some.injEq] at bindsHandle
      exact differs bindsHandle.symm
    refine ⟨wasBound, ?_⟩
    rcases awaited with rfl | rfl
    · rintro (equal | equal) <;> cases equal
      exact differs rfl
    · rintro (equal | equal) <;> cases equal
      exact idDiffers rfl

theorem bump_apply (count : Nat → Nat) (owner : Option Nat) (stm : Nat) :
    bump count owner stm = count stm + (decide (owner = some stm)).toNat := by
  cases owner with
  | none => rfl
  | some other =>
    rw [bump, update_apply]
    by_cases same : stm = other
    · rw [if_pos same, same, decide_eq_true rfl]
      rfl
    · rw [if_neg same, decide_eq_false fun equal => same (Option.some.inj equal).symm]
      rfl

theorem nonneg_of_unreserved (unreserved : stmsockStmIdFloor ≤ iStmId) : ¬iStmId < 0 :=
  Int32.not_lt.2 (Int32.le_trans (by decide) unreserved)

theorem closeLocalStream_accepted (unreserved : stmsockStmIdFloor ≤ iStmId) (owner : Option Nat) :
    relay.closeLocalStream true iStmId owner = { relay with tcpCloses := bump relay.tcpCloses owner } := by
  have notReserved : isReserveStm iStmId = false := by
    rw [isReserveStm, decide_eq_false (Int32.not_lt.2 unreserved), Bool.and_false]
  rw [closeLocalStream, if_neg (nonneg_of_unreserved unreserved), notReserved, if_neg Bool.false_ne_true, if_pos rfl]

theorem Sound.proceed (sound : relay.Sound) {owner : Option Nat} {seqTasks : List SeqTask}
    (is : relay.calls[tid]? = some (.unlocked hChannel iStmId bSend owner))
    (tasks : ∀ task ∈ seqTasks, task.Unreserved)
    (paid : ∀ stm, tcpCloses stm + seqTasks.countP (SeqTask.closes stm) =
      relay.tcpCloses stm + relay.seqTasks.countP (SeqTask.closes stm) + (decide (owner = some stm)).toNat) :
    { relay with
      seqTasks := seqTasks
      tcpCloses := tcpCloses
      calls := relay.calls.set tid (.tcpClosed hChannel) }.Sound := by
  refine sound.goOn is rfl ⟨rfl, rfl, rfl⟩ { sound.tied with } trivial
    tasks (fun _ => rfl) (fun _ => rfl) (fun stm => ?_) fun stm stream isBound object =>
      ⟨isBound, by rintro (equal | equal) <;> cases equal⟩
  have owed := paid stm
  show tcpCloses stm + 0 + seqTasks.countP _ + (relay.bound stm).toNat = _ + (decide _).toNat + _ + _
  omega

theorem Sound.closeTcpStream (sound : relay.Sound) {owner : Option Nat}
    (is : relay.calls[tid]? = some (.unlocked hChannel iStmId bSend owner)) :
    { relay.closeTcpStream true iStmId bSend owner with calls := relay.calls.set tid (.tcpClosed hChannel) }.Sound := by
  have unreserved : stmsockStmIdFloor ≤ iStmId := sound.calls _ (mem_of_getElem? is)
  cases bSend with
  | true =>
    rw [StreamRelay.closeTcpStream, if_neg (nonneg_of_unreserved unreserved), if_neg (by decide), if_pos rfl]
    refine sound.proceed is ?_ ?_
    · intro task member
      rcases mem_append.1 member with before | isNew
      · exact sound.tasks task before
      · rcases mem_cons.1 isNew with isWrite | isClose
        · rw [isWrite]
          trivial
        · rw [mem_singleton.1 isClose]
          exact unreserved
    · intro stm
      rw [countP_append]
      by_cases isOwner : owner = some stm
      · simp [SeqTask.closes, isOwner, Nat.add_assoc]
      · simp [SeqTask.closes, isOwner]
  | false =>
    rw [StreamRelay.closeTcpStream, if_neg (nonneg_of_unreserved unreserved), if_pos rfl,
      closeLocalStream_accepted unreserved]
    refine sound.proceed is sound.tasks fun stm => ?_
    dsimp only
    rw [bump_apply]
    omega

def removeUxStream (relay : StreamRelay) (hChannel : Handle) : StreamRelay :=
  { relay with mapUxStreams := update relay.mapUxStreams hChannel none }

theorem isOpen_remove (tied : relay.Tied) (inMap : relay.mapUxStreams hChannel = some owner)
    (stm : Nat) :
    (relay.isOpen stm).toNat = ((relay.removeUxStream hChannel).isOpen stm).toNat +
    (decide (some owner = some stm)).toNat := by
  obtain ⟨stream, object, same, -, -⟩ := tied.objects _ _ inMap
  by_cases isOwner : owner = stm
  · subst isOwner
    have before : relay.isOpen owner = true := isOpen_iff.2 ⟨stream, object, by rw [same, inMap]⟩
    have after : (relay.removeUxStream hChannel).isOpen owner = false := by
      rw [Bool.eq_false_iff]
      intro still
      obtain ⟨found, again, isThere⟩ := isOpen_iff.1 still
      have again : relay.streams[owner]? = some found := again
      rw [object, Option.some.injEq] at again
      subst again
      have isThere : update relay.mapUxStreams hChannel none stream.hChannel = some owner := isThere
      rw [same, update_self] at isThere
      cases isThere
    rw [before, after]
    simp
  · have unchanged : relay.isOpen stm = (relay.removeUxStream hChannel).isOpen stm := by
      rw [Bool.eq_iff_iff, isOpen_iff, isOpen_iff]
      refine exists_congr fun found => and_congr_right fun isThere => ?_
      show _ ↔ update relay.mapUxStreams hChannel none found.hChannel = some stm
      rw [update_apply]
      by_cases equal : found.hChannel = hChannel
      · rw [if_pos equal, equal, inMap]
        exact ⟨fun other => absurd (Option.some.inj other) isOwner, fun never => (by cases never)⟩
      · rw [if_neg equal]
    rw [unchanged, decide_eq_false fun equal => isOwner (Option.some.inj equal)]
    rfl

theorem bound_remove (unbound : relay.mapHandleToStmId hChannel = none) (stm : Nat) :
    (relay.removeUxStream hChannel).bound stm = relay.bound stm := by
  rw [Bool.eq_iff_iff, bound_iff, bound_iff]
  refine exists_congr fun found => and_congr_right fun _ => ?_
  show update relay.mapUxStreams hChannel none found.hChannel = some stm ∧ _ ↔ _
  rw [update_apply]
  by_cases equal : found.hChannel = hChannel
  · rw [if_pos equal, equal]
    refine ⟨fun never => (by cases never.1), fun both => ?_⟩
    rw [unbound] at both
    cases both.2
  · rw [if_neg equal]
    rfl

theorem Tied.remove (tied : relay.Tied) : (relay.removeUxStream hChannel).Tied := by
  refine ⟨tied.inverse, fun other stm inMap => ?_, tied.unreserved⟩
  have inMap : update relay.mapUxStreams hChannel none other = some stm := inMap
  rw [update_apply] at inMap
  exact tied.objects other stm (Option.ite_none_left_eq_some.1 inMap).2

theorem Sound.closeChannel (sound : relay.Sound)
    (is : relay.calls[tid]? = some (.tcpClosed hChannel)) :
    { (relay.closeChannel true hChannel).2 with calls := relay.calls.set tid (.returned 0) }.Sound ∧
      (relay.closeChannel true hChannel).1 = statusPending := by
  have held : Call.holds hChannel (.tcpClosed hChannel) = true := decide_eq_true rfl
  have some : 0 < relay.calls.countP (Call.holds hChannel) :=
    countP_pos_iff.2 ⟨_, mem_of_getElem? is, held⟩
  have law := sound.handles hChannel
  have mapped : (relay.mapUxStreams hChannel).isSome = true := by
    cases inMap : (relay.mapUxStreams hChannel).isSome with
    | true => rfl
    | false =>
      rw [inMap, Bool.toNat_false] at law
      omega
  rw [mapped, Bool.toNat_true] at law
  have unbound : relay.mapHandleToStmId hChannel = none := by
    cases toStm : relay.mapHandleToStmId hChannel with
    | none => rfl
    | some iStmId =>
      rw [toStm, Option.isSome_some, Bool.toNat_true] at law
      omega
  rw [unbound, Option.isSome_none, Bool.toNat_false, Nat.add_zero] at law
  obtain ⟨owner, inMap⟩ := Option.isSome_iff_exists.1 mapped
  have closed : relay.closeChannel true hChannel = (statusPending, { relay.removeUxStream hChannel with
      channelCloses := bump relay.channelCloses (.some owner) }) := by
    unfold StreamRelay.closeChannel
    rw [inMap]
    rfl
  rw [closed]
  have tied := @Tied.remove relay hChannel sound.tied
  refine ⟨sound.goOn is rfl ⟨rfl, rfl, rfl⟩ { tied with } trivial sound.tasks ?_ ?_ ?_ ?_, rfl⟩
  · intro other
    show 0 + (relay.mapHandleToStmId other).isSome.toNat + _ = (decide _).toNat + _ +
      (update relay.mapUxStreams hChannel none other).isSome.toNat
    by_cases equal : other = hChannel
    · subst equal
      rw [update_self, unbound, inMap, decide_eq_true rfl]
      rfl
    · rw [update_of_ne equal, decide_eq_false fun same => equal same.symm]
      rfl
  · intro stm
    have split := isOpen_remove sound.tied inMap stm
    show bump relay.channelCloses (.some owner) stm + ((relay.removeUxStream hChannel).isOpen stm).toNat = _
    rw [bump_apply, split]
    omega
  · intro stm
    rw [← bound_remove unbound]
    rfl
  · intro stm stream isBound isThere
    exact ⟨bound_remove unbound stm ▸ isBound, by rintro (equal | equal) <;> cases equal⟩

theorem Sound.dequeue (sound : relay.Sound) {task : SeqTask} {rest : List SeqTask}
    (queue : relay.seqTasks = task :: rest)
    (paid : ∀ stm, tcpCloses stm = relay.tcpCloses stm + (task.closes stm).toNat) :
    { relay with seqTasks := rest, tcpCloses := tcpCloses }.Sound := by
  refine ⟨{ sound.tied with }, sound.calls, ?_, sound.handles,
    sound.channels, ?_, sound.tcpSide, sound.localSide⟩
  · intro other member
    exact sound.tasks other (queue ▸ mem_cons_of_mem _ member)
  · intro stm
    have before := sound.tcpStreams stm
    have owed := paid stm
    rw [queue, countP_cons] at before
    show tcpCloses stm + relay.calls.countP _ + rest.countP _ + (relay.bound stm).toNat =
      (decide (stm < relay.streams.length)).toNat
    rw [owed, ← before]
    cases task.closes stm with
    | true =>
      rw [if_pos rfl, Bool.toNat_true]
      omega
    | false =>
      rw [if_neg Bool.false_ne_true, Bool.toNat_false]
      omega

/-! ### A binding request -/

def withStream (relay : StreamRelay) (hChannel : Handle) (iStmId : Int32) : StreamRelay :=
  { relay with
    mapUxStreams := update relay.mapUxStreams hChannel (some relay.streams.length)
    streams := relay.streams ++ [UxStream.mk hChannel iStmId]
    mapHandleToStmId := update relay.mapHandleToStmId hChannel (some iStmId)
    mapStmIdToHandle := update relay.mapStmIdToHandle iStmId (some hChannel) }

theorem bindRequest_fresh (unbound : relay.mapHandleToStmId hChannel = none) :
    relay.bindRequest hChannel iStmId = relay.withStream hChannel iStmId := by
  unfold bindRequest bindUxTcpStream
  dsimp only
  rw [if_pos unbound]
  rfl

theorem object_withStream (hChannel : Handle) (iStmId : Int32) (stm : Nat) :
    (relay.withStream hChannel iStmId).streams[stm]? =
      if stm = relay.streams.length then some (UxStream.mk hChannel iStmId) else relay.streams[stm]? := by
  show (relay.streams ++ [UxStream.mk hChannel iStmId])[stm]? = _
  by_cases isNew : stm = relay.streams.length
  · rw [if_pos isNew, isNew, List.getElem?_concat_length]
  · rw [if_neg isNew]
    rcases Nat.lt_or_gt_of_ne isNew with before | behind
    · rw [List.getElem?_append_left before]
    · rw [List.getElem?_eq_none (by rw [length_append, length_singleton]; omega),
        List.getElem?_eq_none (Nat.le_of_lt behind)]

theorem isOpen_withStream (free : relay.mapUxStreams hChannel = none) (iStmId : Int32) (stm : Nat) :
    ((relay.withStream hChannel iStmId).isOpen stm).toNat =
      (relay.isOpen stm).toNat + (decide (stm = relay.streams.length)).toNat := by
  by_cases isNew : stm = relay.streams.length
  · have before : relay.isOpen stm = false := by
      rw [isOpen, isNew, List.getElem?_eq_none (Nat.le_refl _)]
    have after : (relay.withStream hChannel iStmId).isOpen stm = true := by
      rw [isOpen_iff]
      refine ⟨_, by rw [object_withStream, if_pos isNew], ?_⟩
      show update relay.mapUxStreams hChannel _ hChannel = _
      rw [update_self, isNew]
    rw [before, after, decide_eq_true isNew]
    rfl
  · have unchanged : (relay.withStream hChannel iStmId).isOpen stm = relay.isOpen stm := by
      rw [Bool.eq_iff_iff, isOpen_iff, isOpen_iff]
      refine exists_congr fun found => ?_
      rw [object_withStream, if_neg isNew]
      refine and_congr_right fun _ => ?_
      show update relay.mapUxStreams hChannel _ found.hChannel = some stm ↔ _
      rw [update_apply]
      by_cases equal : found.hChannel = hChannel
      · rw [if_pos equal, equal, free]
        exact ⟨fun other => absurd (Option.some.inj other).symm isNew, fun never => (by cases never)⟩
      · rw [if_neg equal]
    rw [unchanged, decide_eq_false isNew]
    rfl

theorem bound_withStream (free : relay.mapUxStreams hChannel = none) (iStmId : Int32) (stm : Nat) :
    ((relay.withStream hChannel iStmId).bound stm).toNat =
      (relay.bound stm).toNat + (decide (stm = relay.streams.length)).toNat := by
  by_cases isNew : stm = relay.streams.length
  · have before : relay.bound stm = false := by
      rw [bound, isNew, List.getElem?_eq_none (Nat.le_refl _)]
    have after : (relay.withStream hChannel iStmId).bound stm = true := by
      rw [bound_iff]
      refine ⟨_, by rw [object_withStream, if_pos isNew], ?_, ?_⟩
      · show update relay.mapUxStreams hChannel _ hChannel = _
        rw [update_self, isNew]
      · show (update relay.mapHandleToStmId hChannel _ hChannel).isSome = true
        rw [update_self]
        rfl
    rw [before, after, decide_eq_true isNew]
    rfl
  · have unchanged : (relay.withStream hChannel iStmId).bound stm = relay.bound stm := by
      rw [Bool.eq_iff_iff, bound_iff, bound_iff]
      refine exists_congr fun found => ?_
      rw [object_withStream, if_neg isNew]
      refine and_congr_right fun _ => ?_
      show update relay.mapUxStreams hChannel _ found.hChannel = some stm ∧
        (update relay.mapHandleToStmId hChannel _ found.hChannel).isSome = true ↔ _
      rw [update_apply, update_apply]
      by_cases equal : found.hChannel = hChannel
      · rw [if_pos equal, equal, free]
        exact ⟨fun other => absurd (Option.some.inj other.1).symm isNew, fun never => (by cases never.1)⟩
      · rw [if_neg equal, if_neg equal]
    rw [unchanged, decide_eq_false isNew]
    rfl

theorem Tied.withStream (tied : relay.Tied) (nonNull : hChannel ≠ 0)
    (unreserved : stmsockStmIdFloor ≤ iStmId)
    (unbound : relay.mapHandleToStmId hChannel = none)
    (fresh : relay.mapStmIdToHandle iStmId = none) :
    (relay.withStream hChannel iStmId).Tied := by
  constructor
  case inverse =>
    intro other id
    show update _ _ _ _ = _ ↔ update _ _ _ _ = _
    rw [update_apply, update_apply]
    by_cases sameHandle : other = hChannel
    · by_cases sameId : id = iStmId
      · simp [sameHandle, sameId]
      · rw [if_pos sameHandle, if_neg sameId]
        refine ⟨fun equal => absurd (Option.some.inj equal).symm sameId, fun found => ?_⟩
        have back := (tied.inverse _ _).2 found
        rw [sameHandle, unbound] at back
        cases back
    · rw [if_neg sameHandle]
      by_cases sameId : id = iStmId
      · rw [if_pos sameId]
        refine ⟨fun found => ?_, fun equal => absurd (Option.some.inj equal).symm sameHandle⟩
        have there := (tied.inverse _ _).1 found
        rw [sameId, fresh] at there
        cases there
      · rw [if_neg sameId]
        exact tied.inverse other id
  case objects =>
    intro other stm inMap
    have inMap : update relay.mapUxStreams hChannel (some relay.streams.length) other = some stm := inMap
    show ∃ stream, _ ∧ _ ∧ _ ∧ ∀ id, update relay.mapHandleToStmId hChannel (some iStmId) other = some id → _
    rw [update_apply] at inMap
    rw [update_apply, object_withStream]
    by_cases sameHandle : other = hChannel
    · rw [if_pos sameHandle, Option.some.injEq] at inMap
      rw [if_pos inMap.symm, if_pos sameHandle]
      exact ⟨_, rfl, sameHandle.symm, sameHandle ▸ nonNull, fun id equal => Option.some.inj equal⟩
    · rw [if_neg sameHandle] at inMap
      rw [if_neg sameHandle]
      obtain ⟨stream, object, same, found, ids⟩ := tied.objects other stm inMap
      have before : stm ≠ relay.streams.length := by
        intro equal
        rw [equal, List.getElem?_eq_none (Nat.le_refl _)] at object
        cases object
      rw [if_neg before]
      exact ⟨stream, object, same, found, ids⟩
  case unreserved =>
    exact forall_mem_append.2 ⟨tied.unreserved, forall_mem_singleton.2 unreserved⟩

theorem length_withStream (stm : Nat) :
    (decide (stm < (relay.withStream hChannel iStmId).streams.length)).toNat =
      (decide (stm < relay.streams.length)).toNat + (decide (stm = relay.streams.length)).toNat := by
  have length : (relay.withStream hChannel iStmId).streams.length = relay.streams.length + 1 := by
    show (relay.streams ++ [_]).length = _
    rw [length_append, length_singleton]
  rw [length]
  rcases Nat.lt_trichotomy stm relay.streams.length with below | equal | above
  · rw [decide_eq_true (by omega), decide_eq_true below, decide_eq_false (Nat.ne_of_lt below)]
    rfl
  · rw [decide_eq_true (by omega), decide_eq_false (by omega), decide_eq_true equal]
    rfl
  · rw [decide_eq_false (by omega), decide_eq_false (by omega), decide_eq_false (Nat.ne_of_gt above)]
    rfl

theorem Sound.bind (sound : relay.Sound) (nonNull : hChannel ≠ 0)
    (free : relay.mapUxStreams hChannel = none)
    (unreserved : stmsockStmIdFloor ≤ iStmId) (fresh : relay.mapStmIdToHandle iStmId = none) :
    (relay.bindRequest hChannel iStmId).Sound := by
  have law := sound.handles hChannel
  have unbound : relay.mapHandleToStmId hChannel = none := by
    cases toStm : relay.mapHandleToStmId hChannel with
    | none => rfl
    | some found =>
      rw [toStm, free, Option.isSome_some, Option.isSome_none, Bool.toNat_true, Bool.toNat_false] at law
      omega
  rw [bindRequest_fresh unbound]
  rw [unbound, free, Option.isSome_none, Option.isSome_none] at law
  have reported : ∀ stm stream, relay.streams[stm]? = some stream →
      (relay.withStream hChannel iStmId).streams[stm]? = some stream ∧
        ((relay.withStream hChannel iStmId).bound stm = true → relay.bound stm = true) := by
    intro stm stream object
    have before : stm ≠ relay.streams.length := by
      intro equal
      rw [equal, List.getElem?_eq_none (Nat.le_refl _)] at object
      cases object
    refine ⟨by rw [object_withStream, if_neg before, object], fun isBound => ?_⟩
    have split := bound_withStream free iStmId stm
    rw [isBound, decide_eq_false before] at split
    cases was : relay.bound stm with
    | true => rfl
    | false =>
      rw [was] at split
      cases split
  constructor
  case tied => exact sound.tied.withStream nonNull unreserved unbound fresh
  case calls => exact sound.calls
  case tasks => exact sound.tasks
  case handles =>
    intro other
    have before := sound.handles other
    show relay.calls.countP _ + (update relay.mapHandleToStmId hChannel _ other).isSome.toNat =
      (update relay.mapUxStreams hChannel _ other).isSome.toNat
    by_cases equal : other = hChannel
    · subst equal
      rw [update_self, update_self]
      simp only [Bool.toNat_false, Nat.add_zero] at law
      rw [law]
      rfl
    · rw [update_of_ne equal, update_of_ne equal]
      exact before
  case channels =>
    intro stm
    have before := sound.channels stm
    rw [isOpen_withStream free, length_withStream, ← before]
    show relay.channelCloses stm + _ = _
    omega
  case tcpStreams =>
    intro stm
    have before := sound.tcpStreams stm
    rw [bound_withStream free, length_withStream, ← before]
    show relay.tcpCloses stm + relay.calls.countP _ + relay.seqTasks.countP _ + _ = _
    omega
  case tcpSide =>
    intro stm isReported
    obtain ⟨stream, object, waits⟩ := sound.tcpSide stm isReported
    obtain ⟨stays, was⟩ := reported stm stream object
    exact ⟨stream, stays, fun isBound => waits (was isBound)⟩
  case localSide =>
    intro stm isReported
    obtain ⟨stream, object, waits⟩ := sound.localSide stm isReported
    obtain ⟨stays, was⟩ := reported stm stream object
    exact ⟨stream, stays, fun isBound => waits (was isBound)⟩

/-! ### What the sides report -/

theorem Sound.report (sound : relay.Sound) {tcpSide localSide : Nat → Bool} {more : List Call}
    (waiting : ∀ call ∈ more, ∃ stream, Awaits call stream)
    (tcp : ∀ stm, tcpSide stm = true → ∃ stream, relay.streams[stm]? = some stream ∧
      (relay.bound stm = true → .onCloseStm stream.iStmId ∈ relay.calls ++ more))
    (loc : ∀ stm, localSide stm = true → ∃ stream, relay.streams[stm]? = some stream ∧
      (relay.bound stm = true → .onClose stream.hChannel ∈ relay.calls ++ more)) :
    { relay with tcpSide := tcpSide, localSide := localSide, calls := relay.calls ++ more }.Sound := by
  have none_holds : ∀ hChannel, more.countP (Call.holds hChannel) = 0 := by
    intro hChannel
    rw [countP_eq_zero]
    intro call member
    obtain ⟨stream, isHandle | isId⟩ := waiting call member
    · rw [isHandle]
      exact Bool.false_ne_true
    · rw [isId]
      exact Bool.false_ne_true
  have none_closes : ∀ stm, more.countP (Call.closes stm) = 0 := by
    intro stm
    rw [countP_eq_zero]
    intro call member
    obtain ⟨stream, isHandle | isId⟩ := waiting call member
    · rw [isHandle]
      exact Bool.false_ne_true
    · rw [isId]
      exact Bool.false_ne_true
  refine ⟨{ sound.tied with }, ?_, sound.tasks, ?_, sound.channels, ?_, tcp, loc⟩
  · intro call member
    rcases mem_append.1 member with before | isNew
    · exact sound.calls call before
    · obtain ⟨stream, isHandle | isId⟩ := waiting call isNew
      · rw [isHandle]
        trivial
      · rw [isId]
        trivial
  · intro hChannel
    dsimp only
    rw [countP_append, none_holds, Nat.add_zero]
    exact sound.handles hChannel
  · intro stm
    dsimp only
    rw [countP_append, none_closes, Nat.add_zero]
    exact sound.tcpStreams stm

theorem Sound.localEvent (sound : relay.Sound) (object : relay.streams[stm]? = some stream) :
    (relay.localEvent stm stream.hChannel).Sound := by
  refine sound.report ?_ ?_ ?_
  · intro call member
    rw [mem_singleton.1 member]
    exact ⟨stream, .inl rfl⟩
  · intro other reported
    obtain ⟨found, isThere, waits⟩ := sound.tcpSide other reported
    exact ⟨found, isThere, fun isBound => mem_append_left _ (waits isBound)⟩
  · intro other reported
    rw [update_apply] at reported
    by_cases same : other = stm
    · rw [same]
      exact ⟨stream, object, fun _ => mem_append_right _ mem_cons_self⟩
    · rw [if_neg same] at reported
      obtain ⟨found, isThere, waits⟩ := sound.localSide other reported
      exact ⟨found, isThere, fun isBound => mem_append_left _ (waits isBound)⟩

theorem Sound.tcpEvent (sound : relay.Sound) (object : relay.streams[stm]? = some stream)
    {isReport : Bool}
    {made : Except Int32 Call} (only : ∀ call, made = .ok call → call = .onCloseStm stream.iStmId)
    (makes : isReport = true → relay.bound stm = true → made = .ok (.onCloseStm stream.iStmId)) :
    (relay.tcpEvent stm isReport made).Sound := by
  have reported : ∀ more, (isReport = true → relay.bound stm = true → .onCloseStm stream.iStmId ∈ more) →
      ∀ other, update relay.tcpSide stm (relay.tcpSide stm || isReport) other = true →
        ∃ found, relay.streams[other]? = some found ∧
          (relay.bound other = true → .onCloseStm found.iStmId ∈ relay.calls ++ more) := by
    intro more isNew other isReported
    rw [update_apply] at isReported
    by_cases same : other = stm
    · subst same
      rw [if_pos rfl, Bool.or_eq_true] at isReported
      rcases isReported with before | now
      · obtain ⟨found, isThere, waits⟩ := sound.tcpSide other before
        exact ⟨found, isThere, fun isBound => mem_append_left _ (waits isBound)⟩
      · exact ⟨stream, object, fun isBound => mem_append_right _ (isNew now isBound)⟩
    · rw [if_neg same] at isReported
      obtain ⟨found, isThere, waits⟩ := sound.tcpSide other isReported
      exact ⟨found, isThere, fun isBound => mem_append_left _ (waits isBound)⟩
  have others : ∀ more : List Call, ∀ other, relay.localSide other = true → ∃ found, relay.streams[other]? = some found ∧
      (relay.bound other = true → .onClose found.hChannel ∈ relay.calls ++ more) := by
    intro more other isReported
    obtain ⟨found, isThere, waits⟩ := sound.localSide other isReported
    exact ⟨found, isThere, fun isBound => mem_append_left _ (waits isBound)⟩
  cases made with
  | error ret =>
    have kept := @Sound.report relay sound _ _ [] (fun call never => (by cases never))
      (reported [] fun isNew isBound => (by cases makes isNew isBound)) (others [])
    rw [append_nil] at kept
    exact kept
  | ok call =>
    have isCall := only call rfl
    refine sound.report ?_ (reported [call] fun _ _ => ?_) (others [call])
    · intro other member
      rw [mem_singleton.1 member]
      exact ⟨stream, .inr isCall⟩
    · rw [isCall]
      exact mem_cons_self

theorem onTcpStmEvent_only {posted : Except Int32 (UInt8 × List UInt8)} {call : Call}
    (made : onTcpStmEvent iStmId posted = .ok call) : call = .onCloseStm iStmId := by
  unfold onTcpStmEvent at made
  split at made
  · cases made
  · unfold onBdgeStmEvent at made
    split at made
    · split at made
      · cases made
      · split at made
        · split at made
          · cases made
          · exact (Except.ok.inj made).symm
        · split at made
          · exact (Except.ok.inj made).symm
          · cases made
    · cases made

theorem postEvent_close (forwarded : Int32) (rest : List UInt8) :
    postEvent forwarded (tokClose :: rest) = .ok (tokClose, []) := by
  have remote : remoteToLocal (tokClose :: rest) = .ok (tokClose, []) := by
    rw [remoteToLocal, if_neg (by decide), if_pos (by decide)]
  unfold postEvent
  rw [if_neg (cons_ne_nil _ _)]
  dsimp only
  rw [if_pos (by decide), remote]
  rfl

theorem onTcpStmEvent_close (unreserved : stmsockStmIdFloor ≤ iStmId) :
    onTcpStmEvent iStmId (.ok (tokClose, [])) = .ok (.onCloseStm iStmId) := by
  have other : ¬(iStmId = tcpConnDefaultStm ∨ iStmId = tcpConnDefaultCmd) := by
    rintro (isStm | isCmd)
    · rw [isStm] at unreserved
      exact absurd unreserved (by decide)
    · rw [isCmd] at unreserved
      exact absurd unreserved (by decide)
  rw [onTcpStmEvent, if_pos (.inl rfl), onBdgeStmEvent, if_neg other, if_neg (by decide), if_pos rfl]

theorem head_of_reports (nonneg : ¬ret < 0) (isReport : reports ret pBuf = true) :
    ret ≠ statusPending ∧ ∃ rest, pBuf = tokClose :: rest := by
  rw [reports, decide_eq_false nonneg, Bool.false_or, Bool.and_eq_true, decide_eq_true_eq, decide_eq_true_eq] at isReport
  cases pBuf with
  | nil => cases isReport.2
  | cons head rest =>
    rw [List.head?_cons, Option.some.injEq] at isReport
    exact ⟨isReport.1, rest, by rw [isReport.2]⟩

/-- A read that is reported makes a call, if it ends with a token or with a port that is stopped. -/
theorem irpComplete_makes {status : Int32} {pRespData : List UInt8}
    (unreserved : stmsockStmIdFloor ≤ iStmId) (fits : 0 ≤ status ∨ status = errorPortStopped)
    (isReport : reports status pRespData = true) :
    onTcpStmEvent iStmId (handleIrpResp status forwarded pRespData) = .ok (.onCloseStm iStmId) := by
  have posted : handleIrpResp status forwarded pRespData = .ok (tokClose, []) := by
    rcases fits with nonneg | stopped
    · have notError : ¬status < 0 := Int32.not_lt.2 nonneg
      obtain ⟨-, rest, isClose⟩ := head_of_reports notError isReport
      rw [handleIrpResp, if_neg notError, isClose, postEvent_close]
    · rw [handleIrpResp, if_pos (by rw [stopped]; decide), if_pos stopped, postEvent_close]
  rw [posted, onTcpStmEvent_close unreserved]

theorem read_makes (unreserved : stmsockStmIdFloor ≤ iStmId)
    (nonneg : 0 ≤ ret) (isReport : reports ret pBuf = true) :
    onTcpStmEvent iStmId (runTask ret forwarded pBuf) = .ok (.onCloseStm iStmId) := by
  have notError : ¬ret < 0 := Int32.not_lt.2 nonneg
  obtain ⟨notPending, rest, isClose⟩ := head_of_reports notError isReport
  have goes : ¬(ret = statusPending ∨ ret < 0) := by
    rintro (pending | error)
    · exact notPending pending
    · exact notError error
  rw [runTask, if_neg goes, isClose, postEvent_close, onTcpStmEvent_close unreserved]

theorem Sound.advance (sound : relay.Sound) (is : relay.calls[tid]? = some call)
    (goesOn : ∀ ret, call ≠ .returned ret) :
    { (relay.advance true call).2 with
      calls := (relay.advance true call).2.calls.set tid (relay.advance true call).1 }.Sound := by
  cases call with
  | onClose hChannel =>
    have plain : ∀ ret, (∀ iStmId, hChannel ≠ 0 → relay.mapHandleToStmId hChannel ≠ some iStmId) →
        { relay with calls := relay.calls.set tid (.returned ret) }.Sound := by
      intro ret unbound
      refine sound.refuse is ret (fun _ => rfl) (fun _ => rfl) fun stm stream isBound object awaits => ?_
      obtain ⟨nonNull, -, toStm, -⟩ := sound.tied.of_bound isBound object
      rcases awaits with same | never
      · rw [Call.onClose.injEq] at same
        subst same
        exact unbound _ nonNull toStm
      · cases never
    unfold StreamRelay.advance
    dsimp only
    by_cases isNull : hChannel = 0
    · rw [if_pos isNull]
      exact plain einval fun _ nonNull => absurd isNull nonNull
    · rw [if_neg isNull]
      cases toStm : relay.mapHandleToStmId hChannel with
      | none => exact plain enoent fun _ _ found => (by rw [toStm] at found; cases found)
      | some iStmId =>
        dsimp only
        rw [removeBinding_found toStm]
        exact sound.unlock is true (fun _ => rfl) (fun _ => rfl) toStm (.inl rfl)
  | onCloseStm iStmId =>
    have plain : ∀ ret, (∀ hChannel, stmsockStmIdFloor ≤ iStmId → relay.mapStmIdToHandle iStmId ≠ some hChannel) →
        { relay with calls := relay.calls.set tid (.returned ret) }.Sound := by
      intro ret unbound
      refine sound.refuse is ret (fun _ => rfl) (fun _ => rfl) fun stm stream isBound object awaits => ?_
      obtain ⟨-, -, -, toHandle⟩ := sound.tied.of_bound isBound object
      rcases awaits with never | same
      · cases never
      · rw [Call.onCloseStm.injEq] at same
        subst same
        exact unbound _ (sound.tied.unreserved stream (mem_of_getElem? object)) toHandle
    unfold StreamRelay.advance
    dsimp only
    by_cases negative : iStmId < 0
    · rw [if_pos negative]
      exact plain einval fun _ unreserved => absurd negative (nonneg_of_unreserved unreserved)
    · rw [if_neg negative]
      by_cases other : iStmId = tcpConnDefaultCmd ∨ iStmId = tcpConnDefaultStm
      · rw [if_pos other]
        refine plain einval fun _ unreserved => ?_
        rcases other with isCmd | isStm
        · rw [isCmd] at unreserved
          exact absurd unreserved (by decide)
        · rw [isStm] at unreserved
          exact absurd unreserved (by decide)
      · rw [if_neg other]
        cases toHandle : relay.mapStmIdToHandle iStmId with
        | none => exact plain enoent fun _ _ found => (by rw [toHandle] at found; cases found)
        | some hChannel =>
          have toStm := (sound.tied.inverse _ _).2 toHandle
          dsimp only
          rw [removeBinding_found toStm]
          exact sound.unlock is false (fun _ => rfl) (fun _ => rfl) toStm (.inr rfl)
  | unlocked hChannel iStmId bSend owner =>
    have kept : (relay.closeTcpStream true iStmId bSend owner).calls = relay.calls := by
      unfold StreamRelay.closeTcpStream StreamRelay.closeLocalStream
      split
      · rfl
      · split
        · split
          · rfl
          · split <;> rfl
        · rfl
    have moved := sound.closeTcpStream is
    unfold StreamRelay.advance
    dsimp only
    rw [kept]
    exact moved
  | tcpClosed hChannel =>
    obtain ⟨moved, isPending⟩ := sound.closeChannel is
    have kept : (relay.closeChannel true hChannel).2.calls = relay.calls := by
      unfold StreamRelay.closeChannel
      split <;> rfl
    unfold StreamRelay.advance
    dsimp only
    rw [kept, if_pos isPending]
    exact moved
  | returned ret => exact absurd rfl (goesOn ret)

theorem step_call {accepted : Bool} (moved : relay.step (.call tid accepted) = some next) :
    ∃ call, relay.calls[tid]? = some call ∧ (∀ ret, call ≠ .returned ret) ∧
      next = { (relay.advance accepted call).2 with
        calls := (relay.advance accepted call).2.calls.set tid (relay.advance accepted call).1 } := by
  rw [StreamRelay.step] at moved
  cases is : relay.calls[tid]? with
  | none =>
    rw [is] at moved
    cases moved
  | some call =>
    rw [is] at moved
    refine ⟨call, rfl, ?_⟩
    cases call with
    | returned ret => cases moved
    | onClose | onCloseStm | unlocked | tcpClosed =>
      cases moved
      exact ⟨fun ret never => (by cases never), rfl⟩

theorem Sound.step {event : RelayEvent} {next : StreamRelay} (sound : relay.Sound)
    (fits : event.Fits relay = true)
    (moved : relay.step event = some next) : next.Sound := by
  cases event with
  | bind hChannel iStmId =>
    rw [RelayEvent.Fits, Bool.and_eq_true, decide_eq_true_eq, Option.isNone_iff_eq_none] at fits
    rw [StreamRelay.step, Option.ite_none_right_eq_some] at moved
    obtain ⟨⟨nonNull, free⟩, ⟨⟩⟩ := moved
    exact sound.bind nonNull free fits.1 fits.2
  | onClose | onChannelError =>
    rw [StreamRelay.step, Option.map_eq_some_iff] at moved
    obtain ⟨stream, object, isNext⟩ := moved
    rw [← isNext]
    exact sound.localEvent object
  | irpComplete stm status forwarded pRespData =>
    rw [StreamRelay.step, Option.map_eq_some_iff] at moved
    obtain ⟨stream, object, isNext⟩ := moved
    have unreserved := sound.tied.unreserved stream (mem_of_getElem? object)
    rw [← isNext]
    refine sound.tcpEvent object (fun call made => onTcpStmEvent_only made) fun isReport isBound => ?_
    rw [RelayEvent.Fits, isBound, Bool.not_true, Bool.or_false, Bool.or_eq_true, decide_eq_true_eq,
      decide_eq_true_eq] at fits
    exact irpComplete_makes unreserved fits isReport
  | read stm ret forwarded pBuf =>
    rw [StreamRelay.step, Option.map_eq_some_iff] at moved
    obtain ⟨stream, object, isNext⟩ := moved
    have unreserved := sound.tied.unreserved stream (mem_of_getElem? object)
    rw [← isNext]
    refine sound.tcpEvent object (fun call made => onTcpStmEvent_only made) fun isReport isBound => ?_
    rw [RelayEvent.Fits, isBound, Bool.not_true, Bool.or_false, decide_eq_true_eq] at fits
    exact read_makes unreserved fits isReport
  | call tid accepted =>
    have isAccepted : accepted = true := fits
    subst isAccepted
    obtain ⟨call, is, goesOn, isNext⟩ := step_call moved
    rw [isNext]
    exact sound.advance is goesOn
  | seqTask accepted =>
    have isAccepted : accepted = true := fits
    subst isAccepted
    rw [StreamRelay.step] at moved
    cases queue : relay.seqTasks with
    | nil =>
      rw [queue] at moved
      cases moved
    | cons task rest =>
      rw [queue] at moved
      cases task with
      | writeStream iStmId owner =>
        cases moved
        exact sound.dequeue queue fun stm => rfl
      | closeLocalStream iStmId owner =>
        have unreserved : stmsockStmIdFloor ≤ iStmId := 
          sound.tasks (.closeLocalStream iStmId owner) (queue ▸ mem_cons_self)
        dsimp only at moved
        rw [closeLocalStream_accepted unreserved, Option.some.injEq] at moved
        rw [← moved]
        exact sound.dequeue queue fun stm => bump_apply _ _ _

theorem Sound.right (sound : relay.Sound) : relay.Right := by
  have once : ∀ stm, (decide (stm < relay.streams.length)).toNat ≤ 1 := fun stm => Bool.toNat_le _
  have unbound : relay.Idle → ∀ hChannel, relay.calls.countP (Call.holds hChannel) = 0 := by
    intro idle hChannel
    rw [countP_eq_zero]
    intro call member
    obtain ⟨ret, isReturned⟩ := idle.calls call member
    rw [isReturned]
    exact Bool.false_ne_true
  constructor
  case inverse => exact sound.tied.inverse
  case channelOnce =>
    intro stm
    have law := sound.channels stm
    have bound := once stm
    omega
  case tcpOnce =>
    intro stm
    have law := sound.tcpStreams stm
    have bound := once stm
    omega
  case channelClosed =>
    intro idle stm reported
    obtain ⟨stream, object, waits⟩ := sound.tcpSide stm reported
    have law := sound.channels stm
    have isThere : stm < relay.streams.length := (List.getElem?_eq_some_iff.1 object).1
    have closed : relay.isOpen stm = false := by
      rw [Bool.eq_false_iff]
      intro isOpen
      obtain ⟨found, again, inMap⟩ := isOpen_iff.1 isOpen
      have handles := sound.handles found.hChannel
      rw [unbound idle, inMap, Option.isSome_some, Bool.toNat_true, Nat.zero_add] at handles
      have isBound : relay.bound stm = true := by
        refine bound_iff.2 ⟨found, again, inMap, ?_⟩
        cases some : (relay.mapHandleToStmId found.hChannel).isSome with
        | true => rfl
        | false =>
          rw [some] at handles
          cases handles
      obtain ⟨ret, ⟨⟩⟩ := idle.calls _ (waits isBound)
    rw [closed, decide_eq_true isThere] at law
    exact law
  case tcpClosed =>
    intro idle stm reported
    obtain ⟨stream, object, waits⟩ := sound.localSide stm reported
    have law := sound.tcpStreams stm
    have isThere : stm < relay.streams.length := (List.getElem?_eq_some_iff.1 object).1
    have notBound : relay.bound stm = false := by
      rw [Bool.eq_false_iff]
      intro isBound
      obtain ⟨ret, ⟨⟩⟩ := idle.calls _ (waits isBound)
    have noCall : relay.calls.countP (Call.closes stm) = 0 := by
      rw [countP_eq_zero]
      intro call member
      obtain ⟨ret, isReturned⟩ := idle.calls call member
      rw [isReturned]
      exact Bool.false_ne_true
    rw [notBound, noCall, idle.seqTasks, countP_nil, decide_eq_true isThere] at law
    exact law

/-! ### The end of the calls -/

def rank : Call → Nat
  | .onClose _ | .onCloseStm _ => 5
  | .unlocked _ _ _ _ => 4
  | .tcpClosed _ => 1
  | .returned _ => 0

def work (relay : StreamRelay) : Nat := (relay.calls.map rank).sum + relay.seqTasks.length

def Internal : RelayEvent → Prop
  | .call _ _ | .seqTask _ => True
  | _ => False

theorem advance_rank (accepted : Bool) (goesOn : ∀ ret, call ≠ .returned ret) :
    (relay.advance accepted call).2.calls = relay.calls ∧
      rank (relay.advance accepted call).1 + (relay.advance accepted call).2.seqTasks.length <
        rank call + relay.seqTasks.length := by
  have removed : ∀ hChannel iStmId, (relay.removeBinding hChannel iStmId).2.calls = relay.calls ∧
      (relay.removeBinding hChannel iStmId).2.seqTasks = relay.seqTasks := by
    intro hChannel iStmId
    unfold removeBinding
    split
    · exact ⟨rfl, rfl⟩
    · split <;> exact ⟨rfl, rfl⟩
  have closed : ∀ iStmId owner, (relay.closeLocalStream accepted iStmId owner).calls = relay.calls ∧
      (relay.closeLocalStream accepted iStmId owner).seqTasks = relay.seqTasks := by
    intro iStmId owner
    unfold closeLocalStream
    split
    · exact ⟨rfl, rfl⟩
    · split
      · exact ⟨rfl, rfl⟩
      · split <;> exact ⟨rfl, rfl⟩
  cases call with
  | onClose hChannel =>
    unfold advance
    dsimp only
    split
    · exact ⟨rfl, by simp only [rank]; omega⟩
    · split
      · exact ⟨rfl, by simp only [rank]; omega⟩
      · rw [(removed _ _).1, (removed _ _).2]
        exact ⟨rfl, by simp only [rank]; omega⟩
  | onCloseStm iStmId =>
    unfold advance
    dsimp only
    split
    · exact ⟨rfl, by simp only [rank]; omega⟩
    · split
      · exact ⟨rfl, by simp only [rank]; omega⟩
      · split
        · exact ⟨rfl, by simp only [rank]; omega⟩
        · rw [(removed _ _).1, (removed _ _).2]
          exact ⟨rfl, by simp only [rank]; omega⟩
  | unlocked hChannel iStmId bSend owner =>
    unfold advance closeTcpStream
    dsimp only
    split
    · exact ⟨rfl, by simp only [rank]; omega⟩
    · split
      · rw [(closed _ _).1, (closed _ _).2]
        exact ⟨rfl, by simp only [rank]; omega⟩
      · split
        · refine ⟨rfl, ?_⟩
          rw [length_append]
          simp only [rank, length_cons, length_nil]
          omega
        · exact ⟨rfl, by simp only [rank]; omega⟩
  | tcpClosed hChannel =>
    unfold advance closeChannel
    dsimp only
    split
    · exact ⟨rfl, by simp only [rank]; omega⟩
    · split
      · exact ⟨rfl, by simp only [rank]; omega⟩
      · exact ⟨rfl, by simp only [rank]; omega⟩
  | returned ret => exact absurd rfl (goesOn ret)

theorem work_lt {event : RelayEvent} (internal : Internal event)
    (moved : relay.step event = some next) : next.work < relay.work := by
  cases event with
  | call tid accepted =>
    obtain ⟨call, is, goesOn, isNext⟩ := step_call moved
    obtain ⟨kept, less⟩ := @advance_rank relay call accepted goesOn
    have atTid : (relay.calls.map rank)[tid]? = some (rank call) := by rw [List.getElem?_map, is]; rfl
    have sum := sum_set (rank (relay.advance accepted call).1) atTid
    rw [isNext, kept, work, work, map_set]
    dsimp only
    omega
  | seqTask accepted =>
    rw [StreamRelay.step] at moved
    cases queue : relay.seqTasks with
    | nil =>
      rw [queue] at moved
      cases moved
    | cons task rest =>
      rw [queue] at moved
      rw [work, work, queue, length_cons]
      cases task with
      | writeStream iStmId owner =>
        cases moved
        exact Nat.lt_succ_self _
      | closeLocalStream iStmId owner =>
        dsimp only at moved
        have isNext := Option.some.inj moved
        unfold closeLocalStream at isNext
        split at isNext
        · rw [← isNext]
          exact Nat.lt_succ_self _
        · split at isNext
          · rw [← isNext]
            exact Nat.lt_succ_self _
          · split at isNext
            · rw [← isNext]
              exact Nat.lt_succ_self _
            · rw [← isNext]
              exact Nat.lt_succ_self _
  | bind | onClose | onChannelError | irpComplete | read => exact absurd internal id

theorem length_le_work {events : List RelayEvent} (internal : ∀ event ∈ events, Internal event)
    (ran : streamRelay.run relay events = some next) : events.length + next.work ≤ relay.work := by
  induction events generalizing relay with
  | nil =>
    cases ran
    exact (Nat.zero_add _).le
  | cons event events ih =>
    rw [Machine.run, Option.bind_eq_some_iff] at ran
    obtain ⟨middle, moved, rest⟩ := ran
    have later := ih (fun other member => internal other (mem_cons_of_mem _ member)) rest
    have less := work_lt (internal event mem_cons_self) moved
    rw [length_cons]
    omega

theorem idle_of_stuck (stuck : ∀ event, Internal event → relay.step event = none) : relay.Idle := by
  constructor
  case calls =>
    intro call member
    obtain ⟨tid, is⟩ := mem_iff_getElem?.1 member
    have never := stuck (.call tid true) trivial
    rw [StreamRelay.step, is] at never
    cases call with
    | returned ret => exact ⟨ret, rfl⟩
    | onClose | onCloseStm | unlocked | tcpClosed => cases never
  case seqTasks =>
    have never := stuck (.seqTask true) trivial
    rw [StreamRelay.step] at never
    cases queue : relay.seqTasks with
    | nil => rfl
    | cons task rest =>
      rw [queue] at never
      cases task with
      | writeStream | closeLocalStream => cases never

/-- In a run whose steps fit the maps stay inverse, no side is closed twice, and what was reported is
closed on the other side once the calls and the queue have come to their end, which they do. -/
theorem tornDown_of_fits
    (reachable : (streamRelay.restrict fun relay event => event.Fits relay = true).Reachable relay) :
    relay.Right ∧ ∀ events next, (∀ event ∈ events, Internal event) → streamRelay.run relay events = some next →
      events.length ≤ relay.work ∧ ((∀ event, Internal event → next.step event = none) → next.Idle) := by
  have sound : relay.Sound := by
    refine reachable.invariant sound_new fun _ _ _ _ before moved => ?_
    obtain ⟨fits, moved⟩ := Machine.restrict_step.1 moved
    exact before.step fits moved
  refine ⟨sound.right, fun events next internal ran => ⟨?_, idle_of_stuck⟩⟩
  exact Nat.le_of_add_right_le (length_le_work internal ran)

/-- A stream whose local side is closed, and one whose TCP side is. -/
theorem tornDown_bothSides : ∃ relay : StreamRelay,
    (relay.channelCloses 0, relay.tcpCloses 0, relay.channelCloses 1, relay.tcpCloses 1) =
    (1, 1, 1, 1) ∧
      relay.Right := by
  have ran : ((streamRelay.restrict fun relay event => event.Fits relay = true).run .new
      [.bind 16 1024, .bind 32 1025, .onClose 0, .irpComplete 1 0 0 [4], .onChannelError 1 (-32), .call 0 true,
        .call 1 true, .call 2 true, .call 1 true, .call 0 true, .call 0 true, .call 1 true, .seqTask true,
        .seqTask true]).map (fun relay =>
      (relay.channelCloses 0, relay.tcpCloses 0, relay.channelCloses 1, relay.tcpCloses 1)) = some (1, 1, 1, 1) := by
    decide +kernel
  obtain ⟨relay, run, same⟩ := Option.map_eq_some_iff.1 ran
  exact ⟨relay, same, (tornDown_of_fits (Machine.Reachable.start.run run)).1⟩

/-- A read that fails leaves the channel of its stream as it is. -/
theorem resetRead_staysOpen : ¬∀ relay : StreamRelay, streamRelay.Reachable relay → relay.Right := by
  intro right
  have ran : (streamRelay.run .new [.bind 16 1024, .irpComplete 0 (-104) 0 []]).map (fun relay =>
      (relay.calls, relay.seqTasks, relay.tcpSide 0, relay.channelCloses 0)) = some ([], [], true, 0) := by
    decide +kernel
  obtain ⟨relay, run, same⟩ := Option.map_eq_some_iff.1 ran
  obtain ⟨noCall, noTask, reported, never⟩ : relay.calls = [] ∧ relay.seqTasks = [] ∧ relay.tcpSide 0 = true ∧
      relay.channelCloses 0 = 0 := by
    simpa only [Prod.mk.injEq] using same
  have idle : relay.Idle := ⟨fun call member => (by rw [noCall] at member; cases member), noTask⟩
  have closed := (right relay (Machine.Reachable.start.run run)).channelClosed idle 0 reported
  rw [never] at closed
  cases closed

/-- Two channels can be bound to one stream id, which then leads to the second of them only. -/
example : (streamRelay.run .new [.bind 16 1024, .bind 32 1024]).map (fun relay =>
    (relay.mapHandleToStmId 16, relay.mapHandleToStmId 32, relay.mapStmIdToHandle 1024)) =
    some (some 1024, some 1024, some 32) := by
  decide +kernel

end StreamRelay

end RpcFrmwrk.Rpc
