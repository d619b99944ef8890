import Mathlib.Data.List.Nodup
import Mathlib.Data.List.Perm.Subperm
import RpcFrmwrk.Rpc.ControlStream

/-! The responses and events of the control stream over whole runs. Owns `ControlState.Matched`,
what the requests get and what waits; where every request and every packet is. -/

namespace RpcFrmwrk.Rpc

open RpcFrmwrk.Library RpcFrmwrk.Ipc List

def CtrlIrp.Suits (kind : ListenKind) (request : CtrlIrp) (packet : CtrlPacket) : Prop :=
  if request.kind = .listening then packet.kind = .event kind
  else request.kind = .call ∧ packet.kind = .methodReturn (some request.seqNo)

theorem CtrlIrp.Suits.call_of_number {kind : ListenKind} {request : CtrlIrp} {packet : CtrlPacket}
    (suits : request.Suits kind packet) {seqNo : Nat}
    (number : packet.kind = .methodReturn (some seqNo)) :
    request.kind = .call ∧ request.seqNo = seqNo := by
  unfold CtrlIrp.Suits at suits
  by_cases listening : request.kind = .listening
  · rw [if_pos listening, number] at suits
    cases suits
  · rw [if_neg listening, number] at suits
    obtain ⟨call, ⟨⟩⟩ := suits
    exact ⟨call, rfl⟩

def CtrlEvent.InOrder (earlier later : CtrlEvent) : Prop :=
  ∀ irp packet, earlier = .removed irp → later ≠ .delivered irp packet

def CtrlPhase.current : CtrlPhase → List Nat
  | .responded irp _ => [irp]
  | _ => []

namespace ControlState

/-- No registered request has its response in the queue, and no listener waits while what
it listens to is there. -/
structure Apart (state : ControlState) : Prop where
  responses : ∀ packet ∈ state.bufs, ∀ entry ∈ state.forResp,
    packet.kind ≠ .methodReturn (some entry.1)
  events : ∀ packet ∈ state.bufs, ∀ kind, packet.kind = .event kind → state.reads kind = []

/-- A packet that is delivered has come in and is for the request that gets it; no packet
is delivered twice and no request gets two; a request that waits for its response
has got one as soon as one is there, if it has not been removed; the queues are kept
apart; and a request that has been removed gets nothing. -/
structure Matched (kind : ListenKind) (state : ControlState) : Prop where
  suits : ∀ entry ∈ state.delivered, entry.2 ∈ state.arrived ∧ (state.irp entry.1).Suits kind entry.2
  once : (state.delivered.map fun entry => entry.2.id).Nodup
  single : (state.delivered.map Prod.fst).Nodup
  answered : state.phase = .idle → ∀ irp ∈ state.submitted, (state.irp irp).waits = true →
    ∀ packet ∈ state.arrived, packet.kind = .methodReturn (some (state.irp irp).seqNo) →
      irp ∈ state.delivered.map Prod.fst ++ state.removed
  apart : state.phase ≠ .received → state.Apart
  final : state.history.Pairwise CtrlEvent.InOrder

end ControlState

/-- No two requests get the same number; a listener finds what it listens to at the
front of the queue, or not at all, or the dispatcher is about to look; the queue of packets
does not overflow; and the queues are cleared while no request waits for its
response. -/
def CtrlMove.Fits (kind : ListenKind) (state : ControlState) : CtrlMove → Prop
  | .request _ ctrl =>
    ctrl ≠ .call ∨ ∀ irp ∈ state.submitted,
      (state.irp irp).kind ≠ .call ∨ (state.irp irp).seqNo ≠ state.seqNo
  | .listen _ =>
    state.phase = .received ∨ .event kind ∉ state.bufs.map CtrlPacket.kind ∨
      (state.bufs.map CtrlPacket.kind).head? = some (.event kind)
  | .recvPacket _ => state.bufs.length < stmMaxRecvPackets
  | .clear => state.forResp = []
  | _ => True

instance CtrlMove.decidableFits (kind : ListenKind) (state : ControlState) :
    (move : CtrlMove) → Decidable (move.Fits kind state)
  | .request _ _ | .listen _ => inferInstanceAs (Decidable (_ ∨ _))
  | .recvPacket _ => inferInstanceAs (Decidable (_ < _))
  | .clear => inferInstanceAs (Decidable (state.forResp = []))
  | .startSend | .sent _ _ | .dispatch | .cancelBegin _ | .cancelEnd _ => isTrue trivial

namespace ControlState

variable {state : ControlState} {irp : Nat}

theorem matchFront_eq (kind : ListenKind) (bufs : List CtrlPacket) (rest : List CtrlPacket) :
    ∀ itr, (∀ front ∈ bufs.head?, front.kind ≠ .event kind) → matchFront kind bufs itr rest = none := by
  induction rest with
  | nil => exact fun _ _ => rfl
  | cons packet rest ih =>
    intro itr other
    cases bufs with
    | nil => rfl
    | cons front bufs =>
      rw [matchFront, if_neg (other front rfl)]
      exact ih (itr + 1) other

theorem matchFront_spec (kind : ListenKind) (bufs : List CtrlPacket) :
    matchFront kind bufs 0 bufs = none ∧ (bufs.map CtrlPacket.kind).head? ≠ some (.event kind) ∨
      ∃ front rest, bufs = front :: rest ∧ front.kind = .event kind ∧
        matchFront kind bufs 0 bufs = some (front, rest) := by
  cases bufs with
  | nil => exact .inl ⟨rfl, nofun⟩
  | cons front rest =>
    by_cases event : front.kind = .event kind
    · refine .inr ⟨front, rest, rfl, event, ?_⟩
      rw [matchFront, if_pos event]
      rfl
    · refine .inl ⟨matchFront_eq _ _ _ 0 fun other same => ?_, fun same => event ?_⟩
      · cases same
        exact event
      · exact Option.some.inj same

/-! ### Where the requests and the packets are -/

/-- How often a request is in the queues, at the lower port and in the hand of the
dispatcher. -/
def placed (state : ControlState) (irp : Nat) : Nat :=
  state.writes.count irp + state.lower.count irp + (state.forResp.map Prod.snd).count irp +
    (state.reads .methodCall).count irp + (state.reads .signal).count irp +
    (state.phase.pairs.map Prod.fst).count irp

theorem placed_of_sending (member : irp ∈ state.writes ++ state.lower) : 0 < state.placed irp := by
  have positive := count_pos_iff.2 member
  rw [count_append] at positive
  simp only [placed]
  omega

theorem placed_of_registered (member : irp ∈ state.forResp.map Prod.snd) : 0 < state.placed irp := by
  have positive := count_pos_iff.2 member
  simp only [placed]
  omega

theorem placed_of_listening {kind : ListenKind} (member : irp ∈ state.reads kind) : 0 < state.placed irp := by
  have positive := count_pos_iff.2 member
  simp only [placed]
  cases kind <;> omega

theorem placed_of_handed (member : irp ∈ state.phase.pairs.map Prod.fst) : 0 < state.placed irp := by
  have positive := count_pos_iff.2 member
  simp only [placed]
  omega

def answered (state : ControlState) : List Nat :=
  state.delivered.map Prod.fst

def given (state : ControlState) : List (Nat × CtrlPacket) :=
  state.phase.pairs ++ state.delivered

section Records

variable (state : ControlState) (irp : Nat) (new : IrpState)

@[simp] theorem setState_kind (other : Nat) :
    ((state.setState irp new).irp other).kind = (state.irp other).kind := by
  by_cases same : other = irp
  · subst same
    simp [setState, setIrp]
  · simp [setState, setIrp, same]

@[simp] theorem setState_seqNo (other : Nat) :
    ((state.setState irp new).irp other).seqNo = (state.irp other).seqNo := by
  by_cases same : other = irp
  · subst same
    simp [setState, setIrp]
  · simp [setState, setIrp, same]

@[simp] theorem setState_waits (other : Nat) :
    ((state.setState irp new).irp other).waits = (state.irp other).waits := by
  by_cases same : other = irp
  · subst same
    simp [setState, setIrp]
  · simp [setState, setIrp, same]

@[simp] theorem setState_self : ((state.setState irp new).irp irp).state = new := by
  simp [setState, setIrp]

theorem setState_of_ne {other : Nat} (apart : other ≠ irp) :
    (state.setState irp new).irp other = state.irp other := by
  simp [setState, setIrp, apart]

theorem setIrp_self (request : CtrlIrp) : (state.setIrp irp request).irp irp = request := by
  simp [setIrp]

theorem setIrp_of_ne (request : CtrlIrp) {other : Nat} (apart : other ≠ irp) :
    (state.setIrp irp request).irp other = state.irp other := by
  simp [setIrp, apart]

end Records

theorem delivered_record (state : ControlState) (events : List CtrlEvent) :
    (state.record events).delivered = state.delivered ++ events.filterMap CtrlEvent.delivery :=
  filterMap_append

theorem removed_record (state : ControlState) (events : List CtrlEvent) :
    (state.record events).removed = state.removed ++ events.filterMap CtrlEvent.removal :=
  filterMap_append

/-- `pending` are the packets that `GetReadIrpsToComp` has not looked at yet. Every
request is in one place at most, and every packet is given once at most; a packet
that has been given and is still in the queue was found by `QueueIrpForResp`. -/
structure Inv (kind : ListenKind) (state : ControlState) (pending : List CtrlPacket) : Prop where
  single : ∀ irp, state.placed irp + state.answered.count irp ≤ 1
  known : ∀ irp, 0 < state.placed irp ∨ irp ∈ state.answered ++ state.removed →
    irp ∈ state.submitted
  gone : ∀ irp ∈ state.removed, state.placed irp = 0 ∨ (state.irp irp).state ≠ .ready
  live : ∀ irp, 0 < state.placed irp →
    (state.irp irp).state = .ready ∨ (state.irp irp).state = .cancelling ∨ irp ∈ state.removed
  final : state.history.Pairwise CtrlEvent.InOrder
  numbers : ∀ one ∈ state.submitted, ∀ other ∈ state.submitted, (state.irp one).kind = .call →
    (state.irp other).kind = .call → (state.irp one).seqNo = (state.irp other).seqNo → one = other
  sending : ∀ irp ∈ state.writes ++ state.lower,
    (state.irp irp).kind ≠ .listening ∧ (state.irp irp).waits = false
  registered : ∀ entry ∈ state.forResp,
    (state.irp entry.2).kind = .call ∧ (state.irp entry.2).seqNo = entry.1
  listening : ∀ one, ∀ irp ∈ state.reads one, one = kind ∧ (state.irp irp).kind = .listening
  suits : ∀ entry ∈ state.given, (state.irp entry.1).Suits kind entry.2
  waiting : ∀ irp ∈ state.submitted, (state.irp irp).waits = true → (state.irp irp).kind = .call ∧
    (irp ∈ state.forResp.map Prod.snd ∨ irp ∈ state.phase.pairs.map Prod.fst ∨
      irp ∈ state.answered ++ state.removed)
  once : (state.given.map fun entry => entry.2.id).Nodup
  queue : ((state.bufs ++ pending).map CtrlPacket.id).Nodup
  early : ∀ packet ∈ state.bufs ++ pending, packet.id ∈ (state.given.map fun entry => entry.2.id) →
    ∃ irp ∈ state.answered, (state.irp irp).kind = .call ∧
      packet.kind = .methodReturn (some (state.irp irp).seqNo)
  arrived : ∀ packet ∈ state.bufs ++ pending ++ state.given.map Prod.snd, packet ∈ state.arrived
  stamped : ∀ packet ∈ state.arrived, packet.id < state.arrived.length
  accounted : ∀ packet ∈ state.arrived, ∀ seqNo, packet.kind = .methodReturn (some seqNo) →
    packet ∈ state.bufs ++ pending ∨ packet ∈ state.phase.pairs.map Prod.snd ∨
      ∃ irp ∈ state.answered ++ state.removed,
        (state.irp irp).kind = .call ∧ (state.irp irp).seqNo = seqNo
  current : ∀ irp ∈ state.phase.current, irp ∈ state.answered

namespace Inv

variable {kind : ListenKind} {state : ControlState} {pending : List CtrlPacket} {packet : CtrlPacket}
variable {irp : Nat} {packet : CtrlPacket}
variable {writes : List Nat} {forResp : List (Nat × Nat)} {reads : ListenKind → List Nat}

theorem matched (inv : state.Inv kind []) (apart : state.phase ≠ .received → state.Apart) :
    state.Matched kind := by
  have given (entry : Nat × CtrlPacket) (member : entry ∈ state.delivered) : entry ∈ state.given :=
    mem_append_right _ member
  refine ⟨fun entry member => ⟨?_, inv.suits entry (given entry member)⟩, ?_, ?_, ?_, apart, inv.final⟩
  · exact inv.arrived entry.2 (mem_append_right _ (mem_map_of_mem (given entry member)))
  · have once := inv.once
    rw [ControlState.given, map_append] at once
    exact (nodup_append.1 once).2.1
  · rw [nodup_iff_count_le_one]
    intro irp
    have single := inv.single irp
    rw [answered] at single
    omega
  · intro idle irp submitted waits packet came number
    obtain ⟨call, registered | handed | ended⟩ := inv.waiting irp submitted waits
    · obtain ⟨entry, member, rfl⟩ := mem_map.1 registered
      have same := (inv.registered entry member).2
      have apart := apart (by rw [idle]; nofun)
      obtain queued | handed | ⟨other, ended, otherCall, otherNumber⟩ :=
        inv.accounted packet came _ number
      · rw [append_nil] at queued
        exact absurd (same ▸ number) (apart.responses packet queued entry member)
      · rw [idle] at handed
        cases handed
      · have equal := inv.numbers other (inv.known other (.inr ended)) entry.2 submitted otherCall call
          otherNumber
        exact equal ▸ ended
    · rw [idle] at handed
      cases handed
    · exact ended

theorem setState (inv : state.Inv kind pending) {new : IrpState}
    (live : 0 < state.placed irp → new = .ready ∨ new = .cancelling ∨ irp ∈ state.removed)
    (gone : irp ∈ state.removed → state.placed irp = 0 ∨ new ≠ .ready) :
    (state.setState irp new).Inv kind pending := by
  refine ⟨inv.single, inv.known, fun other member => ?_, fun other placed => ?_, inv.final, ?_, ?_, ?_,
    ?_, ?_, ?_, inv.once, inv.queue, ?_, inv.arrived, inv.stamped, ?_, inv.current⟩
  · by_cases same : other = irp
    · subst same
      rw [setState_self]
      exact gone member
    · rw [setState_of_ne state irp new same]
      exact inv.gone other member
  · by_cases same : other = irp
    · subst same
      rw [setState_self]
      exact live placed
    · rw [setState_of_ne state irp new same]
      exact inv.live other placed
  · simp only [setState_kind, setState_seqNo]
    exact inv.numbers
  · simp only [setState_kind, setState_waits]
    exact inv.sending
  · simp only [setState_kind, setState_seqNo]
    exact inv.registered
  · simp only [setState_kind]
    exact inv.listening
  · intro entry member
    have suits := inv.suits entry member
    rw [CtrlIrp.Suits] at suits ⊢
    rw [setState_kind, setState_seqNo]
    exact suits
  · simp only [setState_kind, setState_waits]
    exact inv.waiting
  · simp only [setState_kind, setState_seqNo]
    exact inv.early
  · simp only [setState_kind, setState_seqNo]
    exact inv.accounted

/-- Requests leave the queues, or go from one to the next; those that are registered leave
the map only when they have been removed. -/
theorem leave (inv : state.Inv kind pending) {lower : List Nat}
    (fewer : ∀ irp, ({ state with
      writes := writes, lower := lower, forResp := forResp, reads := reads } : ControlState).placed irp ≤
        state.placed irp)
    (sending : writes ++ lower ⊆ state.writes ++ state.lower)
    (fewerResp : forResp ⊆ state.forResp) (fewerReads : ∀ one, reads one ⊆ state.reads one)
    (removed : ∀ entry ∈ state.forResp, entry ∈ forResp ∨ entry.2 ∈ state.removed) :
    ({ state with writes := writes, lower := lower, forResp := forResp, reads := reads } :
      ControlState).Inv kind pending := by
  refine ⟨fun irp => ?_, fun irp => ?_, fun irp member => ?_, fun irp placed => ?_, inv.final,
    inv.numbers, fun irp member => inv.sending irp (sending member),
    fun entry member => inv.registered entry (fewerResp member),
    fun one irp member => inv.listening one irp (fewerReads one member), inv.suits, ?_, inv.once,
    inv.queue, inv.early, inv.arrived, inv.stamped, inv.accounted, inv.current⟩
  · exact Nat.le_trans (Nat.add_le_add_right (fewer irp) _) (inv.single irp)
  · exact fun some => inv.known irp (some.imp_left fun placed => Nat.lt_of_lt_of_le placed (fewer irp))
  · refine (inv.gone irp member).imp_left fun nowhere => Nat.le_zero.1 ?_
    exact nowhere ▸ fewer irp
  · exact inv.live irp (Nat.lt_of_lt_of_le placed (fewer irp))
  · intro irp submitted waits
    obtain ⟨call, registered | handed | ended⟩ := inv.waiting irp submitted waits
    · obtain ⟨entry, member, rfl⟩ := mem_map.1 registered
      refine ⟨call, ?_⟩
      obtain stays | gone := removed entry member
      · exact .inl (mem_map_of_mem stays)
      · exact .inr (.inr (mem_append_right _ gone))
    · exact ⟨call, .inr (.inl handed)⟩
    · exact ⟨call, .inr (.inr ended)⟩

theorem remove (inv : state.Inv kind pending) {irps : List Nat}
    (known : ∀ irp ∈ irps, irp ∈ state.submitted)
    (gone : ∀ irp ∈ irps, state.placed irp = 0 ∨ (state.irp irp).state ≠ .ready) :
    (state.record (irps.map .removed)).Inv kind pending := by
  have delivered : (state.record (irps.map .removed)).delivered = state.delivered := by
    rw [delivered_record, filterMap_map]
    exact (congrArg _ (filterMap_eq_nil_iff.2 fun _ _ => rfl)).trans (append_nil _)
  have removed : (state.record (irps.map .removed)).removed = state.removed ++ irps := by
    rw [removed_record, filterMap_map]
    exact congrArg _ (filterMap_some)
  have answered : (state.record (irps.map .removed)).answered = state.answered :=
    congrArg (List.map Prod.fst) delivered
  have given : (state.record (irps.map .removed)).given = state.given :=
    congrArg (state.phase.pairs ++ ·) delivered
  have more {irp : Nat} (ended : irp ∈ state.answered ++ state.removed) :
      irp ∈ state.answered ++ (state.removed ++ irps) := by
    rw [← append_assoc]
    exact mem_append_left _ ended
  refine ⟨?_, ?_, ?_, ?_, ?_, inv.numbers, inv.sending, inv.registered, inv.listening, ?_, ?_, ?_,
    inv.queue, ?_, ?_, inv.stamped, ?_, ?_⟩
  · rw [answered]
    exact inv.single
  · intro irp some
    rw [answered, removed, ← append_assoc, mem_append] at some
    obtain placed | old | new := some
    · exact inv.known irp (.inl placed)
    · exact inv.known irp (.inr old)
    · exact known irp new
  · intro irp member
    rw [removed] at member
    rcases mem_append.1 member with old | new
    · exact inv.gone irp old
    · exact gone irp new
  · intro irp placed
    rw [removed]
    exact (inv.live irp placed).imp_right fun later => later.imp_right (mem_append_left _)
  · refine pairwise_append.2 ⟨inv.final, ?_, ?_⟩
    · refine pairwise_map.2 (pairwise_of_forall fun _ _ _ _ _ => nofun)
    · intro earlier _ later member irp packet _ same
      obtain ⟨_, _, rfl⟩ := mem_map.1 member
      cases same
  · rw [given]
    exact inv.suits
  · intro irp submitted waits
    rw [answered, removed]
    exact (inv.waiting irp submitted waits).imp_right fun place =>
      place.imp_right fun place => place.imp_right more
  · rw [given]
    exact inv.once
  · rw [given, answered]
    exact inv.early
  · rw [given]
    exact inv.arrived
  · intro packet came seqNo number
    rw [answered, removed]
    refine (inv.accounted packet came seqNo number).imp_right fun place => place.imp_right ?_
    exact fun ⟨irp, ended, same⟩ => ⟨irp, more ended, same⟩
  · rw [answered]
    exact inv.current

theorem final_deliver (inv : state.Inv kind pending) (packet : CtrlPacket)
    (kept : irp ∉ state.removed) :
    (state.history ++ [CtrlEvent.delivered irp packet]).Pairwise CtrlEvent.InOrder := by
  refine pairwise_append.2 ⟨inv.final, pairwise_singleton _ _, ?_⟩
  intro earlier member later last other _ removed same
  rw [mem_singleton.1 last] at same
  cases same
  exact kept (mem_filterMap.2 ⟨earlier, member, by rw [removed]; rfl⟩)

theorem answer (inv : state.Inv kind pending)
    (nowhere : state.placed irp = 0) (fresh : irp ∉ state.answered) (kept : irp ∉ state.removed)
    (submitted : irp ∈ state.submitted) (suits : (state.irp irp).Suits kind packet)
    (new : packet.id ∉ (state.given.map fun entry => entry.2.id)) (came : packet ∈ state.arrived)
    (early : ∀ one ∈ state.bufs ++ pending, one.id = packet.id → (state.irp irp).kind = .call ∧
      one.kind = .methodReturn (some (state.irp irp).seqNo)) :
    (state.record [.delivered irp packet]).Inv kind pending := by
  have delivered : (state.record [.delivered irp packet]).delivered =
      state.delivered ++ [(irp, packet)] := delivered_record state _
  have removed : (state.record [.delivered irp packet]).removed = state.removed :=
    (removed_record state _).trans (append_nil _)
  have answered : (state.record [.delivered irp packet]).answered = state.answered ++ [irp] := by
    rw [ControlState.answered, delivered, map_append]
    rfl
  have given : (state.record [.delivered irp packet]).given = state.given ++ [(irp, packet)] := by
    rw [ControlState.given, delivered, ← append_assoc]
    rfl
  have more {other : Nat} (ended : other ∈ state.answered ++ state.removed) :
      other ∈ state.answered ++ [irp] ++ state.removed := by
    rcases mem_append.1 ended with answered | removed
    · exact mem_append_left _ (mem_append_left _ answered)
    · exact mem_append_right _ removed
  refine ⟨fun other => ?_, fun other some => ?_, ?_, ?_, inv.final_deliver packet kept, inv.numbers,
    inv.sending, inv.registered, inv.listening, ?_, ?_, ?_, inv.queue, ?_, ?_, inv.stamped, ?_, ?_⟩
  · rw [answered, count_append]
    show state.placed other + _ ≤ 1
    by_cases same : other = irp
    · subst same
      have none := count_eq_zero.2 fresh
      have one : List.count other [other] = 1 := count_singleton_self
      omega
    · rw [count_eq_zero.2 fun member => same (mem_singleton.1 member)]
      exact inv.single other
  · rw [answered, removed] at some
    by_cases same : other = irp
    · exact same ▸ submitted
    · refine inv.known other (some.imp_right fun ended => ?_)
      rcases mem_append.1 ended with answered | removed
      · rcases mem_append.1 answered with old | last
        · exact mem_append_left _ old
        · exact absurd (mem_singleton.1 last) same
      · exact mem_append_right _ removed
  · rw [removed]
    exact inv.gone
  · rw [removed]
    exact inv.live
  · rw [given]
    exact forall_mem_append.2 ⟨inv.suits, forall_mem_singleton.2 suits⟩
  · intro other known waits
    rw [answered, removed]
    exact (inv.waiting other known waits).imp_right fun place =>
      place.imp_right fun place => place.imp_right more
  · rw [given, map_append]
    refine inv.once.append (nodup_singleton _) ?_
    exact disjoint_singleton.2 new
  · intro one member
    rw [given, answered, map_append]
    intro given
    rcases mem_append.1 given with old | last
    · obtain ⟨other, answered, same⟩ := inv.early one member old
      exact ⟨other, mem_append_left _ answered, same⟩
    · exact ⟨irp, mem_append_right _ mem_cons_self, early one member (mem_singleton.1 last)⟩
  · rw [given, map_append, ← append_assoc]
    exact forall_mem_append.2 ⟨inv.arrived, forall_mem_singleton.2 came⟩
  · intro one came seqNo number
    rw [answered, removed]
    refine (inv.accounted one came seqNo number).imp_right fun place => place.imp_right ?_
    exact fun ⟨other, ended, same⟩ => ⟨other, more ended, same⟩
  · rw [answered]
    exact fun other member => mem_append_left _ (inv.current other member)

theorem deliver (inv : state.Inv kind pending)
    {pairs : List (Nat × CtrlPacket)} (phase : state.phase = .responding ((irp, packet) :: pairs))
    (kept : irp ∉ state.removed) :
    ({ state with phase := .responded irp pairs }.record [.delivered irp packet] :
      ControlState).Inv kind pending := by
  have pairsNow : state.phase.pairs = (irp, packet) :: pairs := by rw [phase]; rfl
  set next : ControlState :=
    { state with phase := .responded irp pairs }.record [.delivered irp packet] with nextIs
  have delivered : next.delivered = state.delivered ++ [(irp, packet)] := delivered_record _ _
  have removed : next.removed = state.removed :=
    (removed_record _ _).trans (append_nil _)
  have answered : next.answered = state.answered ++ [irp] := by
    rw [ControlState.answered, delivered, map_append]
    rfl
  have given : next.given.Perm state.given := by
    show (pairs ++ next.delivered).Perm (state.phase.pairs ++ state.delivered)
    rw [delivered, pairsNow, ← append_assoc]
    exact perm_append_singleton _ _
  have placed (other : Nat) : state.placed other = next.placed other + List.count other [irp] := by
    show _ = (_ + (pairs.map Prod.fst).count other) + _
    rw [ControlState.placed, pairsNow, map_cons, count_cons, count_singleton]
    exact (Nat.add_assoc _ _ _).symm
  have more {other : Nat} (ended : other ∈ state.answered ++ state.removed) :
      other ∈ next.answered ++ next.removed := by
    rw [answered, removed]
    rcases mem_append.1 ended with answered | removed
    · exact mem_append_left _ (mem_append_left _ answered)
    · exact mem_append_right _ removed
  have here : irp ∈ next.answered ++ next.removed := by
    rw [answered]
    exact mem_append_left _ (mem_append_right _ mem_cons_self)
  have suits : (state.irp irp).Suits kind packet := by
    refine inv.suits (irp, packet) (mem_append_left _ ?_)
    rw [pairsNow]
    exact mem_cons_self
  refine ⟨fun other => ?_, fun other some => ?_, fun other member => ?_, fun other some => ?_,
    inv.final_deliver packet kept, inv.numbers, inv.sending, inv.registered, inv.listening, ?_, ?_, ?_,
    inv.queue, ?_, ?_, inv.stamped, ?_, ?_⟩
  · rw [answered, count_append]
    have single := inv.single other
    have before := placed other
    omega
  · rw [answered, removed] at some
    have before := placed other
    refine inv.known other ?_
    obtain somewhere | ended := some
    · exact .inl (by omega)
    · rcases mem_append.1 ended with answered | gone
      · rcases mem_append.1 answered with old | last
        · exact .inr (mem_append_left _ old)
        · rw [mem_singleton.1 last, count_singleton_self] at before
          rw [mem_singleton.1 last]
          exact .inl (by omega)
      · exact .inr (mem_append_right _ gone)
  · rw [removed] at member
    have before := placed other
    exact (inv.gone other member).imp_left fun nowhere => by omega
  · rw [removed]
    have before := placed other
    exact inv.live other (by omega)
  · exact fun entry member => inv.suits entry (given.mem_iff.1 member)
  · intro other known waits
    obtain ⟨call, place⟩ := inv.waiting other known waits
    refine ⟨call, place.imp_right fun place => ?_⟩
    obtain handed | ended := place
    · rw [pairsNow] at handed
      rcases mem_cons.1 handed with rfl | later
      · exact .inr here
      · exact .inl later
    · exact .inr (more ended)
  · exact (given.map _).nodup_iff.2 inv.once
  · intro one member same
    obtain ⟨other, ended, number⟩ := inv.early one member ((given.map _).mem_iff.1 same)
    refine ⟨other, ?_, number⟩
    rw [answered]
    exact mem_append_left _ ended
  · intro one member
    refine inv.arrived one ?_
    rcases mem_append.1 member with queued | handed
    · exact mem_append_left _ queued
    · exact mem_append_right _ ((given.map _).mem_iff.1 handed)
  · intro one came seqNo number
    obtain queued | handed | ⟨other, ended, same⟩ := inv.accounted one came seqNo number
    · exact .inl queued
    · rw [pairsNow] at handed
      rcases mem_cons.1 handed with equal | later
      · exact .inr (.inr ⟨irp, here, suits.call_of_number ((show one = packet from equal) ▸ number)⟩)
      · exact .inr (.inl later)
    · exact .inr (.inr ⟨other, more ended, same⟩)
  · rw [answered]
    exact subset_append_right _ _

theorem skip (inv : state.Inv kind pending)
    {pairs : List (Nat × CtrlPacket)} (phase : state.phase = .responding ((irp, packet) :: pairs))
    (gone : irp ∈ state.removed) :
    ({ state with phase := .responding pairs } : ControlState).Inv kind pending := by
  have pairsNow : state.phase.pairs = (irp, packet) :: pairs := by rw [phase]; rfl
  have suits : (state.irp irp).Suits kind packet := by
    refine inv.suits (irp, packet) (mem_append_left _ ?_)
    rw [pairsNow]
    exact mem_cons_self
  have fewer : (pairs ++ state.delivered).Sublist state.given := by
    rw [ControlState.given, pairsNow]
    exact sublist_cons_self _ _
  have placed (other : Nat) : state.placed other =
      ({ state with phase := .responding pairs } : ControlState).placed other + List.count other [irp] := by
    show _ = (_ + (pairs.map Prod.fst).count other) + _
    rw [ControlState.placed, pairsNow, map_cons, count_cons, count_singleton]
    exact (Nat.add_assoc _ _ _).symm
  refine ⟨fun other => ?_, fun other some => ?_, fun other member => ?_, fun other some => ?_,
    inv.final, inv.numbers, inv.sending, inv.registered, inv.listening, ?_, ?_, ?_, inv.queue, ?_, ?_,
    inv.stamped, ?_, nofun⟩
  · have single := inv.single other
    have before := placed other
    exact Nat.le_trans (Nat.add_le_add_right (by omega) _) single
  · have before := placed other
    exact inv.known other (some.imp_left fun somewhere => by omega)
  · have before := placed other
    exact (inv.gone other member).imp_left fun nowhere => by omega
  · have before := placed other
    exact inv.live other (by omega)
  · exact fun entry member => inv.suits entry (fewer.mem member)
  · intro other known waits
    obtain ⟨call, place⟩ := inv.waiting other known waits
    refine ⟨call, place.imp_right fun place => ?_⟩
    obtain handed | ended := place
    · rw [pairsNow] at handed
      rcases mem_cons.1 handed with rfl | later
      · exact .inr (mem_append_right _ gone)
      · exact .inl later
    · exact .inr ended
  · exact inv.once.sublist (fewer.map _)
  · exact fun one member same => inv.early one member ((fewer.map _).mem same)
  · intro one member
    refine inv.arrived one ?_
    rcases mem_append.1 member with queued | handed
    · exact mem_append_left _ queued
    · exact mem_append_right _ ((fewer.map _).mem handed)
  · intro one came seqNo number
    obtain queued | handed | ended := inv.accounted one came seqNo number
    · exact .inl queued
    · rw [pairsNow] at handed
      rcases mem_cons.1 handed with equal | later
      · exact .inr (.inr ⟨irp, mem_append_right _ gone, suits.call_of_number ((show one = packet from equal) ▸ number)⟩)
      · exact .inr (.inl later)
    · exact .inr (.inr ended)

/-- What is in no place, has no response and is not removed. -/
structure Nowhere (state : ControlState) (irp : Nat) : Prop where
  placed : state.placed irp = 0
  answered : irp ∉ state.answered
  removed : irp ∉ state.removed

theorem nowhere_of_new (inv : state.Inv kind pending) (new : irp ∉ state.submitted) :
    Nowhere state irp := by
  refine ⟨?_, fun member => ?_, fun member => ?_⟩
  · refine Nat.eq_zero_of_not_pos fun placed => new ?_
    exact inv.known irp (.inl placed)
  · exact new (inv.known irp (.inr (mem_append_left _ member)))
  · exact new (inv.known irp (.inr (mem_append_right _ member)))

theorem setRecord (inv : state.Inv kind pending) {request : CtrlIrp}
    (sameKind : request.kind = (state.irp irp).kind)
    (sameNumber : request.seqNo = (state.irp irp).seqNo)
    (apart : irp ∉ state.writes ++ state.lower) (call : (state.irp irp).kind = .call)
    (place : irp ∈ state.forResp.map Prod.snd ∨ irp ∈ state.answered)
    (live : request.state = .ready ∨ state.placed irp = 0) (kept : irp ∉ state.removed) :
    (state.setIrp irp request).Inv kind pending := by
  have kindKept (other : Nat) : ((state.setIrp irp request).irp other).kind = (state.irp other).kind := by
    by_cases same : other = irp
    · subst same
      rw [setIrp_self, sameKind]
    · rw [setIrp_of_ne state irp request same]
  have numberKept (other : Nat) : ((state.setIrp irp request).irp other).seqNo = (state.irp other).seqNo := by
    by_cases same : other = irp
    · subst same
      rw [setIrp_self, sameNumber]
    · rw [setIrp_of_ne state irp request same]
  refine ⟨inv.single, inv.known, fun other member => ?_, fun other placed => ?_, inv.final, ?_,
    fun other member => ?_, ?_, ?_, fun entry member => ?_, fun other known waits => ?_, inv.once,
    inv.queue, ?_, inv.arrived, inv.stamped, ?_, inv.current⟩
  · have other_ne : other ≠ irp := fun same => kept (same ▸ member)
    rw [setIrp_of_ne state irp request other_ne]
    exact inv.gone other member
  · by_cases same : other = irp
    · subst same
      rw [setIrp_self]
      refine .inl (live.resolve_right fun nowhere => ?_)
      have somewhere : 0 < state.placed other := placed
      omega
    · rw [setIrp_of_ne state irp request same]
      exact inv.live other placed
  · simp only [kindKept, numberKept]
    exact inv.numbers
  · have other_ne : other ≠ irp := fun same => apart (same ▸ member)
    rw [setIrp_of_ne state irp request other_ne]
    exact inv.sending other member
  · simp only [kindKept, numberKept]
    exact inv.registered
  · simp only [kindKept]
    exact inv.listening
  · have suits := inv.suits entry member
    rw [CtrlIrp.Suits] at suits ⊢
    rw [kindKept, numberKept]
    exact suits
  · by_cases same : other = irp
    · subst same
      rw [kindKept]
      exact ⟨call, place.imp_right fun answered => .inr (mem_append_left _ answered)⟩
    · rw [setIrp_of_ne state irp request same] at waits ⊢
      exact inv.waiting other known waits
  · simp only [kindKept, numberKept]
    exact inv.early
  · simp only [kindKept, numberKept]
    exact inv.accounted

theorem newcomer (inv : state.Inv kind pending) {request : CtrlIrp}
    (new : irp ∉ state.submitted) (waits : request.waits = false)
    (number : request.kind = .call → ∀ other ∈ state.submitted, (state.irp other).kind = .call →
      (state.irp other).seqNo ≠ request.seqNo) :
    ({ state with submitted := irp :: state.submitted }.setIrp irp request :
      ControlState).Inv kind pending := by
  have nowhere := inv.nowhere_of_new new
  set next : ControlState :=
    { state with submitted := irp :: state.submitted }.setIrp irp request with nextIs
  have here : next.irp irp = request := setIrp_self _ irp request
  have there {other : Nat} (apart : other ≠ irp) : next.irp other = state.irp other :=
    setIrp_of_ne _ irp request apart
  have known {other : Nat} (member : other ∈ state.submitted) : next.irp other = state.irp other :=
    there fun same => new (same ▸ member)
  have placed {other : Nat} (somewhere : 0 < state.placed other) :
      next.irp other = state.irp other := known (inv.known other (.inl somewhere))
  have ended {other : Nat} (member : other ∈ state.answered ++ state.removed) :
      next.irp other = state.irp other := known (inv.known other (.inr member))
  refine ⟨inv.single, fun other some => mem_cons_of_mem irp (inv.known other some), ?_, ?_,
    inv.final, ?_, ?_, ?_, ?_, ?_, ?_, inv.once, inv.queue, ?_, inv.arrived, inv.stamped, ?_,
    inv.current⟩
  · intro other member
    rw [ended (mem_append_right _ member)]
    exact inv.gone other member
  · intro other somewhere
    rw [placed somewhere]
    exact inv.live other somewhere
  · intro one oneKnown other otherKnown
    rcases mem_cons.1 oneKnown with rfl | oneOld
    · rcases mem_cons.1 otherKnown with rfl | otherOld
      · exact fun _ _ _ => rfl
      · rw [here, known otherOld]
        exact fun call otherCall same => absurd same.symm (number call other otherOld otherCall)
    · rcases mem_cons.1 otherKnown with rfl | otherOld
      · rw [here, known oneOld]
        exact fun oneCall call same => absurd same (number call one oneOld oneCall)
      · rw [known oneOld, known otherOld]
        exact inv.numbers one oneOld other otherOld
  · intro other member
    rw [placed (placed_of_sending member)]
    exact inv.sending other member
  · intro entry member
    rw [placed (placed_of_registered (mem_map_of_mem member))]
    exact inv.registered entry member
  · intro one other member
    rw [placed (placed_of_listening member)]
    exact inv.listening one other member
  · intro entry member
    have same : next.irp entry.1 = state.irp entry.1 := by
      rcases mem_append.1 member with handed | delivered
      · exact placed (placed_of_handed (mem_map_of_mem handed))
      · exact ended (mem_append_left _ (mem_map_of_mem delivered))
    rw [same]
    exact inv.suits entry member
  · intro other member waiting
    rcases mem_cons.1 member with rfl | old
    · rw [here, waits] at waiting
      cases waiting
    · rw [known old] at waiting ⊢
      exact inv.waiting other old waiting
  · intro packet member same
    obtain ⟨other, answered, fits⟩ := inv.early packet member same
    refine ⟨other, answered, ?_⟩
    rw [ended (mem_append_left _ answered)]
    exact fits
  · intro packet came seqNo same
    refine (inv.accounted packet came seqNo same).imp_right fun place => place.imp_right ?_
    intro ⟨other, finished, fits⟩
    refine ⟨other, finished, ?_⟩
    rw [ended finished]
    exact fits

theorem enter (inv : state.Inv kind pending) (nowhere : Nowhere state irp)
    (submitted : irp ∈ state.submitted) (ready : (state.irp irp).state = .ready)
    (placed : ∀ other, ({ state with
      writes := writes, forResp := forResp, reads := reads } : ControlState).placed other =
        state.placed other + List.count other [irp])
    (sending : ∀ other ∈ writes, other ∈ state.writes ∨
      other = irp ∧ (state.irp irp).kind ≠ .listening ∧ (state.irp irp).waits = false)
    (registered : ∀ entry ∈ forResp, entry ∈ state.forResp ∨
      entry.2 = irp ∧ (state.irp irp).kind = .call ∧ (state.irp irp).seqNo = entry.1)
    (listening : ∀ one, ∀ other ∈ reads one, other ∈ state.reads one ∨
      other = irp ∧ one = kind ∧ (state.irp irp).kind = .listening)
    (more : state.forResp ⊆ forResp) :
    ({ state with writes := writes, forResp := forResp, reads := reads } : ControlState).Inv kind pending := by
  have apart {other : Nat} (ne : other ≠ irp) : List.count other [irp] = 0 :=
    count_eq_zero.2 fun member => ne (mem_singleton.1 member)
  refine ⟨fun other => ?_, fun other some => ?_, fun other member => ?_, fun other somewhere => ?_,
    inv.final, inv.numbers, fun other member => ?_, fun entry member => ?_, fun one other member => ?_,
    inv.suits, fun other known waits => ?_, inv.once, inv.queue, inv.early, inv.arrived, inv.stamped,
    inv.accounted, inv.current⟩
  · rw [placed]
    by_cases same : other = irp
    · subst same
      show _ + List.count other state.answered ≤ 1
      have nothing := nowhere.placed
      have none := count_eq_zero.2 nowhere.answered
      have one : List.count other [other] = 1 := count_singleton_self
      omega
    · rw [apart same]
      exact inv.single other
  · by_cases same : other = irp
    · exact same ▸ submitted
    · rw [placed, apart same] at some
      exact inv.known other some
  · have ne : other ≠ irp := fun same => nowhere.removed (same ▸ member)
    rw [placed, apart ne]
    exact inv.gone other member
  · by_cases same : other = irp
    · exact .inl (same ▸ ready)
    · rw [placed, apart same] at somewhere
      exact inv.live other somewhere
  · rcases mem_append.1 member with write | lower
    · obtain old | ⟨rfl, fits⟩ := sending other write
      · exact inv.sending other (mem_append_left _ old)
      · exact fits
    · exact inv.sending other (mem_append_right _ lower)
  · obtain old | ⟨rfl, fits⟩ := registered entry member
    · exact inv.registered entry old
    · exact fits
  · obtain old | ⟨rfl, fits⟩ := listening one other member
    · exact inv.listening one other old
    · exact fits
  · exact (inv.waiting other known waits).imp_right fun place =>
      place.imp_left fun registered => map_subset Prod.snd more registered

theorem drop (inv : state.Inv kind pending) {bufs rest : List CtrlPacket}
    (fewer : (bufs ++ rest).Sublist (state.bufs ++ pending))
    (kept : ∀ packet ∈ state.bufs ++ pending, ∀ seqNo, packet.kind = .methodReturn (some seqNo) →
      packet ∈ bufs ++ rest) :
    ({ state with bufs := bufs } : ControlState).Inv kind rest := by
  refine ⟨inv.single, inv.known, inv.gone, inv.live, inv.final, inv.numbers, inv.sending,
    inv.registered, inv.listening, inv.suits, inv.waiting, inv.once, inv.queue.sublist (fewer.map _),
    fun packet member => inv.early packet (fewer.mem member), fun packet member => ?_, inv.stamped,
    fun packet came seqNo number => ?_, inv.current⟩
  · refine inv.arrived packet ?_
    rcases mem_append.1 member with queued | given
    · exact mem_append_left _ (fewer.mem queued)
    · exact mem_append_right _ given
  · exact (inv.accounted packet came seqNo number).imp_left fun queued =>
      kept packet queued seqNo number

theorem not_given_of_event (inv : state.Inv kind pending)
    (member : packet ∈ state.bufs ++ pending) {one : ListenKind}
    (event : packet.kind = .event one) :
    packet.id ∉ (state.given.map fun entry => entry.2.id) := by
  intro given
  obtain ⟨_, _, _, number⟩ := inv.early packet member given
  rw [event] at number
  cases number

theorem not_given_of_number (inv : state.Inv kind pending)
    (member : packet ∈ state.bufs ++ pending) (submitted : irp ∈ state.submitted)
    (call : (state.irp irp).kind = .call)
    (number : packet.kind = .methodReturn (some (state.irp irp).seqNo))
    (fresh : irp ∉ state.answered) :
    packet.id ∉ (state.given.map fun entry => entry.2.id) := by
  intro given
  obtain ⟨other, answered, otherCall, otherNumber⟩ := inv.early packet member given
  have known := inv.known other (.inr (mem_append_left _ answered))
  rw [number] at otherNumber
  have same := Option.some.inj (PacketKind.methodReturn.inj otherNumber)
  exact fresh (inv.numbers irp submitted other known call otherCall same ▸ answered)

theorem take (inv : state.Inv kind (packet :: pending))
    (placed : ∀ other, ({ state with forResp := forResp, reads := reads } : ControlState).placed other +
      List.count other [irp] = state.placed other)
    (fewerResp : forResp ⊆ state.forResp) (fewerReads : ∀ one, reads one ⊆ state.reads one)
    (others : ∀ entry ∈ state.forResp, entry ∈ forResp ∨ entry.2 = irp)
    (suits : (state.irp irp).Suits kind packet)
    (new : packet.id ∉ (state.given.map fun entry => entry.2.id)) :
    ({ state with forResp := forResp, reads := reads }.pair irp packet : ControlState).Inv kind pending := by
  set next : ControlState :=
    { state with forResp := forResp, reads := reads }.pair irp packet with nextIs
  have pairs : next.phase.pairs = state.phase.pairs ++ [(irp, packet)] := rfl
  have same (other : Nat) : next.placed other = state.placed other := by
    rw [← placed other]
    show _ + (next.phase.pairs.map Prod.fst).count other = _ + _ + _
    rw [pairs, map_append, count_append]
    exact (Nat.add_assoc _ _ _).symm
  have given : next.given.Perm ((irp, packet) :: state.given) := by
    show (next.phase.pairs ++ state.delivered).Perm _
    rw [pairs, append_assoc]
    exact perm_middle
  have queue := inv.queue
  rw [(perm_middle.map CtrlPacket.id).nodup_iff, map_cons, nodup_cons] at queue
  have here : packet ∈ state.bufs ++ packet :: pending :=
    mem_append_right _ mem_cons_self
  have old {one : CtrlPacket} (member : one ∈ state.bufs ++ pending) :
      one ∈ state.bufs ++ packet :: pending := by
    rcases mem_append.1 member with buf | later
    · exact mem_append_left _ buf
    · exact mem_append_right _ (mem_cons_of_mem packet later)
  refine ⟨fun other => ?_, fun other some => ?_, fun other member => ?_, fun other somewhere => ?_,
    inv.final, inv.numbers, inv.sending, fun entry member => inv.registered entry (fewerResp member),
    fun one other member => inv.listening one other (fewerReads one member), fun entry member => ?_,
    fun other known waits => ?_, ?_, queue.2, fun one member given_ => ?_, fun one member => ?_,
    inv.stamped, fun one came seqNo number => ?_, nofun⟩
  · rw [same]
    exact inv.single other
  · rw [same] at some
    exact inv.known other some
  · rw [same]
    exact inv.gone other member
  · rw [same] at somewhere
    exact inv.live other somewhere
  · rcases mem_cons.1 (given.mem_iff.1 member) with rfl | old
    · exact suits
    · exact inv.suits entry old
  · obtain ⟨call, registered | handed | ended⟩ := inv.waiting other known waits
    · obtain ⟨entry, member, rfl⟩ := mem_map.1 registered
      refine ⟨call, ?_⟩
      obtain stays | rfl := others entry member
      · exact .inl (mem_map_of_mem stays)
      · exact .inr (.inl (mem_map.2 ⟨(_, packet), mem_append_right _ mem_cons_self, rfl⟩))
    · refine ⟨call, .inr (.inl ?_)⟩
      rw [pairs, map_append]
      exact mem_append_left _ handed
    · exact ⟨call, .inr (.inr ended)⟩
  · rw [(given.map _).nodup_iff, map_cons, nodup_cons]
    exact ⟨new, inv.once⟩
  · rcases mem_cons.1 ((given.map _).mem_iff.1 given_) with equal | earlier
    · exact absurd (equal ▸ mem_map_of_mem member) queue.1
    · exact inv.early one (old member) earlier
  · rcases mem_append.1 member with queued | handed
    · exact inv.arrived one (mem_append_left _ (old queued))
    · rcases mem_cons.1 ((given.map _).mem_iff.1 handed) with rfl | earlier
      · exact inv.arrived _ (mem_append_left _ here)
      · exact inv.arrived one (mem_append_right _ earlier)
  · obtain queued | handed | ended := inv.accounted one came seqNo number
    · rcases mem_append.1 queued with buf | later
      · exact .inl (mem_append_left _ buf)
      · rcases mem_cons.1 later with rfl | later
        · refine .inr (.inl (mem_map.2 ⟨(irp, one), ?_, rfl⟩))
          exact mem_append_right _ mem_cons_self
        · exact .inl (mem_append_right _ later)
    · refine .inr (.inl ?_)
      rw [pairs, map_append]
      exact mem_append_left _ handed
    · exact .inr (.inr ended)

theorem setPhase (inv : state.Inv kind pending) {phase : CtrlPhase}
    (same : phase.pairs = state.phase.pairs) (current : phase.current = []) :
    ({ state with phase := phase } : ControlState).Inv kind pending := by
  have placed (irp : Nat) : ({ state with phase := phase } : ControlState).placed irp = state.placed irp := by
    simp only [ControlState.placed, same]
  have given : ({ state with phase := phase } : ControlState).given = state.given := by
    rw [ControlState.given, ControlState.given, same]
    rfl
  refine ⟨?_, ?_, ?_, ?_, inv.final, inv.numbers, inv.sending, inv.registered, inv.listening, ?_, ?_,
    ?_, inv.queue, ?_, ?_, inv.stamped, ?_, ?_⟩
  · simp only [placed]
    exact inv.single
  · simp only [placed]
    exact inv.known
  · simp only [placed]
    exact inv.gone
  · simp only [placed]
    exact inv.live
  · rw [given]
    exact inv.suits
  · simp only [same]
    exact inv.waiting
  · rw [given]
    exact inv.once
  · rw [given]
    exact inv.early
  · rw [given]
    exact inv.arrived
  · simp only [same]
    exact inv.accounted
  · simp only [current]
    exact nofun

theorem arrive (inv : state.Inv kind []) (packetKind : PacketKind) :
    ({ state with
        bufs := state.bufs ++ [⟨state.arrived.length, packetKind⟩]
        arrived := state.arrived ++ [⟨state.arrived.length, packetKind⟩] } :
      ControlState).Inv kind [] := by
  have known {one : CtrlPacket} (member : one ∈ state.bufs ++ [] ++ state.given.map Prod.snd) :
      one.id ≠ state.arrived.length := Nat.ne_of_lt (inv.stamped one (inv.arrived one member))
  have queue := inv.queue
  rw [append_nil] at queue
  refine ⟨inv.single, inv.known, inv.gone, inv.live, inv.final, inv.numbers, inv.sending,
    inv.registered, inv.listening, inv.suits, inv.waiting, inv.once, ?_, fun one member given => ?_,
    fun one member => ?_, fun one member => ?_, fun one came seqNo number => ?_, inv.current⟩
  · rw [append_nil, map_append]
    refine queue.append (nodup_singleton _) (disjoint_singleton.2 fun member => ?_)
    obtain ⟨one, queued, same⟩ := mem_map.1 member
    refine known (mem_append_left _ ?_) same
    rw [append_nil]
    exact queued
  · rw [append_nil] at member
    rcases mem_append.1 member with old | last
    · refine inv.early one ?_ given
      rw [append_nil]
      exact old
    · rw [mem_singleton.1 last] at given
      obtain ⟨entry, delivered, same⟩ := mem_map.1 given
      exact absurd same (known (mem_append_right _ (mem_map_of_mem delivered)))
  · rw [append_nil] at member
    rcases mem_append.1 member with queued | handed
    · rcases mem_append.1 queued with old | last
      · refine mem_append_left _ (inv.arrived one (mem_append_left _ ?_))
        rw [append_nil]
        exact old
      · exact mem_append_right _ last
    · exact mem_append_left _ (inv.arrived one (mem_append_right _ handed))
  · rw [length_append, length_singleton]
    rcases mem_append.1 member with old | last
    · exact Nat.lt_succ_of_lt (inv.stamped one old)
    · rw [mem_singleton.1 last]
      exact Nat.lt_succ_self _
  · rcases mem_append.1 came with old | last
    · refine (inv.accounted one old seqNo number).imp_left fun queued => ?_
      rw [append_nil] at queued ⊢
      exact mem_append_left _ queued
    · refine .inl ?_
      rw [append_nil]
      exact mem_append_right _ last

theorem entry_eq (inv : state.Inv kind pending) {entry other : Nat × Nat}
    (member : entry ∈ state.forResp) (otherMember : other ∈ state.forResp)
    (same : entry.1 = other.1) : entry.2 = other.2 := by
  obtain ⟨call, number⟩ := inv.registered entry member
  obtain ⟨otherCall, otherNumber⟩ := inv.registered other otherMember
  refine inv.numbers entry.2 ?_ other.2 ?_ call otherCall (by rw [number, otherNumber, same])
  · exact inv.known _ (.inl (placed_of_registered (mem_map_of_mem member)))
  · exact inv.known _ (.inl (placed_of_registered (mem_map_of_mem otherMember)))

theorem count_eraseKey (inv : state.Inv kind pending) {entry : Nat × Nat}
    (member : entry ∈ state.forResp) (irp : Nat) :
    ((state.eraseKey entry.1).forResp.map Prod.snd).count irp + List.count irp [entry.2] =
      (state.forResp.map Prod.snd).count irp := by
  have single := inv.single irp
  have counted (entries : List (Nat × Nat)) :
      (entries.map Prod.snd).count irp = entries.countP fun other => other.2 == irp := by
    rw [count_eq_countP, countP_map]
    rfl
  rw [eraseKey]
  by_cases same : irp = entry.2
  · subst same
    have some := count_pos_iff.2 (mem_map_of_mem (f := Prod.snd) member)
    have none : ((state.forResp.filter fun other => other.1 != entry.1).map Prod.snd).count entry.2 =
        0 := by
      refine count_eq_zero.2 fun stays => ?_
      obtain ⟨other, filtered, same⟩ := mem_map.1 stays
      obtain ⟨listed, apart⟩ := mem_filter.1 filtered
      have number := (inv.registered other listed).2
      rw [same, (inv.registered entry member).2] at number
      rw [number] at apart
      simp at apart
    rw [none, count_singleton_self]
    simp only [placed] at single
    omega
  · rw [count_eq_zero.2 fun equal => same (mem_singleton.1 equal), Nat.add_zero, counted,
      counted, countP_filter]
    refine countP_congr fun other listed => ?_
    rw [Bool.and_eq_true]
    refine ⟨And.left, fun equal => ⟨equal, ?_⟩⟩
    rw [bne_iff_ne]
    exact fun key => same ((beq_iff_eq.1 equal) ▸ (inv.entry_eq listed member key))

theorem collectPacket (inv : state.Inv kind (packet :: pending)) :
    (state.collectPacket packet).Inv kind pending := by
  have here : packet ∈ state.bufs ++ packet :: pending :=
    mem_append_right _ mem_cons_self
  have putBack : ({ state with bufs := state.bufs ++ [packet] } : ControlState).Inv kind pending := by
    refine inv.drop ?_ fun one member _ _ => ?_
    · rw [append_assoc]
      exact List.Sublist.refl _
    · rw [append_assoc]
      exact member
  have discard (nothing : ∀ seqNo, packet.kind ≠ .methodReturn (some seqNo)) : state.Inv kind pending := by
    refine inv.drop ((List.Sublist.refl _).append (sublist_cons_self _ _)) ?_
    intro one member seqNo number
    rcases mem_append.1 member with buf | later
    · exact mem_append_left _ buf
    · rcases mem_cons.1 later with rfl | later
      · exact absurd number (nothing seqNo)
      · exact mem_append_right _ later
  unfold ControlState.collectPacket
  split
  · next one event =>
      split
      · exact putBack
      · next irp reads queue =>
          have first : irp ∈ state.reads one := by rw [queue]; exact mem_cons_self
          obtain ⟨rfl, listening⟩ := inv.listening one irp first
          refine inv.take (fun other => ?_) (List.Subset.refl _) (fun two => ?_)
            (fun entry member => .inl member) ?_ (inv.not_given_of_event here event)
          · cases one <;>
              simp only [placed, queue, Function.update_self, ne_eq, reduceCtorEq,
                not_false_eq_true, Function.update_of_ne, count_cons, count_nil] <;> omega
          · by_cases same : two = one
            · subst same
              rw [Function.update_self, queue]
              exact subset_cons_self _ _
            · rw [Function.update_of_ne same]
              exact List.Subset.refl _
          · rw [CtrlIrp.Suits, if_pos listening]
            exact event
  · next seqNo number =>
      split
      · exact putBack
      · next entry found =>
          have member := mem_of_find?_eq_some found
          obtain rfl : entry.1 = seqNo := by simpa using List.find?_some found
          obtain ⟨call, same⟩ := inv.registered entry member
          have placed := placed_of_registered (mem_map_of_mem (f := Prod.snd) member)
          have single := inv.single entry.2
          refine inv.take (fun other => ?_) (fun _ stays => mem_of_mem_filter stays)
            (fun _ => List.Subset.refl _) (fun other listed => ?_) ?_ ?_
          · have counted := inv.count_eraseKey member other
            simp only [ControlState.placed, eraseKey] at counted ⊢
            omega
          · by_cases key : other.1 = entry.1
            · exact .inr (inv.entry_eq listed member key)
            · exact .inl (mem_filter.2 ⟨listed, bne_iff_ne.2 key⟩)
          · rw [CtrlIrp.Suits, if_neg (by rw [call]; nofun), same]
            exact ⟨call, number⟩
          · refine inv.not_given_of_number here (inv.known _ (.inl placed)) call (same ▸ number) ?_
            refine fun answered => ?_
            have positive := count_pos_iff.2 answered
            omega
  · next same => exact discard fun seqNo number => by rw [same] at number; cases number
  · next same => exact discard fun seqNo number => by rw [same] at number; cases number

theorem foldl_collectPacket {packets : List CtrlPacket} :
    ∀ {state : ControlState}, state.Inv kind packets →
      (packets.foldl ControlState.collectPacket state).Inv kind [] := by
  induction packets with
  | nil => exact fun inv => inv
  | cons packet packets ih =>
    exact fun inv => ih inv.collectPacket

theorem getReadIrpsToComp (inv : state.Inv kind []) (received : state.phase = .received) :
    state.getReadIrpsToComp.Inv kind [] := by
  have inHand : ({ state with phase := .responding [] } : ControlState).Inv kind [] :=
    inv.setPhase (by rw [received]; rfl) rfl
  rw [ControlState.getReadIrpsToComp]
  split
  · exact inHand
  · refine foldl_collectPacket ?_
    refine inHand.drop ?_ fun one member _ _ => ?_
    · exact (append_nil state.bufs).symm ▸ List.Sublist.refl _
    · exact (append_nil state.bufs) ▸ member

theorem setSeqNo (inv : state.Inv kind pending) (seqNo : Nat) :
    ({ state with seqNo := seqNo } : ControlState).Inv kind pending :=
  { inv with }

theorem submit (inv : state.Inv kind pending) (new : irp ∉ state.submitted)
    (request : CtrlIrp) (waits : request.waits = false)
    (number : request.kind = .call → ∀ other ∈ state.submitted, (state.irp other).kind = .call →
      (state.irp other).seqNo ≠ request.seqNo) (seqNo : Nat) :
    ({ state with submitted := irp :: state.submitted, seqNo := seqNo }.setIrp irp request :
        ControlState).Inv kind pending ∧
      Nowhere ({ state with submitted := irp :: state.submitted, seqNo := seqNo }.setIrp irp request)
        irp := by
  have nowhere := inv.nowhere_of_new new
  exact ⟨(inv.newcomer new waits number).setSeqNo seqNo, { nowhere with }⟩

theorem handleIoctl (inv : state.Inv kind []) {ctrl : CtrlKind}
    (new : irp ∉ state.submitted) (sends : ctrl ≠ .listening)
    (fits : (CtrlMove.request irp ctrl).Fits kind state) :
    (state.handleIoctl irp ctrl).Inv kind [] := by
  have number : ctrl = .call → ∀ other ∈ state.submitted, (state.irp other).kind = .call →
      (state.irp other).seqNo ≠ state.seqNo := by
    intro call other known otherCall
    exact ((fits.resolve_left (not_not_intro call)) other known).resolve_left (not_not_intro otherCall)
  have numbered : ∃ seqNo, (if ctrl = .reply then state
      else { state with seqNo := (state.seqNo + 1) % 0x100000000 }) = { state with seqNo := seqNo } := by
    split
    · exact ⟨state.seqNo, rfl⟩
    · exact ⟨_, rfl⟩
  obtain ⟨seqNo, numbered⟩ := numbered
  unfold ControlState.handleIoctl
  rw [numbered]
  split
  · exact (inv.submit new _ rfl number seqNo).1
  · obtain ⟨queued, nowhere⟩ := inv.submit new ⟨ctrl, state.seqNo, false, .ready⟩ rfl number seqNo
    refine queued.enter nowhere mem_cons_self ?_ (fun other => ?_) (fun other member => ?_)
      (fun entry member => .inl member) (fun one other member => .inl member) (List.Subset.refl _)
    · rw [setIrp_self]
    · simp only [placed, setIrp, count_append]
      omega
    · rcases mem_append.1 member with old | last
      · exact .inl old
      · refine .inr ⟨mem_singleton.1 last, ?_⟩
        rw [setIrp_self]
        exact ⟨sends, rfl⟩

theorem listen (inv : state.Inv kind []) (new : irp ∉ state.submitted) :
    (({ state with submitted := irp :: state.submitted }.setIrp irp ⟨.listening, 0, false, .ready⟩).setReads
      kind (state.reads kind ++ [irp])).Inv kind [] := by
  obtain ⟨queued, nowhere⟩ := inv.submit new ⟨.listening, 0, false, .ready⟩ rfl nofun state.seqNo
  refine queued.enter nowhere mem_cons_self ?_ (fun other => ?_) (fun other member => .inl member)
    (fun entry member => .inl member) (fun one other member => ?_) (List.Subset.refl _)
  · rw [setIrp_self]
  · cases kind <;> simp [placed, setIrp, count_append] <;> omega
  · by_cases same : one = kind
    · subst same
      rw [Function.update_self] at member
      rcases mem_append.1 member with old | last
      · exact .inl old
      · refine .inr ⟨mem_singleton.1 last, rfl, ?_⟩
        rw [setIrp_self]
    · rw [Function.update_of_ne same] at member
      exact .inl member

theorem handleListening (inv : state.Inv kind []) (new : irp ∉ state.submitted) :
    (state.handleListening kind irp).Inv kind [] := by
  unfold ControlState.handleListening
  simp only
  split
  · exact inv.listen new
  · obtain ⟨none, _⟩ | ⟨front, rest, bufs, event, some⟩ := matchFront_spec kind state.bufs
    · rw [none]
      exact inv.listen new
    · rw [some]
      have submitted := inv.submit new ⟨.listening, 0, false, .completed⟩ rfl nofun state.seqNo
      obtain ⟨known, nowhere⟩ := submitted
      have member : front ∈ state.bufs ++ [] := by
        rw [bufs]
        exact mem_append_left _ mem_cons_self
      have fewer : (rest ++ []).Sublist (state.bufs ++ []) := by
        rw [bufs, append_nil, append_nil]
        exact sublist_cons_self _ _
      have dropped := known.drop fewer fun one listed seqNo number => by
        rw [bufs, append_nil] at listed
        rcases mem_cons.1 listed with rfl | later
        · rw [event] at number
          cases number
        · exact mem_append_left _ later
      refine dropped.answer nowhere.placed nowhere.answered nowhere.removed mem_cons_self ?_
        (inv.not_given_of_event member event) (inv.arrived front (mem_append_left _ member)) ?_
      · show CtrlIrp.Suits kind (({ state with submitted := irp :: state.submitted }.setIrp irp
          ⟨.listening, 0, false, .completed⟩).irp irp) front
        rw [setIrp_self]
        exact event
      · intro one later same
        have queue := inv.queue
        rw [bufs, append_nil, map_cons, nodup_cons] at queue
        rw [append_nil] at later
        exact absurd (same ▸ mem_map_of_mem later) queue.1

theorem comeBack (inv : state.Inv kind []) (sent : irp ∈ state.lower)
    (ready : (state.irp irp).state = .ready) :
    ({ state with lower := state.lower.erase irp } : ControlState).Inv kind [] ∧
      Nowhere { state with lower := state.lower.erase irp } irp := by
  have member : irp ∈ state.writes ++ state.lower := mem_append_right _ sent
  have somewhere := placed_of_sending member
  have single := inv.single irp
  have positive := count_pos_iff.2 sent
  have erased (other : Nat) : (state.lower.erase irp).count other ≤ state.lower.count other :=
    erase_sublist.count_le other
  refine ⟨inv.leave (fun other => ?_) ?_ (List.Subset.refl _) (fun _ => List.Subset.refl _)
    fun entry listed => .inl listed, ?_, fun answered => ?_, fun removed => ?_⟩
  · have fewer := erased other
    simp only [placed]
    omega
  · exact ((List.Sublist.refl _).append erase_sublist).subset
  · have mine : (state.lower.erase irp).count irp = state.lower.count irp - 1 :=
      count_erase_self
    simp only [placed] at single ⊢
    omega
  · have given := count_pos_iff.2 answered
    exact absurd single (by
      show ¬ state.placed irp + List.count irp state.answered ≤ 1
      replace given : 0 < List.count irp state.answered := given
      omega)
  · obtain nowhere | busy := inv.gone irp removed
    · omega
    · exact busy ready

theorem queueIrpForResp (inv : state.Inv kind []) (nowhere : Nowhere state irp)
    (submitted : irp ∈ state.submitted) (call : (state.irp irp).kind = .call)
    (ready : (state.irp irp).state = .ready) : (state.queueIrpForResp irp).Inv kind [] := by
  have unsent : irp ∉ state.writes ++ state.lower := by
    intro member
    have somewhere := placed_of_sending member
    have placed := nowhere.placed
    omega
  unfold ControlState.queueIrpForResp
  simp only
  split
  · next packet found =>
      have queued : packet ∈ state.bufs ++ [] :=
        mem_append_left _ (mem_of_find?_eq_some found)
      have number : packet.kind = .methodReturn (some (state.irp irp).seqNo) := by
        simpa using List.find?_some found
      have suits : (state.irp irp).Suits kind packet := by
        rw [CtrlIrp.Suits, if_neg (by rw [call]; nofun)]
        exact ⟨call, number⟩
      have answered := inv.answer nowhere.placed nowhere.answered nowhere.removed submitted suits
        (inv.not_given_of_number queued submitted call number nowhere.answered)
        (inv.arrived packet (mem_append_left _ queued)) fun one listed same => by
          rw [inj_on_of_nodup_map inv.queue listed queued same]
          exact ⟨call, number⟩
      refine answered.setRecord rfl rfl unsent call (.inr ?_) (.inr nowhere.placed) ?_
      · rw [ControlState.answered, delivered_record, map_append]
        exact mem_append_right _ mem_cons_self
      · rw [removed_record]
        exact fun removed => (mem_append.1 removed).elim nowhere.removed nofun
  · have unregistered : ∀ entry ∈ state.forResp, (entry.1 != (state.irp irp).seqNo) = true := by
      intro entry member
      rw [bne_iff_ne]
      intro same
      obtain ⟨otherCall, number⟩ := inv.registered entry member
      have somewhere := placed_of_registered (mem_map_of_mem (f := Prod.snd) member)
      have known := inv.known entry.2 (.inl somewhere)
      have equal := inv.numbers entry.2 known irp submitted otherCall call (number.trans same)
      have placed := nowhere.placed
      rw [equal] at somewhere
      omega
    have kept : state.forResp.filter (fun entry => entry.1 != (state.irp irp).seqNo) = state.forResp :=
      filter_eq_self.2 unregistered
    have registered : ({ state with
        forResp := state.forResp ++ [((state.irp irp).seqNo, irp)] } : ControlState).Inv kind [] := by
      refine inv.enter nowhere submitted ready (fun other => ?_) (fun other member => .inl member)
        (fun entry member => ?_) (fun one other member => .inl member) (subset_append_left _ _)
      · simp only [placed, map_append, count_append, map_cons, map_nil]
        omega
      · rcases mem_append.1 member with old | last
        · exact .inl old
        · rw [mem_singleton.1 last]
          exact .inr ⟨rfl, call, rfl⟩
    rw [eraseKey]
    show ControlState.Inv kind { (state.setIrp irp { state.irp irp with waits := true }) with
      forResp := state.forResp.filter (fun entry => entry.1 != (state.irp irp).seqNo) ++
        [((state.irp irp).seqNo, irp)] } []
    rw [kept]
    refine registered.setRecord rfl rfl unsent call (.inl ?_) (.inl ready) nowhere.removed
    rw [map_append]
    exact mem_append_right _ mem_cons_self

theorem completeIoctl (inv : state.Inv kind []) (sent : irp ∈ state.lower)
    (ready : (state.irp irp).state = .ready) (ok : Bool) :
    (state.completeIoctl irp ok).Inv kind [] := by
  obtain ⟨back, nowhere⟩ := inv.comeBack sent ready
  have submitted : irp ∈ state.submitted :=
    inv.known irp (.inl (placed_of_sending (mem_append_right _ sent)))
  unfold ControlState.completeIoctl
  simp only
  split
  · next waits => exact back.queueIrpForResp nowhere submitted waits.2 ready
  · refine back.setState (fun somewhere => ?_) fun _ => .inl nowhere.placed
    have placed := nowhere.placed
    omega

theorem startSend (inv : state.Inv kind [])
    (queue : state.writes = irp :: writes) :
    ({ state with writes := writes, lower := state.lower ++ [irp] } : ControlState).Inv kind [] := by
  refine inv.leave (fun other => ?_) (fun other member => ?_) (List.Subset.refl _)
    (fun _ => List.Subset.refl _) fun entry listed => .inl listed
  · simp only [placed, queue, count_append, count_cons, count_nil]
    omega
  · rw [queue]
    simp only [mem_append, mem_cons, not_mem_nil, or_false] at member ⊢
    tauto

theorem recvPacket (inv : state.Inv kind []) (packetKind : PacketKind) (idle : state.phase = .idle)
    (fits : state.bufs.length < stmMaxRecvPackets) : (state.recvPacket packetKind).Inv kind [] := by
  unfold ControlState.recvPacket
  simp only
  rw [if_neg (by rw [length_append, length_singleton]; omega)]
  exact (inv.arrive packetKind).setPhase (by rw [idle]; rfl) rfl

theorem dispatch (inv : state.Inv kind []) {next : ControlState}
    (moved : state.dispatch = some next) :
    next.Inv kind [] := by
  unfold ControlState.dispatch at moved
  split at moved
  · cases moved
  · next received =>
      cases moved
      exact inv.getReadIrpsToComp received
  · next phase =>
      cases moved
      exact inv.setPhase (by rw [phase]; rfl) rfl
  · next irp packet pairs phase =>
      have handed : irp ∈ state.phase.pairs.map Prod.fst := by
        rw [phase]
        exact mem_cons_self
      have somewhere := placed_of_handed handed
      obtain ⟨busy, moved⟩ := Option.ite_none_left_eq_some.1 moved
      by_cases ready : (state.irp irp).state = .ready
      · rw [ready, IrpState.canContinue_ready, if_neg (by decide)] at moved
        cases moved
        refine inv.deliver phase fun removed => ?_
        obtain nowhere | busy := inv.gone irp removed
        · omega
        · exact busy ready
      · rw [if_pos (IrpState.canContinue_of_ne ready .ready).1] at moved
        cases moved
        refine inv.skip phase ?_
        exact ((inv.live irp somewhere).resolve_left ready).resolve_left busy
  · next irp pairs phase =>
      have inHand : ({ state with phase := .responding pairs } : ControlState).Inv kind [] :=
        inv.setPhase (by rw [phase]; rfl) rfl
      split at moved
      · cases moved
      · split at moved
        · next ready =>
            cases moved
            have answered := inv.current irp (by rw [phase]; exact mem_cons_self)
            have single := inHand.single irp
            have positive := count_pos_iff.2 answered
            have nowhere : ({ state with phase := .responding pairs } : ControlState).placed irp = 0 := by
              replace single : _ + List.count irp state.answered ≤ 1 := single
              omega
            refine inHand.setState (fun somewhere => ?_) fun _ => .inl nowhere
            omega
        · cases moved
          exact inHand

theorem cancelBegin (inv : state.Inv kind []) (irp : Nat) : (state.setState irp .cancelling).Inv kind [] := by
  refine inv.setState (fun _ => .inr (.inl rfl)) fun removed => ?_
  exact (inv.gone irp removed).imp_right fun _ => nofun

theorem removeIrpFromMap (removed : (state.record [.removed irp]).Inv kind [])
    (submitted : irp ∈ state.submitted) : (state.removeIrpFromMap kind irp).Inv kind [] := by
  have here : irp ∈ (state.record [.removed irp]).removed := by
    rw [removed_record]
    exact mem_append_right _ mem_cons_self
  have erased (queue : List Nat) (other : Nat) : (queue.erase irp).count other ≤ queue.count other :=
    erase_sublist.count_le other
  unfold ControlState.removeIrpFromMap
  simp only
  split
  · refine removed.leave (fun other => ?_) (List.Subset.refl _) (List.Subset.refl _) (fun one => ?_)
      fun entry listed => .inl listed
    · have fewer := erased (state.reads kind) other
      cases kind <;> simp [placed, record] <;> omega
    · by_cases same : one = kind
      · subst same
        rw [Function.update_self]
        exact erase_subset
      · rw [Function.update_of_ne same]
        exact List.Subset.refl _
  · split
    · next waits =>
        obtain ⟨call, _⟩ := removed.waiting irp submitted waits
        refine removed.leave (fun other => ?_) (List.Subset.refl _)
          (fun _ stays => mem_of_mem_filter stays) (fun _ => List.Subset.refl _)
          fun entry listed => ?_
        · have fewer := (filter_sublist (p := fun entry => entry.1 != (state.irp irp).seqNo)
            (l := state.forResp)).map Prod.snd |>.count_le other
          simp only [placed, record] at fewer ⊢
          omega
        · by_cases key : entry.1 = (state.irp irp).seqNo
          · refine .inr ?_
            obtain ⟨otherCall, number⟩ := removed.registered entry listed
            have known := removed.known entry.2 (.inl (placed_of_registered (mem_map_of_mem listed)))
            rw [removed.numbers entry.2 known irp submitted otherCall call (number.trans key)]
            exact here
          · exact .inl (mem_filter.2 ⟨listed, bne_iff_ne.2 key⟩)
    · have fewerLower := erased state.lower
      have fewerWrites := erased state.writes
      split
      · refine removed.leave (fun other => ?_) ?_ (List.Subset.refl _) (fun _ => List.Subset.refl _)
          fun entry listed => .inl listed
        · have fewer := fewerLower other
          simp only [placed, record]
          omega
        · exact ((List.Sublist.refl _).append erase_sublist).subset
      · refine removed.leave (fun other => ?_) ?_ (List.Subset.refl _) (fun _ => List.Subset.refl _)
          fun entry listed => .inl listed
        · have fewer := fewerLower other
          have fewerToo := fewerWrites other
          simp only [placed, record]
          omega
        · exact (erase_sublist.append erase_sublist).subset

theorem cancelEnd (inv : state.Inv kind []) (submitted : irp ∈ state.submitted)
    (cancelling : (state.irp irp).state = .cancelling) :
    ((state.setState irp .cancelled).removeIrpFromMap kind irp).Inv kind [] := by
  have removed : (state.record [.removed irp]).Inv kind [] := by
    refine inv.remove (forall_mem_singleton.2 submitted) (forall_mem_singleton.2 (.inr ?_))
    rw [cancelling]
    nofun
  have cancelled : ((state.record [.removed irp]).setState irp .cancelled).Inv kind [] := by
    refine removed.setState (fun _ => .inr (.inr ?_)) fun _ => .inr nofun
    rw [removed_record]
    exact mem_append_right _ mem_cons_self
  exact removeIrpFromMap cancelled submitted

theorem clear (inv : state.Inv kind []) (empty : state.forResp = []) :
    state.clearAllIrpsQueued.Inv kind [] := by
  have cleared : ({ state with reads := fun _ => [], writes := [] } : ControlState).Inv kind [] := by
    refine inv.leave (fun irp => ?_) (subset_append_right _ _) (List.Subset.refl _)
      (fun _ => nil_subset _) fun entry listed => .inl listed
    simp only [placed, count_nil]
    omega
  have listed (irp : Nat) (member : irp ∈ state.allIrpsQueued) :
      irp ∈ state.reads .methodCall ∨ irp ∈ state.writes ∨ irp ∈ state.reads .signal := by
    rw [allIrpsQueued, empty] at member
    simp only [mem_append, map_nil, not_mem_nil, or_false] at member
    tauto
  refine cleared.remove (fun irp member => inv.known irp (.inl ?_)) fun irp member => .inl ?_
  · obtain call | write | event := listed irp member
    · exact placed_of_listening call
    · exact placed_of_sending (mem_append_left _ write)
    · exact placed_of_listening event
  · have single := inv.single irp
    simp only [placed, count_nil] at single ⊢
    obtain call | write | event := listed irp member
    · have positive := count_pos_iff.2 call
      omega
    · have positive := count_pos_iff.2 write
      omega
    · have positive := count_pos_iff.2 event
      omega

theorem step (inv : state.Inv kind []) {move : CtrlMove} (fits : move.Fits kind state)
    {next : ControlState} (moved : state.step kind move = some next) : next.Inv kind [] := by
  cases move with
  | request irp ctrl =>
    obtain ⟨enabled, ⟨⟩⟩ := Option.ite_none_right_eq_some.1 moved
    exact inv.handleIoctl enabled.1 enabled.2 fits
  | listen irp =>
    obtain ⟨new, ⟨⟩⟩ := Option.ite_none_right_eq_some.1 moved
    exact inv.handleListening new
  | startSend =>
    rw [ControlState.step] at moved
    cases queue : state.writes with
    | nil =>
      rw [queue] at moved
      cases moved
    | cons irp writes =>
      rw [queue] at moved
      cases moved
      exact inv.startSend queue
  | sent irp ok =>
    obtain ⟨enabled, ⟨⟩⟩ := Option.ite_none_right_eq_some.1 moved
    exact inv.completeIoctl enabled.1 enabled.2 ok
  | recvPacket packetKind =>
    obtain ⟨idle, ⟨⟩⟩ := Option.ite_none_right_eq_some.1 moved
    exact inv.recvPacket packetKind idle fits
  | dispatch => exact inv.dispatch moved
  | cancelBegin irp =>
    obtain ⟨enabled, ⟨⟩⟩ := Option.ite_none_right_eq_some.1 moved
    exact inv.cancelBegin irp
  | cancelEnd irp =>
    obtain ⟨enabled, ⟨⟩⟩ := Option.ite_none_right_eq_some.1 moved
    exact inv.cancelEnd enabled.1 enabled.2
  | clear =>
    cases moved
    exact inv.clear fits

end Inv

/-! ### What waits and what is there -/

theorem handleIoctl_phase (state : ControlState) (irp : Nat) (ctrl : CtrlKind) :
    (state.handleIoctl irp ctrl).phase = state.phase := by
  unfold handleIoctl
  split <;> split <;> rfl

theorem handleListening_phase (state : ControlState) (kind : ListenKind) (irp : Nat) :
    (state.handleListening kind irp).phase = state.phase := by
  unfold handleListening
  simp only
  split
  · rfl
  · split <;> rfl

theorem completeIoctl_phase (state : ControlState) (irp : Nat) (ok : Bool) :
    (state.completeIoctl irp ok).phase = state.phase := by
  unfold completeIoctl
  simp only
  split
  · unfold queueIrpForResp
    simp only
    split <;> rfl
  · rfl

theorem removeIrpFromMap_phase (state : ControlState) (kind : ListenKind) (irp : Nat) :
    (state.removeIrpFromMap kind irp).phase = state.phase := by
  unfold removeIrpFromMap
  simp only
  split
  · rfl
  · split
    · rfl
    · split <;> rfl

namespace Apart

variable {kind : ListenKind} {state next : ControlState}

theorem fewer (apart : state.Apart) (bufs : next.bufs ⊆ state.bufs)
    (forResp : next.forResp ⊆ state.forResp) (reads : ∀ one, next.reads one ⊆ state.reads one) :
    next.Apart := by
  refine ⟨fun packet queued entry listed => ?_, fun packet queued one event => ?_⟩
  · exact apart.responses packet (bufs queued) entry (forResp listed)
  · have empty := apart.events packet (bufs queued) one event
    exact subset_nil.1 (empty ▸ reads one)

theorem putBack (apart : state.Apart) {packet : CtrlPacket}
    (responses : ∀ entry ∈ state.forResp, packet.kind ≠ .methodReturn (some entry.1))
    (events : ∀ one, packet.kind = .event one → state.reads one = []) :
    ({ state with bufs := state.bufs ++ [packet] } : ControlState).Apart := by
  refine ⟨fun other queued entry listed => ?_, fun other queued one event => ?_⟩
  · rcases mem_append.1 queued with old | last
    · exact apart.responses other old entry listed
    · rw [mem_singleton.1 last]
      exact responses entry listed
  · rcases mem_append.1 queued with old | last
    · exact apart.events other old one event
    · rw [mem_singleton.1 last] at event
      exact events one event

theorem collectPacket (apart : state.Apart) (packet : CtrlPacket) : (state.collectPacket packet).Apart := by
  unfold ControlState.collectPacket
  split
  · next one event =>
      split
      · next empty =>
          refine apart.putBack (fun entry _ => ?_) fun two same => ?_
          · rw [event]
            nofun
          · rw [event] at same
            cases same
            exact empty
      · next irp reads queue =>
          refine apart.fewer (List.Subset.refl _) (List.Subset.refl _) fun two => ?_
          show Function.update state.reads one reads two ⊆ state.reads two
          by_cases same : two = one
          · subst same
            rw [Function.update_self, queue]
            exact subset_cons_self _ _
          · rw [Function.update_of_ne same]
            exact List.Subset.refl _
  · next seqNo number =>
      split
      · next none =>
          refine apart.putBack (fun entry listed same => ?_) fun two same => ?_
          · rw [number] at same
            have key := Option.some.inj (PacketKind.methodReturn.inj same)
            have absent := List.find?_eq_none.1 none entry listed
            exact absent (decide_eq_true key.symm)
          · rw [number] at same
            cases same
      · exact apart.fewer (List.Subset.refl _) (fun _ stays => mem_of_mem_filter stays)
          fun _ => List.Subset.refl _
  · exact apart
  · exact apart

theorem foldl_collectPacket {packets : List CtrlPacket} :
    ∀ {state : ControlState}, state.Apart → (packets.foldl ControlState.collectPacket state).Apart := by
  induction packets with
  | nil => exact fun apart => apart
  | cons packet packets ih =>
    exact fun apart => ih (apart.collectPacket packet)

theorem of_getReadIrpsToComp (state : ControlState) : state.getReadIrpsToComp.Apart := by
  rw [ControlState.getReadIrpsToComp]
  split
  · next nothing =>
      obtain ⟨quiet, unregistered⟩ | empty := nothing
      · refine ⟨fun _ _ entry listed => ?_, fun _ _ one _ => quiet one (by cases one <;> decide)⟩
        rw [show state.forResp = [] from unregistered] at listed
        cases listed
      · have none (packet : CtrlPacket) (queued : packet ∈ state.bufs) : False := by
          rw [empty] at queued
          cases queued
        exact ⟨fun packet queued => (none packet queued).elim, fun packet queued => (none packet queued).elim⟩
  · exact foldl_collectPacket ⟨nofun, nofun⟩

theorem completeIoctl (apart : state.Apart) (irp : Nat) (ok : Bool) : (state.completeIoctl irp ok).Apart := by
  unfold ControlState.completeIoctl
  simp only
  split
  · unfold ControlState.queueIrpForResp
    simp only
    split
    · exact ⟨apart.responses, apart.events⟩
    · next none =>
        refine ⟨fun packet queued entry listed => ?_, apart.events⟩
        rcases mem_append.1 listed with old | last
        · exact apart.responses packet queued entry (mem_of_mem_filter old)
        · rw [mem_singleton.1 last]
          have absent := List.find?_eq_none.1 none packet queued
          exact fun same => absent (decide_eq_true same)
  · exact ⟨apart.responses, apart.events⟩

theorem handleIoctl (apart : state.Apart) (irp : Nat) (ctrl : CtrlKind) :
    (state.handleIoctl irp ctrl).Apart := by
  unfold ControlState.handleIoctl
  split <;> split <;> exact ⟨apart.responses, apart.events⟩

theorem handleListening (apart : state.Apart) (irp : Nat)
    (fits : .event kind ∉ state.bufs.map CtrlPacket.kind ∨
      (state.bufs.map CtrlPacket.kind).head? = some (.event kind)) :
    (state.handleListening kind irp).Apart := by
  have waits (request : CtrlIrp) (absent : .event kind ∉ state.bufs.map CtrlPacket.kind) :
      (({ state with submitted := irp :: state.submitted }.setIrp irp request).setReads kind
        (state.reads kind ++ [irp])).Apart := by
    refine ⟨apart.responses, fun packet queued one event => ?_⟩
    have other : one ≠ kind := by
      intro same
      exact absent (mem_map.2 ⟨packet, queued, same ▸ event⟩)
    show Function.update state.reads kind (state.reads kind ++ [irp]) one = []
    rw [Function.update_of_ne other]
    exact apart.events packet queued one event
  have absent_of_waiting (some : state.reads kind ≠ []) : .event kind ∉ state.bufs.map CtrlPacket.kind := by
    intro member
    obtain ⟨packet, queued, event⟩ := mem_map.1 member
    exact some (apart.events packet queued kind event)
  unfold ControlState.handleListening
  simp only
  split
  · next early =>
      refine waits _ ?_
      obtain empty | some := early
      · rw [show state.bufs = [] from empty]
        exact not_mem_nil
      · exact absent_of_waiting some
  · obtain ⟨none, otherFront⟩ | ⟨front, rest, bufs, event, some⟩ :=
      matchFront_spec kind state.bufs
    · rw [none]
      exact waits _ (fits.resolve_right otherFront)
    · rw [some]
      refine apart.fewer ?_ (List.Subset.refl _) fun _ => List.Subset.refl _
      show rest ⊆ state.bufs
      rw [bufs]
      exact subset_cons_self _ _

theorem removeIrpFromMap (apart : state.Apart) (irp : Nat) : (state.removeIrpFromMap kind irp).Apart := by
  unfold ControlState.removeIrpFromMap
  simp only
  split
  · refine apart.fewer (List.Subset.refl _) (List.Subset.refl _) fun one => ?_
    show Function.update state.reads kind ((state.reads kind).erase irp) one ⊆ state.reads one
    by_cases same : one = kind
    · subst same
      rw [Function.update_self]
      exact erase_subset
    · rw [Function.update_of_ne same]
      exact List.Subset.refl _
  · split
    · exact apart.fewer (List.Subset.refl _) (fun _ stays => mem_of_mem_filter stays)
        fun _ => List.Subset.refl _
    · split <;> exact ⟨apart.responses, apart.events⟩

theorem dispatch (apart : state.phase ≠ .received → state.Apart)
    (moved : state.dispatch = some next) :
    next.Apart := by
  unfold ControlState.dispatch at moved
  split at moved
  · cases moved
  · cases moved
    exact of_getReadIrpsToComp state
  · next phase =>
      have before := apart (by rw [phase]; nofun)
      cases moved
      exact ⟨before.responses, before.events⟩
  · next irp packet pairs phase =>
      have before := apart (by rw [phase]; nofun)
      split at moved
      · cases moved
      · split at moved <;> cases moved <;> exact ⟨before.responses, before.events⟩
  · next irp pairs phase =>
      have before := apart (by rw [phase]; nofun)
      split at moved
      · cases moved
      · split at moved <;> cases moved <;> exact ⟨before.responses, before.events⟩

theorem step (apart : state.phase ≠ .received → state.Apart) {move : CtrlMove}
    (fits : move.Fits kind state) (moved : state.step kind move = some next) :
    next.phase ≠ .received → next.Apart := by
  intro phase
  cases move with
  | request irp ctrl =>
    obtain ⟨_, ⟨⟩⟩ := Option.ite_none_right_eq_some.1 moved
    rw [handleIoctl_phase] at phase
    exact (apart phase).handleIoctl irp ctrl
  | listen irp =>
    obtain ⟨_, ⟨⟩⟩ := Option.ite_none_right_eq_some.1 moved
    rw [handleListening_phase] at phase
    exact (apart phase).handleListening irp (fits.resolve_left phase)
  | startSend =>
    rw [ControlState.step] at moved
    split at moved
    · cases moved
    · cases moved
      exact ⟨(apart phase).responses, (apart phase).events⟩
  | sent irp ok =>
    obtain ⟨_, ⟨⟩⟩ := Option.ite_none_right_eq_some.1 moved
    rw [completeIoctl_phase] at phase
    exact (apart phase).completeIoctl irp ok
  | recvPacket packetKind =>
    obtain ⟨_, ⟨⟩⟩ := Option.ite_none_right_eq_some.1 moved
    exact absurd rfl phase
  | dispatch => exact dispatch apart moved
  | cancelBegin irp =>
    obtain ⟨_, ⟨⟩⟩ := Option.ite_none_right_eq_some.1 moved
    exact ⟨(apart phase).responses, (apart phase).events⟩
  | cancelEnd irp =>
    obtain ⟨_, ⟨⟩⟩ := Option.ite_none_right_eq_some.1 moved
    rw [removeIrpFromMap_phase] at phase
    have before : (state.setState irp .cancelled).Apart :=
      ⟨(apart phase).responses, (apart phase).events⟩
    exact before.removeIrpFromMap irp
  | clear =>
    cases moved
    exact (apart phase).fewer (List.Subset.refl _) (List.Subset.refl _) fun _ => nil_subset _

end Apart

/-- Between two moves, the queues are kept apart and every request is in its place. -/
def Kept (kind : ListenKind) (state : ControlState) : Prop :=
  state.Inv kind [] ∧ (state.phase ≠ .received → state.Apart)

theorem controlMachine_start (kind : ListenKind) (first : Nat) :
    (controlMachine kind first).start.Kept kind := by
  refine ⟨⟨fun _ => Nat.zero_le 1, fun irp some => ?_, nofun, fun irp some => ?_, List.Pairwise.nil,
    nofun, nofun, nofun, fun _ _ => nofun, nofun, nofun, nodup_nil, nodup_nil, nofun, nofun,
    nofun, nofun, nofun⟩, fun _ => ⟨nofun, nofun⟩⟩
  · obtain placed | never := some
    · cases placed
    · cases never
  · cases some

end ControlState

/-- The control stream, in every run whose steps meet the condition. -/
theorem matched_of_fits {kind : ListenKind} {first : Nat} {state : ControlState}
    (reachable : ((controlMachine kind first).restrict (CtrlMove.Fits kind · ·)).Reachable state) :
    state.Matched kind := by
  have kept : state.Kept kind := by
    refine reachable.invariant (ControlState.controlMachine_start kind first) ?_
    intro before move after _ kept moved
    obtain ⟨fits, stepped⟩ := Machine.restrict_step.1 moved
    exact ⟨kept.1.step fits stepped, ControlState.Apart.step kept.2 fits stepped⟩
  exact kept.1.matched kept.2

/-- The response to the first request comes before the request is registered, the response
to the second one behind; an event comes for a listener that waits. -/
def earlyAndLate : List CtrlMove :=
  [.request 0 .call, .startSend, .recvPacket (.methodReturn (some 7)), .dispatch, .dispatch, .sent 0 true,
    .request 1 .call, .startSend, .sent 1 true, .recvPacket (.methodReturn (some 8)), .dispatch, .dispatch,
    .dispatch, .dispatch, .listen 2, .recvPacket (.event .signal), .dispatch, .dispatch, .dispatch, .dispatch]

theorem matched_earlyAndLate : ∃ state,
    ((controlMachine .signal 7).restrict (CtrlMove.Fits .signal · ·)).run
    (controlMachine .signal 7).start
      earlyAndLate = some state ∧
    state.delivered.map Prod.fst = [0, 1, 2] ∧ state.Matched .signal := by
  have ran : ((controlMachine .signal 7).restrict (CtrlMove.Fits .signal · ·)).run
      (controlMachine .signal 7).start earlyAndLate = some _ := rfl
  exact ⟨_, ran, rfl, matched_of_fits (Machine.Reachable.start.run ran)⟩

/-- A response that comes before its request is registered stays at the front of the queue; a
listener comes behind an event. -/
def listenBehind : List CtrlMove :=
  [.request 0 .call, .startSend, .recvPacket (.methodReturn (some 7)), .dispatch, .dispatch, .sent 0 true,
    .recvPacket (.event .signal), .dispatch, .dispatch, .listen 1]

/-- The listener waits with the event in the queue. -/
theorem listenBehind_waits : ¬ ∀ state, (controlMachine .signal 7).Reachable state →
    state.Matched .signal := by
  intro all
  have ran : (controlMachine .signal 7).run (controlMachine .signal 7).start listenBehind = some _ := rfl
  have apart := (all _ (Machine.Reachable.start.run ran)).apart nofun
  have quiet := apart.events ⟨1, .event .signal⟩ (by decide) .signal rfl
  exact absurd quiet (by decide)

end RpcFrmwrk.Rpc
