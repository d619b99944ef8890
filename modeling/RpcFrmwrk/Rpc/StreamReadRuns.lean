import Mathlib.Data.List.Nodup
import RpcFrmwrk.Rpc.StreamRead

/-! The bytes that the reads of a stream get over whole runs. Owns `ReadState.Exact`, what the
delivered bytes are; where every received byte is between the packets and the completed reads. -/

namespace RpcFrmwrk.Rpc

open RpcFrmwrk.Library RpcFrmwrk.Ipc List Function

variable {request : ReadIrp} {irp : Nat → ReadIrp}

namespace DispatchPhase

def current : DispatchPhase → List Nat
  | .popped irp _ | .locked irp _ => [irp]
  | _ => []

def pairs : DispatchPhase → List (Nat × Payload)
  | .collecting pairs | .popped _ pairs | .locked _ pairs | .responding pairs
  | .responded _ pairs => pairs
  | .idle => []

def answered : DispatchPhase → List Nat
  | .responded irp _ => [irp]
  | _ => []

theorem lock_current {phase : DispatchPhase} {irp : Nat} (member : irp ∈ phase.lock) : irp ∈ phase.current := by
  cases phase with
  | locked other pairs => exact mem_singleton.2 (Option.some_inj.1 member).symm
  | _ => cases member

def promised (phase : DispatchPhase) : List Nat :=
  phase.answered ++ phase.pairs.map Prod.fst

end DispatchPhase

def ReadState.order (state : ReadState) : List Nat :=
  state.phase.current ++ state.reads

/-- The bytes delivered to completed reads, in the order of their completion, are a
prefix of the bytes received. A read with a size gets as many bytes. A read request that is
neither complete nor cancelled is in the queue or in the hand of the dispatcher. -/
structure ReadState.Exact (state : ReadState) : Prop where
  bytes : (state.delivered.flatMap Prod.snd) <+: state.received.flatten
  once : (state.delivered.map Prod.fst).Nodup
  sized : ∀ entry ∈ state.delivered, ∀ size, (state.irp entry.1).size = some size →
    entry.2.length = size
  waiting : ∀ irp ∈ state.submitted, (state.irp irp).state = .ready →
    irp ∈ state.phase.promised ++ state.order

/-- None of the packets, as far as a read of this size takes them behind `got` bytes, is
longer than what the read still lacks. -/
def takeFits (size : Option Nat) (got : Nat) : List Payload → Bool
  | [] => true
  | buf :: bufs =>
    match size with
    | none => true
    | some size =>
      got + buf.length ≤ size && (got + buf.length == size || takeFits (some size) (got + buf.length) bufs)

/-- The queue of packets does not overflow; a read that finds packets is not answered
while the dispatcher has requests in its hand; no packet is taken for a read that
is longer than what the read still lacks; and no request is cancelled to which bytes have
been given. -/
def ReadMove.Fits (state : ReadState) : ReadMove → Prop
  | .recvPacket _ => state.bufs.length < stmMaxRecvPackets
  | .handleReadIrp _ size =>
    state.bufs = [] ∨ state.reads ≠ [] ∨
      state.phase.current = [] ∧ state.phase.promised = [] ∧ takeFits size 0 state.bufs = true
  | .cancelBegin irp => (state.irp irp).respData = none ∧ irp ∉ state.phase.promised
  | .dispatch =>
    ∀ irp ∈ state.phase.lock,
      takeFits (state.irp irp).size ((state.irp irp).respData.getD []).length (state.bufs.take 1) = true
  | _ => True

instance ReadMove.decidableFits (state : ReadState) (move : ReadMove) : Decidable (move.Fits state) := by
  cases move <;> unfold ReadMove.Fits <;> infer_instance

/-! ### Packets for one read -/

/-- A read that waits has either no data, or some bytes and fewer than its size. -/
def ReadIrp.Partial (request : ReadIrp) : Prop :=
  ∀ data, request.respData = some data →
    data ≠ [] ∧ ∃ size, request.size = some size ∧ data.length < size

theorem ReadIrp.partial_none (none : request.respData = none) : request.Partial := by
  intro data some
  rw [none] at some
  cases some

theorem respWith_eq (respData : Option Payload) (buf : Payload) :
    respWith respData buf = respData.getD [] ++ buf := by
  cases respData with
  | none => rfl
  | some data => rfl

/-- A read that takes packets either gets all it lacks from the front of them, or it
takes them all and lacks more. -/
theorem takeBufs_spec (size : Option Nat) (bufs : List Payload) :
    ∀ respData, ReadIrp.Partial ⟨size, .ready, respData⟩ → (∀ buf ∈ bufs, buf ≠ []) →
      takeFits size (respData.getD []).length bufs = true →
      (∃ data rest, takeBufs size respData bufs = (statusSuccess, some data, rest) ∧
        respData.getD [] ++ bufs.flatten = data ++ rest.flatten ∧
        (∀ length, size = some length → data.length = length) ∧ ∀ buf ∈ rest, buf ∈ bufs) ∨
      (∃ later, takeBufs size respData bufs = (statusPending, later, []) ∧
        respData.getD [] ++ bufs.flatten = later.getD [] ∧ ReadIrp.Partial ⟨size, .ready, later⟩) := by
  induction bufs with
  | nil => exact fun respData waits _ _ => .inr ⟨respData, rfl, append_nil _, waits⟩
  | cons buf bufs ih =>
    intro respData waits nonempty fits
    have positive : buf ≠ [] := nonempty buf mem_cons_self
    cases size with
    | none =>
      -- Without a size the first packet is all.
      have empty : respData = none := by
        cases respData with
        | none => rfl
        | some data =>
          obtain ⟨_, length, ⟨⟩, _⟩ := waits data rfl
      subst empty
      refine .inl ⟨buf, bufs, ?_, rfl, nofun, fun other => mem_cons_of_mem buf⟩
      rw [takeBufs, Option.getD_none, if_neg (Nat.lt_irrefl _), respWith, if_neg (Nat.lt_irrefl _), if_pos rfl]
    | some length =>
      rw [takeFits, Bool.and_eq_true, decide_eq_true_iff, Bool.or_eq_true, beq_iff_eq] at fits
      obtain ⟨room, last⟩ := fits
      have total : (respWith respData buf).length = (respData.getD []).length + buf.length := by
        rw [respWith_eq, length_append]
      rw [takeBufs, Option.getD_some, if_neg (by omega)]
      simp only
      rw [if_neg (by omega)]
      by_cases done : (respWith respData buf).length = length
      · rw [if_pos done]
        refine .inl ⟨respWith respData buf, bufs, rfl, ?_, ?_, fun other => mem_cons_of_mem buf⟩
        · rw [respWith_eq, flatten_cons, append_assoc]
        · intro other same
          cases same
          exact done
      · rw [if_neg done]
        have more : takeFits (some length) ((some (respWith respData buf)).getD []).length bufs = true := by
          rw [Option.getD_some, total]
          exact last.resolve_left (by omega)
        have waits : ReadIrp.Partial ⟨some length, .ready, some (respWith respData buf)⟩ := by
          intro data same
          cases same
          refine ⟨?_, length, rfl, by omega⟩
          rw [respWith_eq]
          exact append_ne_nil_of_right_ne_nil _ positive
        have front : respData.getD [] ++ (buf :: bufs).flatten =
            (some (respWith respData buf)).getD [] ++ bufs.flatten := by
          rw [Option.getD_some, respWith_eq, flatten_cons, append_assoc]
        rw [front]
        rcases ih (some (respWith respData buf)) waits
            (fun other member => nonempty other (mem_cons_of_mem buf member)) more with
          ⟨data, rest, taken, bytes, sized, fewer⟩ | ⟨later, taken, bytes, waits⟩
        · exact .inl ⟨data, rest, taken, bytes, sized,
            fun other member => mem_cons_of_mem buf (fewer other member)⟩
        · exact .inr ⟨later, taken, bytes, waits⟩

theorem matchPacket_spec {buf : Payload} (waits : request.Partial)
    (positive : buf ≠ [])
    (fits : takeFits request.size (request.respData.getD []).length [buf] = true) :
    (matchPacket request.size request.respData buf = .complete none (request.respData.getD [] ++ buf) none ∧
      ∀ length, request.size = some length → (request.respData.getD [] ++ buf).length = length) ∨
    (matchPacket request.size request.respData buf = .putBack (request.respData.getD [] ++ buf) ∧
      ∃ length, request.size = some length ∧ (request.respData.getD [] ++ buf).length < length) := by
  have some_bytes : 0 < buf.length := length_pos_iff.2 positive
  obtain ⟨size, state, respData⟩ := request
  cases size with
  | none =>
    have empty : respData = none := by
      cases respData with
      | none => rfl
      | some data =>
        obtain ⟨_, length, ⟨⟩, _⟩ := waits data rfl
    subst empty
    refine .inl ⟨?_, nofun⟩
    show matchPacket none none buf = .complete none buf none
    rw [matchPacket, Option.getD_none, if_neg (Nat.lt_irrefl _)]
    exact if_pos rfl
  | some length =>
    simp only [takeFits, Bool.and_eq_true, decide_eq_true_iff] at fits
    have room := fits.1
    simp only [matchPacket, Option.getD_some]
    rw [if_neg (by omega)]
    cases respData with
    | none =>
      simp only [Option.getD_none, length_nil, nil_append] at room ⊢
      by_cases done : length = buf.length
      · rw [if_pos done]
        refine .inl ⟨rfl, fun other same => ?_⟩
        cases same
        exact done.symm
      · rw [if_neg done]
        exact .inr ⟨rfl, length, rfl, by omega⟩
    | some data =>
      obtain ⟨started, _, _, _⟩ := waits data rfl
      have begun : 0 < data.length := length_pos_iff.2 started
      simp only [Option.getD_some, length_append] at room ⊢
      rw [if_neg (by omega), if_pos (by omega)]
      by_cases done : length - data.length = buf.length
      · rw [if_pos done]
        refine .inl ⟨rfl, fun other same => ?_⟩
        cases same
        omega
      · rw [if_neg done]
        exact .inr ⟨rfl, length, rfl, by omega⟩

def bytesOf (irp : Nat → ReadIrp) (irps : List Nat) : Payload :=
  irps.flatMap fun other => (irp other).respData.getD []

theorem bytesOf_append (irp : Nat → ReadIrp) (left right : List Nat) :
    bytesOf irp (left ++ right) = bytesOf irp left ++ bytesOf irp right :=
  flatMap_append

theorem bytesOf_singleton (irp : Nat → ReadIrp) (one : Nat) :
    bytesOf irp [one] = (irp one).respData.getD [] := by
  rw [bytesOf, flatMap_cons, flatMap_nil, append_nil]

theorem bytesOf_eq_nil {irps : List Nat}
    (none : ∀ other ∈ irps, (irp other).respData = none) : bytesOf irp irps = [] := by
  refine flatMap_eq_nil_iff.2 fun other member => ?_
  rw [none other member]
  rfl

theorem bytesOf_congr {next : Nat → ReadIrp} {irps : List Nat}
    (same : ∀ other ∈ irps, (next other).respData = (irp other).respData) :
    bytesOf next irps = bytesOf irp irps := by
  induction irps with
  | nil => rfl
  | cons first irps ih =>
    rw [bytesOf, bytesOf, flatMap_cons, flatMap_cons, same first mem_cons_self]
    exact congrArg _ (ih fun other member => same other (mem_cons_of_mem first member))

theorem bytesOf_erase {one : Nat} (none : (irp one).respData = none)
    (irps : List Nat) : bytesOf irp (irps.erase one) = bytesOf irp irps := by
  induction irps with
  | nil => rfl
  | cons first irps ih =>
    by_cases same : first = one
    · subst same
      rw [erase_cons_head, bytesOf, bytesOf, flatMap_cons, none]
      rfl
    · rw [erase_cons_tail (by rwa [beq_iff_eq]), bytesOf, bytesOf, flatMap_cons, flatMap_cons]
      exact congrArg _ ih

theorem update_field {β : Type} (field : ReadIrp → β) (irp : Nat → ReadIrp) {one : Nat}
    (same : field request = field (irp one)) (other : Nat) :
    field (update irp one request other) = field (irp other) := by
  by_cases equal : other = one
  · subst equal
    rw [update_self]
    exact same
  · rw [update_of_ne equal]

/-- Where the received bytes are, and what the requests in each place have. -/
structure ReadState.Coherent (state : ReadState) : Prop where
  bytes : state.received.flatten = state.delivered.flatMap Prod.snd ++
    (bytesOf state.irp state.phase.answered ++ (state.phase.pairs.flatMap Prod.snd ++
      (bytesOf state.irp state.order ++ state.bufs.flatten)))
  once : (state.delivered.map Prod.fst).Nodup
  completed : ∀ entry ∈ state.delivered, (state.irp entry.1).state = .completed
  sized : ∀ entry ∈ state.delivered, ∀ size, (state.irp entry.1).size = some size →
    entry.2.length = size
  waiting : ∀ irp ∈ state.submitted, (state.irp irp).state = .ready →
    irp ∈ state.phase.promised ++ state.order
  known : ∀ irp ∈ state.phase.promised ++ state.order, irp ∈ state.submitted
  distinct : (state.phase.promised ++ state.order).Nodup
  fresh : ∀ irp, irp ∉ state.submitted → state.irp irp = .fresh
  untouched : ∀ irp, (state.irp irp).state = .cancelling → (state.irp irp).respData = none
  nonempty : ∀ buf ∈ state.bufs, buf ≠ []
  held : state.phase.current ≠ [] → state.bufs ≠ []
  locked : ∀ irp ∈ state.phase.lock, (state.irp irp).state = .ready
  partials : ∀ irp ∈ state.order, (state.irp irp).Partial ∧
    ((state.irp irp).respData ≠ none → (state.irp irp).state = .ready ∧ state.order.head? = some irp)
  paired : ∀ entry ∈ state.phase.pairs, (state.irp entry.1).state = .ready ∧
    (state.irp entry.1).respData = none ∧
    ∀ size, (state.irp entry.1).size = some size → entry.2.length = size
  answered : ∀ irp ∈ state.phase.answered, (state.irp irp).state = .ready ∧
    ∀ size, (state.irp irp).size = some size → ((state.irp irp).respData.getD []).length = size

namespace ReadState.Coherent

variable {state : ReadState}
variable {next : ReadState} {irp : Nat}

theorem exact (coherent : state.Coherent) : state.Exact where
  bytes := ⟨_, coherent.bytes.symm⟩
  once := coherent.once
  sized := coherent.sized
  waiting := coherent.waiting

theorem rest_empty (coherent : state.Coherent) {first : Nat} {rest : List Nat}
    (order : state.order = first :: rest) : ∀ other ∈ rest, (state.irp other).respData = none := by
  intro other member
  by_contra some
  have head := ((coherent.partials other (by rw [order]; exact mem_cons_of_mem first member)).2 some).2
  rw [order, List.head?_cons, Option.some_inj] at head
  have distinct := coherent.distinct
  rw [order] at distinct
  exact (nodup_cons.1 (nodup_append.1 distinct).2.1).1 (head ▸ member)

theorem recvPacket (coherent : state.Coherent) {payload : Payload}
    (room : state.bufs.length < stmMaxRecvPackets)
    (moved : state.step (.recvPacket payload) = some next) : next.Coherent := by
  obtain ⟨enabled, ⟨⟩⟩ := Option.ite_none_right_eq_some.1 moved
  obtain ⟨idle, positive⟩ := enabled
  have bytes := coherent.bytes
  have waiting := coherent.waiting
  have known := coherent.known
  have distinct := coherent.distinct
  have partials := coherent.partials
  rw [ReadState.order] at bytes waiting known distinct partials
  rw [idle] at bytes waiting known distinct partials
  have kept : (state.recvPacket payload).bufs = state.bufs ++ [payload] := by
    refine if_neg ?_
    rw [length_append, length_singleton]
    omega
  refine ⟨?_, coherent.once, coherent.completed, coherent.sized, waiting, known, distinct,
    coherent.fresh, coherent.untouched, ?_, fun never => absurd rfl never, nofun, partials, nofun,
    nofun⟩
  · rw [kept]
    show (state.received ++ [payload]).flatten = _
    rw [flatten_append, bytes, flatten_append]
    simp only [append_assoc]
    rfl
  · rw [kept]
    exact forall_mem_append.2 ⟨coherent.nonempty, forall_mem_singleton.2 positive⟩
theorem update_new {other : Nat} (new : irp ∉ state.submitted) (request : ReadIrp)
    (known : other ∈ state.submitted) :
    update state.irp irp request other = state.irp other :=
  update_of_ne (fun same : other = irp => new (same ▸ known)) request state.irp

/-- One request is put in place of another that is not complete: what holds of the answers, and of the requests
that are in no queue. -/
theorem put (coherent : state.Coherent) {request : ReadIrp} (irps : next.irp = update state.irp irp request)
    (known : irp ∈ next.submitted ∧ state.submitted ⊆ next.submitted)
    (undone : (state.irp irp).state ≠ .completed) (cancels : request.state = .cancelling → request.respData = none)
    (answers : next.delivered = state.delivered ∨ ∃ data, next.delivered = state.delivered ++ [(irp, data)] ∧
      request.state = .completed ∧ ∀ size, request.size = some size → data.length = size) :
    (next.delivered.map Prod.fst).Nodup ∧
    (∀ entry ∈ next.delivered, (next.irp entry.1).state = .completed) ∧
    (∀ entry ∈ next.delivered, ∀ size, (next.irp entry.1).size = some size → entry.2.length = size) ∧
    (∀ other, other ∉ next.submitted → next.irp other = .fresh) ∧
    ∀ other, (next.irp other).state = .cancelling → (next.irp other).respData = none := by
  have apart {entry : Nat × Payload} (member : entry ∈ state.delivered) : entry.1 ≠ irp :=
    fun same => undone (same ▸ coherent.completed entry member)
  have done (entry : Nat × Payload) (member : entry ∈ next.delivered) : (next.irp entry.1).state = .completed ∧
      ∀ size, (next.irp entry.1).size = some size → entry.2.length = size := by
    have old (before : entry ∈ state.delivered) : (next.irp entry.1).state = .completed ∧
        ∀ size, (next.irp entry.1).size = some size → entry.2.length = size := by
      rw [irps, update_of_ne (apart before)]
      exact ⟨coherent.completed entry before, coherent.sized entry before⟩
    rcases answers with same | ⟨data, more, isDone, whole⟩
    · exact old (same ▸ member)
    · rw [more] at member
      rcases mem_append.1 member with before | last
      · exact old before
      · rw [mem_singleton.1 last, irps, update_self]
        exact ⟨isDone, whole⟩
  refine ⟨?_, fun entry member => (done entry member).1, fun entry member => (done entry member).2,
    fun other never => ?_, fun other cancelling => ?_⟩
  · rcases answers with same | ⟨data, more, _⟩
    · rw [same]
      exact coherent.once
    · rw [more, map_append]
      refine List.Nodup.append coherent.once (nodup_singleton irp) fun other before last => ?_
      obtain ⟨entry, member, rfl⟩ := mem_map.1 before
      exact apart member (mem_singleton.1 last)
  · rw [irps, update_of_ne fun same : other = irp => never (same ▸ known.1)]
    exact coherent.fresh other (mt (known.2 ·) never)
  · rw [irps] at cancelling ⊢
    by_cases same : other = irp
    · subst same
      rw [update_self] at cancelling ⊢
      exact cancels cancelling
    · rw [update_of_ne same] at cancelling ⊢
      exact coherent.untouched other cancelling

theorem undone_of_new (coherent : state.Coherent) (new : irp ∉ state.submitted) : (state.irp irp).state ≠ .completed := by
  rw [coherent.fresh irp new]
  decide

theorem enqueue (coherent : state.Coherent) (new : irp ∉ state.submitted)
    (size : Option Nat) (respData : Option Payload) (bufs : List Payload)
    (waits : ReadIrp.Partial ⟨size, .ready, respData⟩)
    (alone : respData ≠ none → state.order = [])
    (taken : state.bufs.flatten = respData.getD [] ++ bufs.flatten)
    (nonempty : ∀ buf ∈ bufs, buf ≠ []) (held : state.phase.current ≠ [] → bufs ≠ []) :
    ({ state with
      irp := update state.irp irp ⟨size, .ready, respData⟩
      submitted := irp :: state.submitted
      bufs := bufs
      reads := state.reads ++ [irp] } : ReadState).Coherent := by
  have own : update state.irp irp ⟨size, .ready, respData⟩ irp = ⟨size, .ready, respData⟩ :=
    update_self irp _ state.irp
  have kept {other : Nat} (known : other ∈ state.submitted) :=
    update_new new ⟨size, .ready, respData⟩ known
  have order : ({ state with
      irp := update state.irp irp ⟨size, .ready, respData⟩
      submitted := irp :: state.submitted
      bufs := bufs
      reads := state.reads ++ [irp] } : ReadState).order = state.order ++ [irp] :=
    (append_assoc _ _ _).symm
  have promised {other : Nat} (member : other ∈ state.phase.promised) : other ∈ state.submitted :=
    coherent.known other (mem_append_left _ member)
  have ordered {other : Nat} (member : other ∈ state.order) : other ∈ state.submitted :=
    coherent.known other (mem_append_right _ member)
  have paired {entry : Nat × Payload} (member : entry ∈ state.phase.pairs) : entry.1 ∈ state.submitted :=
    promised (mem_append_right _ (mem_map_of_mem member))
  have answered {other : Nat} (member : other ∈ state.phase.answered) : other ∈ state.submitted :=
    promised (mem_append_left _ member)
  obtain ⟨once, completed, sized, fresh, untouched⟩ := @put _ { state with
      irp := update state.irp irp ⟨size, .ready, respData⟩
      submitted := irp :: state.submitted
      bufs := bufs
      reads := state.reads ++ [irp] } irp coherent _ rfl ⟨mem_cons_self, subset_cons_self _ _⟩
    (coherent.undone_of_new new) nofun (.inl rfl)
  refine ⟨?_, once, completed, sized, ?_, ?_, ?_, fresh, untouched, nonempty, held, ?_, ?_, ?_, ?_⟩
  · rw [order]
    simp only
    rw [bytesOf_append, bytesOf_singleton, own,
      bytesOf_congr (fun other member => congrArg _ (kept (answered member))),
      bytesOf_congr (fun other member => congrArg _ (kept (ordered member))),
      append_assoc (bytesOf state.irp state.order), ← taken]
    exact coherent.bytes
  · intro other member ready
    rw [order, ← append_assoc]
    rcases mem_cons.1 member with rfl | old
    · exact mem_append_right _ (mem_singleton_self other)
    · have ready := (congrArg ReadIrp.state (kept old)).symm.trans ready
      exact mem_append_left _ (coherent.waiting other old ready)
  · intro other member
    rw [order, ← append_assoc] at member
    rcases mem_append.1 member with old | last
    · exact mem_cons_of_mem irp (coherent.known other old)
    · rw [mem_singleton.1 last]
      exact mem_cons_self
  · rw [order, ← append_assoc]
    refine List.Nodup.append coherent.distinct (nodup_singleton irp) ?_
    intro other old last
    exact new (mem_singleton.1 last ▸ coherent.known other old)
  · intro other member
    have known : other ∈ state.submitted := by
      refine coherent.known other (mem_append_right _ (mem_append_left _ ?_))
      exact DispatchPhase.lock_current member
    exact (congrArg ReadIrp.state (kept known)).trans (coherent.locked other member)
  · intro other member
    rw [order] at member ⊢
    rcases mem_append.1 member with old | last
    · obtain ⟨waits, first⟩ := coherent.partials other old
      simp only
      rw [kept (ordered old)]
      refine ⟨waits, fun some => ⟨(first some).1, ?_⟩⟩
      rw [List.head?_append, (first some).2]
      rfl
    · rw [mem_singleton.1 last]
      simp only
      rw [own]
      refine ⟨waits, fun some => ⟨rfl, ?_⟩⟩
      rw [alone some]
      rfl
  · intro entry member
    simp only
    rw [kept (paired member)]
    exact coherent.paired entry member
  · intro other member
    simp only
    rw [kept (answered member)]
    exact coherent.answered other member

theorem answer (coherent : state.Coherent) (new : irp ∉ state.submitted)
    (current : state.phase.current = []) (promised : state.phase.promised = [])
    (reads : state.reads = []) (size : Option Nat) (data : Payload) (bufs : List Payload)
    (taken : state.bufs.flatten = data ++ bufs.flatten) (nonempty : ∀ buf ∈ bufs, buf ≠ [])
    (whole : ∀ length, size = some length → data.length = length) :
    ({ state with
      irp := update state.irp irp ⟨size, .completed, some data⟩
      submitted := irp :: state.submitted
      bufs := bufs
      delivered := state.delivered ++ [(irp, data)] } : ReadState).Coherent := by
  have own : update state.irp irp ⟨size, .completed, some data⟩ irp =
      ⟨size, .completed, some data⟩ := update_self irp _ state.irp
  have kept {other : Nat} (known : other ∈ state.submitted) :=
    update_new new ⟨size, .completed, some data⟩ known
  have order : state.order = [] := by rw [ReadState.order, current, reads]; rfl
  have none : state.phase.promised ++ state.order = [] := by rw [promised, order]; rfl
  have answered : state.phase.answered = [] := (append_eq_nil_iff.1 promised).1
  have pairs : state.phase.pairs = [] :=
    map_eq_nil_iff.1 (append_eq_nil_iff.1 promised).2
  have bytes := coherent.bytes
  rw [answered, pairs, order] at bytes
  obtain ⟨once, completed, sized, fresh, untouched⟩ := @put _ { state with
      irp := update state.irp irp ⟨size, .completed, some data⟩
      submitted := irp :: state.submitted
      bufs := bufs
      delivered := state.delivered ++ [(irp, data)] } irp coherent _ rfl
    ⟨mem_cons_self, subset_cons_self _ _⟩ (coherent.undone_of_new new) nofun (.inr ⟨data, rfl, rfl, whole⟩)
  refine ⟨?_, once, completed, sized, ?_, ?_,
    coherent.distinct, fresh, untouched, nonempty, fun busy => absurd current busy, ?_, ?_, ?_, ?_⟩
  · show state.received.flatten = (state.delivered ++ [(irp, data)]).flatMap Prod.snd ++
      (bytesOf _ state.phase.answered ++ (state.phase.pairs.flatMap Prod.snd ++
        (bytesOf _ state.order ++ bufs.flatten)))
    rw [answered, pairs, order, bytes, flatMap_append, append_assoc, taken]
    simp only [bytesOf, flatMap_cons, flatMap_nil, nil_append, append_nil]
  · intro other member ready
    rcases mem_cons.1 member with rfl | old
    · cases (congrArg ReadIrp.state own).symm.trans ready
    · exact coherent.waiting other old ((congrArg ReadIrp.state (kept old)).symm.trans ready)
  · exact fun other member => mem_cons_of_mem irp (coherent.known other member)
  · intro other member
    have busy : other ∈ state.phase.current := DispatchPhase.lock_current member
    rw [current] at busy
    cases busy
  · intro other member
    replace member : other ∈ state.order := member
    rw [order] at member
    cases member
  · intro entry member
    replace member : entry ∈ state.phase.pairs := member
    rw [pairs] at member
    cases member
  · intro other member
    replace member : other ∈ state.phase.answered := member
    rw [answered] at member
    cases member

theorem handleReadIrp (coherent : state.Coherent) {size : Option Nat}
    (fits : ReadMove.Fits state (.handleReadIrp irp size))
    (moved : state.step (.handleReadIrp irp size) = some next) : next.Coherent := by
  rw [ReadState.step] at moved
  by_cases new : irp ∈ state.submitted
  · rw [if_pos new] at moved
    cases moved
  rw [if_neg new] at moved
  cases moved
  rw [ReadState.handleReadIrp]
  by_cases waits : state.bufs = [] ∨ state.reads ≠ []
  · rw [if_pos waits]
    exact coherent.enqueue new size none state.bufs (ReadIrp.partial_none rfl)
      (fun never => absurd rfl never) rfl coherent.nonempty coherent.held
  · rw [if_neg waits]
    rw [not_or, not_not] at waits
    obtain ⟨current, promised, enough⟩ := (fits.resolve_left waits.1).resolve_left (not_not_intro waits.2)
    have order : state.order = [] := by rw [ReadState.order, current, waits.2]; rfl
    rcases takeBufs_spec size state.bufs none (ReadIrp.partial_none rfl) coherent.nonempty enough with
      ⟨data, rest, taken, bytes, whole, fewer⟩ | ⟨later, taken, bytes, more⟩
    · rw [taken]
      exact coherent.answer new current promised waits.2 size data rest bytes
        (fun buf member => coherent.nonempty buf (fewer buf member)) whole
    · rw [taken]
      have pushed := coherent.enqueue new size later [] more (fun _ => order)
        (by rw [flatten_nil, append_nil]; exact bytes) nofun (fun busy => absurd current busy)
      rw [waits.2] at pushed
      exact pushed

theorem restate (coherent : state.Coherent) (known : irp ∈ state.submitted)
    (undone : (state.irp irp).state ≠ .completed) (none : (state.irp irp).respData = none)
    (apart : irp ∉ state.phase.promised) (free : irp ∉ state.phase.lock) {new : IrpState}
    (busy : new ≠ .ready) :
    (state.setIrp irp { state.irp irp with state := new }).Coherent := by
  have own := update_self irp { state.irp irp with state := new } state.irp
  have kept {other : Nat} (other_ne : other ≠ irp) :=
    update_of_ne other_ne { state.irp irp with state := new } state.irp
  have respData := update_field ReadIrp.respData state.irp
    (show ReadIrp.respData { state.irp irp with state := new } = (state.irp irp).respData from rfl)
  have size := update_field ReadIrp.size state.irp
    (show ReadIrp.size { state.irp irp with state := new } = (state.irp irp).size from rfl)
  have paired {entry : Nat × Payload} (member : entry ∈ state.phase.pairs) : entry.1 ≠ irp := by
    intro same
    exact apart (same ▸ mem_append_right _ (mem_map_of_mem member))
  have answered {other : Nat} (member : other ∈ state.phase.answered) : other ≠ irp := by
    intro same
    exact apart (same ▸ mem_append_left _ member)
  obtain ⟨once, completed, sized, fresh, untouched⟩ :=
    @put _ (state.setIrp irp { state.irp irp with state := new }) irp coherent _ rfl
      ⟨known, Subset.refl _⟩ undone (fun _ => none) (.inl rfl)
  refine ⟨?_, once, completed, sized, ?_,
    coherent.known, coherent.distinct, fresh, untouched, coherent.nonempty, coherent.held, ?_, ?_, ?_, ?_⟩
  · show state.received.flatten = _
    rw [coherent.bytes]
    refine congrArg _ (congrArg₂ _ ?_ (congrArg _ (congrArg₂ _ ?_ rfl)))
    · exact (bytesOf_congr fun other _ => respData other).symm
    · exact (bytesOf_congr fun other _ => respData other).symm
  · intro other member ready
    by_cases same : other = irp
    · subst same
      exact absurd ((congrArg ReadIrp.state own).symm.trans ready) busy
    · exact coherent.waiting other member ((congrArg ReadIrp.state (kept same)).symm.trans ready)
  · intro other member
    have apart : other ≠ irp := fun same => free (same ▸ member)
    exact (congrArg ReadIrp.state (kept apart)).trans (coherent.locked other member)
  · intro other member
    obtain ⟨waits, first⟩ := coherent.partials other member
    refine ⟨fun data some => ?_, fun some => ?_⟩
    · obtain ⟨positive, length, sized, less⟩ := waits data ((respData other).symm.trans some)
      exact ⟨positive, length, (size other).trans sized, less⟩
    · have filled : (state.irp other).respData ≠ .none := fun empty =>
        some ((respData other).trans empty)
      have apart : other ≠ irp := fun same => filled (same ▸ none)
      exact ⟨(congrArg ReadIrp.state (kept apart)).trans (first filled).1, (first filled).2⟩
  · intro entry member
    have same := kept (paired member)
    obtain ⟨ready, empty, whole⟩ := coherent.paired entry member
    exact ⟨(congrArg ReadIrp.state same).trans ready, (respData entry.1).trans empty,
      fun length sized => whole length ((size entry.1).symm.trans sized)⟩
  · intro other member
    have same := kept (answered member)
    show (update state.irp irp _ other).state = .ready ∧ ∀ length,
      (update state.irp irp _ other).size = some length →
        ((update state.irp irp _ other).respData.getD []).length = length
    rw [same]
    exact coherent.answered other member

theorem cancelBegin (coherent : state.Coherent)
    (fits : ReadMove.Fits state (.cancelBegin irp))
    (moved : state.step (.cancelBegin irp) = some next) : next.Coherent := by
  obtain ⟨enabled, ⟨⟩⟩ := Option.ite_none_right_eq_some.1 moved
  obtain ⟨known, ready, free⟩ := enabled
  exact coherent.restate known (by rw [ready]; decide) fits.1 fits.2 free (by decide)
theorem cancelEnd (coherent : state.Coherent)
    (moved : state.step (.cancelEnd irp) = some next) : next.Coherent := by
  obtain ⟨busy, ⟨⟩⟩ := Option.ite_none_right_eq_some.1 moved
  have known : irp ∈ state.submitted := by
    by_contra never
    rw [coherent.fresh irp never] at busy
    cases busy
  have free : irp ∉ state.phase.lock := fun member => by
    rw [coherent.locked irp member] at busy
    cases busy
  have apart : irp ∉ state.phase.promised := by
    intro member
    rcases mem_append.1 member with answered | paired
    · rw [(coherent.answered irp answered).1] at busy
      cases busy
    · obtain ⟨entry, given, rfl⟩ := mem_map.1 paired
      rw [(coherent.paired entry given).1] at busy
      cases busy
  have none := coherent.untouched irp busy
  have restated := coherent.restate known (by rw [busy]; decide) none apart free
    (show IrpState.cancelled ≠ .ready by decide)
  have own := update_self irp { state.irp irp with state := .cancelled } state.irp
  have order : ((state.setIrp irp { state.irp irp with state := .cancelled }).removeIrpFromMap irp).order =
      state.phase.current ++ state.reads.erase irp := rfl
  have fewer : (state.phase.current ++ state.reads.erase irp).Sublist state.order :=
    (List.Sublist.refl _).append erase_sublist
  refine ⟨?_, restated.once, restated.completed, restated.sized, ?_, ?_, ?_, restated.fresh,
    restated.untouched, restated.nonempty, restated.held, restated.locked, ?_, restated.paired,
    restated.answered⟩
  · refine restated.bytes.trans ?_
    rw [order, bytesOf_append]
    have erased := bytesOf_erase ((congrArg ReadIrp.respData own).trans none) state.reads
    refine congrArg _ (congrArg _ (congrArg _ (congrArg (· ++ state.bufs.flatten) ?_)))
    refine (bytesOf_append _ state.phase.current state.reads).trans ?_
    exact congrArg _ erased.symm
  · intro other member ready
    have apart : other ≠ irp := by
      intro same
      subst same
      cases (congrArg ReadIrp.state own).symm.trans ready
    rw [order]
    rcases mem_append.1 (restated.waiting other member ready) with promised | ordered
    · exact mem_append_left _ promised
    · refine mem_append_right _ ?_
      rcases mem_append.1 ordered with hand | queued
      · exact mem_append_left _ hand
      · exact mem_append_right _ ((mem_erase_of_ne apart).2 queued)
  · intro other member
    rw [order] at member
    exact restated.known other (((List.Sublist.refl _).append fewer).mem member)
  · rw [order]
    exact coherent.distinct.sublist ((List.Sublist.refl _).append fewer)
  · intro other member
    rw [order] at member ⊢
    obtain ⟨waits, first⟩ := restated.partials other (fewer.mem member)
    refine ⟨waits, fun some => ⟨(first some).1, ?_⟩⟩
    have apart : other ≠ irp := by
      intro same
      subst same
      exact some ((congrArg ReadIrp.respData own).trans none)
    have head : (state.phase.current ++ state.reads).head? = .some other := (first some).2
    cases hand : state.phase.current with
    | cons one more =>
      rw [hand] at head
      exact head
    | nil =>
      rw [hand] at head
      cases queued : state.reads with
      | nil =>
        rw [queued] at head
        cases head
      | cons one more =>
        rw [queued] at head
        have same : one = other := Option.some_inj.1 head
        rw [nil_append, erase_cons_tail (by rw [same, beq_iff_eq]; exact apart)]
        exact head
/-! ### The dispatcher -/

theorem goto (coherent : state.Coherent) {phase : DispatchPhase} {reads : List Nat}
    (answered : phase.answered = state.phase.answered) (pairs : phase.pairs = state.phase.pairs)
    (order : phase.current ++ reads = state.order) (held : phase.current ≠ [] → state.bufs ≠ [])
    (locked : ∀ irp ∈ phase.lock, (state.irp irp).state = .ready) :
    ({ state with reads := reads, phase := phase } : ReadState).Coherent := by
  have promised : phase.promised = state.phase.promised := by
    rw [DispatchPhase.promised, DispatchPhase.promised, answered, pairs]
  have all : phase.promised ++ (phase.current ++ reads) = state.phase.promised ++ state.order := by
    rw [promised, order]
  refine ⟨?_, coherent.once, coherent.completed, coherent.sized, ?_, ?_, ?_, coherent.fresh,
    coherent.untouched, coherent.nonempty, held, locked, ?_, ?_, ?_⟩
  · show state.received.flatten = state.delivered.flatMap Prod.snd ++
      (bytesOf state.irp phase.answered ++ (phase.pairs.flatMap Prod.snd ++
        (bytesOf state.irp (phase.current ++ reads) ++ state.bufs.flatten)))
    rw [answered, pairs, order]
    exact coherent.bytes
  · show ∀ irp ∈ state.submitted, (state.irp irp).state = .ready →
      irp ∈ phase.promised ++ (phase.current ++ reads)
    rw [all]
    exact coherent.waiting
  · show ∀ irp ∈ phase.promised ++ (phase.current ++ reads), irp ∈ state.submitted
    rw [all]
    exact coherent.known
  · show (phase.promised ++ (phase.current ++ reads)).Nodup
    rw [all]
    exact coherent.distinct
  · show ∀ irp ∈ phase.current ++ reads, (state.irp irp).Partial ∧
      ((state.irp irp).respData ≠ none →
        (state.irp irp).state = .ready ∧ (phase.current ++ reads).head? = some irp)
    rw [order]
    exact coherent.partials
  · show ∀ entry ∈ phase.pairs, _
    rw [pairs]
    exact coherent.paired
  · show ∀ irp ∈ phase.answered, _
    rw [answered]
    exact coherent.answered

theorem discard (coherent : state.Coherent) {pairs : List (Nat × Payload)}
    (phase : state.phase = .popped irp pairs) (busy : (state.irp irp).state ≠ .ready) :
    ({ state with phase := .collecting pairs } : ReadState).Coherent := by
  have order : state.order = irp :: state.reads := by rw [ReadState.order, phase]; rfl
  have own : irp ∈ state.order := by rw [order]; exact mem_cons_self
  have none : (state.irp irp).respData = none := by
    by_contra some
    exact busy ((coherent.partials irp own).2 some).1
  have empty := coherent.rest_empty order
  have bytes := coherent.bytes
  have waiting := coherent.waiting
  have known := coherent.known
  have distinct := coherent.distinct
  rw [order] at bytes waiting known distinct
  rw [phase] at bytes waiting known distinct
  refine ⟨?_, coherent.once, coherent.completed, coherent.sized, ?_, ?_, ?_, coherent.fresh,
    coherent.untouched, coherent.nonempty, fun never => absurd rfl never, nofun, ?_, ?_, nofun⟩
  · refine bytes.trans (congrArg _ (congrArg _ (congrArg _ (congrArg (· ++ state.bufs.flatten) ?_))))
    rw [bytesOf, flatMap_cons, none]
    rfl
  · intro other member ready
    rcases mem_append.1 (waiting other member ready) with promised | ordered
    · exact mem_append_left _ promised
    · rcases mem_cons.1 ordered with rfl | queued
      · exact absurd ready busy
      · exact mem_append_right _ queued
  · intro other member
    exact known other (((List.Sublist.refl _).append (sublist_cons_self irp _)).mem member)
  · exact distinct.sublist ((List.Sublist.refl _).append (sublist_cons_self irp _))
  · intro other member
    have none : (state.irp other).respData = .none := empty other member
    exact ⟨ReadIrp.partial_none none, fun some => absurd none some⟩
  · intro entry member
    exact coherent.paired entry (by rw [phase]; exact member)

section Locked

variable {irp : Nat} {pairs : List (Nat × Payload)} {buf : Payload} {bufs : List Payload}

theorem order_of_locked (phase : state.phase = .locked irp pairs) : state.order = irp :: state.reads := by
  rw [ReadState.order, phase]
  rfl

theorem ready_of_locked (coherent : state.Coherent) (phase : state.phase = .locked irp pairs) :
    (state.irp irp).state = .ready :=
  coherent.locked irp (by rw [phase]; rfl)

theorem distinct_of_locked (coherent : state.Coherent) (phase : state.phase = .locked irp pairs) :
    (pairs.map Prod.fst ++ (irp :: state.reads)).Nodup := by
  have distinct := coherent.distinct
  rw [order_of_locked phase, phase] at distinct
  exact distinct

theorem bytes_of_locked (coherent : state.Coherent) (phase : state.phase = .locked irp pairs)
    (first : state.bufs = buf :: bufs) :
    state.received.flatten = state.delivered.flatMap Prod.snd ++ (pairs.flatMap Prod.snd ++
      ((state.irp irp).respData.getD [] ++ buf ++ bufs.flatten)) := by
  have bytes := coherent.bytes
  have rest : bytesOf state.irp state.reads = [] :=
    bytesOf_eq_nil (coherent.rest_empty (order_of_locked phase))
  rw [order_of_locked phase, phase, first] at bytes
  rw [bytes]
  simp only [DispatchPhase.answered, DispatchPhase.pairs, bytesOf, flatMap_nil, nil_append,
    flatMap_cons, flatten_cons, append_assoc] at rest ⊢
  rw [rest]
  rfl

theorem pair (coherent : state.Coherent) (phase : state.phase = .locked irp pairs)
    (first : state.bufs = buf :: bufs)
    (whole : ∀ size, (state.irp irp).size = some size →
      ((state.irp irp).respData.getD [] ++ buf).length = size) :
    ({ state.setIrp irp { state.irp irp with respData := none } with
      bufs := bufs
      phase := .collecting (pairs ++ [(irp, (state.irp irp).respData.getD [] ++ buf)]) } :
      ReadState).Coherent := by
  have own := update_self irp { state.irp irp with respData := none } state.irp
  have kept {other : Nat} (apart : other ≠ irp) :=
    update_of_ne apart { state.irp irp with respData := none } state.irp
  have ready := coherent.ready_of_locked phase
  have order := order_of_locked phase
  have distinct := coherent.distinct_of_locked phase
  have empty := coherent.rest_empty order
  have waiting := coherent.waiting
  have known := coherent.known
  rw [order, phase] at waiting known
  have state_eq := update_field ReadIrp.state state.irp
    (show ReadIrp.state { state.irp irp with respData := none } = (state.irp irp).state from rfl)
  have size_eq := update_field ReadIrp.size state.irp
    (show ReadIrp.size { state.irp irp with respData := none } = (state.irp irp).size from rfl)
  have empty_now (other : Nat) (none : other ≠ irp → (state.irp other).respData = none) :
      (update state.irp irp { state.irp irp with respData := .none } other).respData = .none := by
    by_cases same : other = irp
    · rw [same, own]
    · rw [kept same]
      exact none same
  have all (data : Payload) : (pairs ++ [(irp, data)]).map Prod.fst ++ state.reads =
      pairs.map Prod.fst ++ (irp :: state.reads) := by
    rw [map_append, append_assoc]
    rfl
  obtain ⟨_, completed, sized, fresh, untouched⟩ := @put _ (state.setIrp irp { state.irp irp with respData := none }) irp coherent _ rfl
    ⟨known irp (mem_append_right _ mem_cons_self), Subset.refl _⟩ (by rw [ready]; decide) (fun _ => rfl) (.inl rfl)
  refine ⟨?_, coherent.once, completed, sized, ?_, ?_,
    ?_, fresh, untouched, ?_, fun never => absurd rfl never, nofun, ?_, ?_, nofun⟩
  · show state.received.flatten = state.delivered.flatMap Prod.snd ++
      ((pairs ++ [(irp, (state.irp irp).respData.getD [] ++ buf)]).flatMap Prod.snd ++
        (bytesOf (update state.irp irp { state.irp irp with respData := none }) state.reads ++ bufs.flatten))
    rw [bytesOf_eq_nil fun other member => empty_now other fun _ => empty other member,
      coherent.bytes_of_locked phase first, flatMap_append, append_assoc]
    simp only [flatMap_cons, flatMap_nil, append_nil, nil_append, append_assoc]
  · intro other member free
    show other ∈ (pairs ++ [(irp, _)]).map Prod.fst ++ state.reads
    rw [all]
    exact waiting other member ((state_eq other).symm.trans free)
  · intro other member
    replace member : other ∈ (pairs ++ [(irp, (state.irp irp).respData.getD [] ++ buf)]).map Prod.fst ++
      state.reads := member
    rw [all] at member
    exact known other member
  · show ((pairs ++ [(irp, (state.irp irp).respData.getD [] ++ buf)]).map Prod.fst ++ state.reads).Nodup
    rw [all]
    exact distinct
  · intro other member
    exact coherent.nonempty other (by rw [first]; exact mem_cons_of_mem buf member)
  · intro other member
    have none := empty_now other fun _ => empty other member
    exact ⟨ReadIrp.partial_none none, fun some => absurd none some⟩
  · intro entry member
    rcases mem_append.1 member with old | last
    · obtain ⟨free, none, sized⟩ := coherent.paired entry (by rw [phase]; exact old)
      exact ⟨(state_eq entry.1).trans free, empty_now entry.1 fun _ => none,
        fun size same => sized size ((size_eq entry.1).symm.trans same)⟩
    · rw [mem_singleton.1 last]
      exact ⟨(state_eq irp).trans ready, empty_now irp fun never => absurd rfl never,
        fun size same => whole size ((size_eq irp).symm.trans same)⟩

theorem putBack (coherent : state.Coherent) (phase : state.phase = .locked irp pairs)
    (first : state.bufs = buf :: bufs)
    (less : ∃ size, (state.irp irp).size = some size ∧
      ((state.irp irp).respData.getD [] ++ buf).length < size) :
    ({ state.setIrp irp { state.irp irp with respData := some ((state.irp irp).respData.getD [] ++ buf) } with
      bufs := bufs
      reads := irp :: state.reads
      phase := .collecting pairs } : ReadState).Coherent := by
  have own := update_self irp
    { state.irp irp with respData := some ((state.irp irp).respData.getD [] ++ buf) } state.irp
  have kept {other : Nat} (apart : other ≠ irp) := update_of_ne apart
    { state.irp irp with respData := some ((state.irp irp).respData.getD [] ++ buf) } state.irp
  have ready := coherent.ready_of_locked phase
  have order := order_of_locked phase
  have distinct := coherent.distinct_of_locked phase
  have apart : irp ∉ state.reads ∧ irp ∉ pairs.map Prod.fst := by
    obtain ⟨_, queue, disjoint⟩ := nodup_append.1 distinct
    exact ⟨(nodup_cons.1 queue).1, fun member => disjoint irp member irp mem_cons_self rfl⟩
  have empty := coherent.rest_empty order
  have positive : buf ≠ [] := coherent.nonempty buf (by rw [first]; exact mem_cons_self)
  have waiting := coherent.waiting
  have known := coherent.known
  have partials := coherent.partials
  rw [order] at waiting known partials
  rw [phase] at waiting known
  have state_eq := update_field ReadIrp.state state.irp
    (show ReadIrp.state { state.irp irp with
      respData := some ((state.irp irp).respData.getD [] ++ buf) } = (state.irp irp).state from rfl)
  have size_eq := update_field ReadIrp.size state.irp
    (show ReadIrp.size { state.irp irp with
      respData := some ((state.irp irp).respData.getD [] ++ buf) } = (state.irp irp).size from rfl)
  have rest : ∀ other ∈ state.reads, (update state.irp irp { state.irp irp with
      respData := some ((state.irp irp).respData.getD [] ++ buf) } other).respData = none := by
    intro other member
    rw [kept fun same => apart.1 (same ▸ member)]
    exact empty other member
  obtain ⟨_, completed, sized, fresh, untouched⟩ := @put _ (state.setIrp irp { state.irp irp with
      respData := some ((state.irp irp).respData.getD [] ++ buf) }) irp coherent _ rfl
    ⟨known irp (mem_append_right _ mem_cons_self), Subset.refl _⟩ (by rw [ready]; decide)
    (fun cancelling => by cases ready.symm.trans cancelling) (.inl rfl)
  refine ⟨?_, coherent.once, completed, sized, ?_, known, distinct, fresh, untouched, ?_, fun never => absurd rfl never,
    nofun, ?_, ?_, nofun⟩
  · show state.received.flatten = state.delivered.flatMap Prod.snd ++ (pairs.flatMap Prod.snd ++
      (bytesOf (update state.irp irp { state.irp irp with
        respData := some ((state.irp irp).respData.getD [] ++ buf) }) (irp :: state.reads) ++ bufs.flatten))
    rw [coherent.bytes_of_locked phase first, bytesOf, flatMap_cons, own]
    refine congrArg _ (congrArg _ (congrArg (· ++ bufs.flatten) ?_))
    exact ((congrArg _ (bytesOf_eq_nil rest)).trans (append_nil _)).symm
  · exact fun other member free => waiting other member ((state_eq other).symm.trans free)
  · intro other member
    exact coherent.nonempty other (by rw [first]; exact mem_cons_of_mem buf member)
  · intro other member
    rcases mem_cons.1 member with rfl | queued
    · refine ⟨?_, fun _ => ⟨(state_eq other).trans ready, rfl⟩⟩
      intro data filled
      have same : (state.irp other).respData.getD [] ++ buf = data :=
        Option.some_inj.1 ((congrArg ReadIrp.respData own).symm.trans filled)
      obtain ⟨size, sized, short⟩ := less
      subst same
      exact ⟨append_ne_nil_of_right_ne_nil _ positive, size, (size_eq other).trans sized, short⟩
    · exact ⟨ReadIrp.partial_none (rest other queued), fun some => absurd (rest other queued) some⟩
  · intro entry member
    have same := kept fun same : entry.1 = irp =>
      apart.2 (same ▸ mem_map_of_mem (f := Prod.fst) member)
    obtain ⟨free, none, sized⟩ := coherent.paired entry (by rw [phase]; exact member)
    exact ⟨(state_eq entry.1).trans free, (congrArg ReadIrp.respData same).trans none,
      fun size same => sized size ((size_eq entry.1).symm.trans same)⟩

theorem takePacket (coherent : state.Coherent) (phase : state.phase = .locked irp pairs)
    (fits : takeFits (state.irp irp).size ((state.irp irp).respData.getD []).length
      (state.bufs.take 1) = true) {next : ReadState} (moved : state.dispatch = some next) :
    next.Coherent := by
  have held := coherent.held (by rw [phase]; exact cons_ne_nil irp [])
  have order := order_of_locked phase
  rw [ReadState.dispatch, phase] at moved
  cases first : state.bufs with
  | nil => exact absurd first held
  | cons buf bufs =>
    rw [first] at moved fits
    simp only at moved
    have waits := (coherent.partials irp (by rw [order]; exact mem_cons_self)).1
    have positive : buf ≠ [] := coherent.nonempty buf (by rw [first]; exact mem_cons_self)
    rcases matchPacket_spec waits positive fits with ⟨matched, whole⟩ | ⟨matched, less⟩
    · rw [matched] at moved
      cases moved
      exact coherent.pair phase first whole
    · rw [matched] at moved
      cases moved
      exact coherent.putBack phase first less

end Locked

theorem respond (coherent : state.Coherent) {buf : Payload}
    {pairs : List (Nat × Payload)} (phase : state.phase = .responding ((irp, buf) :: pairs)) :
    ({ state.setIrp irp { state.irp irp with respData := some buf } with
      phase := .responded irp pairs } : ReadState).Coherent := by
  have own := update_self irp { state.irp irp with respData := some buf } state.irp
  have kept {other : Nat} (apart : other ≠ irp) :=
    update_of_ne apart { state.irp irp with respData := some buf } state.irp
  have bytes := coherent.bytes
  have waiting := coherent.waiting
  have known := coherent.known
  have distinct := coherent.distinct
  have partials := coherent.partials
  have paired := coherent.paired
  have order : state.order = state.reads := by rw [ReadState.order, phase]; rfl
  rw [order] at bytes waiting known distinct partials
  rw [phase] at bytes waiting known distinct paired
  obtain ⟨ready, empty, whole⟩ := paired (irp, buf) mem_cons_self
  obtain ⟨fresh, _⟩ := nodup_cons.1 distinct
  have state_eq := update_field ReadIrp.state state.irp
    (show ReadIrp.state { state.irp irp with respData := some buf } = (state.irp irp).state from rfl)
  have size_eq := update_field ReadIrp.size state.irp
    (show ReadIrp.size { state.irp irp with respData := some buf } = (state.irp irp).size from rfl)
  have queued {other : Nat} (member : other ∈ state.reads) : other ≠ irp := fun same =>
    fresh (same ▸ mem_append_right _ member)
  have given {entry : Nat × Payload} (member : entry ∈ pairs) : entry.1 ≠ irp := by
    intro same
    have named : entry.1 ∈ pairs.map Prod.fst := mem_map_of_mem member
    rw [same] at named
    exact fresh (mem_append_left _ named)
  obtain ⟨_, completed, sized, fresh, untouched⟩ := @put _ (state.setIrp irp { state.irp irp with respData := some buf }) irp coherent _
    rfl ⟨known irp mem_cons_self, Subset.refl _⟩ (by rw [ready]; decide)
    (fun cancelling => by cases ready.symm.trans cancelling) (.inl rfl)
  refine ⟨?_, coherent.once, completed, sized, ?_, known, distinct, fresh, untouched, coherent.nonempty,
    fun never => absurd rfl never, nofun, ?_, ?_, ?_⟩
  · show state.received.flatten = state.delivered.flatMap Prod.snd ++
      (bytesOf (update state.irp irp { state.irp irp with respData := some buf }) [irp] ++
        (pairs.flatMap Prod.snd ++
          (bytesOf (update state.irp irp { state.irp irp with respData := some buf })
            state.reads ++ state.bufs.flatten)))
    rw [bytesOf_singleton, own,
      bytesOf_congr fun other member => congrArg ReadIrp.respData (kept (queued member)), bytes,
      DispatchPhase.pairs, flatMap_cons, append_assoc]
    rfl
  · exact fun other member free => waiting other member ((state_eq other).symm.trans free)
  · intro other member
    show (update state.irp irp _ other).Partial ∧
      ((update state.irp irp _ other).respData ≠ none → (update state.irp irp _ other).state = .ready ∧ _)
    rw [kept (queued member)]
    exact partials other member
  · intro entry member
    show (update state.irp irp _ entry.1).state = .ready ∧
      (update state.irp irp _ entry.1).respData = none ∧
        ∀ size, (update state.irp irp _ entry.1).size = some size → _
    rw [kept (given member)]
    exact paired entry (mem_cons_of_mem _ member)
  · intro other member
    rw [mem_singleton.1 member]
    refine ⟨(state_eq irp).trans ready, fun size same => ?_⟩
    refine (congrArg (fun request => (ReadIrp.respData request).getD [] |>.length) own).trans ?_
    exact whole size ((size_eq irp).symm.trans same)

theorem complete (coherent : state.Coherent) {pairs : List (Nat × Payload)}
    (phase : state.phase = .responded irp pairs) :
    ({ state.setIrp irp { state.irp irp with state := .completed } with
      phase := .responding pairs
      delivered := state.delivered ++ [(irp, (state.irp irp).respData.getD [])] } :
      ReadState).Coherent := by
  have own := update_self irp { state.irp irp with state := .completed } state.irp
  have kept {other : Nat} (apart : other ≠ irp) :=
    update_of_ne apart { state.irp irp with state := .completed } state.irp
  have bytes := coherent.bytes
  have waiting := coherent.waiting
  have known := coherent.known
  have distinct := coherent.distinct
  have partials := coherent.partials
  have paired := coherent.paired
  have answered := coherent.answered
  have order : state.order = state.reads := by rw [ReadState.order, phase]; rfl
  rw [order] at bytes waiting known distinct partials
  rw [phase] at bytes waiting known distinct paired answered
  obtain ⟨ready, whole⟩ := answered irp mem_cons_self
  obtain ⟨fresh, rest⟩ := nodup_cons.1 distinct
  have respData_eq := update_field ReadIrp.respData state.irp
    (show ReadIrp.respData { state.irp irp with state := .completed } = (state.irp irp).respData from rfl)
  have size_eq := update_field ReadIrp.size state.irp
    (show ReadIrp.size { state.irp irp with state := .completed } = (state.irp irp).size from rfl)
  have queued {other : Nat} (member : other ∈ state.reads) : other ≠ irp := fun same =>
    fresh (same ▸ mem_append_right _ member)
  have given {entry : Nat × Payload} (member : entry ∈ pairs) : entry.1 ≠ irp := by
    intro same
    have named : entry.1 ∈ pairs.map Prod.fst := mem_map_of_mem member
    rw [same] at named
    exact fresh (mem_append_left _ named)
  obtain ⟨once, completed, sized, fresh, untouched⟩ := @put _ { state.setIrp irp { state.irp irp with state := .completed } with
      phase := .responding pairs
      delivered := state.delivered ++ [(irp, (state.irp irp).respData.getD [])] } irp coherent _ rfl
    ⟨known irp mem_cons_self, Subset.refl _⟩ (by rw [ready]; decide) nofun
    (.inr ⟨_, rfl, rfl, whole⟩)
  refine ⟨?_, once, completed, sized, ?_, ?_, rest,
    fresh, untouched, coherent.nonempty, fun never => absurd rfl never, nofun, ?_, ?_, nofun⟩
  · show state.received.flatten =
      (state.delivered ++ [(irp, (state.irp irp).respData.getD [])]).flatMap Prod.snd ++
        (pairs.flatMap Prod.snd ++
          (bytesOf (update state.irp irp { state.irp irp with state := .completed })
            state.reads ++ state.bufs.flatten))
    rw [bytesOf_congr fun other _ => respData_eq other, bytes, flatMap_append, append_assoc]
    simp only [DispatchPhase.answered, DispatchPhase.pairs, bytesOf, flatMap_cons, flatMap_nil, append_nil]
  · intro other member free
    by_cases same : other = irp
    · subst same
      cases (congrArg ReadIrp.state own).symm.trans free
    · have place := waiting other member ((congrArg ReadIrp.state (kept same)).symm.trans free)
      exact (mem_cons.1 place).resolve_left same
  · exact fun other member => known other (mem_cons_of_mem irp member)
  · intro other member
    show (update state.irp irp _ other).Partial ∧
      ((update state.irp irp _ other).respData ≠ none → (update state.irp irp _ other).state = .ready ∧ _)
    rw [kept (queued member)]
    exact partials other member
  · intro entry member
    show (update state.irp irp _ entry.1).state = .ready ∧
      (update state.irp irp _ entry.1).respData = none ∧
        ∀ size, (update state.irp irp _ entry.1).size = some size → _
    rw [kept (given member)]
    exact paired entry member

theorem dispatch (coherent : state.Coherent) (fits : ReadMove.Fits state .dispatch)
    (moved : state.dispatch = some next) : next.Coherent := by
  cases phase : state.phase with
  | idle =>
    rw [ReadState.dispatch, phase] at moved
    cases moved
  | collecting pairs =>
    rw [ReadState.dispatch, phase] at moved
    have order : state.order = state.reads := by rw [ReadState.order, phase]; rfl
    simp only at moved
    split at moved
    · next irp rest buf later reads bufs =>
        cases moved
        exact coherent.goto (by rw [phase]; rfl) (by rw [phase]; rfl) (by rw [order, reads]; rfl)
          (fun _ => by rw [bufs]; exact cons_ne_nil buf later) nofun
    · cases moved
      exact coherent.goto (by rw [phase]; rfl) (by rw [phase]; rfl) order.symm
        (fun never => absurd rfl never) nofun
  | popped irp pairs =>
    rw [ReadState.dispatch, phase] at moved
    simp only at moved
    have order : state.order = irp :: state.reads := by rw [ReadState.order, phase]; rfl
    by_cases cancelling : (state.irp irp).state = .cancelling
    · rw [if_pos cancelling] at moved
      cases moved
    rw [if_neg cancelling] at moved
    by_cases ready : (state.irp irp).state = .ready
    · rw [ready, IrpState.canContinue_ready, if_neg (by decide)] at moved
      cases moved
      refine coherent.goto (by rw [phase]; rfl) (by rw [phase]; rfl) order.symm ?_ ?_
      · exact fun _ => coherent.held (by rw [phase]; exact cons_ne_nil irp [])
      · intro other member
        rw [← Option.some_inj.1 (show some irp = some other from member)]
        exact ready
    · rw [if_pos (IrpState.canContinue_of_ne ready .ready).1] at moved
      cases moved
      exact coherent.discard phase ready
  | locked irp pairs => exact coherent.takePacket phase (fits irp (by rw [phase]; rfl)) moved
  | responding waiting =>
    rw [ReadState.dispatch, phase] at moved
    have order : state.order = state.reads := by rw [ReadState.order, phase]; rfl
    cases waiting with
    | nil =>
      cases moved
      exact coherent.goto (by rw [phase]; rfl) (by rw [phase]; rfl) order.symm
        (fun never => absurd rfl never) nofun
    | cons entry pairs =>
      obtain ⟨irp, buf⟩ := entry
      obtain ⟨ready, none, _⟩ := coherent.paired (irp, buf) (by rw [phase]; exact mem_cons_self)
      have unset : respWith (state.irp irp).respData buf = buf := by rw [none]; rfl
      simp only at moved
      rw [if_neg (by rw [ready]; decide), if_neg (by rw [ready]; decide), unset] at moved
      cases moved
      exact coherent.respond phase
  | responded irp pairs =>
    rw [ReadState.dispatch, phase] at moved
    obtain ⟨ready, _⟩ := coherent.answered irp (by rw [phase]; exact mem_cons_self)
    simp only at moved
    rw [if_neg (by rw [ready]; decide), if_pos ready] at moved
    cases moved
    exact coherent.complete phase

theorem step (coherent : state.Coherent) {move : ReadMove} (fits : move.Fits state)
    (moved : state.step move = some next) : next.Coherent := by
  cases move with
  | recvPacket payload => exact coherent.recvPacket fits moved
  | handleReadIrp irp size => exact coherent.handleReadIrp fits moved
  | cancelBegin irp => exact coherent.cancelBegin fits moved
  | cancelEnd irp => exact coherent.cancelEnd moved
  | dispatch => exact coherent.dispatch fits moved

end ReadState.Coherent

theorem readMachine_start : readMachine.start.Coherent where
  bytes := rfl
  once := nodup_nil
  completed := nofun
  sized := nofun
  waiting := nofun
  known := nofun
  distinct := nodup_nil
  fresh := fun _ _ => rfl
  untouched := fun _ _ => rfl
  nonempty := nofun
  held := fun never => absurd rfl never
  locked := nofun
  partials := nofun
  paired := nofun
  answered := nofun

def readTwoPackets (size : Nat) (first second : Payload) : List ReadMove :=
  .handleReadIrp 0 (some size) :: .recvPacket first :: List.replicate 5 .dispatch ++
    .recvPacket second :: List.replicate 7 .dispatch

end RpcFrmwrk.Rpc
