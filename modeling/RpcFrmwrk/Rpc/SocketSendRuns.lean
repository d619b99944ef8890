import Mathlib.Data.List.Sublists
import RpcFrmwrk.Rpc.SocketSend

/-! The bytes that a socket port puts on the wire over whole runs. Owns `SendState.Framed`, what the
bytes on the wire and the answers are; the conditions under which a step keeps it; the invariant of
the threads, the locks and the sender. -/

namespace RpcFrmwrk.Rpc

open RpcFrmwrk.Library RpcFrmwrk.Ipc List

variable (bufs : List (List UInt8))

def WriteIrp.bytes (request : WriteIrp) : List UInt8 :=
  request.bufs.flatten

def Formed (bufs : List (List UInt8)) : Prop :=
  bufs ≠ [] ∧ bufs.length ≤ maxIdxPerReq ∧ ∀ buf ∈ bufs, buf ≠ []

instance (bufs : List (List UInt8)) : Decidable (Formed bufs) :=
  inferInstanceAs (Decidable (_ ∧ _))

namespace SendState

def current (state : SendState) : List UInt8 :=
  match state.sending with
  | none => []
  | some irp => (state.irp irp).bytes

/-- The bytes on the wire are those of whole requests, in the order of the queue,
and a part of the request in the sender. Each request is answered once, with success
only when its bytes are on the wire. While no thread is in the port, a request is
answered, in the queue or in the sender. -/
structure Framed (state : SendState) : Prop where
  frames : ∃ whole rest,
    state.wire = (whole.flatMap fun irp => (state.irp irp).bytes) ++ rest ∧ rest <+: state.current ∧
      (whole ++ (state.sending.toList ++ state.queue)).Sublist state.accepted ∧
      ∀ entry ∈ state.answered, entry.2 = statusSuccess → entry.1 ∈ whole
  distinct : state.accepted.Nodup
  once : (state.answered.map Prod.fst).Nodup
  placed : (∀ tid, state.call tid = .idle) → ∀ irp ∈ state.accepted,
    irp ∈ state.answered.map Prod.fst ∨ irp ∈ state.sending ∨ irp ∈ state.queue

end SendState

/-- When a thread gets the lock of the request it has found in the sender, and the
request is still ready, the sender still has it. -/
def SendCall.Orderly (state : SendState) : SendCall → Prop
  | .waiting _ irp => (state.irp irp).state = .ready → state.sending = some irp
  | _ => True

instance SendCall.decidableOrderly (state : SendState) (call : SendCall) :
    Decidable (call.Orderly state) := by
  cases call <;> unfold SendCall.Orderly <;> infer_instance

/-- A request has one or more buffers, none of them empty, and the sender keeps its
request while a thread waits for the request's lock. -/
def SendMove.Orderly (state : SendState) : SendMove → Prop
  | .submit _ _ bufs => Formed bufs
  | .go tid _ _ => (state.call tid).Orderly state
  | _ => True

instance SendMove.decidableOrderly (state : SendState) (move : SendMove) :
    Decidable (move.Orderly state) := by
  cases move <;> unfold SendMove.Orderly <;> infer_instance

/-- No request is taken from the sender by a cancellation when a part of it is on the
wire. -/
def SendCall.Uncut (state : SendState) : SendCall → Prop
  | .cancelling irp => ∀ sender ∈ state.sender, sender.irp = irp →
      sender.bufIdx = 0 ∧ sender.offset = 0
  | _ => True

instance SendCall.decidableUncut (state : SendState) (call : SendCall) :
    Decidable (call.Uncut state) := by
  cases call <;> unfold SendCall.Uncut <;> infer_instance

def SendMove.Uncut (state : SendState) : SendMove → Prop
  | .go tid _ _ => (state.call tid).Uncut state
  | _ => True

instance SendMove.decidableUncut (state : SendState) (move : SendMove) :
    Decidable (move.Uncut state) := by
  cases move <;> unfold SendMove.Uncut <;> infer_instance

/-! ### The send loop -/

def CursorIn (bufs : List (List UInt8)) (bufIdx offset : Nat) : Prop :=
  bufIdx < bufs.length ∧ offset < (bufs.getD bufIdx []).length ∨ bufIdx = bufs.length ∧ offset = 0

theorem sentBytes_zero : sentBytes bufs 0 0 = [] := by
  rw [sentBytes, take_zero, take_zero]
  rfl

theorem sentBytes_all : sentBytes bufs bufs.length 0 = bufs.flatten := by
  rw [sentBytes, take_length, take_zero, append_nil]

theorem sentBytes_prefix (bufIdx offset : Nat) : sentBytes bufs bufIdx offset <+: bufs.flatten := by
  have split : bufs.flatten = (bufs.take bufIdx).flatten ++ (bufs.drop bufIdx).flatten := by
    rw [← flatten_append, take_append_drop]
  rw [split, sentBytes, prefix_append_right_inj]
  cases rest : bufs.drop bufIdx with
  | nil =>
    rw [getD_eq_getElem?_getD, List.getElem?_eq_none (drop_eq_nil_iff.1 rest), Option.getD_none, take_nil]
    exact nil_prefix
  | cons buf rest' =>
    have here : bufs.getD bufIdx [] = buf := by
      have head : (bufs.drop bufIdx).head? = some buf := by rw [rest]; rfl
      rw [List.head?_drop] at head
      rw [getD_eq_getElem?_getD, head]
      rfl
    rw [here, flatten_cons]
    exact (List.take_prefix offset buf).trans (prefix_append buf _)

theorem sentBytes_next (bufIdx : Nat) (inside : bufIdx < bufs.length) :
    sentBytes bufs (bufIdx + 1) 0 = sentBytes bufs bufIdx (bufs.getD bufIdx []).length := by
  rw [sentBytes, sentBytes, take_zero, append_nil, take_length, take_add_one,
    flatten_append, getD_eq_getElem?_getD, List.getElem?_eq_getElem inside]
  simp

theorem sentBytes_add (bufIdx offset count : Nat) :
    sentBytes bufs bufIdx (offset + (((bufs.getD bufIdx []).drop offset).take count).length) =
      sentBytes bufs bufIdx offset ++ ((bufs.getD bufIdx []).drop offset).take count := by
  rw [sentBytes, sentBytes, append_assoc, take_add]
  refine congrArg _ (congrArg _ ?_)
  rw [length_take]
  by_cases short : count ≤ ((bufs.getD bufIdx []).drop offset).length
  · rw [Nat.min_eq_left short]
  · rw [Nat.min_eq_right (by omega), take_length, take_of_length_le (by omega)]

theorem sendLoop_spec (maxBytes : Nat) (bufs : List (List UInt8))
    (nonempty : ∀ buf ∈ bufs, buf ≠ [])
    (accepts : List Nat) : ∀ bufIdx offset, bufIdx < bufs.length →
      offset < (bufs.getD bufIdx []).length →
      ∃ done idx off bytes, sendLoop maxBytes bufs bufIdx offset accepts = (done, idx, off, bytes) ∧
        sentBytes bufs idx off = sentBytes bufs bufIdx offset ++ bytes ∧
        (done = true → idx = bufs.length ∧ off = 0) ∧
        (done = false → idx < bufs.length ∧ off < (bufs.getD idx []).length) := by
  induction accepts with
  | nil =>
    intro bufIdx offset inside within
    exact ⟨false, bufIdx, offset, [], rfl, (append_nil _).symm, nofun, fun _ => ⟨inside, within⟩⟩
  | cons count accepts ih =>
    intro bufIdx offset inside within
    have added := sentBytes_add bufs bufIdx offset
      (min count (min ((bufs.getD bufIdx []).length - offset) maxBytes))
    rw [sendLoop]
    generalize taken : ((bufs.getD bufIdx []).drop offset).take
      (min count (min ((bufs.getD bufIdx []).length - offset) maxBytes)) = sent at added ⊢
    have fits : offset + sent.length ≤ (bufs.getD bufIdx []).length := by
      rw [← taken, length_take, length_drop]
      omega
    simp only
    by_cases whole : (bufs.getD bufIdx []).length = offset + sent.length
    · rw [if_pos whole]
      have next : sentBytes bufs (bufIdx + 1) 0 = sentBytes bufs bufIdx offset ++ sent := by
        rw [sentBytes_next bufs bufIdx inside, whole, added]
      by_cases last : bufIdx + 1 = bufs.length
      · rw [if_pos last]
        exact ⟨true, bufIdx + 1, 0, sent, rfl, next, fun _ => ⟨last, rfl⟩, nofun⟩
      · rw [if_neg last]
        have more : bufIdx + 1 < bufs.length := by omega
        have positive : 0 < (bufs.getD (bufIdx + 1) []).length := by
          rw [getD_eq_getElem?_getD, List.getElem?_eq_getElem more, Option.getD_some]
          exact length_pos_iff.2 (nonempty _ (getElem_mem more))
        obtain ⟨done, idx, off, bytes, ran, sentNow, ended, stays⟩ :=
          ih (bufIdx + 1) 0 more positive
        rw [ran]
        refine ⟨done, idx, off, sent ++ bytes, rfl, ?_, ended, stays⟩
        rw [sentNow, next, append_assoc]
    · rw [if_neg whole]
      obtain ⟨done, idx, off, bytes, ran, sentNow, ended, stays⟩ :=
        ih bufIdx (offset + sent.length) inside (by omega)
      rw [ran]
      refine ⟨done, idx, off, sent ++ bytes, rfl, ?_, ended, stays⟩
      rw [sentNow, added, append_assoc]

namespace SendCall

def held : SendCall → List Nat
  | .sending _ irp | .arming _ irp | .sent _ irp _ | .done _ irp _ | .cancelling irp
  | .crossing _ irp _ | .misdone _ irp _ => [irp]
  | _ => []

def sends : SendCall → List Nat
  | .sending _ irp | .arming _ irp | .sent _ irp _ => [irp]
  | _ => []

def finished : SendCall → List Nat
  | .done _ irp _ => [irp]
  | _ => []

def Sound (state : SendState) (whole : List Nat) (tid : Nat) : SendCall → Prop
  | .sending _ irp | .arming _ irp =>
    (state.irp irp).lock = some tid ∧ (state.irp irp).state = .ready ∧ state.sending = some irp
  | .sent _ irp ret =>
    (state.irp irp).lock = some tid ∧ (state.irp irp).state = .ready ∧
      state.sender = some ⟨irp, (state.irp irp).bufs.length, 0⟩ ∧ ret = statusSuccess
  | .done _ irp ret =>
    (state.irp irp).lock = some tid ∧ (state.irp irp).state = .ready ∧ irp ∈ whole ∧
      irp ∉ state.answered.map Prod.fst ∧ ret = statusSuccess
  | .cancelling irp => (state.irp irp).lock = some tid ∧ irp ∈ state.accepted
  | .crossing _ _ _ | .misdone _ _ _ => False
  | _ => True

variable {state next : SendState} {whole more : List Nat} {tid : Nat} {call : SendCall}

theorem Sound.lock (sound : call.Sound state whole tid) {irp : Nat} (member : irp ∈ call.held) :
    (state.irp irp).lock = some tid := by
  cases call with
  | idle | taskHead | readyHead | readyBack | waiting => cases member
  | crossing | misdone => cases sound
  | _ =>
    rw [mem_singleton.1 member]
    exact sound.1

theorem Sound.sending (sound : call.Sound state whole tid) {irp : Nat} (member : irp ∈ call.sends) :
    (state.irp irp).lock = some tid ∧ state.sending = some irp := by
  cases call with
  | sending | arming =>
    rw [mem_singleton.1 member]
    exact ⟨sound.1, sound.2.2⟩
  | sent =>
    rw [mem_singleton.1 member]
    refine ⟨sound.1, ?_⟩
    rw [SendState.sending, sound.2.2.1]
    rfl
  | _ => cases member

theorem Sound.frame (sound : call.Sound state whole tid)
    (records : ∀ irp ∈ call.held, next.irp irp = state.irp irp)
    (sender : ∀ irp ∈ call.sends, next.sender = state.sender) (grows : whole ⊆ more)
    (unanswered : ∀ irp ∈ call.finished, irp ∉ state.answered.map Prod.fst → irp ∉ next.answered.map Prod.fst)
    (accepted : state.accepted ⊆ next.accepted) : call.Sound next more tid := by
  cases call with
  | idle | taskHead | readyHead | readyBack | waiting => trivial
  | crossing | misdone => cases sound
  | sending caller irp | arming caller irp =>
    have same := records irp mem_cons_self
    have kept := sender irp mem_cons_self
    refine ⟨same ▸ sound.1, same ▸ sound.2.1, ?_⟩
    rw [SendState.sending, kept]
    exact sound.2.2
  | sent caller irp ret =>
    have same := records irp mem_cons_self
    have kept := sender irp mem_cons_self
    refine ⟨same ▸ sound.1, same ▸ sound.2.1, ?_, sound.2.2.2⟩
    rw [kept, same]
    exact sound.2.2.1
  | done caller irp ret =>
    have same := records irp mem_cons_self
    exact ⟨same ▸ sound.1, same ▸ sound.2.1, grows sound.2.2.1,
      unanswered irp mem_cons_self sound.2.2.2.1, sound.2.2.2.2⟩
  | cancelling irp =>
    have same := records irp mem_cons_self
    exact ⟨same ▸ sound.1, accepted sound.2⟩

end SendCall

def SendState.partial_ (state : SendState) : List UInt8 :=
  match state.sender with
  | none => []
  | some sender => sentBytes (state.irp sender.irp).bufs sender.bufIdx sender.offset

theorem SendState.partial_congr {state next : SendState} (sender : next.sender = state.sender)
    (bufs : ∀ one ∈ state.sender, (next.irp one.irp).bufs = (state.irp one.irp).bufs) :
    next.partial_ = state.partial_ := by
  rw [SendState.partial_, SendState.partial_, sender]
  cases current : state.sender with
  | none => rfl
  | some one => exact congrArg (sentBytes · one.bufIdx one.offset) (bufs one current)

/-- The requests in `whole` are on the wire. Every thread but the one that moves is
where it is rightly; `hand` are the requests that the moving thread has sent. With
`strict` no request has been cut. -/
structure SendState.Inv (strict : Bool) (state : SendState) (whole : List Nat)
    (moving : Option Nat) (hand : List Nat) : Prop where
  wire : strict = true → state.wire =
    (whole.flatMap fun irp => (state.irp irp).bytes) ++ state.partial_
  order : (whole ++ (state.sending.toList ++ state.queue)).Sublist state.accepted
  distinct : state.accepted.Nodup
  success : ∀ entry ∈ state.answered, entry.2 = statusSuccess → entry.1 ∈ whole
  once : (state.answered.map Prod.fst).Nodup
  unanswered : ∀ irp ∈ state.sending.toList ++ state.queue, irp ∉ state.answered.map Prod.fst
  known : ∀ irp ∈ state.answered.map Prod.fst, irp ∈ state.accepted
  formed : ∀ irp ∈ state.accepted, Formed (state.irp irp).bufs
  cursor : ∀ sender ∈ state.sender, CursorIn (state.irp sender.irp).bufs sender.bufIdx sender.offset
  placed : ∀ irp ∈ state.accepted, irp ∈ state.answered.map Prod.fst ∨
    irp ∈ state.sending.toList ++ state.queue ∨ irp ∈ hand ∨
    ∃ tid, some tid ≠ moving ∧ irp ∈ (state.call tid).finished
  sound : ∀ tid, some tid ≠ moving → (state.call tid).Sound state whole tid

namespace SendState.Inv

variable {strict : Bool} {state : SendState} {whole hand : List Nat} {tid : Nat}
variable {irp maxBytes : Nat}

theorem lift (inv : state.Inv strict whole none []) (tid : Nat) :
    state.Inv strict whole (some tid) (state.call tid).finished := by
  refine ⟨inv.wire, inv.order, inv.distinct, inv.success, inv.once, inv.unanswered, inv.known,
    inv.formed, inv.cursor, ?_, fun other _ => inv.sound other nofun⟩
  intro irp member
  refine (inv.placed irp member).imp_right fun place => place.imp_right fun place => ?_
  obtain never | ⟨other, _, finished⟩ := place
  · cases never
  · by_cases same : other = tid
    · subst same
      exact .inl finished
    · exact .inr ⟨other, fun equal => same (Option.some_inj.1 equal), finished⟩

theorem settle (inv : state.Inv strict whole (some tid) hand) (call : SendCall)
    (sound : call.Sound state whole tid) (handed : hand ⊆ call.finished) :
    (state.setCall tid call).Inv strict whole none [] := by
  have still {one : SendCall} {other : Nat} (sound : one.Sound state whole other) :
      one.Sound (state.setCall tid call) whole other :=
    sound.frame (fun _ _ => rfl) (fun _ _ => rfl) (fun _ => id) (fun _ _ => id) fun _ => id
  refine ⟨inv.wire, inv.order, inv.distinct, inv.success, inv.once, inv.unanswered, inv.known,
    inv.formed, inv.cursor, ?_, ?_⟩
  · intro irp member
    refine (inv.placed irp member).imp_right fun place => place.imp_right fun place => .inr ?_
    obtain mine | ⟨other, apart, finished⟩ := place
    · refine ⟨tid, nofun, ?_⟩
      rw [setCall_self]
      exact handed mine
    · refine ⟨other, nofun, ?_⟩
      rw [state.setCall_of_ne (fun same => apart (congrArg some same)) call]
      exact finished
  · intro other _
    by_cases same : other = tid
    · subst same
      rw [setCall_self]
      exact still sound
    · rw [state.setCall_of_ne same call]
      exact still (inv.sound other fun equal => same (Option.some_inj.1 equal))

theorem setIrp (inv : state.Inv strict whole (some tid) hand) {request : WriteIrp}
    (free : ∀ other, (state.irp irp).lock = some other → other = tid)
    (bufs : request.bufs = (state.irp irp).bufs) :
    (state.setIrp irp request).Inv strict whole (some tid) hand := by
  have same (other : Nat) : ((state.setIrp irp request).irp other).bufs = (state.irp other).bufs := by
    by_cases equal : other = irp
    · subst equal
      rw [setIrp_self]
      exact bufs
    · rw [state.setIrp_of_ne equal request]
  have bytes (other : Nat) : ((state.setIrp irp request).irp other).bytes = (state.irp other).bytes :=
    congrArg List.flatten (same other)
  have partial_ : (state.setIrp irp request).partial_ = state.partial_ :=
    SendState.partial_congr rfl fun sender _ => same sender.irp
  refine ⟨?_, inv.order, inv.distinct, inv.success, inv.once, inv.unanswered, inv.known, ?_, ?_, inv.placed, ?_⟩
  · intro uncut
    rw [partial_, funext bytes]
    exact inv.wire uncut
  · intro other member
    rw [same]
    exact inv.formed other member
  · intro sender member
    rw [same]
    exact inv.cursor sender member
  · intro other apart
    refine (inv.sound other apart).frame ?_ (fun _ _ => rfl) (fun _ => id) (fun _ _ => id) fun _ => id
    intro one member
    refine state.setIrp_of_ne (fun equal => apart ?_) request
    rw [free other (equal ▸ (inv.sound other apart).lock member)]

theorem setFlags (inv : state.Inv strict whole (some tid) hand) (writing : Bool) (deferred : Nat) :
    ({ state with writing := writing, deferred := deferred } : SendState).Inv strict whole (some tid) hand :=
  ⟨inv.wire, inv.order, inv.distinct, inv.success, inv.once, inv.unanswered, inv.known, inv.formed,
    inv.cursor, inv.placed, fun other apart => (inv.sound other apart).frame (fun _ _ => rfl)
      (fun _ _ => rfl) (fun _ => id) (fun _ _ => id) fun _ => id⟩

theorem no_sends (inv : state.Inv strict whole (some tid) hand)
    (free : ∀ irp, state.sending = some irp → ∀ other, (state.irp irp).lock = some other → other = tid)
    {other : Nat} (apart : some other ≠ some tid) (member : irp ∈ (state.call other).sends) :
    False := by
  obtain ⟨lock, sending⟩ := (inv.sound other apart).sending member
  exact apart (congrArg some (free irp sending other lock))

theorem order_of_sending (inv : state.Inv strict whole (some tid) hand)
    (sending : state.sending = some irp) :
    irp ∈ state.accepted ∧ irp ∉ whole ∧ irp ∉ state.queue := by
  have order := inv.order
  rw [sending] at order
  have distinct := inv.distinct.sublist order
  obtain ⟨_, rest, apart⟩ := nodup_append.1 distinct
  refine ⟨order.mem (mem_append_right _ mem_cons_self), fun member => ?_, (nodup_cons.1 rest).1⟩
  exact apart irp member irp mem_cons_self rfl

theorem load (inv : state.Inv strict whole (some tid) hand) (free : state.sender = none)
    {rest : List Nat} (queue : state.queue = irp :: rest) :
    state.setIrpToSend.Inv strict whole (some tid) hand := by
  have sending : state.sending = none := by rw [SendState.sending, free]; rfl
  have order := inv.order
  have unanswered := inv.unanswered
  have placed := inv.placed
  rw [sending, queue] at order unanswered placed
  have own : irp ∈ state.accepted := order.mem (mem_append_right _ mem_cons_self)
  rw [SendState.setIrpToSend, queue]
  refine ⟨?_, order, inv.distinct, inv.success, inv.once, unanswered, inv.known, inv.formed, ?_, placed, ?_⟩
  · intro uncut
    refine (inv.wire uncut).trans (congrArg _ ?_)
    rw [SendState.partial_, free]
    exact (sentBytes_zero _).symm
  · intro sender member
    cases member
    obtain ⟨some_bufs, _, nonempty⟩ := inv.formed irp own
    have positive : 0 < (state.irp irp).bufs.length := length_pos_iff.2 some_bufs
    refine .inl ⟨positive, ?_⟩
    rw [getD_eq_getElem?_getD, List.getElem?_eq_getElem positive, Option.getD_some]
    exact length_pos_iff.2 (nonempty _ (getElem_mem positive))
  · intro other apart
    refine (inv.sound other apart).frame (fun _ _ => rfl) (fun one member => ?_) (fun _ => id)
      (fun _ _ => id) fun _ => id
    refine (inv.no_sends (fun one some => ?_) apart member).elim
    rw [sending] at some
    cases some

theorem progress (inv : state.Inv strict whole (some tid) hand) {bufIdx offset : Nat}
    (sender : state.sender = some ⟨irp, bufIdx, offset⟩) (lock : (state.irp irp).lock = some tid)
    {idx off : Nat} {bytes : List UInt8}
    (sent : sentBytes (state.irp irp).bufs idx off = sentBytes (state.irp irp).bufs bufIdx offset ++ bytes)
    (inside : CursorIn (state.irp irp).bufs idx off) :
    ({ state with sender := some ⟨irp, idx, off⟩, wire := state.wire ++ bytes } : SendState).Inv
      strict whole (some tid) hand := by
  have sending : state.sending = some irp := by rw [SendState.sending, sender]; rfl
  have order := inv.order
  have unanswered := inv.unanswered
  have placed := inv.placed
  rw [sending] at order unanswered placed
  refine ⟨?_, order, inv.distinct, inv.success, inv.once, unanswered, inv.known, inv.formed, ?_, placed, ?_⟩
  · intro uncut
    show state.wire ++ bytes = _ ++ sentBytes (state.irp irp).bufs idx off
    rw [inv.wire uncut, SendState.partial_, sender, sent, append_assoc]
  · intro one member
    cases member
    exact inside
  · intro other apart
    refine (inv.sound other apart).frame (fun _ _ => rfl) (fun one member => ?_) (fun _ => id)
      (fun _ _ => id) fun _ => id
    refine (inv.no_sends (fun one some thread held => ?_) apart member).elim
    rw [sending] at some
    cases some
    exact Option.some_inj.1 (held.symm.trans lock)

theorem finish (inv : state.Inv strict whole (some tid) hand)
    (sender : state.sender = some ⟨irp, (state.irp irp).bufs.length, 0⟩)
    (lock : (state.irp irp).lock = some tid) :
    ({ state with sender := none } : SendState).Inv strict (whole ++ [irp]) (some tid) (irp :: hand) := by
  have sending : state.sending = some irp := by rw [SendState.sending, sender]; rfl
  have order := inv.order
  have unanswered := inv.unanswered
  have placed := inv.placed
  rw [sending] at order unanswered placed
  refine ⟨?_, ?_, inv.distinct, ?_, inv.once, ?_, inv.known, inv.formed, nofun, ?_, ?_⟩
  · intro uncut
    show state.wire = (whole ++ [irp]).flatMap (fun one => (state.irp one).bytes) ++ []
    rw [inv.wire uncut, SendState.partial_, sender, append_nil, flatMap_append,
      flatMap_cons, flatMap_nil, append_nil]
    exact congrArg _ (sentBytes_all _)
  · show (whole ++ [irp] ++ ([] ++ state.queue)).Sublist state.accepted
    rw [append_assoc]
    exact order
  · exact fun entry member ok => mem_append_left _ (inv.success entry member ok)
  · exact fun one member => unanswered one (mem_cons_of_mem irp member)
  · intro one member
    refine (placed one member).imp_right fun place => ?_
    obtain here | later := place
    · rcases mem_cons.1 here with rfl | queued
      · exact .inr (.inl mem_cons_self)
      · exact .inl queued
    · exact .inr (later.imp_left (mem_cons_of_mem irp))
  · intro other apart
    refine (inv.sound other apart).frame (fun _ _ => rfl) (fun one member => ?_)
      (subset_append_left _ _) (fun _ _ => id) fun _ => id
    refine (inv.no_sends (fun one some thread held => ?_) apart member).elim
    rw [sending] at some
    cases some
    exact Option.some_inj.1 (held.symm.trans lock)

theorem answer (inv : state.Inv strict whole (some tid) hand) {ret : Int} {new : IrpState}
    (free : ∀ other, (state.irp irp).lock = some other → other = tid)
    (own : irp ∈ state.accepted) (fresh : irp ∉ state.answered.map Prod.fst)
    (apart : irp ∉ state.sending.toList ++ state.queue) (ok : ret = statusSuccess → irp ∈ whole) :
    (state.answer irp ret new).Inv strict whole (some tid) hand := by
  have changed : (state.setIrp irp { state.irp irp with state := new }).Inv strict whole (some tid)
      hand := inv.setIrp free rfl
  have answered (one : Nat) : one ∈ (state.answered ++ [(irp, ret)]).map Prod.fst ↔
      one ∈ state.answered.map Prod.fst ∨ one = irp := by
    rw [map_append, mem_append]
    exact or_congr_right mem_singleton
  refine ⟨changed.wire, changed.order, changed.distinct, ?_, ?_, ?_, ?_, changed.formed, changed.cursor, ?_, ?_⟩
  · intro entry member succeeded
    rcases mem_append.1 member with old | last
    · exact inv.success entry old succeeded
    · rw [mem_singleton.1 last] at succeeded ⊢
      exact ok succeeded
  · show ((state.answered ++ [(irp, ret)]).map Prod.fst).Nodup
    rw [map_append]
    refine List.Nodup.append inv.once (nodup_singleton irp) fun one old last => ?_
    have same : one = irp := mem_singleton.1 last
    exact fresh (same ▸ old)
  · intro one member
    show one ∉ (state.answered ++ [(irp, ret)]).map Prod.fst
    rw [answered, not_or]
    exact ⟨inv.unanswered one member, fun same => apart (same ▸ member)⟩
  · intro one member
    rcases (answered one).1 member with old | rfl
    · exact inv.known one old
    · exact own
  · intro one member
    refine (inv.placed one member).imp_left fun old => ?_
    exact (answered one).2 (.inl old)
  · intro other else_
    refine (changed.sound other else_).frame (fun _ _ => rfl) (fun _ _ => rfl) (fun _ => id) ?_ fun _ => id
    intro one member old
    show one ∉ (state.answered ++ [(irp, ret)]).map Prod.fst
    rw [answered, not_or]
    refine ⟨old, fun same => else_ ?_⟩
    have held : one ∈ (state.call other).held := by
      cases call : state.call other with
      | done =>
        have finished : one ∈ (state.call other).finished := member
        rw [call] at finished
        exact finished
      | _ =>
        have finished : one ∈ (state.call other).finished := member
        rw [call] at finished
        cases finished
    have lock := (inv.sound other else_).lock held
    rw [free other (same ▸ lock)]

theorem drop (inv : state.Inv strict whole (some tid) (irp :: hand))
    (answered : irp ∈ state.answered.map Prod.fst) : state.Inv strict whole (some tid) hand := by
  refine ⟨inv.wire, inv.order, inv.distinct, inv.success, inv.once, inv.unanswered, inv.known,
    inv.formed, inv.cursor, ?_, inv.sound⟩
  intro one member
  obtain old | here | mine | other := inv.placed one member
  · exact .inl old
  · exact .inr (.inl here)
  · rcases mem_cons.1 mine with rfl | mine
    · exact .inl answered
    · exact .inr (.inr (.inl mine))
  · exact .inr (.inr (.inr other))

theorem removeSender (inv : state.Inv strict whole (some tid) hand) {sender : BytesSender}
    (current : state.sender = some sender) (lock : (state.irp sender.irp).lock = some tid)
    (uncut : strict = true → sender.bufIdx = 0 ∧ sender.offset = 0) :
    ({ state with sender := none } : SendState).Inv strict whole (some tid)
    (sender.irp :: hand) := by
  have sending : state.sending = some sender.irp := by rw [SendState.sending, current]; rfl
  have order := inv.order
  have unanswered := inv.unanswered
  have placed := inv.placed
  rw [sending] at order unanswered placed
  refine ⟨?_, List.Sublist.trans ?_ order, inv.distinct, inv.success, inv.once, ?_, inv.known, inv.formed, nofun,
    ?_, ?_⟩
  · intro strict
    refine (inv.wire strict).trans (congrArg _ ?_)
    rw [SendState.partial_, current]
    simp only
    rw [(uncut strict).1, (uncut strict).2]
    exact sentBytes_zero _
  · exact (List.Sublist.refl whole).append (sublist_cons_self sender.irp state.queue)
  · exact fun one member => unanswered one (mem_cons_of_mem sender.irp member)
  · intro one member
    refine (placed one member).imp_right fun place => ?_
    obtain here | later := place
    · rcases mem_cons.1 here with rfl | queued
      · exact .inr (.inl mem_cons_self)
      · exact .inl queued
    · exact .inr (later.imp_left (mem_cons_of_mem sender.irp))
  · intro other apart
    refine (inv.sound other apart).frame (fun _ _ => rfl) (fun one member => ?_) (fun _ => id)
      (fun _ _ => id) fun _ => id
    refine (inv.no_sends (fun one some thread held => ?_) apart member).elim
    rw [sending] at some
    cases some
    exact Option.some_inj.1 (held.symm.trans lock)

theorem removeQueue (inv : state.Inv strict whole (some tid) hand) (irp : Nat) :
    ({ state with queue := state.queue.erase irp } : SendState).Inv strict whole (some tid) (irp :: hand) := by
  have fewer : (state.sending.toList ++ state.queue.erase irp).Sublist (state.sending.toList ++ state.queue) :=
    (List.Sublist.refl _).append erase_sublist
  refine ⟨inv.wire, ((List.Sublist.refl whole).append fewer).trans inv.order, inv.distinct,
    inv.success, inv.once, fun one member => inv.unanswered one (fewer.mem member), inv.known,
    inv.formed, inv.cursor, ?_, ?_⟩
  · intro one member
    refine (inv.placed one member).imp_right fun place => ?_
    obtain here | later := place
    · by_cases same : one = irp
      · exact .inr (.inl (mem_cons.2 (.inl same)))
      · refine .inl ?_
        rcases mem_append.1 here with sending | queued
        · exact mem_append_left _ sending
        · exact mem_append_right _ ((mem_erase_of_ne same).2 queued)
    · exact .inr (later.imp_left (mem_cons_of_mem irp))
  · exact fun other apart => (inv.sound other apart).frame (fun _ _ => rfl) (fun _ _ => rfl)
      (fun _ => id) (fun _ _ => id) fun _ => id

theorem held_accepted (inv : state.Inv strict whole (some tid) hand) {other : Nat}
    (apart : some other ≠ some tid) (member : irp ∈ (state.call other).held) :
    irp ∈ state.accepted := by
  have sound := inv.sound other apart
  cases call : state.call other with
  | sending | arming =>
    rw [call] at member sound
    rw [mem_singleton.1 member]
    exact (inv.order_of_sending sound.2.2).1
  | sent caller one ret =>
    rw [call] at member sound
    rw [mem_singleton.1 member]
    refine (inv.order_of_sending ?_).1
    rw [SendState.sending, sound.2.2.1]
    rfl
  | done =>
    rw [call] at member sound
    rw [mem_singleton.1 member]
    exact inv.order.mem (mem_append_left _ sound.2.2.1)
  | cancelling =>
    rw [call] at member sound
    rw [mem_singleton.1 member]
    exact sound.2
  | crossing | misdone =>
    rw [call] at sound
    cases sound
  | _ =>
    rw [call] at member
    cases member

theorem push (inv : state.Inv strict whole (some tid) hand) (new : irp ∉ state.accepted)
    {bufs : List (List UInt8)} (formed : Formed bufs) :
    (state.push irp bufs).Inv strict whole (some tid) hand := by
  have kept {other : Nat} (known : other ∈ state.accepted) :
      (state.setIrp irp ⟨bufs, .ready, none⟩).irp other = state.irp other :=
    state.setIrp_of_ne (fun same : other = irp => new (same ▸ known)) _
  have wholes {other : Nat} (member : other ∈ whole) : other ∈ state.accepted :=
    inv.order.mem (mem_append_left _ member)
  have senders {sender : BytesSender} (current : sender ∈ state.sender) : sender.irp ∈ state.accepted := by
    refine (inv.order_of_sending ?_).1
    rw [SendState.sending, current]
    rfl
  refine ⟨?_, ?_, ?_, inv.success, inv.once, ?_, ?_, ?_, ?_, ?_, ?_⟩
  · intro strict
    refine (inv.wire strict).trans (congrArg₂ _ ?_ ?_)
    · rw [flatMap_def, flatMap_def]
      refine congrArg _ (map_congr_left fun other member => ?_)
      exact congrArg WriteIrp.bytes (kept (wholes member)).symm
    · symm
      refine SendState.partial_congr rfl fun sender member => ?_
      exact congrArg WriteIrp.bufs (kept (senders member))
  · show (whole ++ (state.sending.toList ++ (state.queue ++ [irp]))).Sublist (state.accepted ++ [irp])
    rw [← append_assoc, ← append_assoc, append_assoc whole]
    exact inv.order.append (List.Sublist.refl [irp])
  · refine List.Nodup.append inv.distinct (nodup_singleton irp) fun other old last => ?_
    have same : other = irp := mem_singleton.1 last
    exact new (same ▸ old)
  · intro other member answered
    replace member : other ∈ state.sending.toList ++ (state.queue ++ [irp]) := member
    rw [← append_assoc] at member
    rcases mem_append.1 member with old | last
    · exact inv.unanswered other old answered
    · have same : other = irp := mem_singleton.1 last
      exact new (same ▸ inv.known other answered)
  · exact fun other member => mem_append_left _ (inv.known other member)
  · intro other member
    show Formed ((state.setIrp irp ⟨bufs, .ready, none⟩).irp other).bufs
    rcases mem_append.1 member with old | last
    · rw [kept old]
      exact inv.formed other old
    · rw [mem_singleton.1 last, setIrp_self]
      exact formed
  · intro sender member
    show CursorIn ((state.setIrp irp ⟨bufs, .ready, none⟩).irp sender.irp).bufs _ _
    rw [kept (senders member)]
    exact inv.cursor sender member
  · intro other member
    show _ ∨ other ∈ state.sending.toList ++ (state.queue ++ [irp]) ∨ _
    rw [← append_assoc]
    rcases mem_append.1 member with old | last
    · refine (inv.placed other old).imp_right fun place => place.imp_left ?_
      exact mem_append_left _
    · exact .inr (.inl (mem_append_right _ last))
  · intro other apart
    refine (inv.sound other apart).frame (fun one member => ?_) (fun _ _ => rfl) (fun _ => id)
      (fun _ _ => id) fun one member => mem_append_left _ member
    exact kept (inv.held_accepted apart member)

theorem unlock (inv : state.Inv strict whole (some tid) hand)
    (lock : (state.irp irp).lock = some tid) :
    (state.setLock irp none).Inv strict whole (some tid) hand := by
  refine inv.setIrp (fun other held => ?_) rfl
  exact Option.some_inj.1 (held.symm.trans lock)

theorem goto (inv : state.Inv strict whole none []) {call : SendCall}
    (before : (state.call tid).finished = []) (free : call.held = []) :
    (state.setCall tid call).Inv strict whole none [] := by
  have moving := inv.lift tid
  rw [before] at moving
  refine moving.settle call ?_ (nil_subset _)
  cases call <;> trivial

theorem startSend2 (inv : state.Inv strict whole none []) {bufs : List (List UInt8)}
    (idle : state.call tid = .idle) (new : irp ∉ state.accepted) (formed : Formed bufs) :
    (state.startSend2 tid irp bufs).Inv strict whole none [] := by
  have moving := inv.lift tid
  rw [idle] at moving
  have pushed := moving.push new formed
  rw [SendState.startSend2]
  by_cases waits : state.sender.isSome = true ∨ 1 < (state.push irp bufs).queue.length
  · rw [if_pos waits]
    have settled := pushed.settle .idle trivial (List.Subset.refl _)
    rwa [SendState.setCall_eq_self (show (state.push irp bufs).call tid = .idle from idle)] at settled
  · rw [if_neg waits]
    rw [not_or, Bool.not_eq_true, Option.isSome_eq_false_iff, Option.isNone_iff_eq_none,
      SendState.push, length_append, length_singleton] at waits
    have empty : state.queue = [] := length_eq_zero_iff.1 (by omega)
    have queue : (state.push irp bufs).queue = irp :: [] := by
      rw [SendState.push, empty]
      rfl
    have loaded := pushed.load waits.1 queue
    have record : (state.push irp bufs).setIrpToSend.irp irp = ⟨bufs, .ready, none⟩ := by
      rw [SendState.setIrpToSend, queue]
      exact setIrp_self state irp _
    have sending : (state.push irp bufs).setIrpToSend.sending = some irp := by
      rw [SendState.setIrpToSend, queue]
      rfl
    have locked : ((state.push irp bufs).setIrpToSend.setLock irp (some tid)).Inv strict whole
        (some tid) [] := by
      refine loaded.setIrp (fun other held => ?_) rfl
      rw [record] at held
      cases held
    refine locked.settle (.sending .startSend2 irp) ⟨?_, ?_, sending⟩ (nil_subset _)
    · rw [SendState.setLock, setIrp_self]
    · rw [SendState.setLock, setIrp_self, record]

/-- The caller goes on behind `SendImmediate`; a submitter leaves its request pending. -/
theorem back (inv : state.Inv strict whole (some tid) [])
    (lock : (state.irp irp).lock = some tid) (caller : Caller) (ret : Int)
    (pending : caller = .startSend2 → ret = statusPending) :
    (state.back tid irp caller ret).Inv strict whole none [] := by
  have unlocked := inv.unlock lock
  have moved (call : SendCall) (free : call.held = []) :
      ((state.setLock irp none).setCall tid call).Inv strict whole none [] :=
    unlocked.settle call (by cases call <;> trivial) (nil_subset _)
  unfold SendState.back
  cases caller with
  | onSendReady =>
    simp only
    split
    · exact moved .readyBack rfl
    · split
      · exact moved .idle rfl
      · exact (unlocked.setFlags false (state.setLock irp none).deferred).settle .idle trivial (nil_subset _)
  | startSend3 =>
    simp only
    split
    · exact moved .taskHead rfl
    · exact moved .idle rfl
  | startSend2 =>
    simp only
    rw [if_pos (.inr (.inr (pending rfl)))]
    exact moved .idle rfl

theorem not_waiting_of_whole (inv : state.Inv strict whole (some tid) hand)
    (member : irp ∈ whole) : irp ∉ state.sending.toList ++ state.queue := by
  intro waits
  exact (nodup_append.1 (inv.distinct.sublist inv.order)).2.2 irp member irp waits rfl

theorem answerDone (inv : state.Inv strict whole (some tid) [irp])
    (lock : (state.irp irp).lock = some tid) (member : irp ∈ whole)
    (fresh : irp ∉ state.answered.map Prod.fst) (new : IrpState) :
    (state.answer irp statusSuccess new).Inv strict whole (some tid) [] := by
  have own : irp ∈ state.accepted := inv.order.mem (mem_append_left _ member)
  have answered : (state.answer irp statusSuccess new).Inv strict whole (some tid) [irp] :=
    inv.answer (fun other held => Option.some_inj.1 (held.symm.trans lock)) own fresh
      (inv.not_waiting_of_whole member) fun _ => member
  refine answered.drop ?_
  rw [SendState.answer, map_append]
  exact mem_append_right _ mem_cons_self

theorem sendImmediate (inv : state.Inv strict whole none []) {caller : Caller}
    (accepts : List Nat) (phase : state.call tid = .sending caller irp) :
    (state.sendImmediate maxBytes tid irp caller accepts).Inv strict whole none [] := by
  have sound := inv.sound tid nofun
  have moving := inv.lift tid
  rw [phase] at sound moving
  obtain ⟨lock, ready, sending⟩ := sound
  obtain ⟨sender, current, same⟩ := Option.map_eq_some_iff.1 sending
  obtain ⟨one, bufIdx, offset⟩ := sender
  obtain rfl : irp = one := same.symm
  obtain ⟨some_bufs, few, nonempty⟩ := inv.formed irp (moving.order_of_sending sending).1
  have positive : 0 < (state.irp irp).bufs.length := length_pos_iff.2 some_bufs
  unfold SendState.sendImmediate
  rw [current]
  simp only
  rw [if_neg (not_not_intro rfl), if_neg (by omega)]
  by_cases ended : (state.irp irp).bufs.length ≤ bufIdx
  · rw [if_pos ended]
    refine moving.settle _ ⟨lock, ready, ?_, rfl⟩ (nil_subset _)
    rcases inv.cursor _ current with ⟨inside, _⟩ | ⟨last, zero⟩
    · exact absurd inside (by simp only; omega)
    · rw [current]
      simp only at last zero
      rw [last, zero]
  · rw [if_neg ended]
    rcases inv.cursor _ current with ⟨inside, within⟩ | ⟨last, _⟩
    · simp only at inside within
      rw [if_neg (by omega)]
      obtain ⟨done, idx, off, bytes, ran, sent, last, stays⟩ :=
        sendLoop_spec maxBytes (state.irp irp).bufs nonempty accepts bufIdx offset inside within
      rw [ran]
      simp only
      cases done with
      | true =>
        obtain ⟨idxLast, offZero⟩ := last rfl
        have progressed := moving.progress current lock sent (.inr ⟨idxLast, offZero⟩)
        rw [if_pos rfl]
        refine progressed.settle _ ⟨lock, ready, ?_, rfl⟩ (nil_subset _)
        rw [idxLast, offZero]
      | false =>
        have progressed := moving.progress current lock sent (.inl (stays rfl))
        rw [if_neg (by decide)]
        cases caller with
        | onSendReady => exact progressed.back lock .onSendReady statusPending nofun
        | startSend2 | startSend3 => exact progressed.settle _ ⟨lock, ready, rfl⟩ (nil_subset _)
    · exact absurd last (by simp only; omega)

theorem done (inv : state.Inv strict whole none []) {caller : Caller} {ret : Int}
    (phase : state.call tid = .done caller irp ret) (new : IrpState) :
    ((if caller = .startSend2 then state else state.answer irp ret new).back tid irp caller ret).Inv
      strict whole none [] := by
  have sound := inv.sound tid nofun
  have moving := inv.lift tid
  rw [phase] at sound moving
  obtain ⟨lock, ready, member, fresh, rfl⟩ := sound
  by_cases submitter : caller = .startSend2
  · subst submitter
    rw [if_pos rfl]
    have unlocked := moving.unlock lock
    have answered : ((state.setLock irp none).answer irp statusSuccess .completed).Inv strict whole
        (some tid) [] := by
      have own : irp ∈ state.accepted := moving.order.mem (mem_append_left _ member)
      refine (unlocked.answer (fun other held => ?_) own fresh (moving.not_waiting_of_whole member)
        fun _ => member).drop ?_
      · rw [SendState.setLock, setIrp_self] at held
        cases held
      · rw [SendState.answer, map_append]
        exact mem_append_right _ mem_cons_self
    unfold SendState.back
    simp only
    rw [if_neg (by decide)]
    split
    · exact (answered.setFlags state.writing (state.deferred + 1)).settle .idle trivial (nil_subset _)
    · exact answered.settle .idle trivial (nil_subset _)
  · rw [if_neg submitter]
    refine (moving.answerDone lock member fresh new).back ?_ caller statusSuccess fun same =>
      absurd same submitter
    rw [SendState.answer]
    exact (congrArg WriteIrp.lock (setIrp_self state irp _)).trans lock

theorem removeIrpFromMap (inv : state.Inv strict whole (some tid) hand)
    (lock : (state.irp irp).lock = some tid)
    (uncut : strict = true → ∀ sender ∈ state.sender, sender.irp = irp →
      sender.bufIdx = 0 ∧ sender.offset = 0) :
    (state.removeIrpFromMap irp).Inv strict whole (some tid) (irp :: hand) ∧
      irp ∉ (state.removeIrpFromMap irp).sending.toList ++ (state.removeIrpFromMap irp).queue := by
  unfold SendState.removeIrpFromMap
  by_cases current : state.sending = some irp
  · rw [if_pos current]
    obtain ⟨sender, here, rfl⟩ := Option.map_eq_some_iff.1 current
    exact ⟨inv.removeSender here lock fun strictly => uncut strictly sender here rfl,
      (inv.order_of_sending current).2.2⟩
  · rw [if_neg current]
    refine ⟨inv.removeQueue irp, fun member => ?_⟩
    rcases mem_append.1 member with sending | queued
    · exact current (Option.mem_toList.1 sending)
    · have distinct := (nodup_append.1 (inv.distinct.sublist inv.order)).2.1
      exact ((List.Nodup.mem_erase_iff (nodup_append.1 distinct).2.1).1 queued).1 rfl

theorem cancelling (inv : state.Inv strict whole none [])
    (phase : state.call tid = .cancelling irp)
    (uncut : strict = true → (state.call tid).Uncut state) {accepts : List Nat}
    {resumed : Bool} {next : SendState}
    (moved : state.go maxBytes tid accepts resumed = some next) :
    next.Inv strict whole none [] := by
  have sound := inv.sound tid nofun
  have moving := inv.lift tid
  rw [phase] at sound moving uncut
  obtain ⟨lock, own⟩ := sound
  obtain ⟨removed, apart⟩ := moving.removeIrpFromMap lock uncut
  rw [SendState.go, phase] at moved
  simp only at moved
  have records : (state.removeIrpFromMap irp).irp = state.irp := by
    unfold SendState.removeIrpFromMap
    split <;> rfl
  have accepted : (state.removeIrpFromMap irp).accepted = state.accepted := by
    unfold SendState.removeIrpFromMap
    split <;> rfl
  have held : ((state.removeIrpFromMap irp).irp irp).lock = some tid := by rw [records, lock]
  have free (other : Nat) (mine : ((state.removeIrpFromMap irp).irp irp).lock = some other) :
      other = tid := Option.some_inj.1 (mine.symm.trans held)
  by_cases answered : irp ∈ (state.removeIrpFromMap irp).answered.map Prod.fst
  · rw [if_pos answered] at moved
    cases moved
    have changed : ((state.removeIrpFromMap irp).setIrp irp
        { (state.removeIrpFromMap irp).irp irp with state := .cancelled }).Inv strict whole
        (some tid) [] := by
      refine SendState.Inv.drop ?_ answered
      exact removed.setIrp free rfl
    refine (changed.unlock ?_).settle .idle trivial (nil_subset _)
    rw [setIrp_self]
    exact held
  · rw [if_neg answered] at moved
    cases moved
    have ended : ((state.removeIrpFromMap irp).answer irp eCanceled .cancelled).Inv strict whole
        (some tid) [] := by
      refine (removed.answer free (by rw [accepted]; exact own) answered apart ?_).drop ?_
      · exact fun never => absurd never (by decide)
      · rw [SendState.answer, map_append]
        exact mem_append_right _ mem_cons_self
    refine (ended.unlock ?_).settle .idle trivial (nil_subset _)
    exact (congrArg WriteIrp.lock (setIrp_self _ irp _)).trans held

theorem go (inv : state.Inv strict whole none []) {accepts : List Nat}
    {resumed : Bool} (orderly : (state.call tid).Orderly state)
    (uncut : strict = true → (state.call tid).Uncut state) {next : SendState}
    (moved : state.go maxBytes tid accepts resumed = some next) :
    ∃ more, next.Inv strict more none [] := by
  have sound := inv.sound tid nofun
  cases phase : state.call tid with
  | idle =>
    rw [SendState.go, phase] at moved
    cases moved
  | taskHead =>
    rw [SendState.go, phase] at moved
    have before : (state.call tid).finished = [] := by rw [phase]; rfl
    simp only at moved
    split at moved
    · next irp rest free queue =>
        cases moved
        have moving := inv.lift tid
        rw [before] at moving
        exact ⟨whole, (moving.load free queue).settle (.waiting .startSend3 irp) trivial (nil_subset _)⟩
    · cases moved
      exact ⟨whole, inv.goto before rfl⟩
  | readyHead =>
    rw [SendState.go, phase] at moved
    have before : (state.call tid).finished = [] := by rw [phase]; rfl
    simp only at moved
    split at moved
    · cases moved
      exact ⟨whole, inv.goto before rfl⟩
    · cases moved
      exact ⟨whole, inv.goto before rfl⟩
  | readyBack =>
    rw [SendState.go, phase] at moved
    have before : (state.call tid).finished = [] := by rw [phase]; rfl
    have moving := inv.lift tid
    rw [before] at moving
    simp only at moved
    split at moved
    · cases moved
      exact ⟨whole, inv.goto before rfl⟩
    · next busy =>
        split at moved
        · cases moved
          exact ⟨whole, (moving.setFlags false state.deferred).settle .idle trivial (nil_subset _)⟩
        · next waits =>
            cases moved
            rw [Bool.not_eq_true, Option.isSome_eq_false_iff, Option.isNone_iff_eq_none] at busy
            obtain ⟨irp, rest, queue⟩ := exists_cons_of_ne_nil waits
            exact ⟨whole, (moving.load busy queue).settle .readyHead trivial (nil_subset _)⟩
  | waiting caller irp =>
    rw [SendState.go, phase] at moved
    rw [phase] at orderly
    have before : (state.call tid).finished = [] := by rw [phase]; rfl
    have moving := inv.lift tid
    rw [before] at moving
    simp only at moved
    obtain ⟨free, moved⟩ := Option.ite_none_left_eq_some.1 moved
    rw [Bool.not_eq_true, Option.isSome_eq_false_iff, Option.isNone_iff_eq_none] at free
    by_cases ready : (state.irp irp).state = .ready
    · rw [ready, IrpState.canContinue_ready, if_neg (by decide)] at moved
      cases moved
      have locked : (state.setLock irp (some tid)).Inv strict whole (some tid) [] := by
        refine moving.setIrp (fun other held => ?_) rfl
        rw [free] at held
        cases held
      refine ⟨whole, locked.settle _ ⟨?_, ?_, orderly ready⟩ (nil_subset _)⟩
      · rw [SendState.setLock, setIrp_self]
      · rw [SendState.setLock, setIrp_self]
        exact ready
    · rw [if_pos (IrpState.canContinue_of_ne ready .ready).1] at moved
      cases caller with
      | startSend3 =>
        cases moved
        exact ⟨whole, inv.goto before rfl⟩
      | startSend2 | onSendReady =>
        cases moved
        exact ⟨whole, (moving.setFlags false state.deferred).settle .idle trivial (nil_subset _)⟩
  | sending caller irp =>
    rw [SendState.go, phase] at moved
    cases moved
    exact ⟨whole, inv.sendImmediate accepts phase⟩
  | crossing | misdone =>
    rw [phase] at sound
    cases sound
  | arming caller irp =>
    rw [SendState.go, phase] at moved
    have moving := inv.lift tid
    rw [phase] at sound moving
    cases moved
    exact ⟨whole, (moving.setFlags true state.deferred).back sound.1 caller statusPending fun _ => rfl⟩
  | sent caller irp ret =>
    rw [SendState.go, phase] at moved
    have moving := inv.lift tid
    rw [phase] at sound moving
    obtain ⟨lock, ready, current, ok⟩ := sound
    cases moved
    have finished := moving.finish current lock
    refine ⟨whole ++ [irp], finished.settle _ ⟨lock, ready, ?_, ?_, ok⟩ (List.Subset.refl _)⟩
    · exact mem_append_right _ mem_cons_self
    · refine inv.unanswered irp (mem_append_left _ ?_)
      rw [SendState.sending, current]
      exact mem_cons_self
  | done caller irp ret =>
    rw [SendState.go, phase] at moved
    have ended := inv.done phase (if resumed then .ready else .completed)
    cases caller with
    | startSend2 | startSend3 | onSendReady =>
      cases moved
      exact ⟨whole, ended⟩
  | cancelling irp => exact ⟨whole, inv.cancelling phase uncut moved⟩

theorem cancel (inv : state.Inv strict whole none []) (idle : state.call tid = .idle)
    (own : irp ∈ state.accepted) (free : (state.irp irp).lock = none) :
    (((state.setIrp irp { state.irp irp with state := .cancelling }).setLock irp (some tid)).setCall tid
      (.cancelling irp)).Inv strict whole none [] := by
  have moving := inv.lift tid
  rw [idle] at moving
  have none_holds (other : Nat) (held : (state.irp irp).lock = some other) : other = tid := by
    rw [free] at held
    cases held
  have changed : (state.setIrp irp { state.irp irp with state := .cancelling }).Inv strict whole
      (some tid) [] := moving.setIrp none_holds rfl
  have locked : ((state.setIrp irp { state.irp irp with state := .cancelling }).setLock irp
      (some tid)).Inv strict whole (some tid) [] := by
    refine changed.setIrp (fun other held => none_holds other ?_) rfl
    rw [setIrp_self] at held
    exact held
  refine locked.settle _ ⟨?_, own⟩ (nil_subset _)
  rw [SendState.setLock, setIrp_self]

theorem step (inv : state.Inv strict whole none []) {move : SendMove}
    (orderly : move.Orderly state) (uncut : strict = true → move.Uncut state) {next : SendState}
    (moved : state.step maxBytes move = some next) : ∃ more, next.Inv strict more none [] := by
  cases move with
  | submit tid irp bufs =>
    obtain ⟨enabled, ⟨⟩⟩ := Option.ite_none_right_eq_some.1 moved
    exact ⟨whole, inv.startSend2 enabled.1 enabled.2 orderly⟩
  | ready =>
    obtain ⟨enabled, ⟨⟩⟩ := Option.ite_none_right_eq_some.1 moved
    exact ⟨whole, inv.goto (by rw [enabled.1]; rfl) rfl⟩
  | task tid =>
    obtain ⟨enabled, ⟨⟩⟩ := Option.ite_none_right_eq_some.1 moved
    have moving := inv.lift tid
    rw [enabled.1] at moving
    exact ⟨whole, (moving.setFlags state.writing (state.deferred - 1)).settle .taskHead trivial (nil_subset _)⟩
  | cancel tid irp =>
    obtain ⟨enabled, ⟨⟩⟩ := Option.ite_none_right_eq_some.1 moved
    exact ⟨whole, inv.cancel enabled.1 enabled.2.1 enabled.2.2.1⟩
  | go tid accepts resumed => exact inv.go orderly uncut moved

end SendState.Inv

def SendState.Ordered (strict : Bool) (state : SendState) : Prop :=
  ∃ whole, state.Inv strict whole none []

theorem sendMachine_start (maxBytes : Nat) (strict : Bool) : (sendMachine maxBytes).start.Ordered strict :=
  ⟨[], fun _ => rfl, List.Sublist.refl [], nodup_nil, nofun, nodup_nil, nofun, nofun, nofun,
    nofun, nofun, fun _ _ => trivial⟩

theorem SendState.Inv.framed {state : SendState} {whole : List Nat}
    (inv : state.Inv true whole none []) : state.Framed := by
  refine ⟨⟨whole, state.partial_, inv.wire rfl, ?_, inv.order, inv.success⟩, inv.distinct, inv.once, ?_⟩
  · rw [SendState.partial_, SendState.current, SendState.sending]
    cases state.sender with
    | none => exact prefix_refl []
    | some sender => exact sentBytes_prefix _ sender.bufIdx sender.offset
  · intro idle irp member
    obtain answered | here | never | ⟨tid, _, finished⟩ := inv.placed irp member
    · exact .inl answered
    · exact .inr ((mem_append.1 here).imp_left Option.mem_toList.1)
    · cases never
    · rw [idle tid] at finished
      cases finished

/-- The wire of a socket port, in every run whose steps meet the condition. -/
theorem framed_of_uncut {maxBytes : Nat} {state : SendState}
    (reachable : ((sendMachine maxBytes).restrict fun state move =>
      move.Orderly state ∧ move.Uncut state).Reachable state) : state.Framed := by
  have ordered : state.Ordered true := by
    refine reachable.invariant (sendMachine_start maxBytes true) ?_
    intro before move after _ ordered moved
    obtain ⟨whole, inv⟩ := ordered
    obtain ⟨⟨orderly, uncut⟩, stepped⟩ := Machine.restrict_step.1 moved
    exact inv.step orderly (fun _ => uncut) stepped
  obtain ⟨whole, inv⟩ := ordered
  exact inv.framed

def twoRequests : List SendMove :=
  [.submit 1 0 [[1, 2], [3]], .go 1 [1] false, .go 1 [] false, .submit 2 1 [[4]], .ready,
    .go 0 [] false, .go 0 [] false, .go 0 [1, 1] false, .go 0 [] false, .go 0 [] false, .go 0 [] false,
    .go 0 [] false, .go 0 [] false, .go 0 [1] false, .go 0 [] false, .go 0 [] false, .go 0 [] false]

theorem framed_twoRequests : ∃ state,
    ((sendMachine 4096).restrict fun state move => move.Orderly state ∧ move.Uncut state).run
      (sendMachine 4096).start twoRequests = some state ∧
    state.wire = [1, 2, 3, 4] ∧ state.answered = [(0, 0), (1, 0)] ∧ state.Framed := by
  have ran : ((sendMachine 4096).restrict fun state move => move.Orderly state ∧ move.Uncut state).run
      (sendMachine 4096).start twoRequests = some _ := rfl
  exact ⟨_, ran, rfl, rfl, framed_of_uncut (Machine.Reachable.start.run ran)⟩

/-- The first request is cancelled with one of its two bytes on the wire; the second one
begins behind this byte. -/
def cancelCut : List SendMove :=
  [.submit 1 0 [[1, 2]], .go 1 [1] false, .go 1 [] false, .cancel 1 0, .go 1 [] false,
    .submit 2 1 [[3]], .go 2 [1] false, .go 2 [] false, .go 2 [] false]

/-- The bytes on the wire do not begin with a whole request, and no request is being
sent. -/
theorem cancelCut_frames : ¬ ∀ state, (sendMachine 4096).Reachable state → state.Framed := by
  intro all
  have ran : ∃ state, (sendMachine 4096).run (sendMachine 4096).start cancelCut = some state ∧
      state.wire = [1, 3] ∧ state.current = [] ∧ state.accepted = [0, 1] ∧
      (state.irp 0).bytes = [1, 2] ∧ (state.irp 1).bytes = [3] := ⟨_, rfl, rfl, rfl, rfl, rfl, rfl⟩
  obtain ⟨state, ran, wire, current, accepted, first, second⟩ := ran
  obtain ⟨whole, rest, split, last, order, _⟩ := (all _ (Machine.Reachable.start.run ran)).frames
  rw [current, prefix_nil] at last
  rw [wire, last, append_nil] at split
  have fewer : whole.Sublist [0, 1] := accepted ▸ (sublist_append_left whole _).trans order
  have listed : whole ∈ [[], [0], [1], [0, 1]] := mem_sublists.2 fewer
  simp only [mem_cons, not_mem_nil, or_false] at listed
  rcases listed with rfl | rfl | rfl | rfl <;> simp [first, second] at split

end RpcFrmwrk.Rpc
