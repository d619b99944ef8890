import Mathlib.Data.List.Nodup
import RpcFrmwrk.Rpc.NativeSend

/-! What the native protocol port hands to its lower port over whole runs. Owns
`NativeState.OneAtATime`, what the flag, the lower port and the queues tell of each other; the token
that the sending flag stands for; the duty to start the next request. -/

namespace RpcFrmwrk.Rpc

open RpcFrmwrk.Library RpcFrmwrk.Ipc List

namespace NativeCall

/-- The thread is about to hand a request to the lower port in place of the thread that
took it from its queue, or to clear the sending flag. -/
def Hands : NativeCall → Prop
  | .clearing _ | .deferring _ | .deferred _ _ | .cancelling _ true => True
  | _ => False

def Starts : NativeCall → Prop
  | .starting _ _ => True
  | _ => False

/-- The requests that the thread took from a queue and has not handed over, if it hands. -/
def holds : NativeCall → Option (List Nat)
  | .clearing _ | .deferred _ _ | .cancelling _ true => some []
  | .deferring irp => some [irp]
  | _ => none

theorem hands_iff (call : NativeCall) : call.Hands ↔ call.holds ≠ none := by
  cases call with
  | cancelling irp sendDone => cases sendDone <;> simp [Hands, holds]
  | _ => simp [Hands, holds]

end NativeCall

/-- At most one request is outstanding at the lower port or scheduled to go there; the
sending flag is set exactly while one is, or while the thread runs that hands it over or
takes it back; the requests of a stream are handed over in the order of its queue, each
once at most; and while no thread is in the port and nothing is outstanding or
scheduled, the queues are empty. -/
structure NativeState.OneAtATime (state : NativeState) : Prop where
  single : state.lower.length + state.scheduled.length ≤ 1
  flag : state.sending = true ↔
    state.lower ≠ [] ∨ state.scheduled ≠ [] ∨ ∃ tid, (state.call tid).Hands
  order : ∀ stm, (state.handed.filter fun irp => (state.irp irp).stm = stm).Sublist
    (state.accepted.filter fun irp => (state.irp irp).stm = stm)
  once : state.handed.Nodup
  emptied : (∀ tid, state.call tid = .idle) → state.lower = [] → state.scheduled = [] →
    ∀ stm ∈ state.streams, state.queue stm = []

/-- What the sending flag stands for: nothing, a request at the lower port, one that is
scheduled to go there, or a thread with what it is to hand over. -/
inductive SendToken where
  | nowhere
  | lower (irp : Nat)
  | scheduled (irp : Nat)
  | thread (tid : Nat) (hand : List Nat)
deriving DecidableEq, Repr

namespace SendToken

def atLower : SendToken → List Nat
  | .lower irp => [irp]
  | _ => []

def inTask : SendToken → List Nat
  | .scheduled irp => [irp]
  | _ => []

def hand : SendToken → List Nat
  | .scheduled irp => [irp]
  | .thread _ hand => hand
  | _ => []

def holds (token : SendToken) (tid : Nat) : Option (List Nat) :=
  match token with
  | .thread holder hand => if tid = holder then some hand else none
  | _ => none

theorem holds_self (tid : Nat) (hand : List Nat) :
    (SendToken.thread tid hand).holds tid = some hand := if_pos rfl

theorem holds_of_ne {tid other : Nat} (apart : other ≠ tid) (hand : List Nat) :
    (SendToken.thread tid hand).holds other = none := if_neg apart

end SendToken

/-- There is one token at most. While there is none and a queue is not empty, some
thread will look for a request to send. -/
structure NativeState.Inv (state : NativeState) (token : SendToken) : Prop where
  sending : state.sending = true ↔ token ≠ .nowhere
  lower : state.lower = token.atLower
  scheduled : state.scheduled = token.inTask
  calls : ∀ tid, (state.call tid).holds = token.holds tid
  order : ∀ stm, ((state.handed ++ token.hand).filter (fun irp => (state.irp irp).stm = stm) ++
    state.queue stm).Sublist (state.accepted.filter fun irp => (state.irp irp).stm = stm)
  distinct : state.accepted.Nodup
  known : ∀ irp ∈ state.accepted, irp ∈ state.submitted
  waiting : ∀ stm ∈ state.streams, state.queue stm ≠ [] → stm ∈ state.cycQue
  opened : ∀ stm ∈ state.streams, stm ∈ state.opened
  unopened : ∀ stm, stm ∉ state.opened → state.queue stm = []
  duty : token = .nowhere → (∃ stm ∈ state.streams, state.queue stm ≠ []) →
    ∃ tid, (state.call tid).Starts

namespace NativeState

variable (state : NativeState)

@[simp] theorem setCall_self (tid : Nat) (call : NativeCall) : (state.setCall tid call).call tid = call := by
  simp [setCall]

theorem setCall_of_ne {tid other : Nat} (apart : other ≠ tid)
    (call : NativeCall) :
    (state.setCall tid call).call other = state.call other := by
  simp [setCall, apart]

@[simp] theorem setQueue_self (stm : Nat) (queue : List Nat) :
    (state.setQueue stm queue).queue stm = queue := by
  simp [setQueue]

theorem setQueue_of_ne {stm other : Nat} (apart : other ≠ stm)
    (queue : List Nat) : (state.setQueue stm queue).queue other = state.queue other := by
  simp [setQueue, apart]

theorem setIrp_stm {irp : Nat} {request : PacketIrp}
    (same : request.stm = (state.irp irp).stm) (other : Nat) :
    ((state.setIrp irp request).irp other).stm = (state.irp other).stm := by
  by_cases equal : other = irp
  · subst equal
    simp [setIrp, same]
  · simp [setIrp, equal]

namespace Inv

variable {state : NativeState} {token : SendToken} {tid : Nat}

theorem oneAtATime (inv : state.Inv token) : state.OneAtATime := by
  have order (stm : Nat) : (state.handed.filter fun irp => (state.irp irp).stm = stm).Sublist
      (state.accepted.filter fun irp => (state.irp irp).stm = stm) := by
    refine List.Sublist.trans ?_ (inv.order stm)
    exact ((sublist_append_left _ _).filter _).trans (sublist_append_left _ _)
  refine ⟨?_, ?_, order, ?_, fun idle noLower noTask stm open_ => ?_⟩
  · rw [inv.lower, inv.scheduled]
    cases token <;> simp [SendToken.atLower, SendToken.inTask]
  · rw [inv.sending, inv.lower, inv.scheduled]
    have hands (other : Nat) : (state.call other).Hands ↔ token.holds other ≠ none := by
      rw [NativeCall.hands_iff, inv.calls]
    simp only [hands]
    cases token with
    | nowhere => simp [SendToken.atLower, SendToken.inTask, SendToken.holds]
    | lower irp => simp [SendToken.atLower]
    | scheduled irp => simp [SendToken.inTask]
    | thread holder hand => simp [SendToken.holds]
  · rw [nodup_iff_count_le_one]
    intro irp
    have fewer := (order (state.irp irp).stm).count_le irp
    rw [count_filter (by simp), count_filter (by simp)] at fewer
    exact Nat.le_trans fewer (nodup_iff_count_le_one.1 inv.distinct irp)
  · have nowhere : token = .nowhere := by
      cases token with
      | nowhere => rfl
      | lower irp => cases noLower.symm.trans inv.lower
      | scheduled irp => cases noTask.symm.trans inv.scheduled
      | thread holder hand =>
        have held := inv.calls holder
        rw [idle holder, SendToken.holds, if_pos rfl] at held
        cases held
    by_contra waits
    obtain ⟨other, starts⟩ := inv.duty nowhere ⟨stm, open_, waits⟩
    rw [idle other] at starts
    cases starts

theorem setCall (inv : state.Inv token) {call : NativeCall}
    (same : call.holds = (state.call tid).holds)
    (duty : (state.call tid).Starts → call.Starts ∨ token ≠ .nowhere ∨
      ∀ stm ∈ state.streams, state.queue stm = []) :
    (state.setCall tid call).Inv token := by
  refine ⟨inv.sending, inv.lower, inv.scheduled, fun other => ?_, inv.order, inv.distinct, inv.known,
    inv.waiting, inv.opened, inv.unopened, fun none some => ?_⟩
  · rw [← inv.calls other]
    by_cases mine : other = tid
    · subst mine
      rw [setCall_self]
      exact same
    · rw [setCall_of_ne state mine]
  · obtain ⟨other, starts⟩ := inv.duty none some
    by_cases mine : other = tid
    · subst mine
      obtain here | busy | empty := duty starts
      · refine ⟨other, ?_⟩
        rw [setCall_self]
        exact here
      · exact absurd none busy
      · obtain ⟨stm, open_, waits⟩ := some
        exact absurd (empty stm open_) waits
    · refine ⟨other, ?_⟩
      rw [setCall_of_ne state mine]
      exact starts

theorem setIrp (inv : state.Inv token) {irp : Nat} {request : PacketIrp}
    (same : request.stm = (state.irp irp).stm) : (state.setIrp irp request).Inv token := by
  refine ⟨inv.sending, inv.lower, inv.scheduled, inv.calls, fun stm => ?_, inv.distinct, inv.known,
    inv.waiting, inv.opened, inv.unopened, inv.duty⟩
  simp only [setIrp_stm state same]
  exact inv.order stm

theorem setToComplete (inv : state.Inv token) (toComplete : List (Nat × Int)) :
    ({ state with toComplete := toComplete } : NativeState).Inv token :=
  { inv with }

theorem shorten (inv : state.Inv token) {queue : Nat → List Nat}
    (shorter : ∀ stm, (queue stm).Sublist (state.queue stm)) :
    ({ state with queue := queue } : NativeState).Inv token := by
  have before {stm : Nat} (waits : queue stm ≠ []) : state.queue stm ≠ [] := by
    intro empty
    have none := shorter stm
    rw [empty] at none
    exact waits (sublist_nil.1 none)
  refine ⟨inv.sending, inv.lower, inv.scheduled, inv.calls, fun stm => ?_, inv.distinct, inv.known,
    fun stm open_ waits => inv.waiting stm open_ (before waits), inv.opened, fun stm closed => ?_,
    fun none some => ?_⟩
  · exact ((List.Sublist.refl _).append (shorter stm)).trans (inv.order stm)
  · by_contra waits
    exact before waits (inv.unopened stm closed)
  · obtain ⟨stm, open_, waits⟩ := some
    exact inv.duty none ⟨stm, open_, before waits⟩

theorem finish (inv : state.Inv token) (starts : (state.call tid).Starts)
    (ended : token ≠ .nowhere ∨ ∀ stm ∈ state.streams, state.queue stm = []) (role : SendRole)
    (done : List (Nat × Int)) : (state.finish tid role done).Inv token := by
  have nothing : (state.call tid).holds = none := by
    cases phase : state.call tid with
    | starting => rfl
    | _ =>
      rw [phase] at starts
      cases starts
  have released (irp : Nat) (new : IrpState) : ((state.release irp new).setCall tid .idle).Inv token := by
    have same : ({ state.irp irp with state := new, lock := none } : PacketIrp).stm = (state.irp irp).stm := rfl
    refine (inv.setIrp same).setCall ?_ fun _ => .inr ended
    exact nothing.symm
  unfold NativeState.finish
  cases role with
  | submit irp =>
    simp only
    split
    · split
      · exact released irp .completed
      · exact (released irp _).setToComplete _
    · exact (released irp _).setToComplete _
  | complete irp ret => exact (released irp _).setToComplete _
  | cancel irp => exact (released irp .cancelled).setToComplete _
  | deferred =>
    refine setToComplete (inv.setCall ?_ fun _ => .inr ended) _
    exact nothing.symm

end Inv

theorem getStreamToSend_spec (cycQue : List Nat) :
    (state.getStreamToSend cycQue = (none, []) ∧ ∀ stm ∈ cycQue, state.queue stm = []) ∨
      ∃ stm rest, state.getStreamToSend cycQue = (some stm, rest) ∧ state.queue stm ≠ [] ∧
        ∀ other ∈ cycQue, state.queue other ≠ [] → other ∈ rest := by
  induction cycQue with
  | nil => exact .inl ⟨rfl, nofun⟩
  | cons stm cycQue ih =>
    rw [getStreamToSend]
    by_cases empty : state.queue stm = []
    · rw [if_pos empty]
      obtain ⟨none, empties⟩ | ⟨found, rest, some, waits, kept⟩ := ih
      · exact .inl ⟨none, forall_mem_cons.2 ⟨empty, empties⟩⟩
      · refine .inr ⟨found, rest, some, waits, fun other member otherWaits => ?_⟩
        rcases mem_cons.1 member with rfl | later
        · exact absurd empty otherWaits
        · exact kept other later otherWaits
    · rw [if_neg empty]
      refine .inr ⟨stm, _, rfl, empty, fun other member _ => ?_⟩
      split
      · next last => exact last ▸ member
      · rcases mem_cons.1 member with rfl | later
        · exact mem_append_right _ mem_cons_self
        · exact mem_append_left _ later

namespace Inv

variable {state : NativeState} {token : SendToken} {tid : Nat}
variable {stm irp : Nat} {next : NativeState}

theorem order_front (inv : state.Inv .nowhere) {rest : List Nat}
    (queue : state.queue stm = irp :: rest) (other : Nat) :
    ((state.handed ++ [irp]).filter (fun one => (state.irp one).stm = other) ++
      (state.setQueue stm rest).queue other).Sublist
        (state.accepted.filter fun one => (state.irp one).stm = other) := by
  have order := inv.order stm
  have mine : (state.irp irp).stm = stm := by
    have member := order.mem (mem_append_right _ (queue ▸ mem_cons_self))
    simpa using (mem_filter.1 member).2
  have before := inv.order other
  rw [show SendToken.nowhere.hand = [] from rfl, append_nil] at before
  rw [filter_append, NativeState.setQueue]
  by_cases same : other = stm
  · subst same
    rw [queue] at before
    simp only [mine, Function.update_self, filter_cons, filter_nil, decide_true, if_true,
      append_assoc, singleton_append]
    exact before
  · have apart : ¬ (state.irp irp).stm = other := fun equal => same (equal.symm.trans mine)
    simp only [apart, Function.update_of_ne same, filter_cons, filter_nil, decide_false,
      Bool.false_eq_true, if_false, append_nil]
    exact before

variable {lower scheduled handed : List Nat} {role : SendRole} {call : NativeCall}

theorem take (inv : state.Inv .nowhere) {rest cycQue : List Nat}
    (queue : state.queue stm = irp :: rest)
    (kept : ∀ other ∈ state.cycQue, state.queue other ≠ [] → other ∈ cycQue)
    (starts : (state.call tid).Starts) {next : SendToken} {sending : Bool}
    (flag : sending = true ↔ next ≠ .nowhere)
    (atLower : lower = next.atLower) (inTask : scheduled = next.inTask)
    (nobody : ∀ other, next.holds other = none)
    (order : (handed ++ next.hand).Sublist (state.handed ++ [irp])) :
    ({ state.setQueue stm rest with
        cycQue := cycQue, sending := sending, lower := lower, scheduled := scheduled
        handed := handed } : NativeState).Inv next := by
  have shorter (other : Nat) (waits : (state.setQueue stm rest).queue other ≠ []) : state.queue other ≠ [] := by
    by_cases same : other = stm
    · subst same
      rw [queue]
      exact cons_ne_nil _ _
    · rw [setQueue_of_ne state same] at waits
      exact waits
  refine ⟨flag, atLower, inTask, fun other => ?_, fun other => ?_, inv.distinct, inv.known,
    fun other open_ waits => ?_, inv.opened, fun other closed => ?_, fun _ _ => ⟨tid, starts⟩⟩
  · rw [nobody]
    exact inv.calls other
  · refine List.Sublist.trans ?_ (inv.order_front queue other)
    exact (order.filter _).append (List.Sublist.refl _)
  · have before := shorter other waits
    exact kept other (inv.waiting other open_ before) before
  · by_contra waits
    exact shorter other waits (inv.unopened other closed)

theorem startSend (inv : state.Inv token) {done : List (Nat × Int)}
    (phase : state.call tid = .starting role done) (answer : LowerAnswer) :
    ∃ token, (state.startSend tid role done answer).Inv token := by
  have starts : (state.call tid).Starts := by rw [phase]; trivial
  unfold NativeState.startSend
  by_cases busy : state.sending = true
  · rw [if_pos busy]
    exact ⟨token, inv.finish starts (.inl (inv.sending.1 busy)) role done⟩
  · rw [if_neg busy]
    obtain rfl : token = .nowhere := by
      by_contra some
      exact busy (inv.sending.2 some)
    have turn (cycQue : List Nat)
        (kept : ∀ stm ∈ state.cycQue, state.queue stm ≠ [] → stm ∈ cycQue) :
        ({ state with cycQue := cycQue } : NativeState).Inv .nowhere :=
      ⟨inv.sending, inv.lower, inv.scheduled, inv.calls, inv.order, inv.distinct, inv.known,
        fun stm open_ waits => kept stm (inv.waiting stm open_ waits) waits, inv.opened, inv.unopened,
        inv.duty⟩
    obtain ⟨none, empties⟩ | ⟨stm, rest, found, waits, kept⟩ :=
      getStreamToSend_spec state state.cycQue
    · rw [none]
      refine ⟨.nowhere, finish (turn [] fun stm member some => absurd (empties stm member) some) starts
        (.inr fun stm open_ => ?_) role done⟩
      by_contra some
      exact some (empties stm (inv.waiting stm open_ some))
    · rw [found]
      obtain ⟨irp, queue, front⟩ := exists_cons_of_ne_nil waits
      have noLower : state.lower = [] := inv.lower
      have noTask : state.scheduled = [] := inv.scheduled
      have idle : state.sending = false := by simpa using busy
      have nobody (other : Nat) : SendToken.nowhere.holds other = none := rfl
      have onward (more : List (Nat × Int)) :
          NativeCall.holds (.starting role more) = (state.call tid).holds := by
        rw [phase]
        rfl
      have giveUp (ret : Int) : ({ state.setQueue stm queue with cycQue := rest }.setCall tid
          (.starting role (done ++ [(irp, ret)])) : NativeState).Inv .nowhere := by
        have dropped : ({ state.setQueue stm queue with cycQue := rest } : NativeState).Inv .nowhere := by
          refine inv.take front kept starts inv.sending inv.lower inv.scheduled nobody ?_
          rw [show SendToken.nowhere.hand = [] from rfl, append_nil]
          exact sublist_append_left _ _
        exact dropped.setCall (onward _) fun _ => .inl trivial
      have deferIt : ({ state.setQueue stm queue with
            cycQue := rest, sending := true, scheduled := irp :: state.scheduled } :
          NativeState).Inv (.scheduled irp) := by
        rw [noTask]
        refine inv.take front kept starts ?_ inv.lower rfl (fun _ => rfl) (List.Sublist.refl _)
        exact ⟨nofun, fun _ => rfl⟩
      simp only
      rw [front]
      simp only
      by_cases locked : role.irpLocked = some irp
      · rw [if_pos locked]
        cases answer with
        | pending =>
          have handed : ({ state.setQueue stm queue with
              cycQue := rest, sending := true, lower := irp :: state.lower
              handed := state.handed ++ [irp] } : NativeState).Inv (.lower irp) := by
            rw [noLower]
            refine inv.take front kept starts ⟨nofun, fun _ => rfl⟩ rfl inv.scheduled (fun _ => rfl) ?_
            rw [show (SendToken.lower irp).hand = [] from rfl, append_nil]
          exact ⟨_, handed.finish starts (.inl nofun) role done⟩
        | done ret =>
          have handed : ({ state.setQueue stm queue with
              cycQue := rest, handed := state.handed ++ [irp] } : NativeState).Inv .nowhere := by
            refine inv.take front kept starts inv.sending inv.lower inv.scheduled nobody ?_
            rw [show SendToken.nowhere.hand = [] from rfl, append_nil]
          exact ⟨_, handed.setCall (onward _) fun _ => .inl trivial⟩
        | refused ret => exact ⟨_, giveUp ret⟩
      · rw [if_neg locked]
        cases answer with
        | refused ret => exact ⟨_, giveUp ret⟩
        | pending | done => exact ⟨_, deferIt.finish starts (.inl nofun) role done⟩

/-! ### The token moves -/

theorem pass (inv : state.Inv token) {next : SendToken} {sending : Bool}
    (others : ∀ other, other ≠ tid → token.holds other = next.holds other)
    (mine : call.holds = next.holds tid) (flag : sending = true ↔ next ≠ .nowhere)
    (atLower : lower = next.atLower) (inTask : scheduled = next.inTask)
    (order : (handed ++ next.hand).Sublist (state.handed ++ token.hand))
    (duty : next = .nowhere → call.Starts) :
    ({ state.setCall tid call with
        sending := sending, lower := lower, scheduled := scheduled, handed := handed } :
      NativeState).Inv next := by
  refine ⟨flag, atLower, inTask, fun other => ?_, fun stm => ?_, inv.distinct, inv.known, inv.waiting,
    inv.opened, inv.unopened, fun none _ => ⟨tid, ?_⟩⟩
  · show ((state.setCall tid call).call other).holds = next.holds other
    by_cases same : other = tid
    · subst same
      rw [setCall_self, mine]
    · rw [setCall_of_ne state same, inv.calls, others other same]
  · refine List.Sublist.trans ?_ (inv.order stm)
    exact (order.filter _).append (List.Sublist.refl _)
  · show NativeCall.Starts ((state.setCall tid call).call tid)
    rw [setCall_self]
    exact duty none

theorem token_of_call (inv : state.Inv token) {hand : List Nat}
    (holds : (state.call tid).holds = some hand) : token = .thread tid hand := by
  have held := inv.calls tid
  rw [holds] at held
  cases token with
  | thread holder hand' =>
    rw [SendToken.holds] at held
    obtain ⟨same, ⟨⟩⟩ := Option.ite_none_right_eq_some.1 held.symm
    rw [same]
  | _ => cases held

theorem token_of_lower (inv : state.Inv token) (member : irp ∈ state.lower) : token = .lower irp := by
  rw [inv.lower] at member
  cases token with
  | lower other => rw [mem_singleton.1 member]
  | _ => cases member

theorem token_of_scheduled (inv : state.Inv token) (member : irp ∈ state.scheduled) :
    token = .scheduled irp := by
  rw [inv.scheduled] at member
  cases token with
  | scheduled other => rw [mem_singleton.1 member]
  | _ => cases member

theorem clearing (inv : state.Inv token)
    (phase : state.call tid = .clearing role) :
    ({ state with sending := false }.setCall tid (.starting role []) : NativeState).Inv .nowhere := by
  obtain rfl : token = .thread tid [] := inv.token_of_call (by rw [phase]; rfl)
  exact inv.pass (fun other apart => SendToken.holds_of_ne apart []) rfl
    ⟨nofun, fun some => absurd rfl some⟩ inv.lower inv.scheduled (List.Sublist.refl _) fun _ => trivial

theorem deferring (inv : state.Inv token) (phase : state.call tid = .deferring irp)
    (answer : LowerAnswer) (moved : state.go tid answer = some next) :
    ∃ token, next.Inv token := by
  obtain rfl : token = .thread tid [irp] := inv.token_of_call (by rw [phase]; rfl)
  have flag : state.sending = true ↔ SendToken.thread tid [] ≠ .nowhere :=
    ⟨nofun, fun _ => inv.sending.2 nofun⟩
  have elsewhere (other : Nat) (apart : other ≠ tid) :
      (SendToken.thread tid [irp]).holds other = (SendToken.thread tid []).holds other := by
    rw [SendToken.holds_of_ne apart, SendToken.holds_of_ne apart]
  have keep {call : NativeCall} (holds : call.holds = some []) :
      (state.setCall tid call).Inv (.thread tid []) := by
    refine inv.pass elsewhere (holds.trans (SendToken.holds_self tid []).symm) flag inv.lower
      inv.scheduled ?_ nofun
    rw [show (SendToken.thread tid []).hand = [] from rfl, append_nil]
    exact sublist_append_left _ _
  rw [NativeState.go, phase] at moved
  simp only at moved
  obtain ⟨_, moved⟩ := Option.ite_none_left_eq_some.1 moved
  split at moved
  · cases moved
    exact ⟨_, keep rfl⟩
  · cases answer with
    | pending =>
      cases moved
      have noLower : state.lower = [] := inv.lower
      rw [noLower]
      refine ⟨.lower irp, inv.pass (fun other apart => SendToken.holds_of_ne apart [irp]) rfl
        ⟨nofun, fun _ => inv.sending.2 nofun⟩ rfl inv.scheduled ?_ nofun⟩
      rw [show (SendToken.lower irp).hand = [] from rfl, append_nil]
      exact List.Sublist.refl _
    | done ret =>
      cases moved
      refine ⟨.thread tid [], inv.pass elsewhere (SendToken.holds_self tid []).symm flag inv.lower
        inv.scheduled ?_ nofun⟩
      rw [show (SendToken.thread tid []).hand = [] from rfl, append_nil]
      exact List.Sublist.refl _
    | refused ret =>
      cases moved
      exact ⟨_, keep rfl⟩

theorem takeBack (inv : state.Inv token) (sent : irp ∈ state.lower)
    (holds : call.holds = some []) :
    ({ state with lower := state.lower.erase irp }.setCall tid call : NativeState).Inv (.thread tid []) := by
  obtain rfl := inv.token_of_lower sent
  have one : state.lower.erase irp = [] := by
    rw [show state.lower = [irp] from inv.lower, erase_cons_head]
  rw [one]
  exact inv.pass (fun other apart => (SendToken.holds_of_ne apart []).symm)
    (holds.trans (SendToken.holds_self tid []).symm) ⟨nofun, fun _ => inv.sending.2 nofun⟩ rfl
    inv.scheduled (List.Sublist.refl _) nofun

theorem task (inv : state.Inv token) (scheduled : irp ∈ state.scheduled) :
    ({ state with scheduled := state.scheduled.erase irp }.setCall tid (.deferring irp) :
      NativeState).Inv (.thread tid [irp]) := by
  obtain rfl := inv.token_of_scheduled scheduled
  have one : state.scheduled.erase irp = [] := by
    rw [show state.scheduled = [irp] from inv.scheduled, erase_cons_head]
  rw [one]
  exact inv.pass (fun other apart => (SendToken.holds_of_ne apart [irp]).symm)
    (SendToken.holds_self tid [irp]).symm ⟨nofun, fun _ => inv.sending.2 nofun⟩ inv.lower rfl
    (List.Sublist.refl _) nofun

theorem cancelling (inv : state.Inv token) {sendDone : Bool}
    (phase : state.call tid = .cancelling irp sendDone)
    (moved : (if sendDone = true then some (state.setCall tid (.clearing (.cancel irp)))
      else some ((state.release irp .cancelled).setCall tid .idle)) = some next) :
    next.Inv token := by
  have unstarted : ¬ (state.call tid).Starts := by
    rw [phase]
    exact id
  cases sendDone with
  | true =>
    cases moved
    refine inv.setCall ?_ fun starts => absurd starts unstarted
    rw [phase]
    rfl
  | false =>
    cases moved
    have same : ({ state.irp irp with state := .cancelled, lock := none } : PacketIrp).stm =
        (state.irp irp).stm := rfl
    refine (inv.setIrp same).setCall ?_ fun starts => absurd starts unstarted
    show NativeCall.idle.holds = (state.call tid).holds
    rw [phase]
    rfl

theorem go (inv : state.Inv token) {answer : LowerAnswer}
    (moved : state.go tid answer = some next) : ∃ token, next.Inv token := by
  cases phase : state.call tid with
  | idle =>
    rw [NativeState.go, phase] at moved
    cases moved
  | starting role done =>
    rw [NativeState.go, phase] at moved
    cases moved
    exact inv.startSend phase answer
  | clearing role =>
    rw [NativeState.go, phase] at moved
    cases moved
    exact ⟨_, inv.clearing phase⟩
  | deferring irp => exact inv.deferring phase answer moved
  | deferred irp ret =>
    have onward : NativeCall.holds (.clearing .deferred) = (state.call tid).holds := by
      rw [phase]
      rfl
    have unstarted : ¬ (state.call tid).Starts := by
      rw [phase]
      exact id
    rw [NativeState.go, phase] at moved
    simp only at moved
    split at moved
    · cases moved
    · split at moved
      · cases moved
        refine ⟨token, NativeState.Inv.setCall (inv.setIrp ?_) onward fun starts => absurd starts unstarted⟩
        rfl
      · cases moved
        exact ⟨token, inv.setCall onward fun starts => absurd starts unstarted⟩
  | cancelling irp sendDone =>
    rw [NativeState.go, phase] at moved
    simp only at moved
    have removed : (state.setQueue (state.irp irp).stm
        ((state.queue (state.irp irp).stm).erase irp)).Inv token := by
      refine inv.shorten fun stm => ?_
      by_cases mine : stm = (state.irp irp).stm
      · rw [mine, Function.update_self]
        exact erase_sublist
      · rw [Function.update_of_ne mine]
    by_cases open_ : (state.irp irp).stm ∈ state.streams
    · rw [if_pos open_] at moved
      exact ⟨token, removed.cancelling phase moved⟩
    · rw [if_neg open_] at moved
      exact ⟨token, inv.cancelling phase moved⟩

theorem listed (inv : state.Inv token) (left : irp ∈ state.handed ++ token.hand) : irp ∈ state.accepted := by
  have member : irp ∈ (state.handed ++ token.hand).filter
      fun one => (state.irp one).stm = (state.irp irp).stm := by
    simpa using left
  exact (mem_filter.1 ((inv.order _).mem (mem_append_left _ member))).1

theorem setIrp_new (inv : state.Inv token) (new : irp ∉ state.accepted)
    (request : PacketIrp) : (state.setIrp irp request).Inv token := by
  have same (one : Nat) (old : one ∈ state.accepted) :
      ((state.setIrp irp request).irp one).stm = (state.irp one).stm := by
    have apart : one ≠ irp := fun equal => new (equal ▸ old)
    simp [NativeState.setIrp, apart]
  refine ⟨inv.sending, inv.lower, inv.scheduled, inv.calls, fun stm => ?_, inv.distinct, inv.known,
    inv.waiting, inv.opened, inv.unopened, inv.duty⟩
  have filtered (irps : List Nat) (old : ∀ one ∈ irps, one ∈ state.accepted) :
      irps.filter (fun one => ((state.setIrp irp request).irp one).stm = stm) =
        irps.filter fun one => (state.irp one).stm = stm := by
    refine filter_congr fun one member => ?_
    rw [same one (old one member)]
  have before := inv.order stm
  rw [← filtered _ fun one => inv.listed, ← filtered _ fun one => id] at before
  exact before

theorem enqueue (inv : state.Inv token) (idle : state.call tid = .idle)
    (new : irp ∉ state.accepted) (known : irp ∈ state.submitted) (mine : (state.irp irp).stm = stm)
    (open_ : stm ∈ state.streams) (role : SendRole) :
    ({ (state.setQueue stm (state.queue stm ++ [irp])).addStmToSendQue stm with
        accepted := state.accepted ++ [irp] }.setCall tid (.starting role []) :
      NativeState).Inv token := by
  have waits {other : Nat} (member : other ∈ state.cycQue ∨ other = stm) :
      other ∈ (((state.setQueue stm (state.queue stm ++ [irp])).addStmToSendQue stm).cycQue) := by
    rw [NativeState.addStmToSendQue]
    split
    · next already =>
        rcases member with before | rfl
        · exact before
        · exact already
    · rcases member with before | rfl
      · exact mem_append_left _ before
      · exact mem_append_right _ mem_cons_self
  have added : ((state.setQueue stm (state.queue stm ++ [irp])).addStmToSendQue stm) =
      { state.setQueue stm (state.queue stm ++ [irp]) with
        cycQue := ((state.setQueue stm (state.queue stm ++ [irp])).addStmToSendQue stm).cycQue } := by
    rw [NativeState.addStmToSendQue]
    split <;> rfl
  rw [added]
  refine ⟨inv.sending, inv.lower, inv.scheduled, fun other => ?_, fun other => ?_, ?_, ?_,
    fun other opened some => ?_, inv.opened, fun other closed => ?_, fun _ _ => ⟨tid, ?_⟩⟩
  · rw [← inv.calls other]
    by_cases same : other = tid
    · subst same
      rw [setCall_self, idle]
      rfl
    · rw [setCall_of_ne _ same]
      rfl
  · show ((state.handed ++ token.hand).filter (fun one => (state.irp one).stm = other) ++
      (state.setQueue stm (state.queue stm ++ [irp])).queue other).Sublist
        ((state.accepted ++ [irp]).filter fun one => (state.irp one).stm = other)
    rw [filter_append state.accepted]
    by_cases same : other = stm
    · subst same
      rw [setQueue_self, ← append_assoc]
      refine (inv.order other).append ?_
      simp [mine]
    · rw [setQueue_of_ne state same]
      exact (inv.order other).trans (sublist_append_left _ _)
  · exact nodup_append.2 ⟨inv.distinct, nodup_singleton irp, fun one old two last equal => by
      rw [mem_singleton.1 last] at equal
      exact new (equal ▸ old)⟩
  · exact forall_mem_append.2 ⟨inv.known, forall_mem_singleton.2 known⟩
  · by_cases same : other = stm
    · exact waits (.inr same)
    · refine waits (.inl (inv.waiting other opened ?_))
      rw [← setQueue_of_ne state same]
      exact some
  · have apart : other ≠ stm := by
      rintro rfl
      exact closed (inv.opened other open_)
    show (state.setQueue stm (state.queue stm ++ [irp])).queue other = []
    rw [setQueue_of_ne state apart]
    exact inv.unopened other closed
  · rw [setCall_self]
    trivial

theorem submit (inv : state.Inv token) {inout : Bool}
    (idle : state.call tid = .idle) (new : irp ∉ state.submitted) :
    (state.submit tid irp stm inout).Inv token := by
  have unlisted : irp ∉ state.accepted := fun old => new (inv.known irp old)
  have begun : ({ state with submitted := irp :: state.submitted } : NativeState).Inv token :=
    ⟨inv.sending, inv.lower, inv.scheduled, inv.calls, inv.order, inv.distinct,
      fun one old => mem_cons_of_mem _ (inv.known one old), inv.waiting, inv.opened, inv.unopened,
      inv.duty⟩
  unfold NativeState.submit
  simp only
  split
  · exact begun.setIrp_new unlisted _
  · next fits =>
      have open_ : stm ∈ state.streams := by
        by_contra closed
        exact fits (.inl closed)
      refine enqueue (begun.setIrp_new unlisted _) idle unlisted mem_cons_self ?_ open_ _
      simp [NativeState.setIrp]

theorem addStream (inv : state.Inv token) (new : stm ∉ state.opened) :
    ({ state with streams := stm :: state.streams, opened := stm :: state.opened } :
      NativeState).Inv token := by
  have empty : state.queue stm = [] := inv.unopened stm new
  refine ⟨inv.sending, inv.lower, inv.scheduled, inv.calls, inv.order, inv.distinct, inv.known,
    fun other open_ waits => ?_, fun other open_ => ?_, fun other closed => ?_, fun none some => ?_⟩
  · rcases mem_cons.1 open_ with rfl | before
    · exact absurd empty waits
    · exact inv.waiting other before waits
  · rcases mem_cons.1 open_ with rfl | before
    · exact mem_cons_self
    · exact mem_cons_of_mem _ (inv.opened other before)
  · exact inv.unopened other fun before => closed (mem_cons_of_mem _ before)
  · obtain ⟨other, open_, waits⟩ := some
    rcases mem_cons.1 open_ with rfl | before
    · exact absurd empty waits
    · exact inv.duty none ⟨other, before, waits⟩

theorem removeStream (inv : state.Inv token) (stm : Nat) :
    ({ state with
        streams := state.streams.filter fun other => other != stm
        cycQue := state.cycQue.erase stm } : NativeState).Inv token := by
  have before {other : Nat} (open_ : other ∈ state.streams.filter fun other => other != stm) :
      other ∈ state.streams ∧ other ≠ stm := by simpa using open_
  refine ⟨inv.sending, inv.lower, inv.scheduled, inv.calls, inv.order, inv.distinct, inv.known,
    fun other open_ waits => ?_, fun other open_ => inv.opened other (before open_).1, inv.unopened,
    fun none some => ?_⟩
  · exact (mem_erase_of_ne (before open_).2).2 (inv.waiting other (before open_).1 waits)
  · obtain ⟨other, open_, waits⟩ := some
    exact inv.duty none ⟨other, (before open_).1, waits⟩

theorem cancel (inv : state.Inv token) (idle : state.call tid = .idle) :
    ∃ token, ({ state.setIrp irp { state.irp irp with state := .cancelling, lock := some tid } with
      lower := state.lower.erase irp }.setCall tid (.cancelling irp (decide (irp ∈ state.lower))) :
        NativeState).Inv token := by
  have same : ({ state.irp irp with state := .cancelling, lock := some tid } : PacketIrp).stm =
      (state.irp irp).stm := rfl
  have locked := inv.setIrp same
  by_cases sent : irp ∈ state.lower
  · rw [decide_eq_true sent]
    exact ⟨_, locked.takeBack sent rfl⟩
  · rw [decide_eq_false sent, erase_of_not_mem sent]
    refine ⟨token, locked.setCall ?_ fun starts => ?_⟩
    · show none = (state.call tid).holds
      rw [idle]
      rfl
    · have never : (state.call tid).Starts := starts
      rw [idle] at never
      cases never

theorem step (inv : state.Inv token) {move : NativeMove}
    (moved : state.step move = some next) : ∃ token, next.Inv token := by
  cases move with
  | addStream stm =>
    obtain ⟨new, ⟨⟩⟩ := Option.ite_none_right_eq_some.1 moved
    exact ⟨token, inv.addStream new⟩
  | removeStream stm =>
    cases moved
    exact ⟨token, inv.removeStream stm⟩
  | submit tid irp stm inout =>
    obtain ⟨fits, ⟨⟩⟩ := Option.ite_none_right_eq_some.1 moved
    exact ⟨token, inv.submit fits.1 fits.2⟩
  | lowerDone tid irp ret =>
    obtain ⟨fits, ⟨⟩⟩ := Option.ite_none_right_eq_some.1 moved
    have same : ({ state.irp irp with lock := some tid } : PacketIrp).stm = (state.irp irp).stm := rfl
    exact ⟨_, (inv.setIrp same).takeBack fits.2.1 rfl⟩
  | task tid irp =>
    obtain ⟨fits, ⟨⟩⟩ := Option.ite_none_right_eq_some.1 moved
    exact ⟨_, inv.task fits.2⟩
  | completeTask irp ret =>
    rw [NativeState.step] at moved
    split at moved
    · simp only at moved
      split at moved
      · cases moved
        refine ⟨token, setIrp (inv.setToComplete _) ?_⟩
        rfl
      · cases moved
        exact ⟨token, inv.setToComplete _⟩
    · cases moved
  | cancel tid irp =>
    obtain ⟨fits, ⟨⟩⟩ := Option.ite_none_right_eq_some.1 moved
    exact inv.cancel fits.1
  | clear =>
    cases moved
    refine ⟨token, inv.shorten fun stm => ?_⟩
    split
    · exact nil_sublist _
    · exact List.Sublist.refl _
  | go tid answer => exact inv.go moved

end Inv

def Kept (state : NativeState) : Prop :=
  ∃ token, state.Inv token

theorem nativeMachine_start : nativeMachine.start.Kept :=
  ⟨.nowhere, ⟨nofun, fun some => absurd rfl some⟩, rfl, rfl, fun _ => rfl, fun _ => List.Sublist.refl [],
    nodup_nil, nofun, nofun, nofun, fun _ _ => rfl, fun _ ⟨_, never, _⟩ => nomatch never⟩

end NativeState

/-- The sending side of the port, in every run. -/
theorem oneAtATime_of_reachable {state : NativeState} (reachable : nativeMachine.Reachable state) :
    state.OneAtATime := by
  have kept : state.Kept := by
    refine reachable.invariant NativeState.nativeMachine_start ?_
    intro before move after _ kept moved
    obtain ⟨token, inv⟩ := kept
    exact inv.step moved
  obtain ⟨token, inv⟩ := kept
  exact inv.oneAtATime

/-- Three writes on one stream. The first is done, and the thread that completes it leaves
the second to `StartSendDeferred`. -/
def deferredBehind : List NativeMove :=
  [.addStream 0, .submit 1 0 0 false, .go 1 .pending, .submit 2 1 0 false, .go 2 .pending,
    .submit 3 2 0 false, .go 3 .pending, .lowerDone 1 0 0, .go 1 .pending, .go 1 .pending]

theorem oneAtATime_deferredBehind : ∃ state,
    nativeMachine.run nativeMachine.start deferredBehind = some state ∧ state.scheduled = [1] ∧
      state.handed = [0] ∧ state.OneAtATime := by
  have ran : nativeMachine.run nativeMachine.start deferredBehind = some _ := rfl
  exact ⟨_, ran, rfl, rfl, oneAtATime_of_reachable (Machine.Reachable.start.run ran)⟩

/-- The sending flag is set and the third write waits, with nothing at the lower port and no
thread in the port. -/
theorem deferredBehind_waits : ¬ ∀ state, nativeMachine.Reachable state →
    (∀ tid, state.call tid = .idle) → (state.sending = true ↔ state.lower ≠ []) ∧
      (state.lower = [] → ∀ stm ∈ state.streams, state.queue stm = []) := by
  intro all
  have ran : nativeMachine.run nativeMachine.start deferredBehind = some _ := rfl
  have both := all _ (Machine.Reachable.start.run ran)
  have parts := both fun tid => ?_
  · exact parts.1.1 rfl rfl
  · match tid with
    | 0 | 1 | 2 | 3 | _ + 4 => rfl

end RpcFrmwrk.Rpc
