import RpcFrmwrk.Rpc.SocketSendRuns

/-! The write queue of a socket port is not left alone. Owns `SendState.Unstalled`, what holds while
no thread is in the port; the duty to go on with the queue, and the duty to arm the write watch. -/

namespace RpcFrmwrk.Rpc

open RpcFrmwrk.Library RpcFrmwrk.Ipc List

/-- While no thread is in the port and none is scheduled, a queue that is not empty
has a request in the sender in front of it, and the write watch is armed. -/
def SendState.Unstalled (state : SendState) : Prop :=
  (∀ tid, state.call tid = .idle) → state.deferred = 0 → state.queue ≠ [] →
    state.sender.isSome = true ∧ state.writing = true

/-- The write-ready callback finds its request ready; and no cancellation takes the
request from the sender while others wait in the queue. -/
def SendCall.Handed (state : SendState) : SendCall → Prop
  | .waiting caller irp => caller = .startSend3 ∨ (state.irp irp).state = .ready
  | .cancelling irp => state.sending ≠ some irp ∨ state.queue = []
  | _ => True

instance SendCall.decidableHanded (state : SendState) :
    (call : SendCall) → Decidable (call.Handed state)
  | .waiting _ _ | .cancelling _ => inferInstanceAs (Decidable (_ ∨ _))
  | .idle | .taskHead | .readyHead | .readyBack | .sending _ _ | .crossing _ _ _ | .arming _ _
  | .sent _ _ _ | .done _ _ _ | .misdone _ _ _ => isTrue trivial

def SendMove.Handed (state : SendState) : SendMove → Prop
  | .go tid _ _ => (state.call tid).Handed state
  | _ => True

instance SendMove.decidableHanded (state : SendState) :
    (move : SendMove) → Decidable (move.Handed state)
  | .go tid _ _ => inferInstanceAs (Decidable ((state.call tid).Handed state))
  | .submit _ _ _ | .ready | .task _ | .cancel _ _ => isTrue trivial

namespace SendCall

def TakesOver : SendCall → Prop
  | .taskHead | .readyHead | .readyBack | .done _ _ _ => True
  | _ => False

def Works (irp : Nat) : SendCall → Prop
  | .waiting .startSend3 one | .sending .startSend2 one | .sending .startSend3 one
  | .arming _ one | .sent _ one _ => one = irp
  | _ => False

/-- The thread is in `OnSendReady`. -/
def InLoop : SendCall → Prop
  | .readyHead | .readyBack | .waiting .onSendReady _ | .sending .onSendReady _
  | .sent .onSendReady _ _ | .done .onSendReady _ _ => True
  | _ => False

end SendCall

/-- Some thread or a scheduled one takes over the queue; the watch is armed for the
request in the sender, or a thread works on it; only the main loop is in `OnSendReady`, and
meanwhile the watch is armed; a request that waits and whose lock is free is ready. -/
structure SendState.Going (state : SendState) : Prop where
  duty : state.queue ≠ [] → state.sender = none →
    0 < state.deferred ∨ ∃ tid, (state.call tid).TakesOver
  watch : ∀ irp, state.sending = some irp → state.writing = true ∨
    ∃ tid, (state.call tid).Works irp
  loop : ∀ tid, (state.call tid).InLoop → tid = mainLoopTid ∧ state.writing = true
  steady : ∀ irp ∈ state.sending.toList ++ state.queue, (state.irp irp).lock = none →
    (state.irp irp).state = .ready

theorem SendState.Going.unstalled {state : SendState} (going : state.Going) : state.Unstalled := by
  intro idle none waits
  have sender : state.sender.isSome = true := by
    by_contra empty
    rw [Bool.not_eq_true, Option.isSome_eq_false_iff, Option.isNone_iff_eq_none] at empty
    obtain scheduled | ⟨tid, takes⟩ := going.duty waits empty
    · omega
    · rw [idle tid] at takes
      exact takes
  refine ⟨sender, ?_⟩
  obtain ⟨one, current⟩ := Option.isSome_iff_exists.1 sender
  obtain armed | ⟨tid, works⟩ := going.watch one.irp (by rw [SendState.sending, current]; rfl)
  · exact armed
  · rw [idle tid] at works
    cases works

namespace SendState.Going

variable {state next : SendState} {tid : Nat}
variable {call : SendCall} {irp maxBytes : Nat} {caller : Caller}

theorem move (going : state.Going) (tid : Nat)
    (others : ∀ other, other ≠ tid → next.call other = state.call other)
    (duty : next.queue ≠ [] → next.sender = none →
      (0 < next.deferred ∨ (next.call tid).TakesOver) ∨
        state.queue ≠ [] ∧ state.sender = none ∧ state.deferred ≤ next.deferred ∧ ¬ (state.call tid).TakesOver)
    (watch : ∀ irp, next.sending = some irp → next.writing = true ∨ (next.call tid).Works irp ∨
      state.sending = some irp ∧ next.writing = state.writing ∧ ¬ (state.call tid).Works irp)
    (inLoop : (next.call tid).InLoop → tid = mainLoopTid ∧ next.writing = true)
    (armed : next.writing = true ∨ next.writing = state.writing ∨ (state.call tid).InLoop)
    (steady : ∀ irp ∈ next.sending.toList ++ next.queue, (next.irp irp).lock = none →
      (next.irp irp).state = .ready) : next.Going := by
  refine ⟨fun waits free => ?_, fun irp current => ?_, fun other loops => ?_, steady⟩
  · obtain (scheduled | takes) | ⟨before, empty, more, neither⟩ := duty waits free
    · exact .inl scheduled
    · exact .inr ⟨tid, takes⟩
    · refine (going.duty before empty).imp (fun scheduled => scheduled.trans_le more)
        fun ⟨other, takes⟩ => ⟨other, ?_⟩
      rw [others other fun equal => neither (equal ▸ takes)]
      exact takes
  · obtain writing | works | ⟨before, same, neither⟩ := watch irp current
    · exact .inl writing
    · exact .inr ⟨tid, works⟩
    · rw [same]
      refine (going.watch irp before).imp_right fun ⟨other, works⟩ => ⟨other, ?_⟩
      rw [others other fun equal => neither (equal ▸ works)]
      exact works
  · by_cases mine : other = tid
    · subst mine
      exact inLoop loops
    · rw [others other mine] at loops
      obtain ⟨main, before⟩ := going.loop other loops
      refine ⟨main, ?_⟩
      obtain writing | same | here := armed
      · exact writing
      · rw [same, before]
      · exact absurd (main.trans (going.loop tid here).1.symm) mine

theorem goto (going : state.Going)
    (duty : (state.call tid).TakesOver → call.TakesOver ∨ state.queue = [] ∨ state.sender.isSome = true)
    (watch : ∀ irp, (state.call tid).Works irp → state.sending = some irp → call.Works irp)
    (inLoop : call.InLoop → (state.call tid).InLoop ∨ tid = mainLoopTid ∧ state.writing = true) :
    (state.setCall tid call).Going := by
  refine going.move tid (fun other apart => state.setCall_of_ne apart call) (fun waits free => ?_)
    (fun irp current => ?_) ?_ (.inr (.inl rfl)) going.steady
  · rw [setCall_self]
    by_cases takes : (state.call tid).TakesOver
    · obtain here | empty | busy := duty takes
      · exact .inl (.inr here)
      · exact absurd empty waits
      · rw [show state.sender = none from free] at busy
        cases busy
    · exact .inr ⟨waits, free, Nat.le_refl _, takes⟩
  · rw [setCall_self]
    by_cases works : (state.call tid).Works irp
    · exact .inr (.inl (watch irp works current))
    · exact .inr (.inr ⟨current, rfl, works⟩)
  · rw [setCall_self]
    exact fun loops => (inLoop loops).elim (going.loop tid) id

theorem steady_setIrp (steady : ∀ irp ∈ state.sending.toList ++ state.queue,
      (state.irp irp).lock = none → (state.irp irp).state = .ready) {request : WriteIrp}
    (apart : irp ∈ state.sending.toList ++ state.queue → request.lock = none → request.state = .ready) :
    ∀ one ∈ state.sending.toList ++ state.queue, ((state.setIrp irp request).irp one).lock = none →
      ((state.setIrp irp request).irp one).state = .ready := by
  intro one member
  by_cases same : one = irp
  · subst same
    rw [setIrp_self]
    exact apart member
  · rw [state.setIrp_of_ne same]
    exact steady one member

theorem submit (going : state.Going) {bufs : List (List UInt8)}
    (idle : state.call tid = .idle) : (state.startSend2 tid irp bufs).Going := by
  have quiet : ¬ (state.call tid).TakesOver := by rw [idle]; exact id
  rw [SendState.startSend2]
  by_cases waits : state.sender.isSome = true ∨ 1 < (state.push irp bufs).queue.length
  · rw [if_pos waits]
    have same : (state.push irp bufs).call tid = state.call tid := rfl
    refine going.move tid (fun _ _ => rfl) (fun _ free => ?_) (fun one current => ?_) ?_ (.inr (.inl rfl)) ?_
    · refine .inr ⟨fun empty => ?_, free, Nat.le_refl _, quiet⟩
      rw [SendState.push, show state.sender = none from free, empty] at waits
      simp at waits
    · exact .inr (.inr ⟨current, rfl, by rw [idle]; exact id⟩)
    · rw [same, idle]
      exact False.elim
    · intro one member
      by_cases new : one = irp
      · subst new
        exact fun _ => congrArg WriteIrp.state (setIrp_self state one _)
      · have record : (state.push irp bufs).irp one = state.irp one := state.setIrp_of_ne new _
        rw [record]
        replace member : one ∈ state.sending.toList ++ (state.queue ++ [irp]) := member
        rw [← append_assoc] at member
        rcases mem_append.1 member with old | last
        · exact going.steady one old
        · exact absurd (mem_singleton.1 last) new
  · rw [if_neg waits]
    rw [not_or, SendState.push, length_append, length_singleton] at waits
    have empty : state.queue = [] := length_eq_zero_iff.1 (by omega)
    have loaded : (state.push irp bufs).setIrpToSend =
        { state.push irp bufs with queue := [], sender := some ⟨irp, 0, 0⟩ } := by
      rw [SendState.setIrpToSend, SendState.push, empty]
      rfl
    rw [loaded]
    refine going.move tid (fun other apart => ?_) (fun some => absurd rfl some) (fun one current => ?_) ?_
      (.inr (.inl rfl)) ?_
    · exact setCall_of_ne _ apart _
    · cases current
      rw [setCall_self]
      exact .inr (.inl rfl)
    · rw [setCall_self]
      exact False.elim
    · intro one member free
      have same : one = irp := mem_singleton.1 member
      subst same
      replace free := (congrArg WriteIrp.lock (setIrp_self _ one _)).symm.trans free
      cases free

theorem load (going : state.Going) (free : state.sender = none) {rest : List Nat}
    (queue : state.queue = irp :: rest)
    (watch : state.writing = true ∨ call.Works irp)
    (inLoop : call.InLoop → (state.call tid).InLoop) :
    (state.setIrpToSend.setCall tid call).Going := by
  have sending : state.sending = none := by rw [SendState.sending, free]; rfl
  have steady := going.steady
  rw [sending, queue] at steady
  have loaded : state.setIrpToSend = { state with queue := rest, sender := some ⟨irp, 0, 0⟩ } := by
    rw [SendState.setIrpToSend, queue]
  rw [loaded]
  refine going.move tid (fun other apart => setCall_of_ne _ apart call)
    (fun _ never => absurd never (Option.some_ne_none _))
    (fun one current => ?_) ?_ (.inr (.inl rfl)) steady
  · cases current
    rw [setCall_self]
    exact watch.imp_right .inl
  · rw [setCall_self]
    exact fun loops => going.loop tid (inLoop loops)

theorem stopWatch (going : state.Going) (loops : (state.call tid).InLoop)
    (free : state.sender = none)
    (empty : state.queue = []) :
    ({ state.setCall tid .idle with writing := false } : SendState).Going := by
  have sending : state.sending = none := by rw [SendState.sending, free]; rfl
  refine going.move tid (fun other apart => state.setCall_of_ne apart .idle)
    (fun waits => absurd empty waits) (fun one current => ?_) ?_ (.inr (.inr loops)) going.steady
  · cases sending.symm.trans current
  · show SendCall.InLoop ((state.setCall tid .idle).call tid) → _
    rw [setCall_self]
    exact False.elim

theorem pause (going : state.Going) (ready : (state.irp irp).state = .ready)
    (sender : state.sender.isSome = true) (armed : state.writing = true)
    (inLoop : ¬ call.InLoop) : ((state.setLock irp none).setCall tid call).Going := by
  refine going.move tid (fun other apart => setCall_of_ne _ apart call) (fun _ free => ?_)
    (fun one current => .inl armed) ?_ (.inl armed) ?_
  · rw [show state.sender = none from free] at sender
    cases sender
  · rw [setCall_self]
    exact fun loops => absurd loops inLoop
  · exact steady_setIrp going.steady fun _ _ => ready

theorem lock (going : state.Going)
    (phase : state.call tid = .waiting caller irp) :
    ((state.setLock irp (some tid)).setCall tid (.sending caller irp)).Going := by
  refine going.move tid (fun other apart => setCall_of_ne _ apart _) (fun waits none => ?_)
    (fun one current => ?_) ?_ (.inr (.inl rfl)) (steady_setIrp going.steady fun _ => nofun)
  · refine .inr ⟨waits, none, Nat.le_refl _, ?_⟩
    rw [phase]
    exact id
  · by_cases works : (state.call tid).Works one
    · rw [setCall_self]
      rw [phase] at works
      cases caller with
      | startSend3 => exact .inr (.inl works)
      | startSend2 | onSendReady => cases works
    · exact .inr (.inr ⟨current, rfl, works⟩)
  · rw [setCall_self]
    intro loops
    refine going.loop tid ?_
    rw [phase]
    cases caller <;> exact loops

theorem progress (going : state.Going) {bufIdx offset : Nat}
    (current : state.sender = some ⟨irp, bufIdx, offset⟩) (idx off : Nat) (bytes : List UInt8) :
    ({ state with sender := some ⟨irp, idx, off⟩, wire := state.wire ++ bytes } : SendState).Going := by
  have sending : state.sending = some irp := by rw [SendState.sending, current]; rfl
  have watch := going.watch
  have steady := going.steady
  rw [sending] at watch steady
  exact ⟨fun _ never => absurd never (Option.some_ne_none _), watch, going.loop, steady⟩

theorem arm (going : state.Going) : ({ state with writing := true } : SendState).Going :=
  ⟨going.duty, fun _ _ => .inl rfl, fun tid loops => ⟨(going.loop tid loops).1, rfl⟩, going.steady⟩

theorem sendImmediate (going : state.Going)
    (accepts : List Nat) (phase : state.call tid = .sending caller irp)
    (ready : (state.irp irp).state = .ready) (current : state.sending = some irp) :
    (state.sendImmediate maxBytes tid irp caller accepts).Going := by
  obtain ⟨sender, here, same⟩ := Option.map_eq_some_iff.1 current
  obtain ⟨one, bufIdx, offset⟩ := sender
  obtain rfl : irp = one := same.symm
  -- Whatever the send loop did, the thread goes on to take the request from the sender.
  have onward {state : SendState} (going : state.Going) (phase : state.call tid = .sending caller irp)
      (ret : Int) : (state.setCall tid (.sent caller irp ret)).Going := by
    refine going.goto ?_ (fun other works _ => ?_) fun loops => .inl ?_
    · rw [phase]
      exact False.elim
    · rw [phase] at works
      cases caller with
      | startSend2 | startSend3 => exact works
      | onSendReady => cases works
    · rw [phase]
      cases caller <;> exact loops
  unfold SendState.sendImmediate
  rw [here]
  simp only
  rw [if_neg (not_not_intro rfl)]
  split
  · exact onward going phase eInval
  · split
    · exact onward going phase statusSuccess
    · split
      · exact onward going phase eRange
      · generalize sendLoop maxBytes (state.irp irp).bufs bufIdx offset accepts = loop
        obtain ⟨done, idx, off, bytes⟩ := loop
        have progressed := going.progress here idx off bytes
        simp only
        split
        · exact onward progressed phase statusSuccess
        · cases caller with
          | onSendReady =>
            have armed : state.writing = true := (going.loop tid (by rw [phase]; trivial)).2
            exact progressed.pause ready rfl armed id
          | startSend2 | startSend3 =>
            refine progressed.goto ?_ (fun other works _ => ?_) False.elim
            · show SendCall.TakesOver (state.call tid) → _
              rw [phase]
              exact False.elim
            · replace works : SendCall.Works other (state.call tid) := works
              rw [phase] at works
              exact works

theorem sent (going : state.Going) {ret : Int}
    (phase : state.call tid = .sent caller irp ret) :
    ({ state with sender := none }.setCall tid (.done caller irp ret) : SendState).Going := by
  refine going.move tid (fun other apart => setCall_of_ne _ apart _) (fun _ _ => ?_)
    (fun _ never => absurd never.symm (Option.some_ne_none _)) ?_ (.inr (.inl rfl))
    fun one member => going.steady one (mem_append_right _ member)
  · rw [setCall_self]
    exact .inl (.inr trivial)
  · rw [setCall_self]
    intro loops
    refine going.loop tid ?_
    rw [phase]
    cases caller <;> exact loops

theorem release (going : state.Going) {requests : Nat → WriteIrp} (more : Nat)
    (answers : List (Nat × Int))
    (kept : ∀ irp ∈ state.sending.toList ++ state.queue, requests irp = state.irp irp)
    (duty : (state.call tid).TakesOver → state.queue ≠ [] → state.sender = none → 0 < more ∨ call.TakesOver)
    (watch : ∀ irp, ¬ (state.call tid).Works irp)
    (inLoop : call.InLoop → (state.call tid).InLoop) :
    ({ state.setCall tid call with
        irp := requests, deferred := state.deferred + more, answered := answers } : SendState).Going := by
  have here : (state.setCall tid call).call tid = call := state.setCall_self tid call
  refine going.move tid (fun other apart => state.setCall_of_ne apart call) (fun waits free => ?_)
    (fun irp current => .inr (.inr ⟨current, rfl, watch irp⟩)) ?_ (.inr (.inl rfl)) ?_
  · by_cases takes : (state.call tid).TakesOver
    · obtain scheduled | takes := duty takes waits free
      · exact .inl (.inl (scheduled.trans_le (Nat.le_add_left more state.deferred)))
      · refine .inl (.inr ?_)
        show SendCall.TakesOver ((state.setCall tid call).call tid)
        rw [here]
        exact takes
    · exact .inr ⟨waits, free, Nat.le_add_right state.deferred more, takes⟩
  · intro loops
    exact going.loop tid (inLoop (here ▸ loops))
  · intro irp member
    show (requests irp).lock = none → (requests irp).state = .ready
    rw [kept irp member]
    exact going.steady irp member

theorem records_kept (apart : irp ∉ state.sending.toList ++ state.queue)
    (first second : WriteIrp) : ∀ one ∈ state.sending.toList ++ state.queue,
      Function.update (Function.update state.irp irp first) irp second one = state.irp one := by
  intro one member
  have other : one ≠ irp := fun same => apart (same ▸ member)
  rw [Function.update_of_ne other, Function.update_of_ne other]

theorem done (going : state.Going)
    (phase : state.call tid = .done caller irp statusSuccess)
    (apart : irp ∉ state.sending.toList ++ state.queue) (new : IrpState) :
    ((if caller = .startSend2 then state else state.answer irp statusSuccess new).back tid irp caller
      statusSuccess).Going := by
  have unworked (one : Nat) : ¬ (state.call tid).Works one := by rw [phase]; exact id
  cases caller with
  | startSend2 =>
    rw [if_pos rfl]
    unfold SendState.back
    simp only
    rw [if_neg (by decide)]
    split
    · exact going.release 1 _ (records_kept apart _ _) (fun _ _ _ => .inl Nat.one_pos) unworked False.elim
    · next none_waits =>
        refine going.release 0 _ (records_kept apart _ _) (fun _ waits free => ?_) unworked False.elim
        exact absurd ⟨rfl, free, waits⟩ none_waits
  | startSend3 =>
    exact going.release 0 _ (records_kept apart _ _) (fun _ _ _ => .inr trivial) unworked False.elim
  | onSendReady =>
    refine going.release 0 _ (records_kept apart _ _) (fun _ _ _ => .inr trivial) unworked fun _ => ?_
    rw [phase]
    trivial

theorem cancelling (going : state.Going) (phase : state.call tid = .cancelling irp)
    (distinct : (state.sending.toList ++ state.queue).Nodup)
    (handed : state.sending = some irp → state.queue = []) {accepts : List Nat}
    {resumed : Bool} {next : SendState}
    (moved : state.go maxBytes tid accepts resumed = some next) :
    next.Going := by
  rw [SendState.go, phase] at moved
  simp only at moved
  have removed : (state.removeIrpFromMap irp).Going ∧
      (state.removeIrpFromMap irp).call tid = .cancelling irp ∧
      irp ∉ (state.removeIrpFromMap irp).sending.toList ++ (state.removeIrpFromMap irp).queue := by
    unfold SendState.removeIrpFromMap
    by_cases current : state.sending = some irp
    · rw [if_pos current]
      have empty := handed current
      refine ⟨⟨fun waits => absurd empty waits,
        fun _ never => absurd never.symm (Option.some_ne_none _), going.loop, ?_⟩, phase, ?_⟩
      · exact fun one member => going.steady one (mem_append_right _ member)
      · show irp ∉ [] ++ state.queue
        rw [empty]
        exact not_mem_nil
    · rw [if_neg current]
      have queued := (nodup_append.1 distinct).2.1
      refine ⟨⟨fun waits free => ?_, going.watch, going.loop, ?_⟩, phase, fun member => ?_⟩
      · refine going.duty (fun empty => waits ?_) free
        show state.queue.erase irp = []
        rw [empty, erase_nil]
      · refine fun one member => going.steady one ?_
        exact (List.Sublist.append (List.Sublist.refl _) erase_sublist).mem member
      · rcases mem_append.1 member with sending | stays
        · exact current (Option.mem_toList.1 sending)
        · exact ((List.Nodup.mem_erase_iff queued).1 stays).1 rfl
  obtain ⟨going, phase, apart⟩ := removed
  generalize state.removeIrpFromMap irp = state at going phase apart moved
  have none_taken : ¬ (state.call tid).TakesOver := by rw [phase]; exact id
  have unworked (one : Nat) : ¬ (state.call tid).Works one := by rw [phase]; exact id
  split at moved
  · cases moved
    exact going.release 0 _ (records_kept apart _ _) (fun takes => absurd takes none_taken) unworked False.elim
  · cases moved
    exact going.release 0 _ (records_kept apart _ _) (fun takes => absurd takes none_taken) unworked False.elim

theorem go (going : state.Going) {whole : List Nat} (inv : state.Inv false whole none [])
    {accepts : List Nat} {resumed : Bool} (handed : (state.call tid).Handed state)
    {next : SendState}
    (moved : state.go maxBytes tid accepts resumed = some next) : next.Going := by
  have sound := inv.sound tid nofun
  cases phase : state.call tid with
  | idle =>
    rw [SendState.go, phase] at moved
    cases moved
  | taskHead =>
    rw [SendState.go, phase] at moved
    simp only at moved
    split at moved
    · next irp rest free queue =>
        cases moved
        exact going.load free queue (.inr rfl) False.elim
    · next busy =>
        cases moved
        refine going.goto (fun _ => .inr ?_) (fun irp works => ?_) False.elim
        · cases queue : state.queue with
          | nil => exact .inl rfl
          | cons irp rest =>
            cases current : state.sender with
            | none => exact (busy irp rest current queue).elim
            | some sender => exact .inr rfl
        · rw [phase] at works
          cases works
  | readyHead =>
    rw [SendState.go, phase] at moved
    have loops : (state.call tid).InLoop := by rw [phase]; trivial
    have unworked (irp : Nat) : ¬ (state.call tid).Works irp := by rw [phase]; exact id
    simp only at moved
    split at moved
    · cases moved
      exact going.goto (fun _ => .inl trivial) (fun irp works => absurd works (unworked irp))
        fun _ => .inl loops
    · next sender current =>
        cases moved
        refine going.goto (fun _ => .inr (.inr ?_)) (fun irp works => absurd works (unworked irp))
          fun _ => .inl loops
        rw [current]
        rfl
  | readyBack =>
    rw [SendState.go, phase] at moved
    have loops : (state.call tid).InLoop := by rw [phase]; trivial
    have unworked (irp : Nat) : ¬ (state.call tid).Works irp := by rw [phase]; exact id
    simp only at moved
    split at moved
    · cases moved
      exact going.goto (fun _ => .inl trivial) (fun irp works => absurd works (unworked irp))
        fun _ => .inl loops
    · next free =>
        rw [Bool.not_eq_true, Option.isSome_eq_false_iff, Option.isNone_iff_eq_none] at free
        split at moved
        · next empty =>
            cases moved
            exact going.stopWatch loops free empty
        · next waits =>
            cases moved
            obtain ⟨irp, rest, queue⟩ := exists_cons_of_ne_nil waits
            exact going.load free queue (.inl (going.loop tid loops).2) fun _ => loops
  | waiting caller irp =>
    rw [SendState.go, phase] at moved
    rw [phase] at handed
    simp only at moved
    obtain ⟨free, moved⟩ := Option.ite_none_left_eq_some.1 moved
    rw [Bool.not_eq_true, Option.isSome_eq_false_iff, Option.isNone_iff_eq_none] at free
    by_cases ready : (state.irp irp).state = .ready
    · rw [ready, IrpState.canContinue_ready, if_neg (by decide)] at moved
      cases moved
      exact going.lock phase
    · obtain rfl : caller = .startSend3 := handed.resolve_right ready
      rw [if_pos (IrpState.canContinue_of_ne ready .ready).1] at moved
      cases moved
      refine going.goto (fun _ => .inl trivial) (fun one works current => ?_) False.elim
      -- The request in the sender is ready, and this one is not.
      rw [phase] at works
      obtain rfl : irp = one := works
      refine absurd (going.steady irp (mem_append_left _ ?_) free) ready
      exact Option.mem_toList.2 current
  | sending caller irp =>
    rw [SendState.go, phase] at moved
    rw [phase] at sound
    cases moved
    exact going.sendImmediate accepts phase sound.2.1 sound.2.2
  | crossing | misdone =>
    rw [phase] at sound
    cases sound
  | arming caller irp =>
    rw [SendState.go, phase] at moved
    rw [phase] at sound
    obtain ⟨_, ready, current⟩ := sound
    have sender : state.sender.isSome = true := by
      rw [SendState.sending, Option.map_eq_some_iff] at current
      obtain ⟨one, here, _⟩ := current
      rw [here]
      rfl
    cases moved
    cases caller <;> exact going.arm.pause ready sender rfl id
  | sent caller irp ret =>
    rw [SendState.go, phase] at moved
    cases moved
    exact going.sent phase
  | done caller irp ret =>
    rw [SendState.go, phase] at moved
    rw [phase] at sound
    obtain ⟨_, _, member, _, rfl⟩ := sound
    have ended := going.done phase ((inv.lift tid).not_waiting_of_whole member)
      (if resumed then .ready else .completed)
    cases caller with
    | startSend2 | startSend3 | onSendReady =>
      cases moved
      exact ended
  | cancelling irp =>
    rw [phase] at handed
    have distinct := (nodup_append.1 (inv.distinct.sublist inv.order)).2.1
    exact going.cancelling phase distinct handed.neg_resolve_left moved

theorem task (going : state.Going) (idle : state.call tid = .idle) :
    ({ state.setCall tid .taskHead with deferred := state.deferred - 1 } : SendState).Going := by
  have here : (state.setCall tid .taskHead).call tid = .taskHead := state.setCall_self tid .taskHead
  refine going.move tid (fun other apart => state.setCall_of_ne apart .taskHead) (fun _ _ => ?_)
    (fun one current => .inr (.inr ⟨current, rfl, ?_⟩)) ?_ (.inr (.inl rfl)) going.steady
  · refine .inl (.inr ?_)
    show SendCall.TakesOver ((state.setCall tid .taskHead).call tid)
    rw [here]
    trivial
  · rw [idle]
    exact id
  · show SendCall.InLoop ((state.setCall tid .taskHead).call tid) → _
    rw [here]
    exact False.elim

theorem cancel (going : state.Going) (idle : state.call tid = .idle) :
    (((state.setIrp irp { state.irp irp with state := .cancelling }).setLock irp (some tid)).setCall tid
      (.cancelling irp)).Going := by
  refine going.move tid (fun other apart => setCall_of_ne _ apart _) (fun waits free => ?_)
    (fun one current => .inr (.inr ⟨current, rfl, ?_⟩)) ?_
    (.inr (.inl rfl)) fun one member free => ?_
  · refine .inr ⟨waits, free, Nat.le_refl _, ?_⟩
    rw [idle]
    exact id
  · rw [idle]
    exact id
  · rw [setCall_self]
    exact False.elim
  · by_cases same : one = irp
    · subst same
      replace free := (congrArg WriteIrp.lock (setIrp_self _ one _)).symm.trans free
      cases free
    · have record : ((state.setIrp irp { state.irp irp with state := .cancelling }).setLock irp
          (some tid)).irp one = state.irp one := by
        rw [SendState.setLock, setIrp_of_ne _ same, setIrp_of_ne _ same]
      refine (congrArg WriteIrp.state record).trans (going.steady one member ?_)
      exact (congrArg WriteIrp.lock record).symm.trans free

theorem step (going : state.Going) (ordered : state.Ordered false) {move : SendMove}
    (handed : move.Handed state) {next : SendState} (moved : state.step maxBytes move = some next) :
    next.Going := by
  cases move with
  | submit tid irp bufs =>
    obtain ⟨enabled, ⟨⟩⟩ := Option.ite_none_right_eq_some.1 moved
    exact going.submit enabled.1
  | ready =>
    obtain ⟨enabled, ⟨⟩⟩ := Option.ite_none_right_eq_some.1 moved
    refine going.goto (fun _ => .inl trivial) (fun irp works => ?_) fun _ => .inr ⟨rfl, enabled.2⟩
    rw [enabled.1] at works
    cases works
  | task tid =>
    obtain ⟨enabled, ⟨⟩⟩ := Option.ite_none_right_eq_some.1 moved
    exact going.task enabled.1
  | cancel tid irp =>
    obtain ⟨enabled, ⟨⟩⟩ := Option.ite_none_right_eq_some.1 moved
    exact going.cancel enabled.1
  | go tid accepts resumed =>
    obtain ⟨whole, inv⟩ := ordered
    exact going.go inv handed moved

end SendState.Going

theorem sendMachine_going (maxBytes : Nat) : (sendMachine maxBytes).start.Going :=
  ⟨fun none_waits => absurd rfl none_waits, fun _ => nofun, fun _ => False.elim, nofun⟩

/-- Between two steps, the order of the requests and the duty to go on are kept. -/
def SendState.Tended (state : SendState) : Prop :=
  state.Ordered false ∧ state.Going

/-- A second request waits in the queue behind one that the socket takes in two parts; the
write-ready event comes between. -/
def queuedBehind : List SendMove :=
  [.submit 1 0 [[1, 2]], .go 1 [1] false, .go 1 [] false, .submit 2 1 [[3]], .ready, .go 0 [] false,
    .go 0 [] false, .go 0 [] false]

def cancelledReady : List SendMove :=
  [.submit 1 0 [[1, 2]], .go 1 [] false, .go 1 [] false, .submit 2 1 [[3]], .ready, .go 0 [] false,
    .cancel 3 0, .go 3 [] false, .go 0 [] false]

end RpcFrmwrk.Rpc
