import RpcFrmwrk.Ipc.StmWriter

/-! Who restarts the writing task. Owns `StmWriter.Served`, a request that waits is on its way; the
steps that do not end the task with a full queue, and the invariant of their runs; a run in which
the first piece of a long request ends the task. -/

namespace RpcFrmwrk.Ipc

open RpcFrmwrk.Library List

namespace StmWriter

/-- Where no method runs, a queue with a request has a piece in flight, a run that is
scheduled, a flow control that will be lifted, or a head whose callback comes with a
time-out. -/
def Served (writer : StmWriter) : Prop :=
  writer.place = none → writer.queue ≠ [] →
    writer.flight ≠ [] ∨ 0 < writer.due ∨
      (writer.paused = true ∧ writer.flowCtrl = true ∧ (writer.canSend = false ∨ 0 < writer.lifts)) ∨
      ∃ irp ∈ writer.queue.head?, irp.state ≠ .ready

instance decidableServed (writer : StmWriter) : Decidable writer.Served :=
  inferInstanceAs (Decidable (_ → _ → _ ∨ _ ∨ _ ∨ _))

/-- `RESCHED_WRITE_TASK` does not find a full queue behind a piece, or behind a head that has
timed out. -/
def SparesPlace (writer : StmWriter) : Option WriterPlace → Prop
  | some (.resched _) => ¬writer.Full
  | some (.worker head) => ¬(head = true ∧ writer.Full)
  | _ => True

instance decidableSparesPlace (writer : StmWriter) (place : Option WriterPlace) :
    Decidable (writer.SparesPlace place) :=
  match place with
  | some (.resched _) => inferInstanceAs (Decidable ¬writer.Full)
  | some (.worker head) => inferInstanceAs (Decidable ¬(head = true ∧ writer.Full))
  | some .loop | some .failing | none => isTrue trivial

def Spares (writer : StmWriter) : StmWriterMove → Prop
  | .loop ret => ret = errorQueueFull → writer.canSend = false
  | .resched => writer.SparesPlace writer.place
  | _ => True

instance decidableSpares (writer : StmWriter) (move : StmWriterMove) : Decidable (writer.Spares move) :=
  match move with
  | .loop ret => inferInstanceAs (Decidable (ret = errorQueueFull → writer.canSend = false))
  | .resched => inferInstanceAs (Decidable (writer.SparesPlace writer.place))
  | .write _ _ _ _ | .run | .land _ _ | .complete _ _ | .failNext | .expire _ | .expired _
  | .flowCtrl | .lift | .onFCLifted => isTrue trivial

/-- The task is not over, it is paused for a reason, and a lift follows the flow control. -/
structure Sound (writer : StmWriter) : Prop where
  going : writer.stopped = false
  held : writer.paused = true ↔ writer.queLimit = true ∨ writer.flowCtrl = true
  lifted : writer.flowCtrl = true → writer.canSend = false ∨ 0 < writer.lifts

def Waits (writer : StmWriter) : Prop :=
  (writer.queue = [] ∧ writer.queLimit = true) ∨ writer.flight ≠ [] ∨ 0 < writer.due ∨
    writer.flowCtrl = true ∨ ∃ irp ∈ writer.queue.head?, irp.state ≠ .ready

structure Tended (writer : StmWriter) : Prop extends Sound writer where
  idle : writer.queLimit = true → writer.queue = []
  under : writer.place ≠ some .failing → ∀ irp ∈ writer.queue.head?, irp.state = .ready →
    irp.submitted = true → writer.flight ≠ []
  fresh : ∀ irp ∈ writer.queue.tail, irp.submitted = false
  waits : writer.place = none ∨ writer.place = some (.worker false) → writer.Waits

variable {writer : StmWriter}

theorem Tended.served (tended : writer.Tended) : writer.Served := by
  intro rest some
  rcases tended.waits (.inl rest) with ⟨empty, _⟩ | flight | due | flowCtrl | head
  · exact absurd empty some
  · exact .inl flight
  · exact .inr (.inl due)
  · exact .inr (.inr (.inl ⟨tended.held.2 (.inr flowCtrl), flowCtrl, tended.lifted flowCtrl⟩))
  · exact .inr (.inr (.inr head))

theorem tended_new (outLimit : Bool) : (new outLimit).Tended where
  going := rfl
  held := ⟨fun never => absurd never Bool.false_ne_true, fun never => absurd never (by simp [new])⟩
  lifted := fun never => absurd never Bool.false_ne_true
  idle := fun _ => rfl
  under := fun _ irp member => absurd member (Option.not_mem_none irp)
  fresh := forall_mem_nil _
  waits := fun _ => .inr (.inr (.inl Nat.one_pos))

theorem Sound.parked (sound : writer.Sound) (empty : writer.queue = []) :
    Tended { writer.pause .queLimit with place := none } := by
  obtain ⟨irpPtr, flight, _, same⟩ := pause_going sound.going .queLimit
  rw [same]
  refine ⟨⟨sound.going, ⟨fun _ => .inl rfl, fun _ => rfl⟩, sound.lifted⟩, fun _ => empty,
    fun _ irp member => ?_, fun irp member => ?_, fun _ => .inl ⟨empty, rfl⟩⟩
  · have member : irp ∈ writer.queue.head? := member
    rw [empty] at member
    exact absurd member (Option.not_mem_none irp)
  · have member : irp ∈ writer.queue.tail := member
    rw [empty] at member
    exact absurd member not_mem_nil

variable {irp : QueuedWrite} {rest irps : List QueuedWrite} {id : Nat} {state : IrpState}

theorem Sound.refused (sound : writer.Sound)
    (queue : writer.queue = irp :: rest) (free : writer.queLimit = false)
    (closed : writer.canSend = false)
    (unsent : irp.submitted = false) (fresh : ∀ irp ∈ rest, irp.submitted = false) :
    Tended { writer.pause .flowCtrl with place := none } := by
  obtain ⟨irpPtr, flight, _, same⟩ := pause_going sound.going .flowCtrl
  rw [same]
  refine ⟨⟨sound.going, ⟨fun _ => .inr rfl, fun _ => rfl⟩, fun _ => .inl closed⟩,
    fun limit => absurd (free.symm.trans limit) Bool.false_ne_true,
    fun _ head member _ submitted => ?_, fun other member => ?_, fun _ => .inr (.inr (.inr (.inl rfl)))⟩
  · have member : head ∈ writer.queue.head? := member
    rw [queue, List.head?_cons, Option.mem_some] at member
    rw [← member, unsent] at submitted
    exact absurd submitted Bool.false_ne_true
  · have member : other ∈ writer.queue.tail := member
    rw [queue] at member
    exact fresh other member

theorem Sound.resumed (sound : writer.Sound) (paused : writer.paused = true)
    {place : Option WriterPlace}
    (under : place ≠ some .failing → ∀ irp ∈ writer.queue.head?, irp.state = .ready →
      irp.submitted = true → writer.flight ≠ [])
    (fresh : ∀ irp ∈ writer.queue.tail, irp.submitted = false) :
    Tended { (writer.resume .queLimit).2 with place := place } := by
  have none : ¬false = true := Bool.false_ne_true
  rw [resume_going sound.going]
  simp only
  split
  · next both =>
      have flowCtrl : writer.flowCtrl = false := both.1
      refine ⟨⟨sound.going, ⟨fun never => absurd never none, fun reason => ?_⟩, sound.lifted⟩,
        fun never => absurd never none, under, fresh, fun _ => .inr (.inr (.inl (Nat.succ_pos _)))⟩
      rcases reason with never | flow
      · exact absurd never none
      · exact absurd (flowCtrl.symm.trans flow) none
  · next other =>
      have flowCtrl : writer.flowCtrl = true := by
        by_contra off
        exact other ⟨Bool.eq_false_iff.2 off, paused⟩
      exact ⟨⟨sound.going, ⟨fun _ => .inr flowCtrl, fun _ => paused⟩, sound.lifted⟩,
        fun never => absurd never none, under, fresh, fun _ => .inr (.inr (.inr (.inl flowCtrl)))⟩

theorem Sound.rescheduled (sound : writer.Sound) (room : ¬writer.Full)
    (idle : writer.queLimit = true → writer.queue = [])
    (under : ∀ irp ∈ writer.queue.head?, irp.state = .ready → irp.submitted = true → writer.flight ≠ [])
    (fresh : ∀ irp ∈ writer.queue.tail, irp.submitted = false) (ret : Int) :
    (writer.reschedWriteTask ret).1 = statusPending ∧
      Tended { (writer.reschedWriteTask ret).2 with place := none } := by
  by_cases empty : writer.queue = []
  · rw [reschedWriteTask, if_pos empty]
    exact ⟨rfl, sound.parked empty⟩
  · rw [reschedWriteTask_room sound.going empty room]
    refine ⟨rfl, ?_⟩
    simp only
    split
    · next paused =>
        exact sound.resumed paused (fun _ => under) fresh
    · next running =>
        exact ⟨{ sound with }, idle, fun _ => under, fresh, fun _ => .inr (.inr (.inl (Nat.succ_pos _)))⟩

theorem resume_place (reason : PauseReason) : (writer.resume reason).2.place = writer.place := by
  have same : (writer.setReason false reason).place = writer.place := by
    cases reason <;> rfl
  rw [resume]
  split_ifs <;> exact same

theorem Sound.resumed_self (sound : writer.Sound) (paused : writer.paused = true)
    (under : writer.place ≠ some .failing → ∀ irp ∈ writer.queue.head?, irp.state = .ready →
      irp.submitted = true → writer.flight ≠ [])
    (fresh : ∀ irp ∈ writer.queue.tail, irp.submitted = false) :
    (writer.resume .queLimit).2.Tended := by
  have tended : Tended { (writer.resume .queLimit).2 with place := writer.place } :=
    sound.resumed paused under fresh
  rw [← resume_place .queLimit] at tended
  exact tended

theorem tended_write (tended : writer.Tended) (id : Nat) (noWait callback : Bool)
    (buf : BufWindow) :
    (writer.writeStreamInternal id noWait callback buf).2.Tended := by
  rw [writeStreamInternal]
  have sound : writer.Sound := tended.toSound
  generalize isNew : (⟨⟨id, noWait, buf⟩, .ready, false, buf⟩ : QueuedWrite) = new
  have unsent : new.submitted = false := by
    rw [← isNew]
  split_ifs with _ _ _ _ _ both
  · exact tended
  · exact tended
  · exact tended
  · exact tended
  · exact tended
  · refine Sound.resumed_self { sound with } both.2 (fun _ irp member _ submitted => ?_) fun irp member => ?_
    · have member : irp ∈ (writer.queue ++ [new]).head? := member
      rw [both.1, nil_append, List.head?_cons, Option.mem_some] at member
      rw [← member, unsent] at submitted
      exact absurd submitted Bool.false_ne_true
    · have member : irp ∈ (writer.queue ++ [new]).tail := member
      rw [both.1] at member
      exact absurd member not_mem_nil
  · have free : ¬writer.queLimit = true :=
      fun limit => both ⟨tended.idle limit, sound.held.2 (.inl limit)⟩
    refine ⟨{ sound with }, fun limit => absurd limit free,
      fun place irp member ready submitted => ?_, fun irp member => ?_, fun place => ?_⟩
    · have member : irp ∈ (writer.queue ++ [new]).head? := member
      cases queue : writer.queue with
      | nil =>
        rw [queue, nil_append, List.head?_cons, Option.mem_some] at member
        rw [← member, unsent] at submitted
        exact absurd submitted Bool.false_ne_true
      | cons head rest =>
        rw [queue, cons_append, List.head?_cons] at member
        exact tended.under place irp (by rw [queue]; exact member) ready submitted
    · have member : irp ∈ (writer.queue ++ [new]).tail := member
      have fresh := tended.fresh
      cases queue : writer.queue with
      | nil =>
        rw [queue] at member
        exact absurd member not_mem_nil
      | cons head rest =>
        rw [queue, cons_append, tail_cons] at member
        rw [queue, tail_cons] at fresh
        rcases mem_append.1 member with held | isIt
        · exact fresh irp held
        · rw [mem_singleton.1 isIt]
          exact unsent
    · rcases tended.waits place with ⟨_, limit⟩ | flight | due | flowCtrl | ⟨head, isHead, state⟩
      · exact absurd limit free
      · exact .inr (.inl flight)
      · exact .inr (.inr (.inl due))
      · exact .inr (.inr (.inr (.inl flowCtrl)))
      · refine .inr (.inr (.inr (.inr ⟨head, ?_, state⟩)))
        show head ∈ (writer.queue ++ [new]).head?
        rw [List.head?_append, isHead]
        exact Option.mem_some_self head

theorem Sound.passing (sound : writer.Sound) (free : writer.queLimit = false)
    (busy : writer.place ≠ none ∧ writer.place ≠ some (.worker false))
    (fresh : ∀ irp ∈ writer.queue, irp.submitted = false) : writer.Tended where
  toSound := sound
  idle := fun limit => absurd (free.symm.trans limit) Bool.false_ne_true
  under := fun _ irp member _ submitted =>
    absurd ((fresh irp (mem_of_mem_head? member)).symm.trans submitted) Bool.false_ne_true
  fresh := fun irp member => fresh irp (mem_of_mem_tail member)
  waits := fun place => (place.elim busy.1 busy.2).elim

theorem submitted_adjustSizeToWrite (irp : QueuedWrite) (slide : Bool) :
    (irp.adjustSizeToWrite slide).2.submitted = irp.submitted := by
  rw [QueuedWrite.adjustSizeToWrite]
  simp only
  split_ifs <;> rfl

theorem tended_answered (sound : writer.Sound) (free : writer.queLimit = false)
    (place : writer.place = some .loop) (unsent : irp.submitted = false)
    (fresh : ∀ irp ∈ rest, irp.submitted = false) (ret : Int) :
    (writer.answered irp rest ret).Tended := by
  have busy : writer.place ≠ none ∧ writer.place ≠ some (.worker false) := by
    rw [place]
    decide
  have unsent' := (submitted_adjustSizeToWrite irp true).trans unsent
  rw [answered]
  generalize irp.adjustSizeToWrite true = slid at unsent'
  simp only
  split_ifs
  · exact Sound.passing { sound with } free busy fresh
  · exact Sound.passing { sound with } free busy fresh
  · exact Sound.passing { sound with } free busy fresh
  · exact Sound.passing { sound with } free busy fresh
  · refine Sound.passing { sound with } free busy fun other member => ?_
    rcases mem_cons.1 member with isIt | held
    · rw [isIt]
      exact unsent'
    · exact fresh other held
  · exact Sound.passing { sound with } free busy fresh
  · exact Sound.passing { sound with } free busy fresh

theorem tended_runLoop (tended : writer.Tended) (place : writer.place = some .loop) {ret : Int}
    (closed : ret = errorQueueFull → writer.canSend = false) : (writer.runLoop ret).Tended := by
  have sound : Sound { writer with calling := false } := { tended with }
  have idle := tended.idle
  have under := tended.under (by rw [place]; decide)
  have fresh := tended.fresh
  rw [runLoop.eq_def]
  simp only
  split
  · next empty => exact sound.parked empty
  · next irp rest queue =>
      rw [queue] at idle under fresh
      have free : writer.queLimit = false :=
        Bool.eq_false_iff.2 fun limit => absurd (idle limit) (cons_ne_nil _ _)
      have busy : writer.place ≠ none ∧ writer.place ≠ some (.worker false) := by
        rw [place]
        decide
      split
      · exact Sound.passing { sound with } free busy fresh
      · next ready =>
          split
          · next submitted =>
              have flight := under irp rfl (not_not.1 ready) submitted
              refine ⟨{ sound with }, tended.idle, fun _ => ?_, tended.fresh, fun _ => .inr (.inl flight)⟩
              exact fun _ _ _ _ => flight
          · next unsubmitted =>
              have unsent : ∀ irp', (if irp.req.noWait = true then irp
                  else (irp.adjustSizeToWrite false).2) = irp' → irp'.submitted = false := by
                intro irp' same
                rw [← same]
                split
                · exact Bool.eq_false_iff.2 unsubmitted
                · rw [submitted_adjustSizeToWrite]
                  exact Bool.eq_false_iff.2 unsubmitted
              generalize (if irp.req.noWait = true then irp else (irp.adjustSizeToWrite false).2) = irp'
                at unsent
              have unsent := unsent irp' rfl
              split_ifs with _ full
              · have flight : ∀ piece : FlyingPiece, writer.flight ++ [piece] ≠ [] := fun _ never =>
                  absurd (append_eq_nil_iff.1 never).2 (cons_ne_nil _ _)
                exact ⟨{ sound with },
                  fun limit => absurd (free.symm.trans limit) Bool.false_ne_true,
                  fun _ _ _ _ _ => flight _, fresh, fun _ => .inr (.inl (flight _))⟩
              · have visited : Sound { writer with calling := false, queue := irp' :: rest } :=
                  { sound with }
                exact visited.refused rfl free (closed full) unsent fresh
              · exact tended_answered { sound with } free place unsent fresh ret

theorem tended_resched (sound : writer.Sound) (room : ¬writer.Full)
    (idle : writer.queLimit = true → writer.queue = [])
    (under : ∀ irp ∈ writer.queue.head?, irp.state = .ready → irp.submitted = true → writer.flight ≠ [])
    (fresh : ∀ irp ∈ writer.queue.tail, irp.submitted = false) (ret : Int) :
    (writer.resched ret).Tended := by
  have quiet : Sound { writer with calling := false } := { sound with }
  have both := quiet.rescheduled room idle under fresh ret
  rw [resched]
  simp only
  rw [both.1, finish, if_pos rfl]
  exact both.2

theorem tended_onIoIrpComplete (sound : writer.Sound)
    (idle : writer.queLimit = true → writer.queue = [])
    (fresh : ∀ irp ∈ writer.queue.tail, irp.submitted = false) (piece : StmPiece) (status : Int) :
    (writer.onIoIrpComplete piece status).Tended := by
  rw [onIoIrpComplete.eq_def]
  split
  · refine ⟨{ sound with }, idle, fun never => absurd rfl never, fresh, fun never => ?_⟩
    rcases never with never | never
    · exact absurd never.symm (Option.some_ne_none _).symm
    · exact absurd (Option.some.inj never) nofun
  · simp only
    split
    · next empty =>
        have wrote : Sound { writer with written := writer.written ++ [piece] } :=
          { sound with }
        refine tended_resched wrote (not_full_of_nil empty) idle (fun irp member => ?_) fresh status
        have member : irp ∈ writer.queue.head? := member
        rw [empty] at member
        exact absurd member (Option.not_mem_none irp)
    · next irp rest queue =>
        rw [queue] at idle fresh
        have free : writer.queLimit = false :=
          Bool.eq_false_iff.2 fun limit => absurd (idle limit) (cons_ne_nil _ _)
        have busy : ∀ ret : Int, (some (WriterPlace.resched ret) : Option WriterPlace) ≠ none ∧
            (some (WriterPlace.resched ret) : Option WriterPlace) ≠ some (.worker false) :=
          fun ret => ⟨Option.some_ne_none _, fun same => nomatch Option.some.inj same⟩
        have unsent := submitted_adjustSizeToWrite { irp with submitted := false } true
        generalize QueuedWrite.adjustSizeToWrite { irp with submitted := false } true = slid at unsent
        split_ifs with gone
        · have state : irp.state ≠ .ready := by
            intro ready
            rw [ready] at gone
            exact absurd gone (by decide)
          refine ⟨{ sound with },
            fun limit => absurd (free.symm.trans limit) Bool.false_ne_true,
            fun _ head member ready => ?_, fun other member => ?_, fun _ => ?_⟩
          · have member : head ∈ writer.queue.head? := member
            rw [queue, List.head?_cons, Option.mem_some] at member
            exact absurd (member ▸ ready) state
          · have member : other ∈ writer.queue.tail := member
            rw [queue] at member
            exact fresh other member
          · refine .inr (.inr (.inr (.inr ⟨irp, ?_, state⟩)))
            show irp ∈ writer.queue.head?
            rw [queue]
            exact Option.mem_some_self irp
        · exact Sound.passing { sound with } free (busy _) fresh
        · exact Sound.passing { sound with } free (busy _) fresh
        · refine Sound.passing { sound with } free (busy _) fun other member => ?_
          rcases mem_cons.1 member with isIt | held
          · rw [isIt]
            exact unsent
          · exact fresh other held
        · exact Sound.passing { sound with } free (busy _) fresh
        · exact Sound.passing { sound with } free (busy _) fresh

theorem tended_failNext (tended : writer.Tended) (place : writer.place = some .failing) :
    writer.failNext.Tended := by
  have sound : Sound { writer with calling := false } := { tended with }
  have idle := tended.idle
  have fresh := tended.fresh
  rw [failNext.eq_def]
  simp only
  split
  · next empty =>
      refine (sound.rescheduled (not_full_of_nil empty) idle (fun irp member => ?_) fresh _).2
      have member : irp ∈ writer.queue.head? := member
      rw [empty] at member
      exact absurd member (Option.not_mem_none irp)
  · next irp rest queue =>
      rw [queue] at idle fresh
      have free : writer.queLimit = false :=
        Bool.eq_false_iff.2 fun limit => absurd (idle limit) (cons_ne_nil _ _)
      have busy : writer.place ≠ none ∧ writer.place ≠ some (.worker false) := by
        rw [place]
        decide
      split
      · exact Sound.passing { sound with } free busy fresh
      · exact Sound.passing { sound with } free busy fresh

theorem tended_worker (tended : writer.Tended) {head : Bool}
    (place : writer.place = some (.worker head)) (spares : ¬(head = true ∧ writer.Full))
    (ret : Int) :
    Tended { ({ writer with calling := false }.reschedWriteTask ret).2 with place := none } := by
  have sound : Sound { writer with calling := false } := { tended with }
  have under := tended.under (by rw [place]; exact fun same => nomatch Option.some.inj same)
  by_cases full : writer.Full
  · have other : head = false := Bool.eq_false_iff.2 fun isHead => spares ⟨isHead, full⟩
    have some : writer.queue ≠ [] := fun empty => not_full_of_nil empty full
    have quiet : Full { writer with calling := false } := full
    rw [reschedWriteTask, if_neg some, if_pos quiet]
    refine ⟨{ sound with }, tended.idle, fun _ => under, tended.fresh, fun _ => tended.waits (.inr ?_)⟩
    rw [place, other]
  · exact (sound.rescheduled full tended.idle under tended.fresh ret).2

theorem head?_setState
    (member : irp ∈ (setState irps id state).head?) :
    ∃ old ∈ irps.head?, irp.submitted = old.submitted ∧ (irp = old ∨ irp.state = state) := by
  cases irps with
  | nil => exact absurd member (Option.not_mem_none irp)
  | cons head rest =>
    have same : (if head.req.id = id then { head with state := state } else head) = irp :=
      Option.some.inj member
    refine ⟨head, Option.mem_some_self head, ?_⟩
    rw [← same]
    split
    · exact ⟨rfl, .inr rfl⟩
    · exact ⟨rfl, .inl rfl⟩

theorem submitted_setState
    (fresh : ∀ irp ∈ irps, irp.submitted = false) :
    ∀ irp ∈ setState irps id state, irp.submitted = false := by
  intro irp member
  obtain ⟨old, isOld, same⟩ := mem_map.1 member
  rw [← same]
  split
  · exact fresh old isOld
  · exact fresh old isOld

theorem tended_expire (tended : writer.Tended) (id : Nat) (failed : List (Nat × Int)) :
    Tended { writer with queue := setState writer.queue id .cancelled, failed := failed } := by
  refine ⟨{ tended with }, fun limit => ?_,
    fun place irp member ready submitted => ?_, fun irp member => ?_, fun place => ?_⟩
  · show setState writer.queue id .cancelled = []
    rw [tended.idle limit]
    rfl
  · obtain ⟨old, isOld, same, isState⟩ := head?_setState member
    rw [same] at submitted
    rcases isState with isIt | cancelled
    · exact tended.under place old isOld (isIt ▸ ready) submitted
    · rw [cancelled] at ready
      cases ready
  · have member : irp ∈ (setState writer.queue id .cancelled).tail := member
    rw [setState, ← map_tail] at member
    exact submitted_setState tended.fresh irp member
  · rcases tended.waits place with ⟨empty, limit⟩ | flight | due | flowCtrl | ⟨head, isHead, state⟩
    · refine .inl ⟨?_, limit⟩
      show setState writer.queue id .cancelled = []
      rw [empty]
      rfl
    · exact .inr (.inl flight)
    · exact .inr (.inr (.inl due))
    · exact .inr (.inr (.inr (.inl flowCtrl)))
    · refine .inr (.inr (.inr (.inr ⟨if head.req.id = id then { head with state := .cancelled } else head,
        ?_, ?_⟩)))
      · show _ ∈ (setState writer.queue id .cancelled).head?
        rw [setState, List.head?_map, Option.mem_def.1 isHead]
        rfl
      · split
        · exact IrpState.noConfusion
        · exact state

theorem tended_onWorkerIrpComplete (tended : writer.Tended) (place : writer.place = none)
    (irp : QueuedWrite) : (writer.onWorkerIrpComplete irp).Tended := by
  have under := tended.under (by rw [place]; exact (Option.some_ne_none _).symm)
  have idle := tended.idle
  have fresh := tended.fresh
  have waits := tended.waits (.inl place)
  rw [Waits] at waits
  refine ⟨{ tended with }, fun limit => ?_,
    fun _ other member ready submitted => ?_, fun other member => ?_, fun isOther => ?_⟩
  · show writer.queue.eraseP _ = []
    rw [idle limit]
    rfl
  · have member : other ∈ (writer.queue.eraseP fun held => held.req.id = irp.req.id).head? := member
    cases queue : writer.queue with
    | nil =>
      rw [queue] at member
      exact absurd member (Option.not_mem_none other)
    | cons head rest =>
      rw [queue] at member under fresh
      by_cases same : head.req.id = irp.req.id
      · rw [eraseP_cons_of_pos (by simpa using same)] at member
        have unsent := fresh other (mem_of_mem_head? member)
        exact absurd (unsent.symm.trans submitted) Bool.false_ne_true
      · rw [eraseP_cons_of_neg (by simpa using same)] at member
        exact under other member ready submitted
  · have member : other ∈ (writer.queue.eraseP fun held => held.req.id = irp.req.id).tail := member
    cases queue : writer.queue with
    | nil =>
      rw [queue] at member
      exact absurd member not_mem_nil
    | cons head rest =>
      rw [queue] at member fresh
      by_cases same : head.req.id = irp.req.id
      · rw [eraseP_cons_of_pos (by simpa using same)] at member
        exact fresh other (mem_of_mem_tail member)
      · rw [eraseP_cons_of_neg (by simpa using same)] at member
        exact fresh other (mem_of_mem_eraseP member)
  · have notHead : (writer.queue.head?.any fun head => head.req.id = irp.req.id) = false := by
      rcases isOther with never | isPlace
      · exact absurd never (Option.some_ne_none _)
      · exact WriterPlace.worker.inj (Option.some.inj isPlace)
    rw [Waits]
    show ((writer.queue.eraseP fun held => held.req.id = irp.req.id) = [] ∧ writer.queLimit = true) ∨
      writer.flight ≠ [] ∨ 0 < writer.due ∨ writer.flowCtrl = true ∨
      ∃ held ∈ (writer.queue.eraseP fun held => held.req.id = irp.req.id).head?, held.state ≠ .ready
    cases queue : writer.queue with
    | nil =>
      rw [queue] at waits
      exact waits
    | cons head rest =>
      rw [queue] at waits notHead
      rw [eraseP_cons_of_neg (by simpa using notHead)]
      exact waits.imp (fun both => absurd both.1 (cons_ne_nil _ _)) id

theorem tended_onFCLifted (tended : writer.Tended) (place : writer.place = none) (lifts : Nat) :
    ({ writer with lifts := lifts }.resume .flowCtrl).2.Tended := by
  have none : ¬false = true := Bool.false_ne_true
  have under := tended.under
  have idle := tended.idle
  rw [resume_going (by exact tended.going)]
  simp only
  split
  · next both =>
      refine ⟨⟨tended.going, ⟨fun never => absurd never none, fun reason => ?_⟩,
        fun never => absurd never none⟩, idle, under, tended.fresh,
        fun _ => .inr (.inr (.inl (Nat.succ_pos _)))⟩
      rcases reason with limit | never
      · exact absurd (both.1.symm.trans limit) none
      · exact absurd never none
  · next other =>
      have limited : writer.paused = true → writer.queLimit = true := by
        intro paused
        by_contra off
        exact other ⟨Bool.eq_false_iff.2 off, paused⟩
      refine ⟨⟨tended.going, ⟨fun paused => .inl (limited paused), fun reason => ?_⟩,
        fun never => absurd never none⟩, idle, under, tended.fresh, fun isPlace => ?_⟩
      · rcases reason with limit | never
        · exact tended.held.2 (.inl limit)
        · exact absurd never none
      · rcases tended.waits (.inl place) with parked | flight | due | flowCtrl | head
        · exact .inl parked
        · exact .inr (.inl flight)
        · exact .inr (.inr (.inl due))
        · have limit := limited (tended.held.2 (.inr flowCtrl))
          exact .inl ⟨idle limit, limit⟩
        · exact .inr (.inr (.inr (.inr head)))

theorem tended_of_step {move : StmWriterMove} {next : StmWriter} (tended : writer.Tended)
    (spares : writer.Spares move) (moved : writer.step move = some next) : next.Tended := by
  have sound := tended.toSound
  have none : ¬writer.stopped = true := by
    rw [tended.going]
    exact Bool.false_ne_true
  cases move with
  | write id noWait callback buf =>
    obtain ⟨_, ⟨⟩⟩ := Option.ite_none_right_eq_some.1 moved
    exact tended_write tended id noWait callback buf
  | run =>
    obtain ⟨⟨place, _⟩, same⟩ := Option.ite_none_right_eq_some.1 moved
    rw [if_neg none] at same
    cases same
    have under := tended.under (by rw [place]; exact (Option.some_ne_none _).symm)
    refine ⟨{ sound with }, tended.idle, fun _ => under, tended.fresh, fun never => ?_⟩
    rcases never with never | never
    · exact absurd never (Option.some_ne_none _)
    · exact nomatch Option.some.inj never
  | loop ret =>
    obtain ⟨place, ⟨⟩⟩ := Option.ite_none_right_eq_some.1 moved
    exact tended_runLoop tended place spares
  | land piece status =>
    obtain ⟨_, ⟨⟩⟩ := Option.ite_none_right_eq_some.1 moved
    have flight : writer.flight.erase ⟨piece, Option.none⟩ ++ [⟨piece, some status⟩] ≠ [] := fun never =>
      absurd (append_eq_nil_iff.1 never).2 (cons_ne_nil _ _)
    exact ⟨{ sound with }, tended.idle, fun _ _ _ _ _ => flight, tended.fresh, fun _ => .inr (.inl flight)⟩
  | complete piece status =>
    obtain ⟨_, same⟩ := Option.ite_none_right_eq_some.1 moved
    simp only at same
    rw [if_neg none] at same
    cases same
    have landed : Sound { writer with
        flight := writer.flight.erase ⟨piece, some status⟩, calling := false } :=
      { sound with }
    exact tended_onIoIrpComplete landed tended.idle tended.fresh piece status
  | failNext =>
    obtain ⟨place, ⟨⟩⟩ := Option.ite_none_right_eq_some.1 moved
    exact tended_failNext tended place
  | resched =>
    rw [step] at moved
    have spares : writer.SparesPlace writer.place := spares
    split at moved
    · next ret place =>
        rw [place] at spares
        cases moved
        exact tended_resched sound spares tended.idle
          (tended.under (by rw [place]; exact fun same => nomatch Option.some.inj same)) tended.fresh ret
    · next head place =>
        rw [place] at spares
        cases moved
        exact tended_worker tended place spares _
    · exact absurd moved.symm (Option.some_ne_none _)
  | expire id =>
    obtain ⟨_, ⟨⟩⟩ := Option.ite_none_right_eq_some.1 moved
    exact tended_expire tended id _
  | expired irp =>
    obtain ⟨⟨place, _⟩, same⟩ := Option.ite_none_right_eq_some.1 moved
    rw [if_neg none] at same
    cases same
    exact tended_onWorkerIrpComplete tended place irp
  | flowCtrl =>
    cases moved
    exact ⟨⟨sound.going, sound.held, fun _ => .inl rfl⟩, tended.idle, tended.under, tended.fresh, tended.waits⟩
  | lift =>
    obtain ⟨_, ⟨⟩⟩ := Option.ite_none_left_eq_some.1 moved
    exact ⟨⟨sound.going, sound.held, fun _ => .inr (Nat.succ_pos _)⟩, tended.idle, tended.under,
      tended.fresh, tended.waits⟩
  | onFCLifted =>
    obtain ⟨⟨place, _⟩, same⟩ := Option.ite_none_right_eq_some.1 moved
    simp only at same
    rw [if_neg none] at same
    cases same
    exact tended_onFCLifted tended place _

end StmWriter

def sparingWriter (outLimit : Bool) : Machine StmWriter StmWriterMove :=
  (stmWriterMachine outLimit).restrict fun writer move => writer.Spares move

theorem served_of_spares {outLimit : Bool} {writer : StmWriter}
    (reachable : (sparingWriter outLimit).Reachable writer) : writer.Served := by
  have tended : writer.Tended :=
    reachable.invariant (StmWriter.tended_new outLimit) fun _ _ _ _ tended moved =>
      StmWriter.tended_of_step tended (Machine.restrict_step.1 moved).1 (Machine.restrict_step.1 moved).2
  exact tended.served

def refusedPiece : List StmWriterMove :=
  [.run, .loop statusSuccess, .write 0 false false longBuf, .write 1 true false shortBuf, .run,
    .loop statusPending, .land ⟨0, 0, 64512⟩ statusSuccess, .complete ⟨0, 0, 64512⟩ statusSuccess,
    .resched, .flowCtrl, .run, .loop errorQueueFull]

theorem served_refusedPiece :
    ∃ writer, (sparingWriter true).run (sparingWriter true).start refusedPiece = some writer ∧
      writer.queue.length = 2 ∧ writer.paused = true ∧ writer.Served := by
  have ran : ((sparingWriter true).run (sparingWriter true).start refusedPiece).map
      (fun writer => (writer.queue.length, writer.paused)) = some (2, true) := by
    decide +kernel
  obtain ⟨writer, run, fields⟩ := Option.map_eq_some_iff.1 ran
  have both := Prod.mk.inj fields
  exact ⟨writer, run, both.1, both.2, served_of_spares (Machine.Reachable.start.run run)⟩

def filledBehindPiece : List StmWriterMove :=
  [.write 0 false false longBuf, .run, .loop statusPending] ++
    (List.range 31).map (fun id => .write (id + 1) true false shortBuf) ++
    [.land ⟨0, 0, 64512⟩ statusSuccess, .complete ⟨0, 0, 64512⟩ statusSuccess, .resched]

/-- The task is over with its first piece, and the queue is full. -/
theorem filledBehindPiece_stalls :
    ¬∀ writer, (stmWriterMachine true).Reachable writer → writer.Served := by
  intro served
  have ran : ((stmWriterMachine true).run (stmWriterMachine true).start filledBehindPiece).map
      (fun writer => decide writer.Served) = some false := by
    decide +kernel
  obtain ⟨writer, run, unserved⟩ := Option.map_eq_some_iff.1 ran
  exact of_decide_eq_false unserved (served writer (Machine.Reachable.start.run run))

end RpcFrmwrk.Ipc
