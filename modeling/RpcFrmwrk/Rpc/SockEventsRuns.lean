import RpcFrmwrk.Ipc.Requests
import RpcFrmwrk.Library.Threads
import RpcFrmwrk.Rpc.SockEvents

/-! What becomes of the events of a socket over whole runs. Owns `SockState.Delivers`, each event
for one request and in its order; who has the event that is on its way. -/

namespace RpcFrmwrk.Rpc

open RpcFrmwrk.Library RpcFrmwrk.Ipc List

/-- The request that `OnReceive` is about to complete. -/
def SockRecv.handed : SockRecv → Option (Nat × StmSockEvent)
  | .responded irp evt => some (irp, evt)
  | _ => none

def SockState.Quiet (state : SockState) : Prop :=
  state.recv.handed = none ∧ (∀ tid, state.call tid = .idle) ∧ state.tasks = []

/-- A request is completed at most once. The events are delivered in their order, and those
that are not are queued or in the hand of a call. Events and requests wait together only inside
of `OnReceive`. -/
structure SockState.Delivers (state : SockState) : Prop where
  once : (state.delivered.map Prod.fst).Nodup
  completed : ∀ entry ∈ state.delivered, state.irp entry.1 = .completed
  inOrder : ∃ given, state.happened = state.delivered.map Prod.snd ++ (given ++ state.evts) ∧
    (state.Quiet → given = [])
  apart : (∀ irp, state.recv ≠ .received irp) → state.evts = [] ∨ state.listening = []

/-- A thread that is back at the head of its loop finds a request or an empty queue; one
that takes the next pair finds a request that can be completed. -/
def SockCall.Fits (state : SockState) : SockCall → Prop
  | .head _ => state.listening = [] → state.evts = []
  | .pairing _ ((irp, _) :: _) _ => state.ready irp = true
  | _ => True

/-- When `OnReceive` has the locks, the request it chose is still in front and nothing is on its
way, or the request was cancelled and is the last. -/
def SockRecv.Fits (state : SockState) : SockRecv → Prop
  | .received irp =>
    state.listening = [] ∨ state.evts = [] ∨
      state.listening.head? = some irp ∧
        if state.ready irp then state.flying = [] else state.listening.length = 1
  | _ => True

/-- One event is on its way at a time, and none is reported behind a queued one. No request
is cancelled that an event has been given to. -/
def SockMove.Fits (state : SockState) : SockMove → Prop
  | .event _ _ => state.listening = [] ∨ state.evts = [] ∧ state.flying = []
  | .goOn tid => (state.call tid).Fits state
  | .received => state.recv.Fits state
  | .listen _ _ => state.evts = [] ∨ state.flying = []
  | .cancelBegin irp => irp ∉ state.promised
  | _ => True

instance SockCall.decidableFits (state : SockState) (call : SockCall) : Decidable (call.Fits state) := by
  unfold SockCall.Fits
  split <;> infer_instance

instance SockRecv.decidableFits (state : SockState) (recv : SockRecv) : Decidable (recv.Fits state) := by
  unfold SockRecv.Fits
  split <;> infer_instance

instance SockMove.decidableFits (state : SockState) (move : SockMove) : Decidable (move.Fits state) := by
  unfold SockMove.Fits
  split <;> infer_instance

/-! ### Who has the event -/

/-- A thread has this event, and it has set the response of these requests. -/
inductive SockCall.Carries (submitted : List Nat) : SockCall → StmSockEvent → List Nat → Prop where
  | head {evt : StmSockEvent} : Carries submitted (.head evt) evt []
  | popped {irp : Nat} {evt : StmSockEvent} (known : irp ∈ submitted) :
      Carries submitted (.popped irp evt) evt []
  | responded {irp : Nat} {evt : StmSockEvent} (known : irp ∈ submitted) :
      Carries submitted (.responded irp evt) evt [irp]
  | pairing {own irp : Nat} {evt : StmSockEvent} (known : irp ∈ submitted) :
      Carries submitted (.pairing own [(irp, evt)] []) evt []
  | paired {own irp : Nat} {evt : StmSockEvent} (known : irp ∈ submitted) :
      Carries submitted (.pairing own [] [(irp, evt)]) evt [irp]

/-- `OnReceive`, one thread or one task has the event that is on its way. -/
inductive Flight (submitted : List Nat) :
    Option (Nat × StmSockEvent) → (Nat → SockCall) → List (List (Nat × StmSockEvent)) →
      List StmSockEvent → List Nat → Prop where
  | landed {calls : Nat → SockCall} (idle : ∀ tid, calls tid = .idle) :
      Flight submitted none calls [] [] []
  | call {calls : Nat → SockCall} {tid : Nat} {evt : StmSockEvent} {promised : List Nat}
      (carries : (calls tid).Carries submitted evt promised)
      (others : ∀ other, other ≠ tid → calls other = .idle) :
      Flight submitted none calls [] [evt] promised
  | recv {calls : Nat → SockCall} {irp : Nat} {evt : StmSockEvent} (known : irp ∈ submitted)
      (idle : ∀ tid, calls tid = .idle) :
      Flight submitted (some (irp, evt)) calls [] [evt] [irp]
  | task {calls : Nat → SockCall} {irp : Nat} {evt : StmSockEvent} (known : irp ∈ submitted)
      (idle : ∀ tid, calls tid = .idle) :
      Flight submitted none calls [[(irp, evt)]] [evt] [irp]

namespace Flight

variable {submitted : List Nat} {handed : Option (Nat × StmSockEvent)} {calls : Nat → SockCall}
  {tasks : List (List (Nat × StmSockEvent))} {flying : List StmSockEvent} {promised : List Nat}

theorem submit (flight : Flight submitted handed calls tasks flying promised) (own : Nat) :
    Flight (own :: submitted) handed calls tasks flying promised := by
  cases flight with
  | landed idle => exact .landed idle
  | recv known idle => exact .recv (mem_cons_of_mem own known) idle
  | task known idle => exact .task (mem_cons_of_mem own known) idle
  | call carries others =>
    refine .call ?_ others
    generalize calls _ = call at carries ⊢
    cases carries with
    | head => exact .head
    | popped known => exact .popped (mem_cons_of_mem own known)
    | responded known => exact .responded (mem_cons_of_mem own known)
    | pairing known => exact .pairing (mem_cons_of_mem own known)
    | paired known => exact .paired (mem_cons_of_mem own known)

theorem of_nil (flight : Flight submitted handed calls tasks flying promised)
    (nothing : flying = []) :
    handed = none ∧ (∀ tid, calls tid = .idle) ∧ tasks = [] ∧ promised = [] := by
  cases flight with
  | landed idle => exact ⟨rfl, idle, rfl, rfl⟩
  | _ => cases nothing

theorem of_quiet (flight : Flight submitted handed calls tasks flying promised)
    (back : handed = none) (idle : ∀ tid, calls tid = .idle) (done : tasks = []) : flying = [] := by
  cases flight with
  | landed _ => rfl
  | call carries others =>
    rw [idle] at carries
    cases carries
  | recv _ _ => cases back
  | task _ _ => cases done

variable {tid irp : Nat} {evt : StmSockEvent}

theorem of_call (flight : Flight submitted handed calls tasks flying promised)
    (inside : calls tid ≠ .idle) :
    ∃ evt, (calls tid).Carries submitted evt promised ∧ flying = [evt] ∧ handed = none ∧ tasks = [] ∧
      ∀ other, other ≠ tid → calls other = .idle := by
  cases flight with
  | landed idle | recv _ idle | task _ idle => exact absurd (idle tid) inside
  | @call _ holder evt _ carries others =>
    have same : tid = holder := by_contra fun other => inside (others tid other)
    subst same
    exact ⟨evt, carries, rfl, rfl, rfl, others⟩

theorem of_recv (flight : Flight submitted handed calls tasks flying promised)
    (mine : handed = some (irp, evt)) :
    irp ∈ submitted ∧ flying = [evt] ∧ promised = [irp] ∧ tasks = [] ∧ ∀ tid, calls tid = .idle := by
  cases flight with
  | recv known idle =>
    cases mine
    exact ⟨known, rfl, rfl, rfl, idle⟩
  | _ => cases mine

theorem of_task (flight : Flight submitted handed calls tasks flying promised) {index : Nat}
    {rest : List (Nat × StmSockEvent)}
    (mine : tasks[index]? = some ((irp, evt) :: rest)) :
    index = 0 ∧ rest = [] ∧ irp ∈ submitted ∧ tasks = [[(irp, evt)]] ∧ flying = [evt] ∧
      promised = [irp] ∧ handed = none ∧ ∀ tid, calls tid = .idle := by
  cases flight with
  | task known idle =>
    cases index with
    | zero =>
      cases mine
      exact ⟨rfl, rfl, known, rfl, rfl, rfl, rfl, idle⟩
    | succ index => cases mine
  | _ => cases mine

theorem ofCall {calls : Nat → SockCall} {call : SockCall}
    {promised : List Nat} (carries : call.Carries submitted evt promised)
    (others : ∀ other, other ≠ tid → calls other = .idle) :
    Flight submitted none (Function.update calls tid call) [] [evt] promised := by
  have mine : (Function.update calls tid call tid).Carries submitted evt promised := by
    rwa [Function.update_self]
  exact .call mine (others_update others call)

end Flight

/-- The events that are queued, on their way and delivered are all there were, in this order. -/
structure SockState.Coherent (state : SockState) : Prop where
  events : state.happened = state.delivered.map Prod.snd ++ (state.flying ++ state.evts)
  once : (state.delivered.map Prod.fst).Nodup
  completed : Completed state.irp state.submitted state.delivered
  waiting : ∀ irp ∈ state.listening, irp ∈ state.submitted
  promised : ∀ irp ∈ state.promised, state.irp irp = .ready
  apart : state.evts ≠ [] → state.listening ≠ [] →
    ∃ irp evt, state.recv = .received irp ∧ state.evts = [evt]
  flight : Flight state.submitted state.recv.handed state.call state.tasks state.flying state.promised

namespace SockState.Coherent

variable {state next : SockState}

theorem delivers (coherent : state.Coherent) : state.Delivers where
  once := coherent.once
  completed entry member := (coherent.completed entry member).1
  inOrder :=
    ⟨state.flying, coherent.events, fun ⟨back, idle, done⟩ => coherent.flight.of_quiet back idle done⟩
  apart outside := by
    by_contra both
    rw [not_or] at both
    obtain ⟨irp, evt, inside, _⟩ := coherent.apart both.1 both.2
    exact outside irp inside

/-- A queued event and a request that waits: `OnReceive` is on its way to them. -/
theorem empty_of_waiting (coherent : state.Coherent) (waits : state.listening ≠ [])
    (outside : ∀ irp, state.recv ≠ .received irp) : state.evts = [] := by
  by_contra queued
  obtain ⟨irp, _, inside, _⟩ := coherent.apart queued waits
  exact outside irp inside

variable {irp tid : Nat} {evt : StmSockEvent}

theorem complete (coherent : state.Coherent)
    (known : irp ∈ state.submitted) (alone : state.flying = [evt]) (mine : state.promised = [irp])
    {calls : Nat → SockCall} (idle : ∀ tid, calls tid = .idle) {recv : SockRecv}
    (back : recv.handed = none) (same : ∀ irp, state.recv ≠ .received irp ∨ recv = state.recv) :
    ({ state.complete irp evt with call := calls, tasks := [], recv := recv } : SockState).Coherent := by
  have ready : state.irp irp = .ready := coherent.promised irp (by rw [mine]; exact mem_singleton_self irp)
  have erased : state.flying.erase evt = [] := by rw [alone, erase_cons_head]
  have kept : state.promised.erase irp = [] := by rw [mine, erase_cons_head]
  have continues : state.ready irp = true := IrpState.ready_iff.2 ready
  rw [SockState.complete, if_pos continues]
  have fresh : irp ∉ state.delivered.map Prod.fst := by
    refine coherent.completed.not_mem ?_
    rw [ready]
    exact IrpState.noConfusion
  refine ⟨?_, nodup_answer coherent.once evt fresh, coherent.completed.append evt known,
    coherent.waiting, ?_, ?_, ?_⟩
  · show state.happened = (state.delivered ++ [(irp, evt)]).map Prod.snd ++ (state.flying.erase evt ++ state.evts)
    rw [erased, coherent.events, alone, map_append, append_assoc]
    rfl
  · show ∀ other ∈ state.promised.erase irp, _
    rw [kept]
    exact forall_mem_nil _
  · intro queued waits
    obtain ⟨one, later, inside, single⟩ := coherent.apart queued waits
    rcases same one with outside | equal
    · exact absurd inside outside
    · exact ⟨one, later, equal.trans inside, single⟩
  · show Flight state.submitted recv.handed calls [] (state.flying.erase evt) (state.promised.erase irp)
    rw [erased, kept, back]
    exact .landed idle

theorem receive (coherent : state.Coherent) (inBuf : List UInt8)
    (back : state.recv = .idle ∨ state.recv = .reading) : (state.receive inBuf).Coherent := by
  have outside (irp : Nat) : state.recv ≠ .received irp := by
    rcases back with idle | reading
    · rw [idle]
      exact SockRecv.noConfusion
    · rw [reading]
      exact SockRecv.noConfusion
  have handed : state.recv.handed = none := by
    rcases back with idle | reading
    · rw [idle]
      rfl
    · rw [reading]
      rfl
  have flight := coherent.flight
  rw [handed] at flight
  have events : state.happened ++ [.retWithBuf inBuf] = state.delivered.map Prod.snd ++
      (state.flying ++ (state.evts ++ [.retWithBuf inBuf])) := by
    rw [coherent.events, append_assoc, append_assoc]
  cases waits : state.listening with
  | nil =>
    refine ⟨events, coherent.once, coherent.completed, coherent.waiting, coherent.promised,
      fun _ some => absurd waits some, ?_⟩
    rw [SockState.receive, waits]
    exact flight
  | cons irp rest =>
    have empty : state.evts = [] :=
      coherent.empty_of_waiting (by rw [waits]; exact cons_ne_nil irp rest) outside
    refine ⟨events, coherent.once, coherent.completed, coherent.waiting, coherent.promised, ?_, ?_⟩
    · intro _ _
      refine ⟨irp, .retWithBuf inBuf, ?_, ?_⟩
      · rw [SockState.receive, waits]
      · show state.evts ++ [_] = _
        rw [empty, nil_append]
    · rw [SockState.receive, waits]
      exact flight

theorem received (coherent : state.Coherent) (inside : state.recv = .received irp)
    (fits : state.recv.Fits state) : (state.received irp).Coherent := by
  rw [inside] at fits
  have flight := coherent.flight
  rw [inside] at flight
  -- Nothing to do for this call.
  have back (free : state.evts = [] ∨ state.listening = []) :
      ({ state with recv := .reading } : SockState).Coherent := by
    refine ⟨coherent.events, coherent.once, coherent.completed, coherent.waiting, coherent.promised, ?_, flight⟩
    intro queued waits
    exact (free.elim queued waits).elim
  unfold SockState.received
  split
  · rename_i front rest evt later waits queued
    have listens : state.listening ≠ [] := by
      rw [waits]
      exact cons_ne_nil front rest
    have more : state.evts ≠ [] := by
      rw [queued]
      exact cons_ne_nil evt later
    obtain ⟨head, rule⟩ := (fits.resolve_left listens).resolve_left more
    have mine : front = irp := by
      rw [waits] at head
      exact Option.some_inj.1 head
    obtain ⟨_, only, _, single⟩ := coherent.apart more listens
    have last : later = [] := by
      rw [queued] at single
      exact (List.cons.inj single).2
    subst mine last
    have known : front ∈ state.submitted :=
      coherent.waiting front (by rw [waits]; exact mem_cons_self)
    have behind : ∀ other ∈ rest, other ∈ state.submitted := fun other member =>
      coherent.waiting other (by rw [waits]; exact mem_cons_of_mem front member)
    rw [if_neg (not_not.2 rfl)]
    by_cases ready : state.ready front = true
    · rw [if_pos ready] at rule
      obtain ⟨_, idle, done, nobody⟩ := flight.of_nil rule
      rw [if_pos ready]
      refine ⟨?_, coherent.once, coherent.completed, behind, ?_, fun never => absurd rfl never, ?_⟩
      · show state.happened = state.delivered.map Prod.snd ++ (state.flying ++ [evt] ++ [])
        rw [coherent.events, queued, append_nil]
      · show ∀ other ∈ state.promised ++ [front], _
        rw [nobody]
        intro other member
        rw [mem_singleton.1 member]
        exact IrpState.ready_iff.1 ready
      · show Flight state.submitted (some (front, evt)) state.call state.tasks
          (state.flying ++ [evt]) (state.promised ++ [front])
        rw [rule, nobody, done]
        exact .recv known idle
    · rw [if_neg ready] at rule
      have alone : rest = [] := by
        rw [waits] at rule
        exact length_eq_zero_iff.1 (Nat.succ.inj rule)
      rw [if_neg ready]
      exact ⟨coherent.events, coherent.once, coherent.completed, behind, coherent.promised,
        fun _ never => absurd alone never, flight⟩
  · rename_i differs
    refine back ?_
    by_contra both
    rw [not_or] at both
    obtain ⟨evt, later, queued⟩ := exists_cons_of_ne_nil both.1
    obtain ⟨front, rest, waits⟩ := exists_cons_of_ne_nil both.2
    exact differs front rest evt later waits queued

theorem event (coherent : state.Coherent) (tid : Nat) (evt : StmSockEvent)
    (fits : state.listening = [] ∨ state.evts = [] ∧ state.flying = []) :
    (state.event tid evt).Coherent := by
  rw [SockState.event]
  cases waits : state.listening with
  | nil =>
    refine ⟨?_, coherent.once, coherent.completed, nofun, coherent.promised,
      fun _ never => absurd rfl never, coherent.flight⟩
    show state.happened ++ [evt] = state.delivered.map Prod.snd ++ (state.flying ++ (state.evts ++ [evt]))
    rw [coherent.events, append_assoc, append_assoc]
  | cons irp rest =>
    obtain ⟨empty, nothing⟩ := fits.resolve_left (by rw [waits]; exact cons_ne_nil irp rest)
    obtain ⟨handed, idle, done, nobody⟩ := coherent.flight.of_nil nothing
    have known : irp ∈ state.submitted :=
      coherent.waiting irp (by rw [waits]; exact mem_cons_self)
    refine ⟨?_, coherent.once, coherent.completed, ?_, coherent.promised, fun never => absurd empty never, ?_⟩
    · show state.happened ++ [evt] = state.delivered.map Prod.snd ++ (state.flying ++ [evt] ++ state.evts)
      rw [coherent.events, nothing, empty]
      simp only [append_nil, nil_append]
    · exact fun other member => coherent.waiting other (by rw [waits]; exact mem_cons_of_mem irp member)
    · show Flight state.submitted state.recv.handed (Function.update state.call tid (.popped irp evt))
        state.tasks (state.flying ++ [evt]) state.promised
      rw [handed, done, nothing, nobody]
      exact .ofCall (.popped known) fun other _ => idle other

theorem complete_frame (state : SockState) (irp : Nat) (evt : StmSockEvent) :
    (state.complete irp evt).call = state.call ∧ (state.complete irp evt).tasks = state.tasks ∧
      (state.complete irp evt).recv = state.recv := by
  unfold SockState.complete
  split <;> exact ⟨rfl, rfl, rfl⟩

theorem recvDone (coherent : state.Coherent)
    (inside : state.recv = .responded irp evt) :
    ({ state.complete irp evt with recv := .reading } : SockState).Coherent := by
  have handed : state.recv.handed = some (irp, evt) := by
    rw [inside]
    rfl
  obtain ⟨known, alone, mine, done, idle⟩ := coherent.flight.of_recv handed
  have left (other : Nat) : state.recv ≠ .received other := by
    rw [inside]
    exact SockRecv.noConfusion
  have whole : ({ state.complete irp evt with
      call := state.call
      tasks := []
      recv := .reading } : SockState).Coherent :=
    coherent.complete known alone mine idle rfl fun other => .inl (left other)
  obtain ⟨calls, tasks, _⟩ := complete_frame state irp evt
  rw [← calls, ← done, ← tasks] at whole
  exact whole

theorem runTask (coherent : state.Coherent) {index : Nat}
    (moved : state.runTask index = some next) :
    next.Coherent := by
  unfold SockState.runTask at moved
  split at moved
  · rename_i irp evt rest mine
    obtain ⟨busy, ⟨⟩⟩ := Option.ite_none_left_eq_some.1 moved
    obtain ⟨first, last, known, single, alone, promised, handed, idle⟩ := coherent.flight.of_task mine
    subst first last
    have whole := coherent.complete known alone promised idle handed fun _ => .inr rfl
    obtain ⟨calls, _, recv⟩ := complete_frame state irp evt
    have none_left : (if ([] : List (Nat × StmSockEvent)) = [] then state.tasks.eraseIdx 0
        else state.tasks.set 0 []) = [] := by
      rw [if_pos rfl, single]
      rfl
    rw [none_left]
    rw [← calls, ← recv] at whole
    exact whole
  · cases moved

theorem goOn (coherent : state.Coherent) (fits : (state.call tid).Fits state)
    (moved : state.goOn tid = some next) : next.Coherent := by
  have inside : state.call tid ≠ .idle := by
    intro idle
    rw [SockState.goOn, idle] at moved
    cases moved
  obtain ⟨evt, carries, alone, handed, done, others⟩ := coherent.flight.of_call inside
  have erased : state.flying.erase evt = [] := by rw [alone, erase_cons_head]
  unfold SockState.goOn at moved
  generalize state.call tid = call at carries fits moved
  generalize mine : state.promised = promised at carries
  cases carries with
  | head =>
    cases waits : state.listening with
    | nil =>
      have empty : state.evts = [] := fits waits
      simp only [waits] at moved
      cases moved
      refine ⟨?_, coherent.once, coherent.completed, nofun, coherent.promised,
        fun _ never => absurd rfl never, ?_⟩
      · show state.happened = state.delivered.map Prod.snd ++ (state.flying.erase evt ++ (state.evts ++ [evt]))
        rw [coherent.events, erased, alone, empty, append_nil]
        rfl
      · show Flight state.submitted state.recv.handed (Function.update state.call tid .idle) state.tasks
          (state.flying.erase evt) state.promised
        rw [handed, erased, done, mine]
        exact .landed (idle_update others)
    | cons irp rest =>
      simp only [waits] at moved
      cases moved
      have known : irp ∈ state.submitted :=
        coherent.waiting irp (by rw [waits]; exact mem_cons_self)
      refine ⟨coherent.events, coherent.once, coherent.completed, ?_, coherent.promised, ?_, ?_⟩
      · exact fun other member => coherent.waiting other (by rw [waits]; exact mem_cons_of_mem irp member)
      · exact fun queued _ => coherent.apart queued (by rw [waits]; exact cons_ne_nil irp rest)
      · show Flight state.submitted state.recv.handed (Function.update state.call tid (.popped irp evt))
          state.tasks state.flying state.promised
        rw [handed, done, alone, mine]
        exact .ofCall (.popped known) others
  | @popped irp _ known =>
    by_cases busy : state.busy irp = true
    · simp only [if_pos busy] at moved
      cases moved
    · by_cases ready : state.ready irp = true
      · simp only [if_neg busy, if_pos ready] at moved
        cases moved
        refine ⟨coherent.events, coherent.once, coherent.completed, coherent.waiting, ?_, coherent.apart, ?_⟩
        · show ∀ other ∈ state.promised ++ [irp], _
          rw [mine]
          intro other member
          rw [mem_singleton.1 member]
          exact IrpState.ready_iff.1 ready
        · show Flight state.submitted state.recv.handed (Function.update state.call tid (.responded irp evt))
            state.tasks state.flying (state.promised ++ [irp])
          rw [handed, done, alone, mine]
          exact .ofCall (.responded known) others
      · simp only [if_neg busy, if_neg ready] at moved
        cases moved
        refine ⟨coherent.events, coherent.once, coherent.completed, coherent.waiting,
          coherent.promised, coherent.apart, ?_⟩
        show Flight state.submitted state.recv.handed (Function.update state.call tid (.head evt))
          state.tasks state.flying state.promised
        rw [handed, done, alone, mine]
        exact .ofCall .head others
  | @responded irp _ known =>
    by_cases busy : state.busy irp = true
    · simp only [if_pos busy] at moved
      cases moved
    · simp only [if_neg busy] at moved
      cases moved
      have whole := coherent.complete known alone mine (idle_update others) handed fun _ => .inr rfl
      obtain ⟨calls, tasks, recv⟩ := complete_frame state irp evt
      rw [← calls, ← done, ← tasks, ← recv] at whole
      exact whole
  | @pairing own irp _ known =>
    have ready : state.ready irp = true := fits
    by_cases busy : irp ≠ own ∧ state.busy irp = true
    · simp only [if_pos busy] at moved
      cases moved
    · simp only [if_neg busy, if_pos ready] at moved
      cases moved
      refine ⟨coherent.events, coherent.once, coherent.completed, coherent.waiting, ?_, coherent.apart, ?_⟩
      · show ∀ other ∈ state.promised ++ [irp], _
        rw [mine]
        intro other member
        rw [mem_singleton.1 member]
        exact IrpState.ready_iff.1 ready
      · show Flight state.submitted state.recv.handed
          (Function.update state.call tid (.pairing own [] ([] ++ [(irp, evt)])))
          state.tasks state.flying (state.promised ++ [irp])
        rw [handed, done, alone, mine]
        exact .ofCall (.paired known) others
  | @paired own irp _ known =>
    cases moved
    refine ⟨coherent.events, coherent.once, coherent.completed, coherent.waiting,
      coherent.promised, coherent.apart, ?_⟩
    show Flight state.submitted state.recv.handed (Function.update state.call tid .idle)
      (state.tasks ++ [[(irp, evt)]]) state.flying state.promised
    rw [handed, done, alone, mine]
    exact .task known (idle_update others)

/-- A new request waits, or it gets the first of the queued events, or it hands the one event that
`OnReceive` has queued to the request in front. -/
theorem listen (coherent : state.Coherent) {own : Nat} (new : own ∉ state.submitted)
    (fits : state.evts = [] ∨ state.flying = []) : (state.listen tid own).Coherent := by
  have more : ∀ other ∈ state.submitted, other ∈ own :: state.submitted :=
    fun other member => mem_cons_of_mem own member
  have waiting : ∀ other ∈ state.listening ++ [own], other ∈ own :: state.submitted := by
    intro other member
    rcases mem_append.1 member with old | last
    · exact more other (coherent.waiting other old)
    · exact mem_singleton.1 last ▸ mem_cons_self
  have completed := coherent.completed.submit own
  have flight := coherent.flight.submit own
  cases queued : state.evts with
  | nil =>
    have waits : state.listen tid own =
        { state with
          submitted := own :: state.submitted
          listening := state.listening ++ [own] } := by
      simp only [SockState.listen, queued, zip_nil_right]
    rw [waits]
    exact ⟨coherent.events, coherent.once, completed, waiting, coherent.promised,
      fun never => absurd queued never, flight⟩
  | cons evt later =>
    have nothing : state.flying = [] := fits.resolve_left (by rw [queued]; exact cons_ne_nil evt later)
    obtain ⟨handed, idle, done, nobody⟩ := coherent.flight.of_nil nothing
    cases waits : state.listening with
    | nil =>
      have answered : state.listen tid own =
          { state with
            submitted := own :: state.submitted
            listening := []
            evts := later
            irp := Function.update state.irp own .completed
            delivered := state.delivered ++ [(own, evt)] } := by
        simp only [SockState.listen, waits, queued, nil_append, zip_cons_cons, zip_nil_left,
          length_singleton, drop_succ_cons, drop_zero, if_true]
        rfl
      have fresh := coherent.completed.not_mem_of_new new
      rw [answered]
      refine ⟨?_, nodup_answer coherent.once evt fresh, completed.append evt mem_cons_self,
        nofun, ?_, fun _ never => absurd rfl never, flight⟩
      · show state.happened = (state.delivered ++ [(own, evt)]).map Prod.snd ++ (state.flying ++ later)
        rw [coherent.events, nothing, queued, map_append, append_assoc]
        rfl
      · show ∀ other ∈ state.promised, _
        rw [nobody]
        exact forall_mem_nil _
    | cons front rest =>
      obtain ⟨_, only, _, single⟩ := coherent.apart (by rw [queued]; exact cons_ne_nil evt later)
        (by rw [waits]; exact cons_ne_nil front rest)
      have last : later = [] := by
        rw [queued] at single
        exact (List.cons.inj single).2
      subst last
      have known : front ∈ state.submitted :=
        coherent.waiting front (by rw [waits]; exact mem_cons_self)
      have other : front ≠ own := fun same => new (same ▸ known)
      have paired : state.listen tid own =
          { state with
            submitted := own :: state.submitted
            listening := rest ++ [own]
            evts := []
            held := Function.update state.held own true
            flying := state.flying ++ [evt]
            call := Function.update state.call tid (.pairing own [(front, evt)] []) } := by
        simp only [SockState.listen, waits, queued, cons_append, zip_cons_cons, zip_nil_right,
          length_singleton, drop_succ_cons, drop_zero, if_neg other]
        rfl
      rw [paired]
      refine ⟨?_, coherent.once, completed, ?_, coherent.promised, fun never => absurd rfl never, ?_⟩
      · show state.happened = state.delivered.map Prod.snd ++ (state.flying ++ [evt] ++ [])
        rw [coherent.events, queued, append_nil]
      · intro one member
        exact waiting one (by rw [waits]; exact mem_cons_of_mem front member)
      · show Flight (own :: state.submitted) state.recv.handed
          (Function.update state.call tid (.pairing own [(front, evt)] [])) state.tasks
          (state.flying ++ [evt]) state.promised
        rw [handed, done, nothing, nobody]
        exact .ofCall (.pairing (more front known)) fun one _ => idle one

theorem cancelBegin (coherent : state.Coherent) (ready : state.irp irp = .ready)
    (free : irp ∉ state.promised) : (state.setIrp irp .cancelling).Coherent := by
  refine ⟨coherent.events, coherent.once, coherent.completed.update .cancelling (coherent.completed.not_mem ?_),
    coherent.waiting, ?_, coherent.apart, coherent.flight⟩
  · rw [ready]
    exact IrpState.noConfusion
  · intro other member
    have differs : other ≠ irp := fun same => free (same ▸ member)
    exact (Function.update_of_ne differs _ _).trans (coherent.promised other member)

theorem cancelEnd (coherent : state.Coherent) (cancelling : state.irp irp = .cancelling) :
    ((state.setIrp irp .cancelled).removeIrpFromMap irp).Coherent := by
  refine ⟨coherent.events, coherent.once, coherent.completed.update .cancelled (coherent.completed.not_mem ?_),
    ?_, ?_, ?_, coherent.flight⟩
  · rw [cancelling]
    exact IrpState.noConfusion
  · exact fun other member => coherent.waiting other (mem_of_mem_erase member)
  · intro other member
    have ready := coherent.promised other member
    have differs : other ≠ irp := by
      rintro rfl
      rw [cancelling] at ready
      cases ready
    exact (Function.update_of_ne differs _ _).trans ready
  · intro queued waits
    refine coherent.apart queued fun nobody => waits ?_
    show state.listening.erase irp = []
    rw [nobody]
    rfl

theorem step (coherent : state.Coherent) {move : SockMove} (fits : move.Fits state)
    (moved : state.step move = some next) : next.Coherent := by
  cases move with
  | receive inBuf =>
    obtain ⟨enabled, ⟨⟩⟩ := Option.ite_none_right_eq_some.1 moved
    exact coherent.receive inBuf enabled.1
  | received =>
    simp only [SockState.step] at moved
    split at moved
    · rename_i irp inside
      obtain ⟨busy, ⟨⟩⟩ := Option.ite_none_left_eq_some.1 moved
      exact coherent.received inside fits
    · cases moved
  | recvDone =>
    simp only [SockState.step] at moved
    split at moved
    · rename_i irp evt inside
      obtain ⟨busy, ⟨⟩⟩ := Option.ite_none_left_eq_some.1 moved
      exact coherent.recvDone inside
    · cases moved
  | receiveEnd =>
    obtain ⟨inside, ⟨⟩⟩ := Option.ite_none_right_eq_some.1 moved
    have outside : ∀ irp, state.recv ≠ .received irp := by
      rw [inside]
      exact fun _ => SockRecv.noConfusion
    have flight := coherent.flight
    rw [inside] at flight
    exact ⟨coherent.events, coherent.once, coherent.completed, coherent.waiting, coherent.promised,
      fun queued waits => absurd (coherent.empty_of_waiting waits outside) queued, flight⟩
  | event tid evt =>
    obtain ⟨_, ⟨⟩⟩ := Option.ite_none_right_eq_some.1 moved
    exact coherent.event tid evt fits
  | goOn tid => exact coherent.goOn fits moved
  | listen tid own =>
    obtain ⟨enabled, ⟨⟩⟩ := Option.ite_none_right_eq_some.1 moved
    exact coherent.listen enabled.2 fits
  | runTask index => exact coherent.runTask moved
  | cancelBegin irp =>
    obtain ⟨enabled, ⟨⟩⟩ := Option.ite_none_right_eq_some.1 moved
    exact coherent.cancelBegin enabled.2.1 fits
  | cancelEnd irp =>
    obtain ⟨cancelling, ⟨⟩⟩ := Option.ite_none_right_eq_some.1 moved
    exact coherent.cancelEnd cancelling

end SockState.Coherent

theorem SockState.coherent_start : sockMachine.start.Coherent :=
  ⟨rfl, nodup_nil, forall_mem_nil _,
    forall_mem_nil _, forall_mem_nil _,
    fun never => absurd rfl never, .landed fun _ => rfl⟩

/-- In every run whose steps fit, each event goes to one request and in its order. -/
theorem delivers_of_fits {state : SockState}
    (reachable : (sockMachine.restrict SockMove.Fits).Reachable state) : state.Delivers := by
  have coherent : state.Coherent :=
    reachable.invariant SockState.coherent_start fun _ _ _ _ before moved => by
      obtain ⟨fits, stepped⟩ := Machine.restrict_step.1 moved
      exact before.step fits stepped
  exact coherent.delivers

theorem delivers_bufAndError :
    ∃ state : SockState, state.delivered = [(1, .retWithBuf [7]), (2, .error (-107))] ∧ state.evts = [.retWithBuf [8]] ∧
      state.Delivers := by
  have ran : ((sockMachine.restrict SockMove.Fits).run sockMachine.start
      [.listen 0 1, .receive [7], .received, .recvDone, .receiveEnd, .listen 0 2,
        .event 1 (.error (-107)), .goOn 1, .goOn 1, .receive [8]]).map
      (fun state => (state.delivered, state.evts)) =
        some ([(1, .retWithBuf [7]), (2, .error (-107))], [.retWithBuf [8]]) := by
    decide +kernel
  obtain ⟨state, ran, fields⟩ := Option.map_eq_some_iff.1 ran
  exact ⟨state, congrArg Prod.fst fields, congrArg Prod.snd fields,
    delivers_of_fits (Machine.Reachable.start.run ran)⟩

/-- Two requests listen. The first is cancelled while `OnReceive` waits for its lock: the
buffer stays in the queue, and so does the second request. -/
theorem cancelled_leavesBoth : ¬ ∀ state, sockMachine.Reachable state → state.Delivers := by
  intro always
  have ran : (sockMachine.run sockMachine.start
      [.listen 0 1, .listen 0 2, .receive [7], .cancelBegin 1, .cancelEnd 1, .received, .receiveEnd]).map
      (fun state => (state.recv, state.evts, state.listening)) =
        some (.idle, [.retWithBuf [7]], [2]) := by
    decide +kernel
  obtain ⟨state, ran, fields⟩ := Option.map_eq_some_iff.1 ran
  have back : state.recv = .idle := congrArg Prod.fst fields
  have queued : state.evts = [.retWithBuf [7]] := congrArg (fun field => field.2.1) fields
  have waits : state.listening = [2] := congrArg (fun field => field.2.2) fields
  have apart := (always state (Machine.Reachable.start.run ran)).apart fun irp => by
    rw [back]
    exact SockRecv.noConfusion
  rw [queued, waits] at apart
  exact apart.elim (cons_ne_nil _ _) (cons_ne_nil _ _)

end RpcFrmwrk.Rpc
