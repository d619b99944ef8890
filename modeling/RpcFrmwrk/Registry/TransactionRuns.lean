import RpcFrmwrk.Registry.Transactions

/-! What the backing file holds at each commit of a run. Owns the invariant between the allocator,
the calls and the log of their writes; `Bracketed`, that each commit of a run finds whole calls
only; the runs of which this holds. -/

namespace RpcFrmwrk.Registry

open RpcFrmwrk.Library List

variable {progress : Progress} {event : Event Write} {rest : List (Event Write)}
    {pos cacheLife : Nat} {file : List Block} {state : State} {move : Move}

def replay (array : BlockArray) (log : List (Nat × Write)) : BlockArray :=
  log.foldl (fun array entry => array.store entry.2.request.blocks entry.2.buf) array

def writesOf (pos : Nat) (log : List (Nat × Write)) : List Write :=
  (log.filter fun entry => entry.1 == pos).map Prod.snd

def State.NoneHalfDone (state : State) : Prop := ∀ progress ∈ state.calls, ¬ progress.HalfDone

/-- No call is half done that does not run inside one `BATransact`. -/
def State.Quiet (state : State) : Prop :=
  ∀ progress ∈ state.calls, progress.call.entry.transacts = false → ¬ progress.HalfDone

/-- The file alone is the state behind some set of whole calls: every call has
none or all of its writes in the log, and the file holds the log's blocks. -/
def State.Whole (state : State) (file : List Block) : Prop :=
  (∀ pos progress, state.calls[pos]? = some progress →
    writesOf pos state.log = [] ∨ writesOf pos state.log = actions progress.call.events) ∧
  ∀ blkIdx block, replay (arrayOf file) state.log blkIdx = some block →
    state.session.alloc.file[sectorOf blkIdx]? = some block

def State.Enabled (state : State) : Move → Prop
  | .advance pos _ => ∃ progress, state.calls[pos]? = some progress ∧ progress.rest ≠ []
  | _ => True

/-- No step of the run aborts the process, and each commit finds no call half
done and leaves a file that is the state behind whole calls. -/
def Bracketed (file : List Block) (cacheLife : Nat) (state : State) : List Move → Prop
  | [] => True
  | move :: moves =>
    state.Enabled move → ∃ next, state.step cacheLife move = some next ∧
      (state.commits cacheLife move = true → state.NoneHalfDone ∧ next.Whole file) ∧
      Bracketed file cacheLife next moves

/-- Each commit of the run finds no call half done among those that do not run
inside one `BATransact`. -/
def CommitsQuiet (cacheLife : Nat) (state : State) : List Move → Prop
  | [] => True
  | move :: moves =>
    ∀ next, state.step cacheLife move = some next →
      (state.commits cacheLife move = true → state.Quiet) ∧ CommitsQuiet cacheLife next moves

/-! ### The allocator's steps -/

theorem checkAndCommit_spec {array : BlockArray} (session : Session)
    (simulates : Simulates array session.alloc) (cacheLife : Nat) (now : Int) (entering : Bool) :
    ∃ next, session.checkAndCommit cacheLife now entering = some next ∧
      Simulates array next.alloc ∧ next.transCount = session.transCount ∧
      (session.mayCommit cacheLife now entering = true → ∀ blkIdx block,
        array blkIdx = some block → next.alloc.file[sectorOf blkIdx]? = some block) := by
  by_cases commits : session.mayCommit cacheLife now entering = true
  · obtain ⟨⟨alloc, committed, file⟩, other, same, after⟩ :=
      Op.agrees simulates (show Op.Reachable .commit from trivial)
    have equal : alloc = other := Option.some.inj (committed.symm.trans same)
    subst equal
    refine ⟨{ session with alloc := alloc }, ?_, after, rfl, fun _ => file⟩
    rw [Session.checkAndCommit, if_pos commits, committed]
    rfl
  · exact ⟨session, if_neg commits, simulates, rfl, fun again => absurd again commits⟩

theorem write_spec {array : BlockArray} {session : Session}
    (simulates : Simulates array session.alloc) (write : Write) (now : Int) :
    ∃ next, session.write write now = some next ∧
      Simulates (array.store write.request.blocks write.buf) next.alloc ∧
      next.transCount = session.transCount := by
  obtain ⟨⟨total, alloc, written⟩, other, same, after⟩ := Op.agrees simulates write.reachable
  have step : Op.step session.alloc (.write write.request write.buf write.length) = some alloc := by
    rw [Op.step, written]
    rfl
  have equal : alloc = other := Option.some.inj (step.symm.trans same)
  subst equal
  refine ⟨{ session with
    alloc := alloc
    startTime := if session.alloc.dirtyBlks.isEmpty then now else session.startTime },
    ?_, after, rfl⟩
  rw [Session.write, written]
  rfl

def afterEvent (array : BlockArray) : Event Write → BlockArray
  | .act write => array.store write.request.blocks write.buf
  | _ => array

def countBehind (count : Nat) : Event Write → Nat
  | .enter => count + 1
  | .act _ => count
  | .leave => count - 1

theorem event_spec {array : BlockArray} {session : Session}
    (simulates : Simulates array session.alloc) (cacheLife : Nat) (now : Int)
    (event : Event Write) :
    ∃ next, session.event cacheLife now event = some next ∧
      Simulates (afterEvent array event) next.alloc ∧
      next.transCount = countBehind session.transCount event ∧
      (session.commitsAt cacheLife now event = true → ∀ blkIdx block,
        afterEvent array event blkIdx = some block → next.alloc.file[sectorOf blkIdx]? = some block) := by
  cases event with
  | enter =>
    obtain ⟨next, checked, after, count, file⟩ := checkAndCommit_spec session simulates cacheLife now true
    refine ⟨{ next with transCount := next.transCount + 1 }, ?_, after, ?_, file⟩
    · show Option.map _ _ = _
      rw [checked]
      rfl
    · show next.transCount + 1 = _
      rw [count]
      rfl
  | act write =>
    obtain ⟨next, written, after, count⟩ := write_spec simulates write now
    refine ⟨next, written, after, count, ?_⟩
    intro never
    cases never
  | leave =>
    exact checkAndCommit_spec session.decTransactCount simulates cacheLife now false

/-- The allocator has the blocks of the log, `m_dwTransCount` counts the open
brackets of all calls, and the log has the writes of each call so far. -/
structure State.Inv (file : List Block) (state : State) : Prop where
  simulates : Simulates (replay (arrayOf file) state.log) state.session.alloc
  count : state.session.transCount =
    (state.calls.map fun progress => openBehind progress.done).sum
  writes : ∀ pos progress, state.calls[pos]? = some progress →
    writesOf pos state.log = actions progress.done
  bounded : ∀ entry ∈ state.log, entry.1 < state.calls.length

theorem start_inv (file : List Block) (errno : Nat) : (State.start file errno).Inv file where
  simulates := by
    refine ⟨⟨Ordered.nil, ?_⟩, fun _ _ held => held⟩
    intro run member
    cases member
  count := rfl
  writes := by
    intro pos progress at?
    cases at?
  bounded := by
    intro entry member
    cases member

theorem Progress.balanced (progress : Progress) : Balanced (progress.done ++ progress.rest) := by
  rw [progress.whole, Call.events]
  by_cases transacts : progress.call.entry.transacts = true
  · rw [if_pos transacts]
    exact progress.call.balanced.enclose
  · rw [if_neg transacts]
    exact progress.call.balanced

theorem Progress.open_of_halfDone
    (transacts : progress.call.entry.transacts = true) (half : progress.HalfDone) :
    0 < openBehind progress.done := by
  have whole := progress.whole
  rw [Call.events, if_pos transacts] at whole
  refine openBehind_pos progress.call.balanced whole ?_ ?_
  · intro empty
    exact half.1 (by rw [empty]; rfl)
  · intro empty
    exact half.2 (by rw [empty]; rfl)

theorem Progress.next_of_rest (ahead : progress.rest = event :: rest) :
    progress.next.call = progress.call ∧ progress.next.done = progress.done ++ [event] ∧
      progress.next.rest = rest := by
  unfold Progress.next
  split
  · rename_i empty
    rw [empty] at ahead
    cases ahead
  · rename_i other others found
    obtain ⟨same, tail⟩ := List.cons.inj (ahead.symm.trans found)
    refine ⟨rfl, ?_, tail.symm⟩
    show progress.done ++ [other] = _
    rw [same]

theorem openBehind_next (ahead : progress.rest = event :: rest) :
    openBehind (progress.done ++ [event]) = countBehind (openBehind progress.done) event ∧
      (event = .leave → 0 < openBehind progress.done) := by
  have balanced := progress.balanced
  rw [ahead] at balanced
  obtain ⟨front, back⟩ := close_front balanced
  have behind : openBehind (progress.done ++ [event]) = (close (openBehind progress.done) [event]).getD 0 := by
    rw [openBehind, close_append, front, Option.bind_some]
  rw [behind]
  cases event with
  | enter | act => exact ⟨rfl, by intro never; cases never⟩
  | leave =>
    rw [close] at back
    by_cases zero : openBehind progress.done = 0
    · rw [if_pos zero] at back
      cases back
    · refine ⟨?_, fun _ => Nat.pos_of_ne_zero zero⟩
      rw [close, if_neg zero]
      rfl

theorem writesOf_append (pos : Nat) (front back : List (Nat × Write)) :
    writesOf pos (front ++ back) = writesOf pos front ++ writesOf pos back := by
  rw [writesOf, filter_append, map_append]
  rfl

theorem writesOf_logged_self (pos : Nat) (event : Event Write) :
    writesOf pos (logged pos event) = actions [event] := by
  cases event <;> simp [writesOf, logged, actions]

theorem writesOf_logged_other {other : Nat} (apart : other ≠ pos) (event : Event Write) :
    writesOf pos (logged other event) = [] := by
  cases event <;> simp [writesOf, logged, actions, apart]

theorem writesOf_eq_nil {log : List (Nat × Write)} (absent : ∀ entry ∈ log, entry.1 ≠ pos) :
    writesOf pos log = [] := by
  rw [writesOf, map_eq_nil_iff, filter_eq_nil_iff]
  intro entry member
  simpa using absent entry member

theorem replay_logged (array : BlockArray) (log : List (Nat × Write)) (pos : Nat)
    (event : Event Write) :
    replay array (log ++ logged pos event) = afterEvent (replay array log) event := by
  rw [replay, foldl_append]
  cases event <;> rfl

theorem advance_spec (inv : state.Inv file) (at? : state.calls[pos]? = some progress)
    (ahead : progress.rest = event :: rest)
    (cacheLife : Nat) (now : Int) :
    ∃ next, state.step cacheLife (.advance pos now) = some next ∧ next.Inv file ∧
      next.calls = state.calls.set pos progress.next ∧
      (state.session.commitsAt cacheLife now event = true → ∀ blkIdx block,
        replay (arrayOf file) next.log blkIdx = some block →
          next.session.alloc.file[sectorOf blkIdx]? = some block) := by
  obtain ⟨session, stepped, simulates, count, committed⟩ :=
    event_spec inv.simulates cacheLife now event
  obtain ⟨_, doneNext, _⟩ := Progress.next_of_rest ahead
  obtain ⟨openNext, openLeave⟩ := openBehind_next ahead
  have inside : pos < state.calls.length := (List.getElem?_eq_some_iff.1 at?).1
  refine ⟨⟨session, state.calls.set pos progress.next, state.log ++ logged pos event⟩,
    ?_, ⟨?_, ?_, ?_, ?_⟩, rfl, ?_⟩
  · simp only [State.step, at?, ahead, stepped, Option.map_some]
  · show Simulates (replay _ (state.log ++ logged pos event)) session.alloc
    rw [replay_logged]
    exact simulates
  · show session.transCount = _
    have counted : (state.calls.map fun progress => openBehind progress.done)[pos]? =
        some (openBehind progress.done) := by
      rw [List.getElem?_map, at?]
      rfl
    have moved := sum_set (openBehind progress.next.done) counted
    rw [doneNext, openNext] at moved
    rw [count, inv.count, map_set, doneNext, openNext]
    cases event with
    | enter | act =>
      simp only [countBehind] at moved ⊢
      omega
    | leave =>
      have positive := openLeave rfl
      simp only [countBehind] at moved ⊢
      omega
  · intro other found otherAt
    rw [writesOf_append]
    by_cases same : other = pos
    · subst same
      rw [List.getElem?_set_self inside, Option.some.injEq] at otherAt
      subst otherAt
      rw [inv.writes other progress at?, writesOf_logged_self, doneNext, actions_append]
    · rw [List.getElem?_set_ne fun equal => same equal.symm] at otherAt
      rw [inv.writes other found otherAt,
        writesOf_logged_other (fun equal => same equal.symm) event, append_nil]
  · intro entry member
    rw [length_set]
    rcases mem_append.1 member with old | new
    · exact inv.bounded entry old
    · obtain ⟨write, _, rfl⟩ := mem_map.1 new
      exact inside
  · intro commits blkIdx block held
    rw [replay_logged] at held
    exact committed commits blkIdx block held

/-- A possible step does not abort, keeps the invariant, and when it commits
the file has the blocks of the log. -/
theorem step_spec (inv : state.Inv file)
    (cacheLife : Nat) (enabled : state.Enabled move) :
    ∃ next, state.step cacheLife move = some next ∧ next.Inv file ∧
      (state.commits cacheLife move = true → ∀ blkIdx block,
        replay (arrayOf file) next.log blkIdx = some block →
          next.session.alloc.file[sectorOf blkIdx]? = some block) := by
  cases move with
  | issue call =>
    refine ⟨_, rfl, ⟨inv.simulates, ?_, ?_, ?_⟩, ?_⟩
    · show state.session.transCount = _
      rw [map_append, sum_append, inv.count]
      rfl
    · intro pos progress at?
      show writesOf pos state.log = _
      by_cases inside : pos < state.calls.length
      · rw [List.getElem?_append_left inside] at at?
        exact inv.writes pos progress at?
      · rw [List.getElem?_append_right (by omega)] at at?
        obtain ⟨_, rfl⟩ := List.getElem?_eq_some_iff.1 at?
        rw [writesOf_eq_nil]
        · simp only [getElem_singleton]
          rfl
        · intro entry member
          have := inv.bounded entry member
          omega
    · intro entry member
      have := inv.bounded entry member
      rw [length_append]
      omega
    · intro never
      cases never
  | advance pos now =>
    obtain ⟨progress, at?, unfinished⟩ := enabled
    obtain ⟨event, rest, ahead⟩ := exists_cons_of_ne_nil unfinished
    obtain ⟨next, stepped, nextInv, _, file⟩ := advance_spec inv at? ahead cacheLife now
    refine ⟨next, stepped, nextInv, fun commits => file ?_⟩
    simpa only [State.commits, at?, ahead] using commits
  | merge =>
    obtain ⟨_, other, ⟨⟩, after⟩ := Op.agrees inv.simulates (show Op.Reachable .merge from trivial)
    refine ⟨_, rfl, ⟨after, inv.count, inv.writes, inv.bounded⟩, ?_⟩
    intro never
    cases never
  | stop now =>
    obtain ⟨session, checked, after, count, file⟩ :=
      checkAndCommit_spec state.session.setStopped inv.simulates cacheLife now true
    refine ⟨{ state with session := session }, ?_,
      ⟨after, count.trans inv.count, inv.writes, inv.bounded⟩, file⟩
    simp only [State.step, checked, Option.map_some]

/-! ### A commit -/

theorem openBehind_of_sum {calls : List Progress}
    (sum : (calls.map fun progress => openBehind progress.done).sum = 0)
    (member : progress ∈ calls) : openBehind progress.done = 0 :=
  List.sum_eq_zero_iff_forall_eq_nat.1 sum _ (mem_map_of_mem member)

theorem mayCommit_count (session : Session) {now : Int} {entering : Bool}
    (commits : session.mayCommit cacheLife now entering = true) : session.transCount = 0 := by
  simp only [Session.mayCommit, Bool.and_eq_true, beq_iff_eq] at commits
  exact commits.1.1

theorem halfDone_next
    (ahead : progress.rest = event :: rest) (silent : actions [event] = []) :
    progress.next.HalfDone ↔ progress.HalfDone := by
  obtain ⟨_, doneNext, restNext⟩ := Progress.next_of_rest ahead
  have joined : actions progress.rest = actions rest := by
    rw [ahead, ← singleton_append, actions_append, silent, nil_append]
  rw [Progress.HalfDone, Progress.HalfDone, doneNext, restNext, actions_append, silent, append_nil, joined]

theorem commits_cases
    (commits : state.commits cacheLife move = true) :
    (∃ now, move = .stop now ∧ state.session.transCount = 0) ∨
    ∃ pos now progress event rest, move = .advance pos now ∧
      state.calls[pos]? = some progress ∧ progress.rest = event :: rest ∧
      actions [event] = [] ∧
      (event = .enter ∧ state.session.transCount = 0 ∨ event = .leave ∧ state.session.transCount ≤ 1) := by
  cases move with
  | issue call => cases commits
  | merge => cases commits
  | stop now =>
    exact .inl ⟨now, rfl, mayCommit_count state.session.setStopped commits⟩
  | advance pos now =>
    simp only [State.commits] at commits
    cases at? : state.calls[pos]? with
    | none =>
      rw [at?] at commits
      cases commits
    | some progress =>
      rw [at?] at commits
      cases ahead : progress.rest with
      | nil => simp only [ahead, Bool.false_eq_true] at commits
      | cons event rest =>
        simp only [ahead] at commits
        cases event with
        | act write => cases commits
        | enter =>
          have zero : state.session.transCount = 0 := mayCommit_count _ commits
          exact .inr ⟨pos, now, progress, _, rest, rfl, at?, ahead, rfl, .inl ⟨rfl, zero⟩⟩
        | leave =>
          have zero : state.session.transCount - 1 = 0 :=
            mayCommit_count state.session.decTransactCount commits
          exact .inr ⟨pos, now, progress, _, rest, rfl, at?, ahead, rfl, .inr ⟨rfl, by omega⟩⟩

/-- No commit finds a call half done that runs inside one `BATransact`: the call
has it open, and a commit takes place with none open. -/
theorem not_halfDone_of_commits (inv : state.Inv file)
    (commits : state.commits cacheLife move = true) :
    ∀ progress ∈ state.calls, progress.call.entry.transacts = true → ¬ progress.HalfDone := by
  intro progress member transacts half
  have opened := Progress.open_of_halfDone transacts half
  have none : state.session.transCount ≠ 0 := by
    intro zero
    rw [openBehind_of_sum (inv.count.symm.trans zero) member] at opened
    exact Nat.lt_irrefl 0 opened
  rcases commits_cases commits with ⟨_, _, zero⟩ |
    ⟨pos, now, moving, event, rest, _, at?, ahead, silent, ⟨_, zero⟩ | ⟨rfl, single⟩⟩
  · exact none zero
  · exact none zero
  · -- Behind the end of its bracket no call has one open, this one included.
    obtain ⟨next, _, nextInv, calls, _⟩ := advance_spec inv at? ahead 0 0
    obtain ⟨callNext, doneNext, _⟩ := Progress.next_of_rest ahead
    obtain ⟨openNext, openLeave⟩ := openBehind_next ahead
    have positive := openLeave rfl
    have counted : (state.calls.map fun progress => openBehind progress.done)[pos]? =
        some (openBehind moving.done) := by
      rw [List.getElem?_map, at?]
      rfl
    have moved := sum_set (openBehind moving.next.done) counted
    have closed : ((state.calls.set pos moving.next).map fun progress =>
        openBehind progress.done).sum = 0 := by
      have lowered : openBehind moving.next.done = openBehind moving.done - 1 := by
        rw [doneNext, openNext, countBehind]
      rw [map_set]
      have := inv.count
      omega
    obtain ⟨other, otherAt⟩ := mem_iff_getElem?.1 member
    have inside : pos < state.calls.length := (List.getElem?_eq_some_iff.1 at?).1
    by_cases same : other = pos
    · subst same
      have equal : progress = moving := Option.some.inj (otherAt.symm.trans at?)
      subst equal
      have halfNext := (halfDone_next ahead silent).2 half
      have openedNext := Progress.open_of_halfDone (by rw [callNext]; exact transacts) halfNext
      have member := mem_of_getElem? (List.getElem?_set_self (a := progress.next) inside)
      rw [openBehind_of_sum closed member] at openedNext
      exact Nat.lt_irrefl 0 openedNext
    · have kept : (state.calls.set pos moving.next)[other]? = some progress := by
        rw [List.getElem?_set_ne fun equal => same equal.symm]
        exact otherAt
      rw [openBehind_of_sum closed (mem_of_getElem? kept)] at opened
      exact Nat.lt_irrefl 0 opened

theorem noneHalfDone_next {next : State}
    (step : state.step cacheLife move = some next)
    (commits : state.commits cacheLife move = true) (none : state.NoneHalfDone) :
    next.NoneHalfDone := by
  rcases commits_cases commits with ⟨now, rfl, _⟩ | ⟨pos, now, moving, event, rest, rfl, at?, ahead, silent, _⟩
  · simp only [State.step, Option.map_eq_some_iff] at step
    obtain ⟨session, _, rfl⟩ := step
    exact none
  · simp only [State.step, at?, ahead, Option.map_eq_some_iff] at step
    obtain ⟨session, _, rfl⟩ := step
    intro progress member
    rcases mem_or_eq_of_mem_set member with old | rfl
    · exact none progress old
    · rw [halfDone_next ahead silent]
      exact none moving (mem_of_getElem? at?)

theorem whole_of_noneHalfDone (inv : state.Inv file)
    (none : state.NoneHalfDone)
    (at? : state.calls[pos]? = some progress) :
    writesOf pos state.log = [] ∨ writesOf pos state.log = actions progress.call.events := by
  rw [inv.writes pos progress at?, ← progress.whole, actions_append]
  by_cases begun : actions progress.done = []
  · exact .inl begun
  · by_cases missing : actions progress.rest = []
    · right
      rw [missing, append_nil]
    · exact absurd ⟨begun, missing⟩ (none progress (mem_of_getElem? at?))

theorem enabled_of_step {next : State} (step : state.step cacheLife move = some next) : state.Enabled move := by
  cases move with
  | advance pos now =>
    rw [State.step] at step
    cases at? : state.calls[pos]? with
    | none =>
      rw [at?] at step
      cases step
    | some progress =>
      refine ⟨progress, at?, ?_⟩
      intro empty
      simp only [at?, empty] at step
      cases step
  | _ => trivial

theorem bracketed_iff_of_inv (inv : state.Inv file)
    (cacheLife : Nat) (moves : List Move) :
    Bracketed file cacheLife state moves ↔ CommitsQuiet cacheLife state moves := by
  induction moves generalizing state with
  | nil => exact Iff.rfl
  | cons move moves ih =>
    constructor
    · intro bracketed next step
      obtain ⟨other, same, commit, later⟩ := bracketed (enabled_of_step step)
      cases Option.some.inj (same.symm.trans step)
      obtain ⟨found, foundStep, nextInv, _⟩ := step_spec inv cacheLife (enabled_of_step step)
      cases Option.some.inj (foundStep.symm.trans step)
      refine ⟨fun commits => ?_, (ih nextInv).1 later⟩
      intro progress member _
      exact (commit commits).1 progress member
    · intro quiet enabled
      obtain ⟨next, step, nextInv, file⟩ := step_spec inv cacheLife enabled
      obtain ⟨quietNow, later⟩ := quiet next step
      refine ⟨next, step, fun commits => ?_, (ih nextInv).2 later⟩
      have none : state.NoneHalfDone := by
        intro progress member
        by_cases transacts : progress.call.entry.transacts = true
        · exact not_halfDone_of_commits inv commits progress member transacts
        · exact quietNow commits progress member (by simpa using transacts)
      refine ⟨none, fun pos progress at? => ?_, file commits⟩
      exact whole_of_noneHalfDone nextInv (noneHalfDone_next step commits none) at?

/-- Under any number of callers: exactly when each commit finds no call half
done among the entry points without a `BATransact` of their own, each commit of
the run leaves the state behind whole calls. -/
theorem bracketed_iff (file : List Block) (errno cacheLife : Nat) (moves : List Move) :
    Bracketed file cacheLife (.start file errno) moves ↔
      CommitsQuiet cacheLife (.start file errno) moves :=
  bracketed_iff_of_inv (start_inv file errno) cacheLife moves

def Write.ones (blkIdx : Nat) (small : blkIdx < invalidBlockIdx) : Write where
  request := .single blkIdx
  buf := [onesBlock]
  length := rfl
  reachable := by
    have proper : invalidBlockIdx ∉ [blkIdx] := by
      rw [List.mem_singleton]
      omega
    refine ⟨.inr ⟨?_, fun _ => proper, .singleton _⟩, proper, ?_⟩
    · intro other inside
      rw [List.mem_singleton.1 inside]
      unfold invalidBlockIdx at small
      unfold addressable
      omega
    · intro elem inside
      rw [List.mem_singleton.1 inside]
      show (blkIdx + 1 - blkIdx) * blockSize ≤ maxBytesPerBuffer
      rw [Nat.add_sub_cancel_left]
      decide

/-- `WriteFile` of 512 bytes at offset 256 of a file with the blocks 0x11 and 0x12. -/
def writeFileTwo : Call where
  entry := .writeFile
  inner := [.act (.ones 0x11 (by decide)), .act (.ones 0x12 (by decide))]
  balanced := rfl

/-- `CloseFile` of a file that is clean. -/
def closeFileClean : Call where
  entry := .closeFile
  inner := []
  balanced := rfl

/-- Between its two blocks, closing another file commits the first one. -/
theorem closeFile_commits_half :
    ¬ Bracketed (List.replicate 21 zeroBlock) 5 (.start (List.replicate 21 zeroBlock) 0)
      [.issue writeFileTwo, .issue closeFileClean, .advance 0 0, .advance 1 5] := by
  intro bracketed
  obtain ⟨_, ⟨⟩, _, bracketed⟩ := bracketed trivial
  obtain ⟨_, ⟨⟩, _, bracketed⟩ := bracketed trivial
  obtain ⟨_, step, _, bracketed⟩ :=
    bracketed ⟨Progress.begin writeFileTwo, rfl, cons_ne_nil _ _⟩
  have written : State.step
      ⟨⟨⟨[], List.replicate 21 zeroBlock, 0⟩, 0, 0, false⟩,
        [.begin writeFileTwo, .begin closeFileClean], []⟩ 5 (.advance 0 0) =
      some ⟨⟨⟨[⟨0x11, [onesBlock]⟩], List.replicate 21 zeroBlock, 0⟩, 0, 0, false⟩,
        [(Progress.begin writeFileTwo).next, .begin closeFileClean],
        [(0, .ones 0x11 (by decide))]⟩ := rfl
  cases Option.some.inj (written.symm.trans step)
  obtain ⟨_, _, commit, _⟩ :=
    bracketed ⟨Progress.begin closeFileClean, rfl, cons_ne_nil _ _⟩
  have half : (Progress.begin writeFileTwo).next.HalfDone :=
    ⟨cons_ne_nil _ _, cons_ne_nil _ _⟩
  exact (commit rfl).1 _ mem_cons_self half

end RpcFrmwrk.Registry
