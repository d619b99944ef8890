import Mathlib.Data.List.Nodup
import RpcFrmwrk.Ipc.ParallelGrp

/-! The limited parallel group over whole runs. Owns `RfcGrp.Kept`, where the accepted tasks are and
how many they are; `RfcGrp.Duty`, that a task that could run has a run of the group to move it; one
lemma for each section of the group, and the invariant of its runs. -/

namespace RpcFrmwrk.Ipc

open RpcFrmwrk.Library List

namespace RfcGrp

variable {task : Nat}

/-- No run of the started group is under way, scheduled or about to take the lock. -/
def Quiet (grp : RfcGrp) : Prop :=
  grp.state = .started ∧ grp.batch = none ∧ grp.due = 0

def NoneWaits (grp : RfcGrp) : Prop :=
  grp.quePending = [] ∨ grp.maxRunning ≤ grp.runningCount

/-- The tasks are started in the order of their acceptance, each at most once and none
left out. The set holds those under way. -/
structure Kept (grp : RfcGrp) : Prop where
  order : grp.accepted = grp.started ++ (grp.batch.getD [] ++ grp.quePending)
  once : grp.accepted.Nodup
  set : grp.setTasks.Perm (grp.live ++ grp.batch.getD [])
  bounded : grp.pendingCount + grp.runningCount ≤ grp.lastSum

/-- `Kept`, and a batch moves only up to the limit. -/
structure Orderly (grp : RfcGrp) : Prop extends Kept grp where
  moved : ∀ move next, grp.step move = some next → grp.setTasks.length < next.setTasks.length →
    next.runningCount ≤ next.maxRunning

/-- A task that could run has a run of the group to move it, or its caller has to see to
it. -/
def Duty (grp : RfcGrp) : Prop :=
  grp.Quiet → grp.unrun = false → grp.NoneWaits

variable {grp : RfcGrp}

theorem Kept.pushBack (kept : grp.Kept) (fresh : task ∉ grp.accepted)
    (room : ¬grp.isQueueFull) : (grp.pushBack task).Kept where
  order := by
    rw [RfcGrp.pushBack]
    simp only
    rw [kept.order, append_assoc, append_assoc]
  once := by
    show (grp.accepted ++ [task]).Nodup
    rw [nodup_append]
    refine ⟨kept.once, nodup_singleton task, fun held member added isAdded same => ?_⟩
    rw [mem_singleton.1 isAdded] at same
    exact fresh (same ▸ member)
  set := kept.set
  bounded := by
    have below := Int.not_le.1 room
    have longer : (grp.pushBack task).pendingCount = grp.pendingCount + 1 := by
      rw [pendingCount, RfcGrp.pushBack]
      simp only
      rw [length_append, length_singleton, Int.natCast_add, pendingCount]
      rfl
    have same : (grp.pushBack task).runningCount = grp.runningCount := rfl
    have sum : (grp.pushBack task).lastSum = grp.maxPending + grp.maxRunning := rfl
    omega

theorem Kept.addAndRun (kept : grp.Kept) (fresh : task ∉ grp.accepted) : (grp.addAndRun task).2.Kept := by
  rw [RfcGrp.addAndRun]
  split
  · exact kept
  · split
    · exact kept
    · next room =>
        have added := kept.pushBack fresh room
        simp only
        split
        · exact added
        · split
          · exact added
          · exact { added with }

theorem Kept.appendTask (kept : grp.Kept) (fresh : task ∉ grp.accepted) : (grp.appendTask task).2.Kept := by
  rw [RfcGrp.appendTask]
  split
  · exact kept
  · next room =>
      split
      · exact kept
      · have added := kept.pushBack fresh room
        exact { added with }

theorem Kept.setLimit (kept : grp.Kept) (maxRunning maxPending : Nat) (noResched : Bool) :
    (grp.setLimit maxRunning maxPending noResched).2.Kept := by
  rw [RfcGrp.setLimit]
  split
  · exact kept
  · split
    · exact kept
    · simp only
      split
      · exact { kept with }
      · split
        · exact { kept with }
        · split
          · exact { kept with }
          · exact { kept with }

theorem removeTask_live (kept : grp.Kept) (live : task ∈ grp.live) :
    { grp with live := grp.live.erase task }.removeTask task =
      { grp with live := grp.live.erase task, setTasks := grp.setTasks.erase task } := by
  have member : task ∈ grp.setTasks := kept.set.mem_iff.2 (mem_append_left _ live)
  rw [removeTask, if_pos member]

theorem Kept.removeTask (kept : grp.Kept) (live : task ∈ grp.live) :
    ({ grp with live := grp.live.erase task }.removeTask task).Kept := by
  rw [removeTask_live kept live]
  have left : (grp.setTasks.erase task).Perm (grp.live.erase task ++ grp.batch.getD []) := by
    rw [← erase_append_left _ live]
    exact kept.set.erase task
  have shorter : (grp.setTasks.erase task).length ≤ grp.setTasks.length := length_erase_le
  have bounded := kept.bounded
  refine ⟨kept.order, kept.once, left, ?_⟩
  simp only [pendingCount, runningCount] at bounded ⊢
  omega

theorem Kept.onChildComplete (kept : grp.Kept) (live : task ∈ grp.live) :
    ({ grp with live := grp.live.erase task }.onChildComplete task).Kept := by
  have removed := kept.removeTask live
  rw [RfcGrp.onChildComplete]
  split
  · exact removed
  · rw [onChildCompleteBase]
    split
    · exact removed
    · split
      · exact removed
      · exact { removed with }

theorem Kept.moveBatch (kept : grp.Kept) (idle : grp.batch = none) : grp.moveBatch.Kept := by
  generalize counted : min (grp.maxRunning - grp.runningCount).toNat grp.quePending.length = count
  have order := kept.order
  have set := kept.set
  have bounded := kept.bounded
  rw [idle, Option.getD_none, nil_append] at order
  rw [idle, Option.getD_none, append_nil] at set
  have within : count ≤ grp.quePending.length := counted ▸ Nat.min_le_right _ _
  rw [RfcGrp.moveBatch, counted]
  refine ⟨?_, kept.once, set.append_right _, ?_⟩
  · show grp.accepted = grp.started ++ (grp.quePending.take count ++ grp.quePending.drop count)
    rw [order, take_append_drop]
  · simp only [pendingCount, runningCount, length_append, length_take, length_drop] at bounded ⊢
    omega

theorem Kept.runTaskInternal (kept : grp.Kept) : grp.runTaskInternal.2.Kept := by
  rw [RfcGrp.runTaskInternal]
  split
  · exact kept
  · split
    · exact kept
    · next idle =>
        have stopped : grp.batch = none := Option.not_isSome_iff_eq_none.1 idle
        have running : { grp with state := .started, unrun := false }.Kept :=
          { kept with }
        simp only
        split
        · exact { kept with }
        · split
          · exact running
          · split
            · exact running
            · exact running.moveBatch stopped

theorem Kept.startTask (kept : grp.Kept) {rest : List Nat}
    (under : grp.batch = some (task :: rest)) :
    Kept { grp with
      batch := some rest
      live := grp.live ++ [task]
      started := grp.started ++ [task] } := by
  have order := kept.order
  have set := kept.set
  rw [under, Option.getD_some] at order set
  refine ⟨?_, kept.once, ?_, kept.bounded⟩
  · simp only [Option.getD_some]
    rw [order, append_assoc, cons_append, singleton_append]
  · simp only [Option.getD_some]
    rw [append_assoc, singleton_append]
    exact set

theorem Kept.afterBatch (kept : grp.Kept) (empty : grp.batch = some []) : grp.afterBatch.Kept := by
  have order := kept.order
  have set := kept.set
  rw [empty, Option.getD_some] at order set
  have relocked : { grp with batch := none, unrun := false }.Kept :=
    ⟨order, kept.once, set, kept.bounded⟩
  rw [RfcGrp.afterBatch]
  simp only
  split
  · exact relocked.moveBatch rfl
  · split
    · exact relocked
    · exact ⟨order, kept.once, set, kept.bounded⟩

theorem duty_of_due (due : grp.due ≠ 0) : grp.Duty := fun quiet => absurd quiet.2.2 due

theorem duty_of_batch (under : grp.batch ≠ none) : grp.Duty := fun quiet => absurd quiet.2.1 under

theorem duty_of_state (state : grp.state ≠ .started) : grp.Duty := fun quiet => absurd quiet.1 state

theorem stopping_ne_started : GrpState.stopping ≠ .started := by decide

theorem duty_of_unrun (unrun : grp.unrun = true) : grp.Duty := by
  intro _ looked
  rw [unrun] at looked
  cases looked

theorem duty_of_noneWaits (none : grp.NoneWaits) : grp.Duty := fun _ _ => none

theorem noneWaits_of_pendingCount (none : grp.pendingCount ≤ 0) : grp.NoneWaits := by
  left
  rw [pendingCount] at none
  exact length_eq_zero_iff.1 (by omega)

theorem noneWaits_of_runningCount (full : grp.maxRunning - grp.runningCount ≤ 0) : grp.NoneWaits := by
  right
  omega

theorem noneWaits_of_not (held : ¬(0 < grp.pendingCount ∧ 0 < grp.maxRunning - grp.runningCount)) :
    grp.NoneWaits := by
  by_cases some : 0 < grp.pendingCount
  · exact noneWaits_of_runningCount (Int.not_lt.1 fun free => held ⟨some, free⟩)
  · exact noneWaits_of_pendingCount (Int.not_lt.1 some)

theorem duty_reschedule : grp.reschedule.Duty := duty_of_due (Nat.succ_ne_zero _)

theorem duty_of_noSched (sched : grp.noSched = true) : grp.Duty :=
  duty_of_batch (Option.isSome_iff_ne_none.1 sched)

theorem duty_addAndRun (duty : grp.Duty) (task : Nat) : (grp.addAndRun task).2.Duty := by
  rw [RfcGrp.addAndRun]
  split
  · exact duty
  · split
    · exact duty
    · simp only
      split
      · next sched => exact duty_of_noSched sched
      · split
        · next held =>
            rcases held with state | full
            · exact duty_of_state state
            · exact duty_of_noneWaits (.inr full)
        · exact duty_reschedule

theorem duty_appendTask (duty : grp.Duty) (task : Nat) : (grp.appendTask task).2.Duty := by
  rw [RfcGrp.appendTask]
  split
  · exact duty
  · split
    · exact duty
    · exact duty_of_unrun rfl

theorem duty_setLimit (duty : grp.Duty) (maxRunning maxPending : Nat) (noResched : Bool) :
    (grp.setLimit maxRunning maxPending noResched).2.Duty := by
  rw [RfcGrp.setLimit]
  split
  · exact duty
  · split
    · exact duty
    · simp only
      split
      · next sched => exact duty_of_noSched sched
      · split
        · exact duty_of_unrun rfl
        · split
          · exact duty_reschedule
          · next held =>
              apply duty_of_noneWaits
              exact noneWaits_of_not fun both => held ⟨Int.lt_of_sub_pos both.2, both.1⟩

theorem duty_onChildComplete (kept : grp.Kept) (live : task ∈ grp.live) :
    ({ grp with live := grp.live.erase task }.onChildComplete task).Duty := by
  have member : task ∈ grp.setTasks := kept.set.mem_iff.2 (mem_append_left _ live)
  rw [RfcGrp.onChildComplete]
  split
  · next above =>
      have shorter : (grp.setTasks.erase task).length = grp.setTasks.length - 1 :=
        length_erase_of_mem member
      have still : (grp.limits.maxRunning : Int) ≤ ((grp.setTasks.erase task).length : Int) - 1 := by
        simp only [maxRunning, runningCount] at above
        omega
      rw [removeTask_live kept live]
      exact duty_of_noneWaits (.inr still)
  · rw [onChildCompleteBase]
    split
    · next sched => exact duty_of_noSched sched
    · split
      · next none => exact duty_of_noneWaits (noneWaits_of_pendingCount (Int.le_of_eq none.1))
      · exact duty_reschedule

theorem duty_moveBatch : grp.moveBatch.Duty := duty_of_batch (Option.some_ne_none _)

theorem duty_runTaskInternal : grp.runTaskInternal.2.Duty := by
  rw [RfcGrp.runTaskInternal]
  split
  · next stopped => exact duty_of_state fun started => stopping_ne_started (stopped.symm.trans started)
  · split
    · next sched => exact duty_of_noSched sched
    · simp only
      split
      · exact duty_of_state stopping_ne_started
      · split
        · next none => exact duty_of_noneWaits (noneWaits_of_pendingCount (Int.le_of_eq none))
        · split
          · next full => exact duty_of_noneWaits (noneWaits_of_runningCount full)
          · exact duty_moveBatch

theorem duty_afterBatch : grp.afterBatch.Duty := by
  rw [RfcGrp.afterBatch]
  simp only
  split
  · exact duty_moveBatch
  · next held =>
      split
      · exact duty_of_noneWaits (noneWaits_of_not held)
      · exact duty_of_state stopping_ne_started

/-! ### A batch and the limit -/

theorem moveBatch_runningCount (free : 0 < grp.maxRunning - grp.runningCount) :
    grp.moveBatch.runningCount ≤ grp.moveBatch.maxRunning := by
  have cut : grp.moveBatch.setTasks.length =
      grp.setTasks.length + min (grp.maxRunning - grp.runningCount).toNat grp.quePending.length := by
    rw [moveBatch, length_append, length_take, Nat.min_eq_left (Nat.min_le_right _ _)]
  have same : grp.moveBatch.maxRunning = grp.maxRunning := rfl
  have before : grp.runningCount = grp.setTasks.length - 1 := rfl
  have behind : grp.moveBatch.runningCount = grp.moveBatch.setTasks.length - 1 := rfl
  omega

theorem runTaskInternal_moved (more : grp.setTasks.length < grp.runTaskInternal.2.setTasks.length) :
    grp.runTaskInternal.2.runningCount ≤ grp.runTaskInternal.2.maxRunning := by
  rw [RfcGrp.runTaskInternal] at more ⊢
  split at more
  · exact absurd more (Nat.lt_irrefl _)
  · next alive =>
      rw [if_neg alive]
      split at more
      · exact absurd more (Nat.lt_irrefl _)
      · next idle =>
          rw [if_neg idle]
          simp only at more ⊢
          split at more
          · exact absurd more (Nat.lt_irrefl _)
          · next some =>
              rw [if_neg some]
              split at more
              · exact absurd more (Nat.lt_irrefl _)
              · next waits =>
                  rw [if_neg waits]
                  split at more
                  · exact absurd more (Nat.lt_irrefl _)
                  · next free =>
                      rw [if_neg free]
                      exact moveBatch_runningCount (Int.not_le.1 free)

theorem afterBatch_moved (more : grp.setTasks.length < grp.afterBatch.setTasks.length) :
    grp.afterBatch.runningCount ≤ grp.afterBatch.maxRunning := by
  rw [RfcGrp.afterBatch] at more ⊢
  simp only at more ⊢
  split at more
  · next both =>
      rw [if_pos both]
      exact moveBatch_runningCount both.2
  · split at more
    · exact absurd more (Nat.lt_irrefl _)
    · exact absurd more (Nat.lt_irrefl _)

theorem addAndRun_setTasks (task : Nat) : (grp.addAndRun task).2.setTasks = grp.setTasks := by
  rw [RfcGrp.addAndRun]
  split
  · rfl
  · split
    · rfl
    · simp only
      split
      · rfl
      · split
        · rfl
        · rfl

theorem appendTask_setTasks (task : Nat) : (grp.appendTask task).2.setTasks = grp.setTasks := by
  rw [RfcGrp.appendTask]
  split
  · rfl
  · split
    · rfl
    · rfl

theorem setLimit_setTasks (maxRunning maxPending : Nat) (noResched : Bool) :
    (grp.setLimit maxRunning maxPending noResched).2.setTasks = grp.setTasks := by
  rw [RfcGrp.setLimit]
  split
  · rfl
  · split
    · rfl
    · simp only
      split
      · rfl
      · split
        · rfl
        · split
          · rfl
          · rfl

theorem removeTask_setTasks (task : Nat) : (grp.removeTask task).setTasks.length ≤ grp.setTasks.length := by
  rw [RfcGrp.removeTask]
  split
  · exact length_erase_le
  · exact Nat.le_refl _

theorem onChildComplete_setTasks (task : Nat) :
    (grp.onChildComplete task).setTasks.length ≤ grp.setTasks.length := by
  have removed : (grp.removeTask task).setTasks.length ≤ grp.setTasks.length :=
    removeTask_setTasks task
  rw [RfcGrp.onChildComplete]
  split
  · exact removed
  · rw [onChildCompleteBase]
    split
    · exact removed
    · split
      · exact removed
      · exact removed

theorem moved_of_step {move : RfcMove} {next : RfcGrp} (moved : grp.step move = some next)
    (more : grp.setTasks.length < next.setTasks.length) : next.runningCount ≤ next.maxRunning := by
  cases move with
  | addAndRun task =>
    obtain ⟨_, ⟨⟩⟩ := Option.ite_none_left_eq_some.1 moved
    rw [addAndRun_setTasks] at more
    exact absurd more (Nat.lt_irrefl _)
  | appendTask task =>
    obtain ⟨_, ⟨⟩⟩ := Option.ite_none_left_eq_some.1 moved
    rw [appendTask_setTasks] at more
    exact absurd more (Nat.lt_irrefl _)
  | setLimit maxRunning maxPending noResched =>
    cases moved
    rw [setLimit_setTasks] at more
    exact absurd more (Nat.lt_irrefl _)
  | complete task =>
    obtain ⟨_, ⟨⟩⟩ := Option.ite_none_right_eq_some.1 moved
    exact absurd more (Nat.not_lt.2 (onChildComplete_setTasks task))
  | schedule =>
    cases moved
    exact absurd more (Nat.lt_irrefl _)
  | run =>
    obtain ⟨_, done⟩ := Option.ite_none_right_eq_some.1 moved
    rw [← Option.some.inj done] at more ⊢
    exact runTaskInternal_moved more
  | startTask =>
    rw [RfcGrp.step] at moved
    split at moved
    · cases moved
      exact absurd more (Nat.lt_irrefl _)
    · exact absurd moved.symm (Option.some_ne_none _)
  | afterBatch =>
    obtain ⟨_, done⟩ := Option.ite_none_right_eq_some.1 moved
    rw [← Option.some.inj done] at more ⊢
    exact afterBatch_moved more

/-- `Kept` and `Duty` together. -/
def Inv (grp : RfcGrp) : Prop := grp.Kept ∧ grp.Duty

theorem inv_new (limits : RfcLimits) : (RfcGrp.new limits).Inv := by
  have bounded : (0 : Int) + (0 - 1) ≤ 0 := by decide
  have waits : GrpState.starting ≠ .started := by decide
  exact ⟨⟨rfl, nodup_nil, List.Perm.refl _, bounded⟩, duty_of_state waits⟩

theorem inv_of_step {move : RfcMove} {next : RfcGrp} (inv : grp.Inv)
    (moved : grp.step move = some next) : next.Inv := by
  obtain ⟨kept, duty⟩ := inv
  cases move with
  | addAndRun task =>
    obtain ⟨fresh, ⟨⟩⟩ := Option.ite_none_left_eq_some.1 moved
    exact ⟨kept.addAndRun fresh, duty_addAndRun duty task⟩
  | appendTask task =>
    obtain ⟨fresh, ⟨⟩⟩ := Option.ite_none_left_eq_some.1 moved
    exact ⟨kept.appendTask fresh, duty_appendTask duty task⟩
  | setLimit maxRunning maxPending noResched =>
    cases moved
    exact ⟨kept.setLimit _ _ _, duty_setLimit duty _ _ _⟩
  | complete task =>
    obtain ⟨live, ⟨⟩⟩ := Option.ite_none_right_eq_some.1 moved
    exact ⟨kept.onChildComplete live, duty_onChildComplete kept live⟩
  | schedule =>
    cases moved
    exact ⟨{ kept with }, duty_reschedule⟩
  | run =>
    obtain ⟨_, done⟩ := Option.ite_none_right_eq_some.1 moved
    have entered : { grp with due := grp.due - 1 }.Kept :=
      { kept with }
    cases done
    exact ⟨entered.runTaskInternal, duty_runTaskInternal⟩
  | startTask =>
    rw [RfcGrp.step] at moved
    split at moved
    · next under =>
        cases moved
        exact ⟨kept.startTask under, duty_of_batch (Option.some_ne_none _)⟩
    · exact absurd moved.symm (Option.some_ne_none _)
  | afterBatch =>
    obtain ⟨empty, ⟨⟩⟩ := Option.ite_none_right_eq_some.1 moved
    exact ⟨kept.afterBatch empty, duty_afterBatch⟩

end RfcGrp

/-- In every run of the group the tasks are kept in order and within the limits, and no
task waits for a run that nobody has promised. -/
theorem limited_of_reachable {limits : RfcLimits} {grp : RfcGrp}
    (reachable : (rfcMachine limits).Reachable grp) :
    grp.Orderly ∧ (grp.Quiet → grp.unrun = false → grp.NoneWaits) := by
  have inv : grp.Inv := reachable.invariant (RfcGrp.inv_new limits)
    fun _ _ _ _ inv moved => RfcGrp.inv_of_step inv moved
  exact ⟨⟨inv.1, fun _ _ moved more => RfcGrp.moved_of_step moved more⟩, inv.2⟩

/-- One slot and two tasks: the second one runs when the first one is complete. -/
def secondWaits : List RfcMove :=
  [.appendTask 0, .schedule, .run, .startTask, .afterBatch, .addAndRun 1, .run, .startTask,
    .addAndRun 2, .complete 1, .afterBatch, .startTask, .afterBatch]

def oneSlot : RfcLimits := ⟨1, 1, by decide, by decide⟩

theorem limited_secondWaits :
    ∃ grp, (rfcMachine oneSlot).run (rfcMachine oneSlot).start secondWaits = some grp ∧
      grp.started = [0, 1, 2] ∧ grp.Quiet ∧
      grp.Orderly ∧ (grp.Quiet → grp.unrun = false → grp.NoneWaits) := by
  have ran : (rfcMachine oneSlot).run (rfcMachine oneSlot).start secondWaits =
      some ⟨oneSlot, .started, [0, 2], [], none, 0, [0, 2], [0, 1, 2], [0, 1, 2], 2, false⟩ := by
    decide +kernel
  exact ⟨_, ran, rfl, ⟨rfl, rfl, rfl⟩, limited_of_reachable (Machine.Reachable.start.run ran)⟩

/-- `AppendTask` to a group that is idle leaves the task where it is. -/
theorem appendedIdle_waits :
    ¬ ∀ grp, (rfcMachine oneSlot).Reachable grp → grp.Orderly ∧ (grp.Quiet → grp.NoneWaits) := by
  intro all
  have ran : (rfcMachine oneSlot).run (rfcMachine oneSlot).start
        [.appendTask 0, .schedule, .run, .startTask, .afterBatch, .appendTask 1] =
      some ⟨oneSlot, .started, [0], [1], none, 0, [0], [0, 1], [0], 2, true⟩ := by
    decide +kernel
  have waits := (all _ (Machine.Reachable.start.run ran)).2 ⟨rfl, rfl, rfl⟩
  revert waits
  rw [RfcGrp.NoneWaits]
  decide

end RpcFrmwrk.Ipc
