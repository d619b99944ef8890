import Mathlib.Data.List.Nodup
import RpcFrmwrk.Ipc.SeqTgMgr

/-! The tasks of a handle over whole runs. Owns `SeqHandle.Orderly`, the order in which the tasks of
a handle run and the end of its slot; `SeqMgrMove.Fits`, a stop task that finds no call under way;
one lemma for each section, and the invariant of the runs that fit. -/

namespace RpcFrmwrk.Ipc

open RpcFrmwrk.Library List

def Shaped (tasks : List SeqTask) : Prop :=
  tasks = [] ∨ ∃ first seqs ends, tasks = first :: (seqs ++ ends) ∧ first.role = .start ∧
    (∀ task ∈ seqs, task.role = .seq) ∧
    ends.map SeqTask.role ∈ [[], [.stop], [.cleanup], [.stop, .cleanup]]

namespace SeqSlot

/-- The tasks run one at a time in the order in which they were put in, and none is
cancelled. -/
structure Sequential (slot : SeqSlot) : Prop where
  shape : Shaped slot.accepted
  order : slot.accepted = slot.begun ++ slot.waiting
  single : ∃ current, slot.begun = slot.done ++ current ∧ current.length ≤ 1
  kept : slot.cancelled = []

def Finished (slot : SeqSlot) : Prop :=
  slot.accepted = slot.begun ∧
    ∃ last, slot.begun = slot.done ++ last ∧ ∀ task ∈ last, task.role = .cleanup

end SeqSlot

def SeqGrp.Driven (grp : SeqGrp) (calls : List SeqCall) : Prop :=
  grp.ended = false ∧ (grp.scheduled ∨ ∃ call ∈ calls, call.place = .captured grp.id true)

/-- Of a slot that is stopped one call, one task in the queue or one `RemoveTg` is on its
way to remove it. No slot is removed twice. -/
structure SeqHandle.Orderly (handle : SeqHandle) : Prop where
  slot : ∀ slot, handle.slot = some slot → slot.Sequential
  driven : ∀ slot, handle.slot = some slot → slot.waiting ≠ [] →
    ∃ grp, slot.grp = some grp ∧ grp.Driven handle.calls
  gone : ∀ slot ∈ handle.gone, slot.Sequential ∧ slot.Finished
  once : (handle.gone.map SeqSlot.life).Nodup
  apart : ∀ slot, handle.slot = some slot → slot.life ∉ handle.gone.map SeqSlot.life
  removal : ∀ slot, handle.slot = some slot → slot.state = .stopped →
    handle.calls.length + (slot.waiting.filter fun task => task.role = .cleanup).length +
      handle.removals = 1

/-- What the queue and the flags of a group say about each other. -/
structure SeqGrp.Sound (grp : SeqGrp) (calls : List SeqCall) : Prop where
  ended : grp.ended = true → grp.queue = [] ∧ grp.running = false
  running : grp.running = true → grp.scheduled = true ∧ grp.queue ≠ []
  idle : grp.scheduled = false →
    grp.ended = false ∧ ∃ call ∈ calls, call.place = .captured grp.id true

/-- How far the life of a slot has come: its state, the tasks put in, those that wait, the
calls under way and the `RemoveTg` tasks under way. -/
inductive SeqPhase : SlotState → List SeqTask → List SeqTask → List SeqCall → Nat → Prop where
  | starting : SeqPhase .starting [] [] [] 0
  | opening {call : SeqCall} (start : call.task.role = .start) : SeqPhase .started [] [] [call] 0
  | opened {first : SeqTask} {seqs waiting : List SeqTask} {calls : List SeqCall}
      (start : first.role = .start) (seq : ∀ task ∈ seqs, task.role = .seq)
      (under : ∀ call ∈ calls, call.task.role = .seq) :
      SeqPhase .started (first :: seqs) waiting calls 0
  | stopping {first : SeqTask} {seqs waiting : List SeqTask} {call : SeqCall}
      (start : first.role = .start) (seq : ∀ task ∈ seqs, task.role = .seq)
      (stop : call.task.role = .stop) : SeqPhase .stopped (first :: seqs) waiting [call] 0
  | closing {first : SeqTask} {seqs last waiting : List SeqTask} {call : SeqCall}
      (start : first.role = .start) (seq : ∀ task ∈ seqs, task.role = .seq)
      (stop : last.map SeqTask.role ∈ [[], [.stop]]) (cleanup : call.task.role = .cleanup) :
      SeqPhase .stopped (first :: (seqs ++ last)) waiting [call] 0
  | closed {first cleanup : SeqTask} {seqs last waiting : List SeqTask}
      (start : first.role = .start) (seq : ∀ task ∈ seqs, task.role = .seq)
      (stop : last.map SeqTask.role ∈ [[], [.stop]]) (clean : cleanup.role = .cleanup) :
      SeqPhase .stopped (first :: (seqs ++ (last ++ [cleanup]))) waiting []
        (if waiting = [] then 1 else 0)

structure SeqSlot.Inv (slot : SeqSlot) (calls : List SeqCall) (removals : Nat) : Prop where
  order : slot.accepted = slot.begun ++ slot.waiting
  single : slot.begun = slot.done ++ slot.current
  kept : slot.cancelled = []
  sound : ∀ grp, slot.grp = some grp → grp.Sound calls
  phase : SeqPhase slot.state slot.accepted slot.waiting calls removals

structure SeqHandle.Inv (handle : SeqHandle) : Prop where
  slot : ∀ slot, handle.slot = some slot →
    slot.life < handle.lives ∧ slot.Inv handle.calls handle.removals
  none : handle.slot = none → handle.calls = [] ∧ handle.removals = 0
  gone : ∀ slot ∈ handle.gone, slot.life < handle.lives ∧ slot.Sequential ∧ slot.Finished
  once : (handle.gone.map SeqSlot.life).Nodup
  apart : ∀ slot, handle.slot = some slot → slot.life ∉ handle.gone.map SeqSlot.life

theorem SeqPhase.shaped {state : SlotState} {accepted waiting : List SeqTask} {calls : List SeqCall}
    {removals : Nat}
    (phase : SeqPhase state accepted waiting calls removals) : Shaped accepted := by
  cases phase with
  | starting | opening => exact .inl rfl
  | opened start seq _ | stopping start seq _ =>
    exact .inr ⟨_, _, [], by rw [append_nil], start, seq, mem_cons_self⟩
  | closing start seq stop _ =>
    refine .inr ⟨_, _, _, rfl, start, seq, ?_⟩
    rcases mem_cons.1 stop with none | one
    · rw [none]
      decide
    · rw [mem_singleton.1 one]
      decide
  | closed start seq stop clean =>
    refine .inr ⟨_, _, _, rfl, start, seq, ?_⟩
    rw [map_append, map_singleton, clean]
    rcases mem_cons.1 stop with none | one
    · rw [none]
      decide
    · rw [mem_singleton.1 one]
      decide

theorem SeqGrp.current_length (grp : SeqGrp) : grp.current.length ≤ 1 := by
  rw [SeqGrp.current]
  split
  · rw [length_take]
    exact Nat.min_le_left _ _
  · exact Nat.zero_le _

theorem SeqSlot.current_length (slot : SeqSlot) : slot.current.length ≤ 1 := by
  rw [SeqSlot.current]
  cases slot.grp with
  | none => exact Nat.zero_le _
  | some grp => exact grp.current_length

theorem SeqSlot.Inv.sequential {slot : SeqSlot} {calls : List SeqCall} {removals : Nat}
    (inv : slot.Inv calls removals) : slot.Sequential :=
  ⟨inv.phase.shaped, inv.order, ⟨_, inv.single, slot.current_length⟩, inv.kept⟩

section

variable {state : SlotState} {accepted waiting : List SeqTask} {calls : List SeqCall} {removals : Nat}

theorem SeqPhase.goOn (phase : SeqPhase state accepted waiting calls removals) {call next : SeqCall}
    (member : call ∈ calls) (same : next.task = call.task) :
    SeqPhase state accepted waiting (calls.erase call ++ [next]) removals := by
  cases phase with
  | starting => cases member
  | opening start =>
    rw [← mem_singleton.1 member, erase_cons_head, nil_append]
    rw [← mem_singleton.1 member, ← same] at start
    exact .opening start
  | opened start seq under =>
    refine .opened start seq fun other isOther => ?_
    rcases mem_append.1 isOther with rest | last
    · exact under other (mem_of_mem_erase rest)
    · rw [mem_singleton.1 last, same]
      exact under call member
  | stopping start seq stop =>
    rw [← mem_singleton.1 member, erase_cons_head, nil_append]
    rw [← mem_singleton.1 member, ← same] at stop
    exact .stopping start seq stop
  | closing start seq stop cleanup =>
    rw [← mem_singleton.1 member, erase_cons_head, nil_append]
    rw [← mem_singleton.1 member, ← same] at cleanup
    exact .closing start seq stop cleanup
  | closed _ _ _ _ => cases member

theorem SeqPhase.putIn (phase : SeqPhase state accepted waiting calls removals) {call : SeqCall}
    (member : call ∈ calls) :
    SeqPhase state (accepted ++ [call.task]) (waiting ++ [call.task])
      (calls.erase call ++ SeqHandle.behind call) removals := by
  cases phase with
  | starting => cases member
  | opening start =>
    rw [← mem_singleton.1 member, erase_cons_head, nil_append]
    rw [← mem_singleton.1 member] at start
    rw [SeqHandle.behind, start]
    exact .opened start (fun _ none => nomatch none) (fun _ none => nomatch none)
  | opened start seq under =>
    have role := under call member
    rw [SeqHandle.behind, role, append_nil, cons_append]
    refine .opened start (fun task isTask => ?_) fun other isOther =>
      under other (mem_of_mem_erase isOther)
    rcases mem_append.1 isTask with before | last
    · exact seq task before
    · rw [mem_singleton.1 last]
      exact role
  | stopping start seq stop =>
    rw [← mem_singleton.1 member, erase_cons_head, nil_append]
    rw [← mem_singleton.1 member] at stop
    rw [SeqHandle.behind, stop, cons_append]
    refine .closing start seq ?_ rfl
    rw [map_singleton, stop]
    decide
  | closing start seq stop cleanup =>
    rw [← mem_singleton.1 member, erase_cons_head, nil_append]
    rw [← mem_singleton.1 member] at cleanup
    rw [SeqHandle.behind, cleanup, cons_append, append_assoc]
    have some : waiting ++ [call.task] ≠ [] :=
      append_ne_nil_of_right_ne_nil _ (cons_ne_nil _ _)
    rw [show (0 : Nat) = if waiting ++ [call.task] = [] then 1 else 0 from (if_neg some).symm]
    exact .closed start seq stop cleanup
  | closed _ _ _ _ => cases member

theorem role_ne_cleanup {first : SeqTask} {seqs last : List SeqTask} (start : first.role = .start)
    (seq : ∀ task ∈ seqs, task.role = .seq) (stop : last.map SeqTask.role ∈ [[], [.stop]]) :
    ∀ task ∈ first :: (seqs ++ last), task.role ≠ .cleanup := by
  intro task member
  rcases mem_cons.1 member with isFirst | behind
  · rw [isFirst, start]
    decide
  · rcases mem_append.1 behind with middle | isLast
    · rw [seq task middle]
      decide
    · have role := mem_map_of_mem (f := SeqTask.role) isLast
      rcases mem_cons.1 stop with none | one
      · rw [none] at role
        cases role
      · rw [mem_singleton.1 one, mem_singleton] at role
        rw [role]
        decide

theorem SeqPhase.begin {begun rest : List SeqTask} {task : SeqTask}
    (phase : SeqPhase state accepted (task :: rest) calls removals)
    (order : accepted = begun ++ task :: rest) :
    SeqPhase state accepted rest calls (if task.role = .cleanup then removals + 1 else removals) := by
  have member : task ∈ accepted := by
    rw [order]
    exact mem_append_right _ mem_cons_self
  have none : ([] : List SeqTask).map SeqTask.role ∈ [[], [SeqRole.stop]] := mem_cons_self
  cases phase with
  | opened start seq under =>
    rw [if_neg (role_ne_cleanup start seq none task (by rwa [append_nil]))]
    exact .opened start seq under
  | stopping start seq stop =>
    rw [if_neg (role_ne_cleanup start seq none task (by rwa [append_nil]))]
    exact .stopping start seq stop
  | closing start seq stop cleanup =>
    rw [if_neg (role_ne_cleanup start seq stop task member)]
    exact .closing start seq stop cleanup
  | @closed first cleanup seqs last _ start seq stop clean =>
    have split : (first :: (seqs ++ last)) ++ [cleanup] = begun ++ task :: rest := by
      rw [← order, cons_append, append_assoc]
    rw [if_neg (cons_ne_nil _ _)]
    rcases eq_nil_or_concat rest with isNil | ⟨front, isLast, isRest⟩
    · rw [isNil] at split ⊢
      have same : [cleanup] = [task] := append_inj_right' split rfl
      rw [← singleton_inj.1 same, clean]
      exact .closed start seq stop clean
    · rw [concat_eq_append] at isRest
      have cut : (first :: (seqs ++ last)) ++ [cleanup] = (begun ++ task :: front) ++ [isLast] := by
        rw [split, isRest, append_assoc, cons_append]
      have body := append_inj_left' cut rfl
      have before : task ∈ first :: (seqs ++ last) := by
        rw [body]
        exact mem_append_right _ mem_cons_self
      have some : rest ≠ [] := by
        rw [isRest]
        exact append_ne_nil_of_right_ne_nil _ (cons_ne_nil _ _)
      rw [if_neg (role_ne_cleanup start seq stop task before)]
      rw [show (0 : Nat) = if rest = [] then 1 else 0 from (if_neg some).symm]
      exact .closed start seq stop clean

end

/-! ### What a section does to a group -/

namespace SeqGrp

variable {grp : SeqGrp} {calls : List SeqCall}

theorem waiting_of_running (running : grp.running = true) : grp.waiting = grp.queue.tail := by
  rw [waiting, if_pos running]

theorem waiting_of_idle (idle : ¬grp.running = true) : grp.waiting = grp.queue := by
  rw [waiting, if_neg idle]

theorem current_of_running (running : grp.running = true) : grp.current = grp.queue.take 1 := by
  rw [current, if_pos running]

theorem current_of_idle (idle : ¬grp.running = true) : grp.current = [] := by
  rw [current, if_neg idle]

theorem Sound.without (sound : grp.Sound calls) {call : SeqCall}
    (other : call.place ≠ .captured grp.id true) (more : List SeqCall) :
    grp.Sound (calls.erase call ++ more) where
  ended := sound.ended
  running := sound.running
  idle := by
    intro idle
    obtain ⟨alive, maker, member, made⟩ := sound.idle idle
    have differs : maker ≠ call := fun same => other (same ▸ made)
    exact ⟨alive, maker, mem_append_left _ ((mem_erase_of_ne differs).2 member), made⟩

theorem Sound.more (sound : grp.Sound calls) (more : List SeqCall) : grp.Sound (calls ++ more) where
  ended := sound.ended
  running := sound.running
  idle := by
    intro idle
    obtain ⟨alive, maker, member, made⟩ := sound.idle idle
    exact ⟨alive, maker, mem_append_left _ member, made⟩

theorem Sound.driven (sound : grp.Sound calls) (some : grp.waiting ≠ []) : grp.Driven calls := by
  cases scheduled : grp.scheduled with
  | false =>
    obtain ⟨alive, maker⟩ := sound.idle scheduled
    exact ⟨alive, .inr maker⟩
  | true =>
    refine ⟨Bool.eq_false_iff.2 fun ended => ?_, .inl scheduled⟩
    obtain ⟨empty, idle⟩ := sound.ended ended
    rw [waiting, empty] at some
    exact some (ite_self _)

def push (grp : SeqGrp) (task : SeqTask) (isNew : Bool) : SeqGrp :=
  { grp with queue := grp.queue ++ [task], scheduled := grp.scheduled || isNew }

theorem Sound.push_waiting (sound : grp.Sound calls) (task : SeqTask) (isNew : Bool) :
    (grp.push task isNew).waiting = grp.waiting ++ [task] := by
  by_cases running : grp.running = true
  · have some := (sound.running running).2
    have tail : (grp.push task isNew).waiting = (grp.queue ++ [task]).tail :=
      waiting_of_running running
    rw [tail, waiting_of_running running]
    exact tail_append_of_ne_nil some
  · have whole : (grp.push task isNew).waiting = grp.queue ++ [task] := waiting_of_idle running
    rw [whole, waiting_of_idle running]

theorem Sound.push_current (sound : grp.Sound calls) (task : SeqTask) (isNew : Bool) :
    (grp.push task isNew).current = grp.current := by
  by_cases running : grp.running = true
  · have some := (sound.running running).2
    have long : 1 ≤ grp.queue.length := length_pos_iff.2 some
    have head : (grp.push task isNew).current = (grp.queue ++ [task]).take 1 :=
      current_of_running running
    rw [head, current_of_running running]
    exact take_append_of_le_length long
  · have none : (grp.push task isNew).current = [] := current_of_idle running
    rw [none, current_of_idle running]

theorem Sound.push (sound : grp.Sound calls) {call : SeqCall} {isNew : Bool}
    (place : call.place = .captured grp.id isNew) (alive : grp.ended = false)
    (more : List SeqCall) :
    (grp.push call.task isNew).Sound (calls.erase call ++ more) where
  ended := by
    intro ended
    rw [SeqGrp.push, alive] at ended
    cases ended
  running := by
    intro running
    have scheduled := (sound.running running).1
    refine ⟨?_, append_ne_nil_of_right_ne_nil _ (cons_ne_nil _ _)⟩
    rw [SeqGrp.push, scheduled]
    rfl
  idle := by
    intro idle
    obtain ⟨before, old⟩ := Bool.or_eq_false_iff.1 idle
    have other : call.place ≠ .captured grp.id true := by
      rw [place, old]
      intro same
      cases same
    exact (sound.without other more).idle before

end SeqGrp

/-- What each call has to find for the order to hold: `AddStartTask` a slot that is not
started, the others no start task on its way, and `AddStopTask` no call on its way. The
parent runs while a task is put in. -/
def SeqHandle.Fits (handle : SeqHandle) (parentStopped : Bool) : SeqMove → Prop
  | .addStartTask _ => ∀ slot ∈ handle.slot, slot.state = .starting
  | .addSeqTask _ => ∀ call ∈ handle.calls, call.task.role ≠ .start
  | .addStopTask _ => handle.calls = []
  | .append _ => parentStopped = false
  | _ => True

instance SeqHandle.decidableFits (handle : SeqHandle) (parentStopped : Bool) :
    (move : SeqMove) → Decidable (handle.Fits parentStopped move)
  | .addStartTask _ => inferInstanceAs (Decidable (∀ slot ∈ handle.slot, slot.state = .starting))
  | .addSeqTask _ => inferInstanceAs (Decidable (∀ call ∈ handle.calls, call.task.role ≠ .start))
  | .addStopTask _ => inferInstanceAs (Decidable (handle.calls = []))
  | .append _ => inferInstanceAs (Decidable (parentStopped = false))
  | .allocSeqSlot => isTrue trivial
  | .capture _ => isTrue trivial
  | .runHead => isTrue trivial
  | .completeHead => isTrue trivial
  | .endGrp => isTrue trivial
  | .removeTg => isTrue trivial

namespace SeqHandle

variable {handle next : SeqHandle} {slot newSlot : SeqSlot} {mgr : MgrState} {parentStopped : Bool}
variable {grp : SeqGrp} {call : SeqCall}

theorem Inv.update (inv : handle.Inv) (held : handle.slot = some slot)
    (now : next.slot = some newSlot)
    (life : newSlot.life = slot.life) (gone : next.gone = handle.gone)
    (lives : next.lives = handle.lives)
    (kept : newSlot.Inv next.calls next.removals) : next.Inv where
  slot := by
    intro other isOther
    rw [now] at isOther
    cases isOther
    rw [life, lives]
    exact ⟨(inv.slot slot held).1, kept⟩
  none := by
    intro none
    rw [now] at none
    exact absurd none (Option.some_ne_none _)
  gone := by
    rw [gone, lives]
    exact inv.gone
  once := by
    rw [gone]
    exact inv.once
  apart := by
    intro other isOther
    rw [now] at isOther
    cases isOther
    rw [life, gone]
    exact inv.apart slot held

theorem Inv.insert (inv : handle.Inv) (now : next.slot = some newSlot)
    (life : newSlot.life = handle.lives) (gone : next.gone = handle.gone)
    (lives : next.lives = handle.lives + 1) (kept : newSlot.Inv next.calls next.removals) :
    next.Inv where
  slot := by
    intro other isOther
    rw [now] at isOther
    cases isOther
    rw [life, lives]
    exact ⟨Nat.lt_succ_self _, kept⟩
  none := by
    intro none
    rw [now] at none
    exact absurd none (Option.some_ne_none _)
  gone := by
    rw [gone, lives]
    exact fun old member =>
      ⟨Nat.lt_succ_of_lt (inv.gone old member).1, (inv.gone old member).2⟩
  once := by
    rw [gone]
    exact inv.once
  apart := by
    intro other isOther member
    rw [now] at isOther
    cases isOther
    rw [life, gone] at member
    obtain ⟨old, isOld, same⟩ := mem_map.1 member
    exact absurd same (Nat.ne_of_lt (inv.gone old isOld).1)

theorem Inv.allocSeqSlot (inv : handle.Inv) : (handle.allocSeqSlot mgr).2.Inv := by
  rw [SeqHandle.allocSeqSlot]
  split
  · exact inv
  · split
    · exact inv
    · next empty =>
        obtain ⟨calls, removals⟩ := inv.none empty
        refine inv.insert rfl rfl rfl rfl ⟨rfl, rfl, rfl,
          fun _ none => absurd none.symm (Option.some_ne_none _), ?_⟩
        show SeqPhase .starting [] [] handle.calls handle.removals
        rw [calls, removals]
        exact .starting

theorem Inv.addStartTask (inv : handle.Inv) {task : Nat}
    (fits : ∀ slot ∈ handle.slot, slot.state = .starting) :
    (handle.addStartTask mgr task).2.Inv := by
  rw [SeqHandle.addStartTask]
  split
  · exact inv
  · split
    · next empty =>
        obtain ⟨calls, removals⟩ := inv.none empty
        refine inv.insert rfl rfl rfl rfl ⟨rfl, rfl, rfl, fun grp isGrp => ?_, ?_⟩
        · cases isGrp
          exact ⟨fun ended => absurd ended Bool.false_ne_true,
            fun running => absurd running Bool.false_ne_true,
            fun idle => absurd idle.symm Bool.false_ne_true⟩
        · show SeqPhase .started [⟨.start, task⟩] [⟨.start, task⟩] handle.calls handle.removals
          rw [calls, removals]
          exact .opened rfl (fun _ none => nomatch none) (fun _ none => nomatch none)
    · next slot held =>
        have kept := (inv.slot slot held).2
        have starting := fits slot held
        refine inv.update held rfl rfl rfl rfl ⟨kept.order, kept.single, kept.kept,
          fun grp isGrp => (kept.sound grp isGrp).more _, ?_⟩
        show SeqPhase .started slot.accepted slot.waiting (handle.calls ++ _) handle.removals
        have phase := kept.phase
        rw [starting] at phase
        generalize slot.accepted = accepted, slot.waiting = waiting at phase ⊢
        generalize handle.calls = calls, handle.removals = removals at phase ⊢
        cases phase with
        | starting => exact .opening rfl

theorem Inv.addSeqTask (inv : handle.Inv) {task : Nat}
    (fits : ∀ call ∈ handle.calls, call.task.role ≠ .start) :
    (handle.addSeqTask mgr task).2.Inv := by
  rw [SeqHandle.addSeqTask]
  split
  · exact inv
  · split
    · exact inv
    · next slot held =>
        split
        · exact inv
        · next started =>
            have kept := (inv.slot slot held).2
            refine inv.update held held rfl rfl rfl ⟨kept.order, kept.single, kept.kept,
              fun grp isGrp => (kept.sound grp isGrp).more _, ?_⟩
            show SeqPhase slot.state slot.accepted slot.waiting (handle.calls ++ _) handle.removals
            have phase := kept.phase
            rw [Decidable.not_not.1 started] at phase ⊢
            generalize slot.accepted = accepted, slot.waiting = waiting at phase ⊢
            generalize handle.calls = calls, handle.removals = removals at phase fits ⊢
            cases phase with
            | opening start => exact absurd start (fits _ mem_cons_self)
            | opened start seq under =>
              refine .opened start seq fun call member => ?_
              rcases mem_append.1 member with before | last
              · exact under call before
              · rw [mem_singleton.1 last]

theorem Inv.addStopTask (inv : handle.Inv) {task : Option Nat} (fits : handle.calls = []) :
    (handle.addStopTask mgr task).2.Inv := by
  rw [SeqHandle.addStopTask.eq_def]
  split
  · exact inv
  · split
    · exact inv
    · next slot held =>
        split
        · exact inv
        · exact inv
        · next started =>
            have kept := (inv.slot slot held).2
            refine inv.update held rfl rfl rfl rfl ⟨kept.order, kept.single, kept.kept,
              fun grp isGrp => (kept.sound grp isGrp).more _, ?_⟩
            have phase := kept.phase
            rw [started, fits] at phase
            show SeqPhase .stopped slot.accepted slot.waiting (handle.calls ++ _) handle.removals
            rw [fits]
            generalize slot.accepted = accepted, slot.waiting = waiting at phase ⊢
            generalize handle.removals = removals at phase ⊢
            cases phase with
            | @opened first seqs _ _ start seq _ =>
              cases task with
              | some task => exact .stopping start seq rfl
              | none =>
                rw [← append_nil seqs]
                exact .closing start seq mem_cons_self rfl

theorem waiting_none (empty : slot.grp = none) : slot.waiting = [] := by
  rw [SeqSlot.waiting, empty]
  rfl

theorem current_none (empty : slot.grp = none) : slot.current = [] := by
  rw [SeqSlot.current, empty]
  rfl

theorem waiting_some (isGrp : slot.grp = some grp) : slot.waiting = grp.waiting := by
  rw [SeqSlot.waiting, isGrp]
  rfl

theorem current_some (isGrp : slot.grp = some grp) : slot.current = grp.current := by
  rw [SeqSlot.current, isGrp]
  rfl

theorem Inv.capture (inv : handle.Inv) (held : handle.slot = some slot)
    (member : call ∈ handle.calls) (checked : call.place = .checked) :
    (handle.capture call slot).Inv := by
  have kept := (inv.slot slot held).2
  rw [SeqHandle.capture]
  split
  · next grp isGrp =>
      refine inv.update held held rfl rfl rfl ⟨kept.order, kept.single, kept.kept,
        fun other isOther => (kept.sound other isOther).without ?_ _, kept.phase.goOn member rfl⟩
      rw [checked]
      exact fun same => nomatch same
  · next empty =>
      have none := waiting_none empty
      have order := kept.order
      have single := kept.single
      rw [none] at order
      rw [current_none empty] at single
      refine inv.update held rfl rfl rfl rfl ⟨order, single, kept.kept, fun grp isGrp => ?_, ?_⟩
      · cases isGrp
        exact ⟨fun ended => absurd ended Bool.false_ne_true,
          fun running => absurd running Bool.false_ne_true,
          fun _ => ⟨rfl, _, mem_append_right _ (mem_singleton_self _), rfl⟩⟩
      · show SeqPhase slot.state slot.accepted []
          (handle.calls.erase call ++ [{ call with place := .captured handle.grps true }])
          handle.removals
        rw [← none]
        exact kept.phase.goOn member rfl

theorem Inv.again (inv : handle.Inv) (held : handle.slot = some slot)
    (member : call ∈ handle.calls)
    (other : ∀ grp, slot.grp = some grp → call.place ≠ .captured grp.id true) :
    Inv { handle with calls := handle.calls.erase call ++ [{ call with place := .checked }] } := by
  have kept := (inv.slot slot held).2
  exact inv.update held held rfl rfl rfl ⟨kept.order, kept.single, kept.kept,
    fun grp isGrp => (kept.sound grp isGrp).without (other grp isGrp) _, kept.phase.goOn member rfl⟩

theorem Inv.append (inv : handle.Inv) {captured : Nat} {isNew : Bool}
    (held : handle.slot = some slot) (member : call ∈ handle.calls)
    (place : call.place = .captured captured isNew) :
    (handle.append false call slot captured isNew).Inv := by
  have kept := (inv.slot slot held).2
  rw [SeqHandle.append, if_neg Bool.false_ne_true]
  split
  · next empty =>
      exact inv.again held member fun grp isGrp =>
        absurd (empty.symm.trans isGrp).symm (Option.some_ne_none _)
  · next grp isGrp =>
      split
      · next differs =>
          refine inv.again held member fun other isOther same => differs ?_
          rw [place] at same
          rw [Option.some.inj (isGrp.symm.trans isOther)]
          exact (CallPlace.captured.inj same).1.symm
      · next same =>
          have sound := kept.sound grp isGrp
          split
          · next ended =>
              obtain ⟨empty, idle⟩ := sound.ended ended
              have stopped : ¬grp.running = true := fun running => absurd (idle ▸ running) Bool.false_ne_true
              have none : slot.waiting = [] := by
                rw [waiting_some isGrp, SeqGrp.waiting_of_idle stopped, empty]
              have order := kept.order
              have single := kept.single
              rw [none] at order
              rw [current_some isGrp, SeqGrp.current_of_idle stopped] at single
              refine inv.update held rfl rfl rfl rfl ⟨order, single, kept.kept,
                fun _ never => absurd never.symm (Option.some_ne_none _), ?_⟩
              show SeqPhase slot.state slot.accepted []
                (handle.calls.erase call ++ [{ call with place := .checked }]) handle.removals
              rw [← none]
              exact kept.phase.goOn member rfl
          · next alive =>
              have own : call.place = .captured grp.id isNew := by
                rw [Decidable.not_not.1 same, place]
              have order := kept.order
              have single := kept.single
              have phase := kept.phase.putIn member
              rw [waiting_some isGrp] at order phase
              rw [current_some isGrp] at single
              refine inv.update held rfl rfl rfl rfl ⟨?_, ?_, kept.kept, fun other isOther => ?_, ?_⟩
              · show slot.accepted ++ [call.task] = slot.begun ++ (grp.push call.task isNew).waiting
                rw [sound.push_waiting, order, append_assoc]
              · show slot.begun = slot.done ++ (grp.push call.task isNew).current
                rw [sound.push_current]
                exact single
              · cases isOther
                exact sound.push own (Bool.eq_false_iff.2 alive) _
              · show SeqPhase slot.state (slot.accepted ++ [call.task])
                  (grp.push call.task isNew).waiting _ handle.removals
                rw [sound.push_waiting]
                exact phase

variable {task : SeqTask} {rest accepted waiting : List SeqTask} {state : SlotState}
    {calls : List SeqCall} {removals : Nat}

theorem Inv.runHead (inv : handle.Inv)
    (held : handle.slot = some slot) (isGrp : slot.grp = some grp)
    (queue : grp.queue = task :: rest)
    (scheduled : grp.scheduled = true) (idle : ¬grp.running = true) :
    (handle.runHead slot grp task).Inv := by
  have kept := (inv.slot slot held).2
  have sound := kept.sound grp isGrp
  have order := kept.order
  have single := kept.single
  have phase := kept.phase
  rw [waiting_some isGrp, SeqGrp.waiting_of_idle idle, queue] at order phase
  rw [current_some isGrp, SeqGrp.current_of_idle idle, append_nil] at single
  have tail : SeqGrp.waiting { grp with running := true } = rest := by
    have asTail : SeqGrp.waiting { grp with running := true } = grp.queue.tail :=
      SeqGrp.waiting_of_running rfl
    rw [asTail, queue, tail_cons]
  have head : SeqGrp.current { grp with running := true } = [task] := by
    have asHead : SeqGrp.current { grp with running := true } = grp.queue.take 1 :=
      SeqGrp.current_of_running rfl
    rw [asHead, queue]
    rfl
  refine inv.update held rfl rfl rfl rfl ⟨?_, ?_, kept.kept, fun other isOther => ?_, ?_⟩
  · show slot.accepted = (slot.begun ++ [task]) ++ SeqGrp.waiting { grp with running := true }
    rw [tail, append_assoc, singleton_append]
    exact order
  · show slot.begun ++ [task] = slot.done ++ SeqGrp.current { grp with running := true }
    rw [head, single]
  · cases isOther
    refine ⟨fun ended => ?_, fun _ => ⟨scheduled, ?_⟩, sound.idle⟩
    · have empty := (sound.ended ended).1
      rw [queue] at empty
      exact absurd empty (cons_ne_nil _ _)
    · rw [queue]
      exact cons_ne_nil _ _
  · show SeqPhase slot.state slot.accepted (SeqGrp.waiting { grp with running := true }) handle.calls _
    rw [tail]
    exact phase.begin order

theorem Inv.completeHead (inv : handle.Inv)
    (held : handle.slot = some slot) (isGrp : slot.grp = some grp)
    (queue : grp.queue = task :: rest)
    (running : grp.running = true) : (handle.completeHead slot grp task).Inv := by
  have kept := (inv.slot slot held).2
  have sound := kept.sound grp isGrp
  have order := kept.order
  have single := kept.single
  have phase := kept.phase
  rw [waiting_some isGrp, SeqGrp.waiting_of_running running] at order phase
  rw [current_some isGrp, SeqGrp.current_of_running running, queue] at single
  have idle : ¬false = true := Bool.false_ne_true
  have whole : SeqGrp.waiting { grp with running := false, queue := grp.queue.tail } =
      grp.queue.tail := SeqGrp.waiting_of_idle idle
  have none : SeqGrp.current { grp with running := false, queue := grp.queue.tail } = [] :=
    SeqGrp.current_of_idle idle
  refine inv.update held rfl rfl rfl rfl ⟨?_, ?_, kept.kept, fun other isOther => ?_, ?_⟩
  · show slot.accepted = slot.begun ++ SeqGrp.waiting { grp with running := false, queue := grp.queue.tail }
    rw [whole]
    exact order
  · show slot.begun = (slot.done ++ [task]) ++
      SeqGrp.current { grp with running := false, queue := grp.queue.tail }
    rw [none, append_nil]
    exact single
  · cases isOther
    refine ⟨fun ended => ?_, fun never => absurd never idle, fun unscheduled => ?_⟩
    · exact absurd ((sound.ended ended).2 ▸ running) Bool.false_ne_true
    · exact absurd (unscheduled ▸ (sound.running running).1) Bool.false_ne_true
  · show SeqPhase slot.state slot.accepted
      (SeqGrp.waiting { grp with running := false, queue := grp.queue.tail }) handle.calls _
    rw [whole]
    exact phase

theorem Inv.endGrp (inv : handle.Inv) (held : handle.slot = some slot)
    (isGrp : slot.grp = some grp) (queue : grp.queue = []) (scheduled : grp.scheduled = true)
    (idle : ¬grp.running = true) :
    Inv { handle with slot := some { slot with grp := some { grp with ended := true } } } := by
  have kept := (inv.slot slot held).2
  have order := kept.order
  have single := kept.single
  have phase := kept.phase
  rw [waiting_some isGrp] at order phase
  rw [current_some isGrp] at single
  refine inv.update held rfl rfl rfl rfl ⟨order, single, kept.kept, fun other isOther => ?_, phase⟩
  cases isOther
  exact ⟨fun _ => ⟨queue, Bool.eq_false_iff.2 idle⟩, fun running => absurd running idle,
    fun unscheduled => absurd (unscheduled ▸ scheduled) Bool.false_ne_true⟩

/-- A `RemoveTg` on its way finds the slot stopped and its tasks started, the one that cleans
up last. -/
theorem SeqPhase.removed (phase : SeqPhase state accepted waiting calls removals)
    (due : 0 < removals) :
    state = .stopped ∧ waiting = [] ∧ calls = [] ∧ removals = 1 ∧
      ∃ body last, accepted = body ++ [last] ∧ last.role = .cleanup := by
  cases phase with
  | @closed first cleanup seqs last _ _ _ _ clean =>
    have ends : first :: (seqs ++ (last ++ [cleanup])) = (first :: (seqs ++ last)) ++ [cleanup] := by
      rw [cons_append, append_assoc]
    split at due
    · next none => exact ⟨rfl, none, rfl, if_pos none, _, _, ends, clean⟩
    · exact absurd due (Nat.lt_irrefl 0)
  | _ => exact absurd due (Nat.lt_irrefl 0)

theorem eq_singleton_of_mem {tasks : List SeqTask} (short : tasks.length ≤ 1)
    (member : task ∈ tasks) : tasks = [task] := by
  have long : tasks.length = 1 := Nat.le_antisymm short (length_pos_of_mem member)
  obtain ⟨only, isOnly⟩ := length_eq_one_iff.1 long
  rw [isOnly] at member ⊢
  rw [mem_singleton.1 member]

theorem finished_cancel (kept : slot.Inv handle.calls handle.removals) (due : 0 < handle.removals) :
    slot.cancel.Sequential ∧ slot.cancel.Finished := by
  obtain ⟨_, none, _, _, body, last, ends, clean⟩ := SeqPhase.removed kept.phase due
  have order := kept.order
  rw [none, append_nil] at order
  have whole : slot.cancel.accepted = slot.cancel.begun ++ slot.cancel.waiting := by
    show slot.accepted = slot.begun ++ []
    rw [append_nil]
    exact order
  refine ⟨⟨kept.phase.shaped, whole, ⟨_, kept.single, slot.current_length⟩, none⟩, order, _,
    kept.single, fun task member => ?_⟩
  have one : slot.current = [task] := eq_singleton_of_mem slot.current_length member
  have same : body ++ [last] = slot.done ++ [task] := by
    rw [← ends, order, ← one]
    exact kept.single
  rw [← singleton_inj.1 (append_inj_right' same rfl)]
  exact clean

theorem Inv.removeTg (inv : handle.Inv) (due : 0 < handle.removals) : handle.removeTg.2.Inv := by
  rw [SeqHandle.removeTg]
  split
  · next empty => exact absurd (inv.none empty).2 (Nat.ne_of_gt due)
  · next slot held =>
      obtain ⟨young, kept⟩ := inv.slot slot held
      obtain ⟨stopped, _, calls, one, _⟩ := SeqPhase.removed kept.phase due
      rw [if_neg (not_not.2 stopped)]
      refine ⟨fun _ isSlot => absurd isSlot.symm (Option.some_ne_none _),
        fun _ => ⟨calls, by rw [one]⟩, fun old member => ?_, ?_,
        fun _ isSlot => absurd isSlot.symm (Option.some_ne_none _)⟩
      · rcases mem_append.1 member with before | last
        · exact inv.gone old before
        · rw [mem_singleton.1 last]
          exact ⟨young, finished_cancel kept due⟩
      · show ((handle.gone ++ [slot.cancel]).map SeqSlot.life).Nodup
        rw [map_append, map_singleton, nodup_append]
        refine ⟨inv.once, nodup_singleton _, fun life member other isOther same => ?_⟩
        rw [mem_singleton.1 isOther] at same
        exact inv.apart slot held (same ▸ member)

theorem inv_new : SeqHandle.new.Inv where
  slot := fun _ held => absurd held.symm (Option.some_ne_none _)
  none := fun _ => ⟨rfl, rfl⟩
  gone := forall_mem_nil _
  once := nodup_nil
  apart := fun _ held => absurd held.symm (Option.some_ne_none _)

theorem slotOf_eq_some (found : handle.slotOf call = some slot) :
    call ∈ handle.calls ∧ handle.slot = some slot := by
  obtain ⟨member, filtered⟩ := Option.ite_none_right_eq_some.1 found
  exact ⟨member, (Option.filter_eq_some_iff.1 filtered).1⟩

theorem inv_of_step {move : SeqMove} (inv : handle.Inv) (fits : handle.Fits parentStopped move)
    (moved : handle.step mgr parentStopped move = some next) : next.Inv := by
  cases move with
  | allocSeqSlot =>
    cases moved
    exact inv.allocSeqSlot
  | addStartTask task =>
    cases moved
    exact inv.addStartTask fits
  | addSeqTask task =>
    cases moved
    exact inv.addSeqTask fits
  | addStopTask task =>
    cases moved
    exact inv.addStopTask fits
  | capture call =>
    obtain ⟨slot, found, rest⟩ := Option.bind_eq_some_iff.1 moved
    obtain ⟨member, held⟩ := slotOf_eq_some found
    split at rest
    · next checked =>
        cases rest
        exact inv.capture held member checked
    · exact absurd rest.symm (Option.some_ne_none _)
  | append call =>
    obtain ⟨slot, found, rest⟩ := Option.bind_eq_some_iff.1 moved
    obtain ⟨member, held⟩ := slotOf_eq_some found
    split at rest
    · exact absurd rest.symm (Option.some_ne_none _)
    · next place =>
        cases rest
        rw [show parentStopped = false from fits]
        exact inv.append held member place
  | runHead =>
    obtain ⟨slot, held, grouped⟩ := Option.bind_eq_some_iff.1 moved
    obtain ⟨grp, isGrp, rest⟩ := Option.bind_eq_some_iff.1 grouped
    split at rest
    · exact absurd rest.symm (Option.some_ne_none _)
    · next queue =>
        obtain ⟨⟨scheduled, idle, _⟩, ⟨⟩⟩ := Option.ite_none_right_eq_some.1 rest
        exact inv.runHead held isGrp queue scheduled idle
  | completeHead =>
    obtain ⟨slot, held, grouped⟩ := Option.bind_eq_some_iff.1 moved
    obtain ⟨grp, isGrp, rest⟩ := Option.bind_eq_some_iff.1 grouped
    split at rest
    · exact absurd rest.symm (Option.some_ne_none _)
    · next queue =>
        obtain ⟨running, ⟨⟩⟩ := Option.ite_none_right_eq_some.1 rest
        exact inv.completeHead held isGrp queue running
  | endGrp =>
    obtain ⟨slot, held, grouped⟩ := Option.bind_eq_some_iff.1 moved
    obtain ⟨grp, isGrp, rest⟩ := Option.bind_eq_some_iff.1 grouped
    obtain ⟨⟨scheduled, idle, _, queue⟩, ⟨⟩⟩ := Option.ite_none_right_eq_some.1 rest
    exact inv.endGrp held isGrp queue scheduled idle
  | removeTg =>
    obtain ⟨due, ⟨⟩⟩ := Option.ite_none_right_eq_some.1 moved
    exact inv.removeTg due

theorem SeqPhase.removal {begun : List SeqTask}
    (phase : SeqPhase state accepted waiting calls removals) (order : accepted = begun ++ waiting)
    (stopped : state = .stopped) :
    calls.length + (waiting.filter fun task => task.role = .cleanup).length + removals = 1 := by
  have none : ([] : List SeqTask).map SeqTask.role ∈ [[], [SeqRole.stop]] := mem_cons_self
  have clear : ∀ tasks : List SeqTask, (∀ task ∈ tasks, task.role ≠ .cleanup) →
      tasks.filter (fun task => task.role = .cleanup) = [] := by
    intro tasks other
    rw [filter_eq_nil_iff]
    intro task member clean
    exact other task member (of_decide_eq_true clean)
  cases phase with
  | starting | opening | opened => cases stopped
  | stopping start seq _ =>
    rw [clear waiting fun task member => role_ne_cleanup start seq none task ?_]
    · rfl
    · rw [append_nil, order]
      exact mem_append_right _ member
  | closing start seq stop _ =>
    rw [clear waiting fun task member => role_ne_cleanup start seq stop task ?_]
    · rfl
    · rw [order]
      exact mem_append_right _ member
  | @closed first cleanup seqs last _ start seq stop clean =>
    rcases eq_nil_or_concat waiting with empty | ⟨front, behind, isWaiting⟩
    · rw [empty]
      rfl
    · rw [concat_eq_append] at isWaiting
      have cut : (first :: (seqs ++ last)) ++ [cleanup] = (begun ++ front) ++ [behind] := by
        rw [append_assoc, ← isWaiting, ← order, cons_append, append_assoc]
      have body := append_inj_left' cut rfl
      have same := singleton_inj.1 (append_inj_right' cut rfl)
      have before := clear front fun task member => role_ne_cleanup start seq stop task
        (body ▸ mem_append_right _ member)
      have some : front ++ [behind] ≠ [] :=
        append_ne_nil_of_right_ne_nil _ (cons_ne_nil _ _)
      rw [isWaiting, if_neg some, filter_append, before, nil_append, filter_singleton, ← same, clean]
      rfl

theorem Inv.orderly (inv : handle.Inv) : handle.Orderly where
  slot := fun slot held => (inv.slot slot held).2.sequential
  driven := by
    intro slot held waits
    have kept := (inv.slot slot held).2
    cases isGrp : slot.grp with
    | none => exact absurd (waiting_none isGrp) waits
    | some grp =>
      rw [waiting_some isGrp] at waits
      exact ⟨grp, rfl, (kept.sound grp isGrp).driven waits⟩
  gone := fun slot member => (inv.gone slot member).2
  once := inv.once
  apart := inv.apart
  removal := fun slot held stopped =>
    SeqPhase.removal (inv.slot slot held).2.phase (inv.slot slot held).2.order stopped

end SeqHandle

section

variable {Handle : Type} [DecidableEq Handle]

def SeqMgrMove.Fits (mgr : SeqMgr Handle) : SeqMgrMove Handle → Prop
  | .setState _ => True
  | .stopParent => True
  | .at htg move => (mgr.handles htg).Fits mgr.parentStopped move

instance SeqMgrMove.decidableFits (mgr : SeqMgr Handle) :
    (move : SeqMgrMove Handle) → Decidable (move.Fits mgr)
  | .setState _ => isTrue trivial
  | .stopParent => isTrue trivial
  | .at htg move => SeqHandle.decidableFits (mgr.handles htg) mgr.parentStopped move

def SeqMgr.Inv (mgr : SeqMgr Handle) : Prop := ∀ htg, (mgr.handles htg).Inv

theorem SeqMgr.inv_of_step {isKeyInvalid : Handle → Bool} {mgr next : SeqMgr Handle}
    {move : SeqMgrMove Handle} (inv : mgr.Inv) (fits : move.Fits mgr)
    (moved : mgr.step isKeyInvalid move = some next) : next.Inv := by
  intro other
  cases move with
  | setState | stopParent =>
    cases moved
    exact inv other
  | «at» htg move =>
    rw [SeqMgr.step] at moved
    split at moved
    · cases moved
      exact inv other
    · obtain ⟨handle, stepped, done⟩ := Option.map_eq_some_iff.1 moved
      rw [← done]
      show (Function.update mgr.handles htg handle other).Inv
      by_cases same : other = htg
      · rw [same, Function.update_self]
        exact SeqHandle.inv_of_step (inv htg) fits stepped
      · rw [Function.update_of_ne same]
        exact inv other

/-- In every run whose calls fit, the tasks of every handle are in order. -/
theorem sequential_of_fits {isKeyInvalid : Handle → Bool} {mgr : SeqMgr Handle}
    (reachable :
      ((seqMachine isKeyInvalid).restrict fun mgr move => move.Fits mgr).Reachable mgr)
    (htg : Handle) : (mgr.handles htg).Orderly := by
  have inv : mgr.Inv := reachable.invariant (fun _ => SeqHandle.inv_new)
    fun _ _ _ _ inv moved =>
      SeqMgr.inv_of_step inv (Machine.restrict_step.1 moved).1 (Machine.restrict_step.1 moved).2
  exact (inv htg).orderly

end

def putIn (task : SeqTask) (grp : Nat) : List (SeqMgrMove Nat) :=
  [.at 1 (.capture ⟨0, task, .checked⟩), .at 1 (.append ⟨0, task, .captured grp false⟩)]

def oneOfEach : List (SeqMgrMove Nat) :=
  [.at 1 (.addStartTask 10), .at 1 .runHead, .at 1 (.addSeqTask 11)] ++ putIn ⟨.seq, 11⟩ 0 ++
    [.at 1 (.addStopTask (some 12))] ++ putIn ⟨.stop, 12⟩ 0 ++ putIn cleanupTask 0 ++
    [.at 1 .completeHead, .at 1 .runHead, .at 1 .completeHead, .at 1 .runHead, .at 1 .completeHead,
      .at 1 .runHead, .at 1 .removeTg]

theorem sequential_oneOfEach :
    ∃ mgr, ((seqMachine fun htg : Nat => htg == 0).restrict fun mgr move => move.Fits mgr).run
        (seqMachine fun htg : Nat => htg == 0).start oneOfEach = some mgr ∧
      (mgr.handles 1).slot = none ∧
      (mgr.handles 1).gone.map SeqSlot.done = [[⟨.start, 10⟩, ⟨.seq, 11⟩, ⟨.stop, 12⟩]] ∧
      (mgr.handles 1).Orderly := by
  have ran : (((seqMachine fun htg : Nat => htg == 0).restrict fun mgr move => move.Fits mgr).run
        (seqMachine fun htg : Nat => htg == 0).start oneOfEach).map (fun mgr => mgr.handles 1) =
      some ⟨none, [⟨0, .stopped, none,
        [⟨.start, 10⟩, ⟨.seq, 11⟩, ⟨.stop, 12⟩, cleanupTask],
        [⟨.start, 10⟩, ⟨.seq, 11⟩, ⟨.stop, 12⟩, cleanupTask],
        [⟨.start, 10⟩, ⟨.seq, 11⟩, ⟨.stop, 12⟩], []⟩], [], 0, 1, 1⟩ := by
    decide +kernel
  obtain ⟨mgr, run, handle⟩ := Option.map_eq_some_iff.1 ran
  have orderly := sequential_of_fits (Machine.Reachable.start.run run) 1
  rw [handle] at orderly
  exact ⟨mgr, run, by rw [handle], by rw [handle]; rfl, by rw [handle]; exact orderly⟩

/-- `AddSeqTask` has passed its check when the stop task overtakes it. -/
def stopOvertakes : List (SeqMgrMove Nat) :=
  [.at 1 (.addStartTask 10), .at 1 (.addSeqTask 11), .at 1 (.addStopTask (some 12))] ++
    putIn ⟨.stop, 12⟩ 0 ++ putIn ⟨.seq, 11⟩ 0

theorem stopOvertakes_unshaped : ¬Shaped [⟨.start, 10⟩, ⟨.stop, 12⟩, ⟨.seq, 11⟩] := by
  rintro (none | ⟨first, seqs, ends, whole, _, seq, kinds⟩)
  · cases none
  · have behind := tail_eq_of_cons_eq whole
    cases seqs with
    | nil =>
      rw [nil_append] at behind
      rw [← behind] at kinds
      revert kinds
      decide
    | cons task rest =>
      have role := seq task mem_cons_self
      rw [← head_eq_of_cons_eq behind] at role
      cases role

/-- A task that was let in runs behind the stop task. -/
theorem stopOvertakes_disorders :
    ¬ ∀ mgr, (seqMachine fun htg : Nat => htg == 0).Reachable mgr →
      ∀ htg, (mgr.handles htg).Orderly := by
  intro all
  have ran : ((seqMachine fun htg : Nat => htg == 0).run
        (seqMachine fun htg : Nat => htg == 0).start stopOvertakes).map (fun mgr =>
          (mgr.handles 1).slot) =
      some (some ⟨0, .stopped, some ⟨0, [⟨.start, 10⟩, ⟨.stop, 12⟩, ⟨.seq, 11⟩], false, true, false⟩,
        [⟨.start, 10⟩, ⟨.stop, 12⟩, ⟨.seq, 11⟩], [], [], []⟩) := by
    decide +kernel
  obtain ⟨mgr, run, slot⟩ := Option.map_eq_some_iff.1 ran
  have orderly := all mgr (Machine.Reachable.start.run run) 1
  exact stopOvertakes_unshaped (orderly.slot _ slot).shape

end RpcFrmwrk.Ipc
