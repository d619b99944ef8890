import Mathlib.Data.List.Nodup
import RpcFrmwrk.Ipc.TaskGroup

/-! The sequential task group over whole runs. Owns `IfTaskGrp.Sequential`, the order of the tasks,
where they stop and who goes on; `IfTaskGrp.Phase`, the places of a group between its sections; one
lemma for each section, and the invariant of the runs. -/

namespace RpcFrmwrk.Ipc

open RpcFrmwrk.Library List

namespace IfTaskGrp

variable {task : Nat} {ret err : Int}

def Steady (relation : LogicOp) (started : List Nat) (retVals : List (Nat × Int)) : Prop :=
  ∀ task ∈ started.dropLast, ∃ ret, (task, ret) ∈ retVals ∧ relation.stops ret = false

def Halted (relation : LogicOp) (started : List Nat) (retVals : List (Nat × Int)) : Prop :=
  ∃ task ret, started.getLast? = some task ∧ (task, ret) ∈ retVals ∧ relation.stops ret = true

/-- Each task is started or cancelled once or still waits, in the order in which the tasks
were appended. A task starts when the one in front of it is complete and has not stopped the
group. Tasks are only cancelled where the group was stopped by an answer or asked to
cancel, and a group that is over has no task left. A group that is not over has a task that
runs, a thread at work or a run that is scheduled. -/
structure Sequential (grp : IfTaskGrp) : Prop where
  once : grp.accepted.Nodup
  order : ∃ waiting, grp.accepted = grp.started ++ (grp.skipped ++ waiting) ∧
    (grp.queTasks = waiting ∨ ∃ head, grp.queTasks = head :: waiting)
  steady : Steady grp.relation grp.started grp.retVals
  complete : ∀ answer ∈ grp.retVals, grp.results.lookup answer.1 = some answer.2
  excuse : grp.skipped ≠ [] → grp.asked = true ∨ Halted grp.relation grp.started grp.retVals
  atEnd : grp.state = .stopped → grp.accepted = grp.started ++ grp.skipped
  alive : grp.state ≠ .stopped →
    (∃ task ∈ grp.started, grp.results.lookup task = none) ∨ grp.threads ≠ [] ∨ 0 < grp.due

def Unset (err : Int) : Prop := err = statusPending ∨ err = statusMoreProcessNeeded

/-- What a thread behind the call of a task that is not complete has read. -/
inductive Early (task : Nat) : GrpThread → Prop where
  | inside : Early task (.inside task)
  | ran {err : Int} (unset : Unset err) : Early task (.ran task err)

/-- What a thread behind the call of a complete task has read. -/
inductive Late (task : Nat) (ret : Int) : GrpThread → Prop where
  | inside : Late task ret (.inside task)
  | early {err : Int} (unset : Unset err) : Late task ret (.ran task err)
  | ran : Late task ret (.ran task ret)

/-- The group with its state, the flags, the threads, the queue, the tasks that wait, those
started, those cancelled and the answers. -/
inductive Phase (relation : LogicOp) (due : Nat) (results : List (Nat × Int)) (asked : Bool) :
    TaskState → HeadState → Bool → Bool → List GrpThread → List Nat → List Nat → List Nat →
      List Nat → List (Nat × Int) → Prop where
  | starting {queue : List Nat} (scheduled : 0 < due) :
      Phase relation due results asked .starting .waitStart false false [] queue queue [] [] []
  | pending {head : Nat} {waiting : List Nat} {retVals : List (Nat × Int)}
      (good : ∀ answer ∈ retVals, relation.stops answer.2 = false)
      (under : results.lookup head = none) :
      Phase relation due results asked .started .waitComplete false false [] (head :: waiting) waiting
        (retVals.map Prod.fst ++ [head]) [] retVals
  | between {waiting : List Nat} {retVals : List (Nat × Int)} {last : Nat × Int}
      (good : ∀ answer ∈ retVals, relation.stops answer.2 = false) (scheduled : 0 < due) :
      Phase relation due results asked .started .waitRunning false false [] waiting waiting
        (retVals.map Prod.fst ++ [last.1]) [] (retVals ++ [last])
  | early {head : Nat} {waiting : List Nat} {retVals : List (Nat × Int)} {headState : HeadState}
      {thread : GrpThread} (good : ∀ answer ∈ retVals, relation.stops answer.2 = false)
      (idle : headState ≠ .waitComplete) (under : results.lookup head = none)
      (place : Early head thread) :
      Phase relation due results asked .started headState true false [thread] (head :: waiting)
        waiting (retVals.map Prod.fst ++ [head]) [] retVals
  | late {waiting : List Nat} {retVals : List (Nat × Int)} {last : Nat × Int} {headState : HeadState}
      {thread : GrpThread} (good : ∀ answer ∈ retVals, relation.stops answer.2 = false)
      (idle : headState ≠ .waitComplete) (place : Late last.1 last.2 thread) :
      Phase relation due results asked .started headState true false [thread] waiting waiting
        (retVals.map Prod.fst ++ [last.1]) [] (retVals ++ [last])
  | instead {waiting : List Nat} {retVals : List (Nat × Int)} {last : Nat × Int}
      {headState : HeadState} (good : ∀ answer ∈ retVals, relation.stops answer.2 = false)
      (stop : waiting ≠ [] → relation.stops last.2 = true) :
      Phase relation due results asked .stopping headState false false [.instead] waiting waiting
        (retVals.map Prod.fst ++ [last.1]) [] (retVals ++ [last])
  | cancelling {head : Nat} {ret : Int} {queue waiting started skipped : List Nat}
      {retVals : List (Nat × Int)} {headState : HeadState}
      (place : queue = waiting ∨ queue = head :: waiting) (known : head ∈ started ∨ head ∈ skipped)
      (steady : Steady relation started retVals)
      (excuse : asked = true ∨ Halted relation started retVals) :
      Phase relation due results asked .stopping headState true true [.cancelling head ret] queue
        waiting started skipped retVals
  | ended {ret : Int} {started skipped : List Nat} {retVals : List (Nat × Int)}
      {headState : HeadState} {canceling : Bool} (steady : Steady relation started retVals)
      (excuse : skipped ≠ [] → asked = true ∨ Halted relation started retVals) :
      Phase relation due results asked .stopping headState false canceling [.ended ret] [] [] started
        skipped retVals
  | stopped {started skipped : List Nat} {retVals : List (Nat × Int)}
      {headState : HeadState} {canceling : Bool} (steady : Steady relation started retVals)
      (excuse : skipped ≠ [] → asked = true ∨ Halted relation started retVals) :
      Phase relation due results asked .stopped headState false canceling [] [] [] started
        skipped retVals

/-- The group is at a place, with the tasks that wait. -/
structure At (grp : IfTaskGrp) (waiting : List Nat) : Prop where
  once : grp.accepted.Nodup
  order : grp.accepted = grp.started ++ (grp.skipped ++ waiting)
  known : ∀ answer ∈ grp.retVals, grp.results.lookup answer.1 = some answer.2
  final : ∀ answer ∈ grp.retVals, answer.2 ≠ statusPending ∧ answer.2 ≠ statusMoreProcessNeeded
  owned : ∀ task, grp.results.lookup task ≠ none → task ∈ grp.started ∨ task ∈ grp.skipped
  phase : Phase grp.relation grp.due grp.results grp.asked grp.state grp.headState grp.noSched
    grp.canceling grp.threads grp.queTasks waiting grp.started grp.skipped grp.retVals

def Inv (grp : IfTaskGrp) : Prop := ∃ waiting, grp.At waiting

section

variable {relation : LogicOp} {started : List Nat} {retVals : List (Nat × Int)}

theorem steady_nil : Steady relation [] retVals := forall_mem_nil _

theorem steady_of_good {head : Nat} (good : ∀ answer ∈ retVals, relation.stops answer.2 = false)
    (more : List (Nat × Int)) :
    Steady relation (retVals.map Prod.fst ++ [head]) (retVals ++ more) := by
  intro task member
  rw [dropLast_concat] at member
  obtain ⟨answer, isAnswer, same⟩ := mem_map.1 member
  refine ⟨answer.2, mem_append_left _ ?_, good answer isAnswer⟩
  rw [← same]
  exact isAnswer

theorem steady_running {head : Nat} (good : ∀ answer ∈ retVals, relation.stops answer.2 = false) :
    Steady relation (retVals.map Prod.fst ++ [head]) retVals := by
  have steady : Steady relation (retVals.map Prod.fst ++ [head]) (retVals ++ []) :=
    steady_of_good good []
  rwa [append_nil] at steady

theorem Steady.more (steady : Steady relation started retVals) (more : List (Nat × Int)) :
    Steady relation started (retVals ++ more) := by
  intro task member
  obtain ⟨ret, isAnswer, goes⟩ := steady task member
  exact ⟨ret, mem_append_left _ isAnswer, goes⟩

theorem Halted.more (halted : Halted relation started retVals) (more : List (Nat × Int)) :
    Halted relation started (retVals ++ more) := by
  obtain ⟨task, ret, last, isAnswer, stops⟩ := halted
  exact ⟨task, ret, last, mem_append_left _ isAnswer, stops⟩

theorem halted_last {last : Nat × Int} (stops : relation.stops last.2 = true) :
    Halted relation (retVals.map Prod.fst ++ [last.1]) (retVals ++ [last]) :=
  ⟨last.1, last.2, List.getLast?_concat, mem_append_right _ (mem_singleton_self _), stops⟩

end

variable {grp : IfTaskGrp}

variable {waiting rest : List Nat} {last : Nat × Int} {prev : Option Nat} {retry : Bool}

theorem At.sequential (place : grp.At waiting) : grp.Sequential := by
  obtain ⟨once, order, known, final, owned, phase⟩ := place
  cases grp
  dsimp only at phase
  cases phase with
  | starting scheduled =>
    exact ⟨once, ⟨_, order, .inl rfl⟩, steady_nil, known, fun some => absurd rfl some,
      nofun, fun _ => .inr (.inr scheduled)⟩
  | pending good under =>
    exact ⟨once, ⟨_, order, .inr ⟨_, rfl⟩⟩, steady_running good, known, fun some => absurd rfl some,
      nofun, fun _ => .inl ⟨_, mem_append_right _ (mem_singleton_self _), under⟩⟩
  | between good scheduled =>
    exact ⟨once, ⟨_, order, .inl rfl⟩, steady_of_good good _, known, fun some => absurd rfl some,
      nofun, fun _ => .inr (.inr scheduled)⟩
  | early good _ under _ =>
    exact ⟨once, ⟨_, order, .inr ⟨_, rfl⟩⟩, steady_running good, known, fun some => absurd rfl some,
      nofun, fun _ => .inr (.inl (cons_ne_nil _ _))⟩
  | late good _ _ | instead good _ =>
    exact ⟨once, ⟨_, order, .inl rfl⟩, steady_of_good good _, known, fun some => absurd rfl some,
      nofun, fun _ => .inr (.inl (cons_ne_nil _ _))⟩
  | cancelling queue _ steady excuse =>
    exact ⟨once, ⟨_, order, queue.imp id fun isHead => ⟨_, isHead⟩⟩, steady, known,
      fun _ => excuse, nofun, fun _ => .inr (.inl (cons_ne_nil _ _))⟩
  | ended steady excuse =>
    exact ⟨once, ⟨_, order, .inl rfl⟩, steady, known, excuse, nofun, fun _ => .inr (.inl (cons_ne_nil _ _))⟩
  | stopped steady excuse =>
    exact ⟨once, ⟨_, order, .inl rfl⟩, steady, known, excuse,
      fun _ => by simpa using order, fun other => absurd rfl other⟩

theorem at_new (relation : LogicOp) : (IfTaskGrp.new relation).At [] :=
  ⟨nodup_nil, rfl, forall_mem_nil _,
    forall_mem_nil _, fun _ some => absurd rfl some,
    .starting Nat.one_pos⟩

theorem At.schedule (place : grp.At waiting) : At { grp with due := grp.due + 1 } waiting := by
  obtain ⟨once, order, known, final, owned, phase⟩ := place
  refine ⟨once, order, known, final, owned, ?_⟩
  cases grp
  dsimp only at phase
  cases phase with
  | starting _ => exact .starting (Nat.succ_pos _)
  | pending good under => exact .pending good under
  | between good _ => exact .between good (Nat.succ_pos _)
  | early good idle under thread => exact .early good idle under thread
  | late good idle thread => exact .late good idle thread
  | instead good stop => exact .instead good stop
  | cancelling queue head steady excuse => exact .cancelling queue head steady excuse
  | ended steady excuse => exact .ended steady excuse
  | stopped steady excuse => exact .stopped steady excuse

theorem inv_appendTask (place : grp.At waiting)
    (fresh : task ∉ grp.accepted) : (grp.appendTask task).2.Inv := by
  have once : (grp.accepted ++ [task]).Nodup := by
    rw [nodup_append]
    refine ⟨place.once, nodup_singleton task, fun held member added isAdded same => ?_⟩
    rw [mem_singleton.1 isAdded] at same
    exact fresh (same ▸ member)
  have order : grp.accepted ++ [task] = grp.started ++ (grp.skipped ++ (waiting ++ [task])) := by
    rw [place.order, append_assoc, append_assoc]
  have known := place.known
  have final := place.final
  have phase := place.phase
  rw [appendTask]
  split
  · exact ⟨waiting, place⟩
  · next alive =>
      refine ⟨waiting ++ [task], once, order, known, final, place.owned, ?_⟩
      cases grp
      dsimp only at phase
      cases phase with
      | starting scheduled => exact .starting scheduled
      | pending good under => exact .pending good under
      | between good scheduled => exact .between good scheduled
      | early good idle under thread => exact .early good idle under thread
      | late good idle thread => exact .late good idle thread
      | instead | cancelling | ended | stopped => exact absurd rfl alive

/-- A run has the lock of the group and no task runs. -/
structure Ready (grp : IfTaskGrp) : Prop where
  once : grp.accepted.Nodup
  order : grp.accepted = grp.started ++ grp.queTasks
  known : ∀ answer ∈ grp.retVals, grp.results.lookup answer.1 = some answer.2
  final : ∀ answer ∈ grp.retVals, answer.2 ≠ statusPending ∧ answer.2 ≠ statusMoreProcessNeeded
  owned : ∀ task, grp.results.lookup task ≠ none → task ∈ grp.started
  state : grp.state = .started
  idle : grp.headState ≠ .waitComplete
  noSched : grp.noSched = false
  canceling : grp.canceling = false
  threads : grp.threads = []
  skipped : grp.skipped = []
  done : grp.started = grp.retVals.map Prod.fst
  good : ∀ answer ∈ grp.retVals.dropLast, grp.relation.stops answer.2 = false

theorem eq_dropLast_append {answers : List (Nat × Int)}
    (isLast : answers.getLast? = some last) : answers = answers.dropLast ++ [last] := by
  have some : answers ≠ [] := fun none => absurd (none ▸ isLast).symm (Option.some_ne_none _)
  rw [List.getLast?_eq_some_getLast some] at isLast
  cases isLast
  rw [dropLast_append_getLast]

theorem Ready.instead (ready : grp.Ready)
    (isLast : grp.retVals.getLast? = some last)
    (stop : grp.queTasks ≠ [] → grp.relation.stops last.2 = true) :
    (grp.endRun errorCancelInstead).Inv := by
  have whole := eq_dropLast_append isLast
  have done : grp.started = grp.retVals.dropLast.map Prod.fst ++ [last.1] := by
    rw [ready.done]
    conv_lhs => rw [whole]
    rw [map_append, map_singleton]
  have order : grp.accepted = grp.started ++ (grp.skipped ++ grp.queTasks) := by
    rw [ready.skipped]
    exact ready.order
  rw [endRun, if_pos rfl]
  refine ⟨grp.queTasks, ready.once, order, ready.known, ready.final,
    fun task some => .inl (ready.owned task some), ?_⟩
  have phase : Phase grp.relation grp.due grp.results grp.asked .stopping grp.headState false false
      [.instead] grp.queTasks grp.queTasks (grp.retVals.dropLast.map Prod.fst ++ [last.1]) []
      (grp.retVals.dropLast ++ [last]) := .instead ready.good stop
  rw [← done, ← whole] at phase
  show Phase _ _ _ _ .stopping _ grp.noSched grp.canceling (grp.threads ++ [.instead]) _ _ _ grp.skipped _
  rw [ready.noSched, ready.canceling, ready.threads, ready.skipped]
  exact phase

theorem Ready.runLoop (ready : grp.Ready)
    (fresh : ∀ task ∈ grp.queTasks, prev ≠ some task) (final : ret ≠ statusPending)
    (goes : grp.queTasks ≠ [] → ∀ answer ∈ grp.retVals, grp.relation.stops answer.2 = false)
    (coded : ret = errorCancelInstead → grp.retVals ≠ []) : (grp.runLoop prev ret).Inv := by
  have kept : grp.queTasks.dropWhile (fun task => prev = some task) = grp.queTasks := by
    cases queue : grp.queTasks with
    | nil => rfl
    | cons head rest =>
      have other := fresh head (queue ▸ mem_cons_self)
      exact dropWhile_cons_of_neg (by simpa using other)
  rw [IfTaskGrp.runLoop, kept]
  split
  · next empty =>
      have same : { grp with queTasks := [] } = grp := by
        rw [← empty]
      rw [same]
      by_cases code : ret = errorCancelInstead
      · obtain ⟨last, isLast⟩ := Option.ne_none_iff_exists'.1
          (fun none => coded code (List.getLast?_eq_none_iff.1 none))
        rw [code]
        exact ready.instead isLast fun some => absurd empty some
      · have steady : Steady grp.relation grp.started grp.retVals := by
          rw [ready.done]
          intro task member
          rw [← map_dropLast] at member
          obtain ⟨answer, isAnswer, isTask⟩ := mem_map.1 member
          exact ⟨answer.2, isTask ▸ dropLast_subset _ isAnswer, ready.good answer isAnswer⟩
        have order : grp.accepted = grp.started ++ (grp.skipped ++ []) := by
          rw [ready.skipped, ready.order, empty]
          rfl
        rw [endRun, if_neg code, if_pos final]
        refine ⟨[], ready.once, order, ready.known, ready.final,
          fun task some => .inl (ready.owned task some), ?_⟩
        show Phase _ _ _ _ .stopping _ grp.noSched grp.canceling (grp.threads ++ [.ended ret])
          grp.queTasks _ _ grp.skipped _
        rw [ready.noSched, ready.threads, ready.skipped, empty]
        exact .ended steady fun some => absurd rfl some
  · next head rest queue =>
      have before := ready.order
      rw [queue] at before
      have order : grp.accepted = (grp.started ++ [head]) ++ (grp.skipped ++ rest) := by
        rw [ready.skipped, nil_append, before, append_assoc]
        rfl
      have apart := ready.once
      rw [before, nodup_append] at apart
      have under : grp.results.lookup head = none := by
        by_contra some
        exact apart.2.2 head (ready.owned head some) head mem_cons_self rfl
      have good := goes (queue ▸ cons_ne_nil _ _)
      refine ⟨rest, ready.once, order, ready.known, ready.final,
        fun task some => .inl (mem_append_left _ (ready.owned task some)), ?_⟩
      show Phase _ _ _ _ grp.state grp.headState true grp.canceling (grp.threads ++ [.inside head])
        (head :: rest) rest (grp.started ++ [head]) grp.skipped _
      rw [ready.state, ready.canceling, ready.threads, ready.skipped, ready.done]
      exact .early good ready.idle under .inside

variable {waiting : List Nat}

theorem At.stopped_of_canceling (place : grp.At waiting) (canceling : grp.canceling = true) :
    grp.isStopped = true := by
  have phase := place.phase
  cases grp
  dsimp only at phase canceling
  cases phase with
  | cancelling _ _ _ _ => rfl
  | ended _ _ => rfl
  | stopped _ _ => rfl
  | _ => cases canceling

theorem At.passed (place : grp.At waiting)
    (busy : grp.isStopped = true ∨ grp.noSched = true ∨ grp.headState = .waitComplete) :
    At { grp with due := grp.due - 1 } waiting := by
  obtain ⟨once, order, known, final, owned, phase⟩ := place
  refine ⟨once, order, known, final, owned, ?_⟩
  cases grp
  dsimp only at phase busy
  cases phase with
  | starting | between =>
    rcases busy with stopped | sched | head
    · cases stopped
    · cases sched
    · cases head
  | pending good under => exact .pending good under
  | early good idle under thread => exact .early good idle under thread
  | late good idle thread => exact .late good idle thread
  | instead good stop => exact .instead good stop
  | cancelling queue head steady excuse => exact .cancelling queue head steady excuse
  | ended steady excuse => exact .ended steady excuse
  | stopped steady excuse => exact .stopped steady excuse

theorem At.ready (place : grp.At waiting) (alive : grp.isStopped = false)
    (free : grp.noSched = false)
    (idle : grp.headState ≠ .waitComplete) :
    Ready { grp with due := grp.due - 1, state := .started } := by
  obtain ⟨once, order, known, final, owned, phase⟩ := place
  cases grp
  dsimp only at phase alive free idle once order known final owned
  cases phase with
  | starting _ =>
    exact ⟨once, order, known, final, fun task some => (owned task some).elim id id, rfl, idle, rfl,
      rfl, rfl, rfl, rfl, forall_mem_nil _⟩
  | pending _ _ => exact absurd rfl idle
  | @between _ retVals last good _ =>
    have done : retVals.map Prod.fst ++ [last.1] = (retVals ++ [last]).map Prod.fst := by
      rw [map_append, map_singleton]
    have before : (retVals ++ [last]).dropLast = retVals := dropLast_concat
    exact ⟨once, order, known, final, fun task some => (owned task some).resolve_right not_mem_nil,
      rfl, idle, rfl, rfl, rfl, rfl, done, fun answer member => good answer (before ▸ member)⟩
  | early _ _ _ _ => cases free
  | late _ _ _ => cases free
  | instead | cancelling | ended | stopped => cases alive

theorem At.state_of_waitComplete (place : grp.At waiting) (alive : grp.isStopped = false)
    (free : grp.noSched = false) (head : grp.headState = .waitComplete) : grp.state = .started := by
  have phase := place.phase
  cases grp
  dsimp only at phase alive free head
  cases phase with
  | pending _ _ => rfl
  | starting _ => cases head
  | between _ _ => cases head
  | early _ _ _ _ => cases free
  | late _ _ _ => cases free
  | instead | cancelling | ended | stopped => cases alive

theorem Ready.decide (ready : grp.Ready) {last : Nat × Int}
    (isLast : grp.retVals.getLast? = some last)
    {prev : Option Nat} (fresh : ∀ task ∈ grp.queTasks, prev ≠ some task) :
    (if grp.relation.stops last.2 ∧ grp.queTasks ≠ [] then grp.endRun errorCancelInstead
      else grp.runLoop prev last.2).Inv := by
  have member : last ∈ grp.retVals := mem_of_getLast? isLast
  split
  · next both => exact ready.instead isLast fun _ => both.1
  · next held =>
      refine ready.runLoop fresh (ready.final last member).1 (fun some answer isAnswer => ?_)
        fun _ none => absurd (none ▸ member) not_mem_nil
      rw [eq_dropLast_append isLast] at isAnswer
      rcases mem_append.1 isAnswer with before | isIt
      · exact ready.good answer before
      · rw [mem_singleton.1 isIt]
        exact Bool.eq_false_iff.2 fun stops => held ⟨stops, some⟩

theorem inv_runTaskInternal (place : grp.At waiting) : { grp with due := grp.due - 1 }.runTaskInternal.Inv := by
  rw [runTaskInternal]
  split
  · next stopped => exact ⟨waiting, place.passed (.inl stopped)⟩
  · next alive =>
      split
      · next canceling => exact absurd (place.stopped_of_canceling canceling) alive
      · split
        · next sched => exact ⟨waiting, place.passed (.inr (.inl sched))⟩
        · next free =>
            have isAlive : grp.isStopped = false := Bool.eq_false_iff.2 alive
            have isFree : grp.noSched = false := Bool.eq_false_iff.2 free
            simp only
            split
            · next head =>
                have state := place.state_of_waitComplete isAlive isFree head
                have passed := place.passed (.inr (.inr head))
                rw [show ({ grp with due := grp.due - 1, state := .started } : IfTaskGrp) =
                  { grp with due := grp.due - 1 } by rw [← state]]
                exact ⟨waiting, passed⟩
            · next idle =>
                have ready := place.ready isAlive isFree idle
                split
                · next ret isRet =>
                    obtain ⟨last, isLast, same⟩ := Option.map_eq_some_iff.1 isRet
                    rw [← same]
                    exact ready.decide isLast fun _ _ never => Option.some_ne_none _ never.symm
                · next none =>
                    have empty : grp.retVals = [] :=
                      List.getLast?_eq_none_iff.1 (Option.map_eq_none_iff.1 none)
                    refine ready.runLoop (fun _ _ never => Option.some_ne_none _ never.symm) (by decide)
                      (fun _ answer member => ?_) fun code => absurd code (by decide)
                    have member : answer ∈ grp.retVals := member
                    rw [empty] at member
                    exact absurd member not_mem_nil

theorem getError_none (under : grp.results.lookup task = none) : Unset (grp.getError task retry) := by
  rw [getError, under]
  simp only [Option.getD_none, ite_self]
  cases retry with
  | false => exact .inl rfl
  | true => exact .inr rfl

theorem getError_some
    (complete : grp.results.lookup task = some ret) :
    Unset (grp.getError task retry) ∨ grp.getError task retry = ret := by
  rw [getError, complete]
  split
  · exact .inr rfl
  · cases retry with
    | false => exact .inl (.inl rfl)
    | true => exact .inl (.inr rfl)

theorem Late.of_error (read : Unset err ∨ err = ret) : Late task ret (.ran task err) := by
  rcases read with early | late
  · exact .early early
  · rw [late]
    exact .ran

theorem Late.of_ran {other : Nat} {thread : GrpThread} (late : Late task ret thread)
    (ran : .ran other err = thread) :
    other = task ∧ thread = .ran task err ∧ (Unset err ∨ err = ret) := by
  cases late with
  | inside => cases ran
  | early unset =>
    cases ran
    exact ⟨rfl, rfl, .inl unset⟩
  | ran =>
    cases ran
    exact ⟨rfl, rfl, .inr rfl⟩

theorem inv_returns (place : grp.At waiting) (member : .inside task ∈ grp.threads)
    (retry : Bool) :
    ((grp.leave (.inside task)).goTo (.ran task (grp.getError task retry))).Inv := by
  have unread : grp.results.lookup task = none → Unset (grp.getError task retry) := getError_none
  have read : ∀ ret, grp.results.lookup task = some ret →
      Unset (grp.getError task retry) ∨ grp.getError task retry = ret := fun _ => getError_some
  obtain ⟨once, order, known, final, owned, phase⟩ := place
  refine ⟨waiting, once, order, known, final, owned, ?_⟩
  generalize grp.getError task retry = err at unread read ⊢
  cases grp
  dsimp only at phase member known unread read
  rw [leave, goTo]
  dsimp only
  cases phase with
  | starting | pending | between | stopped => exact absurd member not_mem_nil
  | early good idle under thread =>
    cases thread with
    | inside =>
      have same := GrpThread.inside.inj (mem_singleton.1 member)
      rw [← same] at under ⊢
      rw [erase_cons_head]
      exact .early good idle under (.ran (unread under))
    | ran _ => cases mem_singleton.1 member
  | @late _ retVals last _ _ good idle thread =>
    have complete := known last (mem_append_right _ (mem_singleton_self _))
    cases thread with
    | inside =>
      have same := GrpThread.inside.inj (mem_singleton.1 member)
      rw [same, erase_cons_head]
      rw [same] at read
      exact .late good idle (Late.of_error (read _ complete))
    | early | ran => cases mem_singleton.1 member
  | instead | cancelling | ended => cases mem_singleton.1 member

theorem At.settle (place : grp.At waiting) (settled : List Nat) : At { grp with settled := settled } waiting :=
  { place with }

theorem afterTask_late (last : grp.lastRet = some ret)
    (head : grp.queTasks.head? ≠ some task) (read : Unset err ∨ err = ret)
    (final : ret ≠ statusPending ∧ ret ≠ statusMoreProcessNeeded) :
    grp.afterTask task err =
      if grp.relation.stops ret ∧ grp.queTasks ≠ [] then
        { grp with noSched := false }.endRun errorCancelInstead
      else { grp with noSched := false }.runLoop (some task) ret := by
  have back : (lastRet { grp with noSched := false }).getD statusPending = ret := by
    rw [show lastRet { grp with noSched := false } = some ret from last]
    rfl
  have first : (if err = statusMoreProcessNeeded then statusPending else err) = statusPending ∨
      (if err = statusMoreProcessNeeded then statusPending else err) = ret := by
    rcases read with (pending | retry) | late
    · rw [pending]
      exact .inl (if_neg (by decide))
    · exact .inl (if_pos retry)
    · rw [late]
      exact .inr (if_neg final.2)
  have value : ∀ first, first = statusPending ∨ first = ret →
      (if grp.queTasks.head? ≠ some task ∧ first = statusPending then
        (lastRet { grp with noSched := false }).getD statusPending else first) = ret := by
    intro first read
    rcases read with pending | late
    · rw [if_pos ⟨head, pending⟩, back]
    · rw [late, if_neg fun both => final.1 both.2]
  rw [afterTask]
  simp only
  rw [value _ first, if_neg final.1]

theorem afterTask_early (head : grp.queTasks.head? = some task)
    (unset : Unset err) :
    grp.afterTask task err = { grp with noSched := false, headState := .waitComplete } := by
  have same : ¬(grp.queTasks.head? ≠ some task ∧ statusPending = statusPending) := fun both => both.1 head
  rw [afterTask]
  simp only
  rcases unset with pending | retry
  · rw [pending, if_neg (by decide : statusPending ≠ statusMoreProcessNeeded), if_neg same, if_pos rfl]
  · rw [retry, if_pos rfl, if_neg same, if_pos rfl]

theorem inv_afterTask (place : grp.At waiting)
    (member : .ran task err ∈ grp.threads) :
    ((grp.leave (.ran task err)).afterTask task err).Inv := by
  obtain ⟨once, order, known, final, owned, phase⟩ := place
  cases grp
  dsimp only at phase member once order known final owned
  cases phase with
  | starting | pending | between | stopped => exact absurd member not_mem_nil
  | early good idle under thread =>
    cases thread with
    | inside => cases mem_singleton.1 member
    | ran unset =>
      obtain ⟨isTask, isErr⟩ := GrpThread.ran.inj (mem_singleton.1 member)
      rw [isTask, isErr, leave, erase_cons_head, afterTask_early rfl unset]
      exact ⟨waiting, once, order, known, final, owned, .pending good under⟩
  | @late _ retVals last _ _ good idle thread =>
    have isLast : last ∈ retVals ++ [last] := mem_append_right _ (mem_singleton_self _)
    have apart : ∀ task ∈ waiting, task ≠ last.1 := by
      rw [order, nil_append, nodup_append] at once
      intro other waits same
      exact once.2.2 last.1 (mem_append_right _ (mem_singleton_self _)) other waits same.symm
    have head : waiting.head? ≠ some last.1 := fun first => apart _ (mem_of_head? first) rfl
    have done : retVals.map Prod.fst ++ [last.1] = (retVals ++ [last]).map Prod.fst := by
      rw [map_append, map_singleton]
    have before : (retVals ++ [last]).dropLast = retVals := dropLast_concat
    obtain ⟨isTask, isThread, read⟩ := thread.of_ran (mem_singleton.1 member)
    have back : (retVals ++ [last]).getLast? = some last := List.getLast?_concat
    rw [isTask, leave, isThread, erase_cons_head, afterTask_late ?_ ?_ read (final last isLast)]
    · refine @Ready.decide ⟨_, .started, _, false, false, waiting, retVals ++ [last], _, [], _, _, _, _, _,
        _, _⟩ ⟨once, order, known, final,
        fun task some => (owned task some).resolve_right not_mem_nil, rfl, idle, rfl, rfl, rfl,
        rfl, done, fun answer member => good answer (before ▸ member)⟩ last back _ ?_
      exact fun other waits same => apart other waits (Option.some.inj same).symm
    · exact congrArg (Option.map Prod.snd) back
    · exact head
  | instead | cancelling | ended => cases mem_singleton.1 member

/-- `OnCancel` has the lock of the group and cancels the tasks that are left. -/
structure Halting (grp : IfTaskGrp) (left waiting : List Nat) : Prop where
  once : grp.accepted.Nodup
  order : grp.accepted = grp.started ++ (grp.skipped ++ waiting)
  known : ∀ answer ∈ grp.retVals, grp.results.lookup answer.1 = some answer.2
  final : ∀ answer ∈ grp.retVals, answer.2 ≠ statusPending ∧ answer.2 ≠ statusMoreProcessNeeded
  owned : ∀ task, grp.results.lookup task ≠ none → task ∈ grp.started ∨ task ∈ grp.skipped
  state : grp.state = .stopping
  noSched : grp.noSched = false
  canceling : grp.canceling = true
  threads : grp.threads = []
  remain : left = waiting ∨ ∃ head ∈ grp.started, left = head :: waiting
  steady : Steady grp.relation grp.started grp.retVals
  excuse : left ≠ [] ∨ grp.skipped ≠ [] → grp.asked = true ∨ Halted grp.relation grp.started grp.retVals

theorem Halting.cancelLoop {left : List Nat} (halting : grp.Halting left waiting)
    (dropped : grp.queTasks.dropWhile (fun task => prev = some task) = left) (ret : Int) :
    (grp.cancelLoop prev ret).Inv := by
  have excuse := halting.excuse
  have order := halting.order
  rw [IfTaskGrp.cancelLoop, dropped]
  cases left with
  | nil =>
    have empty : waiting = [] := by
      rcases halting.remain with same | ⟨head, _, same⟩
      · exact same.symm
      · exact absurd same.symm (cons_ne_nil _ _)
    rw [empty] at order
    refine ⟨[], halting.once, order, halting.known, halting.final, halting.owned, ?_⟩
    show Phase _ _ _ _ grp.state grp.headState grp.noSched _ (grp.threads ++ [.ended ret]) [] _ _ _ _
    rw [halting.state, halting.noSched, halting.threads]
    exact .ended halting.steady fun some => excuse (.inr some)
  | cons task rest =>
    have reason := excuse (.inl (cons_ne_nil _ _))
    rcases halting.remain with same | ⟨head, started, same⟩
    · rw [← same] at order
      have apart : task ∉ grp.started := by
        intro started
        have once := halting.once
        rw [order, nodup_append] at once
        exact once.2.2 task started task (mem_append_right _ mem_cons_self) rfl
      have passed : grp.accepted = grp.started ++ ((grp.skipped ++ [task]) ++ rest) := by
        rw [order, append_assoc grp.skipped, singleton_append]
      simp only
      rw [if_neg apart]
      refine ⟨rest, halting.once, passed, halting.known, halting.final, fun other some => ?_, ?_⟩
      · exact (halting.owned other some).imp id (mem_append_left _)
      · show Phase _ _ _ _ grp.state grp.headState true grp.canceling
          (grp.threads ++ [.cancelling task ret]) (task :: rest) _ _ _ _
        rw [halting.state, halting.canceling, halting.threads]
        exact .cancelling (.inr rfl) (.inr (mem_append_right _ (mem_singleton_self _))) halting.steady reason
    · obtain ⟨isTask, isRest⟩ := List.cons.inj same
      rw [← isTask] at started
      simp only
      rw [if_pos started]
      refine ⟨waiting, halting.once, order, halting.known, halting.final, halting.owned, ?_⟩
      show Phase _ _ _ _ grp.state grp.headState true grp.canceling
        (grp.threads ++ [.cancelling task ret]) (task :: rest) _ _ _ _
      rw [halting.state, halting.canceling, halting.threads, isRest]
      exact .cancelling (.inr rfl) (.inl started) halting.steady reason

theorem dropWhile_none (tasks : List Nat) :
    tasks.dropWhile (fun task => (none : Option Nat) = some task) = tasks := by
  cases tasks with
  | nil => rfl
  | cons task rest => exact dropWhile_cons_of_neg (by simp)

theorem dropWhile_some {tasks : List Nat} {prev : Nat} (apart : prev ∉ tasks) :
    tasks.dropWhile (fun task => some prev = some task) = tasks := by
  cases tasks with
  | nil => rfl
  | cons task rest =>
    have other : prev ≠ task := fun same => apart (same ▸ mem_cons_self)
    exact dropWhile_cons_of_neg (by simpa using other)

theorem At.halting (place : grp.At waiting) (alive : grp.isStopped = false)
    (free : grp.noSched = false) :
    Halting { grp with canceling := true, state := .stopping, asked := grp.asked || !false }
      grp.queTasks waiting := by
  obtain ⟨once, order, known, final, owned, phase⟩ := place
  cases grp
  dsimp only at phase alive free once order known final owned
  have asked : ∀ asked : Bool, (asked || !false) = true := by decide
  cases phase with
  | starting _ =>
    exact ⟨once, order, known, final, owned, rfl, free, rfl, rfl, .inl rfl, steady_nil, fun _ => .inl (asked _)⟩
  | pending good _ =>
    exact ⟨once, order, known, final, owned, rfl, free, rfl, rfl,
      .inr ⟨_, mem_append_right _ (mem_singleton_self _), rfl⟩, steady_running good,
      fun _ => .inl (asked _)⟩
  | between good _ =>
    exact ⟨once, order, known, final, owned, rfl, free, rfl, rfl, .inl rfl, steady_of_good good _,
      fun _ => .inl (asked _)⟩
  | early _ _ _ _ => cases free
  | late _ _ _ => cases free
  | instead | cancelling | ended | stopped => cases alive

theorem inv_cancel (place : grp.At waiting) : (grp.onCancel false).Inv := by
  rw [onCancel]
  split
  · exact ⟨waiting, place⟩
  · next alive =>
      split
      · exact ⟨waiting, place⟩
      · split
        · exact ⟨waiting, place⟩
        · next free =>
            have isAlive : grp.isStopped = false :=
              Bool.eq_false_iff.2 fun stopped => alive ⟨stopped, Bool.false_ne_true⟩
            exact (place.halting isAlive (Bool.eq_false_iff.2 free)).cancelLoop (dropWhile_none _) _

theorem At.handed (place : grp.At waiting) (member : .instead ∈ grp.threads) :
    grp.canceling = false ∧ grp.noSched = false ∧
      Halting { grp.leave .instead with
        canceling := true, state := .stopping, asked := grp.asked || !true } grp.queTasks waiting := by
  obtain ⟨once, order, known, final, owned, phase⟩ := place
  cases grp
  dsimp only at phase member once order known final owned
  cases phase with
  | instead good stop =>
    refine ⟨rfl, rfl, once, order, known, final, owned, rfl, rfl, rfl, rfl, .inl rfl,
      steady_of_good good _, fun some => .inr ?_⟩
    exact halted_last (stop (some.resolve_right fun none => none rfl))
  | starting | pending | between | stopped => exact absurd member not_mem_nil
  | early _ _ _ thread =>
    cases thread with
    | inside | ran => cases mem_singleton.1 member
  | late _ _ thread =>
    cases thread with
    | inside | early | ran => cases mem_singleton.1 member
  | cancelling | ended => cases mem_singleton.1 member

theorem inv_cancelInstead (place : grp.At waiting) (member : .instead ∈ grp.threads) :
    ((grp.leave .instead).onCancel true).Inv := by
  obtain ⟨canceling, free, halting⟩ := place.handed member
  have notCanceling : ¬(grp.leave .instead).canceling = true := fun is => absurd (canceling ▸ is) Bool.false_ne_true
  have notSched : ¬(grp.leave .instead).noSched = true := fun is => absurd (free ▸ is) Bool.false_ne_true
  rw [onCancel, if_neg fun both => both.2 rfl, if_neg notCanceling, if_neg notSched]
  exact halting.cancelLoop (dropWhile_none _) _

theorem inv_cancelReturns (place : grp.At waiting)
    (member : .cancelling task ret ∈ grp.threads) :
    (cancelLoop { grp.leave (.cancelling task ret) with noSched := false } (some task) ret).Inv := by
  obtain ⟨once, order, known, final, owned, phase⟩ := place
  cases grp
  dsimp only at phase member once order known final owned
  cases phase with
  | cancelling queue head steady excuse =>
    obtain ⟨isTask, isRet⟩ := GrpThread.cancelling.inj (mem_singleton.1 member)
    rw [← isTask] at queue head
    have apart : task ∉ waiting := by
      intro waits
      rw [order, ← append_assoc, nodup_append] at once
      exact once.2.2 task (mem_append.2 head) task waits rfl
    refine Halting.cancelLoop ⟨once, order, known, final, owned, rfl, rfl, rfl, ?_, .inl rfl, steady,
      fun _ => excuse⟩ ?_ ret
    · rw [leave]
      dsimp only
      rw [isTask, isRet, erase_cons_head]
    · rcases queue with same | same
      · exact (congrArg _ same).trans (dropWhile_some apart)
      · refine (congrArg _ same).trans ?_
        rw [dropWhile_cons_of_pos (by simp)]
        exact dropWhile_some apart
  | starting | pending | between | stopped => exact absurd member not_mem_nil
  | early _ _ _ thread =>
    cases thread with
    | inside | ran => cases mem_singleton.1 member
  | late _ _ thread =>
    cases thread with
    | inside | early | ran => cases mem_singleton.1 member
  | instead | ended => cases mem_singleton.1 member

theorem inv_complete (place : grp.At waiting) (member : .ended ret ∈ grp.threads) :
    Inv { grp.leave (.ended ret) with state := .stopped, ret := some ret } := by
  obtain ⟨once, order, known, final, owned, phase⟩ := place
  refine ⟨waiting, once, order, known, final, owned, ?_⟩
  cases grp
  dsimp only at phase member
  rw [leave]
  dsimp only
  cases phase with
  | ended steady excuse =>
    have same := GrpThread.ended.inj (mem_singleton.1 member)
    rw [same, erase_cons_head]
    exact .stopped steady excuse
  | starting | pending | between | stopped => exact absurd member not_mem_nil
  | early _ _ _ thread =>
    cases thread with
    | inside | ran => cases mem_singleton.1 member
  | late _ _ thread =>
    cases thread with
    | inside | early | ran => cases mem_singleton.1 member
  | instead | cancelling => cases mem_singleton.1 member

section

variable {results : List (Nat × Int)} {task : Nat} {ret : Int}

theorem lookup_more {other : Nat} {answer : Int} (found : results.lookup other = some answer) :
    (results ++ [(task, ret)]).lookup other = some answer := by
  rw [lookup_append, found]
  rfl

theorem lookup_new (fresh : results.lookup task = none) :
    (results ++ [(task, ret)]).lookup task = some ret := by
  rw [lookup_append, fresh, lookup_cons_self]
  rfl

theorem owned_more {started skipped : List Nat}
    (owned : ∀ other, results.lookup other ≠ none → other ∈ started ∨ other ∈ skipped)
    (owner : task ∈ started ∨ task ∈ skipped) :
    ∀ other, (results ++ [(task, ret)]).lookup other ≠ none → other ∈ started ∨ other ∈ skipped := by
  intro other some
  by_cases same : other = task
  · rw [same]
    exact owner
  · refine owned other fun none => some ?_
    rw [lookup_append, none]
    simp [same]

theorem not_mem_of_fresh {retVals : List (Nat × Int)} (fresh : results.lookup task = none)
    (known : ∀ answer ∈ retVals, results.lookup answer.1 = some answer.2) :
    task ∉ retVals.map Prod.fst := by
  intro member
  obtain ⟨answer, isAnswer, same⟩ := mem_map.1 member
  have found := known answer isAnswer
  rw [same, fresh] at found
  exact Option.some_ne_none _ found.symm

end

theorem onChildComplete_empty (empty : grp.queTasks = []) : (grp.onChildComplete ret task).2 = grp := by
  rw [onChildComplete, empty]

theorem onChildComplete_other (absent : task ∉ grp.queTasks) : (grp.onChildComplete ret task).2 = grp := by
  rw [onChildComplete]
  split
  · rfl
  · next head rest queue =>
      have other : task ≠ head := fun same => absent (by rw [queue, same]; exact mem_cons_self)
      rw [if_pos other, erase_of_not_mem (queue ▸ absent)]
      simp only
      rw [← queue]

theorem onChildComplete_busy
    (queue : grp.queTasks = task :: rest) (busy : grp.noSched = true) :
    (grp.onChildComplete ret task).2 =
      { grp with queTasks := rest, retVals := grp.retVals ++ [(task, ret)] } := by
  rw [onChildComplete, queue]
  simp only [ne_eq, not_true_eq_false, if_false]
  rw [if_pos (.inl busy)]

theorem onChildComplete_idle
    (queue : grp.queTasks = task :: rest) (free : grp.noSched = false)
    (alive : grp.isStopped = false)
    (head : grp.headState = .waitComplete) :
    (grp.onChildComplete ret task).2 =
      { grp with
        queTasks := rest
        retVals := grp.retVals ++ [(task, ret)]
        headState := .waitRunning
        due := grp.due + 1 } := by
  have still : isStopped { grp with queTasks := rest, retVals := grp.retVals ++ [(task, ret)] } = false := alive
  rw [onChildComplete, queue]
  simp only [ne_eq, not_true_eq_false, if_false]
  rw [still, free, if_neg (by decide), if_neg fun other => other head]

theorem inv_notify (place : grp.At waiting)
    (owner : task ∈ grp.started ∨ task ∈ grp.skipped) (fresh : grp.results.lookup task = none)
    (isFinal : ret ≠ statusPending ∧ ret ≠ statusMoreProcessNeeded) :
    (grp.notify task ret).Inv := by
  have absent := not_mem_of_fresh fresh place.known
  have passed : task ∉ waiting := by
    intro waits
    have once := place.once
    rw [place.order, ← append_assoc, nodup_append] at once
    exact once.2.2 task (mem_append.2 owner) task waits rfl
  obtain ⟨once, order, known, final, owned, phase⟩ := place
  have known' : ∀ answer ∈ grp.retVals, (grp.results ++ [(task, ret)]).lookup answer.1 = some answer.2 :=
    fun answer member => lookup_more (known answer member)
  have knownNew : ∀ answer ∈ grp.retVals ++ [(task, ret)],
      (grp.results ++ [(task, ret)]).lookup answer.1 = some answer.2 := by
    exact forall_mem_append.2 ⟨known', forall_mem_singleton.2 (lookup_new fresh)⟩
  have finalNew : ∀ answer ∈ grp.retVals ++ [(task, ret)],
      answer.2 ≠ statusPending ∧ answer.2 ≠ statusMoreProcessNeeded := by
    exact forall_mem_append.2 ⟨final, forall_mem_singleton.2 isFinal⟩
  have ownedNew : ∀ other, (grp.results ++ [(task, ret)]).lookup other ≠ none →
      other ∈ grp.started ∨ other ∈ grp.skipped := owned_more owned owner
  rw [notify]
  cases grp
  dsimp only at phase owner fresh absent once order known' knownNew final finalNew ownedNew ⊢
  -- the task is the last one started, or it is cancelled
  cases phase with
  | starting _ => exact absurd owner (not_or.2 ⟨not_mem_nil, not_mem_nil⟩)
  | pending good _ =>
    have isHead := (mem_append.1 (owner.resolve_right not_mem_nil)).resolve_left absent
    rw [← mem_singleton.1 isHead] at order ownedNew ⊢
    rw [onChildComplete_idle rfl rfl rfl rfl]
    exact ⟨waiting, once, order, knownNew, finalNew, ownedNew,
      @Phase.between _ _ _ _ waiting _ (task, ret) good (Nat.succ_pos _)⟩
  | between | late | instead =>
    rw [map_append, map_singleton] at absent
    exact absurd (owner.resolve_right not_mem_nil) absent
  | early good idle _ thread =>
    have isHead := (mem_append.1 (owner.resolve_right not_mem_nil)).resolve_left absent
    rw [← mem_singleton.1 isHead] at order ownedNew thread ⊢
    rw [onChildComplete_busy rfl rfl]
    refine ⟨waiting, once, order, knownNew, finalNew, ownedNew,
      @Phase.late _ _ _ _ waiting _ (task, ret) _ _ good idle ?_⟩
    cases thread with
    | inside => exact .inside
    | ran unset => exact .early unset
  | @cancelling cancelled _ _ _ _ _ _ _ queue head steady excuse =>
    rcases queue with same | same
    · rw [onChildComplete_other (same ▸ passed)]
      exact ⟨waiting, once, order, known', final, ownedNew, .cancelling (.inl same) head steady excuse⟩
    · by_cases isHead : task = cancelled
      · rw [onChildComplete_busy (isHead ▸ same) rfl]
        exact ⟨waiting, once, order, knownNew, finalNew, ownedNew,
          .cancelling (.inl rfl) head (steady.more _) (excuse.imp id fun halted => halted.more _)⟩
      · rw [onChildComplete_other (same ▸ fun member => (mem_cons.1 member).elim isHead passed)]
        exact ⟨waiting, once, order, known', final, ownedNew, .cancelling (.inr same) head steady excuse⟩
  | ended steady excuse =>
    rw [onChildComplete_empty rfl]
    exact ⟨[], once, order, known', final, ownedNew, .ended steady excuse⟩
  | stopped steady excuse =>
    rw [onChildComplete_empty rfl]
    exact ⟨[], once, order, known', final, ownedNew, .stopped steady excuse⟩

theorem inv_of_step {move : IfTaskGrpMove} {grp' : IfTaskGrp} (inv : grp.Inv)
    (moved : grp.step move = some grp') : grp'.Inv := by
  obtain ⟨waiting, place⟩ := inv
  cases move with
  | appendTask task =>
    obtain ⟨fresh, ⟨⟩⟩ := Option.ite_none_left_eq_some.1 moved
    exact inv_appendTask place fresh
  | schedule =>
    cases moved
    exact ⟨waiting, place.schedule⟩
  | run =>
    obtain ⟨_, ⟨⟩⟩ := Option.ite_none_right_eq_some.1 moved
    exact inv_runTaskInternal place
  | returns task retry =>
    obtain ⟨member, ⟨⟩⟩ := Option.ite_none_right_eq_some.1 moved
    exact inv_returns place member retry
  | afterTask task err =>
    obtain ⟨member, ⟨⟩⟩ := Option.ite_none_right_eq_some.1 moved
    exact inv_afterTask place member
  | notify task ret =>
    obtain ⟨⟨owner, fresh, isFinal⟩, ⟨⟩⟩ := Option.ite_none_right_eq_some.1 moved
    exact inv_notify place owner fresh isFinal
  | settle task =>
    obtain ⟨_, ⟨⟩⟩ := Option.ite_none_right_eq_some.1 moved
    exact ⟨waiting, place.settle _⟩
  | cancel =>
    cases moved
    exact inv_cancel place
  | cancelInstead =>
    obtain ⟨⟨member, _⟩, ⟨⟩⟩ := Option.ite_none_right_eq_some.1 moved
    exact inv_cancelInstead place member
  | cancelReturns task ret =>
    obtain ⟨member, ⟨⟩⟩ := Option.ite_none_right_eq_some.1 moved
    exact inv_cancelReturns place member
  | complete ret =>
    obtain ⟨member, ⟨⟩⟩ := Option.ite_none_right_eq_some.1 moved
    exact inv_complete place member

end IfTaskGrp

/-- The first task is complete before its call returns, the second asks for a retry and fails
later, and the third is never started. -/
def secondFails : List IfTaskGrpMove :=
  [.appendTask 1, .appendTask 2, .appendTask 3, .run, .notify 1 0, .settle 1, .returns 1 false,
    .afterTask 1 0, .returns 2 true, .afterTask 2 statusMoreProcessNeeded, .notify 2 (-5), .settle 2,
    .run, .cancelInstead, .notify 3 eCanceled, .settle 3, .cancelReturns 3 (-5), .complete (-5)]

end RpcFrmwrk.Ipc
