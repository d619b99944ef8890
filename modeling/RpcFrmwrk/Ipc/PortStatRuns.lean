import Mathlib.Data.List.Basic
import RpcFrmwrk.Ipc.PortStat

/-! The requests of a port over whole runs. Owns `Port.Orderly`, what every request finds and gives
back; the phases of the state stack; what `CanContinue` and `PopState` answer in each phase. -/

namespace RpcFrmwrk.Ipc

open RpcFrmwrk.Library List

namespace Port

/-- Every request gives its state back at its exit; no stop or stack request is in progress together with a shared
one; a stop that finds shared requests is kept, and resumed once, behind them and in front of later
requests; and a port without requests holds one state. -/
structure Orderly (port : Port) : Prop where
  gaveBack : port.exited = port.gaveBack
  exclusive : port.stack ≠ [] ∨ port.stopping ≠ [] → port.shared = []
  notRefused : port.refusedStops = []
  once : port.kept = port.resumed ++ port.waiting
  coming : port.waiting ≠ [] → port.shared ≠ [] ∨ port.tasks ≠ [] ∨ port.resuming ≠ []
  behind : port.early = []
  inFront : port.overtaking = []
  single : port.shared = [] → port.stack = [] → port.stopping = [] → port.waiting = [] →
    ∃ state, port.stat.states = [state]
  intact : port.raised = false

/-- A request to the port stack does not come while a stop waits for its resume task, and it comes to its `PopState`.
A stop comes while no other stop is kept behind shared requests or between the two halves of its resumption; where
shared requests run, there are at most as many as cores, and a task to resume the stop is made. -/
def Fits (numCores : Nat) (port : Port) : PortMove → Prop
  | .submitPortStack _ _ => port.stat.top ≠ some .busyResume
  | .endPortStack _ cmd exit => exit.popsState cmd = true
  | .submitStop _ resumeTask =>
    port.stat.top ≠ some .excludePending ∧ port.stat.top ≠ some .stopResume ∧
      (port.stat.top = some .busyShared → port.shared.length ≤ numCores ∧ resumeTask = true)
  | _ => True

instance (numCores : Nat) (port : Port) (move : PortMove) : Decidable (port.Fits numCores move) :=
  match move with
  | .submitPortStack _ _ => inferInstanceAs (Decidable (port.stat.top ≠ some .busyResume))
  | .endPortStack _ cmd exit => inferInstanceAs (Decidable (exit.popsState cmd = true))
  | .submitStop _ resumeTask => inferInstanceAs (Decidable (port.stat.top ≠ some .excludePending ∧
      port.stat.top ≠ some .stopResume ∧
        (port.stat.top = some .busyShared → port.shared.length ≤ numCores ∧ resumeTask = true)))
  | .submitFunc _ | .submitQueryStop _ | .endShared _ | .endStop _ | .runResumeTask _ | .resumeStop _
  | .submitStart _ | .endStart _ _ => isTrue trivial

def sharedStates (count : Nat) : List PortState := List.replicate count .busyShared ++ [.ready]

/-- The state stack, and the requests it belongs to: the shared ones, those to the port stack, the stops, the
starts, the resume tasks, and the stops that are being resumed. -/
inductive Phase : CPortState → List Nat → List (Nat × StackCmd) → List Nat → List Nat → List Nat → List Nat → Prop where
  | resting (base : PortState) (rests : base = .attached ∨ base = .ready ∨ base = .stopped ∨ base = .removed) :
      Phase ⟨[base], none, none⟩ [] [] [] [] [] []
  | starting (irp : Nat) : Phase ⟨[.starting], none, none⟩ [] [] [] [irp] [] []
  | stopping (irp : Nat) : Phase ⟨[.stopping], none, none⟩ [] [] [irp] [] [] []
  | exclusive (base : PortState) (rests : base = .attached ∨ base = .ready ∨ base = .stopped) (irp : Nat)
      (cmd : StackCmd) : Phase ⟨[.busy, base], none, none⟩ [] [(irp, cmd)] [] [] [] []
  | sharing (irps : List Nat) (count : Nat) (length : irps.length = count + 1) :
      Phase ⟨.busyShared :: sharedStates count, none, none⟩ irps [] [] [] [] []
  | keeping (irps : List Nat) (count : Nat) (length : irps.length = count + 1) (kept : Nat) :
      Phase ⟨.excludePending :: .busyShared :: sharedStates count, some kept, some kept⟩ irps [] [] [] [] []
  | scheduled (kept : Nat) : Phase ⟨[.busyResume, .ready], none, none⟩ [] [] [] [] [kept] []
  | resuming (kept : Nat) : Phase ⟨[.stopResume], none, none⟩ [] [] [] [] [] [kept]

/-- What the records say. -/
structure Records (port : Port) : Prop where
  gaveBack : port.exited = port.gaveBack
  notRefused : port.refusedStops = []
  once : port.kept = port.resumed ++ port.waiting
  behind : port.early = []
  inFront : port.overtaking = []
  intact : port.raised = false

/-- What holds between two moves. -/
structure Inv (port : Port) : Prop where
  phase : Phase port.stat port.shared port.stack port.stopping port.starting port.tasks port.resuming
  records : port.Records

theorem Inv.new : Port.new.Inv :=
  ⟨.resting .attached (.inl rfl), rfl, rfl, rfl, rfl, rfl, rfl⟩

theorem Inv.orderly {port : Port} (inv : port.Inv) : port.Orderly := by
  obtain ⟨phase, records⟩ := inv
  obtain ⟨stat, shared, stack, stopping, starting, tasks, resuming, raised, exited, backs, refusedStops, kept, resumed,
    overtaking, early⟩ := port
  cases phase with
  | resting base rests =>
    exact { records with
      exclusive := fun _ => rfl
      coming := fun some => absurd rfl some
      single := fun _ _ _ _ => ⟨base, rfl⟩ }
  | starting irp =>
    exact { records with
      exclusive := fun _ => rfl
      coming := fun some => absurd rfl some
      single := fun _ _ _ _ => ⟨.starting, rfl⟩ }
  | stopping irp =>
    exact { records with
      exclusive := fun _ => rfl
      coming := fun some => absurd rfl some
      single := fun _ _ none _ => absurd none (cons_ne_nil _ _) }
  | exclusive base rests irp cmd =>
    exact { records with
      exclusive := fun _ => rfl
      coming := fun some => absurd rfl some
      single := fun _ none _ _ => absurd none (cons_ne_nil _ _) }
  | sharing irps count length =>
    have some : shared ≠ [] := ne_nil_of_length_pos (by rw [length]; exact Nat.succ_pos count)
    exact { records with
      exclusive := fun never => absurd never (by simp)
      coming := fun some => absurd rfl some
      single := fun none _ _ _ => absurd none some }
  | keeping irps count length irp =>
    have some : shared ≠ [] := ne_nil_of_length_pos (by rw [length]; exact Nat.succ_pos count)
    exact { records with
      exclusive := fun never => absurd never (by simp)
      coming := fun _ => .inl some
      single := fun none _ _ _ => absurd none some }
  | scheduled irp =>
    exact { records with
      exclusive := fun _ => rfl
      coming := fun _ => .inr (.inl (cons_ne_nil _ _))
      single := fun _ _ _ none => absurd none (cons_ne_nil _ _) }
  | resuming irp =>
    exact { records with
      exclusive := fun _ => rfl
      coming := fun _ => .inr (.inr (cons_ne_nil _ _))
      single := fun _ _ _ none => absurd none (cons_ne_nil _ _) }

/-! ### Admissions -/

section

variable {numCores irp : Nat} {stat : CPortState} {port : Port}
variable {cmd : IrpCmd}

theorem canContinue_invalid {cur new : PortState} (top : stat.top = some cur)
    (invalid : CPortState.isValidSubmit cur new = false) :
    stat.canContinue numCores irp cmd new = (.errorState, stat) := by
  rw [CPortState.canContinue, top]
  exact if_neg (by rw [invalid]; exact Bool.false_ne_true)

theorem pushState_one {checkLimit : Bool} {base new : PortState} (below : stat.states = [base]) :
    stat.pushState numCores checkLimit new = (.success, { stat with states := [new, base] }) := by
  have small : decide (numCores + 1 < stat.states.length) = false := by
    rw [below]
    exact decide_eq_false (Nat.not_lt.2 (Nat.le_add_left 1 numCores))
  rw [CPortState.pushState, small, Bool.and_false, below]
  rfl

theorem admission_of_none (none : port.waiting = []) : port.admission irp = port := if_pos none

theorem submitShared_refused
    (refused : port.stat.canContinue numCores irp cmd .busyShared = (.errorState, port.stat)) :
    port.submitShared numCores cmd irp = port := by
  rw [submitShared, refused]
  rfl

theorem submitShared_admitted {next : CPortState} (none : port.waiting = [])
    (admitted : port.stat.canContinue numCores irp cmd .busyShared = (.success, next)) :
    port.submitShared numCores cmd irp = { port with stat := next, shared := port.shared ++ [irp] } := by
  rw [submitShared, admitted, admission_of_none none]
  rfl

theorem canContinue_ready (isShared : cmd = .func ∨ cmd = .queryStop)
    (below : stat.states = [.ready]) :
    stat.canContinue numCores irp cmd .busyShared = (.success, { stat with states := [.busyShared, .ready] }) := by
  have top : stat.top = some .ready := by
    rw [CPortState.top, below]
    rfl
  rw [CPortState.canContinue, top]
  rcases isShared with isFunc | isQuery
  · rw [isFunc]
    exact @pushState_one numCores stat true .ready .busyShared below
  · rw [isQuery]
    exact @pushState_one numCores stat false .ready .busyShared below

theorem canContinue_busyShared (isShared : cmd = .func ∨ cmd = .queryStop)
    (top : stat.top = some .busyShared) :
    stat.canContinue numCores irp cmd .busyShared = (.success, { stat with states := .busyShared :: stat.states }) := by
  rw [CPortState.canContinue, top]
  rcases isShared with isFunc | isQuery
  · rw [isFunc]
    rfl
  · rw [isQuery]
    rfl

theorem Inv.submitShared (inv : port.Inv) (isShared : cmd = .func ∨ cmd = .queryStop) :
    (port.submitShared numCores cmd irp).Inv := by
  have refused : ∀ cur, port.stat.top = some cur → CPortState.isValidSubmit cur .busyShared = false →
      (port.submitShared numCores cmd irp).Inv := by
    intro cur top invalid
    rw [submitShared_refused (canContinue_invalid top invalid)]
    exact inv
  obtain ⟨phase, records⟩ := inv
  obtain ⟨stat, shared, stack, stopping, starting, tasks, resuming, raised, exited, backs, refusedStops, kept, resumed,
    overtaking, early⟩ := port
  cases phase with
  | resting base rests =>
    rcases rests with same | same | same | same
    · exact refused base rfl (by rw [same]; decide)
    · rw [submitShared_admitted rfl (canContinue_ready isShared (by rw [same]))]
      exact ⟨.sharing [irp] 0 rfl, { records with }⟩
    · exact refused base rfl (by rw [same]; decide)
    · exact refused base rfl (by rw [same]; decide)
  | starting irp => exact refused .starting rfl (by decide)
  | stopping irp => exact refused .stopping rfl (by decide)
  | exclusive base rests irp cmd => exact refused .busy rfl (by decide)
  | sharing irps count length =>
    rw [submitShared_admitted rfl (canContinue_busyShared isShared rfl)]
    refine ⟨.sharing (shared ++ [irp]) (count + 1) ?_, { records with }⟩
    rw [length_append, length]
    rfl
  | keeping irps count length irp => exact refused .excludePending rfl (by decide)
  | scheduled irp => exact refused .busyResume rfl (by decide)
  | resuming irp => exact refused .stopResume rfl (by decide)

theorem submitPortStackIrp_refused {cmd : StackCmd}
    (refused : port.stat.canContinue numCores irp (.stack cmd) .busy = (.errorState, port.stat)) :
    port.submitPortStackIrp numCores irp cmd = port := by
  rw [submitPortStackIrp, refused]
  rfl

theorem submitPortStackIrp_admitted {cmd : StackCmd} {next : CPortState} (none : port.waiting = [])
    (admitted : port.stat.canContinue numCores irp (.stack cmd) .busy = (.success, next)) :
    port.submitPortStackIrp numCores irp cmd = { port with stat := next, stack := port.stack ++ [(irp, cmd)] } := by
  rw [submitPortStackIrp, admitted, admission_of_none none]
  rfl

theorem Inv.submitPortStackIrp (inv : port.Inv) {cmd : StackCmd}
    (fits : port.Fits numCores (.submitPortStack irp cmd)) :
    (port.submitPortStackIrp numCores irp cmd).Inv := by
  have refused : port.stat.canContinue numCores irp (.stack cmd) .busy = (.errorState, port.stat) →
      (port.submitPortStackIrp numCores irp cmd).Inv := by
    intro refused
    rw [submitPortStackIrp_refused refused]
    exact inv
  obtain ⟨phase, records⟩ := inv
  obtain ⟨stat, shared, stack, stopping, starting, tasks, resuming, raised, exited, backs, refusedStops, kept, resumed,
    overtaking, early⟩ := port
  cases phase with
  | resting base rests =>
    have admitted : ∀ checkLimit, (⟨[base], none, none⟩ : CPortState).canContinue numCores irp (.stack cmd) .busy =
        (⟨[base], none, none⟩ : CPortState).pushState numCores checkLimit .busy →
        base = .attached ∨ base = .ready ∨ base = .stopped →
        Inv (Port.submitPortStackIrp numCores ⟨⟨[base], none, none⟩, [], [], [], [], [], [], raised, exited, backs,
          refusedStops, kept, resumed, overtaking, early⟩ irp cmd) := by
      intro checkLimit pushes rests
      rw [pushState_one rfl] at pushes
      rw [submitPortStackIrp_admitted rfl pushes]
      exact ⟨.exclusive base rests irp cmd, { records with }⟩
    rcases rests with same | same | same | same
    · subst same
      cases cmd with
      | built => exact admitted true rfl (.inl rfl)
      | ready => exact refused rfl
      | destroy => exact admitted false rfl (.inl rfl)
    · subst same
      cases cmd with
      | built | destroy => exact refused rfl
      | ready => exact admitted false rfl (.inr (.inl rfl))
    · subst same
      cases cmd with
      | built | ready => exact refused rfl
      | destroy => exact admitted true rfl (.inr (.inr rfl))
    · subst same
      exact refused (canContinue_invalid rfl (by decide))
  | starting | stopping | exclusive | sharing | keeping | resuming =>
    exact refused (canContinue_invalid rfl (by decide))
  | scheduled irp => exact absurd rfl fits

theorem Inv.submitStopIrp (inv : port.Inv) {resumeTask : Bool}
    (fits : port.Fits numCores (.submitStop irp resumeTask)) :
    (port.submitStopIrp numCores irp resumeTask).Inv := by
  obtain ⟨notKept, notResuming, limit⟩ := fits
  have refused : port.shared = [] → port.stat.canContinue numCores irp .stop .stopping = (.errorState, port.stat) →
      (port.submitStopIrp numCores irp resumeTask).Inv := by
    intro none refused
    have same : port.submitStopIrp numCores irp resumeTask = port := by
      rw [Port.submitStopIrp, refused]
      show ({ port with refusedStops := if port.shared = [] then _ else _ } : Port) = port
      rw [if_pos none]
    rw [same]
    exact inv
  obtain ⟨phase, records⟩ := inv
  obtain ⟨stat, shared, stack, stopping, starting, tasks, resuming, raised, exited, backs, refusedStops, kept, resumed,
    overtaking, early⟩ := port
  cases phase with
  | resting base rests =>
    rcases rests with same | same | same | same
    · subst same
      exact refused rfl (canContinue_invalid rfl (by decide))
    · subst same
      exact ⟨.stopping irp, { records with }⟩
    · subst same
      exact refused rfl (canContinue_invalid rfl (by decide))
    · subst same
      exact refused rfl (canContinue_invalid rfl (by decide))
  | starting | stopping | exclusive | scheduled => exact refused rfl (canContinue_invalid rfl (by decide))
  | sharing irps count length =>
    obtain ⟨within, task⟩ := limit rfl
    have room : decide (numCores + 1 < (PortState.busyShared :: sharedStates count).length) = false := by
      apply decide_eq_false
      have short : shared.length ≤ numCores := within
      rw [length_cons, sharedStates, length_append, length_replicate, length_singleton]
      omega
    have keeps : (⟨.busyShared :: sharedStates count, none, none⟩ : CPortState).canContinue numCores irp .stop .stopping =
        (.pending, ⟨.excludePending :: .busyShared :: sharedStates count, some irp, none⟩) := by
      show CPortState.keepIrp numCores _ irp = _
      rw [CPortState.keepIrp, CPortState.pushState, room]
      rfl
    rw [Port.submitStopIrp, keeps, task]
    refine ⟨.keeping shared count length irp, { records with once := ?_ }⟩
    show kept ++ [irp] = resumed ++ [irp]
    have before : kept = resumed ++ [] := records.once
    rw [before, append_nil]
  | keeping irps count length irp => exact absurd rfl notKept
  | resuming irp => exact absurd rfl notResuming

theorem Inv.submitStartIrp (inv : port.Inv) : (port.submitStartIrp numCores irp).Inv := by
  have refused : ∀ cur, port.stat.top = some cur → CPortState.isValidSubmit cur .starting = false →
      (port.submitStartIrp numCores irp).Inv := by
    intro cur top invalid
    have same : port.submitStartIrp numCores irp = port := by
      rw [Port.submitStartIrp, canContinue_invalid top invalid]
      rfl
    rw [same]
    exact inv
  obtain ⟨phase, records⟩ := inv
  cases port
  cases phase with
  | resting base rests =>
    rcases rests with same | same | same | same
    · subst same
      exact ⟨.starting irp, { records with }⟩
    · exact refused base rfl (by rw [same]; decide)
    · exact refused base rfl (by rw [same]; decide)
    · exact refused base rfl (by rw [same]; decide)
  | starting irp => exact refused .starting rfl (by decide)
  | stopping irp => exact refused .stopping rfl (by decide)
  | exclusive base rests irp cmd => exact refused .busy rfl (by decide)
  | sharing irps count length => exact refused .busyShared rfl (by decide)
  | keeping irps count length irp => exact refused .excludePending rfl (by decide)
  | scheduled irp => exact refused .busyResume rfl (by decide)
  | resuming irp => exact refused .stopResume rfl (by decide)

/-! ### Exits -/

theorem Inv.endShared (inv : port.Inv) (running : irp ∈ port.shared) : (port.endShared irp).Inv := by
  obtain ⟨phase, records⟩ := inv
  obtain ⟨stat, shared, stack, stopping, starting, tasks, resuming, raised, exited, backs, refusedStops, kept, resumed,
    overtaking, early⟩ := port
  have returned : exited ++ [irp] = backs ++ [irp] := congrArg (· ++ [irp]) records.gaveBack
  have fewer : (shared.erase irp).length = shared.length - 1 := length_erase_of_mem running
  cases phase with
  | resting | starting | stopping | exclusive | scheduled | resuming => exact absurd running not_mem_nil
  | sharing irps count length =>
    rw [length] at fewer
    cases count with
    | zero =>
      have none : shared.erase irp = [] := length_eq_zero_iff.1 fewer
      rw [Port.endShared, none]
      exact ⟨.resting .ready (.inr (.inl rfl)), { records with gaveBack := returned }⟩
    | succ count =>
      exact ⟨.sharing _ count fewer, { records with gaveBack := returned }⟩
  | keeping irps count length waits =>
    rw [length] at fewer
    cases count with
    | zero =>
      have none : shared.erase irp = [] := length_eq_zero_iff.1 fewer
      rw [Port.endShared, none]
      exact ⟨.scheduled waits, { records with gaveBack := returned }⟩
    | succ count =>
      exact ⟨.keeping _ count fewer waits, { records with gaveBack := returned }⟩

theorem Inv.endPortStackIrp (inv : port.Inv) {cmd : StackCmd} {exit : StackExit}
    (running : (irp, cmd) ∈ port.stack)
    (fits : port.Fits numCores (.endPortStack irp cmd exit)) :
    (port.endPortStackIrp irp cmd exit).Inv := by
  have pops : exit.popsState cmd = true := fits
  obtain ⟨phase, records⟩ := inv
  obtain ⟨stat, shared, stack, stopping, starting, tasks, resuming, raised, exited, backs, refusedStops, kept, resumed,
    overtaking, early⟩ := port
  have returned : exited ++ [irp] = backs ++ [irp] := congrArg (· ++ [irp]) records.gaveBack
  cases phase with
  | resting | starting | stopping | sharing | keeping | scheduled | resuming => exact absurd running not_mem_nil
  | exclusive base rests one minor =>
    have same : (irp, cmd) = (one, minor) := mem_singleton.1 running
    have none : [(one, minor)].erase (irp, cmd) = [] := by
      rw [same]
      exact erase_cons_head _ _
    rw [Port.endPortStackIrp, none]
    dsimp only
    rw [if_pos pops]
    cases cmd with
    | built | ready =>
      exact ⟨.resting base (rests.imp id (Or.imp id .inl)), { records with gaveBack := returned }⟩
    | destroy =>
      rcases rests with isBase | isBase | isBase
      · subst isBase
        exact ⟨.resting .attached (.inl rfl), { records with gaveBack := returned }⟩
      · subst isBase
        exact ⟨.resting .ready (.inr (.inl rfl)), { records with gaveBack := returned }⟩
      · subst isBase
        exact ⟨.resting .removed (.inr (.inr (.inr rfl))), { records with gaveBack := returned }⟩

theorem Inv.endStop (inv : port.Inv) (running : irp ∈ port.stopping) : (port.endStop irp).Inv := by
  obtain ⟨phase, records⟩ := inv
  obtain ⟨stat, shared, stack, stopping, starting, tasks, resuming, raised, exited, backs, refusedStops, kept, resumed,
    overtaking, early⟩ := port
  have returned : exited ++ [irp] = backs ++ [irp] := congrArg (· ++ [irp]) records.gaveBack
  cases phase with
  | resting | starting | exclusive | sharing | keeping | scheduled | resuming => exact absurd running not_mem_nil
  | stopping one =>
    have none : [one].erase irp = [] := by
      rw [mem_singleton.1 running]
      exact erase_cons_head _ _
    rw [Port.endStop, none]
    exact ⟨.resting .stopped (.inr (.inr (.inl rfl))), { records with gaveBack := returned }⟩

theorem Inv.runResumeTask (inv : port.Inv) (isTask : irp ∈ port.tasks) : (port.runResumeTask irp).Inv := by
  obtain ⟨phase, records⟩ := inv
  cases port
  cases phase with
  | resting | starting | stopping | exclusive | sharing | keeping | resuming => exact absurd isTask not_mem_nil
  | scheduled waits =>
    have same : irp = waits := mem_singleton.1 isTask
    subst same
    have none : [irp].erase irp = [] := erase_cons_head _ _
    rw [Port.runResumeTask, none]
    exact ⟨.resuming irp, { records with }⟩

theorem Inv.resumeStop (inv : port.Inv) (isResuming : irp ∈ port.resuming) :
    (port.resumeStop numCores irp).Inv := by
  obtain ⟨phase, records⟩ := inv
  obtain ⟨stat, shared, stack, stopping, starting, tasks, resuming, raised, exited, backs, refusedStops, kept, resumed,
    overtaking, early⟩ := port
  cases phase with
  | resting | starting | stopping | exclusive | sharing | keeping | scheduled =>
    exact absurd isResuming not_mem_nil
  | resuming waits =>
    have same : irp = waits := mem_singleton.1 isResuming
    subst same
    have none : [irp].erase irp = [] := erase_cons_head _ _
    have isResumed : kept = resumed ++ [irp] ++ [] := by
      rw [append_nil]
      exact records.once
    rw [Port.resumeStop, none]
    exact ⟨.stopping irp, { records with once := isResumed }⟩

theorem Inv.endStart (inv : port.Inv) {started : Bool} (running : irp ∈ port.starting) :
    (port.endStart irp started).Inv := by
  obtain ⟨phase, records⟩ := inv
  cases port
  cases phase with
  | resting | stopping | exclusive | sharing | keeping | scheduled | resuming => exact absurd running not_mem_nil
  | starting one =>
    have none : [one].erase irp = [] := by
      rw [mem_singleton.1 running]
      exact erase_cons_head _ _
    rw [Port.endStart, none]
    cases started with
    | true => exact ⟨.resting .ready (.inr (.inl rfl)), { records with }⟩
    | false =>
      exact ⟨.resting .stopped (.inr (.inr (.inl rfl))), { records with }⟩

theorem Inv.step (inv : port.Inv) {move : PortMove} (fits : port.Fits numCores move) {next : Port}
    (moved : port.step numCores move = some next) : next.Inv := by
  obtain ⟨_, moved⟩ := Option.ite_none_left_eq_some.1 moved
  cases move with
  | submitFunc irp =>
    cases moved
    exact inv.submitShared (.inl rfl)
  | submitQueryStop irp =>
    cases moved
    exact inv.submitShared (.inr rfl)
  | endShared irp =>
    obtain ⟨running, ⟨⟩⟩ := Option.ite_none_right_eq_some.1 moved
    exact inv.endShared running
  | submitPortStack irp cmd =>
    cases moved
    exact inv.submitPortStackIrp fits
  | endPortStack irp cmd exit =>
    obtain ⟨running, ⟨⟩⟩ := Option.ite_none_right_eq_some.1 moved
    exact inv.endPortStackIrp running fits
  | submitStop irp resumeTask =>
    cases moved
    exact inv.submitStopIrp fits
  | endStop irp =>
    obtain ⟨running, ⟨⟩⟩ := Option.ite_none_right_eq_some.1 moved
    exact inv.endStop running
  | runResumeTask irp =>
    obtain ⟨isTask, ⟨⟩⟩ := Option.ite_none_right_eq_some.1 moved
    exact inv.runResumeTask isTask
  | resumeStop irp =>
    obtain ⟨isResuming, ⟨⟩⟩ := Option.ite_none_right_eq_some.1 moved
    exact inv.resumeStop isResuming
  | submitStart irp =>
    cases moved
    exact inv.submitStartIrp
  | endStart irp started =>
    obtain ⟨running, ⟨⟩⟩ := Option.ite_none_right_eq_some.1 moved
    exact inv.endStart running

end

/-- The requests of a port pass through it in order. -/
theorem orderly_of_fits {numCores : Nat} {state : Port}
    (reached : ((port numCores).restrict (Fits numCores)).Reachable state) :
    state.Orderly := by
  have inv : state.Inv := by
    apply @Machine.Reachable.invariant _ _ _ Inv _ reached
    · exact Inv.new
    · intro port move next _ inv moved
      obtain ⟨fits, moved⟩ := Machine.restrict_step.1 moved
      exact inv.step fits moved
  exact inv.orderly

/-- A stop is kept behind two requests, resumed behind the last of them, and the port is removed. -/
theorem orderly_keptStop : ∃ state : Port, state.resumed = [5] ∧ state.Orderly := by
  have ran : (((port 2).restrict (Fits 2)).run (port 2).start
      [.submitPortStack 1 .built, .endPortStack 1 .built ⟨false, false, true, true⟩, .submitStart 2, .endStart 2 true,
        .submitFunc 3, .submitQueryStop 4, .submitStop 5 true, .submitFunc 6, .endShared 3, .endShared 4, .runResumeTask 5,
        .resumeStop 5, .endStop 5, .submitPortStack 7 .destroy, .endPortStack 7 .destroy ⟨true, false, false, false⟩]).map
      (fun state => state.resumed) = some [5] := by
    decide +kernel
  obtain ⟨state, run, resumed⟩ := Option.map_eq_some_iff.1 ran
  exact ⟨state, resumed, orderly_of_fits (Machine.Reachable.start.run run)⟩

/-- A bottom port without a registry path stays busy behind its first request. -/
theorem builtWithoutPath_keepsState : ¬∀ numCores state,
    (port numCores).Reachable state → state.Orderly := by
  intro orderly
  have ran : ((port 1).run (port 1).start
      [.submitPortStack 1 .built, .endPortStack 1 .built ⟨false, false, false, true⟩]).map
      (fun state => (state.exited, state.gaveBack)) = some ([1], []) := by
    decide +kernel
  obtain ⟨state, run, lists⟩ := Option.map_eq_some_iff.1 ran
  have gaveBack := (orderly 1 state (Machine.Reachable.start.run run)).gaveBack
  rw [(Prod.mk.inj lists).1, (Prod.mk.inj lists).2] at gaveBack
  contradiction

end Port

end RpcFrmwrk.Ipc
