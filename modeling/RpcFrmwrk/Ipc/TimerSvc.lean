import Mathlib.Algebra.Order.Ring.Nat
import Mathlib.Data.List.Nodup
import Mathlib.Data.List.Perm.Basic
import RpcFrmwrk.Combase.Status
import RpcFrmwrk.Library.Machine

/-! The timer service. Time is in microseconds and does not go back. Every call runs with the lock
of the map. The main loop ticks, and then issues the callbacks of the timers that are due; other
threads may call in between. The map is visited in any order. Owns `AddTimer`, `ResetTimer`,
`AdjustTimer`, `RemoveTimer`, `TickTimers` and `ProcessTimers` of `CTimerService`; `TimerSvc.step`,
one call, or time that passes; when the callbacks are issued, over whole runs. -/

namespace RpcFrmwrk.Ipc

open RpcFrmwrk.Library List

/-- `TIMER_ENTRY`. The timers are numbered as they are added. What was asked for is kept beside it: the
seconds, when the timer was added or last set back, and the last tick before that. -/
structure TimerEntry where
  iTimerId : Nat
  qwIntervalMs : Nat
  qwTicks : Nat
  serial : Nat
  seconds : Nat
  since : Nat
  tickBefore : Nat
deriving DecidableEq, Repr

/-- A callback with `eventTimeout`, and when it was issued. -/
structure Callback where
  timer : TimerEntry
  issued : Nat
deriving DecidableEq, Repr

/-- `m_atmTimerId`, `m_vecTimers`, `m_vecPendingTimeouts` and `m_qwTimeStamp`; the clock and its last tick;
how many timers were added, which were removed, and the callbacks. -/
structure TimerSvc where
  atmTimerId : Nat
  vecTimers : List TimerEntry
  vecPendingTimeouts : List TimerEntry
  qwTimeStamp : Nat
  now : Nat
  lastTick : Nat
  added : Nat
  removed : List Nat
  callbacks : List Callback

namespace TimerSvc

variable {svc : TimerSvc}

/-- The number of a new `TIMER_ENTRY`, and the next one. -/
def nextTimerId (iTimerId : Nat) : Nat := if iTimerId = 0x7fffffff then 1 else iTimerId + 1

/-- `dwIntervalSec * 1000`, a product of 32 bits. -/
def intervalMs (dwIntervalSec : Nat) : Nat := dwIntervalSec * 1000 % 2 ^ 32

/-- `SecToMs( iNewInterval )`: the signed product, extended to 64 bits. -/
def secToMs (iNewInterval : Nat) : Nat :=
  if iNewInterval * 1000 % 2 ^ 32 < 2 ^ 31 then iNewInterval * 1000 % 2 ^ 32
  else 2 ^ 64 - 2 ^ 32 + iNewInterval * 1000 % 2 ^ 32

def restart (svc : TimerSvc) (te : TimerEntry) : TimerEntry :=
  { te with qwTicks := 0, since := svc.now, tickBefore := svc.lastTick }

/-- `AddTimer`. A timer of the same number is replaced. -/
def addTimer (svc : TimerSvc) (dwIntervalSec : Nat) : TimerSvc :=
  { svc with
    atmTimerId := nextTimerId svc.atmTimerId
    vecTimers :=
      ⟨svc.atmTimerId, intervalMs dwIntervalSec, 0, svc.added, dwIntervalSec, svc.now, svc.lastTick⟩ ::
        svc.vecTimers.filter fun te => te.iTimerId ≠ svc.atmTimerId
    added := svc.added + 1 }

def find (svc : TimerSvc) (iTimerId : Nat) : Option TimerEntry :=
  svc.vecTimers.find? fun te => te.iTimerId = iTimerId

def update (svc : TimerSvc) (iTimerId : Nat) (change : TimerEntry → TimerEntry) : TimerSvc :=
  { svc with vecTimers := svc.vecTimers.map fun te => if te.iTimerId = iTimerId then change te else te }

/-- `ResetTimer`. -/
def resetTimer (svc : TimerSvc) (iTimerId : Nat) : Status × TimerSvc :=
  match svc.find iTimerId with
  | none => (.enoent, svc)
  | some _ => (.success, svc.update iTimerId svc.restart)

def adjust (svc : TimerSvc) (iNewInterval : Nat) (te : TimerEntry) : TimerEntry :=
  { te with
    qwIntervalMs := secToMs iNewInterval
    qwTicks := 0
    seconds := iNewInterval
    since := svc.now
    tickBefore := svc.lastTick }

/-- `AdjustTimer`. -/
def adjustTimer (svc : TimerSvc) (iTimerId : Nat) (iNewInterval : Int) : Status × TimerSvc :=
  if iNewInterval ≤ 0 then (.einval, svc)
  else
    match svc.find iTimerId with
    | none => (.enoent, svc)
    | some _ => (.success, svc.update iTimerId (svc.adjust iNewInterval.toNat))

/-- `RemoveTimer`. -/
def removeTimer (svc : TimerSvc) (iTimerId : Nat) : Status × TimerSvc :=
  match svc.find iTimerId with
  | none => (.enoent, svc)
  | some te =>
    (.success, { svc with
      vecTimers := svc.vecTimers.filter fun te => te.iTimerId ≠ iTimerId
      removed := svc.removed ++ [te.serial] })

def dwInterval (svc : TimerSvc) (qwNow : Nat) : Nat := (qwNow - svc.qwTimeStamp) / 1000 % 2 ^ 32

def tick (svc : TimerSvc) (qwNow : Nat) (te : TimerEntry) : TimerEntry :=
  { te with qwTicks := (te.qwTicks + svc.dwInterval qwNow) % 2 ^ 64 }

def due (te : TimerEntry) : Bool := te.qwIntervalMs ≤ te.qwTicks

/-- `TickTimers`. Without a timer the time stamp stays. -/
def tickTimers (svc : TimerSvc) (qwNow : Nat) : TimerSvc :=
  if svc.vecTimers = [] then { svc with lastTick := qwNow }
  else
    { svc with
      vecTimers := (svc.vecTimers.map (svc.tick qwNow)).filter fun te => !due te
      vecPendingTimeouts := svc.vecPendingTimeouts ++ (svc.vecTimers.map (svc.tick qwNow)).filter due
      qwTimeStamp := qwNow
      lastTick := qwNow }

/-- A round of `ProcessTimers`. -/
def processTimer (svc : TimerSvc) (index : Nat) : Option TimerSvc :=
  svc.vecPendingTimeouts[index]?.map fun te =>
    { svc with
      vecPendingTimeouts := svc.vecPendingTimeouts.eraseIdx index
      callbacks := svc.callbacks ++ [⟨te, svc.now⟩] }

inductive TimerCall where
  | elapse (us : Nat)
  | addTimer (dwIntervalSec : Nat)
  | resetTimer (iTimerId : Nat)
  | adjustTimer (iTimerId : Nat) (iNewInterval : Int)
  | removeTimer (iTimerId : Nat)
  | tickTimers (qwNow : Nat)
  | processTimer (index : Nat)
deriving DecidableEq, Repr

/-- The main loop ticks when all callbacks of the last tick are issued, with the time it has read before.
The arguments are `guint32` and `gint32`. -/
def step (svc : TimerSvc) : TimerCall → Option TimerSvc
  | .elapse us => some { svc with now := svc.now + us }
  | .addTimer dwIntervalSec => if dwIntervalSec < 2 ^ 32 then some (svc.addTimer dwIntervalSec) else none
  | .resetTimer iTimerId => some (svc.resetTimer iTimerId).2
  | .adjustTimer iTimerId iNewInterval =>
    if iNewInterval < 2 ^ 31 then some (svc.adjustTimer iTimerId iNewInterval).2 else none
  | .removeTimer iTimerId => some (svc.removeTimer iTimerId).2
  | .tickTimers qwNow =>
    if svc.vecPendingTimeouts = [] ∧ svc.lastTick ≤ qwNow ∧ qwNow ≤ svc.now then some (svc.tickTimers qwNow)
    else none
  | .processTimer index => svc.processTimer index

/-- The service behind `Start`. -/
def start : TimerSvc where
  atmTimerId := 1
  vecTimers := []
  vecPendingTimeouts := []
  qwTimeStamp := 0
  now := 0
  lastTick := 0
  added := 0
  removed := []
  callbacks := []

def machine : Machine TimerSvc TimerCall := ⟨start, step⟩

/-- Microseconds. -/
def usPerSec : Nat := 1000000

/-- Not earlier than the interval after the timer was set, less the part of the tick period in front
of that. -/
def InTime (call : Callback) : Prop :=
  call.timer.since + call.timer.seconds * usPerSec ≤ call.issued + (call.timer.since - call.timer.tickBefore)

instance (call : Callback) : Decidable (InTime call) := inferInstanceAs (Decidable (_ ≤ _))

structure Timely (svc : TimerSvc) : Prop where
  once : (svc.callbacks.map (·.timer.serial)).Nodup
  notRemoved : ∀ call ∈ svc.callbacks, call.timer.serial ∉ svc.removed
  inTime : ∀ call ∈ svc.callbacks, InTime call

def Fits (svc : TimerSvc) : TimerCall → Prop
  | .addTimer dwIntervalSec => dwIntervalSec * 1000 < 2 ^ 32 ∧ svc.qwTimeStamp = svc.lastTick
  | .adjustTimer _ iNewInterval => iNewInterval * 1000 < 2 ^ 32
  | _ => True

instance (svc : TimerSvc) (call : TimerCall) : Decidable (Fits svc call) := by
  cases call <;> unfold Fits <;> infer_instance

def serials (svc : TimerSvc) : List Nat :=
  svc.vecTimers.map (·.serial) ++ (svc.vecPendingTimeouts.map (·.serial) ++
    (svc.callbacks.map (·.timer.serial) ++ svc.removed))

/-- A timer in the map has ticked for the time since the tick before it was set. -/
structure Ticking (lastTick : Nat) (te : TimerEntry) : Prop where
  ordered : te.tickBefore ≤ te.since
  ticked : te.tickBefore + te.qwTicks * 1000 ≤ lastTick
  interval : te.seconds * 1000 ≤ te.qwIntervalMs

/-- The interval of a timer has passed since the tick before it was set. -/
structure Passed (now : Nat) (te : TimerEntry) : Prop where
  ordered : te.tickBefore ≤ te.since
  passed : te.tickBefore + te.seconds * usPerSec ≤ now

structure Sound (svc : TimerSvc) : Prop where
  nodup : svc.serials.Nodup
  fresh : ∀ serial ∈ svc.serials, serial < svc.added
  clock : svc.lastTick ≤ svc.now
  stamped : svc.vecTimers ≠ [] → svc.qwTimeStamp = svc.lastTick
  ticking : ∀ te ∈ svc.vecTimers, Ticking svc.lastTick te
  pending : ∀ te ∈ svc.vecPendingTimeouts, Passed svc.now te
  inTime : ∀ call ∈ svc.callbacks, InTime call

theorem Sound.timely (sound : svc.Sound) : svc.Timely := by
  have nodup := (nodup_append.1 (nodup_append.1 sound.nodup).2.1).2.1
  obtain ⟨once, _, apart⟩ := nodup_append.1 nodup
  refine ⟨once, ?_, sound.inTime⟩
  intro call member removed
  exact apart _ (mem_map_of_mem member) _ removed rfl

theorem elapse_sound (sound : svc.Sound) (us : Nat) : Sound { svc with now := svc.now + us } where
  nodup := sound.nodup
  fresh := sound.fresh
  clock := Nat.le_add_right_of_le sound.clock
  stamped := sound.stamped
  ticking := sound.ticking
  pending te member := ⟨(sound.pending te member).ordered, Nat.le_add_right_of_le (sound.pending te member).passed⟩
  inTime := sound.inTime

theorem ticking_of_restart (sound : svc.Sound) {te : TimerEntry} (ticks : te.qwTicks = 0)
    (since : te.since = svc.now) (before : te.tickBefore = svc.lastTick)
    (interval : te.seconds * 1000 ≤ te.qwIntervalMs) : Ticking svc.lastTick te := by
  have clock := sound.clock
  refine ⟨?_, ?_, interval⟩
  · rw [since, before]
    exact clock
  · rw [ticks, before, Nat.zero_mul, Nat.add_zero]

theorem addTimer_sound (sound : svc.Sound) {dwIntervalSec : Nat}
    (fits : dwIntervalSec * 1000 < 2 ^ 32) (stamped : svc.qwTimeStamp = svc.lastTick) :
    (svc.addTimer dwIntervalSec).Sound := by
  have fewer : List.Sublist
      ((svc.vecTimers.filter fun te => te.iTimerId ≠ svc.atmTimerId).map (·.serial) ++
        (svc.vecPendingTimeouts.map (·.serial) ++ (svc.callbacks.map (·.timer.serial) ++ svc.removed)))
      svc.serials := (filter_sublist.map _).append_right _
  constructor
  · apply nodup_cons.2
    refine ⟨fun member => ?_, sound.nodup.sublist fewer⟩
    exact lt_irrefl _ (sound.fresh _ (fewer.subset member))
  · intro serial member
    rcases mem_cons.1 member with rfl | before
    · exact Nat.lt_succ_self _
    · exact Nat.lt_succ_of_lt (sound.fresh serial (fewer.subset before))
  · exact sound.clock
  · exact fun _ => stamped
  · intro te member
    rcases mem_cons.1 member with rfl | before
    · exact ticking_of_restart sound rfl rfl rfl (Nat.mod_eq_of_lt fits).ge
    · exact sound.ticking te (mem_of_mem_filter before)
  · exact sound.pending
  · exact sound.inTime

theorem update_sound (sound : svc.Sound) (iTimerId : Nat) {change : TimerEntry → TimerEntry}
    (serial : ∀ te, (change te).serial = te.serial)
    (ticking : ∀ te, Ticking svc.lastTick te → Ticking svc.lastTick (change te)) :
    (svc.update iTimerId change).Sound := by
  have same : (svc.update iTimerId change).serials = svc.serials := by
    unfold serials update
    rw [map_map]
    congr 1
    apply map_congr_left
    intro te _
    rw [Function.comp_apply]
    split
    · exact serial te
    · rfl
  refine ⟨same ▸ sound.nodup, same ▸ sound.fresh, sound.clock, ?_, ?_, sound.pending, sound.inTime⟩
  · intro some
    exact sound.stamped fun none => some (by rw [update, none, map_nil])
  · intro te member
    obtain ⟨before, inMap, rfl⟩ := mem_map.1 member
    split
    · exact ticking before (sound.ticking before inMap)
    · exact sound.ticking before inMap

theorem resetTimer_sound (sound : svc.Sound) (iTimerId : Nat) : (svc.resetTimer iTimerId).2.Sound := by
  unfold resetTimer
  cases svc.find iTimerId with
  | none => exact sound
  | some _ =>
    exact update_sound sound iTimerId (fun _ => rfl) fun te ticking =>
      ticking_of_restart sound rfl rfl rfl ticking.interval

theorem adjustTimer_sound (sound : svc.Sound) (iTimerId : Nat) {iNewInterval : Int}
    (fits : iNewInterval * 1000 < 2 ^ 32) : (svc.adjustTimer iTimerId iNewInterval).2.Sound := by
  unfold adjustTimer
  split
  · exact sound
  · cases svc.find iTimerId with
    | none => exact sound
    | some _ =>
      refine update_sound sound iTimerId (fun _ => rfl) fun te _ => ticking_of_restart sound rfl rfl rfl ?_
      have small : iNewInterval.toNat * 1000 % 2 ^ 32 = iNewInterval.toNat * 1000 := Nat.mod_eq_of_lt (by omega)
      change iNewInterval.toNat * 1000 ≤ secToMs iNewInterval.toNat
      rw [secToMs, small]
      split <;> omega

theorem removeTimer_sound (sound : svc.Sound) (iTimerId : Nat) : (svc.removeTimer iTimerId).2.Sound := by
  unfold removeTimer
  cases found : svc.find iTimerId with
  | none => exact sound
  | some te =>
    have inMap : te ∈ svc.vecTimers := mem_of_find?_eq_some found
    have named : te.iTimerId = iTimerId := by simpa using List.find?_some found
    obtain ⟨timers, others, apart⟩ := nodup_append.1 sound.nodup
    have fewer : List.Sublist ((svc.vecTimers.filter fun te => te.iTimerId ≠ iTimerId).map (·.serial))
        (svc.vecTimers.map (·.serial)) := filter_sublist.map _
    have gone : te.serial ∉ (svc.vecTimers.filter fun te => te.iTimerId ≠ iTimerId).map (·.serial) := by
      intro member
      obtain ⟨other, left, same⟩ := mem_map.1 member
      obtain ⟨otherIn, differs⟩ := mem_filter.1 left
      rw [inj_on_of_nodup_map timers otherIn inMap same, named] at differs
      simp at differs
    have perm : List.Perm (serials { svc with
        vecTimers := svc.vecTimers.filter fun te => te.iTimerId ≠ iTimerId, removed := svc.removed ++ [te.serial] })
        (te.serial :: ((svc.vecTimers.filter fun te => te.iTimerId ≠ iTimerId).map (·.serial) ++
          (svc.vecPendingTimeouts.map (·.serial) ++ (svc.callbacks.map (·.timer.serial) ++ svc.removed)))) := by
      unfold serials
      simp only [← append_assoc]
      exact perm_append_singleton _ _
    have inSerials : te.serial ∈ svc.vecTimers.map (·.serial) := mem_map_of_mem inMap
    constructor
    · apply perm.nodup_iff.2
      apply nodup_cons.2
      refine ⟨?_, sound.nodup.sublist (fewer.append_right _)⟩
      rw [mem_append, not_or]
      exact ⟨gone, fun member => apart _ inSerials _ member rfl⟩
    · intro serial member
      rcases mem_cons.1 (perm.mem_iff.1 member) with rfl | before
      · exact sound.fresh _ (mem_append_left _ inSerials)
      · exact sound.fresh serial ((fewer.append_right _).subset before)
    · exact sound.clock
    · exact fun some => sound.stamped fun none => some (by simp [none])
    · exact fun te member => sound.ticking te (mem_of_mem_filter member)
    · exact sound.pending
    · exact sound.inTime

theorem tick_ticking {qwNow : Nat} (stamped : svc.qwTimeStamp = svc.lastTick)
    (later : svc.lastTick ≤ qwNow)
    {te : TimerEntry} (ticking : Ticking svc.lastTick te) : Ticking qwNow (svc.tick qwNow te) := by
  have counted : svc.dwInterval qwNow * 1000 ≤ qwNow - svc.lastTick := by
    rw [dwInterval, stamped]
    exact (Nat.mul_le_mul_right _ (Nat.mod_le _ _)).trans (Nat.div_mul_le_self _ _)
  have total : (svc.tick qwNow te).qwTicks * 1000 ≤ te.qwTicks * 1000 + svc.dwInterval qwNow * 1000 := by
    rw [← Nat.add_mul]
    exact Nat.mul_le_mul_right _ (Nat.mod_le _ _)
  refine ⟨ticking.ordered, ?_, ticking.interval⟩
  calc te.tickBefore + (svc.tick qwNow te).qwTicks * 1000
      ≤ te.tickBefore + (te.qwTicks * 1000 + svc.dwInterval qwNow * 1000) := Nat.add_le_add_left total _
    _ = te.tickBefore + te.qwTicks * 1000 + svc.dwInterval qwNow * 1000 := (Nat.add_assoc _ _ _).symm
    _ ≤ svc.lastTick + (qwNow - svc.lastTick) := Nat.add_le_add ticking.ticked counted
    _ = qwNow := Nat.add_sub_cancel' later

theorem passed_of_due {now : Nat} {te : TimerEntry} (ticking : Ticking now te)
    (isDue : due te = true) : Passed now te := by
  have reached : te.qwIntervalMs ≤ te.qwTicks := of_decide_eq_true isDue
  refine ⟨ticking.ordered, ?_⟩
  calc te.tickBefore + te.seconds * usPerSec
      = te.tickBefore + te.seconds * 1000 * 1000 := by rw [Nat.mul_assoc]; rfl
    _ ≤ te.tickBefore + te.qwTicks * 1000 :=
        Nat.add_le_add_left (Nat.mul_le_mul_right _ (ticking.interval.trans reached)) _
    _ ≤ now := ticking.ticked

theorem tickTimers_sound (sound : svc.Sound) {qwNow : Nat} (issued : svc.vecPendingTimeouts = [])
    (later : svc.lastTick ≤ qwNow) (clock : qwNow ≤ svc.now) : (svc.tickTimers qwNow).Sound := by
  unfold tickTimers
  by_cases none : svc.vecTimers = []
  · rw [if_pos none]
    refine ⟨sound.nodup, sound.fresh, clock, fun some => absurd none some, ?_, sound.pending, sound.inTime⟩
    intro te member
    rw [none] at member
    exact absurd member not_mem_nil
  · rw [if_neg none]
    have ticking : ∀ te ∈ svc.vecTimers.map (svc.tick qwNow), Ticking qwNow te := by
      intro te member
      obtain ⟨before, inMap, rfl⟩ := mem_map.1 member
      exact tick_ticking (sound.stamped none) later (sound.ticking before inMap)
    have same : (svc.vecTimers.map (svc.tick qwNow)).map (·.serial) = svc.vecTimers.map (·.serial) := by
      rw [map_map]
      rfl
    generalize svc.vecTimers.map (svc.tick qwNow) = ticked at ticking same
    have perm : List.Perm (serials { svc with
        vecTimers := ticked.filter fun te => !due te
        vecPendingTimeouts := svc.vecPendingTimeouts ++ ticked.filter due
        qwTimeStamp := qwNow
        lastTick := qwNow }) svc.serials := by
      have parts : List.Perm ((ticked.filter fun te => !due te).map (·.serial) ++ (ticked.filter due).map (·.serial))
          (svc.vecTimers.map (·.serial)) := by
        rw [← same, ← map_append]
        exact (perm_append_comm.trans (filter_append_perm due ticked)).map _
      unfold serials
      simp only [issued, nil_append, map_nil, ← append_assoc]
      exact (parts.append_right _).append_right _
    refine ⟨perm.nodup_iff.2 sound.nodup, fun serial member => sound.fresh serial (perm.mem_iff.1 member), clock,
      fun _ => rfl, fun te member => ticking te (mem_of_mem_filter member), ?_, sound.inTime⟩
    intro te member
    rcases mem_append.1 member with before | isDue
    · exact sound.pending te before
    · obtain ⟨inTicked, isDue⟩ := mem_filter.1 isDue
      have passed := passed_of_due (ticking te inTicked) isDue
      exact ⟨passed.ordered, passed.passed.trans clock⟩

theorem processTimer_sound {next : TimerSvc} (sound : svc.Sound) {index : Nat}
    (moved : svc.processTimer index = some next) : next.Sound := by
  obtain ⟨te, found, rfl⟩ := Option.map_eq_some_iff.1 moved
  obtain ⟨inside, rfl⟩ := List.getElem?_eq_some_iff.1 found
  have parts := getElem_cons_eraseIdx_perm inside
  have perm : List.Perm (serials { svc with
      vecPendingTimeouts := svc.vecPendingTimeouts.eraseIdx index
      callbacks := svc.callbacks ++ [⟨svc.vecPendingTimeouts[index], svc.now⟩] }) svc.serials := by
    unfold serials
    apply List.Perm.append_left
    have issued : List.Perm ((svc.vecPendingTimeouts.eraseIdx index).map (·.serial) ++
        [svc.vecPendingTimeouts[index].serial]) (svc.vecPendingTimeouts.map (·.serial)) :=
      (perm_append_singleton _ _).trans (parts.map TimerEntry.serial)
    rw [map_append]
    change List.Perm (_ ++ (_ ++ [svc.vecPendingTimeouts[index].serial] ++ _)) _
    have front : List.Perm (svc.callbacks.map (·.timer.serial) ++ [svc.vecPendingTimeouts[index].serial])
        ([svc.vecPendingTimeouts[index].serial] ++ svc.callbacks.map (·.timer.serial)) := perm_append_comm
    refine ((front.append_right _).append_left _).trans ?_
    rw [append_assoc, ← append_assoc]
    exact issued.append_right _
  have passed : ∀ te ∈ svc.vecPendingTimeouts.eraseIdx index, Passed svc.now te := fun te member =>
    sound.pending te (mem_of_mem_eraseIdx member)
  refine ⟨perm.nodup_iff.2 sound.nodup, fun serial member => sound.fresh serial (perm.mem_iff.1 member), sound.clock,
    sound.stamped, sound.ticking, passed, ?_⟩
  intro call member
  rcases mem_append.1 member with before | last
  · exact sound.inTime call before
  · rw [mem_singleton.1 last]
    have due := sound.pending _ (getElem_mem inside)
    have ordered := due.ordered
    have whole := due.passed
    unfold InTime
    simp only
    omega

theorem step_sound {next : TimerSvc} {call : TimerCall} (sound : svc.Sound) (fits : Fits svc call)
    (moved : svc.step call = some next) : next.Sound := by
  cases call with
  | elapse us =>
    cases moved
    exact elapse_sound sound us
  | addTimer dwIntervalSec =>
    rw [step, Option.ite_none_right_eq_some] at moved
    cases moved.2
    exact addTimer_sound sound fits.1 fits.2
  | resetTimer iTimerId =>
    cases moved
    exact resetTimer_sound sound iTimerId
  | adjustTimer iTimerId iNewInterval =>
    rw [step, Option.ite_none_right_eq_some] at moved
    cases moved.2
    exact adjustTimer_sound sound iTimerId fits
  | removeTimer iTimerId =>
    cases moved
    exact removeTimer_sound sound iTimerId
  | tickTimers qwNow =>
    rw [step, Option.ite_none_right_eq_some] at moved
    obtain ⟨⟨issued, later, clock⟩, ⟨⟩⟩ := moved
    exact tickTimers_sound sound issued later clock
  | processTimer index => exact processTimer_sound sound moved

theorem start_sound : start.Sound where
  nodup := nodup_nil
  fresh := by simp [serials, start]
  clock := le_refl _
  stamped none := absurd rfl none
  ticking := by simp [start]
  pending := by simp [start]
  inTime := by simp [start]

/-- In every run in which no timer is added behind an idle tick and no interval is too long for 32 bits
of milliseconds, the callbacks are issued once, in time, and not of removed timers. -/
theorem timely_of_fits {svc : TimerSvc}
    (reachable : (machine.restrict Fits).Reachable svc) : svc.Timely := by
  have sound : svc.Sound := reachable.invariant start_sound fun _ _ _ _ sound moved =>
    step_sound sound (Machine.restrict_step.1 moved).1 (Machine.restrict_step.1 moved).2
  exact sound.timely

/-- A timer of five seconds is issued when they have passed. -/
theorem timely_fiveSeconds : ∃ svc, (machine.restrict Fits).Reachable svc ∧
    svc.callbacks.map (fun call => (call.timer.serial, call.issued)) = [(0, 5000000)] ∧ svc.Timely := by
  have ran : ((machine.restrict Fits).run start
      [.addTimer 5, .elapse 5000000, .tickTimers 5000000, .processTimer 0]).map
      (fun svc => svc.callbacks.map fun call => (call.timer.serial, call.issued)) = some [(0, 5000000)] := by
    decide +kernel
  obtain ⟨svc, ran, issued⟩ := Option.map_eq_some_iff.1 ran
  exact ⟨svc, Machine.Reachable.start.run ran, issued, timely_of_fits (Machine.Reachable.start.run ran)⟩

/-- Behind ten idle seconds it is issued with the next tick. -/
theorem addedIdle_issuedEarly : ¬ ∀ svc, machine.Reachable svc → svc.Timely := by
  intro timely
  have ran : (machine.run start [.elapse 10000000, .tickTimers 10000000, .addTimer 5, .elapse 500000,
      .tickTimers 10500000, .processTimer 0]).map (·.callbacks) =
      some [⟨⟨1, 5000, 10500, 0, 5, 10000000, 10000000⟩, 10500000⟩] := by
    decide +kernel
  obtain ⟨svc, ran, issued⟩ := Option.map_eq_some_iff.1 ran
  have inTime := (timely svc (Machine.Reachable.start.run ran)).inTime
  rw [issued] at inTime
  exact absurd (inTime _ mem_cons_self) (by decide)

end TimerSvc

end RpcFrmwrk.Ipc
