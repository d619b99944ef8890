import Mathlib.Data.List.Nodup
import RpcFrmwrk.Library.EvenShare
import RpcFrmwrk.Rpc.TaskSched

/-! The slots of a connection over whole sequences of calls. Owns `ConnQue.Fair`, what the lists and
the limits of a connection add up to; one lemma for each slot limit helper, and for the search for
the next group; the sequences of calls that keep every connection fair. -/

namespace RpcFrmwrk.Rpc

open RpcFrmwrk.Library List Function

/-- Every group of a connection is in one list. The groups that wait have no slot, and
there are more groups than slots while one waits. The slots are shared evenly among the
ready groups, up to `RFC_MAX_REQS` each. -/
structure ConnQue.Fair (table : GrpTable) (ocq : ConnQue) : Prop where
  once : (ocq.waitSlot ++ ocq.ready).Nodup ∧ ocq.nextSched = []
  held : ∀ grp ∈ ocq.waitSlot, (table grp).maxRunning = 0
  even : ∀ grp ∈ ocq.ready, ∀ other ∈ ocq.ready,
    (table grp).maxRunning ≤ (table other).maxRunning + 1
  all : ocq.taskGrpCount ≠ 0 →
    (ocq.ready.map fun grp => (table grp).maxRunning).sum =
      min ocq.maxSlots.toNat (rfcMaxReqs * ocq.taskGrpCount)
  scarce : ocq.waitSlot ≠ [] → ocq.maxSlots.toNat < ocq.taskGrpCount

/-- `SetLimit` works on the group. -/
def TaskGrp.Accepts (grp : TaskGrp) : Prop :=
  grp.maxPending ≠ 0 ∧ grp.stopped = false

def limits (table : GrpTable) (grps : List Nat) : List Nat :=
  grps.map fun grp => (table grp).maxRunning

/-- The groups of a connection while some are taken out. -/
structure ConnQue.Loose (table : GrpTable) (ocq : ConnQue) : Prop where
  once : (ocq.waitSlot ++ ocq.ready).Nodup
  unused : ocq.nextSched = []
  held : ∀ grp ∈ ocq.waitSlot, (table grp).maxRunning = 0
  accepts : ∀ grp ∈ ocq.waitSlot ++ ocq.ready, (table grp).Accepts
  capped : ∀ grp ∈ ocq.ready, (table grp).maxRunning ≤ rfcMaxReqs
  fits : ocq.ready.length ≤ ocq.maxSlots.toNat
  single : ocq.maxSlots.toNat < ocq.taskGrpCount → ∀ grp ∈ ocq.ready, (table grp).maxRunning = 1

/-- The limits of the ready groups are an even share of the slots, in some order; while a
group waits there is one ready group for each slot. -/
structure ConnQue.Shared (table : GrpTable) (ocq : ConnQue) : Prop extends ConnQue.Loose table ocq where
  share : (limits table ocq.ready).Perm (evenShare rfcMaxReqs ocq.maxSlots.toNat ocq.ready.length)
  full : ocq.waitSlot ≠ [] → ocq.ready.length = ocq.maxSlots.toNat

namespace TaskGrp

variable {grp : TaskGrp}

theorem Accepts.setMaxRunning (accepts : grp.Accepts) (maxRunning : Nat) :
    (grp.setMaxRunning maxRunning).Accepts := by
  rw [TaskGrp.setMaxRunning, setLimit, if_neg accepts.1, accepts.2]
  refine ⟨?_, rfl⟩
  have some := accepts.1
  show min grp.maxPending rfcMaxPendings ≠ 0
  rw [rfcMaxPendings]
  omega

theorem Accepts.maxRunning_setMaxRunning (accepts : grp.Accepts) (maxRunning : Nat) :
    (grp.setMaxRunning maxRunning).maxRunning = min rfcMaxReqs maxRunning := by
  rw [TaskGrp.setMaxRunning, setLimit, if_neg accepts.1, accepts.2]
  exact Nat.min_comm _ _

end TaskGrp

theorem forGrps_of_notMem (table : GrpTable) (change : TaskGrp → TaskGrp) {grps : List Nat}
    {grp : Nat}
    (out : grp ∉ grps) : forGrps table change grps grp = table grp := by
  induction grps generalizing table with
  | nil => rfl
  | cons head rest ih =>
    rw [mem_cons, not_or] at out
    rw [forGrps, ih _ out.2, update_of_ne out.1]

theorem forGrps_of_mem (table : GrpTable) (change : TaskGrp → TaskGrp) {grps : List Nat} {grp : Nat}
    (once : grps.Nodup) (member : grp ∈ grps) :
    forGrps table change grps grp = change (table grp) := by
  induction grps generalizing table with
  | nil => cases member
  | cons head rest ih =>
    rw [nodup_cons] at once
    rw [forGrps]
    rcases mem_cons.1 member with rfl | later
    · rw [forGrps_of_notMem _ _ once.1, update_self]
    · have apart : grp ≠ head := fun equal => once.1 (equal ▸ later)
      rw [ih _ once.2 later, update_of_ne apart]

theorem limits_congr {table other : GrpTable} {grps : List Nat}
    (same : ∀ grp ∈ grps, (table grp).maxRunning = (other grp).maxRunning) :
    limits table grps = limits other grps :=
  map_congr_left same

theorem limits_eq_replicate {table : GrpTable} {grps : List Nat} {limit : Nat}
    (same : ∀ grp ∈ grps, (table grp).maxRunning = limit) :
    limits table grps = List.replicate grps.length limit := by
  rw [eq_replicate_iff, limits, length_map]
  refine ⟨rfl, fun share member => ?_⟩
  obtain ⟨grp, listed, rfl⟩ := mem_map.1 member
  exact same grp listed

namespace ConnQue

variable {table : GrpTable} {ocq : ConnQue}

theorem Loose.taskGrpCount (loose : ocq.Loose table) :
    ocq.taskGrpCount = ocq.waitSlot.length + ocq.ready.length := by
  rw [ConnQue.taskGrpCount, loose.unused]
  rfl

theorem Shared.ready_of_waits (shared : ocq.Shared table) (waits : ocq.waitSlot ≠ []) :
    ocq.maxSlots.toNat < ocq.taskGrpCount := by
  rw [shared.taskGrpCount, ← shared.full waits]
  have some := length_pos_iff.2 waits
  omega

theorem Shared.fair (shared : ocq.Shared table) : ocq.Fair table := by
  refine ⟨⟨shared.once, shared.unused⟩, shared.held, fun grp one other two => ?_, fun some => ?_,
    shared.ready_of_waits⟩
  · have given {one : Nat} (ready : one ∈ ocq.ready) :
        (table one).maxRunning ∈ evenShare rfcMaxReqs ocq.maxSlots.toNat ocq.ready.length :=
      shared.share.mem_iff.1 (mem_map_of_mem ready)
    exact evenShare_le_succ (given one) (given two)
  · show (limits table ocq.ready).sum = _
    rw [shared.share.sum_nat]
    by_cases waits : ocq.waitSlot = []
    · have count : ocq.taskGrpCount = ocq.ready.length := by
        rw [shared.taskGrpCount, waits, length_nil, Nat.zero_add]
      rw [count] at some ⊢
      exact sum_evenShare rfcMaxReqs ocq.maxSlots.toNat (Nat.pos_of_ne_zero some)
    · have scarce := shared.ready_of_waits waits
      rw [shared.full waits, evenShare_self (by decide), sum_replicate_nat, rfcMaxReqs]
      omega

theorem Shared.of_share (once : (ocq.waitSlot ++ ocq.ready).Nodup) (unused : ocq.nextSched = [])
    (held : ∀ grp ∈ ocq.waitSlot, (table grp).maxRunning = 0)
    (accepts : ∀ grp ∈ ocq.waitSlot ++ ocq.ready, (table grp).Accepts)
    (fits : ocq.ready.length ≤ ocq.maxSlots.toNat)
    (share : (limits table ocq.ready).Perm (evenShare rfcMaxReqs ocq.maxSlots.toNat ocq.ready.length))
    (full : ocq.waitSlot ≠ [] → ocq.ready.length = ocq.maxSlots.toNat) : ocq.Shared table := by
  have given {grp : Nat} (ready : grp ∈ ocq.ready) :
      (table grp).maxRunning ∈ evenShare rfcMaxReqs ocq.maxSlots.toNat ocq.ready.length :=
    share.mem_iff.1 (mem_map_of_mem ready)
  refine ⟨⟨once, unused, held, accepts, fun grp ready => ?_, fits, fun scarce grp ready => ?_⟩, share, full⟩
  · rcases mem_evenShare (given ready) with capped | capped
    · exact capped ▸ Nat.min_le_left _ _
    · exact capped ▸ Nat.min_le_left _ _
  · have waits : ocq.waitSlot ≠ [] := by
      intro none
      rw [ConnQue.taskGrpCount, none, unused] at scarce
      simp only [length_nil, Nat.zero_add] at scarce
      omega
    have one := given ready
    rw [full waits, evenShare_self (by decide)] at one
    exact eq_of_mem_replicate one

theorem share_of_single (whole : ocq.ready.length = ocq.maxSlots.toNat)
    (single : ∀ grp ∈ ocq.ready, (table grp).maxRunning = 1) :
    (limits table ocq.ready).Perm (evenShare rfcMaxReqs ocq.maxSlots.toNat ocq.ready.length) := by
  rw [whole, evenShare_self (by decide), limits_eq_replicate single, whole]

theorem Loose.congr (loose : ocq.Loose table) {other : GrpTable}
    (same : ∀ grp ∈ ocq.waitSlot ++ ocq.ready, (other grp).maxRunning = (table grp).maxRunning ∧
      ((table grp).Accepts → (other grp).Accepts)) : ocq.Loose other := by
  have ready {grp : Nat} (member : grp ∈ ocq.ready) :=
    same grp (mem_append_right _ member)
  refine ⟨loose.once, loose.unused, fun grp member => ?_, fun grp member => ?_, fun grp member => ?_,
    loose.fits, fun scarce grp member => ?_⟩
  · rw [(same grp (mem_append_left _ member)).1]
    exact loose.held grp member
  · exact (same grp member).2 (loose.accepts grp member)
  · rw [(ready member).1]
    exact loose.capped grp member
  · rw [(ready member).1]
    exact loose.single scarce grp member

theorem Shared.congr (shared : ocq.Shared table) {other : GrpTable}
    (same : ∀ grp ∈ ocq.waitSlot ++ ocq.ready, (other grp).maxRunning = (table grp).maxRunning ∧
      ((table grp).Accepts → (other grp).Accepts)) : ocq.Shared other := by
  refine ⟨shared.toLoose.congr same, ?_, shared.full⟩
  have equal : limits other ocq.ready = limits table ocq.ready :=
    limits_congr fun grp member => (same grp (mem_append_right _ member)).1
  rw [equal]
  exact shared.share

theorem Shared.perm (shared : ocq.Shared table) {waitSlot ready : List Nat}
    (waits : waitSlot.Perm ocq.waitSlot) (turned : ready.Perm ocq.ready) :
    ({ ocq with waitSlot := waitSlot, ready := ready } : ConnQue).Shared table := by
  refine .of_share ((waits.append turned).nodup_iff.2 shared.once) shared.unused
    (fun grp member => shared.held grp (waits.mem_iff.1 member))
    (fun grp member => shared.accepts grp ((waits.append turned).mem_iff.1 member)) ?_ ?_ ?_
  · exact turned.length_eq ▸ shared.fits
  · show (limits table ready).Perm (evenShare _ _ ready.length)
    rw [turned.length_eq]
    exact (turned.map _).trans shared.share
  · show waitSlot ≠ [] → ready.length = _
    rw [turned.length_eq]
    exact fun some => shared.full fun none => some (perm_nil.1 (none ▸ waits))

end ConnQue

/-! ### The slot limit helpers -/

section

variable {table : GrpTable} {ocq : ConnQue}

theorem average_le {total count : Nat} (average : total / count ≠ 0) : count ≤ total := by
  by_contra few
  exact average (Nat.div_eq_of_lt (by omega))

theorem setLimitRunningGrps_spec {newLimit : Nat} (some : newLimit ≠ 0) (once : ocq.ready.Nodup)
    (accepts : ∀ grp ∈ ocq.ready, (table grp).Accepts)
    (capped : ∀ grp ∈ ocq.ready, (table grp).maxRunning ≤ rfcMaxReqs) :
    ∃ next, setLimitRunningGrps table ocq newLimit = (next, ocq) ∧
      (∀ grp ∈ ocq.ready, (next grp).maxRunning = min rfcMaxReqs newLimit ∧ (next grp).Accepts) ∧
      ∀ grp, grp ∉ ocq.ready → next grp = table grp := by
  rw [setLimitRunningGrps, if_neg fun both => some both.1]
  refine ⟨_, rfl, fun grp ready => ?_, fun grp out => forGrps_of_notMem table _ out⟩
  rw [forGrps_of_mem table _ once ready]
  split
  · next already =>
      have below := capped grp ready
      refine ⟨?_, accepts grp ready⟩
      rw [← already, Nat.min_eq_right below]
  · exact ⟨(accepts grp ready).maxRunning_setMaxRunning newLimit, (accepts grp ready).setMaxRunning newLimit⟩

theorem setLimitGrps_spec {newLimit : Nat} (some : newLimit ≠ 0) (loose : ocq.Loose table) :
    ∃ next, setLimitGrps table ocq newLimit =
        (next, { ocq with waitSlot := [], ready := ocq.ready ++ ocq.waitSlot }) ∧
      (∀ grp ∈ ocq.waitSlot ++ ocq.ready,
        (next grp).maxRunning = min rfcMaxReqs newLimit ∧ (next grp).Accepts) ∧
      ∀ grp, grp ∉ ocq.waitSlot ++ ocq.ready → next grp = table grp := by
  obtain ⟨waitOnce, readyOnce, apart⟩ := nodup_append.1 loose.once
  obtain ⟨limited, done, set, kept⟩ := setLimitRunningGrps_spec some
    readyOnce (fun grp ready => loose.accepts grp (mem_append_right _ ready)) loose.capped
  rw [setLimitGrps, done]
  simp only
  rw [if_neg some]
  refine ⟨_, rfl, fun grp member => ?_, fun grp out => ?_⟩
  · rcases mem_append.1 member with waits | ready
    · have elsewhere : grp ∉ ocq.ready := fun ready => apart grp waits grp ready rfl
      have accepts : (limited grp).Accepts := by
        rw [kept grp elsewhere]
        exact loose.accepts grp member
      rw [forGrps_of_mem _ _ waitOnce waits]
      exact ⟨accepts.maxRunning_setMaxRunning newLimit, accepts.setMaxRunning newLimit⟩
    · have elsewhere : grp ∉ ocq.waitSlot := fun waits => apart grp waits grp ready rfl
      rw [forGrps_of_notMem _ _ elsewhere]
      exact set grp ready
  · rw [mem_append, not_or] at out
    rw [forGrps_of_notMem _ _ out.1, kept grp out.2]

theorem incRunningGrps_spec {total : Nat} (some : 0 < ocq.ready.length) (once : ocq.ready.Nodup)
    (average : ∀ grp ∈ ocq.ready,
      (table grp).maxRunning = min rfcMaxReqs (total / ocq.ready.length) ∧ (table grp).Accepts) :
    let next := incRunningGrps table ocq (total - total / ocq.ready.length * ocq.ready.length)
    limits next ocq.ready = evenShare rfcMaxReqs total ocq.ready.length ∧
      (∀ grp ∈ ocq.ready, (next grp).Accepts) ∧ ∀ grp, grp ∉ ocq.ready → next grp = table grp := by
  have modulo : total - total / ocq.ready.length * ocq.ready.length = total % ocq.ready.length := by
    have whole := Nat.div_add_mod total ocq.ready.length
    rw [Nat.mul_comm] at whole
    omega
  rw [modulo]
  have firstOnce : (ocq.ready.take (total % ocq.ready.length)).Nodup :=
    (take_sublist _ _).nodup once
  refine ⟨?_, fun grp ready => ?_, fun grp out => ?_⟩
  · have first : ∀ grp ∈ ocq.ready.take (total % ocq.ready.length),
        (incRunningGrps table ocq (total % ocq.ready.length) grp).maxRunning =
          min rfcMaxReqs ((table grp).maxRunning + 1) := by
      intro grp member
      obtain ⟨limit, accepts⟩ := average grp (mem_of_mem_take member)
      have small : (table grp).maxRunning + 1 < 4294967296 := by
        rw [limit, rfcMaxReqs]
        omega
      rw [incRunningGrps, forGrps_of_mem _ _ firstOnce member, accepts.maxRunning_setMaxRunning,
        Nat.mod_eq_of_lt small]
    have later : ∀ grp ∈ ocq.ready.drop (total % ocq.ready.length),
        (incRunningGrps table ocq (total % ocq.ready.length) grp).maxRunning = (table grp).maxRunning := by
      intro grp member
      have out : grp ∉ ocq.ready.take (total % ocq.ready.length) := by
        intro both
        exact disjoint_take_drop once (Nat.le_refl _) both member
      rw [incRunningGrps, forGrps_of_notMem _ _ out]
    have before : limits table ocq.ready =
        List.replicate ocq.ready.length (min rfcMaxReqs (total / ocq.ready.length)) :=
      limits_eq_replicate fun grp ready => (average grp ready).1
    have cut (limited : GrpTable) : limits limited ocq.ready =
        limits limited (ocq.ready.take (total % ocq.ready.length)) ++
          limits limited (ocq.ready.drop (total % ocq.ready.length)) := by
      rw [limits, limits, limits, ← map_append, take_append_drop]
    rw [evenShare_of_average some, ← before, limits.eq_1 table, ← map_take, ← map_drop,
      map_map, cut, limits, limits, map_congr_left first, map_congr_left later]
    rfl
  · obtain ⟨limit, accepts⟩ := average grp ready
    rw [incRunningGrps]
    by_cases member : grp ∈ ocq.ready.take (total % ocq.ready.length)
    · rw [forGrps_of_mem _ _ firstOnce member]
      exact accepts.setMaxRunning _
    · rw [forGrps_of_notMem _ _ member]
      exact accepts
  · rw [incRunningGrps, forGrps_of_notMem _ _ fun member => out (mem_of_mem_take member)]

theorem pickPending_spec (table : GrpTable) (count : Nat) (waitSlot : List Nat) :
    ∃ picked left, pickPending table count waitSlot = (picked, left) ∧
      (picked ++ left).Perm waitSlot ∧ picked.length ≤ count := by
  induction waitSlot generalizing count with
  | nil => cases count <;> exact ⟨[], [], rfl, .refl _, Nat.zero_le _⟩
  | cons grp rest ih =>
    cases count with
    | zero => exact ⟨[], grp :: rest, rfl, .refl _, Nat.le_refl _⟩
    | succ count =>
      rw [pickPending]
      split
      · obtain ⟨picked, left, found, perm, few⟩ := ih count
        rw [found]
        exact ⟨grp :: picked, left, rfl, perm.cons grp, Nat.succ_le_succ few⟩
      · obtain ⟨picked, left, found, perm, few⟩ := ih (count + 1)
        rw [found]
        exact ⟨picked, grp :: left, rfl, perm_middle.trans (perm.cons grp), few⟩

theorem incWaitingGrp_spec (loose : ocq.Loose table) (count : Nat) :
    ∃ next chosen left,
      incWaitingGrp table ocq count = (next, { ocq with waitSlot := left, ready := ocq.ready ++ chosen }) ∧
      (chosen ++ left).Perm ocq.waitSlot ∧ chosen.length = min count ocq.waitSlot.length ∧
      (∀ grp ∈ chosen, (next grp).maxRunning = 1 ∧ (next grp).Accepts) ∧
      ∀ grp, grp ∉ chosen → next grp = table grp := by
  rw [incWaitingGrp]
  by_cases none : count = 0
  · rw [if_pos none]
    refine ⟨table, [], ocq.waitSlot, ?_, .refl _, ?_, nofun, fun _ _ => rfl⟩
    · rw [append_nil]
    · rw [none, Nat.zero_min]
      rfl
  · rw [if_neg none]
    obtain ⟨picked, left, found, perm, few⟩ :=
      pickPending_spec table (min count ocq.waitSlot.length) ocq.waitSlot
    rw [found]
    simp only
    have split : ((picked ++ left.take (count - picked.length)) ++
        left.drop (count - picked.length)).Perm ocq.waitSlot := by
      rw [append_assoc, take_append_drop]
      exact perm
    have once : (picked ++ left.take (count - picked.length)).Nodup := by
      have whole := split.nodup_iff.2 (nodup_append.1 loose.once).1
      exact (nodup_append.1 whole).1
    obtain ⟨pickedOnce, moreOnce, apart⟩ := nodup_append.1 once
    have accepts {grp : Nat} (member : grp ∈ picked ++ left.take (count - picked.length)) :
        (table grp).Accepts :=
      loose.accepts grp (mem_append_left _ (split.mem_iff.1 (mem_append_left _ member)))
    rw [append_assoc]
    refine ⟨_, picked ++ left.take (count - picked.length), left.drop (count - picked.length), rfl, split,
      ?_, fun grp member => ?_, fun grp out => ?_⟩
    · have length := perm.length_eq
      rw [length_append] at length
      rw [length_append, length_take]
      omega
    · rcases mem_append.1 member with first | second
      · have elsewhere : grp ∉ left.take (count - picked.length) :=
          fun second => apart grp first grp second rfl
        rw [forGrps_of_notMem _ _ elsewhere, forGrps_of_mem _ _ pickedOnce first]
        exact ⟨(accepts member).maxRunning_setMaxRunning 1, (accepts member).setMaxRunning 1⟩
      · have elsewhere : grp ∉ picked := fun first => apart grp first grp second rfl
        rw [forGrps_of_mem _ _ moreOnce second, forGrps_of_notMem _ _ elsewhere]
        exact ⟨(accepts member).maxRunning_setMaxRunning 1, (accepts member).setMaxRunning 1⟩
    · rw [mem_append, not_or] at out
      rw [forGrps_of_notMem _ _ out.2, forGrps_of_notMem _ _ out.1]

end

/-! ### The calls, for one connection -/

/-- A connection is fair, with no other groups than those listed; the other groups did not
change. -/
structure SharedAgain (table : GrpTable) (grps : List Nat) (changed : GrpTable × ConnQue) : Prop where
  shared : changed.2.Shared changed.1
  within : ∀ grp ∈ changed.2.waitSlot ++ changed.2.ready, grp ∈ grps
  frame : ∀ grp, grp ∉ grps → changed.1 grp = table grp

section

variable {table : GrpTable} {ocq : ConnQue}

theorem SharedAgain.mono {grps more : List Nat} {changed : GrpTable × ConnQue}
    (again : SharedAgain table grps changed) (wider : ∀ grp ∈ grps, grp ∈ more) :
    SharedAgain table more changed :=
  ⟨again.shared, fun grp member => wider grp (again.within grp member),
    fun grp out => again.frame grp fun member => out (wider grp member)⟩

theorem SharedAgain.of_spread (loose : ocq.Loose table) (none : ocq.waitSlot = [])
    (some : 0 < ocq.ready.length)
    (average : ∀ grp ∈ ocq.ready,
      (table grp).maxRunning = min rfcMaxReqs (ocq.maxSlots.toNat / ocq.ready.length) ∧ (table grp).Accepts) :
    SharedAgain table ocq.ready
      (incRunningGrps table ocq (ocq.maxSlots.toNat - ocq.maxSlots.toNat / ocq.ready.length * ocq.ready.length), ocq) := by
  have once := (nodup_append.1 loose.once).2.1
  obtain ⟨share, accepts, kept⟩ := incRunningGrps_spec some once average
  refine ⟨.of_share loose.once loose.unused ?_ ?_ loose.fits (.of_eq share) fun waits => absurd none waits,
    fun grp member => ?_, kept⟩
  · rw [none]
    exact nofun
  · rw [none]
    exact accepts
  · rw [none] at member
    exact member

theorem spreadRunning_spec (loose : ocq.Loose table) (none : ocq.waitSlot = [])
    (average : ocq.maxSlots.toNat / ocq.ready.length ≠ 0) :
    let limited := setLimitRunningGrps table ocq (ocq.maxSlots.toNat / ocq.ready.length)
    SharedAgain table ocq.ready
      (incRunningGrps limited.1 limited.2
        (ocq.maxSlots.toNat - ocq.maxSlots.toNat / ocq.ready.length * ocq.ready.length), limited.2) := by
  have some : 0 < ocq.ready.length := by
    by_contra empty
    rw [Nat.eq_zero_of_not_pos empty, Nat.div_zero] at average
    exact average rfl
  have once := (nodup_append.1 loose.once).2.1
  obtain ⟨limited, done, set, kept⟩ := setLimitRunningGrps_spec average once
    (fun grp ready => loose.accepts grp (mem_append_right _ ready)) loose.capped
  simp only
  rw [done]
  have again : ocq.Loose limited := by
    refine ⟨loose.once, loose.unused, ?_, fun grp member => ?_, fun grp ready => ?_, loose.fits,
      fun scarce => ?_⟩
    · rw [none]
      exact nofun
    · rw [none] at member
      exact (set grp member).2
    · rw [(set grp ready).1]
      exact Nat.min_le_left _ _
    · rw [loose.taskGrpCount, none, length_nil, Nat.zero_add] at scarce
      exact absurd loose.fits (Nat.not_le.2 scarce)
  have spread := SharedAgain.of_spread again none some set
  exact ⟨spread.shared, spread.within, fun grp out => (spread.frame grp out).trans (kept grp out)⟩

theorem spreadAll_spec (loose : ocq.Loose table)
    (average : ocq.maxSlots.toNat / ocq.taskGrpCount ≠ 0) :
    let limited := setLimitGrps table ocq (ocq.maxSlots.toNat / ocq.taskGrpCount)
    SharedAgain table (ocq.waitSlot ++ ocq.ready)
      (incRunningGrps limited.1 limited.2
        (ocq.maxSlots.toNat - ocq.maxSlots.toNat / ocq.taskGrpCount * ocq.taskGrpCount), limited.2) := by
  have count : ocq.taskGrpCount = (ocq.ready ++ ocq.waitSlot).length := by
    rw [loose.taskGrpCount, length_append, Nat.add_comm]
  have some : 0 < (ocq.ready ++ ocq.waitSlot).length := by
    by_contra empty
    rw [count, Nat.eq_zero_of_not_pos empty, Nat.div_zero] at average
    exact average rfl
  obtain ⟨limited, done, set, kept⟩ := setLimitGrps_spec average loose
  have either {grp : Nat} : grp ∈ ocq.ready ++ ocq.waitSlot ↔ grp ∈ ocq.waitSlot ++ ocq.ready :=
    perm_append_comm.mem_iff
  simp only
  rw [done]
  have again : ({ ocq with waitSlot := [], ready := ocq.ready ++ ocq.waitSlot } : ConnQue).Loose limited := by
    have once : (ocq.ready ++ ocq.waitSlot).Nodup := perm_append_comm.nodup_iff.1 loose.once
    refine ⟨once, loose.unused, nofun, fun grp member => ?_, fun grp ready => ?_, ?_, fun scarce => ?_⟩
    · exact (set grp (either.1 member)).2
    · rw [(set grp (either.1 ready)).1]
      exact Nat.min_le_left _ _
    · exact count ▸ average_le average
    · have enough := count ▸ average_le average
      rw [ConnQue.taskGrpCount, loose.unused] at scarce
      simp only [length_nil, Nat.zero_add] at scarce
      omega
  have spread := SharedAgain.of_spread again rfl some fun grp ready => by
    have limit := set grp (either.1 ready)
    rw [count] at limit
    exact limit
  rw [count]
  exact ⟨spread.shared, fun grp member => either.1 (spread.within grp member),
    fun grp out => (spread.frame grp fun ready => out (either.1 ready)).trans (kept grp out)⟩

theorem fill_spec (loose : ocq.Loose table) (scarce : ocq.maxSlots.toNat < ocq.taskGrpCount) :
    SharedAgain table (ocq.waitSlot ++ ocq.ready)
      (incWaitingGrp table ocq (ocq.maxSlots.toNat - ocq.ready.length)) := by
  obtain ⟨next, chosen, left, done, perm, length, set, kept⟩ :=
    incWaitingGrp_spec loose (ocq.maxSlots.toNat - ocq.ready.length)
  rw [done]
  have fits := loose.fits
  have single := loose.single scarce
  rw [loose.taskGrpCount] at scarce
  have whole : (ocq.ready ++ chosen).length = ocq.maxSlots.toNat := by
    rw [length_append]
    omega
  have regrouped : (left ++ (ocq.ready ++ chosen)).Perm (ocq.waitSlot ++ ocq.ready) := by
    refine perm_append_comm.trans ?_
    rw [append_assoc]
    exact (perm.append_left ocq.ready).trans perm_append_comm
  have once : (left ++ (ocq.ready ++ chosen)).Nodup := regrouped.nodup_iff.2 loose.once
  have unchosen {grp : Nat} (member : grp ∈ left ++ ocq.ready) : grp ∉ chosen := by
    intro picked
    rw [← append_assoc] at once
    exact (nodup_append.1 once).2.2 grp member grp picked rfl
  have each : ∀ grp ∈ ocq.ready ++ chosen, (next grp).maxRunning = 1 := by
    intro grp member
    rcases mem_append.1 member with ready | picked
    · rw [kept grp (unchosen (mem_append_right _ ready))]
      exact single grp ready
    · exact (set grp picked).1
  refine ⟨.of_share once loose.unused (fun grp member => ?_) (fun grp member => ?_) (Nat.le_of_eq whole)
    (ConnQue.share_of_single whole each) fun _ => whole, fun grp member => regrouped.mem_iff.1 member,
    fun grp out => kept grp fun picked => ?_⟩
  · show (next grp).maxRunning = 0
    rw [kept grp (unchosen (mem_append_left _ member))]
    exact loose.held grp (perm.mem_iff.1 (mem_append_right _ member))
  · show (next grp).Accepts
    by_cases picked : grp ∈ chosen
    · exact (set grp picked).2
    · rw [kept grp picked]
      exact loose.accepts grp (regrouped.mem_iff.1 member)
  · exact out (mem_append_left _ (perm.mem_iff.1 (mem_append_left _ picked)))

theorem addGrp_spec (shared : ocq.Shared table) {grp : Nat} (new : grp ∉ ocq.waitSlot ++ ocq.ready)
    (fresh : (table grp).maxRunning = 0) (accepts : (table grp).Accepts) :
    SharedAgain table (grp :: (ocq.waitSlot ++ ocq.ready)) (addGrp table ocq grp) := by
  have listed {other : Nat} (member : other = grp ∨ other ∈ ocq.waitSlot ++ ocq.ready) :
      (table other).Accepts := by
    rcases member with rfl | before
    · exact accepts
    · exact shared.accepts other before
  have waiting (whole : ocq.ready.length = ocq.maxSlots.toNat) :
      SharedAgain table (grp :: (ocq.waitSlot ++ ocq.ready))
        (table, { ocq with waitSlot := ocq.waitSlot ++ [grp] }) := by
    have turned : ((ocq.waitSlot ++ [grp]) ++ ocq.ready).Perm (grp :: (ocq.waitSlot ++ ocq.ready)) := by
      rw [append_assoc]
      exact perm_middle
    refine ⟨.of_share (turned.nodup_iff.2 (nodup_cons.2 ⟨new, shared.once⟩)) shared.unused
      (fun other member => ?_) (fun other member => listed (mem_cons.1 (turned.mem_iff.1 member)))
      shared.fits shared.share fun _ => whole, fun other member => turned.mem_iff.1 member,
      fun _ _ => rfl⟩
    rcases mem_append.1 member with before | last
    · exact shared.held other before
    · rw [mem_singleton.1 last]
      exact fresh
  rw [addGrp]
  by_cases some : 0 < ocq.waitSlot.length
  · rw [if_pos some]
    exact waiting (shared.full (length_pos_iff.1 some))
  · rw [if_neg some]
    have none : ocq.waitSlot = [] := by
      by_contra waits
      exact some (length_pos_iff.2 waits)
    have count : ocq.taskGrpCount + 1 = (ocq.ready ++ [grp]).length := by
      rw [shared.taskGrpCount, none, length_append]
      simp
    simp only
    rw [count]
    by_cases few : ocq.maxSlots.toNat / (ocq.ready ++ [grp]).length = 0
    · rw [if_pos few]
      refine waiting ?_
      have fits := shared.fits
      rw [Nat.div_eq_zero_iff, length_append, length_singleton] at few
      omega
    · rw [if_neg few]
      have loose : ({ ocq with ready := ocq.ready ++ [grp] } : ConnQue).Loose table := by
        have turned : (ocq.waitSlot ++ (ocq.ready ++ [grp])).Perm (grp :: (ocq.waitSlot ++ ocq.ready)) := by
          rw [← append_assoc]
          exact perm_append_singleton grp _
        refine ⟨turned.nodup_iff.2 (nodup_cons.2 ⟨new, shared.once⟩), shared.unused, shared.held,
          fun other member => listed (mem_cons.1 (turned.mem_iff.1 member)), fun other member => ?_,
          average_le few, fun scarce => ?_⟩
        · rcases mem_append.1 member with before | last
          · exact shared.capped other before
          · rw [mem_singleton.1 last, fresh]
            exact Nat.zero_le _
        · have enough := average_le few
          rw [ConnQue.taskGrpCount, shared.unused, none] at scarce
          simp only [length_nil, Nat.zero_add] at scarce
          omega
      have spread := spreadRunning_spec loose none few
      have within {other : Nat} (member : other ∈ ocq.ready ++ [grp]) :
          other ∈ grp :: (ocq.waitSlot ++ ocq.ready) := by
        rw [none, nil_append]
        exact (perm_append_singleton grp _).mem_iff.1 member
      exact spread.mono fun other => within

theorem ConnQue.Loose.erase (loose : ocq.Loose table) (grp : Nat) :
    ({ ocq with ready := ocq.ready.erase grp } : ConnQue).Loose table := by
  have fewer : (ocq.waitSlot ++ ocq.ready.erase grp).Sublist (ocq.waitSlot ++ ocq.ready) :=
    erase_sublist.append_left ocq.waitSlot
  have ready {other : Nat} (member : other ∈ ocq.ready.erase grp) : other ∈ ocq.ready :=
    mem_of_mem_erase member
  refine ⟨fewer.nodup loose.once, loose.unused, loose.held,
    fun other member => loose.accepts other (fewer.mem member),
    fun other member => loose.capped other (ready member),
    Nat.le_trans erase_sublist.length_le loose.fits, fun scarce other member => ?_⟩
  refine loose.single (Nat.lt_of_lt_of_le scarce ?_) other (ready member)
  have shorter : (ocq.ready.erase grp).length ≤ ocq.ready.length := erase_sublist.length_le
  rw [ConnQue.taskGrpCount, ConnQue.taskGrpCount]
  exact Nat.add_le_add_left shorter _

theorem ConnQue.Loose.eraseWaiting (loose : ocq.Loose table) (grp : Nat) :
    ({ ocq with waitSlot := ocq.waitSlot.erase grp } : ConnQue).Loose table := by
  have fewer : (ocq.waitSlot.erase grp ++ ocq.ready).Sublist (ocq.waitSlot ++ ocq.ready) :=
    erase_sublist.append_right ocq.ready
  refine ⟨fewer.nodup loose.once, loose.unused,
    fun other member => loose.held other (mem_of_mem_erase member),
    fun other member => loose.accepts other (fewer.mem member), loose.capped, loose.fits,
    fun scarce => loose.single (Nat.lt_of_lt_of_le scarce ?_)⟩
  have shorter : (ocq.waitSlot.erase grp).length ≤ ocq.waitSlot.length := erase_sublist.length_le
  rw [ConnQue.taskGrpCount, ConnQue.taskGrpCount]
  exact Nat.add_le_add_right (Nat.add_le_add_right shorter _) _

theorem ConnQue.Shared.eraseWaiting (shared : ocq.Shared table) (grp : Nat) :
    ({ ocq with waitSlot := ocq.waitSlot.erase grp } : ConnQue).Shared table := by
  refine ⟨shared.toLoose.eraseWaiting grp, shared.share, fun some => shared.full fun none => some ?_⟩
  rw [none]
  rfl

theorem releaseSlots_spec (shared : ocq.Shared table) {grp : Nat} (ready : grp ∈ ocq.ready)
    (others : ocq.waitSlot.length ≠ 1) :
    SharedAgain table (ocq.waitSlot ++ ocq.ready.erase grp)
      (releaseSlots table { ocq with ready := ocq.ready.erase grp }) := by
  have loose := shared.toLoose.erase grp
  have length := length_erase_of_mem ready
  have some : 0 < ocq.ready.length := length_pos_of_mem ready
  have count := loose.taskGrpCount
  rw [releaseSlots]
  by_cases empty : ({ ocq with ready := ocq.ready.erase grp } : ConnQue).taskGrpCount = 0
  · rw [if_pos empty]
    rw [count] at empty
    have noneLeft : ocq.ready.erase grp = [] := by
      rw [← length_eq_zero_iff]
      show (ocq.ready.erase grp).length = 0
      exact Nat.eq_zero_of_add_eq_zero_left empty
    have noneWaits : ocq.waitSlot = [] := by
      rw [← length_eq_zero_iff]
      exact Nat.eq_zero_of_add_eq_zero_right empty
    refine ⟨.of_share loose.once loose.unused loose.held loose.accepts loose.fits ?_ ?_,
      fun _ => id, fun _ _ => rfl⟩
    · show (limits table (ocq.ready.erase grp)).Perm (evenShare _ _ (ocq.ready.erase grp).length)
      rw [noneLeft]
      exact .nil
    · exact fun waits => absurd noneWaits waits
  · rw [if_neg empty]
    simp only
    by_cases waits : ocq.waitSlot = []
    · have whole : ({ ocq with ready := ocq.ready.erase grp } : ConnQue).taskGrpCount =
          (ocq.ready.erase grp).length := by
        rw [count, waits, length_nil, Nat.zero_add]
      rw [whole] at empty ⊢
      have fits := shared.fits
      have average : ocq.maxSlots.toNat / (ocq.ready.erase grp).length ≠ 0 := by
        rw [ne_eq, Nat.div_eq_zero_iff]
        omega
      rw [if_neg average]
      exact (spreadRunning_spec loose waits average).mono fun other => mem_append_right _
    · have full := shared.full waits
      have several := length_pos_iff.2 waits
      have scarce : ocq.maxSlots.toNat <
          ({ ocq with ready := ocq.ready.erase grp } : ConnQue).taskGrpCount := by
        rw [count]
        show _ < ocq.waitSlot.length + (ocq.ready.erase grp).length
        omega
      rw [if_pos (Nat.div_eq_of_lt scarce), if_neg waits]
      have one : ocq.maxSlots.toNat - (ocq.ready.erase grp).length = 1 := by omega
      have filled := fill_spec loose scarce
      rw [one] at filled
      exact filled

theorem resetSlotCountRelease_spec (loose : ocq.Loose table) :
    SharedAgain table (ocq.waitSlot ++ ocq.ready) (resetSlotCountRelease table ocq 0) := by
  have count := loose.taskGrpCount
  have fits := loose.fits
  rw [resetSlotCountRelease, UInt32.add_zero]
  by_cases empty : ocq.taskGrpCount = 0
  · rw [if_pos empty]
    rw [count] at empty
    have noneReady : ocq.ready = [] :=
      length_eq_zero_iff.1 (Nat.eq_zero_of_add_eq_zero_left empty)
    have noneWaits : ocq.waitSlot = [] :=
      length_eq_zero_iff.1 (Nat.eq_zero_of_add_eq_zero_right empty)
    refine ⟨.of_share loose.once loose.unused loose.held loose.accepts fits ?_
      fun waits => absurd noneWaits waits, fun _ => id, fun _ _ => rfl⟩
    show (limits table ocq.ready).Perm (evenShare _ _ ocq.ready.length)
    rw [noneReady]
    exact .nil
  · rw [if_neg empty]
    simp only
    by_cases few : ocq.maxSlots.toNat / ocq.taskGrpCount = 0
    · rw [if_pos few, few, Nat.zero_mul, Nat.sub_zero]
      have scarce : ocq.maxSlots.toNat < ocq.taskGrpCount := by
        rw [Nat.div_eq_zero_iff] at few
        omega
      split
      · exact fill_spec loose scarce
      · next enough =>
          have whole : ocq.ready.length = ocq.maxSlots.toNat := by omega
          exact ⟨.of_share loose.once loose.unused loose.held loose.accepts fits
            (ConnQue.share_of_single whole (loose.single scarce)) fun _ => whole, fun _ => id,
            fun _ _ => rfl⟩
    · rw [if_neg few]
      exact spreadAll_spec loose few

theorem nextReady_spec (table : GrpTable) (count : Nat) (ready : List Nat) :
    (nextReady table count ready).2.Perm ready := by
  induction count generalizing ready with
  | zero => exact .refl _
  | succ count ih =>
    cases ready with
    | nil => exact .refl _
    | cons head rest =>
      have turned : (rest ++ [head]).Perm (head :: rest) := perm_append_singleton head rest
      rw [nextReady]
      split
      · exact (ih _).trans turned
      · split
        · exact (ih _).trans turned
        · exact turned

theorem nextWaiting_spec (table : GrpTable) {count : Nat} {waitSlot left : List Nat}
    {found : Option Nat}
    (search : nextWaiting table count waitSlot = (found, left)) :
    (found.toList ++ left).Perm waitSlot := by
  induction count generalizing waitSlot with
  | zero =>
    cases search
    exact .refl _
  | succ count ih =>
    cases waitSlot with
    | nil =>
      cases search
      exact .refl _
    | cons head rest =>
      rw [nextWaiting] at search
      split at search
      · cases search
        exact .refl _
      · exact (ih search).trans (perm_append_singleton head rest)

theorem swap_spec (shared : ocq.Shared table) {head waiting : Nat} {rest left : List Nat}
    (ready : ocq.ready = head :: rest) (perm : (waiting :: left).Perm ocq.waitSlot) :
    SharedAgain table (ocq.waitSlot ++ ocq.ready)
      (update (update table head ((table head).setMaxRunning 0)) waiting
          ((update table head ((table head).setMaxRunning 0) waiting).setMaxRunning 1),
        { ocq with ready := rest ++ [waiting], waitSlot := left ++ [head] }) := by
  have waits : ocq.waitSlot ≠ [] := by
    intro none
    rw [none] at perm
    cases perm.length_eq
  have single := shared.single (shared.ready_of_waits waits)
  have whole := shared.full waits
  have headReady : head ∈ ocq.ready := ready ▸ mem_cons_self
  have waitingWaits : waiting ∈ ocq.waitSlot := perm.mem_iff.1 mem_cons_self
  have regrouped : ((left ++ [head]) ++ (rest ++ [waiting])).Perm (ocq.waitSlot ++ ocq.ready) := by
    have front : (left ++ [head] ++ (rest ++ [waiting])).Perm (waiting :: (left ++ (head :: rest))) := by
      rw [← append_assoc]
      refine (perm_append_singleton waiting _).trans (.cons waiting ?_)
      rw [append_assoc]
      exact .refl _
    refine front.trans ?_
    rw [ready]
    exact perm.append_right (head :: rest)
  have once := regrouped.nodup_iff.2 shared.once
  obtain ⟨waitOnce, readyOnce, apart⟩ := nodup_append.1 once
  have apartHead : head ≠ waiting :=
    apart head (mem_append_right _ mem_cons_self) waiting (mem_append_right _ mem_cons_self)
  obtain ⟨swapped, isSwapped⟩ : ∃ swapped,
      swapped = update (update table head ((table head).setMaxRunning 0)) waiting
        ((update table head ((table head).setMaxRunning 0) waiting).setMaxRunning 1) :=
    ⟨_, rfl⟩
  rw [← isSwapped]
  have other {grp : Nat} (notHead : grp ≠ head) (notWaiting : grp ≠ waiting) : swapped grp = table grp := by
    rw [isSwapped, update_of_ne notWaiting, update_of_ne notHead]
  have atHead : swapped head = (table head).setMaxRunning 0 := by
    rw [isSwapped, update_of_ne apartHead, update_self]
  have atWaiting : swapped waiting = (table waiting).setMaxRunning 1 := by
    rw [isSwapped, update_self, update_of_ne apartHead.symm]
  have headAccepts := shared.accepts head (mem_append_right _ headReady)
  have waitingAccepts := shared.accepts waiting (mem_append_left _ waitingWaits)
  have length : (rest ++ [waiting]).length = ocq.maxSlots.toNat := by
    rw [← whole, ready, length_append]
    rfl
  refine ⟨.of_share once shared.unused (fun grp member => ?_) (fun grp member => ?_)
    (Nat.le_of_eq length) (ConnQue.share_of_single length fun grp member => ?_) fun _ => length,
    fun grp member => regrouped.mem_iff.1 member, fun grp out => ?_⟩
  · rcases mem_append.1 member with before | last
    · have notHead : grp ≠ head := by
        rintro rfl
        exact (nodup_append.1 waitOnce).2.2 grp before grp mem_cons_self rfl
      have notWaiting : grp ≠ waiting :=
        apart grp member waiting (mem_append_right _ mem_cons_self)
      show (swapped grp).maxRunning = 0
      rw [other notHead notWaiting]
      exact shared.held grp (perm.mem_iff.1 (mem_cons_of_mem _ before))
    · rw [mem_singleton.1 last]
      show (swapped head).maxRunning = 0
      rw [atHead, headAccepts.maxRunning_setMaxRunning]
      rfl
  · show (swapped grp).Accepts
    by_cases isHead : grp = head
    · rw [isHead, atHead]
      exact headAccepts.setMaxRunning 0
    · by_cases isWaiting : grp = waiting
      · rw [isWaiting, atWaiting]
        exact waitingAccepts.setMaxRunning 1
      · rw [other isHead isWaiting]
        exact shared.accepts grp (regrouped.mem_iff.1 member)
  · rcases mem_append.1 member with before | last
    · have notHead : grp ≠ head := by
        rintro rfl
        exact apart grp (mem_append_right _ mem_cons_self) grp member rfl
      have notWaiting : grp ≠ waiting := by
        rintro rfl
        exact (nodup_append.1 readyOnce).2.2 grp before grp mem_cons_self rfl
      show (swapped grp).maxRunning = 1
      rw [other notHead notWaiting]
      exact single grp (ready ▸ mem_cons_of_mem _ before)
    · show (swapped grp).maxRunning = 1
      rw [mem_singleton.1 last, atWaiting, waitingAccepts.maxRunning_setMaxRunning]
      rfl
  · refine other ?_ ?_
    · rintro rfl
      exact out (mem_append_right _ headReady)
    · rintro rfl
      exact out (mem_append_left _ waitingWaits)

theorem SharedAgain.turned (shared : ocq.Shared table) {waitSlot ready : List Nat}
    (waits : waitSlot.Perm ocq.waitSlot) (turned : ready.Perm ocq.ready) :
    SharedAgain table (ocq.waitSlot ++ ocq.ready) (table, { ocq with waitSlot := waitSlot, ready := ready }) :=
  ⟨shared.perm waits turned, fun _ member => (waits.append turned).mem_iff.1 member, fun _ _ => rfl⟩

theorem nextSwapped_spec (shared : ocq.Shared table) (count : Nat) :
    SharedAgain table (ocq.waitSlot ++ ocq.ready) (nextSwapped table ocq count).2 := by
  induction count generalizing ocq with
  | zero => exact ⟨shared, fun _ => id, fun _ _ => rfl⟩
  | succ count ih =>
    rw [nextSwapped]
    split
    · exact ⟨shared, fun _ => id, fun _ _ => rfl⟩
    · next head rest ready =>
        have step {waitSlot : List Nat} (waits : waitSlot.Perm ocq.waitSlot) :
            SharedAgain table (ocq.waitSlot ++ ocq.ready)
              (table, { ocq with waitSlot := waitSlot, ready := rest ++ [head] }) := by
          refine .turned shared waits ?_
          rw [ready]
          exact perm_append_singleton head rest
        have onward {waitSlot : List Nat} (waits : waitSlot.Perm ocq.waitSlot) :
            SharedAgain table (ocq.waitSlot ++ ocq.ready)
              (nextSwapped table { ocq with waitSlot := waitSlot, ready := rest ++ [head] } count).2 :=
          (ih (step waits).shared).mono (step waits).within
        simp only
        split
        · split
          · exact onward (.refl _)
          · split
            · exact onward (.refl _)
            · exact step (.refl _)
        · split
          · exact onward (.refl _)
          · split
            · next search => exact swap_spec shared ready (nextWaiting_spec table search)
            · next search =>
                have waits := nextWaiting_spec table search
                split
                · exact onward waits
                · exact step waits

end

theorem ConnQue.shared_of_empty (table : GrpTable) {ocq : ConnQue} (count : ocq.taskGrpCount = 0) :
    ocq.Shared table := by
  rw [ConnQue.taskGrpCount] at count
  have noneWaits : ocq.waitSlot = [] := length_eq_zero_iff.1 (by omega)
  have unused : ocq.nextSched = [] := length_eq_zero_iff.1 (by omega)
  have noneReady : ocq.ready = [] := length_eq_zero_iff.1 (by omega)
  obtain ⟨waitSlot, ready, nextSched, maxSlots⟩ := ocq
  cases noneWaits
  cases noneReady
  exact .of_share .nil unused nofun nofun (Nat.zero_le _) .nil fun waits => absurd rfl waits

theorem setSlots_of_empty (table : GrpTable) {ocq : ConnQue} {numSlot : UInt32}
    (empty : ocq.taskGrpCount = 0) :
    setSlots table ocq numSlot = (table, { ocq with maxSlots := numSlot }) := by
  rw [setSlots]
  split
  · next equal => rw [← equal]
  · split
    · rw [incSlotCount, if_pos empty, ite_self]
    · rw [decSlotCount, resetSlotCountAlloc, if_pos empty, ite_self]

namespace Sched

def listed (sched : Sched) : List Nat :=
  sched.conns.flatMap fun conn =>
    match sched.connQue conn with
    | none => []
    | some ocq => ocq.waitSlot ++ ocq.ready

@[simp] theorem setConn_self (sched : Sched) (conn : Nat) (changed : GrpTable × ConnQue) :
    (sched.setConn conn changed).connQue conn = some changed.2 := by
  simp [setConn]

theorem setConn_of_ne (sched : Sched) {conn other : Nat} (apart : other ≠ conn)
    (changed : GrpTable × ConnQue) :
    (sched.setConn conn changed).connQue other = sched.connQue other := by
  simp [setConn, apart]

/-- Every connection is fair, but for those that groups are being taken from; no group is
at two connections; the ports and the connections match. -/
structure Inv (ifs : SchedIfs) (loose : List Nat) (sched : Sched) : Prop where
  queues : ∀ conn ocq, sched.connQue conn = some ocq →
    ocq.Loose sched.grp ∧ (conn ∉ loose → ocq.Shared sched.grp)
  apart : ∀ conn ocq other ocq', sched.connQue conn = some ocq → sched.connQue other = some ocq' →
    conn ≠ other → ∀ grp ∈ ocq.waitSlot ++ ocq.ready, grp ∉ ocq'.waitSlot ++ ocq'.ready
  mapped : ∀ conn ocq, sched.connQue conn = some ocq → conn ∈ sched.conns ∧
    ∃ portId, ifs.portId conn = some portId ∧ sched.id2If portId = some conn
  known : ∀ portId conn, sched.id2If portId = some conn →
    ifs.portId conn = some portId ∧ ∃ ocq, sched.connQue conn = some ocq

namespace Inv

variable {ifs : SchedIfs} {loose : List Nat} {sched : Sched}
variable {conn grp : Nat} {ocq : ConnQue}
variable {changed : GrpTable × ConnQue}

theorem mem_listed (inv : sched.Inv ifs loose)
    (found : sched.connQue conn = some ocq) (member : grp ∈ ocq.waitSlot ++ ocq.ready) :
    grp ∈ sched.listed := by
  refine mem_flatMap.2 ⟨conn, (inv.mapped conn ocq found).1, ?_⟩
  rw [found]
  exact member

theorem shared (inv : sched.Inv ifs []) (found : sched.connQue conn = some ocq) : ocq.Shared sched.grp :=
  (inv.queues conn ocq found).2 not_mem_nil

theorem regroup (inv : sched.Inv ifs loose) {table : GrpTable}
    (same : ∀ grp ∈ sched.listed, (table grp).maxRunning = (sched.grp grp).maxRunning ∧
      ((sched.grp grp).Accepts → (table grp).Accepts)) :
    ({ sched with grp := table } : Sched).Inv ifs loose := by
  refine ⟨fun conn ocq found => ?_, inv.apart, inv.mapped, inv.known⟩
  obtain ⟨loosely, sharing⟩ := inv.queues conn ocq found
  exact ⟨loosely.congr fun grp member => same grp (inv.mem_listed found member),
    fun firm => (sharing firm).congr fun grp member => same grp (inv.mem_listed found member)⟩

theorem setConn (inv : sched.Inv ifs loose)
    (found : sched.connQue conn = some ocq)
    (within : ∀ grp ∈ changed.2.waitSlot ++ changed.2.ready,
      grp ∈ ocq.waitSlot ++ ocq.ready ∨ grp ∉ sched.listed)
    (frame : ∀ grp ∈ sched.listed, grp ∉ ocq.waitSlot ++ ocq.ready → changed.1 grp = sched.grp grp)
    (loosely : changed.2.Loose changed.1) {more : List Nat}
    (sharing : conn ∉ more → changed.2.Shared changed.1)
    (others : ∀ other ∈ loose, other ≠ conn → other ∈ more) :
    (sched.setConn conn changed).Inv ifs more := by
  have elsewhere {other : Nat} {ocq' : ConnQue} (differs : other ≠ conn)
      (there : (sched.setConn conn changed).connQue other = some ocq') :
      sched.connQue other = some ocq' := by
    rw [setConn_of_ne sched differs] at there
    exact there
  have here {ocq' : ConnQue} (there : (sched.setConn conn changed).connQue conn = some ocq') :
      ocq' = changed.2 := by
    rw [setConn_self] at there
    exact (Option.some.inj there).symm
  have untouched {other : Nat} {ocq' : ConnQue} (differs : other ≠ conn)
      (there : sched.connQue other = some ocq') {grp : Nat}
      (member : grp ∈ ocq'.waitSlot ++ ocq'.ready) : changed.1 grp = sched.grp grp := by
    refine frame grp (inv.mem_listed there member) ?_
    exact inv.apart other ocq' conn ocq there found differs grp member
  have newcomers {other : Nat} {ocq' : ConnQue} (differs : other ≠ conn)
      (there : sched.connQue other = some ocq') {grp : Nat}
      (member : grp ∈ changed.2.waitSlot ++ changed.2.ready) : grp ∉ ocq'.waitSlot ++ ocq'.ready := by
    intro both
    rcases within grp member with before | new
    · exact inv.apart conn ocq other ocq' found there differs.symm grp before both
    · exact new (inv.mem_listed there both)
  refine ⟨fun other ocq' there => ?_, fun one ocq₁ two ocq₂ first second differs grp member => ?_,
    fun other ocq' there => ?_, fun portId other port => ?_⟩
  · by_cases same : other = conn
    · subst same
      rw [here there]
      exact ⟨loosely, sharing⟩
    · have before := elsewhere same there
      obtain ⟨loosely, sharing⟩ := inv.queues other ocq' before
      have equal (grp : Nat) (member : grp ∈ ocq'.waitSlot ++ ocq'.ready) :
          (changed.1 grp).maxRunning = (sched.grp grp).maxRunning ∧
            ((sched.grp grp).Accepts → (changed.1 grp).Accepts) := by
        rw [untouched same before member]
        exact ⟨rfl, id⟩
      exact ⟨loosely.congr equal,
        fun firm => (sharing fun listed => firm (others other listed same)).congr equal⟩
  · by_cases isOne : one = conn
    · subst isOne
      rw [here first] at member
      exact newcomers differs.symm (elsewhere differs.symm second) member
    · by_cases isTwo : two = conn
      · subst isTwo
        rw [here second]
        exact fun both => newcomers differs (elsewhere differs first) both member
      · exact inv.apart one ocq₁ two ocq₂ (elsewhere isOne first) (elsewhere isTwo second) differs grp member
  · by_cases same : other = conn
    · subst same
      exact inv.mapped other ocq found
    · exact inv.mapped other ocq' (elsewhere same there)
  · obtain ⟨back, queue⟩ := inv.known portId other port
    refine ⟨back, ?_⟩
    by_cases same : other = conn
    · subst same
      exact ⟨changed.2, update_self _ _ _⟩
    · rw [setConn_of_ne sched same]
      exact queue

theorem setShared (inv : sched.Inv ifs loose) {grps : List Nat}
    (found : sched.connQue conn = some ocq)
    (again : SharedAgain sched.grp grps changed)
    (within : ∀ grp ∈ grps, grp ∈ ocq.waitSlot ++ ocq.ready ∨ grp ∉ sched.listed) {more : List Nat}
    (others : ∀ other ∈ loose, other ≠ conn → other ∈ more) :
    (sched.setConn conn changed).Inv ifs more := by
  refine inv.setConn found (fun grp member => within grp (again.within grp member))
    (fun grp member out => ?_) again.shared.toLoose (fun _ => again.shared) others
  refine again.frame grp fun changes => ?_
  rcases within grp changes with before | new
  · exact out before
  · exact new member

/-- As `setShared`, with no new groups and no connection that groups are taken from. -/
theorem setAgain (inv : sched.Inv ifs []) {grps : List Nat} (found : sched.connQue conn = some ocq)
    (again : SharedAgain sched.grp grps changed)
    (within : ∀ grp ∈ grps, grp ∈ ocq.waitSlot ++ ocq.ready) :
    (sched.setConn conn changed).Inv ifs [] :=
  inv.setShared found again (fun grp member => .inl (within grp member)) nofun

theorem reschedule (inv : sched.Inv ifs loose) (conn : Nat) : (sched.reschedule ifs conn).Inv ifs loose := by
  rw [Sched.reschedule]
  split
  · exact inv
  · split
    · exact inv
    · exact { inv with }

theorem setSlotCount (inv : sched.Inv ifs []) {numSlot : UInt32}
    (same : ∀ ocq, sched.connQue conn = some ocq → ocq.taskGrpCount = 0 ∨ ocq.maxSlots = numSlot) :
    (sched.setSlotCount conn numSlot).2.Inv ifs [] := by
  rw [Sched.setSlotCount]
  split
  · exact inv
  · next ocq found =>
      have again : SharedAgain sched.grp (ocq.waitSlot ++ ocq.ready) (setSlots sched.grp ocq numSlot) := by
        rcases same ocq found with empty | equal
        · rw [setSlots_of_empty _ empty]
          exact ⟨ConnQue.shared_of_empty _ empty, fun _ => id, fun _ _ => rfl⟩
        · rw [setSlots, if_pos equal]
          exact ⟨inv.shared found, fun _ => id, fun _ _ => rfl⟩
      exact inv.setAgain found again fun _ => id

theorem connect (inv : sched.Inv ifs []) {portId : Nat}
    (port : ifs.portId conn = some portId) (free : sched.id2If portId = none)
    (none : sched.connQue conn = none) (empty : ocq.taskGrpCount = 0) :
    ({ sched with
        conns := sched.conns ++ [conn]
        connQue := update sched.connQue conn (some ocq)
        id2If := update sched.id2If portId (some conn) } : Sched).Inv ifs [] := by
  have shared := ConnQue.shared_of_empty sched.grp empty
  have elsewhere {other : Nat} {ocq' : ConnQue}
      (there : update sched.connQue conn (some ocq) other = some ocq') :
      (other = conn ∧ ocq' = ocq) ∨ (other ≠ conn ∧ sched.connQue other = some ocq') := by
    by_cases same : other = conn
    · rw [same, update_self] at there
      exact .inl ⟨same, (Option.some.inj there).symm⟩
    · rw [update_of_ne same] at there
      exact .inr ⟨same, there⟩
  have nobody (grp : Nat) : grp ∉ ocq.waitSlot ++ ocq.ready := by
    intro member
    have some := length_pos_of_mem member
    rw [ConnQue.taskGrpCount] at empty
    rw [length_append] at some
    omega
  refine ⟨fun other ocq' there => ?_, fun one ocq₁ two ocq₂ first second differs grp member => ?_,
    fun other ocq' there => ?_, fun one other mapped => ?_⟩
  · rcases elsewhere there with ⟨_, rfl⟩ | ⟨_, before⟩
    · exact ⟨shared.toLoose, fun _ => shared⟩
    · exact inv.queues other ocq' before
  · rcases elsewhere first with ⟨_, rfl⟩ | ⟨_, first⟩
    · exact absurd member (nobody grp)
    · rcases elsewhere second with ⟨_, rfl⟩ | ⟨_, second⟩
      · exact nobody grp
      · exact inv.apart _ ocq₁ _ ocq₂ first second differs grp member
  · rcases elsewhere there with ⟨rfl, _⟩ | ⟨_, before⟩
    · exact ⟨mem_append_right _ mem_cons_self, portId, port, update_self _ _ _⟩
    · obtain ⟨member, other', same, mapped⟩ := inv.mapped other ocq' before
      have apart : other' ≠ portId := by
        rintro rfl
        exact Option.some_ne_none _ (mapped.symm.trans free)
      exact ⟨mem_append_left _ member, other', same, (update_of_ne apart _ _).trans mapped⟩
  · have mapped : update sched.id2If portId (some conn) one = some other := mapped
    by_cases same : one = portId
    · rw [same, update_self] at mapped
      cases mapped
      exact ⟨same ▸ port, ocq, update_self _ _ _⟩
    · rw [update_of_ne same] at mapped
      obtain ⟨back, ocq', found⟩ := inv.known one other mapped
      have apart : other ≠ conn := by
        rintro rfl
        exact Option.some_ne_none _ (found.symm.trans none)
      exact ⟨back, ocq', (update_of_ne apart _ _).trans found⟩

theorem addConn_cases (inv : sched.Inv ifs []) (conn : Nat)
    (limit : Except Status (UInt32 × UInt32)) :
    (sched.addConn ifs conn limit).2 = sched ∨
      ∃ portId ocq, ifs.portId conn = some portId ∧ sched.id2If portId = none ∧
        sched.connQue conn = none ∧ ocq.taskGrpCount = 0 ∧
        (sched.addConn ifs conn limit).2 =
          { sched with
            conns := sched.conns ++ [conn]
            connQue := update sched.connQue conn (some ocq)
            id2If := update sched.id2If portId (some conn) } := by
  rw [Sched.addConn]
  split
  · exact .inl rfl
  · next portId port =>
      split
      · exact .inl rfl
      · split
        · exact .inl rfl
        · next maxRunning maxPending taken =>
            have free : sched.id2If portId = none := by simpa using taken
            have none : sched.connQue conn = none := by
              cases found : sched.connQue conn with
              | none => rfl
              | some ocq =>
                obtain ⟨_, other, same, mapped⟩ := inv.mapped conn ocq found
                cases port.symm.trans same
                cases free.symm.trans mapped
            have empty : ConnQue.new.taskGrpCount = 0 := rfl
            refine .inr ⟨portId, { ConnQue.new with maxSlots := maxRunning + maxPending }, port, free, none,
              rfl, ?_⟩
            rw [none]
            simp only [Option.getD_none, Sched.setSlotCount, update_self]
            rw [setSlots_of_empty _ empty, Sched.setConn, update_idem]

theorem addConn (inv : sched.Inv ifs []) (conn : Nat) (limit : Except Status (UInt32 × UInt32)) :
    (sched.addConn ifs conn limit).2.Inv ifs [] := by
  rcases inv.addConn_cases conn limit with same | ⟨portId, ocq, port, free, none, empty, added⟩
  · rw [same]
    exact inv
  · rw [added]
    exact inv.connect port free none empty

theorem addConn_grp (inv : sched.Inv ifs []) (conn : Nat)
    (limit : Except Status (UInt32 × UInt32)) :
    (sched.addConn ifs conn limit).2.grp = sched.grp := by
  rcases inv.addConn_cases conn limit with same | ⟨portId, ocq, port, free, none, empty, added⟩
  · rw [same]
  · rw [added]

theorem addConn_listed (inv : sched.Inv ifs []) {limit : Except Status (UInt32 × UInt32)}
    (member : grp ∈ (sched.addConn ifs conn limit).2.listed) : grp ∈ sched.listed := by
  rcases inv.addConn_cases conn limit with same | ⟨portId, ocq, port, free, none, empty, added⟩
  · rw [same] at member
    exact member
  · rw [added] at member
    obtain ⟨other, there, listed⟩ := mem_flatMap.1 member
    by_cases here : other = conn
    · rw [here] at listed
      simp only [update_self] at listed
      have some := length_pos_of_mem listed
      rw [ConnQue.taskGrpCount] at empty
      rw [length_append] at some
      omega
    · simp only [update_of_ne here] at listed
      rcases mem_append.1 there with before | last
      · exact mem_flatMap.2 ⟨other, before, listed⟩
      · exact absurd (mem_singleton.1 last) here

theorem addToConn (inv : sched.Inv ifs []) (new : grp ∉ sched.listed)
    (fresh : (sched.grp grp).maxRunning = 0) (accepts : (sched.grp grp).Accepts) :
    (sched.addToConn conn grp).Inv ifs [] := by
  rw [Sched.addToConn]
  split
  · exact inv
  · next ocq found =>
      have unlisted : grp ∉ ocq.waitSlot ++ ocq.ready := fun member =>
        new (inv.mem_listed found member)
      refine inv.setShared found (addGrp_spec (inv.shared found) unlisted fresh accepts)
        (fun other member => ?_) nofun
      rcases mem_cons.1 member with rfl | before
      · exact .inr new
      · exact .inl before

theorem addTaskGrp (inv : sched.Inv ifs []) (limit : Except Status (UInt32 × UInt32))
    (new : grp ∉ sched.listed) (fresh : (sched.grp grp).maxRunning = 0)
    (accepts : (sched.grp grp).Accepts) : (sched.addTaskGrp ifs conn grp limit).2.Inv ifs [] := by
  rw [Sched.addTaskGrp]
  split
  · exact inv
  · split
    · have added := inv.addConn conn limit
      have same := inv.addConn_grp conn limit
      simp only
      split
      · exact added
      · refine added.addToConn (fun listed => new (inv.addConn_listed listed)) ?_ ?_
        · rw [same]
          exact fresh
        · rw [same]
          exact accepts
    · exact inv.addToConn new fresh accepts

theorem removeConn (inv : sched.Inv ifs []) (conn : Nat) : (sched.removeConn ifs conn).Inv ifs [] := by
  rw [Sched.removeConn]
  split
  · exact inv
  · simp only
    split
    · next none =>
        have none : sched.connQue conn = Option.none := none
        refine ⟨inv.queues, inv.apart, fun other ocq found => ?_, inv.known⟩
        have apart : other ≠ conn := by
          rintro rfl
          exact Option.some_ne_none _ (found.symm.trans none)
        obtain ⟨member, mapped⟩ := inv.mapped other ocq found
        exact ⟨(mem_erase_of_ne apart).2 member, mapped⟩
    · next ocq found =>
        obtain ⟨_, portId, port, mapped⟩ := inv.mapped conn ocq found
        rw [port]
        have elsewhere {other : Nat} {ocq' : ConnQue}
            (there : update sched.connQue conn none other = some ocq') :
            other ≠ conn ∧ sched.connQue other = some ocq' := by
          by_cases same : other = conn
          · rw [same, update_self] at there
            cases there
          · rw [update_of_ne same] at there
            exact ⟨same, there⟩
        refine ⟨fun other ocq' there => inv.queues other ocq' (elsewhere there).2,
          fun one ocq₁ two ocq₂ first second => inv.apart one ocq₁ two ocq₂ (elsewhere first).2
            (elsewhere second).2, fun other ocq' there => ?_, fun one other kept => ?_⟩
        · obtain ⟨apart, before⟩ := elsewhere there
          obtain ⟨member, other', same, mapped'⟩ := inv.mapped other ocq' before
          have apart' : other' ≠ portId := by
            rintro rfl
            exact apart (Option.some.inj (mapped'.symm.trans mapped))
          exact ⟨(mem_erase_of_ne apart).2 member, other', same, (update_of_ne apart' _ _).trans mapped'⟩
        · have kept : update sched.id2If portId none one = some other := kept
          by_cases same : one = portId
          · rw [same, update_self] at kept
            cases kept
          · rw [update_of_ne same] at kept
            obtain ⟨back, ocq', queue⟩ := inv.known one other kept
            have apart : other ≠ conn := by
              rintro rfl
              exact same (Option.some.inj (back.symm.trans port))
            exact ⟨back, ocq', (update_of_ne apart _ _).trans queue⟩

theorem removePort (inv : sched.Inv ifs []) (portId : Nat) : (sched.removePort ifs portId).2.Inv ifs [] := by
  rw [Sched.removePort]
  split
  · exact inv
  · exact inv.removeConn _

theorem turn (inv : sched.Inv ifs loose) {rest : List Nat}
    (conns : sched.conns = conn :: rest) :
    ({ sched with conns := rest ++ [conn] } : Sched).Inv ifs loose := by
  refine ⟨inv.queues, inv.apart, fun other ocq found => ?_, inv.known⟩
  obtain ⟨member, mapped⟩ := inv.mapped other ocq found
  rw [conns] at member
  exact ⟨(perm_append_singleton conn rest).mem_iff.2 member, mapped⟩

theorem connOf_some (inv : sched.Inv ifs loose) (found : sched.connOf grp = some conn) :
    ∃ ocq, sched.connQue conn = some ocq := by
  rw [Sched.connOf] at found
  split at found
  · cases found
  · exact (inv.known _ conn found).2

theorem removeTaskGrp (inv : sched.Inv ifs [])
    (others : ∀ conn ocq, sched.connOf grp = some conn → sched.connQue conn = some ocq →
      grp ∈ ocq.ready → ocq.waitSlot.length ≠ 1) : (sched.removeTaskGrp ifs grp).Inv ifs [] := by
  rw [Sched.removeTaskGrp]
  split
  · exact inv
  · next conn at_ =>
      obtain ⟨ocq, found⟩ := inv.connOf_some at_
      rw [found, Option.getD_some]
      have shared := inv.shared found
      simp only
      split
      · have again : SharedAgain sched.grp (ocq.waitSlot ++ ocq.ready)
            (sched.grp, { ocq with waitSlot := ocq.waitSlot.erase grp }) :=
          ⟨shared.eraseWaiting grp, fun other => (erase_sublist.append_right ocq.ready).mem, fun _ _ => rfl⟩
        exact inv.setAgain found again fun _ => id
      · split
        · next ready =>
            have released := releaseSlots_spec shared ready (others conn ocq at_ found ready)
            have after := inv.setAgain found released fun other =>
              (erase_sublist.append_left ocq.waitSlot).mem
            split
            · exact after
            · split
              · exact after
              · exact after.reschedule conn
        · have again : SharedAgain sched.grp (ocq.waitSlot ++ ocq.ready) (sched.grp, ocq) :=
            ⟨shared, fun _ => id, fun _ _ => rfl⟩
          exact inv.setAgain found again fun _ => id

theorem takeOut (inv : sched.Inv ifs loose) (grp : Nat) :
    match sched.takeOut grp with
    | (next, none) => next.Inv ifs loose
    | (next, some conn) => next.Inv ifs (loose.insert conn) := by
  rw [Sched.takeOut]
  cases at_ : sched.connOf grp with
  | none => exact inv
  | some conn =>
    obtain ⟨ocq, found⟩ := inv.connOf_some at_
    obtain ⟨loosely, sharing⟩ := inv.queues conn ocq found
    simp only
    rw [found, Option.getD_some]
    by_cases waits : grp ∈ ocq.waitSlot
    · rw [if_pos waits]
      exact inv.setConn found
        (fun other member => .inl ((erase_sublist.append_right ocq.ready).mem member))
        (fun _ _ _ => rfl) (loosely.eraseWaiting grp) (fun firm => (sharing firm).eraseWaiting grp)
        fun _ listed _ => listed
    · rw [if_neg waits]
      by_cases ready : grp ∈ ocq.ready
      · rw [if_pos ready]
        exact inv.setConn found
          (fun other member => .inl ((erase_sublist.append_left ocq.waitSlot).mem member))
          (fun _ _ _ => rfl) (loosely.erase grp) (fun firm => absurd mem_insert_self firm)
          fun _ listed _ => mem_insert_of_mem listed
      · rw [if_neg ready]
        exact inv.setConn found (fun _ member => .inl member) (fun _ _ _ => rfl) loosely sharing
          fun _ listed _ => listed

theorem takeAllOut (inv : sched.Inv ifs loose) (grps : List Nat) :
    (sched.takeAllOut loose grps).1.Inv ifs (sched.takeAllOut loose grps).2 := by
  induction grps generalizing sched loose with
  | nil => exact inv
  | cons grp rest ih =>
    have taken := inv.takeOut grp
    rw [Sched.takeAllOut]
    split
    · next out =>
        rw [out] at taken
        exact ih taken
    · next out =>
        rw [out] at taken
        exact ih taken

theorem releaseConn (inv : sched.Inv ifs (conn :: loose)) : (sched.releaseConn ifs conn).Inv ifs loose := by
  have firm {ocq : ConnQue} (found : sched.connQue conn = some ocq) {changed : GrpTable × ConnQue}
      (again : SharedAgain sched.grp (ocq.waitSlot ++ ocq.ready) changed) :
      (sched.setConn conn changed).Inv ifs loose :=
    inv.setShared found again (fun _ member => .inl member) fun other member differs =>
      (mem_cons.1 member).resolve_left differs
  rw [Sched.releaseConn]
  split
  · next none =>
      refine ⟨fun other ocq found => ?_, inv.apart, inv.mapped, inv.known⟩
      have apart : other ≠ conn := by
        rintro rfl
        exact Option.some_ne_none _ (found.symm.trans none)
      obtain ⟨loosely, sharing⟩ := inv.queues other ocq found
      exact ⟨loosely, fun out => sharing (not_mem_cons_of_ne_of_not_mem apart out)⟩
  · next ocq found =>
      obtain ⟨loosely, sharing⟩ := inv.queues conn ocq found
      split
      · next noSlots =>
          refine ⟨fun other ocq' there => ?_, inv.apart, inv.mapped, inv.known⟩
          obtain ⟨loosely', sharing'⟩ := inv.queues other ocq' there
          refine ⟨loosely', fun out => ?_⟩
          by_cases same : other = conn
          · subst same
            cases found.symm.trans there
            have none : ocq.ready.length = ocq.maxSlots.toNat := by
              have fits := loosely.fits
              rw [noSlots] at fits ⊢
              exact Nat.le_zero.1 fits
            have noneReady : ocq.ready = [] := by
              rw [noSlots] at none
              exact length_eq_zero_iff.1 none
            refine ⟨loosely, ?_, fun _ => none⟩
            rw [noneReady]
            exact .nil
          · exact sharing' (not_mem_cons_of_ne_of_not_mem same out)
      · exact (firm found (resetSlotCountRelease_spec loosely)).reschedule conn

theorem releaseAll (inv : sched.Inv ifs loose) :
    (loose.foldl (fun sched conn => sched.releaseConn ifs conn) sched).Inv ifs [] := by
  induction loose generalizing sched with
  | nil => exact inv
  | cons conn rest ih => exact ih inv.releaseConn

theorem removeTaskGrps (inv : sched.Inv ifs []) (grps : List Nat) :
    (sched.removeTaskGrps ifs grps).Inv ifs [] :=
  (inv.takeAllOut grps).releaseAll

theorem nextAAR (inv : sched.Inv ifs []) (count : Nat) : (sched.nextAAR ifs count).2.Inv ifs [] := by
  induction count generalizing sched with
  | zero => exact inv
  | succ count ih =>
    rw [Sched.nextAAR]
    split
    · exact inv
    · next conn rest conns =>
        have turned := inv.turn conns
        simp only
        split
        · exact ih turned
        · split
          · exact ih turned
          · next ocq found =>
              have again := SharedAgain.turned (turned.shared found) (.refl _)
                (nextReady_spec sched.grp ocq.ready.length ocq.ready)
              have after := turned.setAgain found again fun _ => id
              split
              · exact ih after
              · exact after

theorem nextOCC (inv : sched.Inv ifs []) (count : Nat) : (sched.nextOCC ifs count).2.Inv ifs [] := by
  induction count generalizing sched with
  | zero => exact inv
  | succ count ih =>
    rw [Sched.nextOCC]
    split
    · exact inv
    · next conn rest conns =>
        have turned := inv.turn conns
        simp only
        split
        · exact ih turned
        · split
          · exact ih turned
          · next ocq found =>
              have after := turned.setAgain found
                (nextSwapped_spec (turned.shared found) ocq.ready.length) fun _ => id
              split
              · exact ih after
              · exact after

end Inv

end Sched

/-! ### Sequences of calls -/

def Sched.LastWaits (sched : Sched) (grp : Nat) : Prop :=
  ∃ conn ∈ sched.connOf grp, ∃ ocq ∈ sched.connQue conn, grp ∈ ocq.ready ∧ ocq.waitSlot.length = 1

instance Sched.decidableLastWaits (sched : Sched) (grp : Nat) : Decidable (sched.LastWaits grp) :=
  inferInstanceAs (Decidable (∃ conn ∈ sched.connOf grp, ∃ ocq ∈ sched.connQue conn,
    grp ∈ ocq.ready ∧ ocq.waitSlot.length = 1))

def Sched.SameSlots (sched : Sched) (conn : Nat) (numSlot : UInt32) : Prop :=
  ∀ ocq ∈ sched.connQue conn, ocq.taskGrpCount = 0 ∨ ocq.maxSlots = numSlot

instance Sched.decidableSameSlots (sched : Sched) (conn : Nat) (numSlot : UInt32) :
    Decidable (sched.SameSlots conn numSlot) :=
  inferInstanceAs (Decidable (∀ ocq ∈ sched.connQue conn, ocq.taskGrpCount = 0 ∨ ocq.maxSlots = numSlot))

/-- A group is added once, as `CreateGrpRfc` makes it, and stops after it was removed. No
call takes a ready group where exactly one group waits, or changes the slots of a
connection that has groups. -/
def SchedMove.Fits (sched : Sched) : SchedMove → Prop
  | .addTaskGrp _ grp _ =>
    grp ∉ sched.listed ∧ (sched.grp grp).maxRunning = 0 ∧ (sched.grp grp).maxPending ≠ 0 ∧
      (sched.grp grp).stopped = false
  | .removeTaskGrp grp => ¬ sched.LastWaits grp
  | .setSlotCount conn numSlot => sched.SameSlots conn numSlot
  | .create grp _ | .stop grp => grp ∉ sched.listed
  | _ => True

instance SchedMove.decidableFits (sched : Sched) (move : SchedMove) : Decidable (move.Fits sched) :=
  match move with
  | .addTaskGrp _ _ _ => inferInstanceAs (Decidable (_ ∧ _))
  | .removeTaskGrp _ => inferInstanceAs (Decidable (¬ _))
  | .setSlotCount conn numSlot => Sched.decidableSameSlots sched conn numSlot
  | .create _ _ | .stop _ => inferInstanceAs (Decidable (¬ _))
  | .start | .addConn _ _ | .removeConn _ | .removePort _ | .removeTaskGrps _ | .getNextTaskGrp _
  | .tasks _ _ _ _ => isTrue trivial

namespace Sched

theorem Inv.step {ifs : SchedIfs} {sched next : Sched} (inv : sched.Inv ifs []) {move : SchedMove}
    (fits : move.Fits sched) (moved : sched.step ifs move = some next) : next.Inv ifs [] := by
  cases move with
  | start =>
    cases moved
    refine ⟨inv.queues, inv.apart, fun conn ocq found => ?_, inv.known⟩
    obtain ⟨member, mapped⟩ := inv.mapped conn ocq found
    exact ⟨mem_append_left _ member, mapped⟩
  | addConn conn limit =>
    rw [Sched.step] at moved
    split at moved
    · cases moved
    · cases moved
      exact inv.addConn conn limit
  | removeConn conn =>
    cases moved
    exact inv.removeConn conn
  | addTaskGrp conn grp limit =>
    cases moved
    obtain ⟨new, fresh, accepts⟩ := fits
    exact inv.addTaskGrp limit new fresh accepts
  | removeTaskGrp grp =>
    cases moved
    exact inv.removeTaskGrp fun conn ocq at_ found ready one => fits ⟨conn, at_, ocq, found, ready, one⟩
  | removePort portId =>
    cases moved
    exact inv.removePort portId
  | removeTaskGrps grps =>
    cases moved
    exact inv.removeTaskGrps grps
  | setSlotCount conn numSlot =>
    cases moved
    exact inv.setSlotCount fits
  | getNextTaskGrp hint =>
    cases moved
    rw [getNextTaskGrp]
    split
    · exact inv.nextAAR _
    · split
      · exact inv.nextOCC _
      · exact inv
  | create grp taskGrp | stop grp =>
    cases moved
    refine inv.regroup fun other listed => ?_
    have apart : other ≠ grp := by
      rintro rfl
      exact fits listed
    rw [update_of_ne apart]
    exact ⟨rfl, id⟩
  | tasks grp tasks pendings noSched =>
    cases moved
    refine inv.regroup fun other _ => ?_
    by_cases same : other = grp
    · rw [same, update_self]
      exact ⟨rfl, id⟩
    · rw [update_of_ne same]
      exact ⟨rfl, id⟩

def Kept (ifs : SchedIfs) (sched : Sched) : Prop :=
  sched.Inv ifs []

end Sched

/-- Every connection is fair behind every sequence of fitting calls. -/
theorem fair_of_fits {ifs : SchedIfs} {sched : Sched}
    (reachable : ((schedMachine ifs).restrict fun sched move => move.Fits sched).Reachable sched) :
    ∀ conn ocq, sched.connQue conn = some ocq → ocq.Fair sched.grp := by
  have kept : sched.Kept ifs := by
    refine reachable.invariant ⟨nofun, nofun, nofun, nofun⟩ ?_
    intro before move after _ kept moved
    obtain ⟨fits, stepped⟩ := Machine.restrict_step.1 moved
    exact Sched.Inv.step kept fits stepped
  exact fun conn ocq found => (Sched.Inv.shared kept found).fair

/-- Interfaces that are found by their own numbers; the first is the manager's. -/
def plainIfs : SchedIfs := ⟨0, some⟩

/-- A task group of port 1, as `CreateGrpRfc` makes it. -/
def freshGrp : TaskGrp := ⟨0, rfcMaxPendings, 1, 0, false, false, some 1⟩

def threeGrps : List SchedMove :=
  [.start, .create 10 freshGrp, .create 11 freshGrp, .create 12 freshGrp,
    .addTaskGrp 1 10 (.ok (1, 1)), .addTaskGrp 1 11 (.ok (1, 1)), .addTaskGrp 1 12 (.ok (1, 1)),
    .removeTaskGrp 12]

theorem fair_threeGrps : ∃ sched,
    ((schedMachine plainIfs).restrict fun sched move => move.Fits sched).run
      (schedMachine plainIfs).start threeGrps = some sched ∧
    sched.connQue 1 = some ⟨[], [10, 11], [], 2⟩ ∧
    ∀ conn ocq, sched.connQue conn = some ocq → ocq.Fair sched.grp := by
  have ran : ((schedMachine plainIfs).restrict fun sched move => move.Fits sched).run
      (schedMachine plainIfs).start threeGrps = some _ := rfl
  exact ⟨_, ran, rfl, fair_of_fits (Machine.Reachable.start.run ran)⟩

def oneGrp : List SchedMove :=
  [.start, .create 10 freshGrp, .addTaskGrp 1 10 (.ok (16, 32))]

/-- The limit of a group stays below the count of the slots. -/
theorem oneGrp_capped : ¬ ∀ ifs sched, (schedMachine ifs).Reachable sched →
    ∀ conn ocq, sched.connQue conn = some ocq → ocq.taskGrpCount ≠ 0 →
      (ocq.ready.map fun grp => (sched.grp grp).maxRunning).sum = ocq.maxSlots.toNat := by
  intro all
  have ran : (schedMachine plainIfs).run (schedMachine plainIfs).start oneGrp = some _ := rfl
  have sum := all plainIfs _ (Machine.Reachable.start.run ran) 1 ⟨[], [10], [], 48⟩ rfl (by decide)
  exact absurd sum (by decide)

end RpcFrmwrk.Rpc
