import Mathlib.Data.List.Nodup
import RpcFrmwrk.Ipc.StreamQueue

/-! The packets of an in-process stream queue over whole runs. Owns `QueueState.Exact`, what the
packets delivered are; the effects of the queue's methods, one statement for each. -/

namespace RpcFrmwrk.Ipc

open RpcFrmwrk.Library List

/-- The request in the hand of `ProcessIrps`. -/
def Phase.request : Phase → List Nat
  | .taken irp _ | .checked irp _ => [irp]
  | _ => []

/-- The request that `ProcessIrps` has found ready, in front of its completion. -/
def Phase.found : Phase → List Nat
  | .checked irp _ => [irp]
  | _ => []

/-- The accepted packets are, in order, those delivered, the one in the hand of
`ProcessIrps` and those in the queue. Each delivery is to a request of its own, which is
completed. A request that still waits is in the queue or in the hand of `ProcessIrps`.
While `ProcessIrps` neither runs nor is scheduled, requests and packets do not both
wait. -/
structure QueueState.Exact (state : QueueState) : Prop where
  packets : state.accepted = state.delivered.map Prod.snd ++ (state.phase.held ++ state.que.pkts)
  once : (state.delivered.map Prod.fst).Nodup
  completed : ∀ entry ∈ state.delivered, state.irp entry.1 = .completed
  waiting : ∀ irp ∈ state.submitted, state.irp irp = .ready →
    irp ∈ state.phase.request ++ state.que.irps
  quiet : state.phase = .idle → state.que.irps = [] ∨ state.que.pkts = []

/-- A task is scheduled when one is needed, and no request is cancelled between the
check of its state by `ProcessIrps` and its completion. -/
def QueueMove.Fits (state : QueueState) : QueueMove → Prop
  | .queuePacket _ scheduled | .submitIrp _ scheduled => scheduled = 0
  | .cancelBegin irp => irp ∉ state.phase.found
  | _ => True

instance QueueMove.decidableFits (state : QueueState) (move : QueueMove) :
    Decidable (move.Fits state) := by
  cases move <;> unfold QueueMove.Fits <;> infer_instance

theorem found_request {phase : Phase} {irp : Nat} (member : irp ∈ phase.found) : irp ∈ phase.request := by
  cases phase with
  | checked => exact member
  | _ => cases member

namespace StreamQueue

variable {que : StreamQueue}

/-- A packet is refused, or it goes behind the others. Then a task is scheduled
exactly when requests wait and none is there. -/
theorem queuePacket_spec (que : StreamQueue) (pkt : Packet) :
    (isError (que.queuePacket pkt 0).ret = true ∧ (que.queuePacket pkt 0).task = false ∧
      (que.queuePacket pkt 0).que = que) ∨
    (isError (que.queuePacket pkt 0).ret = false ∧
      ∃ task, (que.queuePacket pkt 0).task = task ∧
        (que.queuePacket pkt 0).que =
          { que with pkts := que.pkts ++ [pkt], inProcess := que.inProcess || task } ∧
        (task = true → que.inProcess = false) ∧
        (task = false → que.inProcess = true ∨ que.irps = [])) := by
  cases pkt with
  | nil => exact .inl ⟨rfl, rfl, rfl⟩
  | cons token bytes =>
    by_cases started : que.state = .started
    · by_cases full : stmMaxQueueSize ≤ que.pkts.length
      · rw [queuePacket, if_neg (not_not_intro started), if_pos full]
        exact .inl ⟨rfl, rfl, rfl⟩
      · rw [queuePacket, if_neg (not_not_intro started), if_neg full]
        right
        by_cases none : (que.inProcess || que.irps.isEmpty) = true
        · rw [if_pos none]
          refine ⟨rfl, false, rfl, ?_, nofun, fun _ => ?_⟩
          · rw [Bool.or_false]
          · rwa [Bool.or_eq_true, List.isEmpty_iff] at none
        · rw [if_neg none]
          rw [Bool.or_eq_true, not_or, Bool.not_eq_true] at none
          refine ⟨rfl, true, rfl, ?_, fun _ => none.1, nofun⟩
          rw [Bool.or_true]
          rfl
    · rw [queuePacket, if_pos started]
      exact .inl ⟨rfl, rfl, rfl⟩

/-- A request fails; it waits, and then a task is there when packets wait too; or
it gets the first packet, while no other request waits. -/
theorem submitIrp_spec (que : StreamQueue) (irp : Nat)
    (quiet : que.inProcess = false → que.irps = [] ∨ que.pkts = []) :
    ((que.submitIrp irp 0).ret ≠ statusPending ∧ (que.submitIrp irp 0).response = none ∧
      (que.submitIrp irp 0).task = false ∧ (que.submitIrp irp 0).que = que) ∨
    ((que.submitIrp irp 0).ret = statusPending ∧ (que.submitIrp irp 0).response = none ∧
      (que.submitIrp irp 0).task = false ∧
      (que.submitIrp irp 0).que = { que with irps := que.irps ++ [irp] } ∧
      (que.inProcess = false → que.pkts = [])) ∨
    (∃ pkt pkts, (que.submitIrp irp 0).ret ≠ statusPending ∧
      (que.submitIrp irp 0).response = some pkt ∧ (que.submitIrp irp 0).task = false ∧
      (que.submitIrp irp 0).que = { que with pkts := pkts } ∧
      que.pkts = pkt :: pkts ∧ que.irps = [] ∧ que.inProcess = false) := by
  by_cases started : que.state = .started
  · by_cases full : stmMaxQueueSize ≤ que.irps.length
    · rw [submitIrp, if_neg (not_not_intro started), if_pos full]
      exact .inl ⟨show errorQueueFull ≠ statusPending by decide, rfl, rfl, rfl⟩
    · by_cases waits : (que.inProcess || que.pkts.isEmpty) = true
      · rw [submitIrp, if_neg (not_not_intro started), if_neg full, if_pos waits]
        refine .inr (.inl ⟨rfl, rfl, rfl, rfl, fun free => ?_⟩)
        rwa [free, Bool.false_or, List.isEmpty_iff] at waits
      · rw [Bool.or_eq_true, not_or, Bool.not_eq_true, List.isEmpty_iff] at waits
        have alone : que.irps = [] := (quiet waits.1).resolve_right waits.2
        have skip : ¬(que.inProcess || que.pkts.isEmpty) = true := by
          rwa [Bool.or_eq_true, not_or, Bool.not_eq_true, List.isEmpty_iff]
        rw [submitIrp, if_neg (not_not_intro started), if_neg full, if_neg skip,
          if_neg (not_not_intro (length_eq_zero_iff.2 alone))]
        cases next : que.pkts with
        | nil => exact absurd next waits.2
        | cons pkt pkts =>
          exact .inr (.inr ⟨pkt, pkts, show statusSuccess ≠ statusPending by decide, rfl, rfl, rfl, rfl, alone, waits.1⟩)
  · rw [submitIrp, if_pos started]
    exact .inl ⟨show errorState ≠ statusPending by decide, rfl, rfl, rfl⟩

/-- The loop takes the first request with the first packet, or it ends when one of
the two is missing. -/
theorem processNext_spec (que : StreamQueue) :
    (∃ irp irps pkt pkts, que.irps = irp :: irps ∧ que.pkts = pkt :: pkts ∧
      que.processNext = (some (irp, pkt), { que with irps := irps, pkts := pkts })) ∨
    ((que.irps = [] ∨ que.pkts = []) ∧ que.processNext = (none, { que with inProcess := false })) := by
  cases requests : que.irps with
  | nil => exact .inr ⟨.inl rfl, by rw [processNext, requests]⟩
  | cons irp irps =>
    cases packets : que.pkts with
    | nil => exact .inr ⟨.inr rfl, by rw [processNext, requests, packets]⟩
    | cons pkt pkts =>
      exact .inl ⟨irp, irps, pkt, pkts, rfl, rfl, by rw [processNext, requests, packets]⟩

theorem removeIrpFromMap_spec (que : StreamQueue) (irp : Nat) :
    (que.removeIrpFromMap irp).2 = que ∨
      irp ∈ que.irps ∧ (que.removeIrpFromMap irp).2 = { que with irps := que.irps.erase irp } := by
  unfold removeIrpFromMap
  by_cases stopped : que.state = .stopped
  · rw [if_pos stopped]
    exact .inl rfl
  · rw [if_neg stopped]
    by_cases member : irp ∈ que.irps
    · rw [if_pos member]
      exact .inr ⟨member, rfl⟩
    · rw [if_neg member]
      exact .inl rfl

end StreamQueue

structure QueueState.Coherent (state : QueueState) : Prop extends state.Exact where
  started : state.que.state = .started
  flag : state.que.inProcess = false ↔ state.phase = .idle
  fresh : ∀ irp, irp ∉ state.submitted → state.irp irp = .ready
  known : ∀ irp ∈ state.phase.request ++ state.que.irps, irp ∈ state.submitted
  found : ∀ irp ∈ state.phase.found, state.irp irp = .ready

namespace QueueState.Coherent

variable {state : QueueState}
variable {irp : Nat} {next : QueueState}

theorem loop (coherent : state.Coherent) (que : StreamQueue) (started : que.state = .started)
    (packets : state.accepted = state.delivered.map Prod.snd ++ que.pkts)
    (waiting : ∀ irp ∈ state.submitted, state.irp irp = .ready → irp ∈ que.irps)
    (known : ∀ irp ∈ que.irps, irp ∈ state.submitted) (task : que.inProcess = true) :
    (state.loop que.processNext).Coherent := by
  rcases que.processNext_spec with ⟨irp, irps, pkt, pkts, requests, first, next⟩ | ⟨ends, next⟩
  · rw [next]
    rw [requests] at waiting known
    rw [first] at packets
    exact ⟨⟨packets, coherent.once, coherent.completed, waiting, nofun⟩, started,
      ⟨fun free => absurd (task.symm.trans free) (by decide), nofun⟩, coherent.fresh, known, nofun⟩
  · rw [next]
    exact ⟨⟨packets, coherent.once, coherent.completed, waiting, fun _ => ends⟩, started,
      ⟨fun _ => rfl, fun _ => rfl⟩, coherent.fresh, known, nofun⟩

theorem update (coherent : state.Coherent) {new : IrpState}
    (apart : irp ∉ state.phase.found) (known : irp ∈ state.submitted) (busy : new ≠ .ready)
    (undone : state.irp irp ≠ .completed) :
    ({ state with irp := Function.update state.irp irp new } : QueueState).Coherent := by
  refine ⟨⟨coherent.packets, coherent.once, ?_, ?_, coherent.quiet⟩, coherent.started,
    coherent.flag, ?_, coherent.known, ?_⟩
  · intro entry member
    have done := coherent.completed entry member
    have other : entry.1 ≠ irp := fun same => undone (same ▸ done)
    exact (Function.update_of_ne other new state.irp).trans done
  · intro other member ready
    by_cases same : other = irp
    · subst same
      exact absurd ((Function.update_self other new state.irp).symm.trans ready) busy
    · exact coherent.waiting other member ((Function.update_of_ne same new state.irp).symm.trans ready)
  · intro other never
    have apart : other ≠ irp := fun same => never (same ▸ known)
    exact (Function.update_of_ne apart new state.irp).trans (coherent.fresh other never)
  · intro other member
    have apart : other ≠ irp := fun same => apart (same ▸ member)
    exact (Function.update_of_ne apart new state.irp).trans (coherent.found other member)

theorem queuePacket (coherent : state.Coherent) {pkt : Packet}
    (moved : state.step (.queuePacket pkt 0) = some next) : next.Coherent := by
  cases moved
  rcases state.que.queuePacket_spec pkt with ⟨refused, none, same⟩ |
    ⟨taken, task, scheduled, que, fresh, enough⟩
  · rw [refused, none, same]
    exact coherent
  · rw [taken, scheduled, que]
    have packets : state.accepted ++ [pkt] =
        state.delivered.map Prod.snd ++ (state.phase.held ++ (state.que.pkts ++ [pkt])) := by
      rw [coherent.packets, append_assoc, append_assoc]
    cases task with
    | true =>
      have idle : state.phase = .idle := coherent.flag.1 (fresh rfl)
      have waiting := coherent.waiting
      have known := coherent.known
      rw [idle] at packets waiting known
      exact ⟨⟨packets, coherent.once, coherent.completed, waiting, nofun⟩, coherent.started,
        ⟨fun free => absurd ((Bool.or_true _).symm.trans free) (by decide), nofun⟩,
        coherent.fresh, known, nofun⟩
    | false =>
      refine ⟨⟨packets, coherent.once, coherent.completed, coherent.waiting, fun idle => ?_⟩,
        coherent.started, ?_, coherent.fresh, coherent.known, coherent.found⟩
      · refine .inl ((enough rfl).resolve_left fun busy => ?_)
        exact absurd ((coherent.flag.2 idle).symm.trans busy) (by decide)
      · show (state.que.inProcess || false) = false ↔ _
        rw [Bool.or_false]
        exact coherent.flag

theorem answered (coherent : state.Coherent) (new : irp ∉ state.submitted)
    (pkts : List Packet) (served : List Packet) (delivered : List (Nat × Packet))
    (answer : delivered = state.delivered ++ served.map fun pkt => (irp, pkt))
    (single : served.length ≤ 1)
    (packets : state.accepted = delivered.map Prod.snd ++ (state.phase.held ++ pkts))
    (quiet : state.phase = .idle → state.que.irps = [] ∨ pkts = []) :
    ({ state with
      que := { state.que with pkts := pkts }
      irp := Function.update state.irp irp .completed
      submitted := irp :: state.submitted
      delivered := delivered } : QueueState).Coherent := by
  have undone (entry : Nat × Packet) (member : entry ∈ state.delivered) : entry.1 ≠ irp := by
    intro same
    have completed := coherent.completed entry member
    rw [same, coherent.fresh irp new] at completed
    cases completed
  have kept (other : Nat) (apart : other ≠ irp) :
      Function.update state.irp irp .completed other = state.irp other :=
    Function.update_of_ne apart .completed state.irp
  refine ⟨⟨packets, ?_, ?_, ?_, quiet⟩, coherent.started, coherent.flag, ?_, ?_, ?_⟩
  · show (delivered.map Prod.fst).Nodup
    rw [answer, map_append, map_map]
    refine List.Nodup.append coherent.once ?_ ?_
    · match served, single with
      | [], _ => exact nodup_nil
      | [pkt], _ => exact nodup_singleton irp
    · intro other old later
      obtain ⟨entry, member, rfl⟩ := mem_map.1 old
      obtain ⟨pkt, _, same⟩ := mem_map.1 later
      exact undone entry member same.symm
  · intro entry member
    rw [answer] at member
    rcases mem_append.1 member with old | later
    · exact (kept entry.1 (undone entry old)).trans (coherent.completed entry old)
    · obtain ⟨pkt, _, rfl⟩ := mem_map.1 later
      exact Function.update_self irp .completed state.irp
  · intro other member ready
    rcases mem_cons.1 member with rfl | old
    · cases (Function.update_self other .completed state.irp).symm.trans ready
    · have apart : other ≠ irp := fun same => new (same ▸ old)
      exact coherent.waiting other old ((kept other apart).symm.trans ready)
  · intro other never
    rw [mem_cons, not_or] at never
    exact (kept other never.1).trans (coherent.fresh other never.2)
  · intro other member
    exact mem_cons_of_mem irp (coherent.known other member)
  · intro other member
    have ready := coherent.found other member
    by_cases same : other = irp
    · subst same
      exact absurd (coherent.known other (mem_append_left _ (found_request member))) new
    · exact (kept other same).trans ready

theorem submitIrp (coherent : state.Coherent)
    (moved : state.step (.submitIrp irp 0) = some next) : next.Coherent := by
  rw [QueueState.step] at moved
  obtain ⟨new, ⟨⟩⟩ := Option.ite_none_left_eq_some.1 moved
  have quiet : state.que.inProcess = false → state.que.irps = [] ∨ state.que.pkts = [] :=
    fun free => coherent.quiet (coherent.flag.1 free)
  rcases state.que.submitIrp_spec irp quiet with ⟨failed, none, task, que⟩ |
    ⟨pending, none, task, que, empty⟩ | ⟨pkt, pkts, done, response, task, que, packets, irps, free⟩
  · rw [none, task, que, if_neg failed]
    exact coherent.answered new state.que.pkts [] state.delivered (append_nil _).symm
      (by decide) coherent.packets coherent.quiet
  · rw [none, task, que, if_pos pending]
    refine ⟨⟨coherent.packets, coherent.once, coherent.completed, ?_, ?_⟩, coherent.started,
      coherent.flag, ?_, ?_, coherent.found⟩
    · intro other member ready
      show other ∈ state.phase.request ++ (state.que.irps ++ [irp])
      rw [← append_assoc]
      rcases mem_cons.1 member with rfl | old
      · exact mem_append_right _ (mem_singleton_self other)
      · exact mem_append_left _ (coherent.waiting other old ready)
    · exact fun idle => .inr (empty (coherent.flag.2 idle))
    · intro other never
      exact coherent.fresh other fun old => never (mem_cons_of_mem irp old)
    · intro other member
      replace member : other ∈ state.phase.request ++ (state.que.irps ++ [irp]) := member
      rw [← append_assoc] at member
      rcases mem_append.1 member with old | last
      · exact mem_cons_of_mem irp (coherent.known other old)
      · rw [mem_singleton.1 last]
        exact mem_cons_self
  · rw [response, task, que, if_neg done]
    have idle : state.phase = .idle := coherent.flag.1 free
    refine coherent.answered new pkts [pkt] _ rfl (Nat.le_refl 1) ?_ fun _ => .inl irps
    have accepted := coherent.packets
    rw [packets, idle] at accepted
    rw [idle, map_append, accepted, append_assoc]
    rfl

theorem cancelEnd (coherent : state.Coherent)
    (moved : state.step (.cancelEnd irp) = some next) : next.Coherent := by
  obtain ⟨busy, ⟨⟩⟩ := Option.ite_none_right_eq_some.1 moved
  have submitted : irp ∈ state.submitted := by
    by_contra never
    rw [coherent.fresh irp never] at busy
    cases busy
  have apart : irp ∉ state.phase.found := fun member => by
    rw [coherent.found irp member] at busy
    cases busy
  have updated := coherent.update apart submitted (show IrpState.cancelled ≠ .ready by decide)
    (by rw [busy]; decide)
  rcases state.que.removeIrpFromMap_spec irp with same | ⟨member, que⟩
  · rw [same]
    exact updated
  · rw [que]
    refine ⟨⟨updated.packets, updated.once, updated.completed, ?_, ?_⟩, updated.started,
      updated.flag, updated.fresh, ?_, updated.found⟩
    · intro other member ready
      have waits := updated.waiting other member ready
      have other_ne : other ≠ irp := fun same => by
        subst same
        cases (Function.update_self other .cancelled state.irp).symm.trans ready
      rcases mem_append.1 waits with hand | queued
      · exact mem_append_left _ hand
      · exact mem_append_right _ ((mem_erase_of_ne other_ne).2 queued)
    · intro idle
      refine (updated.quiet idle).imp_left fun (empty : state.que.irps = []) => ?_
      rw [empty] at member
      cases member
    · intro other member
      rcases mem_append.1 member with hand | queued
      · exact updated.known other (mem_append_left _ hand)
      · exact updated.known other (mem_append_right _ (mem_of_mem_erase queued))
theorem cancelBegin (coherent : state.Coherent) (apart : irp ∉ state.phase.found)
    (moved : state.step (.cancelBegin irp) = some next) : next.Coherent := by
  obtain ⟨ready, ⟨⟩⟩ := Option.ite_none_right_eq_some.1 moved
  exact coherent.update apart ready.1 (by decide) (by rw [ready.2]; decide)
theorem complete (coherent : state.Coherent) {pkt : Packet}
    (packets : state.accepted = state.delivered.map Prod.snd ++ (pkt :: state.que.pkts))
    (waiting : ∀ other ∈ state.submitted, state.irp other = .ready → other ∈ irp :: state.que.irps)
    (known : ∀ other ∈ irp :: state.que.irps, other ∈ state.submitted)
    (ready : state.irp irp = .ready) (task : state.que.inProcess = true) :
    ({ state with
      phase := .handled none
      irp := Function.update state.irp irp .completed
      delivered := state.delivered ++ [(irp, pkt)] } : QueueState).Coherent := by
  have undone (entry : Nat × Packet) (member : entry ∈ state.delivered) : entry.1 ≠ irp := by
    intro same
    have completed := coherent.completed entry member
    rw [same, ready] at completed
    cases completed
  have kept (other : Nat) (apart : other ≠ irp) :
      Function.update state.irp irp .completed other = state.irp other :=
    Function.update_of_ne apart .completed state.irp
  refine ⟨⟨?_, ?_, ?_, ?_, nofun⟩, coherent.started,
    ⟨fun free => absurd (task.symm.trans free) (by decide), nofun⟩, ?_, ?_, nofun⟩
  · show state.accepted = (state.delivered ++ [(irp, pkt)]).map Prod.snd ++ state.que.pkts
    rw [packets, map_append, append_assoc]
    rfl
  · show ((state.delivered ++ [(irp, pkt)]).map Prod.fst).Nodup
    rw [map_append]
    refine List.Nodup.append coherent.once (nodup_singleton irp) ?_
    intro other old last
    obtain ⟨entry, member, rfl⟩ := mem_map.1 old
    exact undone entry member (mem_singleton.1 last)
  · exact forall_mem_append.2 ⟨fun entry old => (kept entry.1 (undone entry old)).trans (coherent.completed entry old),
      forall_mem_singleton.2 (Function.update_self irp .completed state.irp)⟩
  · intro other member free
    by_cases same : other = irp
    · subst same
      cases (Function.update_self other .completed state.irp).symm.trans free
    · have waits := waiting other member ((kept other same).symm.trans free)
      exact (mem_cons.1 waits).resolve_left same
  · intro other never
    have apart : other ≠ irp := fun same => never (same ▸ known irp mem_cons_self)
    exact (kept other apart).trans (coherent.fresh other never)
  · exact fun other member => known other (mem_cons_of_mem irp member)

theorem process (coherent : state.Coherent) (moved : state.process = some next) : next.Coherent := by
  have packets := coherent.packets
  have waiting := coherent.waiting
  have known := coherent.known
  have found := coherent.found
  have task : state.phase ≠ .idle → state.que.inProcess = true := fun busy =>
    eq_true_of_ne_false fun free => busy (coherent.flag.1 free)
  rw [QueueState.process] at moved
  cases phase : state.phase with
  | idle =>
    rw [phase] at moved
    cases moved
  | scheduled =>
    rw [phase] at moved packets waiting known task
    cases moved
    have runs : state.que.processBegin = state.que.processNext := by
      rw [StreamQueue.processBegin, if_neg (by rw [coherent.started]; decide), ← task nofun]
    rw [runs]
    exact coherent.loop state.que coherent.started packets waiting known (task nofun)
  | taken irp pkt =>
    rw [phase] at moved packets waiting known task
    simp only at moved
    by_cases locked : state.irp irp = .cancelling
    · rw [if_pos locked] at moved
      cases moved
    rw [if_neg locked] at moved
    by_cases ready : state.irp irp = .ready
    · rw [ready, IrpState.canContinue_ready, if_neg (by decide)] at moved
      cases moved
      refine ⟨⟨packets, coherent.once, coherent.completed, waiting, nofun⟩, coherent.started,
        ⟨fun free => absurd ((task nofun).symm.trans free) (by decide), nofun⟩,
        coherent.fresh, known, ?_⟩
      intro other member
      rw [mem_singleton.1 member]
      exact ready
    · rw [if_pos (IrpState.canContinue_of_ne ready .ready).1] at moved
      cases moved
      refine ⟨⟨packets, coherent.once, coherent.completed, ?_, nofun⟩, coherent.started,
        ⟨fun free => absurd ((task nofun).symm.trans free) (by decide), nofun⟩,
        coherent.fresh, ?_, nofun⟩
      · intro other member free
        rcases mem_cons.1 (waiting other member free) with rfl | queued
        · exact absurd free ready
        · exact queued
      · exact fun other member => known other (mem_cons_of_mem irp member)
  | checked irp pkt =>
    rw [phase] at moved packets waiting known task found
    simp only at moved
    have ready : state.irp irp = .ready := found irp mem_cons_self
    rw [if_neg (by rw [ready]; decide), if_pos ready] at moved
    cases moved
    exact coherent.complete packets waiting known ready (task nofun)
  | handled putBack =>
    rw [phase] at moved packets waiting known task
    cases putBack with
    | some pkt =>
      cases moved
      exact coherent.loop { state.que with pkts := pkt :: state.que.pkts } coherent.started packets
        waiting known (task nofun)
    | none =>
      replace moved : (if state.que.pkts.length == stmMaxQueueSize - 1 then
        some { state with phase := .notifying } else some (state.loop state.que.processNext)) =
          some next := moved
      split at moved
      · cases moved
        exact ⟨⟨packets, coherent.once, coherent.completed, waiting, nofun⟩, coherent.started,
          ⟨fun free => absurd ((task nofun).symm.trans free) (by decide), nofun⟩,
          coherent.fresh, known, nofun⟩
      · cases moved
        exact coherent.loop state.que coherent.started packets waiting known (task nofun)
  | notifying =>
    rw [phase] at moved packets waiting known task
    cases moved
    exact coherent.loop state.que coherent.started packets waiting known (task nofun)

theorem step (coherent : state.Coherent) {move : QueueMove} (fits : move.Fits state)
    (moved : state.step move = some next) : next.Coherent := by
  cases move with
  | queuePacket pkt scheduled =>
    cases (fits : scheduled = 0)
    exact coherent.queuePacket moved
  | submitIrp irp scheduled =>
    cases (fits : scheduled = 0)
    exact coherent.submitIrp moved
  | cancelBegin irp => exact coherent.cancelBegin fits moved
  | cancelEnd irp => exact coherent.cancelEnd moved
  | process => exact coherent.process moved

end QueueState.Coherent

theorem queueMachine_start : queueMachine.start.Coherent :=
  ⟨⟨rfl, nodup_nil, nofun, nofun, fun _ => .inl rfl⟩, rfl, ⟨fun _ => rfl, fun _ => rfl⟩,
    fun _ _ => rfl, nofun, nofun⟩

/-- The packets of a queue, in every run whose steps meet the condition. -/
theorem exact_of_fits {state : QueueState}
    (reachable : (queueMachine.restrict fun state move => move.Fits state).Reachable state) :
    state.Exact := by
  have coherent : state.Coherent := by
    refine reachable.invariant queueMachine_start ?_
    intro before move after _ coherent moved
    obtain ⟨fits, stepped⟩ := Machine.restrict_step.1 moved
    exact coherent.step fits stepped
  exact coherent.toExact

def waitThenPacket : List QueueMove :=
  [.submitIrp 0 0, .queuePacket [7, 1] 0, .process, .process, .process, .process]

theorem exact_waitThenPacket : QueueState.Exact
    ⟨.start, .idle, Function.update (fun _ => .ready) 0 .completed, [0], [[7, 1]], [(0, [7, 1])]⟩ := by
  have ran : (queueMachine.restrict fun state move => move.Fits state).run queueMachine.start
      waitThenPacket = some ⟨.start, .idle, Function.update (fun _ => .ready) 0 .completed, [0],
        [[7, 1]], [(0, [7, 1])]⟩ := rfl
  exact exact_of_fits (Machine.Reachable.start.run ran)

/-- The request is cancelled between the check of its state by `ProcessIrps` and its
completion. -/
def cancelBehindCheck : List QueueMove :=
  [.submitIrp 0 0, .queuePacket [7, 1] 0, .process, .process, .cancelBegin 0, .cancelEnd 0, .process,
    .process]

/-- The accepted packet is neither delivered nor in the queue. -/
theorem cancelBehindCheck_loses_packet :
    ¬ ∀ state, queueMachine.Reachable state → state.Exact := by
  intro all
  have ran : queueMachine.run queueMachine.start cancelBehindCheck =
      some ⟨.start, .idle,
        Function.update (Function.update (fun _ => .ready) 0 .cancelling) 0 .cancelled, [0],
        [[7, 1]], []⟩ := rfl
  have lost := (all _ (Machine.Reachable.start.run ran)).packets
  cases lost

end RpcFrmwrk.Ipc
