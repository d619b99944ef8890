import RpcFrmwrk.Rpc.RouterRefs

/-! When the routers answer with the number of outstanding references. Owns the calls that are
answered rightly, for each router; `right_of_fits`. -/

namespace RpcFrmwrk.Rpc

open RpcFrmwrk.Library RpcFrmwrk.Library.Counted List

variable {bits port : Nat} {node : RouterName} {state next : RefState PortNode Nat}
    {call : BridgeCall}

theorem asInt32_small (small : bits < 2147483648) : asInt32 bits = bits := by
  unfold asInt32
  rw [Nat.mod_eq_of_lt (by omega), if_pos small]

theorem increment32_small (small : bits < 2147483648) : increment32 bits = bits + 1 :=
  Nat.mod_eq_of_lt (by omega)

theorem decrement32_small (some : 0 < bits) (small : bits < 2147483648) : decrement32 bits = bits - 1 := by
  unfold decrement32
  omega

theorem BridgeRefs.nodeLoop_quiet {table : BridgeRefs}
    (none : ∀ entry ∈ table, entry.key.node ≠ node) (sum : Nat) :
    nodeLoop node (table.length + 1) table sum = some sum := by
  induction table with
  | nil => rfl
  | cons first table ih =>
    rw [length_cons, nodeLoop, if_neg (none first mem_cons_self)]
    exact ih fun entry later => none entry (mem_cons_of_mem _ later)

section

variable {κ ι : Type}

/-- The table stands for the bag, the counts are positive 32-bit numbers, and every answer was right. -/
structure RefState.Sound (state : RefState κ ι) : Prop where
  represents : Represents state.table state.bag
  small : state.bag.length < 2147483648
  right : ∀ answer ∈ state.answers, answer.Right

theorem sound_start : (RefState.start κ ι).Sound :=
  ⟨represents_empty, Nat.succ_pos _, forall_mem_nil _⟩

variable {state : RefState κ ι}

theorem RefState.Sound.sum_le (sound : state.Sound) (wanted : κ → ι → Bool) :
    sumWhere wanted state.table < 2147483648 := by
  rw [sound.represents.sums]
  exact Nat.lt_of_le_of_lt countP_le_length sound.small

theorem RefState.Sound.count_small (sound : state.Sound) {entry : Counted κ ι}
    (member : entry ∈ state.table) :
    entry.count < 2147483648 :=
  Nat.lt_of_le_of_lt (@count_le_sumWhere _ _ (fun _ _ => true) _ _ member rfl) (sound.sum_le _)

theorem RefState.Sound.clear (sound : state.Sound) (keep : κ → ι → Bool) :
    RefState.Sound ⟨state.table.filter fun entry => keep entry.key entry.info,
      state.bag.filter fun held => keep held.1 held.2, state.answers⟩ :=
  ⟨sound.represents.clear keep, Nat.lt_of_le_of_lt (length_filter_le _ _) sound.small, sound.right⟩

theorem RefState.Sound.answer (sound : state.Sound) {answer : RefAnswer} (right : answer.Right) :
    RefState.Sound { state with answers := answer :: state.answers } :=
  ⟨sound.represents, sound.small, forall_mem_cons.2 ⟨right, sound.right⟩⟩

theorem RefState.Sound.right_sum (sound : state.Sound) (wanted : κ → ι → Bool) :
    RefAnswer.Right ⟨some (.ok (asInt32 (sumWhere wanted state.table))),
      state.bag.countP fun held => wanted held.1 held.2⟩ := by
  refine ⟨_, rfl, fun count same => ?_⟩
  cases same
  rw [asInt32_small (sound.sum_le wanted), sound.represents.sums]

variable [DecidableEq κ] [DecidableEq ι]

theorem dropFrom_length (bag : List (κ × ι)) (key : κ) : (dropFrom bag key).length ≤ bag.length := by
  unfold dropFrom
  split
  · exact Nat.le_refl _
  · exact length_erase_le

theorem RefState.Sound.insert (sound : state.Sound) (room : state.bag.length + 1 < 2147483648)
    {key : κ} (info : ι)
    (absent : find state.table key = none) :
    RefState.Sound ⟨⟨key, info, 1⟩ :: state.table, addTo state.bag key info, state.answers⟩ :=
  ⟨sound.represents.insert info absent, room, sound.right⟩

theorem RefState.Sound.increment (sound : state.Sound) (room : state.bag.length + 1 < 2147483648)
    {key : κ} (info : ι)
    {entry : Counted κ ι} (found : find state.table key = some entry) :
    RefState.Sound ⟨setCount state.table key (increment32 entry.count), addTo state.bag key info, state.answers⟩ := by
  rw [increment32_small (sound.count_small (find_mem found).1)]
  exact ⟨sound.represents.increment info found, room, sound.right⟩

theorem RefState.Sound.decrement (sound : state.Sound) {key : κ} {entry : Counted κ ι}
    (found : find state.table key = some entry) (several : entry.count ≠ 1) {wanted : κ → Bool}
    (holds : wanted key = true)
    (only : ∀ other ∈ state.table, wanted other.key = true → other.key = key) :
    0 < asInt32 (decrement32 entry.count) ∧
      RefState.Sound ⟨setCount state.table key (decrement32 entry.count), dropFrom state.bag key,
        ⟨some (.ok (max (asInt32 (decrement32 entry.count)) 0)),
          (dropFrom state.bag key).countP fun held => wanted held.1⟩ :: state.answers⟩ := by
  obtain ⟨member, rfl⟩ := find_mem found
  have some := sound.represents.positive entry member
  have small := sound.count_small member
  rw [decrement32_small some small, asInt32_small (by omega)]
  have left := sound.represents.decrement found (by omega)
  have bound := Nat.lt_of_le_of_lt (dropFrom_length state.bag entry.key) sound.small
  have before : sumWhere (fun key _ => wanted key) state.table = entry.count :=
    sumWhere_only sound.represents.unique member holds only
  have after := @sumWhere_setCount _ _ _ _ (fun key _ => wanted key) _ sound.represents.unique member (entry.count - 1)
  rw [if_pos holds, if_pos holds, before] at after
  refine ⟨by omega, left, bound, forall_mem_cons.2 ⟨⟨_, rfl, fun count same => ?_⟩, sound.right⟩⟩
  cases same
  show max _ _ = (((dropFrom state.bag entry.key).countP fun held => wanted held.1 : Nat) : Int)
  rw [← left.sums fun key _ => wanted key]
  omega

/-- The last reference to a key. The answer is the sum over a condition that does not tell the other keys from the
wanted ones. -/
theorem RefState.Sound.removeLast (sound : state.Sound) {key : κ} {entry : Counted κ ι}
    (found : find state.table key = some entry) (last : entry.count = 1) {wanted : κ → Bool}
    {counted : κ → ι → Bool}
    (alike : ∀ other ∈ state.table, other.key ≠ key → counted other.key other.info = wanted other.key) :
    asInt32 (decrement32 entry.count) ≤ 0 ∧
      RefState.Sound ⟨erase state.table key, dropFrom state.bag key,
        ⟨some (.ok (max (asInt32 (sumWhere counted (erase state.table key))) 0)),
          (dropFrom state.bag key).countP fun held => wanted held.1⟩ :: state.answers⟩ := by
  have left := sound.represents.removeLast found last
  have bound := Nat.lt_of_le_of_lt (dropFrom_length state.bag key) sound.small
  have same : sumWhere counted (erase state.table key) = sumWhere (fun key _ => wanted key) (erase state.table key) := by
    refine sumWhere_congr fun other inRest => ?_
    obtain ⟨inTable, differs⟩ := mem_filter.1 inRest
    exact alike other inTable (of_decide_eq_true differs)
  have total : sumWhere (fun key _ => wanted key) (erase state.table key) ≤ (dropFrom state.bag key).length := by
    rw [left.sums]
    exact countP_le_length
  refine ⟨by rw [last]; decide, left, bound, forall_mem_cons.2 ⟨⟨_, rfl, fun count equal => ?_⟩, sound.right⟩⟩
  cases equal
  rw [same, asInt32_small (by omega)]
  show max _ _ = (((dropFrom state.bag key).countP fun held => wanted held.1 : Nat) : Int)
  rw [← left.sums fun key _ => wanted key]
  omega

theorem right_error (ret : Status) (outstanding : Nat) : RefAnswer.Right ⟨some (.error ret), outstanding⟩ :=
  ⟨_, rfl, fun _ never => by cases never⟩

end

/-- A call that the bridge router answers rightly, in a state: the order of the keys that are compared is one; fewer
than 2^31 references are held; a reference is dropped by the only user of its node, or is one of several to the only
key of its node, or is the last one to its key and all other keys have the same node; and the references to a node are
asked for only where there are none. -/
def BridgeCall.fits (state : RefState PortNode Nat) (call : BridgeCall) : Bool :=
  decide (PortNode.Ordered (call.lookup ++ state.table.map Counted.key)) &&
    match call with
    | .addRefCount _ _ _ _ => state.bag.length + 1 < 2147483648
    | .decRefCount node port =>
      match find state.table ⟨port, node⟩ with
      | none => true
      | some entry =>
        if entry.count = 1 then
          state.table.all fun other => decide (other.key = ⟨port, node⟩) || decide (other.key.node = node)
        else state.table.all fun other => decide (other.key = ⟨port, node⟩) || decide (other.key.node ≠ node)
    | .getRefCountByNodeName node => decide (node = []) || state.table.all fun entry => decide (entry.key.node ≠ node)
    | _ => true

theorem bridgeStep_ordered (fits : call.fits state = true) :
    PortNode.Ordered (call.lookup ++ state.table.map Counted.key) :=
  of_decide_eq_true (Bool.and_eq_true_iff.1 fits).1

theorem sound_addRefCount_bridge (sound : state.Sound)
    {proxyId : Nat} {proxyFound : Bool}
    (fits : (BridgeCall.addRefCount node port proxyId proxyFound).fits state = true)
    (moved : bridgeStep state (.addRefCount node port proxyId proxyFound) = some next) : next.Sound := by
  have room : state.bag.length + 1 < 2147483648 := of_decide_eq_true (Bool.and_eq_true_iff.1 fits).2
  rw [bridgeStep, if_neg (not_not_intro (bridgeStep_ordered fits))] at moved
  cases moved
  dsimp only [BridgeRefs.addRefCount]
  split
  · exact sound
  · split
    · exact sound
    · split
      · exact sound.insert room proxyId ‹_›
      · exact sound.increment room proxyId ‹_›

theorem sound_decRefCount_bridge (sound : state.Sound)
    (fits : (BridgeCall.decRefCount node port).fits state = true)
    (moved : bridgeStep state (.decRefCount node port) = some next) : next.Sound := by
  have condition := (Bool.and_eq_true_iff.1 fits).2
  rw [bridgeStep, if_neg (not_not_intro (bridgeStep_ordered fits))] at moved
  cases moved
  dsimp only [BridgeRefs.decRefCount] at condition ⊢
  by_cases invalid : port = 0 ∨ node = []
  · rw [if_pos invalid]
    exact sound.answer (right_error _ _)
  rw [if_neg invalid]
  cases found : find state.table ⟨port, node⟩ with
  | none => exact sound.answer (right_error _ _)
  | some entry =>
    rw [found] at condition
    dsimp only at condition ⊢
    by_cases last : entry.count = 1
    · rw [if_pos last, all_eq_true] at condition
      have removed := @RefState.Sound.removeLast _ _ state _ _ sound _ _ found last (fun key => decide (key.node = node))
        (fun _ _ => decide (node = node)) fun other member differs => by
          have same := condition other member
          rw [decide_eq_false differs, Bool.false_or] at same
          rw [same]
          exact decide_eq_true rfl
      rw [if_pos removed.1]
      exact removed.2
    · rw [if_neg last, all_eq_true] at condition
      have less := @RefState.Sound.decrement _ _ state _ _ sound _ _ found last (fun key => decide (key.node = node))
        (decide_eq_true rfl) fun other member same => by
          have alone := condition other member
          rw [decide_eq_false (not_not_intro (of_decide_eq_true same)), Bool.or_false] at alone
          exact of_decide_eq_true alone
      rw [if_neg (Int.not_le.2 less.1)]
      exact less.2

theorem sound_getRefCountByNodeName (sound : state.Sound)
    (fits : (BridgeCall.getRefCountByNodeName node).fits state = true) :
    RefAnswer.Right ⟨BridgeRefs.getRefCountByNodeName state.table node,
      state.bag.countP fun held => held.1.node = node⟩ := by
  have condition := (Bool.and_eq_true_iff.1 fits).2
  unfold BridgeRefs.getRefCountByNodeName
  by_cases empty : node = []
  · rw [if_pos empty]
    exact right_error _ _
  rw [if_neg empty]
  dsimp only at condition
  rw [decide_eq_false empty, Bool.false_or, all_eq_true] at condition
  have absent : ∀ entry ∈ state.table, entry.key.node ≠ node := fun entry member => of_decide_eq_true (condition entry member)
  rw [BridgeRefs.nodeLoop_quiet absent, Option.map_some]
  refine ⟨_, rfl, fun count same => ?_⟩
  cases same
  have none : sumWhere (fun key _ => decide (key.node = node)) state.table = 0 := by
    refine Nat.eq_zero_of_not_pos fun some => ?_
    obtain ⟨entry, member, holds⟩ := exists_of_sumWhere some
    exact absent entry member (of_decide_eq_true holds)
  rw [sound.represents.sums fun key _ => decide (key.node = node)] at none
  rw [none]
  rfl

theorem sound_bridgeStep (sound : state.Sound)
    (fits : call.fits state = true) (moved : bridgeStep state call = some next) : next.Sound := by
  cases call with
  | addRefCount node port proxyId proxyFound => exact sound_addRefCount_bridge sound fits moved
  | decRefCount node port => exact sound_decRefCount_bridge sound fits moved
  | clearRefCountByPortId port =>
    rw [bridgeStep, if_neg (not_not_intro (bridgeStep_ordered fits))] at moved
    cases moved
    exact sound.clear fun key _ => decide (key.port ≠ port)
  | clearRefCountByNodeName node =>
    rw [bridgeStep, if_neg (not_not_intro (bridgeStep_ordered fits))] at moved
    cases moved
    exact sound.clear fun key _ => decide (key.node ≠ node)
  | getRefCountByPortId port =>
    rw [bridgeStep, if_neg (not_not_intro (bridgeStep_ordered fits))] at moved
    cases moved
    exact sound.answer (sound.right_sum fun key _ => decide (key.port = port))
  | getRefCountByNodeName node =>
    rw [bridgeStep, if_neg (not_not_intro (bridgeStep_ordered fits))] at moved
    cases moved
    exact sound.answer (sound_getRefCountByNodeName sound fits)

/-- A call that the request forwarder answers rightly: fewer than 2^31 references are held, and a reference that is
dropped is the last one of its client, or its client is the only one of the proxy. -/
def FwdrCall.fits (state : RefState PortClient RouterName) : FwdrCall → Bool
  | .addRefCount _ _ _ => state.bag.length + 1 < 2147483648
  | .decRefCount port uniqName _ =>
    match find state.table ⟨port, uniqName⟩ with
    | none => true
    | some entry =>
      decide (entry.count = 1) ||
        state.table.all fun other => decide (other.key = ⟨port, uniqName⟩) || decide (other.key.port ≠ port)
  | _ => true

theorem sound_decRefCount_fwdr {state : RefState PortClient RouterName} (sound : state.Sound)
    {uniqName busName : RouterName}
    (fits : (FwdrCall.decRefCount port uniqName busName).fits state = true)
    {next : RefState PortClient RouterName}
    (moved : fwdrStep state (.decRefCount port uniqName busName) = some next) :
    next.Sound := by
  cases moved
  dsimp only [FwdrRefs.decRefCount, FwdrCall.fits] at fits ⊢
  by_cases invalid : port = 0 ∨ busName = [] ∨ uniqName = []
  · rw [if_pos invalid]
    exact sound.answer (right_error _ _)
  rw [if_neg invalid]
  cases found : find state.table ⟨port, uniqName⟩ with
  | none => exact sound.answer (right_error _ _)
  | some entry =>
    rw [found] at fits
    dsimp only at fits ⊢
    by_cases last : entry.count = 1
    · have removed := @RefState.Sound.removeLast _ _ state _ _ sound _ _ found last (fun key => decide (key.port = port))
        (fun key _ => decide (key.port = port)) fun _ _ _ => rfl
      rw [if_pos removed.1]
      exact removed.2
    · rw [decide_eq_false last, Bool.false_or, all_eq_true] at fits
      have less := @RefState.Sound.decrement _ _ state _ _ sound _ _ found last (fun key => decide (key.port = port))
        (decide_eq_true rfl) fun other member same => by
          have alone := fits other member
          rw [decide_eq_false (not_not_intro (of_decide_eq_true same)), Bool.or_false] at alone
          exact of_decide_eq_true alone
      rw [if_neg (Int.not_le.2 less.1)]
      exact less.2

theorem sound_fwdrStep {state next : RefState PortClient RouterName} (sound : state.Sound)
    {call : FwdrCall}
    (fits : call.fits state = true) (moved : fwdrStep state call = some next) : next.Sound := by
  cases call with
  | addRefCount port uniqName busName =>
    have room : state.bag.length + 1 < 2147483648 := of_decide_eq_true fits
    cases moved
    dsimp only [FwdrRefs.addRefCount]
    split
    · exact sound
    · split
      · exact sound.insert room busName ‹_›
      · exact sound.increment room busName ‹_›
  | decRefCount port uniqName busName => exact sound_decRefCount_fwdr sound fits moved
  | clearRefCountBySrcDBusName busName =>
    cases moved
    exact sound.clear fun _ info => decide (info ≠ busName)
  | clearRefCountByUniqName uniqName =>
    cases moved
    exact sound.clear fun key _ => decide (key.uniqName ≠ uniqName)
  | clearRefCountByPortId port =>
    cases moved
    exact sound.clear fun key _ => decide (key.port ≠ port)
  | getRefCountByPortId port =>
    cases moved
    exact sound.answer (sound.right_sum fun key _ => decide (key.port = port))

/-- In every run of calls that fit, of either router, every call has returned, and every count that was answered is
the number of references that were outstanding. -/
theorem right_of_fits (answer : RefAnswer)
    (given :
      (∃ state, (bridgeRefs.restrict fun state call => call.fits state = true).Reachable state ∧ answer ∈ state.answers) ∨
        ∃ state, (fwdrRefs.restrict fun state call => call.fits state = true).Reachable state ∧ answer ∈ state.answers) :
    answer.Right := by
  rcases given with ⟨state, reachable, isIn⟩ | ⟨state, reachable, isIn⟩
  · refine RefState.Sound.right (reachable.invariant sound_start fun _ _ _ _ before moved => ?_) answer isIn
    obtain ⟨fits, moved⟩ := Machine.restrict_step.1 moved
    exact sound_bridgeStep before fits moved
  · refine RefState.Sound.right (reachable.invariant sound_start fun _ _ _ _ before moved => ?_) answer isIn
    obtain ⟨fits, moved⟩ := Machine.restrict_step.1 moved
    exact sound_fwdrStep before fits moved

/-- Two references of a client are added, one is dropped, and the references of the port are asked for. -/
theorem right_oneClient :
    (∃ state, (bridgeRefs.restrict fun state call => call.fits state = true).Reachable state ∧
        state.answers = [⟨some (.ok 1), 1⟩, ⟨some (.ok 1), 1⟩] ∧ ∀ answer ∈ state.answers, answer.Right) ∧
      ∃ state, (fwdrRefs.restrict fun state call => call.fits state = true).Reachable state ∧
        state.answers = [⟨some (.ok 1), 1⟩, ⟨some (.ok 1), 1⟩] ∧ ∀ answer ∈ state.answers, answer.Right := by
  constructor
  · have ran : ((bridgeRefs.restrict fun state call => call.fits state = true).run (RefState.start _ _)
        [.addRefCount [97] 1 5 true, .addRefCount [97] 1 5 true, .decRefCount [97] 1, .getRefCountByPortId 1]).map
          RefState.answers = some [⟨some (.ok 1), 1⟩, ⟨some (.ok 1), 1⟩] := by decide +kernel
    obtain ⟨state, ran, same⟩ := Option.map_eq_some_iff.1 ran
    have reachable := Machine.Reachable.start.run ran
    exact ⟨state, reachable, same, fun answer isIn => right_of_fits answer (.inl ⟨state, reachable, isIn⟩)⟩
  · have ran : ((fwdrRefs.restrict fun state call => call.fits state = true).run (RefState.start _ _)
        [.addRefCount 1 [97] [98], .addRefCount 1 [97] [98], .decRefCount 1 [97] [98], .getRefCountByPortId 1]).map
          RefState.answers = some [⟨some (.ok 1), 1⟩, ⟨some (.ok 1), 1⟩] := by decide +kernel
    obtain ⟨state, ran, same⟩ := Option.map_eq_some_iff.1 ran
    have reachable := Machine.Reachable.start.run ran
    exact ⟨state, reachable, same, fun answer isIn => right_of_fits answer (.inr ⟨state, reachable, isIn⟩)⟩

/-- Two nodes have a user each, and one of them drops its reference: the answer is one, though the node has none left. -/
theorem wrong_otherNode :
    ∃ state, bridgeRefs.Reachable state ∧ ∃ answer ∈ state.answers, ¬ answer.Right := by
  have ran : (bridgeRefs.run (RefState.start _ _)
      [.addRefCount [97] 1 5 true, .addRefCount [98] 1 6 true, .decRefCount [97] 1]).map RefState.answers =
        some [⟨some (.ok 1), 0⟩] := by decide +kernel
  obtain ⟨state, ran, same⟩ := Option.map_eq_some_iff.1 ran
  refine ⟨state, Machine.Reachable.start.run ran, ⟨some (.ok 1), 0⟩, same ▸ mem_singleton_self _, ?_⟩
  rintro ⟨ret, returned, right⟩
  cases returned
  exact absurd (right 1 rfl) (by decide)

end RpcFrmwrk.Rpc
