import RpcFrmwrk.Ipc.FlowControl

/-! The flow control counter over whole runs of two ends. Owns `Endpoint.Level`, the value the
counter should have; the invariant between what is sent, received, reported and acknowledged. -/

namespace RpcFrmwrk.Ipc

open RpcFrmwrk.Library List

variable {own peer : Endpoint} {size : Nat} {state : FlowState}

/-! ### Counters below 2^64 -/

theorem add64_of_lt {left right : Nat} (small : left + right < 2 ^ 64) :
    FlowControl.add64 left right = left + right := Nat.mod_eq_of_lt small

theorem sub64_of_le {left right : Nat} (small : left < 2 ^ 64) (le : right ≤ left) :
    FlowControl.sub64 left right = left - right := by
  unfold FlowControl.sub64
  omega

theorem wrap8_of_range {value : Int} (low : -128 ≤ value) (high : value ≤ 127) :
    FlowControl.wrap8 value = value := by
  unfold FlowControl.wrap8
  omega

namespace FlowControl

def above (fc : FlowControl) : Bool :=
  bytesAbove fc.txBytes fc.ackTxBytes || pktsAbove fc.txPkts fc.ackTxPkts

def crosses (fc : FlowControl) (size : Nat) : Bool :=
  (bytesAbove fc.txBytes fc.ackTxBytes != bytesAbove (add64 fc.txBytes size) fc.ackTxBytes) ||
    (pktsAbove fc.txPkts fc.ackTxPkts != pktsAbove (add64 fc.txPkts 1) fc.ackTxPkts)

end FlowControl

/-- The counter is the number of open queue-full events, and one more exactly
when the unacknowledged bytes or packets are at or over their limit. -/
def Endpoint.Level (own : Endpoint) : Prop :=
  own.fc.flowCtrl = own.opened + if own.fc.above then 1 else 0

instance (own : Endpoint) : Decidable own.Level := inferInstanceAs (Decidable (_ = _))

/-- No packet makes one limit be reached while the other one is reached already,
the counter is raised below 127 only, and fewer than 2^64 bytes are sent. -/
def FlowMove.Fits (state : FlowState) : FlowMove → Prop
  | .send side size =>
    let fc := (state.at side).fc
    fc.txBytes + size < 2 ^ 64 ∧
      (fc.crosses size = true → fc.above = false ∧ fc.flowCtrl < 127)
  | .queueFull side => (state.at side).fc.flowCtrl < 127
  | _ => True

instance (state : FlowState) (move : FlowMove) : Decidable (move.Fits state) := by
  cases move <;> unfold FlowMove.Fits <;> infer_instance

def FlowState.Quiet (state : FlowState) : Prop :=
  ∀ side, (state.at side).data = [] ∧ (state.at side).due = 0 ∧ (state.at side).reports = []

/-- The counts of bytes and packets of a report are those of one before another,
or the same ones. -/
def Before (early late : Nat × Nat) : Prop :=
  early = late ∨ early.1 < late.1 ∧ early.2 < late.2

theorem Before.trans {early middle late : Nat × Nat} (first : Before early middle)
    (second : Before middle late) : Before early late := by
  rcases first with rfl | ⟨bytes, pkts⟩
  · exact second
  · rcases second with rfl | ⟨more, others⟩
    · exact .inr ⟨bytes, pkts⟩
    · exact .inr ⟨bytes.trans more, pkts.trans others⟩

theorem Before.le {early late : Nat × Nat} (before : Before early late) :
    early.1 ≤ late.1 ∧ early.2 ≤ late.2 := by
  rcases before with rfl | ⟨bytes, pkts⟩
  · exact ⟨Nat.le_refl _, Nat.le_refl _⟩
  · exact ⟨bytes.le, pkts.le⟩

namespace FlowControl

def sent (fc : FlowControl) : Nat × Nat := (fc.txBytes, fc.txPkts)

def acked (fc : FlowControl) : Nat × Nat := (fc.ackTxBytes, fc.ackTxPkts)

def received (fc : FlowControl) : Nat × Nat := (fc.rxBytes, fc.rxPkts)

def told (fc : FlowControl) : Nat × Nat := (fc.ackRxBytes, fc.ackRxPkts)

end FlowControl

/-- One direction, from the sender `own` to the receiver `peer`: what is sent is
received or on its way; acknowledgements and reports are in order and at most
what is received; while no report is due, the last base of the receiver is
acknowledged or reported, and the receiver is below both limits. -/
structure Flows (own peer : Endpoint) : Prop where
  bytes : own.fc.txBytes = peer.fc.rxBytes + own.data.sum
  pkts : own.fc.txPkts = peer.fc.rxPkts + own.data.length
  small : own.fc.txBytes < 2 ^ 64
  sizes : ∀ size ∈ own.data, 0 < size ∧ size ≤ maxBytesPerTransfer
  fewer : peer.fc.rxPkts ≤ peer.fc.rxBytes
  ordered : (own.fc.acked :: peer.reports).Pairwise Before
  bounded : ∀ report ∈ own.fc.acked :: peer.reports, Before report peer.fc.received
  base : Before peer.fc.told peer.fc.received
  told : peer.due = 0 → ∃ report ∈ own.fc.acked :: peer.reports, Before peer.fc.told report
  below : peer.fc.rxBytes - peer.fc.ackRxBytes < stmMaxPendingWrite ∧
    peer.fc.rxPkts - peer.fc.ackRxPkts < stmMaxPacketsReport
  level : own.Level
  range : own.fc.flowCtrl ≤ 127

theorem length_le_sum {data : List Nat}
    (sizes : ∀ size ∈ data, 0 < size ∧ size ≤ maxBytesPerTransfer) :
    data.length ≤ data.sum := by
  induction data with
  | nil => exact Nat.le_refl 0
  | cons size data ih =>
    have first := (sizes size mem_cons_self).1
    have later := ih fun other member =>
      sizes other (mem_cons_of_mem size member)
    rw [length_cons, sum_cons]
    omega

namespace Flows

variable {own peer : Endpoint}

theorem acked_le (flows : Flows own peer) :
    own.fc.ackTxBytes ≤ own.fc.txBytes ∧ own.fc.ackTxPkts ≤ own.fc.txPkts := by
  have := (flows.bounded own.fc.acked mem_cons_self).le
  have := flows.bytes
  have := flows.pkts
  simp only [FlowControl.acked, FlowControl.received] at *
  omega

theorem pkts_le (flows : Flows own peer) : own.fc.txPkts ≤ own.fc.txBytes := by
  have := length_le_sum flows.sizes
  have := flows.fewer
  have := flows.bytes
  have := flows.pkts
  omega

theorem above_iff (flows : Flows own peer) :
    own.fc.above = true ↔ stmMaxPendingWrite ≤ own.fc.txBytes - own.fc.ackTxBytes ∨
      stmMaxPacketsReport ≤ own.fc.txPkts - own.fc.ackTxPkts := by
  have small := flows.small
  have le := flows.acked_le
  have fewer := flows.pkts_le
  rw [FlowControl.above, FlowControl.bytesAbove, FlowControl.pktsAbove,
    sub64_of_le small le.1, sub64_of_le (by omega) le.2, Bool.or_eq_true, decide_eq_true_iff,
    decide_eq_true_iff]

theorem flowCtrl_nonneg (flows : Flows own peer) : 0 ≤ own.fc.flowCtrl := by
  have level : own.fc.flowCtrl = _ := flows.level
  rw [level]
  split <;> omega

theorem of_receiver {other : Endpoint} (flows : Flows own peer)
    (received : other.fc.received = peer.fc.received) (told : other.fc.told = peer.fc.told)
    (due : other.due = peer.due) (reports : other.reports = peer.reports) : Flows own other := by
  obtain ⟨rxBytes, rxPkts⟩ := Prod.mk.inj received
  obtain ⟨ackRxBytes, ackRxPkts⟩ := Prod.mk.inj told
  obtain ⟨bytes, pkts, small, sizes, fewer, ordered, bounded, base, said, below, level, range⟩ := flows
  rw [← rxBytes] at bytes
  rw [← rxPkts] at pkts
  rw [← rxBytes, ← rxPkts] at fewer
  rw [← reports] at ordered
  rw [← reports, ← received] at bounded
  rw [← told, ← received] at base
  rw [← due, ← reports, ← told] at said
  rw [← rxBytes, ← rxPkts, ← ackRxBytes, ← ackRxPkts] at below
  exact ⟨bytes, pkts, small, sizes, fewer, ordered, bounded, base, said, below, level, range⟩

theorem of_sender {other : Endpoint} (flows : Flows own peer)
    (sent : other.fc.sent = own.fc.sent) (acked : other.fc.acked = own.fc.acked)
    (data : other.data = own.data) (level : other.Level) (range : other.fc.flowCtrl ≤ 127) :
    Flows other peer := by
  obtain ⟨txBytes, txPkts⟩ := Prod.mk.inj sent
  obtain ⟨bytes, pkts, small, sizes, fewer, ordered, bounded, base, told, below, _, _⟩ := flows
  rw [← txBytes, ← data] at bytes
  rw [← txPkts, ← data] at pkts
  rw [← txBytes] at small
  rw [← data] at sizes
  rw [← acked] at ordered bounded told
  exact ⟨bytes, pkts, small, sizes, fewer, ordered, bounded, base, told, below, level, range⟩

end Flows

theorem above_congr {left right : FlowControl} (sent : left.sent = right.sent)
    (acked : left.acked = right.acked) : left.above = right.above := by
  obtain ⟨txBytes, txPkts⟩ := Prod.mk.inj sent
  obtain ⟨ackTxBytes, ackTxPkts⟩ := Prod.mk.inj acked
  rw [FlowControl.above, FlowControl.above, txBytes, txPkts, ackTxBytes, ackTxPkts]

namespace FlowControl

variable {fc : FlowControl} {size : Nat}

def countTx (fc : FlowControl) (size : Nat) : FlowControl :=
  { fc with txBytes := add64 fc.txBytes size, txPkts := add64 fc.txPkts 1 }

theorem incTxBytes_of_crosses (positive : 0 < size)
    (fits : size ≤ maxBytesPerTransfer) (crossed : fc.crosses size = true) :
    fc.incTxBytes size = (fc.countTx size).incFCCount := by
  rw [crosses, Bool.or_eq_true, bne_iff_ne, bne_iff_ne] at crossed
  rw [incTxBytes, if_neg (by omega)]
  exact if_pos crossed

theorem incTxBytes_of_not_crosses (positive : 0 < size)
    (fits : size ≤ maxBytesPerTransfer) (kept : fc.crosses size = false) :
    fc.incTxBytes size = (.keep, fc.countTx size) := by
  rw [crosses, Bool.or_eq_false_iff, bne_eq_false_iff_eq, bne_eq_false_iff_eq] at kept
  rw [incTxBytes, if_neg (by omega)]
  exact if_neg fun flips => flips.elim (fun bytes => bytes kept.1) fun pkts => pkts kept.2

theorem above_countTx_of_crosses (low : fc.above = false)
    (crossed : fc.crosses size = true) : (fc.countTx size).above = true := by
  rw [above, Bool.or_eq_false_iff] at low
  rw [crosses, low.1, low.2, Bool.or_eq_true, Bool.false_bne, Bool.false_bne] at crossed
  rw [above, Bool.or_eq_true]
  exact crossed

theorem above_countTx_of_not_crosses (kept : fc.crosses size = false) : (fc.countTx size).above = fc.above := by
  rw [crosses, Bool.or_eq_false_iff, bne_eq_false_iff_eq, bne_eq_false_iff_eq] at kept
  rw [above, above, kept.1, kept.2]
  rfl

theorem incFCCount_snd (fc : FlowControl) (low : -128 ≤ fc.flowCtrl) (room : fc.flowCtrl < 127) :
    fc.incFCCount.2 = { fc with flowCtrl := fc.flowCtrl + 1 } := by
  show { fc with flowCtrl := wrap8 (fc.flowCtrl + 1) } = _
  rw [wrap8_of_range (by omega) (by omega)]

theorem decFCCount_snd (fc : FlowControl) (positive : 0 < fc.flowCtrl) (range : fc.flowCtrl ≤ 127) :
    fc.decFCCount.2 = { fc with flowCtrl := fc.flowCtrl - 1 } := by
  show { fc with flowCtrl := wrap8 (fc.flowCtrl - 1) } = _
  rw [wrap8_of_range (by omega) (by omega)]

end FlowControl

theorem Flows.send (flows : Flows own peer)
    (positive : 0 < size) (limit : size ≤ maxBytesPerTransfer)
    (small : own.fc.txBytes + size < 2 ^ 64)
    (fits : own.fc.crosses size = true → own.fc.above = false ∧ own.fc.flowCtrl < 127)
    (passed : Nat) :
    Flows { own with
      fc := (own.fc.incTxBytes size).2
      passed := passed
      data := own.data ++ [size] } peer := by
  have nonneg := flows.flowCtrl_nonneg
  have level : own.fc.flowCtrl = own.opened + if own.fc.above then 1 else 0 := flows.level
  have fewer := flows.pkts_le
  -- The counters go on without a wrap-around, whatever becomes of the level.
  have counts (fc : FlowControl) (sent : fc.sent = (own.fc.countTx size).sent)
      (acked : fc.acked = own.fc.acked)
      (reached : fc.flowCtrl = own.opened + if (own.fc.countTx size).above then 1 else 0)
      (range : fc.flowCtrl ≤ 127) :
      Flows { own with fc := fc, passed := passed, data := own.data ++ [size] } peer := by
    obtain ⟨txBytes, txPkts⟩ := Prod.mk.inj sent
    have bytesNow : fc.txBytes = own.fc.txBytes + size :=
      txBytes.trans (add64_of_lt small)
    have pktsNow : fc.txPkts = own.fc.txPkts + 1 := txPkts.trans (add64_of_lt (by omega))
    have equal : fc.above = (own.fc.countTx size).above :=
      above_congr sent acked
    refine ⟨?_, ?_, ?_, ?_, flows.fewer, ?_, ?_, flows.base, ?_, flows.below, ?_, range⟩
    · show fc.txBytes = peer.fc.rxBytes + (own.data ++ [size]).sum
      have := flows.bytes
      rw [bytesNow, sum_append, sum_singleton]
      omega
    · show fc.txPkts = peer.fc.rxPkts + (own.data ++ [size]).length
      have := flows.pkts
      rw [pktsNow, length_append, length_singleton]
      omega
    · show fc.txBytes < 2 ^ 64
      rw [bytesNow]
      exact small
    · exact forall_mem_append.2 ⟨flows.sizes, forall_mem_singleton.2 (⟨positive, limit⟩)⟩
    · rw [acked]
      exact flows.ordered
    · rw [acked]
      exact flows.bounded
    · rw [acked]
      exact flows.told
    · show fc.flowCtrl = own.opened + if fc.above then 1 else 0
      rw [equal]
      exact reached
  cases crossed : own.fc.crosses size with
  | true =>
    obtain ⟨low, room⟩ := fits crossed
    rw [FlowControl.incTxBytes_of_crosses positive limit crossed,
      FlowControl.incFCCount_snd (own.fc.countTx size) (by show -128 ≤ own.fc.flowCtrl; omega) room]
    refine counts _ rfl rfl ?_ ?_
    · rw [FlowControl.above_countTx_of_crosses low crossed]
      rw [low] at level
      show own.fc.flowCtrl + 1 = own.opened + 1
      simp only [Bool.false_eq_true, if_false] at level
      omega
    · show own.fc.flowCtrl + 1 ≤ 127
      omega
  | false =>
    rw [FlowControl.incTxBytes_of_not_crosses positive limit crossed]
    refine counts _ rfl rfl ?_ flows.range
    rw [FlowControl.above_countTx_of_not_crosses crossed]
    exact level

/-! ### Receiving and reporting -/

/-- The receiver counts a packet. Below both limits it reports exactly when the
packet reaches one. -/
theorem incRxBytes_spec {fc : FlowControl} (positive : 0 < size)
    (limit : size ≤ maxBytesPerTransfer) (small : fc.rxBytes + size < 2 ^ 64)
    (fewer : fc.rxPkts ≤ fc.rxBytes) (base : Before fc.told fc.received)
    (below : fc.rxBytes - fc.ackRxBytes < stmMaxPendingWrite ∧ fc.rxPkts - fc.ackRxPkts < stmMaxPacketsReport) :
    (fc.incRxBytes size = (.report, { fc with
        rxBytes := fc.rxBytes + size
        rxPkts := fc.rxPkts + 1
        ackRxBytes := fc.rxBytes + size
        ackRxPkts := fc.rxPkts + 1 })) ∨
    (fc.incRxBytes size = (.keep, { fc with
        rxBytes := fc.rxBytes + size
        rxPkts := fc.rxPkts + 1 }) ∧
      fc.rxBytes + size - fc.ackRxBytes < stmMaxPendingWrite ∧
      fc.rxPkts + 1 - fc.ackRxPkts < stmMaxPacketsReport) := by
  obtain ⟨toldBytes, toldPkts⟩ := base.le
  simp only [FlowControl.told, FlowControl.received] at toldBytes toldPkts
  have lowBytes : FlowControl.bytesAbove fc.rxBytes fc.ackRxBytes = false := by
    rw [FlowControl.bytesAbove, sub64_of_le (by omega) toldBytes, decide_eq_false_iff_not]
    omega
  have lowPkts : FlowControl.pktsAbove fc.rxPkts fc.ackRxPkts = false := by
    rw [FlowControl.pktsAbove, sub64_of_le (by omega) toldPkts, decide_eq_false_iff_not]
    omega
  rw [FlowControl.incRxBytes, if_neg (by omega), add64_of_lt small,
    add64_of_lt (show fc.rxPkts + 1 < 2 ^ 64 by omega), lowBytes, lowPkts]
  by_cases reached : FlowControl.bytesAbove (fc.rxBytes + size) fc.ackRxBytes = true ∨
      FlowControl.pktsAbove (fc.rxPkts + 1) fc.ackRxPkts = true
  · left
    refine if_pos ?_
    exact reached.imp (fun high same => Bool.false_ne_true (same.trans high))
      fun high same => Bool.false_ne_true (same.trans high)
  · right
    rw [not_or, Bool.not_eq_true, Bool.not_eq_true] at reached
    refine ⟨if_neg ?_, ?_⟩
    · exact fun flips => flips.elim (fun bytes => bytes reached.1.symm) fun pkts => pkts reached.2.symm
    · rw [FlowControl.bytesAbove, FlowControl.pktsAbove, sub64_of_le (by omega) (by omega),
        sub64_of_le (by omega) (by omega), decide_eq_false_iff_not,
        decide_eq_false_iff_not] at reached
      omega

theorem Flows.receive (flows : Flows own peer)
    {data : List Nat} (next : own.data = size :: data) :
    ∃ received, peer.fc.incRxBytes size = received ∧
      received.2.sent = peer.fc.sent ∧ received.2.acked = peer.fc.acked ∧
      received.2.flowCtrl = peer.fc.flowCtrl ∧
      Flows { own with data := data }
        { peer with
          fc := received.2
          due := if received.1 = .report then peer.due + 1 else peer.due } := by
  obtain ⟨positive, limit⟩ := flows.sizes size (by rw [next]; exact mem_cons_self)
  have bytes := flows.bytes
  have pkts := flows.pkts
  rw [next, sum_cons] at bytes
  rw [next, length_cons] at pkts
  have small := flows.small
  have grows : Before peer.fc.received (peer.fc.rxBytes + size, peer.fc.rxPkts + 1) := by
    refine .inr ⟨?_, ?_⟩
    · show peer.fc.rxBytes < peer.fc.rxBytes + size
      omega
    · show peer.fc.rxPkts < peer.fc.rxPkts + 1
      omega
  have fewer := flows.fewer
  refine ⟨_, rfl, ?_⟩
  -- What does not depend on whether a report is due.
  have moved (fc : FlowControl) (due : Nat) (rxBytes : fc.rxBytes = peer.fc.rxBytes + size)
      (rxPkts : fc.rxPkts = peer.fc.rxPkts + 1) (base : Before fc.told fc.received)
      (told : due = 0 → ∃ report ∈ own.fc.acked :: peer.reports, Before fc.told report)
      (below : fc.rxBytes - fc.ackRxBytes < stmMaxPendingWrite ∧
        fc.rxPkts - fc.ackRxPkts < stmMaxPacketsReport) :
      Flows { own with data := data } { peer with fc := fc, due := due } := by
    refine ⟨?_, ?_, small, ?_, ?_, flows.ordered, ?_, base, told, below, flows.level, flows.range⟩
    · show own.fc.txBytes = fc.rxBytes + data.sum
      omega
    · show own.fc.txPkts = fc.rxPkts + data.length
      omega
    · intro other member
      exact flows.sizes other (by rw [next]; exact mem_cons_of_mem size member)
    · show fc.rxPkts ≤ fc.rxBytes
      omega
    · intro report member
      have received : fc.received = (peer.fc.rxBytes + size, peer.fc.rxPkts + 1) :=
        Prod.ext rxBytes rxPkts
      show Before report fc.received
      rw [received]
      exact (flows.bounded report member).trans grows
  rcases incRxBytes_spec positive limit (by omega) fewer flows.base flows.below with
    reports | ⟨keeps, below⟩
  · rw [reports]
    refine ⟨rfl, rfl, rfl, moved _ _ rfl rfl (.inl rfl) ?_ ?_⟩
    · intro never
      cases never
    · show peer.fc.rxBytes + size - (peer.fc.rxBytes + size) < stmMaxPendingWrite ∧
        peer.fc.rxPkts + 1 - (peer.fc.rxPkts + 1) < stmMaxPacketsReport
      rw [Nat.sub_self, Nat.sub_self]
      exact ⟨by decide, by decide⟩
  · rw [keeps]
    exact ⟨rfl, rfl, rfl, moved _ _ rfl rfl (flows.base.trans grows) flows.told below⟩

theorem Flows.report (flows : Flows own peer) (due : Nat) :
    Flows own { peer with due := due, reports := peer.reports ++ [peer.fc.getReport] } := by
  have last : peer.fc.received ∈ own.fc.acked :: (peer.reports ++ [peer.fc.received]) := by
    simp
  obtain ⟨bytes, pkts, small, sizes, fewer, ordered, bounded, base, told, below, level, range⟩ := flows
  refine ⟨bytes, pkts, small, sizes, fewer, ?_, ?_, base, fun _ => ⟨_, last, base⟩, below, level, range⟩
  · show ((own.fc.acked :: peer.reports) ++ [peer.fc.received]).Pairwise Before
    rw [pairwise_append]
    refine ⟨ordered, pairwise_singleton _ _, ?_⟩
    intro report member other same
    rw [mem_singleton.1 same]
    exact bounded report member
  · intro report member
    rcases mem_append.1
      (show report ∈ (own.fc.acked :: peer.reports) ++ [peer.fc.received] from member) with
      old | new
    · exact bounded report old
    · rw [mem_singleton.1 new]
      exact .inl rfl

namespace FlowControl

def withAck (fc : FlowControl) (report : Nat × Nat) : FlowControl :=
  { fc with ackTxBytes := report.1, ackTxPkts := report.2 }

theorem onReportInternal_of_keeps {fc : FlowControl} {report : Nat × Nat}
    (fresh : ¬ (report.1 ≤ fc.ackTxBytes ∨ report.2 ≤ fc.ackTxPkts))
    (keeps : fc.above = (fc.withAck report).above) :
    fc.onReportInternal report.1 report.2 = (.keep, fc.withAck report) := by
  rw [onReportInternal, if_neg fresh]
  exact if_neg fun flips => flips keeps

theorem onReportInternal_of_flips {fc : FlowControl} {report : Nat × Nat}
    (fresh : ¬ (report.1 ≤ fc.ackTxBytes ∨ report.2 ≤ fc.ackTxPkts))
    (flips : fc.above ≠ (fc.withAck report).above) :
    fc.onReportInternal report.1 report.2 = (fc.withAck report).decFCCount := by
  rw [onReportInternal, if_neg fresh]
  exact if_pos flips

end FlowControl

theorem Flows.above_withAck (flows : Flows own peer) {report : Nat × Nat}
    (fresh : ¬ (report.1 ≤ own.fc.ackTxBytes ∨ report.2 ≤ own.fc.ackTxPkts))
    (reported : Before report peer.fc.received)
    (high : (own.fc.withAck report).above = true) : own.fc.above = true := by
  have small := flows.small
  have fewer := flows.pkts_le
  have le := reported.le
  simp only [FlowControl.received] at le
  have bytes := flows.bytes
  have pkts := flows.pkts
  have bytesAcked : FlowControl.sub64 own.fc.txBytes report.1 = own.fc.txBytes - report.1 :=
    sub64_of_le small (by omega)
  have pktsAcked : FlowControl.sub64 own.fc.txPkts report.2 = own.fc.txPkts - report.2 :=
    sub64_of_le (by omega) (by omega)
  have now : stmMaxPendingWrite ≤ own.fc.txBytes - report.1 ∨
      stmMaxPacketsReport ≤ own.fc.txPkts - report.2 := by
    rw [FlowControl.above, Bool.or_eq_true, FlowControl.bytesAbove, FlowControl.pktsAbove,
      decide_eq_true_iff, decide_eq_true_iff] at high
    rw [← bytesAcked, ← pktsAcked]
    exact high
  rw [flows.above_iff]
  omega

theorem Flows.handle (flows : Flows own peer) {report : Nat × Nat}
    {reports : List (Nat × Nat)} (next : peer.reports = report :: reports) :
    ∃ fc, (own.fc.onReportInternal report.1 report.2).2 = fc ∧
      fc.received = own.fc.received ∧ fc.told = own.fc.told ∧
      Flows { own with fc := fc } { peer with reports := reports } := by
  have level : own.fc.flowCtrl = own.opened + if own.fc.above then 1 else 0 := flows.level
  have ordered := flows.ordered
  have bounded := flows.bounded
  have told := flows.told
  rw [next] at ordered bounded told
  obtain ⟨ackBefore, reportBefore⟩ := pairwise_cons.1 ordered
  have first : Before own.fc.acked report := ackBefore report mem_cons_self
  -- The report becomes the acknowledgement, whatever becomes of the level.
  have moved (fc : FlowControl) (sent : fc.sent = own.fc.sent) (acked : fc.acked = report)
      (reached : Endpoint.Level { own with fc := fc }) (range : fc.flowCtrl ≤ 127) :
      Flows { own with fc := fc } { peer with reports := reports } := by
    obtain ⟨txBytes, txPkts⟩ := Prod.mk.inj sent
    refine ⟨?_, ?_, ?_, flows.sizes, flows.fewer, ?_, ?_, flows.base, ?_, flows.below, reached, range⟩
    · show fc.txBytes = _
      rw [txBytes]
      exact flows.bytes
    · show fc.txPkts = _
      rw [txPkts]
      exact flows.pkts
    · show fc.txBytes < 2 ^ 64
      rw [txBytes]
      exact flows.small
    · show (fc.acked :: reports).Pairwise Before
      rw [acked]
      exact reportBefore
    · show ∀ other ∈ fc.acked :: reports, Before other peer.fc.received
      rw [acked]
      exact fun other member => bounded other (mem_cons_of_mem _ member)
    · show peer.due = 0 → ∃ other ∈ fc.acked :: reports, Before peer.fc.told other
      rw [acked]
      intro none
      obtain ⟨other, member, before⟩ := told none
      rcases mem_cons.1 member with rfl | later
      · exact ⟨report, mem_cons_self, before.trans first⟩
      · exact ⟨other, later, before⟩
  by_cases stale : report.1 ≤ own.fc.ackTxBytes ∨ report.2 ≤ own.fc.ackTxPkts
  · have same : own.fc.acked = report := by
      refine first.resolve_right ?_
      intro later
      simp only [FlowControl.acked] at later
      omega
    have ignored : own.fc.onReportInternal report.1 report.2 = (.keep, own.fc) := if_pos stale
    exact ⟨own.fc, by rw [ignored], rfl, rfl, moved own.fc rfl same flows.level flows.range⟩
  · by_cases flips : own.fc.above = (own.fc.withAck report).above
    · refine ⟨own.fc.withAck report, by rw [FlowControl.onReportInternal_of_keeps stale flips],
        rfl, rfl, moved _ rfl rfl ?_ flows.range⟩
      show own.fc.flowCtrl = own.opened + if (own.fc.withAck report).above then 1 else 0
      rw [← flips]
      exact level
    · have low : (own.fc.withAck report).above = false := by
        by_contra high
        rw [Bool.not_eq_false] at high
        have received := bounded report (mem_cons_of_mem _ mem_cons_self)
        exact flips ((flows.above_withAck stale received high).trans high.symm)
      have high : own.fc.above = true := by
        rw [low] at flips
        simpa using flips
      rw [high, if_pos rfl] at level
      refine ⟨{ own.fc.withAck report with flowCtrl := own.fc.flowCtrl - 1 }, ?_, rfl, rfl,
        moved _ rfl rfl ?_ ?_⟩
      · rw [FlowControl.onReportInternal_of_flips stale flips]
        exact FlowControl.decFCCount_snd _ (by show 0 < own.fc.flowCtrl; omega) flows.range
      · show own.fc.flowCtrl - 1 = own.opened + if (own.fc.withAck report).above then 1 else 0
        rw [low]
        simp only [Bool.false_eq_true, if_false]
        omega
      · have := flows.range
        show own.fc.flowCtrl - 1 ≤ 127
        omega

theorem FlowState.at_set_self (state : FlowState) (side : Side) (own : Endpoint) :
    (state.set side own).at side = own := by
  cases side <;> rfl

theorem FlowState.at_set_other (state : FlowState) (side : Side) (own : Endpoint) :
    (state.set side own).at side.other = state.at side.other := by
  cases side <;> rfl

theorem Side.other_other (side : Side) : side.other.other = side := by
  cases side <;> rfl

theorem Side.cases_other (side other : Side) : other = side ∨ other = side.other := by
  cases side <;> cases other <;> decide

def FlowState.Inv (state : FlowState) : Prop :=
  ∀ side, Flows (state.at side) (state.at side.other)

theorem inv_set {side : Side}
    (sends : Flows own (state.at side.other)) (receives : Flows (state.at side.other) own) :
    (state.set side own).Inv := by
  intro other
  rcases side.cases_other other with rfl | rfl
  · rw [state.at_set_self, state.at_set_other]
    exact sends
  · rw [side.other_other, state.at_set_self, state.at_set_other]
    exact receives

theorem inv_set_set {side : Side}
    (sends : Flows own peer) (receives : Flows peer own) :
    ((state.set side.other peer).set side own).Inv := by
  have kept : (state.set side.other peer).at side.other = peer := state.at_set_self _ _
  apply inv_set
  · rw [kept]
    exact sends
  · rw [kept]
    exact receives

theorem init_flows (own peer : Bool) : Flows (.init own) (.init peer) where
  bytes := rfl
  pkts := rfl
  small := Nat.two_pow_pos 64
  sizes := by
    intro size member
    cases member
  fewer := Nat.le_refl 0
  ordered := pairwise_singleton _ _
  bounded := by
    intro report member
    rw [mem_singleton.1 member]
    exact .inl rfl
  base := .inl rfl
  told _ := ⟨(0, 0), mem_cons_self, .inl rfl⟩
  below := by cases peer <;> decide
  level := by cases own <;> decide
  range := by cases own <;> decide

theorem start_inv (left right : Bool) : (flowMachine left right).start.Inv := by
  intro side
  cases side
  · exact init_flows left right
  · exact init_flows right left

theorem FlowState.Inv.back (inv : state.Inv) (side : Side) : Flows (state.at side.other) (state.at side) := by
  have flows := inv side.other
  rwa [side.other_other] at flows

theorem send_received (fc : FlowControl) (positive : 0 < size)
    (limit : size ≤ maxBytesPerTransfer) :
    (fc.incTxBytes size).2.received = fc.received ∧ (fc.incTxBytes size).2.told = fc.told := by
  cases crossed : fc.crosses size with
  | true =>
    rw [FlowControl.incTxBytes_of_crosses positive limit crossed]
    exact ⟨rfl, rfl⟩
  | false =>
    rw [FlowControl.incTxBytes_of_not_crosses positive limit crossed]
    exact ⟨rfl, rfl⟩

theorem step_inv {next : FlowState} (inv : state.Inv) {move : FlowMove}
    (fits : move.Fits state) (moved : state.step move = some next) : next.Inv := by
  cases move with
  | test side =>
    simp only [FlowState.step, Option.ite_none_right_eq_some, Option.some.injEq] at moved
    obtain ⟨_, rfl⟩ := moved
    exact inv_set ((inv side).of_sender rfl rfl rfl (inv side).level (inv side).range)
      ((inv.back side).of_receiver rfl rfl rfl rfl)
  | send side size =>
    simp only [FlowState.step, Option.ite_none_right_eq_some, Option.some.injEq] at moved
    obtain ⟨⟨_, positive, limit⟩, rfl⟩ := moved
    obtain ⟨received, told⟩ := send_received (state.at side).fc positive limit
    exact inv_set ((inv side).send positive limit fits.1 fits.2 _)
      ((inv.back side).of_receiver received told rfl rfl)
  | receive side =>
    cases arriving : (state.at side.other).data with
    | nil =>
      simp only [FlowState.step, arriving] at moved
      cases moved
    | cons size data =>
      simp only [FlowState.step, arriving, Option.some.injEq] at moved
      subst moved
      obtain ⟨received, equal, sent, acked, level, flows⟩ := (inv.back side).receive arriving
      rw [equal]
      have sends : Flows (state.at side) { state.at side.other with data := data } :=
        (inv side).of_receiver rfl rfl rfl rfl
      refine inv_set_set (sends.of_sender sent acked rfl ?_ ?_) flows
      · show received.2.flowCtrl = (state.at side).opened + if received.2.above then 1 else 0
        rw [level, above_congr sent acked]
        exact (inv side).level
      · rw [level]
        exact (inv side).range
  | report side =>
    simp only [FlowState.step, Option.ite_none_right_eq_some, Option.some.injEq] at moved
    obtain ⟨_, rfl⟩ := moved
    exact inv_set ((inv side).of_sender rfl rfl rfl (inv side).level (inv side).range)
      ((inv.back side).report _)
  | handle side =>
    cases arriving : (state.at side.other).reports with
    | nil =>
      simp only [FlowState.step, arriving] at moved
      cases moved
    | cons report reports =>
      simp only [FlowState.step, arriving, Option.some.injEq] at moved
      subst moved
      obtain ⟨fc, equal, received, told, flows⟩ := (inv side).handle arriving
      rw [equal]
      have sends : Flows (state.at side.other) { state.at side with fc := fc } :=
        (inv.back side).of_receiver received told rfl rfl
      exact inv_set_set flows (sends.of_sender rfl rfl rfl (inv.back side).level (inv.back side).range)
  | queueFull side =>
    simp only [FlowState.step, Option.some.injEq] at moved
    subst moved
    have level : (state.at side).fc.flowCtrl = _ := (inv side).level
    rw [FlowControl.incFCCount_snd _ (by have := (inv side).flowCtrl_nonneg; omega) fits]
    refine inv_set ((inv side).of_sender rfl rfl rfl ?_ ?_) ((inv.back side).of_receiver rfl rfl rfl rfl)
    · show (state.at side).fc.flowCtrl + 1 =
        ((state.at side).opened + 1 : Nat) + if (state.at side).fc.above then 1 else 0
      omega
    · show (state.at side).fc.flowCtrl + 1 ≤ 127
      have room : (state.at side).fc.flowCtrl < 127 := fits
      omega
  | lift side =>
    simp only [FlowState.step, Option.ite_none_right_eq_some, Option.some.injEq] at moved
    obtain ⟨some, rfl⟩ := moved
    have level : (state.at side).fc.flowCtrl =
      (state.at side).opened + if (state.at side).fc.above then 1 else 0 := (inv side).level
    rw [FlowControl.decFCCount_snd _ (by split at level <;> omega) (inv side).range]
    refine inv_set ((inv side).of_sender rfl rfl rfl ?_ ?_) ((inv.back side).of_receiver rfl rfl rfl rfl)
    · show (state.at side).fc.flowCtrl - 1 =
        ((state.at side).opened - 1 : Nat) + if (state.at side).fc.above then 1 else 0
      omega
    · show (state.at side).fc.flowCtrl - 1 ≤ 127
      have := (inv side).range
      omega

theorem Flows.above_of_quiet (flows : Flows own peer) (data : own.data = [])
    (due : peer.due = 0) (reports : peer.reports = []) : own.fc.above = false := by
  have bytes := flows.bytes
  have pkts := flows.pkts
  rw [data] at bytes pkts
  obtain ⟨report, member, told⟩ := flows.told due
  rw [reports, mem_singleton] at member
  subst member
  obtain ⟨ackBytes, ackPkts⟩ := told.le
  obtain ⟨below, belowPkts⟩ := flows.below
  simp only [FlowControl.told, FlowControl.acked] at ackBytes ackPkts
  simp only [sum_nil, length_nil] at bytes pkts
  by_contra high
  rw [Bool.not_eq_false, flows.above_iff] at high
  omega

/-- What every end satisfies: the counter has its value, is never below zero,
and when nothing is on its way and no queue is full the end can send. -/
structure FlowState.Unstuck (state : FlowState) : Prop where
  level : ∀ side, (state.at side).Level
  nonneg : ∀ side, 0 ≤ (state.at side).fc.flowCtrl
  canSend : state.Quiet → ∀ side, (state.at side).opened = 0 →
    (state.at side).fc.canSend = true

theorem unstuck_of_inv (inv : state.Inv) : state.Unstuck := by
  refine ⟨fun side => (inv side).level, fun side => (inv side).flowCtrl_nonneg, ?_⟩
  intro quiet side none
  have low := (inv side).above_of_quiet (quiet side).1 (quiet side.other).2.1 (quiet side.other).2.2
  have level : (state.at side).fc.flowCtrl =
    (state.at side).opened + if (state.at side).fc.above then 1 else 0 := (inv side).level
  rw [low, none] at level
  rw [FlowControl.canSend, Bool.or_eq_true, decide_eq_true_iff]
  exact .inr level

/-- In every run whose steps meet the condition no end is stuck. -/
theorem unstuck_of_fits (left right : Bool) {state : FlowState}
    (reachable : ((flowMachine left right).restrict fun state move => move.Fits state).Reachable state) :
    state.Unstuck := by
  have inv : state.Inv := by
    refine reachable.invariant (start_inv left right) ?_
    intro state move next _ inv moved
    obtain ⟨fits, step⟩ := Machine.restrict_step.1 moved
    exact step_inv inv fits step
  exact unstuck_of_inv inv

/-- A packet of one byte is sent, received and counted at both ends. -/
theorem unstuck_onePacket : FlowState.Unstuck
    ⟨⟨⟨0, 1, 0, 0, 0, 1, 0, 0, 0, false⟩, 0, 0, [], 0, []⟩,
      ⟨⟨1, 0, 0, 0, 1, 0, 0, 0, 0, false⟩, 0, 0, [], 0, []⟩⟩ := by
  have ran : ((flowMachine false false).restrict fun state move => move.Fits state).run
      (flowMachine false false).start [.test .left, .send .left 1, .receive .right] =
      some ⟨⟨⟨0, 1, 0, 0, 0, 1, 0, 0, 0, false⟩, 0, 0, [], 0, []⟩,
        ⟨⟨1, 0, 0, 0, 1, 0, 0, 0, 0, false⟩, 0, 0, [], 0, []⟩⟩ := by
    decide +kernel
  exact unstuck_of_fits false false (Machine.Reachable.start.run ran)

def sendBytes (count : Nat) : List FlowMove :=
  (List.replicate count [FlowMove.test .left, FlowMove.send .left 1]).flatten

/-- Two senders see `CanSend` behind 31 packets. The packet of the first one
reaches the limit of packets, that of the second one the limit of bytes. -/
def twoSenders : List FlowMove :=
  sendBytes 31 ++
    [.test .left, .test .left, .send .left 1, .send .left maxBytesPerTransfer]

/-- Both senders raise the counter. -/
theorem twoSenders_raise_twice : ¬ ∀ state, (flowMachine false false).Reachable state →
    ∀ side, (state.at side).Level := by
  intro level
  have ran : (flowMachine false false).run (flowMachine false false).start twoSenders =
      some ⟨⟨⟨0, 32 + maxBytesPerTransfer, 0, 0, 0, 33, 0, 0, 2, false⟩, 0, 0,
        List.replicate 32 1 ++ [maxBytesPerTransfer], 0, []⟩, .init false⟩ := by
    decide +kernel
  exact absurd (level _ (Machine.Reachable.start.run ran) .left) (by decide +kernel)

end RpcFrmwrk.Ipc
