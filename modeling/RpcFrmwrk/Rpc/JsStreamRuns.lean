import RpcFrmwrk.Rpc.JsStream

/-! Both directions of a stream in JavaScript over whole runs. Owns `JsStream.InOrder` and
`JsStream.Orderly`, what is sent, answered and passed to the client; the pieces of a request, and
what the flow control says of the sender. -/

namespace RpcFrmwrk.Rpc

open RpcFrmwrk.Library List
open RpcFrmwrk.Ipc (FCState stmMaxPendingWrite stmMaxPacketsReport maxBytesPerTransfer stmMaxBytesPerBuf statusSuccess)

/-- At most so many pieces, each as large as a buffer can be but for the last one. -/
def cutBytes : Nat → List UInt8 → List (List UInt8)
  | 0, _ => []
  | count + 1, bytes =>
    if bytes = [] then [] else bytes.take stmMaxBytesPerBuf :: cutBytes count (bytes.drop stmMaxBytesPerBuf)

def pieces (bytes : List UInt8) : List (List UInt8) := cutBytes bytes.length bytes

theorem length_drop_lt {bytes : List UInt8} {count : Nat} (some : bytes ≠ [])
    (bound : bytes.length ≤ count + 1) :
    (bytes.drop stmMaxBytesPerBuf).length ≤ count := by
  have positive := length_pos_of_ne_nil some
  rw [length_drop, stmMaxBytesPerBuf]
  omega

theorem cutBytes_of_le {count : Nat} {bytes : List UInt8} (bound : bytes.length ≤ count) :
    ∀ {more : Nat}, bytes.length ≤ more → cutBytes count bytes = cutBytes more bytes := by
  induction count generalizing bytes with
  | zero =>
    intro more _
    cases eq_nil_of_length_eq_zero (Nat.le_zero.1 bound)
    cases more <;> rfl
  | succ count ih =>
    intro more boundMore
    cases more with
    | zero =>
      cases eq_nil_of_length_eq_zero (Nat.le_zero.1 boundMore)
      rfl
    | succ more =>
      by_cases empty : bytes = []
      · rw [cutBytes, cutBytes, if_pos empty, if_pos empty]
      · rw [cutBytes, cutBytes, if_neg empty, if_neg empty,
          ih (length_drop_lt empty bound) (length_drop_lt empty boundMore)]

theorem pieces_of_ne_nil {bytes : List UInt8} (some : bytes ≠ []) :
    pieces bytes = bytes.take stmMaxBytesPerBuf :: pieces (bytes.drop stmMaxBytesPerBuf) := by
  obtain ⟨count, length⟩ := Nat.exists_eq_succ_of_ne_zero (Nat.ne_of_gt (length_pos_of_ne_nil some))
  have bound := length_drop_lt some (Nat.le_of_eq length)
  rw [pieces, length, cutBytes, if_neg some, cutBytes_of_le bound (Nat.le_refl _), pieces]

def OutFrame.payload : OutFrame → Option (List UInt8)
  | .data _ payload => some payload
  | _ => none

def OutFrame.report : OutFrame → Option JsReport
  | .progress _ report => some report
  | _ => none

def OutFrame.Sized : OutFrame → Prop
  | .data size payload => size = payload.length
  | .progress size _ => size = jsReportSize
  | .ping => True

def RecvBuf.bytes : RecvBuf → List UInt8
  | .start => []
  | .payload bytes _ => bytes

namespace JsStream

/-- The data frames are the pieces of the requests, in order, and what the queue has still to send; each request is
answered once or in the queue, and the pieces of an answered one are sent. The payloads are passed to the client in
order, the next one when the client asks for it; a report is sent with its payload, once, and it is due as soon as
enough has come. The peer can hold and release the sender, and nothing it sends closes the stream. No request is
queued while the sender is not held. -/
structure InOrder (stm : JsStream) : Prop where
  frames : stm.out.sent.filterMap OutFrame.payload ++
    stm.writeReqs.flatMap (fun req => pieces (req.bytes.drop req.offset)) = stm.requests.flatMap pieces
  sized : ∀ frame ∈ stm.out.sent, frame.report = none → frame.Sized
  once : stm.answers.map Prod.fst ++ stm.writeReqs.map JsWriteReq.id = List.range stm.requests.length
  whole : (stm.requests.take stm.answers.length).flatMap pieces <+: stm.out.sent.filterMap OutFrame.payload
  passed : stm.passed.map RecvBuf.bytes <+: stm.received
  oneByOne : stm.passed.length ≤ stm.consumed
  prompt : stm.passed.length < stm.consumed → stm.passed.length = stm.received.length
  reports : stm.out.sent.filterMap OutFrame.report = stm.passed.filterMap RecvBuf.report
  counted : stm.out.fc.rxBytes = (stm.received.map List.length).sum
  due : stm.out.fc.rxBytes - stm.out.fc.ackRxBytes < stmMaxPendingWrite ∧
    stm.out.fc.rxPkts - stm.out.fc.ackRxPkts < stmMaxPacketsReport
  holds : stm.peerHolds = true → stm.out.fc.isFlowCtrl = false
  releases : stm.out.fc.isFlowCtrl = false → stm.peerHolds = true ∨ stm.out.fc.txAbove = true
  remains : stm.closed = false
  unheld : stm.out.fc.isFlowCtrl = true → stm.writeReqs = []

/-- Besides, the size field of every frame is right. -/
structure Orderly (stm : JsStream) : Prop extends stm.InOrder where
  allSized : ∀ frame ∈ stm.out.sent, frame.Sized

/-- The socket is connected where a piece or a report is to be sent; a data frame that comes whole has no more than
`STM_MAX_PENDING_WRITE` bytes; and a ping does not come to a stream whose handle is bound, and a flow-control or lift
frame to none. -/
def Fits (stm : JsStream) : JsEvent → Prop
  | .write _ => stm.writeReqs = [] → stm.out.fc.isFlowCtrl = true → stm.out.connected = true
  | .frame (.data size rest) => size ≤ rest.length → size ≤ stmMaxPendingWrite ∧
      (stm.recvQue = [] → (stm.out.fc.incRxBytes size).1 = .report → stm.out.connected = true)
  | .frame (.progress size rest (some report)) => size ≤ rest →
      (stm.out.fc.onReportInternal report).1 = .lift → stm.writeReqs ≠ [] → stm.out.connected = true
  | .frame .ping => stm.bound = false
  | .frame .flowCtrl | .frame .lift => False
  | .dataConsumed => ∀ entry ∈ stm.recvQue.tail.head?, entry.report ≠ none → stm.out.connected = true
  | _ => True

instance (stm : JsStream) (event : JsEvent) : Decidable (stm.Fits event) :=
  match event with
  | .write _ => inferInstanceAs (Decidable (stm.writeReqs = [] → stm.out.fc.isFlowCtrl = true →
      stm.out.connected = true))
  | .frame (.data size rest) => inferInstanceAs (Decidable (size ≤ rest.length → size ≤ stmMaxPendingWrite ∧
      (stm.recvQue = [] → (stm.out.fc.incRxBytes size).1 = .report → stm.out.connected = true)))
  | .frame (.progress size rest (some report)) => inferInstanceAs (Decidable (size ≤ rest →
      (stm.out.fc.onReportInternal report).1 = .lift → stm.writeReqs ≠ [] → stm.out.connected = true))
  | .frame .ping => inferInstanceAs (Decidable (stm.bound = false))
  | .frame .flowCtrl | .frame .lift => isFalse id
  | .dataConsumed => inferInstanceAs (Decidable (∀ entry ∈ stm.recvQue.tail.head?, entry.report ≠ none →
      stm.out.connected = true))
  | .bind | .pingTimer | .disconnect | .frame .pong | .frame (.progress _ _ none) => isTrue trivial

end JsStream

/-! ### The flow control -/

namespace JsFlowControl

variable {fc : JsFlowControl}

/-- The sender is held once while too much is not reported, and not held else. -/
def Level (fc : JsFlowControl) : Prop := fc.byFlowCtrl = if fc.txAbove then 1 else 0

theorem Level.new : new.Level := by
  have below : JsFlowControl.new.txAbove = false := by decide
  rw [Level, below]
  rfl

theorem Level.isFlowCtrl (level : fc.Level) : fc.isFlowCtrl = !fc.txAbove := by
  rw [JsFlowControl.isFlowCtrl, level]
  cases fc.txAbove <;> rfl

def SameRx (fc next : JsFlowControl) : Prop :=
  next.rxBytes = fc.rxBytes ∧ next.ackRxBytes = fc.ackRxBytes ∧ next.rxPkts = fc.rxPkts ∧
    next.ackRxPkts = fc.ackRxPkts

theorem incTxBytes_sameRx (bytes : Nat) : fc.SameRx (fc.incTxBytes bytes).2 := by
  rw [incTxBytes]
  split
  · exact ⟨rfl, rfl, rfl, rfl⟩
  · dsimp only
    split <;> exact ⟨rfl, rfl, rfl, rfl⟩

theorem Level.raised {next : JsFlowControl} (zero : next.byFlowCtrl = 0)
    (above : next.txAbove = true) :
    next.incFCCount.2.Level := by
  have still : next.incFCCount.2.txAbove = true := above
  have one : next.incFCCount.2.byFlowCtrl = next.byFlowCtrl + 1 := rfl
  rw [Level, still, one, zero]
  rfl

theorem Level.kept {next : JsFlowControl} (zero : next.byFlowCtrl = 0)
    (below : next.txAbove = false) :
    next.Level := by
  rw [Level, below, zero]
  rfl

theorem Level.incTxBytes (level : fc.Level) (free : fc.isFlowCtrl = true) (bytes : Nat) :
    (fc.incTxBytes bytes).2.Level := by
  have below : fc.txAbove = false := by
    rw [level.isFlowCtrl, Bool.not_eq_true'] at free
    exact free
  have zero : fc.byFlowCtrl = 0 := by rw [level, below]; rfl
  obtain ⟨belowBytes, belowPkts⟩ := Bool.or_eq_false_iff.1 below
  rw [JsFlowControl.incTxBytes]
  split
  · exact level
  · dsimp only
    rw [belowBytes, belowPkts]
    split
    · next crossed =>
        refine Level.raised ?_ ?_
        · exact zero
        rw [txAbove]
        rcases crossed with crossed | crossed
        · rw [Bool.of_not_eq_false fun below => crossed below.symm, Bool.true_or]
        · rw [Bool.of_not_eq_false fun below => crossed below.symm, Bool.or_true]
    · next stays =>
        obtain ⟨sameBytes, samePkts⟩ := not_or.1 stays
        refine Level.kept ?_ ?_
        · exact zero
        rw [txAbove, ← not_ne_iff.1 sameBytes, ← not_ne_iff.1 samePkts]
        rfl

theorem onReportInternal_sameRx (report : JsReport) : fc.SameRx (fc.onReportInternal report).2 := by
  rw [onReportInternal]
  split
  · exact ⟨rfl, rfl, rfl, rfl⟩
  · dsimp only
    split <;> exact ⟨rfl, rfl, rfl, rfl⟩

theorem txAbove_of_report {report : JsReport} (moreBytes : fc.ackTxBytes < report.rxBytes)
    (morePkts : fc.ackTxPkts ≤ report.rxPkts)
    (above : ({ fc with ackTxBytes := report.rxBytes, ackTxPkts := report.rxPkts } : JsFlowControl).txAbove = true) :
    fc.txAbove = true := by
  rw [txAbove, bytesAbove, pktsAbove, Bool.or_eq_true, decide_eq_true_iff, decide_eq_true_iff] at above ⊢
  dsimp only at above
  omega

theorem Level.onReportInternal (level : fc.Level) (report : JsReport) :
    (fc.onReportInternal report).2.Level ∧
      ((fc.onReportInternal report).1 ≠ .lift → (fc.onReportInternal report).2.isFlowCtrl = fc.isFlowCtrl) := by
  rw [JsFlowControl.onReportInternal]
  split
  · exact ⟨level, fun _ => rfl⟩
  · next grows =>
      obtain ⟨moreBytes, morePkts⟩ := not_or.1 grows
      have backwards := @txAbove_of_report fc report (Nat.lt_of_not_le moreBytes) (Nat.le_of_not_lt morePkts)
      dsimp only
      generalize next : ({ fc with ackTxBytes := report.rxBytes, ackTxPkts := report.rxPkts } : JsFlowControl) = after
        at backwards ⊢
      have same : after.byFlowCtrl = fc.byFlowCtrl := by rw [← next]
      split
      · next differs =>
          have above : fc.txAbove = true := by
            apply Bool.of_not_eq_false
            intro below
            exact differs (below.trans (Bool.eq_false_iff.2 fun above =>
              Bool.false_ne_true (below.symm.trans (backwards above))).symm)
          have below : after.txAbove = false := by
            apply Bool.eq_false_iff.2
            intro still
            exact differs (above.trans still.symm)
          have held : after.byFlowCtrl = 1 := by rw [same, level, above]; rfl
          have lowered : after.decFCCount = (.lift, { after with byFlowCtrl := 0 }) := by
            rw [decFCCount, held]
            rfl
          rw [lowered]
          refine ⟨?_, fun never => absurd rfl never⟩
          show (0 : Int) = if after.txAbove then 1 else 0
          rw [below]
          rfl
      · next equal =>
          refine ⟨?_, fun _ => ?_⟩
          · show after.byFlowCtrl = if after.txAbove then 1 else 0
            rw [← not_ne_iff.1 equal, same, level]
          · show decide (after.byFlowCtrl = 0) = decide (fc.byFlowCtrl = 0)
            rw [same]

theorem SameRx.trans {middle next : JsFlowControl} (first : fc.SameRx middle)
    (second : middle.SameRx next) :
    fc.SameRx next :=
  ⟨second.1.trans first.1, second.2.1.trans first.2.1, second.2.2.1.trans first.2.2.1,
    second.2.2.2.trans first.2.2.2⟩

def Reported (fc : JsFlowControl) : Prop :=
  fc.rxBytes - fc.ackRxBytes < stmMaxPendingWrite ∧ fc.rxPkts - fc.ackRxPkts < stmMaxPacketsReport

theorem Reported.same {next : JsFlowControl} (reported : fc.Reported)
    (same : fc.SameRx next) : next.Reported := by
  obtain ⟨rxBytes, ackRxBytes, rxPkts, ackRxPkts⟩ := same
  rw [Reported, rxBytes, ackRxBytes, rxPkts, ackRxPkts]
  exact reported

theorem Reported.incRxBytes (reported : fc.Reported) (level : fc.Level) {bytes : Nat}
    (bound : bytes ≤ stmMaxPendingWrite) :
    (fc.incRxBytes bytes).2.Reported ∧ (fc.incRxBytes bytes).2.rxBytes = fc.rxBytes + bytes ∧
      (fc.incRxBytes bytes).2.Level ∧ (fc.incRxBytes bytes).2.isFlowCtrl = fc.isFlowCtrl ∧
        (fc.incRxBytes bytes).2.txAbove = fc.txAbove := by
  rw [JsFlowControl.incRxBytes]
  split
  · next out =>
      have zero : bytes = 0 := out.resolve_right (Nat.not_lt.2 bound)
      rw [zero]
      exact ⟨reported, rfl, level, rfl, rfl⟩
  · dsimp only
    split
    · refine ⟨⟨?_, ?_⟩, rfl, level, rfl, rfl⟩
      · show fc.rxBytes + bytes - (fc.rxBytes + bytes) < stmMaxPendingWrite
        rw [Nat.sub_self]
        decide
      · show fc.rxPkts + 1 - (fc.rxPkts + 1) < stmMaxPacketsReport
        rw [Nat.sub_self]
        decide
    · next stays =>
        obtain ⟨sameBytes, samePkts⟩ := not_or.1 stays
        have belowBytes : bytesAbove fc.rxBytes fc.ackRxBytes = false :=
          decide_eq_false (Nat.not_le.2 reported.1)
        have belowPkts : pktsAbove fc.rxPkts fc.ackRxPkts = false := decide_eq_false (Nat.not_le.2 reported.2)
        have stillBytes := (not_ne_iff.1 sameBytes).symm.trans belowBytes
        have stillPkts := (not_ne_iff.1 samePkts).symm.trans belowPkts
        exact ⟨⟨Nat.not_le.1 (of_decide_eq_false stillBytes), Nat.not_le.1 (of_decide_eq_false stillPkts)⟩, rfl, level,
          rfl, rfl⟩

end JsFlowControl

/-! ### The sender -/

namespace JsSender

variable {reqs : List JsWriteReq}

def dataFrame (payload : List UInt8) : OutFrame := .data payload.length payload

/-- What was sent between two states of the sender. -/
structure Sends (out next : JsSender) (payloads : List (List UInt8)) : Prop where
  sent : next.sent = out.sent ++ payloads.map dataFrame
  connected : next.connected = out.connected
  level : next.fc.Level
  rx : out.fc.SameRx next.fc

variable {out : JsSender} {bytes : List UInt8}

theorem Sends.nothing (level : out.fc.Level) : out.Sends out [] :=
  ⟨(append_nil _).symm, rfl, level, rfl, rfl, rfl, rfl⟩

theorem Sends.trans {middle next : JsSender} {first second : List (List UInt8)}
    (one : out.Sends middle first)
    (other : middle.Sends next second) : out.Sends next (first ++ second) where
  sent := by rw [other.sent, one.sent, map_append, append_assoc]
  connected := other.connected.trans one.connected
  level := other.level
  rx := one.rx.trans other.rx

theorem sendData_sends (level : out.fc.Level) (connected : out.connected = true)
    (payload : List UInt8) :
    (out.sendData payload = (.errorFail, out) ∧ out.fc.isFlowCtrl = false) ∨
      ((out.sendData payload).1 = .success ∧ out.Sends (out.sendData payload).2 [payload]) := by
  rw [sendData]
  by_cases free : out.fc.isFlowCtrl = true
  · rw [if_pos free]
    have sends : out.send (.data payload.length payload) =
        (.success, { out with sent := out.sent ++ [.data payload.length payload] }) := if_pos connected
    rw [sends]
    exact .inr ⟨rfl, rfl, rfl, level.incTxBytes free _, JsFlowControl.incTxBytes_sameRx _⟩
  · rw [if_neg free]
    exact .inl ⟨rfl, Bool.eq_false_iff.2 free⟩

/-- What is sent of a request from an offset on. -/
structure SendsFrom (out : JsSender) (bytes : List UInt8) (offset : Nat) (result : Option Nat × JsSender) : Prop where
  sends : ∃ payloads, out.Sends result.2 payloads ∧
    payloads ++ (result.1.elim [] fun rest => pieces (bytes.drop rest)) = pieces (bytes.drop offset)
  held : result.1 ≠ none → result.2.fc.isFlowCtrl = false

theorem SendsFrom.nothing (level : out.fc.Level) {offset : Nat} (all : bytes.length ≤ offset) :
    out.SendsFrom bytes offset (none, out) := by
  refine ⟨⟨[], Sends.nothing level, ?_⟩, fun never => absurd rfl never⟩
  rw [drop_eq_nil_of_le all]
  rfl

theorem sendPieces_sends {left : Nat} (level : out.fc.Level) (connected : out.connected = true)
    {offset : Nat}
    (bound : bytes.length - offset ≤ left) : out.SendsFrom bytes offset
    (sendPieces bytes left out offset) := by
  induction left generalizing out offset with
  | zero => exact SendsFrom.nothing level (Nat.le_of_sub_eq_zero (Nat.le_zero.1 bound))
  | succ left ih =>
    rw [sendPieces]
    by_cases more : offset < bytes.length
    · rw [if_pos more]
      dsimp only
      have length : (bytes.drop offset).length = bytes.length - offset := length_drop
      have some : bytes.drop offset ≠ [] := by
        apply ne_nil_of_length_pos
        omega
      generalize sizeIs : (if stmMaxBytesPerBuf < bytes.length - offset then stmMaxBytesPerBuf
        else bytes.length - offset) = size
      have taken : (bytes.drop offset).take size = (bytes.drop offset).take stmMaxBytesPerBuf := by
        rw [← sizeIs]
        split
        · rfl
        · rw [take_of_length_le (Nat.le_of_eq length), take_of_length_le]
          omega
      have cut := pieces_of_ne_nil some
      rw [← taken] at cut
      generalize (bytes.drop offset).take size = payload at cut ⊢
      rcases sendData_sends level connected payload with ⟨refused, held⟩ | ⟨success, sends⟩
      · rw [refused, if_pos rfl]
        exact ⟨⟨[], Sends.nothing level, rfl⟩, fun _ => held⟩
      · rw [success, if_neg (fun never => JsRet.noConfusion never)]
        by_cases last : size = bytes.length - offset
        · rw [if_pos last]
          refine ⟨⟨[payload], sends, ?_⟩, fun never => absurd rfl never⟩
          have rest : (bytes.drop offset).drop stmMaxBytesPerBuf = [] := by
            apply drop_eq_nil_of_le
            rw [length]
            split at sizeIs <;> omega
          rw [cut, rest]
          rfl
        · rw [if_neg last]
          have full : size = stmMaxBytesPerBuf := by
            split at sizeIs
            · exact sizeIs.symm
            · exact absurd sizeIs.symm last
          have positive : 0 < stmMaxBytesPerBuf := by decide
          obtain ⟨⟨payloads, further, joined⟩, held⟩ := @ih _ sends.level
            (sends.connected.trans connected) (offset + size) (by omega)
          refine ⟨⟨payload :: payloads, sends.trans further, ?_⟩, held⟩
          rw [cons_append, joined, cut, drop_drop, full]
    · rw [if_neg more]
      exact SendsFrom.nothing level (Nat.le_of_not_lt more)

theorem sendHeadReq_sends (level : out.fc.Level) (connected : out.connected = true)
    (req : JsWriteReq) :
    out.SendsFrom req.bytes req.offset (out.sendHeadReq req) := sendPieces_sends level connected (Nat.le_refl _)

def unsent (reqs : List JsWriteReq) : List (List UInt8) := reqs.flatMap fun req => pieces (req.bytes.drop req.offset)

/-- These pieces of the head of the queue are sent, and none of the requests behind it. -/
def Begun (begun : List (List UInt8)) : List JsWriteReq → Prop
  | [] => begun = []
  | head :: rest =>
    begun ++ pieces (head.bytes.drop head.offset) = pieces head.bytes ∧ ∀ req ∈ rest, req.offset = 0

theorem unsent_of_fresh (fresh : ∀ req ∈ reqs, req.offset = 0) :
    unsent reqs = (reqs.map JsWriteReq.bytes).flatMap pieces := by
  induction reqs with
  | nil => rfl
  | cons head rest ih =>
    have headFresh := fresh head mem_cons_self
    have rest := ih fun req member => fresh req (mem_cons_of_mem _ member)
    rw [unsent] at rest ⊢
    rw [flatMap_cons, map_cons, flatMap_cons, headFresh, drop_zero, rest]

theorem Begun.unsent {begun : List (List UInt8)} (is : Begun begun reqs) :
    begun ++ unsent reqs = (reqs.map JsWriteReq.bytes).flatMap pieces := by
  cases reqs with
  | nil =>
    rw [show begun = [] from is]
    rfl
  | cons head rest =>
    obtain ⟨joined, fresh⟩ := is
    have restUnsent := unsent_of_fresh fresh
    rw [JsSender.unsent] at restUnsent ⊢
    rw [flatMap_cons, map_cons, flatMap_cons, ← append_assoc, joined, restUnsent]

theorem Begun.of_fresh (fresh : ∀ req ∈ reqs, req.offset = 0) : Begun [] reqs := by
  cases reqs with
  | nil => rfl
  | cons head rest =>
    refine ⟨?_, fun req member => fresh req (mem_cons_of_mem _ member)⟩
    rw [fresh head mem_cons_self]
    rfl

theorem Begun.push {begun : List (List UInt8)} (is : Begun begun reqs) {req : JsWriteReq}
    (fresh : req.offset = 0) : Begun begun (reqs ++ [req]) := by
  cases reqs with
  | nil =>
    rw [show begun = [] from is]
    exact Begun.of_fresh fun _ member => by rw [mem_singleton.1 member]; exact fresh
  | cons head rest =>
    refine ⟨is.1, ?_⟩
    exact forall_mem_append.2 ⟨is.2, forall_mem_singleton.2 fresh⟩

/-- What `ResumeWrite` does to the queue: the requests it answers are sent, and where one is left, the sender is
held. -/
structure Resumed (out : JsSender) (reqs : List JsWriteReq) (begun : List (List UInt8))
    (result : JsSender × List JsWriteReq × List (Nat × Int)) : Prop where
  sends : ∃ payloads rest, out.Sends result.1 payloads ∧ Begun rest result.2.1 ∧
    begun ++ payloads = ((reqs.take result.2.2.length).map JsWriteReq.bytes).flatMap pieces ++ rest
  left : result.2.1.map JsWriteReq.bytes = (reqs.drop result.2.2.length).map JsWriteReq.bytes
  ids : result.2.2.map Prod.fst ++ result.2.1.map JsWriteReq.id = reqs.map JsWriteReq.id
  held : result.2.1 ≠ [] → result.1.fc.isFlowCtrl = false

theorem resumeWrite_resumed (level : out.fc.Level) (connected : out.connected = true)
    {begun : List (List UInt8)} (is : Begun begun reqs) : out.Resumed reqs begun
    (out.resumeWrite reqs) := by
  induction reqs generalizing out begun with
  | nil => exact ⟨⟨[], begun, Sends.nothing level, is, append_nil _⟩, rfl, rfl, fun never => absurd rfl never⟩
  | cons head rest ih =>
    obtain ⟨begunHead, fresh⟩ := is
    have result := sendHeadReq_sends level connected head
    rw [resumeWrite]
    generalize out.sendHeadReq head = sentHead at result
    obtain ⟨waits, next⟩ := sentHead
    obtain ⟨⟨payloads, sends, joined⟩, held⟩ := result
    cases waits with
    | some offset =>
      have joinedHead : payloads ++ pieces (head.bytes.drop offset) = pieces (head.bytes.drop head.offset) := joined
      refine ⟨⟨payloads, begun ++ payloads, sends, ⟨?_, fresh⟩, rfl⟩, rfl, rfl, fun _ => held (Option.some_ne_none _)⟩
      rw [append_assoc, joinedHead, begunHead]
    | none =>
      have joinedHead : payloads = pieces (head.bytes.drop head.offset) := (append_nil _).symm.trans joined
      obtain ⟨⟨more, last, further, begunLast, joinedRest⟩, left, ids, heldRest⟩ :=
        @ih next sends.level (sends.connected.trans connected) [] (Begun.of_fresh fresh)
      refine ⟨⟨payloads ++ more, last, sends.trans further, begunLast, ?_⟩, left, congrArg (head.id :: ·) ids,
        heldRest⟩
      have restSent : more = ((rest.take (next.resumeWrite rest).2.2.length).map JsWriteReq.bytes).flatMap pieces ++
          last := joinedRest
      rw [← append_assoc, joinedHead, begunHead, restSent, ← append_assoc]
      rfl

end JsSender

/-! ### The stream between two handlers -/

theorem payloads_dataFrames (sent : List OutFrame) (payloads : List (List UInt8)) :
    (sent ++ payloads.map JsSender.dataFrame).filterMap OutFrame.payload =
      sent.filterMap OutFrame.payload ++ payloads := by
  rw [filterMap_append, filterMap_map]
  exact congrArg _ (filterMap_some)

theorem reports_dataFrames (sent : List OutFrame) (payloads : List (List UInt8)) :
    (sent ++ payloads.map JsSender.dataFrame).filterMap OutFrame.report = sent.filterMap OutFrame.report := by
  have none : (payloads.map JsSender.dataFrame).filterMap OutFrame.report = [] := by
    rw [filterMap_map]
    exact filterMap_eq_nil_iff.2 fun _ _ => rfl
  rw [filterMap_append, none, append_nil]

namespace JsStream

/-- The requests that are answered are sent, and those of the queue are the others. -/
structure Writer (stm : JsStream) : Prop where
  begun : ∃ begun, stm.out.sent.filterMap OutFrame.payload =
    (stm.requests.take stm.answers.length).flatMap pieces ++ begun ∧ JsSender.Begun begun stm.writeReqs
  queued : stm.writeReqs.map JsWriteReq.bytes = stm.requests.drop stm.answers.length
  once : stm.answers.map Prod.fst ++ stm.writeReqs.map JsWriteReq.id = List.range stm.requests.length

/-- The payloads behind the head of the queue are not passed, and the head is at the client. -/
structure Reader (stm : JsStream) : Prop where
  entries : stm.entries.map RecvBuf.bytes = stm.received
  passed : stm.passed ++ stm.recvQue.tail = stm.entries
  busy : stm.recvQue ≠ [] → stm.consumed = stm.passed.length
  idle : stm.recvQue = [] → stm.consumed = stm.passed.length + 1
  reports : stm.out.sent.filterMap OutFrame.report = stm.passed.filterMap RecvBuf.report

/-- What holds at any point of a handler. -/
structure Base (stm : JsStream) : Prop where
  writer : stm.Writer
  sized : ∀ frame ∈ stm.out.sent, frame.Sized ↔ frame.report = none
  counted : stm.out.fc.rxBytes = (stm.received.map List.length).sum
  reported : stm.out.fc.Reported
  level : stm.out.fc.Level
  free : stm.peerHolds = false
  remains : stm.closed = false

/-- What holds between two handlers. -/
structure Inv (stm : JsStream) : Prop extends stm.Base where
  reader : stm.Reader
  unheld : stm.out.fc.isFlowCtrl = true → stm.writeReqs = []

theorem Inv.new : new.Inv where
  writer := ⟨⟨[], rfl, rfl⟩, rfl, rfl⟩
  reader := ⟨rfl, rfl, fun _ => rfl, fun never => absurd never (cons_ne_nil _ _), rfl⟩
  sized := forall_mem_nil _
  counted := rfl
  reported := ⟨by decide, by decide⟩
  level := JsFlowControl.Level.new
  free := rfl
  remains := rfl
  unheld := fun _ => rfl

section

variable {stm : JsStream}

theorem Writer.answers_le (writer : stm.Writer) : stm.answers.length ≤ stm.requests.length := by
  have lengths := congrArg List.length writer.once
  rw [length_append, length_map, length_map, length_range] at lengths
  omega

theorem Inv.inOrder (inv : stm.Inv) : stm.InOrder where
  frames := by
    obtain ⟨begun, sent, isBegun⟩ := inv.writer.begun
    have unsent := isBegun.unsent
    rw [JsSender.unsent] at unsent
    rw [sent, append_assoc, unsent, inv.writer.queued, ← flatMap_append, take_append_drop]
  sized := fun frame member => (inv.sized frame member).2
  once := inv.writer.once
  whole := by
    obtain ⟨begun, sent, _⟩ := inv.writer.begun
    rw [sent]
    exact prefix_append _ _
  passed := by
    rw [← inv.reader.entries, ← inv.reader.passed, map_append]
    exact prefix_append _ _
  oneByOne := by
    by_cases idle : stm.recvQue = []
    · rw [inv.reader.idle idle]
      exact Nat.le_succ _
    · rw [inv.reader.busy idle]
  prompt := by
    intro asked
    by_cases idle : stm.recvQue = []
    · rw [← inv.reader.entries, ← inv.reader.passed, idle, length_map]
      rw [tail_nil, append_nil]
    · rw [inv.reader.busy idle] at asked
      exact absurd asked (Nat.lt_irrefl _)
  reports := inv.reader.reports
  counted := inv.counted
  due := inv.reported
  holds := fun never => absurd (never.symm.trans inv.free) Bool.noConfusion
  releases := by
    intro held
    rw [inv.level.isFlowCtrl, Bool.not_eq_false'] at held
    exact .inr held
  remains := inv.remains
  unheld := inv.unheld

/-- `ResumeWrite` of the stream. -/
def resume (stm : JsStream) : JsStream :=
  let resumed := stm.out.resumeWrite stm.writeReqs
  { stm with out := resumed.1, writeReqs := resumed.2.1, answers := stm.answers ++ resumed.2.2 }

theorem resume_of_nil {stm : JsStream} (empty : stm.writeReqs = []) : stm.resume = stm := by
  rw [resume, empty, JsSender.resumeWrite]
  dsimp only
  rw [← empty, append_nil]

def push (stm : JsStream) (bytes : List UInt8) : JsStream :=
  { stm with
    requests := stm.requests ++ [bytes]
    writeReqs := stm.writeReqs ++ [⟨stm.requests.length, bytes, 0⟩] }

theorem Writer.push (writer : stm.Writer) (bytes : List UInt8) : (stm.push bytes).Writer where
  begun := by
    obtain ⟨begun, sent, isBegun⟩ := writer.begun
    refine ⟨begun, ?_, isBegun.push rfl⟩
    show _ = ((stm.requests ++ [bytes]).take stm.answers.length).flatMap pieces ++ begun
    rw [take_append_of_le_length writer.answers_le]
    exact sent
  queued := by
    show (stm.writeReqs ++ [_]).map JsWriteReq.bytes = (stm.requests ++ [bytes]).drop stm.answers.length
    rw [map_append, writer.queued, drop_append_of_le_length writer.answers_le]
    rfl
  once := by
    show stm.answers.map Prod.fst ++ (stm.writeReqs ++ [_]).map JsWriteReq.id =
      List.range (stm.requests ++ [bytes]).length
    rw [map_append, ← append_assoc, writer.once, length_append, length_singleton, range_succ]
    rfl

/-- Between the flow control and the records, only the writer has moved on. -/
structure Resumes (stm next : JsStream) : Prop where
  writer : next.Writer
  sends : ∃ payloads, stm.out.Sends next.out payloads
  held : next.writeReqs ≠ [] → next.out.fc.isFlowCtrl = false

theorem Writer.resume (writer : stm.Writer) (level : stm.out.fc.Level)
    (connected : stm.out.connected = true) :
    stm.Resumes stm.resume := by
  obtain ⟨begun, sent, isBegun⟩ := writer.begun
  obtain ⟨⟨payloads, rest, sends, begunRest, joined⟩, left, ids, held⟩ :=
    JsSender.resumeWrite_resumed level connected isBegun
  have next : stm.resume = { stm with
      out := (stm.out.resumeWrite stm.writeReqs).1
      writeReqs := (stm.out.resumeWrite stm.writeReqs).2.1
      answers := stm.answers ++ (stm.out.resumeWrite stm.writeReqs).2.2 } := rfl
  rw [next]
  generalize stm.out.resumeWrite stm.writeReqs = result at sends begunRest joined left ids held
  refine ⟨⟨⟨rest, ?_, begunRest⟩, ?_, ?_⟩, ⟨payloads, sends⟩, held⟩
  · show result.1.sent.filterMap OutFrame.payload =
      (stm.requests.take (stm.answers ++ result.2.2).length).flatMap pieces ++ rest
    rw [map_take, writer.queued] at joined
    rw [sends.sent, payloads_dataFrames, sent, append_assoc, joined, length_append, take_add,
      flatMap_append, append_assoc]
  · show result.2.1.map JsWriteReq.bytes = stm.requests.drop (stm.answers ++ result.2.2).length
    rw [left, map_drop, writer.queued, drop_drop, length_append]
  · show (stm.answers ++ result.2.2).map Prod.fst ++ result.2.1.map JsWriteReq.id = _
    rw [map_append, append_assoc, ids, writer.once]

theorem sized_sends {next : JsSender} {payloads : List (List UInt8)}
    (sends : stm.out.Sends next payloads)
    (sized : ∀ frame ∈ stm.out.sent, frame.Sized ↔ frame.report = none) :
    ∀ frame ∈ next.sent, frame.Sized ↔ frame.report = none := by
  intro frame member
  rw [sends.sent] at member
  rcases mem_append.1 member with old | new
  · exact sized frame old
  · obtain ⟨payload, _, is⟩ := mem_map.1 new
    rw [← is]
    exact ⟨fun _ => rfl, fun _ => rfl⟩

theorem Base.resume (base : stm.Base) (reader : stm.Reader)
    (connected : stm.out.connected = true ∨ stm.writeReqs = []) :
    stm.resume.Inv := by
  by_cases empty : stm.writeReqs = []
  · rw [resume_of_nil empty]
    exact ⟨base, reader, fun _ => empty⟩
  · obtain ⟨writer, ⟨payloads, sends⟩, held⟩ := base.writer.resume base.level (connected.resolve_right empty)
    refine ⟨⟨writer, sized_sends sends base.sized, sends.rx.1.trans base.counted, base.reported.same sends.rx,
      sends.level, base.free, base.remains⟩, ?_, ?_⟩
    · refine ⟨reader.entries, reader.passed, reader.busy, reader.idle, ?_⟩
      rw [sends.sent, reports_dataFrames]
      exact reader.reports
    · intro free
      apply Decidable.byContradiction
      intro queued
      exact Bool.false_ne_true ((held queued).symm.trans free)

theorem Base.push (base : stm.Base) (bytes : List UInt8) : (stm.push bytes).Base :=
  ⟨base.writer.push bytes, base.sized, base.counted, base.reported, base.level, base.free, base.remains⟩

theorem streamWrite_direct {bytes : List UInt8} (empty : stm.writeReqs = [])
    (free : stm.out.fc.isFlowCtrl = true) :
    stm.streamWrite bytes = (stm.push bytes).resume := by
  have direct : ¬(stm.writeReqs ≠ [] ∨ stm.out.fc.isFlowCtrl = false) := by
    rw [empty, free]
    exact fun never => never.elim (fun some => some rfl) Bool.noConfusion
  rw [streamWrite.eq_def, resume, JsStream.push]
  dsimp only
  rw [if_neg direct, empty, nil_append, JsSender.resumeWrite]
  generalize stm.out.sendHeadReq ⟨stm.requests.length, bytes, 0⟩ = result
  obtain ⟨waits, out⟩ := result
  cases waits with
  | none => rfl
  | some offset =>
    dsimp only
    rw [append_nil]

theorem Inv.streamWrite (inv : stm.Inv) {bytes : List UInt8} (fits : stm.Fits (.write bytes)) :
    (stm.streamWrite bytes).Inv := by
  have pushed := inv.toBase.push bytes
  have reader : (stm.push bytes).Reader :=
    { inv.reader with }
  by_cases direct : stm.writeReqs = [] ∧ stm.out.fc.isFlowCtrl = true
  · rw [streamWrite_direct direct.1 direct.2]
    exact pushed.resume reader (.inl (fits direct.1 direct.2))
  · have queues : stm.streamWrite bytes = stm.push bytes := by
      rw [streamWrite.eq_def]
      apply if_pos
      apply Decidable.byContradiction
      intro neither
      obtain ⟨empty, free⟩ := not_or.1 neither
      exact direct ⟨Decidable.not_not.1 empty, Bool.of_not_eq_false free⟩
    rw [queues]
    refine ⟨pushed, reader, ?_⟩
    intro free
    exact absurd ⟨inv.unheld free, free⟩ direct

theorem Inv.receiveProgress (inv : stm.Inv) {size rest : Nat} {report : Option JsReport}
    (fits : stm.Fits (.frame (.progress size rest report))) :
    (stm.receiveProgress size rest report).Inv := by
  cases report with
  | none => exact inv
  | some report =>
    rw [JsStream.receiveProgress.eq_def]
    dsimp only
    split
    · exact inv
    · next enough =>
        obtain ⟨level, keeps⟩ := inv.level.onReportInternal report
        have same := @JsFlowControl.onReportInternal_sameRx stm.out.fc report
        have base : ({ stm with out := { stm.out with fc := (stm.out.fc.onReportInternal report).2 } } :
            JsStream).Base :=
          ⟨{ inv.writer with }, inv.sized, same.1.trans inv.counted,
            inv.reported.same same, level, inv.free, inv.remains⟩
        have reader : ({ stm with out := { stm.out with fc := (stm.out.fc.onReportInternal report).2 } } :
            JsStream).Reader :=
          { inv.reader with }
        split
        · next lifts =>
            apply base.resume reader
            by_cases empty : stm.writeReqs = []
            · exact .inr empty
            · exact .inl (fits (Nat.le_of_not_lt enough) lifts empty)
        · next keepsOn =>
            refine ⟨base, reader, ?_⟩
            intro free
            exact inv.unheld ((keeps keepsOn).symm.trans free)

theorem send_cases (frame : OutFrame) :
    stm.out.send frame = (.success, { stm.out with sent := stm.out.sent ++ [frame] }) ∧ stm.out.connected = true ∨
      (stm.out.send frame).2 = stm.out ∧ stm.out.connected = false := by
  rw [JsSender.send]
  by_cases connected : stm.out.connected = true
  · rw [if_pos connected]
    exact .inl ⟨rfl, connected⟩
  · rw [if_neg connected]
    exact .inr ⟨rfl, Bool.eq_false_iff.2 connected⟩

theorem Base.addFrame (base : stm.Base) {frame : OutFrame} (noPayload : frame.payload = none)
    (sized : frame.Sized ↔ frame.report = none) :
    ({ stm with out := { stm.out with sent := stm.out.sent ++ [frame] } } : JsStream).Base := by
  refine ⟨⟨?_, base.writer.queued, base.writer.once⟩, ?_, base.counted, base.reported, base.level, base.free,
    base.remains⟩
  · have same : (stm.out.sent ++ [frame]).filterMap OutFrame.payload = stm.out.sent.filterMap OutFrame.payload := by
      rw [filterMap_append, filterMap_cons_none noPayload, filterMap_nil, append_nil]
    obtain ⟨begun, sent, isBegun⟩ := base.writer.begun
    exact ⟨begun, same.trans sent, isBegun⟩
  · exact forall_mem_append.2 ⟨base.sized, forall_mem_singleton.2 sized⟩

theorem Inv.sendPing (inv : stm.Inv) : stm.sendPing.Inv := by
  rw [JsStream.sendPing]
  rcases @send_cases stm .ping with ⟨sends, _⟩ | ⟨same, _⟩
  · rw [sends]
    refine ⟨inv.toBase.addFrame rfl ⟨fun _ => rfl, fun _ => trivial⟩, ?_, inv.unheld⟩
    refine ⟨inv.reader.entries, inv.reader.passed, inv.reader.busy, inv.reader.idle, ?_⟩
    rw [filterMap_append]
    exact (append_nil _).trans inv.reader.reports
  · rw [same]
    exact inv

/-- A queue whose head the client has asked for. -/
structure Asked (stm : JsStream) : Prop where
  entries : stm.entries.map RecvBuf.bytes = stm.received
  passed : stm.passed ++ stm.recvQue = stm.entries
  asked : stm.consumed = stm.passed.length + 1
  reports : stm.out.sent.filterMap OutFrame.report = stm.passed.filterMap RecvBuf.report

theorem header_ne_reportSize : ¬jsFrameHeader = jsReportSize := by
  decide

theorem Base.passHeadToClient (base : stm.Base) (asked : stm.Asked)
    (unheld : stm.out.fc.isFlowCtrl = true → stm.writeReqs = [])
    (fits : ∀ head ∈ stm.recvQue.head?, head.report ≠ none → stm.out.connected = true) :
    stm.passHeadToClient.Inv := by
  rw [JsStream.passHeadToClient.eq_def]
  cases queue : stm.recvQue with
  | nil =>
    have passed := asked.passed
    rw [queue, append_nil] at passed
    dsimp only
    refine ⟨base, ⟨asked.entries, ?_, fun some => absurd queue some, fun _ => asked.asked, asked.reports⟩, unheld⟩
    rw [queue, tail_nil, append_nil, passed]
  | cons head rest =>
    have passed : stm.passed ++ [head] ++ rest = stm.entries := by
      rw [append_assoc, ← asked.passed, queue]
      rfl
    have length : stm.consumed = (stm.passed ++ [head]).length := by
      rw [asked.asked, length_append, length_singleton]
    have present : head :: rest ≠ [] := cons_ne_nil _ _
    dsimp only
    cases due : head.report with
    | none =>
      dsimp only
      refine ⟨⟨{ base.writer with }, base.sized, base.counted, base.reported,
        base.level, base.free, base.remains⟩, ⟨asked.entries, passed, fun _ => length, fun never => absurd never present, ?_⟩, unheld⟩
      rw [filterMap_append, filterMap_cons_none due, filterMap_nil, append_nil]
      exact asked.reports
    | some report =>
      have connected := fits head (by rw [queue]; rfl) (by rw [due]; exact Option.some_ne_none _)
      have sends : stm.out.sendReport report =
          { stm.out with sent := stm.out.sent ++ [.progress jsFrameHeader report] } := by
        rw [JsSender.sendReport, JsSender.send, if_pos connected]
      dsimp only
      rw [sends]
      have wrong : (OutFrame.progress jsFrameHeader report).Sized ↔ some report = none :=
        ⟨fun never => absurd never header_ne_reportSize, fun never => absurd never (Option.some_ne_none _)⟩
      have added := @Base.addFrame stm base (.progress jsFrameHeader report) rfl wrong
      refine ⟨⟨{ added.writer with }, added.sized, added.counted, added.reported,
        added.level, added.free, added.remains⟩, ⟨asked.entries, passed, fun _ => length, fun never => absurd never present, ?_⟩, unheld⟩
      rw [filterMap_append, filterMap_append, filterMap_cons_some due, asked.reports]
      rfl

theorem Inv.dataConsumed (inv : stm.Inv) (fits : stm.Fits .dataConsumed) : stm.dataConsumed.Inv := by
  rw [JsStream.dataConsumed.eq_def]
  cases queue : stm.recvQue with
  | nil => exact inv
  | cons head rest =>
    have some : stm.recvQue ≠ [] := by
      rw [queue]
      exact cons_ne_nil _ _
    have passed := inv.reader.passed
    have fitsTail : ∀ entry ∈ stm.recvQue.tail.head?, entry.report ≠ none → stm.out.connected = true := fits
    rw [queue] at passed fitsTail
    dsimp only
    apply Base.passHeadToClient
    · exact ⟨{ inv.writer with }, inv.sized, inv.counted, inv.reported, inv.level, inv.free, inv.remains⟩
    · exact ⟨inv.reader.entries, passed, congrArg (· + 1) (inv.reader.busy some), inv.reader.reports⟩
    · exact inv.unheld
    · exact fitsTail

theorem Inv.receiveData (inv : stm.Inv) {size : Nat} {rest : List UInt8}
    (fits : stm.Fits (.frame (.data size rest))) : (stm.receiveData size rest).Inv := by
  rw [JsStream.receiveData.eq_def]
  by_cases short : rest.length < size
  · rw [if_pos short]
    exact inv
  · have length : (rest.take size).length = size := length_take_of_le (Nat.le_of_not_lt short)
    obtain ⟨bound, connected⟩ := fits (Nat.le_of_not_lt short)
    obtain ⟨reported, bytes, level, free, _⟩ := inv.reported.incRxBytes inv.level bound
    rw [if_neg short]
    dsimp only
    rw [length, if_neg (Nat.not_lt.2 bound)]
    generalize entryIs : RecvBuf.payload (rest.take size) (if (stm.out.fc.incRxBytes size).1 = .report then
      some (stm.out.fc.incRxBytes size).2.getReport else none) = entry
    have entryBytes : entry.bytes = rest.take size := by
      rw [← entryIs]
      rfl
    have due : entry.report ≠ none → (stm.out.fc.incRxBytes size).1 = .report := by
      intro some
      rw [← entryIs] at some
      apply Decidable.byContradiction
      intro keeps
      exact some (if_neg keeps)
    have counted : (stm.out.fc.incRxBytes size).2.rxBytes =
        ((stm.received ++ [rest.take size]).map List.length).sum := by
      rw [bytes, inv.counted, map_append, sum_append, map_singleton, sum_singleton, length]
    have entries : (stm.entries ++ [entry]).map RecvBuf.bytes = stm.received ++ [rest.take size] := by
      rw [map_append, inv.reader.entries, map_singleton, entryBytes]
    have unheld : (stm.out.fc.incRxBytes size).2.isFlowCtrl = true → stm.writeReqs = [] := by
      rw [free]
      exact inv.unheld
    by_cases idle : stm.recvQue = []
    · have passed := inv.reader.passed
      rw [idle, tail_nil, append_nil] at passed
      rw [idle, nil_append, length_singleton, if_pos rfl]
      apply Base.passHeadToClient
      · exact ⟨{ inv.writer with }, inv.sized, counted, reported, level, inv.free, inv.remains⟩
      · exact ⟨entries, congrArg (· ++ [entry]) passed, inv.reader.idle idle, inv.reader.reports⟩
      · exact unheld
      · intro head is some
        cases is
        exact connected idle (due some)
    · have more : ¬(stm.recvQue ++ [entry]).length = 1 := by
        have positive := length_pos_of_ne_nil idle
        rw [length_append, length_singleton]
        omega
      rw [if_neg more]
      refine ⟨⟨{ inv.writer with }, inv.sized, counted, reported, level, inv.free,
        inv.remains⟩, ⟨entries, ?_, fun _ => inv.reader.busy idle, ?_, inv.reader.reports⟩, unheld⟩
      · show stm.passed ++ (stm.recvQue ++ [entry]).tail = stm.entries ++ [entry]
        rw [tail_append_of_ne_nil idle, ← append_assoc, inv.reader.passed]
      · intro never
        exact absurd never (append_ne_nil_of_right_ne_nil _ (cons_ne_nil _ _))

theorem Inv.same (inv : stm.Inv) {bound connected : Bool} :
    ({ stm with bound := bound, out := { stm.out with connected := connected } } : JsStream).Inv where
  writer := { inv.writer with }
  sized := inv.sized
  counted := inv.counted
  reported := inv.reported
  level := inv.level
  free := inv.free
  remains := inv.remains
  reader := { inv.reader with }
  unheld := inv.unheld

theorem Inv.receiveBuf (inv : stm.Inv) {frame : InFrame} (fits : stm.Fits (.frame frame)) :
    (stm.receiveBuf frame).Inv := by
  cases frame with
  | data size rest => exact inv.receiveData fits
  | progress size rest report => exact inv.receiveProgress fits
  | ping =>
    have unbound : ¬stm.bound = true := Bool.eq_false_iff.1 fits
    rw [JsStream.receiveBuf, receiveDefault, if_neg unbound]
    exact inv
  | pong => exact inv
  | flowCtrl | lift => exact absurd fits id

theorem Inv.step (inv : stm.Inv) {event : JsEvent} {next : JsStream} (fits : stm.Fits event)
    (moved : stm.step event = some next) : next.Inv := by
  cases event with
  | bind =>
    cases moved
    apply Inv.sendPing
    exact inv.same
  | write bytes =>
    obtain ⟨_, ⟨⟩⟩ := Option.ite_none_right_eq_some.1 moved
    exact inv.streamWrite fits
  | frame frame =>
    cases moved
    exact inv.receiveBuf fits
  | dataConsumed =>
    obtain ⟨_, ⟨⟩⟩ := Option.ite_none_right_eq_some.1 moved
    exact inv.dataConsumed fits
  | pingTimer =>
    cases moved
    exact inv.sendPing
  | disconnect =>
    cases moved
    exact inv.same

end

/-- A stream whose handlers run as `Fits` has it keeps both directions in order; the size field of a frame is wrong as
soon as a report is sent. -/
theorem jsOrder_of_fits {stm : JsStream} (reached : (jsStream.restrict Fits).Reachable stm) :
    stm.InOrder ∧ (stm.Orderly ↔ ∀ frame ∈ stm.out.sent, frame.report = none) := by
  have inv : stm.Inv := by
    apply @Machine.Reachable.invariant _ _ _ Inv _ reached
    · exact Inv.new
    · intro state event next _ inv moved
      obtain ⟨fits, moved⟩ := Machine.restrict_step.1 moved
      exact inv.step fits moved
  refine ⟨inv.inOrder, ?_, ?_⟩
  · intro orderly frame member
    exact (inv.sized frame member).1 (orderly.allSized frame member)
  · intro none
    exact ⟨inv.inOrder, fun frame member => (inv.sized frame member).2 (none frame member)⟩

/-- A request is sent between two payloads, and the second one waits for the client. -/
theorem jsOrder_twoPayloads : ∃ stm : JsStream,
    (stm.out.sent, stm.answers, stm.passed) =
      ([.ping, .data 3 [7, 8, 9]], [(0, 0)], [.payload [1, 2] none, .payload [5] none]) ∧ stm.Orderly := by
  have ran : ((jsStream.restrict Fits).run new
      [.bind, .frame (.data 2 [1, 2]), .dataConsumed, .write [7, 8, 9], .frame (.data 1 [5]), .dataConsumed]).map
        (fun stm => (stm.out.sent, stm.answers, stm.passed)) =
      some ([.ping, .data 3 [7, 8, 9]], [(0, 0)], [.payload [1, 2] none, .payload [5] none]) := by
    decide +kernel
  obtain ⟨stm, run, same⟩ := Option.map_eq_some_iff.1 ran
  have sent : stm.out.sent = [.ping, .data 3 [7, 8, 9]] := congrArg Prod.fst same
  refine ⟨stm, same, (jsOrder_of_fits (Machine.Reachable.start.run run)).2.2 ?_⟩
  intro frame member
  rw [sent] at member
  rcases mem_cons.1 member with rfl | member
  · rfl
  · rw [mem_singleton.1 member]
    rfl

/-- A lift frame of the peer closes the stream. -/
theorem liftFrame_closes : ¬∀ stm : JsStream, jsStream.Reachable stm → stm.Orderly := by
  intro orderly
  have ran : (jsStream.run new [.bind, .frame .lift]).map JsStream.closed = some true := by decide +kernel
  obtain ⟨stm, run, closed⟩ := Option.map_eq_some_iff.1 ran
  have remains := (orderly stm (Machine.Reachable.start.run run)).remains
  exact Bool.false_ne_true (remains.symm.trans closed)

end JsStream

end RpcFrmwrk.Rpc
