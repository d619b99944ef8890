import Mathlib.Data.List.Perm.Basic
import RpcFrmwrk.Ipc.StmReader

/-! The bytes and the reports of the reading task over whole runs. Owns the packets that stay, as a
rest of those received; `StmReader.InOrder`, what the readers get and when a report is sent; the
steps that fit, and the invariant of their runs; a block read that finds a packet in its buffer. -/

namespace RpcFrmwrk.Ipc

open RpcFrmwrk.Library List

/-! ### The packets that stay -/

def ReadPkt.data (pkt : ReadPkt) : List UInt8 := if pkt.report then [] else pkt.bytes

def dataBytes (pkts : List ReadPkt) : List UInt8 := pkts.flatMap ReadPkt.data

def reportSeqs (pkts : List ReadPkt) : List Nat := (pkts.filter ReadPkt.report).map ReadPkt.seq

theorem dataBytes_append (front back : List ReadPkt) :
    dataBytes (front ++ back) = dataBytes front ++ dataBytes back := flatMap_append

theorem dataBytes_data {pkt : ReadPkt} (isData : pkt.report = false) : dataBytes [pkt] = pkt.bytes := by
  rw [dataBytes, flatMap_singleton, ReadPkt.data, isData]
  rfl

theorem dataBytes_report {pkt : ReadPkt} (isReport : pkt.report = true) : dataBytes [pkt] = [] := by
  rw [dataBytes, flatMap_singleton, ReadPkt.data, isReport]
  rfl

theorem reportSeqs_append (front back : List ReadPkt) :
    reportSeqs (front ++ back) = reportSeqs front ++ reportSeqs back := by
  rw [reportSeqs, filter_append, map_append]
  rfl

theorem reportSeqs_data {pkt : ReadPkt} (isData : pkt.report = false) : reportSeqs [pkt] = [] := by
  rw [reportSeqs, filter_cons_of_neg (by rw [isData]; exact Bool.false_ne_true)]
  rfl

theorem reportSeqs_report {pkt : ReadPkt} (isReport : pkt.report = true) : reportSeqs [pkt] = [pkt.seq] := by
  rw [reportSeqs, filter_cons_of_pos isReport]
  rfl

/-- The packets are all there, but for the used bytes of the first. -/
inductive Uncovers : List UInt8 → List ReadPkt → List ReadPkt → Prop where
  | whole (pkts : List ReadPkt) : Uncovers [] pkts pkts
  | part {first : ReadPkt} {used left : List UInt8} (rest : List ReadPkt) (isData : first.report = false)
      (bytes : first.bytes = used ++ left) :
      Uncovers used (first :: rest) ({ first with bytes := left } :: rest)

/-- The packets that stay, behind the bytes and the reports that have left. -/
structure Remains (received pkts : List ReadPkt) (bytes : List UInt8) (reports : List Nat) : Prop where
  places : received.map ReadPkt.seq = List.range received.length
  split : ∃ past full used, received = past ++ full ∧ Uncovers used full pkts ∧
    bytes = dataBytes past ++ used ∧ reports.Perm (reportSeqs past)

section

variable {received pkts rest : List ReadPkt} {first pkt : ReadPkt} {bytes : List UInt8} {reports : List Nat}

theorem Remains.bytes_append (remains : Remains received pkts bytes reports) :
    bytes ++ dataBytes pkts = dataBytes received := by
  obtain ⟨past, full, used, whole, uncovers, same, _⟩ := remains.split
  rw [whole, same, dataBytes_append, append_assoc]
  apply congrArg
  cases uncovers with
  | whole => rfl
  | @part first _ left rest isData isBytes =>
    have front : dataBytes ({ first with bytes := left } :: rest) = left ++ dataBytes rest := by
      rw [← singleton_append, dataBytes_append]
      exact congrArg (· ++ dataBytes rest) (dataBytes_data isData)
    rw [front, ← singleton_append, dataBytes_append, dataBytes_data isData, isBytes, append_assoc]

theorem Remains.reports_perm (remains : Remains received pkts bytes reports) :
    (reports ++ reportSeqs pkts).Perm (reportSeqs received) := by
  obtain ⟨past, full, used, whole, uncovers, _, same⟩ := remains.split
  rw [whole, reportSeqs_append]
  refine same.append ?_
  cases uncovers with
  | whole => exact List.Perm.refl _
  | @part first _ left rest isData _ =>
    have front : reportSeqs ({ first with bytes := left } :: rest) = reportSeqs rest := by
      rw [← singleton_append, reportSeqs_append, @reportSeqs_data { first with bytes := left } isData]
      rfl
    rw [front, ← singleton_append, reportSeqs_append, reportSeqs_data isData]
    exact List.Perm.refl _

theorem Remains.seq_lt (places : received.map ReadPkt.seq = List.range received.length)
    (member : pkt ∈ received) : pkt.seq < received.length := by
  rw [← mem_range, ← places]
  exact mem_map_of_mem member

theorem Remains.push (remains : Remains received pkts bytes reports)
    (seq : pkt.seq = received.length) :
    Remains (received ++ [pkt]) (pkts ++ [pkt]) bytes reports := by
  obtain ⟨past, full, used, whole, uncovers, same, perm⟩ := remains.split
  refine ⟨?_, past, full ++ [pkt], used, ?_, ?_, same, perm⟩
  · rw [map_append, remains.places, map_singleton, seq, length_append, length_singleton, range_succ]
  · rw [whole, append_assoc]
  · cases uncovers with
    | whole => exact .whole _
    | part rest isData isBytes => exact .part _ isData isBytes

theorem Remains.take (remains : Remains received (first :: rest) bytes reports)
    (isData : first.report = false) {front left : List UInt8} (cut : first.bytes = front ++ left) :
    Remains received ({ first with bytes := left } :: rest) (bytes ++ front) reports := by
  obtain ⟨past, full, used, whole, uncovers, same, perm⟩ := remains.split
  cases uncovers with
  | whole =>
    refine ⟨remains.places, past, first :: rest, front, whole, .part rest isData cut, ?_, perm⟩
    rw [same, append_nil]
  | @part origin _ _ _ isData' isBytes =>
    refine ⟨remains.places, past, origin :: rest, used ++ front, whole, ?_, ?_, perm⟩
    · apply Uncovers.part rest isData'
      rw [isBytes, append_assoc]
      exact congrArg (used ++ ·) cut
    · rw [same, append_assoc]

theorem Remains.pop (remains : Remains received (first :: rest) bytes reports)
    (isData : first.report = false) : Remains received rest (bytes ++ first.bytes) reports := by
  obtain ⟨past, full, used, whole, uncovers, same, perm⟩ := remains.split
  have moved : ∀ origin : ReadPkt, origin.report = false → origin.bytes = used ++ first.bytes →
      received = past ++ origin :: rest →
      Remains received rest (bytes ++ first.bytes) reports := by
    intro origin originData isBytes isReceived
    refine ⟨remains.places, past ++ [origin], rest, [], ?_, .whole rest, ?_, ?_⟩
    · rw [isReceived, append_assoc]
      rfl
    · rw [same, dataBytes_append, dataBytes_data originData, isBytes, append_nil, append_assoc]
    · rw [reportSeqs_append, reportSeqs_data originData, append_nil]
      exact perm
  cases uncovers with
  | whole => exact moved first isData rfl whole
  | @part origin _ _ _ originData isBytes => exact moved origin originData isBytes whole

theorem Remains.popReport (remains : Remains received (first :: rest) bytes reports)
    (isReport : first.report = true) :
    Remains received rest bytes (reports ++ [first.seq]) ∧ dataBytes (received.take first.seq) = bytes := by
  obtain ⟨past, full, used, whole, uncovers, same, perm⟩ := remains.split
  cases uncovers with
  | whole =>
    have place : first.seq = past.length := by
      have places := remains.places
      have isThere : (received.map ReadPkt.seq)[past.length]? = some first.seq := by
        rw [whole, map_append, List.getElem?_append_right (by rw [length_map]), length_map, Nat.sub_self]
        rfl
      rw [places] at isThere
      obtain ⟨inside, isIt⟩ := List.getElem?_eq_some_iff.1 isThere
      rw [← isIt, getElem_range]
    refine ⟨⟨remains.places, past ++ [first], rest, [], ?_, .whole rest, ?_, ?_⟩, ?_⟩
    · rw [whole, append_assoc]
      rfl
    · rw [same, dataBytes_append, dataBytes_report isReport, append_nil, append_nil]
    · rw [reportSeqs_append, reportSeqs_report isReport]
      exact perm.append_right _
    · rw [place, whole, take_left, same, append_nil]
  | part _ isData _ => exact absurd isReport (by rw [isData]; exact Bool.false_ne_true)

end

namespace QueuedRead

variable {irp : QueuedRead} {pkt : ReadPkt}

def Waits (irp : QueuedRead) : Prop :=
  if irp.req.size = 0 then irp.filled = [] else irp.filled.length < irp.req.size

def Filled (req : ReadReq) (bytes : List UInt8) : Prop := req.size ≠ 0 → bytes.length = req.size

/-- What `SetRdRespForIrp` does: the packet fills the request, or is taken whole, or is cut. -/
inductive Responds (irp : QueuedRead) (pkt : ReadPkt) : Int × QueuedRead × ReadPkt → Prop where
  | success (status : Int) (full : Filled irp.req (irp.filled ++ pkt.bytes)) :
      Responds irp pkt
        (statusSuccess, { irp with status := status, filled := irp.filled ++ pkt.bytes }, pkt)
  | pending (block : irp.req.size ≠ 0) (room : (irp.filled ++ pkt.bytes).length < irp.req.size) :
      Responds irp pkt (statusPending, { irp with filled := irp.filled ++ pkt.bytes }, pkt)
  | more (front left : List UInt8) (cut : pkt.bytes = front ++ left) (block : irp.req.size ≠ 0)
      (full : (irp.filled ++ front).length = irp.req.size) (stays : left ≠ []) :
      Responds irp pkt
        (statusMoreProcessNeeded, { irp with filled := irp.filled ++ front },
          { pkt with bytes := left })

theorem responds (waits : irp.Waits) : Responds irp pkt (irp.setRdRespForIrp pkt) := by
  rw [setRdRespForIrp]
  rw [Waits] at waits
  by_cases message : irp.req.size = 0
  · rw [if_pos message] at waits
    rw [if_pos message]
    have same : pkt.bytes = irp.filled ++ pkt.bytes := by rw [waits, nil_append]
    have done := @Responds.success irp pkt statusSuccess fun block => absurd message block
    rwa [← same] at done
  · rw [if_neg message] at waits
    rw [if_neg message]
    simp only
    by_cases short : pkt.bytes.length ≤ irp.req.size - irp.filled.length
    · have whole : pkt.bytes.take (min (irp.req.size - irp.filled.length) pkt.bytes.length) = pkt.bytes := by
        rw [Nat.min_eq_right short, take_length]
      rw [whole, Nat.min_eq_right short]
      split_ifs with room cut
      · exact .pending message room
      · exact absurd cut (Nat.lt_irrefl _)
      · refine .success irp.status fun _ => ?_
        rw [length_append] at room ⊢
        omega
    · have long := Nat.lt_of_not_le short
      rw [Nat.min_eq_left (Nat.le_of_lt long)]
      have count : (pkt.bytes.take (irp.req.size - irp.filled.length)).length =
          irp.req.size - irp.filled.length := by
        rw [length_take, Nat.min_eq_left (Nat.le_of_lt long)]
      have full : (irp.filled ++ pkt.bytes.take (irp.req.size - irp.filled.length)).length = irp.req.size := by
        rw [length_append, count]
        omega
      rw [if_neg (by rw [full]; exact Nat.lt_irrefl _), if_pos long]
      refine .more _ _ (take_append_drop _ _).symm message full fun none => ?_
      have rest := congrArg List.length none
      rw [length_drop, length_nil] at rest
      omega

end QueuedRead

/-- A block takes whole packets: the first is the block, or all that are there do not fill it.
Its timer can fire before. -/
def FitsBlock (size : Nat) : Nat → Option Nat → List ReadPkt → Prop
  | _, _, [] => True
  | got, fires, first :: rest =>
    fires = some 0 ∨ (first.report = false ∧
      ((got = 0 ∧ first.bytes.length = size) ∨
        (got + first.bytes.length < size ∧
          FitsBlock size (got + first.bytes.length) (fires.map Nat.pred) rest)))

instance decidableFitsBlock (size : Nat) (got : Nat) (fires : Option Nat) (pkts : List ReadPkt) :
    Decidable (FitsBlock size got fires pkts) :=
  match pkts with
  | [] => isTrue trivial
  | first :: rest =>
    have := decidableFitsBlock size (got + first.bytes.length) (fires.map Nat.pred) rest
    inferInstanceAs (Decidable (_ ∨ (_ ∧ (_ ∨ (_ ∧ _)))))

/-- What the loop over the packets does to a request that fits. -/
inductive Took (irp : QueuedRead) (received : List ReadPkt) (base : List UInt8) (reports : List Nat) :
    Int × QueuedRead × List ReadPkt × List UInt8 → Prop where
  | pending (filled : List UInt8) (room : { irp with filled := filled }.Waits)
      (remains : Remains received [] (base ++ filled) reports) :
      Took irp received base reports (statusPending, { irp with filled := filled }, [], [])
  | failed (filled temp : List UInt8) (left : List ReadPkt) (block : filled ≠ [] → irp.req.size ≠ 0)
      (remains : Remains received left (base ++ filled) reports) :
      Took irp received base reports (errorState, { irp with filled := filled }, left, temp)
  | success (status : Int) (filled temp : List UInt8) (left : List ReadPkt)
      (full : QueuedRead.Filled irp.req temp) (remains : Remains received left (base ++ temp) reports) :
      Took irp received base reports
        (statusSuccess, { irp with status := status, filled := filled }, left, temp)

section

variable {irp : QueuedRead} {received pkts : List ReadPkt} {base : List UInt8} {reports : List Nat}
  {fires : Option Nat}

theorem success_ne_pending : statusSuccess ≠ statusPending := by decide

theorem more_ne_pending : statusMoreProcessNeeded ≠ statusPending := by decide

theorem more_ne_success : statusMoreProcessNeeded ≠ statusSuccess := by decide

theorem took_block (waits : irp.Waits) (block : irp.req.size ≠ 0)
    (fits : FitsBlock irp.req.size irp.filled.length fires pkts)
    (remains : Remains received pkts (base ++ irp.filled) reports) :
    Took irp received base reports (irp.takePackets fires pkts) := by
  induction pkts generalizing irp fires with
  | nil => exact .pending irp.filled waits remains
  | cons first rest ih =>
    rw [QueuedRead.takePackets]
    by_cases fired : fires = some 0
    · rw [if_pos fired]
      exact .failed irp.filled first.bytes (first :: rest) (fun _ => block) remains
    · obtain ⟨isData, fills | ⟨room, fits⟩⟩ := fits.resolve_left fired
      all_goals
        rw [if_neg fired]
        have popped := remains.pop isData
        have responds := @QueuedRead.responds irp first waits
        generalize irp.setRdRespForIrp first = response at responds ⊢
      · have none : irp.filled = [] := eq_nil_of_length_eq_zero fills.1
        cases responds with
        | success status full =>
          simp only
          rw [if_neg success_ne_pending, if_pos trivial]
          refine .success status _ first.bytes rest (fun _ => fills.2) ?_
          rwa [none, append_nil] at popped
        | pending _ room =>
          rw [none, nil_append, fills.2] at room
          exact absurd room (Nat.lt_irrefl _)
        | more front left cut _ full stays =>
          have whole := congrArg List.length cut
          rw [none, nil_append] at full
          rw [fills.2, length_append, full] at whole
          exact absurd (eq_nil_of_length_eq_zero (by omega)) stays
      · cases responds with
        | success status full =>
          have whole := full block
          rw [length_append] at whole
          omega
        | pending _ _ =>
          simp only
          rw [if_pos trivial]
          have waitsOn : QueuedRead.Waits { irp with filled := irp.filled ++ first.bytes } := by
            rw [QueuedRead.Waits, if_neg block, length_append]
            exact room
          have took := @ih { irp with filled := irp.filled ++ first.bytes } _ waitsOn block
            (by rw [length_append]; exact fits) (by rw [← append_assoc]; exact popped)
          generalize QueuedRead.takePackets _ _ _ = result at took ⊢
          cases took with
          | pending filled room remains => exact .pending filled room remains
          | failed filled temp left block remains => exact .failed filled temp left block remains
          | success status filled temp left full remains => exact .success status filled temp left full remains
        | more front left cut _ full stays =>
          have whole := congrArg List.length cut
          rw [length_append] at whole full
          omega

theorem took_message (waits : irp.Waits) (message : irp.req.size = 0)
    (isData : ∀ first ∈ pkts.head?, first.report = false)
    (remains : Remains received pkts base reports) :
    Took irp received base reports (irp.takePackets fires pkts) := by
  have none : irp.filled = [] := by rwa [QueuedRead.Waits, if_pos message] at waits
  cases pkts with
  | nil =>
    refine .pending irp.filled waits ?_
    rwa [none, append_nil]
  | cons first rest =>
    rw [QueuedRead.takePackets]
    by_cases fired : fires = some 0
    · rw [if_pos fired]
      refine .failed irp.filled first.bytes (first :: rest) (fun some => absurd none some) ?_
      rwa [none, append_nil]
    · rw [if_neg fired]
      have responds := @QueuedRead.responds irp first waits
      generalize irp.setRdRespForIrp first = response at responds ⊢
      cases responds with
      | success status full =>
        simp only
        rw [if_neg success_ne_pending, if_pos trivial]
        exact .success status _ first.bytes rest (fun block => absurd message block)
          (remains.pop (isData first rfl))
      | pending block _ | more _ _ _ block _ _ => exact absurd message block

end

/-! ### The requests for one packet -/

def FitsFeed : Nat → List QueuedRead → Prop
  | _, [] => True
  | count, irp :: rest =>
    irp.state = .ready ∧ (irp.req.size ≠ 0 → irp.req.size - irp.filled.length < count →
      FitsFeed (count - (irp.req.size - irp.filled.length)) rest)

instance decidableFitsFeed (count : Nat) (irps : List QueuedRead) : Decidable (FitsFeed count irps) :=
  match irps with
  | [] => isTrue trivial
  | irp :: rest =>
    have := decidableFitsFeed (count - (irp.req.size - irp.filled.length)) rest
    inferInstanceAs (Decidable (_ ∧ (_ → _ → _)))

/-- What the loop over the requests does with a packet that fits. -/
structure Fed (irps : List QueuedRead) (received : List ReadPkt) (base : List UInt8) (reports : List Nat)
    (left chosen : List QueuedRead) (queued : Option ReadPkt) : Prop where
  remains : Remains received queued.toList
    (base ++ chosen.flatMap QueuedRead.filled ++ left.flatMap QueuedRead.filled) reports
  more : ∃ bytes, base ++ chosen.flatMap QueuedRead.filled ++ left.flatMap QueuedRead.filled =
    base ++ irps.flatMap QueuedRead.filled ++ bytes
  apart : left = [] ∨ queued = none
  solid : ∀ irp ∈ left.tail, irp.filled = []
  waits : ∀ irp ∈ left, irp.Waits
  retired : ∀ irp ∈ left, irp.state ≠ .ready → irp ∈ irps
  chosen : ∀ irp ∈ chosen, irp.state = .ready ∧ irp.status = statusSuccess ∧
    QueuedRead.Filled irp.req irp.filled

theorem filled_nil {irps : List QueuedRead} (none : ∀ irp ∈ irps, irp.filled = []) :
    irps.flatMap QueuedRead.filled = [] := flatMap_eq_nil_iff.2 none

theorem fed_requests {irps : List QueuedRead} {pkt : ReadPkt} {received : List ReadPkt} {base : List UInt8}
    {reports : List Nat} (isData : pkt.report = false) (solid : ∀ irp ∈ irps.tail, irp.filled = [])
    (waits : ∀ irp ∈ irps, irp.Waits) (fits : FitsFeed pkt.bytes.length irps)
    (remains : Remains received [pkt] (base ++ irps.flatMap QueuedRead.filled) reports) :
    Fed irps received base reports (QueuedRead.feedRequests pkt irps).2.1
      (QueuedRead.feedRequests pkt irps).2.2.1 (QueuedRead.feedRequests pkt irps).2.2.2 := by
  induction irps generalizing pkt base with
  | nil =>
    refine ⟨?_, ⟨[], rfl⟩, .inl rfl, forall_mem_nil _,
      forall_mem_nil _, forall_mem_nil _,
      forall_mem_nil _⟩
    show Remains received [pkt] (base ++ [] ++ []) reports
    rw [append_nil]
    exact remains
  | cons irp rest ih =>
    obtain ⟨ready, further⟩ := fits
    have none := filled_nil solid
    rw [tail_cons] at none
    rw [flatMap_cons, none, append_nil] at remains
    rw [QueuedRead.feedRequests, if_neg fun other => other ready]
    have responds := @QueuedRead.responds irp pkt (waits irp mem_cons_self)
    generalize irp.setRdRespForIrp pkt = response at responds ⊢
    cases responds with
    | success status full =>
      simp only
      rw [if_neg success_ne_pending, if_pos trivial]
      refine ⟨?_, ⟨pkt.bytes, ?_⟩, .inr rfl, fun other member => solid other (mem_of_mem_tail member),
        fun other member => waits other (mem_cons_of_mem _ member),
        fun other member _ => mem_cons_of_mem _ member, fun other member => ?_⟩
      · rw [none, append_nil, flatMap_singleton, ← append_assoc]
        exact remains.pop isData
      · rw [none, append_nil, flatMap_singleton, flatMap_cons, none, append_nil, append_assoc]
      · rw [mem_singleton.1 member]
        exact ⟨ready, rfl, full⟩
    | pending block room =>
      simp only
      rw [if_pos trivial]
      refine ⟨?_, ⟨pkt.bytes, ?_⟩, .inr rfl, solid, fun other member => ?_, fun other member state => ?_,
        forall_mem_nil _⟩
      · rw [flatMap_cons, none, flatMap_nil, append_nil, append_nil, ← append_assoc]
        exact remains.pop isData
      · rw [flatMap_nil, flatMap_cons, flatMap_cons, none, append_nil, append_nil, append_nil, append_assoc]
      · rcases mem_cons.1 member with isIt | before
        · rw [isIt, QueuedRead.Waits, if_neg block]
          exact room
        · exact waits other (mem_cons_of_mem _ before)
      · rcases mem_cons.1 member with isIt | before
        · rw [isIt] at state
          exact absurd ready state
        · exact mem_cons_of_mem _ before
    | more front left cut block full stays =>
      simp only
      rw [if_neg more_ne_pending, if_neg more_ne_success]
      have long := congrArg List.length cut
      rw [length_append] at long full
      have some := length_pos_of_ne_nil stays
      have fitsLeft : FitsFeed left.length rest := by
        have same : pkt.bytes.length - (irp.req.size - irp.filled.length) = left.length := by omega
        rw [← same]
        exact further block (by omega)
      have taken := remains.take isData cut
      have fed := @ih { pkt with bytes := left }
        (base ++ (irp.filled ++ front)) isData
        (fun other member => solid other (mem_of_mem_tail member))
        (fun other member => waits other (mem_cons_of_mem _ member)) fitsLeft
        (by rw [none, append_nil, ← append_assoc]; exact taken)
      obtain ⟨further, same⟩ := fed.more
      refine ⟨?_, ⟨front ++ further, ?_⟩, fed.apart, fed.solid, fed.waits,
        fun other member state => mem_cons_of_mem _ (fed.retired other member state),
        fun other member => ?_⟩
      · rw [flatMap_cons, ← append_assoc base]
        exact fed.remains
      · rw [none, append_nil] at same
        rw [flatMap_cons, flatMap_cons, none, append_nil, ← append_assoc base, same,
          append_assoc, append_assoc, append_assoc]
      · rcases mem_cons.1 member with isIt | before
        · rw [isIt]
          refine ⟨ready, rfl, fun _ => ?_⟩
          show (irp.filled ++ front).length = irp.req.size
          rw [length_append, full]
        · exact fed.chosen other before

namespace StmReader

/-- The bytes reach the readers in order, each once, and none of a report; a report is sent
once, behind all bytes ahead of it; a block is done when it is full. -/
structure InOrder (reader : StmReader) : Prop where
  bytes : reader.handed ++ dataBytes reader.queBufRead = dataBytes reader.received
  once : (reader.done ++ reader.chosen.map QueuedRead.done).Perm reader.given
  full : ∀ done ∈ reader.given, done.status = statusSuccess → QueuedRead.Filled done.req done.bytes
  waits : ∀ irp ∈ reader.queRequests, irp.Waits
  lost : ∀ done ∈ reader.given, done.status ≠ statusSuccess → done.bytes ≠ [] →
    done.req.size ≠ 0 ∧ done.req.id ∈ reader.fired
  reports : (reader.sent.map Prod.fst ++ reader.sending.map (fun sending => sending.report.seq) ++
    reportSeqs reader.queBufRead).Perm (reportSeqs reader.received)
  places : reader.received.map ReadPkt.seq = List.range reader.received.length
  behind : ∀ report ∈ reader.sent, (dataBytes (reader.received.take report.1)).length ≤ report.2
  apart : reader.queRequests = [] ∨ reader.queBufRead = []

/-- A read that finds data finds no report behind the first packet, and a block takes whole
packets. Data finds no retired request, and no timer fires of a request that is chosen. -/
def Fits (reader : StmReader) : StmReaderMove → Prop
  | .read call fires =>
    (∀ first ∈ reader.queBufRead.head?, first.report = true) ∨
      ((∀ second ∈ reader.queBufRead.tail.head?, second.report = false) ∧
        (call.req.size ≠ 0 → call.req.noWait = false →
          FitsBlock call.req.size 0 fires reader.queBufRead))
  | .recv report bytes => report = true ∨ FitsFeed bytes.length reader.queRequests
  | .expire id _ => ∀ irp ∈ reader.chosen, irp.req.id ≠ id
  | _ => True

instance decidableFits (reader : StmReader) (move : StmReaderMove) : Decidable (reader.Fits move) :=
  match move with
  | .read call fires =>
    inferInstanceAs (Decidable ((∀ first ∈ reader.queBufRead.head?, first.report = true) ∨
      ((∀ second ∈ reader.queBufRead.tail.head?, second.report = false) ∧
        (call.req.size ≠ 0 → call.req.noWait = false →
          FitsBlock call.req.size 0 fires reader.queBufRead))))
  | .recv report bytes =>
    inferInstanceAs (Decidable (report = true ∨ FitsFeed bytes.length reader.queRequests))
  | .expire id _ => inferInstanceAs (Decidable (∀ irp ∈ reader.chosen, irp.req.id ≠ id))
  | .call _ _ _ | .send _ | .resched | .complete _ | .expired _ => isTrue trivial

end StmReader

/-! ### The stream and the requests -/

structure Stream (received pkts : List ReadPkt) (bytes : List UInt8) (sent : List (Nat × Nat))
    (sending : List SendingReport) : Prop where
  remains : Remains received pkts bytes
    (sent.map Prod.fst ++ sending.map fun sending => sending.report.seq)
  behind : ∀ report ∈ sent, (dataBytes (received.take report.1)).length ≤ report.2
  ahead : ∀ going ∈ sending, (dataBytes (received.take going.report.seq)).length ≤ bytes.length

section

variable {received pkts rest : List ReadPkt} {first pkt : ReadPkt} {bytes : List UInt8}
  {sent : List (Nat × Nat)} {sending : List SendingReport}

theorem Stream.hand (stream : Stream received pkts bytes sent sending) {left : List ReadPkt}
    {more : List UInt8} (remains : Remains received left (bytes ++ more)
      (sent.map Prod.fst ++ sending.map fun sending => sending.report.seq)) :
    Stream received left (bytes ++ more) sent sending :=
  ⟨remains, stream.behind, fun going member => (stream.ahead going member).trans (by
    rw [length_append]
    exact Nat.le_add_right _ _)⟩

theorem Stream.popReport (stream : Stream received (first :: rest) bytes sent sending)
    (isReport : first.report = true) (call : Option ReadCall) :
    Stream received rest bytes sent (sending ++ [⟨first, call⟩]) := by
  obtain ⟨remains, ahead⟩ := stream.remains.popReport isReport
  refine ⟨?_, stream.behind, fun going member => ?_⟩
  · rw [map_append, ← append_assoc]
    exact remains
  · rcases mem_append.1 member with before | isIt
    · exact stream.ahead going before
    · rw [mem_singleton.1 isIt, ahead]

theorem Stream.seq_lt (stream : Stream received pkts bytes sent sending) {seq : Nat}
    (known : seq ∈ sent.map Prod.fst ++ sending.map fun sending => sending.report.seq) :
    seq < received.length := by
  have member := stream.remains.reports_perm.subset (mem_append_left _ known)
  obtain ⟨pkt, isPkt, same⟩ := mem_map.1 member
  rw [← same]
  exact Remains.seq_lt stream.remains.places (mem_filter.1 isPkt).1

theorem Stream.push (stream : Stream received pkts bytes sent sending)
    (seq : pkt.seq = received.length) :
    Stream (received ++ [pkt]) (pkts ++ [pkt]) bytes sent sending := by
  have same : ∀ place, place < received.length → (received ++ [pkt]).take place = received.take place :=
    fun place inside => take_append_of_le_length (Nat.le_of_lt inside)
  refine ⟨stream.remains.push seq, fun report member => ?_, fun going member => ?_⟩
  · rw [same _ (stream.seq_lt (mem_append_left _ (mem_map_of_mem member)))]
    exact stream.behind report member
  · rw [same _ (stream.seq_lt (mem_append_right _ (mem_map.2 ⟨going, member, rfl⟩)))]
    exact stream.ahead going member

theorem Stream.send (stream : Stream received pkts bytes sent sending) {going : SendingReport}
    (member : going ∈ sending) :
    Stream received pkts bytes (sent ++ [(going.report.seq, bytes.length)]) (sending.erase going) := by
  refine ⟨?_, fun report isReport => ?_, fun other isOther =>
    stream.ahead other (mem_of_mem_erase isOther)⟩
  · have moved : (sent.map Prod.fst ++ sending.map fun sending => sending.report.seq).Perm
        ((sent ++ [(going.report.seq, bytes.length)]).map Prod.fst ++
          (sending.erase going).map fun sending => sending.report.seq) := by
      rw [map_append, append_assoc]
      exact List.Perm.append_left _ ((perm_cons_erase member).map fun sending => sending.report.seq)
    obtain ⟨places, past, full, used, whole, uncovers, same, perm⟩ := stream.remains
    exact ⟨places, past, full, used, whole, uncovers, same, moved.symm.trans perm⟩
  · rcases mem_append.1 isReport with before | isIt
    · exact stream.behind report before
    · rw [mem_singleton.1 isIt]
      exact stream.ahead going member

end

/-- The requests but for the bytes they share. -/
structure Requests (irps chosen : List QueuedRead) (given done : List ReadDone) (fired : List Nat) : Prop where
  once : (done ++ chosen.map QueuedRead.done).Perm given
  full : ∀ done ∈ given, done.status = statusSuccess → QueuedRead.Filled done.req done.bytes
  lost : ∀ done ∈ given, done.status ≠ statusSuccess → done.bytes ≠ [] →
    done.req.size ≠ 0 ∧ done.req.id ∈ fired
  solid : ∀ irp ∈ irps.tail, irp.filled = []
  waits : ∀ irp ∈ irps, irp.Waits
  retired : ∀ irp ∈ irps, irp.state ≠ .ready → irp.status ≠ statusSuccess ∧ irp.req.id ∈ fired
  ready : ∀ irp ∈ chosen, irp.state = .ready

section

variable {irps chosen : List QueuedRead} {given done : List ReadDone} {fired : List Nat}

theorem Requests.answer (requests : Requests irps chosen given done fired) {new : ReadDone}
    (full : new.status = statusSuccess → QueuedRead.Filled new.req new.bytes)
    (lost : new.status ≠ statusSuccess → new.bytes ≠ [] → new.req.size ≠ 0 ∧ new.req.id ∈ fired) :
    Requests irps chosen (given ++ [new]) (done ++ [new]) fired := by
  refine ⟨?_, fun old member => ?_, fun old member => ?_, requests.solid, requests.waits, requests.retired,
    requests.ready⟩
  · have moved : (done ++ [new] ++ chosen.map QueuedRead.done).Perm
        (done ++ chosen.map QueuedRead.done ++ [new]) := by
      rw [append_assoc, append_assoc]
      exact List.Perm.append_left _ perm_append_comm
    exact moved.trans (requests.once.append_right _)
  · rcases mem_append.1 member with before | isIt
    · exact requests.full old before
    · rw [mem_singleton.1 isIt]
      exact full
  · rcases mem_append.1 member with before | isIt
    · exact requests.lost old before
    · rw [mem_singleton.1 isIt]
      exact lost

theorem Requests.fire (requests : Requests irps chosen given done fired) (fires : Nat) :
    Requests irps chosen given done (fired ++ [fires]) :=
  ⟨requests.once, requests.full,
    fun done member failed some => (requests.lost done member failed some).imp id (mem_append_left _),
    requests.solid, requests.waits,
    fun irp member state => (requests.retired irp member state).imp id (mem_append_left _),
    requests.ready⟩

theorem Requests.push (requests : Requests irps chosen given done fired) {new : QueuedRead}
    (ready : new.state = .ready) (waits : new.Waits) (solid : irps = [] ∨ new.filled = []) :
    Requests (irps ++ [new]) chosen given done fired := by
  refine ⟨requests.once, requests.full, requests.lost, fun irp member => ?_, fun irp member => ?_,
    fun irp member state => ?_, requests.ready⟩
  · cases irps with
    | nil => exact absurd member not_mem_nil
    | cons head rest =>
      rcases mem_append.1 member with before | isIt
      · exact requests.solid irp before
      · rw [mem_singleton.1 isIt]
        exact solid.resolve_left (cons_ne_nil _ _)
  · rcases mem_append.1 member with before | isIt
    · exact requests.waits irp before
    · rw [mem_singleton.1 isIt]
      exact waits
  · rcases mem_append.1 member with before | isIt
    · exact requests.retired irp before state
    · rw [mem_singleton.1 isIt] at state
      exact absurd ready state

theorem Requests.feed (requests : Requests irps chosen given done fired) {received : List ReadPkt}
    {base : List UInt8} {reports : List Nat} {left more : List QueuedRead} {queued : Option ReadPkt}
    (fed : Fed irps received base reports left more queued) :
    Requests left (chosen ++ more) (given ++ more.map QueuedRead.done) done fired := by
  refine ⟨?_, fun old member => ?_, fun old member failed some => ?_, fed.solid, fed.waits,
    fun irp member state => requests.retired irp (fed.retired irp member state) state, fun irp member => ?_⟩
  · rw [map_append, ← append_assoc]
    exact requests.once.append_right _
  · rcases mem_append.1 member with before | isNew
    · exact requests.full old before
    · obtain ⟨irp, isIrp, same⟩ := mem_map.1 isNew
      rw [← same]
      exact fun _ => (fed.chosen irp isIrp).2.2
  · rcases mem_append.1 member with before | isNew
    · exact requests.lost old before failed some
    · obtain ⟨irp, isIrp, same⟩ := mem_map.1 isNew
      rw [← same] at failed
      exact absurd (fed.chosen irp isIrp).2.1 failed
  · rcases mem_append.1 member with before | isNew
    · exact requests.ready irp before
    · exact (fed.chosen irp isNew).1

variable {irp : QueuedRead} {id : Nat} {status : Int}

theorem Requests.complete (requests : Requests irps chosen given done fired)
    (member : irp ∈ chosen) :
    Requests irps (chosen.erase irp) given (done ++ [irp.done]) fired := by
  refine ⟨?_, requests.full, requests.lost, requests.solid, requests.waits, requests.retired,
    fun other isOther => requests.ready other (mem_of_mem_erase isOther)⟩
  have moved : (chosen.map QueuedRead.done).Perm (irp.done :: (chosen.erase irp).map QueuedRead.done) :=
    (perm_cons_erase member).map QueuedRead.done
  rw [append_assoc]
  exact (List.Perm.append_left done moved.symm).trans requests.once

theorem filled_erase (solid : ∀ irp ∈ irps.tail, irp.filled = []) (member : irp ∈ irps) :
    irp.filled ++ (irps.erase irp).flatMap QueuedRead.filled = irps.flatMap QueuedRead.filled := by
  cases irps with
  | nil => exact absurd member not_mem_nil
  | cons head rest =>
    by_cases same : head = irp
    · rw [same, erase_cons_head, flatMap_cons]
    · have behind : irp ∈ rest := (mem_cons.1 member).resolve_left fun isIt => same isIt.symm
      have none : rest.flatMap QueuedRead.filled = [] := filled_nil solid
      have less : (rest.erase irp).flatMap QueuedRead.filled = [] :=
        filled_nil fun other isOther => solid other (mem_of_mem_erase isOther)
      rw [erase_cons_tail (by simpa using same), flatMap_cons, flatMap_cons, solid irp behind, none, less]
      rfl

theorem Requests.retire (requests : Requests irps chosen given done fired)
    (member : irp ∈ irps) (retired : irp.state ≠ .ready) :
    Requests (irps.erase irp) chosen (given ++ [irp.done]) (done ++ [irp.done]) fired := by
  obtain ⟨failed, inFired⟩ := requests.retired irp member retired
  have waits := requests.waits irp member
  have left : Requests (irps.erase irp) chosen given done fired :=
    ⟨requests.once, requests.full, requests.lost,
      fun other isOther => requests.solid other ((erase_sublist (a := irp)).tail.subset isOther),
      fun other isOther => requests.waits other (mem_of_mem_erase isOther),
      fun other isOther => requests.retired other (mem_of_mem_erase isOther), requests.ready⟩
  refine left.answer (fun success => absurd success failed) fun _ some => ⟨fun message => ?_, inFired⟩
  have isMessage : irp.req.size = 0 := message
  rw [QueuedRead.Waits, if_pos isMessage] at waits
  exact some waits

theorem mem_retire
    (member : irp ∈ StmReader.retire irps id status) :
    ∃ old ∈ irps, irp.req = old.req ∧ irp.filled = old.filled ∧
      (irp = old ∨ (irp.req.id = id ∧ irp.status = status)) := by
  obtain ⟨old, isOld, same⟩ := mem_map.1 member
  refine ⟨old, isOld, ?_⟩
  rw [← same]
  split
  · next isIt => exact ⟨rfl, rfl, .inr ⟨isIt.1, rfl⟩⟩
  · exact ⟨rfl, rfl, .inl rfl⟩

theorem retire_none (status : Int) (none : ∀ irp ∈ irps, irp.req.id ≠ id) :
    StmReader.retire irps id status = irps := by
  rw [StmReader.retire]
  conv => rhs; rw [← map_id irps]
  apply map_congr_left
  intro irp member
  rw [if_neg fun isIt => none irp member isIt.1]
  rfl

theorem filled_retire (id : Nat) (status : Int) :
    (StmReader.retire irps id status).flatMap QueuedRead.filled = irps.flatMap QueuedRead.filled := by
  rw [StmReader.retire, flatMap_map]
  apply flatMap_congr
  intro irp _
  split
  · rfl
  · rfl

theorem Requests.expire (requests : Requests irps chosen given done fired) (id : Nat)
    (negative : status < 0) :
    Requests (StmReader.retire irps id status) chosen given done (fired ++ [id]) := by
  have more := requests.fire id
  refine ⟨more.once, more.full, more.lost, fun irp member => ?_, fun irp member => ?_,
    fun irp member state => ?_, more.ready⟩
  · rw [StmReader.retire, ← map_tail] at member
    obtain ⟨old, isOld, _, same, _⟩ := mem_retire member
    rw [same]
    exact requests.solid old isOld
  · obtain ⟨old, isOld, sameReq, same, _⟩ := mem_retire member
    rw [QueuedRead.Waits, sameReq, same]
    exact requests.waits old isOld
  · obtain ⟨old, isOld, _, _, before | ⟨isIt, isStatus⟩⟩ := mem_retire member
    · rw [before] at state ⊢
      exact more.retired old isOld state
    · rw [isStatus, isIt]
      exact ⟨Int.ne_of_lt negative, mem_append_right _ (mem_singleton_self _)⟩

end

namespace StmReader

structure Flow (reader : StmReader) : Prop where
  going : reader.stopped = false
  keeping : reader.discard = false
  locked : ∀ call ∈ reader.calls, call.locked = true
  lockedBehind : ∀ sending ∈ reader.sending, ∀ call ∈ sending.call, call.locked = true
  stream : Stream reader.received reader.queBufRead reader.handed reader.sent reader.sending
  requests : Requests reader.queRequests reader.chosen reader.given reader.done reader.fired
  apart : reader.queRequests = [] ∨ reader.queBufRead = []

variable {reader : StmReader}

theorem Flow.inOrder (flow : reader.Flow) : reader.InOrder :=
  ⟨flow.stream.remains.bytes_append, flow.requests.once, flow.requests.full, flow.requests.waits,
    flow.requests.lost, flow.stream.remains.reports_perm, flow.stream.remains.places, flow.stream.behind,
    flow.apart⟩

theorem flow_new : new.Flow where
  going := rfl
  keeping := rfl
  locked := forall_mem_nil _
  lockedBehind := forall_mem_nil _
  stream := ⟨⟨rfl, [], [], [], rfl, .whole [], rfl, List.Perm.refl _⟩, forall_mem_nil _, forall_mem_nil _⟩
  requests := ⟨List.Perm.refl _, forall_mem_nil _,
    forall_mem_nil _, forall_mem_nil _,
    forall_mem_nil _, forall_mem_nil _,
    forall_mem_nil _⟩
  apart := .inl rfl

theorem handed_answer (req : ReadReq) (status : Int) {bytes : List UInt8}
    (free : reader.queRequests.flatMap QueuedRead.filled = [] ∨ bytes = []) :
    (reader.answer req status bytes).handed = reader.handed ++ bytes := by
  show (reader.given ++ [ReadDone.mk req status bytes]).flatMap ReadDone.bytes ++
    reader.queRequests.flatMap QueuedRead.filled = _
  rw [handed, flatMap_append, flatMap_singleton]
  rcases free with none | none
  · rw [none, append_nil, append_nil]
  · rw [none, append_nil, append_nil]

variable {status : Int} {bytes : List UInt8} {pkt : ReadPkt} {irp : QueuedRead}

theorem Flow.refuse (flow : reader.Flow) (req : ReadReq) (failed : status ≠ statusSuccess) :
    (reader.answer req status []).Flow := by
  have same := @handed_answer reader req status [] (.inr rfl)
  rw [append_nil] at same
  refine ⟨flow.going, flow.keeping, flow.locked, flow.lockedBehind, ?_,
    flow.requests.answer (fun success => absurd success failed) fun _ some => absurd rfl some, flow.apart⟩
  rw [same]
  exact flow.stream

theorem Flow.serve (flow : reader.Flow) (none : reader.queRequests = []) {req : ReadReq}
    {left : List ReadPkt} {fired : List Nat} (paused : Bool)
    (requests : Requests reader.queRequests reader.chosen reader.given reader.done fired)
    (full : status = statusSuccess → QueuedRead.Filled req bytes)
    (lost : status ≠ statusSuccess → bytes ≠ [] → req.size ≠ 0 ∧ req.id ∈ fired)
    (remains : Remains reader.received left (reader.handed ++ bytes)
      (reader.sent.map Prod.fst ++ reader.sending.map fun sending => sending.report.seq)) :
    Flow (answer { reader with queBufRead := left, paused := paused, fired := fired } req status bytes) := by
  have same := @handed_answer { reader with queBufRead := left, paused := paused, fired := fired } req status
    bytes (.inl (by rw [none]; rfl))
  refine ⟨flow.going, flow.keeping, flow.locked, flow.lockedBehind, ?_, requests.answer full lost, .inl none⟩
  rw [same]
  exact flow.stream.hand remains

theorem eAgain_ne_success : eAgain ≠ statusSuccess := by decide

theorem eInval_ne_success : eInval ≠ statusSuccess := by decide

theorem errorState_ne_success : errorState ≠ statusSuccess := by decide

theorem isError_errorState : isError errorState = true := by decide

theorem flow_completeReadIrp (flow : reader.Flow) (req : ReadReq) (fires : Option Nat)
    (isData : ∀ first ∈ reader.queBufRead.head?, first.report = false)
    (fits : req.size ≠ 0 → FitsBlock req.size 0 fires reader.queBufRead) :
    (reader.completeReadIrp req fires).Flow := by
  rw [completeReadIrp]
  by_cases both : reader.queRequests ≠ [] ∧ reader.queBufRead ≠ []
  · rw [if_pos both]
    exact flow.refuse req errorState_ne_success
  rw [if_neg both]
  have free : reader.queBufRead ≠ [] → reader.queRequests = [] :=
    fun some => Decidable.by_contra fun waiting => both ⟨waiting, some⟩
  generalize isNew : (⟨req, .ready, statusPending, []⟩ : QueuedRead) = new
  have sameReq : new.req = req := by rw [← isNew]
  have ready : new.state = .ready := by rw [← isNew]
  have empty : new.filled = [] := by rw [← isNew]
  have waits : new.Waits := by
    rw [QueuedRead.Waits, empty]
    split
    · rfl
    · next block => exact Nat.pos_of_ne_zero block
  simp only
  by_cases none : reader.queBufRead = []
  · rw [none]
    show Flow { reader with queBufRead := [], queRequests := reader.queRequests ++ [new] }
    have same : handed { reader with queBufRead := [], queRequests := reader.queRequests ++ [new] } =
        reader.handed := by
      show _ ++ (reader.queRequests ++ [new]).flatMap QueuedRead.filled = _
      rw [flatMap_append, flatMap_singleton, empty, append_nil]
      rfl
    refine ⟨flow.going, flow.keeping, flow.locked, flow.lockedBehind, ?_,
      flow.requests.push ready waits (.inr empty), .inr rfl⟩
    rw [same, ← none]
    exact flow.stream
  have noRequests := free none
  have remains := flow.stream.remains
  have took : Took new reader.received reader.handed
      (reader.sent.map Prod.fst ++ reader.sending.map fun sending => sending.report.seq)
      (new.takePackets fires reader.queBufRead) := by
    by_cases message : new.req.size = 0
    · exact took_message waits message isData remains
    · refine took_block waits message ?_ (by rwa [empty, append_nil])
      rw [empty, sameReq]
      exact fits (sameReq ▸ message)
  generalize new.takePackets fires reader.queBufRead = result at took ⊢
  cases took with
  | pending filled room remains =>
    simp only
    rw [if_pos trivial, noRequests]
    have same : handed { reader with queBufRead := [], queRequests := [{ new with filled := filled }] } =
        reader.handed ++ filled := by
      rw [handed, handed, noRequests, flatMap_nil, append_nil]
      exact congrArg _ (flatMap_singleton ..)
    have requests := @Requests.push _ _ _ _ _ flow.requests { new with filled := filled } ready room (.inl noRequests)
    rw [noRequests] at requests
    refine ⟨flow.going, flow.keeping, flow.locked, flow.lockedBehind, ?_, requests, .inr rfl⟩
    rw [nil_append, same]
    exact flow.stream.hand remains
  | failed filled temp left block remains =>
    simp only
    rw [if_neg (by decide), if_pos isError_errorState]
    refine flow.serve noRequests reader.paused (flow.requests.fire req.id)
      (fun success => absurd success errorState_ne_success) (fun _ some => ⟨?_, ?_⟩) remains
    · rw [← sameReq]
      exact block some
    · exact mem_append_right _ (mem_singleton_self _)
  | success status filled temp left full remains =>
    simp only
    rw [if_neg success_ne_pending, if_neg (by decide)]
    rw [sameReq] at full
    split
    · exact flow.serve noRequests false flow.requests (fun _ => full) (fun failed => absurd rfl failed) remains
    · exact flow.serve noRequests reader.paused flow.requests (fun _ => full)
        (fun failed => absurd rfl failed) remains

theorem flow_readPackets (flow : reader.Flow) (req : ReadReq) (fires : Option Nat)
    (isData : ∀ first ∈ reader.queBufRead.head?, first.report = false)
    (fits : req.size ≠ 0 → req.noWait = false → FitsBlock req.size 0 fires reader.queBufRead) :
    (reader.readPackets req fires).Flow := by
  rw [readPackets]
  by_cases message : req.noWait = true ∧ req.size = 0
  · rw [if_pos message]
    have remains := flow.stream.remains
    split
    · exact flow.refuse req eAgain_ne_success
    · next first rest pkts =>
        rw [pkts] at remains isData
        by_cases noRequests : reader.queRequests = []
        · rw [if_pos noRequests]
          have popped := remains.pop (isData first rfl)
          have full : statusSuccess = statusSuccess → QueuedRead.Filled req first.bytes :=
            fun _ block => absurd message.2 block
          simp only
          split
          · exact flow.serve noRequests false flow.requests full (fun failed => absurd rfl failed) popped
          · exact flow.serve noRequests reader.paused flow.requests full
              (fun failed => absurd rfl failed) popped
        · rw [if_neg noRequests]
          exact flow.refuse req errorState_ne_success
  · rw [if_neg message]
    by_cases noWait : req.noWait = true
    · rw [if_pos noWait]
      exact flow.refuse req eInval_ne_success
    · rw [if_neg noWait]
      exact flow_completeReadIrp flow req fires isData fun block =>
        fits block (Bool.eq_false_iff.2 noWait)

theorem flow_readStreamInternal (flow : reader.Flow) {call : ReadCall} {fires : Option Nat}
    (locked : call.locked = true) (fits : reader.Fits (.read call fires)) :
    (reader.readStreamInternal call fires).Flow := by
  rw [readStreamInternal, if_neg (by rw [locked]; decide), if_neg (by rw [flow.going, flow.keeping]; decide)]
  have stream := flow.stream
  rw [Fits] at fits
  split
  · next first rest pkts =>
      rw [pkts] at stream fits
      by_cases isReport : first.report = true
      · rw [if_pos isReport]
        refine ⟨flow.going, flow.keeping, flow.locked, fun going member next isNext => ?_,
          stream.popReport isReport _, flow.requests, ?_⟩
        · rcases mem_append.1 member with before | isIt
          · exact flow.lockedBehind going before next isNext
          · rw [mem_singleton.1 isIt] at isNext
            rw [← Option.some.inj isNext]
        · exact flow.apart.imp id fun none => absurd (pkts.symm.trans none) (cons_ne_nil _ _)
      · rw [if_neg isReport]
        obtain ⟨isData, block⟩ := fits.resolve_left fun reports => isReport (reports first rfl)
        rw [← pkts] at block
        have front : ∀ pkt ∈ reader.queBufRead.head?, pkt.report = false := by
          intro pkt isFirst
          rw [pkts] at isFirst
          cases isFirst
          exact Bool.eq_false_iff.2 isReport
        split
        · next second behind =>
            rw [if_neg (by rw [isData second rfl]; exact Bool.false_ne_true)]
            exact flow_readPackets flow call.req fires front block
        · exact flow_readPackets flow call.req fires front block
  · next pkts =>
      have none : ∀ pkt ∈ reader.queBufRead.head?, pkt.report = false := by
        intro pkt isFirst
        rw [pkts] at isFirst
        exact absurd isFirst (Option.not_mem_none _)
      refine flow_readPackets flow call.req fires none fun _ _ => ?_
      rw [pkts]
      trivial

theorem Flow.queue (flow : reader.Flow) (seq : pkt.seq = reader.received.length)
    (none : reader.queRequests = []) (paused : Bool) :
    Flow { reader with
      received := reader.received ++ [pkt], queBufRead := reader.queBufRead ++ [pkt], paused := paused } :=
  ⟨flow.going, flow.keeping, flow.locked, flow.lockedBehind, flow.stream.push seq, flow.requests, .inl none⟩

theorem flow_completeReads (flow : reader.Flow) (seq : pkt.seq = reader.received.length)
    (isData : pkt.report = false) (waiting : reader.queRequests ≠ [])
    (fits : FitsFeed pkt.bytes.length reader.queRequests) :
    (completeReads { reader with received := reader.received ++ [pkt] } pkt).2.Flow := by
  have noPkts := flow.apart.resolve_left waiting
  have both : ¬(reader.queRequests ≠ [] ∧ reader.queBufRead ≠ []) := fun both => both.2 noPkts
  rw [completeReads, if_neg both]
  have stream := flow.stream.push seq
  rw [noPkts, nil_append] at stream
  have fed := @fed_requests _ _ _ (reader.given.flatMap ReadDone.bytes) _ isData flow.requests.solid
    flow.requests.waits fits stream.remains
  have feed := flow.requests.feed fed
  simp only
  generalize QueuedRead.feedRequests pkt reader.queRequests = result at fed feed ⊢
  obtain ⟨ret, left, chosen, queued⟩ := result
  rw [noPkts, nil_append]
  obtain ⟨more, isMore⟩ := fed.more
  have isHanded : (reader.given ++ chosen.map QueuedRead.done).flatMap ReadDone.bytes ++
      left.flatMap QueuedRead.filled = reader.handed ++ more := by
    rw [handed, ← isMore, flatMap_append, flatMap_map]
    rfl
  have remains := fed.remains
  rw [isMore] at remains
  refine ⟨flow.going, flow.keeping, flow.locked, flow.lockedBehind, ?_, feed,
    fed.apart.imp id fun none => by rw [none]; rfl⟩
  show Stream _ _ ((reader.given ++ chosen.map QueuedRead.done).flatMap ReadDone.bytes ++
    left.flatMap QueuedRead.filled) _ _
  rw [isHanded]
  exact stream.hand remains

theorem flow_onStmRecv (flow : reader.Flow) {report : Bool}
    (fits : reader.Fits (.recv report bytes)) : (reader.onStmRecv report bytes).2.Flow := by
  rw [onStmRecv]
  simp only
  have notStopped : ¬reader.stopped = true := by
    rw [flow.going]
    exact Bool.false_ne_true
  have notDiscard : ¬reader.discard = true := by
    rw [flow.keeping]
    exact Bool.false_ne_true
  have isPlace : (ReadPkt.mk reader.received.length report bytes).seq = reader.received.length := rfl
  generalize isPkt : ReadPkt.mk reader.received.length report bytes = pkt at isPlace
  by_cases empty : bytes = []
  · rw [if_pos empty]
    exact flow
  rw [if_neg empty, if_neg notStopped]
  by_cases isReport : report = true
  · rw [if_pos isReport]
    have reports : pkt.report = true := by rw [← isPkt, isReport]
    by_cases noPkts : reader.queBufRead = [] ∨ reader.discard = true
    · rw [if_pos noPkts]
      have none := noPkts.resolve_right notDiscard
      have stream := flow.stream.push isPlace
      rw [none, nil_append] at stream
      refine ⟨flow.going, flow.keeping, flow.locked, fun going member next isNext => ?_, ?_, flow.requests,
        .inr none⟩
      · rcases mem_append.1 member with before | isIt
        · exact flow.lockedBehind going before next isNext
        · rw [mem_singleton.1 isIt] at isNext
          exact absurd isNext (Option.not_mem_none _)
      · show Stream _ reader.queBufRead _ _ _
        rw [none]
        exact stream.popReport reports _
    · rw [if_neg noPkts]
      have some : reader.queBufRead ≠ [] := fun none => noPkts (.inl none)
      exact flow.queue isPlace (flow.apart.resolve_right some) reader.paused
  · rw [if_neg isReport, if_neg notDiscard]
    have isData : pkt.report = false := by
      rw [← isPkt]
      exact Bool.eq_false_iff.2 isReport
    by_cases none : reader.queRequests = []
    · rw [if_pos none]
      split_ifs
      · exact flow.queue isPlace none true
      · exact flow.queue isPlace none reader.paused
      · exact flow.queue isPlace none reader.paused
    · rw [if_neg none]
      apply flow_completeReads flow isPlace isData none
      rw [← isPkt]
      exact fits.resolve_left isReport

theorem reschedRead_none (flow : reader.Flow) : reader.reschedRead.2 = reader := by
  rw [reschedRead, if_neg (by rw [flow.keeping]; exact Bool.false_ne_true)]
  rcases flow.apart with none | none
  · rw [if_pos none]
  · rw [none]
    split
    · rfl
    · rfl

theorem flow_completeIrp (flow : reader.Flow) (member : irp ∈ reader.chosen) :
    (reader.completeIrp irp).Flow := by
  rw [completeIrp, if_pos (flow.requests.ready irp member)]
  exact ⟨flow.going, flow.keeping, flow.locked, flow.lockedBehind, flow.stream,
    flow.requests.complete member, flow.apart⟩

theorem flow_onWorkerIrpComplete (flow : reader.Flow) (member : irp ∈ reader.queRequests)
    (retired : irp.state ≠ .ready) : (reader.onWorkerIrpComplete irp).Flow := by
  have same : (reader.given ++ [irp.done]).flatMap ReadDone.bytes ++
      (reader.queRequests.erase irp).flatMap QueuedRead.filled = reader.handed := by
    rw [handed, ← filled_erase flow.requests.solid member, flatMap_append, flatMap_singleton, append_assoc]
    rfl
  have noPkts : reader.queBufRead = [] :=
    flow.apart.resolve_left fun none => not_mem_nil (none ▸ member)
  have left : Flow (answer { reader with queRequests := reader.queRequests.erase irp } irp.req irp.status
      irp.filled) := by
    refine ⟨flow.going, flow.keeping, flow.locked, flow.lockedBehind, ?_,
      flow.requests.retire member retired, .inr noPkts⟩
    show Stream _ _ ((reader.given ++ [irp.done]).flatMap ReadDone.bytes ++
      (reader.queRequests.erase irp).flatMap QueuedRead.filled) _ _
    rw [same]
    exact flow.stream
  rw [onWorkerIrpComplete]
  split
  · exact { left with }
  · exact left

theorem flow_of_step {next : StmReader} {move : StmReaderMove} (flow : reader.Flow)
    (fits : reader.Fits move) (moved : reader.step move = some next) : next.Flow := by
  cases move with
  | call id size noWait =>
    obtain ⟨_, ⟨⟩⟩ := Option.ite_none_right_eq_some.1 moved
    refine ⟨flow.going, flow.keeping, fun call member => ?_, flow.lockedBehind, flow.stream, flow.requests,
      flow.apart⟩
    rcases mem_append.1 member with before | isIt
    · exact flow.locked call before
    · rw [mem_singleton.1 isIt]
  | read call fires =>
    obtain ⟨isCall, ⟨⟩⟩ := Option.ite_none_right_eq_some.1 moved
    have left : Flow { reader with calls := reader.calls.erase call } :=
      ⟨flow.going, flow.keeping, fun other member => flow.locked other (mem_of_mem_erase member),
        flow.lockedBehind, flow.stream, flow.requests, flow.apart⟩
    exact flow_readStreamInternal left (flow.locked call isCall) fits
  | send sending =>
    obtain ⟨member, ⟨⟩⟩ := Option.ite_none_right_eq_some.1 moved
    refine ⟨flow.going, flow.keeping, fun call isCall => ?_,
      fun other isOther => flow.lockedBehind other (mem_of_mem_erase isOther), flow.stream.send member,
      flow.requests, flow.apart⟩
    rcases mem_append.1 isCall with before | behind
    · exact flow.locked call before
    · exact flow.lockedBehind sending member call (Option.mem_toList.1 behind)
  | recv report bytes =>
    cases moved
    exact flow_onStmRecv flow fits
  | resched =>
    cases moved
    rw [reschedRead_none flow]
    exact flow
  | complete irp =>
    obtain ⟨member, ⟨⟩⟩ := Option.ite_none_right_eq_some.1 moved
    exact flow_completeIrp flow member
  | expire ends status =>
    obtain ⟨⟨negative, _⟩, ⟨⟩⟩ := Option.ite_none_right_eq_some.1 moved
    rw [retire_none status fits]
    refine ⟨flow.going, flow.keeping, flow.locked, flow.lockedBehind, ?_, flow.requests.expire ends negative,
      flow.apart.imp (fun none => by rw [none]; rfl) id⟩
    show Stream _ _ (_ ++ (retire reader.queRequests ends status).flatMap QueuedRead.filled) _ _
    rw [filled_retire]
    exact flow.stream
  | expired irp =>
    obtain ⟨⟨member, cancelled⟩, ⟨⟩⟩ := Option.ite_none_right_eq_some.1 moved
    exact flow_onWorkerIrpComplete flow member (by rw [cancelled]; decide)

end StmReader

def fittingReader : Machine StmReader StmReaderMove :=
  stmReaderMachine.restrict fun reader move => reader.Fits move

/-- In every run whose steps fit the bytes and the reports go in order. -/
theorem inOrder_of_fits {reader : StmReader} (reachable : fittingReader.Reachable reader) :
    reader.InOrder := by
  have flow : reader.Flow := by
    apply reachable.invariant
    · exact StmReader.flow_new
    · intro state move next _ flow moved
      obtain ⟨fits, moved⟩ := Machine.restrict_step.1 moved
      exact StmReader.flow_of_step flow fits moved
  exact flow.inOrder

/-- A block waits for two packets and a report is sent behind the first; then a message is
read, and a block that is one packet. -/
def blockAndReport : List StmReaderMove :=
  [.call 0 3 false, .read ⟨⟨0, 3, false⟩, true⟩ none, .recv false [1, 2], .recv true [9],
    .send ⟨⟨1, true, [9]⟩, none⟩, .recv false [3, 4], .complete ⟨⟨0, 3, false⟩, .ready, statusSuccess, [1, 2, 3]⟩,
    .call 1 0 true, .read ⟨⟨1, 0, true⟩, true⟩ none, .recv false [5, 6], .call 2 2 false,
    .read ⟨⟨2, 2, false⟩, true⟩ none]

theorem inOrder_blockAndReport :
    ∃ reader, fittingReader.run fittingReader.start blockAndReport = some reader ∧
      reader.done.map ReadDone.bytes = [[1, 2, 3], [4], [5, 6]] ∧ reader.sent = [(1, 2)] ∧
      reader.InOrder := by
  have ran : (fittingReader.run fittingReader.start blockAndReport).map
      (fun reader => (reader.done.map ReadDone.bytes, reader.sent)) =
        some ([[1, 2, 3], [4], [5, 6]], [(1, 2)]) := by
    decide +kernel
  obtain ⟨reader, run, fields⟩ := Option.map_eq_some_iff.1 ran
  have both := Prod.mk.inj fields
  exact ⟨reader, run, both.1, both.2, inOrder_of_fits (Machine.Reachable.start.run run)⟩

def blockOfPacket : List StmReaderMove :=
  [.recv false [1, 2, 3], .call 0 1 false, .read ⟨⟨0, 1, false⟩, true⟩ none]

/-- The caller finds the rest of the packet in its buffer. -/
theorem blockOfPacket_misread : ¬∀ reader, stmReaderMachine.Reachable reader → reader.InOrder := by
  intro inOrder
  have ran : (stmReaderMachine.run stmReaderMachine.start blockOfPacket).map
      (fun reader => (reader.handed, reader.queBufRead, reader.received)) =
        some ([2, 3], [⟨0, false, [2, 3]⟩], [⟨0, false, [1, 2, 3]⟩]) := by
    decide +kernel
  obtain ⟨reader, run, fields⟩ := Option.map_eq_some_iff.1 ran
  obtain ⟨isHanded, both⟩ := Prod.mk.inj fields
  obtain ⟨isQueued, isReceived⟩ := Prod.mk.inj both
  have bytes := (inOrder reader (Machine.Reachable.start.run run)).bytes
  rw [isHanded, isQueued, isReceived] at bytes
  exact absurd bytes (by decide)

end RpcFrmwrk.Ipc
