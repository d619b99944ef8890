import RpcFrmwrk.Ipc.Requests
import RpcFrmwrk.Ipc.UxPort
import RpcFrmwrk.Library.Threads

/-! The packets and the read watch of a port over whole runs. Owns `UxPort.Exact`, each packet for
one request and in its order, and the watch on where there is room. -/

namespace RpcFrmwrk.Ipc

open RpcFrmwrk.Library List

variable {listens : List Nat} {calls : Nat → HandOver}
variable {flying : List (List UInt8)} {promised : List Nat}

def UxPort.Quiet (port : UxPort) : Prop :=
  port.recv = .idle ∧ ∀ tid, port.call tid = .idle

/-- A request is completed at most once. The packets for readers and those for listeners are delivered in
their order, and those that are not are queued or in the hand of a call. Between calls the read
watch is on exactly where nobody has stopped the stream and the queue in use has room. -/
structure UxPort.Exact (port : UxPort) : Prop where
  once : ((port.delivered ++ port.heard).map Prod.fst).Nodup
  completed : ∀ entry ∈ port.delivered ++ port.heard, port.irp entry.1 = .completed
  packets : ∃ given, port.received = port.delivered.map Prod.snd ++ (given ++ port.dataPackets) ∧
    (port.Quiet → given = [])
  events : ∃ given, port.notified.map (fun event => eventBuf event.1 event.2) =
      (port.heard.map Prod.snd ++ (given ++ port.eventPackets)).map some ∧
    (port.Quiet → given = [])
  watch : port.Quiet →
    (port.watch = true ↔ port.flowCtrl = false ∧ port.packets.length < stmMaxQueueSize)

namespace HandOver

def bufs : HandOver → List (List UInt8)
  | .idle => []
  | .popped _ buf | .responded _ buf => [buf]

def irps : HandOver → List Nat
  | .idle => []
  | .popped irp _ | .responded irp _ => [irp]

def answered : HandOver → List Nat
  | .responded irp _ => [irp]
  | _ => []

theorem idle_of_bufs {call : HandOver} (nothing : call.bufs = []) : call = .idle := by
  cases call with
  | idle => rfl
  | _ => cases nothing

end HandOver

/-- `SendNotify` has a packet to make. With nobody listening it stops the watch only of the queue in
use, or one that is stopped; otherwise no other event packet is on its way. -/
def UxPort.NotifyFits (port : UxPort) (token : PktToken) (payload : List UInt8) : Prop :=
  (eventBuf token payload).isSome = true ∧
    if port.listening = [] then
      port.listenOnly = true ∨ port.watch = false ∨ port.eventPackets.length + 1 < stmMaxQueueSize
    else port.flying = []

/-- The request of the call can be completed, or the packet goes back to a queue that has room. -/
def HandOver.Fits (port : UxPort) : HandOver → Prop
  | .popped irp _ =>
    port.ready irp = true ∨ port.listenOnly = false ∨ port.watch = false ∨
      port.eventPackets.length + 1 < stmMaxQueueSize
  | _ => True

def HandOver.Reads (port : UxPort) : HandOver → Prop
  | .popped irp _ => port.ready irp = true
  | _ => True

/-- One event packet is on its way at a time, and none is taken from the queue past it. A request
that was taken off for a data packet is not cancelled, and no request is to which a packet
has been given. The queue that is not in use does not switch the watch, and a stream is
not lifted onto a full queue. -/
def UxPortMove.Fits (port : UxPort) : UxPortMove → Prop
  | .packet token payload => token = .data ∧ port.listenOnly = false ∨ port.NotifyFits token payload
  | .recvGoOn => port.recv.Reads port
  | .notify _ token payload => port.NotifyFits token payload
  | .goOn tid => (port.call tid).Fits port
  | .listen _ =>
    port.eventPackets = [] ∨
      port.flying = [] ∧
        (port.listenOnly = true ∨ port.flowCtrl = true ∨ port.watch = true ∨
          port.eventPackets.length ≠ stmMaxQueueSize)
  | .lift => port.listenOnly = false ∨ port.eventPackets.length < stmMaxQueueSize
  | .cancelBegin irp => irp ∉ port.recv.answered ∧ irp ∉ port.promised
  | _ => True

instance UxPort.decidableNotifyFits (port : UxPort) (token : PktToken) (payload : List UInt8) :
    Decidable (port.NotifyFits token payload) := by
  unfold UxPort.NotifyFits
  infer_instance

instance HandOver.decidableFits (port : UxPort) (call : HandOver) : Decidable (call.Fits port) := by
  unfold HandOver.Fits
  split <;> infer_instance

instance HandOver.decidableReads (port : UxPort) (call : HandOver) : Decidable (call.Reads port) := by
  unfold HandOver.Reads
  split <;> infer_instance

instance UxPortMove.decidableFits (port : UxPort) (move : UxPortMove) : Decidable (move.Fits port) := by
  unfold UxPortMove.Fits
  split <;> infer_instance

section

variable {flow watch : Bool} {size : Nat}

theorem watch_push (right : watch = true ↔ flow = false ∧ size < stmMaxQueueSize) :
    (if stmMaxQueueSize ≤ size + 1 then false else watch) = true ↔
      flow = false ∧ size + 1 < stmMaxQueueSize := by
  by_cases full : stmMaxQueueSize ≤ size + 1
  · rw [if_pos full]
    refine ⟨fun never => absurd never Bool.false_ne_true, fun room => absurd full (Nat.not_le.2 room.2)⟩
  · rw [if_neg full, right]
    exact and_congr_right fun _ => by omega

theorem watch_pop (right : watch = true ↔ flow = false ∧ size + 1 < stmMaxQueueSize) :
    (if flow then watch else if size + 1 = stmMaxQueueSize then true else watch) = true ↔
      flow = false ∧ size < stmMaxQueueSize := by
  cases flow with
  | true =>
    rw [if_pos rfl, right]
    refine ⟨fun never => ?_, fun never => ?_⟩
    · exact absurd never.1.symm Bool.false_ne_true
    · exact absurd never.1.symm Bool.false_ne_true
  | false =>
    rw [if_neg Bool.false_ne_true]
    by_cases edge : size + 1 = stmMaxQueueSize
    · rw [if_pos edge]
      exact ⟨fun _ => ⟨rfl, by omega⟩, fun _ => rfl⟩
    · rw [if_neg edge, right]
      exact and_congr_right fun _ => by omega

end

/-- At most one thread is in `SendNotify` with a packet in its hand. -/
def Notifying (listens : List Nat) (calls : Nat → HandOver) (flying : List (List UInt8))
    (promised : List Nat) : Prop :=
  ∃ tid, (∀ other, other ≠ tid → calls other = .idle) ∧ flying = (calls tid).bufs ∧
    promised = (calls tid).answered ∧ ∀ irp ∈ (calls tid).irps, irp ∈ listens

/-- The packets that are queued, in the hand of a call and delivered are all there were, in this
order. The readers and the listeners are different requests. -/
structure UxPort.Coherent (port : UxPort) : Prop where
  packets : port.received = port.delivered.map Prod.snd ++ (port.recv.bufs ++ port.dataPackets)
  held : port.recv = .idle ∨ port.dataPackets = []
  events : port.notified.map (fun event => eventBuf event.1 event.2) =
    (port.heard.map Prod.snd ++ (port.flying ++ port.eventPackets)).map some
  onceDelivered : (port.delivered.map Prod.fst).Nodup
  onceHeard : (port.heard.map Prod.fst).Nodup
  delivered : Completed port.irp port.reads port.delivered
  heard : Completed port.irp port.listens port.heard
  apart : ∀ irp ∈ port.reads, irp ∉ port.listens
  reading : ∀ irp ∈ port.recv.irps ++ port.reading, irp ∈ port.reads
  listening : ∀ irp ∈ port.listening, irp ∈ port.listens
  answered : ∀ irp ∈ port.recv.answered ++ port.promised, port.irp irp = .ready
  watch : port.watch = true ↔ port.flowCtrl = false ∧ port.packets.length < stmMaxQueueSize
  unused : port.listenOnly = true → port.dataPackets = []
  notifying : Notifying port.listens port.call port.flying port.promised

theorem Notifying.of_nil (notifying : Notifying listens calls flying promised)
    (nothing : flying = []) :
    (∀ tid, calls tid = .idle) ∧ promised = [] := by
  obtain ⟨tid, others, bufs, answered, _⟩ := notifying
  have idle : calls tid = .idle := HandOver.idle_of_bufs (bufs.symm.trans nothing)
  refine ⟨fun other => ?_, by rw [answered, idle]; rfl⟩
  by_cases same : other = tid
  · rw [same, idle]
  · exact others other same

theorem Notifying.of_call (notifying : Notifying listens calls flying promised) {tid : Nat}
    (inside : calls tid ≠ .idle) :
    (∀ other, other ≠ tid → calls other = .idle) ∧ flying = (calls tid).bufs ∧
      promised = (calls tid).answered ∧ ∀ irp ∈ (calls tid).irps, irp ∈ listens := by
  obtain ⟨holder, others, rest⟩ := notifying
  have same : tid = holder := by_contra fun other => inside (others tid other)
  subst same
  exact ⟨others, rest⟩

theorem Notifying.update {tid : Nat} (call : HandOver)
    (others : ∀ other, other ≠ tid → calls other = .idle)
    (known : ∀ irp ∈ call.irps, irp ∈ listens) :
    Notifying listens (Function.update calls tid call) call.bufs call.answered := by
  refine ⟨tid, others_update others call, ?_⟩
  rw [Function.update_self]
  exact ⟨rfl, rfl, known⟩

theorem Notifying.submit (notifying : Notifying listens calls flying promised) (own : Nat) :
    Notifying (own :: listens) calls flying promised := by
  obtain ⟨tid, others, bufs, answered, known⟩ := notifying
  exact ⟨tid, others, bufs, answered, fun irp member => mem_cons_of_mem own (known irp member)⟩

namespace UxPort.Coherent

variable {port next : UxPort}

theorem exact (coherent : port.Coherent) : port.Exact where
  once := by
    rw [map_append, nodup_append]
    refine ⟨coherent.onceDelivered, coherent.onceHeard, ?_⟩
    intro reader read listener listened same
    obtain ⟨one, member, rfl⟩ := mem_map.1 read
    obtain ⟨other, found, rfl⟩ := mem_map.1 listened
    exact coherent.apart one.1 (coherent.delivered one member).2 (same ▸ (coherent.heard other found).2)
  completed entry member := by
    rcases mem_append.1 member with read | listened
    · exact (coherent.delivered entry read).1
    · exact (coherent.heard entry listened).1
  packets := by
    refine ⟨port.recv.bufs, coherent.packets, fun quiet => ?_⟩
    rw [quiet.1]
    rfl
  events := by
    refine ⟨port.flying, coherent.events, fun quiet => ?_⟩
    obtain ⟨tid, _, bufs, _⟩ := coherent.notifying
    rw [bufs, quiet.2 tid]
    rfl
  watch _ := coherent.watch

theorem sendNotify (coherent : port.Coherent) {tid : Nat} {token : PktToken} {payload : List UInt8}
    (fits : port.NotifyFits token payload) : (port.sendNotify tid token payload).Coherent := by
  obtain ⟨made, fits⟩ := fits
  obtain ⟨evtBuf, made⟩ := Option.isSome_iff_exists.1 made
  have notified : (port.notified ++ [(token, payload)]).map (fun event => eventBuf event.1 event.2) =
      (port.heard.map Prod.snd ++ (port.flying ++ (port.eventPackets ++ [evtBuf]))).map some := by
    rw [map_append, coherent.events, map_singleton, made]
    simp only [map_append, append_assoc, map_singleton]
  cases waits : port.listening with
  | nil =>
    rw [if_pos waits] at fits
    have queued : port.sendNotify tid token payload =
        { port with
          notified := port.notified ++ [(token, payload)]
          eventPackets := port.eventPackets ++ [evtBuf]
          watch := if stmMaxQueueSize ≤ port.eventPackets.length + 1 then false else port.watch } := by
      simp only [UxPort.sendNotify, made, waits]
    rw [queued]
    refine ⟨coherent.packets, coherent.held, notified, coherent.onceDelivered, coherent.onceHeard,
      coherent.delivered, coherent.heard, coherent.apart, coherent.reading, coherent.listening,
      coherent.answered, ?_, coherent.unused, coherent.notifying⟩
    have watch := coherent.watch
    unfold UxPort.packets at watch ⊢
    cases mode : port.listenOnly with
    | true =>
      rw [mode, if_pos rfl] at watch
      rw [if_pos rfl, length_append, length_singleton]
      exact watch_push watch
    | false =>
      rw [mode, if_neg Bool.false_ne_true] at watch
      rw [if_neg Bool.false_ne_true, ← watch]
      -- The watch stays as it is.
      by_cases full : stmMaxQueueSize ≤ port.eventPackets.length + 1
      · have off : port.watch = false := by
          rcases fits with only | off | room
          · rw [mode] at only
            cases only
          · exact off
          · exact absurd full (Nat.not_le.2 room)
        simp only [if_pos full, off]
      · simp only [if_neg full]
  | cons irp rest =>
    rw [if_neg (by rw [waits]; exact cons_ne_nil irp rest)] at fits
    obtain ⟨idle, nobody⟩ := coherent.notifying.of_nil fits
    have known : irp ∈ port.listens :=
      coherent.listening irp (by rw [waits]; exact mem_cons_self)
    have split : port.eventPackets.headD evtBuf :: (port.eventPackets ++ [evtBuf]).tail =
        port.eventPackets ++ [evtBuf] := by
      cases port.eventPackets <;> rfl
    have taken : port.sendNotify tid token payload =
        { port with
          notified := port.notified ++ [(token, payload)]
          listening := rest
          eventPackets := (port.eventPackets ++ [evtBuf]).tail
          flying := port.flying ++ [port.eventPackets.headD evtBuf]
          call := Function.update port.call tid (.popped irp (port.eventPackets.headD evtBuf)) } := by
      simp only [UxPort.sendNotify, made, waits]
      rfl
    rw [taken]
    refine ⟨coherent.packets, coherent.held, ?_, coherent.onceDelivered, coherent.onceHeard,
      coherent.delivered, coherent.heard, coherent.apart, coherent.reading, ?_, coherent.answered, ?_,
      coherent.unused, ?_⟩
    · refine notified.trans ?_
      show _ = (port.heard.map Prod.snd ++
        (port.flying ++ [_] ++ (port.eventPackets ++ [evtBuf]).tail)).map some
      rw [append_assoc, singleton_append, split]
    · exact fun other member => coherent.listening other (by rw [waits]; exact mem_cons_of_mem irp member)
    · have watch := coherent.watch
      unfold UxPort.packets at watch ⊢
      cases mode : port.listenOnly with
      | true =>
        rw [mode, if_pos rfl] at watch
        rw [if_pos rfl, length_tail, length_append, length_singleton, Nat.add_sub_cancel]
        exact watch
      | false =>
        rw [mode, if_neg Bool.false_ne_true] at watch
        rw [if_neg Bool.false_ne_true]
        exact watch
    · show Notifying port.listens
        (Function.update port.call tid (.popped irp (port.eventPackets.headD evtBuf)))
        (port.flying ++ [port.eventPackets.headD evtBuf]) port.promised
      rw [fits, nobody]
      exact Notifying.update (.popped irp _) (fun other _ => idle other) fun other member =>
        (mem_singleton.1 member).symm ▸ known

theorem ready_update (coherent : port.Coherent) {irp : Nat} (state : IrpState) {answered : List Nat}
    (fewer : ∀ other ∈ answered, other ∈ port.recv.answered ++ port.promised ∧ other ≠ irp) :
    ∀ other ∈ answered, Function.update port.irp irp state other = .ready := by
  intro other member
  obtain ⟨old, differs⟩ := fewer other member
  rw [Function.update_of_ne differs]
  exact coherent.answered other old

theorem recv_known (coherent : port.Coherent) {irp : Nat} (member : irp ∈ port.recv.answered) :
    irp ∈ port.reads := by
  refine coherent.reading irp (mem_append_left _ ?_)
  generalize port.recv = recv at member ⊢
  cases recv with
  | responded other buf => exact member
  | _ => cases member

theorem promised_known (coherent : port.Coherent) {irp : Nat} (member : irp ∈ port.promised) :
    irp ∈ port.listens := by
  obtain ⟨tid, _, _, answered, known⟩ := coherent.notifying
  refine known irp ?_
  rw [answered] at member
  generalize port.call tid = call at member ⊢
  cases call with
  | responded other buf => exact member
  | _ => cases member

theorem goOn (coherent : port.Coherent) {tid : Nat} (fits : (port.call tid).Fits port)
    (moved : port.goOn tid = some next) : next.Coherent := by
  have inside : port.call tid ≠ .idle := by
    intro idle
    rw [UxPort.goOn, idle] at moved
    cases moved
  obtain ⟨others, alone, promised, known⟩ := coherent.notifying.of_call inside
  unfold UxPort.goOn at moved
  generalize port.call tid = call at alone promised known fits moved
  cases call with
  | idle => cases moved
  | popped irp buf =>
    have member : irp ∈ port.listens := known irp (mem_singleton_self irp)
    by_cases busy : port.busy irp = true
    · simp only [if_pos busy] at moved
      cases moved
    · by_cases ready : port.ready irp = true
      · simp only [if_neg busy, if_pos ready] at moved
        cases moved
        refine ⟨coherent.packets, coherent.held, coherent.events, coherent.onceDelivered,
          coherent.onceHeard, coherent.delivered, coherent.heard, coherent.apart, coherent.reading,
          coherent.listening, ?_, coherent.watch, coherent.unused, ?_⟩
        · intro other found
          rcases mem_append.1 found with read | listened
          · exact coherent.answered other (mem_append_left _ read)
          · rcases mem_append.1 listened with old | new
            · exact coherent.answered other (mem_append_right _ old)
            · rw [mem_singleton.1 new]
              exact IrpState.ready_iff.1 ready
        · show Notifying port.listens (Function.update port.call tid (.responded irp buf)) port.flying
            (port.promised ++ [irp])
          rw [alone, promised]
          exact Notifying.update (.responded irp buf) others known
      · simp only [if_neg busy, if_neg ready] at moved
        cases moved
        have erased : port.flying.erase buf = [] := by
          rw [alone]
          exact erase_cons_head buf []
        refine ⟨coherent.packets, coherent.held, ?_, coherent.onceDelivered, coherent.onceHeard,
          coherent.delivered, coherent.heard, coherent.apart, coherent.reading, coherent.listening,
          coherent.answered, ?_, coherent.unused, ?_⟩
        · show port.notified.map (fun event => eventBuf event.1 event.2) =
            (port.heard.map Prod.snd ++ (port.flying.erase buf ++ buf :: port.eventPackets)).map some
          rw [coherent.events, erased, alone]
          rfl
        · have watch := coherent.watch
          show port.watch = true ↔ port.flowCtrl = false ∧
            (if port.listenOnly then buf :: port.eventPackets else port.dataPackets).length < stmMaxQueueSize
          unfold UxPort.packets at watch
          cases mode : port.listenOnly with
          | true =>
            rw [mode, if_pos rfl] at watch
            rw [if_pos rfl, length_cons, watch]
            rcases fits with continues | data | off | room
            · exact absurd continues ready
            · rw [mode] at data
              cases data
            · rw [off] at watch
              refine ⟨fun on => absurd (watch.2 on) Bool.false_ne_true, fun on => ?_⟩
              exact absurd (watch.2 ⟨on.1, by omega⟩) Bool.false_ne_true
            · exact and_congr_right fun _ => by omega
          | false =>
            rw [mode, if_neg Bool.false_ne_true] at watch
            rw [if_neg Bool.false_ne_true]
            exact watch
        · show Notifying port.listens (Function.update port.call tid .idle) (port.flying.erase buf)
            port.promised
          rw [erased, promised]
          exact Notifying.update .idle others (forall_mem_nil _)
  | responded irp buf =>
    have member : irp ∈ port.listens := known irp (mem_singleton_self irp)
    have ready : port.irp irp = .ready :=
      coherent.answered irp (mem_append_right _ (by rw [promised]; exact mem_singleton_self irp))
    have continues : port.ready irp = true := IrpState.ready_iff.2 ready
    have unfinished : port.irp irp ≠ .completed := by
      rw [ready]
      exact IrpState.noConfusion
    have erased : port.flying.erase buf = [] := by
      rw [alone]
      exact erase_cons_head buf []
    have nobody : port.promised.erase irp = [] := by
      rw [promised]
      exact erase_cons_head irp []
    by_cases busy : port.busy irp = true
    · simp only [if_pos busy] at moved
      cases moved
    · have same : next =
          { port with
            flying := port.flying.erase buf
            promised := port.promised.erase irp
            heard := port.heard ++ [(irp, buf)]
            irp := Function.update port.irp irp .completed
            call := Function.update port.call tid .idle } := by
        simp only [if_neg busy, if_pos continues] at moved
        exact (Option.some_inj.1 moved).symm
      subst same
      refine ⟨coherent.packets, coherent.held, ?_, coherent.onceDelivered,
        nodup_answer coherent.onceHeard buf (coherent.heard.not_mem unfinished),
        coherent.delivered.update .completed (coherent.delivered.not_mem unfinished),
        coherent.heard.append buf member, coherent.apart, coherent.reading, coherent.listening, ?_,
        coherent.watch, coherent.unused, ?_⟩
      · show port.notified.map (fun event => eventBuf event.1 event.2) =
          ((port.heard ++ [(irp, buf)]).map Prod.snd ++ (port.flying.erase buf ++ port.eventPackets)).map some
        rw [coherent.events, erased, alone]
        simp only [HandOver.bufs, map_append, append_assoc, nil_append, map_cons, map_nil]
      · refine coherent.ready_update .completed fun other found => ?_
        rw [nobody, append_nil] at found
        refine ⟨mem_append_left _ found, ?_⟩
        rintro rfl
        exact coherent.apart other (coherent.recv_known found) member
      · show Notifying port.listens (Function.update port.call tid .idle) (port.flying.erase buf)
          (port.promised.erase irp)
        rw [erased, nobody]
        exact Notifying.update .idle others (forall_mem_nil _)

theorem onStmRecv (coherent : port.Coherent) (idle : port.recv = .idle)
    (mode : port.listenOnly = false)
    (buf : List UInt8) : (port.onStmRecv buf).Coherent := by
  have packets := coherent.packets
  have reading := coherent.reading
  have answered := coherent.answered
  have watch := coherent.watch
  rw [idle] at packets reading answered
  unfold UxPort.packets at watch
  rw [mode, if_neg Bool.false_ne_true] at watch
  unfold UxPort.onStmRecv
  simp only
  split
  · rename_i queued waits
    rw [queued] at packets watch
    refine ⟨?_, .inl idle, coherent.events, coherent.onceDelivered, coherent.onceHeard, coherent.delivered,
      coherent.heard, coherent.apart, coherent.reading, coherent.listening, coherent.answered, ?_, ?_,
      coherent.notifying⟩
    · show port.received ++ [buf] = port.delivered.map Prod.snd ++ (port.recv.bufs ++ [buf])
      rw [idle, packets]
      simp only [HandOver.bufs, append_nil, nil_append]
    · show port.watch = true ↔ port.flowCtrl = false ∧
        (if port.listenOnly then port.eventPackets else [buf]).length < stmMaxQueueSize
      rw [mode, if_neg Bool.false_ne_true, watch]
      exact and_congr_right fun _ =>
        iff_of_true (show 0 < stmMaxQueueSize by decide) (show 1 < stmMaxQueueSize by decide)
    · intro only
      rw [mode] at only
      cases only
  · rename_i irp rest queued waits
    rw [queued] at packets
    rw [waits] at reading
    refine ⟨?_, .inr queued, coherent.events, coherent.onceDelivered, coherent.onceHeard, coherent.delivered,
      coherent.heard, coherent.apart, reading, coherent.listening, answered, coherent.watch, coherent.unused,
      coherent.notifying⟩
    show port.received ++ [buf] = port.delivered.map Prod.snd ++ ([buf] ++ port.dataPackets)
    rw [packets, queued]
    simp only [HandOver.bufs, append_nil]
  · refine ⟨?_, .inl idle, coherent.events, coherent.onceDelivered, coherent.onceHeard, coherent.delivered,
      coherent.heard, coherent.apart, coherent.reading, coherent.listening, coherent.answered, ?_, ?_,
      coherent.notifying⟩
    · show port.received ++ [buf] =
        port.delivered.map Prod.snd ++ (port.recv.bufs ++ (port.dataPackets ++ [buf]))
      rw [coherent.packets, append_assoc, append_assoc]
    · show (if stmMaxQueueSize ≤ port.dataPackets.length + 1 then false else port.watch) = true ↔
        port.flowCtrl = false ∧
          (if port.listenOnly then port.eventPackets else port.dataPackets ++ [buf]).length < stmMaxQueueSize
      rw [mode, if_neg Bool.false_ne_true, length_append, length_singleton]
      exact watch_push watch
    · intro only
      rw [mode] at only
      cases only

theorem recvGoOn (coherent : port.Coherent) (fits : port.recv.Reads port)
    (moved : port.recvGoOn = some next) : next.Coherent := by
  have packets := coherent.packets
  have reading := coherent.reading
  have answered := coherent.answered
  have held := coherent.held
  unfold UxPort.recvGoOn at moved
  generalize mine : port.recv = recv at packets reading answered held fits moved
  cases recv with
  | idle => cases moved
  | popped irp buf =>
    have ready : port.ready irp = true := fits
    by_cases busy : port.busy irp = true
    · simp only [if_pos busy] at moved
      cases moved
    · simp only [if_neg busy, if_pos ready] at moved
      cases moved
      refine ⟨packets, .inr (held.resolve_left HandOver.noConfusion), coherent.events,
        coherent.onceDelivered, coherent.onceHeard, coherent.delivered, coherent.heard, coherent.apart,
        reading, coherent.listening, ?_, coherent.watch, coherent.unused, coherent.notifying⟩
      intro other member
      rcases mem_append.1 member with own | old
      · rw [mem_singleton.1 own]
        exact IrpState.ready_iff.1 ready
      · exact answered other (mem_append_right _ old)
  | responded irp buf =>
    have member : irp ∈ port.reads := reading irp (mem_append_left _ (mem_singleton_self irp))
    have ready : port.irp irp = .ready :=
      answered irp (mem_append_left _ (mem_singleton_self irp))
    have continues : port.ready irp = true := IrpState.ready_iff.2 ready
    have unfinished : port.irp irp ≠ .completed := by
      rw [ready]
      exact IrpState.noConfusion
    by_cases busy : port.busy irp = true
    · simp only [if_pos busy] at moved
      cases moved
    · simp only [if_neg busy, if_pos continues] at moved
      cases moved
      refine ⟨?_, .inl rfl, coherent.events,
        nodup_answer coherent.onceDelivered buf (coherent.delivered.not_mem unfinished), coherent.onceHeard,
        coherent.delivered.append buf member,
        coherent.heard.update .completed (coherent.heard.not_mem unfinished), coherent.apart, ?_,
        coherent.listening, ?_, coherent.watch, coherent.unused, coherent.notifying⟩
      · show port.received = (port.delivered ++ [(irp, buf)]).map Prod.snd ++ ([] ++ port.dataPackets)
        rw [packets, map_append, append_assoc]
        rfl
      · exact fun other found => reading other (mem_append_right _ found)
      · refine coherent.ready_update .completed fun other found => ?_
        refine ⟨mem_append_right _ found, ?_⟩
        rintro rfl
        exact coherent.apart other member (coherent.promised_known found)

theorem submitReadIrp (coherent : port.Coherent) {own : Nat} (new : own ∉ port.reads)
    (other : own ∉ port.listens) : (port.submitReadIrp own).Coherent := by
  have reads {irp : Nat} (member : irp ∈ port.recv.irps ++ port.reading) : irp ∈ own :: port.reads :=
    mem_cons_of_mem own (coherent.reading irp member)
  have apart : ∀ irp ∈ own :: port.reads, irp ∉ port.listens := by
    intro irp member
    rcases mem_cons.1 member with rfl | old
    · exact other
    · exact coherent.apart irp old
  unfold UxPort.submitReadIrp
  simp only
  split
  · rename_i buf later waits queued
    have idle : port.recv = .idle :=
      coherent.held.resolve_right (by rw [queued]; exact cons_ne_nil buf later)
    have mode : port.listenOnly = false := by
      by_contra only
      have empty := coherent.unused (Bool.eq_true_of_not_eq_false only)
      rw [queued] at empty
      cases empty
    have unread := coherent.delivered.not_mem_of_new new
    have unheard := coherent.heard.not_mem_of_new other
    refine ⟨?_, .inl idle, coherent.events, nodup_answer coherent.onceDelivered buf unread,
      coherent.onceHeard, (coherent.delivered.submit own).append buf mem_cons_self,
      coherent.heard.update .completed unheard, apart, fun irp member => reads member, coherent.listening,
      ?_, ?_, ?_, coherent.notifying⟩
    · show port.received = (port.delivered ++ [(own, buf)]).map Prod.snd ++ (port.recv.bufs ++ later)
      rw [coherent.packets, queued, idle, map_append, append_assoc]
      rfl
    · refine coherent.ready_update .completed fun irp found => ⟨found, ?_⟩
      rintro rfl
      rcases mem_append.1 found with read | listened
      · exact new (coherent.recv_known read)
      · exact other (coherent.promised_known listened)
    · have watch := coherent.watch
      unfold UxPort.packets at watch
      rw [mode, if_neg Bool.false_ne_true, queued] at watch
      show (if port.flowCtrl then port.watch else if later.length + 1 = stmMaxQueueSize then true
          else port.watch) = true ↔ port.flowCtrl = false ∧
        (if port.listenOnly then port.eventPackets else later).length < stmMaxQueueSize
      rw [mode, if_neg Bool.false_ne_true]
      exact watch_pop watch
    · intro only
      rw [show port.listenOnly = true from only] at mode
      cases mode
  · refine ⟨coherent.packets, coherent.held, coherent.events, coherent.onceDelivered, coherent.onceHeard,
      coherent.delivered.submit own, coherent.heard, apart, ?_, coherent.listening, coherent.answered,
      coherent.watch, coherent.unused, coherent.notifying⟩
    intro irp member
    rw [← append_assoc] at member
    rcases mem_append.1 member with old | last
    · exact reads old
    · exact mem_singleton.1 last ▸ mem_cons_self

theorem handleListening (coherent : port.Coherent) {own : Nat} (new : own ∉ port.listens)
    (other : own ∉ port.reads)
    (fits : port.eventPackets = [] ∨ port.flying = [] ∧ (port.listenOnly = true ∨ port.flowCtrl = true ∨
      port.watch = true ∨ port.eventPackets.length ≠ stmMaxQueueSize)) :
    (port.handleListening own).Coherent := by
  have apart : ∀ irp ∈ port.reads, irp ∉ own :: port.listens := by
    intro irp read member
    rcases mem_cons.1 member with rfl | old
    · exact other read
    · exact coherent.apart irp read old
  have listening : ∀ irp ∈ port.listening, irp ∈ own :: port.listens := fun irp member =>
    mem_cons_of_mem own (coherent.listening irp member)
  have unread := coherent.delivered.not_mem_of_new other
  have unheard := coherent.heard.not_mem_of_new new
  have answered : ∀ irp ∈ port.recv.answered ++ port.promised,
      Function.update port.irp own .completed irp = .ready := by
    refine coherent.ready_update .completed fun irp found => ⟨found, ?_⟩
    rintro rfl
    rcases mem_append.1 found with read | listened
    · exact other (coherent.recv_known read)
    · exact new (coherent.promised_known listened)
  unfold UxPort.handleListening
  simp only
  split
  · rename_i buf later queued
    obtain ⟨nothing, rule⟩ := fits.resolve_left (by rw [queued]; exact cons_ne_nil buf later)
    refine ⟨coherent.packets, coherent.held, ?_, coherent.onceDelivered,
      nodup_answer coherent.onceHeard buf unheard, coherent.delivered.update .completed unread,
      (coherent.heard.submit own).append buf mem_cons_self, apart, coherent.reading, listening, answered,
      ?_, coherent.unused, coherent.notifying.submit own⟩
    · show port.notified.map (fun event => eventBuf event.1 event.2) =
        ((port.heard ++ [(own, buf)]).map Prod.snd ++ (port.flying ++ later)).map some
      rw [coherent.events, queued, nothing, map_append (f := Prod.snd), append_assoc]
      rfl
    · have watch := coherent.watch
      have edge : (later.length = stmMaxQueueSize - 1) = (later.length + 1 = stmMaxQueueSize) := by
        unfold stmMaxQueueSize
        exact propext (by omega)
      unfold UxPort.packets at watch
      show (if port.flowCtrl then port.watch else if later.length = stmMaxQueueSize - 1 then true
          else port.watch) = true ↔ port.flowCtrl = false ∧
        (if port.listenOnly then later else port.dataPackets).length < stmMaxQueueSize
      simp only [edge]
      cases mode : port.listenOnly with
      | true =>
        rw [mode, if_pos rfl, queued] at watch
        rw [if_pos rfl]
        exact watch_pop watch
      | false =>
        rw [mode, if_neg Bool.false_ne_true] at watch
        rw [if_neg Bool.false_ne_true, ← watch]
        -- The watch stays as it is.
        rcases rule with only | flow | on | far
        · rw [mode] at only
          cases only
        · rw [if_pos flow]
        · simp only [on, ite_self]
        · rw [queued, length_cons] at far
          rw [if_neg far, ite_self]
  · rename_i queued
    split
    · exact ⟨coherent.packets, coherent.held, coherent.events, coherent.onceDelivered, coherent.onceHeard,
        coherent.delivered.update .completed unread, (coherent.heard.submit own).update .completed unheard,
        apart, coherent.reading, listening, answered, coherent.watch, coherent.unused,
        coherent.notifying.submit own⟩
    · refine ⟨coherent.packets, coherent.held, coherent.events, coherent.onceDelivered, coherent.onceHeard,
        coherent.delivered, coherent.heard.submit own, apart, coherent.reading, ?_, coherent.answered,
        coherent.watch, coherent.unused, coherent.notifying.submit own⟩
      intro irp member
      rcases mem_append.1 member with old | last
      · exact listening irp old
      · exact mem_singleton.1 last ▸ mem_cons_self

theorem lift (coherent : port.Coherent)
    (fits : port.listenOnly = false ∨ port.eventPackets.length < stmMaxQueueSize) : port.lift.Coherent := by
  have watch := coherent.watch
  unfold UxPort.packets at watch
  have kept (on : Bool) (right : on = true ↔ port.packets.length < stmMaxQueueSize) :
      ({ port with flowCtrl := false, watch := on } : UxPort).Coherent :=
    ⟨coherent.packets, coherent.held, coherent.events, coherent.onceDelivered, coherent.onceHeard,
      coherent.delivered, coherent.heard, coherent.apart, coherent.reading, coherent.listening,
      coherent.answered, right.trans (and_iff_right rfl).symm, coherent.unused, coherent.notifying⟩
  unfold UxPort.lift
  by_cases full : stmMaxQueueSize ≤ port.dataPackets.length
  · have mode : port.listenOnly = false := by
      by_contra only
      rw [coherent.unused (Bool.eq_true_of_not_eq_false only)] at full
      exact absurd full (by decide)
    rw [mode, if_neg Bool.false_ne_true] at watch
    rw [if_pos full]
    refine kept port.watch ?_
    unfold UxPort.packets
    rw [mode, if_neg Bool.false_ne_true, watch]
    exact ⟨And.right, fun room => absurd full (Nat.not_le.2 room)⟩
  · rw [if_neg full]
    refine kept true (iff_of_true rfl ?_)
    unfold UxPort.packets
    cases mode : port.listenOnly with
    | true => exact fits.resolve_left (by rw [mode]; exact Bool.false_ne_true.symm)
    | false => exact Nat.not_le.1 full

theorem stop (coherent : port.Coherent) : port.stop.Coherent :=
  ⟨coherent.packets, coherent.held, coherent.events, coherent.onceDelivered, coherent.onceHeard,
    coherent.delivered, coherent.heard, coherent.apart, coherent.reading, coherent.listening,
    coherent.answered, ⟨fun never => absurd never Bool.false_ne_true, fun never => absurd never.1.symm Bool.false_ne_true⟩,
    coherent.unused, coherent.notifying⟩

theorem cancelBegin (coherent : port.Coherent) {irp : Nat} (ready : port.irp irp = .ready)
    (free : irp ∉ port.recv.answered ∧ irp ∉ port.promised) :
    (port.setIrp irp .cancelling).Coherent := by
  have unfinished : port.irp irp ≠ .completed := by
    rw [ready]
    exact IrpState.noConfusion
  refine ⟨coherent.packets, coherent.held, coherent.events, coherent.onceDelivered, coherent.onceHeard,
    coherent.delivered.update .cancelling (coherent.delivered.not_mem unfinished),
    coherent.heard.update .cancelling (coherent.heard.not_mem unfinished), coherent.apart, coherent.reading,
    coherent.listening, ?_, coherent.watch, coherent.unused, coherent.notifying⟩
  refine coherent.ready_update .cancelling fun other found => ⟨found, ?_⟩
  rintro rfl
  exact (mem_append.1 found).elim free.1 free.2

theorem cancelEnd (coherent : port.Coherent) {irp : Nat} (cancelling : port.irp irp = .cancelling) :
    ((port.setIrp irp .cancelled).removeIrpFromMap irp).Coherent := by
  have unfinished : port.irp irp ≠ .completed := by
    rw [cancelling]
    exact IrpState.noConfusion
  have delivered := coherent.delivered.update .cancelled (coherent.delivered.not_mem unfinished)
  have heard := coherent.heard.update .cancelled (coherent.heard.not_mem unfinished)
  have answered : ∀ other ∈ port.recv.answered ++ port.promised,
      Function.update port.irp irp .cancelled other = .ready := by
    refine coherent.ready_update .cancelled fun other found => ⟨found, ?_⟩
    rintro rfl
    have ready := coherent.answered other found
    rw [cancelling] at ready
    cases ready
  unfold UxPort.removeIrpFromMap
  split
  · refine ⟨coherent.packets, coherent.held, coherent.events, coherent.onceDelivered, coherent.onceHeard,
      delivered, heard, coherent.apart, ?_, coherent.listening, answered, coherent.watch, coherent.unused,
      coherent.notifying⟩
    intro other member
    refine coherent.reading other ?_
    rcases mem_append.1 member with inside | waits
    · exact mem_append_left _ inside
    · exact mem_append_right _ (mem_of_mem_erase waits)
  · exact ⟨coherent.packets, coherent.held, coherent.events, coherent.onceDelivered, coherent.onceHeard,
      delivered, heard, coherent.apart, coherent.reading,
      fun other waits => coherent.listening other (mem_of_mem_erase waits), answered, coherent.watch,
      coherent.unused, coherent.notifying⟩

theorem step (coherent : port.Coherent) {move : UxPortMove} (fits : move.Fits port)
    (moved : port.step move = some next) : next.Coherent := by
  cases move with
  | packet token payload =>
    obtain ⟨enabled, same⟩ := Option.ite_none_right_eq_some.1 moved
    obtain ⟨idle, _⟩ := of_decide_eq_true enabled
    cases same
    by_cases data : token = .data ∧ port.listenOnly = false
    · rw [if_pos data]
      exact coherent.onStmRecv idle data.2 payload
    · rw [if_neg data]
      exact coherent.sendNotify (fits.resolve_left data)
  | recvGoOn => exact coherent.recvGoOn fits moved
  | notify tid token payload =>
    obtain ⟨_, ⟨⟩⟩ := Option.ite_none_right_eq_some.1 moved
    exact coherent.sendNotify fits
  | goOn tid => exact coherent.goOn fits moved
  | read own =>
    obtain ⟨new, ⟨⟩⟩ := Option.ite_none_right_eq_some.1 moved
    exact coherent.submitReadIrp new.1 new.2
  | listen own =>
    obtain ⟨new, ⟨⟩⟩ := Option.ite_none_right_eq_some.1 moved
    exact coherent.handleListening new.2 new.1 fits
  | lift =>
    cases moved
    exact coherent.lift fits
  | flowCtrl =>
    cases moved
    exact coherent.stop
  | cancelBegin irp =>
    obtain ⟨enabled, ⟨⟩⟩ := Option.ite_none_right_eq_some.1 moved
    exact coherent.cancelBegin enabled.2 fits
  | cancelEnd irp =>
    obtain ⟨cancelling, ⟨⟩⟩ := Option.ite_none_right_eq_some.1 moved
    exact coherent.cancelEnd cancelling

end UxPort.Coherent

theorem UxPort.coherent_start (listenOnly : Bool) : (UxPort.start listenOnly).Coherent := by
  refine ⟨rfl, .inl rfl, rfl, nodup_nil, nodup_nil, forall_mem_nil _,
    forall_mem_nil _, forall_mem_nil _,
    forall_mem_nil _, forall_mem_nil _,
    forall_mem_nil _, ?_, fun _ => rfl,
    0, fun _ _ => rfl, rfl, rfl, forall_mem_nil _⟩
  cases listenOnly <;> decide

/-- In every run whose steps fit, each packet goes to one request in its order, and between the calls the
watch is right. -/
theorem portExact_of_fits {listenOnly : Bool} {port : UxPort}
    (reachable : ((uxPortMachine listenOnly).restrict UxPortMove.Fits).Reachable port) : port.Exact := by
  have coherent : port.Coherent :=
    reachable.invariant (UxPort.coherent_start listenOnly) fun _ _ _ _ before moved => by
      obtain ⟨fits, stepped⟩ := Machine.restrict_step.1 moved
      exact before.step fits stepped
  exact coherent.exact

theorem exact_stopAndLift :
    ∃ port : UxPort, port.delivered = [(1, [7])] ∧ port.heard = [(2, [2])] ∧ port.dataPackets = [[8]] ∧
      port.watch = true ∧ port.Exact := by
  have ran : (((uxPortMachine false).restrict UxPortMove.Fits).run (UxPort.start false)
      [.read 1, .packet .data [7], .flowCtrl, .recvGoOn, .recvGoOn, .listen 2, .packet .ping [], .goOn 0,
        .goOn 0, .packet .data [8], .lift]).map
      (fun port => (port.delivered, port.heard, port.dataPackets, port.watch)) =
        some ([(1, [7])], [(2, [2])], [[8]], true) := by
    decide +kernel
  obtain ⟨port, ran, fields⟩ := Option.map_eq_some_iff.1 ran
  exact ⟨port, congrArg Prod.fst fields, congrArg (fun field => field.2.1) fields,
    congrArg (fun field => field.2.2.1) fields, congrArg (fun field => field.2.2.2) fields,
    portExact_of_fits (Machine.Reachable.start.run ran)⟩

/-- The request that reads is cancelled while `OnStmRecv` waits for its lock: the packet is gone. -/
theorem cancelledRead_losesPacket :
    ¬ ∀ listenOnly port, (uxPortMachine listenOnly).Reachable port → port.Exact := by
  intro always
  have ran : ((uxPortMachine false).run (UxPort.start false)
      [.read 1, .packet .data [7], .cancelBegin 1, .cancelEnd 1, .recvGoOn]).map
      (fun port => (port.received, port.delivered, port.dataPackets, port.recv)) =
        some ([[7]], [], [], .idle) := by
    decide +kernel
  have quiet : ((uxPortMachine false).run (UxPort.start false)
      [.read 1, .packet .data [7], .cancelBegin 1, .cancelEnd 1, .recvGoOn]).map (fun port => port.call) =
        some fun _ => .idle := rfl
  obtain ⟨port, ran, fields⟩ := Option.map_eq_some_iff.1 ran
  rw [ran] at quiet
  have idle : port.call = fun _ => .idle := Option.some_inj.1 quiet
  have received : port.received = [[7]] := congrArg Prod.fst fields
  have delivered : port.delivered = [] := congrArg (fun field => field.2.1) fields
  have queued : port.dataPackets = [] := congrArg (fun field => field.2.2.1) fields
  have back : port.recv = .idle := congrArg (fun field => field.2.2.2) fields
  obtain ⟨given, packets, nothing⟩ :=
    (always false port (Machine.Reachable.start.run ran)).packets
  rw [received, delivered, queued, nothing ⟨back, fun tid => by rw [idle]⟩] at packets
  cases packets

end RpcFrmwrk.Ipc
