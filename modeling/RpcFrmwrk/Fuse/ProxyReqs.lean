import RpcFrmwrk.Fuse.EvtFile

/-! The requests that are written to the groups of an `rpcfs` proxy, and their answers.
`DispatchReq` either returns a response or has one passed to `ReceiveMsgJson` later.
`ReceiveMsgJson` takes the entry of a request out behind the queuing of the answer, and a response
that was returned is queued by a task; other calls run in between. The requests are numbered as they
are written. Owns `AddReqGrp`, `RemoveReqGrp`, `RemoveGrpReqs` and `ReceiveMsgJson` of
`CFuseSvcProxy`; the calls of `CFuseReqFileProxy::fs_write_buf` for a request, and
`CancelFsRequests` of `CFuseRespFileProxy`; the answers in a run in which no cancellation finds a
request. -/

namespace RpcFrmwrk.Fuse

open RpcFrmwrk.Library List Function

/-- `CFuseSvcProxy`: the keys of `m_mapGroups`, the two maps of requests, and the response files of the groups. -/
structure SvcProxy where
  mapGroups : List Nat
  mapReq2Grp : Nat → Option Nat
  mapGrp2Req : List (Nat × Nat)
  respFiles : Nat → EvtFile

namespace SvcProxy

/-- `AddReqGrp`: `-EEXIST` leaves the maps as they are. -/
def addReqGrp (proxy : SvcProxy) (reqId grpId : Nat) : SvcProxy :=
  if (proxy.mapReq2Grp reqId).isSome then proxy
  else
    { proxy with
      mapReq2Grp := update proxy.mapReq2Grp reqId (some grpId)
      mapGrp2Req := proxy.mapGrp2Req ++ [(grpId, reqId)] }

/-- `RemoveReqGrp`. -/
def removeReqGrp (proxy : SvcProxy) (reqId : Nat) : SvcProxy :=
  match proxy.mapReq2Grp reqId with
  | none => proxy
  | some grpId =>
    { proxy with
      mapReq2Grp := update proxy.mapReq2Grp reqId none
      mapGrp2Req := proxy.mapGrp2Req.erase (grpId, reqId) }

/-- `RemoveGrpReqs`, with the requests of the group. It leaves `m_mapReq2Grp` as it is. -/
def removeGrpReqs (proxy : SvcProxy) (grpId : Nat) : SvcProxy × List Nat :=
  ({ proxy with mapGrp2Req := proxy.mapGrp2Req.filter fun entry => entry.1 != grpId },
    (proxy.mapGrp2Req.filter fun entry => entry.1 == grpId).map Prod.snd)

/-- `ReceiveMsgJson` of the response file of a group. -/
def queueAnswer (proxy : SvcProxy) (grpId : Nat) (msg : List UInt8) (reqId : Nat) : SvcProxy :=
  { proxy with respFiles := update proxy.respFiles grpId ((proxy.respFiles grpId).receiveEvtJson msg reqId) }

/-- `ReceiveMsgJson` up to the queuing of the answer, and the group that gets it. -/
def receiveMsgJson (proxy : SvcProxy) (msg : List UInt8) (reqId : Nat) : SvcProxy × Option Nat :=
  match proxy.mapReq2Grp reqId with
  | none => (proxy, none)
  | some grpId =>
    if grpId ∈ proxy.mapGroups then (proxy.queueAnswer grpId msg reqId, some grpId)
    else (proxy.removeReqGrp reqId, none)

/-- `CancelFsRequests` of a response file, with the requests it cancels. There are notices unless the file is hidden
and not open. -/
def cancelFsRequests (proxy : SvcProxy) (grpId : Nat) (noticed : Bool) (notice : Nat → List UInt8) :
    SvcProxy × List Nat :=
  let removed := proxy.removeGrpReqs grpId
  if removed.2 = [] then removed
  else
    let queIncoming := if noticed then removed.2.map fun reqId => ⟨evtBuf (notice reqId), 0, 0⟩ else []
    ({ removed.1 with
      respFiles := update proxy.respFiles grpId { proxy.respFiles grpId with queIncoming := queIncoming } }, removed.2)

end SvcProxy

/-- A request waits for its response, or for the task that queues it; its answer is queued and its entry is still there; its
response was handled while its group was there or not; or it was cancelled. -/
inductive ReqPhase where
  | waiting
  | scheduled
  | leaving
  | done (there : Bool)
  | cancelled
deriving DecidableEq

/-- A request, and the groups in whose files an answer to it was queued. -/
structure ProxyReq where
  reqId : Nat
  grpId : Nat
  phase : ReqPhase
  answers : List Nat

structure ProxyRun where
  proxy : SvcProxy
  reqs : List ProxyReq

inductive ProxyMove where
  | addGroup (grpId : Nat)
  | removeGroup (grpId : Nat)
  | write (grpId reqId : Nat)
  | returned (req : Nat)
  | deliver (req : Nat) (msg : List UInt8)
  | receive (req : Nat) (msg : List UInt8)
  | leave (req : Nat)
  | cancel (grpId : Nat) (noticed : Bool) (notice : Nat → List UInt8)

def ReqPhase.answered : ReqPhase → Bool
  | .waiting | .scheduled => false
  | _ => true

/-- `AddReqGrp` was called for the request, and `RemoveReqGrp` was not. -/
def ReqPhase.inMap : ReqPhase → Bool
  | .waiting | .leaving => true
  | _ => false

/-- What the answers to a request of a group are to be. -/
def ReqPhase.due (grpId : Nat) : ReqPhase → List Nat
  | .leaving | .done true => [grpId]
  | _ => []

namespace ProxyRun

variable (run : ProxyRun)

/-- A request of a phase goes on. -/
def goOn (index : Nat) (from' : ReqPhase → Bool) (next : ProxyReq → SvcProxy × ProxyReq) : Option ProxyRun :=
  run.reqs[index]?.bind fun req =>
    if from' req.phase then some ⟨(next req).1, run.reqs.set index (next req).2⟩ else none

def step : ProxyMove → Option ProxyRun
  | .addGroup grpId => some { run with proxy := { run.proxy with mapGroups := run.proxy.mapGroups.insert grpId } }
  | .removeGroup grpId => some { run with proxy := { run.proxy with mapGroups := run.proxy.mapGroups.filter (· != grpId) } }
  | .write grpId reqId =>
    if run.reqs.all fun req => req.reqId != reqId || req.phase.answered then
      some ⟨run.proxy.addReqGrp reqId grpId, run.reqs ++ [⟨reqId, grpId, .waiting, []⟩]⟩
    else none
  | .returned index => run.goOn index (· == .waiting) fun req =>
    (run.proxy.removeReqGrp req.reqId, { req with phase := .scheduled })
  | .deliver index msg => run.goOn index (· == .scheduled) fun req =>
    if req.grpId ∈ run.proxy.mapGroups then
      (run.proxy.queueAnswer req.grpId msg req.reqId, { req with phase := .done true, answers := req.answers ++ [req.grpId] })
    else (run.proxy, { req with phase := .done false })
  | .receive index msg => run.goOn index (fun phase => phase == .waiting || phase == .cancelled) fun req =>
    let received := run.proxy.receiveMsgJson msg req.reqId
    (received.1, { req with
      phase := if received.2.isSome then .leaving else .done (req.grpId ∈ run.proxy.mapGroups)
      answers := req.answers ++ received.2.toList })
  | .leave index => run.goOn index (· == .leaving) fun req =>
    (run.proxy.removeReqGrp req.reqId, { req with phase := .done true })
  | .cancel grpId noticed notice =>
    let cancelled := run.proxy.cancelFsRequests grpId noticed notice
    some ⟨cancelled.1, run.reqs.map fun req =>
      if req.grpId = grpId ∧ req.reqId ∈ cancelled.2 ∧ req.phase = .waiting then
        { req with phase := .cancelled, answers := req.answers ++ if noticed then [grpId] else [] }
      else req⟩

/-- A request has an id without an entry, and a cancellation finds no request. -/
def apart : ProxyMove → Bool
  | .write _ reqId => run.proxy.mapReq2Grp reqId == none
  | .cancel grpId _ _ => run.proxy.mapGrp2Req.all fun entry => entry.1 != grpId
  | _ => true

end ProxyRun

def proxyMachine : Machine ProxyRun ProxyMove := ⟨⟨⟨[], fun _ => none, [], fun _ => .new⟩, []⟩, ProxyRun.step⟩

/-! ### The answers -/

structure SvcProxy.Inverse (proxy : SvcProxy) : Prop where
  same : ∀ reqId grpId, proxy.mapReq2Grp reqId = some grpId ↔ (grpId, reqId) ∈ proxy.mapGrp2Req
  once : proxy.mapGrp2Req.Nodup

structure ProxyRun.Sound (run : ProxyRun) : Prop where
  inverse : run.proxy.Inverse
  held : ∀ reqId grpId, run.proxy.mapReq2Grp reqId = some grpId ↔ ∃ (index : Nat) (req : ProxyReq), run.reqs[index]? = some req ∧
    req.reqId = reqId ∧ req.grpId = grpId ∧ req.phase.inMap = true
  unlike : ∀ (index other : Nat) (req another : ProxyReq), run.reqs[index]? = some req → run.reqs[other]? = some another →
    req.phase.inMap = true → another.phase.inMap = true → req.reqId = another.reqId → index = other
  answers : ∀ (index : Nat) (req : ProxyReq), run.reqs[index]? = some req → req.answers = req.phase.due req.grpId ∧ req.phase ≠ .cancelled

variable {proxy : SvcProxy} {run next : ProxyRun} {req : ProxyReq} {index reqId grpId : Nat}

theorem SvcProxy.Inverse.add (inverse : proxy.Inverse) (new : proxy.mapReq2Grp reqId = none) :
    (proxy.addReqGrp reqId grpId).Inverse := by
  obtain ⟨same, once⟩ := inverse
  simp only [addReqGrp, new, Option.isSome_none, Bool.false_eq_true, if_false]
  refine ⟨fun id grp => ?_, by grind⟩
  by_cases own : id = reqId <;> grind

theorem SvcProxy.Inverse.remove (inverse : proxy.Inverse) (reqId : Nat) : (proxy.removeReqGrp reqId).Inverse := by
  obtain ⟨same, once⟩ := inverse
  rw [removeReqGrp]
  split
  · exact ⟨same, once⟩
  · refine ⟨fun id grp => ?_, once.erase _⟩
    by_cases own : id = reqId <;> grind [once.mem_erase_iff]

theorem SvcProxy.removeReqGrp_map (reqId : Nat) : (proxy.removeReqGrp reqId).mapReq2Grp = update proxy.mapReq2Grp reqId none := by
  rw [removeReqGrp]
  split
  · rename_i absent
    rw [← absent, update_eq_self]
  · rfl

namespace ProxyRun.Sound

/-- A request changes, and its entry stays or is taken out. -/
theorem change (sound : run.Sound) (found : run.reqs[index]? = some req) {after : ProxyReq} {proxy : SvcProxy}
    (inverse : proxy.Inverse) (same : after.reqId = req.reqId ∧ after.grpId = req.grpId)
    (entry : proxy.mapReq2Grp = run.proxy.mapReq2Grp ∧ after.phase.inMap = req.phase.inMap ∨
      proxy.mapReq2Grp = update run.proxy.mapReq2Grp req.reqId none ∧ req.phase.inMap = true ∧ after.phase.inMap = false)
    (due : after.answers = after.phase.due after.grpId ∧ after.phase ≠ .cancelled) :
    ProxyRun.Sound ⟨proxy, run.reqs.set index after⟩ := by
  obtain ⟨-, held, unlike, answers⟩ := sound
  have others (at' : Nat) : (run.reqs.set index after)[at']? = if index = at' then some after else run.reqs[at']? := by grind
  refine ⟨inverse, fun id grp => ?_, fun one other first second => ?_, by grind⟩
  · rcases entry with ⟨toGrp, isIn⟩ | ⟨toGrp, isIn, out⟩
    · rw [toGrp, held]
      grind
    · rw [toGrp]
      by_cases own : id = req.reqId
      · grind
      · rw [update_of_ne own, held]
        grind
  · grind

/-- What `ReceiveMsgJson` does with the response to a request whose entry is there. -/
theorem receive (sound : run.Sound) (found : run.reqs[index]? = some req) (isIn : req.phase.inMap = true)
    (msg : List UInt8) : run.proxy.receiveMsgJson msg req.reqId =
      if req.grpId ∈ run.proxy.mapGroups then (run.proxy.queueAnswer req.grpId msg req.reqId, some req.grpId)
      else (run.proxy.removeReqGrp req.reqId, none) := by
  rw [SvcProxy.receiveMsgJson, (sound.held _ _).2 ⟨index, req, found, rfl, rfl, isIn⟩]

theorem write (sound : run.Sound) (new : run.proxy.mapReq2Grp reqId = none) :
    ProxyRun.Sound ⟨run.proxy.addReqGrp reqId grpId, run.reqs ++ [⟨reqId, grpId, .waiting, []⟩]⟩ := by
  have inverse := @SvcProxy.Inverse.add _ _ grpId sound.inverse new
  obtain ⟨-, held, unlike, answers⟩ := sound
  have absent : ∀ (at' : Nat) (other : ProxyReq), run.reqs[at']? = some other → other.phase.inMap = true → other.reqId ≠ reqId :=
    fun at' other isThere isIn same => by simpa [new] using (held reqId other.grpId).2 ⟨at', other, isThere, same, rfl, isIn⟩
  refine ⟨inverse, fun id grp => ?_, fun one other first second => ?_, by grind [ReqPhase.due]⟩
  · simp only [SvcProxy.addReqGrp, new, Option.isSome_none, Bool.false_eq_true, if_false]
    by_cases own : id = reqId
    · subst own
      rw [update_self]
      constructor
      · rintro ⟨⟩
        exact ⟨run.reqs.length, _, getElem?_concat_length, rfl, rfl, rfl⟩
      · grind
    · rw [update_of_ne own, held]
      constructor <;> rintro ⟨at', other, isThere, rest⟩ <;> exact ⟨at', other, by grind, rest⟩
  · grind

/-- A cancellation that finds no request. -/
theorem cancelFsRequests_none (none : ∀ entry ∈ proxy.mapGrp2Req, entry.1 ≠ grpId) (noticed : Bool)
    (notice : Nat → List UInt8) : proxy.cancelFsRequests grpId noticed notice = (proxy, []) := by
  have all : proxy.mapGrp2Req.filter (fun entry => entry.1 != grpId) = proxy.mapGrp2Req :=
    filter_eq_self.2 (by simpa using none)
  have nothing : proxy.mapGrp2Req.filter (fun entry => entry.1 == grpId) = [] := filter_eq_nil_iff.2 (by simpa using none)
  simp [SvcProxy.cancelFsRequests, SvcProxy.removeGrpReqs, all, nothing]

theorem goOn_spec {from' : ReqPhase → Bool} {after : ProxyReq → SvcProxy × ProxyReq}
    (moved : run.goOn index from' after = some next) : ∃ req, run.reqs[index]? = some req ∧ from' req.phase = true ∧
      next = ⟨(after req).1, run.reqs.set index (after req).2⟩ := by
  simp only [ProxyRun.goOn, Option.bind_eq_some_iff, Option.ite_none_right_eq_some, Option.some.injEq] at moved
  grind

theorem start : proxyMachine.start.Sound := by
  refine ⟨⟨fun _ _ => ?_, nodup_nil⟩, fun _ _ => ?_, ?_, ?_⟩ <;> simp [proxyMachine]

theorem step (sound : run.Sound) {move : ProxyMove} (apart : run.apart move = true) (moved : run.step move = some next) :
    next.Sound := by
  cases move with
  | addGroup grpId | removeGroup grpId =>
    cases moved
    exact ⟨⟨sound.inverse.same, sound.inverse.once⟩, sound.held, sound.unlike, sound.answers⟩
  | write grpId reqId =>
    obtain ⟨_, ⟨⟩⟩ := Option.ite_none_right_eq_some.1 moved
    exact sound.write (by simpa [ProxyRun.apart] using apart)
  | returned index =>
    rw [ProxyRun.step] at moved
    obtain ⟨req, found, waits, rfl⟩ := goOn_spec moved
    obtain ⟨answers, _⟩ := sound.answers index req found
    rw [beq_iff_eq] at waits
    exact sound.change found (sound.inverse.remove _) ⟨rfl, rfl⟩ (.inr ⟨SvcProxy.removeReqGrp_map _, by rw [waits]; rfl, rfl⟩)
      ⟨by rw [answers, waits]; rfl, nofun⟩
  | deliver index msg =>
    rw [ProxyRun.step] at moved
    obtain ⟨req, found, waits, rfl⟩ := goOn_spec moved
    obtain ⟨answers, _⟩ := sound.answers index req found
    rw [beq_iff_eq] at waits
    rw [waits] at answers
    split
    · exact sound.change found ⟨sound.inverse.same, sound.inverse.once⟩ ⟨rfl, rfl⟩ (.inl ⟨rfl, by rw [waits]; rfl⟩) ⟨by rw [answers]; rfl, nofun⟩
    · exact sound.change found ⟨sound.inverse.same, sound.inverse.once⟩ ⟨rfl, rfl⟩ (.inl ⟨rfl, by rw [waits]; rfl⟩) ⟨answers, nofun⟩
  | receive index msg =>
    rw [ProxyRun.step] at moved
    obtain ⟨req, found, waits, rfl⟩ := goOn_spec moved
    obtain ⟨answers, active⟩ := sound.answers index req found
    have waits : req.phase = .waiting := by simpa [active] using waits
    have isIn : req.phase.inMap = true := by rw [waits]; rfl
    rw [waits] at answers
    rw [sound.receive found isIn]
    split
    · exact sound.change found ⟨sound.inverse.same, sound.inverse.once⟩ ⟨rfl, rfl⟩ (.inl ⟨rfl, isIn.symm⟩) ⟨by rw [answers]; rfl, nofun⟩
    · rename_i absent
      refine sound.change found (sound.inverse.remove _) ⟨rfl, rfl⟩ (.inr ⟨SvcProxy.removeReqGrp_map _, isIn, rfl⟩) ⟨?_, nofun⟩
      rw [answers, decide_eq_false absent]
      rfl
  | leave index =>
    rw [ProxyRun.step] at moved
    obtain ⟨req, found, leaves, rfl⟩ := goOn_spec moved
    obtain ⟨answers, _⟩ := sound.answers index req found
    rw [beq_iff_eq] at leaves
    exact sound.change found (sound.inverse.remove _) ⟨rfl, rfl⟩ (.inr ⟨SvcProxy.removeReqGrp_map _, by rw [leaves]; rfl, rfl⟩)
      ⟨by rw [answers, leaves]; rfl, nofun⟩
  | cancel grpId noticed notice =>
    have none : ∀ entry ∈ run.proxy.mapGrp2Req, entry.1 ≠ grpId := by simpa [ProxyRun.apart] using apart
    simp only [ProxyRun.step, cancelFsRequests_none none, Option.some.injEq] at moved
    subst moved
    simpa using sound

end ProxyRun.Sound

/-- In a run in which no cancellation finds a request, and no request is written under an id whose entry is still there. -/
theorem apart_answered (reached : (proxyMachine.restrict fun run move => run.apart move = true).Reachable run) :
    (run.proxy.mapGrp2Req.Nodup ∧
      ∀ reqId grpId, run.proxy.mapReq2Grp reqId = some grpId ↔ (grpId, reqId) ∈ run.proxy.mapGrp2Req) ∧
    (∀ req ∈ run.reqs, req.answers = req.phase.due req.grpId) ∧
    (∀ req ∈ run.reqs, req.phase = .waiting → ∀ msg, (run.proxy.receiveMsgJson msg req.reqId).2 =
      if req.grpId ∈ run.proxy.mapGroups then some req.grpId else none) ∧
    ∀ reqId, (∀ req ∈ run.reqs, req.reqId = reqId → req.phase.inMap = false) →
      ∀ msg, run.proxy.receiveMsgJson msg reqId = (run.proxy, none) := by
  have sound : run.Sound := by
    refine reached.invariant .start ?_
    intro before move after _ sound moved
    rw [Machine.restrict_step] at moved
    exact sound.step moved.1 moved.2
  refine ⟨⟨sound.inverse.once, sound.inverse.same⟩, fun req member => ?_, fun req member waits msg => ?_, fun reqId gone msg => ?_⟩
  · obtain ⟨index, found⟩ := mem_iff_getElem?.1 member
    exact (sound.answers index req found).1
  · obtain ⟨index, found⟩ := mem_iff_getElem?.1 member
    rw [sound.receive found (by rw [waits]; rfl)]
    split <;> rfl
  · have absent : run.proxy.mapReq2Grp reqId = none := by
      by_contra present
      obtain ⟨grpId, found⟩ := Option.ne_none_iff_exists'.1 present
      obtain ⟨index, req, isThere, same, _, isIn⟩ := (sound.held reqId grpId).1 found
      rw [gone req (mem_of_getElem? isThere) same] at isIn
      cases isIn
    rw [SvcProxy.receiveMsgJson, absent]

/-- A response that comes later, one that is returned, and a group that is removed in front of its response. -/
theorem apart_threeRequests : ∃ run : ProxyRun, run.reqs.map ProxyReq.phase = [.done true, .done true, .done false] ∧
    ∀ req ∈ run.reqs, req.answers = req.phase.due req.grpId := by
  have ran : (((proxyMachine.restrict fun run move => run.apart move = true).run proxyMachine.start
      [.addGroup 0, .addGroup 1, .write 0 7, .write 1 8, .write 0 9, .receive 0 [1], .leave 0, .returned 1, .deliver 1 [2],
        .removeGroup 0, .receive 2 [3]]).map fun run => run.reqs.map ProxyReq.phase) =
      some [.done true, .done true, .done false] := by decide +kernel
  obtain ⟨run, ran, phases⟩ := Option.map_eq_some_iff.1 ran
  exact ⟨run, phases, (apart_answered (Machine.Reachable.start.run ran)).2.1⟩

/-- A response to a request that was cancelled is queued behind the notice. -/
theorem cancelled_answeredTwice : ¬ ∀ run, proxyMachine.Reachable run → ∀ req ∈ run.reqs, req.answers.length ≤ 1 := by
  intro once
  have ran : ((proxyMachine.run proxyMachine.start
      [.addGroup 0, .write 0 7, .cancel 0 true fun _ => [], .receive 0 [1]]).map fun run =>
        run.reqs.map ProxyReq.answers) = some [[0, 0]] := by decide +kernel
  obtain ⟨run, ran, answers⟩ := Option.map_eq_some_iff.1 ran
  have twice : ∃ req ∈ run.reqs, req.answers = [0, 0] := by
    rw [← mem_map, answers]
    exact mem_singleton.2 rfl
  obtain ⟨req, member, twice⟩ := twice
  have := once run (Machine.Reachable.start.run ran) req member
  rw [twice] at this
  exact absurd this (by decide)

end RpcFrmwrk.Fuse
