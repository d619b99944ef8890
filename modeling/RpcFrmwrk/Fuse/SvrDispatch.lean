import RpcFrmwrk.Fuse.EvtFile

/-! Which group of files of an `rpcfs` server gets a request, and which responses are dispatched.
The groups that were added are numbered in that order, and so are their files, which stay behind the
removal of the group. A request goes by the object id of its task, which is used once. The groups of
the map stand in the order in which they came. Owns `AddGroup`, `RemoveGroup`, `ReceiveMsgJson` and
`OnUserCancelRequest` of `CFuseSvcServer`; the task ids of `CFuseRespFileSvr`, and `ReceiveMsgJson`
of `CFuseReqFileSvr`; the turns of the groups and the responses of a run in which the rotation stays
in step. -/

namespace RpcFrmwrk.Fuse

open RpcFrmwrk.Library List

/-- `GRP_ELEM`: the request file, and `m_setTaskIds` of the response file. -/
structure GrpElem where
  reqFile : EvtFile
  setTaskIds : List Nat

/-- What became of requests: queued to a group, answered there, cancelled by their caller, or all those of a group
cancelled. -/
inductive ReqEvent where
  | queued (grp reqId : Nat)
  | answered (grp reqId : Nat)
  | cancelled (reqId : Nat)
  | grpCancelled (grp : Nat)
deriving DecidableEq

/-- The request was queued to the group, and was neither answered nor cancelled since. The newest event is in front. -/
def outstanding (grp reqId : Nat) : List ReqEvent → Bool
  | [] => false
  | .queued at' id :: older => (at' == grp && id == reqId) || outstanding grp reqId older
  | .answered at' id :: older => !(at' == grp && id == reqId) && outstanding grp reqId older
  | .cancelled id :: older => id != reqId && outstanding grp reqId older
  | .grpCancelled at' :: older => at' != grp && outstanding grp reqId older

/-- `CFuseSvcServer`. `m_mapGroups` has the numbers of the groups. The last fields record the number of groups
added, whether an index was outside of the list, the events, and by how many requests one group is ahead of another
since both are there. -/
structure SvrDispatch where
  mapGroups : List (Nat × Nat)
  vecGrpIds : List Nat
  lastGrp : Nat
  elems : Nat → GrpElem
  added : Nat
  broken : Bool
  events : List ReqEvent
  lead : Nat → Nat → Int

/-- A call. -/
inductive DispatchMove where
  | addGroup (grpId : Nat)
  | removeGroup (grpId : Nat)
  | request (msg : List UInt8) (reqId : Nat)
  | response (grp reqId : Nat)
  | cancelRequest (reqId : Nat)
  | cancelFsRequests (grp : Nat)

namespace SvrDispatch

def new : SvrDispatch := ⟨[], [], 0, fun _ => ⟨.new, []⟩, 0, false, [], fun _ _ => 0⟩

/-- `AddGroup`: `-EEXIST` leaves the server as it is. -/
def addGroup (svr : SvrDispatch) (grpId : Nat) : SvrDispatch :=
  if (svr.mapGroups.lookup grpId).isSome then svr
  else
    { svr with
      mapGroups := svr.mapGroups ++ [(grpId, svr.added)]
      vecGrpIds := svr.vecGrpIds ++ [grpId]
      added := svr.added + 1
      lead := fun one other => if one = grpId ∨ other = grpId then 0 else svr.lead one other }

/-- `RemoveGroup`. -/
def removeGroup (svr : SvrDispatch) (grpId : Nat) : SvrDispatch :=
  if (svr.mapGroups.lookup grpId).isSome then
    { svr with
      mapGroups := svr.mapGroups.filter fun elem => elem.1 != grpId
      vecGrpIds := svr.vecGrpIds.erase grpId }
  else svr

/-- `ReceiveMsgJson` of the request file of a group. -/
def queueRequest (svr : SvrDispatch) (grp : Nat) (msg : List UInt8) (reqId : Nat) : SvrDispatch :=
  let elem := svr.elems grp
  { svr with
    elems := Function.update svr.elems grp
      ⟨elem.reqFile.receiveEvtJson msg reqId, elem.setTaskIds.insert reqId⟩
    events := .queued grp reqId :: svr.events }

/-- `ReceiveMsgJson`. -/
def receiveMsgJson (svr : SvrDispatch) (msg : List UInt8) (reqId : Nat) : SvrDispatch :=
  match svr.vecGrpIds[svr.lastGrp]? with
  | none => { svr with broken := true }
  | some grpId =>
    let size := svr.vecGrpIds.length
    let svr :=
      { svr with
        lastGrp := if 1 < size then (svr.lastGrp + 1) % size else svr.lastGrp
        lead := fun one other => svr.lead one other + (if one = grpId then 1 else 0) - if other = grpId then 1 else 0 }
    match svr.mapGroups.lookup grpId with
    | none => svr
    | some grp => svr.queueRequest grp msg reqId

/-- `RemoveTaskId` of the response file, and whether it gives no error. -/
def removeTaskId (svr : SvrDispatch) (grp reqId : Nat) : SvrDispatch × Bool :=
  let elem := svr.elems grp
  ({ svr with elems := Function.update svr.elems grp { elem with setTaskIds := elem.setTaskIds.filter (· != reqId) } },
    elem.setTaskIds.contains reqId)

/-- A response in `fs_write_buf` of a response file, and whether it is dispatched. -/
def writeResponse (svr : SvrDispatch) (grp reqId : Nat) : SvrDispatch × Bool :=
  let removed := svr.removeTaskId grp reqId
  (if removed.2 then { removed.1 with events := .answered grp reqId :: svr.events } else removed.1, removed.2)

/-- `OnUserCancelRequest`: the first group that has the request. -/
def onUserCancelRequest (svr : SvrDispatch) (reqId : Nat) : SvrDispatch :=
  let svr := { svr with events := .cancelled reqId :: svr.events }
  match svr.mapGroups.find? fun elem => (svr.removeTaskId elem.2 reqId).2 with
  | none => svr
  | some (_, grp) =>
    let svr := (svr.removeTaskId grp reqId).1
    let elem := svr.elems grp
    { svr with elems := Function.update svr.elems grp { elem with reqFile := elem.reqFile.onUserCancelRequest reqId } }

/-- `CancelFsRequests` of the response file. -/
def cancelFsRequests (svr : SvrDispatch) (grp : Nat) : SvrDispatch :=
  { svr with
    elems := Function.update svr.elems grp { svr.elems grp with setTaskIds := [] }
    events := .grpCancelled grp :: svr.events }

def unused (svr : SvrDispatch) (reqId : Nat) : Bool := svr.events.all fun
  | .queued _ id => id != reqId
  | _ => true

def step (svr : SvrDispatch) : DispatchMove → Option SvrDispatch
  | .addGroup grpId => some (svr.addGroup grpId)
  | .removeGroup grpId => some (svr.removeGroup grpId)
  | .request msg reqId => if svr.unused reqId then some (svr.receiveMsgJson msg reqId) else none
  | .response grp reqId => if grp < svr.added then some (svr.writeResponse grp reqId).1 else none
  | .cancelRequest reqId => some (svr.onUserCancelRequest reqId)
  | .cancelFsRequests grp => if grp < svr.added then some (svr.cancelFsRequests grp) else none

def fits (file : EvtFile) (msg : List UInt8) (reqId : Nat) : Bool :=
  (dropOverflow (file.queIncoming ++ [⟨evtBuf msg, 0, reqId⟩])
    ((file.bytesAvail + (evtBuf msg).length) % 2 ^ 32)).any fun left => !left.1.isEmpty

/-- No group is removed in front of the rotation, or at it when it is the last of several; a request comes to a group
whose file takes it; and its caller cancels it while its group is in the map. -/
def inStep (svr : SvrDispatch) : DispatchMove → Bool
  | .removeGroup grpId => (!svr.vecGrpIds.contains grpId) || (svr.lastGrp ≤ svr.vecGrpIds.idxOf grpId &&
      (svr.lastGrp == 0 || svr.lastGrp + 1 < svr.vecGrpIds.length))
  | .request msg reqId => svr.vecGrpIds != [] &&
      svr.mapGroups.all fun elem => svr.vecGrpIds[svr.lastGrp]? != some elem.1 || fits (svr.elems elem.2).reqFile msg reqId
  | .cancelRequest reqId => (List.range svr.added).all fun grp =>
      (svr.mapGroups.map Prod.snd).contains grp || !outstanding grp reqId svr.events
  | _ => true

end SvrDispatch

def dispatchMachine : Machine SvrDispatch DispatchMove := ⟨.new, SvrDispatch.step⟩

/-! ### The rotation -/

/-- Those that had their turn in this round, and those that wait for it. -/
structure Turns (served waiting : List Nat) (lead : Nat → Nat → Int) : Prop where
  across : ∀ one ∈ served, ∀ other ∈ waiting, lead one other = 0 ∨ lead one other = 1
  served : served.Pairwise fun one other => lead one other = 0 ∨ lead one other = -1
  waiting : waiting.Pairwise fun one other => lead one other = 0 ∨ lead one other = -1
  flip : ∀ one other, lead other one = -lead one other

variable {served waiting : List Nat} {lead : Nat → Nat → Int} {one other : Nat}

theorem Turns.even (turns : Turns served waiting lead) (first : one ∈ served ++ waiting)
    (second : other ∈ served ++ waiting) : lead one other ≤ 1 := by
  have flip := turns.flip
  have same (one : Nat) : lead one one ≤ 1 := by have := flip one one; omega
  have within {list : List Nat} (pairs : list.Pairwise fun one other => lead one other = 0 ∨ lead one other = -1) :
      ∀ ⦃one⦄, one ∈ list → ∀ ⦃other⦄, other ∈ list → lead one other ≤ 1 := by
    refine Pairwise.forall_of_forall_of_flip (fun one _ => same one) (pairs.imp fun {one other} pair => ?_)
      (pairs.imp fun {one other} pair => ?_)
    · omega
    · have := flip one other
      simp only [Function.flip_def]
      omega
  rcases mem_append.1 first with first | first <;> rcases mem_append.1 second with second | second
  · exact within turns.served first second
  · have := turns.across one first other second
    omega
  · have := turns.across other second one first
    have := flip other one
    omega
  · exact within turns.waiting first second

theorem Turns.serve (turns : Turns served (one :: waiting) lead) (once : (served ++ one :: waiting).Nodup) :
    Turns (served ++ [one]) waiting
      fun a b => lead a b + (if a = one then 1 else 0) - if b = one then 1 else 0 := by
  obtain ⟨across, pairs, rest, flip⟩ := turns
  have own := flip one one
  simp only [nodup_append, nodup_cons, pairwise_cons] at once rest
  refine ⟨?_, ?_, rest.2.imp_of_mem fun {a b} inA inB pair => ?_, ?_⟩
  · grind
  · refine pairwise_append.2 ⟨pairs.imp_of_mem fun {a b} inA inB pair => ?_, by simp, ?_⟩
    · grind
    · grind
  · grind
  · intro a b
    have := flip a b
    split <;> split <;> omega

theorem Turns.around (turns : Turns served [] lead) : Turns [] served lead :=
  ⟨by simp, by simp, turns.served, turns.flip⟩

theorem Turns.add (turns : Turns served waiting lead) (_ : one ∉ served ++ waiting) :
    Turns served (waiting ++ [one]) fun a b => if a = one ∨ b = one then 0 else lead a b := by
  obtain ⟨across, pairs, rest, flip⟩ := turns
  refine ⟨by grind, pairs.imp_of_mem fun {a b} _ _ pair => by grind,
    pairwise_append.2 ⟨rest.imp_of_mem fun {a b} _ _ pair => by grind, by simp, by grind⟩, by grind⟩

theorem Turns.remove (turns : Turns served waiting lead) (one : Nat) : Turns served (waiting.erase one) lead :=
  ⟨fun a first b second => turns.across a first b (mem_of_mem_erase second), turns.served,
    turns.waiting.sublist erase_sublist, turns.flip⟩

variable {events : List ReqEvent} {grp reqId : Nat}

theorem queued_of_outstanding (open' : outstanding grp reqId events = true) : ReqEvent.queued grp reqId ∈ events := by
  induction events with
  | nil => cases open'
  | cons event older ih => cases event <;> grind [outstanding]

theorem not_outstanding_of_unused {svr : SvrDispatch} (unused : svr.unused reqId = true) (grp : Nat) :
    outstanding grp reqId svr.events = false := by
  by_contra open'
  have := List.all_eq_true.1 unused _ (queued_of_outstanding (by simpa using open'))
  simp at this

theorem dropOverflow_suffix {que left : List InBuf} {bytes rest : Nat} (dropped : dropOverflow que bytes = some (left, rest)) :
    left <:+ que := by
  induction que generalizing bytes with
  | nil => grind [dropOverflow]
  | cons front que ih =>
    rw [dropOverflow] at dropped
    split at dropped
    · exact (ih dropped).trans (suffix_cons front que)
    · cases dropped
      exact suffix_refl _

theorem receiveEvtJson_last {file : EvtFile} {msg : List UInt8} (fits : SvrDispatch.fits file msg reqId = true) :
    (file.receiveEvtJson msg reqId).queIncoming.getLast? = some ⟨evtBuf msg, 0, reqId⟩ := by
  simp only [SvrDispatch.fits, Option.any_eq_true] at fits
  obtain ⟨⟨left, rest⟩, dropped, some⟩ := fits
  obtain ⟨front, whole⟩ := dropOverflow_suffix dropped
  have last := congrArg getLast? whole
  rw [getLast?_append_of_ne_nil _ (by simpa using some), getLast?_concat] at last
  simpa only [EvtFile.receiveEvtJson, dropped] using last

namespace SvrDispatch

variable {svr next : SvrDispatch}

structure InStep (svr : SvrDispatch) : Prop where
  keys : svr.mapGroups.map Prod.fst = svr.vecGrpIds
  once : svr.vecGrpIds.Nodup
  position : svr.lastGrp < svr.vecGrpIds.length ∨ svr.lastGrp = 0
  sound : svr.broken = false
  turns : Turns (svr.vecGrpIds.take svr.lastGrp) (svr.vecGrpIds.drop svr.lastGrp) svr.lead
  known : ∀ elem ∈ svr.mapGroups, elem.2 < svr.added
  ids : ∀ grp reqId, reqId ∈ (svr.elems grp).setTaskIds ↔ outstanding grp reqId svr.events = true
  bound : ∀ grp reqId, outstanding grp reqId svr.events = true → grp < svr.added
  alone : ∀ grp other reqId, outstanding grp reqId svr.events = true → outstanding other reqId svr.events = true →
    grp = other

theorem InStep.start : new.InStep := by
  refine ⟨rfl, nodup_nil, .inr rfl, rfl, ⟨?_, ?_, ?_, ?_⟩, ?_, ?_, ?_, ?_⟩ <;> simp [new, outstanding]

theorem lookup_isSome {map : List (Nat × Nat)} {key : Nat} : (map.lookup key).isSome = true ↔ key ∈ map.map Prod.fst := by
  induction map with
  | nil => simp
  | cons elem map ih => grind

theorem InStep.addGroup (inv : svr.InStep) (grpId : Nat) : (svr.addGroup grpId).InStep := by
  have ⟨keys, once, position, sound, turns, known, ids, bound, alone⟩ := inv
  rw [SvrDispatch.addGroup]
  split
  · exact { inv with }
  · rename_i absent
    rw [lookup_isSome, keys] at absent
    have short : svr.lastGrp ≤ svr.vecGrpIds.length := by omega
    refine ⟨by simp [keys], by grind, by simp; omega, sound, ?_, by grind, ids, by grind, alone⟩
    simp only [take_append_of_le_length short, drop_append_of_le_length short]
    exact turns.add (by rwa [take_append_drop])

theorem InStep.removeGroup (inv : svr.InStep) {grpId : Nat} (meets : svr.inStep (.removeGroup grpId) = true) :
    (svr.removeGroup grpId).InStep := by
  have ⟨keys, once, position, sound, turns, known, ids, bound, alone⟩ := inv
  rw [SvrDispatch.removeGroup]
  split
  · rename_i present
    rw [lookup_isSome, keys] at present
    simp only [inStep, contains_eq_mem, present, decide_true, Bool.not_true, Bool.false_or, Bool.and_eq_true,
      decide_eq_true_eq, Bool.or_eq_true, beq_iff_eq] at meets
    have behind : grpId ∉ svr.vecGrpIds.take svr.lastGrp := by
      intro served
      have := idxOf_lt_length_of_mem served
      have whole := take_append_drop svr.lastGrp svr.vecGrpIds
      rw [← whole, idxOf_append_of_mem served] at meets
      simp only [length_take] at this
      omega
    have cut : svr.vecGrpIds.erase grpId = svr.vecGrpIds.take svr.lastGrp ++ (svr.vecGrpIds.drop svr.lastGrp).erase grpId := by
      rw [← erase_append_right _ behind, take_append_drop]
    have size : (svr.vecGrpIds.take svr.lastGrp).length = svr.lastGrp := by
      rw [length_take]
      omega
    refine ⟨?_, once.erase grpId, ?_, sound, ?_, fun elem member => known elem (mem_of_mem_filter member), ids, bound, alone⟩
    · simp only [← keys] at once ⊢
      rw [once.erase_eq_filter, filter_map]
      rfl
    · have := length_erase_of_mem present
      simp only [this]
      omega
    · simp only [cut, take_left' size, drop_left' size]
      exact turns.remove grpId
  · exact { inv with }

theorem InStep.turn (inv : svr.InStep) (filled : svr.vecGrpIds ≠ []) : ∃ grpId grp,
    svr.vecGrpIds[svr.lastGrp]? = some grpId ∧ svr.mapGroups.lookup grpId = some grp ∧ (grpId, grp) ∈ svr.mapGroups := by
  have inside : svr.lastGrp < svr.vecGrpIds.length := by
    have := length_pos_of_ne_nil filled
    have := inv.position
    omega
  have member : svr.vecGrpIds[svr.lastGrp] ∈ svr.mapGroups.map Prod.fst := by
    rw [inv.keys]
    exact getElem_mem inside
  obtain ⟨grp, found⟩ := Option.isSome_iff_exists.1 (lookup_isSome.2 member)
  have := List.lookup_eq_some_iff.1 found
  exact ⟨_, grp, getElem?_eq_getElem inside, found, by grind⟩

theorem InStep.receiveMsgJson (inv : svr.InStep) {msg : List UInt8} (filled : svr.vecGrpIds ≠ [])
    (unused : svr.unused reqId = true) : (svr.receiveMsgJson msg reqId).InStep := by
  obtain ⟨grpId, grp, next, found, member⟩ := inv.turn filled
  obtain ⟨keys, once, position, sound, turns, known, ids, bound, alone⟩ := inv
  obtain ⟨inside, rfl⟩ := List.getElem?_eq_some_iff.1 next
  have none := not_outstanding_of_unused unused
  have served : Turns (svr.vecGrpIds.take (svr.lastGrp + 1)) (svr.vecGrpIds.drop (svr.lastGrp + 1)) fun a b => svr.lead a b +
      (if a = svr.vecGrpIds[svr.lastGrp] then 1 else 0) - if b = svr.vecGrpIds[svr.lastGrp] then 1 else 0 := by
    rw [drop_eq_getElem_cons inside] at turns
    rw [take_succ_eq_append_getElem inside]
    refine turns.serve ?_
    rwa [← drop_eq_getElem_cons inside, take_append_drop]
  have position : (if 1 < svr.vecGrpIds.length then (svr.lastGrp + 1) % svr.vecGrpIds.length else svr.lastGrp) =
      if svr.lastGrp + 1 < svr.vecGrpIds.length then svr.lastGrp + 1 else 0 := by
    by_cases last : svr.lastGrp + 1 < svr.vecGrpIds.length
    · rw [if_pos (by omega), if_pos last, Nat.mod_eq_of_lt last]
    · have : svr.lastGrp + 1 = svr.vecGrpIds.length := by omega
      simp only [this, Nat.mod_self, lt_irrefl, if_false]
      split <;> omega
  simp only [SvrDispatch.receiveMsgJson, next, found, queueRequest, position]
  refine ⟨keys, once, ?_, sound, ?_, known, fun at' id => ?_, fun at' id => ?_, fun one other id => ?_⟩
  · simp only
    split <;> simp_all
  · simp only
    split
    · exact served
    · rename_i last
      rw [take_of_length_le (by omega), drop_of_length_le (by omega)] at served
      simpa using served.around
  · by_cases same : at' = grp <;> grind [outstanding]
  · grind [outstanding]
  · grind [outstanding]

theorem writeResponse_snd (inv : svr.InStep) (grp reqId : Nat) :
    (svr.writeResponse grp reqId).2 = outstanding grp reqId svr.events := by
  rw [Bool.eq_iff_iff, ← inv.ids grp reqId]
  simp [writeResponse, removeTaskId]

theorem InStep.writeResponse (inv : svr.InStep) (grp reqId : Nat) : (svr.writeResponse grp reqId).1.InStep := by
  have ⟨_, _, _, _, _, _, ids, bound, alone⟩ := inv
  have own := ids grp reqId
  simp only [SvrDispatch.writeResponse]
  split <;> rename_i has <;> simp only [removeTaskId, contains_eq_mem, decide_eq_true_eq] at has ⊢
  · refine { inv with ids := fun at' id => ?_, bound := ?_, alone := ?_ }
    · by_cases same : at' = grp <;> grind [outstanding]
    · grind [outstanding]
    · grind [outstanding]
  · refine { inv with ids := fun at' id => ?_ }
    by_cases same : at' = grp <;> grind

theorem InStep.onUserCancelRequest (inv : svr.InStep) (meets : svr.inStep (.cancelRequest reqId) = true) :
    (svr.onUserCancelRequest reqId).InStep := by
  have ⟨_, _, _, _, _, _, ids, bound, alone⟩ := inv
  simp only [inStep, List.all_eq_true, mem_range, Bool.or_eq_true, Bool.not_eq_true', contains_eq_mem,
    decide_eq_true_eq, mem_map] at meets
  simp only [SvrDispatch.onUserCancelRequest, removeTaskId]
  split
  · rename_i none
    rw [find?_eq_none] at none
    refine { inv with ids := fun at' id => ?_, bound := ?_, alone := ?_ }
    · grind [outstanding]
    · grind [outstanding]
    · grind [outstanding]
  · rename_i key grp found
    have has := find?_some found
    refine { inv with ids := fun at' id => ?_, bound := ?_, alone := ?_ }
    · by_cases same : at' = grp <;> grind [outstanding]
    · grind [outstanding]
    · grind [outstanding]

theorem InStep.cancelFsRequests (inv : svr.InStep) (grp : Nat) : (svr.cancelFsRequests grp).InStep := by
  have ⟨_, _, _, _, _, _, ids, bound, alone⟩ := inv
  simp only [SvrDispatch.cancelFsRequests]
  refine { inv with ids := fun at' id => ?_, bound := ?_, alone := ?_ }
  · by_cases same : at' = grp <;> grind [outstanding]
  · grind [outstanding]
  · grind [outstanding]

theorem InStep.step (inv : svr.InStep) {move : DispatchMove} (meets : svr.inStep move = true)
    (moved : svr.step move = some next) : next.InStep := by
  cases move with
  | addGroup grpId => exact Option.some.inj moved ▸ inv.addGroup grpId
  | removeGroup grpId => exact Option.some.inj moved ▸ inv.removeGroup meets
  | cancelRequest reqId => exact Option.some.inj moved ▸ inv.onUserCancelRequest meets
  | request msg reqId =>
    obtain ⟨unused, ⟨⟩⟩ := Option.ite_none_right_eq_some.1 moved
    exact inv.receiveMsgJson (by simp [inStep] at meets; exact meets.1) unused
  | response grp reqId =>
    obtain ⟨_, ⟨⟩⟩ := Option.ite_none_right_eq_some.1 moved
    exact inv.writeResponse grp reqId
  | cancelFsRequests grp =>
    obtain ⟨_, ⟨⟩⟩ := Option.ite_none_right_eq_some.1 moved
    exact inv.cancelFsRequests grp

end SvrDispatch

variable {svr : SvrDispatch}

/-- In a run in which the rotation stays in step with the list. -/
theorem inStep_dispatches (reached : (dispatchMachine.restrict fun svr move => svr.inStep move = true).Reachable svr) :
    (svr.mapGroups.map Prod.fst = svr.vecGrpIds ∧ svr.vecGrpIds.Nodup) ∧ svr.broken = false ∧
    (∀ one ∈ svr.vecGrpIds, ∀ other ∈ svr.vecGrpIds, svr.lead one other ≤ 1) ∧
    (∀ msg reqId, svr.inStep (.request msg reqId) = true → ∃ elem ∈ svr.mapGroups,
      (svr.receiveMsgJson msg reqId).broken = false ∧
      ((svr.receiveMsgJson msg reqId).elems elem.2).reqFile.queIncoming.getLast? = some ⟨evtBuf msg, 0, reqId⟩ ∧
      ∀ other, other ≠ elem.2 → (svr.receiveMsgJson msg reqId).elems other = svr.elems other) ∧
    ∀ grp reqId, (svr.writeResponse grp reqId).2 = outstanding grp reqId svr.events := by
  have inv : svr.InStep := by
    refine reached.invariant .start ?_
    intro before move after _ inv moved
    rw [Machine.restrict_step] at moved
    exact inv.step moved.1 moved.2
  refine ⟨⟨inv.keys, inv.once⟩, inv.sound, fun one first other second => ?_, fun msg reqId meets => ?_,
    SvrDispatch.writeResponse_snd inv⟩
  · rw [← take_append_drop svr.lastGrp svr.vecGrpIds] at first second
    exact inv.turns.even first second
  · simp only [SvrDispatch.inStep, Bool.and_eq_true, bne_iff_ne, List.all_eq_true, Bool.or_eq_true] at meets
    obtain ⟨grpId, grp, next, found, member⟩ := inv.turn meets.1
    have fits := (meets.2 _ member).resolve_left fun other => other next
    refine ⟨_, member, ?_⟩
    simp only [SvrDispatch.receiveMsgJson, next, found, SvrDispatch.queueRequest, Function.update_self]
    exact ⟨inv.sound, receiveEvtJson_last fits, fun other differs => Function.update_of_ne differs _ _⟩

theorem inStep_twoGroups : ∃ svr : SvrDispatch, svr.vecGrpIds = [0] ∧ svr.broken = false ∧
    (svr.writeResponse 0 7).2 = true := by
  have ran : (((dispatchMachine.restrict fun svr move => svr.inStep move = true).run dispatchMachine.start
      [.addGroup 0, .addGroup 1, .addGroup 2, .request [1] 7, .removeGroup 1, .request [1] 8, .removeGroup 2]).map
      fun svr => (svr.vecGrpIds, outstanding 0 7 svr.events)) = some ([0], true) := by decide +kernel
  obtain ⟨svr, ran, both⟩ := Option.map_eq_some_iff.1 ran
  obtain ⟨_, sound, _, _, responses⟩ := inStep_dispatches (Machine.Reachable.start.run ran)
  exact ⟨svr, congrArg Prod.fst both, sound, (responses 0 7).trans (congrArg Prod.snd both)⟩

/-- A group is removed in front of the rotation, and the next request is taken from behind the end of the list. -/
theorem removedInFront_outside : ¬ ∀ svr, dispatchMachine.Reachable svr → svr.broken = false := by
  intro sound
  have ran : ((dispatchMachine.run dispatchMachine.start
      [.addGroup 0, .addGroup 1, .request [1] 7, .removeGroup 0, .request [1] 8]).map SvrDispatch.broken) =
      some true := by decide +kernel
  obtain ⟨svr, ran, broken⟩ := Option.map_eq_some_iff.1 ran
  exact absurd ((sound svr (Machine.Reachable.start.run ran)).symm.trans broken) (by decide)

end RpcFrmwrk.Fuse
