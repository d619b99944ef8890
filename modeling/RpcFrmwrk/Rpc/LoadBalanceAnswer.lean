import RpcFrmwrk.Rpc.LoadBalance

/-! What the requester gets from the check of a load-balance group. Owns `Answered`, one response
that names the first candidate that accepts, and its reference; the condition on the candidates
under which the check answers so; the tasks that fail, succeed and throw. -/

namespace RpcFrmwrk.Rpc

open RpcFrmwrk.Ipc List

namespace LbNode

def reachable (node : LbNode) : Bool :=
  node.listed || (node.configured && !isError node.opened.ret && node.created)

def accepts (next : String) (node : LbNode) : Bool :=
  node.reachable && (next == "/" || (!isError node.hop.answer.ret && node.hop.stays))

end LbNode

/-- The one response is a success that names the first candidate that accepts, and only its reference
is added; or it is an error if there is no such candidate. -/
def Answered (next : String) (vecNodes : List LbNode) (before after : LbRequest) : Prop :=
  match vecNodes.find? (LbNode.accepts next) with
  | some node =>
    after.responses = before.responses ++ [⟨0, some (node.path next)⟩] ∧
      (after.refs = before.refs ++ [node.name] ∨
        next = "/" ∧ node.name ∈ before.refs ∧ after.refs = before.refs)
  | none => ∃ ret, isError ret = true ∧ after.responses = before.responses ++ [⟨ret, none⟩] ∧ after.refs = before.refs

namespace LbNode

def creatable (node : LbNode) : Bool := !node.listed && node.configured

def unconfigured (node : LbNode) : Bool := !node.listed && !node.configured

/-- The next hop refuses at once through a proxy that was there, or accepts at once through one that is
created now. -/
def abrupt (node : LbNode) : Bool :=
  !node.hop.later &&
    if node.listed then isError node.hop.answer.ret else node.reachable && !isError node.hop.answer.ret

end LbNode

/-- With nothing left of the path: the first candidate that is not to be created, if there is one, has a
proxy that the port refers to, and one in front of it is created; or it has no configuration, as no
candidate accepts. -/
def RootFits (refs : List String) (vecNodes : List LbNode) : Prop :=
  match vecNodes.dropWhile LbNode.creatable with
  | [] => True
  | stop :: _ =>
    if stop.listed then
      ∃ node, (vecNodes.takeWhile LbNode.creatable).find? (LbNode.accepts "/") = some node ∧
        (stop.name ∈ refs ∨ stop.name = node.name)
    else ∀ node ∈ vecNodes, node.accepts "/" = false

def Smooth (next : String) : List LbNode → Prop
  | [] => True
  | node :: rest => node.abrupt = false ∧ (node.accepts next = true ∨ Smooth next rest)

/-- With a path left: every candidate has a proxy or a configuration and no answer comes abruptly, or no
candidate accepts. -/
def HopsFit (next : String) (vecNodes : List LbNode) : Prop :=
  if vecNodes.any LbNode.unconfigured then ∀ node ∈ vecNodes, node.accepts next = false
  else Smooth next vecNodes

def LbFits (next : String) (refs : List String) (vecNodes : List LbNode) : Prop :=
  if next = "/" then RootFits refs vecNodes else HopsFit next vecNodes

section

variable {next : String} {node : LbNode} {vecNodes : List LbNode} {before after req : LbRequest} {last : Bool}

theorem ReqStatus.ret_eq_zero {status : ReqStatus} (success : isError status.ret = false) : status.ret = 0 := by
  have nonnegative := of_decide_eq_false success
  have nonpositive := status.nonpositive
  omega

theorem isError_eNoEnt : isError eNoEnt = true := rfl

theorem succeeded_of_isError {ret : Int} (error : isError ret = true) : succeeded ret = false := by
  have negative := of_decide_eq_true error
  apply decide_eq_false
  omega

theorem Answered.of_find {node : LbNode}
    (found : vecNodes.find? (LbNode.accepts next) = some node) :
    Answered next vecNodes before after ↔
      after.responses = before.responses ++ [⟨0, some (node.path next)⟩] ∧
        (after.refs = before.refs ++ [node.name] ∨
          next = "/" ∧ node.name ∈ before.refs ∧ after.refs = before.refs) := by
  rw [Answered, found]

theorem Answered.of_none (found : vecNodes.find? (LbNode.accepts next) = none) :
    Answered next vecNodes before after ↔
      ∃ ret, isError ret = true ∧ after.responses = before.responses ++ [⟨ret, none⟩] ∧ after.refs = before.refs := by
  rw [Answered, found]

theorem Answered.responses_ne (answered : Answered next vecNodes before after) :
    after.responses ≠ before.responses := by
  intro same
  cases found : vecNodes.find? (LbNode.accepts next) with
  | some node =>
    rw [Answered.of_find found, same] at answered
    exact absurd (self_eq_append_right.1 answered.1) (cons_ne_nil _ _)
  | none =>
    rw [Answered.of_none found, same] at answered
    obtain ⟨ret, _, responses, _⟩ := answered
    exact absurd (self_eq_append_right.1 responses) (cons_ne_nil _ _)

theorem Answered.respond_error {ret : Int} (error : isError ret = true) :
    Answered next vecNodes req (req.respond ⟨ret, none⟩) ↔ ∀ node ∈ vecNodes, node.accepts next = false := by
  cases found : vecNodes.find? (LbNode.accepts next) with
  | some node =>
    rw [Answered.of_find found]
    constructor
    · rintro ⟨responses, _⟩
      have same := append_cancel_left responses
      have zero : ret = 0 := congrArg LbResponse.ret (List.cons.inj same).1
      rw [zero] at error
      contradiction
    · intro refused
      have accepts := List.find?_some found
      rw [refused node (mem_of_find?_eq_some found)] at accepts
      contradiction
  | none =>
    rw [Answered.of_none found]
    constructor
    · intro _ node member
      have refused := List.find?_eq_none.1 found node member
      exact Bool.not_eq_true _ ▸ refused
    · exact fun _ => ⟨ret, error, rfl, rfl⟩

/-! ### Tasks -/

theorem LbRequest.finish_error {ret : Int} (error : isError ret = true) :
    req.finish node next last ret = (if last then req.respond ⟨ret, none⟩ else req, ret) := by
  rw [LbRequest.finish, succeeded_of_isError error, error]
  cases last with
  | true => rfl
  | false => rfl

theorem LbRequest.finish_zero : req.finish node next last 0 = (req.respond ⟨0, some (node.path next)⟩, 0) := rfl

def Fails (call : LbCall) (last : Bool) : Prop :=
  ∀ req, ∃ ret, isError ret = true ∧ call req = (if last then req.respond ⟨ret, none⟩ else req, some ret)

theorem fails_ioCallTask (smooth : node.abrupt = false) (listed : node.listed = true)
    (refused : node.accepts next = false) (hops : next ≠ "/") : Fails
    (ioCallTask node next last) last := by
  intro req
  have rest : (next == "/") = false := beq_eq_false_iff_ne.2 hops
  rw [LbNode.accepts, LbNode.reachable, listed, rest] at refused
  rw [LbNode.abrupt, listed] at smooth
  rw [ioCallTask, onCheckRouterPathCompleteLB]
  cases error : isError node.hop.answer.ret with
  | true =>
    rw [error] at smooth
    have later : node.hop.later = true := by simpa using smooth
    rw [later]
    simp only [Bool.not_true, Bool.false_eq_true, false_and, if_false, if_true]
    rw [LbRequest.finish_error error]
    exact ⟨_, error, rfl⟩
  | false =>
    rw [error] at refused
    have stays : node.hop.stays = false := by simpa using refused
    rw [stays]
    simp only [Bool.not_false, Bool.false_eq_true, and_false, if_false, if_true]
    rw [LbRequest.finish_error isError_eNoEnt]
    exact ⟨_, isError_eNoEnt, rfl⟩

theorem ioCallTask_abrupt (abrupt : node.abrupt = true) (listed : node.listed = true) :
    ioCallTask node next last req = (req, none) := by
  rw [LbNode.abrupt, listed, if_pos rfl, Bool.and_eq_true] at abrupt
  rw [ioCallTask, if_pos abrupt]

theorem ioCallTask_accepts (listed : node.listed = true) (accepts : node.accepts next = true)
    (hops : next ≠ "/") :
    ioCallTask node next last req = ((req.addRefCount node).respond ⟨0, some (node.path next)⟩, some 0) := by
  have rest : (next == "/") = false := beq_eq_false_iff_ne.2 hops
  rw [LbNode.accepts, LbNode.reachable, listed, rest] at accepts
  have both : isError node.hop.answer.ret = false ∧ node.hop.stays = true := by simpa using accepts
  rw [ioCallTask, onCheckRouterPathCompleteLB, both.1, both.2]
  simp only [Bool.not_true, Bool.false_eq_true, and_false, if_false]
  rw [LbRequest.finish_zero]

/-! A proxy that is created -/

theorem createGrp_unopened (error : isError node.opened.ret = true) :
    createGrp node next last req =
      (if last then req.respond ⟨node.opened.ret, none⟩ else req, some node.opened.ret) := by
  rw [createGrp, runTasks, openPortLB, onOpenPortCompleteLB, error]
  cases last with
  | true =>
    simp only [true_and, if_true, LogicOp.stops, error, true_or]
  | false =>
    simp only [Bool.false_eq_true, and_false, if_false, LogicOp.stops, error, true_or, if_true]

theorem createGrp_opened (success : isError node.opened.ret = false) :
    createGrp node next last req = checkRouterPathAgainLB node next last req := by
  rw [createGrp, runTasks, openPortLB, onOpenPortCompleteLB, success]
  simp only [Bool.false_eq_true, false_and, if_false, LogicOp.stops, success, false_or, cons_ne_nil]
  rw [runTasks, checkRouterPathAgainLB]
  simp only [or_true, if_true]

theorem fails_createGrp (creatable : node.creatable = true)
    (smooth : next ≠ "/" → node.abrupt = false)
    (refused : node.accepts next = false) : Fails (createGrp node next last) last := by
  intro req
  rw [LbNode.creatable, Bool.and_eq_true, Bool.not_eq_true'] at creatable
  rw [LbNode.accepts, LbNode.reachable, creatable.1, creatable.2, Bool.false_or, Bool.true_and] at refused
  cases opened : isError node.opened.ret with
  | true => exact ⟨_, opened, createGrp_unopened opened⟩
  | false =>
    rw [opened, Bool.not_false, Bool.true_and] at refused
    rw [createGrp_opened opened, checkRouterPathAgainLB]
    cases created : node.created with
    | false =>
      simp only [Bool.not_false, if_true]
      rw [LbRequest.finish_error isError_eNoEnt]
      exact ⟨_, isError_eNoEnt, rfl⟩
    | true =>
      rw [created, Bool.true_and, Bool.or_eq_false_iff, beq_eq_false_iff_ne] at refused
      have smooth := smooth refused.1
      rw [LbNode.abrupt, LbNode.reachable, creatable.1, creatable.2, opened, created] at smooth
      simp only [Bool.not_true, Bool.false_eq_true, if_false, if_neg refused.1, onCheckRouterPathCompleteLB2,
        onCheckRouterPathCompleteLB]
      cases error : isError node.hop.answer.ret with
      | true =>
        simp only [if_true, ite_self]
        rw [LbRequest.finish_error error]
        exact ⟨_, error, rfl⟩
      | false =>
        rw [error] at smooth refused
        have later : node.hop.later = true := by simpa using smooth
        have stays : node.hop.stays = false := by simpa using refused.2
        rw [later, stays]
        simp only [Bool.not_false, Bool.false_eq_true, if_false, if_true]
        rw [LbRequest.finish_error isError_eNoEnt]
        exact ⟨_, isError_eNoEnt, rfl⟩

theorem createGrp_root (creatable : node.creatable = true) (accepts : node.accepts "/" = true) :
    createGrp node "/" last req = ((req.holdRefCount node).respond ⟨0, some (node.path "/")⟩, some 0) := by
  rw [LbNode.creatable, Bool.and_eq_true, Bool.not_eq_true'] at creatable
  rw [LbNode.accepts, LbNode.reachable, creatable.1, creatable.2] at accepts
  have both : isError node.opened.ret = false ∧ node.created = true := by simpa using accepts
  rw [createGrp_opened both.1, checkRouterPathAgainLB, both.2]
  simp only [Bool.not_true, Bool.false_eq_true, if_false, if_true]
  rw [LbRequest.finish_zero]

theorem createGrp_accepts (creatable : node.creatable = true) (smooth : node.abrupt = false)
    (accepts : node.accepts next = true) (hops : next ≠ "/") :
    createGrp node next last req = ((req.addRefCount node).respond ⟨0, some (node.path next)⟩, some 0) := by
  have rest : (next == "/") = false := beq_eq_false_iff_ne.2 hops
  rw [LbNode.creatable, Bool.and_eq_true, Bool.not_eq_true'] at creatable
  rw [LbNode.accepts, LbNode.reachable, creatable.1, creatable.2, rest] at accepts
  have all : (isError node.opened.ret = false ∧ node.created = true) ∧
      isError node.hop.answer.ret = false ∧ node.hop.stays = true := by simpa using accepts
  rw [LbNode.abrupt, LbNode.reachable, creatable.1, creatable.2, all.1.1, all.1.2, all.2.1] at smooth
  have later : node.hop.later = true := by simpa using smooth
  rw [createGrp_opened all.1.1, checkRouterPathAgainLB, all.1.2, later]
  simp only [Bool.not_true, Bool.false_eq_true, if_false, if_neg hops, if_true, onCheckRouterPathCompleteLB2,
    onCheckRouterPathCompleteLB, all.2.1, all.2.2]
  rw [LbRequest.finish_zero]

theorem createGrp_abrupt (creatable : node.creatable = true) (abrupt : node.abrupt = true)
    (hops : next ≠ "/") :
    createGrp node next last req = (req.respond ⟨0, some (node.path next)⟩, some 0) := by
  rw [LbNode.creatable, Bool.and_eq_true, Bool.not_eq_true'] at creatable
  rw [LbNode.abrupt, LbNode.reachable, creatable.1, creatable.2] at abrupt
  have all : node.hop.later = false ∧ (isError node.opened.ret = false ∧ node.created = true) ∧
      isError node.hop.answer.ret = false := by simpa using abrupt
  rw [createGrp_opened all.2.1.1, checkRouterPathAgainLB, all.2.1.2, all.1]
  simp only [Bool.not_true, Bool.false_eq_true, if_false, if_neg hops, ReqStatus.ret_eq_zero all.2.2]
  rw [LbRequest.finish_zero]

theorem runTasks_skip {call : LbCall} {rest : List LbCall} (fails : Fails call false) :
    (runTasks .or (call :: rest) req).1 = (runTasks .or rest req).1 := by
  obtain ⟨ret, error, answer⟩ := fails req
  rw [runTasks, answer]
  cases rest with
  | nil => simp only [or_true, if_true, Bool.false_eq_true, if_false, runTasks]
  | cons =>
    simp only [LogicOp.stops, error, Bool.not_true, Bool.false_eq_true, cons_ne_nil, or_false, if_false]

theorem runTasks_last {call : LbCall} (fails : Fails call true) :
    ∃ ret, isError ret = true ∧ (runTasks .or [call] req).1 = req.respond ⟨ret, none⟩ := by
  obtain ⟨ret, error, answer⟩ := fails req
  refine ⟨ret, error, ?_⟩
  rw [runTasks, answer]
  simp only [or_true, if_true]

theorem runTasks_zero {call : LbCall} {rest : List LbCall} (answer : call req = (after, some 0)) :
    (runTasks .or (call :: rest) req).1 = after := by
  rw [runTasks, answer]
  exact congrArg Prod.fst (if_pos (Or.inl rfl))

end

/-! ### Nothing left of the path -/

/-- The tasks of nodes that are to be created, the last of them with `bLast` unless more candidates follow. -/
def createTasks (more : Bool) : List LbNode → List LbCall
  | [] => []
  | node :: rest => createGrp node "/" (rest.isEmpty && !more) :: createTasks more rest

section

variable {vecNodes : List LbNode} {req : LbRequest}
variable {node stop : LbNode}
variable {grp : List LbCall} {tail : List LbNode} {refs : List String}

theorem probe_creatable (creatable : node.creatable = true) (next : String) :
    probe next (node :: vecNodes) grp req = probe next vecNodes (grp ++ [createGrp node next vecNodes.isEmpty]) req := by
  rw [LbNode.creatable, Bool.and_eq_true, Bool.not_eq_true'] at creatable
  rw [probe]
  simp only [creatable.1, creatable.2, Bool.not_false, Bool.not_true, Bool.false_eq_true, if_true, if_false]

theorem probe_created (all : vecNodes.dropWhile LbNode.creatable = []) :
    probe "/" vecNodes grp req = (req, .ok (grp ++ createTasks false vecNodes)) := by
  induction vecNodes generalizing grp with
  | nil => rw [probe, createTasks, append_nil]
  | cons node rest ih =>
    cases creatable : node.creatable with
    | false =>
      rw [dropWhile_cons, creatable] at all
      exact absurd all (cons_ne_nil _ _)
    | true =>
      rw [dropWhile_cons, if_pos creatable] at all
      rw [probe_creatable creatable, ih all, createTasks, append_assoc, Bool.not_false,
        Bool.and_true, singleton_append]

theorem probe_stopped
    (stops : vecNodes.dropWhile LbNode.creatable = stop :: tail) :
    probe "/" vecNodes grp req =
      if stop.listed then
        (req.holdRefCount stop, .ok (grp ++ createTasks true (vecNodes.takeWhile LbNode.creatable)))
      else (req, .error eNotDir) := by
  induction vecNodes generalizing grp with
  | nil => exact absurd stops.symm (cons_ne_nil _ _)
  | cons node rest ih =>
    cases creatable : node.creatable with
    | false =>
      rw [dropWhile_cons, creatable, if_neg Bool.false_ne_true] at stops
      have same := (List.cons.inj stops).1
      rw [takeWhile_cons, creatable, if_neg Bool.false_ne_true, createTasks, append_nil, probe, ← same]
      rw [LbNode.creatable] at creatable
      cases listed : node.listed with
      | true => simp only [Bool.not_true, Bool.false_eq_true, if_false, if_true]
      | false =>
        have configured : node.configured = false := by simpa [listed] using creatable
        simp only [configured, Bool.not_false, Bool.false_eq_true, if_false, if_true]
    | true =>
      rw [dropWhile_cons, if_pos creatable] at stops
      have more : rest.isEmpty = false := by
        cases rest with
        | nil => exact absurd stops.symm (cons_ne_nil _ _)
        | cons => rfl
      rw [probe_creatable creatable, ih stops, takeWhile_cons, if_pos creatable, createTasks,
        append_assoc, more, Bool.not_true, Bool.and_false, singleton_append]

theorem createTasks_some {more : Bool} (creatable : ∀ node ∈ vecNodes, node.creatable = true)
    (found : vecNodes.find? (LbNode.accepts "/") = some node) :
    (runTasks .or (createTasks more vecNodes) req).1 =
      (req.holdRefCount node).respond ⟨0, some (node.path "/")⟩ := by
  induction vecNodes with
  | nil => exact absurd found.symm (Option.some_ne_none _)
  | cons first rest ih =>
    have isFirst := creatable first mem_cons_self
    rw [createTasks]
    cases accepts : first.accepts "/" with
    | true =>
      rw [List.find?_cons_of_pos accepts] at found
      cases found
      exact runTasks_zero (createGrp_root isFirst accepts)
    | false =>
      rw [List.find?_cons_of_neg (by rw [accepts]; exact Bool.false_ne_true)] at found
      have others : rest.isEmpty = false := by
        cases rest with
        | nil => exact absurd found.symm (Option.some_ne_none _)
        | cons => rfl
      have fails : Fails (createGrp first "/" (rest.isEmpty && !more)) (rest.isEmpty && !more) :=
        fails_createGrp isFirst (fun hops => absurd rfl hops) accepts
      have behind := ih (fun node member => creatable node (mem_cons_of_mem _ member)) found
      rw [others, Bool.false_and] at fails ⊢
      rw [runTasks_skip fails, behind]

theorem createTasks_silent (creatable : ∀ node ∈ vecNodes, node.creatable = true)
    (found : vecNodes.find? (LbNode.accepts "/") = none) :
    (runTasks .or (createTasks true vecNodes) req).1 = req := by
  induction vecNodes with
  | nil => rfl
  | cons first rest ih =>
    have refused := List.find?_eq_none.1 found first mem_cons_self
    rw [List.find?_cons_of_neg refused] at found
    have fails : Fails (createGrp first "/" (rest.isEmpty && !true)) (rest.isEmpty && !true) :=
      fails_createGrp (creatable first mem_cons_self) (fun hops => absurd rfl hops)
        (Bool.not_eq_true _ ▸ refused)
    rw [Bool.not_true, Bool.and_false] at fails
    rw [createTasks, Bool.not_true, Bool.and_false, runTasks_skip fails]
    exact ih (fun node member => creatable node (mem_cons_of_mem _ member)) found

theorem createTasks_none (creatable : ∀ node ∈ vecNodes, node.creatable = true)
    (found : vecNodes.find? (LbNode.accepts "/") = none) (nonempty : vecNodes ≠ []) :
    ∃ ret, isError ret = true ∧ (runTasks .or (createTasks false vecNodes) req).1 = req.respond ⟨ret, none⟩ := by
  induction vecNodes with
  | nil => exact absurd rfl nonempty
  | cons first rest ih =>
    have refused := List.find?_eq_none.1 found first mem_cons_self
    rw [List.find?_cons_of_neg refused] at found
    have fails : Fails (createGrp first "/" (rest.isEmpty && !false)) (rest.isEmpty && !false) :=
      fails_createGrp (creatable first mem_cons_self) (fun hops => absurd rfl hops)
        (Bool.not_eq_true _ ▸ refused)
    rw [Bool.not_false, Bool.and_true] at fails
    rw [createTasks, Bool.not_false, Bool.and_true]
    cases rest with
    | nil => exact runTasks_last fails
    | cons second others =>
      rw [isEmpty_cons] at fails ⊢
      rw [runTasks_skip fails]
      exact ih (fun node member => creatable node (mem_cons_of_mem _ member)) found (cons_ne_nil _ _)

theorem LbRequest.refs_hold (node : LbNode) :
    (req.holdRefCount node).refs = if node.name ∈ req.refs then req.refs else req.refs ++ [node.name] := by
  rw [LbRequest.holdRefCount]
  split
  · rfl
  · rfl

theorem LbRequest.responses_hold (node : LbNode) : (req.holdRefCount node).responses = req.responses := by
  rw [LbRequest.holdRefCount]
  split
  · rfl
  · rfl

theorem answered_one (found : vecNodes.find? (LbNode.accepts "/") = some node) :
    Answered "/" vecNodes req ((req.holdRefCount node).respond ⟨0, some (node.path "/")⟩) := by
  rw [Answered.of_find found]
  refine ⟨congrArg (· ++ _) (LbRequest.responses_hold node), ?_⟩
  show (req.holdRefCount node).refs = _ ∨ _ ∧ _ ∧ (req.holdRefCount node).refs = _
  rw [LbRequest.refs_hold]
  split
  · next held => exact Or.inr ⟨rfl, held, rfl⟩
  · exact Or.inl rfl

theorem answered_held (found : vecNodes.find? (LbNode.accepts "/") = some node) :
    Answered "/" vecNodes req (((req.holdRefCount stop).holdRefCount node).respond ⟨0, some (node.path "/")⟩) ↔
      stop.name ∈ req.refs ∨ stop.name = node.name := by
  constructor
  · rw [Answered.of_find found]
    rintro ⟨_, refs⟩
    apply Decidable.byContradiction
    intro neither
    obtain ⟨absent, differs⟩ := not_or.1 neither
    have kept : ((req.holdRefCount stop).holdRefCount node).refs =
        if node.name ∈ req.refs ++ [stop.name] then req.refs ++ [stop.name] else req.refs ++ [stop.name] ++ [node.name] := by
      rw [LbRequest.refs_hold, LbRequest.refs_hold, if_neg absent]
    rcases refs with added | ⟨_, _, same⟩
    · have added := kept.symm.trans added
      split at added
      · exact differs (List.cons.inj (append_cancel_left added)).1
      · rw [append_assoc] at added
        have lengths := congrArg List.length (append_cancel_left added)
        exact absurd lengths (Nat.succ_ne_self 1)
    · have same := kept.symm.trans same
      split at same
      · exact absurd (append_right_eq_self.1 same) (cons_ne_nil _ _)
      · rw [append_assoc] at same
        exact absurd (append_right_eq_self.1 same) (cons_ne_nil _ _)
  · rintro (held | same)
    · have first : req.holdRefCount stop = req := if_pos held
      rw [first]
      exact answered_one found
    · have isHeld : req.holdRefCount stop = req.holdRefCount node := by
        rw [LbRequest.holdRefCount, LbRequest.holdRefCount, LbRequest.addRefCount, LbRequest.addRefCount, same]
      have present : node.name ∈ (req.holdRefCount node).refs := by
        rw [LbRequest.refs_hold]
        split
        · next held => exact held
        · exact mem_append_right _ (mem_singleton_self _)
      have twice : (req.holdRefCount node).holdRefCount node = req.holdRefCount node := if_pos present
      rw [isHeld, twice]
      exact answered_one found

theorem RootFits.of_listed
    (stops : vecNodes.dropWhile LbNode.creatable = stop :: tail) (listed : stop.listed = true) :
    RootFits refs vecNodes ↔
      ∃ node, (vecNodes.takeWhile LbNode.creatable).find? (LbNode.accepts "/") = some node ∧
        (stop.name ∈ refs ∨ stop.name = node.name) := by
  rw [RootFits, stops]
  simp only [listed, if_true]

theorem RootFits.of_unlisted
    (stops : vecNodes.dropWhile LbNode.creatable = stop :: tail) (unlisted : stop.listed = false) :
    RootFits refs vecNodes ↔ ∀ node ∈ vecNodes, node.accepts "/" = false := by
  rw [RootFits, stops]
  simp only [unlisted, Bool.false_eq_true, if_false]

theorem RootFits.of_created (all : vecNodes.dropWhile LbNode.creatable = []) :
    RootFits refs vecNodes := by
  rw [RootFits, all]
  exact trivial

theorem answered_root (nonempty : vecNodes ≠ []) :
    Answered "/" vecNodes req (checkRouterPathLB "/" vecNodes req) ↔ RootFits req.refs vecNodes := by
  have parts := @List.takeWhile_append_dropWhile _ LbNode.creatable vecNodes
  have isCreatable : ∀ node ∈ vecNodes.takeWhile LbNode.creatable, node.creatable = true :=
    all_eq_true.1 all_takeWhile
  rw [checkRouterPathLB]
  cases stops : vecNodes.dropWhile LbNode.creatable with
  | nil =>
    rw [stops, append_nil] at parts
    rw [parts] at isCreatable
    rw [probe_created stops, iff_true_right (RootFits.of_created stops)]
    simp only [nil_append]
    cases found : vecNodes.find? (LbNode.accepts "/") with
    | some node =>
      rw [createTasks_some isCreatable found]
      exact answered_one found
    | none =>
      obtain ⟨ret, error, ran⟩ := @createTasks_none vecNodes req isCreatable found nonempty
      rw [ran, Answered.of_none found]
      exact ⟨ret, error, rfl, rfl⟩
  | cons stop tail =>
    rw [probe_stopped stops]
    cases listed : stop.listed with
    | false =>
      rw [RootFits.of_unlisted stops listed]
      simp only [Bool.false_eq_true, if_false]
      have error : isError eNotDir = true := rfl
      exact Answered.respond_error error
    | true =>
      rw [RootFits.of_listed stops listed]
      simp only [if_true, nil_append]
      cases found : (vecNodes.takeWhile LbNode.creatable).find? (LbNode.accepts "/") with
      | some node =>
        have first : vecNodes.find? (LbNode.accepts "/") = .some node := by
          rw [← parts, List.find?_append, found]
          rfl
        rw [createTasks_some isCreatable found, answered_held first]
        constructor
        · exact fun held => ⟨node, rfl, held⟩
        · rintro ⟨_, same, held⟩
          rw [Option.some.inj same]
          exact held
      | none =>
        rw [createTasks_silent isCreatable found]
        constructor
        · exact fun answered => absurd (LbRequest.responses_hold stop) answered.responses_ne
        · rintro ⟨_, same, _⟩
          exact absurd same.symm (Option.some_ne_none _)

end

/-! ### A path left -/

section

variable {next : String} {vecNodes : List LbNode} {req : LbRequest}
variable {node : LbNode} {grp : List LbCall}

def hopTasks (next : String) : List LbNode → List LbCall
  | [] => []
  | node :: rest =>
    (if node.listed then ioCallTask node next rest.isEmpty else createGrp node next rest.isEmpty) ::
      hopTasks next rest

theorem creatable_of_configured (unlisted : node.listed = false)
    (configured : node.unconfigured = false) : node.creatable = true := by
  rw [LbNode.unconfigured, unlisted] at configured
  rw [LbNode.creatable, unlisted]
  simpa using configured

theorem probe_listed (listed : node.listed = true)
    (hops : next ≠ "/") :
    probe next (node :: vecNodes) grp req = probe next vecNodes (grp ++ [ioCallTask node next vecNodes.isEmpty]) req := by
  rw [probe]
  simp only [listed, Bool.not_true, Bool.false_eq_true, if_false, if_neg hops]

theorem probe_hops (hops : next ≠ "/")
    (configured : vecNodes.any LbNode.unconfigured = false) :
    probe next vecNodes grp req = (req, .ok (grp ++ hopTasks next vecNodes)) := by
  induction vecNodes generalizing grp with
  | nil => rw [probe, hopTasks, append_nil]
  | cons node rest ih =>
    rw [any_cons, Bool.or_eq_false_iff] at configured
    rw [hopTasks]
    cases listed : node.listed with
    | true =>
      rw [probe_listed listed hops, ih configured.2, append_assoc, singleton_append, if_pos rfl]
    | false =>
      rw [probe_creatable (creatable_of_configured listed configured.1), ih configured.2,
        append_assoc, singleton_append, if_neg Bool.false_ne_true]

theorem probe_unconfigured (hops : next ≠ "/")
    (absent : vecNodes.any LbNode.unconfigured = true) :
    probe next vecNodes grp req = (req, .error eNotDir) := by
  induction vecNodes generalizing grp with
  | nil => exact absurd absent Bool.false_ne_true
  | cons node rest ih =>
    rw [any_cons] at absent
    cases isAbsent : node.unconfigured with
    | true =>
      rw [LbNode.unconfigured, Bool.and_eq_true, Bool.not_eq_true', Bool.not_eq_true'] at isAbsent
      rw [probe]
      simp only [isAbsent.1, isAbsent.2, Bool.not_false, if_true]
    | false =>
      rw [isAbsent, Bool.false_or] at absent
      cases listed : node.listed with
      | true => rw [probe_listed listed hops, ih absent]
      | false =>
        rw [probe_creatable (creatable_of_configured listed isAbsent), ih absent]

theorem answered_first {rest : List LbNode} (accepts : node.accepts next = true) :
    Answered next (node :: rest) req ((req.addRefCount node).respond ⟨0, some (node.path next)⟩) := by
  rw [Answered.of_find (List.find?_cons_of_pos accepts)]
  exact ⟨rfl, Or.inl rfl⟩

theorem not_answered_unheld {path : Option String} (hops : next ≠ "/") :
    ¬Answered next vecNodes req (req.respond ⟨0, path⟩) := by
  intro answered
  cases found : vecNodes.find? (LbNode.accepts next) with
  | some node =>
    rw [Answered.of_find found] at answered
    rcases answered.2 with added | ⟨root, _⟩
    · exact absurd (self_eq_append_right.1 added) (cons_ne_nil _ _)
    · exact hops root
  | none =>
    rw [Answered.of_none found] at answered
    obtain ⟨ret, error, responses, _⟩ := answered
    have zero : 0 = ret := congrArg LbResponse.ret (List.cons.inj (append_cancel_left responses)).1
    rw [← zero] at error
    contradiction

theorem answered_behind {rest : List LbNode} (refused : node.accepts next = false)
    {after : LbRequest} :
    Answered next (node :: rest) req after ↔ Answered next rest req after := by
  rw [Answered, List.find?_cons_of_neg (by rw [refused]; exact Bool.false_ne_true), Answered]

theorem answered_tasks (hops : next ≠ "/") (configured : vecNodes.any LbNode.unconfigured = false)
    (nonempty : vecNodes ≠ []) :
    Answered next vecNodes req (runTasks .or (hopTasks next vecNodes) req).1 ↔ Smooth next vecNodes := by
  induction vecNodes with
  | nil => exact absurd rfl nonempty
  | cons node rest ih =>
    rw [any_cons, Bool.or_eq_false_iff] at configured
    rw [hopTasks, Smooth]
    cases abrupt : node.abrupt with
    | true =>
      simp only [Bool.true_eq_false, false_and, iff_false]
      cases listed : node.listed with
      | true =>
        rw [if_pos rfl, runTasks, ioCallTask_abrupt abrupt listed]
        exact fun answered => answered.responses_ne rfl
      | false =>
        rw [if_neg Bool.false_ne_true, runTasks_zero
          (createGrp_abrupt (creatable_of_configured listed configured.1) abrupt hops)]
        exact not_answered_unheld hops
    | false =>
      simp only [true_and]
      cases accepts : node.accepts next with
      | true =>
        simp only [true_or, iff_true]
        cases listed : node.listed with
        | true =>
          rw [if_pos rfl, runTasks_zero (ioCallTask_accepts listed accepts hops)]
          exact answered_first accepts
        | false =>
          rw [if_neg Bool.false_ne_true, runTasks_zero
            (createGrp_accepts (creatable_of_configured listed configured.1) abrupt accepts hops)]
          exact answered_first accepts
      | false =>
        have fails : Fails (if node.listed then ioCallTask node next rest.isEmpty
            else createGrp node next rest.isEmpty) rest.isEmpty := by
          cases listed : node.listed with
          | true => exact fails_ioCallTask abrupt listed accepts hops
          | false =>
            exact fails_createGrp (creatable_of_configured listed configured.1) (fun _ => abrupt) accepts
        simp only [Bool.false_eq_true, false_or]
        rw [answered_behind accepts]
        cases rest with
        | nil =>
          obtain ⟨ret, error, ran⟩ := @runTasks_last req _ fails
          rw [hopTasks, ran, Smooth, iff_true, Answered.of_none rfl]
          exact ⟨ret, error, rfl, rfl⟩
        | cons second others =>
          rw [runTasks_skip fails]
          exact ih configured.2 (cons_ne_nil _ _)

theorem answered_hops (hops : next ≠ "/") (nonempty : vecNodes ≠ []) :
    Answered next vecNodes req (checkRouterPathLB next vecNodes req) ↔ HopsFit next vecNodes := by
  rw [checkRouterPathLB, HopsFit]
  cases configured : vecNodes.any LbNode.unconfigured with
  | true =>
    rw [probe_unconfigured hops configured, if_pos rfl]
    have error : isError eNotDir = true := rfl
    exact Answered.respond_error error
  | false =>
    rw [probe_hops hops configured, if_neg Bool.false_ne_true, nil_append]
    exact answered_tasks hops configured nonempty

end

/-- The requester gets one answer, the first candidate that accepts or an error, and a reference for
that candidate only. -/
theorem answered_iff (next : String) {vecNodes : List LbNode} (nonempty : vecNodes ≠ [])
    (req : LbRequest) :
    Answered next vecNodes req (checkRouterPathLB next vecNodes req) ↔ LbFits next req.refs vecNodes := by
  by_cases root : next = "/"
  · rw [root, LbFits, if_pos rfl]
    exact answered_root nonempty
  · rw [LbFits, if_neg root]
    exact answered_hops root nonempty

def ReqStatus.accepted : ReqStatus := ⟨0, by decide, by decide⟩

def ReqStatus.refused : ReqStatus := ⟨-22, by decide, by decide⟩

/-- The first node cannot be created, the second refuses, the third is created and accepts. -/
theorem answered_thirdCandidate :
    Answered "/b" [⟨"n0", false, true, .refused, false, ⟨true, .accepted, true⟩⟩,
        ⟨"n1", true, true, .accepted, true, ⟨true, .refused, true⟩⟩,
        ⟨"n2", false, true, .accepted, true, ⟨true, .accepted, true⟩⟩] ⟨[], []⟩
      (checkRouterPathLB "/b" [⟨"n0", false, true, .refused, false, ⟨true, .accepted, true⟩⟩,
        ⟨"n1", true, true, .accepted, true, ⟨true, .refused, true⟩⟩,
        ⟨"n2", false, true, .accepted, true, ⟨true, .accepted, true⟩⟩] ⟨[], []⟩) := by
  rw [answered_iff "/b" (cons_ne_nil _ _)]
  rw [LbFits, if_neg (by decide), HopsFit, if_neg (by decide)]
  exact ⟨rfl, Or.inr ⟨rfl, Or.inr ⟨rfl, Or.inl rfl⟩⟩⟩

/-- A node whose proxy exists, and nothing left of the path: nothing is sent. -/
theorem existingProxy_silent :
    ¬∀ next vecNodes req, vecNodes ≠ [] → Answered next vecNodes req (checkRouterPathLB next vecNodes req) := by
  intro answers
  have answered := answers "/" [⟨"n0", true, true, .accepted, true, ⟨true, .accepted, true⟩⟩] ⟨[], []⟩
    (cons_ne_nil _ _)
  exact answered.responses_ne rfl

end RpcFrmwrk.Rpc
