import RpcFrmwrk.Ipc.TaskGroup

/-! The check of a router path over the nodes of a load-balance group. A candidate stands with what
the router and its next hop answer when they are asked. A node with a proxy id has its bridge proxy.
The references are those of the requester's port, by the names of the nodes. A group runs its tasks
one after the other, each when the one in front of it is complete. Owns `CheckRouterPathLB`,
`OpenPortLB` and `CheckRouterPathAgainLB` of `CRpcTcpBridge`, and their completion handlers; the
answers of a task group of which no task is retried. -/

namespace RpcFrmwrk.Rpc

open RpcFrmwrk.Ipc

/-- `-ENOTDIR`. -/
def eNotDir : Int := -20

/-- What a request ends with: zero or an error. `Process` completes no task with `-EAGAIN`. -/
structure ReqStatus where
  ret : Int
  nonpositive : ret ≤ 0
  settled : ret ≠ eAgain
deriving DecidableEq

/-- The answer of the next hop to `CheckRouterPath`: at once or later, and whether the proxy is
still there when it is handled. -/
structure NextHop where
  later : Bool
  answer : ReqStatus
  stays : Bool
deriving DecidableEq

/-- A candidate: whether `GetProxyIdByNodeName` finds its proxy when the list is built, whether
it has connection parameters, what `CRouterOpenBdgePortTask` ends with, whether the proxy is
found behind that, and what its next hop answers. -/
structure LbNode where
  name : String
  listed : Bool
  configured : Bool
  opened : ReqStatus
  created : Bool
  hop : NextHop
deriving DecidableEq

/-- `propRouterPath` of the answer. -/
def LbNode.path (node : LbNode) (next : String) : String := "/" ++ node.name ++ next

/-- `propReturnValue` and `propRouterPath` of a response. -/
structure LbResponse where
  ret : Int
  path : Option String
deriving DecidableEq, Repr

/-- What the requester gets: the references of its port in `m_mapRefCount`, one entry for each
count, and the responses sent. -/
structure LbRequest where
  refs : List String
  responses : List LbResponse
deriving DecidableEq, Repr

namespace LbRequest

/-- `AddRefCount` of a node with a proxy. -/
def addRefCount (req : LbRequest) (node : LbNode) : LbRequest := { req with refs := req.refs ++ [node.name] }

/-- `FindRefCount`, and `AddRefCount` if there is none. -/
def holdRefCount (req : LbRequest) (node : LbNode) : LbRequest :=
  if node.name ∈ req.refs then req else req.addRefCount node

/-- `OnServiceComplete` and `SetResponse`. -/
def respond (req : LbRequest) (resp : LbResponse) : LbRequest := { req with responses := req.responses ++ [resp] }

def finish (req : LbRequest) (node : LbNode) (next : String) (last : Bool) (ret : Int) : LbRequest × Int :=
  if isError ret ∧ !last then (req, ret)
  else (req.respond ⟨ret, if succeeded ret then some (node.path next) else none⟩, ret)

end LbRequest

/-- A task of a group: the request behind it and what it returns. It returns nothing if it throws. -/
abbrev LbCall := LbRequest → LbRequest × Option Int

/-- `RunTaskInternal` and `OnCancel` of a group. A task that is cancelled sends nothing. -/
def runTasks (relation : LogicOp) : List LbCall → LbCall
  | [], req => (req, some 0)
  | task :: rest, req =>
    match task req with
    | (req, none) => (req, none)
    | (req, some ret) => if relation.stops ret ∨ rest = [] then (req, some ret) else runTasks relation rest req

/-- `OnCheckRouterPathCompleteLB`. -/
def onCheckRouterPathCompleteLB (node : LbNode) (next : String) (last : Bool) (iRet : Int) (req : LbRequest) :
    LbRequest × Int :=
  if isError iRet then req.finish node next last iRet
  else if !node.hop.stays then req.finish node next last eNoEnt
  else (req.addRefCount node).finish node next last 0

/-- `OnCheckRouterPathCompleteLB2`. -/
def onCheckRouterPathCompleteLB2 (node : LbNode) (next : String) (last : Bool) (iRet : Int) (req : LbRequest) :
    LbRequest × Int :=
  onCheckRouterPathCompleteLB node next last iRet req

/-- `CheckRouterPathAgainLB`. -/
def checkRouterPathAgainLB (node : LbNode) (next : String) (last : Bool) : LbCall := fun req =>
  let answer :=
    if !node.created then req.finish node next last eNoEnt
    else if next = "/" then (req.holdRefCount node).finish node next last 0
    else if node.hop.later then onCheckRouterPathCompleteLB2 node next last node.hop.answer.ret req
    -- an answer at once does not go through the handler
    else req.finish node next last node.hop.answer.ret
  (answer.1, some answer.2)

/-- `OnOpenPortCompleteLB`. -/
def onOpenPortCompleteLB (last : Bool) (iRet : Int) (req : LbRequest) : LbRequest × Int :=
  if isError iRet ∧ last then (req.respond ⟨iRet, none⟩, iRet) else (req, iRet)

/-- `OpenPortLB`. -/
def openPortLB (node : LbNode) (last : Bool) : LbCall := fun req =>
  let answer := onOpenPortCompleteLB last node.opened.ret req
  (answer.1, some answer.2)

/-- The `CIfIoCallTask` of a proxy that exists. An error at once leaves no response on the task, and
the handler is called with an empty variant for it. -/
def ioCallTask (node : LbNode) (next : String) (last : Bool) : LbCall := fun req =>
  if !node.hop.later ∧ isError node.hop.answer.ret then (req, none)
  else
    let answer := onCheckRouterPathCompleteLB node next last node.hop.answer.ret req
    (answer.1, some answer.2)

/-- `pCreateGrp`. -/
def createGrp (node : LbNode) (next : String) (last : Bool) : LbCall :=
  runTasks .and [openPortLB node last, checkRouterPathAgainLB node next last]

/-- The loop of `CheckRouterPathLB`: the tasks of `pGrp`, or an error. -/
def probe (next : String) : List LbNode → List LbCall → LbRequest → LbRequest × Except Int (List LbCall)
  | [], grp, req => (req, .ok grp)
  | node :: rest, grp, req =>
    let last := rest.isEmpty
    if !node.listed then
      if !node.configured then (req, .error eNotDir)
      else probe next rest (grp ++ [createGrp node next last]) req
    else if next = "/" then (req.holdRefCount node, .ok grp)
    else probe next rest (grp ++ [ioCallTask node next last]) req

/-- `CheckRouterPathLB`, and what its group does. -/
def checkRouterPathLB (next : String) (vecNodes : List LbNode) (req : LbRequest) : LbRequest :=
  match probe next vecNodes [] req with
  | (req, .error ret) => req.respond ⟨ret, none⟩
  | (req, .ok grp) => (runTasks .or grp req).1

end RpcFrmwrk.Rpc
