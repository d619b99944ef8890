import RpcFrmwrk.Rpc.RouterPath
import RpcFrmwrk.Rpc.RouterRefs

/-! The events that a multihop bridge subscribes to at the next nodes. A bridge counts the requests
for a match in `m_mapRmtMatches`, in which matches are alike where `ToString` is. The first request
and the last one go on to the next node, with the node's name cut from the path and without the
port. Owns `CRouterRemoteMatch` with `CopyMatch` and `ToString`, and the calls on the table;
`EnableRemoteEventInternalMH`, with what is on the way to the next nodes; the removal of all matches
of a port or of a node. -/

namespace RpcFrmwrk.Rpc

open RpcFrmwrk.Library RpcFrmwrk.Library.Counted

/-- The properties of a match that are read for its route. -/
structure RmtMatch where
  objPath : List Char
  ifName : List Char
  destDBusName : Option (List Char)
  portId : Option Nat
  routerPath : Option (List Char)
deriving DecidableEq

/-- `REG_MAX_PATH`. -/
def regMaxPath : Nat := 2048

/-- `VALID_INITIAL_NAME_CHAR`. -/
def validInitialNameChar (char : Char) : Bool :=
  ('A' ≤ char && char ≤ 'Z') || ('a' ≤ char && char ≤ 'z') || char = '_' || char = '-'

/-- `VALID_NAME_CHAR`. -/
def validNameChar (char : Char) : Bool := ('0' ≤ char && char ≤ '9') || validInitialNameChar char

/-- The loops of `IsValidDBusPath` and `IsValidDBusName`: a separator is followed by a character that may begin a name. -/
def validParts (separator : Char) (initial : Char → Bool) : List Char → Bool
  | [] => true
  | [char] => char ≠ separator && validNameChar char
  | char :: next :: rest =>
    if char = separator then initial next && validParts separator initial rest
    else validNameChar char && validParts separator initial (next :: rest)

def isValidDBusPath (path : List Char) : Bool :=
  path.length ≤ regMaxPath && path.head? = some '/' && validParts '/' validInitialNameChar path

def isValidDBusName (name : List Char) : Bool :=
  name.length ≤ regMaxPath &&
    match name with
    | [] => false
    | ':' :: rest => validParts '.' validNameChar rest
    | char :: rest => validInitialNameChar char && validParts '.' validInitialNameChar rest

namespace RmtMatch

/-- `CRouterRemoteMatch::CopyMatch`. -/
def copyMatch (source : RmtMatch) : Except Status RmtMatch :=
  if !isValidDBusPath source.objPath then .error .einval
  else if !isValidDBusName source.ifName then .error .einval
  else if source.destDBusName.isNone then .error .enoent
  else if source.portId.isNone then .error .enoent
  else if source.routerPath.isNone then .error .enoent
  else .ok source

/-- `ToDBusRules` of a match without a type and a method. -/
def toDBusRules (source : RmtMatch) : List Char :=
  (if source.ifName = [] then [] else ",interface='".toList ++ source.ifName ++ ['\'']) ++
    (if source.objPath = [] then [] else ",path='".toList ++ source.objPath ++ ['\''])

/-- `CRouterRemoteMatch::ToString`. -/
def toString (source : RmtMatch) : List Char :=
  source.toDBusRules ++ ",match=matchClient".toList ++
    match source.portId with
    | none => []
    | some portId =>
      ",PortId=".toList ++ Nat.toDigits 10 portId ++ ",Destination=".toList ++ source.destDBusName.getD [] ++
        match source.routerPath with
        | none => []
        | some path => ",RouterPath=".toList ++ path

end RmtMatch

/-- `m_mapRmtMatches`. -/
abbrev RmtMatches := List (Counted (List Char) RmtMatch)

namespace RmtMatches

/-- What `AddRemoveMatch` returns. -/
inductive Ret where
  | success
  /-- The positive `EEXIST`. -/
  | exists
deriving DecidableEq

/-- `AddRemoveMatch` with `bAdd`. -/
def add (table : RmtMatches) (source : RmtMatch) : Ret × RmtMatches :=
  match find table source.toString with
  | none => (.success, ⟨source.toString, source, 1⟩ :: table)
  | some entry => (.exists, setCount table source.toString (increment32 entry.count))

/-- `AddRemoveMatch` without `bAdd`. -/
def remove (table : RmtMatches) (source : RmtMatch) : Ret × RmtMatches :=
  match find table source.toString with
  | none => (.success, table)
  | some entry =>
    if asInt32 (decrement32 entry.count) ≤ 0 then (.success, erase table source.toString)
    else (.exists, setCount table source.toString (decrement32 entry.count))

/-- `AddRemoteMatch` and `RemoveRemoteMatch`. -/
def update (table : RmtMatches) (source : RmtMatch) (enable : Bool) : Except Status Ret × RmtMatches :=
  match source.copyMatch with
  | .error ret => (.error ret, table)
  | .ok copy =>
    let done := if enable then add table copy else remove table copy
    (.ok done.1, done.2)

def stored (table : RmtMatches) (name : List Char) : Nat := countOf table name

end RmtMatches

/-! ### The route -/

def RmtMatch.hop (source : RmtMatch) : Except PathFailure (List Char × List Char) :=
  match source.routerPath with
  | none => .error (.status .enoent)
  | some path => enableRemoteEventPath path

def RmtMatch.target (source : RmtMatch) : Option (List Char × RmtMatch) :=
  match source.hop with
  | .error _ => none
  | .ok hop => some (hop.1, { source with portId := none, routerPath := some hop.2 })

/-- The node's name as `RemoveRemoteMatchByNodeName` takes it from a match that is stored. -/
def RmtMatch.nodeName (source : RmtMatch) : List Char :=
  match source.routerPath with
  | none => []
  | some path =>
    match getNodeName path with
    | .error _ => []
    | .ok node => node

/-- A request on the way to a node. A request for a match that was cleared since is not `counts`. -/
structure Forward where
  name : List Char
  target : List Char × RmtMatch
  enable : Bool
  counts : Bool
deriving DecidableEq

/-- What a request did: the counts of its match in front of it and behind it, and whether it went on. -/
structure RouteEvent where
  before : Nat
  after : Nat
  forwarded : Bool
deriving DecidableEq

/-- The count went from none to one, or from one to none. -/
def RouteEvent.crosses (event : RouteEvent) : Bool :=
  (event.before = 0 && event.after = 1) || (event.before = 1 && event.after = 0)

structure RouteState where
  table : RmtMatches
  /-- How often the next nodes have enabled a match. -/
  next : List Char × RmtMatch → Nat
  /-- What a next node has not handled. -/
  sent : List Forward
  /-- What a next node has handled, and whose answer has not come back. -/
  handled : List Forward
  /-- The successful enables of a match, less the successful disables, since it was last cleared. -/
  net : List Char → Int
  events : List RouteEvent

namespace RouteState

def start : RouteState := ⟨[], fun _ => 0, [], [], fun _ => 0, []⟩

/-- A request was answered with a success. -/
def succeed (state : RouteState) (name : List Char) (enable : Bool) : RouteState :=
  { state with net := Function.update state.net name (state.net name + if enable then 1 else -1) }

def note (state : RouteState) (table : RmtMatches) (name : List Char) (forwarded : Bool) : RouteState :=
  { state with
    table := table
    events := state.events ++ [⟨state.table.stored name, table.stored name, forwarded⟩] }

/-- `EnableRemoteEventInternalMH` of a bridge that is connected. `begins` is whether there is a proxy of the node, the
handler of the response is made, and the proxy takes the request. -/
def enableRemoteEvent (state : RouteState) (source : RmtMatch) (enable begins : Bool) : RouteState :=
  let done := state.table.update source enable
  let name := source.toString
  match done.1 with
  -- An error and a match that is stored on are both answered with a success.
  | .error _ => (state.note done.2 name false).succeed name enable
  | .ok .exists => (state.note done.2 name false).succeed name enable
  | .ok .success =>
    match source.target with
    | none => state.note done.2 name false
    | some target =>
      if begins then
        { state.note done.2 name true with sent := state.sent ++ [⟨name, target, enable, true⟩] }
      else state.note done.2 name false

/-- The next node handles a request. -/
def handle (state : RouteState) (forward : Forward) : RouteState :=
  { state with
    next := Function.update state.next forward.target
      (if forward.enable then state.next forward.target + 1 else state.next forward.target - 1)
    sent := state.sent.erase forward
    handled := state.handled ++ [forward] }

/-- `OnEnableRemoteEventCompleteMH`. -/
def complete (state : RouteState) (forward : Forward) (succeeds : Bool) : RouteState :=
  let answered := { state with handled := state.handled.erase forward }
  if succeeds && forward.counts then answered.succeed forward.name forward.enable else answered

def forget (state : RouteState) (wanted : Counted (List Char) RmtMatch → Bool) : RouteState :=
  let names := (state.table.filter wanted).map Counted.key
  let forgetOne := fun forward : Forward => if forward.name ∈ names then { forward with counts := false } else forward
  { state with
    table := state.table.filter fun entry => !wanted entry
    sent := state.sent.map forgetOne
    handled := state.handled.map forgetOne
    net := fun name => if name ∈ names then 0 else state.net name }

/-- The requests of `ClearRemoteEventsMH` for matches that were removed. -/
def clearRequests (removed : RmtMatches) : List Forward :=
  removed.filterMap fun entry => entry.info.target.map fun target => ⟨entry.key, target, false, false⟩

/-- `RemoveRemoteMatchByPortId`, and `ClearRemoteEventsMH` for what it has removed. -/
def clearPort (state : RouteState) (port : Nat) (begins : Bool) : RouteState :=
  let wanted := fun entry : Counted (List Char) RmtMatch => decide (entry.info.portId = some port)
  let left := state.forget wanted
  if begins then { left with sent := left.sent ++ clearRequests (state.table.filter wanted) } else left

/-- `RemoveRemoteMatchByNodeName` when the connection to the node is gone. -/
def clearNode (state : RouteState) (node : List Char) : RouteState :=
  let dropped := (state.sent ++ state.handled).filter fun forward => forward.target.1 = node
  let left := state.forget fun entry => decide (entry.info.nodeName = node)
  { left with
    next := fun target => if target.1 = node then 0 else state.next target
    sent := left.sent.filter fun forward => forward.target.1 ≠ node
    handled := left.handled.filter fun forward => forward.target.1 ≠ node
    net := fun name => if name ∈ dropped.map Forward.name then 0 else left.net name }

end RouteState

inductive RouteStep where
  /-- `EnableRemoteEventInternalMH`. -/
  | enableRemoteEvent (source : RmtMatch) (enable connected begins : Bool)
  /-- The next node does what a request asks for. -/
  | handle (forward : Forward)
  /-- The answer to a request that was handled. -/
  | complete (forward : Forward) (succeeds : Bool)
  /-- A request that was not handled is answered with an error. -/
  | fail (forward : Forward)
  | clearPort (port : Nat) (begins : Bool)
  | clearNode (node : List Char)

def RouteState.step (state : RouteState) : RouteStep → Option RouteState
  | .enableRemoteEvent source enable connected begins =>
    some (if connected then state.enableRemoteEvent source enable begins else state)
  | .handle forward => if forward ∈ state.sent then some (state.handle forward) else none
  | .complete forward succeeds => if forward ∈ state.handled then some (state.complete forward succeeds) else none
  | .fail forward => if forward ∈ state.sent then some { state with sent := state.sent.erase forward } else none
  | .clearPort port begins => some (state.clearPort port begins)
  | .clearNode node => if node = [] then none else some (state.clearNode node)

def eventRoute : Machine RouteState RouteStep where
  start := RouteState.start
  step := RouteState.step

/-- What the table says of a route, when nothing is on the way: the counts are those of the requests that succeeded,
and a next node has a match enabled exactly where there is a match that is sent to it as this one. -/
structure RouteState.Agrees (state : RouteState) : Prop where
  counts : ∀ name, (state.table.stored name : Int) = state.net name
  enabled : ∀ target, 0 < state.next target ↔
    ∃ entry ∈ state.table, 0 < entry.count ∧ entry.info.target = some target

/-- The steps that keep the table right:
- the match of a request can be copied, and where its string is stored, it is with this match;
- a match that is disabled is stored, and the count of one that is enabled does not overflow;
- a request that is to go on has a node, and is taken by its proxy; what is on the way is handled and succeeds;
- the next node has a match enabled when it handles the request to disable it;
- where the matches of a port are cleared, the next nodes are told;
- where a node is gone, what is stored or on the way under the string of a request to it is for this node. -/
def RouteStep.fits (state : RouteState) : RouteStep → Bool
  | .enableRemoteEvent source enable connected begins =>
    !connected ||
      (source.copyMatch.isOk &&
        match find state.table source.toString with
        | none => enable && source.target.isSome && begins
        | some entry =>
          decide (entry.info = source) &&
            if enable then decide (entry.count + 1 < 2147483648) else entry.count ≠ 1 || begins)
  | .handle forward => forward.enable || decide (0 < state.next forward.target)
  | .complete forward succeeds => succeeds || !forward.counts
  | .fail _ => false
  | .clearPort port begins => begins || !(state.table.any fun entry => decide (entry.info.portId = some port))
  | .clearNode node =>
    decide (∀ forward ∈ state.sent ++ state.handled, forward.target.1 = node →
      (∀ entry ∈ state.table, entry.key = forward.name → entry.info.nodeName = node) ∧
        ∀ other ∈ state.sent ++ state.handled, other.name = forward.name → other.target.1 = node)

end RpcFrmwrk.Rpc
