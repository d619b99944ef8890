import RpcFrmwrk.Combase.Status
import RpcFrmwrk.Library.CountTable
import RpcFrmwrk.Library.Machine

/-! The tables in which the two routers count the references to their proxies. `CRpcRouterBridge`
counts for each port of a bridge and each node, `CRpcRouterReqFwdr` for each port of a proxy and
each client. Owns the calls on `m_mapRefCount` of both routers; the calls in any order, with the
references that are outstanding. -/

namespace RpcFrmwrk.Rpc

open RpcFrmwrk.Library RpcFrmwrk.Library.Counted

/-- A `std::string`. -/
abbrev RouterName := List UInt8

/-- The `gint32` with these 32 bits. -/
def asInt32 (bits : Nat) : Int :=
  if bits % 4294967296 < 2147483648 then (bits % 4294967296 : Nat) else (bits % 4294967296 : Nat) - 4294967296

/-- `++` and `--` of 32 bits. -/
def increment32 (bits : Nat) : Nat := (bits + 1) % 4294967296

def decrement32 (bits : Nat) : Nat := (bits + 4294967295) % 4294967296

/-- What `CRegObjectBridge::operator<` compares. -/
structure PortNode where
  port : Nat
  node : RouterName
deriving DecidableEq

/-- `CRegObjectBridge::operator<`. -/
def PortNode.less (left right : PortNode) : Bool := left.port < right.port || left.node < right.node

def PortNode.Ordered (keys : List PortNode) : Prop := ∀ left ∈ keys, ∀ right ∈ keys, ¬ (left.less right ∧ right.less left)

instance (keys : List PortNode) : Decidable (PortNode.Ordered keys) :=
  inferInstanceAs (Decidable (∀ left ∈ keys, ∀ right ∈ keys, _))

/-- `m_mapRefCount` of the bridge router, with the proxy's port that came with the first reference. -/
abbrev BridgeRefs := List (Counted PortNode Nat)

namespace BridgeRefs

/-- `AddRefCount`. -/
def addRefCount (table : BridgeRefs) (node : RouterName) (port proxyId : Nat) (proxyFound : Bool) :
    Except Status Int × BridgeRefs :=
  if port = 0 ∨ node = [] then (.error .einval, table)
  else if !proxyFound then (.error .enoent, table)
  else
    match find table ⟨port, node⟩ with
    | none => (.ok 1, ⟨⟨port, node⟩, proxyId, 1⟩ :: table)
    | some entry =>
      (.ok (asInt32 (increment32 entry.count)), setCount table ⟨port, node⟩ (increment32 entry.count))

/-- `DecRefCount`. -/
def decRefCount (table : BridgeRefs) (node : RouterName) (port : Nat) : Except Status Int × BridgeRefs :=
  if port = 0 ∨ node = [] then (.error .einval, table)
  else
    match find table ⟨port, node⟩ with
    | none => (.error .enoent, table)
    | some entry =>
      if asInt32 (decrement32 entry.count) ≤ 0 then
        -- The name that is compared in the loop is the one of the key.
        let left := erase table ⟨port, node⟩
        (.ok (max (asInt32 (sumWhere (fun _ _ => (⟨port, node⟩ : PortNode).node = node) left)) 0), left)
      else
        (.ok (max (asInt32 (decrement32 entry.count)) 0), setCount table ⟨port, node⟩ (decrement32 entry.count))

/-- `ClearRefCountByPortId`, with the names of the nodes. -/
def clearRefCountByPortId (table : BridgeRefs) (port : Nat) : List RouterName × BridgeRefs :=
  ((table.filter fun entry => entry.key.port = port).map fun entry => entry.key.node,
    table.filter fun entry => entry.key.port ≠ port)

/-- `ClearRefCountByNodeName`, with the ports. -/
def clearRefCountByNodeName (table : BridgeRefs) (node : RouterName) : List Nat × BridgeRefs :=
  ((table.filter fun entry => entry.key.node = node).map fun entry => entry.key.port,
    table.filter fun entry => entry.key.node ≠ node)

/-- `GetRefCountByPortId`. -/
def getRefCountByPortId (table : BridgeRefs) (port : Nat) : Int := asInt32 (sumWhere (fun key _ => key.port = port) table)

/-- The loop of `GetRefCountByNodeName`, for a number of rounds: an entry of the node is added and looked at again. -/
def nodeLoop (node : RouterName) : Nat → BridgeRefs → Nat → Option Nat
  | 0, _, _ => none
  | _ + 1, [], sum => some sum
  | rounds + 1, entry :: rest, sum =>
    if entry.key.node = node then nodeLoop node rounds (entry :: rest) (sum + entry.count)
    else nodeLoop node rounds rest sum

/-- `GetRefCountByNodeName`. There is no answer where the loop does not end. -/
def getRefCountByNodeName (table : BridgeRefs) (node : RouterName) : Option (Except Status Int) :=
  if node = [] then some (.error .einval)
  else (nodeLoop node (table.length + 1) table 0).map fun sum => .ok (asInt32 sum)

end BridgeRefs

/-! ### CRpcRouterReqFwdr -/

/-- What `CRegisteredObject::operator<` compares. -/
structure PortClient where
  port : Nat
  uniqName : RouterName
deriving DecidableEq

/-- `m_mapRefCount` of the request forwarder, with the bus name that came with the first reference. -/
abbrev FwdrRefs := List (Counted PortClient RouterName)

namespace FwdrRefs

/-- `AddRefCount`. -/
def addRefCount (table : FwdrRefs) (port : Nat) (uniqName busName : RouterName) : Except Status Int × FwdrRefs :=
  if port = 0 ∨ busName = [] ∨ uniqName = [] then (.error .einval, table)
  else
    match find table ⟨port, uniqName⟩ with
    | none => (.ok 1, ⟨⟨port, uniqName⟩, busName, 1⟩ :: table)
    | some entry =>
      (.ok (asInt32 (increment32 entry.count)), setCount table ⟨port, uniqName⟩ (increment32 entry.count))

/-- `DecRefCount`. -/
def decRefCount (table : FwdrRefs) (port : Nat) (uniqName busName : RouterName) : Except Status Int × FwdrRefs :=
  if port = 0 ∨ busName = [] ∨ uniqName = [] then (.error .einval, table)
  else
    match find table ⟨port, uniqName⟩ with
    | none => (.error .enoent, table)
    | some entry =>
      if asInt32 (decrement32 entry.count) ≤ 0 then
        let left := erase table ⟨port, uniqName⟩
        (.ok (max (asInt32 (sumWhere (fun key _ => key.port = port) left)) 0), left)
      else
        (.ok (max (asInt32 (decrement32 entry.count)) 0),
          setCount table ⟨port, uniqName⟩ (decrement32 entry.count))

/-- `GetRefCountByPortId`. -/
def getRefCountByPortId (table : FwdrRefs) (port : Nat) : Int := asInt32 (sumWhere (fun key _ => key.port = port) table)

/-- `ClearRefCountBySrcDBusName`, with the ports. -/
def clearRefCountBySrcDBusName (table : FwdrRefs) (busName : RouterName) : List Nat × FwdrRefs :=
  ((table.filter fun entry => entry.info = busName).map fun entry => entry.key.port,
    table.filter fun entry => entry.info ≠ busName)

/-- `ClearRefCountByUniqName`, with the ports. -/
def clearRefCountByUniqName (table : FwdrRefs) (uniqName : RouterName) : List Nat × FwdrRefs :=
  ((table.filter fun entry => entry.key.uniqName = uniqName).map fun entry => entry.key.port,
    table.filter fun entry => entry.key.uniqName ≠ uniqName)

/-- `ClearRefCountByPortId`, with the clients. -/
def clearRefCountByPortId (table : FwdrRefs) (port : Nat) : List RouterName × FwdrRefs :=
  ((table.filter fun entry => entry.key.port = port).map fun entry => entry.key.uniqName,
    table.filter fun entry => entry.key.port ≠ port)

end FwdrRefs

/-- The answer of a call that asks for a number of references, or none where the call does not return; and the
references that are outstanding then. -/
structure RefAnswer where
  ret : Option (Except Status Int)
  outstanding : Nat
deriving DecidableEq

/-- The call returns, and a count is the number of outstanding references. -/
def RefAnswer.Right (answer : RefAnswer) : Prop :=
  ∃ ret, answer.ret = some ret ∧ ∀ count, ret = .ok count → count = answer.outstanding

/-- A router's table, the references that its users hold, and the answers so far. -/
structure RefState (κ ι : Type) where
  table : List (Counted κ ι)
  bag : List (κ × ι)
  answers : List RefAnswer

def RefState.start (κ ι : Type) : RefState κ ι := ⟨[], [], []⟩

/-- The references behind a call. -/
def heldAfter {α : Type} (ret : Except Status Int) (after before : α) : α :=
  match ret with
  | .ok _ => after
  | .error _ => before

inductive BridgeCall where
  | addRefCount (node : RouterName) (port proxyId : Nat) (proxyFound : Bool)
  | decRefCount (node : RouterName) (port : Nat)
  | clearRefCountByPortId (port : Nat)
  | clearRefCountByNodeName (node : RouterName)
  | getRefCountByPortId (port : Nat)
  | getRefCountByNodeName (node : RouterName)

/-- The calls that look a key up. `std::map` promises nothing where its order is none. -/
def BridgeCall.lookup : BridgeCall → List PortNode
  | .addRefCount node port _ _ => [⟨port, node⟩]
  | .decRefCount node port => [⟨port, node⟩]
  | _ => []

def bridgeStep (state : RefState PortNode Nat) (call : BridgeCall) : Option (RefState PortNode Nat) :=
  if ¬ PortNode.Ordered (call.lookup ++ state.table.map Counted.key) then none
  else
    match call with
    | .addRefCount node port proxyId proxyFound =>
      let done := BridgeRefs.addRefCount state.table node port proxyId proxyFound
      some ⟨done.2, heldAfter done.1 (addTo state.bag ⟨port, node⟩ proxyId) state.bag, state.answers⟩
    | .decRefCount node port =>
      let done := BridgeRefs.decRefCount state.table node port
      let bag := heldAfter done.1 (dropFrom state.bag ⟨port, node⟩) state.bag
      some ⟨done.2, bag, ⟨some done.1, bag.countP fun held => held.1.node = node⟩ :: state.answers⟩
    | .clearRefCountByPortId port =>
      some ⟨(BridgeRefs.clearRefCountByPortId state.table port).2,
        state.bag.filter fun held => held.1.port ≠ port, state.answers⟩
    | .clearRefCountByNodeName node =>
      some ⟨(BridgeRefs.clearRefCountByNodeName state.table node).2,
        state.bag.filter fun held => held.1.node ≠ node, state.answers⟩
    | .getRefCountByPortId port =>
      some { state with answers :=
        ⟨some (.ok (BridgeRefs.getRefCountByPortId state.table port)),
          state.bag.countP fun held => held.1.port = port⟩ :: state.answers }
    | .getRefCountByNodeName node =>
      some { state with answers :=
        ⟨BridgeRefs.getRefCountByNodeName state.table node,
          state.bag.countP fun held => held.1.node = node⟩ :: state.answers }

def bridgeRefs : Machine (RefState PortNode Nat) BridgeCall := ⟨RefState.start PortNode Nat, bridgeStep⟩

inductive FwdrCall where
  | addRefCount (port : Nat) (uniqName busName : RouterName)
  | decRefCount (port : Nat) (uniqName busName : RouterName)
  | clearRefCountBySrcDBusName (busName : RouterName)
  | clearRefCountByUniqName (uniqName : RouterName)
  | clearRefCountByPortId (port : Nat)
  | getRefCountByPortId (port : Nat)

def fwdrStep (state : RefState PortClient RouterName) (call : FwdrCall) : Option (RefState PortClient RouterName) :=
  match call with
  | .addRefCount port uniqName busName =>
    let done := FwdrRefs.addRefCount state.table port uniqName busName
    some ⟨done.2, heldAfter done.1 (addTo state.bag ⟨port, uniqName⟩ busName) state.bag, state.answers⟩
  | .decRefCount port uniqName busName =>
    let done := FwdrRefs.decRefCount state.table port uniqName busName
    let bag := heldAfter done.1 (dropFrom state.bag ⟨port, uniqName⟩) state.bag
    some ⟨done.2, bag, ⟨some done.1, bag.countP fun held => held.1.port = port⟩ :: state.answers⟩
  | .clearRefCountBySrcDBusName busName =>
    some ⟨(FwdrRefs.clearRefCountBySrcDBusName state.table busName).2,
      state.bag.filter fun held => held.2 ≠ busName, state.answers⟩
  | .clearRefCountByUniqName uniqName =>
    some ⟨(FwdrRefs.clearRefCountByUniqName state.table uniqName).2,
      state.bag.filter fun held => held.1.uniqName ≠ uniqName, state.answers⟩
  | .clearRefCountByPortId port =>
    some ⟨(FwdrRefs.clearRefCountByPortId state.table port).2,
      state.bag.filter fun held => held.1.port ≠ port, state.answers⟩
  | .getRefCountByPortId port =>
    some { state with answers :=
      ⟨some (.ok (FwdrRefs.getRefCountByPortId state.table port)),
        state.bag.countP fun held => held.1.port = port⟩ :: state.answers }

def fwdrRefs : Machine (RefState PortClient RouterName) FwdrCall := ⟨RefState.start PortClient RouterName, fwdrStep⟩

end RpcFrmwrk.Rpc
