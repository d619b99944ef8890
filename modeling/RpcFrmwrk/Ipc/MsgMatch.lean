import RpcFrmwrk.ConfigDb.Lookup
import RpcFrmwrk.ConfigDb.RawReads

/-! The message matches of `CMessageMatch`. A string stands for its bytes. The properties of a match
are those of its configuration, in the order its map visits them. A bus message enters with what the
accessors of `DMsgPtr` return, and a message that is a configuration with what reading its
properties returns. Owns the decisions of a match and its text; `Serialize`, for any order in which
the map of the copy is visited; `Deserialize` with all its accesses. -/

namespace RpcFrmwrk.Ipc

open RpcFrmwrk.Library
open RpcFrmwrk.ConfigDb

def propDestDBusName : Int32 := 0x1002
def propIfName : Int32 := 0x1005
def propObjPath : Int32 := 0x1006
def propMethodName : Int32 := 0x1007

/-- The values of `EnumMatchType` that the methods compare with. -/
def matchServer : UInt32 := 0
def matchClient : UInt32 := 1

/-- The message types of the bus library. -/
def dbusMethodCall : Nat := 1
def dbusMethodReturn : Nat := 2
def dbusError : Nat := 3
def dbusSignal : Nat := 4

def literal (text : String) : List UInt8 := text.toList.map fun char => UInt8.ofNat char.toNat

variable (H : ConfigHost)

/-- `CMessageMatch`. -/
structure MessageMatch where
  objPath : List UInt8
  ifName : List UInt8
  matchType : UInt32
  cfg : List (Int32 × Value H)

variable {H}

/-- What `DMsgPtr` tells of a message. -/
structure BusMessage where
  type : Nat
  interface : List UInt8
  path : List UInt8

/-- What a match reads from a message that is a configuration: the flags of its call options, the
interface and the path. -/
structure CfgMessage where
  callFlags : Except Status UInt32
  ifName : Except Status (List UInt8)
  objPath : Except Status (List UInt8)

/-- A return code, `ERROR_FALSE` among them. -/
inductive Decision where
  | mine
  | notMine
  | error (ret : Status)
deriving DecidableEq, Repr

namespace MessageMatch

/-- `IsMyMsgBasic` of a bus message. -/
def isMyMsgBasic (m : MessageMatch H) (msg : BusMessage) : Decision :=
  if m.ifName = [] ∨ m.objPath = [] then .error .einval
  else if m.ifName ≠ msg.interface then
    if msg.interface = [] then .error .ebadmsg else .notMine
  else if m.objPath ≠ msg.path then .notMine
  else .mine

/-- `IsMyMsgBasic` of a configuration. -/
def isMyCfgBasic (m : MessageMatch H) (msg : CfgMessage) : Decision :=
  if m.ifName = [] ∨ m.objPath = [] then .error .einval
  else
    match msg.ifName with
    | .error ret => .error ret
    | .ok ifName =>
      if m.ifName ≠ ifName then .notMine
      else
        match msg.objPath with
        | .error ret => .error ret
        | .ok objPath => if m.objPath ≠ objPath then .notMine else .mine

def incomingTypes (m : MessageMatch H) : List Nat :=
  if m.matchType = matchClient then [dbusMethodReturn, dbusError, dbusSignal] else [dbusMethodCall]

def outgoingTypes (m : MessageMatch H) : List Nat :=
  if m.matchType = matchClient then [dbusMethodCall] else [dbusSignal, dbusMethodReturn, dbusError]

def isMyMsgOfTypes (m : MessageMatch H) (types : List Nat) : Option BusMessage → Decision
  | none => .error .einval
  | some msg => if msg.type ∈ types then m.isMyMsgBasic msg else .error .enotsup

/-- The type is in the lower bits of the call flags. -/
def isMyCfgOfTypes (m : MessageMatch H) (types : List Nat) : Option CfgMessage → Decision
  | none => .error .einval
  | some msg =>
    match msg.callFlags with
    | .error ret => .error ret
    | .ok flags => if flags.toNat % 8 ∈ types then m.isMyCfgBasic msg else .error .enotsup

/-- `IsMyMsgIncoming`. -/
def isMyMsgIncoming (m : MessageMatch H) : Option BusMessage → Decision := m.isMyMsgOfTypes m.incomingTypes
def isMyCfgIncoming (m : MessageMatch H) : Option CfgMessage → Decision := m.isMyCfgOfTypes m.incomingTypes

/-- `IsMyMsgOutgoing`. -/
def isMyMsgOutgoing (m : MessageMatch H) : Option BusMessage → Decision := m.isMyMsgOfTypes m.outgoingTypes
def isMyCfgOutgoing (m : MessageMatch H) : Option CfgMessage → Decision := m.isMyCfgOfTypes m.outgoingTypes

/-- `GetDest`. -/
def getDest (m : MessageMatch H) : List UInt8 :=
  match getStrProp m.cfg propDestDBusName with
  | .ok dest => dest
  | .error _ => []

/-- The path with dots in place of the slashes. -/
def dotted (m : MessageMatch H) : List UInt8 :=
  m.objPath.map fun byte => if byte = 47 then 46 else byte

/-- `IsMyObjPath`. -/
def isMyObjPath (m : MessageMatch H) (objPath : List UInt8) : Bool := objPath = m.dotted

/-- What `strncmp` sees of a string: up to the terminating zero, `count` bytes at most. -/
def cBytes (text : List UInt8) (count : Nat) : List UInt8 := ((text.takeWhile (· ≠ 0)) ++ [0]).take count

/-- `IsMyDest`. -/
def isMyDest (m : MessageMatch H) (dest : List UInt8) : Bool :=
  if m.getDest ≠ [] then cBytes m.getDest dest.length = cBytes dest dest.length
  else
    let behind := if m.dotted.head? = some 46 then m.dotted.drop 1 else m.dotted
    dest = behind.take dest.length

/-- `ToDBusRules`. -/
def toDBusRules (m : MessageMatch H) (msgType : Nat) : List UInt8 :=
  let rule :=
    if msgType = dbusSignal then literal "type='signal'"
    else if msgType = dbusMethodCall then literal "type='method_call'"
    else if msgType = dbusMethodReturn then literal "type='method_return'"
    else if msgType = dbusError then literal "type='error'"
    else []
  let interface := if m.ifName = [] then [] else literal ",interface='" ++ m.ifName ++ literal "'"
  let path := if m.objPath = [] then [] else literal ",path='" ++ m.objPath ++ literal "'"
  let member :=
    match getStrProp m.cfg propMethodName with
    | .ok name => if name = [] then [] else literal ",member='" ++ name ++ literal "'"
    | .error _ => []
  rule ++ interface ++ path ++ member

/-- `ToString`. -/
def toString (m : MessageMatch H) : List UInt8 :=
  let type :=
    if m.matchType = matchClient then literal "matchClient"
    else if m.matchType = matchServer then literal "matchServer"
    else []
  m.toDBusRules 0 ++ literal ",match=" ++ type

/-- `sizeof( SERI_HEADER )`. -/
def matchHeader : Nat := 16

/-- The configuration that is written: the copy with both names. -/
def named (m : MessageMatch H) : List (Int32 × Value H) :=
  setProperty (setProperty m.cfg propIfName (.string m.ifName)) propObjPath (.string m.objPath)

/-- `SERI_HEADER` in network order. The size counts the bytes behind `SERI_HEADER_BASE`. -/
def seriHeaderOf (own : UInt32) (cfgSize : Nat) (matchType : UInt32) : List UInt8 :=
  toBE 4 own.toNat ++ toBE 4 (cfgSize + matchHeader - seriHeaderBase) ++ [1, 0, 0, 0] ++ toBE 4 matchType.toNat

/-- `Serialize` into an empty buffer. `visited` is the copy in the order its map visits it, and
`own` the class id. -/
def serialize (own : UInt32) (m : MessageMatch H) (visited : List (Int32 × Value H)) : Option (List UInt8) :=
  (ConfigDb.serialize visited).bind fun cfg =>
    (appendBuf [] (seriHeaderOf own cfg.length m.matchType)).bind fun buf => appendBuf buf cfg

/-- `iMatchType` of a header. -/
def hdrMatchType (hdr : List UInt8) : UInt32 := UInt32.ofNat (ofBE ((hdr.drop 12).take 4))

/-- What `Deserialize` makes of the configuration. The result of the block is not that of the
method: where a name is missing the method returns success. -/
def restore (before : MessageMatch H) (hdr : List UInt8) (cfg : List (Int32 × Value H)) : MessageMatch H :=
  match getStrProp cfg propIfName with
  | .error _ => { before with cfg := cfg }
  | .ok ifName =>
    match getStrProp cfg propObjPath with
    | .error _ => { before with cfg := cfg, ifName := ifName }
    | .ok objPath => ⟨objPath, ifName, hdrMatchType hdr, cfg⟩

/-- The configuration behind the header is told the size in the header. -/
def readCfg (L : Loader H) (hdr : List UInt8) : Reading Status (List (Int32 × Value H)) :=
  Raw.deserializeConfig L (Raw.hdrSize hdr + 1) matchHeader (Raw.hdrSize hdr)

/-- `Deserialize( pBuf, dwSize )`, offsets counted from `pBuf`. The size is not used: the header is
read at once, and so is the configuration. -/
def deserialize (L : Loader H) (own : UInt32) (before : MessageMatch H) :
    Reading Status (MessageMatch H) := do
  let hdr ← .bytes 0 matchHeader
  if Raw.hdrClsid hdr ≠ own.toNat then .fail .einval
  else do
    let cfg ← readCfg L hdr
    pure (before.restore hdr cfg)

end MessageMatch

end RpcFrmwrk.Ipc
