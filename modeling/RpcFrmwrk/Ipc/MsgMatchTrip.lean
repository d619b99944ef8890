import Mathlib.Data.List.Permutation
import RpcFrmwrk.ConfigDb.RawAgrees
import RpcFrmwrk.ConfigDb.ReadReach
import RpcFrmwrk.Ipc.MsgMatch

/-! Message matches that survive, and bytes that are safe to read as one. Owns `Alike`, the matches
that decide every message the same way and have one text; that a portable match comes back as one
that is alike, whatever is behind its bytes; when the reader stays inside its bytes and reports
every failure. -/

namespace RpcFrmwrk.Ipc

open RpcFrmwrk.Library Reading List
open RpcFrmwrk.ConfigDb

variable {H : ConfigHost}

namespace MessageMatch

/-! ### Matches that are alike -/

/-- One text, and one answer to every message. -/
structure Alike (left right : MessageMatch H) : Prop where
  text : left.toString = right.toString
  matchType : left.matchType = right.matchType
  incoming : ∀ msg, left.isMyMsgIncoming msg = right.isMyMsgIncoming msg
  outgoing : ∀ msg, left.isMyMsgOutgoing msg = right.isMyMsgOutgoing msg
  incomingCfg : ∀ msg, left.isMyCfgIncoming msg = right.isMyCfgIncoming msg
  outgoingCfg : ∀ msg, left.isMyCfgOutgoing msg = right.isMyCfgOutgoing msg
  dest : ∀ dest, left.isMyDest dest = right.isMyDest dest
  path : ∀ objPath, left.isMyObjPath objPath = right.isMyObjPath objPath

theorem alike_of_same {left right : MessageMatch H} (objPath : left.objPath = right.objPath)
    (ifName : left.ifName = right.ifName) (matchType : left.matchType = right.matchType)
    (method : getStrProp left.cfg propMethodName = getStrProp right.cfg propMethodName)
    (dest : getStrProp left.cfg propDestDBusName = getStrProp right.cfg propDestDBusName) :
    left.Alike right := by
  have basic : ∀ msg, left.isMyMsgBasic msg = right.isMyMsgBasic msg := by
    intro msg
    unfold isMyMsgBasic
    rw [objPath, ifName]
  have cfgBasic : ∀ msg, left.isMyCfgBasic msg = right.isMyCfgBasic msg := by
    intro msg
    unfold isMyCfgBasic
    rw [objPath, ifName]
  have ofTypes : ∀ types msg, left.isMyMsgOfTypes types msg = right.isMyMsgOfTypes types msg := by
    intro types msg
    cases msg with
    | none => rfl
    | some msg => rw [isMyMsgOfTypes, isMyMsgOfTypes, basic]
  have cfgOfTypes : ∀ types msg, left.isMyCfgOfTypes types msg = right.isMyCfgOfTypes types msg := by
    intro types msg
    cases msg with
    | none => rfl
    | some msg => rw [isMyCfgOfTypes, isMyCfgOfTypes, cfgBasic]
  have incomingTypes : left.incomingTypes = right.incomingTypes := by
    rw [MessageMatch.incomingTypes, MessageMatch.incomingTypes, matchType]
  have outgoingTypes : left.outgoingTypes = right.outgoingTypes := by
    rw [MessageMatch.outgoingTypes, MessageMatch.outgoingTypes, matchType]
  have dotted : left.dotted = right.dotted := by
    rw [MessageMatch.dotted, MessageMatch.dotted, objPath]
  have getDest : left.getDest = right.getDest := by
    rw [MessageMatch.getDest, MessageMatch.getDest, dest]
  constructor
  case text =>
    unfold MessageMatch.toString toDBusRules
    rw [objPath, ifName, matchType, method]
  case matchType => exact matchType
  case incoming =>
    intro msg
    rw [isMyMsgIncoming, isMyMsgIncoming, incomingTypes, ofTypes]
  case outgoing =>
    intro msg
    rw [isMyMsgOutgoing, isMyMsgOutgoing, outgoingTypes, ofTypes]
  case incomingCfg =>
    intro msg
    rw [isMyCfgIncoming, isMyCfgIncoming, incomingTypes, cfgOfTypes]
  case outgoingCfg =>
    intro msg
    rw [isMyCfgOutgoing, isMyCfgOutgoing, outgoingTypes, cfgOfTypes]
  case dest =>
    intro dest
    rw [isMyDest, isMyDest, getDest, dotted]
  case path =>
    intro objPath
    rw [isMyObjPath, isMyObjPath, dotted]

/-- A match whose configuration is a map that the reader takes back, with both names in it: no null
object and no empty byte array at any depth, messages that the bus library takes back, no more
than `CFGDB_MAX_ITEM` properties, and buffers within their limit in whatever order it is visited. -/
structure Portable (m : MessageMatch H) : Prop where
  map : DistinctProps m.cfg
  carried : CarriedProps m.named
  few : m.named.length ≤ cfgdbMaxItem
  fits : ∀ visited : List (Int32 × Value H), visited.Perm m.named → Fits visited
  small : matchHeader + (16 + sizeProps m.named) ≤ maxBytesPerBuffer

/-- In whatever order the map is visited `Serialize` succeeds, and wherever its bytes are the first
ones, `Deserialize` yields a match that is alike. -/
def RoundTrips (L : Loader H) (own : UInt32) (m : MessageMatch H) : Prop :=
  ∀ visited : List (Int32 × Value H), visited.Perm m.named →
    ∃ bytes, m.serialize own visited = some bytes ∧
      ∀ memory, bytesFrom memory 0 bytes.length = bytes → ∀ before,
        ∃ back, (deserialize L own before).Yields memory back ∧ m.Alike back

section

variable {L : Loader H} {own : UInt32} {m : MessageMatch H} {visited : List (Int32 × Value H)}

theorem length_seriHeaderOf (cfgSize : Nat) (matchType : UInt32) :
    (seriHeaderOf own cfgSize matchType).length = matchHeader := by
  simp only [seriHeaderOf, length_append, length_toBE, length_cons, length_nil, matchHeader]

theorem seriHeaderOf_fields {cfgSize : Nat} (small : cfgSize + 4 < 2 ^ 32) (matchType : UInt32) :
    Raw.hdrClsid (seriHeaderOf own cfgSize matchType) = own.toNat ∧
      Raw.hdrSize (seriHeaderOf own cfgSize matchType) = cfgSize + 4 ∧
      hdrMatchType (seriHeaderOf own cfgSize matchType) = matchType := by
  have size : cfgSize + matchHeader - seriHeaderBase = cfgSize + 4 := by
    unfold matchHeader seriHeaderBase
    omega
  have parts : seriHeaderOf own cfgSize matchType =
      toBE 4 own.toNat ++ (toBE 4 (cfgSize + 4) ++ ([1, 0, 0, 0] ++ toBE 4 matchType.toNat)) := by
    rw [seriHeaderOf, size, append_assoc, append_assoc]
  have behind : (seriHeaderOf own cfgSize matchType).drop 12 = toBE 4 matchType.toNat := by
    rw [parts, show 12 = 4 + (4 + 4) from rfl, ← drop_drop, drop_left' (length_toBE 4 _),
      ← drop_drop, drop_left' (length_toBE 4 _)]
    rfl
  obtain ⟨id, words⟩ := frame_fields own.toNat (cfgSize + 4) (UInt32.toNat_lt own) small
    ([1, 0, 0, 0] ++ toBE 4 matchType.toNat)
  refine ⟨?_, ?_, ?_⟩
  · rw [Raw.hdrClsid, parts]
    exact id
  · rw [Raw.hdrSize, parts]
    exact words
  · rw [hdrMatchType, behind, take_of_length_le (length_toBE 4 _).le,
      ofBE_toBE_of_lt (UInt32.toNat_lt matchType), UInt32.ofNat_toNat]

theorem portable_serialize (portable : m.Portable) (perm : visited.Perm m.named) :
    m.serialize own visited =
      some (seriHeaderOf own (16 + sizeProps m.named) m.matchType ++ (Value.config visited).layout) := by
  have carried : CarriedProps visited :=
    carriedProps_iff.2 fun prop member => carriedProps_iff.1 portable.carried prop (perm.mem_iff.1 member)
  have written := serialize_carried (perm.length_eq.trans_le portable.few) (portable.fits visited perm) carried
  have length : ((Value.config visited).layout).length = 16 + sizeProps m.named := by
    rw [Value.length_layout, Value.size, sizeProps_perm perm]
  have small := portable.small
  have header := @length_seriHeaderOf own (16 + sizeProps m.named) m.matchType
  have headerSome : seriHeaderOf own (16 + sizeProps m.named) m.matchType ≠ [] :=
    ne_nil_of_length_pos (by rw [header]; decide)
  have layoutSome : (Value.config visited).layout ≠ [] := ne_nil_of_length_pos (by omega)
  rw [serialize, written, Option.bind_some, length]
  rw [appendBuf_of_fits headerSome (by rw [header, length_nil]; omega), Option.bind_some, nil_append]
  exact appendBuf_of_fits layoutSome (by omega)

theorem portable_names (portable : m.Portable) (perm : visited.Perm m.named) (key : Int32) :
    getStrProp (restoredProps visited) key = getStrProp m.named key := by
  have distinct : DistinctProps m.named :=
    distinct_setProperty (distinct_setProperty portable.map trivial) trivial
  rw [getStrProp_restored, getStrProp, lookup_perm (distinctProps_iff.1 distinct).1 perm, getStrProp]

theorem getStrProp_named (m : MessageMatch H) (key : Int32) :
    getStrProp m.named key =
      if propObjPath = key then .ok m.objPath
      else if propIfName = key then .ok m.ifName
      else getStrProp m.cfg key := by
  unfold getStrProp named
  rw [lookup_setProperty, lookup_setProperty]
  by_cases path : propObjPath = key
  · rw [if_pos path, if_pos path]
  · rw [if_neg path, if_neg path]
    by_cases name : propIfName = key
    · rw [if_pos name, if_pos name]
    · rw [if_neg name, if_neg name]

theorem roundTrips_of_portable (faithful : L.Faithful) (portable : m.Portable) : m.RoundTrips L own := by
  intro visited perm
  have small := portable.small
  have limit : maxBytesPerBuffer + 4 < 2 ^ 32 := by decide
  have distinct : DistinctProps visited := by
    have named : DistinctProps m.named :=
      distinct_setProperty (distinct_setProperty portable.map trivial) trivial
    obtain ⟨nodup, values⟩ := distinctProps_iff.1 named
    exact distinctProps_iff.2 ⟨(perm.map Prod.fst).nodup_iff.2 nodup,
      fun prop member => values prop (perm.mem_iff.1 member)⟩
  have carried : CarriedProps visited :=
    carriedProps_iff.2 fun prop member => carriedProps_iff.1 portable.carried prop (perm.mem_iff.1 member)
  have size := sizeProps_perm perm
  refine ⟨_, portable_serialize portable perm, fun memory stands before => ?_⟩
  have header := @length_seriHeaderOf own (16 + sizeProps m.named) m.matchType
  have length : ((Value.config visited).layout).length = 16 + sizeProps m.named := by
    rw [Value.length_layout, Value.size, size]
  rw [length_append, header, bytesFrom_add] at stands
  obtain ⟨isHeader, isLayout⟩ := append_inj stands (by rw [length_bytesFrom, header])
  obtain ⟨clsid, hdrSize, matchType⟩ :=
    @seriHeaderOf_fields own (16 + sizeProps m.named) (by omega) m.matchType
  have told : bytesFrom memory matchHeader (16 + sizeProps m.named + 4) =
      (Value.config visited).layout ++ bytesFrom memory (matchHeader + (16 + sizeProps m.named)) 4 := by
    rw [length, Nat.zero_add] at isLayout
    rw [bytesFrom_add, isLayout]
  have read := @deserialize_restored H ⟨visited, distinct⟩ (perm.length_eq.trans_le portable.few)
    carried (by rw [size]; unfold matchHeader at small; omega)
    (bytesFrom memory (matchHeader + (16 + sizeProps m.named)) 4)
  dsimp only at read
  rw [← told] at read
  have yields := Raw.yields_of_deserialize faithful read
  have ifName : getStrProp (restoredProps visited) propIfName = .ok m.ifName := by
    rw [portable_names portable perm, getStrProp_named, if_neg (by decide), if_pos rfl]
  have objPath : getStrProp (restoredProps visited) propObjPath = .ok m.objPath := by
    rw [portable_names portable perm, getStrProp_named, if_pos rfl]
  refine ⟨⟨m.objPath, m.ifName, m.matchType, restoredProps visited⟩, ?_, ?_⟩
  · unfold deserialize
    rw [yields_bind]
    refine ⟨_, (yields_bytes _ _ _).2 isHeader, ?_⟩
    rw [if_neg (Decidable.not_not.2 clsid), yields_bind, readCfg, hdrSize]
    refine ⟨_, yields, ?_⟩
    rw [yields_pure, restore, ifName]
    dsimp only
    rw [objPath, matchType]
  · refine alike_of_same rfl rfl rfl ?_ ?_
    · dsimp only
      rw [portable_names portable perm, getStrProp_named, if_neg (by decide), if_neg (by decide)]
    · dsimp only
      rw [portable_names portable perm, getStrProp_named, if_neg (by decide), if_neg (by decide)]

/-! ### Bytes that are read as a match -/

def HasNames (cfg : List (Int32 × Value H)) : Prop :=
  (∃ ifName, getStrProp cfg propIfName = .ok ifName) ∧ ∃ objPath, getStrProp cfg propObjPath = .ok objPath

/-- A match that has what is in its header and its configuration. -/
structure Filled (hdr : List UInt8) (m : MessageMatch H) : Prop where
  ifName : getStrProp m.cfg propIfName = .ok m.ifName
  objPath : getStrProp m.cfg propObjPath = .ok m.objPath
  matchType : m.matchType = hdrMatchType hdr

/-- `Deserialize` reads nothing behind its bytes, and it ends with an error or with a match that is
filled. -/
structure SafeMatch (L : Loader H) (own : UInt32) (memory : Nat → UInt8) (dwSize : Nat)
    (before : MessageMatch H) : Prop where
  within : (deserialize L own before).Within dwSize memory
  outcome : (∃ ret, (deserialize L own before).Fails memory ret ∧ ret.failed = true) ∨
    ∃ back, (deserialize L own before).Yields memory back ∧ back.Filled (bytesFrom memory 0 matchHeader)

/-- The header is there; behind one of this class everything is inside that the configuration comes
to, and a configuration that stands there holds both names. -/
def MatchFits (L : Loader H) (own : UInt32) (memory : Nat → UInt8) (dwSize : Nat) : Prop :=
  matchHeader ≤ dwSize ∧
    (Raw.hdrClsid (bytesFrom memory 0 matchHeader) = own.toNat →
      Raw.Reach L memory dwSize (Raw.hdrSize (bytesFrom memory 0 matchHeader) + 1) matchHeader
          (Raw.hdrSize (bytesFrom memory 0 matchHeader)) ∧
        ∀ cfg, (readCfg L (bytesFrom memory 0 matchHeader)).Yields memory cfg → HasNames cfg)

section

variable {memory : Nat → UInt8} {dwSize : Nat} {before : MessageMatch H}

theorem filled_restore_iff (hdr : List UInt8) (cfg : List (Int32 × Value H)) :
    (before.restore hdr cfg).Filled hdr ↔ HasNames cfg := by
  unfold restore
  cases name : getStrProp cfg propIfName with
  | error ret =>
    constructor
    · intro filled
      have never := filled.ifName
      dsimp only at never
      rw [name] at never
      cases never
    · rintro ⟨⟨ifName, never⟩, -⟩
      rw [name] at never
      cases never
  | ok ifName =>
    dsimp only
    cases path : getStrProp cfg propObjPath with
    | error ret =>
      constructor
      · intro filled
        have never := filled.objPath
        dsimp only at never
        rw [path] at never
        cases never
      · rintro ⟨-, objPath, never⟩
        rw [path] at never
        cases never
    | ok objPath => exact ⟨fun _ => ⟨⟨ifName, name⟩, objPath, path⟩, fun _ => ⟨name, path, rfl⟩⟩

theorem within_deserialize :
    (deserialize L own before).Within dwSize memory ↔
      matchHeader ≤ dwSize ∧ (Raw.hdrClsid (bytesFrom memory 0 matchHeader) = own.toNat →
        Raw.Reach L memory dwSize (Raw.hdrSize (bytesFrom memory 0 matchHeader) + 1) matchHeader
          (Raw.hdrSize (bytesFrom memory 0 matchHeader))) := by
  have header : (bytes 0 matchHeader : Reading Status _).Within dwSize memory ↔ matchHeader ≤ dwSize := by
    rw [within_bytes, Nat.zero_add]
    exact or_iff_right (by decide)
  rw [deserialize, within_bind, header, ← Raw.within_reach]
  refine and_congr_right fun _ => ⟨fun reads same => ?_, fun reads hdr isHdr => ?_⟩
  · have behind := reads _ ((yields_bytes _ _ _).2 rfl)
    rw [if_neg (Decidable.not_not.2 same), within_bind] at behind
    exact behind.1
  · rw [← (yields_bytes _ _ _).1 isHdr]
    by_cases same : Raw.hdrClsid (bytesFrom memory 0 matchHeader) = own.toNat
    · rw [if_neg (Decidable.not_not.2 same), within_bind]
      exact ⟨reads same, fun cfg _ => within_pure _⟩
    · rw [if_pos same]
      exact within_fail _

theorem failing_deserialize (L : Loader H) (own : UInt32) (before : MessageMatch H) :
    Raw.Failing (deserialize L own before) := by
  unfold deserialize
  refine .bind (.bytes _ _) fun hdr => ?_
  exact .ite (fun _ => .fail rfl) fun _ => .bind (Raw.failing_config _ _ _) fun _ => .pure _

theorem yields_deserialize {back : MessageMatch H} :
    (deserialize L own before).Yields memory back ↔
      Raw.hdrClsid (bytesFrom memory 0 matchHeader) = own.toNat ∧
        ∃ cfg, (readCfg L (bytesFrom memory 0 matchHeader)).Yields memory cfg ∧
          before.restore (bytesFrom memory 0 matchHeader) cfg = back := by
  rw [deserialize, yields_bind]
  constructor
  · rintro ⟨hdr, isHdr, behind⟩
    rw [← (yields_bytes _ _ _).1 isHdr] at behind
    by_cases same : Raw.hdrClsid (bytesFrom memory 0 matchHeader) = own.toNat
    · rw [if_neg (Decidable.not_not.2 same), yields_bind] at behind
      obtain ⟨cfg, yields, isBack⟩ := behind
      exact ⟨same, cfg, yields, (yields_pure _ _).1 isBack⟩
    · rw [if_pos same] at behind
      exact absurd behind (not_yields_fail _ _)
  · rintro ⟨same, cfg, yields, isBack⟩
    refine ⟨_, (yields_bytes _ _ _).2 rfl, ?_⟩
    rw [if_neg (Decidable.not_not.2 same), yields_bind]
    exact ⟨cfg, yields, (yields_pure _ _).2 isBack⟩

theorem safeMatch_iff : (∀ before, SafeMatch L own memory dwSize before) ↔ MatchFits L own memory dwSize := by
  constructor
  · intro safe
    obtain ⟨within, outcome⟩ := safe ⟨[], [], 0, []⟩
    obtain ⟨header, reach⟩ := within_deserialize.1 within
    refine ⟨header, fun same => ⟨reach same, fun cfg yields => ?_⟩⟩
    have returns : (deserialize L own ⟨[], [], 0, []⟩).Yields memory _ :=
      yields_deserialize.2 ⟨same, cfg, yields, rfl⟩
    rcases outcome with ⟨ret, fails, -⟩ | ⟨back, again, filled⟩
    · rw [Yields] at returns
      rw [Fails, returns] at fails
      cases fails
    · have isBack : _ = back := Except.ok.inj (returns.symm.trans again)
      rw [← isBack, filled_restore_iff] at filled
      exact filled
  · rintro ⟨header, fits⟩ before
    refine ⟨within_deserialize.2 ⟨header, fun same => (fits same).1⟩, ?_⟩
    rcases (deserialize L own before).yields_or_fails memory with ⟨back, returns⟩ | ⟨ret, fails⟩
    · obtain ⟨same, cfg, yields, isBack⟩ := yields_deserialize.1 returns
      refine Or.inr ⟨back, returns, ?_⟩
      rw [← isBack, filled_restore_iff]
      exact (fits same).2 cfg yields
    · exact Or.inl ⟨ret, fails, failing_deserialize L own before memory ret fails⟩

end

end

/-- A portable match comes back as one that is alike, and `Deserialize` is safe exactly on the bytes
that fit. -/
theorem matches_right (L : Loader H) (faithful : L.Faithful) (own : UInt32) :
    (∀ m : MessageMatch H, m.Portable → m.RoundTrips L own) ∧
      ∀ memory dwSize, (∀ before, SafeMatch L own memory dwSize before) ↔ MatchFits L own memory dwSize :=
  ⟨fun _ portable => roundTrips_of_portable faithful portable, fun _ _ => safeMatch_iff⟩

theorem faithful_bareLoader : bareLoader.Faithful := by
  intro clsid pLoc len memory obj made
  cases made

def clientMatch : MessageMatch bareHost := ⟨[47], [65], matchClient, []⟩

theorem portable_clientMatch : clientMatch.Portable := by
  refine ⟨trivial, ⟨trivial, trivial, trivial⟩, by decide, fun visited perm => ?_, by decide⟩
  rcases perm_pair.1 perm with forward | backward
  · subst forward
    unfold Fits
    decide
  · subst backward
    unfold Fits
    decide

/-- The header of a match of class 7, and a configuration without a property behind it. -/
def namelessBytes (offset : Nat) : UInt8 :=
  [0, 0, 0, 7, 0, 0, 0, 20, 1, 0, 0, 0, 0, 0, 0, 1, 0, 0, 9, 0x17, 0, 0, 0, 4, 2, 0, 0, 0, 0, 0, 0, 0].getD offset 0

/-- The match of a client survives, and bytes of another class are safe. -/
theorem matches_right_clientMatch : clientMatch.RoundTrips bareLoader 7 ∧
    ∀ before, SafeMatch bareLoader 8 namelessBytes 32 before :=
  ⟨(matches_right bareLoader faithful_bareLoader 7).1 clientMatch portable_clientMatch,
    ((matches_right bareLoader faithful_bareLoader 8).2 namelessBytes 32).2 ⟨by decide, fun same =>
      absurd same (by decide)⟩⟩

/-- A configuration without names makes a match without names. -/
theorem nameless_accepted : ¬ ∀ (H : ConfigHost) (L : Loader H), L.Faithful → ∀ own : UInt32,
    (∀ m : MessageMatch H, DistinctProps m.cfg → m.RoundTrips L own) ∧
      ∀ memory dwSize (before : MessageMatch H), SafeMatch L own memory dwSize before := by
  intro all
  have safe := (all bareHost bareLoader faithful_bareLoader 7).2 namelessBytes 32 clientMatch
  have parts : bytesFrom namelessBytes matchHeader 20 =
      (Value.config (H := bareHost) []).layout ++ [0, 0, 0, 0] := by
    decide +kernel
  have empty : ConfigDb.deserialize (H := bareHost) (bytesFrom namelessBytes matchHeader 20) = some [] := by
    rw [parts]
    exact @deserialize_restored bareHost ⟨[], trivial⟩ (Nat.zero_le _) trivial (by decide) [0, 0, 0, 0]
  have size : Raw.hdrSize (bytesFrom namelessBytes 0 matchHeader) = 20 := by decide
  have read : (readCfg bareLoader (bytesFrom namelessBytes 0 matchHeader)).Yields namelessBytes [] := by
    rw [readCfg, size]
    exact Raw.yields_of_deserialize faithful_bareLoader empty
  have returns : (deserialize bareLoader 7 clientMatch).Yields namelessBytes clientMatch :=
    yields_deserialize.2 ⟨by decide, [], read, rfl⟩
  rcases safe.outcome with ⟨ret, fails, -⟩ | ⟨back, again, filled⟩
  · rw [Yields] at returns
    rw [Fails, returns] at fails
    cases fails
  · have isBack : clientMatch = back := Except.ok.inj (returns.symm.trans again)
    rw [← isBack] at filled
    cases filled.ifName

end MessageMatch

end RpcFrmwrk.Ipc
