import RpcFrmwrk.ConfigDb.ReadBounds

/-! The two readers of a configuration. What `deserialize` makes of a list of bytes the reader of
memory makes of these bytes wherever they stand, and with other bytes behind them. Owns the loaders
that make the objects the classes make; `Raw.yields_of_deserialize`; what is read of a configuration
that was written. -/

namespace RpcFrmwrk.ConfigDb

open RpcFrmwrk.Library Reading List

variable {H : ConfigHost}

/-- An object that a class makes of its bytes is what the loader makes of them in memory. -/
def Loader.Faithful (L : Loader H) : Prop :=
  ∀ {clsid pLoc len : Nat} {memory : Nat → UInt8} {obj : H.Obj},
    H.newObj clsid (bytesFrom memory pLoc len) = some obj → (L.newObj clsid pLoc len).Yields memory obj

namespace Raw

variable {L : Loader H} {memory : Nat → UInt8} {pLoc pEnd : Nat}

/-! ### Words and bytes -/

variable {rest : List UInt8} {found : List UInt8 → Option (List (Int32 × Value H))}
    {nested : Nat → Nat → Reading Status (List (Int32 × Value H))} {pBuf len : Nat}
    {props : List (Int32 × Value H)}

theorem split_bytesFrom {count : Nat} (room : pLoc ≤ pEnd) {front : List UInt8}
    (found : split count (bytesFrom memory pLoc (pEnd - pLoc)) = some (front, rest)) :
    pLoc + count ≤ pEnd ∧ front = bytesFrom memory pLoc count ∧
      rest = bytesFrom memory (pLoc + count) (pEnd - (pLoc + count)) := by
  rw [split, length_bytesFrom] at found
  split at found
  · cases found
  next enough =>
    cases found
    refine ⟨by omega, ?_, ?_⟩
    · rw [take_bytesFrom (by omega)]
    · rw [drop_bytesFrom, Nat.sub_sub]

theorem readWord_bytesFrom {width word : Nat} (room : pLoc ≤ pEnd)
    (found : readWord width (bytesFrom memory pLoc (pEnd - pLoc)) = some (word, rest)) :
    pLoc + width ≤ pEnd ∧ word = wordFrom memory pLoc width ∧
      rest = bytesFrom memory (pLoc + width) (pEnd - (pLoc + width)) := by
  rw [readWord, Option.map_eq_some_iff] at found
  obtain ⟨⟨front, behind⟩, cut, same⟩ := found
  obtain ⟨inside, isFront, isRest⟩ := split_bytesFrom room cut
  cases same
  exact ⟨inside, by rw [isFront, wordFrom], isRest⟩

theorem readBytes_bytesFrom (room : pLoc ≤ pEnd) {value : List UInt8}
    (found : readBytes (bytesFrom memory pLoc (pEnd - pLoc)) = some (value, rest)) :
    pLoc + 4 + wordFrom memory pLoc 4 ≤ pEnd ∧ value = bytesFrom memory (pLoc + 4) (wordFrom memory pLoc 4) ∧
      rest = bytesFrom memory (pLoc + 4 + wordFrom memory pLoc 4) (pEnd - (pLoc + 4 + wordFrom memory pLoc 4)) := by
  unfold readBytes at found
  split at found
  · cases found
  next len behind word =>
    obtain ⟨inside, isLen, isBehind⟩ := readWord_bytesFrom room word
    rw [isBehind, isLen] at found
    exact split_bytesFrom inside found

/-- A reader of memory that starts at `pLoc` follows one of the bytes from there to `pEnd`. -/
def Follows {α : Type} (memory : Nat → UInt8) (pLoc pEnd : Nat) (found : Option (α × List UInt8))
    (reads : Reading Status (α × Nat)) : Prop :=
  ∀ value rest, found = some (value, rest) →
    ∃ next, pLoc ≤ next ∧ next ≤ pEnd ∧ rest = bytesFrom memory next (pEnd - next) ∧
      reads.Yields memory (value, next)

theorem follows_number (room : pLoc ≤ pEnd) (width : Nat) (variant : Nat → Value H) :
    Follows memory pLoc pEnd
      ((readWord width (bytesFrom memory pLoc (pEnd - pLoc))).map fun (word, rest) => (variant word, rest))
      (deserializeNumber width variant pLoc) := by
  intro value rest found
  obtain ⟨⟨word, behind⟩, read, same⟩ := Option.map_eq_some_iff.1 found
  obtain ⟨inside, isWord, isRest⟩ := readWord_bytesFrom room read
  cases same
  refine ⟨pLoc + width, by omega, inside, isRest, ?_⟩
  rw [isWord]
  simp [deserializeNumber]

theorem yields_length (inside : pLoc + 4 ≤ pEnd) :
    (readLength pEnd pLoc).Yields memory (wordFrom memory pLoc 4) := by
  rw [readLength, if_neg (by omega), yields_word]

theorem follows_string (room : pLoc ≤ pEnd) :
    Follows memory pLoc pEnd
      ((readBytes (bytesFrom memory pLoc (pEnd - pLoc))).map fun (value, rest) => (Value.string value, rest))
      (deserializeString (H := H) pEnd pLoc) := by
  intro value rest found
  obtain ⟨⟨bytes, behind⟩, read, same⟩ := Option.map_eq_some_iff.1 found
  obtain ⟨inside, isBytes, isRest⟩ := readBytes_bytesFrom room read
  cases same
  refine ⟨pLoc + 4 + wordFrom memory pLoc 4, by omega, inside, isRest, ?_⟩
  unfold deserializeString
  rw [yields_bind]
  refine ⟨_, yields_length (by omega), ?_⟩
  by_cases empty : wordFrom memory pLoc 4 = 0
  · rw [if_pos empty, yields_pure, isBytes, empty]
    rfl
  · rw [if_neg empty, if_neg (by omega), yields_bind]
    refine ⟨_, (yields_bytes _ _ _).2 rfl, ?_⟩
    rw [yields_pure, isBytes]

theorem follows_byteArr (room : pLoc ≤ pEnd) :
    Follows memory pLoc pEnd
      ((readByteArr (bytesFrom memory pLoc (pEnd - pLoc))).map fun (value, rest) => (Value.byteArr value, rest))
      (deserializeByteArr (H := H) pEnd pLoc) := by
  intro value rest found
  obtain ⟨⟨bytes, behind⟩, read, ⟨⟩⟩ := Option.map_eq_some_iff.1 found
  unfold readByteArr at read
  split at read
  · cases read
  next front behind whole =>
    split at read
    · cases read
    next granted =>
      cases read
      obtain ⟨inside, isBytes, isRest⟩ := readBytes_bytesFrom room whole
      rw [isBytes, length_bytesFrom] at granted
      refine ⟨pLoc + 4 + wordFrom memory pLoc 4, by omega, inside, isRest, ?_⟩
      unfold deserializeByteArr
      rw [yields_bind]
      refine ⟨_, yields_length (by omega), ?_⟩
      rw [if_neg (by omega), if_neg granted, yields_bind]
      refine ⟨_, (yields_bytes _ _ _).2 rfl, ?_⟩
      rw [yields_pure, isBytes]

theorem yields_message {msg : H.Msg} {max : Nat} (room : pLoc ≤ pEnd)
    (read : ConfigDb.deserializeMsg max (bytesFrom memory pLoc (pEnd - pLoc)) = some msg) :
    (deserializeMsg L pLoc max).Yields memory msg := by
  unfold ConfigDb.deserializeMsg at read
  split at read
  · cases read
  next size behind word =>
    obtain ⟨inside, isSize, isBehind⟩ := readWord_bytesFrom room word
    split at read
    · cases read
    next taken =>
      rw [isBehind] at read
      split at read
      · cases read
      next bytes rest cut =>
        obtain ⟨-, isBytes, -⟩ := split_bytesFrom inside cut
        unfold deserializeMsg
        rw [yields_bind]
        refine ⟨size, (yields_word _ _ _).2 isSize.symm, ?_⟩
        rw [if_neg taken, yields_bind]
        refine ⟨bytes, (yields_bytes _ _ _).2 isBytes.symm, ?_⟩
        rw [yields_ofOption]
        exact read

theorem follows_value (faithful : L.Faithful)
    (agrees : ∀ pLoc len props, found (bytesFrom memory pLoc len) = some props →
      (nested pLoc len).Yields memory props)
    (room : pLoc ≤ pEnd) (byType : UInt8) :
    Follows memory pLoc pEnd
      (ConfigDb.deserializeValue found byType (bytesFrom memory pLoc (pEnd - pLoc)))
      (deserializeValue L nested pEnd byType pLoc) := by
  unfold ConfigDb.deserializeValue
  split
  case h_1 =>
    rw [deserializeValue]
    exact follows_number room 1 fun val => .byte (UInt8.ofNat val)
  case h_2 =>
    rw [deserializeValue]
    exact follows_number room 2 fun val => .uint16 (UInt16.ofNat val)
  case h_3 =>
    rw [deserializeValue]
    exact follows_number room 4 fun val => .uint32 (UInt32.ofNat val)
  case h_4 =>
    rw [deserializeValue]
    exact follows_number room 8 fun val => .uint64 (UInt64.ofNat val)
  case h_5 =>
    rw [deserializeValue]
    exact follows_number room 4 fun val => .float (UInt32.ofNat val)
  case h_6 =>
    rw [deserializeValue]
    exact follows_number room 8 fun val => .double (UInt64.ofNat val)
  case h_7 =>
    rw [deserializeValue]
    exact follows_string room
  case h_8 =>
    rw [deserializeValue]
    intro value rest read
    split at read
    · cases read
    next len behind word =>
      obtain ⟨inside, isLen, isBehind⟩ := readWord_bytesFrom room word
      rw [isBehind] at read
      split at read
      · cases read
      next front rest cut =>
        obtain ⟨whole, -, isRest⟩ := split_bytesFrom inside cut
        obtain ⟨msg, message, ⟨⟩⟩ := Option.map_eq_some_iff.1 read
        rw [isLen] at whole isRest message
        refine ⟨pLoc + 4 + wordFrom memory pLoc 4, by omega, whole, isRest, ?_⟩
        unfold deserializeDMsg
        rw [yields_bind]
        refine ⟨_, yields_length inside, ?_⟩
        rw [if_neg (by omega), yields_bind]
        exact ⟨msg, yields_message inside message, rfl⟩
  case h_9 =>
    rw [deserializeValue]
    intro value rest read
    unfold ConfigDb.deserializeObj at read
    rw [length_bytesFrom] at read
    split at read
    · cases read
    next header =>
      have isHdr : (bytesFrom memory pLoc (pEnd - pLoc)).take 12 = bytesFrom memory pLoc seriHeaderBase :=
        take_bytesFrom (by unfold seriHeaderBase at header; omega)
      have clsid : ofBE ((bytesFrom memory pLoc (pEnd - pLoc)).take 4) =
          hdrClsid (bytesFrom memory pLoc seriHeaderBase) := by
        rw [hdrClsid, ← isHdr, take_take]
        rfl
      have size : (ofBE (((bytesFrom memory pLoc (pEnd - pLoc)).drop 4).take 4) + seriHeaderBase) % 2 ^ 32 =
          objLen (bytesFrom memory pLoc seriHeaderBase) := by
        rw [objLen, hdrSize, ← isHdr, drop_take, take_take]
        rfl
      dsimp only at read
      rw [clsid, size] at read
      split at read
      · cases read
      next object behind cut =>
        obtain ⟨inside, isObject, isRest⟩ := split_bytesFrom room cut
        unfold deserializeObj
        by_cases null : objLen (bytesFrom memory pLoc seriHeaderBase) = 0 ∨
            hdrClsid (bytesFrom memory pLoc seriHeaderBase) = clsidInvalid
        · rw [if_pos null] at read
          cases read
          refine ⟨_, Nat.le_add_right _ _, inside, isRest, ?_⟩
          rw [yields_bind]
          refine ⟨_, (yields_bytes _ _ _).2 rfl, ?_⟩
          rw [if_neg (by omega), if_pos null, yields_pure]
        · rw [if_neg null] at read
          by_cases config : hdrClsid (bytesFrom memory pLoc seriHeaderBase) = clsidCConfigDb2
          · rw [if_pos config] at read
            obtain ⟨props, inner, ⟨⟩⟩ := Option.map_eq_some_iff.1 read
            refine ⟨_, Nat.le_add_right _ _, inside, isRest, ?_⟩
            rw [yields_bind]
            refine ⟨_, (yields_bytes _ _ _).2 rfl, ?_⟩
            rw [if_neg (by omega), if_neg null, if_pos config, yields_bind]
            rw [isObject] at inner
            exact ⟨props, agrees _ _ _ inner, rfl⟩
          · rw [if_neg config] at read
            obtain ⟨obj, made, ⟨⟩⟩ := Option.map_eq_some_iff.1 read
            refine ⟨_, Nat.le_add_right _ _, inside, isRest, ?_⟩
            rw [yields_bind]
            refine ⟨_, (yields_bytes _ _ _).2 rfl, ?_⟩
            rw [if_neg (by omega), if_neg null, if_neg config, yields_bind]
            rw [isObject] at made
            exact ⟨obj, faithful made, rfl⟩
  case h_10 =>
    rw [deserializeValue]
    exact follows_byteArr room
  case h_11 =>
    intro value rest never
    cases never

theorem yields_properties (faithful : L.Faithful)
    (agrees : ∀ pLoc len props, found (bytesFrom memory pLoc len) = some props →
      (nested pLoc len).Yields memory props)
    (count : Nat) (room : pLoc ≤ pEnd) (props : List (Int32 × Value H))
    {all : List (Int32 × Value H)}
    (read : ConfigDb.deserializeProps found count (bytesFrom memory pLoc (pEnd - pLoc)) props = some all) :
    (deserializeProps L nested pEnd count pLoc props).Yields memory all := by
  induction count generalizing pLoc props with
  | zero => exact (yields_pure _ _).2 (Option.some.inj read)
  | succ count ih =>
    unfold ConfigDb.deserializeProps at read
    split at read
    · cases read
    next key behind word =>
      obtain ⟨inside, isKey, isBehind⟩ := readWord_bytesFrom room word
      cases behind with
      | nil => cases read
      | cons typeId bytes =>
        dsimp only at read
        have positive : 0 < pEnd - (pLoc + 4) := by
          have length := congrArg List.length isBehind
          rw [length_bytesFrom, length_cons] at length
          omega
        have isType : typeId = memory (pLoc + 4) := by
          have head := congrArg (fun bytes => bytes.take 1) isBehind
          rw [take_bytesFrom positive] at head
          exact head_eq_of_cons_eq head
        have isBytes : bytes = bytesFrom memory (pLoc + 5) (pEnd - (pLoc + 5)) := by
          have tail := congrArg (fun bytes => bytes.drop 1) isBehind
          rw [drop_bytesFrom, Nat.sub_sub] at tail
          exact tail
        split at read
        · cases read
        next value rest one =>
          rw [isBytes] at one
          obtain ⟨next, _, ends, isRest, yields⟩ :=
            follows_value faithful agrees (by omega : pLoc + 5 ≤ pEnd) typeId value rest one
          rw [isRest] at read
          unfold deserializeProps
          rw [yields_bind]
          refine ⟨key, (yields_word _ _ _).2 isKey.symm, ?_⟩
          rw [yields_bind]
          refine ⟨_, (yields_word _ _ _).2 rfl, ?_⟩
          rw [yields_bind]
          refine ⟨typeId, (yields_byte _ _).2 isType.symm, ?_⟩
          rw [yields_bind]
          refine ⟨(value, next), yields, ?_⟩
          rw [if_neg (by omega)]
          exact ih ends _ read

theorem yields_deserializeConfig (faithful : L.Faithful) {depth : Nat}
    (read : ConfigDb.deserializeConfig depth (bytesFrom memory pBuf len) = some props) :
    (deserializeConfig L depth pBuf len).Yields memory props := by
  induction depth generalizing pBuf len props with
  | zero => cases read
  | succ depth ih =>
    unfold ConfigDb.deserializeConfig at read
    rw [length_bytesFrom] at read
    split at read
    · cases read
    next header =>
      have isHdr : (bytesFrom memory pBuf len).take 16 = bytesFrom memory pBuf seriHeader :=
        take_bytesFrom (by unfold seriHeader at header; omega)
      have clsid : ofBE ((bytesFrom memory pBuf len).take 4) = hdrClsid (bytesFrom memory pBuf seriHeader) := by
        rw [hdrClsid, ← isHdr, take_take]
        rfl
      have size : ofBE (((bytesFrom memory pBuf len).drop 4).take 4) =
          hdrSize (bytesFrom memory pBuf seriHeader) := by
        rw [hdrSize, ← isHdr, drop_take, take_take]
        rfl
      have count : ofBE (((bytesFrom memory pBuf len).drop 12).take 4) =
          hdrCount (bytesFrom memory pBuf seriHeader) := by
        rw [hdrCount, ← isHdr, drop_take, take_take]
        rfl
      have version : (bytesFrom memory pBuf len).drop 8 = bytesFrom memory (pBuf + 8) (len - 8) :=
        drop_bytesFrom memory pBuf len 8
      dsimp only at read
      rw [clsid, size, count] at read
      split at read
      · cases read
      next fits =>
        split at read
        · cases read
        next isTwo =>
          rw [drop_bytesFrom] at read
          have versionByte : hdrVersion (bytesFrom memory pBuf seriHeader) = 2 := by
            have two := Decidable.not_not.1 isTwo
            have first : (bytesFrom memory (pBuf + 8) (len - 8)).take 1 = [2] := by
              rw [version] at two
              cases bytes : bytesFrom memory (pBuf + 8) (len - 8) with
              | nil =>
                rw [bytes] at two
                cases two
              | cons head tail =>
                rw [bytes] at two
                rw [take_succ_cons, take_zero, Option.some.inj two]
            rw [hdrVersion, ← isHdr, drop_take, take_take, version]
            exact congrArg ofBE first
          have room : pBuf + seriHeader ≤ pBuf + len := by omega
          have behind : len - seriHeader = pBuf + len - (pBuf + seriHeader) := by omega
          rw [behind] at read
          have loop := yields_properties faithful (fun _ _ _ => ih) _ room [] read
          have nonempty : len ≠ 0 := by
            unfold seriHeader at header
            omega
          unfold deserializeConfig deserializeBody
          rw [if_neg nonempty, yields_bind]
          refine ⟨_, (yields_bytes _ _ _).2 rfl, ?_⟩
          rw [if_neg fits, if_neg (Decidable.not_not.2 versionByte)]
          exact loop

theorem yields_of_deserialize (faithful : L.Faithful)
    (read : ConfigDb.deserialize (bytesFrom memory pBuf len) = some props) :
    (deserializeConfig L (len + 1) pBuf len).Yields memory props := by
  rw [ConfigDb.deserialize, length_bytesFrom] at read
  exact yields_deserializeConfig faithful read

end Raw

end RpcFrmwrk.ConfigDb
