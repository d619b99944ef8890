import RpcFrmwrk.ConfigDb.Deserialize

/-! Configurations that survive `Serialize` and `Deserialize`. Owns `Sound`, the configurations both
methods support, the growth of the output buffer included, and `Carried`, with messages that come
back as a byte; `Value.layout`, the bytes of such a value; `roundTrips_of_sound`. -/

namespace RpcFrmwrk.ConfigDb

open RpcFrmwrk.Library List

variable {H : ConfigHost}

mutual
def Value.Distinct : Value H → Prop
  | .config props => DistinctProps props
  | _ => True

def DistinctProps : List (Int32 × Value H) → Prop
  | [] => True
  | (key, value) :: tail =>
    (∀ later ∈ tail, later.1 ≠ key) ∧ value.Distinct ∧ DistinctProps tail
end

/-- A configuration: properties with distinct ids, in the order of the map. -/
structure ConfigDb2 (H : ConfigHost) where
  props : List (Int32 × Value H)
  distinct : DistinctProps props

/-- `Serialize` succeeds and `Deserialize` of its output yields the same map. -/
def RoundTrips (config : ConfigDb2 H) : Prop :=
  ∃ bytes, serialize config.props = some bytes ∧
    ∃ props, deserialize bytes = some props ∧ SameProps config.props props

/-! ### Growth of the output buffer -/

/-- What is added to the buffer when the value does not fit behind `pLoc`. -/
def Value.grow (cap used : Nat) : Value H → Nat
  | .string value => lengthGrow H.qpage cap used value.length
  | .byteArr value => lengthGrow H.qpage cap used value.length
  | .dMsg msg => lengthGrow H.qpage cap used (4 + (H.marshal msg).length)
  | .config props => (Value.config props).size + H.qpage
  | .object obj => (Value.object (H := H) obj).size + H.qpage
  | _ => H.qpage

/-- The size of the buffer after the properties, if it never has to exceed
`MAX_BYTES_PER_BUFFER`. -/
def capacity : (cap used : Nat) → List (Int32 × Value H) → Option Nat
  | cap, _, [] => some cap
  | cap, used, (_, value) :: tail =>
    match room cap used 4 H.qpage with
    | none => none
    | some cap =>
      match room cap (used + 4) 1 H.qpage with
      | none => none
      | some cap =>
        match room cap (used + 5) value.size (value.grow cap (used + 5)) with
        | none => none
        | some cap => capacity cap (used + 5 + value.size) tail

def Fits (props : List (Int32 × Value H)) : Prop :=
  (capacity (seriHeader + H.qpage) seriHeader props).isSome

mutual
/-- No null object, no empty byte array and no message; nested configurations
hold at most `CFGDB_MAX_ITEM` properties and fit their buffers. -/
def Value.Sound : Value H → Prop
  | .null | .dMsg _ => False
  | .byteArr value => value ≠ []
  | .config props => props.length ≤ cfgdbMaxItem ∧ Fits props ∧ SoundProps props
  | _ => True

def SoundProps : List (Int32 × Value H) → Prop
  | [] => True
  | (_, value) :: tail => value.Sound ∧ SoundProps tail
end

mutual
def Value.decideSound : (value : Value H) → Decidable value.Sound
  | .null | .dMsg _ => isFalse id
  | .byteArr value => inferInstanceAs (Decidable (value ≠ []))
  | .config props =>
    match decideSoundProps props with
    | isTrue inner => decidable_of_iff (props.length ≤ cfgdbMaxItem ∧ (capacity (seriHeader + H.qpage)
        seriHeader props).isSome = true) ⟨fun both => ⟨both.1, both.2, inner⟩, fun sound => ⟨sound.1, sound.2.1⟩⟩
    | isFalse unsound => isFalse fun sound => unsound sound.2.2
  | .byte _ | .uint16 _ | .uint32 _ | .uint64 _ | .float _ | .double _ | .string _ | .object _ => isTrue trivial

def decideSoundProps : (props : List (Int32 × Value H)) → Decidable (SoundProps props)
  | [] => isTrue trivial
  | (_, value) :: tail =>
    match value.decideSound, decideSoundProps tail with
    | isTrue head, isTrue rest => isTrue ⟨head, rest⟩
    | isFalse unsound, _ => isFalse fun sound => unsound sound.1
    | _, isFalse unsound => isFalse fun sound => unsound sound.2
end

instance (props : List (Int32 × Value H)) : Decidable (SoundProps props) := decideSoundProps props

def ConfigDb2.Sound (config : ConfigDb2 H) : Prop :=
  config.props.length ≤ cfgdbMaxItem ∧ Fits config.props ∧ SoundProps config.props

mutual
/-- As `Value.Sound`, but a message that the bus library takes back is as good. -/
def Value.Carried : Value H → Prop
  | .null => False
  | .dMsg msg => 0 < (H.marshal msg).length ∧ (H.marshal msg).length ≤ dmsgMaxSize ∧
      (H.demarshal (H.marshal msg)).isSome
  | .byteArr value => value ≠ []
  | .config props => props.length ≤ cfgdbMaxItem ∧ Fits props ∧ CarriedProps props
  | _ => True

def CarriedProps : List (Int32 × Value H) → Prop
  | [] => True
  | (_, value) :: tail => value.Carried ∧ CarriedProps tail
end

mutual
/-- What is read back of a value: in place of a message, at any depth, a byte. -/
def Value.restored : Value H → Value H
  | .dMsg _ => .byte 1
  | .config props => .config (restoredProps props)
  | value => value

def restoredProps : List (Int32 × Value H) → List (Int32 × Value H)
  | [] => []
  | (key, value) :: tail => (key, value.restored) :: restoredProps tail
end

mutual
theorem Value.Sound.carried {value : Value H} (sound : value.Sound) : value.Carried := by
  cases value with
  | null | dMsg msg => exact sound.elim
  | config props => exact ⟨sound.1, sound.2.1, SoundProps.carried sound.2.2⟩
  | byteArr value => exact sound
  | _ => trivial

theorem SoundProps.carried {props : List (Int32 × Value H)}
    (sound : SoundProps props) : CarriedProps props := by
  match props with
  | [] => trivial
  | (key, value) :: tail => exact ⟨Value.Sound.carried sound.1, SoundProps.carried sound.2⟩
end

mutual
theorem Value.Sound.restored_eq {value : Value H} (sound : value.Sound) : value.restored = value := by
  cases value with
  | dMsg msg => exact sound.elim
  | config props => exact congrArg Value.config (SoundProps.restored_eq sound.2.2)
  | _ => rfl

theorem SoundProps.restored_eq {props : List (Int32 × Value H)} (sound : SoundProps props) :
    restoredProps props = props := by
  match props with
  | [] => rfl
  | (key, value) :: tail =>
    rw [restoredProps, Value.Sound.restored_eq sound.1, SoundProps.restored_eq sound.2]
end

def counted (value : List UInt8) : List UInt8 := toBE 4 value.length ++ value

mutual
def Value.layout : Value H → List UInt8
  | .byte value => toBE 1 value.toNat
  | .uint16 value => toBE 2 value.toNat
  | .uint32 value => toBE 4 value.toNat
  | .float bits => toBE 4 bits.toNat
  | .uint64 value => toBE 8 value.toNat
  | .double bits => toBE 8 bits.toNat
  | .string value => counted value
  | .dMsg msg => counted (counted (H.marshal msg))
  | .null => List.replicate 12 0
  | .config props => header (4 + sizeProps props) props.length ++ layoutProps props
  | .object obj => H.serialized obj
  | .byteArr value => counted value

def layoutProps : List (Int32 × Value H) → List UInt8
  | [] => []
  | (key, value) :: tail =>
    toBE 4 key.toUInt32.toNat ++ [value.typeId] ++ value.layout ++ layoutProps tail
end

@[simp] theorem length_counted (value : List UInt8) : (counted value).length = 4 + value.length := by
  simp [counted]

@[simp] theorem length_header (size count : Nat) : (header size count).length = 16 := by
  simp only [header, length_append, length_toBE, length_cons, length_nil]

mutual
@[simp] theorem Value.length_layout (value : Value H) : value.layout.length = value.size := by
  cases value with
  | config props =>
    have inner := length_layoutProps props
    simp only [Value.layout, Value.size, length_append, length_header]
    omega
  | _ => simp [Value.layout, Value.size]

@[simp] theorem length_layoutProps (props : List (Int32 × Value H)) :
    (layoutProps props).length = sizeProps props := by
  match props with
  | [] => rfl
  | (key, value) :: tail =>
    have head := Value.length_layout value
    have rest := length_layoutProps tail
    simp only [layoutProps, sizeProps, length_append, length_toBE, length_cons, length_nil]
    omega
end

variable {cap used need grow granted last : Nat} {props : List (Int32 × Value H)}
    {config : ConfigDb2 H}

theorem room_le (within : cap ≤ maxBytesPerBuffer)
    (room : room cap used need grow = some granted) : granted ≤ maxBytesPerBuffer := by
  unfold ConfigDb.room at room
  split at room
  · split at room
    · simp at room
    · injection room with same
      omega
  · injection room with same
    omega

theorem room_covers (inside : used ≤ cap)
    (covers : need ≤ cap - used + grow) (room : room cap used need grow = some granted) :
    used + need ≤ granted := by
  unfold ConfigDb.room at room
  split at room
  · split at room
    · simp at room
    · injection room with same
      omega
  · injection room with same
    omega

theorem put_eq (writer : Writer) (bytes : List UInt8)
    (room : room writer.cap writer.out.length need grow = some granted) :
    writer.put need grow bytes = some ⟨writer.out ++ bytes, granted⟩ := by
  simp [Writer.put, Writer.reserve, Writer.emit, room]

theorem finish_header (count cap : Nat) (body : List UInt8) :
    finish ⟨header 0 count ++ body, cap⟩ = header (4 + body.length) count ++ body := by
  have front : (header 0 count ++ body).take 4 = toBE 4 clsidCConfigDb2 := by
    simp only [header, append_assoc]
    exact take_left' (length_toBE 4 _)
  have back : (header 0 count ++ body).drop 8 = [2, 0, 0, 0] ++ toBE 4 count ++ body := by
    simp only [header, append_assoc]
    rw [← append_assoc (toBE 4 clsidCConfigDb2)]
    exact drop_left' (by simp only [length_append, length_toBE])
  have size : (header 0 count ++ body).length - seriHeaderBase = 4 + body.length := by
    rw [length_append, length_header, seriHeaderBase]
    omega
  simp only [finish, front, back, size]
  simp only [header, append_assoc]

theorem length_mod {length : Nat} (within : cap ≤ maxBytesPerBuffer)
    (covers : 4 + length ≤ cap - used + grow)
    (room : room cap used (4 + length) grow = some granted) : length % 2 ^ 32 = length := by
  have limit : maxBytesPerBuffer < 2 ^ 32 := by decide
  unfold ConfigDb.room at room
  apply Nat.mod_eq_of_lt
  split at room
  · split at room
    · simp at room
    · omega
  · omega

mutual
theorem serializeValue_carried (value : Value H) (carried : value.Carried) (out : List UInt8)
    {cap granted : Nat} (within : cap ≤ maxBytesPerBuffer)
    (room : room cap out.length value.size (value.grow cap out.length) = some granted) :
    serializeValue value ⟨out, cap⟩ = some ⟨out ++ value.layout, granted⟩ := by
  cases value with
  | byte | uint16 | uint32 | uint64 | float | double => exact put_eq _ _ room
  | string value =>
    have len := length_mod within (by simp only [Value.grow, lengthGrow]; omega) room
    simp only [serializeValue, len, take_length]
    exact put_eq _ _ room
  | dMsg msg =>
    obtain ⟨nonempty, small, -⟩ := carried
    have bytes : serializeMsg msg = some (counted (H.marshal msg)) := by
      rw [serializeMsg, if_neg (by omega), counted]
    simp only [serializeValue, bytes, length_counted]
    rw [Nat.add_comm (4 + (H.marshal msg).length) 4]
    have layout : (Value.dMsg msg : Value H).layout =
        toBE 4 (4 + (H.marshal msg).length) ++ counted (H.marshal msg) := by
      rw [Value.layout, counted, length_counted]
    rw [layout]
    exact put_eq _ _ room
  | null => exact absurd carried id
  | config props =>
    obtain ⟨few, fits, inner⟩ := carried
    obtain ⟨last, grown⟩ := Option.isSome_iff_exists.1 fits
    have count : props.length % 2 ^ 32 = props.length := by
      apply Nat.mod_eq_of_lt
      unfold cfgdbMaxItem at few
      omega
    have written := serializeProps_carried props inner
      (header 0 props.length) (seriHeader + H.qpage) H.qpage_le
      (by rw [length_header]; exact grown)
    have length := Value.length_layout (Value.config props)
    simp only [Value.layout] at length
    simp only [serializeValue, count, written, finish_header, length_layoutProps, length]
    exact put_eq _ _ room
  | object obj =>
    have length := Value.length_layout (Value.object (H := H) obj)
    simp only [Value.layout] at length
    simp only [serializeValue, length]
    exact put_eq _ _ room
  | byteArr value =>
    have len := length_mod within (by simp only [Value.grow, lengthGrow]; omega) room
    have positive : value.length ≠ 0 := by
      intro none
      exact carried (eq_nil_of_length_eq_zero none)
    simp only [serializeValue, len, take_length, if_neg positive]
    rw [Nat.add_comm value.length 4]
    exact put_eq _ _ room

theorem serializeProps_carried (props : List (Int32 × Value H)) (carried : CarriedProps props)
    (out : List UInt8) (cap : Nat) {last : Nat} (within : cap ≤ maxBytesPerBuffer)
    (grown : capacity cap out.length props = some last) :
    serializeProps props ⟨out, cap⟩ = some ⟨out ++ layoutProps props, last⟩ := by
  match props with
  | [] =>
    injection grown with same
    simp [serializeProps, layoutProps, same]
  | (key, value) :: tail =>
    simp only [capacity] at grown
    split at grown
    · simp at grown
    · rename_i first firstRoom
      split at grown
      · simp at grown
      · rename_i second secondRoom
        split at grown
        · simp at grown
        · rename_i third thirdRoom
          have idBytes := put_eq ⟨out, cap⟩ (toBE 4 key.toUInt32.toNat) firstRoom
          have idLength : (out ++ toBE 4 key.toUInt32.toNat).length = out.length + 4 := by simp
          have typeByte := put_eq ⟨out ++ toBE 4 key.toUInt32.toNat, first⟩
            [value.typeId] (by rw [idLength]; exact secondRoom)
          have typeLength : (out ++ toBE 4 key.toUInt32.toNat ++ [value.typeId]).length = out.length + 5 := by
            rw [length_append, idLength, length_singleton]
          have firstLe := room_le within firstRoom
          have secondLe := room_le firstLe secondRoom
          have written := serializeValue_carried value carried.1
            (out ++ toBE 4 key.toUInt32.toNat ++ [value.typeId]) secondLe
            (by rw [typeLength]; exact thirdRoom)
          have rest := serializeProps_carried tail carried.2
            (out ++ toBE 4 key.toUInt32.toNat ++ [value.typeId] ++ value.layout) _
            (room_le secondLe thirdRoom)
            (by
              rw [length_append, typeLength, Value.length_layout]
              exact grown)
          simp only [serializeProps, idBytes, typeByte, written, rest, layoutProps]
          simp only [append_assoc]
end

theorem serializeProps_sound (props : List (Int32 × Value H)) (sound : SoundProps props)
    (out : List UInt8) (cap : Nat) (within : cap ≤ maxBytesPerBuffer)
    (grown : capacity cap out.length props = some last) :
    serializeProps props ⟨out, cap⟩ = some ⟨out ++ layoutProps props, last⟩ :=
  serializeProps_carried props sound.carried out cap within grown

theorem split_append {count : Nat} {bytes : List UInt8} (length : bytes.length = count)
    (rest : List UInt8) : split count (bytes ++ rest) = some (bytes, rest) := by
  have enough : ¬ (bytes ++ rest).length < count := by
    rw [length_append]
    omega
  rw [split, if_neg enough, take_left' length, drop_left' length]

theorem readWord_toBE (width : Nat) {value : Nat} (small : value < 256 ^ width)
    (rest : List UInt8) :
    readWord width (toBE width value ++ rest) = some (value, rest) := by
  rw [readWord, split_append (length_toBE width value)]
  simp [ofBE_toBE_of_lt small]

theorem readBytes_counted (value : List UInt8) (small : value.length < 2 ^ 32)
    (rest : List UInt8) : readBytes (counted value ++ rest) = some (value, rest) := by
  rw [counted, append_assoc, readBytes, readWord_toBE 4 small]
  exact split_append rfl rest

theorem readByteArr_counted (value : List UInt8) (small : value.length ≤ maxBytesPerBuffer)
    (rest : List UInt8) : readByteArr (counted value ++ rest) = some (value, rest) := by
  have limit : maxBytesPerBuffer < 2 ^ 32 := by decide
  have bytes := readBytes_counted value (by omega) rest
  have granted : ¬ maxBytesPerBuffer < value.length := by omega
  rw [readByteArr, bytes]
  show (if maxBytesPerBuffer < value.length then none else some (value, rest)) = _
  rw [if_neg granted]

theorem setProperty_fresh {key : Int32} (value : Value H)
    (fresh : ∀ prop ∈ props, prop.1 ≠ key) :
    setProperty props key value = props ++ [(key, value)] := by
  induction props with
  | nil => rfl
  | cons head tail ih =>
    have other := fresh head mem_cons_self
    have rest := ih fun prop member =>
      fresh prop (mem_cons_of_mem _ member)
    simp only [setProperty, if_neg other, rest, cons_append]

theorem frame_fields (clsid size : Nat) (clsidLt : clsid < 2 ^ 32) (sizeLt : size < 2 ^ 32)
    (rest : List UInt8) :
    ofBE ((toBE 4 clsid ++ (toBE 4 size ++ rest)).take 4) = clsid ∧
      ofBE (((toBE 4 clsid ++ (toBE 4 size ++ rest)).drop 4).take 4) = size := by
  rw [take_left' (length_toBE 4 _), drop_left' (length_toBE 4 _),
    take_left' (length_toBE 4 _), ofBE_toBE_of_lt clsidLt, ofBE_toBE_of_lt sizeLt]
  exact ⟨rfl, rfl⟩

theorem deserializeObj_framed (nested : List UInt8 → Option (List (Int32 × Value H)))
    (clsid : Nat) (body rest : List UInt8) (clsidLt : clsid < 2 ^ 32)
    (long : 4 ≤ body.length) (short : 8 + body.length < 2 ^ 32) :
    deserializeObj nested (toBE 4 clsid ++ (toBE 4 (body.length - 4) ++ body) ++ rest) =
      if clsid = clsidInvalid then some (.null, rest)
      else if clsid = clsidCConfigDb2 then
        (nested (toBE 4 clsid ++ (toBE 4 (body.length - 4) ++ body))).map fun props => (.config props, rest)
      else (H.newObj clsid (toBE 4 clsid ++ (toBE 4 (body.length - 4) ++ body))).map
        fun obj => (.object obj, rest) := by
  have whole : toBE 4 clsid ++ (toBE 4 (body.length - 4) ++ body) ++ rest =
      toBE 4 clsid ++ (toBE 4 (body.length - 4) ++ (body ++ rest)) := by
    simp only [append_assoc]
  obtain ⟨id, size⟩ := frame_fields clsid (body.length - 4) clsidLt (by omega) (body ++ rest)
  rw [← whole] at id size
  have length : (toBE 4 clsid ++ (toBE 4 (body.length - 4) ++ body)).length = 8 + body.length := by
    simp only [length_append, length_toBE]
    omega
  have len : (body.length - 4 + seriHeaderBase) % 2 ^ 32 = 8 + body.length := by
    rw [seriHeaderBase, Nat.mod_eq_of_lt (by omega)]
    omega
  have enough : ¬ (toBE 4 clsid ++ (toBE 4 (body.length - 4) ++ body) ++ rest).length <
      seriHeaderBase := by
    rw [length_append, length, seriHeaderBase]
    omega
  rw [deserializeObj, if_neg enough]
  simp only [id, size, len]
  rw [split_append length]
  simp only [Nat.add_eq_zero_iff, OfNat.ofNat_ne_zero, false_and, false_or]

theorem config_layout_framed (props : List (Int32 × Value H)) :
    ∃ body, (Value.config props).layout = toBE 4 clsidCConfigDb2 ++ (toBE 4 (body.length - 4) ++ body) ∧
      body.length = 8 + sizeProps props := by
  refine ⟨[2, 0, 0, 0] ++ toBE 4 props.length ++ layoutProps props, ?_, ?_⟩
  · simp only [Value.layout, header, append_assoc, length_append, length_toBE,
      length_layoutProps, length_cons, length_nil]
    rw [show 0 + 1 + 1 + 1 + 1 + (4 + sizeProps props) - 4 = 4 + sizeProps props by omega]
  · simp only [length_append, length_toBE, length_layoutProps, length_cons, length_nil]

theorem object_layout_framed (obj : H.Obj) :
    ∃ body, (Value.object (H := H) obj).layout = toBE 4 (H.clsid obj) ++ (toBE 4 (body.length - 4) ++ body) ∧
      body.length = 4 + (H.body obj).length := by
  refine ⟨H.info obj ++ H.body obj, ?_, ?_⟩
  · simp only [Value.layout, ObjectClasses.serialized, append_assoc, length_append, H.info_length]
    rw [show 4 + (H.body obj).length - 4 = (H.body obj).length by omega]
  · rw [length_append, H.info_length]

/-- The header of a configuration passes the checks of the method, whatever is behind the properties. -/
theorem deserializeConfig_header (props : List (Int32 × Value H))
    (few : props.length ≤ cfgdbMaxItem)
    (small : 16 + sizeProps props ≤ maxBytesPerBuffer) (depth : Nat) (more : List UInt8) :
    deserializeConfig (H := H) (depth + 1) ((Value.config props).layout ++ more) =
      deserializeProps (deserializeConfig depth) props.length (layoutProps props ++ more) [] := by
  have limits : maxBytesPerBuffer < 2 ^ 32 ∧ cfgdbMaxItem < 2 ^ 32 ∧
      maxBytesPerBuffer = cfgdbMaxSize := by decide
  obtain ⟨id, size⟩ := frame_fields clsidCConfigDb2 (4 + sizeProps props)
    (by decide) (by omega) ([2, 0, 0, 0] ++ (toBE 4 props.length ++ (layoutProps props ++ more)))
  have layout : (Value.config props).layout ++ more = toBE 4 clsidCConfigDb2 ++
      (toBE 4 (4 + sizeProps props) ++ ([2, 0, 0, 0] ++
        (toBE 4 props.length ++ (layoutProps props ++ more)))) := by
    simp only [Value.layout, header, append_assoc]
  have front : (toBE 4 clsidCConfigDb2 ++ toBE 4 (4 + sizeProps props)).length = 8 := by
    simp only [length_append, length_toBE]
  have version : ((Value.config props).layout ++ more).drop 8 =
      [2, 0, 0, 0] ++ (toBE 4 props.length ++ (layoutProps props ++ more)) := by
    rw [layout, ← append_assoc]
    exact drop_left' front
  have countBytes : ((Value.config props).layout ++ more).drop 12 =
      toBE 4 props.length ++ (layoutProps props ++ more) := by
    rw [show 12 = 8 + 4 from rfl, ← drop_drop, version]
    rfl
  have count : ofBE ((((Value.config props).layout ++ more).drop 12).take 4) = props.length := by
    rw [countBytes, take_left' (length_toBE 4 _), ofBE_toBE_of_lt (by omega)]
  have body : ((Value.config props).layout ++ more).drop seriHeader = layoutProps props ++ more := by
    rw [show seriHeader = 12 + 4 from rfl, ← drop_drop, countBytes]
    exact drop_left' (length_toBE 4 _)
  have length : ((Value.config props).layout ++ more).length = 16 + sizeProps props + more.length := by
    rw [length_append, Value.length_layout, Value.size]
  rw [deserializeConfig, if_neg (by rw [length, seriHeader]; omega)]
  rw [← layout] at id size
  simp only [id, size, count, body, version, length]
  rw [if_neg (by unfold seriHeaderBase; omega), if_neg (by simp)]

mutual
theorem deserializeValue_restored (value : Value H) (carried : value.Carried)
    (distinct : value.Distinct) (small : value.size ≤ maxBytesPerBuffer) {depth : Nat}
    (deep : value.size ≤ depth) (rest : List UInt8) :
    deserializeValue (deserializeConfig depth) value.typeId (value.layout ++ rest) =
      some (value.restored, rest) := by
  have limit : maxBytesPerBuffer < 2 ^ 32 := by decide
  cases value with
  | byte value =>
    have word := readWord_toBE 1 (UInt8.toNat_lt value) rest
    simp only [deserializeValue, Value.typeId, Value.layout, word]
    simp [Value.restored]
  | uint16 value =>
    have word := readWord_toBE 2 (UInt16.toNat_lt value) rest
    simp only [deserializeValue, Value.typeId, Value.layout, word]
    simp [Value.restored]
  | uint32 value | float value =>
    have word := readWord_toBE 4 (UInt32.toNat_lt value) rest
    simp only [deserializeValue, Value.typeId, Value.layout, word]
    simp [Value.restored]
  | uint64 value | double value =>
    have word := readWord_toBE 8 (UInt64.toNat_lt value) rest
    simp only [deserializeValue, Value.typeId, Value.layout, word]
    simp [Value.restored]
  | string value =>
    simp only [Value.size] at small
    have bytes := readBytes_counted value (by omega) rest
    simp only [deserializeValue, Value.typeId, Value.layout, bytes]
    rfl
  | dMsg msg =>
    obtain ⟨nonempty, limited, taken⟩ := carried
    obtain ⟨back, demarshals⟩ := Option.isSome_iff_exists.1 taken
    simp only [Value.size] at small
    have bytes : Value.layout (.dMsg msg : Value H) ++ rest =
        toBE 4 (4 + (H.marshal msg).length) ++ (counted (H.marshal msg) ++ rest) := by
      rw [Value.layout, counted, length_counted, append_assoc]
    have len := readWord_toBE 4 (show 4 + (H.marshal msg).length < 256 ^ 4 by omega)
      (counted (H.marshal msg) ++ rest)
    have whole := split_append (length_counted (H.marshal msg)) rest
    have size : readWord 4 (counted (H.marshal msg) ++ rest) =
        some ((H.marshal msg).length, H.marshal msg ++ rest) := by
      rw [counted, append_assoc]
      exact readWord_toBE 4 (by omega) _
    have read : deserializeMsg (4 + (H.marshal msg).length) (counted (H.marshal msg) ++ rest) =
        some back := by
      rw [deserializeMsg, size]
      dsimp only
      rw [if_neg (by omega), split_append rfl]
      exact demarshals
    rw [bytes]
    simp only [deserializeValue, Value.typeId, len, whole, read]
    rfl
  | null => exact absurd carried id
  | config props =>
    obtain ⟨few, _, inner⟩ := carried
    obtain ⟨body, layout, length⟩ := config_layout_framed props
    simp only [Value.size] at small deep
    obtain ⟨depth, rfl⟩ : ∃ less, depth = less + 1 := ⟨depth - 1, by omega⟩
    have read := deserializeProps_restored props inner distinct (by omega)
      (by omega : sizeProps props ≤ depth) [] (forall_mem_nil _) []
    have nested := deserializeConfig_header props few (by omega) depth []
    rw [read, append_nil] at nested
    rw [layout] at nested ⊢
    simp only [deserializeValue, Value.typeId]
    rw [deserializeObj_framed _ _ _ _ (by decide) (by omega) (by omega), if_neg (by decide), if_pos rfl, nested]
    rfl
  | object obj =>
    obtain ⟨body, layout, length⟩ := object_layout_framed obj
    simp only [Value.size] at small
    have made : H.newObj (H.clsid obj) (Value.object (H := H) obj).layout = some obj := by
      have law := H.newObj_serialized obj []
      rw [append_nil] at law
      exact law
    rw [layout] at made ⊢
    simp only [deserializeValue, Value.typeId]
    rw [deserializeObj_framed _ _ _ _ (H.clsid_lt obj) (by omega) (by omega),
      if_neg (H.clsid_ne_invalid obj), if_neg (H.clsid_ne_config obj), made]
    rfl
  | byteArr value =>
    simp only [Value.size] at small
    have bytes := readByteArr_counted value (by omega) rest
    simp only [deserializeValue, Value.typeId, Value.layout, bytes]
    rfl

theorem deserializeProps_restored (props : List (Int32 × Value H)) (carried : CarriedProps props)
    (distinct : DistinctProps props) (small : sizeProps props ≤ maxBytesPerBuffer) {depth : Nat}
    (deep : sizeProps props ≤ depth) (read : List (Int32 × Value H))
    (fresh : ∀ earlier ∈ read, ∀ later ∈ props, earlier.1 ≠ later.1) (more : List UInt8) :
    deserializeProps (deserializeConfig depth) props.length (layoutProps props ++ more) read =
      some (read ++ restoredProps props) := by
  match props with
  | [] => simp [deserializeProps, restoredProps]
  | (key, value) :: tail =>
    obtain ⟨different, valueDistinct, tailDistinct⟩ := distinct
    simp only [sizeProps] at small deep
    have id := readWord_toBE 4 (UInt32.toNat_lt key.toUInt32)
      ([value.typeId] ++ value.layout ++ (layoutProps tail ++ more))
    have first := deserializeValue_restored value carried.1 valueDistinct (by omega)
      (by omega : value.size ≤ depth) (layoutProps tail ++ more)
    have added := setProperty_fresh value.restored fun earlier member =>
      fresh earlier member (key, value) mem_cons_self
    have rest := deserializeProps_restored tail carried.2 tailDistinct (by omega)
      (by omega : sizeProps tail ≤ depth) (read ++ [(key, value.restored)]) (by
        intro earlier member later laterMember
        rcases mem_append.1 member with old | new
        · exact fresh earlier old later (mem_cons_of_mem _ laterMember)
        · rw [mem_singleton] at new
          subst new
          exact (different later laterMember).symm) more
    have keyBack : (UInt32.ofNat key.toUInt32.toNat).toInt32 = key := by simp
    simp only [layoutProps, restoredProps, append_assoc, cons_append, nil_append] at id rest ⊢
    simp only [length_cons, deserializeProps, id, first, keyBack, added, rest]
end

theorem serialize_carried (few : props.length ≤ cfgdbMaxItem)
    (fits : Fits props) (inner : CarriedProps props) :
    serialize props = some (Value.config props).layout := by
  obtain ⟨last, grown⟩ := Option.isSome_iff_exists.1 fits
  have count : props.length % 2 ^ 32 = props.length := by
    apply Nat.mod_eq_of_lt
    unfold cfgdbMaxItem at few
    omega
  have written := serializeProps_carried props inner
    (header 0 props.length) (seriHeader + H.qpage) H.qpage_le
    (by rw [length_header]; exact grown)
  rw [serialize, count, written, Option.map_some, finish_header, length_layoutProps]
  rfl

theorem serialize_sound (sound : config.Sound) :
    serialize config.props = some (Value.config config.props).layout :=
  serialize_carried sound.1 sound.2.1 sound.2.2.carried

theorem size_le_grow (value : Value H) (cap used : Nat) : value.size ≤ cap - used + value.grow cap used := by
  have page := H.qpage_ge
  cases value with
  | string | byteArr | dMsg => simp only [Value.size, Value.grow, lengthGrow]; omega
  | config | object => simp only [Value.grow]; omega
  | _ => simp only [Value.size, Value.grow]; omega

theorem size_le_of_capacity
    (within : cap ≤ maxBytesPerBuffer) (inside : used ≤ cap)
    (grown : capacity cap used props = some last) :
    used + sizeProps props ≤ maxBytesPerBuffer := by
  induction props generalizing cap used with
  | nil =>
    simp only [sizeProps]
    omega
  | cons head tail ih =>
    obtain ⟨key, value⟩ := head
    have page := H.qpage_ge
    simp only [capacity] at grown
    split at grown
    · simp at grown
    · rename_i first firstRoom
      have firstInside := room_covers inside (by omega) firstRoom
      split at grown
      · simp at grown
      · rename_i second secondRoom
        have secondInside := room_covers firstInside (by omega) secondRoom
        split at grown
        · simp at grown
        · rename_i third thirdRoom
          have thirdInside := room_covers secondInside (size_le_grow value second (used + 5)) thirdRoom
          have rest := ih
            (room_le (room_le (room_le within firstRoom) secondRoom) thirdRoom)
            thirdInside grown
          simp only [sizeProps]
          omega

theorem size_le_of_fits (fits : Fits props) : 16 + sizeProps props ≤ maxBytesPerBuffer := by
  obtain ⟨last, grown⟩ := Option.isSome_iff_exists.1 fits
  exact size_le_of_capacity H.qpage_le (Nat.le_add_right _ _) grown

theorem deserialize_restored {config : ConfigDb2 H} (few : config.props.length ≤ cfgdbMaxItem)
    (inner : CarriedProps config.props) (small : 16 + sizeProps config.props ≤ maxBytesPerBuffer)
    (more : List UInt8) :
    deserialize ((Value.config config.props).layout ++ more) = some (restoredProps config.props) := by
  have length : ((Value.config config.props).layout ++ more).length =
      16 + sizeProps config.props + more.length := by
    rw [length_append, Value.length_layout, Value.size]
  rw [deserialize, length, deserializeConfig_header _ few small,
    deserializeProps_restored config.props inner config.distinct (by omega) (by omega) [] (forall_mem_nil _)]
  rfl

theorem deserialize_layout (few : config.props.length ≤ cfgdbMaxItem)
    (inner : SoundProps config.props) (small : 16 + sizeProps config.props ≤ maxBytesPerBuffer) :
    deserialize (Value.config config.props).layout = some config.props := by
  have back := deserialize_restored few inner.carried small []
  rwa [append_nil, inner.restored_eq] at back

theorem roundTrips_of_sound (sound : config.Sound) :
    RoundTrips config := by
  have written := serialize_sound sound
  obtain ⟨few, fits, inner⟩ := sound
  exact ⟨_, written, config.props, deserialize_layout few inner (size_le_of_fits fits), .refl _⟩

end RpcFrmwrk.ConfigDb
