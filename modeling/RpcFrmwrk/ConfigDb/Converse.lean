import RpcFrmwrk.ConfigDb.RoundTrip

/-! Configurations that do not survive the round trip. Reading a value takes at least `weight` bytes
from the input, whatever the input is; writing a value puts at most `weight` bytes out, and fewer
for an empty byte array. A configuration without null objects that reads back the same therefore has
no empty byte array. A null object stops the reader when nothing in front of it has shifted the
input. Owns `weight`, the two counting arguments, and `roundTrips_iff`. -/

namespace RpcFrmwrk.ConfigDb

open RpcFrmwrk.Library List

variable {H : ConfigHost}
variable {bytes rest : List UInt8} {value : Value H}
variable {count : Nat} {props : List (Int32 × Value H)}
    {nested : List UInt8 → Option (List (Int32 × Value H))} {writer : Writer}

mutual
def Value.weight : Value H → Nat
  | .null => 0
  | .config props => 16 + weightProps props
  | value => value.size

def weightProps : List (Int32 × Value H) → Nat
  | [] => 0
  | (_, value) :: tail => 5 + value.weight + weightProps tail
end

mutual
/-- What a successful read can return: no message, and never more properties
than the header may announce. -/
def Value.Readable : Value H → Prop
  | .dMsg _ => False
  | .config props => props.length ≤ cfgdbMaxItem ∧ ReadableProps props
  | _ => True

def ReadableProps : List (Int32 × Value H) → Prop
  | [] => True
  | (_, value) :: tail => value.Readable ∧ ReadableProps tail
end

mutual
theorem Value.Same.weight_eq {left right : Value H} : Value.Same left right → left.weight = right.weight
  | .refl _ => rfl
  | .config same => by simp only [Value.weight, SameProps.weight_eq same]

theorem SameProps.weight_eq {left right : List (Int32 × Value H)} :
    SameProps left right → weightProps left = weightProps right
  | .nil => rfl
  | .cons _ same rest => by
      simp only [weightProps, Value.Same.weight_eq same, SameProps.weight_eq rest]
  | .swap first second tail => by
      simp only [weightProps]
      omega
  | .trans first second => (SameProps.weight_eq first).trans (SameProps.weight_eq second)
end

theorem SameProps.length_eq {left right : List (Int32 × Value H)} :
    SameProps left right → left.length = right.length
  | .nil => rfl
  | .cons _ _ rest => by simp only [List.length_cons, SameProps.length_eq rest]
  | .swap _ _ _ => rfl
  | .trans first second => (SameProps.length_eq first).trans (SameProps.length_eq second)

mutual
theorem Value.Same.readable {left right : Value H} : Value.Same left right → right.Readable → left.Readable
  | .refl _ => id
  | .config same => fun readable =>
    ⟨SameProps.length_eq same ▸ readable.1, SameProps.readable same readable.2⟩

theorem SameProps.readable {left right : List (Int32 × Value H)} :
    SameProps left right → ReadableProps right → ReadableProps left
  | .nil => id
  | .cons _ same rest => fun readable =>
    ⟨Value.Same.readable same readable.1, SameProps.readable rest readable.2⟩
  | .swap _ _ _ => fun readable => ⟨readable.2.1, readable.1, readable.2.2⟩
  | .trans first second => fun readable =>
    SameProps.readable first (SameProps.readable second readable)
end

/-! ### Reading takes at least the weight -/

theorem length_of_split {front : List UInt8}
    (read : split count bytes = some (front, rest)) :
    front.length = count ∧ bytes.length = count + rest.length := by
  unfold split at read
  split at read
  · simp at read
  · simp only [Option.some.injEq, Prod.mk.injEq] at read
    obtain ⟨rfl, rfl⟩ := read
    simp only [length_take, length_drop]
    omega

theorem length_of_readWord {width word : Nat}
    (read : readWord width bytes = some (word, rest)) : bytes.length = width + rest.length := by
  simp only [readWord, Option.map_eq_some_iff, Prod.mk.injEq, Prod.exists] at read
  obtain ⟨front, tail, parts, _, rfl⟩ := read
  exact (length_of_split parts).2

theorem length_of_readBytes {value : List UInt8}
    (read : readBytes bytes = some (value, rest)) :
    bytes.length = 4 + value.length + rest.length := by
  unfold readBytes at read
  split at read
  · simp at read
  · rename_i len tail word
    have header := length_of_readWord word
    have body := length_of_split read
    omega

theorem length_of_readByteArr {value : List UInt8}
    (read : readByteArr bytes = some (value, rest)) :
    bytes.length = 4 + value.length + rest.length := by
  unfold readByteArr at read
  split at read
  · simp at read
  · rename_i front tail parts
    split at read
    · simp at read
    · simp only [Option.some.injEq, Prod.mk.injEq] at read
      obtain ⟨rfl, rfl⟩ := read
      exact length_of_readBytes parts

theorem weight_setProperty (props : List (Int32 × Value H)) (key : Int32) (value : Value H) :
    weightProps (setProperty props key value) ≤ weightProps props + 5 + value.weight := by
  induction props with
  | nil => simp only [setProperty, weightProps]; omega
  | cons head tail ih =>
    obtain ⟨other, old⟩ := head
    simp only [setProperty]
    split
    · simp only [weightProps]; omega
    · simp only [weightProps]; omega

theorem length_setProperty (props : List (Int32 × Value H)) (key : Int32) (value : Value H) :
    (setProperty props key value).length ≤ props.length + 1 := by
  induction props with
  | nil => simp [setProperty]
  | cons head tail ih =>
    simp only [setProperty]
    split
    · simp
    · simpa using ih

theorem readable_setProperty {key : Int32}
    (readable : ReadableProps props) (valueReadable : value.Readable) :
    ReadableProps (setProperty props key value) := by
  induction props with
  | nil => exact ⟨valueReadable, trivial⟩
  | cons head tail ih =>
    obtain ⟨other, old⟩ := head
    simp only [setProperty]
    split
    · exact ⟨valueReadable, readable.2⟩
    · exact ⟨readable.1, ih readable.2⟩

/-- What a reader of nested configurations returns is readable and takes its
weight from the input. -/
def Weighs (nested : List UInt8 → Option (List (Int32 × Value H))) : Prop :=
  ∀ bytes props, nested bytes = some props →
    16 + weightProps props ≤ bytes.length ∧ (Value.config props).Readable

theorem deserializeObj_weighs
    (weighs : Weighs nested)
    (read : deserializeObj nested bytes = some (value, rest)) :
    rest.length + value.weight ≤ bytes.length ∧ value.Readable := by
  unfold deserializeObj at read
  split at read
  · simp at read
  · simp only at read
    split at read
    · simp at read
    · rename_i object tail parts
      have lengths := length_of_split parts
      split at read
      · simp only [Option.some.injEq, Prod.mk.injEq] at read
        obtain ⟨rfl, rfl⟩ := read
        exact ⟨by simp only [Value.weight]; omega, trivial⟩
      · split at read
        · simp only [Option.map_eq_some_iff, Prod.mk.injEq] at read
          obtain ⟨props, inner, rfl, rfl⟩ := read
          have taken := weighs _ _ inner
          exact ⟨by simp only [Value.weight]; omega, taken.2⟩
        · simp only [Option.map_eq_some_iff, Prod.mk.injEq] at read
          obtain ⟨obj, made, rfl, rfl⟩ := read
          have frugal := H.newObj_frugal made
          exact ⟨by simp only [Value.weight, Value.size]; omega, trivial⟩

theorem deserializeValue_weighs
    (weighs : Weighs nested) {typeId : UInt8}
    (read : deserializeValue nested typeId bytes = some (value, rest)) :
    rest.length + value.weight ≤ bytes.length ∧ value.Readable := by
  unfold deserializeValue at read
  split at read
  case h_8 =>
    split at read
    · simp at read
    · rename_i len tail word
      have header := length_of_readWord word
      split at read
      · simp at read
      · rename_i front behind parts
        have lengths := length_of_split parts
        simp only [Option.map_eq_some_iff, Prod.mk.injEq] at read
        obtain ⟨msg, demarshalled, rfl, rfl⟩ := read
        refine ⟨?_, trivial⟩
        simp only [Value.weight, Value.size]
        omega
  case h_9 => exact deserializeObj_weighs weighs read
  case h_10 =>
    simp only [Option.map_eq_some_iff, Prod.mk.injEq, Prod.exists] at read
    obtain ⟨front, tail, parts, rfl, rfl⟩ := read
    have lengths := length_of_readByteArr parts
    exact ⟨by simp only [Value.weight, Value.size]; omega, trivial⟩
  case h_7 =>
    simp only [Option.map_eq_some_iff, Prod.mk.injEq, Prod.exists] at read
    obtain ⟨front, tail, parts, rfl, rfl⟩ := read
    have lengths := length_of_readBytes parts
    exact ⟨by simp only [Value.weight, Value.size]; omega, trivial⟩
  case h_11 => simp at read
  all_goals
    simp only [Option.map_eq_some_iff, Prod.mk.injEq, Prod.exists] at read
    obtain ⟨word, tail, parts, rfl, rfl⟩ := read
    have lengths := length_of_readWord parts
    exact ⟨by simp only [Value.weight, Value.size]; omega, trivial⟩

theorem deserializeProps_weighs
    (weighs : Weighs nested)
    {result : List (Int32 × Value H)} (readable : ReadableProps props)
    (read : deserializeProps nested count bytes props = some result) :
    weightProps result ≤ weightProps props + bytes.length ∧
      result.length ≤ props.length + count ∧ ReadableProps result := by
  induction count generalizing bytes props with
  | zero =>
    simp only [deserializeProps, Option.some.injEq] at read
    subst read
    exact ⟨Nat.le_add_right _ _, Nat.le_add_right _ _, readable⟩
  | succ count ih =>
    simp only [deserializeProps] at read
    split at read
    · simp at read
    · rename_i key tail word
      have header := length_of_readWord word
      split at read
      · simp at read
      · rename_i typeId body
        split at read
        · simp at read
        · rename_i value rest parts
          have taken := deserializeValue_weighs weighs parts
          have grown := weight_setProperty props (UInt32.ofNat key).toInt32 value
          have longer := length_setProperty props (UInt32.ofNat key).toInt32 value
          have later := ih (readable_setProperty readable taken.2) read
          simp only [length_cons] at header
          refine ⟨?_, ?_, later.2.2⟩
          · omega
          · omega

theorem deserializeConfig_weighs (depth : Nat) : Weighs (deserializeConfig (H := H) depth) := by
  induction depth with
  | zero =>
    intro bytes props read
    simp [deserializeConfig] at read
  | succ depth ih =>
    intro bytes props read
    simp only [deserializeConfig] at read
    split at read
    · simp at read
    · rename_i long
      split at read
      · simp at read
      · rename_i checks
        split at read
        · simp at read
        · have none : ReadableProps ([] : List (Int32 × Value H)) := trivial
          have taken := deserializeProps_weighs ih none read
          simp only [weightProps, length_nil, length_drop] at taken
          unfold seriHeader at long taken
          refine ⟨by omega, ?_, taken.2.2⟩
          omega

/-! ### What the writer puts out -/

/-- The written part ends inside the buffer, and the buffer is within its limit. -/
def Writer.Ok (writer : Writer) : Prop :=
  writer.out.length ≤ writer.cap ∧ writer.cap ≤ maxBytesPerBuffer

theorem Writer.Ok.put {next : Writer} (ok : writer.Ok) {need grow : Nat}
    (inside : bytes.length ≤ need)
    (covers : need ≤ writer.cap - writer.out.length + grow)
    (written : writer.put need grow bytes = some next) :
    next.out = writer.out ++ bytes ∧ next.Ok ∧ room writer.cap writer.out.length need grow = some next.cap := by
  simp only [Writer.put, Writer.reserve, Option.map_map, Option.map_eq_some_iff,
    Function.comp_apply, Writer.emit] at written
  obtain ⟨granted, room, rfl⟩ := written
  have fits := room_covers ok.1 covers room
  refine ⟨rfl, ⟨?_, room_le ok.2 room⟩, room⟩
  show (writer.out ++ bytes).length ≤ granted
  rw [length_append]
  omega

theorem length_take_mod (value : List UInt8) :
    (value.take (value.length % 2 ^ 32)).length = value.length % 2 ^ 32 := by
  rw [length_take]
  exact Nat.min_eq_left (Nat.mod_le _ _)

theorem start_ok (count : Nat) : Writer.Ok ⟨header 0 count, seriHeader + H.qpage⟩ := by
  refine ⟨?_, H.qpage_le⟩
  rw [length_header, seriHeader]
  exact Nat.le_add_right _ _

theorem length_finish (long : 8 ≤ writer.out.length) : (finish writer).length = writer.out.length := by
  simp only [finish, length_append, length_take, length_toBE, length_drop]
  omega

theorem serializeProps_cons {key : Int32} {value : Value H} {tail : List (Int32 × Value H)}
    {next : Writer}
    (ok : writer.Ok) (written : serializeProps ((key, value) :: tail) writer = some next) :
    ∃ first second third : Writer, second.Ok ∧ second.out = writer.out ++ (toBE 4 key.toUInt32.toNat ++ [value.typeId]) ∧
      room writer.cap writer.out.length 4 H.qpage = some first.cap ∧
      room first.cap (writer.out.length + 4) 1 H.qpage = some second.cap ∧
      serializeValue value second = some third ∧ serializeProps tail third = some next := by
  have page := H.qpage_ge
  simp only [serializeProps] at written
  split at written
  · simp at written
  · rename_i first idWritten
    have idResult := ok.put (by simp) (by omega) idWritten
    split at written
    · simp at written
    · rename_i second typeWritten
      have typeResult := idResult.2.1.put (by simp) (by omega) typeWritten
      split at written
      · simp at written
      · rename_i third valueWritten
        refine ⟨first, second, third, typeResult.2.1, ?_, idResult.2.2, ?_, valueWritten, written⟩
        · rw [typeResult.1, idResult.1, append_assoc]
        · have room := typeResult.2.2
          rwa [idResult.1, length_append, length_toBE] at room

theorem finish_written {last : Writer} (ok : last.Ok)
    (appended : last.out = header 0 count ++ bytes) :
    finish last = header (4 + bytes.length) count ++ bytes ∧ 16 + bytes.length ≤ maxBytesPerBuffer := by
  obtain ⟨out, cap⟩ := last
  obtain rfl : out = _ := appended
  have inside := ok.1
  have within := ok.2
  rw [length_append, length_header] at inside
  exact ⟨finish_header _ _ _, by omega⟩

mutual
theorem serializeValue_appends (value : Value H) {writer next : Writer} (ok : writer.Ok)
    (written : serializeValue value writer = some next) :
    next.Ok ∧ ∃ bytes, next.out = writer.out ++ bytes := by
  have page := H.qpage_ge
  cases value with
  | byte | uint16 | uint32 | uint64 | float | double =>
    have result := ok.put (by simp) (by omega) written
    exact ⟨result.2.1, _, result.1⟩
  | string value =>
    have result := ok.put (by simp) (by unfold lengthGrow; omega) written
    exact ⟨result.2.1, _, result.1⟩
  | dMsg msg =>
    simp only [serializeValue] at written
    split at written
    · simp at written
    · have result := ok.put (by simp; omega) (by unfold lengthGrow; omega) written
      exact ⟨result.2.1, _, result.1⟩
  | null =>
    simp only [serializeValue] at written
    split at written
    · simp at written
    · rename_i free
      simp only [Option.some.injEq] at written
      subst written
      refine ⟨⟨?_, ok.2⟩, _, rfl⟩
      have inside := ok.1
      simp only [Writer.emit, length_append, length_cons, length_nil]
      unfold seriHeaderBase at free
      omega
  | config props =>
    simp only [serializeValue] at written
    split at written
    · simp at written
    · have result := ok.put (Nat.le_refl _) (by omega) written
      exact ⟨result.2.1, _, result.1⟩
  | object obj =>
    have result := ok.put (Nat.le_refl _) (by omega) written
    exact ⟨result.2.1, _, result.1⟩
  | byteArr value =>
    simp only [serializeValue] at written
    split at written
    · simp only [Writer.reserve, Option.map_eq_some_iff] at written
      obtain ⟨granted, room, rfl⟩ := written
      have fits := room_covers ok.1 (by unfold lengthGrow; omega) room
      have inside : writer.out.length ≤ granted := by omega
      exact ⟨⟨inside, room_le ok.2 room⟩, [], (append_nil _).symm⟩
    · have result := ok.put (by simp; omega) (by unfold lengthGrow; omega) written
      exact ⟨result.2.1, _, result.1⟩

theorem serializeProps_appends (props : List (Int32 × Value H)) {writer next : Writer}
    (ok : writer.Ok) (written : serializeProps props writer = some next) :
    next.Ok ∧ ∃ bytes, next.out = writer.out ++ bytes ∧ 5 * props.length ≤ bytes.length := by
  have page := H.qpage_ge
  match props with
  | [] =>
    simp only [serializeProps, Option.some.injEq] at written
    subst written
    exact ⟨ok, [], (append_nil _).symm, Nat.le_refl _⟩
  | (key, value) :: tail =>
    obtain ⟨first, second, third, secondOk, secondOut, idRoom, typeRoom, valueWritten, written⟩ :=
      serializeProps_cons ok written
    obtain ⟨thirdOk, bytes, appended⟩ :=
      serializeValue_appends value secondOk valueWritten
    obtain ⟨lastOk, rest, restAppended, restLong⟩ :=
      serializeProps_appends tail thirdOk written
    refine ⟨lastOk, toBE 4 key.toUInt32.toNat ++ [value.typeId] ++ bytes ++ rest, ?_, ?_⟩
    · rw [restAppended, appended, secondOut]
      simp only [append_assoc]
    · simp only [length_append, length_toBE, length_cons, length_nil]
      omega
end

mutual
def Value.Tight : Value H → Prop
  | .string value => value.length % 2 ^ 32 = value.length
  | .byteArr value => value.length ≠ 0 ∧ value.length % 2 ^ 32 = value.length
  | .config props => TightProps props
  | _ => True

def TightProps : List (Int32 × Value H) → Prop
  | [] => True
  | (_, value) :: tail => value.Tight ∧ TightProps tail
end

mutual
theorem serializeValue_weight (value : Value H) {writer next : Writer} (ok : writer.Ok)
    (noNull : value.anywhere Value.isNull = false)
    (written : serializeValue value writer = some next) :
    next.out.length ≤ writer.out.length + value.weight ∧
      (next.out.length = writer.out.length + value.weight → value.Tight) := by
  have page := H.qpage_ge
  cases value with
  | byte | uint16 | uint32 | uint64 | float | double =>
    have result := ok.put (by simp) (by omega) written
    rw [result.1]
    exact ⟨by simp [Value.weight, Value.size], fun _ => trivial⟩
  | string value =>
    have result := ok.put (by simp) (by unfold lengthGrow; omega) written
    have shorter := Nat.mod_le value.length (2 ^ 32)
    rw [result.1]
    simp only [length_append, length_toBE, length_take_mod, Value.weight, Value.size, Value.Tight]
    exact ⟨by omega, by omega⟩
  | dMsg msg =>
    simp only [serializeValue] at written
    split at written
    · simp at written
    · rename_i bytes message
      have result := ok.put (by simp; omega) (by unfold lengthGrow; omega) written
      unfold serializeMsg at message
      split at message
      · simp at message
      · simp only [Option.some.injEq] at message
        subst message
        rw [result.1]
        simp only [length_append, length_toBE, Value.weight, Value.size]
        exact ⟨by omega, fun _ => trivial⟩
  | null => simp [Value.anywhere, Value.isNull] at noNull
  | config props =>
    simp only [serializeValue] at written
    split at written
    · simp at written
    · rename_i inner innerWritten
      have start := start_ok (H := H) (props.length % 2 ^ 32)
      have result := ok.put (Nat.le_refl _) (by omega) written
      have innerWeight := serializeProps_weight props start
        (by simpa [Value.anywhere, Value.isNull] using noNull) innerWritten
      obtain ⟨_, bytes, appended, _⟩ := serializeProps_appends props start innerWritten
      have long : (finish inner).length = inner.out.length := by
        apply length_finish
        rw [appended, length_append, length_header]
        omega
      rw [length_header] at innerWeight
      rw [result.1, length_append, long, Value.weight]
      exact ⟨by omega, fun equal => innerWeight.2 (by omega)⟩
  | object obj =>
    have result := ok.put (Nat.le_refl _) (by omega) written
    rw [result.1]
    simp only [length_append, ObjectClasses.length_serialized, Value.weight, Value.size]
    exact ⟨by omega, fun _ => trivial⟩
  | byteArr value =>
    have shorter := Nat.mod_le value.length (2 ^ 32)
    simp only [Value.weight, Value.size, Value.Tight]
    simp only [serializeValue] at written
    split at written
    · simp only [Writer.reserve, Option.map_eq_some_iff] at written
      obtain ⟨granted, room, rfl⟩ := written
      refine ⟨Nat.le_add_right _ _, fun equal => ?_⟩
      have same : writer.out.length = writer.out.length + (4 + value.length) := equal
      omega
    · have result := ok.put (by simp; omega) (by unfold lengthGrow; omega) written
      rw [result.1]
      simp only [length_append, length_toBE, length_take_mod]
      exact ⟨by omega, by omega⟩

theorem serializeProps_weight (props : List (Int32 × Value H)) {writer next : Writer}
    (ok : writer.Ok) (noNull : anywhereProps Value.isNull props = false)
    (written : serializeProps props writer = some next) :
    next.out.length ≤ writer.out.length + weightProps props ∧
      (next.out.length = writer.out.length + weightProps props → TightProps props) := by
  have page := H.qpage_ge
  match props with
  | [] =>
    simp only [serializeProps, Option.some.injEq] at written
    subst written
    exact ⟨Nat.le_add_right _ _, fun _ => trivial⟩
  | (key, value) :: tail =>
    simp only [anywhereProps, Bool.or_eq_false_iff] at noNull
    obtain ⟨first, second, third, secondOk, secondOut, idRoom, typeRoom, valueWritten, written⟩ :=
      serializeProps_cons ok written
    have valueWeight :=
      serializeValue_weight value secondOk noNull.1 valueWritten
    have valueOk := (serializeValue_appends value secondOk valueWritten).1
    have tailWeight := serializeProps_weight tail valueOk noNull.2 written
    have start : second.out.length = writer.out.length + 5 := by
      rw [secondOut]
      simp only [length_append, length_toBE, length_cons, length_nil]
    simp only [weightProps]
    refine ⟨by omega, fun equal => ⟨valueWeight.2 ?_, tailWeight.2 ?_⟩⟩
    · omega
    · omega
end

mutual
theorem sound_of_serializeValue (value : Value H) {writer next : Writer} (ok : writer.Ok)
    (noNull : value.anywhere Value.isNull = false) (tight : value.Tight)
    (readable : value.Readable) (written : serializeValue value writer = some next) :
    value.Sound ∧ next.out.length = writer.out.length + value.size ∧
      room writer.cap writer.out.length value.size (value.grow writer.cap writer.out.length) =
        some next.cap := by
  have page := H.qpage_ge
  cases value with
  | byte | uint16 | uint32 | uint64 | float | double =>
    have result := ok.put (by simp) (by omega) written
    exact ⟨trivial, by rw [result.1]; simp [Value.size], result.2.2⟩
  | string value =>
    have len : value.length % 2 ^ 32 = value.length := tight
    simp only [serializeValue, len, take_length] at written
    have result := ok.put (by simp) (by unfold lengthGrow; omega) written
    refine ⟨trivial, ?_, result.2.2⟩
    rw [result.1]
    simp only [length_append, length_toBE, Value.size]
  | dMsg msg => exact absurd readable id
  | null => simp [Value.anywhere, Value.isNull] at noNull
  | config props =>
    simp only [serializeValue] at written
    split at written
    · simp at written
    · rename_i inner innerWritten
      have start := start_ok (H := H) (props.length % 2 ^ 32)
      have result := ok.put (Nat.le_refl _) (by omega) written
      have innerSound := sound_of_serializeProps props start
        (by simpa [Value.anywhere, Value.isNull] using noNull) tight readable.2 innerWritten
      have long : (finish inner).length = (Value.config props).size := by
        rw [length_finish]
        · rw [innerSound.2.1, length_header, Value.size]
        · rw [innerSound.2.1, length_header]
          omega
      have fits : Fits props := by
        have grown := innerSound.2.2
        simp only [length_header] at grown
        exact Option.isSome_iff_exists.2 ⟨_, grown⟩
      refine ⟨⟨readable.1, fits, innerSound.1⟩, ?_, ?_⟩
      · rw [result.1, length_append, long]
      · have room := result.2.2
        rw [long] at room
        exact room
  | object obj =>
    have result := ok.put (Nat.le_refl _) (by omega) written
    have length : (H.serialized obj).length = (Value.object (H := H) obj).size := by
      rw [ObjectClasses.length_serialized, Value.size]
    refine ⟨trivial, ?_, ?_⟩
    · rw [result.1, length_append, length]
    · have room := result.2.2
      rw [length] at room
      exact room
  | byteArr value =>
    obtain ⟨nonempty, len⟩ := tight
    simp only [serializeValue, len, take_length, if_neg nonempty] at written
    have result := ok.put (by simp; omega) (by unfold lengthGrow; omega) written
    refine ⟨fun none => nonempty (none ▸ rfl), ?_, ?_⟩
    · rw [result.1]
      simp only [length_append, length_toBE, Value.size]
    · have room := result.2.2
      rw [Nat.add_comm] at room
      exact room

theorem sound_of_serializeProps (props : List (Int32 × Value H)) {writer next : Writer}
    (ok : writer.Ok) (noNull : anywhereProps Value.isNull props = false)
    (tight : TightProps props) (readable : ReadableProps props)
    (written : serializeProps props writer = some next) :
    SoundProps props ∧ next.out.length = writer.out.length + sizeProps props ∧
      capacity writer.cap writer.out.length props = some next.cap := by
  have page := H.qpage_ge
  match props with
  | [] =>
    simp only [serializeProps, Option.some.injEq] at written
    subst written
    exact ⟨trivial, rfl, rfl⟩
  | (key, value) :: tail =>
    simp only [anywhereProps, Bool.or_eq_false_iff] at noNull
    obtain ⟨first, second, third, secondOk, secondOut, idRoom, typeRoom, valueWritten, written⟩ :=
      serializeProps_cons ok written
    have valueSound := sound_of_serializeValue value secondOk noNull.1 tight.1 readable.1 valueWritten
    have valueOk := (serializeValue_appends value secondOk valueWritten).1
    have tailSound := sound_of_serializeProps tail valueOk noNull.2 tight.2 readable.2 written
    have typeLength : second.out.length = writer.out.length + 5 := by
      rw [secondOut, length_append, length_append, length_toBE, length_singleton]
    have valueRoom := valueSound.2.2
    have tailRoom := tailSound.2.2
    rw [typeLength] at valueRoom
    rw [valueSound.2.1, typeLength] at tailRoom
    refine ⟨⟨valueSound.1, tailSound.1⟩, ?_, ?_⟩
    · rw [tailSound.2.1, valueSound.2.1, typeLength, sizeProps]
      omega
    · simp only [capacity, idRoom, typeRoom, valueRoom]
      exact tailRoom
end

/-! ### A null object stops an unshifted reader -/

/-- Whatever the reader makes of the bytes of a property, it goes on right
behind them, and the property holds no null object. -/
def Aligned (value : Value H) (bytes : List UInt8) : Prop :=
  ∀ depth rest (result : Value H × List UInt8),
    deserializeValue (deserializeConfig (H := H) depth) value.typeId (bytes ++ rest) =
        some result →
      result.2 = rest ∧ value.anywhere Value.isNull = false

theorem aligned_of_read
    (noNull : value.anywhere Value.isNull = false)
    (read : ∀ depth rest, ∃ result : Value H,
      deserializeValue (deserializeConfig (H := H) depth) value.typeId (bytes ++ rest) =
        some (result, rest)) : Aligned value bytes := by
  intro depth rest result found
  obtain ⟨value, same⟩ := read depth rest
  rw [same] at found
  injection found with equal
  rw [← equal]
  exact ⟨rfl, noNull⟩

theorem aligned_null : Aligned (H := H) .null ([0, 0, 0, 0] ++ [0, 0, 0, 0] ++ [1, 0, 0, 0]) := by
  intro depth rest result found
  have framed := deserializeObj_framed (deserializeConfig (H := H) depth)
    0 [1, 0, 0, 0] rest (by decide) (by decide) (by decide)
  have zero : toBE 4 0 = [0, 0, 0, 0] := by decide
  simp only [length_cons, length_nil] at framed
  rw [show 0 + 1 + 1 + 1 + 1 - 4 = 0 from rfl, zero, if_neg (by decide), if_neg (by decide),
    H.newObj_zero, ← append_assoc] at framed
  have read : deserializeObj (deserializeConfig (H := H) depth)
      ([0, 0, 0, 0] ++ [0, 0, 0, 0] ++ [1, 0, 0, 0] ++ rest) = some result := found
  rw [framed] at read
  simp at read

theorem deserializeMsg_aligned (msg : H.Msg) (bytes : List UInt8)
    (message : serializeMsg msg = some bytes) : Aligned (.dMsg msg) (counted bytes) := by
  intro depth rest result found
  have limit : dmsgMaxSize + 4 < 2 ^ 32 := by decide
  unfold serializeMsg at message
  split at message
  · simp at message
  · rename_i short
    simp only [Option.some.injEq] at message
    have small : bytes.length < 2 ^ 32 := by
      rw [← message, length_append, length_toBE]
      omega
    have word := readWord_toBE 4 small (bytes ++ rest)
    rw [counted, append_assoc] at found
    simp only [deserializeValue, Value.typeId, word, split_append rfl rest] at found
    simp only [Option.map_eq_some_iff] at found
    obtain ⟨back, _, rfl⟩ := found
    exact ⟨rfl, rfl⟩

/-- The reader of nested configurations refuses what was written of a
configuration with a null object. -/
theorem deserializeConfig_aligned
    (small : 16 + bytes.length ≤ maxBytesPerBuffer) (long : 5 * props.length ≤ bytes.length)
    (aligned : ∀ depth (read result : List (Int32 × Value H)),
      deserializeProps (deserializeConfig (H := H) depth) props.length bytes read = some result →
        anywhereProps Value.isNull props = false)
    {depth : Nat} {result : List (Int32 × Value H)}
    (read : deserializeConfig depth
      (header (4 + bytes.length) (props.length % 2 ^ 32) ++ bytes) = some result) :
    anywhereProps Value.isNull props = false := by
  have limit : maxBytesPerBuffer < 2 ^ 32 := by decide
  have count : props.length % 2 ^ 32 = props.length := Nat.mod_eq_of_lt (by omega)
  cases depth with
  | zero => simp [deserializeConfig] at read
  | succ depth =>
    rw [count] at read
    have countBytes : (header (4 + bytes.length) props.length ++ bytes).drop 12 =
        toBE 4 props.length ++ bytes := by
      simp only [header, append_assoc]
      rw [← append_assoc, ← append_assoc (toBE 4 clsidCConfigDb2 ++ _)]
      exact drop_left' (by
        simp only [length_append, length_toBE, length_cons, length_nil])
    have countWord : ofBE (((header (4 + bytes.length) props.length ++ bytes).drop 12).take 4) =
        props.length := by
      rw [countBytes, take_left' (length_toBE 4 _), ofBE_toBE_of_lt (by omega)]
    have body : (header (4 + bytes.length) props.length ++ bytes).drop seriHeader = bytes :=
      drop_left' (length_header _ _)
    simp only [deserializeConfig, countWord, body] at read
    split at read
    · simp at read
    · split at read
      · simp at read
      · split at read
        · simp at read
        · exact aligned depth [] result read

mutual
theorem serializeValue_aligned (value : Value H) {writer next : Writer} (ok : writer.Ok)
    (noEmpty : value.anywhere Value.isEmptyArr = false)
    (written : serializeValue value writer = some next) :
    ∃ bytes, next.out = writer.out ++ bytes ∧ Aligned value bytes := by
  have page := H.qpage_ge
  have limit : maxBytesPerBuffer < 2 ^ 32 := by decide
  cases value with
  | byte value =>
    refine ⟨_, (ok.put (by simp) (by omega) written).1, aligned_of_read rfl ?_⟩
    intro depth rest
    have word := readWord_toBE 1 (UInt8.toNat_lt value) rest
    simp only [deserializeValue, Value.typeId, word]
    exact ⟨_, rfl⟩
  | uint16 value =>
    refine ⟨_, (ok.put (by simp) (by omega) written).1, aligned_of_read rfl ?_⟩
    intro depth rest
    have word := readWord_toBE 2 (UInt16.toNat_lt value) rest
    simp only [deserializeValue, Value.typeId, word]
    exact ⟨_, rfl⟩
  | uint32 value | float value =>
    refine ⟨_, (ok.put (by simp) (by omega) written).1, aligned_of_read rfl ?_⟩
    intro depth rest
    have word := readWord_toBE 4 (UInt32.toNat_lt value) rest
    simp only [deserializeValue, Value.typeId, word]
    exact ⟨_, rfl⟩
  | uint64 value | double value =>
    refine ⟨_, (ok.put (by simp) (by omega) written).1, aligned_of_read rfl ?_⟩
    intro depth rest
    have word := readWord_toBE 8 (UInt64.toNat_lt value) rest
    simp only [deserializeValue, Value.typeId, word]
    exact ⟨_, rfl⟩
  | string value =>
    have result := ok.put (by simp) (by unfold lengthGrow; omega) written
    refine ⟨_, result.1, aligned_of_read rfl ?_⟩
    intro depth rest
    have length := length_take_mod value
    have bytes := readBytes_counted (value.take (value.length % 2 ^ 32)) (by rw [length]; omega) rest
    rw [counted, length] at bytes
    simp only [deserializeValue, Value.typeId, bytes]
    exact ⟨_, rfl⟩
  | dMsg msg =>
    simp only [serializeValue] at written
    split at written
    · simp at written
    · rename_i bytes message
      have result := ok.put (by simp; omega) (by unfold lengthGrow; omega) written
      exact ⟨_, result.1, deserializeMsg_aligned msg bytes message⟩
  | null =>
    simp only [serializeValue] at written
    split at written
    · simp at written
    · simp only [Option.some.injEq] at written
      subst written
      exact ⟨_, rfl, aligned_null⟩
  | config props =>
    simp only [serializeValue] at written
    split at written
    · simp at written
    · rename_i inner innerWritten
      have start := start_ok (H := H) (props.length % 2 ^ 32)
      have result := ok.put (Nat.le_refl _) (by omega) written
      obtain ⟨innerOk, bytes, appended, long⟩ :=
        serializeProps_appends props start innerWritten
      have aligned := serializeProps_aligned props start
        (by simpa [Value.anywhere, Value.isEmptyArr] using noEmpty) innerWritten
      obtain ⟨whole, small⟩ := finish_written innerOk appended
      refine ⟨_, result.1, ?_⟩
      intro depth rest found read
      rw [whole] at read
      have framed := deserializeObj_framed (deserializeConfig (H := H) depth) clsidCConfigDb2
        ([2, 0, 0, 0] ++ (toBE 4 (props.length % 2 ^ 32) ++ bytes)) rest (by decide)
        (by simp) (by simp; omega)
      have bodyLength : ([2, 0, 0, 0] ++ (toBE 4 (props.length % 2 ^ 32) ++ bytes)).length - 4 =
          4 + bytes.length := by
        simp only [length_append, length_toBE, length_cons, length_nil]
        omega
      have layout : toBE 4 clsidCConfigDb2 ++ (toBE 4 (4 + bytes.length) ++
          ([2, 0, 0, 0] ++ (toBE 4 (props.length % 2 ^ 32) ++ bytes))) =
          header (4 + bytes.length) (props.length % 2 ^ 32) ++ bytes := by
        simp only [header, append_assoc]
      rw [bodyLength, layout, if_neg (by decide), if_pos rfl] at framed
      simp only [deserializeValue, Value.typeId, framed, Option.map_eq_some_iff] at read
      obtain ⟨back, nested, rfl⟩ := read
      have noNull := deserializeConfig_aligned small long
        (fun depth read result => aligned depth bytes appended read result) nested
      exact ⟨rfl, by simpa [Value.anywhere, Value.isNull] using noNull⟩
  | object obj =>
    have result := ok.put (Nat.le_refl _) (by omega) written
    obtain ⟨body, layout, length⟩ := object_layout_framed obj
    have bound : (H.serialized obj).length ≤ maxBytesPerBuffer := by
      have inside := result.2.1.1
      have within := result.2.1.2
      rw [result.1, length_append] at inside
      omega
    rw [ObjectClasses.length_serialized] at bound
    refine ⟨_, result.1, aligned_of_read rfl ?_⟩
    intro depth rest
    have made : H.newObj (H.clsid obj) (H.serialized obj) = some obj := by
      have law := H.newObj_serialized obj []
      rw [append_nil] at law
      exact law
    have same : H.serialized obj = toBE 4 (H.clsid obj) ++ (toBE 4 (body.length - 4) ++ body) := layout
    have framed := deserializeObj_framed (deserializeConfig (H := H) depth) (H.clsid obj)
      body rest (H.clsid_lt obj) (by omega) (by omega)
    rw [← same, if_neg (H.clsid_ne_invalid obj), if_neg (H.clsid_ne_config obj), made] at framed
    exact ⟨.object obj, framed⟩
  | byteArr value =>
    simp only [Value.anywhere, Value.isEmptyArr, beq_eq_false_iff_ne, ne_eq] at noEmpty
    simp only [serializeValue, if_neg noEmpty] at written
    have result := ok.put (by simp; omega) (by unfold lengthGrow; omega) written
    have bound : value.length % 2 ^ 32 ≤ maxBytesPerBuffer := by
      have inside := result.2.1.1
      have within := result.2.1.2
      rw [result.1, length_append, length_append, length_take_mod] at inside
      omega
    refine ⟨_, result.1, aligned_of_read rfl ?_⟩
    intro depth rest
    have length := length_take_mod value
    have bytes := readByteArr_counted (value.take (value.length % 2 ^ 32)) (by rw [length]; exact bound) rest
    rw [counted, length] at bytes
    simp only [deserializeValue, Value.typeId, bytes]
    exact ⟨_, rfl⟩

theorem serializeProps_aligned (props : List (Int32 × Value H)) {writer next : Writer}
    (ok : writer.Ok) (noEmpty : anywhereProps Value.isEmptyArr props = false)
    (written : serializeProps props writer = some next) :
    ∀ depth bytes, next.out = writer.out ++ bytes → ∀ (read result : List (Int32 × Value H)),
      deserializeProps (deserializeConfig (H := H) depth) props.length bytes read = some result →
        anywhereProps Value.isNull props = false := by
  have page := H.qpage_ge
  match props with
  | [] => exact fun _ _ _ _ _ _ => rfl
  | (key, value) :: tail =>
    simp only [anywhereProps, Bool.or_eq_false_iff] at noEmpty ⊢
    obtain ⟨first, second, third, secondOk, secondOut, idRoom, typeRoom, valueWritten, written⟩ :=
      serializeProps_cons ok written
    obtain ⟨front, valueOut, aligned⟩ :=
      serializeValue_aligned value secondOk noEmpty.1 valueWritten
    have valueOk := (serializeValue_appends value secondOk valueWritten).1
    obtain ⟨_, back, tailOut, _⟩ := serializeProps_appends tail valueOk written
    intro depth bytes whole read result found
    rw [tailOut, valueOut, secondOut] at whole
    simp only [append_assoc, append_cancel_left_eq] at whole
    subst whole
    have id := readWord_toBE 4 (UInt32.toNat_lt key.toUInt32) ([value.typeId] ++ (front ++ back))
    simp only [cons_append, nil_append] at id found
    simp only [length_cons, deserializeProps, id] at found
    split at found
    · simp at found
    · rename_i value' rest valueFound
      obtain ⟨behind, noNull⟩ := aligned depth back _ valueFound
      subst behind
      exact ⟨noNull, serializeProps_aligned tail valueOk noEmpty.2 written depth rest tailOut _ result found⟩
end

def ConfigDb2.HasNull (config : ConfigDb2 H) : Prop :=
  anywhereProps Value.isNull config.props = true

def ConfigDb2.HasEmptyArr (config : ConfigDb2 H) : Prop :=
  anywhereProps Value.isEmptyArr config.props = true

theorem sound_of_roundTrips {config : ConfigDb2 H}
    (noNull : anywhereProps Value.isNull config.props = false) (trips : RoundTrips config) :
    config.Sound := by
  obtain ⟨bytes, written, props, read, same⟩ := trips
  simp only [serialize, Option.map_eq_some_iff] at written
  obtain ⟨last, loop, rfl⟩ := written
  have start := start_ok (H := H) (config.props.length % 2 ^ 32)
  obtain ⟨_, body, appended, _⟩ := serializeProps_appends config.props start loop
  have long : 16 ≤ last.out.length := by
    rw [appended, length_append, length_header]
    omega
  have weight := serializeProps_weight config.props start noNull loop
  have taken := deserializeConfig_weighs _ _ _ read
  rw [length_finish (by omega)] at taken
  rw [length_header] at weight
  have equal := SameProps.weight_eq same
  have tight := weight.2 (by omega)
  have readable := SameProps.readable same taken.2.2
  have sound := sound_of_serializeProps config.props start noNull tight readable loop
  have grown := sound.2.2
  simp only [length_header] at grown
  refine ⟨?_, Option.isSome_iff_exists.2 ⟨_, grown⟩, sound.1⟩
  rw [SameProps.length_eq same]
  exact taken.2.1

theorem noNull_of_roundTrips {config : ConfigDb2 H}
    (noEmpty : anywhereProps Value.isEmptyArr config.props = false) (trips : RoundTrips config) :
    anywhereProps Value.isNull config.props = false := by
  obtain ⟨bytes, written, props, read, _⟩ := trips
  simp only [serialize, Option.map_eq_some_iff] at written
  obtain ⟨last, loop, rfl⟩ := written
  have start := start_ok (H := H) (config.props.length % 2 ^ 32)
  obtain ⟨lastOk, body, appended, long⟩ := serializeProps_appends config.props start loop
  have aligned := serializeProps_aligned config.props start noEmpty loop
  obtain ⟨whole, small⟩ := finish_written lastOk appended
  rw [deserialize, whole] at read
  exact deserializeConfig_aligned small long
    (fun depth read result => aligned depth body appended read result) read

/-- A sound configuration survives. A configuration that survives is sound,
unless it holds both a null object and an empty byte array. -/
theorem roundTrips_iff_sound (config : ConfigDb2 H) :
    (config.Sound → RoundTrips config) ∧
      (RoundTrips config → config.Sound ∨ (config.HasNull ∧ config.HasEmptyArr)) := by
  refine ⟨roundTrips_of_sound, fun trips => ?_⟩
  cases noNull : anywhereProps Value.isNull config.props with
  | false => exact .inl (sound_of_roundTrips noNull trips)
  | true =>
    cases noEmpty : anywhereProps Value.isEmptyArr config.props with
    | false =>
      rw [noNull_of_roundTrips noEmpty trips] at noNull
      exact absurd noNull Bool.false_ne_true
    | true => exact .inr ⟨noNull, noEmpty⟩

def bareHost : ConfigHost where
  toObjectClasses := .empty
  clsid_ne_config obj := obj.elim
  clsid_ne_invalid obj := obj.elim
  newObj_zero _ := rfl
  newObj_frugal made := nomatch made
  Msg := Empty
  marshal := Empty.elim
  demarshal _ := none
  qpage := 2048
  qpage_ge := by decide
  qpage_le := by decide

def emptyArrOnly : ConfigDb2 bareHost :=
  ⟨[(0, .byteArr [])], by simp [DistinctProps, Value.Distinct]⟩

/-- The output ends behind the type byte, where the reader expects a length. -/
theorem deserialize_emptyArrOnly :
    ∃ bytes, serialize emptyArrOnly.props = some bytes ∧ bytes.length = 21 ∧
      deserialize (H := bareHost) bytes = none ∧ ¬ RoundTrips emptyArrOnly := by
  have written : serialize emptyArrOnly.props =
      some [0, 0, 9, 0x17, 0, 0, 0, 9, 2, 0, 0, 0, 0, 0, 0, 1, 0, 0, 0, 0, 10] := rfl
  have refused : deserialize (H := bareHost)
      [0, 0, 9, 0x17, 0, 0, 0, 9, 2, 0, 0, 0, 0, 0, 0, 1, 0, 0, 0, 0, 10] = none :=
    Option.isNone_iff_eq_none.1 (by decide)
  refine ⟨_, written, rfl, refused, ?_⟩
  rintro ⟨bytes, again, props, read, _⟩
  rw [written, Option.some.injEq] at again
  subst again
  rw [refused] at read
  exact absurd read (by simp)

end RpcFrmwrk.ConfigDb
