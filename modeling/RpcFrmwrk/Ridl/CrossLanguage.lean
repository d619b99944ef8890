import RpcFrmwrk.Ridl.JavaAgree
import RpcFrmwrk.Ridl.JsAgree

/-! A message that one runtime writes and another reads. Owns the fields of a message, written one
after the other by each of the three runtimes; `readFields`, the fields read in turn; the exact
condition for Java, and that for JavaScript, to read them all back. -/

namespace RpcFrmwrk.Ridl

open RpcFrmwrk.Library List

variable {C : RidlClasses}

abbrev TypedField (C : RidlClasses) : Type := Σ type : FieldType, type.Val C

def layoutFields (fields : List (TypedField C)) : List UInt8 :=
  fields.flatMap fun field => field.1.layout field.2

def signatures (fields : List (TypedField C)) : List (List Char) :=
  fields.map fun field => field.1.signature ['O']

inductive Runtime where
  | cpp | js | java

namespace Runtime

def jsStep (oBuf : Option (List UInt8)) (field : TypedField C) : Option (Option (List UInt8)) :=
  (Js.serialField (Js.ofVal field.1 field.2) (field.1.signature ['O']) oBuf).map some

/-- The bytes of the fields. `JavaScript` starts without a buffer, and Java with one of any size. -/
def write (initial : List UInt8) : Runtime → List (TypedField C) → Option (List UInt8)
  | .cpp, fields =>
    let (ret, buf) := serialElems (fun field => serialField C field.1 (field.1.signature ['O']) field.2) fields .empty
    if ret.failed then none else some buf.data
  | .js, fields => (fields.foldlM jsStep none).map fun oBuf => oBuf.getD []
  | .java, fields =>
    let elem (field : TypedField C) :=
      Java.serialElem (field.1.signature ['O']).length (Java.ofVal field.1 field.2) (field.1.signature ['O'])
    (Java.serialElems elem fields (initial, 0)).map fun pos => pos.1.take pos.2

def WriteClean : Runtime → TypedField C → Prop
  | .cpp, _ => True
  | .js, field => Js.FieldClean field.1 field.2
  | .java, field => Java.WriteClean field.1 field.2

/-- A message that the runtime writes as it should. -/
structure Sends (writer : Runtime) (fields : List (TypedField C)) : Prop where
  carried : ∀ field ∈ fields, field.1.Carried field.2
  clean : ∀ field ∈ fields, writer.WriteClean field
  small : (layoutFields fields).length ≤ maxBytesPerBuffer

variable {initial : List UInt8} {fields : List (TypedField C)}

theorem write_js (clean : ∀ field ∈ fields, Js.FieldClean field.1 field.2)
    (small : (layoutFields fields).length ≤ maxBytesPerBuffer) (oBuf : Option (List UInt8)) :
    (fields.foldlM jsStep oBuf).map (fun oBuf => oBuf.getD []) = some (Js.concat oBuf (layoutFields fields)) := by
  have limit : maxBytesPerBuffer < 2 ^ 32 := by decide
  induction fields generalizing oBuf with
  | nil => exact congrArg some (append_nil _).symm
  | cons head tail ih =>
    have split : layoutFields (head :: tail) = head.1.layout head.2 ++ layoutFields tail := flatMap_cons
    rw [split, length_append] at small
    have part : (head.1.layout head.2).length < 2 ^ 32 := by omega
    have first : Js.serialField (Js.ofVal head.1 head.2) (head.1.signature ['O']) oBuf =
        some (Js.concat oBuf (head.1.layout head.2)) := by
      obtain ⟨type, value⟩ := head
      have headClean := clean _ mem_cons_self
      cases type with
      | map key elem => exact Js.serialField_entries headClean.1 headClean.2 part oBuf
      | prime | byteArray | objPtr | struct | variant | array =>
        exact Js.serialElem_clean _ headClean part (Nat.le_refl _) oBuf
    have rest := ih (fun field member => clean field (mem_cons_of_mem _ member)) (by omega)
      (some (Js.concat oBuf (head.1.layout head.2)))
    rw [foldlM_cons, jsStep, first, Option.map_some, split]
    exact rest.trans (congrArg some (append_assoc _ _ _))

/-- All three write the layout of the fields. -/
theorem Sends.write_layout {writer : Runtime} (sends : writer.Sends fields) (room : initial ≠ []) :
    writer.write initial fields = some (layoutFields fields) := by
  obtain ⟨carried, clean, small⟩ := sends
  cases writer with
  | cpp =>
    have writes := serialElems_writes
      (fun field member => serialField_writes ['O'] (Sigma.fst field) (carried field member)) []
      (by rw [length_nil, Nat.zero_add]; exact small)
    show (if _ then _ else _) = _
    rw [show CBuffer.empty = CBuffer.cursor [] [] from rfl, writes]
    exact congrArg some (append_nil _)
  | js => exact write_js clean small none
  | java =>
    have isObject : ['O'] = 'O' :: [] := rfl
    have appends := Java.serialElems_appends fun field member =>
      (Java.serialElem_decides isObject (Sigma.fst field) field.2 (Nat.le_refl _)).1 (clean field member)
    obtain ⟨after, wrote, _, isWrote⟩ := appends (initial, 0) room (Nat.zero_le _)
      (by rw [Nat.zero_add]; exact small)
    show Option.map _ _ = _
    rw [wrote, Option.map_some, isWrote.taken]
    rfl

theorem Sends.part_le {writer : Runtime} (sends : writer.Sends fields) {field : TypedField C} (member : field ∈ fields) :
    (field.1.layout field.2).length ≤ maxBytesPerBuffer :=
  Nat.le_trans (mem_layout_le (fun field : TypedField C => field.1.layout field.2) member) sends.small

end Runtime

/-- The method for each signature, called where the one before left the offset. -/
def readFields {β : Type} (read : List Char → List UInt8 → Nat → Option (β × Nat)) :
    List (List Char) → List UInt8 → Nat → Option (List β × Nat)
  | [], _, offset => some ([], offset)
  | sig :: rest, buf, offset =>
    (read sig buf offset).bind fun first =>
      (readFields read rest buf first.2).map fun found => (first.1 :: found.1, found.2)

section

variable {β : Type} {read : List Char → List UInt8 → Nat → Option (β × Nat)} {form : TypedField C → β}
    {clean : TypedField C → Prop} {fields : List (TypedField C)}

open Java (ReadsBack)

theorem readFields_readsBack (reads : ∀ field ∈ fields,
      ReadsBack (read (field.1.signature ['O'])) (field.1.layout field.2) (form field) (clean field)) :
    ReadsBack (readFields read (signatures fields)) (layoutFields fields) (fields.map form)
      (∀ field ∈ fields, clean field) := by
  induction fields with
  | nil => exact .of_reads (fun _ _ _ => rfl) (forall_mem_nil _)
  | cons head tail ih =>
    have rest := ih fun field member => reads field (mem_cons_of_mem _ member)
    have pairs := ((reads head mem_cons_self).bind rest).map (fun pair => pair.1 :: pair.2) fun left same =>
      Prod.ext (cons.inj same).1 (cons.inj same).2
    refine (pairs.congr fun block offset _ => ?_).imp forall_mem_cons.symm
    show (read (head.1.signature ['O']) block offset).bind _ = _
    rw [Option.map_bind]
    apply congrArg
    funext first
    show _ = Option.map _ (Option.map _ _)
    rw [Option.map_map]
    rfl

theorem Java.ReadsBack.whole_iff {value : β} {bytes : List UInt8} {holds : Prop}
    {read : List UInt8 → Nat → Option (β × Nat)} (readsBack : ReadsBack read bytes value holds) :
    read bytes 0 = some (value, bytes.length) ↔ holds := by
  obtain ⟨result, isRead, exact⟩ := readsBack
  have stands := BytesAt.of_append [] bytes []
  rw [append_nil, nil_append, length_nil] at stands
  rw [isRead bytes 0 stands, ← exact, Nat.zero_add, Option.map_eq_some_iff]
  constructor
  · rintro ⟨found, isResult, same⟩
    rw [isResult, (Prod.mk.inj same).1]
  · exact fun isResult => ⟨value, isResult, rfl⟩

end

def Java.readField (sig : List Char) (buf : List UInt8) (pos : Nat) : Option (JavaVal C × Nat) :=
  deserialElem sig.length buf pos sig

def Js.readField (sig : List Char) (oBuf : List UInt8) (offset : Nat) : Option (JsVal C × Nat) :=
  deserialField oBuf offset sig

/-- What `JavaScript` reads back: it is clean, but a map may have no entries. -/
def Js.ReadClean : (type : FieldType) → type.Val C → Prop
  | .map key elem, values => ∀ entry ∈ values.entries, PrimeClean key entry.1 ∧ ElemClean elem entry.2
  | type, value => ElemClean type value

theorem Js.deserialField_readsBack (type : FieldType) {value : type.Val C} (carried : type.Carried value)
    (small : (type.layout value).length ≤ maxBytesPerBuffer) :
    Java.ReadsBack (readField (type.signature ['O'])) (type.layout value)
      (ofVal type value) (ReadClean type value) := by
  cases type with
  | prime type =>
    refine ⟨_, fun _ _ stands => ?_, readElem_iff _ value⟩
    rw [← deserialElem_at _ carried small (Nat.le_refl _) stands]
    cases type with
    | fixed type => cases type <;> rfl
    | string => rfl
  | byteArray | objPtr | struct | variant | array =>
    exact ⟨_, fun _ _ => deserialElem_at _ carried small (Nat.le_refl _), readElem_iff _ value⟩
  | map key elem => exact ⟨_, fun _ _ => deserialMap_at carried small, readMap_iff value⟩

def wordAndBytes : List (TypedField noObjects) := [⟨.prime (.fixed .uint16), (5 : UInt16)⟩, ⟨.byteArray, [1, 2]⟩]

theorem sends_wordAndBytes (writer : Runtime) : writer.Sends wordAndBytes where
  carried field member := by
    rcases mem_pair.1 member with rfl | rfl <;> trivial
  clean field member := by
    rcases mem_pair.1 member with rfl | rfl <;> cases writer <;> first | trivial | exact cons_ne_nil _ _
  small := by decide

section

variable {writer : Runtime} {initial : List UInt8} {fields : List (TypedField C)}

/-- Whichever runtime wrote the fields, `JavaScript` reads all of them back just where each is clean. -/
theorem js_readsMessage_iff (sends : writer.Sends fields) (room : initial ≠ []) :
    ∃ bytes, writer.write initial fields = some bytes ∧
      (readFields Js.readField (signatures fields) bytes 0 =
          some (fields.map fun field => Js.ofVal field.1 field.2, bytes.length) ↔
        ∀ field ∈ fields, Js.ReadClean field.1 field.2) := by
  refine ⟨_, sends.write_layout room, (readFields_readsBack fun field member => ?_).whole_iff⟩
  exact Js.deserialField_readsBack field.1 (sends.carried field member) (sends.part_le member)

theorem js_reads_wordAndBytes : ∃ bytes, Runtime.java.write [0] wordAndBytes = some bytes ∧
    readFields Js.readField (signatures wordAndBytes) bytes 0 =
      some (wordAndBytes.map fun field => Js.ofVal field.1 field.2, bytes.length) := by
  obtain ⟨bytes, wrote, reads⟩ := js_readsMessage_iff (sends_wordAndBytes .java) (cons_ne_nil 0 [])
  refine ⟨bytes, wrote, reads.2 fun field member => ?_⟩
  rcases mem_pair.1 member with rfl | rfl
  · trivial
  · exact cons_ne_nil _ _

end

end RpcFrmwrk.Ridl
