import RpcFrmwrk.Ridl.VariantJson

/-! A JSON library for the documents of variants. It knows objects whose members are numbers and
strings, with the members in the order of their keys and the text without blanks. Owns `jsonText`,
and the proof that it preserves what is written. -/

namespace RpcFrmwrk.Ridl

open RpcFrmwrk.Library List

inductive JsonScalar where
  | null
  | num (value : Nat)
  | str (text : List UInt8)
deriving DecidableEq, Repr

abbrev JsonMember := List UInt8 × JsonScalar

inductive JsonDoc where
  | scalar (val : JsonScalar)
  | object (members : List JsonMember)
deriving DecidableEq, Repr

def hexDigit (value : Nat) : UInt8 := if value < 10 then 48 + UInt8.ofNat value else 87 + UInt8.ofNat value

/-- A character of a string as it is written. -/
def escapeChar (char : UInt8) : List UInt8 :=
  if char = 34 ∨ char = 92 then [92, char]
  else if char < 32 then [92, 117, 48, 48, hexDigit (char.toNat / 16), hexDigit (char.toNat % 16)]
  else [char]

/-- The characters up to the closing quote, and the text behind it. -/
def parseChars : List UInt8 → Option (List UInt8 × List UInt8)
  | [] => none
  | 34 :: text => some ([], text)
  | 92 :: 117 :: 48 :: 48 :: high :: low :: text =>
    (parseChars text).map fun parsed => (UInt8.ofNat (digitValue high * 16 + digitValue low) :: parsed.1, parsed.2)
  | 92 :: char :: text => (parseChars text).map fun parsed => (char :: parsed.1, parsed.2)
  | char :: text => (parseChars text).map fun parsed => (char :: parsed.1, parsed.2)

theorem parseChars_escapeChar (char : UInt8) (text : List UInt8) :
    parseChars (escapeChar char ++ text) = (parseChars text).map fun parsed => (char :: parsed.1, parsed.2) := by
  unfold escapeChar
  by_cases quoted : char = 34 ∨ char = 92
  · rw [if_pos quoted]
    rcases quoted with rfl | rfl
    · rfl
    · rfl
  · rw [if_neg quoted]
    by_cases control : char < 32
    · have all : ∀ char : Fin 32, UInt8.ofNat (digitValue (hexDigit (char / 16)) * 16 +
          digitValue (hexDigit (char % 16))) = UInt8.ofNat char := by decide
      have same := all ⟨char.toNat, control⟩
      rw [UInt8.ofNat_toNat] at same
      rw [if_pos control]
      show (parseChars text).map _ = _
      rw [same]
    · rw [if_neg control]
      obtain ⟨noQuote, noEscape⟩ := not_or.1 quoted
      rw [cons_append, nil_append, parseChars]
      · exact noQuote
      · exact fun _ _ _ same => absurd same noEscape
      · exact fun _ _ same => absurd same noEscape

theorem parseChars_escape (chars text : List UInt8) :
    parseChars (chars.flatMap escapeChar ++ 34 :: text) = some (chars, text) := by
  induction chars with
  | nil => rw [flatMap_nil, nil_append, parseChars]
  | cons char chars ih =>
    rw [flatMap_cons, append_assoc, parseChars_escapeChar, ih]
    rfl

def nullText : List UInt8 := [110, 117, 108, 108]

def writeScalar : JsonScalar → List UInt8
  | .null => nullText
  | .num value => decimal value
  | .str text => 34 :: (text.flatMap escapeChar ++ [34])

def parseScalar (text : List UInt8) : Option (JsonScalar × List UInt8) :=
  if text.head? = some 34 then (parseChars text.tail).map fun parsed => (.str parsed.1, parsed.2)
  else if text.take 4 = nullText then some (.null, text.drop 4)
  else if text.takeWhile (isDigit 10) = [] then none
  else some (.num (valueOf 10 (text.takeWhile (isDigit 10))), text.dropWhile (isDigit 10))

def writeMember (member : JsonMember) : List UInt8 :=
  34 :: (member.1.flatMap escapeChar ++ 34 :: 58 :: writeScalar member.2)

def parseMember (text : List UInt8) : Option (JsonMember × List UInt8) :=
  if text.head? = some 34 then
    match parseChars text.tail with
    | some (key, 58 :: rest) => (parseScalar rest).map fun parsed => ((key, parsed.1), parsed.2)
    | _ => none
  else none

/-- What may stand behind a scalar. -/
def Stops (text : List UInt8) : Prop := ∃ char rest, text = char :: rest ∧ isDigit 10 char = false

theorem parseScalar_write (val : JsonScalar) {text : List UInt8} (stops : Stops text) :
    parseScalar (writeScalar val ++ text) = some (val, text) := by
  cases val with
  | null => rfl
  | str chars =>
    have quoted := parseChars_escape chars text
    unfold parseScalar
    rw [writeScalar, cons_append, append_assoc, cons_append, nil_append, List.head?_cons,
      if_pos rfl, tail_cons, quoted]
    rfl
  | num value =>
    obtain ⟨char, rest, rfl, noDigit⟩ := stops
    have every : ∀ char ∈ decimal value, isDigit 10 char = true := fun _ member => isDigit_decimal member
    have plain : ∀ digit : Fin 10, 48 + UInt8.ofNat digit ≠ 34 ∧ 48 + UInt8.ofNat digit ≠ 110 := by decide
    obtain ⟨first, more, whole⟩ := exists_cons_of_ne_nil (decimal_ne_nil value)
    obtain ⟨digit, small, ascii⟩ := @mem_decimal value first (whole ▸ mem_cons_self)
    obtain ⟨noQuote, noNull⟩ := plain ⟨digit, small⟩
    rw [← ascii] at noQuote noNull
    have taken : (decimal value ++ char :: rest).takeWhile (isDigit 10) = decimal value := by
      rw [takeWhile_append_of_pos every, takeWhile_cons_of_neg (by rw [noDigit]; exact Bool.false_ne_true),
        append_nil]
    have left : (decimal value ++ char :: rest).dropWhile (isDigit 10) = char :: rest := by
      rw [dropWhile_append_of_pos every, dropWhile_cons_of_neg (by rw [noDigit]; exact Bool.false_ne_true)]
    have head : (decimal value ++ char :: rest).head? ≠ some 34 := by
      rw [whole, cons_append, List.head?_cons]
      exact fun same => noQuote (Option.some_inj.1 same)
    have front : (decimal value ++ char :: rest).take 4 ≠ nullText := by
      rw [whole, cons_append, take_succ_cons]
      exact fun same => noNull (List.cons.inj same).1
    unfold parseScalar
    rw [writeScalar, if_neg head, if_neg front, taken, left, if_neg (decimal_ne_nil value), valueOf_decimal]

theorem parseMember_write (member : JsonMember) {text : List UInt8} (stops : Stops text) :
    parseMember (writeMember member ++ text) = some (member, text) := by
  have quoted := parseChars_escape member.1 (58 :: (writeScalar member.2 ++ text))
  have parsed := parseScalar_write member.2 stops
  unfold parseMember
  rw [writeMember, cons_append, append_assoc, cons_append, cons_append, List.head?_cons,
    if_pos rfl, tail_cons, quoted]
  simp only
  rw [parsed]
  rfl

def writeMembers : List JsonMember → List UInt8
  | [] => [125]
  | [member] => writeMember member ++ [125]
  | member :: members => writeMember member ++ 44 :: writeMembers members

def parseMembers : Nat → List UInt8 → Option (List JsonMember)
  | 0, _ => none
  | bound + 1, text =>
    match parseMember text with
    | some (member, [125]) => some [member]
    | some (member, 44 :: rest) => (parseMembers bound rest).map fun members => member :: members
    | _ => none

theorem parseMembers_write {members : List JsonMember} (nonempty : members ≠ []) {bound : Nat}
    (enough : members.length ≤ bound) : parseMembers bound (writeMembers members) = some members := by
  induction members generalizing bound with
  | nil => exact absurd rfl nonempty
  | cons member members ih =>
    cases bound with
    | zero => cases enough
    | succ bound =>
      cases members with
      | nil =>
        have parsed := @parseMember_write member [125] ⟨125, [], rfl, rfl⟩
        rw [writeMembers, parseMembers, parsed]
        rfl
      | cons next members =>
        have parsed := @parseMember_write member (44 :: writeMembers (next :: members)) ⟨44, _, rfl, rfl⟩
        have rest := ih (cons_ne_nil next members) (Nat.le_of_succ_le_succ enough)
        rw [writeMembers, parseMembers, parsed]
        simp only
        rw [rest]
        rfl
        exact cons_ne_nil _ _

theorem length_le_writeMembers (members : List JsonMember) : members.length ≤ (writeMembers members).length := by
  induction members with
  | nil => exact Nat.zero_le _
  | cons member members ih =>
    cases members with
    | nil =>
      rw [writeMembers, length_append]
      exact Nat.le_add_left 1 _
    | cons next members =>
      rw [writeMembers, length_append]
      · simp only [length_cons] at ih ⊢
        omega
      · exact cons_ne_nil _ _

/-! ### Documents -/

namespace JsonDoc

def setMember (key : List UInt8) (val : JsonScalar) : List JsonMember → List JsonMember
  | [] => [(key, val)]
  | member :: members =>
    if key < member.1 then (key, val) :: member :: members
    else if key = member.1 then (key, val) :: members
    else member :: setMember key val members

def ofNat (value : Nat) : JsonDoc := .scalar (.num value)

def ofString (text : List UInt8) : JsonDoc := .scalar (.str text)

def toScalar : JsonDoc → JsonScalar
  | .scalar val => val
  | .object _ => .null

def ofMembers (members : List (List UInt8 × JsonDoc)) : JsonDoc :=
  .object (members.foldl (fun set member => setMember member.1 member.2.toScalar set) [])

def write : JsonDoc → List UInt8
  | .scalar val => writeScalar val
  | .object members => 123 :: writeMembers members

def parse : List UInt8 → JsonParsed JsonDoc
  | 123 :: text =>
    match parseMembers text.length text with
    | none => .refused
    | some members => .value (.object members)
  | _ => .refused

def isObject : JsonDoc → Bool
  | .object _ => true
  | .scalar _ => false

def isString : JsonDoc → Bool
  | .scalar (.str _) => true
  | _ => false

/-- A number below the bound; `null` is zero. -/
def toNatBelow (bound : Nat) : JsonDoc → Option Nat
  | .scalar (.num value) => if value < bound then some value else none
  | .scalar .null => some 0
  | _ => none

def isIntBelow (bound : Nat) : JsonDoc → Bool
  | .scalar (.num value) => value < bound
  | _ => false

def toText : JsonDoc → Option (List UInt8)
  | .scalar (.str text) => some text
  | .scalar (.num value) => some (decimal value)
  | .scalar .null => some []
  | .object _ => none

def member (key : List UInt8) : JsonDoc → Option JsonDoc
  | .object members => (members.find? fun member => member.1 = key).map fun member => .scalar member.2
  | .scalar _ => none

theorem parse_write {members : List JsonMember} (nonempty : members ≠ []) :
    parse (write (.object members)) = .value (.object members) := by
  have parsed := parseMembers_write nonempty (length_le_writeMembers members)
  rw [write, parse, parsed]

end JsonDoc

open JsonDoc in
/-- The library. -/
def jsonText : JsonLib where
  Value := JsonDoc
  ofInt := ofNat
  ofUInt := ofNat
  ofUInt64 := ofNat
  ofFloat _ := .scalar .null
  ofDouble _ := .scalar .null
  ofString := ofString
  ofChars := Option.map ofString
  object := ofMembers
  writeString := write
  parse := parse
  isObject := isObject
  isInt := isIntBelow (2 ^ 31)
  isString := isString
  member := member
  asInt val := (toNatBelow (2 ^ 31) val).map Int.ofNat
  asUInt := toNatBelow (2 ^ 32)
  asUInt64 := toNatBelow (2 ^ 64)
  asFloat _ := none
  asDouble _ := none
  asString := toText

theorem ofInt_toNat (typeId : UInt8) : UInt8.ofInt (Int.ofNat typeId.toNat) = typeId := by
  have small := typeId.toNat_lt
  show UInt8.ofNat ((typeId.toNat : Int) % 2 ^ 8).toNat = typeId
  rw [Int.emod_eq_of_lt (Int.natCast_nonneg _) (by omega), Int.toNat_natCast, UInt8.ofNat_toNat]

theorem hasType_members (typeId : UInt8) (members : List JsonMember) :
    jsonText.HasType (JsonDoc.write (.object ((keyT, .num typeId.toNat) :: members))) typeId
      (.object ((keyT, .num typeId.toNat) :: members)) := by
  have small : typeId.toNat < 2 ^ 31 := Nat.lt_trans typeId.toNat_lt (by decide)
  have isInt : JsonDoc.isIntBelow (2 ^ 31) (.scalar (.num typeId.toNat)) = true := decide_eq_true small
  have as : JsonDoc.toNatBelow (2 ^ 31) (.scalar (.num typeId.toNat)) = some typeId.toNat := if_pos small
  refine ⟨JsonDoc.parse_write (cons_ne_nil _ _), .scalar (.num typeId.toNat), Int.ofNat typeId.toNat, ?_, ?_,
    ofInt_toNat typeId⟩
  · show Option.filter (JsonDoc.isIntBelow (2 ^ 31)) (some (.scalar (.num typeId.toNat))) = _
    rw [Option.filter_some, if_pos isInt]
    rfl
  · show (JsonDoc.toNatBelow (2 ^ 31) (.scalar (.num typeId.toNat))).map Int.ofNat = _
    rw [as]
    rfl

theorem holds_document (typeId : UInt8) (val : JsonScalar) :
    jsonText.Holds (jsonText.document typeId (some (.scalar val))) typeId (.scalar val) := by
  have ordered : JsonDoc.ofMembers [(keyV, .scalar val), (keyT, JsonDoc.ofNat typeId.toNat)] =
      .object [(keyT, .num typeId.toNat), (keyV, val)] := rfl
  have text : jsonText.document typeId (some (.scalar val)) =
      JsonDoc.write (.object [(keyT, .num typeId.toNat), (keyV, val)]) := congrArg JsonDoc.write ordered
  refine ⟨.object [(keyT, .num typeId.toNat), (keyV, val)], ?_, rfl⟩
  rw [text]
  exact hasType_members typeId [(keyV, val)]

theorem jsonText_preserves : jsonText.Preserves where
  asInt_isInt val isInt := by
    cases val with
    | object _ => cases isInt
    | scalar val =>
      cases val with
      | num value =>
        have small : value < 2 ^ 31 := of_decide_eq_true isInt
        show ((if value < 2 ^ 31 then some value else none).map Int.ofNat).isSome = true
        rw [if_pos small]
        rfl
      | null | str => cases isInt
  asString_isString val isString := by
    cases val with
    | object _ => cases isString
    | scalar val => cases val <;> rfl
  int_not_string val isInt := by
    cases val with
    | object _ => rfl
    | scalar val =>
      cases val with
      | str _ => cases isInt
      | _ => rfl
  chars _ := rfl
  null := rfl
  noValue typeId _ := ⟨_, hasType_members typeId []⟩
  uint typeId _ value small := ⟨_, holds_document typeId (.num value), if_pos small⟩
  uint64 typeId _ value small := ⟨_, holds_document typeId (.num value), if_pos small, rfl, rfl⟩
  string typeId _ text := ⟨_, holds_document typeId (.str text), rfl, rfl, rfl⟩

end RpcFrmwrk.Ridl
