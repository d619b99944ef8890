import Mathlib.Algebra.Ring.Int.Defs
import Mathlib.Algebra.Ring.Nat

/-! The JSON values that the files of `rpcfs` look into. Owns the values of the JSON reader, and the
answers of `isMember`, `operator[]`, `asUInt64` and `asString`; `strtoull` of a decimal number, and
the task id at the front of a context id. -/

namespace RpcFrmwrk.Fuse

/-- A value of the reader. A real number comes with its value if it is a whole number. -/
inductive JsonValue where
  | null
  | int (value : Int)
  | real (whole : Option Int)
  | string (chars : List Char)
  | bool (value : Bool)
  | array (elems : List JsonValue)
  | object (members : List (List Char × JsonValue))

/-- `CharReader::parse`: it refuses a text, gives a value, or raises an exception when the text is nested too
deep. -/
inductive Parsed where
  | refused
  | raised
  | value (val : JsonValue)

/-- `JSON_ATTR_MSGTYPE`. -/
def attrMsgType : List Char := "MessageType".toList

/-- `JSON_ATTR_REQCTXID`. -/
def attrReqCtxId : List Char := "RequestId".toList

/-- `ULLONG_MAX`. -/
def ullongMax : Nat := 2 ^ 64 - 1

namespace JsonValue

/-- `isMember`. It raises an exception on a value that is neither null nor an object. -/
def isMember (key : List Char) : JsonValue → Option Bool
  | .null => some false
  | .object members => some (members.any fun member => member.1 = key)
  | _ => none

/-- `operator[]` of an object. -/
def get (key : List Char) : JsonValue → JsonValue
  | .object members => ((members.find? fun member => member.1 = key).map Prod.snd).getD .null
  | _ => .null

/-- `asUInt64`, where `isUInt64` holds. -/
def asUInt64? : JsonValue → Option Nat
  | .int value | .real (some value) => if 0 ≤ value ∧ value < 2 ^ 64 then some value.toNat else none
  | _ => none

/-- `asString`, where `isString` holds. -/
def asString? : JsonValue → Option (List Char)
  | .string chars => some chars
  | _ => none

end JsonValue

/-- `isspace`. -/
def isSpace (char : Char) : Bool :=
  char = ' ' || (9 ≤ char.toNat && char.toNat ≤ 13)

def digitsValue (chars : List Char) : Nat :=
  (chars.takeWhile Char.isDigit).foldl (fun value digit => value * 10 + (digit.toNat - '0'.toNat)) 0

/-- `strtoull` to the base 10. A value that is too large becomes `ULLONG_MAX`, a minus sign negates. -/
def strtoull (chars : List Char) : Nat :=
  match chars.dropWhile isSpace with
  | '-' :: digits =>
    let value := digitsValue digits
    if ullongMax < value then ullongMax else (2 ^ 64 - value) % 2 ^ 64
  | '+' :: digits => min (digitsValue digits) ullongMax
  | digits => min (digitsValue digits) ullongMax

def taskIdOfCtx (ctxId : List Char) : Option Nat :=
  if ':' ∈ ctxId then
    let taskId := strtoull (ctxId.takeWhile fun char => char != ':')
    if taskId = ullongMax then none else some taskId
  else none

end RpcFrmwrk.Fuse
