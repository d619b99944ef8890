import RpcFrmwrk.Library.BigEndian
import RpcFrmwrk.Registry.Addresses

/-! The log files of a point. A log is a header and records of one size behind it, a time stamp and
a value each. Values are appended to the file `-0`; a rotation makes its contents the file `-1`, and
the numbers of the older files go up. Owns `appendLog`, `appendLogExternal`, `getLatestLogs` and
`shiftFiles` on the bytes of the files; which calls of the file system fail. -/

namespace RpcFrmwrk.AppMon

open RpcFrmwrk.Library

/-- The types of a log. -/
inductive LogType where
  | byte
  | uint16
  | uint32
  | uint64
  | float
  | double
deriving DecidableEq

def LogType.id : LogType → Nat
  | .byte => 1
  | .uint16 => 2
  | .uint32 => 3
  | .uint64 => 4
  | .float => 5
  | .double => 6

def LogType.width : LogType → Nat
  | .byte => 1
  | .uint16 => 2
  | .uint32 => 4
  | .uint64 => 8
  | .float => 4
  | .double => 8

/-- A `Variant` of one of these types, as its bits. -/
structure LogValue where
  type : LogType
  bits : Nat
deriving DecidableEq

def LogValue.Fits (value : LogValue) : Prop := value.bits < 256 ^ value.type.width

/-- `sizeof( Variant )`. -/
def variantSize : Nat := 40

def logMagic : Nat := 0x706c6f67

structure LogHeader where
  magic : Nat
  counter : Nat
  typeId : Nat
  recSize : Nat
  unit : UInt8
  reserved : List UInt8
deriving DecidableEq

/-- `sizeof( LOGHDR )`. -/
def headerSize : Nat := 16

/-- `hton`, and the bytes that are written. -/
def LogHeader.encode (header : LogHeader) : List UInt8 :=
  toBE 4 header.magic ++ (toBE 4 header.counter ++ (toBE 2 header.typeId ++ (toBE 2 header.recSize ++
    (header.unit :: header.reserved))))

/-- The bytes that were read, and `ntoh`. -/
def LogHeader.decode (bytes : List UInt8) : LogHeader where
  magic := ofBE (slice bytes 0 4)
  counter := ofBE (slice bytes 4 4)
  typeId := ofBE (slice bytes 8 2)
  recSize := ofBE (slice bytes 10 2)
  unit := bytes.getD 12 0
  reserved := slice bytes 13 3

/-- A new `LOGHDR` in memory, whose magic is in the order of the host. -/
def defaultHeader : List UInt8 := [0x67, 0x6f, 0x6c, 0x70, 0, 0, 0, 0, 0, 0, 0, 0, 0, 0, 0, 0]

def readHeader (file : List UInt8) : LogHeader :=
  LogHeader.decode (file.take headerSize ++ defaultHeader.drop (file.take headerSize).length)

/-- `WriteFile` of the registry: nothing is written behind the largest file. A write that fails has written some bytes
first. -/
def regWrite (file : List UInt8) (off : Nat) (data : List UInt8) (fault : Option Nat) : Bool × List UInt8 :=
  if Registry.maxFileSize ≤ off then (false, file)
  else
    match fault with
    | none => (true, writeAt 0 file off (data.take (Registry.maxFileSize - off)))
    | some count => (false, writeAt 0 file off ((data.take (Registry.maxFileSize - off)).take count))

/-- The calls that fail in `AppendLog`: one in front of the first write, the write of the record, the truncation, or
the write of the header. -/
structure AppendFaults where
  early : Bool
  data : Option Nat
  truncate : Bool
  header : Option Nat

def recordBuffer (time : Nat) (value : LogValue) (stack : List UInt8) : List UInt8 :=
  toBE 4 time ++ toBE value.type.width value.bits ++ stack

/-- The checks that both ways to append make of the header. -/
def headerRefuses (header : LogHeader) (value : LogValue) : Bool :=
  header.magic ≠ logMagic || value.type.id ≠ header.typeId || variantSize < header.recSize

def LogHeader.countUp (header : LogHeader) : LogHeader := { header with counter := (header.counter + 1) % 4294967296 }

/-- `AppendLog`. The counter goes up after a write that failed as well. -/
def appendLog (file : List UInt8) (time : Nat) (value : LogValue) (stack : List UInt8) (faults : AppendFaults) :
    Bool × List UInt8 :=
  if faults.early || headerRefuses (readHeader file) value then (false, file)
  else
    let written := regWrite file file.length ((recordBuffer time value stack).take (readHeader file).recSize) faults.data
    let data := if written.1 || faults.truncate then written.2 else written.2.take file.length
    regWrite data 0 (readHeader file).countUp.encode faults.header

/-- `AppendLogExternal`. The two writes go through a buffer; where one cannot be flushed, nobody notices, and the file
may be any. -/
def appendLogExternal (file : List UInt8) (time : Nat) (value : LogValue) (stack : List UInt8) (early : Bool)
    (flushed : Option (List UInt8)) : Bool × List UInt8 :=
  if early || headerRefuses (readHeader file) value then (false, file)
  else
    match flushed with
    | some left => (true, left)
    | none =>
      let data := writeAt 0 file file.length ((recordBuffer time value stack).take (readHeader file).recSize)
      (true, writeAt 0 data 0 (readHeader file).countUp.encode)

/-- The value of a record. For a `typeUInt16` the code takes the low half of the data's address in place of the data,
and its `Variant` is one of 32 bits. -/
def decodeValue (typeId : Nat) (data : List UInt8) (address : Nat) : Option LogValue :=
  match typeId with
  | 1 => some ⟨.byte, ofBE (data.take 1)⟩
  | 2 => some ⟨.uint32, address % 65536 % 256 * 256 + address % 65536 / 256⟩
  | 3 => some ⟨.uint32, ofBE (data.take 4)⟩
  | 4 => some ⟨.uint64, ofBE (data.take 8)⟩
  | 5 => some ⟨.float, ofBE (data.take 4)⟩
  | 6 => some ⟨.double, ofBE (data.take 8)⟩
  | _ => none

def decodeRecords (typeId recSize : Nat) : (count : Nat) → (bytes : List UInt8) → (address : Nat) → List (Nat × LogValue)
  | 0, _, _ => []
  | count + 1, bytes, address =>
    match decodeValue typeId (bytes.drop 4) (address + 4) with
    | none => []
    | some value =>
      (ofBE (bytes.take 4), value) :: decodeRecords typeId recSize count (bytes.drop recSize) (address + recSize)

/-- `GetLatestLogs` of a file, with the records that it gives. -/
def getLatestLogs (file : List UInt8) (numRec address : Nat) : List (Nat × LogValue) :=
  let header := readHeader file
  let actNum := if header.counter < numRec then header.counter else numRec
  let off := (headerSize + header.recSize * (header.counter - actNum) % 4294967296) % 4294967296
  if header.magic ≠ logMagic then []
  else if variantSize < header.recSize then []
  else if header.counter = 0 then []
  else if file.length - headerSize < header.counter * header.recSize then []
  else if file.length ≤ off then []
  else if file.length - off ≠ header.recSize * actNum then []
  else
    decodeRecords header.typeId header.recSize actNum (slice file off (actNum * header.recSize % 4294967296)) address

abbrev LogDir := Nat → Option (List UInt8)

def LogDir.set (dir : LogDir) (number : Nat) (file : Option (List UInt8)) : LogDir :=
  fun other => if other = number then file else dir other

/-- The calls that fail in `ShiftFiles`. -/
structure ShiftFaults where
  remove : Bool
  rename : Nat → Bool
  early : Bool
  truncate : Bool
  header : Option Nat
  create : Bool
  data : Option Nat

/-- The loop of renames, from a number down to one. It ends at the first rename that fails. -/
def renames (faults : ShiftFaults) : Nat → LogDir → LogDir
  | 0, dir => dir
  | number + 1, dir =>
    match dir (number + 1) with
    | none => renames faults number dir
    | some file =>
      if faults.rename (number + 1) then dir
      else renames faults number ((dir.set (number + 1) none).set (number + 2) (some file))

/-- `MAX_LOG_FILES`. -/
def maxLogFiles : Nat := 9

/-- The part of `ShiftFiles` that makes the first file the second one, with whether the first one was cut. -/
def shiftFirst (faults : ShiftFaults) (dir : LogDir) (file : List UInt8) : LogDir × Bool :=
  if faults.early || faults.truncate then (dir, false)
  else
    let cut := regWrite (file.take headerSize) 0
      { LogHeader.decode (file.take headerSize) with counter := 0 }.encode faults.header
    let dir := dir.set 0 (some cut.2)
    if !cut.1 || decide (file.length ≤ headerSize) || faults.create || (dir 1).isSome then (dir, true)
    else (dir.set 1 (some (regWrite [] 0 file faults.data).2), true)

/-- `ShiftFiles`. -/
def shiftFiles (faults : ShiftFaults) (dir : LogDir) : LogDir × Bool :=
  let dir := if faults.remove then dir else dir.set maxLogFiles none
  let dir := renames faults (maxLogFiles - 1) dir
  match dir 0 with
  | none => (dir, false)
  | some file => shiftFirst faults dir file

end RpcFrmwrk.AppMon
