import Mathlib.Data.List.ReduceOption
import RpcFrmwrk.AppMon.PointLogRuns

/-! Appends and rotations of one log by any number of threads. Every call of the file system is a
step of its own, and it may fail. A call that fails leaves the files as they were. The lock object
of `AppendLog` and `ShiftFiles` is a temporary that is gone at the end of its statement, so no step
waits for one. Owns the files of a log by their names, with the records in them; `AppendLog`,
`RotateLog` and `ShiftFiles` as the calls that they make; the steps that keep every record, and what
it means that a log keeps them. -/

namespace RpcFrmwrk.AppMon

open RpcFrmwrk.Library

/-- A record, with the call of `AppendLog` that it is from. -/
structure LogRecord where
  call : Nat
  time : Nat
  value : LogValue
deriving DecidableEq

/-- A header, and room for records behind it. Room that no whole record was written to is `none`. -/
structure LogFile where
  header : LogHeader
  records : List (Option LogRecord)
deriving DecidableEq

def recordOffset (header : LogHeader) (number : Nat) : Nat := headerSize + number * header.recSize

/-- `Truncate` to a number of records; a shorter file is extended. -/
def cutRecords (records : List (Option LogRecord)) (size : Nat) : List (Option LogRecord) :=
  records.take size ++ List.replicate (size - records.length) none

/-- `ReadFile` into a buffer for a number of records. What is not there leaves the buffer as it was. -/
def readRecords (records : List (Option LogRecord)) (size : Nat) : List (Option LogRecord) :=
  records.take size ++ List.replicate (size - records.length) none

/-- The record that is there when `WriteFile` has cut it at the largest size of a file. -/
def fittingRecord (header : LogHeader) (size : Nat) (record : LogRecord) : Option LogRecord :=
  if recordOffset header (size + 1) ≤ Registry.maxFileSize then some record else none

/-- What a thread is about to do. -/
inductive LogTask where
  | idle
  /-- `AppendLog`: `OpenFile`. -/
  | opening (record : LogRecord)
  /-- `AppendLog`: `ReadFile` of the header. -/
  | reading (record : LogRecord)
  /-- `AppendLog`: `GetAttr`. -/
  | sizing (record : LogRecord) (header : LogHeader)
  /-- `AppendLog`: `WriteFile` of the record. -/
  | writing (record : LogRecord) (header : LogHeader) (size : Nat)
  /-- `AppendLog`: `Truncate` behind a write that failed. -/
  | undoing (record : LogRecord) (header : LogHeader) (size : Nat)
  /-- `AppendLog`: `WriteFile` of the header. -/
  | counting (record : LogRecord) (header : LogHeader) (written : Bool)
  /-- `RotateLog`: `GetAttr`. -/
  | checking
  /-- `ShiftFiles`: `Access` of the last file. -/
  | looking
  /-- `ShiftFiles`: `RemoveFile` of the last file. -/
  | removing
  /-- `ShiftFiles`: `Access` in the loop. -/
  | finding (number : Nat)
  /-- `ShiftFiles`: `Rename` in the loop. -/
  | moving (number : Nat)
  /-- `ShiftFiles`: `OpenFile` of the first file. -/
  | entering
  /-- `ShiftFiles`: `GetAttr`. -/
  | measuring
  /-- `ShiftFiles`: `ReadFile`. -/
  | copying (size : Nat)
  /-- `ShiftFiles`: `Truncate`. -/
  | cutting (copy : LogFile)
  /-- `ShiftFiles`: `WriteFile` of the new header. -/
  | restarting (copy : LogFile)
  /-- `ShiftFiles`: `CreateFile`. -/
  | creating (copy : LogFile)
  /-- `ShiftFiles`: `WriteFile` of the copy. -/
  | filling (copy : LogFile) (inode : Nat)
deriving DecidableEq

/-- The loop over the names, from a number down to one. -/
def LogTask.shift : Nat → LogTask
  | 0 => .entering
  | number + 1 => .finding (number + 1)

/-- `ROTATE_LIMIT`. -/
def rotateLimit : Nat := 1024 * 1024

/-- A log. The file `-0` is never renamed or removed; the others are found by their names. -/
structure LogStore where
  first : LogFile
  names : Nat → Option Nat
  /-- `none` is a file that was created and not written. -/
  files : Nat → Option LogFile
  inodes : Nat
  tasks : List LogTask
  calls : Nat
  /-- The records in the order of the calls of `WriteFile` that wrote them. -/
  writes : List LogRecord
  /-- The records of the calls of `AppendLog` that succeeded. -/
  appended : List LogRecord
  /-- The records of the files that were removed. -/
  dropped : List LogRecord

namespace LogStore

/-- A new log of a layout, and its threads. -/
def start (layout : LogLayout) (threads : Nat) : LogStore where
  first := ⟨layout.header 0, []⟩
  names := fun _ => none
  files := fun _ => none
  inodes := 0
  tasks := List.replicate threads .idle
  calls := 0
  writes := []
  appended := []
  dropped := []

def goto (store : LogStore) (thread : Nat) (task : LogTask) : LogStore :=
  { store with tasks := store.tasks.set thread task }

def recordsOf (store : LogStore) (inode : Nat) : List LogRecord :=
  ((store.files inode).elim [] LogFile.records).reduceOption

/-- `RemoveFile` of the last file. -/
def removeLast (store : LogStore) : LogStore :=
  match store.names maxLogFiles with
  | none => store
  | some inode =>
    { store with
      names := Function.update store.names maxLogFiles none
      dropped := store.dropped ++ store.recordsOf inode }

/-- `Rename` to the next number. A file of that name is replaced. -/
def rename (store : LogStore) (number inode : Nat) : LogStore :=
  { store with
    names := Function.update (Function.update store.names number none) (number + 1) (some inode) }

/-- `CreateFile` of `-1`. -/
def create (store : LogStore) : LogStore :=
  { store with
    names := Function.update store.names 1 (some store.inodes)
    files := Function.update store.files store.inodes none
    inodes := store.inodes + 1 }

/-- `WriteFile` of the copy to the file that was created, wherever it is by now. -/
def fill (store : LogStore) (inode : Nat) (copy : LogFile) : LogStore :=
  { store with files := Function.update store.files inode (some copy) }

/-- `WriteFile` of a record to the first file. -/
def write (store : LogStore) (size : Nat) (entry : Option LogRecord) : LogStore :=
  { store with
    first := { store.first with records := writeAt none store.first.records size [entry] }
    writes := store.writes ++ entry.toList }

/-- `Truncate` of the first file. -/
def cut (store : LogStore) (size : Nat) : LogStore :=
  { store with first := { store.first with records := cutRecords store.first.records size } }

/-- `WriteFile` of the header of the first file. -/
def setHeader (store : LogStore) (header : LogHeader) : LogStore :=
  { store with first := { store.first with header := header } }

def go (store : LogStore) (thread : Nat) (works : Bool) : LogTask → Option LogStore
  | .idle => none
  | .opening record => some (store.goto thread (if works then .reading record else .idle))
  | .reading record =>
    some (store.goto thread
      (if works && !headerRefuses store.first.header record.value then .sizing record store.first.header else .idle))
  | .sizing record header =>
    some (store.goto thread (if works then .writing record header store.first.records.length else .idle))
  | .writing record header size =>
    if works && decide (recordOffset header size < Registry.maxFileSize) then
      some ((store.write size (fittingRecord header size record)).goto thread (.counting record header true))
    else some (store.goto thread (.undoing record header size))
  | .undoing record header size =>
    some ((if works then store.cut size else store).goto thread (.counting record header false))
  -- The status of the header's write is the one that is returned.
  | .counting record header _ =>
    if works then
      some ({ store.setHeader header.countUp with appended := store.appended ++ [record] }.goto thread .idle)
    else some (store.goto thread .idle)
  | .checking =>
    some (store.goto thread
      (if works && decide (rotateLimit < recordOffset store.first.header store.first.records.length) then .looking
       else .idle))
  | .looking =>
    some (store.goto thread
      (if works && (store.names maxLogFiles).isSome then .removing else .shift (maxLogFiles - 1)))
  | .removing => some ((if works then store.removeLast else store).goto thread (.shift (maxLogFiles - 1)))
  | .finding number =>
    some (store.goto thread
      (if works && (store.names number).isSome then .moving number else .shift (number - 1)))
  -- The loop ends at a rename that fails, and what is behind the loop goes on.
  | .moving number =>
    match store.names number with
    | none => some (store.goto thread .entering)
    | some inode =>
      if works then some ((store.rename number inode).goto thread (.shift (number - 1)))
      else some (store.goto thread .entering)
  | .entering => some (store.goto thread (if works then .measuring else .idle))
  | .measuring => some (store.goto thread (if works then .copying store.first.records.length else .idle))
  | .copying size =>
    some (store.goto thread
      (if works then .cutting ⟨store.first.header, readRecords store.first.records size⟩ else .idle))
  | .cutting copy => some (if works then (store.cut 0).goto thread (.restarting copy) else store.goto thread .idle)
  | .restarting copy =>
    if works then
      some ((store.setHeader { copy.header with counter := 0 }).goto thread
        (if copy.records = [] then .idle else .creating copy))
    else some (store.goto thread .idle)
  | .creating copy =>
    if works && (store.names 1).isNone then some (store.create.goto thread (.filling copy store.inodes))
    else some (store.goto thread .idle)
  | .filling copy inode => some ((if works then store.fill inode copy else store).goto thread .idle)

end LogStore

inductive LogMove where
  /-- A thread calls `AppendLog`. -/
  | append (thread time : Nat) (value : LogValue)
  /-- A thread calls `RotateLog`. -/
  | rotate (thread : Nat)
  /-- A thread calls `ShiftFiles`. -/
  | shift (thread : Nat)
  /-- A thread makes its next call of the file system. -/
  | go (thread : Nat) (works : Bool)

def LogStore.step (store : LogStore) : LogMove → Option LogStore
  | .append thread time value =>
    if store.tasks[thread]? = some .idle then
      some ({ store with calls := store.calls + 1 }.goto thread (.opening ⟨store.calls, time, value⟩))
    else none
  | .rotate thread => if store.tasks[thread]? = some .idle then some (store.goto thread .checking) else none
  | .shift thread => if store.tasks[thread]? = some .idle then some (store.goto thread .looking) else none
  | .go thread works => store.tasks[thread]?.bind (store.go thread works)

def rotatedLog (layout : LogLayout) (threads : Nat) : Machine LogStore LogMove where
  start := LogStore.start layout threads
  step := LogStore.step

/-- The records under the numbers up to one, the oldest first. -/
def olderRecords (names : Nat → Option Nat) (content : Nat → List LogRecord) : Nat → List LogRecord
  | 0 => []
  | number + 1 => (names (number + 1)).elim [] content ++ olderRecords names content number

/-- The records in all files, the oldest first. -/
def LogStore.stored (store : LogStore) : List LogRecord :=
  olderRecords store.names store.recordsOf maxLogFiles ++ store.first.records.reduceOption

/-- Every record that was appended is in one place of one file, or was removed with the last file, and the files are in
the order in which the records were written. -/
structure LogStore.Keeps (store : LogStore) : Prop where
  once : ∀ record ∈ store.appended, (store.dropped ++ store.stored).count record = 1
  ordered : store.dropped ++ store.stored = store.writes

/-- What a rotation has cut from the first file and not written to another one. -/
def LogTask.carried : LogTask → List (Option LogRecord)
  | .restarting copy => copy.records
  | .creating copy => copy.records
  | .filling copy _ => copy.records
  | _ => []

/-- No rotation has a copy that is in no file. -/
def LogStore.Quiet (store : LogStore) : Prop := ∀ task ∈ store.tasks, task.carried = []

instance (store : LogStore) : Decidable store.Quiet :=
  inferInstanceAs (Decidable (∀ task ∈ store.tasks, task.carried = []))

/-- The file that a rotation has created and not written. -/
def LogTask.target : LogTask → Option Nat
  | .filling _ inode => some inode
  | _ => none

/-- The steps of a task that lose no record:
- an append writes behind the last record, its record is within the largest size of a file, and where the write fails,
  it is not reported as a success;
- a file that is not written yet is not removed, and no rename replaces a file;
- a rotation cuts what it has read, when no other rotation has a copy in hand;
- with a copy in hand, no call fails, and there is no file `-1` when it is created. -/
def LogTask.keeps (store : LogStore) (works : Bool) : LogTask → Bool
  | .writing _ header size =>
    !works || decide (store.first.records.length ≤ size ∧ recordOffset header (size + 1) ≤ Registry.maxFileSize)
  | .undoing _ _ size => !works || decide (store.first.records.length ≤ size)
  | .counting _ _ written => !works || written
  | .removing => !works || decide (∀ task ∈ store.tasks, task.target = none ∨ task.target ≠ store.names maxLogFiles)
  | .moving number => !works || (store.names (number + 1)).isNone
  | .cutting copy => !works || decide (copy.records = store.first.records ∧ store.Quiet)
  | .restarting copy => works || decide (copy.records = [])
  | .creating _ => works && (store.names 1).isNone
  | .filling _ _ => works
  | _ => true

def LogMove.fits (store : LogStore) : LogMove → Bool
  | .go thread works => (store.tasks[thread]?).elim true (LogTask.keeps store works)
  | _ => true

end RpcFrmwrk.AppMon
