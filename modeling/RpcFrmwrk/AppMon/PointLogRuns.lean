import RpcFrmwrk.AppMon.PointLog
import RpcFrmwrk.Library.Machine

/-! The records that a log keeps, and those that are read from it. Owns `LogLayout`, the bytes of a
log with its records; the log of a point in any order of calls, with the records that were appended
since the last rotation; `latest_of_fits`. -/

namespace RpcFrmwrk.AppMon

open RpcFrmwrk.Library List

/-- What the header of a log keeps. -/
structure LogLayout where
  type : LogType
  unit : UInt8
  reserved : List UInt8
  three : reserved.length = 3

namespace LogLayout

def recSize (layout : LogLayout) : Nat := 4 + layout.type.width

def header (layout : LogLayout) (counter : Nat) : LogHeader :=
  ⟨logMagic, counter, layout.type.id, layout.recSize, layout.unit, layout.reserved⟩

end LogLayout

def recordBytes (entry : Nat × LogValue) : List UInt8 := toBE 4 entry.1 ++ toBE entry.2.type.width entry.2.bits

namespace LogLayout

def file (layout : LogLayout) (stored : List (Nat × LogValue)) : List UInt8 :=
  (layout.header stored.length).encode ++ stored.flatMap recordBytes

/-- The records are of the log's type, and there are not more than the counter can hold. -/
structure Holds (layout : LogLayout) (stored : List (Nat × LogValue)) : Prop where
  few : stored.length < 4294967296
  entries : ∀ entry ∈ stored, entry.1 < 4294967296 ∧ entry.2.type = layout.type ∧ entry.2.Fits

end LogLayout

theorem LogType.width_pos (type : LogType) : 0 < type.width := by cases type <;> decide

theorem LogType.width_le (type : LogType) : type.width ≤ 8 := by cases type <;> decide

theorem LogType.id_inj {left right : LogType} (same : left.id = right.id) : left = right := by
  cases left <;> cases right <;> first | rfl | cases same

variable {layout : LogLayout} {stored : List (Nat × LogValue)}

theorem LogLayout.recSize_le (layout : LogLayout) : layout.recSize ≤ 12 :=
  Nat.add_le_add_left layout.type.width_le 4

theorem length_encode (layout : LogLayout) (counter : Nat) :
    (layout.header counter).encode.length = headerSize := by
  simp only [LogHeader.encode, LogLayout.header, length_append, length_toBE, length_cons, layout.three]
  rfl

theorem length_recordBytes (entry : Nat × LogValue) : (recordBytes entry).length = 4 + entry.2.type.width := by
  rw [recordBytes, length_append, length_toBE, length_toBE]

theorem length_records {size : Nat} (sizes : ∀ entry ∈ stored, (recordBytes entry).length = size) :
    (stored.flatMap recordBytes).length = stored.length * size := by
  induction stored with
  | nil => exact (Nat.zero_mul size).symm
  | cons entry stored ih =>
    rw [flatMap_cons, length_append, sizes entry mem_cons_self,
      ih fun other later => sizes other (mem_cons_of_mem _ later), length_cons, Nat.succ_mul,
      Nat.add_comm]

theorem LogLayout.Holds.length_record (holds : layout.Holds stored) :
    ∀ entry ∈ stored, (recordBytes entry).length = layout.recSize := by
  intro entry member
  rw [length_recordBytes, (holds.entries entry member).2.1]
  rfl

theorem LogLayout.Holds.length_file (holds : layout.Holds stored) :
    (layout.file stored).length = headerSize + stored.length * layout.recSize := by
  rw [LogLayout.file, length_append, length_encode, length_records holds.length_record]

variable {α : Type} {front rest : List α} {count counter : Nat} {value : LogValue}
    {faults : AppendFaults} {dir : LogDir} {state next : LogState}

theorem slice_front (length : front.length = count) : slice (front ++ rest) 0 count = front := by
  rw [slice, drop_zero, ← length, take_left]

theorem slice_behind {start : Nat} (length : front.length = start) (more : Nat) :
    slice (front ++ rest) (start + more) count = slice rest more count := by
  rw [slice, slice, ← drop_drop, ← length, drop_left]

theorem decode_encode (few : counter < 4294967296) :
    LogHeader.decode (layout.header counter).encode = layout.header counter := by
  have magic : (toBE 4 logMagic).length = 4 := length_toBE _ _
  have count : (toBE 4 counter).length = 4 := length_toBE _ _
  have type : (toBE 2 layout.type.id).length = 2 := length_toBE _ _
  have size : (toBE 2 layout.recSize).length = 2 := length_toBE _ _
  have typeFits : layout.type.id < 256 ^ 2 := by cases layout.type <;> decide
  have sizeFits : layout.recSize < 256 ^ 2 := Nat.lt_of_le_of_lt layout.recSize_le (by decide)
  have magicRead : ofBE (slice (layout.header counter).encode 0 4) = logMagic := by
    rw [LogHeader.encode, LogLayout.header, slice_front magic, ofBE_toBE_of_lt (by decide)]
  have countRead : ofBE (slice (layout.header counter).encode 4 4) = counter := by
    rw [LogHeader.encode, LogLayout.header, slice_behind magic 0, slice_front count, ofBE_toBE_of_lt few]
  have typeRead : ofBE (slice (layout.header counter).encode 8 2) = layout.type.id := by
    rw [LogHeader.encode, LogLayout.header, slice_behind magic 4, slice_behind count 0, slice_front type,
      ofBE_toBE_of_lt typeFits]
  have sizeRead : ofBE (slice (layout.header counter).encode 10 2) = layout.recSize := by
    rw [LogHeader.encode, LogLayout.header, slice_behind magic 6, slice_behind count 2, slice_behind type 0,
      slice_front size, ofBE_toBE_of_lt sizeFits]
  have unitRead : (layout.header counter).encode.getD 12 0 = layout.unit := by
    have behind : slice (layout.header counter).encode 12 1 = [layout.unit] := by
      rw [LogHeader.encode, LogLayout.header, slice_behind magic 8, slice_behind count 4, slice_behind type 2,
        slice_behind size 0]
      rfl
    have first := getElem?_slice (layout.header counter).encode 12 1 0
    rw [behind, if_pos Nat.zero_lt_one] at first
    rw [getD_eq_getElem?_getD, ← first]
    rfl
  have reservedRead : slice (layout.header counter).encode 13 3 = layout.reserved := by
    rw [LogHeader.encode, LogLayout.header, slice_behind magic 9, slice_behind count 5, slice_behind type 3,
      slice_behind size 1, slice]
    exact take_of_length_le (Nat.le_of_eq layout.three)
  rw [LogHeader.decode, magicRead, countRead, typeRead, sizeRead, unitRead, reservedRead]
  rfl

theorem readHeader_append (few : counter < 4294967296) (rest : List UInt8) :
    readHeader ((layout.header counter).encode ++ rest) = layout.header counter := by
  have front : ((layout.header counter).encode ++ rest).take headerSize = (layout.header counter).encode := by
    rw [← length_encode layout counter, take_left]
  have whole : defaultHeader.drop headerSize = [] := rfl
  rw [readHeader, front, length_encode, whole, append_nil, decode_encode few]

theorem LogLayout.Holds.readHeader (holds : layout.Holds stored) :
    AppMon.readHeader (layout.file stored) = layout.header stored.length := readHeader_append holds.few _

/-! ### Appending -/

theorem toBE_mod (time : Nat) : toBE 4 (time % 4294967296) = toBE 4 time := by
  have split := toBE_add_mul 4 (time % 4294967296) (time / 4294967296)
  rw [show (256 ^ 4 : Nat) = 4294967296 from rfl, Nat.mul_comm, Nat.mod_add_div] at split
  exact split.symm

theorem take_recordBuffer (time : Nat) (same : value.type = layout.type) (stack : List UInt8) :
    (recordBuffer time value stack).take layout.recSize = recordBytes
    (time % 4294967296, value) := by
  have length : (toBE 4 time ++ toBE value.type.width value.bits).length = layout.recSize := by
    rw [length_append, length_toBE, length_toBE, same]
    rfl
  rw [recordBuffer, ← length, take_left, recordBytes, toBE_mod]

theorem writeAt_end (file data : List UInt8) : writeAt 0 file file.length data = file ++ data := by
  rw [writeAt, Nat.sub_self, replicate_zero, append_nil, splice, take_length,
    drop_eq_nil_of_le (Nat.le_add_right _ _), append_nil]

theorem writeAt_front {old data : List UInt8} (rest : List UInt8)
    (same : old.length = data.length) :
    writeAt 0 (old ++ rest) 0 data = data ++ rest := by
  have written := splice_append [] rest same
  rw [nil_append, nil_append] at written
  rw [writeAt, Nat.zero_sub, replicate_zero, append_nil]
  exact written

theorem regWrite_whole (file : List UInt8) {off : Nat} {data : List UInt8}
    (some : off < Registry.maxFileSize)
    (room : off + data.length ≤ Registry.maxFileSize) : regWrite file off data none =
    (true, writeAt 0 file off data) := by
  unfold regWrite
  rw [if_neg (Nat.not_le.2 some), take_of_length_le (Nat.le_sub_of_add_le' room)]

theorem LogLayout.Holds.concat (holds : layout.Holds stored) (few : stored.length + 1 < 4294967296)
    (time : Nat) (same : value.type = layout.type) (fits : value.Fits) :
    layout.Holds (stored ++ [(time % 4294967296, value)]) where
  few := by
    rw [length_append]
    exact few
  entries entry member := by
    rcases mem_append.1 member with before | last
    · exact holds.entries entry before
    · rw [mem_singleton.1 last]
      exact ⟨Nat.mod_lt _ (by decide), same, fits⟩

theorem LogLayout.file_concat (few : stored.length + 1 < 4294967296) (entry : Nat × LogValue) :
    writeAt 0 (layout.file stored ++ recordBytes entry) 0 (layout.header stored.length).countUp.encode =
      layout.file (stored ++ [entry]) := by
  have counted : (layout.header stored.length).countUp = layout.header (stored.length + 1) := by
    rw [LogHeader.countUp, LogLayout.header, LogLayout.header, Nat.mod_eq_of_lt few]
  rw [LogLayout.file, counted, append_assoc,
    writeAt_front _ ((length_encode layout _).trans (length_encode layout _).symm), LogLayout.file, length_append,
    flatMap_append, flatMap_singleton]
  rfl

theorem headerRefuses_layout (counter : Nat) (value : LogValue) :
    headerRefuses (layout.header counter) value = decide (value.type ≠ layout.type) := by
  have small : ¬ variantSize < layout.recSize := Nat.not_lt.2 (Nat.le_trans layout.recSize_le (by decide))
  have same : (value.type.id ≠ layout.type.id) ↔ value.type ≠ layout.type :=
    not_congr ⟨LogType.id_inj, fun equal => equal ▸ rfl⟩
  simp only [headerRefuses, LogLayout.header, ne_eq, not_true_eq_false, decide_false, Bool.false_or, small, Bool.or_false]
  exact decide_eq_decide.2 same

/-- `AppendLog` without a failing write: the record is stored, or the file is as it was. -/
theorem LogLayout.Holds.appendLog (holds : layout.Holds stored) (time : Nat) (value : LogValue)
    (stack : List UInt8) (written : faults.data = none) (counted : faults.header = none)
    (room : (layout.file stored).length + layout.recSize ≤ Registry.maxFileSize) :
    AppMon.appendLog (layout.file stored) time value stack faults =
      if faults.early = true ∨ value.type ≠ layout.type then (false, layout.file stored)
      else (true, layout.file (stored ++ [(time % 4294967296, value)])) := by
  have few : stored.length + 1 < 4294967296 := by
    have length := holds.length_file
    have wide := layout.type.width_pos
    have bound : stored.length * 1 ≤ stored.length * layout.recSize := Nat.mul_le_mul_left _ (Nat.le_add_right_of_le (by decide))
    have largest : Registry.maxFileSize ≤ 4294967295 := by decide
    have some : 1 ≤ layout.recSize := Nat.le_add_right_of_le (by decide)
    omega
  unfold AppMon.appendLog
  rw [holds.readHeader, headerRefuses_layout]
  by_cases refused : faults.early = true ∨ value.type ≠ layout.type
  · rw [if_pos refused, if_pos]
    simpa using refused
  · rw [if_neg refused, if_neg (by simpa using refused)]
    have same : value.type = layout.type := Classical.byContradiction fun differs => refused (.inr differs)
    have some : 0 < layout.recSize := Nat.lt_of_lt_of_le (by decide) (Nat.le_add_right 4 _)
    have entryLength : (recordBytes (time % 4294967296, value)).length = layout.recSize := by
      rw [length_recordBytes, same]
      rfl
    have first : regWrite (layout.file stored) (layout.file stored).length
        ((recordBuffer time value stack).take (layout.header stored.length).recSize) faults.data =
          (true, layout.file stored ++ recordBytes (time % 4294967296, value)) := by
      rw [show (layout.header stored.length).recSize = layout.recSize from rfl, take_recordBuffer time same stack, written,
        regWrite_whole _ (by omega) (by omega), writeAt_end]
    have headerLength : (layout.header stored.length).countUp.encode.length = headerSize :=
      length_encode layout ((stored.length + 1) % 4294967296)
    rw [first]
    show regWrite (layout.file stored ++ _) 0 _ faults.header = _
    rw [counted, regWrite_whole _ (by decide) (by rw [headerLength]; decide), LogLayout.file_concat few]

theorem LogLayout.Holds.appendLogExternal (holds : layout.Holds stored)
    (few : stored.length + 1 < 4294967296) (time : Nat)
    (value : LogValue) (stack : List UInt8) (early : Bool) :
    AppMon.appendLogExternal (layout.file stored) time value stack early none =
      if early = true ∨ value.type ≠ layout.type then (false, layout.file stored)
      else (true, layout.file (stored ++ [(time % 4294967296, value)])) := by
  unfold AppMon.appendLogExternal
  rw [holds.readHeader, headerRefuses_layout]
  by_cases refused : early = true ∨ value.type ≠ layout.type
  · rw [if_pos refused, if_pos]
    simpa using refused
  · rw [if_neg refused, if_neg (by simpa using refused)]
    have same : value.type = layout.type := Classical.byContradiction fun differs => refused (.inr differs)
    dsimp only
    rw [show (layout.header stored.length).recSize = layout.recSize from rfl, take_recordBuffer time same stack,
      writeAt_end, LogLayout.file_concat few]

theorem take_front {front : List UInt8} (length : front.length = count) (rest : List UInt8) :
    (front ++ rest).take count = front := by
  rw [← length, take_left]

theorem decodeValue_record (fits : value.Fits) (notShort : value.type ≠ .uint16) (rest : List UInt8)
    (address : Nat) :
    decodeValue value.type.id (toBE value.type.width value.bits ++ rest) address = some value := by
  obtain ⟨type, bits⟩ := value
  have back : ofBE (toBE type.width bits) = bits := ofBE_toBE_of_lt fits
  have front : (toBE type.width bits ++ rest).take type.width = toBE type.width bits := take_front (length_toBE _ _) rest
  have read : ofBE ((toBE type.width bits ++ rest).take type.width) = bits := by rw [front, back]
  cases type with
  | uint16 => exact absurd rfl notShort
  | byte => exact congrArg (fun bits => some (LogValue.mk .byte bits)) read
  | uint32 => exact congrArg (fun bits => some (LogValue.mk .uint32 bits)) read
  | uint64 => exact congrArg (fun bits => some (LogValue.mk .uint64 bits)) read
  | float => exact congrArg (fun bits => some (LogValue.mk .float bits)) read
  | double => exact congrArg (fun bits => some (LogValue.mk .double bits)) read

theorem LogLayout.Holds.decodeRecords (holds : layout.Holds stored)
    (notShort : layout.type ≠ .uint16) (address : Nat) :
    AppMon.decodeRecords layout.type.id layout.recSize stored.length (stored.flatMap recordBytes) address = stored := by
  induction stored generalizing address with
  | nil => rfl
  | cons entry stored ih =>
    obtain ⟨time, value⟩ := entry
    obtain ⟨small, same, fits⟩ := holds.entries _ mem_cons_self
    have others : layout.Holds stored :=
      ⟨Nat.lt_of_succ_lt holds.few, fun other later => holds.entries other (mem_cons_of_mem _ later)⟩
    have stamp : (toBE 4 time).length = 4 := length_toBE _ _
    have length : (toBE 4 time ++ toBE value.type.width value.bits).length = layout.recSize := by
      rw [length_append, length_toBE, length_toBE, same]
      rfl
    have value' : AppMon.decodeValue layout.type.id
        (toBE value.type.width value.bits ++ stored.flatMap recordBytes) (address + 4) = some value := by
      rw [← same]
      exact decodeValue_record fits (same ▸ notShort) _ _
    rw [length_cons, AppMon.decodeRecords, flatMap_cons, recordBytes, append_assoc, drop_left' stamp, value']
    rw [take_front stamp, ofBE_toBE_of_lt small, ← append_assoc, drop_left' length, ih others]

theorem LogLayout.Holds.drop (holds : layout.Holds stored) (count : Nat) : layout.Holds
    (stored.drop count) where
  few := by
    rw [length_drop]
    exact Nat.lt_of_le_of_lt (Nat.sub_le _ _) holds.few
  entries entry member := holds.entries entry (mem_of_mem_drop member)

theorem LogLayout.Holds.drop_file (holds : layout.Holds stored) {skipped : Nat}
    (inside : skipped ≤ stored.length) :
    (layout.file stored).drop (headerSize + layout.recSize * skipped) =
    (stored.drop skipped).flatMap recordBytes := by
  have front : ((stored.take skipped).flatMap recordBytes).length = layout.recSize * skipped := by
    rw [length_records fun entry member => holds.length_record entry (mem_of_mem_take member), length_take,
      Nat.min_eq_left inside, Nat.mul_comm]
  rw [LogLayout.file, ← drop_drop, drop_left' (length_encode layout _)]
  conv => lhs; rw [← take_append_drop skipped stored, flatMap_append, drop_left' front]

theorem LogLayout.Holds.getLatestLogs (holds : layout.Holds stored)
    (notShort : layout.type ≠ .uint16)
    (small : (layout.file stored).length ≤ Registry.maxFileSize) (numRec address : Nat) :
    AppMon.getLatestLogs (layout.file stored) numRec address = stored.drop (stored.length - numRec) := by
  have length := holds.length_file
  have largest : Registry.maxFileSize < 4294967296 := by decide
  have sizePos : 0 < layout.recSize := Nat.lt_of_lt_of_le (by decide) (Nat.le_add_right 4 _)
  have actual : (if stored.length < numRec then stored.length else numRec) = stored.length - (stored.length - numRec) := by
    split <;> omega
  have kept : stored.length - (stored.length - (stored.length - numRec)) = stored.length - numRec := by omega
  have products : stored.length * layout.recSize =
      layout.recSize * (stored.length - numRec) + layout.recSize * (stored.length - (stored.length - numRec)) := by
    rw [← Nat.mul_add, Nat.add_sub_cancel' (Nat.sub_le _ _), Nat.mul_comm]
  have off : (headerSize + layout.recSize * (stored.length - numRec) % 4294967296) % 4294967296 =
      headerSize + layout.recSize * (stored.length - numRec) := by
    have inside : layout.recSize * (stored.length - numRec) < 4294967296 := by omega
    rw [Nat.mod_eq_of_lt inside, Nat.mod_eq_of_lt (by omega)]
  unfold AppMon.getLatestLogs
  rw [holds.readHeader]
  dsimp only [LogLayout.header]
  rw [actual, kept, off, if_neg (not_not_intro rfl),
    if_neg (Nat.not_lt.2 (Nat.le_trans layout.recSize_le (by decide)))]
  by_cases empty : stored.length = 0
  · rw [if_pos empty, drop_eq_nil_of_le]
    omega
  rw [if_neg empty, if_neg (by omega)]
  by_cases none : numRec = 0
  · have all : stored.length - numRec = stored.length := by omega
    rw [all, if_pos (by rw [length, Nat.mul_comm]), drop_length]
  have some : 0 < layout.recSize * (stored.length - (stored.length - numRec)) := Nat.mul_pos sizePos (by omega)
  rw [if_neg (by omega), if_neg (by omega)]
  have read : slice (layout.file stored) (headerSize + layout.recSize * (stored.length - numRec))
      ((stored.length - (stored.length - numRec)) * layout.recSize % 4294967296) =
        (stored.drop (stored.length - numRec)).flatMap recordBytes := by
    rw [slice, holds.drop_file (Nat.sub_le _ _), Nat.mul_comm, Nat.mod_eq_of_lt (by omega)]
    refine take_of_length_le ?_
    rw [length_records (holds.drop _).length_record, length_drop, Nat.mul_comm]
  have records := (holds.drop (stored.length - numRec)).decodeRecords notShort address
  rw [length_drop] at records
  rw [read, records]

def LogLayout.Laid (layout : LogLayout) (file : List UInt8) : Prop :=
  ∃ stored, layout.Holds stored ∧ file = layout.file stored ∧ file.length ≤ Registry.maxFileSize

theorem laid_set {dir : LogDir} (laid : ∀ number file, dir number = some file → layout.Laid file)
    {number : Nat}
    {file : Option (List UInt8)} (new : ∀ bytes, file = some bytes → layout.Laid bytes) :
    ∀ other bytes, dir.set number file other = some bytes → layout.Laid bytes := by
  intro other bytes found
  rw [LogDir.set] at found
  split at found
  · exact new bytes found
  · exact laid other bytes found

theorem set_of_ne (dir : LogDir) {number other : Nat} (differs : other ≠ number)
    (file : Option (List UInt8)) :
    dir.set number file other = dir other := if_neg differs

theorem set_same (dir : LogDir) (number : Nat)
    (file : Option (List UInt8)) : dir.set number file number = file :=
  if_pos rfl

theorem renames_spec (faults : ShiftFaults) (number : Nat)
    (laid : ∀ number file, dir number = some file → layout.Laid file) :
    renames faults number dir 0 = dir 0 ∧
      ∀ other file, renames faults number dir other = some file → layout.Laid file := by
  induction number generalizing dir with
  | zero => exact ⟨rfl, laid⟩
  | succ number ih =>
    rw [renames]
    cases found : dir (number + 1) with
    | none => exact ih laid
    | some file =>
      split
      · exact ⟨rfl, laid⟩
      · have moved : ∀ other bytes, ((dir.set (number + 1) none).set (number + 2) (some file)) other = some bytes →
            layout.Laid bytes := by
          refine laid_set (laid_set laid fun bytes never => by cases never) fun bytes same => ?_
          cases same
          exact laid _ _ found
        obtain ⟨first, others⟩ := ih moved
        refine ⟨first.trans ?_, others⟩
        rw [set_of_ne _ (by omega), set_of_ne _ (by omega)]

theorem LogLayout.file_nil (layout : LogLayout) : layout.file [] = (layout.header 0).encode := append_nil _

theorem holds_nil (layout : LogLayout) : layout.Holds [] :=
  ⟨by decide, forall_mem_nil _⟩

theorem laid_nil (layout : LogLayout) : layout.Laid (layout.file []) :=
  ⟨[], holds_nil layout, rfl, by
    rw [(holds_nil layout).length_file, length_nil, Nat.zero_mul]
    decide⟩

theorem LogLayout.Holds.cut (holds : layout.Holds stored) :
    regWrite ((layout.file stored).take headerSize) 0
        { LogHeader.decode ((layout.file stored).take headerSize) with counter := 0 }.encode none =
      (true, layout.file []) := by
  have front : (layout.file stored).take headerSize = (layout.header stored.length).encode :=
    take_front (length_encode layout _) _
  have zero : ({ layout.header stored.length with counter := 0 } : LogHeader) = layout.header 0 := rfl
  rw [front, decode_encode holds.few, zero, regWrite_whole _ (by decide) (by rw [length_encode]; decide)]
  have written := @writeAt_front (layout.header stored.length).encode (layout.header 0).encode []
    ((length_encode layout _).trans (length_encode layout _).symm)
  rw [append_nil, append_nil] at written
  rw [written, LogLayout.file_nil]

theorem LogLayout.Laid.copy {file : List UInt8} (laid : layout.Laid file) :
    (regWrite [] 0 file none).2 = file := by
  obtain ⟨stored, _, rfl, small⟩ := laid
  rw [regWrite_whole _ (by decide) (by omega)]
  have written := writeAt_end [] (layout.file stored)
  rw [nil_append] at written
  exact written

/-- A rotation whose two writes do not fail leaves logs, the first of which has its records or none. -/
theorem shiftFiles_spec (laid : ∀ number file, dir number = some file → layout.Laid file)
    (holds : layout.Holds stored) (current : dir 0 = some (layout.file stored))
    {faults : ShiftFaults}
    (header : faults.header = none) (data : faults.data = none) :
    (∀ number file, (shiftFiles faults dir).1 number = some file → layout.Laid file) ∧
      (shiftFiles faults dir).1 0 = some (layout.file (if (shiftFiles faults dir).2 then [] else stored)) := by
  have removed : ∀ number file, (if faults.remove then dir else dir.set maxLogFiles none) number = some file →
      layout.Laid file := by
    split
    · exact laid
    · exact laid_set laid fun bytes never => by cases never
  have stays : (if faults.remove then dir else dir.set maxLogFiles none) 0 = some (layout.file stored) := by
    split
    · exact current
    · rw [set_of_ne _ (by decide), current]
  obtain ⟨first, renamed⟩ := renames_spec faults (maxLogFiles - 1) removed
  rw [stays] at first
  have shifted : shiftFiles faults dir = shiftFirst faults
      (renames faults (maxLogFiles - 1) (if faults.remove then dir else dir.set maxLogFiles none))
      (layout.file stored) := by
    unfold shiftFiles
    dsimp only
    rw [first]
  rw [shifted]
  generalize renames faults (maxLogFiles - 1) (if faults.remove then dir else dir.set maxLogFiles none) = moved at *
  unfold shiftFirst
  split
  · exact ⟨renamed, first⟩
  rw [header, holds.cut]
  have whole : layout.Laid (layout.file stored) := renamed 0 _ first
  have emptied := @laid_set layout _ renamed 0 (some (layout.file [])) fun bytes same => by
    cases same
    exact laid_nil layout
  dsimp only
  split
  · exact ⟨emptied, set_same moved 0 _⟩
  · refine ⟨laid_set emptied fun bytes same => ?_, ?_⟩
    · rw [data, whole.copy] at same
      cases same
      exact whole
    · have others := set_of_ne (moved.set 0 (some (layout.file []))) (show (0 : Nat) ≠ 1 by decide)
        (some (regWrite [] 0 (layout.file stored) faults.data).2)
      rw [set_same] at others
      exact others

/-- The files of a point, an external log, and the records that were appended to the first file since it was cut. -/
structure LogState where
  dir : LogDir
  external : List UInt8
  stored : List (Nat × LogValue)

def LogState.start (layout other : LogLayout) : LogState :=
  ⟨fun number => if number = 0 then some (layout.file []) else none, other.file [], []⟩

inductive LogStep where
  | appendLog (time : Nat) (value : LogValue) (stack : List UInt8) (faults : AppendFaults)
  | appendLogExternal (time : Nat) (value : LogValue) (stack : List UInt8) (early : Bool)
      (flushed : Option (List UInt8))
  | shiftFiles (faults : ShiftFaults)

def logStep (state : LogState) : LogStep → Option LogState
  | .appendLog time value stack faults =>
    if value.bits < 256 ^ value.type.width then
      match state.dir 0 with
      | none => some state
      | some file =>
        let done := appendLog file time value stack faults
        some { state with
          dir := state.dir.set 0 (some done.2)
          stored := if done.1 then state.stored ++ [(time % 4294967296, value)] else state.stored }
    else none
  | .appendLogExternal time value stack early flushed =>
    if value.bits < 256 ^ value.type.width then
      some { state with external := (appendLogExternal state.external time value stack early flushed).2 }
    else none
  | .shiftFiles faults =>
    let done := shiftFiles faults state.dir
    some { state with dir := done.1, stored := if done.2 then [] else state.stored }

def pointLog (layout other : LogLayout) : Machine LogState LogStep := ⟨LogState.start layout other, logStep⟩

/-- A call whose writes do not fail: a record has room in the largest file, or in the counter of an external log. -/
def LogStep.fits (state : LogState) : LogStep → Bool
  | .appendLog _ _ _ faults =>
    match state.dir 0 with
    | none => true
    | some file => decide (faults.data = none) && decide (faults.header = none) &&
        decide (file.length + (readHeader file).recSize ≤ Registry.maxFileSize)
  | .appendLogExternal _ _ _ _ flushed =>
    decide (flushed = none) && decide ((readHeader state.external).counter + 1 < 4294967296)
  | .shiftFiles faults => decide (faults.header = none) && decide (faults.data = none)

/-- All files are logs, and the first one has the records that were appended to it. -/
structure LogState.Sound (layout other : LogLayout) (state : LogState) : Prop where
  laid : ∀ number file, state.dir number = some file → layout.Laid file
  holds : layout.Holds state.stored
  current : state.dir 0 = some (layout.file state.stored)
  external : ∃ stored, other.Holds stored ∧ state.external = other.file stored

variable {other : LogLayout}

theorem sound_logStart : (LogState.start layout other).Sound layout other where
  laid number file found := by
    unfold LogState.start at found
    dsimp only at found
    split at found
    · cases found
      exact laid_nil layout
    · cases found
  holds := holds_nil layout
  current := rfl
  external := ⟨[], holds_nil other, rfl⟩

theorem sound_appendLog (sound : state.Sound layout other) {time : Nat}
    {stack : List UInt8} (fits : (LogStep.appendLog time value stack faults).fits state = true)
    (moved : logStep state (.appendLog time value stack faults) = some next) : next.Sound layout other := by
  simp only [LogStep.fits, sound.current, Bool.and_eq_true, decide_eq_true_eq] at fits
  obtain ⟨⟨written, counted⟩, room⟩ := fits
  rw [sound.holds.readHeader] at room
  replace room : (layout.file state.stored).length + layout.recSize ≤ Registry.maxFileSize := room
  simp only [logStep, sound.current] at moved
  split at moved
  case isFalse => cases moved
  case isTrue valueFits =>
  cases moved
  rw [sound.holds.appendLog time value stack written counted room]
  by_cases refused : faults.early = true ∨ value.type ≠ layout.type
  · rw [if_pos refused]
    refine ⟨laid_set sound.laid fun bytes same => ?_, sound.holds, set_same state.dir 0 _, sound.external⟩
    cases same
    exact sound.laid 0 _ sound.current
  · rw [if_neg refused]
    have same : value.type = layout.type := Classical.byContradiction fun differs => refused (.inr differs)
    have largest : Registry.maxFileSize < 4294967296 := by decide
    have length := sound.holds.length_file
    have size : 1 ≤ layout.recSize := Nat.le_trans (by decide) (Nat.le_add_right 4 _)
    have bound : state.stored.length * 1 ≤ state.stored.length * layout.recSize := Nat.mul_le_mul_left _ size
    have holds := sound.holds.concat (by omega) time same valueFits
    have longer := holds.length_file
    rw [length_append, length_singleton, Nat.add_mul, Nat.one_mul] at longer
    refine ⟨laid_set sound.laid fun bytes equal => ?_, holds, set_same state.dir 0 _, sound.external⟩
    cases equal
    exact ⟨_, holds, rfl, longer ▸ (by omega)⟩

theorem sound_logStep (sound : state.Sound layout other) {step : LogStep}
    (fits : step.fits state = true)
    (moved : logStep state step = some next) : next.Sound layout other := by
  cases step with
  | appendLog time value stack faults => exact sound_appendLog sound fits moved
  | appendLogExternal time value stack early flushed =>
    obtain ⟨stored, holds, same⟩ := sound.external
    simp only [LogStep.fits, same, holds.readHeader, Bool.and_eq_true, decide_eq_true_eq] at fits
    obtain ⟨rfl, few⟩ := fits
    simp only [logStep] at moved
    split at moved
    case isFalse => cases moved
    case isTrue valueFits =>
    cases moved
    refine ⟨sound.laid, sound.holds, sound.current, ?_⟩
    show ∃ stored, other.Holds stored ∧ (AppMon.appendLogExternal state.external _ _ _ _ none).2 = other.file stored
    rw [same, holds.appendLogExternal few]
    by_cases refused : early = true ∨ value.type ≠ other.type
    · rw [if_pos refused]
      exact ⟨stored, holds, rfl⟩
    · rw [if_neg refused]
      exact ⟨_, holds.concat few time (Classical.byContradiction fun differs => refused (.inr differs)) valueFits, rfl⟩
  | shiftFiles faults =>
    simp only [LogStep.fits, Bool.and_eq_true, decide_eq_true_eq] at fits
    obtain ⟨laid, current⟩ := shiftFiles_spec sound.laid sound.holds sound.current fits.1 fits.2
    cases moved
    refine ⟨laid, ?_, current, sound.external⟩
    split
    · exact holds_nil layout
    · exact sound.holds

def CounterRight (file : List UInt8) : Prop :=
  headerSize ≤ file.length ∧ (readHeader file).counter = (file.length - headerSize) / (readHeader file).recSize

theorem LogLayout.Holds.counterRight (holds : layout.Holds stored) : CounterRight (layout.file stored) := by
  have size : 0 < layout.recSize := Nat.lt_of_lt_of_le (by decide) (Nat.le_add_right 4 _)
  refine ⟨holds.length_file ▸ Nat.le_add_right _ _, ?_⟩
  rw [holds.readHeader, holds.length_file, Nat.add_sub_cancel_left]
  exact (Nat.mul_div_cancel _ size).symm

/-- In every run of a log without 16-bit values in which no write fails, whatever else does, the last records that were
appended since the rotation are read, and the counters of all files are right. -/
theorem latest_of_fits (layout other : LogLayout) (notShort : layout.type ≠ .uint16)
    (state : LogState)
    (reachable : ((pointLog layout other).restrict fun state step => step.fits state = true).Reachable state) :
    (∃ file, state.dir 0 = some file ∧ ∀ numRec address,
        getLatestLogs file numRec address = state.stored.drop (state.stored.length - numRec)) ∧
      (∀ number file, state.dir number = some file → CounterRight file) ∧ CounterRight state.external := by
  have sound : state.Sound layout other := by
    refine reachable.invariant sound_logStart fun _ _ _ _ before moved => ?_
    obtain ⟨fits, moved⟩ := Machine.restrict_step.1 moved
    exact sound_logStep before fits moved
  refine ⟨⟨_, sound.current, fun numRec address => ?_⟩, fun number file found => ?_, ?_⟩
  · obtain ⟨_, _, _, small⟩ := sound.laid 0 _ sound.current
    exact sound.holds.getLatestLogs notShort small numRec address
  · obtain ⟨stored, holds, rfl, _⟩ := sound.laid number file found
    exact holds.counterRight
  · obtain ⟨stored, holds, same⟩ := sound.external
    rw [same]
    exact holds.counterRight

def AppendFaults.clear : AppendFaults := ⟨false, none, false, none⟩

def ShiftFaults.clear : ShiftFaults := ⟨false, fun _ => false, false, false, none, false, none⟩

def LogLayout.plain (type : LogType) : LogLayout := ⟨type, 0, [0, 0, 0], rfl⟩

/-- A byte is logged, the log is rotated, and another byte is logged, which is then read. -/
theorem latest_bytes :
    ∃ state : LogState, state.stored = [(9, ⟨.byte, 200⟩)] ∧
      (∃ file, state.dir 0 = some file ∧ ∀ numRec address,
        getLatestLogs file numRec address = state.stored.drop (state.stored.length - numRec)) ∧
      (∀ number file, state.dir number = some file → CounterRight file) ∧ CounterRight state.external := by
  have ran : (((pointLog (.plain .byte) (.plain .double)).restrict fun state step => step.fits state = true).run
      (LogState.start (.plain .byte) (.plain .double))
      [.appendLog 8 ⟨.byte, 5⟩ [] .clear, .shiftFiles .clear, .appendLog 9 ⟨.byte, 200⟩ [] .clear]).map LogState.stored =
        some [(9, ⟨.byte, 200⟩)] := by decide +kernel
  obtain ⟨state, ran, same⟩ := Option.map_eq_some_iff.1 ran
  exact ⟨state, same, latest_of_fits _ _ (by decide) state (Machine.Reachable.start.run ran)⟩

/-- A 16-bit value is logged: what is read is a 32-bit value made of the address of the data. -/
theorem latest_shortLost :
    ∃ state, (pointLog (.plain .uint16) (.plain .double)).Reachable state ∧
      ∃ file, state.dir 0 = some file ∧ state.stored = [(8, ⟨.uint16, 1000⟩)] ∧
        getLatestLogs file 1 4096 ≠ state.stored.drop (state.stored.length - 1) := by
  have ran : ((pointLog (.plain .uint16) (.plain .double)).run (LogState.start (.plain .uint16) (.plain .double))
      [.appendLog 8 ⟨.uint16, 1000⟩ [] .clear]).map
        (fun state => (state.stored, (state.dir 0).map fun file => getLatestLogs file 1 4096)) =
      some ([(8, ⟨.uint16, 1000⟩)], some [(8, ⟨.uint32, 1040⟩)]) := by decide +kernel
  obtain ⟨state, ran, same⟩ := Option.map_eq_some_iff.1 ran
  obtain ⟨stored, read⟩ := Prod.mk.inj same
  obtain ⟨file, found, latest⟩ := Option.map_eq_some_iff.1 read
  refine ⟨state, Machine.Reachable.start.run ran, file, found, stored, ?_⟩
  rw [latest, stored]
  decide

end RpcFrmwrk.AppMon
