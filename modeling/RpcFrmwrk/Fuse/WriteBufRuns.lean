import RpcFrmwrk.Fuse.EvtFileRuns
import RpcFrmwrk.Fuse.WriteBuf

/-! The messages handed to the JSON reader over whole runs of writes. Owns `WriteFile.Exact`, every
message that is complete handed over once and in order; what the buffers of a file hold behind each
loop of `fs_write_buf`. -/

namespace RpcFrmwrk.Fuse

open RpcFrmwrk.Library List

variable {bufs : List OutBuf}

def frames (msgs : List (List UInt8)) : List UInt8 := msgs.flatMap frame

def Partial (bytes : List UInt8) : Prop := bytes.length < 4 ∨ bytes.length < 4 + ofBE (bytes.take 4)

/-- The bytes a `fuse_buf` gives are what its buffer holds: a pipe that is read in several pieces ends whole, or in
front of its middle. -/
def FuseBuf.whole : FuseBuf → Bool
  | .mem _ => true
  | .fd block retry reads =>
    maxBytesPerBuffer < block.length ||
      (pipeLoop retry block.length [] reads).all fun (copied, left) =>
        copied.length < left || copied.length = block.length

def readWhole : List FuseBuf → Bool
  | [] => true
  | buf :: more => buf.whole && (buf.given.isNone || readWhole more)

def splitMsgs : Nat → List UInt8 → List (List UInt8) × List UInt8
  | 0, bytes => ([], bytes)
  | fuel + 1, bytes =>
    if bytes.length < 4 then ([], bytes)
    else
      let size := ofBE (bytes.take 4)
      if maxBytesPerTransfer * 2 < size ∨ bytes.length < 4 + size then ([], bytes)
      else
        let behind := splitMsgs fuel (bytes.drop (4 + size))
        ((bytes.drop 4).take size :: behind.1, behind.2)

/-- Up to the first message that is refused, no message raises an exception, and an empty one is not the last
thing in the buffers. -/
def soundMsgs (parse : List UInt8 → Parsed) (handle : List Nat → JsonValue → Int → Handled) (answers : Nat → Int)
    (padded : Bool) : Nat → List Nat → List (List UInt8) → List UInt8 → Bool
  | _, _, [], _ => true
  | index, taskIds, msg :: more, tail =>
    (padded || !(msg.isEmpty && more.isEmpty && tail.isEmpty)) &&
      match parse msg with
      | .refused => true
      | .raised => false
      | .value val =>
        match handle taskIds val (answers index) with
        | .refused _ => true
        | .raised => false
        | .taken taskIds => soundMsgs parse handle answers padded (index + 1) taskIds more tail

def endsEmpty (bufs : List OutBuf) : Bool := bufs.getLast?.any fun last => last.bytes.isEmpty

namespace WriteFile

def kept (file : WriteFile) : List UInt8 := file.reqSize ++ bytesOf file.outBufs

/-- Since a write has returned an error, every complete message was handed to the reader, once and in order; the
rest of the bytes is kept, in memory of the file; every call has returned and has used no empty list. -/
structure Exact (file : WriteFile) : Prop where
  handed : ∃ rest, file.received = frames file.parsed ++ rest ∧ Partial rest ∧ file.kept = rest
  small : ∀ msg ∈ file.parsed, msg.length ≤ maxBytesPerTransfer * 2
  owned : ∀ buf ∈ file.outBufs, buf.noFree = false
  intact : file.broken = false

/-- The buffers of a call hold what was read, its messages are sound, and nothing is kept where a
buffer can not be read. -/
def Fits (kind : FileKind) (parse : List UInt8 → Parsed) (file : WriteFile) : WriteMove → Prop
  | .write bufvec answers =>
    readWhole bufvec.bufs = true ∧
      if bufvec.bufs.all fun buf => buf.given.isSome then
        let bytes := file.kept ++ givenBytes bufvec.bufs
        let msgs := splitMsgs (bytes.length + 1) bytes
        soundMsgs parse kind.handle answers (endsEmpty (copyFromBufVec file.outBufs bufvec.bufs).1) 0 file.taskIds
          msgs.1 msgs.2 = true
      else file.kept = [] ∧ givenBytes bufvec.bufs = []
  | _ => True

instance (kind : FileKind) (parse : List UInt8 → Parsed) (file : WriteFile) (move : WriteMove) :
    Decidable (file.Fits kind parse move) :=
  match move with
  | .write bufvec answers => inferInstanceAs (Decidable (readWhole bufvec.bufs = true ∧
      if bufvec.bufs.all fun buf => buf.given.isSome then
        let bytes := file.kept ++ givenBytes bufvec.bufs
        let msgs := splitMsgs (bytes.length + 1) bytes
        soundMsgs parse kind.handle answers (endsEmpty (copyFromBufVec file.outBufs bufvec.bufs).1) 0 file.taskIds
          msgs.1 msgs.2 = true
      else file.kept = [] ∧ givenBytes bufvec.bufs = []))
  | .addTaskId _ | .removeTaskId _ | .release => isTrue trivial

end WriteFile

theorem bytesOf_cons (buf : OutBuf) (rest : List OutBuf) : bytesOf
    (buf :: rest) = buf.bytes ++ bytesOf rest := by
  rw [bytesOf, flatMap_cons, bytesOf]

theorem bytesOf_append (bufs behind : List OutBuf) : bytesOf
    (bufs ++ behind) = bytesOf bufs ++ bytesOf behind := by
  rw [bytesOf, flatMap_append, bytesOf, bytesOf]

theorem bytesOf_single (buf : OutBuf) : bytesOf [buf] = buf.bytes := append_nil _

theorem bytesOf_copied (bufs : List OutBuf) : bytesOf (bufs.map OutBuf.copied) = bytesOf bufs := by
  induction bufs with
  | nil => rfl
  | cons buf rest ih =>
    rw [map_cons, bytesOf_cons, bytesOf_cons, ih]
    rfl

theorem endsEmpty_cons {buf : OutBuf} {rest : List OutBuf} (more : rest ≠ []) :
    endsEmpty (buf :: rest) = endsEmpty rest := by
  rw [endsEmpty, endsEmpty, List.getLast?_cons_of_ne_nil more]

theorem endsEmpty_single (buf : OutBuf) : endsEmpty [buf] = buf.bytes.isEmpty := rfl

theorem fillReqSize_bytes (dwCopy : Nat) (reqSize : List UInt8) (bufs : List OutBuf) :
    (fillReqSize dwCopy reqSize bufs).1 ++ bytesOf
    (fillReqSize dwCopy reqSize bufs).2.1 = reqSize ++ bytesOf bufs := by
  induction bufs generalizing dwCopy reqSize with
  | nil => rfl
  | cons elem rest ih =>
    rw [fillReqSize]
    split
    · dsimp only
      split
      · rw [bytesOf_cons, append_assoc]
      · rw [ih, bytesOf_cons, append_assoc]
    · rw [bytesOf_cons, bytesOf_cons, append_assoc, OutBuf.incOffset, ← append_assoc (elem.bytes.take dwCopy),
        take_append_drop]

theorem fillReqSize_missing (dwCopy : Nat) (reqSize : List UInt8) (bufs : List OutBuf) :
    (fillReqSize dwCopy reqSize bufs).1.length +
    (fillReqSize dwCopy reqSize bufs).2.2 = reqSize.length + dwCopy ∧
      (0 < (fillReqSize dwCopy reqSize bufs).2.2 → (fillReqSize dwCopy reqSize bufs).2.1 = []) := by
  induction bufs generalizing dwCopy reqSize with
  | nil => exact ⟨rfl, fun _ => rfl⟩
  | cons elem rest ih =>
    rw [fillReqSize]
    split
    · rename_i within
      dsimp only
      split
      · rename_i none
        refine ⟨?_, fun some => absurd some (Nat.lt_irrefl 0)⟩
        show (reqSize ++ elem.bytes).length + 0 = _
        rw [length_append]
        omega
      · obtain ⟨length, empty⟩ := ih (dwCopy - elem.bytes.length) (reqSize ++ elem.bytes)
        refine ⟨?_, empty⟩
        rw [length, length_append]
        omega
    · rename_i longer
      refine ⟨?_, fun some => absurd some (Nat.lt_irrefl 0)⟩
      show (reqSize ++ elem.bytes.take dwCopy).length + 0 = _
      rw [length_append, length_take, Nat.min_eq_left (by omega), Nat.add_zero]

theorem fillReqSize_endsEmpty {dwCopy : Nat} {reqSize : List UInt8} (some : 0 < dwCopy)
    (ends : endsEmpty bufs = true) (complete : (fillReqSize dwCopy reqSize bufs).2.2 = 0) :
    endsEmpty (fillReqSize dwCopy reqSize bufs).2.1 = true := by
  induction bufs generalizing dwCopy reqSize with
  | nil => exact absurd ends Bool.false_ne_true
  | cons elem rest ih =>
    have last : rest = [] → elem.bytes.length = 0 := by
      intro alone
      rw [alone, endsEmpty_single, List.isEmpty_iff] at ends
      rw [ends]
      rfl
    rw [fillReqSize] at complete ⊢
    split
    · dsimp only
      split
      · rename_i within none
        rw [endsEmpty_cons (fun alone => by have short := last alone; omega)] at ends
        exact ends
      · rename_i within more
        rw [if_pos within] at complete
        dsimp only at complete
        rw [if_neg more] at complete
        cases rest with
        | nil =>
          rw [fillReqSize] at complete
          exact absurd complete more
        | cons second rest =>
          rw [endsEmpty_cons (cons_ne_nil second rest)] at ends
          exact ih (by omega) ends complete
    · rename_i longer
      cases rest with
      | nil => exact absurd (last rfl) (by omega)
      | cons second rest =>
        rw [endsEmpty_cons (cons_ne_nil second rest)] at ends ⊢
        exact ends

/-! ### The bytes of a message -/

theorem takeReq_bytes {dwToAdd : Nat} (within : dwToAdd ≤ (bytesOf bufs).length) :
    bytesOf (takeReq dwToAdd bufs).1 = (bytesOf bufs).take dwToAdd ∧
      bytesOf (takeReq dwToAdd bufs).2 = (bytesOf bufs).drop dwToAdd := by
  induction bufs generalizing dwToAdd with
  | nil =>
    rw [takeReq]
    exact ⟨take_nil.symm, drop_nil.symm⟩
  | cons elem rest ih =>
    rw [bytesOf_cons, length_append] at within
    rw [takeReq, bytesOf_cons, take_append, drop_append]
    split
    · rename_i whole
      rw [take_of_length_le whole, drop_of_length_le whole, nil_append]
      dsimp only
      split
      · obtain ⟨taken, left⟩ := @ih (dwToAdd - elem.bytes.length) (by omega)
        exact ⟨by rw [bytesOf_cons, taken], left⟩
      · rename_i none
        rw [Nat.eq_zero_of_not_pos none, take_zero, drop_zero, append_nil]
        exact ⟨bytesOf_single _, rfl⟩
    · rename_i longer
      rw [Nat.sub_eq_zero_of_le (by omega), take_zero, drop_zero, append_nil]
      exact ⟨bytesOf_single _, bytesOf_cons _ _⟩

theorem takeReq_nonempty {dwToAdd : Nat} (some : bufs ≠ []) : (takeReq dwToAdd bufs).1 ≠ [] := by
  cases bufs with
  | nil => contradiction
  | cons elem rest =>
    rw [takeReq]
    split
    · dsimp only
      split
      · exact cons_ne_nil _ _
      · exact cons_ne_nil _ _
    · exact cons_ne_nil _ _

theorem takeReq_endsEmpty {dwToAdd : Nat} (ends : endsEmpty bufs = true)
    (left : (takeReq dwToAdd bufs).2 ≠ []) : endsEmpty (takeReq dwToAdd bufs).2 = true := by
  induction bufs generalizing dwToAdd with
  | nil => exact absurd ends Bool.false_ne_true
  | cons elem rest ih =>
    rw [takeReq] at left ⊢
    split
    · rename_i within
      rw [if_pos within] at left
      dsimp only at left ⊢
      split
      · rename_i more
        rw [if_pos more] at left
        have behind : rest ≠ [] := by
          intro alone
          rw [alone, takeReq] at left
          exact left rfl
        rw [endsEmpty_cons behind] at ends
        exact ih ends left
      · rename_i none
        rw [if_neg none] at left
        rw [endsEmpty_cons left] at ends
        exact ends
    · rename_i longer
      cases rest with
      | nil =>
        rw [endsEmpty_single, List.isEmpty_iff] at ends
        rw [ends] at longer
        exact absurd (Nat.zero_le _) longer
      | cons second rest =>
        rw [endsEmpty_cons (cons_ne_nil second rest)] at ends ⊢
        exact ends

theorem foldl_appendElem {bytes : List UInt8}
    (fits : bytes.length + (bytesOf bufs).length ≤ maxBytesPerBuffer) :
    bufs.foldl appendElem bytes = bytes ++ bytesOf bufs := by
  induction bufs generalizing bytes with
  | nil => exact (append_nil _).symm
  | cons elem rest ih =>
    rw [bytesOf_cons, length_append] at fits
    have appended : appendElem bytes elem = bytes ++ elem.bytes := by
      rw [appendElem]
      cases empty : elem.bytes with
      | nil =>
        rw [append_nil]
        rfl
      | cons first behind =>
        rw [empty] at fits
        rw [appendBuf_of_fits (cons_ne_nil first behind) (by omega), Option.getD_some]
    rw [foldl_cons, appended, ih (by rw [length_append]; omega), bytesOf_cons, append_assoc]

theorem mergeBufs_bytes (some : bufs ≠ [])
    (fits : (bytesOf bufs).length ≤ maxBytesPerBuffer) : mergeBufs bufs = .some (bytesOf bufs) := by
  cases bufs with
  | nil => contradiction
  | cons front rest =>
    cases rest with
    | nil =>
      rw [mergeBufs, bytesOf_cons]
      exact congrArg Option.some (append_nil _).symm
    | cons second rest =>
      rw [mergeBufs]
      split
      · rw [foldl_appendElem (by rw [length_nil, Nat.zero_add]; exact fits), nil_append]
      · rw [bytesOf_cons, length_append] at fits
        rw [foldl_appendElem fits, bytesOf_cons front]

theorem pipeLoop_length {retry : Bool} {reads : List PipeRead} {len : Nat} {copied got : List UInt8} {left : Nat}
    (read : pipeLoop retry len copied reads = some (got, left)) : got.length ≤ copied.length + len := by
  induction reads generalizing len copied with
  | nil =>
    rw [pipeLoop] at read
    rw [← (Prod.mk.inj (Option.some.inj read)).1]
    exact Nat.le_add_right _ _
  | cons answer more ih =>
    rw [pipeLoop.eq_def] at read
    dsimp only at read
    split at read
    · rw [← (Prod.mk.inj (Option.some.inj read)).1]
      exact Nat.le_add_right _ _
    · cases answer with
      | failed =>
        have same := (Option.ite_none_left_eq_some.1 read).2
        rw [← (Prod.mk.inj (Option.some.inj same)).1]
        exact Nat.le_add_right _ _
      | bytes block =>
        have short : (block.take len).length ≤ len := length_take_le _ _
        dsimp only at read
        split at read
        · rw [← (Prod.mk.inj (Option.some.inj read)).1]
          exact Nat.le_add_right _ _
        · split at read
          · have bound := ih read
            rw [length_append] at bound
            omega
          · rw [← (Prod.mk.inj (Option.some.inj read)).1, length_append]
            omega

theorem FuseBuf.given_length {buf : FuseBuf} {bytes : List UInt8} (given : buf.given = some bytes) :
    bytes.length ≤ buf.size := by
  cases buf with
  | mem block =>
    cases given
    exact Nat.le_refl _
  | fd block retry reads =>
    obtain ⟨_, read⟩ := Option.ite_none_left_eq_some.1 given
    obtain ⟨⟨got, left⟩, loop, same⟩ := Option.map_eq_some_iff.1 read
    have bound := pipeLoop_length loop
    rw [length_nil, Nat.zero_add] at bound
    rw [← same]
    exact bound

theorem givenBytes_length (bufs : List FuseBuf) : (givenBytes bufs).length ≤ (bufs.map FuseBuf.size).sum := by
  induction bufs with
  | nil => exact Nat.le_refl _
  | cons buf more ih =>
    rw [map_cons, sum_cons, givenBytes]
    cases given : buf.given with
    | none => exact Nat.zero_le _
    | some bytes =>
      have bound := FuseBuf.given_length given
      show (bytes ++ givenBytes more).length ≤ _
      rw [length_append]
      omega

theorem copyFromPipe_of_whole {block : List UInt8} {retry : Bool} {reads : List PipeRead}
    (whole : (FuseBuf.fd block retry reads).whole = true) :
    copyFromPipe block retry reads = (FuseBuf.fd block retry reads).given := by
  rw [FuseBuf.whole, Bool.or_eq_true, decide_eq_true_eq] at whole
  rw [copyFromPipe, FuseBuf.given]
  split
  · rfl
  · rename_i within
    have ends := whole.resolve_left within
    cases read : pipeLoop retry block.length [] reads with
    | none => rfl
    | some res =>
      obtain ⟨copied, left⟩ := res
      rw [read] at ends
      have ends : (decide (copied.length < left) || decide (copied.length = block.length)) = true := ends
      rw [Bool.or_eq_true, decide_eq_true_eq, decide_eq_true_eq] at ends
      show some (if copied.length < left then copied else copied ++ block.drop copied.length) = some copied
      split
      · rfl
      · rename_i notLess
        rw [drop_of_length_le (Nat.le_of_eq (ends.resolve_left notLess).symm), append_nil]

theorem copyFromBufVec_of_whole {vecBuf : List OutBuf} {bufs : List FuseBuf}
    (whole : readWhole bufs = true) :
    bytesOf (copyFromBufVec vecBuf bufs).1 = bytesOf vecBuf ++ givenBytes bufs ∧
      (copyFromBufVec vecBuf bufs).2 = bufs.all fun buf => buf.given.isSome := by
  induction bufs generalizing vecBuf with
  | nil => exact ⟨(append_nil _).symm, rfl⟩
  | cons buf more ih =>
    rw [readWhole, Bool.and_eq_true, Bool.or_eq_true] at whole
    rw [givenBytes, all_cons]
    cases buf with
    | mem bytes =>
      have rest := whole.2.resolve_left Bool.false_ne_true
      obtain ⟨copied, read⟩ := @ih (vecBuf ++ [newBufNoAlloc bytes]) rest
      rw [bytesOf_append, bytesOf_single, append_assoc] at copied
      exact ⟨copied, read⟩
    | fd block retry reads =>
      rw [copyFromBufVec, copyFromPipe_of_whole whole.1]
      cases given : (FuseBuf.fd block retry reads).given with
      | none => exact ⟨(append_nil _).symm, rfl⟩
      | some bytes =>
        rw [given] at whole
        have rest := whole.2.resolve_left Bool.false_ne_true
        dsimp only
        split
        · rename_i empty
          rw [List.isEmpty_iff.1 empty]
          exact ih rest
        · obtain ⟨copied, read⟩ := @ih (vecBuf ++ [⟨bytes, false⟩]) rest
          rw [bytesOf_append, bytesOf_single, append_assoc] at copied
          exact ⟨copied, read⟩

/-! ### A message -/

namespace WriteFile

section

variable {parse : List UInt8 → Parsed} {handle : List Nat → JsonValue → Int → Handled} {answers : Nat → Int}
variable {file : WriteFile}

/-- What holds of a file between two calls. -/
structure Inv (file : WriteFile) : Prop where
  order : file.received = frames file.parsed ++ file.kept
  layout : (file.reqSize.length < 4 ∧ bytesOf file.outBufs = []) ∨
    (file.reqSize.length = 4 ∧ (bytesOf file.outBufs).length < ofBE file.reqSize ∧
      ofBE file.reqSize ≤ maxBytesPerTransfer * 2)
  small : ∀ msg ∈ file.parsed, msg.length ≤ maxBytesPerTransfer * 2
  owned : ∀ buf ∈ file.outBufs, buf.noFree = false
  intact : file.broken = false

theorem Inv.exact (inv : file.Inv) : file.Exact := by
  refine ⟨⟨file.kept, inv.order, ?_, rfl⟩, inv.small, inv.owned, inv.intact⟩
  rcases inv.layout with ⟨short, empty⟩ | ⟨full, short, _⟩
  · apply Or.inl
    rw [kept, empty, append_nil]
    exact short
  · apply Or.inr
    rw [kept, take_append_of_le_length (Nat.le_of_eq full.symm), take_of_length_le (Nat.le_of_eq full),
      length_append, full]
    omega

/-- How the loop of a call ends. -/
structure Ended (ended : Turn × WriteFile) : Prop where
  notBroken : ended.1 ≠ .broken
  intact : ended.2.broken = false
  kept : ended.1 = .done → ended.2.Inv

theorem Ended.failed (intact : file.broken = false) : Ended (.failed, file) :=
  ⟨fun same => Turn.noConfusion same, intact, fun same => Turn.noConfusion same⟩

theorem Ended.done (inv : file.Inv) : Ended (.done, file) :=
  ⟨fun same => Turn.noConfusion same, inv.intact, fun _ => inv⟩

/-- What holds in front of a turn. -/
structure InTurn (file : WriteFile) (padded : Bool) : Prop where
  order : file.received = frames file.parsed ++ file.kept
  length : file.reqSize.length ≤ 4
  bounded : file.kept.length < 2 ^ 32
  small : ∀ msg ∈ file.parsed, msg.length ≤ maxBytesPerTransfer * 2
  ends : padded = true → endsEmpty file.outBufs = true
  intact : file.broken = false

variable {padded : Bool} {index fuel : Nat}

def TurnOf (parse : List UInt8 → Parsed) (handle : List Nat → JsonValue → Int → Handled) (answers : Nat → Int)
    (padded : Bool) (index fuel : Nat) (ended : Turn × WriteFile) : Prop :=
  if ended.1 = .again then
    ended.2.InTurn padded ∧ ended.2.kept.length < fuel ∧
      soundMsgs parse handle answers padded (index + 1) ended.2.taskIds (splitMsgs fuel ended.2.kept).1
        (splitMsgs fuel ended.2.kept).2 = true
  else Ended ended

theorem TurnOf.ended {ended : Turn × WriteFile} (stops : ended.1 ≠ .again) (ends : Ended ended) :
    TurnOf parse handle answers padded index fuel ended := by
  rw [TurnOf, if_neg stops]
  exact ends

theorem frame_of_size {reqSize msg : List UInt8} (full : reqSize.length = 4)
    (size : msg.length = ofBE reqSize) :
    frame msg = reqSize ++ msg := by
  have word := toBE_ofBE reqSize
  rw [full] at word
  rw [frame, size, word]

theorem handMsg_turnOf {msg : List UInt8} (full : file.reqSize.length = 4)
    (size : msg.length = ofBE file.reqSize)
    (order : file.received = frames file.parsed ++ (file.reqSize ++ (msg ++ bytesOf file.outBufs)))
    (small : ∀ msg ∈ file.parsed, msg.length ≤ maxBytesPerTransfer * 2)
    (fits : msg.length ≤ maxBytesPerTransfer * 2)
    (bounded : (bytesOf file.outBufs).length < 2 ^ 32) (long : (bytesOf file.outBufs).length < fuel)
    (ends : file.outBufs ≠ [] → padded = true → endsEmpty file.outBufs = true)
    (intact : file.broken = false)
    (sound : soundMsgs parse handle answers padded index file.taskIds
      (msg :: (splitMsgs fuel (bytesOf file.outBufs)).1) (splitMsgs fuel (bytesOf file.outBufs)).2 = true) :
    TurnOf parse handle answers padded index fuel (handMsg parse handle file msg (answers index)) := by
  have handed : file.received = frames (file.parsed ++ [msg]) ++ bytesOf file.outBufs := by
    rw [order, frames, frames, flatMap_append, flatMap_singleton, frame_of_size full size,
      append_assoc, append_assoc]
  have small : ∀ handed ∈ file.parsed ++ [msg], handed.length ≤ maxBytesPerTransfer * 2 := by
    exact forall_mem_append.2 ⟨small, forall_mem_singleton.2 fits⟩
  rw [soundMsgs, Bool.and_eq_true] at sound
  have sound := sound.2
  rw [handMsg]
  cases read : parse msg with
  | refused => exact TurnOf.ended (fun same => Turn.noConfusion same) (Ended.failed intact)
  | raised =>
    rw [read] at sound
    exact absurd sound Bool.false_ne_true
  | value val =>
    rw [read] at sound
    dsimp only at sound ⊢
    cases answer : handle file.taskIds val (answers index) with
    | refused taskIds => exact TurnOf.ended (fun same => Turn.noConfusion same) (Ended.failed intact)
    | raised =>
      rw [answer] at sound
      exact absurd sound Bool.false_ne_true
    | taken taskIds =>
      rw [answer] at sound
      dsimp only at sound ⊢
      cases empty : file.outBufs with
      | nil =>
        rw [empty] at handed
        apply TurnOf.ended (fun same => Turn.noConfusion same)
        apply Ended.done
        exact ⟨handed, .inl ⟨Nat.zero_lt_succ 3, rfl⟩, small, fun buf none => absurd none not_mem_nil, intact⟩
      | cons elem rest =>
        rw [empty] at handed bounded long sound ends
        exact ⟨⟨handed, Nat.zero_le 4, bounded, small, ends (cons_ne_nil elem rest), intact⟩, long, sound⟩

theorem splitMsgs_nil (fuel : Nat) : splitMsgs fuel [] = ([], []) := by
  cases fuel with
  | zero => rfl
  | succ fuel => rfl

theorem padded_of_sound {taskIds : List Nat}
    (sound : soundMsgs parse handle answers padded index taskIds [[]] [] = true) : padded = true := by
  rw [soundMsgs, Bool.and_eq_true, Bool.or_eq_true] at sound
  exact sound.1.resolve_right Bool.false_ne_true

theorem takeMsg_turnOf (full : file.reqSize.length = 4) (inTurn : file.InTurn padded)
    (long : file.kept.length < fuel + 1)
    (sound : soundMsgs parse handle answers padded index file.taskIds (splitMsgs (fuel + 1) file.kept).1
      (splitMsgs (fuel + 1) file.kept).2 = true) :
    TurnOf parse handle answers padded index fuel (takeMsg parse handle file (answers index)) := by
  have word : file.kept.take 4 = file.reqSize := by
    rw [kept, take_append_of_le_length (Nat.le_of_eq full.symm), take_of_length_le (Nat.le_of_eq full)]
  have behind : file.kept.drop 4 = bytesOf file.outBufs := by
    rw [kept, ← full]
    exact drop_left
  have length : file.kept.length = 4 + (bytesOf file.outBufs).length := by
    rw [kept, length_append, full]
  have bounded := inTurn.bounded
  rw [takeMsg, Nat.mod_eq_of_lt (by omega)]
  split
  · exact TurnOf.ended (fun same => Turn.noConfusion same) (Ended.failed inTurn.intact)
  · rename_i notLarge
    dsimp only
    split
    · rename_i short
      apply TurnOf.ended (fun same => Turn.noConfusion same)
      apply Ended.done
      refine ⟨?_, .inr ⟨full, ?_, Nat.le_of_not_lt notLarge⟩, inTurn.small, ?_, inTurn.intact⟩
      · rw [kept, bytesOf_copied]
        exact inTurn.order
      · rw [bytesOf_copied]
        exact short
      · intro buf copied
        obtain ⟨_, _, same⟩ := mem_map.1 copied
        rw [← same]
        rfl
    · rename_i enough
      have within : ofBE file.reqSize ≤ (bytesOf file.outBufs).length := Nat.le_of_not_lt enough
      obtain ⟨taken, left⟩ := takeReq_bytes within
      have split : splitMsgs (fuel + 1) file.kept = ((bytesOf file.outBufs).take (ofBE file.reqSize) ::
          (splitMsgs fuel (bytesOf (takeReq (ofBE file.reqSize) file.outBufs).2)).1,
          (splitMsgs fuel (bytesOf (takeReq (ofBE file.reqSize) file.outBufs).2)).2) := by
        rw [splitMsgs, if_neg (by omega), word, if_neg (by omega), ← drop_drop, behind, left]
      rw [split] at sound
      have some : file.outBufs ≠ [] := by
        intro empty
        have none : (bytesOf file.outBufs).take (ofBE file.reqSize) = [] := by
          rw [empty]
          exact take_nil
        have nothing : bytesOf (takeReq (ofBE file.reqSize) file.outBufs).2 = [] := by
          rw [left, empty]
          exact drop_nil
        rw [none, nothing, splitMsgs_nil] at sound
        have ends := inTurn.ends (padded_of_sound sound)
        rw [empty] at ends
        exact Bool.false_ne_true ends
      have merged := mergeBufs_bytes (takeReq_nonempty some) (by
        have limit : maxBytesPerTransfer * 2 ≤ maxBytesPerBuffer := by decide
        rw [taken, length_take]
        omega)
      rw [merged, taken]
      have order : file.received = frames file.parsed ++ (file.reqSize ++
          ((bytesOf file.outBufs).take (ofBE file.reqSize) ++
            bytesOf (takeReq (ofBE file.reqSize) file.outBufs).2)) := by
        rw [left, take_append_drop]
        exact inTurn.order
      have shorter : (bytesOf (takeReq (ofBE file.reqSize) file.outBufs).2).length ≤ (bytesOf file.outBufs).length := by
        rw [left, length_drop]
        exact Nat.sub_le _ _
      apply @handMsg_turnOf parse handle answers { file with outBufs := (takeReq (ofBE file.reqSize) file.outBufs).2 }
        padded index fuel _ full
      · rw [length_take, Nat.min_eq_left within]
      · exact order
      · exact inTurn.small
      · rw [length_take, Nat.min_eq_left within]
        exact Nat.le_of_not_lt notLarge
      · show (bytesOf (takeReq (ofBE file.reqSize) file.outBufs).2).length < _
        omega
      · show (bytesOf (takeReq (ofBE file.reqSize) file.outBufs).2).length < _
        omega
      · exact fun more isPadded => takeReq_endsEmpty (inTurn.ends isPadded) more
      · exact inTurn.intact
      · exact sound

theorem turn_turnOf (inTurn : file.InTurn padded) (long : file.kept.length < fuel + 1)
    (sound : soundMsgs parse handle answers padded index file.taskIds (splitMsgs (fuel + 1) file.kept).1
      (splitMsgs (fuel + 1) file.kept).2 = true) :
    TurnOf parse handle answers padded index fuel (turn parse handle file (answers index)) := by
  rw [turn]
  split
  · rename_i short
    have bytes := fillReqSize_bytes (4 - file.reqSize.length) file.reqSize file.outBufs
    obtain ⟨length, none⟩ := fillReqSize_missing (4 - file.reqSize.length) file.reqSize file.outBufs
    have ends : padded = true → (fillReqSize (4 - file.reqSize.length) file.reqSize file.outBufs).2.2 = 0 →
        endsEmpty (fillReqSize (4 - file.reqSize.length) file.reqSize file.outBufs).2.1 = true := by
      intro isPadded complete
      exact fillReqSize_endsEmpty (by omega) (inTurn.ends isPadded) complete
    have four : file.reqSize.length + (4 - file.reqSize.length) = 4 := by omega
    rw [four] at length
    rw [getReqSize, if_neg (by omega), if_neg (by omega)]
    generalize fillReqSize (4 - file.reqSize.length) file.reqSize file.outBufs = filled at bytes length none ends
    have same : ({ file with reqSize := filled.1, outBufs := filled.2.1 } : WriteFile).kept = file.kept := bytes
    dsimp only
    split
    · rename_i missing
      apply TurnOf.ended (fun same => Turn.noConfusion same)
      apply Ended.done
      refine ⟨?_, .inl ⟨?_, ?_⟩, inTurn.small, ?_, inTurn.intact⟩
      · rw [same]
        exact inTurn.order
      · show filled.1.length < 4
        rw [← length]
        exact Nat.lt_add_of_pos_right missing
      · show bytesOf filled.2.1 = []
        rw [none missing]
        rfl
      · show ∀ buf ∈ filled.2.1, _
        rw [none missing]
        exact fun buf isIn => absurd isIn not_mem_nil
    · rename_i complete
      have zero := Nat.eq_zero_of_not_pos complete
      apply takeMsg_turnOf
      · show filled.1.length = 4
        rw [← length, zero, Nat.add_zero]
      · refine ⟨?_, ?_, ?_, inTurn.small, fun isPadded => ends isPadded zero, inTurn.intact⟩
        · rw [same]
          exact inTurn.order
        · show filled.1.length ≤ 4
          rw [← length]
          exact Nat.le_add_right _ _
        · rw [same]
          exact inTurn.bounded
      · rw [same]
        exact long
      · rw [same]
        exact sound
  · rename_i notShort
    exact takeMsg_turnOf (Nat.le_antisymm inTurn.length (Nat.le_of_not_lt notShort)) inTurn long sound

theorem writeLoop_ended (inTurn : file.InTurn padded) (long : file.kept.length < fuel)
    (sound : soundMsgs parse handle answers padded index file.taskIds (splitMsgs fuel file.kept).1
      (splitMsgs fuel file.kept).2 = true) :
    Ended (writeLoop parse handle answers fuel index file) ∧
      (writeLoop parse handle answers fuel index file).1 ≠ .again := by
  induction fuel generalizing index file with
  | zero => exact absurd long (Nat.not_lt_zero _)
  | succ fuel ih =>
    have turned := turn_turnOf inTurn long sound
    rw [writeLoop]
    generalize turn parse handle file (answers index) = ended at turned
    obtain ⟨turn, next⟩ := ended
    cases turn with
    | again =>
      obtain ⟨inTurn, shorter, sound⟩ := turned
      exact ih inTurn shorter sound
    | done | failed | broken => exact ⟨turned, fun same => Turn.noConfusion same⟩

end

section

variable {kind : FileKind} {parse : List UInt8 → Parsed} {file : WriteFile}

theorem Inv.nothing (empty : file.kept = []) (received : file.received = [])
    (parsed : file.parsed = [])
    (owned : ∀ buf ∈ file.outBufs, buf.noFree = false)
    (intact : file.broken = false) : file.Inv := by
  obtain ⟨noSize, noBytes⟩ := append_eq_nil_iff.1 empty
  refine ⟨?_, .inl ⟨?_, noBytes⟩, ?_, owned, intact⟩
  · rw [received, parsed, empty]
    rfl
  · rw [noSize]
    exact Nat.zero_lt_succ 3
  · rw [parsed]
    exact fun msg none => absurd none not_mem_nil

theorem Inv.kept_length (inv : file.Inv) : file.kept.length ≤ 4 + maxBytesPerTransfer * 2 := by
  rw [kept, length_append]
  rcases inv.layout with ⟨short, empty⟩ | ⟨full, short, limit⟩
  · rw [empty, length_nil]
    omega
  · omega

theorem copyFromBufVec_noFree {vecBuf : List OutBuf} {bufs : List FuseBuf}
    (before : ∀ buf ∈ vecBuf, buf.noFree = true → buf.bytes ≠ []) :
    ∀ buf ∈ (copyFromBufVec vecBuf bufs).1, buf.noFree = true → buf.bytes ≠ [] := by
  induction bufs generalizing vecBuf with
  | nil => exact before
  | cons buf more ih =>
    cases buf with
    | mem bytes =>
      apply ih
      intro buf isIn noFree
      rcases mem_append.1 isIn with old | new
      · exact before buf old noFree
      · rw [mem_singleton.1 new] at noFree ⊢
        intro empty
        have long : 128 ≤ bytes.length := of_decide_eq_true noFree
        have empty : bytes = [] := empty
        rw [empty] at long
        exact absurd long (by decide)
    | fd block retry reads =>
      rw [copyFromBufVec]
      split
      · exact before
      · split
        · exact ih before
        · apply ih
          intro buf isIn noFree
          rcases mem_append.1 isIn with old | new
          · exact before buf old noFree
          · rw [mem_singleton.1 new] at noFree
            exact absurd noFree Bool.false_ne_true

theorem bytes_of_bytesOf_nil {bufs : List OutBuf} (none : bytesOf bufs = []) {buf : OutBuf}
    (isIn : buf ∈ bufs) :
    buf.bytes = [] := flatMap_eq_nil_iff.1 none buf isIn

theorem Inv.write (inv : file.Inv) {bufvec : BufVec} {answers : Nat → Int}
    (fits : file.Fits kind parse (.write bufvec answers)) :
    (file.fsWriteBuf parse kind.handle bufvec.bufs answers).Inv := by
  obtain ⟨whole, fits⟩ := fits
  obtain ⟨copied, read⟩ := @copyFromBufVec_of_whole file.outBufs bufvec.bufs whole
  have given := givenBytes_length bufvec.bufs
  have small := bufvec.small
  have before := inv.kept_length
  have limit : 4 + maxBytesPerTransfer * 2 + 2 ^ 31 < 2 ^ 32 := by decide
  rw [fsWriteBuf, read]
  split
  · rename_i all
    rw [if_pos all] at fits
    have kept : ({ file with
        outBufs := (copyFromBufVec file.outBufs bufvec.bufs).1
        received := file.received ++ givenBytes bufvec.bufs } : WriteFile).kept =
        file.kept ++ givenBytes bufvec.bufs := by
      rw [WriteFile.kept, WriteFile.kept, copied, append_assoc]
    have inTurn : ({ file with
        outBufs := (copyFromBufVec file.outBufs bufvec.bufs).1
        received := file.received ++ givenBytes bufvec.bufs } : WriteFile).InTurn
        (endsEmpty (copyFromBufVec file.outBufs bufvec.bufs).1) := by
      refine ⟨?_, ?_, ?_, inv.small, fun ends => ends, inv.intact⟩
      · rw [kept, ← append_assoc, ← inv.order]
      · show file.reqSize.length ≤ 4
        rcases inv.layout with ⟨short, _⟩ | ⟨full, _⟩
        · exact Nat.le_of_lt short
        · exact Nat.le_of_eq full
      · rw [kept, length_append]
        omega
    have length : file.reqSize.length + (bytesOf (copyFromBufVec file.outBufs bufvec.bufs).1).length + 1 =
        (file.kept ++ givenBytes bufvec.bufs).length + 1 := by
      rw [← kept, WriteFile.kept, length_append]
    obtain ⟨ended, stops⟩ := @writeLoop_ended parse kind.handle answers _ _ 0
      ((file.kept ++ givenBytes bufvec.bufs).length + 1) inTurn (by rw [kept]; exact Nat.lt_succ_self _)
      (by rw [kept]; exact fits)
    rw [length]
    generalize writeLoop parse kind.handle answers _ 0 _ = last at ended stops
    obtain ⟨turn, next⟩ := last
    cases turn with
    | again => exact absurd rfl stops
    | done => exact ended.kept rfl
    | failed => exact Inv.nothing rfl rfl rfl (fun buf none => absurd none not_mem_nil) ended.intact
    | broken => exact absurd rfl ended.notBroken
  · rename_i failing
    rw [if_neg failing] at fits
    have none : bytesOf (copyFromBufVec file.outBufs bufvec.bufs).1 = [] := by
      rw [copied, fits.2, append_nil]
      exact (append_eq_nil_iff.1 fits.1).2
    apply Inv.nothing
    · show file.reqSize ++ bytesOf (copyFromBufVec file.outBufs bufvec.bufs).1 = []
      rw [none, append_nil]
      exact (append_eq_nil_iff.1 fits.1).1
    · rfl
    · rfl
    · intro buf isIn
      have kept := @copyFromBufVec_noFree file.outBufs bufvec.bufs
        (fun buf old noFree => absurd (inv.owned buf old) (by rw [noFree]; exact fun same => Bool.noConfusion same))
        buf isIn
      cases noFree : buf.noFree with
      | false => rfl
      | true => exact absurd (bytes_of_bytesOf_nil none isIn) (kept noFree)
    · exact inv.intact

theorem Inv.step (inv : file.Inv) {move : WriteMove} (fits : file.Fits kind parse move)
    {next : WriteFile}
    (moved : file.step kind parse move = some next) : next.Inv := by
  obtain ⟨_, moved⟩ := Option.ite_none_left_eq_some.1 moved
  cases move with
  | write bufvec answers =>
    have wrote := inv.write fits
    cases moved
    cases kind with
    | reqFileProxy | respFileSvr => exact wrote
  | addTaskId | removeTaskId =>
    cases moved
    exact { inv with }
  | release =>
    cases moved
    exact Inv.nothing rfl rfl rfl (fun buf none => absurd none not_mem_nil) inv.intact

end

/-- The complete messages are handed over once and in order, and every call returns. -/
theorem exact_of_sound (kind : FileKind) (parse : List UInt8 → Parsed) {file : WriteFile}
    (reached : ((writeFile kind parse).restrict (Fits kind parse)).Reachable file) : file.Exact := by
  have inv : file.Inv := by
    apply @Machine.Reachable.invariant _ _ _ Inv _ reached
    · exact Inv.nothing rfl rfl rfl (fun buf none => absurd none not_mem_nil) rfl
    · intro file move next _ inv moved
      obtain ⟨fits, moved⟩ := Machine.restrict_step.1 moved
      exact inv.step fits moved
  exact inv.exact

def textOfFive : List UInt8 := "\x7b\"RequestId\":5\x7d".toUTF8.toList

def parseFive (text : List UInt8) : Parsed :=
  if text = textOfFive then .value (.object [(attrReqCtxId, .int 5)]) else .refused

/-- Two requests behind a call whose pipe can not be read: the first is cut in its size word and in its text, the
second comes through pipes that are read in pieces. -/
theorem exact_twoRequests : ∃ file : WriteFile, file.parsed = [textOfFive, textOfFive] ∧ file.Exact := by
  have ran : (((writeFile .reqFileProxy parseFive).restrict (Fits .reqFileProxy parseFive)).run
      (writeFile .reqFileProxy parseFive).start
      [.write ⟨[.fd [0, 0] false [.failed], .mem [1]], by decide⟩ fun _ => 0,
        .write ⟨[.mem [0, 0]], by decide⟩ fun _ => 0,
        .write ⟨[.mem ([0, 15] ++ textOfFive.take 4), .mem ((textOfFive.drop 4).take 3)], by decide +kernel⟩ fun _ => 0,
        .write ⟨[.mem (textOfFive.drop 7), .mem [0, 0, 0], .fd (List.replicate 30 9) true
          [.bytes ([15] ++ textOfFive.take 2), .bytes ((textOfFive.drop 2).take 9)]], by decide +kernel⟩ fun _ => 0,
        .write ⟨[.fd (List.replicate 4 9) true [.bytes ((textOfFive.drop 11).take 2), .bytes (textOfFive.drop 13)]],
          by decide +kernel⟩ fun _ => 0]).map (fun file => file.parsed) = some [textOfFive, textOfFive] := by
    decide +kernel
  obtain ⟨file, run, parsed⟩ := Option.map_eq_some_iff.1 ran
  exact ⟨file, parsed, exact_of_sound _ _ (Machine.Reachable.start.run run)⟩

/-- The size word of an empty message is all that a call brings: the list of its buffers is empty. -/
theorem emptyMsg_breaks : ¬∀ kind parse file,
    (writeFile kind parse).Reachable file → file.Exact := by
  intro exact
  have ran : ((writeFile .reqFileProxy fun _ => .refused).run (writeFile .reqFileProxy fun _ => .refused).start
      [.write ⟨[.mem [0, 0, 0, 0]], by decide⟩ fun _ => 0]).map (fun file => file.broken) = some true := by
    decide +kernel
  obtain ⟨file, run, broken⟩ := Option.map_eq_some_iff.1 ran
  have intact := (exact _ _ file (Machine.Reachable.start.run run)).intact
  rw [broken] at intact
  contradiction

end WriteFile

end RpcFrmwrk.Fuse
