import Mathlib.Data.List.Nodup
import RpcFrmwrk.Ipc.StmWriter

/-! The pieces of the writing task over whole runs. Owns the pieces of a request, and how the window
of its buffer goes from one to the next; `StmWriter.InPieces`, what the lower stream gets and how
the requests are completed; the steps that fit, and the invariant of their runs; a run in which a
failed piece completes its request with success. -/

namespace RpcFrmwrk.Ipc

open RpcFrmwrk.Library List Function

theorem stmMaxBytesPerBuf_pos : 0 < stmMaxBytesPerBuf := by decide

namespace WriteReq

/-- The piece behind `count` full ones. -/
def pieceAt (req : WriteReq) (count : Nat) : StmPiece :=
  ⟨req.id, req.buf.offset + count * stmMaxBytesPerBuf,
    min (req.buf.offset + (count + 1) * stmMaxBytesPerBuf) req.buf.tailOff⟩

def pieceCount (req : WriteReq) : Nat :=
  (req.buf.size + stmMaxBytesPerBuf - 1) / stmMaxBytesPerBuf

def pieces (req : WriteReq) (count : Nat) : List StmPiece := (List.range count).map req.pieceAt

variable {req : WriteReq} {count : Nat}

theorem pieces_succ : req.pieces (count + 1) = req.pieces count ++ [req.pieceAt count] := by
  rw [pieces, range_succ, map_append]
  rfl

theorem mem_pieces {piece : StmPiece} {more : Nat} (member : piece ∈ req.pieces count)
    (fewer : count ≤ more) : piece ∈ req.pieces more := by
  obtain ⟨before, inRange, same⟩ := mem_map.1 member
  rw [← same]
  exact mem_map_of_mem (mem_range.2 ((mem_range.1 inRange).trans_le fewer))

theorem lt_pieceCount :
    count < req.pieceCount ↔ req.buf.offset + count * stmMaxBytesPerBuf < req.buf.tailOff := by
  have ordered := req.buf.ordered
  have positive := stmMaxBytesPerBuf_pos
  rw [pieceCount, BufWindow.size, ← Nat.add_one_le_iff, Nat.le_div_iff_mul_le positive, Nat.add_one_mul]
  omega

theorem pieceCount_pos (some : req.buf.size ≠ 0) : 0 < req.pieceCount := by
  rw [lt_pieceCount, Nat.zero_mul, Nat.add_zero]
  rw [BufWindow.size] at some
  omega

end WriteReq

namespace QueuedWrite

variable {irp : QueuedWrite} {count : Nat}

/-- The window stands at the piece behind `count` full ones, or was never cut. -/
structure AtPiece (irp : QueuedWrite) (count : Nat) : Prop where
  block : irp.win.actSize = irp.req.buf.actSize
  window : irp.piece = irp.req.pieceAt count ∨ (count = 0 ∧ irp.win = irp.req.buf)
  inside : count < irp.req.pieceCount

theorem atPiece_uncut (some : irp.req.buf.size ≠ 0) (uncut : irp.win = irp.req.buf) : irp.AtPiece 0 :=
  ⟨by rw [uncut], .inr ⟨rfl, uncut⟩, WriteReq.pieceCount_pos some⟩

theorem offset_of_piece (same : irp.piece = irp.req.pieceAt count) :
    irp.win.offset = irp.req.buf.offset + count * stmMaxBytesPerBuf :=
  congrArg StmPiece.offset same

theorem tailOff_of_piece (same : irp.piece = irp.req.pieceAt count) :
    irp.win.tailOff =
      min (irp.req.buf.offset + count * stmMaxBytesPerBuf + stmMaxBytesPerBuf) irp.req.buf.tailOff := by
  rw [Nat.add_assoc, ← Nat.add_one_mul]
  exact congrArg StmPiece.tailOff same

theorem piece_eq (offset : irp.win.offset = irp.req.buf.offset + count * stmMaxBytesPerBuf)
    (tailOff : irp.win.tailOff =
      min (irp.req.buf.offset + count * stmMaxBytesPerBuf + stmMaxBytesPerBuf) irp.req.buf.tailOff) :
    irp.piece = irp.req.pieceAt count := by
  rw [piece, WriteReq.pieceAt, offset, tailOff, Nat.add_one_mul, Nat.add_assoc]

theorem piece_of_small (small : irp.req.buf.size ≤ stmMaxBytesPerBuf)
    (uncut : irp.win = irp.req.buf) :
    irp.piece = irp.req.pieceAt 0 := by
  rw [BufWindow.size] at small
  apply piece_eq
  · rw [uncut, Nat.zero_mul, Nat.add_zero]
  · rw [uncut, Nat.zero_mul, Nat.add_zero]
    omega

theorem adjust_cut (place : irp.AtPiece count) :
    ∃ win, (irp.adjustSizeToWrite false).2 = { irp with win := win } ∧
      win.actSize = irp.req.buf.actSize ∧
      { irp with win := win }.piece = irp.req.pieceAt count := by
  have inside := WriteReq.lt_pieceCount.1 place.inside
  have positive := stmMaxBytesPerBuf_pos
  have some : irp.win.size ≠ 0 := by
    rw [BufWindow.size]
    rcases place.window with same | ⟨isFirst, uncut⟩
    · have tail := tailOff_of_piece same
      have offset := offset_of_piece same
      omega
    · rw [isFirst, Nat.zero_mul] at inside
      rw [uncut]
      omega
  rw [adjustSizeToWrite, if_neg some, if_neg Bool.false_ne_true]
  split
  · next long =>
      rw [BufWindow.size] at long
      rcases place.window with same | ⟨isFirst, uncut⟩
      · have tail := tailOff_of_piece same
        have offset := offset_of_piece same
        omega
      · have bounded := irp.win.bounded
        have fits : irp.win.offset + stmMaxBytesPerBuf ≤ irp.win.tailOff := by omega
        obtain ⟨actSize, start, stop⟩ := BufWindow.setWinSize_fields (fits.trans bounded)
        refine ⟨irp.win.setWinSize stmMaxBytesPerBuf, rfl, actSize.trans place.block, ?_⟩
        rw [isFirst]
        apply piece_eq
        · show (irp.win.setWinSize stmMaxBytesPerBuf).offset = _
          rw [start, uncut, Nat.zero_mul, Nat.add_zero]
        · show (irp.win.setWinSize stmMaxBytesPerBuf).tailOff =
            min (irp.req.buf.offset + 0 * stmMaxBytesPerBuf + stmMaxBytesPerBuf) irp.req.buf.tailOff
          rw [uncut] at fits
          rw [stop, uncut, Nat.zero_mul, Nat.add_zero]
          exact (min_eq_left fits).symm
  · next short =>
      refine ⟨irp.win, rfl, place.block, ?_⟩
      rcases place.window with same | ⟨isFirst, uncut⟩
      · exact same
      · rw [isFirst]
        rw [uncut] at short
        exact piece_of_small (Nat.le_of_not_lt short) uncut

theorem last_iff (same : irp.piece = irp.req.pieceAt count) :
    irp.req.buf.tailOff = irp.win.tailOff ↔ irp.req.pieceCount ≤ count + 1 := by
  have next : count + 1 < irp.req.pieceCount ↔
      irp.req.buf.offset + (count + 1) * stmMaxBytesPerBuf < irp.req.buf.tailOff := WriteReq.lt_pieceCount
  rw [Nat.add_one_mul] at next
  rw [tailOff_of_piece same]
  constructor
  · intro last
    by_contra more
    have inside := next.1 (Nat.lt_of_not_le more)
    omega
  · intro last
    have outside : ¬irp.req.buf.offset + (count * stmMaxBytesPerBuf + stmMaxBytesPerBuf) <
        irp.req.buf.tailOff := fun inside => absurd (next.2 inside) (Nat.not_lt_of_le last)
    omega

theorem adjust_slide (same : irp.piece = irp.req.pieceAt count)
    (block : irp.win.actSize = irp.req.buf.actSize)
    (more : count + 1 < irp.req.pieceCount) :
    ∃ win, irp.adjustSizeToWrite true = (statusSuccess, { irp with win := win }) ∧
      win.actSize = irp.req.buf.actSize ∧
      { irp with win := win }.piece = irp.req.pieceAt (count + 1) := by
  have inside := WriteReq.lt_pieceCount.1 more
  rw [Nat.add_one_mul] at inside
  have positive := stmMaxBytesPerBuf_pos
  have offset := offset_of_piece same
  have tail : irp.win.tailOff = irp.req.buf.offset + count * stmMaxBytesPerBuf + stmMaxBytesPerBuf := by
    rw [tailOff_of_piece same]
    omega
  have bounded := irp.req.buf.bounded
  have small := irp.req.buf.small
  have size : irp.win.size ≠ 0 := by
    rw [BufWindow.size]
    omega
  have shadow : irp.win.shadowSize ≠ 0 := by
    rw [BufWindow.shadowSize]
    omega
  have left : irp.win.tailOff < irp.req.buf.tailOff := by omega
  have whole : stmMaxBytesPerBuf ≤ irp.req.buf.tailOff - irp.win.tailOff →
      irp.win.tailOff + stmMaxBytesPerBuf = min (irp.win.tailOff + stmMaxBytesPerBuf) irp.req.buf.tailOff := by
    intro long
    exact (min_eq_left ((Nat.le_sub_iff_add_le' (Nat.le_of_lt left)).1 long)).symm
  have part : ¬stmMaxBytesPerBuf ≤ irp.req.buf.tailOff - irp.win.tailOff →
      irp.win.tailOff + (irp.req.buf.tailOff - irp.win.tailOff) =
        min (irp.win.tailOff + stmMaxBytesPerBuf) irp.req.buf.tailOff := by
    intro short
    have behind := Nat.sub_le_iff_le_add'.1 (Nat.le_of_lt (Nat.lt_of_not_le short))
    rw [Nat.add_sub_of_le (Nat.le_of_lt left), min_eq_right behind]
  -- the window slides by a whole piece, or by what the caller has left
  have slid : ∀ step : Nat, step ≤ irp.req.buf.tailOff - irp.win.tailOff →
      irp.win.tailOff + step = min (irp.win.tailOff + stmMaxBytesPerBuf) irp.req.buf.tailOff →
      (irp.win.slideWindow step).actSize = irp.req.buf.actSize ∧
        { irp with win := irp.win.slideWindow step }.piece = irp.req.pieceAt (count + 1) := by
    intro step fits isTail
    have room : irp.win.tailOff + step ≤ irp.win.actSize := by
      rw [block]
      exact ((Nat.le_sub_iff_add_le' (Nat.le_of_lt left)).1 fits).trans bounded
    obtain ⟨actSize, start, stop⟩ := BufWindow.slideWindow_fields room
    refine ⟨actSize.trans block, piece_eq ?_ ?_⟩
    · show (irp.win.slideWindow step).offset = _
      rw [start, tail, Nat.add_one_mul, Nat.add_assoc]
    · show (irp.win.slideWindow step).tailOff = min (irp.req.buf.offset +
        (count + 1) * stmMaxBytesPerBuf + stmMaxBytesPerBuf) irp.req.buf.tailOff
      rw [stop, isTail, tail, Nat.add_one_mul, ← Nat.add_assoc]
  have rest : sub32 irp.req.buf.tailOff irp.win.tailOff = irp.req.buf.tailOff - irp.win.tailOff := by
    have huge : bufMaxSize < 2 ^ 32 := by decide
    exact sub32_of_le (Nat.le_of_lt left) (by omega)
  rw [adjustSizeToWrite, if_neg size, if_pos rfl]
  rw [if_neg shadow, rest]
  by_cases long : stmMaxBytesPerBuf ≤ irp.req.buf.tailOff - irp.win.tailOff
  · rw [if_pos long]
    exact ⟨_, rfl, slid _ long (whole long)⟩
  · rw [if_neg long, if_pos left]
    exact ⟨_, rfl, slid _ (Nat.le_refl _) (part long)⟩

theorem uncut_of_small (place : irp.AtPiece count) (small : irp.req.buf.size ≤ stmMaxBytesPerBuf) :
    irp.win = irp.req.buf ∧ irp.req.pieceCount ≤ count + 1 := by
  have inside := WriteReq.lt_pieceCount.1 place.inside
  have ordered := irp.req.buf.ordered
  rw [BufWindow.size] at small
  have first : count = 0 := by
    by_contra later
    have more : stmMaxBytesPerBuf ≤ count * stmMaxBytesPerBuf :=
      Nat.le_mul_of_pos_left _ (Nat.pos_of_ne_zero later)
    omega
  have whole : irp.win = irp.req.buf := by
    rcases place.window with same | ⟨_, uncut⟩
    · have tail := tailOff_of_piece same
      have offset := offset_of_piece same
      rw [first, Nat.zero_mul, Nat.add_zero] at tail offset
      exact BufWindow.ext place.block offset (by omega)
    · exact uncut
  refine ⟨whole, Nat.le_of_not_lt fun more => ?_⟩
  have behind := WriteReq.lt_pieceCount.1 more
  rw [first, Nat.zero_add, Nat.one_mul] at behind
  omega

theorem recover_win (place : irp.AtPiece count) : irp.recover.win = irp.req.buf := by
  apply BufWindow.setBack place.block
  rcases place.window with same | ⟨_, uncut⟩
  · have inside := WriteReq.lt_pieceCount.1 place.inside
    rw [tailOff_of_piece same]
    omega
  · rw [uncut]
    exact irp.req.buf.ordered

end QueuedWrite

namespace StmWriter

/-- A completed request is right: with success its last piece is written, an error is its
own, and its caller finds the window it has passed. -/
structure RightlyDone (written : List StmPiece) (failed : List (Nat × Int)) (done : WriteDone) : Prop where
  success : 0 ≤ done.status → ∀ piece ∈ done.req.pieces done.req.pieceCount, piece ∈ written
  failure : done.status < 0 → (done.req.id, done.status) ∈ failed
  restored : done.win = done.req.buf

/-- The lower stream gets the first pieces of each request, request for request in the order
of the queue and none twice, and every request is either completed once, and rightly, or
still waits. -/
structure InPieces (writer : StmWriter) : Prop where
  ids : (writer.accepted.map WriteReq.id).Nodup
  pieces : ∃ sent : Nat → Nat, (∀ req ∈ writer.accepted, sent req.id ≤ req.pieceCount) ∧
    writer.handed = writer.accepted.flatMap fun req => req.pieces (sent req.id)
  taken : ∀ piece ∈ writer.written, piece ∈ writer.handed
  once : (writer.done.map WriteDone.req ++ (writer.queue ++ writer.retired).map QueuedWrite.req).Perm
    writer.accepted
  right : ∀ done ∈ writer.done, RightlyDone writer.written writer.failed done

/-- `RESCHED_WRITE_TASK` does not find a full queue behind a piece. -/
def FitsPlace (writer : StmWriter) : Option WriterPlace → Prop
  | some (.resched _) => ¬writer.Full
  | _ => True

instance decidableFitsPlace (writer : StmWriter) (place : Option WriterPlace) :
    Decidable (writer.FitsPlace place) :=
  match place with
  | some (.resched _) => inferInstanceAs (Decidable ¬writer.Full)
  | some (.worker _) | some .loop | some .failing | none => isTrue trivial

/-- A piece fails when no request waits that has not timed out, and it is written when such
a head is its own request. A request times out only before its window is cut. -/
def Fits (writer : StmWriter) : StmWriterMove → Prop
  | .complete piece status =>
    if isError status then ∀ irp ∈ writer.queue, irp.state ≠ .ready
    else ∀ irp ∈ writer.queue.head?, irp.state = .ready → irp.req.id = piece.id
  | .resched => writer.FitsPlace writer.place
  | .expire id => ∀ irp ∈ writer.queue, irp.req.id = id → irp.win = irp.req.buf
  | _ => True

instance decidableFits (writer : StmWriter) (move : StmWriterMove) : Decidable (writer.Fits move) :=
  match move with
  | .complete piece status =>
    inferInstanceAs (Decidable (if isError status then ∀ irp ∈ writer.queue, irp.state ≠ .ready
      else ∀ irp ∈ writer.queue.head?, irp.state = .ready → irp.req.id = piece.id))
  | .resched => inferInstanceAs (Decidable (writer.FitsPlace writer.place))
  | .expire id =>
    inferInstanceAs (Decidable (∀ irp ∈ writer.queue, irp.req.id = id → irp.win = irp.req.buf))
  | .write _ _ _ _ | .run | .loop _ | .land _ _ | .failNext | .expired _ | .flowCtrl | .lift
  | .onFCLifted => isTrue trivial

end StmWriter

/-! ### The order of the pieces -/

/-- The pieces handed over are the first ones of each request in turn, where no request
behind the head of those that wait has any. -/
structure PieceOrder (accepted waiting : List WriteReq) (handed : List StmPiece) (sent : Nat → Nat) :
    Prop where
  pieces : handed = accepted.flatMap fun req => req.pieces (sent req.id)
  known : ∀ id, sent id ≠ 0 → ∃ req ∈ accepted, req.id = id
  behind : ∃ past future, accepted = past ++ future ∧ waiting.Sublist future ∧
    ∀ req ∈ future, sent req.id ≠ 0 → waiting.head? = some req

section

variable {accepted waiting : List WriteReq} {handed : List StmPiece} {sent : Nat → Nat} {req : WriteReq}

theorem PieceOrder.push (order : PieceOrder accepted waiting handed sent)
    (fresh : ∀ old ∈ accepted, old.id ≠ req.id) :
    PieceOrder (accepted ++ [req]) (waiting ++ [req]) handed sent := by
  have unsent : sent req.id = 0 := by
    by_contra some
    obtain ⟨old, isOld, same⟩ := order.known _ some
    exact fresh old isOld same
  obtain ⟨past, future, whole, sub, first⟩ := order.behind
  refine ⟨?_, fun id some => ?_, past, future ++ [req], ?_, ?_, fun other member some => ?_⟩
  · rw [flatMap_append, ← order.pieces, flatMap_singleton, unsent]
    exact (append_nil _).symm
  · obtain ⟨old, isOld, same⟩ := order.known id some
    exact ⟨old, mem_append_left _ isOld, same⟩
  · rw [whole, append_assoc]
  · exact sub.append (List.Sublist.refl _)
  · rcases mem_append.1 member with held | isNew
    · rw [List.head?_append, first other held some]
      rfl
    · rw [mem_singleton.1 isNew] at some
      exact absurd unsent some

theorem PieceOrder.unsent (order : PieceOrder accepted (req :: waiting) handed sent)
    (ids : (accepted.map WriteReq.id).Nodup) : ∀ other ∈ waiting, sent other.id = 0 := by
  intro other member
  by_contra some
  obtain ⟨past, future, whole, sub, first⟩ := order.behind
  have held := sub.subset (mem_cons_of_mem _ member)
  have same : req = other := Option.some.inj (first other held some)
  have nodup : (req :: waiting).Nodup := by
    have all : accepted.Nodup := List.Nodup.of_map _ ids
    rw [whole] at all
    exact sub.nodup (nodup_append.1 all).2.1
  rw [← same] at member
  exact (nodup_cons.1 nodup).1 member

theorem PieceOrder.pop (order : PieceOrder accepted (req :: waiting) handed sent)
    (ids : (accepted.map WriteReq.id).Nodup) : PieceOrder accepted waiting handed sent := by
  obtain ⟨past, future, whole, sub, first⟩ := order.behind
  obtain ⟨before, behind, split, member, rest⟩ := cons_sublist_iff.1 sub
  refine ⟨order.pieces, order.known, past ++ before, behind, ?_, rest, fun other held some => ?_⟩
  · rw [whole, split, append_assoc]
  · have held' : other ∈ future := split ▸ mem_append_right _ held
    have same : req = other := Option.some.inj (first other held' some)
    have all : accepted.Nodup := List.Nodup.of_map _ ids
    rw [whole, split] at all
    have apart := (nodup_append.1 (nodup_append.1 all).2.1).2.2
    exact absurd same (apart req member other held)

theorem PieceOrder.thin (order : PieceOrder accepted waiting handed sent) {fewer : List WriteReq}
    (sub : fewer.Sublist waiting) (head : fewer.head? = waiting.head?) :
    PieceOrder accepted fewer handed sent := by
  obtain ⟨past, future, whole, held, first⟩ := order.behind
  refine ⟨order.pieces, order.known, past, future, whole, sub.trans held, fun other member some => ?_⟩
  rw [head]
  exact first other member some

theorem PieceOrder.hand (order : PieceOrder accepted (req :: waiting) handed sent)
    (ids : (accepted.map WriteReq.id).Nodup) :
    PieceOrder accepted (req :: waiting) (handed ++ [req.pieceAt (sent req.id)])
      (update sent req.id (sent req.id + 1)) := by
  obtain ⟨past, future, whole, sub, first⟩ := order.behind
  have member := sub.subset mem_cons_self
  obtain ⟨before, behind, split⟩ := append_of_mem member
  have nodup := ids
  rw [whole, split, ← append_assoc, map_append, map_cons, nodup_append] at nodup
  obtain ⟨_, tail, apart⟩ := nodup
  have front : ∀ other ∈ past ++ before, other.id ≠ req.id := fun other held =>
    apart other.id (mem_map_of_mem held) req.id mem_cons_self
  have rear : ∀ other ∈ behind, other.id ≠ req.id := fun other held same =>
    (nodup_cons.1 tail).1 (same ▸ mem_map_of_mem held)
  have none : ∀ other ∈ behind, sent other.id = 0 := by
    intro other held
    by_contra some
    have inFuture : other ∈ future := split ▸ mem_append_right _ (mem_cons_of_mem _ held)
    have same : req = other := Option.some.inj (first other inFuture some)
    exact rear other held (congrArg WriteReq.id same.symm)
  have cut : accepted = (past ++ before) ++ req :: behind := by
    rw [whole, split, append_assoc]
  have whole' : accepted.flatMap (fun req => req.pieces (sent req.id)) =
      (past ++ before).flatMap (fun req => req.pieces (sent req.id)) ++ req.pieces (sent req.id) := by
    have empty : behind.flatMap (fun req => req.pieces (sent req.id)) = [] :=
      flatMap_eq_nil_iff.2 fun other held => by rw [none other held]; rfl
    rw [cut, flatMap_append, flatMap_cons, empty, append_nil]
  have updated : ∀ other : WriteReq, other.id ≠ req.id →
      update sent req.id (sent req.id + 1) other.id = sent other.id :=
    fun other apart => update_of_ne apart _ _
  refine ⟨?_, fun id some => ?_, past, future, whole, sub, fun other held some => ?_⟩
  · have frontSame : (past ++ before).flatMap (fun other =>
        other.pieces (update sent req.id (sent req.id + 1) other.id)) =
        (past ++ before).flatMap (fun req => req.pieces (sent req.id)) :=
      flatMap_congr fun other held => by rw [updated other (front other held)]
    have rearEmpty : behind.flatMap (fun other =>
        other.pieces (update sent req.id (sent req.id + 1) other.id)) = [] :=
      flatMap_eq_nil_iff.2 fun other held => by
        rw [updated other (rear other held), none other held]
        rfl
    have after : accepted.flatMap (fun other =>
        other.pieces (update sent req.id (sent req.id + 1) other.id)) =
        (past ++ before).flatMap (fun req => req.pieces (sent req.id)) ++
          (req.pieces (sent req.id) ++ [req.pieceAt (sent req.id)]) := by
      rw [cut, flatMap_append, flatMap_cons, frontSame, rearEmpty, update_self,
        WriteReq.pieces_succ, append_nil]
    rw [order.pieces, whole', after, append_assoc]
  · by_cases same : id = req.id
    · exact ⟨req, cut ▸ mem_append_right _ mem_cons_self, same.symm⟩
    · rw [update_of_ne same] at some
      exact order.known id some
  · by_cases same : other.id = req.id
    · have isReq : other = req := by
        have inAccepted : other ∈ accepted := whole ▸ mem_append_right _ held
        have reqAccepted : req ∈ accepted := whole ▸ mem_append_right _ member
        exact inj_on_of_nodup_map ids inAccepted reqAccepted same
      rw [isReq]
      rfl
    · rw [updated other same] at some
      exact first other held some

end

/-- The first pieces of a head are written, and the next one is in flight if the head is
submitted. -/
def QueuedWrite.Progress (irp : QueuedWrite) (sent : Nat) (written : List StmPiece) : Prop :=
  ∃ count, sent = (if irp.submitted then count + 1 else count) ∧ irp.AtPiece count ∧
    (irp.submitted = true → irp.piece = irp.req.pieceAt count) ∧
    ∀ piece ∈ irp.req.pieces count, piece ∈ written

namespace StmWriter

variable {piece : StmPiece} {id : Nat} {irps : List QueuedWrite}
variable {place : Option WriterPlace} {written : List StmPiece}

/-- The writer but for the progress of its head. -/
structure Core (writer : StmWriter) (sent : Nat → Nat) : Prop where
  going : writer.stopped = false
  ids : (writer.accepted.map WriteReq.id).Nodup
  bound : ∀ req ∈ writer.accepted, sent req.id ≤ req.pieceCount
  order : PieceOrder writer.accepted (writer.queue.map QueuedWrite.req) writer.handed sent
  taken : ∀ piece ∈ writer.written, piece ∈ writer.handed
  once : (writer.done.map WriteDone.req ++ (writer.queue ++ writer.retired).map QueuedWrite.req).Perm
    writer.accepted
  right : ∀ done ∈ writer.done, RightlyDone writer.written writer.failed done
  valid : ∀ irp ∈ writer.queue, irp.req.buf.size ≠ 0 ∧
    (irp.req.noWait = true → irp.req.buf.size ≤ stmMaxBytesPerBuf)
  fresh : ∀ irp ∈ writer.queue.tail, irp.submitted = false ∧ irp.win = irp.req.buf
  gone : ∀ irp ∈ writer.queue, irp.state ≠ .ready →
    (irp.req.id, eTimedOut) ∈ writer.failed ∧ irp.win = irp.req.buf
  retired : ∀ irp ∈ writer.retired, (irp.req.id, eTimedOut) ∈ writer.failed ∧ irp.win = irp.req.buf
  single : (writer.flight.map fun flying => flying.piece.id).Nodup
  flown : ∀ flying ∈ writer.flight, flying.piece ∈ writer.handed
  clear : ∀ flying ∈ writer.flight, ∀ irp ∈ writer.queue.tail, irp.req.id ≠ flying.piece.id
  failing : writer.place = some .failing → writer.calling = false ∧
    ∀ irp ∈ writer.queue, irp.state ≠ .ready

structure Held (writer : StmWriter) (sent : Nat → Nat) : Prop extends Core writer sent where
  head : ∀ irp ∈ writer.queue.head?, irp.state = .ready →
    irp.Progress (sent irp.req.id) writer.written
  below : ∀ irp ∈ writer.queue.head?, ∀ flying ∈ writer.flight, irp.req.id = flying.piece.id →
    irp.submitted = true ∧ irp.piece = flying.piece

def Orderly (writer : StmWriter) : Prop := ∃ sent, writer.Held sent

variable {writer : StmWriter} {sent : Nat → Nat}

theorem Core.inPieces (core : writer.Core sent) : writer.InPieces :=
  ⟨core.ids, ⟨sent, core.bound, core.order.pieces⟩, core.taken, core.once, core.right⟩

theorem core_new (outLimit : Bool) : (new outLimit).Core fun _ => 0 where
  going := rfl
  ids := nodup_nil
  bound := forall_mem_nil _
  order := ⟨rfl, fun _ never => absurd rfl never, [], [], rfl, List.Sublist.refl _, forall_mem_nil _⟩
  taken := forall_mem_nil _
  once := List.Perm.refl _
  right := forall_mem_nil _
  valid := forall_mem_nil _
  fresh := forall_mem_nil _
  gone := forall_mem_nil _
  retired := forall_mem_nil _
  single := nodup_nil
  flown := forall_mem_nil _
  clear := forall_mem_nil _
  failing := fun never => absurd never.symm (Option.some_ne_none _)

theorem Core.steer (core : writer.Core sent) (paused queLimit flowCtrl canSend : Bool)
    (irpPtr : Option StmPiece) (due lifts : Nat) :
    Core { writer with
      paused := paused, queLimit := queLimit, flowCtrl := flowCtrl, canSend := canSend,
      irpPtr := irpPtr, due := due, lifts := lifts } sent :=
  { core with }

theorem Core.goTo (core : writer.Core sent) (calling : Bool)
    (other : place ≠ some .failing) : Core { writer with place := place, calling := calling } sent :=
  ⟨core.going, core.ids, core.bound, core.order, core.taken, core.once, core.right, core.valid,
    core.fresh, core.gone, core.retired, core.single, core.flown, core.clear,
    fun failing => absurd failing other⟩

variable {flight : List FlyingPiece} {done : WriteDone} {tasks : List QueuedWrite}
    {irp new : QueuedWrite} {state : IrpState}

theorem Core.fewerFlying (core : writer.Core sent)
    (sub : flight.Sublist writer.flight) : Core { writer with flight := flight } sent :=
  ⟨core.going, core.ids, core.bound, core.order, core.taken, core.once, core.right, core.valid,
    core.fresh, core.gone, core.retired, (sub.map _).nodup core.single,
    fun flying member => core.flown flying (sub.subset member),
    fun flying member => core.clear flying (sub.subset member), core.failing⟩

theorem RightlyDone.more {failed : List (Nat × Int)}
    (right : RightlyDone written failed done) (pieces : List StmPiece) (errors : List (Nat × Int)) :
    RightlyDone (written ++ pieces) (failed ++ errors) done :=
  ⟨fun success piece member => mem_append_left _ (right.success success piece member),
    fun failure => mem_append_left _ (right.failure failure), right.restored⟩

theorem Core.write (core : writer.Core sent) (handed : piece ∈ writer.handed) :
    Core { writer with written := writer.written ++ [piece] } sent := by
  refine ⟨core.going, core.ids, core.bound, core.order, fun other member => ?_, core.once,
    fun done member => ?_, core.valid, core.fresh, core.gone, core.retired, core.single, core.flown,
    core.clear, core.failing⟩
  · rcases mem_append.1 member with before | isNew
    · exact core.taken other before
    · rw [mem_singleton.1 isNew]
      exact handed
  · have right := (core.right done member).more [piece] []
    rwa [append_nil] at right

theorem Core.fail (core : writer.Core sent) (error : Nat × Int) :
    Core { writer with failed := writer.failed ++ [error] } sent := by
  refine ⟨core.going, core.ids, core.bound, core.order, core.taken, core.once, fun done member => ?_,
    core.valid, core.fresh, fun irp member state => ?_, fun irp member => ?_, core.single, core.flown,
    core.clear, core.failing⟩
  · have right := (core.right done member).more [] [error]
    rwa [append_nil] at right
  · exact (core.gone irp member state).imp (mem_append_left _) id
  · exact (core.retired irp member).imp (mem_append_left _) id

section

variable {irp : QueuedWrite} {rest : List QueuedWrite}

theorem Core.unsent (core : writer.Core sent) (queue : writer.queue = irp :: rest) :
    ∀ other ∈ rest, sent other.req.id = 0 := by
  have order := core.order
  rw [queue, map_cons] at order
  exact fun other member => order.unsent core.ids other.req (mem_map_of_mem member)

theorem Core.waiting_ids (core : writer.Core sent) :
    ((writer.queue ++ writer.retired).map fun irp => irp.req.id).Nodup := by
  have all := (core.once.map WriteReq.id).nodup_iff.2 core.ids
  rw [map_append] at all
  have waiting := (nodup_append.1 all).2.1
  rwa [map_map] at waiting

theorem Core.rest_ids (core : writer.Core sent) (queue : writer.queue = irp :: rest) :
    ∀ other ∈ rest, other.req.id ≠ irp.req.id := by
  intro other member same
  have ids := core.waiting_ids
  rw [queue, cons_append, map_cons, nodup_cons] at ids
  exact ids.1 (mem_map.2 ⟨other, mem_append_left _ member, same⟩)

theorem Core.hand (core : writer.Core sent) (queue : writer.queue = irp :: rest)
    (inside : sent irp.req.id < irp.req.pieceCount) :
    Core { writer with handed := writer.handed ++ [irp.req.pieceAt (sent irp.req.id)] }
      (update sent irp.req.id (sent irp.req.id + 1)) := by
  have order := core.order
  rw [queue, map_cons] at order
  have next := order.hand core.ids
  have whole : (irp.req :: rest.map QueuedWrite.req) = writer.queue.map QueuedWrite.req := by
    rw [queue, map_cons]
  rw [whole] at next
  have isAccepted : irp.req ∈ writer.accepted := by
    apply core.once.subset
    apply mem_append_right
    rw [queue]
    exact mem_cons_self
  refine ⟨core.going, core.ids, fun req member => ?_, next,
    fun piece member => mem_append_left _ (core.taken piece member), core.once, core.right,
    core.valid, core.fresh, core.gone, core.retired, core.single,
    fun flying member => mem_append_left _ (core.flown flying member), core.clear, core.failing⟩
  by_cases same : req.id = irp.req.id
  · have isIrp : req = irp.req := inj_on_of_nodup_map core.ids member isAccepted same
    rw [isIrp, update_self]
    exact inside
  · rw [update_of_ne same]
    exact core.bound req member

theorem Core.finishHead (core : writer.Core sent) (queue : writer.queue = irp :: rest)
    {done : WriteDone} (req : done.req = irp.req)
    (right : RightlyDone writer.written writer.failed done) {place : Option WriterPlace}
    (other : place ≠ some .failing) :
    Core { writer with
      queue := rest, done := writer.done ++ [done], place := place, calling := true } sent := by
  have order := core.order
  have once := core.once
  have valid := core.valid
  have fresh := core.fresh
  have gone := core.gone
  have clear := core.clear
  rw [queue] at order once valid fresh gone clear
  refine ⟨core.going, core.ids, core.bound, order.pop core.ids, core.taken, ?_, fun held member => ?_,
    fun held member => valid held (mem_cons_of_mem _ member),
    fun held member => fresh held (mem_of_mem_tail member),
    fun held member => gone held (mem_cons_of_mem _ member), core.retired, core.single, core.flown,
    fun flying flies held member => clear flying flies held (mem_of_mem_tail member),
    fun failing => absurd failing other⟩
  · refine List.Perm.trans ?_ once
    rw [map_append, map_singleton, req, append_assoc]
    exact List.Perm.refl _
  · rcases mem_append.1 member with before | isNew
    · exact core.right held before
    · rw [mem_singleton.1 isNew]
      exact right

theorem Core.retireHead (core : writer.Core sent) (queue : writer.queue = irp :: rest)
    (state : irp.state ≠ .ready) :
    Core { writer with queue := rest, retired := irp :: writer.retired, calling := false } sent := by
  have order := core.order
  have once := core.once
  have valid := core.valid
  have fresh := core.fresh
  have gone := core.gone
  have clear := core.clear
  have failing := core.failing
  rw [queue] at order once valid fresh gone clear failing
  refine ⟨core.going, core.ids, core.bound, order.pop core.ids, core.taken, ?_, core.right,
    fun held member => valid held (mem_cons_of_mem _ member),
    fun held member => fresh held (mem_of_mem_tail member),
    fun held member => gone held (mem_cons_of_mem _ member), fun held member => ?_, core.single,
    core.flown, fun flying flies held member => clear flying flies held (mem_of_mem_tail member),
    fun place => ⟨rfl, fun held member => (failing place).2 held (mem_cons_of_mem _ member)⟩⟩
  · refine List.Perm.trans (List.Perm.append_left _ (List.Perm.map _ ?_)) once
    exact perm_middle
  · rcases mem_cons.1 member with isIrp | before
    · rw [isIrp]
      exact gone irp mem_cons_self state
    · exact core.retired held before

theorem Core.setHead (core : writer.Core sent) (queue : writer.queue = irp :: rest)
    {irp' : QueuedWrite}
    (req : irp'.req = irp.req) (ready : irp'.state = .ready)
    (notFailing : writer.place ≠ some .failing) :
    Core { writer with queue := irp' :: rest } sent := by
  have order := core.order
  have once := core.once
  have valid := core.valid
  have fresh := core.fresh
  have gone := core.gone
  have clear := core.clear
  rw [queue] at order once valid fresh gone clear
  refine ⟨core.going, core.ids, core.bound, ?_, core.taken, ?_, core.right, fun held member => ?_, fresh,
    fun held member state => ?_, core.retired, core.single, core.flown, clear,
    fun failing => absurd failing notFailing⟩
  · rw [map_cons, req]
    exact order
  · rw [cons_append, map_cons, req]
    exact once
  · rcases mem_cons.1 member with isIrp | before
    · rw [isIrp, req]
      exact valid irp mem_cons_self
    · exact valid held (mem_cons_of_mem _ before)
  · rcases mem_cons.1 member with isIrp | before
    · rw [isIrp] at state
      exact absurd ready state
    · exact gone held (mem_cons_of_mem _ before) state

theorem Core.held_of_fresh (core : writer.Core sent)
    (fresh : ∀ irp ∈ writer.queue.head?, irp.submitted = false ∧ irp.win = irp.req.buf ∧ sent irp.req.id = 0)
    (clear : ∀ irp ∈ writer.queue.head?, ∀ flying ∈ writer.flight, irp.req.id ≠ flying.piece.id) :
    writer.Held sent where
  toCore := core
  head := by
    intro irp member _
    obtain ⟨unsubmitted, uncut, unsent⟩ := fresh irp member
    refine ⟨0, ?_, QueuedWrite.atPiece_uncut (core.valid irp (mem_of_mem_head? member)).1 uncut,
      fun submitted => absurd (unsubmitted.symm.trans submitted) Bool.false_ne_true,
      forall_mem_nil _⟩
    rw [unsent, unsubmitted]
    rfl
  below := fun irp member flying flies same => absurd same (clear irp member flying flies)

theorem Core.rest_fresh (core : writer.Core sent) (queue : writer.queue = irp :: rest) :
    ∀ next ∈ rest.head?, next.submitted = false ∧ next.win = next.req.buf ∧ sent next.req.id = 0 := by
  intro next member
  have fresh := core.fresh
  rw [queue] at fresh
  have inRest := mem_of_mem_head? member
  exact ⟨(fresh next inRest).1, (fresh next inRest).2, core.unsent queue next inRest⟩

theorem Core.rest_clear (core : writer.Core sent) (queue : writer.queue = irp :: rest) :
    ∀ next ∈ rest.head?, ∀ flying ∈ writer.flight, next.req.id ≠ flying.piece.id := by
  intro next member flying flies
  have clear := core.clear
  rw [queue] at clear
  exact clear flying flies next (mem_of_mem_head? member)

theorem Core.held_finishHead (core : writer.Core sent) (queue : writer.queue = irp :: rest)
    {done : WriteDone} (req : done.req = irp.req)
    (right : RightlyDone writer.written writer.failed done) {place : Option WriterPlace}
    (other : place ≠ some .failing) :
    Held { writer with
      queue := rest, done := writer.done ++ [done], place := place, calling := true } sent :=
  (core.finishHead queue req right other).held_of_fresh (core.rest_fresh queue) (core.rest_clear queue)

theorem Core.held_retireHead (core : writer.Core sent) (queue : writer.queue = irp :: rest)
    (state : irp.state ≠ .ready) :
    Held { writer with queue := rest, retired := irp :: writer.retired, calling := false } sent :=
  (core.retireHead queue state).held_of_fresh (core.rest_fresh queue) (core.rest_clear queue)

end

theorem Held.steer (held : writer.Held sent) (paused queLimit flowCtrl canSend : Bool)
    (irpPtr : Option StmPiece) (due lifts : Nat) :
    Held { writer with
      paused := paused, queLimit := queLimit, flowCtrl := flowCtrl, canSend := canSend,
      irpPtr := irpPtr, due := due, lifts := lifts } sent :=
  ⟨held.toCore.steer _ _ _ _ _ _ _, held.head, held.below⟩

theorem Held.goTo (held : writer.Held sent) (calling : Bool)
    (other : place ≠ some .failing) : Held { writer with place := place, calling := calling } sent :=
  ⟨held.toCore.goTo calling other, held.head, held.below⟩

theorem Held.quiet (held : writer.Held sent) : Held { writer with calling := false } sent :=
  ⟨⟨held.going, held.ids, held.bound, held.order, held.taken, held.once, held.right, held.valid,
    held.fresh, held.gone, held.retired, held.single, held.flown, held.clear,
    fun failing => ⟨rfl, (held.failing failing).2⟩⟩, held.head, held.below⟩

theorem Held.fewerFlying (held : writer.Held sent)
    (sub : flight.Sublist writer.flight) : Held { writer with flight := flight } sent :=
  ⟨held.toCore.fewerFlying sub, held.head,
    fun irp member flying flies => held.below irp member flying (sub.subset flies)⟩

theorem Held.resume (held : writer.Held sent) (reason : PauseReason) : (writer.resume reason).2.Held sent := by
  rw [resume_going held.going]
  cases reason with
  | queLimit | flowCtrl =>
    split
    · exact held.steer _ _ _ _ _ _ _
    · exact held.steer _ _ _ _ _ _ _

theorem Held.pause (held : writer.Held sent) (reason : PauseReason) : (writer.pause reason).Held sent := by
  obtain ⟨irpPtr, flight, sub, same⟩ := pause_going held.going reason
  rw [same]
  cases reason with
  | queLimit | flowCtrl => exact (held.fewerFlying sub).steer _ _ _ _ _ _ _

theorem Held.reschedWriteTask (held : writer.Held sent) (ret : Int) :
    (writer.reschedWriteTask ret).2.Held sent := by
  by_cases empty : writer.queue = []
  · rw [StmWriter.reschedWriteTask, if_pos empty]
    exact held.pause .queLimit
  · by_cases full : writer.Full
    · rw [StmWriter.reschedWriteTask, if_neg empty, if_pos full]
      exact held
    · rw [reschedWriteTask_room held.going empty full]
      split
      · exact held.resume .queLimit
      · exact held.steer _ _ _ _ _ _ _

theorem none_ne_failing : (none : Option WriterPlace) ≠ some .failing :=
    (Option.some_ne_none _).symm

theorem Held.resched (held : writer.Held sent) (room : ¬writer.Full) (ret : Int) :
    (writer.resched ret).Held sent := by
  have quiet := held.quiet
  have quietRoom : ¬Full { writer with calling := false } := room
  rw [StmWriter.resched]
  simp only
  rw [reschedWriteTask_pending quiet.going quietRoom, finish, if_pos rfl]
  exact (quiet.reschedWriteTask ret).goTo _ none_ne_failing

theorem id_of_handed (core : writer.Core sent) (member : piece ∈ writer.handed) :
    ∃ req ∈ writer.accepted, req.id = piece.id := by
  rw [core.order.pieces] at member
  obtain ⟨req, isReq, inPieces⟩ := mem_flatMap.1 member
  obtain ⟨count, _, same⟩ := mem_map.1 inPieces
  exact ⟨req, isReq, congrArg StmPiece.id same⟩

theorem mem_tail_append (member : irp ∈ (tasks ++ [new]).tail) : irp ∈ tasks.tail ∨ irp = new := by
  cases tasks with
  | nil => exact absurd member not_mem_nil
  | cons head rest => exact (mem_append.1 member).imp id mem_singleton.1

theorem mem_head?_append (member : irp ∈ (tasks ++ [new]).head?) : irp ∈ tasks.head? ∨ irp = new := by
  cases tasks with
  | nil => exact .inr (Option.some.inj member).symm
  | cons head rest => exact .inl member

theorem held_push (held : writer.Held sent) {req : WriteReq}
    (fresh : ∀ old ∈ writer.accepted, old.id ≠ req.id) (nonempty : req.buf.size ≠ 0)
    (small : req.noWait = true → req.buf.size ≤ stmMaxBytesPerBuf)
    (notFailing : writer.place ≠ some .failing) :
    Held { writer with
      queue := writer.queue ++ [⟨req, .ready, false, req.buf⟩], accepted := writer.accepted ++ [req] }
      sent := by
  have order := held.order.push fresh
  generalize isNew : (⟨req, .ready, false, req.buf⟩ : QueuedWrite) = new
  have isReq : new.req = req := by rw [← isNew]
  have ready : new.state = .ready := by rw [← isNew]
  have unsubmitted : new.submitted = false := by rw [← isNew]
  have uncut : new.win = new.req.buf := by rw [← isNew]
  have unsent : sent req.id = 0 := by
    by_contra some
    obtain ⟨old, isOld, same⟩ := held.order.known _ some
    exact fresh old isOld same
  have unflown : ∀ flying ∈ writer.flight, new.req.id ≠ flying.piece.id := by
    intro flying flies same
    obtain ⟨old, isOld, isId⟩ := id_of_handed held.toCore (held.flown flying flies)
    rw [isReq] at same
    exact fresh old isOld (isId.trans same.symm)
  have valid : ∀ irp ∈ writer.queue ++ [new], irp.req.buf.size ≠ 0 ∧
      (irp.req.noWait = true → irp.req.buf.size ≤ stmMaxBytesPerBuf) := by
    intro irp member
    rcases mem_append.1 member with before | isIt
    · exact held.valid irp before
    · rw [mem_singleton.1 isIt, isReq]
      exact ⟨nonempty, small⟩
  refine ⟨⟨held.going, ?_, fun other member => ?_, ?_, held.taken, ?_, held.right, valid,
    fun irp member => ?_, fun irp member state => ?_, held.retired, held.single, held.flown,
    fun flying flies irp member => ?_, fun failing => absurd failing notFailing⟩,
    fun irp member state => ?_, fun irp member flying flies same => ?_⟩
  · rw [map_append, map_singleton, nodup_append]
    refine ⟨held.ids, nodup_singleton _, fun id member other isIt same => ?_⟩
    obtain ⟨old, isOld, isId⟩ := mem_map.1 member
    rw [mem_singleton.1 isIt] at same
    exact fresh old isOld (isId.trans same)
  · rcases mem_append.1 member with before | isIt
    · exact held.bound other before
    · rw [mem_singleton.1 isIt, unsent]
      exact Nat.zero_le _
  · rw [map_append, map_singleton, isReq]
    exact order
  · have moved : (writer.done.map WriteDone.req ++
        ((writer.queue ++ [new]) ++ writer.retired).map QueuedWrite.req).Perm
        ((writer.done.map WriteDone.req ++ (writer.queue ++ writer.retired).map QueuedWrite.req) ++ [req]) := by
      rw [append_assoc _ _ [req], ← isReq, ← map_singleton, ← map_append, append_assoc, append_assoc]
      exact List.Perm.append_left _ ((perm_append_comm.append_left _).map _)
    exact moved.trans (held.once.append_right _)
  · rcases mem_tail_append member with before | isIt
    · exact held.fresh irp before
    · rw [isIt]
      exact ⟨unsubmitted, uncut⟩
  · rcases mem_append.1 member with before | isIt
    · exact held.gone irp before state
    · rw [mem_singleton.1 isIt] at state
      exact absurd ready state
  · rcases mem_tail_append member with before | isIt
    · exact held.clear flying flies irp before
    · rw [isIt]
      exact unflown flying flies
  · rcases mem_head?_append member with before | isIt
    · exact held.head irp before state
    · refine ⟨0, ?_, ?_, fun submitted => ?_, forall_mem_nil _⟩
      · rw [isIt, isReq, unsent, unsubmitted]
        rfl
      · rw [isIt]
        exact QueuedWrite.atPiece_uncut (by rw [isReq]; exact nonempty) uncut
      · rw [isIt, unsubmitted] at submitted
        exact absurd submitted Bool.false_ne_true
  · rcases mem_head?_append member with before | isIt
    · exact held.below irp before flying flies same
    · rw [isIt] at same
      exact absurd same (unflown flying flies)

theorem held_write (held : writer.Held sent) (noWait callback : Bool) (buf : BufWindow)
    (fresh : id ∉ writer.accepted.map WriteReq.id)
    (allowed : writer.place = none ∨ writer.calling = true) :
    (writer.writeStreamInternal id noWait callback buf).2.Held sent := by
  have notFailing : writer.place ≠ some .failing := by
    intro failing
    rcases allowed with rest | calling
    · exact none_ne_failing (rest.symm.trans failing)
    · exact Bool.false_ne_true ((held.failing failing).1.symm.trans calling)
  have apart : ∀ old ∈ writer.accepted, old.id ≠ id := fun old isOld same =>
    fresh (mem_map.2 ⟨old, isOld, same⟩)
  rw [writeStreamInternal]
  split_ifs with empty _ _ _ long _
  · exact held
  · exact held
  · exact held
  · exact held
  · exact held
  · have pushed := @held_push writer sent held ⟨id, noWait, buf⟩ apart empty
      (fun isNoWait => Nat.le_of_not_lt fun tooLong => long ⟨isNoWait, tooLong⟩) notFailing
    exact pushed.resume .queLimit
  · exact @held_push writer sent held ⟨id, noWait, buf⟩ apart empty
      (fun isNoWait => Nat.le_of_not_lt fun tooLong => long ⟨isNoWait, tooLong⟩) notFailing

/-- The head is cut to its next piece, and not yet submitted. -/
structure Cut (irp : QueuedWrite) (count : Nat) (written : List StmPiece) : Prop where
  ready : irp.state = .ready
  unsubmitted : irp.submitted = false
  block : irp.win.actSize = irp.req.buf.actSize
  window : irp.piece = irp.req.pieceAt count
  inside : count < irp.req.pieceCount
  behind : ∀ piece ∈ irp.req.pieces count, piece ∈ written

variable {irp : QueuedWrite} {rest : List QueuedWrite} {count : Nat}

theorem Cut.atPiece (cut : Cut irp count written) : irp.AtPiece count :=
  ⟨cut.block, .inl cut.window, cut.inside⟩

theorem mem_pieces_snoc {req : WriteReq}
    (behind : ∀ piece ∈ req.pieces count, piece ∈ written) :
    ∀ piece ∈ req.pieces (count + 1), piece ∈ written ++ [req.pieceAt count] := by
  intro piece member
  rw [WriteReq.pieces_succ] at member
  rcases mem_append.1 member with before | isIt
  · exact mem_append_left _ (behind piece before)
  · exact mem_append_right _ isIt

theorem Core.held_of_cut (core : writer.Core sent) (queue : writer.queue = irp :: rest)
    (cut : Cut irp (sent irp.req.id) writer.written)
    (unflown : ∀ flying ∈ writer.flight, irp.req.id ≠ flying.piece.id) : writer.Held sent := by
  refine ⟨core, fun held member _ => ?_, fun held member flying flies same => ?_⟩
  · rw [queue, List.head?_cons, Option.mem_some] at member
    rw [← member]
    refine ⟨_, ?_, cut.atPiece, fun submitted => ?_, cut.behind⟩
    · rw [cut.unsubmitted]
      rfl
    · exact absurd (cut.unsubmitted.symm.trans submitted) Bool.false_ne_true
  · rw [queue, List.head?_cons, Option.mem_some] at member
    rw [← member] at same
    exact absurd same (unflown flying flies)

theorem Held.cut (held : writer.Held sent) (queue : writer.queue = irp :: rest)
    (ready : irp.state = .ready)
    (unsubmitted : irp.submitted = false) {irp' : QueuedWrite}
    (visited : (if irp.req.noWait then irp else (irp.adjustSizeToWrite false).2) = irp') :
    irp'.req = irp.req ∧ Cut irp' (sent irp'.req.id) writer.written := by
  have isHead : irp ∈ writer.queue.head? := by
    rw [queue]
    exact Option.mem_some_self irp
  have valid := held.valid irp (mem_of_mem_head? isHead)
  obtain ⟨count, isSent, place, _, behind⟩ := held.head irp isHead ready
  rw [unsubmitted] at isSent
  have isSent : sent irp.req.id = count := isSent
  obtain ⟨win, adjusted, block, window⟩ := QueuedWrite.adjust_cut place
  split at visited
  · next noWait =>
      have uncut := (QueuedWrite.uncut_of_small place (valid.2 noWait)).1
      have whole : irp.piece = irp.req.pieceAt count := by
        rcases place.window with same | ⟨first, _⟩
        · exact same
        · rw [first]
          exact QueuedWrite.piece_of_small (valid.2 noWait) uncut
      rw [← visited, isSent]
      exact ⟨rfl, ready, unsubmitted, place.block, whole, place.inside, behind⟩
  · rw [← visited, adjusted]
    refine ⟨rfl, ready, unsubmitted, block, ?_, ?_, ?_⟩
    · rw [isSent]
      exact window
    · rw [isSent]
      exact place.inside
    · rw [isSent]
      exact behind

theorem Held.unflown (held : writer.Held sent) (queue : writer.queue = irp :: rest)
    (unsubmitted : irp.submitted = false) :
    ∀ flying ∈ writer.flight, irp.req.id ≠ flying.piece.id := by
  intro flying flies same
  have isHead : irp ∈ writer.queue.head? := by
    rw [queue]
    exact Option.mem_some_self irp
  exact Bool.false_ne_true (unsubmitted.symm.trans (held.below irp isHead flying flies same).1)

theorem orderly_answered (core : Core { writer with queue := irp :: rest } sent)
    (cut : Cut irp (sent irp.req.id) writer.written)
    (unflown : ∀ flying ∈ writer.flight, irp.req.id ≠ flying.piece.id)
    (notFailing : writer.place ≠ some .failing) (ret : Int) :
    (writer.answered irp rest ret).Orderly := by
  have small := (core.valid irp mem_cons_self).2
  rw [answered]
  split
  · next failed =>
      have negative : ret < 0 := of_decide_eq_true failed
      generalize recovered : (if irp.req.noWait = true then irp else irp.recover) = irp'
      have sameReq : irp'.req = irp.req := by
        rw [← recovered]
        split <;> rfl
      have sameWin : irp'.win = irp.req.buf := by
        rw [← recovered]
        split
        · next noWait => exact (QueuedWrite.uncut_of_small cut.atPiece (small noWait)).1
        · exact QueuedWrite.recover_win cut.atPiece
      have right : RightlyDone writer.written (writer.failed ++ [(irp.req.id, ret)])
          ⟨irp'.req, ret, irp'.win⟩ :=
        ⟨fun success => absurd negative (Int.not_lt.2 success), fun _ => by
          rw [sameReq]
          exact mem_append_right _ (mem_singleton_self _), sameWin.trans (by rw [sameReq])⟩
      exact ⟨sent, ((core.fail (irp.req.id, ret)).held_finishHead rfl sameReq right notFailing).steer
        _ _ _ _ _ _ _⟩
  · next accepted =>
      have success : 0 ≤ ret := by
        by_contra negative
        exact accepted (decide_eq_true (Int.not_le.1 negative))
      have handed := core.hand rfl cut.inside
      have written := handed.write (mem_append_right _ (mem_singleton_self _))
      have behind := mem_pieces_snoc cut.behind
      rw [cut.window]
      have finished : ∀ {win : BufWindow}, win = irp.req.buf →
          irp.req.pieceCount ≤ sent irp.req.id + 1 → ∀ {status : Int}, 0 ≤ status →
          RightlyDone (writer.written ++ [irp.req.pieceAt (sent irp.req.id)]) writer.failed
            ⟨irp.req, status, win⟩ := fun restored last _ success =>
        ⟨fun _ piece member => behind piece (WriteReq.mem_pieces member last),
          fun failure => absurd failure (Int.not_lt.2 success), restored⟩
      split_ifs with noWait last
      · have whole := QueuedWrite.uncut_of_small cut.atPiece (small noWait)
        exact ⟨_, (written.held_finishHead rfl rfl (finished whole.1 whole.2 success) notFailing).steer
          _ _ _ _ _ _ _⟩
      · have restored := QueuedWrite.recover_win cut.atPiece
        exact ⟨_, (written.held_finishHead rfl rfl
          (finished restored ((QueuedWrite.last_iff cut.window).1 last) success) notFailing).steer
          _ _ _ _ _ _ _⟩
      · have more : sent irp.req.id + 1 < irp.req.pieceCount :=
          Nat.lt_of_not_le fun isLast => last ((QueuedWrite.last_iff cut.window).2 isLast)
        obtain ⟨win, slid, block, window⟩ := QueuedWrite.adjust_slide cut.window cut.block more
        rw [slid]
        have next := @Core.setHead _ _ irp rest written rfl { irp with win := win } rfl cut.ready notFailing
        refine ⟨_, (next.held_of_cut rfl ⟨cut.ready, cut.unsubmitted, block, ?_, ?_, ?_⟩ unflown).steer
          _ _ _ _ _ _ _⟩
        · show _ = irp.req.pieceAt (update sent irp.req.id (sent irp.req.id + 1) irp.req.id)
          rw [update_self]
          exact window
        · show update sent irp.req.id (sent irp.req.id + 1) irp.req.id < irp.req.pieceCount
          rw [update_self]
          exact more
        · show ∀ piece ∈ irp.req.pieces (update sent irp.req.id (sent irp.req.id + 1) irp.req.id), _
          rw [update_self]
          exact behind

theorem loop_ne_failing : some WriterPlace.loop ≠ some .failing := by decide

theorem orderly_pending (core : Core { writer with queue := irp :: rest } sent)
    (cut : Cut irp (sent irp.req.id) writer.written)
    (unflown : ∀ flying ∈ writer.flight, irp.req.id ≠ flying.piece.id)
    (notFailing : writer.place ≠ some .failing) :
    Orderly { writer with
      queue := { irp with submitted := true } :: rest
      flight := writer.flight ++ [⟨irp.piece, none⟩]
      handed := writer.handed ++ [irp.piece] } := by
  have apart : ∀ other ∈ rest, other.req.id ≠ irp.req.id := core.rest_ids rfl
  have handed := core.hand rfl cut.inside
  have next := @Core.setHead _ _ irp rest handed rfl { irp with submitted := true } rfl cut.ready notFailing
  rw [cut.window]
  have isId : (irp.req.pieceAt (sent irp.req.id)).id = irp.req.id := rfl
  refine ⟨_, ⟨next.going, next.ids, next.bound, next.order, next.taken, next.once, next.right, next.valid,
    next.fresh, next.gone, next.retired, ?_, fun flying flies => ?_, fun flying flies other member same => ?_,
    next.failing⟩, fun head member _ => ?_, fun head member flying flies same => ?_⟩
  · rw [map_append, map_singleton, nodup_append]
    refine ⟨core.single, nodup_singleton _, fun id member other isIt same => ?_⟩
    obtain ⟨flying, flies, isFlying⟩ := mem_map.1 member
    rw [mem_singleton.1 isIt] at same
    exact unflown flying flies (isId.symm.trans (isFlying.trans same).symm)
  · rcases mem_append.1 flies with before | isNew
    · exact next.flown flying before
    · rw [mem_singleton.1 isNew]
      exact mem_append_right _ (mem_singleton_self _)
  · rcases mem_append.1 flies with before | isNew
    · exact next.clear flying before other member same
    · rw [mem_singleton.1 isNew] at same
      exact apart other member same
  · rw [List.head?_cons, Option.mem_some] at member
    rw [← member]
    refine ⟨sent irp.req.id, ?_, ⟨cut.block, .inl cut.window, cut.inside⟩, fun _ => cut.window, cut.behind⟩
    exact update_self _ _ _
  · rw [List.head?_cons, Option.mem_some] at member
    rw [← member] at same ⊢
    rcases mem_append.1 flies with before | isNew
    · exact absurd same (unflown flying before)
    · rw [mem_singleton.1 isNew]
      exact ⟨rfl, cut.window⟩

theorem orderly_runLoop (held : writer.Held sent) (looping : writer.place = some .loop)
    (ret : Int) :
    (writer.runLoop ret).Orderly := by
  have notFailing : writer.place ≠ some .failing := by
    rw [looping]
    exact loop_ne_failing
  have quiet := held.quiet
  rw [runLoop]
  split
  · exact ⟨sent, (quiet.pause .queLimit).goTo _ none_ne_failing⟩
  · next irp rest queue =>
      generalize visited : (if irp.req.noWait then irp else (irp.adjustSizeToWrite false).2) = irp'
      split_ifs with gone submitted pending full
      · exact ⟨sent, held.toCore.held_retireHead queue gone⟩
      · exact ⟨sent, quiet.goTo _ none_ne_failing⟩
      all_goals
        have ready : irp.state = .ready := not_not.1 gone
        have unsubmitted : irp.submitted = false := Bool.eq_false_iff.2 submitted
        obtain ⟨sameReq, cut⟩ := held.cut queue ready unsubmitted visited
        have unflown := held.unflown queue unsubmitted
        rw [← sameReq] at unflown
        have core := quiet.toCore.setHead queue sameReq cut.ready notFailing
      · obtain ⟨next, sentNow⟩ := orderly_pending core cut unflown notFailing
        exact ⟨next, (sentNow.steer _ _ _ _ _ _ _).goTo _ none_ne_failing⟩
      · exact ⟨sent, ((core.held_of_cut rfl cut unflown).pause .flowCtrl).goTo _ none_ne_failing⟩
      · exact orderly_answered core cut unflown notFailing ret

/-! ### The answers of the lower stream -/

theorem Held.land (held : writer.Held sent) (flies : ⟨piece, none⟩ ∈ writer.flight)
    (status : Int) :
    Held { writer with flight := writer.flight.erase ⟨piece, none⟩ ++ [⟨piece, some status⟩] } sent := by
  have known : ∀ flying ∈ writer.flight.erase ⟨piece, none⟩ ++ [⟨piece, some status⟩],
      ∃ old ∈ writer.flight, old.piece = flying.piece := by
    exact forall_mem_append.2 ⟨fun flying before => ⟨flying, mem_of_mem_erase before, rfl⟩,
      forall_mem_singleton.2 (⟨_, flies, rfl⟩)⟩
  have moved : ((writer.flight.erase ⟨piece, none⟩ ++ [FlyingPiece.mk piece (some status)]).map
      fun flying : FlyingPiece => flying.piece.id).Perm
      (writer.flight.map fun flying => flying.piece.id) := by
    have back := (perm_cons_erase flies).map fun flying : FlyingPiece => flying.piece.id
    rw [map_append]
    exact perm_append_comm.trans back.symm
  refine ⟨⟨held.going, held.ids, held.bound, held.order, held.taken, held.once, held.right, held.valid,
    held.fresh, held.gone, held.retired, moved.nodup_iff.2 held.single, fun flying member => ?_,
    fun flying member irp waits => ?_, held.failing⟩, held.head, fun irp isHead flying member => ?_⟩
  · obtain ⟨old, isOld, same⟩ := known flying member
    rw [← same]
    exact held.flown old isOld
  · obtain ⟨old, isOld, same⟩ := known flying member
    rw [← same]
    exact held.clear old isOld irp waits
  · obtain ⟨old, isOld, same⟩ := known flying member
    rw [← same]
    exact held.below irp isHead old isOld

theorem Core.landed (core : writer.Core sent) {flying : FlyingPiece}
    (flies : flying ∈ writer.flight) :
    ∀ other ∈ writer.flight.erase flying, other.piece.id ≠ flying.piece.id := by
  intro other member same
  have moved := (perm_cons_erase flies).map fun flying => flying.piece.id
  have single := moved.nodup_iff.1 core.single
  rw [map_cons, nodup_cons] at single
  exact single.1 (mem_map.2 ⟨other, member, same⟩)

theorem Held.write (held : writer.Held sent) (handed : piece ∈ writer.handed) :
    Held { writer with written := writer.written ++ [piece] } sent := by
  refine ⟨held.toCore.write handed, fun irp member ready => ?_, held.below⟩
  obtain ⟨count, isSent, place, window, behind⟩ := held.head irp member ready
  exact ⟨count, isSent, place, window, fun piece inPieces =>
    mem_append_left _ (behind piece inPieces)⟩

theorem orderly_failed (held : writer.Held sent) (calling : writer.calling = false)
    (gone : ∀ irp ∈ writer.queue, irp.state ≠ .ready) (error : Nat × Int) :
    Orderly { writer with place := some .failing, failed := writer.failed ++ [error] } := by
  have core := held.toCore.fail error
  exact ⟨sent, ⟨core.going, core.ids, core.bound, core.order, core.taken, core.once, core.right,
    core.valid, core.fresh, core.gone, core.retired, core.single, core.flown, core.clear,
    fun _ => ⟨calling, gone⟩⟩, held.head, held.below⟩

theorem resched_ne_failing (ret : Int) : some (WriterPlace.resched ret) ≠ some .failing :=
  fun same => WriterPlace.noConfusion (Option.some.inj same)

theorem orderly_advance (held : writer.Held sent) (queue : writer.queue = irp :: rest)
    (ready : irp.state = .ready) (submitted : irp.submitted = true)
    (written : irp.piece ∈ writer.written) (notFailing : writer.place ≠ some .failing)
    (landed : ∀ flying ∈ writer.flight, irp.req.id ≠ flying.piece.id) (ret : Int) :
    Orderly
      (if irp.req.buf.tailOff = irp.win.tailOff then
        { complete { writer with queue := rest } irp.recover statusSuccess with place := some (.resched ret) }
      else
        let (err, next) := { irp with submitted := false }.adjustSizeToWrite true
        if succeeded err then { writer with queue := next :: rest, place := some (.resched ret) }
        else
          { complete { writer with queue := rest } next.recover
              (if err = eNoData then statusSuccess else err) with
            place := some (.resched ret) }) := by
  have isHead : irp ∈ writer.queue.head? := by
    rw [queue]
    exact Option.mem_some_self irp
  obtain ⟨count, isSent, place, window, behind⟩ := held.head irp isHead ready
  rw [submitted] at isSent
  have isSent : sent irp.req.id = count + 1 := isSent
  have window := window submitted
  have through : ∀ piece ∈ irp.req.pieces (count + 1), piece ∈ writer.written := by
    intro piece member
    rw [WriteReq.pieces_succ] at member
    rcases mem_append.1 member with before | isIt
    · exact behind piece before
    · rw [mem_singleton.1 isIt, ← window]
      exact written
  split
  · next last =>
      have all := (QueuedWrite.last_iff window).1 last
      have right : RightlyDone writer.written writer.failed ⟨irp.req, statusSuccess, irp.recover.win⟩ :=
        ⟨fun _ piece member => through piece (WriteReq.mem_pieces member all),
          fun failure => absurd failure (Int.not_lt.2 (Int.le_refl 0)), QueuedWrite.recover_win place⟩
      exact ⟨sent, held.toCore.held_finishHead queue rfl right (resched_ne_failing ret)⟩
  · next more =>
      have inside : count + 1 < irp.req.pieceCount :=
        Nat.lt_of_not_le fun isLast => more ((QueuedWrite.last_iff window).2 isLast)
      obtain ⟨win, slid, block, next⟩ :=
        @QueuedWrite.adjust_slide { irp with submitted := false } count window place.block inside
      rw [slid]
      have cut : Cut { irp with submitted := false, win := win } (sent irp.req.id) writer.written := by
        rw [isSent]
        exact ⟨ready, rfl, block, next, inside, through⟩
      have moved := @Core.setHead _ _ irp rest held.toCore queue
        { irp with submitted := false, win := win } rfl ready notFailing
      exact ⟨sent, (moved.held_of_cut rfl cut landed).goTo _ (resched_ne_failing ret)⟩

theorem orderly_onIoIrpComplete (held : writer.Held sent) {status : Int}
    (handed : piece ∈ writer.handed) (atRest : writer.place = none)
    (calling : writer.calling = false)
    (landed : ∀ flying ∈ writer.flight, flying.piece.id ≠ piece.id)
    (below : ∀ irp ∈ writer.queue.head?, irp.req.id = piece.id → irp.submitted = true ∧ irp.piece = piece)
    (fits : writer.Fits (.complete piece status)) :
    (writer.onIoIrpComplete piece status).Orderly := by
  have notFailing : writer.place ≠ some .failing := by
    rw [atRest]
    exact none_ne_failing
  have core := held.write handed
  rw [onIoIrpComplete]
  rw [Fits] at fits
  by_cases failed : isError status = true
  · rw [if_pos failed] at fits
    rw [if_pos failed]
    exact orderly_failed held calling fits _
  · rw [if_neg failed] at fits
    rw [if_neg failed]
    simp only
    split
    · next empty => exact ⟨sent, core.resched (not_full_of_nil empty) status⟩
    · next irp rest queue =>
        have isHead : irp ∈ writer.queue.head? := by
          rw [queue]
          exact Option.mem_some_self irp
        by_cases gone : isError (irp.state.canContinue .ready).1 = true
        · rw [if_pos gone]
          exact ⟨sent, core⟩
        · have ready : irp.state = .ready :=
            Decidable.by_contra fun other => gone (IrpState.canContinue_of_ne other .ready).1
          have itsOwn : irp.req.id = piece.id := fits irp isHead ready
          obtain ⟨submitted, isPiece⟩ := below irp isHead itsOwn
          have apart : ∀ flying ∈ writer.flight, irp.req.id ≠ flying.piece.id :=
            fun flying flies same => landed flying flies (same.symm.trans itsOwn)
          rw [if_neg gone, if_neg fun other => other itsOwn]
          refine orderly_advance core queue ready submitted ?_ notFailing apart statusSuccess
          rw [isPiece]
          exact mem_append_right _ (mem_singleton_self _)

theorem orderly_failNext (held : writer.Held sent) (failing : writer.place = some .failing) :
    writer.failNext.Orderly := by
  obtain ⟨_, gone⟩ := held.failing failing
  rw [failNext]
  split
  · exact ⟨sent, (held.quiet.reschedWriteTask statusPending).goTo _ none_ne_failing⟩
  · next irp rest queue =>
      have state : irp.state ≠ .ready := gone irp (by rw [queue]; exact mem_cons_self)
      rw [if_pos (IrpState.canContinue_of_ne state .ready).1]
      exact ⟨sent, held.toCore.held_retireHead queue state⟩

/-! ### Timers -/

theorem mem_setState
    (member : irp ∈ setState irps id state) :
    ∃ old ∈ irps, irp.req = old.req ∧ irp.submitted = old.submitted ∧ irp.win = old.win ∧
      (irp = old ∨ (irp.req.id = id ∧ irp.state = state)) := by
  obtain ⟨old, isOld, same⟩ := mem_map.1 member
  refine ⟨old, isOld, ?_⟩
  rw [← same]
  split
  · next isIt => exact ⟨rfl, rfl, rfl, .inr ⟨isIt, rfl⟩⟩
  · exact ⟨rfl, rfl, rfl, .inl rfl⟩

theorem req_setState (irps : List QueuedWrite) (id : Nat) (state : IrpState) :
    (setState irps id state).map QueuedWrite.req = irps.map QueuedWrite.req := by
  rw [setState, map_map]
  apply map_congr_left
  intro irp _
  rw [Function.comp]
  split
  · rfl
  · rfl

theorem tail_setState (irps : List QueuedWrite) (id : Nat) (state : IrpState) :
    (setState irps id state).tail = setState irps.tail id state := by
  cases irps with
  | nil => rfl
  | cons head rest => rfl

theorem mem_head_setState
    (member : irp ∈ (setState irps id state).head?) : irp ∈ setState irps.head?.toList id state := by
  cases irps with
  | nil => exact absurd member (Option.not_mem_none _)
  | cons head rest =>
    have same : _ = irp := Option.some.inj member
    rw [← same]
    exact mem_singleton_self _

theorem Held.expire (held : writer.Held sent)
    (uncut : ∀ irp ∈ writer.queue, irp.req.id = id → irp.win = irp.req.buf) :
    Held { writer with
      queue := setState writer.queue id .cancelled, failed := writer.failed ++ [(id, eTimedOut)] }
      sent := by
  have core := held.toCore.fail (id, eTimedOut)
  refine ⟨⟨core.going, core.ids, core.bound, ?_, core.taken, ?_, core.right, fun irp member => ?_,
    fun irp member => ?_, fun irp member state => ?_, core.retired, core.single, core.flown,
    fun flying flies irp member same => ?_,
    fun failing => ⟨(held.failing failing).1, fun irp member ready => ?_⟩⟩,
    fun irp member state => ?_, fun irp member flying flies same => ?_⟩
  · rw [req_setState]
    exact held.order
  · rw [map_append, req_setState, ← map_append]
    exact held.once
  · obtain ⟨old, isOld, sameReq, _⟩ := mem_setState member
    rw [sameReq]
    exact held.valid old isOld
  · rw [tail_setState] at member
    obtain ⟨old, isOld, sameReq, sameSubmitted, sameWin, _⟩ := mem_setState member
    rw [sameReq, sameSubmitted, sameWin]
    exact held.fresh old isOld
  · obtain ⟨old, isOld, sameReq, _, sameWin, before | ⟨isIt, _⟩⟩ := mem_setState member
    · rw [sameReq, sameWin]
      rw [before] at state
      exact core.gone old isOld state
    · refine ⟨mem_append_right _ ?_, ?_⟩
      · rw [isIt]
        exact mem_singleton_self _
      · rw [sameWin, sameReq]
        exact uncut old isOld (sameReq ▸ isIt)
  · rw [tail_setState] at member
    obtain ⟨old, isOld, sameReq, _⟩ := mem_setState member
    rw [sameReq] at same
    exact held.clear flying flies old isOld same
  · obtain ⟨old, isOld, _, _, _, before | ⟨_, cancelled⟩⟩ := mem_setState member
    · rw [before] at ready
      exact (held.failing failing).2 old isOld ready
    · exact absurd (cancelled.symm.trans ready) (by decide)
  · obtain ⟨old, isOld, _, _, _, before | ⟨_, cancelled⟩⟩ := mem_setState (mem_head_setState member)
    · rw [before] at state ⊢
      exact held.head old (Option.mem_toList.1 isOld) state
    · exact absurd (cancelled.symm.trans state) (by decide)
  · obtain ⟨old, isOld, sameReq, sameSubmitted, sameWin, _⟩ := mem_setState (mem_head_setState member)
    rw [QueuedWrite.piece, sameReq, sameSubmitted, sameWin]
    rw [sameReq] at same
    exact held.below old (Option.mem_toList.1 isOld) flying flies same

theorem eraseP_id (ids : (irps.map fun irp => irp.req.id).Nodup)
    (member : irp ∈ irps) : ∃ front back, irps = front ++ irp :: back ∧
      (irps.eraseP fun held => held.req.id = irp.req.id) = front ++ back := by
  obtain ⟨found, front, back, _, same, whole, erased⟩ :=
    exists_of_eraseP member (p := fun held => held.req.id = irp.req.id) (decide_eq_true rfl)
  have isFound : found ∈ irps := by
    rw [whole]
    exact mem_append_right _ mem_cons_self
  have isIrp : found = irp := inj_on_of_nodup_map ids isFound member (of_decide_eq_true same)
  rw [isIrp] at whole
  exact ⟨front, back, whole, erased⟩

theorem eraseP_none (none : ∀ irp ∈ irps, irp.req.id ≠ id) :
    (irps.eraseP fun held => held.req.id = id) = irps :=
  eraseP_of_forall_not fun irp member same => none irp member (of_decide_eq_true same)

theorem worker_ne_failing (head : Bool) : some (WriterPlace.worker head) ≠ some .failing :=
  fun same => WriterPlace.noConfusion (Option.some.inj same)

theorem Held.finishOther (held : writer.Held sent) {fewer left : List QueuedWrite}
    (sub : fewer.Sublist writer.queue) (head : fewer.head? = writer.queue.head?)
    (subLeft : left.Sublist writer.retired)
    (whole : (irp :: (fewer ++ left)).Perm (writer.queue ++ writer.retired))
    (req : done.req = irp.req) (right : RightlyDone writer.written writer.failed done)
    (other : place ≠ some .failing) :
    Held { writer with
      queue := fewer, retired := left, done := writer.done ++ [done], calling := true, place := place }
      sent := by
  refine ⟨⟨held.going, held.ids, held.bound, ?_, held.taken, ?_, fun old member => ?_,
    fun old member => held.valid old (sub.subset member),
    fun old member => held.fresh old (sub.tail.subset member),
    fun old member => held.gone old (sub.subset member),
    fun old member => held.retired old (subLeft.subset member), held.single, held.flown,
    fun flying flies old member => held.clear flying flies old (sub.tail.subset member),
    fun failing => absurd failing other⟩, fun old member => ?_, fun old member => ?_⟩
  · exact held.order.thin (sub.map _) (by rw [List.head?_map, List.head?_map, head])
  · refine List.Perm.trans ?_ held.once
    rw [map_append, map_singleton, req, append_assoc]
    exact List.Perm.append_left _ (whole.map QueuedWrite.req)
  · rcases mem_append.1 member with before | isNew
    · exact held.right old before
    · rw [mem_singleton.1 isNew]
      exact right
  · exact held.head old (head ▸ member)
  · exact held.below old (head ▸ member)

theorem orderly_expired (held : writer.Held sent) (waits : irp ∈ writer.queue ++ writer.retired)
    (cancelled : irp.state = .cancelled) : (writer.onWorkerIrpComplete irp).Orderly := by
  have ids := held.waiting_ids
  rw [map_append, nodup_append] at ids
  obtain ⟨inQueue, inRetired, apart⟩ := ids
  have lost : (irp.req.id, eTimedOut) ∈ writer.failed ∧ irp.win = irp.req.buf := by
    rcases mem_append.1 waits with queued | retired
    · exact held.gone irp queued (by rw [cancelled]; decide)
    · exact held.retired irp retired
  have right : RightlyDone writer.written writer.failed ⟨irp.req, eTimedOut, irp.win⟩ :=
    ⟨fun success => absurd success (show ¬0 ≤ eTimedOut by decide), fun _ => lost.1, lost.2⟩
  rw [onWorkerIrpComplete, complete]
  generalize (writer.queue.head?.any fun head => decide (head.req.id = irp.req.id)) = isHead
  by_cases queued : irp ∈ writer.queue
  · obtain ⟨front, back, whole, erased⟩ := eraseP_id inQueue queued
    have others : ∀ other ∈ writer.retired, other.req.id ≠ irp.req.id := fun other member same =>
      apart _ (mem_map_of_mem queued) _ (mem_map_of_mem member) same.symm
    rw [erased, eraseP_none others]
    cases front with
    | nil => exact ⟨sent, held.toCore.held_finishHead whole rfl right (worker_ne_failing isHead)⟩
    | cons head front =>
      refine ⟨sent, held.finishOther ?_ ?_ (List.Sublist.refl _) ?_ rfl right (worker_ne_failing isHead)⟩
      · rw [whole]
        exact (sublist_cons_self irp back).append_left _
      · rw [whole]
        rfl
      · rw [whole]
        exact (perm_middle.append_right writer.retired).symm
  · have retired := (mem_append.1 waits).resolve_left queued
    obtain ⟨front, back, whole, erased⟩ := eraseP_id inRetired retired
    have others : ∀ other ∈ writer.queue, other.req.id ≠ irp.req.id := fun other member same =>
      apart _ (mem_map_of_mem member) _ (mem_map_of_mem retired) same
    rw [erased, eraseP_none others]
    refine ⟨sent, held.finishOther (List.Sublist.refl _) rfl ?_ ?_ rfl right (worker_ne_failing isHead)⟩
    · rw [whole]
      exact (sublist_cons_self irp back).append_left _
    · rw [whole, ← append_assoc, ← append_assoc]
      exact perm_middle.symm

theorem orderly_of_step {next : StmWriter} {move : StmWriterMove} (held : writer.Held sent)
    (fits : writer.Fits move) (moved : writer.step move = some next) : next.Orderly := by
  cases move with
  | write id noWait callback buf =>
    obtain ⟨⟨allowed, fresh⟩, ⟨⟩⟩ := Option.ite_none_right_eq_some.1 moved
    exact ⟨sent, held_write held noWait callback buf fresh allowed⟩
  | run =>
    obtain ⟨_, same⟩ := Option.ite_none_right_eq_some.1 moved
    rw [if_neg (by rw [held.going]; exact Bool.false_ne_true)] at same
    cases same
    exact ⟨sent, (held.steer _ _ _ _ _ (writer.due - 1) _).goTo false loop_ne_failing⟩
  | loop ret =>
    obtain ⟨looping, ⟨⟩⟩ := Option.ite_none_right_eq_some.1 moved
    exact orderly_runLoop held looping ret
  | land piece status =>
    obtain ⟨⟨flies, _⟩, ⟨⟩⟩ := Option.ite_none_right_eq_some.1 moved
    exact ⟨sent, held.land flies status⟩
  | complete piece status =>
    obtain ⟨⟨atRest, flies⟩, same⟩ := Option.ite_none_right_eq_some.1 moved
    rw [if_neg (by rw [held.going]; exact Bool.false_ne_true)] at same
    cases same
    have landed := held.quiet.fewerFlying (erase_sublist (a := ⟨piece, some status⟩))
    exact orderly_onIoIrpComplete landed (held.flown _ flies) atRest rfl (held.landed flies)
      (fun irp isHead itsOwn => held.below irp isHead _ flies itsOwn) fits
  | failNext =>
    obtain ⟨failing, ⟨⟩⟩ := Option.ite_none_right_eq_some.1 moved
    exact orderly_failNext held failing
  | resched =>
    rw [step] at moved
    split at moved
    · next ret place =>
        rw [Fits, place] at fits
        cases moved
        exact ⟨sent, held.resched fits ret⟩
    · cases moved
      exact ⟨sent, (held.quiet.reschedWriteTask statusSuccess).goTo _ none_ne_failing⟩
    · exact absurd moved (Option.some_ne_none _).symm
  | expire id =>
    obtain ⟨_, ⟨⟩⟩ := Option.ite_none_right_eq_some.1 moved
    exact ⟨sent, held.expire fits⟩
  | expired irp =>
    obtain ⟨⟨_, waits, cancelled⟩, same⟩ := Option.ite_none_right_eq_some.1 moved
    rw [if_neg (by rw [held.going]; exact Bool.false_ne_true)] at same
    cases same
    exact orderly_expired held waits cancelled
  | flowCtrl =>
    cases moved
    exact ⟨sent, held.steer _ _ _ false _ _ _⟩
  | lift =>
    obtain ⟨_, ⟨⟩⟩ := Option.ite_none_left_eq_some.1 moved
    exact ⟨sent, held.steer _ _ _ true _ _ _⟩
  | onFCLifted =>
    obtain ⟨_, same⟩ := Option.ite_none_right_eq_some.1 moved
    rw [if_neg (by rw [held.going]; exact Bool.false_ne_true)] at same
    cases same
    exact ⟨sent, (held.steer _ _ _ _ _ _ (writer.lifts - 1)).resume .flowCtrl⟩

theorem orderly_of_fitting {outLimit : Bool}
    (reachable : ((stmWriterMachine outLimit).restrict fun writer move => writer.Fits move).Reachable writer) :
    writer.Orderly := by
  apply reachable.invariant
  · exact ⟨_, (core_new outLimit).held_of_fresh
      (fun _ never => absurd never (Option.not_mem_none _)) fun _ never => absurd never (Option.not_mem_none _)⟩
  · intro state move next _ orderly moved
    obtain ⟨fits, moved⟩ := Machine.restrict_step.1 moved
    obtain ⟨sent, held⟩ := orderly
    exact orderly_of_step held fits moved

end StmWriter

def fittingWriter (outLimit : Bool) : Machine StmWriter StmWriterMove :=
  (stmWriterMachine outLimit).restrict fun writer move => writer.Fits move

/-- In every run whose steps fit the writer hands over the pieces in order, and completes each
request once, and rightly. -/
theorem inPieces_of_fits {outLimit : Bool} {writer : StmWriter}
    (reachable : (fittingWriter outLimit).Reachable writer) : writer.InPieces := by
  obtain ⟨_, held⟩ := StmWriter.orderly_of_fitting reachable
  exact held.inPieces

def blockAndMessage : List StmWriterMove :=
  [.write 0 false false longBuf, .run, .loop statusPending, .write 1 true false shortBuf,
    .land ⟨0, 0, 64512⟩ statusSuccess, .complete ⟨0, 0, 64512⟩ statusSuccess, .resched, .run,
    .loop statusSuccess, .loop statusSuccess, .loop statusSuccess]

theorem inPieces_blockAndMessage :
    ∃ writer, (fittingWriter true).run (fittingWriter true).start blockAndMessage = some writer ∧
      writer.handed = [⟨0, 0, 64512⟩, ⟨0, 64512, 100000⟩, ⟨1, 0, 16⟩] ∧
      writer.done.map WriteDone.status = [statusSuccess, statusSuccess] ∧ writer.InPieces := by
  have ran : ((fittingWriter true).run (fittingWriter true).start blockAndMessage).map
      (fun writer => (writer.handed, writer.done.map WriteDone.status)) =
        some ([⟨0, 0, 64512⟩, ⟨0, 64512, 100000⟩, ⟨1, 0, 16⟩], [statusSuccess, statusSuccess]) := by
    decide +kernel
  obtain ⟨writer, run, fields⟩ := Option.map_eq_some_iff.1 ran
  have both := Prod.mk.inj fields
  exact ⟨writer, run, both.1, both.2, inPieces_of_fits (Machine.Reachable.start.run run)⟩

def failedPiece : List StmWriterMove :=
  [.write 0 true false shortBuf, .run, .loop statusPending, .land ⟨0, 0, 16⟩ eTimedOut,
    .complete ⟨0, 0, 16⟩ eTimedOut, .failNext]

/-- The request is completed with success, and its piece was not written. -/
theorem failedPiece_succeeds :
    ¬∀ writer, (stmWriterMachine true).Reachable writer → writer.InPieces := by
  intro inPieces
  have ran : ((stmWriterMachine true).run (stmWriterMachine true).start failedPiece).map
      (fun writer => (writer.done, writer.written)) =
        some ([⟨⟨0, true, shortBuf⟩, statusSuccess, shortBuf⟩], []) := by
    decide +kernel
  obtain ⟨writer, run, fields⟩ := Option.map_eq_some_iff.1 ran
  obtain ⟨isDone, isWritten⟩ := Prod.mk.inj fields
  have right := (inPieces writer (Machine.Reachable.start.run run)).right
    ⟨⟨0, true, shortBuf⟩, statusSuccess, shortBuf⟩ (by rw [isDone]; exact mem_singleton_self _)
  have written := right.success (Int.le_refl 0) ⟨0, 0, 16⟩ (by decide +kernel)
  rw [isWritten] at written
  exact not_mem_nil written

end RpcFrmwrk.Ipc
