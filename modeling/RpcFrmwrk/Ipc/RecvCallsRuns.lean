import Mathlib.Data.List.Forall2
import RpcFrmwrk.Ipc.RecvCalls

/-! What the calls of `CRecvFilter` make of any stream. Owns what the filter holds of a packet, and
of the payloads that wait; `RecvCalls.Safe` in the runs where no call meets the end of file behind
the token it read, and where `ReadStream` finds no rest of a failed packet in front. -/

namespace RpcFrmwrk.Ipc

open RpcFrmwrk.Library List

/-- The call tells what stands at the front: a whole packet, one that is broken, or a part
that waits for more or that the end of file cut off. -/
def RecvAnswer.Right (answer : RecvAnswer) : Prop :=
  match front answer.part with
  | .packet token payload => answer.ret = .ok token ∧ answer.part = StmPacket.frame ⟨token, payload⟩
  | .bad => answer.ret = .error eBadMsg
  | .part => answer.ret = .error (if answer.ended then eNotConn else eAgain)

/-- The call under way has made no more reads than the bound. Every call was answered, no read
leaves the buffer, and what was handed out are the first payloads that came in. -/
structure RecvCalls.Safe (state : RecvCalls) (bound : Nat) : Prop where
  finite : ∀ call, state.call = some call → call.reads ≤ bound
  right : ∀ answer ∈ state.answers, answer.Right
  inside : ∀ buf offset count, state.filter.target = some (buf, offset, count) →
    offset + count ≤ buf.length
  complete : ∃ later, state.completed = state.handed ++ later

section

variable {token : PktToken}

theorem front_command (command : token.isCommand = true) : front [token.toByte] = .packet token none := by
  rw [front, PktToken.ofByte_toByte]
  exact if_pos command

theorem front_data (kind : token = .data ∨ token = .progress) (rest : List UInt8) :
    front (token.toByte :: rest) =
      if rest.length < 4 then .part
      else if stmMaxBytesPerBuf < ofBE (rest.take 4) ∨ ofBE (rest.take 4) = 0 then .bad
      else if rest.length < 4 + ofBE (rest.take 4) then .part
      else .packet token (some ((rest.drop 4).take (ofBE (rest.take 4)))) := by
  have noCommand : ¬ token.isCommand = true := by
    rcases kind with rfl | rfl <;> decide
  have carries : ¬ (token ≠ .data ∧ token ≠ .progress) := by
    rintro ⟨notData, notProgress⟩
    exact kind.elim notData notProgress
  rw [front, PktToken.ofByte_toByte]
  exact (if_neg noCommand).trans (if_neg carries)

theorem front_short (kind : token = .data ∨ token = .progress) {got : List UInt8}
    (early : got.length < 4) : front (token.toByte :: got) = .part := by
  rw [front_data kind, if_pos early]

theorem front_size (kind : token = .data ∨ token = .progress) {size : List UInt8}
    (length : size.length = 4) (wrong : stmMaxBytesPerBuf < ofBE size ∨ ofBE size = 0) :
    front (token.toByte :: size) = .bad := by
  have whole : size.take 4 = size := take_of_length_le (Nat.le_of_eq length)
  rw [front_data kind, if_neg (Nat.not_lt.2 (Nat.le_of_eq length.symm)), whole, if_pos wrong]

theorem front_sized (kind : token = .data ∨ token = .progress) {size : Nat} (filled : 0 < size)
    (small : size ≤ stmMaxBytesPerBuf) (got : List UInt8) :
    front (token.toByte :: (toBE 4 size ++ got)) =
      if got.length < size then .part else .packet token (some (got.take size)) := by
  have length : (toBE 4 size).length = 4 := length_toBE 4 size
  have long : ¬ (toBE 4 size ++ got).length < 4 := by
    rw [length_append]
    omega
  have decoded : ofBE ((toBE 4 size ++ got).take 4) = size := by
    rw [take_left' length]
    exact ofBE_toBE_of_lt (Nat.lt_of_le_of_lt small (by decide))
  have possible : ¬ (stmMaxBytesPerBuf < size ∨ size = 0) := by omega
  rw [front_data kind, if_neg long, decoded, if_neg possible, drop_left' length, length_append, length]
  by_cases early : got.length < size
  · rw [if_pos early, if_pos (by omega)]
  · rw [if_neg early, if_neg (by omega)]

end

/-! ### One read -/

namespace RecvFilter

variable {queue : List (List UInt8)} {waiting : List (Option (List UInt8))} {filter : RecvFilter}
    {first : Bool} {wire part : List UInt8} {gives : Nat}
variable {buf : List UInt8} {pending : Nat}

def Waits (buf : List UInt8) (mark : Option (List UInt8)) : Prop :=
  ∀ payload, mark = some payload → buf = payload

/-- The filter has read these bytes of a packet, and its queue holds these payloads. -/
inductive Holding : RecvFilter → List UInt8 → List (Option (List UInt8)) → Prop where
  | idle {pending : Nat} {token : Option PktToken} {queue : List (List UInt8)}
      {waiting : List (Option (List UInt8))} (matching : List.Forall₂ Waits queue waiting) :
      Holding ⟨0, noOffset, pending, token, queue⟩ [] waiting
  | size {pending : Nat} {token : PktToken} {got : List UInt8} {queue : List (List UInt8)}
      {waiting : List (Option (List UInt8))} (kind : token = .data ∨ token = .progress)
      (early : got.length < 4) (matching : List.Forall₂ Waits queue waiting) :
      Holding
        ⟨0, got.length, pending, some token, queue ++ [got ++ List.replicate (4 - got.length) 0]⟩
        (token.toByte :: got) (waiting ++ [none])
  | data {pending : Nat} {token : PktToken} {got : List UInt8} {size : Nat}
      {queue : List (List UInt8)} {waiting : List (Option (List UInt8))}
      (kind : token = .data ∨ token = .progress) (early : got.length < size)
      (small : size ≤ stmMaxBytesPerBuf) (matching : List.Forall₂ Waits queue waiting) :
      Holding
        ⟨size - got.length, got.length, pending, some token,
          queue ++ [got ++ List.replicate (size - got.length) 0]⟩
        (token.toByte :: (toBE 4 size ++ got)) (waiting ++ [none])

theorem forall₂_snoc {mark : Option (List UInt8)} (matching : List.Forall₂ Waits queue waiting)
    (waits : Waits buf mark) : List.Forall₂ Waits (queue ++ [buf]) (waiting ++ [mark]) :=
  rel_append matching (.cons waits .nil)

theorem waits_none (buf : List UInt8) : Waits buf none := nofun

theorem waits_some (buf : List UInt8) : Waits buf (some buf) := fun _ same => Option.some.inj same

def marks (part : List UInt8) (waiting : List (Option (List UInt8))) : List (Option (List UInt8)) :=
  match front part with
  | .packet _ (some payload) => waiting.dropLast ++ [some payload]
  | _ => waiting

/-- What one `read` leads to: the call takes some bytes and goes on, or it returns. -/
def Leads (filter : RecvFilter) (part wire : List UInt8) (waiting : List (Option (List UInt8)))
    (first : Bool) (gives : Nat) : Prop :=
  ∃ chunk left after ret, filter.nextOrEnd first wire gives = (left, after, ret) ∧ wire = chunk ++ left ∧
      (filter.recvState = .tok → chunk.length ≤ 1) ∧
    match ret with
    | none =>
      0 < chunk.length ∧
        after.Holding (part ++ chunk)
          (if filter.recvState = .tok then waiting ++ [none] else waiting)
    | some ret =>
      (RecvAnswer.mk (part ++ chunk) (decide (wire = [] ∧ gives ≠ 0)) ret).Right ∧
        after.Holding (if ret = .error eAgain then part ++ chunk else []) (marks (part ++ chunk) waiting)

theorem nextOrEnd_more
    (more : ¬ (wire = [] ∧ gives ≠ 0)) : filter.nextOrEnd first wire gives = filter.next wire gives :=
  if_neg more

theorem leads_idle {token : Option PktToken}
    (matching : List.Forall₂ Waits queue waiting)
    (first : Bool) (wire : List UInt8) (gives : Nat) :
    Leads ⟨0, noOffset, pending, token, queue⟩ [] wire waiting first gives := by
  have state : recvState ⟨0, noOffset, pending, token, queue⟩ = .tok := rfl
  by_cases ended : wire = [] ∧ gives ≠ 0
  · have met : nextOrEnd ⟨0, noOffset, pending, token, queue⟩ first wire gives =
        (wire, ⟨0, noOffset, pending, token, queue⟩, some (.error eNotConn)) := by
      rw [nextOrEnd, if_pos ended, state]
      rfl
    refine ⟨[], wire, _, _, met, rfl, fun _ => Nat.zero_le 1, ?_, .idle matching⟩
    simp [RecvAnswer.Right, front, ended]
  · rw [Leads, nextOrEnd_more ended, next.eq_def, state]
    cases wire with
    | nil =>
      refine ⟨[], [], _, _, rfl, rfl, fun _ => Nat.zero_le 1, ?_, .idle matching⟩
      simp [RecvAnswer.Right, front, show gives = 0 by simpa using ended]
    | cons byte wire =>
      simp only
      by_cases again : gives = 0
      · rw [if_pos again]
        refine ⟨[], _, _, _, rfl, rfl, fun _ => Nat.zero_le 1, ?_, .idle matching⟩
        simp [RecvAnswer.Right, front]
      · rw [if_neg again]
        cases known : PktToken.ofByte byte with
        | none =>
          have bad : front [byte] = .bad := by rw [front, known]
          refine ⟨[byte], _, _, _, rfl, rfl, fun _ => Nat.le_refl 1, ?_, ?_⟩
          · simp [RecvAnswer.Right, bad]
          · rw [marks, nil_append, bad]
            exact .idle matching
        | some other =>
          have isByte : other.toByte = byte := PktToken.toByte_of_ofByte known
          subst isByte
          simp only
          by_cases command : other.isCommand = true
          · rw [if_pos command]
            have whole := front_command command
            refine ⟨[other.toByte], _, _, _, rfl, rfl, fun _ => Nat.le_refl 1, ?_, ?_⟩
            · simp [RecvAnswer.Right, whole, StmPacket.frame]
            · rw [marks, nil_append, whole]
              exact .idle matching
          · rw [if_neg command]
            by_cases plain : other ≠ .data ∧ other ≠ .progress
            · have bad : front [other.toByte] = .bad := by
                rw [front, PktToken.ofByte_toByte]
                exact (if_neg command).trans (if_pos plain)
              rw [if_pos plain]
              refine ⟨[other.toByte], _, _, _, rfl, rfl, fun _ => Nat.le_refl 1, ?_, ?_⟩
              · simp [RecvAnswer.Right, bad]
              · rw [marks, nil_append, bad]
                exact .idle matching
            · rw [if_neg plain]
              have kind : other = .data ∨ other = .progress := by
                by_contra neither
                exact plain (not_or.1 neither)
              have begun := @Holding.size pending other [] queue waiting kind (by decide) matching
              exact ⟨[other.toByte], _, _, _, rfl, rfl, fun _ => Nat.le_refl 1, Nat.one_pos, begun⟩

theorem silent_of_none {left count : Nat} (ended : ¬ (wire = [] ∧ gives ≠ 0))
    (asks : 0 < left) (counted : min gives (min left wire.length) = count) (again : count = 0) :
    gives = 0 := by
  by_contra given
  have empty : wire.length = 0 := by omega
  exact ended ⟨eq_nil_of_length_eq_zero empty, given⟩

theorem leads_ended (ended : wire = [] ∧ gives ≠ 0)
    (cut : front part = .part) (matching : List.Forall₂ Waits filter.queBufRead waiting)
    (met : filter.nextOrEnd true wire gives = (wire, filter.fail, some (.error eNotConn))) :
    Leads filter part wire waiting true gives := by
  refine ⟨[], wire, _, _, met, rfl, fun _ => Nat.zero_le 1, ?_⟩
  have again : (Except.error eNotConn : Except Int PktToken) ≠ .error eAgain := by decide
  simp only [append_nil, if_neg again, marks, cut]
  refine ⟨?_, .idle matching⟩
  simp [RecvAnswer.Right, cut, ended]

theorem leads_size {token : PktToken} {got : List UInt8}
    (kind : token = .data ∨ token = .progress)
    (early : got.length < 4) (matching : List.Forall₂ Waits queue waiting)
    (fits : wire = [] ∧ gives ≠ 0 → first = true) :
    Leads ⟨0, got.length, pending, some token, queue ++ [got ++ List.replicate (4 - got.length) 0]⟩
      (token.toByte :: got) wire (waiting ++ [none]) first gives := by
  generalize shape : (⟨0, got.length, pending, some token,
    queue ++ [got ++ List.replicate (4 - got.length) 0]⟩ : RecvFilter) = filter
  have state : filter.recvState = .size := by
    have apart : got.length ≠ noOffset := Nat.ne_of_lt (Nat.lt_trans early (by decide))
    rw [← shape, recvState, if_pos rfl, if_neg apart]
  have last : filter.queBufRead.getLast? = some (got ++ List.replicate (4 - got.length) 0) := by
    rw [← shape, List.getLast?_concat]
  have pushed := forall₂_snoc matching (waits_none (got ++ List.replicate (4 - got.length) 0))
  by_cases ended : wire = [] ∧ gives ≠ 0
  · obtain rfl := fits ended
    refine leads_ended ended (front_short kind early) (shape ▸ pushed) ?_
    rw [nextOrEnd, if_pos ended, state, last]
    rfl
  · rw [Leads, nextOrEnd_more ended, next.eq_def, state, last]
    subst shape
    simp only [dropLast_concat]
    generalize counted : min gives (min (4 - got.length) wire.length) = count
    obtain ⟨chunk, left, rfl, taken⟩ := exists_split (show count ≤ wire.length by omega)
    have within : count ≤ 4 - got.length := by omega
    rw [take_left' taken, drop_left' taken]
    by_cases again : count = 0
    · have silent : gives = 0 := silent_of_none ended (Nat.sub_pos_of_lt early) counted again
      have held := @Holding.size pending token got queue waiting kind early matching
      rw [if_pos again]
      obtain rfl : chunk = [] := eq_nil_of_length_eq_zero (taken.trans again)
      refine ⟨[], _, _, _, rfl, rfl, RecvState.noConfusion, ?_, ?_⟩
      · simp [RecvAnswer.Right, front_short kind early, silent]
      · rw [append_nil, marks, front_short kind early]
        exact held
    · rw [if_neg again, fill_replicate]
      have joined : (got ++ chunk).length = got.length + count := by rw [length_append, taken]
      have moves : 0 < chunk.length := by omega
      by_cases all : count = 4 - got.length
      · rw [if_pos all]
        have length : (got ++ chunk).length = 4 := by omega
        rw [length, Nat.sub_self, replicate_zero, append_nil]
        by_cases wrong : stmMaxBytesPerBuf < ofBE (got ++ chunk) ∨ ofBE (got ++ chunk) = 0
        · have bad := front_size kind length wrong
          rw [if_pos wrong]
          refine ⟨chunk, _, _, _, rfl, rfl, RecvState.noConfusion, ?_, ?_⟩
          · simp [RecvAnswer.Right, bad]
          · rw [marks, cons_append, bad]
            exact .idle (forall₂_snoc matching (waits_none _))
        · rw [if_neg wrong]
          rw [not_or, Nat.not_lt] at wrong
          have begun := @Holding.data pending token [] (ofBE (got ++ chunk)) queue waiting kind
            (Nat.pos_of_ne_zero wrong.2) wrong.1 matching
          have bytes : toBE 4 (ofBE (got ++ chunk)) = got ++ chunk := by
            have back := toBE_ofBE (got ++ chunk)
            rwa [length] at back
          rw [bytes] at begun
          refine ⟨chunk, _, _, _, rfl, rfl, RecvState.noConfusion, moves, ?_⟩
          rw [if_neg (by decide)]
          simpa using begun
      · rw [if_neg all, ← joined]
        refine ⟨chunk, _, _, _, rfl, rfl, RecvState.noConfusion, moves, ?_⟩
        rw [if_neg (by decide)]
        exact .size kind (by omega) matching

theorem leads_data {token : PktToken} {got : List UInt8} {size : Nat}
    (kind : token = .data ∨ token = .progress) (early : got.length < size)
    (small : size ≤ stmMaxBytesPerBuf) (matching : List.Forall₂ Waits queue waiting)
    (fits : wire = [] ∧ gives ≠ 0 → first = true) :
    Leads
      ⟨size - got.length, got.length, pending, some token,
        queue ++ [got ++ List.replicate (size - got.length) 0]⟩
      (token.toByte :: (toBE 4 size ++ got)) wire (waiting ++ [none]) first gives := by
  generalize shape : (⟨size - got.length, got.length, pending, some token,
    queue ++ [got ++ List.replicate (size - got.length) 0]⟩ : RecvFilter) = filter
  have state : filter.recvState = .data := by
    rw [← shape, recvState, if_neg (Nat.sub_ne_zero_of_lt early)]
  have last : filter.queBufRead.getLast? = some (got ++ List.replicate (size - got.length) 0) := by
    rw [← shape, List.getLast?_concat]
  have whole : (got ++ List.replicate (size - got.length) (0 : UInt8)).length = size := by
    rw [length_append, length_replicate]
    omega
  have rest : sub32 size filter.offsetRead = size - got.length := by
    rw [← shape]
    exact sub32_small (Nat.le_of_lt early) small
  have enough : ¬ size - got.length < filter.bytesToRead := by
    rw [← shape]
    exact Nat.lt_irrefl _
  have filled : 0 < size := Nat.zero_lt_of_lt early
  have part : front (token.toByte :: (toBE 4 size ++ got)) = .part := by
    rw [front_sized kind filled small, if_pos early]
  have pushed := forall₂_snoc matching (waits_none (got ++ List.replicate (size - got.length) 0))
  by_cases ended : wire = [] ∧ gives ≠ 0
  · obtain rfl := fits ended
    refine leads_ended ended part (shape ▸ pushed) ?_
    rw [nextOrEnd, if_pos ended, state, last]
    simp only [whole, rest]
    rw [if_neg enough, if_pos trivial]
  · rw [Leads, nextOrEnd_more ended, next.eq_def, state, last]
    simp only [whole, rest]
    rw [if_neg enough]
    subst shape
    simp only [dropLast_concat]
    generalize counted : min gives (min (size - got.length) wire.length) = count
    obtain ⟨chunk, left, rfl, taken⟩ := exists_split (show count ≤ wire.length by omega)
    have within : count ≤ size - got.length := by omega
    rw [take_left' taken, drop_left' taken]
    by_cases again : count = 0
    · have silent : gives = 0 := silent_of_none ended (Nat.sub_pos_of_lt early) counted again
      have held := @Holding.data pending token got size queue waiting kind early small matching
      rw [if_pos again]
      obtain rfl : chunk = [] := eq_nil_of_length_eq_zero (taken.trans again)
      refine ⟨[], _, _, _, rfl, rfl, RecvState.noConfusion, ?_, ?_⟩
      · simp [RecvAnswer.Right, part, silent]
      · rw [append_nil, marks, part]
        exact held
    · rw [if_neg again, fill_replicate]
      have joined : (got ++ chunk).length = got.length + count := by rw [length_append, taken]
      have moves : 0 < chunk.length := by omega
      by_cases all : count = size - got.length
      · rw [if_pos all]
        have length : (got ++ chunk).length = size := by omega
        have packet : front (token.toByte :: (toBE 4 size ++ got) ++ chunk) =
            .packet token (some (got ++ chunk)) := by
          rw [cons_append, append_assoc, front_sized kind filled small,
            if_neg (Nat.not_lt.2 (Nat.le_of_eq length.symm)), take_of_length_le (Nat.le_of_eq length)]
        rw [length, Nat.sub_self, replicate_zero, append_nil]
        refine ⟨chunk, _, _, _, rfl, rfl, RecvState.noConfusion, ?_, ?_⟩
        · simp only [RecvAnswer.Right, packet]
          exact ⟨trivial, by simp [StmPacket.frame, length]⟩
        · rw [marks, packet]
          simp only [dropLast_concat]
          exact .idle (forall₂_snoc matching (waits_some _))
      · rw [if_neg all, ← joined, Nat.sub_sub, ← taken, ← length_append]
        refine ⟨chunk, _, _, _, rfl, rfl, RecvState.noConfusion, moves, ?_⟩
        rw [if_neg (by decide)]
        have held := @Holding.data pending token (got ++ chunk) size queue waiting kind (by omega) small
          matching
        simpa using held

theorem leads_of_holding (holding : filter.Holding part waiting)
    (fits : wire = [] ∧ gives ≠ 0 → first = true ∨ filter.recvState = .tok) :
    Leads filter part wire waiting first gives := by
  have behind : filter.recvState ≠ .tok → wire = [] ∧ gives ≠ 0 → first = true := by
    intro read ended
    exact (fits ended).resolve_right read
  cases holding with
  | idle matching => exact leads_idle matching first wire gives
  | size kind early matching =>
    refine leads_size kind early matching (behind ?_)
    have apart : _ ≠ noOffset := Nat.ne_of_lt (Nat.lt_trans early (by decide))
    rw [recvState, if_pos rfl, if_neg apart]
    decide
  | data kind early small matching =>
    refine leads_data kind early small matching (behind ?_)
    rw [recvState, if_neg (Nat.sub_ne_zero_of_lt early)]
    decide

theorem Holding.inside
    (holding : filter.Holding part waiting) {offset count : Nat}
    (writes : filter.target = some (buf, offset, count)) : offset + count ≤ buf.length := by
  cases holding with
  | idle matching => cases writes
  | @size pending token got queue waiting kind early matching =>
    have apart : got.length ≠ noOffset := Nat.ne_of_lt (Nat.lt_trans early (by decide))
    rw [target, recvState, if_pos rfl, if_neg apart] at writes
    simp only [List.getLast?_concat, Option.map_some, Option.some.injEq, Prod.mk.injEq] at writes
    obtain ⟨rfl, rfl, rfl⟩ := writes
    rw [length_append, length_replicate]
  | @data pending token got size queue waiting kind early small matching =>
    have whole : (got ++ List.replicate (size - got.length) (0 : UInt8)).length = size := by
      rw [length_append, length_replicate]
      omega
    rw [target, recvState, if_neg (Nat.sub_ne_zero_of_lt early)] at writes
    simp only [List.getLast?_concat, Option.map_some, Option.some.injEq, Prod.mk.injEq, whole] at writes
    obtain ⟨rfl, rfl, rfl⟩ := writes
    rw [whole, sub32_small (Nat.le_of_lt early) small]
    omega

theorem Holding.matching (holding : filter.Holding part waiting) :
    List.Forall₂ Waits filter.queBufRead waiting := by
  cases holding with
  | idle matching => exact matching
  | size kind early matching | data kind early small matching => exact forall₂_snoc matching (waits_none _)

theorem Holding.pop
    (holding : filter.Holding part waiting) {rest : List (List UInt8)}
    (queue : filter.queBufRead = buf :: rest) (more : filter.recvState = .tok ∨ rest ≠ [])
    (pending : Nat) :
    Holding { filter with queBufRead := rest, bytesPending := pending } part waiting.tail := by
  cases holding with
  | idle matching =>
    subst queue
    cases matching with
    | cons waits matching => exact .idle matching
  | @size _ token got front waiting kind early matching =>
    have apart : got.length ≠ noOffset := Nat.ne_of_lt (Nat.lt_trans early (by decide))
    rw [recvState, if_pos rfl, if_neg apart] at more
    cases matching with
    | nil =>
      cases queue
      simp at more
    | cons waits matching =>
      cases queue
      exact .size kind early matching
  | data kind early small matching =>
    rw [recvState, if_neg (Nat.sub_ne_zero_of_lt early)] at more
    cases matching with
    | nil =>
      cases queue
      simp at more
    | cons waits matching =>
      cases queue
      exact .data kind early small matching

end RecvFilter

/-- No call meets the end of file in the size or the data of a packet whose token it read, and
`ReadStream` finds no buffer in front that a failed call left there. -/
def RecvMove.Fits (state : RecvCalls) : RecvMove → Prop
  | .read gives =>
    state.wire = [] ∧ gives ≠ 0 →
      (state.call.getD ⟨true, 0⟩).first = true ∨ state.filter.recvState = .tok
  | .readStream =>
    state.waiting.head? = some none → state.waiting.length = 1 ∧ state.filter.recvState ≠ .tok

instance RecvMove.decidableFits (state : RecvCalls) (move : RecvMove) : Decidable (move.Fits state) :=
  match move with
  | .read gives =>
    inferInstanceAs (Decidable (state.wire = [] ∧ gives ≠ 0 →
      (state.call.getD ⟨true, 0⟩).first = true ∨ state.filter.recvState = .tok))
  | .readStream =>
    inferInstanceAs (Decidable (state.waiting.head? = some none →
      state.waiting.length = 1 ∧ state.filter.recvState ≠ .tok))

namespace RecvCalls

def payloads (waiting : List (Option (List UInt8))) : List (List UInt8) :=
  waiting.filterMap id

/-- Every read of the call under way took a byte. -/
structure Inv (state : RecvCalls) (bound : Nat) : Prop where
  holding : state.filter.Holding state.part state.waiting
  short : state.wire.length ≤ bound
  reads : ∀ call, state.call = some call → call.reads + state.wire.length ≤ bound
  right : ∀ answer ∈ state.answers, answer.Right
  complete : state.completed = state.handed ++ payloads state.waiting

variable {state next : RecvCalls} {bound : Nat}

theorem Inv.safe (inv : state.Inv bound) : state.Safe bound where
  finite := fun call under => Nat.le_trans (Nat.le_add_right _ _) (inv.reads call under)
  right := inv.right
  inside := fun _ _ _ writes => inv.holding.inside writes
  complete := ⟨payloads state.waiting, inv.complete⟩

theorem payloads_snoc (waiting : List (Option (List UInt8))) (mark : Option (List UInt8)) :
    payloads (waiting ++ [mark]) = payloads waiting ++ mark.toList := by
  rw [payloads, filterMap_append]
  cases mark <;> rfl

theorem front_token {bytes payload : List UInt8} {token : PktToken} (short : bytes.length ≤ 1) :
    front bytes ≠ .packet token (some payload) := by
  intro whole
  match bytes with
  | [] => cases whole
  | [byte] =>
    rw [front] at whole
    cases known : PktToken.ofByte byte <;> simp only [known] at whole
    · cases whole
    · split at whole
      · cases whole
      · split at whole <;> cases whole
  | first :: second :: rest =>
    rw [length_cons, length_cons] at short
    omega

theorem payloads_marks {filter : RecvFilter} {part chunk : List UInt8}
    {waiting : List (Option (List UInt8))} (holding : filter.Holding part waiting)
    (token : filter.recvState = .tok → chunk.length ≤ 1) {kind : PktToken} {payload : List UInt8}
    (whole : front (part ++ chunk) = .packet kind (some payload)) :
    payloads (waiting.dropLast ++ [some payload]) = payloads waiting ++ [payload] := by
  cases holding with
  | idle matching => exact absurd whole (front_token (token rfl))
  | size | data =>
    rw [dropLast_concat, payloads_snoc, payloads_snoc]
    simp

theorem Inv.read (inv : state.Inv bound) {gives : Nat} (fits : RecvMove.Fits state (.read gives))
    (moved : state.step (.read gives) = some next) : next.Inv bound := by
  obtain ⟨chunk, left, after, ret, met, bytes, token, leads⟩ :=
    RecvFilter.leads_of_holding inv.holding fits
  have taken : state.wire.take (state.wire.length - left.length) = chunk := by
    rw [bytes, length_append, Nat.add_sub_cancel, take_left]
  have shorter : chunk.length + left.length = state.wire.length := by
    rw [bytes, length_append]
  have short := inv.short
  rw [step] at moved
  simp only [met] at moved
  cases ret with
  | none =>
    obtain ⟨moves, holding⟩ := leads
    cases moved
    refine ⟨?_, ?_, ?_, inv.right, ?_⟩
    · simp only [goesOn, taken]
      exact holding
    · simp only [goesOn]
      omega
    · intro call under
      simp only [goesOn, Option.some.injEq] at under ⊢
      subst under
      cases before : state.call with
      | none =>
        simp only [Option.getD_none]
        omega
      | some call =>
        have reads := inv.reads call before
        simp only [Option.getD_some]
        omega
    · simp only [goesOn]
      rw [inv.complete]
      split
      · rw [payloads_snoc]
        simp
      · rfl
  | some ret =>
    obtain ⟨right, holding⟩ := leads
    cases moved
    refine ⟨?_, ?_, nofun, ?_, ?_⟩
    · simp only [returns, taken]
      exact holding
    · simp only [returns]
      omega
    · intro answer member
      simp only [returns, taken] at member
      rcases mem_append.1 member with before | new
      · exact inv.right answer before
      · rw [mem_singleton.1 new]
        exact right
    · simp only [returns, taken]
      cases whole : front (state.part ++ chunk) with
      | part | bad => exact inv.complete
      | packet kind payload =>
        cases payload with
        | none => exact inv.complete
        | some payload =>
          simp only
          rw [payloads_marks inv.holding token whole, inv.complete, append_assoc]

theorem Inv.readStream (inv : state.Inv bound) (fits : RecvMove.Fits state .readStream)
    (moved : state.step .readStream = some next) : next.Inv bound := by
  obtain ⟨between, moved⟩ := Option.ite_none_left_eq_some.1 moved
  have idle : state.call = none := by simpa using between
  cases queue : state.filter.queBufRead with
  | nil =>
    rw [RecvFilter.readStream, queue] at moved
    cases moved
    exact inv
  | cons buf rest =>
    rw [RecvFilter.readStream, queue] at moved
    simp only at moved
    by_cases under : rest = [] ∧ state.filter.recvState ≠ .tok
    · rw [if_pos under] at moved
      cases moved
      exact inv
    · rw [if_neg under] at moved
      cases moved
      have matching := inv.holding.matching
      rw [queue] at matching
      have more : state.filter.recvState = .tok ∨ rest ≠ [] := by
        by_contra neither
        rw [not_or, not_not] at neither
        exact under ⟨neither.2, neither.1⟩
      refine ⟨inv.holding.pop queue more _, inv.short, ?_, inv.right, ?_⟩
      · intro call now
        rw [idle] at now
        cases now
      · cases marked : state.waiting with
        | nil =>
          rw [marked] at matching
          cases matching
        | cons mark later =>
          rw [marked] at matching
          obtain ⟨waits, lengths⟩ := forall₂_cons.1 matching
          cases mark with
          | none =>
            have alone := fits (by rw [marked]; rfl)
            rw [marked, length_cons, Nat.add_eq_right] at alone
            rw [eq_nil_of_length_eq_zero alone.1] at lengths
            cases lengths
            exact absurd ⟨rfl, alone.2⟩ under
          | some payload =>
            have same := waits payload rfl
            show state.completed = state.handed ++ [buf] ++ payloads later
            rw [inv.complete, marked, same, append_assoc]
            rfl

theorem Inv.step (inv : state.Inv bound) {move : RecvMove} (fits : move.Fits state)
    (moved : state.step move = some next) : next.Inv bound := by
  cases move with
  | read gives => exact inv.read fits moved
  | readStream => exact inv.readStream fits moved

end RecvCalls

theorem recv_start (input : List UInt8) : (recvMachine input).start.Inv input.length where
  holding := .idle .nil
  short := Nat.le_refl _
  reads := nofun
  right := nofun
  complete := rfl

/-- Any stream, in every run that meets the condition. -/
theorem safe_of_fits {input : List UInt8} {state : RecvCalls}
    (reachable : ((recvMachine input).restrict fun state move => move.Fits state).Reachable state) :
    state.Safe input.length := by
  have inv : state.Inv input.length := by
    apply reachable.invariant (recv_start input)
    intro before move after _ inv moved
    obtain ⟨fits, stepped⟩ := Machine.restrict_step.1 moved
    exact inv.step fits stepped
  exact inv.safe

def pingDataUnknown : List UInt8 := [2, 1, 0, 0, 0, 2, 7, 8, 9]

theorem safe_pingDataUnknown : ∃ state,
    ((recvMachine pingDataUnknown).restrict fun state move => move.Fits state).run
        (recvMachine pingDataUnknown).start
        [.read 1, .read 1, .read 3, .read 0, .read 1, .read 1, .read 5, .readStream, .read 1, .read 1] =
      some state ∧
    state.handed = [[7, 8]] ∧
    state.answers.map (·.ret) =
      [.ok .ping, .error eAgain, .ok .data, .error eBadMsg, .error eNotConn] ∧
    state.Safe pingDataUnknown.length := by
  have ran : (((recvMachine pingDataUnknown).restrict fun state move => move.Fits state).run
      (recvMachine pingDataUnknown).start
      [.read 1, .read 1, .read 3, .read 0, .read 1, .read 1, .read 5, .readStream, .read 1, .read 1]).map
        (fun state => (state.handed, state.answers.map (·.ret))) =
      some ([[7, 8]], [.ok .ping, .error eAgain, .ok .data, .error eBadMsg, .error eNotConn]) := by
    decide +kernel
  obtain ⟨state, ran, same⟩ := Option.map_eq_some_iff.1 ran
  obtain ⟨handed, answers⟩ := Prod.mk.inj same
  exact ⟨state, ran, handed, answers, safe_of_fits (Machine.Reachable.start.run ran)⟩

def tokenOnly (reads : Nat) : RecvCalls :=
  ⟨⟨0, 0, 0, some .data, [[0, 0, 0, 0]]⟩, [], [1], some ⟨false, reads + 1⟩, [none], [], [], []⟩

theorem tokenOnly_reachable (reads : Nat) : (recvMachine [1]).Reachable (tokenOnly reads) := by
  induction reads with
  | zero =>
    have moved : (recvMachine [1]).step (recvMachine [1]).start (.read 1) = some (tokenOnly 0) := rfl
    exact .step .start moved
  | succ reads ih =>
    have moved : (recvMachine [1]).step (tokenOnly reads) (.read 1) = some (tokenOnly (reads + 1)) := rfl
    exact ih.step moved

/-- The end of file behind the token of a data packet: the call does not return. -/
theorem tokenOnly_endless :
    ¬ ∀ input, ∃ bound, ∀ state, (recvMachine input).Reachable state → state.Safe bound := by
  intro all
  obtain ⟨bound, safe⟩ := all [1]
  have finite := (safe _ (tokenOnly_reachable bound)).finite _ rfl
  exact absurd finite (Nat.not_succ_le_self bound)

end RpcFrmwrk.Ipc
