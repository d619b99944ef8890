import RpcFrmwrk.Ipc.UxSock

/-! What the receiving end makes of the packets of the sending end. Owns the bytes of a packet, and
the packets a transfer is cut into; what `CSendQue` still owes to the socket, and what `CRecvFilter`
holds of a packet; `UxState.Framed` in the runs whose data fits into one buffer each. -/

namespace RpcFrmwrk.Ipc

open RpcFrmwrk.Library List

def StmPacket.frame (pkt : StmPacket) : List UInt8 :=
  pkt.token.toByte ::
    match pkt.data with
    | none => []
    | some data => toBE 4 data.length ++ data

def frames (pkts : List StmPacket) : List UInt8 :=
  pkts.flatMap StmPacket.frame

/-- The packets that came out are those that were given, where data may come in several
packets. -/
inductive Cut : List StmPacket → List StmPacket → Prop where
  | nil : Cut [] []
  | same {given got : List StmPacket} (pkt : StmPacket) (rest : Cut given got) :
      Cut (pkt :: given) (pkt :: got)
  | data {given got : List StmPacket} (pieces : List (List UInt8)) (rest : Cut given got) :
      Cut (⟨.data, some pieces.flatten⟩ :: given)
        (pieces.map (fun piece => ⟨.data, some piece⟩) ++ got)

/-- The packets come out as they were given, all of them once everything was sent and read;
then nothing is pending. Neither end fails. -/
structure UxState.Framed (state : UxState) : Prop where
  order : ∃ rest, Cut state.submitted (state.received ++ rest)
  whole : state.send.queue = [] → state.wire = [] → Cut state.submitted state.received
  pending : state.send.queue = [] → state.send.bytesPending = 0
  sound : state.faults = []

def StmPacket.Fits (pkt : StmPacket) : Prop :=
  match pkt.data with
  | none => pkt.token.isCommand = true
  | some data =>
    (pkt.token = .data ∨ pkt.token = .progress) ∧ 0 < data.length ∧
      data.length ≤ stmMaxBytesPerBuf

/-- What `m_dwBytesPending` counts. -/
def StmPacket.weight (pkt : StmPacket) : Nat :=
  match pkt.data with
  | none => 1
  | some data => 1 + 4 + data.length

def weights (pkts : List StmPacket) : Nat :=
  (pkts.map StmPacket.weight).sum

theorem Cut.refl (pkts : List StmPacket) : Cut pkts pkts := by
  induction pkts with
  | nil => exact .nil
  | cons pkt rest ih => exact .same pkt ih

@[simp] theorem frames_nil : frames [] = [] := rfl

@[simp] theorem frames_cons (pkt : StmPacket) (pkts : List StmPacket) :
    frames (pkt :: pkts) = pkt.frame ++ frames pkts := flatMap_cons

@[simp] theorem frames_append (pkts more : List StmPacket) :
    frames (pkts ++ more) = frames pkts ++ frames more := flatMap_append

theorem weights_cons (pkt : StmPacket) (pkts : List StmPacket) :
    weights (pkt :: pkts) = pkt.weight + weights pkts := sum_cons

theorem weights_append (pkts : List StmPacket) (pkt : StmPacket) :
    weights (pkts ++ [pkt]) = weights pkts + pkt.weight := by
  rw [weights, map_append, sum_append]
  rfl

theorem PktToken.toByte_injective {token other : PktToken} (same : token.toByte = other.toByte) :
    token = other := by
  have decoded := congrArg PktToken.ofByte same
  rw [PktToken.ofByte_toByte, PktToken.ofByte_toByte] at decoded
  exact Option.some.inj decoded

theorem sub32_add_mod (left right : Nat) : sub32 ((right + left) % 4294967296) right = left % 4294967296 := by
  rw [sub32, show 2 ^ 32 = 4294967296 from rfl]
  omega

theorem sub32_small {left right : Nat} (ordered : right ≤ left) (small : left ≤ stmMaxBytesPerBuf) :
    sub32 left right = left - right := by
  refine sub32_of_le ordered (Nat.lt_of_le_of_lt small ?_)
  decide

/-! ### The sending end -/

namespace SendQue

variable {que : SendQue} {bytes : List UInt8} {token : PktToken}

/-- The bytes that are still to be sent: in front of a packet, in its size, in its data. -/
inductive Owes : SendQue → List UInt8 → Prop where
  | between {rest : Nat} {queue : List StmPacket}
      (loaded : rest = 0 ∨ ∃ pkt tail, queue = pkt :: tail ∧ rest = pkt.size) :
      Owes ⟨0, noOffset, weights queue % 4294967296, rest, 0, queue⟩ (frames queue)
  | size {token : PktToken} {data : List UInt8} {tail : List StmPacket} {offset : Nat}
      (early : offset < 4) :
      Owes ⟨0, offset, weights (⟨token, some data⟩ :: tail) % 4294967296, data.length, 0,
          ⟨token, some data⟩ :: tail⟩
        ((toBE 4 data.length).drop offset ++ (data ++ frames tail))
  | payload {token : PktToken} {data : List UInt8} {tail : List StmPacket} {offset : Nat}
      (early : offset < data.length) :
      Owes ⟨data.length - offset, offset, weights (⟨token, some data⟩ :: tail) % 4294967296,
          data.length, 0, ⟨token, some data⟩ :: tail⟩
        (data.drop offset ++ frames tail)

theorem owes_new : new.Owes [] := by
  have start : Owes ⟨0, noOffset, weights [] % 4294967296, 0, 0, []⟩ (frames []) := .between (.inl rfl)
  exact start

theorem Owes.bytesPending (owes : que.Owes bytes) : que.bytesPending = weights que.queue % 4294967296 := by
  cases owes <;> rfl

theorem Owes.done (owes : que.Owes bytes) (empty : que.queue = []) : bytes = [] := by
  cases owes with
  | between loaded =>
    cases empty
    rfl
  | size | payload => cases empty

theorem Owes.push (owes : que.Owes bytes) (pkt : StmPacket) :
    ({ que with
        queue := que.queue ++ [pkt]
        bytesPending := (que.bytesPending + pkt.weight) % 4294967296 } : SendQue).Owes
      (bytes ++ pkt.frame) := by
  have one : frames [pkt] = pkt.frame := by simp
  have count (queue : List StmPacket) :
      (weights queue % 4294967296 + pkt.weight) % 4294967296 = weights (queue ++ [pkt]) % 4294967296 := by
    rw [weights_append, Nat.mod_add_mod]
  cases owes with
  | between loaded =>
    rw [count, ← one, ← frames_append]
    refine .between ?_
    rcases loaded with zero | ⟨head, tail, queue, rest⟩
    · exact .inl zero
    · exact .inr ⟨head, tail ++ [pkt], by rw [queue, cons_append], rest⟩
  | size early =>
    rw [count, append_assoc, append_assoc, ← one, ← frames_append]
    exact .size early
  | payload early =>
    rw [count, append_assoc, ← one, ← frames_append]
    exact .payload early

def Goes (ret : Option Int) : Prop :=
  ret = none ∨ ret = some statusSuccess ∨ ret = some eAgain ∨ ret = some eNoEnt

/-- What one `send` takes of the bytes is not owed any more. -/
def Sends (que : SendQue) (bytes : List UInt8) (took : Nat) : Prop :=
  ∃ sent next ret rest, que.next took = (sent, next, ret) ∧ bytes = sent ++ rest ∧ next.Owes rest ∧
    (∀ pkt ∈ next.queue, pkt ∈ que.queue) ∧ Goes ret

theorem next_between {rest : Nat} {queue : List StmPacket}
    (loaded : rest = 0 ∨ ∃ pkt tail, queue = pkt :: tail ∧ rest = pkt.size)
    (fits : ∀ pkt ∈ queue, pkt.Fits) (took : Nat) :
    Sends ⟨0, noOffset, weights queue % 4294967296, rest, 0, queue⟩ (frames queue) took := by
  cases queue with
  | nil => exact ⟨[], _, _, _, rfl, rfl, .between loaded, fun _ => id, .inr (.inr (.inr rfl))⟩
  | cons pkt tail =>
    have load : (if rest = 0 then (⟨0, noOffset, weights (pkt :: tail) % 4294967296, pkt.size, 0, pkt :: tail⟩ :
        SendQue) else ⟨0, noOffset, weights (pkt :: tail) % 4294967296, rest, 0, pkt :: tail⟩) =
        ⟨0, noOffset, weights (pkt :: tail) % 4294967296, pkt.size, 0, pkt :: tail⟩ := by
      rcases loaded with zero | ⟨head, _, same, rest⟩
      · rw [if_pos zero]
      · cases same
        rw [rest, ite_self]
    have fit := fits pkt mem_cons_self
    rw [Sends, next]
    simp only
    rw [load, show sendState ⟨0, noOffset, weights (pkt :: tail) % 4294967296, pkt.size, 0,
      pkt :: tail⟩ = .tok from rfl]
    simp only
    by_cases again : took = 0
    · rw [if_pos again]
      exact ⟨[], _, _, _, rfl, rfl, .between (.inr ⟨pkt, tail, rfl, rfl⟩), fun _ => id, .inr (.inr (.inl rfl))⟩
    · rw [if_neg again]
      obtain ⟨token, data⟩ := pkt
      cases data with
      | none =>
        have command : token.isCommand = true := fit
        rw [if_pos command]
        have count : sub32 (weights (⟨token, none⟩ :: tail) % 4294967296) 1 = weights tail % 4294967296 := by
          rw [weights_cons]
          exact sub32_add_mod _ 1
        refine ⟨[token.toByte], _, _, frames tail, rfl, rfl, ?_, fun _ => mem_cons_of_mem _, .inr (.inl rfl)⟩
        rw [count]
        exact .between (.inl rfl)
      | some data =>
        obtain ⟨kind, _, small⟩ := fit
        have noCommand : ¬ token.isCommand = true := by
          rcases kind with rfl | rfl <;> decide
        have carries : ¬ (token ≠ .data ∧ token ≠ .progress) := by
          rintro ⟨notData, notProgress⟩
          exact kind.elim notData notProgress
        have within : ¬ (token ≠ .data ∧ stmMaxBytesPerBuf < StmPacket.size ⟨token, some data⟩) :=
          fun both => Nat.not_lt.2 small both.2
        rw [if_neg noCommand, if_neg carries, if_neg within]
        exact ⟨[token.toByte], _, _, _, rfl, rfl, .size (by decide), fun _ => id, .inl rfl⟩

theorem next_size {data : List UInt8} {tail : List StmPacket} {offset : Nat}
    (early : offset < 4) (fit : StmPacket.Fits ⟨token, some data⟩) (took : Nat) :
    Sends ⟨0, offset, weights (⟨token, some data⟩ :: tail) % 4294967296, data.length, 0,
        ⟨token, some data⟩ :: tail⟩
      ((toBE 4 data.length).drop offset ++ (data ++ frames tail)) took := by
  obtain ⟨_, filled, small⟩ := fit
  have size : pktSize ⟨0, offset, weights (⟨token, some data⟩ :: tail) % 4294967296, data.length, 0,
      ⟨token, some data⟩ :: tail⟩ = data.length := by
    rw [pktSize]
    simp only [Nat.mul_zero, Nat.zero_mod]
    rw [sub32_small (Nat.zero_le _) small, Nat.sub_zero, Nat.min_eq_left small]
  have state : sendState ⟨0, offset, weights (⟨token, some data⟩ :: tail) % 4294967296, data.length, 0,
      ⟨token, some data⟩ :: tail⟩ = .size := by
    have apart : offset ≠ noOffset := Nat.ne_of_lt (Nat.lt_trans early (by decide))
    rw [sendState, if_pos rfl, if_neg apart]
  rw [Sends, next]
  simp only
  rw [if_neg (Nat.ne_of_gt filled), state]
  simp only
  rw [size]
  by_cases again : took = 0
  · rw [if_pos again]
    exact ⟨[], _, _, _, rfl, rfl, .size early, fun _ => id, .inr (.inr (.inl rfl))⟩
  · rw [if_neg again]
    have length : ((toBE 4 data.length).drop offset).length = 4 - offset := by
      rw [length_drop, length_toBE]
    by_cases all : min took (4 - offset) = 4 - offset
    · rw [if_pos all, all]
      refine ⟨_, _, _, data ++ frames tail, rfl, ?_, ?_, fun _ => id, .inl rfl⟩
      · rw [take_of_length_le (Nat.le_of_eq length)]
      · exact .payload filled
    · rw [if_neg all]
      refine ⟨_, _, _, (toBE 4 data.length).drop (offset + min took (4 - offset)) ++ (data ++ frames tail), rfl,
        ?_, .size ?_, fun _ => id, .inl rfl⟩
      · rw [← append_assoc (List.take _ _), ← drop_drop, take_append_drop]
      · omega

theorem next_payload {data : List UInt8} {tail : List StmPacket} {offset : Nat}
    (early : offset < data.length) (fit : StmPacket.Fits ⟨token, some data⟩) (took : Nat) :
    Sends ⟨data.length - offset, offset, weights (⟨token, some data⟩ :: tail) % 4294967296,
        data.length, 0, ⟨token, some data⟩ :: tail⟩
      (data.drop offset ++ frames tail) took := by
  obtain ⟨_, filled, small⟩ := fit
  have bounded : data.length < 4294967296 := Nat.lt_of_le_of_lt small (by decide)
  have size (left at_ : Nat) : pktSize ⟨left, at_, weights (⟨token, some data⟩ :: tail) % 4294967296,
      data.length, 0, ⟨token, some data⟩ :: tail⟩ = data.length := by
    rw [pktSize]
    simp only [Nat.mul_zero, Nat.zero_mod]
    rw [sub32_small (Nat.zero_le _) small, Nat.sub_zero, Nat.min_eq_left small]
  have state : sendState ⟨data.length - offset, offset,
      weights (⟨token, some data⟩ :: tail) % 4294967296, data.length, 0,
      ⟨token, some data⟩ :: tail⟩ = .payload := by
    rw [sendState, if_neg (Nat.sub_ne_zero_of_lt early)]
  have left : sub32 data.length offset = data.length - offset := sub32_small (Nat.le_of_lt early) small
  rw [Sends, next]
  simp only
  rw [if_neg (Nat.ne_of_gt filled), state]
  simp only
  rw [size, left, if_neg (Nat.lt_irrefl _)]
  by_cases again : took = 0
  · rw [if_pos again]
    exact ⟨[], _, _, _, rfl, rfl, .payload early, fun _ => id, .inr (.inr (.inl rfl))⟩
  · rw [if_neg again, Nat.zero_mul, Nat.zero_add]
    have length : (data.drop offset).length = data.length - offset := length_drop
    by_cases all : min took (data.length - offset) = data.length - offset
    · rw [if_pos all, all, sub32_small (Nat.le_refl _) small, Nat.sub_self, if_neg (Nat.lt_irrefl 0)]
      refine ⟨_, _, _, frames tail, rfl, ?_, ?_, fun _ => mem_cons_of_mem _, .inr (.inl rfl)⟩
      · rw [takeD_eq_take _ (Nat.le_of_eq length.symm), take_of_length_le (Nat.le_of_eq length)]
      · have count : sub32 (weights (⟨token, some data⟩ :: tail) % 4294967296) (1 + 4 + data.length) =
            weights tail % 4294967296 := by
          rw [weights_cons]
          exact sub32_add_mod _ _
        rw [count]
        exact .between (.inl rfl)
    · rw [if_neg all]
      refine ⟨_, _, _, data.drop (offset + min took (data.length - offset)) ++ frames tail, rfl, ?_, ?_,
        fun _ => id, .inl rfl⟩
      · have within : min took (data.length - offset) ≤ (data.drop offset).length := by omega
        rw [takeD_eq_take _ within, ← append_assoc (List.take _ _), ← drop_drop, take_append_drop]
      · rw [Nat.sub_sub]
        exact .payload (by omega)

theorem next_spec (owes : que.Owes bytes)
    (fits : ∀ pkt ∈ que.queue, pkt.Fits) (took : Nat) : que.Sends bytes took := by
  cases owes with
  | between loaded => exact next_between loaded fits took
  | size early => exact next_size early (fits _ mem_cons_self) took
  | payload early => exact next_payload early (fits _ mem_cons_self) took

def Sent (bytes : List UInt8) (pkts : List StmPacket) (call : List UInt8 × SendQue × Int) : Prop :=
  ∃ rest, bytes = call.1 ++ rest ∧ call.2.1.Owes rest ∧ (∀ pkt ∈ call.2.1.queue, pkt ∈ pkts) ∧
    (isError call.2.2 = false ∨ call.2.2 = eAgain ∨ call.2.2 = eNoEnt)

theorem onIoReady_spec (owes : que.Owes bytes)
    (fits : ∀ pkt ∈ que.queue, pkt.Fits) (answers : List Nat) :
    Sent bytes que.queue (que.onIoReady answers) := by
  induction answers generalizing que bytes with
  | nil =>
    obtain ⟨sent, next, ret, rest, done, split, owes, kept, goes⟩ := next_spec owes fits 0
    rw [onIoReady, done]
    refine ⟨rest, split, owes, kept, ?_⟩
    rcases goes with rfl | rfl | rfl | rfl
    · exact .inr (.inl rfl)
    · exact .inl rfl
    · exact .inr (.inl rfl)
    · exact .inr (.inr rfl)
  | cons took answers ih =>
    obtain ⟨sent, next, ret, rest, done, split, owes, kept, goes⟩ := next_spec owes fits took
    rw [onIoReady, done]
    rcases goes with rfl | rfl | rfl | rfl
    · obtain ⟨later, more, owes, still, ends⟩ :=
        ih owes fun pkt member => fits pkt (kept pkt member)
      refine ⟨later, ?_, owes, fun pkt member => kept pkt (still pkt member), ends⟩
      rw [split, more, append_assoc]
    · exact ⟨rest, split, owes, kept, .inl rfl⟩
    · exact ⟨rest, split, owes, kept, .inr (.inl rfl)⟩
    · exact ⟨rest, split, owes, kept, .inr (.inr rfl)⟩

theorem start_spec (owes : que.Owes bytes)
    (fits : ∀ pkt ∈ que.queue, pkt.Fits) (answers : List Nat) :
    Sent bytes que.queue (que.start answers) := by
  obtain ⟨rest, split, owes, kept, ends⟩ := onIoReady_spec owes fits answers
  refine ⟨rest, split, owes, kept, ?_⟩
  rw [start]
  simp only
  split
  · exact .inl rfl
  · exact ends

theorem sendCommand_spec (owes : que.Owes bytes)
    (fits : ∀ pkt ∈ que.queue, pkt.Fits) (command : token.isCommand = true)
    (answers : List Nat) :
    Sent (bytes ++ StmPacket.frame ⟨token, none⟩) (que.queue ++ [⟨token, none⟩])
      (que.sendCommand token answers) := by
  refine start_spec (owes.push ⟨token, none⟩) (fun pkt member => ?_) answers
  rcases mem_append.1 member with before | last
  · exact fits pkt before
  · rw [mem_singleton.1 last]
    exact command

theorem writeStream_spec (owes : que.Owes bytes)
    (fits : ∀ pkt ∈ que.queue, pkt.Fits) {data : List UInt8}
    (fit : StmPacket.Fits ⟨token, some data⟩) (answers : List Nat) :
    Sent (bytes ++ StmPacket.frame ⟨token, some data⟩) (que.queue ++ [⟨token, some data⟩])
      (que.writeStream data token answers) := by
  have pushed := owes.push ⟨token, some data⟩
  rw [writeStream]
  simp only
  split
  · exact ⟨_, rfl, pushed, fun _ => id, .inl rfl⟩
  · refine start_spec pushed (fun pkt member => ?_) answers
    rcases mem_append.1 member with before | last
    · exact fits pkt before
    · rw [mem_singleton.1 last]
      exact fit

end SendQue

/-! ### The receiving end -/

namespace RecvFilter

variable {todo : List StmPacket} {wire more : List UInt8}
variable {token : PktToken} {filter : RecvFilter} {part : List UInt8}

/-- The bytes of a packet that were read so far: none, or the token and a part of its size,
or a part of its data. -/
inductive Holds : RecvFilter → List UInt8 → Prop where
  | idle {token : Option PktToken} : Holds ⟨0, noOffset, 0, token, []⟩ []
  | size {token : PktToken} {got : List UInt8} (kind : token = .data ∨ token = .progress)
      (early : got.length < 4) :
      Holds ⟨0, got.length, 0, some token, [got ++ List.replicate (4 - got.length) 0]⟩
        (token.toByte :: got)
  | data {token : PktToken} {got : List UInt8} {size : Nat} (kind : token = .data ∨ token = .progress)
      (early : got.length < size) (small : size ≤ stmMaxBytesPerBuf) :
      Holds ⟨size - got.length, got.length, 0, some token,
          [got ++ List.replicate (size - got.length) 0]⟩
        (token.toByte :: (toBE 4 size ++ got))

theorem exists_split {bytes : List UInt8} {count : Nat} (within : count ≤ bytes.length) :
    ∃ front rest, bytes = front ++ rest ∧ front.length = count :=
  ⟨bytes.take count, bytes.drop count, (take_append_drop count bytes).symm, length_take_of_le within⟩

theorem fill_replicate (got bytes : List UInt8) (size : Nat) :
    fill (got ++ List.replicate (size - got.length) 0) bytes got.length =
      (got ++ bytes) ++ List.replicate (size - (got ++ bytes).length) 0 := by
  have rest : size - got.length - bytes.length = size - (got ++ bytes).length := by
    rw [length_append]
    omega
  rw [fill, take_left, ← drop_drop, drop_left, drop_replicate, rest]

theorem front_of_holds (fits : ∀ pkt ∈ todo, pkt.Fits)
    (kind : token = .data ∨ token = .progress) {bytes : List UInt8}
    (agree : token.toByte :: bytes = frames todo) :
    ∃ data rest, todo = ⟨token, some data⟩ :: rest ∧ StmPacket.Fits ⟨token, some data⟩ ∧
      bytes = toBE 4 data.length ++ (data ++ frames rest) := by
  cases todo with
  | nil => cases agree
  | cons pkt rest =>
    obtain ⟨other, data⟩ := pkt
    have fit := fits _ mem_cons_self
    rw [frames_cons, StmPacket.frame, cons_append, List.cons.injEq] at agree
    obtain ⟨first, later⟩ := agree
    obtain rfl := PktToken.toByte_injective first
    cases data with
    | none =>
      have command : token.isCommand = true := fit
      rcases kind with rfl | rfl <;> cases command
    | some data => exact ⟨data, rest, rfl, fit, by rw [later, append_assoc]⟩

/-- What one `read` leads to: the bytes stay in order, or a packet is whole. -/
def Reads (filter : RecvFilter) (part wire more : List UInt8) (todo : List StmPacket)
    (gives : Nat) : Prop :=
  ∃ left after ret, filter.next wire gives = (left, after, ret) ∧
    (((ret = none ∨ ret = some (.error eAgain)) ∧
        ∃ held, after.Holds held ∧ held ++ left = part ++ wire) ∨
      ∃ pkt rest final, ret = some (.ok pkt.token) ∧ todo = pkt :: rest ∧ left ++ more = frames rest ∧
        after.deliver pkt.token = (.ok pkt, final) ∧ final.Holds [])

theorem next_idle {token : Option PktToken}
    (fits : ∀ pkt ∈ todo, pkt.Fits) (agree : wire ++ more = frames todo) (gives : Nat) :
    Reads ⟨0, noOffset, 0, token, []⟩ [] wire more todo gives := by
  have state : recvState ⟨0, noOffset, 0, token, []⟩ = .tok := rfl
  rw [Reads, next.eq_def, state]
  cases wire with
  | nil => exact ⟨_, _, _, rfl, .inl ⟨.inr rfl, [], .idle, rfl⟩⟩
  | cons byte wire =>
    simp only
    by_cases again : gives = 0
    · rw [if_pos again]
      exact ⟨_, _, _, rfl, .inl ⟨.inr rfl, [], .idle, rfl⟩⟩
    · rw [if_neg again]
      cases todo with
      | nil => cases agree
      | cons pkt rest =>
        have fit := fits pkt mem_cons_self
        obtain ⟨other, data⟩ := pkt
        rw [frames_cons, StmPacket.frame, cons_append, cons_append, List.cons.injEq] at agree
        obtain ⟨rfl, later⟩ := agree
        rw [PktToken.ofByte_toByte]
        simp only
        cases data with
        | none =>
          have command : other.isCommand = true := fit
          have plain : ¬ (other = .data ∨ other = .progress) := by
            rintro (rfl | rfl) <;> cases command
          rw [if_pos command]
          refine ⟨_, _, _, rfl, .inr ⟨⟨other, none⟩, rest, ⟨0, noOffset, 0, some other, []⟩, rfl, rfl,
            later, ?_, .idle⟩⟩
          rw [deliver, if_neg plain]
        | some data =>
          obtain ⟨kind, _, _⟩ := fit
          have noCommand : ¬ other.isCommand = true := by
            rcases kind with rfl | rfl <;> decide
          have carries : ¬ (other ≠ .data ∧ other ≠ .progress) := by
            rintro ⟨notData, notProgress⟩
            exact kind.elim notData notProgress
          rw [if_neg noCommand, if_neg carries]
          have none : ([] : List UInt8).length < 4 := by decide
          exact ⟨_, _, _, rfl, .inl ⟨.inl rfl, _, .size kind none, rfl⟩⟩

theorem next_size {got : List UInt8}
    (kind : token = .data ∨ token = .progress) (early : got.length < 4)
    (fits : ∀ pkt ∈ todo, pkt.Fits) (agree : token.toByte :: got ++ wire ++ more = frames todo)
    (gives : Nat) :
    Reads ⟨0, got.length, 0, some token, [got ++ List.replicate (4 - got.length) 0]⟩
      (token.toByte :: got) wire more todo gives := by
  have state : recvState ⟨0, got.length, 0, some token,
      [got ++ List.replicate (4 - got.length) 0]⟩ = .size := by
    have apart : got.length ≠ noOffset := Nat.ne_of_lt (Nat.lt_trans early (by decide))
    rw [recvState, if_pos rfl, if_neg apart]
  rw [Reads, next.eq_def, state]
  simp only [List.getLast?_singleton, dropLast_singleton, nil_append]
  generalize counted : min gives (min (4 - got.length) wire.length) = count
  obtain ⟨chunk, left, rfl, taken⟩ := exists_split (show count ≤ wire.length by omega)
  have within : count ≤ 4 - got.length := by omega
  rw [take_left' taken, drop_left' taken]
  by_cases again : count = 0
  · rw [if_pos again]
    exact ⟨_, _, _, rfl, .inl ⟨.inr rfl, _, .size kind early, rfl⟩⟩
  · rw [if_neg again, fill_replicate]
    have joined : (got ++ chunk).length = got.length + count := by rw [length_append, taken]
    by_cases all : count = 4 - got.length
    · rw [if_pos all]
      have length : (got ++ chunk).length = 4 := by omega
      rw [length, Nat.sub_self, replicate_zero, append_nil]
      obtain ⟨data, rest, rfl, fit, bytes⟩ := front_of_holds fits kind agree
      have bytes : (got ++ chunk) ++ (left ++ more) = toBE 4 data.length ++ (data ++ frames rest) := by
        rw [← bytes]
        simp
      obtain ⟨front, _⟩ := append_inj bytes (by rw [length, length_toBE])
      obtain ⟨_, filled, small⟩ := fit
      have bounded : data.length < 256 ^ 4 := Nat.lt_of_le_of_lt small (by decide)
      have sound : ¬ (stmMaxBytesPerBuf < data.length ∨ data.length = 0) := by omega
      rw [front, ofBE_toBE_of_lt bounded, if_neg sound]
      have begun := @Holds.data token [] data.length kind filled small
      refine ⟨_, _, _, rfl, .inl ⟨.inl rfl, _, begun, ?_⟩⟩
      rw [append_nil, ← front]
      simp
    · rw [if_neg all, ← joined]
      refine ⟨_, _, _, rfl, .inl ⟨.inl rfl, _, .size kind (by omega), ?_⟩⟩
      simp

theorem next_data {got : List UInt8} {size : Nat}
    (kind : token = .data ∨ token = .progress) (early : got.length < size)
    (small : size ≤ stmMaxBytesPerBuf) (fits : ∀ pkt ∈ todo, pkt.Fits)
    (agree : token.toByte :: (toBE 4 size ++ got) ++ wire ++ more = frames todo) (gives : Nat) :
    Reads ⟨size - got.length, got.length, 0, some token, [got ++ List.replicate (size - got.length) 0]⟩
      (token.toByte :: (toBE 4 size ++ got)) wire more todo gives := by
  have state : recvState ⟨size - got.length, got.length, 0, some token,
      [got ++ List.replicate (size - got.length) 0]⟩ = .data := by
    rw [recvState, if_neg (Nat.sub_ne_zero_of_lt early)]
  have whole : (got ++ List.replicate (size - got.length) (0 : UInt8)).length = size := by
    rw [length_append, length_replicate]
    omega
  have rest : sub32 size got.length = size - got.length := sub32_small (Nat.le_of_lt early) small
  rw [Reads, next.eq_def, state]
  simp only [List.getLast?_singleton, dropLast_singleton, nil_append]
  rw [whole, rest, if_neg (Nat.lt_irrefl _)]
  generalize counted : min gives (min (size - got.length) wire.length) = count
  obtain ⟨chunk, left, rfl, taken⟩ := exists_split (show count ≤ wire.length by omega)
  have within : count ≤ size - got.length := by omega
  rw [take_left' taken, drop_left' taken]
  by_cases again : count = 0
  · rw [if_pos again]
    exact ⟨_, _, _, rfl, .inl ⟨.inr rfl, _, .data kind early small, rfl⟩⟩
  · rw [if_neg again, fill_replicate]
    have joined : (got ++ chunk).length = got.length + count := by rw [length_append, taken]
    by_cases all : count = size - got.length
    · rw [if_pos all]
      have length : (got ++ chunk).length = size := by omega
      rw [length, Nat.sub_self, replicate_zero, append_nil]
      obtain ⟨data, later, rfl, fit, bytes⟩ := front_of_holds fits kind agree
      have bytes : toBE 4 size ++ ((got ++ chunk) ++ (left ++ more)) =
          toBE 4 data.length ++ (data ++ frames later) := by
        rw [← bytes]
        simp
      obtain ⟨_, filled, bound⟩ := fit
      obtain ⟨sizes, bytes⟩ := append_inj bytes (by rw [length_toBE, length_toBE])
      have same : size = data.length := by
        have decoded := congrArg ofBE sizes
        rw [ofBE_toBE_of_lt (Nat.lt_of_le_of_lt small (by decide)),
          ofBE_toBE_of_lt (Nat.lt_of_le_of_lt bound (by decide))] at decoded
        exact decoded
      obtain ⟨front, ends⟩ := append_inj bytes (length.trans same)
      rw [front]
      refine ⟨_, _, _, rfl, .inr ⟨⟨token, some data⟩, later, ⟨0, noOffset, 0, none, []⟩, rfl, rfl, ends, ?_,
        .idle⟩⟩
      have idle : recvState ⟨0, noOffset, (0 + size) % 4294967296, none, [data]⟩ = .tok := rfl
      have zero : sub32 (size % 4294967296) data.length = 0 := by
        rw [← same]
        exact sub32_add_mod 0 size
      rw [deliver, if_pos kind, readStream, idle]
      simp [zero]
    · rw [if_neg all, ← joined, Nat.sub_sub, ← taken, ← length_append]
      refine ⟨_, _, _, rfl, .inl ⟨.inl rfl, _, .data kind (by omega) small, ?_⟩⟩
      simp

theorem next_spec
    (holds : filter.Holds part) (fits : ∀ pkt ∈ todo, pkt.Fits)
    (agree : part ++ wire ++ more = frames todo) (gives : Nat) :
    Reads filter part wire more todo gives := by
  cases holds with
  | idle => exact next_idle fits agree gives
  | size kind early => exact next_size kind early fits agree gives
  | data kind early small => exact next_data kind early small fits agree gives

/-- A call of the receiving end: the bytes stay in order, or a packet comes out. -/
def Got (part wire more : List UInt8) (todo : List StmPacket)
    (call : List UInt8 × RecvFilter × Except Int PktToken) : Prop :=
  (call.2.2 = .error eAgain ∧ ∃ held, call.2.1.Holds held ∧ held ++ call.1 = part ++ wire) ∨
    ∃ pkt rest final, call.2.2 = .ok pkt.token ∧ todo = pkt :: rest ∧ call.1 ++ more = frames rest ∧
      call.2.1.deliver pkt.token = (.ok pkt, final) ∧ final.Holds []

theorem onIoReady_spec
    (holds : filter.Holds part) (fits : ∀ pkt ∈ todo, pkt.Fits)
    (agree : part ++ wire ++ more = frames todo) (answers : List Nat) :
    Got part wire more todo (filter.onIoReady wire answers) := by
  induction answers generalizing filter part wire with
  | nil =>
    obtain ⟨left, after, ret, done, goes | whole⟩ := next_spec holds fits agree 0
    · obtain ⟨rfl | rfl, held⟩ := goes
      · rw [onIoReady, done]
        exact .inl ⟨rfl, held⟩
      · rw [onIoReady, done]
        exact .inl ⟨rfl, held⟩
    · obtain ⟨pkt, rest, final, rfl, front, later, delivered, idle⟩ := whole
      rw [onIoReady, done]
      exact .inr ⟨pkt, rest, final, rfl, front, later, delivered, idle⟩
  | cons gives answers ih =>
    obtain ⟨left, after, ret, done, goes | whole⟩ := next_spec holds fits agree gives
    · obtain ⟨rfl | rfl, held, holds, same⟩ := goes
      · have onward := ih holds (same ▸ agree)
        rw [onIoReady, done]
        rw [Got, same] at onward
        exact onward
      · rw [onIoReady, done]
        exact .inl ⟨rfl, held, holds, same⟩
    · obtain ⟨pkt, rest, final, rfl, front, later, delivered, idle⟩ := whole
      rw [onIoReady, done]
      exact .inr ⟨pkt, rest, final, rfl, front, later, delivered, idle⟩

theorem Holds.nil_of_frames
    (holds : filter.Holds part) (fits : ∀ pkt ∈ todo, pkt.Fits) (agree : part = frames todo) :
    todo = [] := by
  cases holds with
  | idle =>
    cases todo with
    | nil => rfl
    | cons pkt rest => cases agree
  | size kind early =>
    obtain ⟨data, rest, rfl, _, bytes⟩ := front_of_holds fits kind agree
    have length := congrArg List.length bytes
    rw [length_append, length_toBE] at length
    omega
  | data kind early small =>
    obtain ⟨data, rest, rfl, fit, bytes⟩ := front_of_holds fits kind agree
    obtain ⟨_, _, bound⟩ := fit
    obtain ⟨sizes, bytes⟩ := append_inj bytes (by rw [length_toBE, length_toBE])
    have decoded := congrArg ofBE sizes
    rw [ofBE_toBE_of_lt (Nat.lt_of_le_of_lt small (by decide)),
      ofBE_toBE_of_lt (Nat.lt_of_le_of_lt bound (by decide))] at decoded
    have length := congrArg List.length bytes
    rw [length_append] at length
    omega

end RecvFilter

namespace UxState

/-- What was given and did not come out yet is held by the receiving end, on its way, or owed
by the sending end. -/
structure Inv (state : UxState) (part owed : List UInt8) (todo : List StmPacket) : Prop where
  owes : state.send.Owes owed
  holds : state.recv.Holds part
  split : state.submitted = state.received ++ todo
  agree : part ++ state.wire ++ owed = frames todo
  fits : ∀ pkt ∈ state.submitted, pkt.Fits
  queued : ∀ pkt ∈ state.send.queue, pkt ∈ state.submitted
  sound : state.faults = []

namespace Inv

variable {state : UxState} {part owed : List UInt8} {todo : List StmPacket}

theorem framed (inv : state.Inv part owed todo) : state.Framed := by
  have fits : ∀ pkt ∈ todo, pkt.Fits := by
    intro pkt member
    refine inv.fits pkt ?_
    rw [inv.split]
    exact mem_append_right _ member
  refine ⟨⟨todo, ?_⟩, fun empty arrived => ?_, fun empty => ?_, inv.sound⟩
  · rw [inv.split]
    exact .refl _
  · have agree := inv.agree
    rw [inv.owes.done empty, arrived, append_nil, append_nil] at agree
    rw [inv.split, inv.holds.nil_of_frames fits agree, append_nil]
    exact .refl _
  · rw [inv.owes.bytesPending, empty]
    rfl

theorem sent (inv : state.Inv part owed todo) {pkts : List StmPacket}
    {call : List UInt8 × SendQue × Int} (fits : ∀ pkt ∈ pkts, pkt.Fits)
    (sent : SendQue.Sent (owed ++ frames pkts) (state.send.queue ++ pkts) call) :
    ∃ owed, (state.sent pkts call).Inv part owed (todo ++ pkts) := by
  obtain ⟨rest, split, owes, kept, ends⟩ := sent
  refine ⟨rest, owes, inv.holds, ?_, ?_, fun pkt member => ?_, fun pkt member => ?_, ?_⟩
  · show state.submitted ++ pkts = state.received ++ (todo ++ pkts)
    rw [inv.split, append_assoc]
  · show part ++ (state.wire ++ call.1) ++ rest = frames (todo ++ pkts)
    rw [frames_append, ← inv.agree, append_assoc, append_assoc, append_assoc, append_assoc, ← split]
  · rcases mem_append.1 member with before | new
    · exact inv.fits pkt before
    · exact fits pkt new
  · show pkt ∈ state.submitted ++ pkts
    rcases mem_append.1 (kept pkt member) with before | new
    · exact mem_append_left _ (inv.queued pkt before)
    · exact mem_append_right _ new
  · show (if isError call.2.2 ∧ call.2.2 ≠ eAgain ∧ call.2.2 ≠ eNoEnt then _ else _) = []
    rw [if_neg]
    · exact inv.sound
    · rintro ⟨error, notAgain, notEmpty⟩
      rcases ends with fine | again | empty
      · rw [fine] at error
        cases error
      · exact notAgain again
      · exact notEmpty empty

theorem got (inv : state.Inv part owed todo) {call : List UInt8 × RecvFilter × Except Int PktToken}
    (got : RecvFilter.Got part state.wire owed todo call) :
    ∃ part todo, (state.got call).Inv part owed todo := by
  obtain ⟨wire, after, ret⟩ := call
  rcases got with ⟨rfl, held, holds, same⟩ | ⟨pkt, rest, final, rfl, rfl, later, delivered, idle⟩
  · refine ⟨held, todo, inv.owes, holds, inv.split, ?_, inv.fits, inv.queued, ?_⟩
    · show held ++ wire ++ owed = frames todo
      rw [show held ++ wire = part ++ state.wire from same]
      exact inv.agree
    · exact inv.sound
  · have delivered : after.deliver pkt.token = (.ok pkt, final) := delivered
    have received : state.got (wire, after, .ok pkt.token) =
        { state with wire := wire, recv := final, received := state.received ++ [pkt] } := by
      rw [UxState.got, delivered]
    rw [received]
    refine ⟨[], rest, inv.owes, idle, ?_, later, inv.fits, inv.queued, inv.sound⟩
    show state.submitted = (state.received ++ [pkt]) ++ rest
    rw [inv.split, append_assoc]
    rfl

end Inv

end UxState

def UxMove.Fits : UxMove → Prop
  | .writeStream data _ _ => data.length ≤ stmMaxBytesPerBuf
  | _ => True

instance UxMove.decidableFits (move : UxMove) : Decidable move.Fits :=
  match move with
  | .writeStream data _ _ => inferInstanceAs (Decidable (data.length ≤ stmMaxBytesPerBuf))
  | .sendPingPong _ _ | .sendClose _ | .sendReady _ | .recvReady _ => isTrue trivial

namespace UxState

theorem Inv.step {state next : UxState} {part owed : List UInt8} {todo : List StmPacket}
    (inv : state.Inv part owed todo) {move : UxMove} (fits : move.Fits)
    (moved : state.step move = some next) : ∃ part owed todo, next.Inv part owed todo := by
  have queued : ∀ pkt ∈ state.send.queue, pkt.Fits := fun pkt member =>
    inv.fits pkt (inv.queued pkt member)
  have one (pkt : StmPacket) : frames [pkt] = pkt.frame := by simp
  have command {token : PktToken} (isCommand : token.isCommand = true) (answers : List Nat) :
      ∃ part owed todo, (state.sent [⟨token, none⟩] (state.send.sendCommand token answers)).Inv
        part owed todo := by
    have sent := SendQue.sendCommand_spec inv.owes queued isCommand answers
    rw [← one] at sent
    have fit : ∀ pkt ∈ [(⟨token, none⟩ : StmPacket)], pkt.Fits := by
      intro pkt member
      rw [mem_singleton.1 member]
      exact isCommand
    obtain ⟨owed, after⟩ := inv.sent fit sent
    exact ⟨_, _, _, after⟩
  cases move with
  | writeStream data progress answers =>
    obtain ⟨valid, ⟨⟩⟩ := Option.ite_none_right_eq_some.1 moved
    have fit : StmPacket.Fits ⟨if progress then .progress else .data, some data⟩ := by
      refine ⟨?_, valid.1, fits⟩
      cases progress
      · exact .inl rfl
      · exact .inr rfl
    have sent := SendQue.writeStream_spec inv.owes queued fit answers
    rw [← one] at sent
    obtain ⟨owed, after⟩ := inv.sent (fun pkt member => mem_singleton.1 member ▸ fit) sent
    exact ⟨_, _, _, after⟩
  | sendPingPong ping answers =>
    cases moved
    refine command ?_ answers
    cases ping <;> rfl
  | sendClose answers =>
    cases moved
    exact command rfl answers
  | sendReady answers =>
    cases moved
    have none : ∀ pkt ∈ ([] : List StmPacket), pkt.Fits := nofun
    have sent : SendQue.Sent (owed ++ frames []) (state.send.queue ++ []) (state.send.onIoReady answers) := by
      rw [frames_nil, append_nil, append_nil]
      exact SendQue.onIoReady_spec inv.owes queued answers
    obtain ⟨owed, after⟩ := inv.sent none sent
    exact ⟨_, _, _, after⟩
  | recvReady answers =>
    cases moved
    have pending : ∀ pkt ∈ todo, pkt.Fits := by
      intro pkt member
      refine inv.fits pkt ?_
      rw [inv.split]
      exact mem_append_right _ member
    obtain ⟨part, todo, after⟩ :=
      inv.got (RecvFilter.onIoReady_spec inv.holds pending inv.agree answers)
    exact ⟨_, _, _, after⟩

def Kept (state : UxState) : Prop :=
  ∃ part owed todo, state.Inv part owed todo

end UxState

/-- Both ends, in every run whose data fits into one buffer each. -/
theorem framed_of_oneBuffer {state : UxState}
    (reachable : (uxMachine.restrict fun _ move => move.Fits).Reachable state) : state.Framed := by
  have kept : state.Kept := by
    refine reachable.invariant ⟨[], [], [], SendQue.owes_new, .idle, rfl, rfl, nofun, nofun, rfl⟩ ?_
    intro before move after _ kept moved
    obtain ⟨fits, stepped⟩ := Machine.restrict_step.1 moved
    obtain ⟨part, owed, todo, inv⟩ := kept
    exact inv.step fits stepped
  obtain ⟨part, owed, todo, inv⟩ := kept
  exact inv.framed

def pingAndData : List UxMove :=
  [.sendPingPong true [1], .writeStream [1, 2, 3] false [1, 2, 2], .recvReady [1], .recvReady [1, 1, 9],
    .sendReady [2], .sendReady [1], .recvReady [5, 5], .recvReady [5]]

theorem framed_pingAndData : ∃ state,
    (uxMachine.restrict fun _ move => move.Fits).run uxMachine.start pingAndData = some state ∧
      state.received = [⟨.ping, none⟩, ⟨.data, some [1, 2, 3]⟩] ∧ state.Framed := by
  have ran : (uxMachine.restrict fun _ move => move.Fits).run uxMachine.start pingAndData =
      some ⟨.new, [], .new, [⟨.ping, none⟩, ⟨.data, some [1, 2, 3]⟩],
        [⟨.ping, none⟩, ⟨.data, some [1, 2, 3]⟩], []⟩ := by
    decide +kernel
  exact ⟨_, ran, rfl, framed_of_oneBuffer (Machine.Reachable.start.run ran)⟩

section

attribute [-simp] List.takeD_succ

theorem twoBlocks_sent {data : List UInt8} (length : data.length = 129024) :
    SendQue.new.writeStream data .data [1, 4, 64512] =
      ([1, 0, 0, 252, 0] ++ data.takeD 64512 0,
        ⟨0, noOffset, 64512, 64512, 1, [⟨.data, some data⟩]⟩, statusPending) := by
  have size : StmPacket.size ⟨.data, some data⟩ = 129024 := length
  simp [-List.reduceReplicate, SendQue.writeStream, SendQue.start, SendQue.onIoReady, SendQue.next,
    SendQue.sendState, SendQue.pktSize, SendQue.new, sub32, noOffset, stmMaxBytesPerBuf, toBE,
    PktToken.isCommand, PktToken.toByte, size, length, statusPending]

theorem twoBlocks_size (data : List UInt8) :
    SendQue.onIoReady ⟨0, noOffset, 64512, 64512, 1, [⟨.data, some data⟩]⟩ [1, 4] =
      ([1, 0, 0, 0, 0], ⟨0, 0, 64512, 64512, 1, [⟨.data, some data⟩]⟩, eAgain) := by
  simp [SendQue.onIoReady, SendQue.next, SendQue.sendState, SendQue.pktSize, sub32, noOffset,
    stmMaxBytesPerBuf, toBE, PktToken.isCommand, PktToken.toByte]

theorem next_block {block : List UInt8} {size : Nat} (length : block.length = size)
    (filled : 0 < size)
    (small : size ≤ stmMaxBytesPerBuf) :
    RecvFilter.next ⟨size, 0, 0, some .data, [List.replicate size 0]⟩ block size =
      ([], ⟨0, noOffset, size, none, [block]⟩, some (.ok .data)) := by
  have narrow : size < 4294967296 := Nat.lt_of_le_of_lt small (by decide)
  have state : RecvFilter.recvState ⟨size, 0, 0, some .data, [List.replicate size 0]⟩ = .data := by
    rw [RecvFilter.recvState, if_neg (Nat.ne_of_gt filled)]
  have rest : sub32 size 0 = size := sub32_small (Nat.zero_le size) small
  have whole : RecvFilter.fill (List.replicate size 0) (block.take size) 0 = block := by
    rw [RecvFilter.fill, take_of_length_le (Nat.le_of_eq length), take_zero, nil_append,
      Nat.zero_add, drop_replicate, length, Nat.sub_self, replicate_zero, append_nil]
  rw [RecvFilter.next.eq_def, state]
  simp only [List.getLast?_singleton, dropLast_singleton, nil_append, length_replicate]
  rw [rest, length, Nat.min_self, Nat.min_self, if_neg (Nat.lt_irrefl size), if_neg (Nat.ne_of_gt filled),
    if_pos rfl, whole, Nat.zero_add, Nat.mod_eq_of_lt narrow, drop_of_length_le (Nat.le_of_eq length)]

theorem twoBlocks_got {block : List UInt8} (length : block.length = 64512) :
    RecvFilter.new.onIoReady ([1, 0, 0, 252, 0] ++ block) [1, 4, 64512] =
      ([], ⟨0, noOffset, 64512, none, [block]⟩, .ok .data) := by
  have token : RecvFilter.new.next (1 :: ([0, 0, 252, 0] ++ block)) 1 =
      ([0, 0, 252, 0] ++ block, ⟨0, 0, 0, some .data, [[0, 0, 0, 0]]⟩, none) := rfl
  have size : RecvFilter.next ⟨0, 0, 0, some .data, [[0, 0, 0, 0]]⟩ ([0, 0, 252, 0] ++ block) 4 =
      (block, ⟨64512, 0, 0, some .data, [List.replicate 64512 0]⟩, none) := by
    simp [-List.reduceReplicate, RecvFilter.next, RecvFilter.recvState, RecvFilter.fill, ofBE, noOffset,
      stmMaxBytesPerBuf]
  have filled : RecvFilter.onIoReady ⟨64512, 0, 0, some .data, [List.replicate 64512 0]⟩ block [64512] =
      ([], ⟨0, noOffset, 64512, none, [block]⟩, .ok .data) := by
    rw [RecvFilter.onIoReady.eq_def]
    simp only
    rw [next_block length (by decide) (by decide)]
  rw [cons_append, RecvFilter.onIoReady, token]
  simp only
  rw [RecvFilter.onIoReady, size]
  exact filled

theorem twoBlocks_refused (pending : Nat) :
    RecvFilter.onIoReady ⟨0, noOffset, pending, none, []⟩ [1, 0, 0, 0, 0] [1, 4] =
      ([], ⟨0, noOffset, pending, some .data, [[0, 0, 0, 0]]⟩, .error eBadMsg) := by
  simp [RecvFilter.onIoReady, RecvFilter.next, RecvFilter.recvState, RecvFilter.fail, noOffset,
    PktToken.ofByte, PktToken.isCommand, RecvFilter.fill, ofBE, stmMaxBytesPerBuf]

end

theorem twoBlocks_fault {data : List UInt8} (length : data.length = 129024) :
    ∃ state, uxMachine.Reachable state ∧ state.faults = [eBadMsg] := by
  have valid : 0 < data.length ∧
      data.length ≤ (if false = true then stmMaxBytesPerBuf else maxBytesPerTransfer) := by
    rw [length]
    decide
  obtain ⟨block, isBlock⟩ : ∃ block, data.takeD 64512 0 = block := ⟨_, rfl⟩
  have blockLength : block.length = 64512 := isBlock ▸ takeD_length _ _ _
  have written : uxMachine.step uxMachine.start (.writeStream data false [1, 4, 64512]) =
      some ⟨⟨0, noOffset, 64512, 64512, 1, [⟨.data, some data⟩]⟩, [1, 0, 0, 252, 0] ++ block, .new,
        [⟨.data, some data⟩], [], []⟩ := by
    rw [show uxMachine.step = UxState.step from rfl, UxState.step, if_pos valid]
    simp only [Bool.false_eq_true, if_false]
    rw [show uxMachine.start.send = .new from rfl, twoBlocks_sent length, isBlock]
    rfl
  have read : uxMachine.step ⟨⟨0, noOffset, 64512, 64512, 1, [⟨.data, some data⟩]⟩,
        [1, 0, 0, 252, 0] ++ block, .new, [⟨.data, some data⟩], [], []⟩
        (.recvReady [1, 4, 64512]) =
      some ⟨⟨0, noOffset, 64512, 64512, 1, [⟨.data, some data⟩]⟩, [],
        ⟨0, noOffset, sub32 64512 block.length, none, []⟩, [⟨.data, some data⟩],
        [⟨.data, some block⟩], []⟩ := by
    rw [show uxMachine.step = UxState.step from rfl, UxState.step, twoBlocks_got blockLength]
    rfl
  have sized : uxMachine.step ⟨⟨0, noOffset, 64512, 64512, 1, [⟨.data, some data⟩]⟩, [],
        ⟨0, noOffset, sub32 64512 block.length, none, []⟩, [⟨.data, some data⟩],
        [⟨.data, some block⟩], []⟩ (.sendReady [1, 4]) =
      some ⟨⟨0, 0, 64512, 64512, 1, [⟨.data, some data⟩]⟩, [1, 0, 0, 0, 0],
        ⟨0, noOffset, sub32 64512 block.length, none, []⟩, [⟨.data, some data⟩],
        [⟨.data, some block⟩], []⟩ := by
    rw [show uxMachine.step = UxState.step from rfl, UxState.step, twoBlocks_size]
    rfl
  have failed : uxMachine.step ⟨⟨0, 0, 64512, 64512, 1, [⟨.data, some data⟩]⟩, [1, 0, 0, 0, 0],
        ⟨0, noOffset, sub32 64512 block.length, none, []⟩, [⟨.data, some data⟩],
        [⟨.data, some block⟩], []⟩ (.recvReady [1, 4]) =
      some ⟨⟨0, 0, 64512, 64512, 1, [⟨.data, some data⟩]⟩, [],
        ⟨0, noOffset, sub32 64512 block.length, some .data, [[0, 0, 0, 0]]⟩, [⟨.data, some data⟩],
        [⟨.data, some block⟩], [eBadMsg]⟩ := by
    rw [show uxMachine.step = UxState.step from rfl, UxState.step, twoBlocks_refused]
    rfl
  exact ⟨_, (((Machine.Reachable.start.step written).step read).step sized).step failed, rfl⟩

/-- A block of `STM_MAX_BYTES_PER_BUF` and a second one behind it. -/
theorem twoBlocks_unframed : ¬ ∀ state, uxMachine.Reachable state → state.Framed := by
  intro all
  have length : (List.replicate 129024 (0 : UInt8)).length = 129024 := length_replicate
  obtain ⟨state, reachable, faults⟩ := twoBlocks_fault length
  have sound := (all state reachable).sound
  rw [faults] at sound
  cases sound

end RpcFrmwrk.Ipc
