import RpcFrmwrk.Fuse.EvtFile

/-! The bytes read from a file of `rpcfs` over whole runs. Owns `EvtFile.Whole`, whole messages in
order and a true count; what a read takes off a queue of messages. -/

namespace RpcFrmwrk.Fuse

open RpcFrmwrk.Library List

def frame (msg : List UInt8) : List UInt8 := toBE 4 msg.length ++ msg

namespace EvtFile

/-- The bytes of an opening are in front of whole messages that were received, in order and each at most
once; the count is that of the unread bytes, and nothing was taken from an empty queue. -/
structure Whole (file : EvtFile) : Prop where
  inOrder : ∃ msgs : List (List UInt8), msgs.Sublist file.received ∧ file.read <+: msgs.flatMap frame
  counted : file.bytesAvail = unreadBytes file.queIncoming
  intact : file.broken = false

def halfRead (file : EvtFile) : Bool := file.queIncoming.head?.any fun front => front.off != 0

/-- A message fits in a buffer and its arrival does not drop one that is read in part; no request in the queue
is cancelled; responses take the place of messages of their size only; and nothing is unread when
the file is closed. -/
def Fits (file : EvtFile) : EvtMove → Prop
  | .receive msg _ =>
    msg.length + 4 ≤ maxBytesPerBuffer ∧
      (file.halfRead = true → file.bytesAvail + (msg.length + 4) ≤ maxEvtQueBytes ∧
        file.queIncoming.length < maxEvtQueSize)
  | .cancelRequest reqId => reqId = 0 ∨ ∀ inBuf ∈ file.queIncoming, inBuf.reqId ≠ reqId
  | .cancelRequests resps =>
    resps = [] ∨ file.halfRead = false ∧ (∀ resp ∈ resps, resp.length + 4 ≤ maxBytesPerBuffer) ∧
      (resps.map fun resp => resp.length + 4).sum = file.bytesAvail
  | .release _ => file.bytesAvail = 0
  | _ => True

end EvtFile

/-! ### Queues of messages -/

theorem length_frame (msg : List UInt8) : (frame msg).length = msg.length + 4 := by
  rw [frame, length_append, length_toBE, Nat.add_comm]

theorem evtBuf_of_fits {msg : List UInt8} (fits : msg.length + 4 ≤ maxBytesPerBuffer) : evtBuf msg = frame msg := by
  have limit : maxBytesPerBuffer < 2 ^ 32 := by decide
  have small : msg.length % 2 ^ 32 = msg.length := Nat.mod_eq_of_lt (by omega)
  rw [evtBuf, small, frame]
  cases msg with
  | nil =>
    rw [append_nil]
    rfl
  | cons first rest =>
    have appended := @appendBuf_of_fits (toBE 4 (first :: rest).length) _ (cons_ne_nil first rest)
      (by rw [length_toBE]; omega)
    rw [appended, Option.getD_some]

/-- The queue holds the messages, of which only the first may be read in part. -/
structure Holds (que : List InBuf) (msgs : List (List UInt8)) : Prop where
  bufs : que.map InBuf.buf = msgs.map frame
  unread : ∀ inBuf ∈ que, inBuf.off < inBuf.buf.length
  fresh : ∀ inBuf ∈ que.tail, inBuf.off = 0

def partRead : List InBuf → List UInt8
  | [] => []
  | front :: _ => front.buf.take front.off

theorem unreadBytes_cons (front : InBuf) (rest : List InBuf) :
    unreadBytes (front :: rest) = front.unread + unreadBytes rest := rfl

theorem unreadBytes_append (left right : List InBuf) :
    unreadBytes (left ++ right) = unreadBytes left + unreadBytes right := by
  rw [unreadBytes, map_append, sum_append]
  rfl

section

variable {front : InBuf} {que rest : List InBuf} {msgs : List (List UInt8)}

theorem Holds.nil : Holds [] [] where
  bufs := rfl
  unread _ none := absurd none not_mem_nil
  fresh _ none := absurd none not_mem_nil

theorem Holds.cons (holds : Holds (front :: rest) msgs) : ∃ msg others, msgs = msg :: others ∧
    front.buf = frame msg ∧ Holds rest others ∧ ∀ inBuf ∈ rest, inBuf.off = 0 := by
  cases msgs with
  | nil => exact absurd holds.bufs (cons_ne_nil _ _)
  | cons msg others =>
    obtain ⟨isFrame, behind⟩ := List.cons.inj holds.bufs
    refine ⟨msg, others, rfl, isFrame, ⟨behind, ?_, ?_⟩, holds.fresh⟩
    · exact fun inBuf member => holds.unread inBuf (mem_cons_of_mem _ member)
    · exact fun inBuf member => holds.fresh inBuf (mem_of_mem_tail member)

theorem partRead_fresh (fresh : ∀ inBuf ∈ que, inBuf.off = 0) : partRead que = [] := by
  cases que with
  | nil => rfl
  | cons front rest =>
    rw [partRead, fresh front mem_cons_self]
    exact take_zero

theorem fillSlots_holds {reqSize : Nat} (holds : Holds que msgs) (positive : 0 < reqSize)
    (enough : reqSize ≤ unreadBytes que) :
    ∃ whole others, msgs = whole ++ others ∧ Holds (fillSlots reqSize que).2 others ∧
      partRead que ++ (fillSlots reqSize que).1 = whole.flatMap frame ++ partRead (fillSlots reqSize que).2 ∧
      unreadBytes (fillSlots reqSize que).2 = unreadBytes que - reqSize := by
  induction que generalizing reqSize msgs with
  | nil => exact absurd enough (Nat.not_le.2 positive)
  | cons front rest ih =>
    obtain ⟨msg, others, isMsgs, isFrame, behind, fresh⟩ := holds.cons
    have unread := holds.unread front mem_cons_self
    rw [unreadBytes_cons] at enough
    rw [fillSlots]
    by_cases short : front.unread < reqSize
    · have left : 0 < reqSize - front.unread := by omega
      obtain ⟨whole, later, isOthers, held, bytes, count⟩ := ih behind left (by omega)
      rw [if_pos short]
      refine ⟨msg :: whole, later, by rw [isMsgs, isOthers, cons_append], held, ?_, ?_⟩
      · rw [partRead_fresh fresh, nil_append] at bytes
        rw [partRead, ← append_assoc, take_append_drop, bytes, isFrame, flatMap_cons, append_assoc]
      · rw [count, unreadBytes_cons]
        omega
    · rw [if_neg short]
      have within : front.off + reqSize ≤ front.buf.length := by
        rw [InBuf.unread] at short
        omega
      have joined : front.buf.take front.off ++ (front.buf.drop front.off).take reqSize =
          front.buf.take (front.off + reqSize) := (take_add).symm
      by_cases whole : front.off + reqSize = front.buf.length
      · refine ⟨[msg], others, isMsgs, ?_, ?_, ?_⟩
        · simp only [if_pos whole]
          exact behind
        · simp only [if_pos whole]
          rw [partRead, joined, whole, take_length, isFrame, partRead_fresh fresh, append_nil]
          exact (append_nil _).symm
        · simp only [if_pos whole]
          rw [unreadBytes_cons, InBuf.unread]
          omega
      · refine ⟨[], msgs, rfl, ?_, ?_, ?_⟩
        · simp only [if_neg whole]
          refine ⟨?_, ?_, holds.fresh⟩
          · exact holds.bufs
          · intro inBuf member
            rcases mem_cons.1 member with same | other
            · rw [same]
              show front.off + reqSize < front.buf.length
              omega
            · exact behind.unread inBuf other
        · simp only [if_neg whole]
          exact joined
        · simp only [if_neg whole]
          rw [unreadBytes_cons, unreadBytes_cons, InBuf.unread, InBuf.unread]
          show front.buf.length - (front.off + reqSize) + _ = _
          omega

theorem unreadBytes_fresh (holds : Holds que msgs) (fresh : ∀ inBuf ∈ que, inBuf.off = 0) :
    unreadBytes que = (msgs.map fun msg => msg.length + 4).sum := by
  induction que generalizing msgs with
  | nil =>
    have none : msgs = [] := map_eq_nil_iff.1 holds.bufs.symm
    rw [none]
    rfl
  | cons front rest ih =>
    obtain ⟨msg, others, isMsgs, isFrame, behind, _⟩ := holds.cons
    have first : front.unread = msg.length + 4 := by
      rw [InBuf.unread, fresh front mem_cons_self, isFrame, length_frame, Nat.sub_zero]
    rw [unreadBytes_cons, ih behind (fun inBuf member => fresh inBuf (mem_cons_of_mem _ member)),
      isMsgs, map_cons, sum_cons, first]

theorem dropOverflow_fresh (holds : Holds que msgs) (fresh : ∀ inBuf ∈ que, inBuf.off = 0)
    (small : unreadBytes que < 2 ^ 32) :
    ∃ dropped kept left, msgs = dropped ++ kept ∧ dropOverflow que (unreadBytes que) = some (left, unreadBytes left) ∧
      Holds left kept ∧ (∀ inBuf ∈ left, inBuf.off = 0) ∧ unreadBytes left ≤ maxEvtQueBytes := by
  induction que generalizing msgs with
  | nil =>
    refine ⟨[], msgs, [], rfl, rfl, holds, fresh, Nat.zero_le _⟩
  | cons front rest ih =>
    obtain ⟨msg, others, isMsgs, _, behind, _⟩ := holds.cons
    rw [dropOverflow]
    split
    · have unread : front.unread = front.buf.length := by
        rw [InBuf.unread, fresh front mem_cons_self, Nat.sub_zero]
      rw [unreadBytes_cons] at small ⊢
      have dropped : sub32 (front.unread + unreadBytes rest) front.buf.length = unreadBytes rest := by
        rw [sub32_of_le (by omega) small]
        omega
      rw [dropped]
      obtain ⟨gone, kept, left, isOthers, drops⟩ := ih behind
        (fun inBuf member => fresh inBuf (mem_cons_of_mem _ member)) (by omega)
      exact ⟨msg :: gone, kept, left, by rw [isMsgs, isOthers, cons_append], drops⟩
    · next fits => exact ⟨[], msgs, front :: rest, rfl, rfl, holds, fresh, Nat.not_lt.1 fun many => fits (Or.inl many)⟩

theorem dropOverflow_fits {bytesAvail : Nat} (bytes : bytesAvail ≤ maxEvtQueBytes) (count : que.length ≤ maxEvtQueSize) :
    dropOverflow que bytesAvail = some (que, bytesAvail) := by
  cases que with
  | nil =>
    rw [dropOverflow]
    exact if_neg (Nat.not_lt.2 bytes)
  | cons front rest =>
    rw [dropOverflow]
    apply if_neg
    rintro (many | long)
    · exact Nat.not_lt.2 bytes many
    · exact Nat.not_lt.2 count long

theorem Holds.append (holds : Holds que msgs) {msg : List UInt8} (reqId : Nat) :
    Holds (que ++ [⟨frame msg, 0, reqId⟩]) (msgs ++ [msg]) where
  bufs := by
    rw [map_append, map_append, holds.bufs]
    rfl
  unread := by
    intro inBuf member
    rcases mem_append.1 member with old | new
    · exact holds.unread inBuf old
    · rw [mem_singleton.1 new, length_frame]
      exact Nat.succ_pos _
  fresh := by
    intro inBuf member
    cases que with
    | nil => exact absurd member not_mem_nil
    | cons front rest =>
      rcases mem_append.1 member with old | new
      · exact holds.fresh inBuf old
      · rw [mem_singleton.1 new]

theorem Holds.of_msgs (msgs : List (List UInt8)) : Holds (msgs.map fun msg => ⟨frame msg, 0, 0⟩) msgs where
  bufs := by rw [map_map, Function.comp_def]
  unread := by
    intro inBuf member
    obtain ⟨msg, _, same⟩ := mem_map.1 member
    rw [← same, length_frame]
    exact Nat.succ_pos _
  fresh := by
    intro inBuf member
    obtain ⟨msg, _, same⟩ := mem_map.1 (mem_of_mem_tail member)
    rw [← same]

end

namespace EvtFile

/-- The messages in `done` are read in this opening, those in `queued` are in the queue. -/
structure Inv (file : EvtFile) (done queued : List (List UInt8)) : Prop where
  holds : Holds file.queIncoming queued
  order : (done ++ queued).Sublist file.received
  isRead : file.read = done.flatMap frame ++ partRead file.queIncoming
  counted : file.bytesAvail = unreadBytes file.queIncoming
  small : file.bytesAvail ≤ maxEvtQueBytes
  intact : file.broken = false
  closed : file.opened = false → ∀ inBuf ∈ file.queIncoming, inBuf.off = 0

section

variable {file : EvtFile} {done queued : List (List UInt8)}

theorem Inv.start : evtFile.start.Inv [] [] where
  holds := .nil
  order := List.Sublist.refl _
  isRead := rfl
  counted := rfl
  small := Nat.zero_le _
  intact := rfl
  closed _ _ none := absurd none not_mem_nil

theorem Inv.whole (inv : file.Inv done queued) : file.Whole := by
  refine ⟨⟨done ++ queued, inv.order, ?_⟩, inv.counted, inv.intact⟩
  rw [inv.isRead, flatMap_append]
  apply (prefix_append_right_inj _).2
  cases isQueue : file.queIncoming with
  | nil => exact nil_prefix
  | cons front rest =>
    have holds := inv.holds
    rw [isQueue] at holds
    obtain ⟨msg, others, isQueued, isFrame, _⟩ := holds.cons
    rw [partRead, isQueued, flatMap_cons, isFrame]
    exact (List.take_prefix _ _).trans (prefix_append _ _)

theorem fresh_of_not_halfRead (holds : Holds file.queIncoming queued) (notHalf : file.halfRead = false) :
    ∀ inBuf ∈ file.queIncoming, inBuf.off = 0 := by
  intro inBuf member
  have fresh := holds.fresh
  rw [halfRead] at notHalf
  cases isQueue : file.queIncoming with
  | nil =>
    rw [isQueue] at member
    exact absurd member not_mem_nil
  | cons front rest =>
    rw [isQueue] at member fresh notHalf
    rcases mem_cons.1 member with same | other
    · rw [same]
      exact bne_eq_false_iff_eq.1 notHalf
    · exact fresh inBuf other

theorem Inv.fsOpen (inv : file.Inv done queued) (nonBlock : Bool) : ∃ done, (file.fsOpen nonBlock).Inv done queued := by
  rw [EvtFile.fsOpen]
  split
  · exact ⟨done, inv⟩
  · next closed =>
      have fresh := inv.closed (Bool.not_eq_true _ ▸ closed)
      refine ⟨[], { inv with order := ?_, isRead := ?_, closed := fun opened => Bool.noConfusion opened }⟩
      · exact (sublist_append_right _ _).trans inv.order
      · exact (partRead_fresh fresh).symm

theorem Inv.fsRead (inv : file.Inv done queued) (opened : file.opened = true) (size : Nat) :
    ∃ done queued, (file.fsRead size).Inv done queued := by
  rw [EvtFile.fsRead]
  split
  · exact ⟨done, queued, inv⟩
  · simp only
    split
    · exact ⟨done, queued, inv⟩
    · generalize (if file.nonBlock ∧ getBytesAvail file.queIncoming < size then getBytesAvail file.queIncoming
        else size) = reqSize
      rw [fillBufVec]
      split
      · exact ⟨done, queued, inv⟩
      · next bytes que some =>
          obtain ⟨enough, filled⟩ := Option.ite_none_left_eq_some.1 some
          have positive : 0 < reqSize := Nat.pos_of_ne_zero fun zero => enough (Or.inl zero)
          have within : reqSize ≤ unreadBytes file.queIncoming := Nat.not_lt.1 fun few => enough (Or.inr few)
          obtain ⟨whole, others, isQueued, held, isBytes, count⟩ := fillSlots_holds inv.holds positive within
          rw [Option.some.inj filled] at held isBytes count
          have limit : maxEvtQueBytes < 2 ^ 32 := by decide
          have small := inv.small
          have counted := inv.counted
          have left : sub32 file.bytesAvail reqSize = unreadBytes que := by
            rw [sub32_of_le (by omega) (by omega), counted, count]
          refine ⟨done ++ whole, others, ⟨held, ?_, ?_, left, ?_, inv.intact, ?_⟩⟩
          · show ((done ++ whole) ++ others).Sublist file.received
            rw [append_assoc, ← isQueued]
            exact inv.order
          · show file.read ++ bytes = _
            rw [inv.isRead, append_assoc, isBytes, flatMap_append, append_assoc]
          · show sub32 file.bytesAvail reqSize ≤ _
            rw [left, count]
            omega
          · intro closed
            have never : file.opened = false := closed
            rw [opened] at never
            contradiction

theorem Inv.receive (inv : file.Inv done queued) {msg : List UInt8} {reqId : Nat}
    (fits : file.Fits (.receive msg reqId)) : ∃ queued, (file.receiveEvtJson msg reqId).Inv done queued := by
  obtain ⟨length, notDropped⟩ := fits
  have small := inv.small
  have counted := inv.counted
  have limit : maxEvtQueBytes + maxBytesPerBuffer < 2 ^ 32 := by decide
  have held : Holds (file.queIncoming ++ [⟨frame msg, 0, reqId⟩]) (queued ++ [msg]) := inv.holds.append reqId
  have order : (done ++ (queued ++ [msg])).Sublist (file.received ++ [msg]) := by
    rw [← append_assoc]
    exact inv.order.append (List.Sublist.refl _)
  have more : unreadBytes (file.queIncoming ++ [⟨frame msg, 0, reqId⟩]) = file.bytesAvail + (msg.length + 4) := by
    rw [unreadBytes_append, counted, ← length_frame msg]
    exact rfl
  have sum : (file.bytesAvail + (frame msg).length) % 2 ^ 32 =
      unreadBytes (file.queIncoming ++ [⟨frame msg, 0, reqId⟩]) := by
    rw [length_frame, Nat.mod_eq_of_lt (by omega), more]
  rw [EvtFile.receiveEvtJson, evtBuf_of_fits length]
  simp only [sum]
  cases half : file.halfRead with
  | true =>
    obtain ⟨bytes, count⟩ := notDropped half
    have kept : dropOverflow (file.queIncoming ++ [⟨frame msg, 0, reqId⟩])
        (unreadBytes (file.queIncoming ++ [⟨frame msg, 0, reqId⟩])) =
        some (file.queIncoming ++ [⟨frame msg, 0, reqId⟩],
          unreadBytes (file.queIncoming ++ [⟨frame msg, 0, reqId⟩])) := by
      apply dropOverflow_fits
      · rw [more]
        exact bytes
      · rw [length_append]
        exact count
    have front : partRead (file.queIncoming ++ [⟨frame msg, 0, reqId⟩]) = partRead file.queIncoming := by
      cases file.queIncoming with
      | nil => rfl
      | cons => rfl
    rw [kept]
    refine ⟨queued ++ [msg], ⟨held, order, ?_, rfl, ?_, inv.intact, ?_⟩⟩
    · rw [front]
      exact inv.isRead
    · show unreadBytes _ ≤ _
      rw [more]
      exact bytes
    · intro closed inBuf member
      rcases mem_append.1 member with old | new
      · exact inv.closed closed inBuf old
      · rw [mem_singleton.1 new]
  | false =>
    have fresh := fresh_of_not_halfRead inv.holds half
    have allFresh : ∀ inBuf ∈ file.queIncoming ++ [⟨frame msg, 0, reqId⟩], inBuf.off = 0 := by
      intro inBuf member
      rcases mem_append.1 member with old | new
      · exact fresh inBuf old
      · rw [mem_singleton.1 new]
    obtain ⟨dropped, kept, left, parts, drops, holdsLeft, freshLeft, smallLeft⟩ :=
      dropOverflow_fresh held allFresh (by omega)
    rw [drops]
    refine ⟨kept, ⟨holdsLeft, ?_, ?_, rfl, smallLeft, inv.intact, fun _ => freshLeft⟩⟩
    · rw [parts] at order
      exact (List.Sublist.append (List.Sublist.refl done) (sublist_append_right dropped kept)).trans order
    · have isRead := inv.isRead
      rw [partRead_fresh fresh] at isRead
      rw [partRead_fresh freshLeft]
      exact isRead

theorem Inv.cancelRequest (inv : file.Inv done queued) {reqId : Nat} (fits : file.Fits (.cancelRequest reqId)) :
    (file.onUserCancelRequest reqId).Inv done queued := by
  rw [EvtFile.onUserCancelRequest]
  split
  · exact inv
  · next some =>
      have absent : ∀ inBuf ∈ file.queIncoming, ¬(inBuf.reqId == reqId) = true := by
        intro inBuf member same
        rcases fits with none | others
        · exact some none
        · exact others inBuf member (eq_of_beq same)
      rw [eraseP_of_forall_not absent]
      exact inv

theorem Inv.cancelRequests (inv : file.Inv done queued) {resps : List (List UInt8)}
    (fits : file.Fits (.cancelRequests resps)) : ∃ queued, (file.cancelFsRequests resps).Inv done queued := by
  rw [EvtFile.cancelFsRequests]
  split
  · exact ⟨queued, inv⟩
  · next some =>
      rcases fits with none | ⟨notHalf, lengths, sum⟩
      · exact absurd none some
      · have bufs : (resps.map fun resp => (⟨evtBuf resp, 0, 0⟩ : InBuf)) =
            resps.map fun resp => ⟨frame resp, 0, 0⟩ := by
          apply map_congr_left
          intro resp member
          rw [evtBuf_of_fits (lengths resp member)]
        have fresh : ∀ inBuf ∈ resps.map fun resp => (⟨frame resp, 0, 0⟩ : InBuf), inBuf.off = 0 := by
          intro inBuf member
          obtain ⟨resp, _, same⟩ := mem_map.1 member
          rw [← same]
        have isRead := inv.isRead
        rw [partRead_fresh (fresh_of_not_halfRead inv.holds notHalf)] at isRead
        rw [bufs]
        refine ⟨resps, ⟨.of_msgs resps, ?_, ?_, ?_, inv.small, inv.intact, fun _ => fresh⟩⟩
        · exact ((sublist_append_left _ _).trans inv.order).append (List.Sublist.refl resps)
        · rw [partRead_fresh fresh]
          exact isRead
        · rw [unreadBytes_fresh (.of_msgs resps) fresh]
          exact sum.symm

theorem Inv.release (inv : file.Inv done queued) {resps : List (List UInt8)} (fits : file.Fits (.release resps)) :
    ∃ queued, (file.fsRelease resps).Inv done queued := by
  have empty : file.queIncoming = [] := by
    cases isQueue : file.queIncoming with
    | nil => rfl
    | cons front rest =>
      have unread := inv.holds.unread front (by rw [isQueue]; exact mem_cons_self)
      have counted := inv.counted
      have none : file.bytesAvail = 0 := fits
      rw [none, isQueue, unreadBytes_cons, InBuf.unread] at counted
      omega
  have isRead := inv.isRead
  have kept : (file.cancelFsRequests resps).read = file.read ∧ (file.cancelFsRequests resps).broken = file.broken ∧
      (file.cancelFsRequests resps).bytesAvail = file.bytesAvail ∧
      file.received.Sublist (file.cancelFsRequests resps).received := by
    rw [EvtFile.cancelFsRequests]
    split
    · exact ⟨rfl, rfl, rfl, List.Sublist.refl _⟩
    · exact ⟨rfl, rfl, rfl, sublist_append_left _ _⟩
  rw [empty] at isRead
  refine ⟨[], ⟨.nil, ?_, kept.1.trans isRead, kept.2.2.1.trans fits, ?_, kept.2.1.trans inv.intact, ?_⟩⟩
  · rw [append_nil]
    exact ((sublist_append_left _ _).trans inv.order).trans kept.2.2.2
  · show (file.cancelFsRequests resps).bytesAvail ≤ maxEvtQueBytes
    rw [kept.2.2.1, fits]
    exact Nat.zero_le _
  · exact fun _ _ none => absurd none not_mem_nil

theorem Inv.step (inv : file.Inv done queued) {move : EvtMove} (fits : file.Fits move) {next : EvtFile}
    (moved : file.step move = some next) : ∃ done queued, next.Inv done queued := by
  cases move with
  | «open» nonBlock =>
    cases moved
    obtain ⟨done, opened⟩ := inv.fsOpen nonBlock
    exact ⟨done, queued, opened⟩
  | setNonBlock nonBlock =>
    cases moved
    exact ⟨done, queued, { inv with }⟩
  | read size =>
    obtain ⟨opened, ⟨⟩⟩ := Option.ite_none_right_eq_some.1 moved
    exact inv.fsRead opened size
  | receive msg reqId =>
    cases moved
    exact ⟨done, inv.receive fits⟩
  | cancelRequest reqId =>
    cases moved
    exact ⟨done, queued, inv.cancelRequest fits⟩
  | cancelRequests resps =>
    cases moved
    exact ⟨done, inv.cancelRequests fits⟩
  | release resps =>
    obtain ⟨_, ⟨⟩⟩ := Option.ite_none_right_eq_some.1 moved
    exact ⟨done, inv.release fits⟩

end

instance (file : EvtFile) (move : EvtMove) : Decidable (file.Fits move) :=
  match move with
  | .receive msg _ => inferInstanceAs (Decidable (msg.length + 4 ≤ maxBytesPerBuffer ∧
      (file.halfRead = true → file.bytesAvail + (msg.length + 4) ≤ maxEvtQueBytes ∧
        file.queIncoming.length < maxEvtQueSize)))
  | .cancelRequest reqId => inferInstanceAs (Decidable (reqId = 0 ∨ ∀ inBuf ∈ file.queIncoming, inBuf.reqId ≠ reqId))
  | .cancelRequests resps => inferInstanceAs (Decidable (resps = [] ∨ file.halfRead = false ∧
      (∀ resp ∈ resps, resp.length + 4 ≤ maxBytesPerBuffer) ∧
        (resps.map fun resp => resp.length + 4).sum = file.bytesAvail))
  | .release _ => inferInstanceAs (Decidable (file.bytesAvail = 0))
  | .open _ | .setNonBlock _ | .read _ => isTrue trivial

/-- The reads of an opening return whole messages in order, and the count is true. -/
theorem whole_of_fits {file : EvtFile} (reached : (evtFile.restrict Fits).Reachable file) : file.Whole := by
  have inv : ∃ done queued, file.Inv done queued := by
    apply @Machine.Reachable.invariant _ _ _ (fun file => ∃ done queued, file.Inv done queued) _ reached
      ⟨[], [], Inv.start⟩
    rintro file move next _ ⟨done, queued, inv⟩ moved
    obtain ⟨fits, moved⟩ := Machine.restrict_step.1 moved
    exact inv.step fits moved
  obtain ⟨done, queued, inv⟩ := inv
  exact inv.whole

/-- Two messages are read across their border, and the file is opened again. -/
theorem whole_openedAgain : ∃ file : EvtFile, file.read = [0, 0] ∧ file.Whole := by
  have ran : ((evtFile.restrict Fits).run evtFile.start
      [.receive [1] 7, .open false, .receive [2, 3] 8, .cancelRequest 9, .read 7, .read 100, .setNonBlock true, .read 100,
        .release [], .receive [4] 9, .open true, .read 2]).map (fun file => file.read) = some [0, 0] := by
    decide +kernel
  obtain ⟨file, run, isRead⟩ := Option.map_eq_some_iff.1 ran
  exact ⟨file, isRead, whole_of_fits (Machine.Reachable.start.run run)⟩

/-- A request that is cancelled in the queue stays in the count. -/
theorem cancelledRequest_counted : ¬∀ file, evtFile.Reachable file → file.Whole := by
  intro whole
  have ran : (evtFile.run evtFile.start [.receive [1] 7, .cancelRequest 7]).map
      (fun file => (file.bytesAvail, unreadBytes file.queIncoming)) = some (5, 0) := by
    decide +kernel
  obtain ⟨file, run, counts⟩ := Option.map_eq_some_iff.1 ran
  have counted := (whole file (Machine.Reachable.start.run run)).counted
  rw [(Prod.mk.inj counts).1, (Prod.mk.inj counts).2] at counted
  contradiction

end EvtFile

end RpcFrmwrk.Fuse
