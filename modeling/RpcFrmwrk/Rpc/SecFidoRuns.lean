import RpcFrmwrk.Rpc.SecFido

/-! The payloads of the security filter over whole runs. Owns `SecLink.Delivers`, the written
payloads in order, each once; the packet that stands in front of the bytes received. -/

namespace RpcFrmwrk.Rpc

open RpcFrmwrk.Library List
open RpcFrmwrk.Ipc

def SecFido.held (fido : SecFido) : List UInt8 :=
  match fido.listening with
  | .parked packet | .resuming packet => packet ++ fido.inBuf
  | _ => fido.inBuf

def PktCached.holdsEncrypted : PktCached → Bool
  | .packet _ _ encrypted => encrypted
  | .again | .badMagic => false

def ListenState.isParked : ListenState → Bool
  | .parked _ => true
  | .idle | .atLower | .resuming _ | .lost => false

namespace SecLink

/-- The payloads handed up are the first of those written, and the bytes that are not handed up are
the packets of the others; nothing is left when the reader waits and no byte is on the way. -/
structure Delivers (link : SecLink) : Prop where
  inOrder : ∃ done rest, link.sent = done ++ rest ∧
    link.fido.handed = done.map (fun packet => some packet.payload) ∧
    link.fido.held ++ link.wire = rest.flatMap SecPacket.bytes
  all : link.fido.listening = .atLower → link.wire = [] →
    link.fido.handed = link.sent.map fun packet => some packet.payload

/-- A listen request does not find a whole packet that waits for the context, nothing stands behind
a parked packet when the context is set, and the bytes received fit in a buffer. -/
def Fits (link : SecLink) : SecMove → Prop
  | .listen => link.fido.waitSecCtx = .wait → ∀ packet rest, getPktCached link.fido.inBuf ≠ .packet packet rest true
  | .receive event => link.fido.inBuf.length + event.bufs.flatten.length ≤ maxBytesPerBuffer
  | .setSecCtx => (∃ packet, link.fido.listening = .parked packet) → link.fido.inBuf = []
  | _ => True

end SecLink

/-! ### Packets -/

/-- The packet is one that `DoEncrypt` makes of its payload, before the context is set or after. -/
def SecPacket.Sealed (auth : Authenticate) (ctx : SecCtx) (packet : SecPacket) : Prop :=
  ∃ secCtx bufs, (secCtx = none ∨ secCtx = some ctx) ∧ doEncrypt auth secCtx bufs = some packet.bytes ∧
    packet.payload = bufs.flatten ∧ packet.encrypted = encEnabled secCtx

/-- A header with the size of what is behind it. -/
structure SecPacket.Framed (packet : SecPacket) (magic : Nat) (body : List UInt8) : Prop where
  bytes : packet.bytes = secPacketHeader magic body.length ++ body
  small : body.length + 8 < 2 ^ 32
  magic : if packet.encrypted then magic = encPacketMagic ∨ magic = signedPacketMagic else magic = clearPacketMagic

section

variable {auth : Authenticate} {ctx : SecCtx} {packet : SecPacket} {magic : Nat} {body : List UInt8}
variable {secCtx : Option SecCtx} {bytes : List UInt8}

theorem length_secPacketHeader (magic size : Nat) : (secPacketHeader magic size).length = 8 := by
  rw [secPacketHeader, length_append, length_toBE, length_toBE]

theorem take_magic (small : magic < 256 ^ 4) (size : Nat) (rest : List UInt8) :
    ofBE ((secPacketHeader magic size ++ rest).take 4) = magic := by
  rw [secPacketHeader, append_assoc, take_left' (length_toBE 4 magic), ofBE_toBE_of_lt small]

theorem take_size {size : Nat} (small : size < 256 ^ 4) (magic : Nat) (rest : List UInt8) :
    ofBE (((secPacketHeader magic size ++ rest).drop 4).take 4) = size := by
  rw [secPacketHeader, append_assoc, drop_left' (length_toBE 4 magic),
    take_left' (length_toBE 4 size), ofBE_toBE_of_lt small]

theorem doEncrypt_cases {bufs : List (List UInt8)}
    (made : doEncrypt auth secCtx bufs = some bytes) :
    8 + bufs.flatten.length ≤ maxBytesPerTransfer ∧
      (encEnabled secCtx = false ∧
          bytes = secPacketHeader clearPacketMagic bufs.flatten.length ++ bufs.flatten ∨
        ∃ ctx, secCtx = some ctx ∧ encEnabled secCtx = true ∧
          (ctx.signMsg = true ∧ buildSignedMsg auth bufs.flatten = some bytes ∨
            ctx.signMsg = false ∧ ∃ wrapped, auth.wrapMessage bufs.flatten = some wrapped ∧
              bytes = secPacketHeader encPacketMagic wrapped.length ++ wrapped)) := by
  rw [doEncrypt.eq_def] at made
  simp only at made
  split at made
  · contradiction
  · split at made
    · contradiction
    · next fits =>
        refine ⟨Nat.not_lt.1 fits, ?_⟩
        cases secCtx with
        | none => exact Or.inl ⟨rfl, (Option.some.inj made).symm⟩
        | some ctx =>
          obtain ⟨noEnc, signMsg⟩ := ctx
          cases noEnc with
          | true => exact Or.inl ⟨rfl, (Option.some.inj made).symm⟩
          | false =>
            refine Or.inr ⟨_, rfl, rfl, ?_⟩
            cases signMsg with
            | true => exact Or.inl ⟨rfl, made⟩
            | false =>
              obtain ⟨wrapped, isWrapped, same⟩ := Option.map_eq_some_iff.1 made
              exact Or.inr ⟨rfl, wrapped, isWrapped, same.symm⟩

theorem buildSignedMsg_some {payload : List UInt8}
    (made : buildSignedMsg auth payload = some bytes) :
    ∃ mic, auth.getMicMsg payload = some mic ∧ 8 + 2 + mic.length ≤ 65536 ∧
      bytes = secPacketHeader signedPacketMagic (toBE 2 mic.length ++ mic ++ payload).length ++
        (toBE 2 mic.length ++ mic ++ payload) := by
  obtain ⟨mic, isMic, rest⟩ := Option.bind_eq_some_iff.1 made
  split at rest
  · contradiction
  · next fits =>
      have length : (toBE 2 mic.length ++ mic ++ payload).length = mic.length + payload.length + 2 := by
        rw [length_append, length_append, length_toBE]
        omega
      exact ⟨mic, isMic, Nat.not_lt.1 fits, by rw [length]; exact (Option.some.inj rest).symm⟩

theorem SecPacket.Sealed.framed
    (isSealed : packet.Sealed auth ctx) : ∃ magic body, packet.Framed magic body := by
  obtain ⟨secCtx, bufs, _, made, _, encrypted⟩ := isSealed
  obtain ⟨fits, clear | ⟨ctx, _, enabled, signed | wrapped⟩⟩ := doEncrypt_cases made
  · have limit : maxBytesPerTransfer < 2 ^ 32 := by decide
    refine ⟨clearPacketMagic, bufs.flatten, clear.2, by omega, ?_⟩
    rw [encrypted, clear.1]
    exact rfl
  · obtain ⟨mic, _, small, bytes⟩ := buildSignedMsg_some signed.2
    have limit : maxBytesPerTransfer + 65536 + 2 < 2 ^ 32 := by decide
    refine ⟨signedPacketMagic, _, bytes, ?_, ?_⟩
    · rw [length_append, length_append, length_toBE]
      omega
    · rw [encrypted, enabled]
      exact Or.inr rfl
  · obtain ⟨body, isWrapped, bytes⟩ := wrapped.2
    have limit : maxBytesPerBuffer < 2 ^ 32 := by decide
    have fits := auth.wrapped_fits _ _ isWrapped
    refine ⟨encPacketMagic, body, bytes, by omega, ?_⟩
    rw [encrypted, enabled]
    exact Or.inl rfl

theorem SecPacket.Framed.magic_lt (framed : packet.Framed magic body) : magic < 256 ^ 4 := by
  have kinds := framed.magic
  split at kinds
  · rcases kinds with enc | signed
    · rw [enc]
      decide
    · rw [signed]
      decide
  · rw [kinds]
    decide

theorem SecPacket.Framed.length
    (framed : packet.Framed magic body) : packet.bytes.length = 8 + body.length := by
  rw [framed.bytes, length_append, length_secPacketHeader]

theorem SecPacket.Framed.getPktCached (framed : packet.Framed magic body) (more : List UInt8) :
    getPktCached (secPacketHeader magic body.length ++ more) =
      if packet.bytes.length ≤ (secPacketHeader magic body.length ++ more).length then
        .packet ((secPacketHeader magic body.length ++ more).take packet.bytes.length)
          ((secPacketHeader magic body.length ++ more).drop packet.bytes.length) packet.encrypted
      else .again := by
  have small := framed.small
  have long : ¬(secPacketHeader magic body.length ++ more).length < 8 := by
    rw [length_append, length_secPacketHeader]
    omega
  have pktSize : (body.length + 8) % 2 ^ 32 = packet.bytes.length := by
    rw [Nat.mod_eq_of_lt small, framed.length, Nat.add_comm]
  have bodySmall : body.length < 256 ^ 4 := by omega
  rw [Rpc.getPktCached, if_neg long, take_magic framed.magic_lt, take_size bodySmall, pktSize]
  have kinds := framed.magic
  cases encrypted : packet.encrypted with
  | true =>
    rw [encrypted, if_pos rfl] at kinds
    exact if_pos kinds
  | false =>
    rw [encrypted, if_neg Bool.false_ne_true] at kinds
    rw [kinds]
    rfl

theorem SecPacket.Sealed.getPktCached_whole (isSealed : packet.Sealed auth ctx)
    (tail : List UInt8) :
    getPktCached (packet.bytes ++ tail) = .packet packet.bytes tail packet.encrypted := by
  obtain ⟨magic, body, framed⟩ := isSealed.framed
  have cached := framed.getPktCached (body ++ tail)
  rw [← append_assoc, ← framed.bytes] at cached
  rw [cached, if_pos (by rw [length_append]; omega), take_left, drop_left]

theorem SecPacket.Sealed.getPktCached_part (isSealed : packet.Sealed auth ctx)
    {part more : List UInt8}
    (parts : part ++ more = packet.bytes) (some : more ≠ []) : getPktCached part = .again := by
  obtain ⟨magic, body, framed⟩ := isSealed.framed
  have positive := length_pos_of_ne_nil some
  have total := congrArg List.length parts
  rw [length_append] at total
  by_cases short : part.length < 8
  · rw [Rpc.getPktCached, if_pos short]
  · have header : part = secPacketHeader magic body.length ++ part.drop 8 := by
      have taken := congrArg (List.take 8) parts
      rw [take_append_of_le_length (by omega), framed.bytes, take_left' (length_secPacketHeader _ _)] at taken
      rw [← taken, take_append_drop]
    rw [header, framed.getPktCached, ← header, if_neg (by omega)]

theorem verifySignedMsg_signed {payload mic : List UInt8}
    (isMic : auth.getMicMsg payload = some mic)
    (small : 8 + 2 + mic.length ≤ 65536) (positive : 0 < payload.length) :
    verifySignedMsg auth (toBE 2 mic.length ++ mic ++ payload) = some payload := by
  have size : ofBE ((toBE 2 mic.length ++ mic ++ payload).take 2) = mic.length := by
    rw [append_assoc, take_left' (length_toBE 2 _), ofBE_toBE_of_lt (by omega)]
  have isPayload : (toBE 2 mic.length ++ mic ++ payload).drop (2 + mic.length) = payload := by
    apply drop_left'
    rw [length_append, length_toBE]
  have isSignature : ((toBE 2 mic.length ++ mic ++ payload).drop 2).take mic.length = mic := by
    rw [append_assoc, drop_left' (length_toBE 2 _), take_left]
  have length : (toBE 2 mic.length ++ mic ++ payload).length = 2 + mic.length + payload.length := by
    rw [length_append, length_append, length_toBE]
  rw [verifySignedMsg, if_neg (ne_nil_of_length_pos (by omega))]
  simp only [size, isPayload, isSignature, auth.verify_mic _ _ isMic, if_true]
  exact if_neg (by omega)

theorem flatten_pos {bufs : List (List UInt8)}
    (made : doEncrypt auth secCtx bufs = some bytes) : 0 < bufs.flatten.length := by
  rw [doEncrypt.eq_def] at made
  simp only at made
  split at made
  · contradiction
  · next some =>
      cases bufs with
      | nil => exact absurd (Or.inl rfl) some
      | cons first rest =>
        rw [flatten_cons, length_append]
        cases first with
        | nil => exact absurd (Or.inr rfl) some
        | cons => exact Nat.lt_of_lt_of_le (Nat.succ_pos _) (Nat.le_add_right _ _)

theorem SecPacket.Sealed.decryptPkt (isSealed : packet.Sealed auth ctx)
    (reader : secCtx = none ∨ secCtx = some ctx) (expected : encEnabled secCtx = packet.encrypted) :
    decryptPkt auth secCtx packet.bytes packet.encrypted = some packet.payload := by
  obtain ⟨magic, body, framed⟩ := isSealed.framed
  have length := framed.length
  obtain ⟨writer, bufs, isWriter, made, payload, encrypted⟩ := isSealed
  have positive := flatten_pos made
  obtain ⟨_, clear | ⟨used, isUsed, enabled, kinds⟩⟩ := doEncrypt_cases made
  · have plain : packet.encrypted = false := encrypted.trans clear.1
    rw [plain] at expected
    rw [Rpc.decryptPkt.eq_def, if_neg (by omega), plain, if_neg (not_not.2 expected), payload, clear.2,
      drop_left' (length_secPacketHeader _ _)]
    rfl
  · have cipher : packet.encrypted = true := encrypted.trans enabled
    rw [cipher] at expected
    have isCtx : writer = some ctx := by
      rcases isWriter with none | some
      · rw [none] at isUsed
        contradiction
      · exact some
    have same : used = ctx := Option.some.inj (isUsed.symm.trans isCtx)
    have isReader : secCtx = some ctx := by
      rcases reader with none | some
      · rw [none] at expected
        contradiction
      · exact some
    subst same
    rw [Rpc.decryptPkt.eq_def, if_neg (by omega), cipher, if_neg (not_not.2 expected), isReader]
    simp only [Bool.not_true, Bool.false_eq_true, if_false]
    rcases kinds with ⟨signs, signed⟩ | ⟨signs, wrapped, isWrapped, bytes⟩
    · obtain ⟨mic, isMic, small, bytes⟩ := buildSignedMsg_some signed
      have magic : ofBE (packet.bytes.take 4) = signedPacketMagic := by
        rw [bytes, take_magic (by decide)]
      have body : packet.bytes.drop 8 = toBE 2 mic.length ++ mic ++ bufs.flatten := by
        rw [bytes, drop_left' (length_secPacketHeader _ _)]
      rw [magic, body, verifySignedMsg_signed isMic small positive, signs, payload]
      rfl
    · have magic : ofBE (packet.bytes.take 4) = encPacketMagic := by
        rw [bytes, take_magic (by decide)]
      have body : packet.bytes.drop 8 = wrapped := by
        rw [bytes, drop_left' (length_secPacketHeader _ _)]
      rw [magic, body, auth.unwrap_wrap _ _ isWrapped, signs, payload]
      rfl

theorem getPktCached_stream {rest : List SecPacket}
    (allSealed : ∀ packet ∈ rest, packet.Sealed auth ctx)
    {wire : List UInt8} (stream : bytes ++ wire = rest.flatMap SecPacket.bytes) :
    getPktCached bytes = .again ∧ (wire = [] → rest = []) ∨
      ∃ first others tail, rest = first :: others ∧ bytes = first.bytes ++ tail ∧
        tail ++ wire = others.flatMap SecPacket.bytes ∧
        getPktCached bytes = .packet first.bytes tail first.encrypted := by
  cases rest with
  | nil =>
    have empty := (append_eq_nil_iff.1 stream).1
    rw [empty]
    exact Or.inl ⟨rfl, fun _ => rfl⟩
  | cons first others =>
    have isSealed := allSealed first mem_cons_self
    rw [flatMap_cons] at stream
    rcases append_eq_append_iff.1 stream with ⟨more, whole, behind⟩ | ⟨tail, whole, behind⟩
    · cases more with
      | nil =>
        rw [append_nil] at whole
        refine Or.inr ⟨first, others, [], rfl, ?_, ?_, ?_⟩
        · rw [append_nil, whole]
        · exact behind
        · rw [← whole]
          have cached := isSealed.getPktCached_whole []
          rw [append_nil] at cached
          exact cached
      | cons byte more =>
        refine Or.inl ⟨isSealed.getPktCached_part whole.symm (cons_ne_nil _ _), fun none => ?_⟩
        rw [none] at behind
        contradiction
    · refine Or.inr ⟨first, others, tail, rfl, whole, behind.symm, ?_⟩
      rw [whole]
      exact isSealed.getPktCached_whole tail

end

/-! ### Received bytes -/

theorem SecFido.appendAll_of_fits {inBuf : List UInt8} {bufs : List (List UInt8)}
    (some : ∀ buf ∈ bufs, buf ≠ [])
    (fits : inBuf.length + bufs.flatten.length ≤ maxBytesPerBuffer) :
    SecFido.appendAll inBuf bufs = inBuf ++ bufs.flatten := by
  induction bufs generalizing inBuf with
  | nil => exact (append_nil _).symm
  | cons first rest ih =>
    rw [flatten_cons, length_append] at fits
    have appended := @appendBuf_of_fits inBuf first (some first mem_cons_self) (by omega)
    have behind := @ih (inBuf ++ first) (fun buf member => some buf (mem_cons_of_mem _ member))
      (by rw [length_append]; omega)
    show SecFido.appendAll ((appendBuf inBuf first).getD inBuf) rest = _
    rw [appended, Option.getD_some, behind, flatten_cons, append_assoc]

theorem SecFido.gather_of_fits {inBuf : List UInt8} {event : SockEvent} (nonempty : event.bufs ≠ [])
    (some : ∀ buf ∈ event.bufs, buf ≠ [])
    (fits : inBuf.length + event.bufs.flatten.length ≤ maxBytesPerBuffer) :
    SecFido.gather inBuf event = .some (inBuf ++ event.bufs.flatten) := by
  cases event with
  | single buf =>
    have bytes : (SockEvent.single buf).bufs.flatten = buf := append_nil buf
    rw [bytes] at fits ⊢
    rw [SecFido.gather]
    split
    · next empty =>
        rw [empty]
        rfl
    · exact appendBuf_of_fits (some buf mem_cons_self) fits
  | list bufs =>
    cases bufs with
    | nil => exact absurd rfl nonempty
    | cons first rest =>
      have bytes : (SockEvent.list (first :: rest)).bufs.flatten = first ++ rest.flatten := rfl
      rw [bytes] at fits ⊢
      rw [length_append] at fits
      rw [SecFido.gather]
      split
      · next empty =>
          rw [empty, SecFido.appendAll_of_fits (fun buf member => some buf (mem_cons_of_mem _ member)) (by omega)]
          rfl
      · have all := @SecFido.appendAll_of_fits inBuf (first :: rest) some
          (by rw [flatten_cons, length_append]; omega)
        rw [all]
        rfl

namespace SecLink

def Holds (rest : List SecPacket) (packet : List UInt8) : Prop :=
  ∃ first others, rest = first :: others ∧ first.bytes = packet ∧ first.encrypted = true

/-- Where the listen request may be. A request that waits at the lower port has found no whole packet. -/
def Listens (ctx : SecCtx) (fido : SecFido) (rest : List SecPacket) : Prop :=
  match fido.listening with
  | .idle => fido.waitSecCtx ≠ .completing
  | .atLower => fido.waitSecCtx ≠ .completing ∧ getPktCached fido.inBuf = .again
  | .parked packet => fido.secCtx = none ∧ Holds rest packet
  | .resuming packet => fido.secCtx = some ctx ∧ fido.waitSecCtx = .completing ∧ fido.inBuf = [] ∧ Holds rest packet
  | .lost => False

/-- The packets in `done` are handed up, those in `rest` are not. -/
structure Inv (auth : Authenticate) (ctx : SecCtx) (link : SecLink) (done rest : List SecPacket) : Prop where
  sent : link.sent = done ++ rest
  handed : link.fido.handed = done.map fun packet => some packet.payload
  stream : link.fido.held ++ link.wire = rest.flatMap SecPacket.bytes
  allSealed : ∀ packet ∈ link.sent, packet.Sealed auth ctx
  writer : link.writerCtx = none ∨ link.writerCtx = some ctx
  clears : link.writerCtx = none → link.clears = link.sent.length
  late : ∀ packet ∈ link.sent.drop link.clears, packet.encrypted = encEnabled (some ctx)
  reader : link.fido.secCtx = none ∧ link.fido.waitSecCtx = .wait ∨
    link.fido.secCtx = some ctx ∧ link.fido.waitSecCtx ≠ .wait
  agreed : link.fido.secCtx = some ctx → (∀ packet ∈ rest, packet.encrypted = encEnabled (some ctx)) ∧
    (ctx.noEnc = true ∨ link.writerCtx ≠ none)
  listens : Listens ctx link.fido rest

section

variable {auth : Authenticate} {ctx : SecCtx} {link : SecLink} {done rest : List SecPacket}
variable {next : SecLink}

theorem Inv.start : (secLink auth ctx).start.Inv auth ctx [] [] where
  sent := rfl
  handed := rfl
  stream := rfl
  allSealed _ none := absurd none not_mem_nil
  writer := Or.inl rfl
  clears _ := rfl
  late _ none := absurd none not_mem_nil
  reader := Or.inl ⟨rfl, rfl⟩
  agreed same := absurd same.symm (Option.some_ne_none _)
  listens := SecCtxState.noConfusion

theorem Inv.delivers (inv : link.Inv auth ctx done rest) : link.Delivers := by
  refine ⟨⟨done, rest, inv.sent, inv.handed, inv.stream⟩, fun atLower none => ?_⟩
  have listens := inv.listens
  rw [Listens, atLower] at listens
  have stream := inv.stream
  have held : link.fido.held = link.fido.inBuf := by
    rw [SecFido.held, atLower]
  rw [held] at stream
  have restSealed : ∀ packet ∈ rest, packet.Sealed auth ctx := by
    intro packet member
    apply inv.allSealed
    rw [inv.sent]
    exact mem_append_right _ member
  rcases getPktCached_stream restSealed stream with ⟨_, nothing⟩ | ⟨_, _, _, _, _, _, cached⟩
  · rw [inv.handed, inv.sent, nothing none, append_nil]
  · rw [listens.2] at cached
    contradiction

theorem Inv.restSealed (inv : link.Inv auth ctx done rest) : ∀ packet ∈ rest, packet.Sealed auth ctx := by
  intro packet member
  apply inv.allSealed
  rw [inv.sent]
  exact mem_append_right _ member

theorem Inv.decrypts (inv : link.Inv auth ctx done rest) {first : SecPacket}
    {others : List SecPacket}
    (front : rest = first :: others)
    (notWait : ¬(first.encrypted = true ∧ link.fido.waitSecCtx = .wait)) :
    decryptPkt auth link.fido.secCtx first.bytes first.encrypted = some first.payload := by
  have member : first ∈ rest := by
    rw [front]
    exact mem_cons_self
  apply (inv.restSealed first member).decryptPkt
  · exact inv.reader.imp And.left And.left
  · rcases inv.reader with ⟨none, wait⟩ | ⟨some, _⟩
    · rw [none]
      exact (Bool.not_eq_true _ ▸ fun encrypted => notWait ⟨encrypted, wait⟩ : first.encrypted = false).symm
    · rw [some]
      exact ((inv.agreed some).1 first member).symm

theorem Inv.handUp (inv : link.Inv auth ctx done rest) {first : SecPacket} {others : List SecPacket}
    (front : rest = first :: others) {tail wire : List UInt8}
    (stream : tail ++ wire = others.flatMap SecPacket.bytes)
    {waitSecCtx : SecCtxState} (notCompleting : waitSecCtx ≠ .completing)
    (reader : link.fido.secCtx = none ∧ waitSecCtx = .wait ∨ link.fido.secCtx = some ctx ∧ waitSecCtx ≠ .wait) :
    Inv auth ctx { link with
      wire := wire
      fido := { link.fido with inBuf := tail, waitSecCtx := waitSecCtx }.complete (some first.payload) }
      (done ++ [first]) others where
  sent := by
    rw [append_assoc, singleton_append, ← front]
    exact inv.sent
  handed := by
    rw [map_append, ← inv.handed]
    rfl
  stream := stream
  allSealed := inv.allSealed
  writer := inv.writer
  clears := inv.clears
  late := inv.late
  reader := reader
  agreed same := by
    have agreed := inv.agreed same
    rw [front] at agreed
    exact ⟨fun packet member => agreed.1 packet (mem_cons_of_mem _ member), agreed.2⟩
  listens := notCompleting

theorem Inv.waits (inv : link.Inv auth ctx done rest) {inBuf wire : List UInt8}
    (stream : inBuf ++ wire = rest.flatMap SecPacket.bytes)
    (notCompleting : link.fido.waitSecCtx ≠ .completing)
    (again : getPktCached inBuf = .again) :
    Inv auth ctx { link with wire := wire, fido := { link.fido with inBuf := inBuf, listening := .atLower } } done
      rest :=
  { inv with stream := stream, listens := ⟨notCompleting, again⟩ }

theorem Inv.listen (inv : link.Inv auth ctx done rest) (fits : link.Fits .listen)
    (moved : link.step auth ctx .listen = some next) : ∃ done rest, next.Inv auth ctx done rest := by
  obtain ⟨idle, same⟩ := Option.ite_none_right_eq_some.1 moved
  have listens := inv.listens
  rw [Listens, idle] at listens
  have stream := inv.stream
  rw [SecFido.held, idle] at stream
  cases same
  rcases getPktCached_stream inv.restSealed stream with ⟨again, _⟩ | ⟨first, others, tail, front, _, behind, cached⟩
  · refine ⟨done, rest, ?_⟩
    rw [SecFido.submitIoctlCmd, again]
    exact inv.waits stream listens again
  · have notWait : ¬(first.encrypted = true ∧ link.fido.waitSecCtx = .wait) := by
      rintro ⟨encrypted, wait⟩
      rw [encrypted] at cached
      exact fits wait _ _ cached
    have notCompleting : ¬(first.encrypted = true ∧ link.fido.waitSecCtx = .completing) := fun both => listens both.2
    refine ⟨done ++ [first], others, ?_⟩
    rw [SecFido.submitIoctlCmd, cached]
    simp only
    rw [if_neg notWait, if_neg notCompleting, inv.decrypts front notWait]
    exact inv.handUp front behind listens inv.reader

theorem Inv.receive (inv : link.Inv auth ctx done rest) {event : SockEvent}
    (fits : link.Fits (.receive event)) (moved : link.step auth ctx (.receive event) = some next) :
    ∃ done rest, next.Inv auth ctx done rest := by
  obtain ⟨⟨atLower, nonempty, some, isFront⟩, same⟩ := Option.ite_none_right_eq_some.1 moved
  have listens := inv.listens
  rw [Listens, atLower] at listens
  obtain ⟨wire, isWire⟩ := isPrefixOf_iff_prefix.1 isFront
  have behind : link.wire.drop event.bufs.flatten.length = wire := by
    rw [← isWire, drop_left]
  have stream := inv.stream
  rw [SecFido.held, atLower, ← isWire, ← append_assoc] at stream
  cases same
  rw [behind]
  rw [SecFido.completeListeningIrp, SecFido.gather_of_fits nonempty some fits]
  simp only
  rcases getPktCached_stream inv.restSealed stream with ⟨again, _⟩ | ⟨first, others, tail, front, _, behind, cached⟩
  · refine ⟨done, rest, ?_⟩
    rw [again]
    exact inv.waits stream listens.1 again
  · rw [cached]
    simp only
    by_cases wait : first.encrypted = true ∧ link.fido.waitSecCtx = .wait
    · refine ⟨done, rest, ?_⟩
      rw [if_pos wait]
      have none : link.fido.secCtx = none := by
        rcases inv.reader with none | ready
        · exact none.1
        · exact absurd wait.2 ready.2
      have whole : first.bytes ++ tail ++ wire = rest.flatMap SecPacket.bytes := by
        rw [front, append_assoc, behind, flatMap_cons]
      exact { inv with stream := whole, listens := ⟨none, first, others, front, rfl, wait.1⟩ }
    · refine ⟨done ++ [first], others, ?_⟩
      have notCompleting : ¬(first.encrypted = true ∧ link.fido.waitSecCtx = .completing) :=
        fun both => listens.1 both.2
      rw [if_neg wait, if_neg notCompleting, inv.decrypts front wait]
      exact inv.handUp front behind listens.1 inv.reader

theorem Inv.resume (inv : link.Inv auth ctx done rest)
    (moved : link.step auth ctx .resume = some next) : ∃ done rest, next.Inv auth ctx done rest := by
  rw [step] at moved
  cases listening : link.fido.listening with
  | resuming packet =>
    have listens := inv.listens
    have stream := inv.stream
    rw [Listens, listening] at listens
    rw [SecFido.held, listening] at stream
    obtain ⟨ready, completing, empty, first, others, front, isFirst, encrypted⟩ := listens
    have notWait : ¬(first.encrypted = true ∧ link.fido.waitSecCtx = .wait) := by
      rw [completing]
      exact fun both => SecCtxState.noConfusion both.2
    have cached := (inv.restSealed first (by rw [front]; exact mem_cons_self)).getPktCached_whole []
    rw [append_nil, isFirst] at cached
    have behind : [] ++ link.wire = others.flatMap SecPacket.bytes := by
      simp only [empty, append_nil, front, flatMap_cons, isFirst] at stream
      exact append_cancel_left stream
    rw [listening] at moved
    cases moved
    rw [SecFido.completeListeningIrp, SecFido.gather, if_pos empty]
    simp only
    rw [cached]
    simp only
    rw [if_neg notWait, ← isFirst, inv.decrypts front notWait, if_pos ⟨encrypted, completing⟩]
    exact ⟨done ++ [first], others,
      inv.handUp front behind SecCtxState.noConfusion (Or.inr ⟨ready, SecCtxState.noConfusion⟩)⟩
  | idle | atLower | parked | lost => simp only [listening] at moved; contradiction

theorem Inv.agrees (inv : link.Inv auth ctx done rest)
    (last : ctx.noEnc = true ∨ link.writerCtx ≠ none ∧ link.clears ≤ link.fido.handed.length) :
    (∀ packet ∈ rest, packet.encrypted = encEnabled (some ctx)) ∧
    (ctx.noEnc = true ∨ link.writerCtx ≠ none) := by
  refine ⟨fun packet member => ?_, last.imp id And.left⟩
  rcases last with noEnc | ⟨_, handedUp⟩
  · obtain ⟨secCtx, _, kinds, _, _, encrypted⟩ := inv.restSealed packet member
    have never : encEnabled (some ctx) = false := by
      show (!ctx.noEnc) = false
      rw [noEnc]
      rfl
    rw [encrypted, never]
    rcases kinds with none | some
    · rw [none]
      rfl
    · rw [some, never]
  · apply inv.late
    rw [inv.handed, length_map] at handedUp
    rw [inv.sent, drop_append, mem_append]
    refine Or.inr ?_
    rw [Nat.sub_eq_zero_of_le handedUp, drop_zero]
    exact member

theorem Inv.setSecCtx (inv : link.Inv auth ctx done rest) (fits : link.Fits .setSecCtx)
    (moved : link.step auth ctx .setSecCtx = some next) : ∃ done rest, next.Inv auth ctx done rest := by
  obtain ⟨⟨absent, last⟩, same⟩ := Option.ite_none_right_eq_some.1 moved
  have agreed := inv.agrees last
  have listens := inv.listens
  have stream := inv.stream
  cases same
  refine ⟨done, rest, ?_⟩
  rw [SecFido.setSecCtx]
  rw [Listens] at listens
  rw [SecFido.held] at stream
  cases listening : link.fido.listening with
  | idle =>
    rw [listening] at stream
    exact { inv with
      stream := stream
      reader := Or.inr ⟨rfl, SecCtxState.noConfusion⟩
      agreed := fun _ => agreed
      listens := SecCtxState.noConfusion }
  | atLower =>
    rw [listening] at stream listens
    exact { inv with
      stream := stream
      reader := Or.inr ⟨rfl, SecCtxState.noConfusion⟩
      agreed := fun _ => agreed
      listens := ⟨SecCtxState.noConfusion, listens.2⟩ }
  | parked packet =>
    rw [listening] at stream listens
    have empty := fits ⟨packet, listening⟩
    exact { inv with
      stream := stream
      reader := Or.inr ⟨rfl, SecCtxState.noConfusion⟩
      agreed := fun _ => agreed
      listens := ⟨rfl, rfl, empty, listens.2⟩ }
  | resuming packet =>
    rw [listening] at listens
    have set := listens.1
    rw [absent] at set
    exact absurd set.symm (Option.some_ne_none _)
  | lost =>
    rw [listening] at listens
    exact absurd listens id

theorem Listens.append {fido : SecFido} (listens : Listens ctx fido rest) (more : List SecPacket) :
    Listens ctx fido (rest ++ more) := by
  have holds : ∀ {packet : List UInt8}, Holds rest packet → Holds (rest ++ more) packet := by
    rintro packet ⟨first, others, front, held⟩
    exact ⟨first, others ++ more, by rw [front, cons_append], held⟩
  rw [Listens] at listens ⊢
  cases listening : fido.listening with
  | idle | atLower | lost =>
    rw [listening] at listens
    exact listens
  | parked packet =>
    rw [listening] at listens
    exact ⟨listens.1, holds listens.2⟩
  | resuming packet =>
    rw [listening] at listens
    exact ⟨listens.1, listens.2.1, listens.2.2.1, holds listens.2.2.2⟩

theorem encEnabled_of_writer {writerCtx : Option SecCtx}
    (writer : writerCtx = none ∨ writerCtx = some ctx)
    (known : ctx.noEnc = true ∨ writerCtx ≠ none) : encEnabled writerCtx = encEnabled
    (some ctx) := by
  rcases writer with none | some
  · rcases known with noEnc | set
    · rw [none]
      show false = !ctx.noEnc
      rw [noEnc]
      rfl
    · exact absurd none set
  · rw [some]

theorem Inv.written (inv : link.Inv auth ctx done rest) {packet : SecPacket}
    (isSealed : packet.Sealed auth ctx)
    (kind : packet.encrypted = encEnabled link.writerCtx) :
    Inv auth ctx { link with
      sent := link.sent ++ [packet]
      clears := if link.writerCtx = none then link.clears + 1 else link.clears
      wire := link.wire ++ packet.bytes } done (rest ++ [packet]) where
  sent := by
    rw [inv.sent, append_assoc]
  handed := inv.handed
  stream := by
    have stream := inv.stream
    rw [flatMap_append, ← stream, append_assoc, flatMap_singleton]
  allSealed := by
    exact forall_mem_append.2 ⟨inv.allSealed, forall_mem_singleton.2 isSealed⟩
  writer := inv.writer
  clears := by
    intro absent
    have none : link.writerCtx = .none := absent
    rw [if_pos none, inv.clears none, length_append, length_singleton]
  late := by
    intro other member
    rcases inv.writer with none | set
    · simp only [if_pos none, inv.clears none] at member
      rw [drop_of_length_le] at member
      · exact absurd member not_mem_nil
      · rw [length_append, length_singleton]
    · have present : link.writerCtx ≠ .none := by
        rw [set]
        exact Option.some_ne_none _
      simp only [if_neg present] at member
      rw [drop_append, mem_append] at member
      rcases member with old | new
      · exact inv.late other old
      · rw [mem_singleton.1 (mem_of_mem_drop new), kind, set]
  reader := inv.reader
  agreed := by
    intro set
    have agreed := inv.agreed set
    refine ⟨fun other member => ?_, agreed.2⟩
    rcases mem_append.1 member with old | new
    · exact agreed.1 other old
    · rw [mem_singleton.1 new, kind]
      exact encEnabled_of_writer inv.writer agreed.2
  listens := inv.listens.append _

theorem Inv.write (inv : link.Inv auth ctx done rest) (bufs : List (List UInt8)) :
    ∃ done rest, (link.write auth bufs).Inv auth ctx done rest := by
  rw [SecLink.write]
  cases made : doEncrypt auth link.writerCtx bufs with
  | none => exact ⟨done, rest, inv⟩
  | some bytes =>
    have isSealed : SecPacket.Sealed auth ctx ⟨bufs.flatten, bytes, encEnabled link.writerCtx⟩ :=
      ⟨link.writerCtx, bufs, inv.writer, made, rfl, rfl⟩
    exact ⟨done, _, inv.written isSealed rfl⟩

theorem Inv.setWriterCtx (inv : link.Inv auth ctx done rest)
    (moved : link.step auth ctx .setWriterCtx = some next) : next.Inv auth ctx done rest := by
  obtain ⟨none, ⟨⟩⟩ := Option.ite_none_right_eq_some.1 moved
  refine { inv with writer := Or.inr rfl, clears := fun absent => ?_, agreed := fun set => ?_ }
  · exact absurd absent (Option.some_ne_none _)
  · exact ⟨(inv.agreed set).1, Or.inr (Option.some_ne_none _)⟩

theorem Inv.step (inv : link.Inv auth ctx done rest) {move : SecMove} (fits : link.Fits move)
    (moved : link.step auth ctx move = some next) : ∃ done rest, next.Inv auth ctx done rest := by
  cases move with
  | write bufs =>
    cases moved
    exact inv.write bufs
  | setWriterCtx => exact ⟨done, rest, inv.setWriterCtx moved⟩
  | listen => exact inv.listen fits moved
  | receive event => exact inv.receive fits moved
  | setSecCtx => exact inv.setSecCtx fits moved
  | resume => exact inv.resume moved

end

theorem fits_listen (link : SecLink) : link.Fits .listen ↔
    (link.fido.waitSecCtx = .wait → (getPktCached link.fido.inBuf).holdsEncrypted = false) := by
  rw [Fits]
  apply imp_congr_right
  intro _
  cases getPktCached link.fido.inBuf with
  | again | badMagic => exact ⟨fun _ => rfl, fun _ _ _ same => PktCached.noConfusion same⟩
  | packet bytes rest encrypted =>
    cases encrypted with
    | false => exact ⟨fun _ => rfl, fun _ _ _ same => absurd (PktCached.packet.inj same).2.2 Bool.false_ne_true⟩
    | true => exact ⟨fun none => absurd rfl (none bytes rest), fun same => Bool.noConfusion same⟩

theorem fits_setSecCtx (link : SecLink) : link.Fits .setSecCtx ↔
    (link.fido.listening.isParked = true → link.fido.inBuf = []) := by
  rw [Fits]
  apply imp_congr_left
  cases link.fido.listening with
  | parked packet => exact ⟨fun _ => rfl, fun _ => ⟨packet, rfl⟩⟩
  | idle | atLower | resuming | lost =>
    exact ⟨fun ⟨_, same⟩ => ListenState.noConfusion same, fun same => Bool.noConfusion same⟩

instance (link : SecLink) (move : SecMove) : Decidable (link.Fits move) :=
  match move with
  | .listen =>
    decidable_of_iff (link.fido.waitSecCtx = .wait → (getPktCached link.fido.inBuf).holdsEncrypted = false)
      link.fits_listen.symm
  | .receive event => inferInstanceAs (Decidable (link.fido.inBuf.length + event.bufs.flatten.length ≤ maxBytesPerBuffer))
  | .setSecCtx => decidable_of_iff (link.fido.listening.isParked = true → link.fido.inBuf = []) link.fits_setSecCtx.symm
  | .write _ | .setWriterCtx | .resume => isTrue trivial


def reversing : Authenticate where
  wrapMessage payload := if 8 + payload.length ≤ maxBytesPerBuffer then some payload.reverse else none
  unwrapMessage wrapped := some wrapped.reverse
  getMicMsg payload := some (payload.take 1)
  verifyMicMsg payload mic := payload.take 1 == mic
  unwrap_wrap payload wrapped made := by
    obtain ⟨_, ⟨⟩⟩ := Option.ite_none_right_eq_some.1 made
    rw [List.reverse_reverse]
  verify_mic payload mic made := by
    cases made
    rw [beq_self_eq_true]
  wrapped_fits payload wrapped made := by
    obtain ⟨fits, ⟨⟩⟩ := Option.ite_none_right_eq_some.1 made
    rw [List.length_reverse]
    exact fits

end SecLink

end RpcFrmwrk.Rpc
