import RpcFrmwrk.Rpc.SecFido

/-! One packet of the security filter against the bytes a peer may send. A packet is opened in the
mode of the context: by `UnwrapMessage`, or by a code that is verified. The filter takes the packet
that the header announces, and reads no byte behind it. Owns the bytes of a packet that `DecryptPkt`
reads, and the call that knows the end of its packet; `Opened`, what a payload is under a context
that encrypts or signs; the sizes in the input that are no trap. -/

namespace RpcFrmwrk.Rpc

open RpcFrmwrk.Library List
open RpcFrmwrk.Ipc

def signing : Option SecCtx → Bool
  | some ctx => !ctx.noEnc && ctx.signMsg
  | none => false

def micSize (body : List UInt8) : Nat := ofBE (body.take 2)

/-- Where the bytes end that `VerifySignedMsg` reads: the size of the code, and the code if this
size is below that of the body. -/
def verifyTouches (body : List UInt8) : Nat :=
  if body = [] then 0
  else if body.length ≤ micSize body then 2
  else 2 + micSize body

/-- Where the bytes end that `DecryptPkt` reads. -/
def decryptTouches (secCtx : Option SecCtx) (packet : List UInt8) (encrypted : Bool) : Nat :=
  if packet.length < 8 ∨ encEnabled secCtx ≠ encrypted ∨ encrypted = false then 0
  else if signing secCtx ∧ ofBE (packet.take 4) = signedPacketMagic then 8 + verifyTouches (packet.drop 8)
  else 8

/-- `DecryptPkt` on a packet of its own: there is no result if the call reads behind it. -/
def decryptPktIn (auth : Authenticate) (secCtx : Option SecCtx) (packet : List UInt8) (encrypted : Bool) :
    Option (Option (List UInt8)) :=
  if decryptTouches secCtx packet encrypted ≤ packet.length then some (decryptPkt auth secCtx packet encrypted)
  else none

/-- The payload of a packet under a context that encrypts or signs: the packet is of the mode in
force, and the payload was unwrapped, or stands behind a code that was verified for it. -/
def Opened (auth : Authenticate) (ctx : SecCtx) (packet payload : List UInt8) : Prop :=
  if ctx.signMsg then
    ofBE (packet.take 4) = signedPacketMagic ∧
      ∃ mic, packet.drop 8 = toBE 2 mic.length ++ (mic ++ payload) ∧ auth.verifyMicMsg payload mic = true
  else ofBE (packet.take 4) = encPacketMagic ∧ auth.unwrapMessage (packet.drop 8) = some payload

def announcedSize (inBuf : List UInt8) : Nat := ofBE ((inBuf.drop 4).take 4)

/-- A body in which the size of the code is no trap: it is there, and the code is, or the size is
refused. -/
def MicFits (body : List UInt8) : Prop :=
  body = [] ∨ (2 ≤ body.length ∧ (body.length ≤ micSize body ∨ 2 + micSize body ≤ body.length))

instance (body : List UInt8) : Decidable (MicFits body) := inferInstanceAs (Decidable (_ ∨ _))

/-- The bytes in front are no trap: a header with a known magic does not announce a size that wraps
around, and a whole signed packet that is to be verified has a code that fits. -/
def CacheFits (secCtx : Option SecCtx) (decrypts : Bool) (inBuf : List UInt8) : Prop :=
  8 ≤ inBuf.length →
    ofBE (inBuf.take 4) = encPacketMagic ∨ ofBE (inBuf.take 4) = signedPacketMagic ∨
      ofBE (inBuf.take 4) = clearPacketMagic →
    announcedSize inBuf + 8 < 2 ^ 32 ∧
      (announcedSize inBuf + 8 ≤ inBuf.length → decrypts = true → signing secCtx = true →
        ofBE (inBuf.take 4) = signedPacketMagic → MicFits ((inBuf.drop 8).take (announcedSize inBuf)))

instance (secCtx : Option SecCtx) (decrypts : Bool) (inBuf : List UInt8) :
    Decidable (CacheFits secCtx decrypts inBuf) := by
  unfold CacheFits
  infer_instance

section

variable {auth : Authenticate} {secCtx : Option SecCtx} {ctx : SecCtx} {encrypted decrypts : Bool}
  {inBuf packet rest payload body : List UInt8}

/-! ### The packet in front -/

theorem getPktCached_packet (taken : getPktCached inBuf = .packet packet rest encrypted) :
    8 ≤ inBuf.length ∧ (announcedSize inBuf + 8) % 2 ^ 32 ≤ inBuf.length ∧
      packet = inBuf.take ((announcedSize inBuf + 8) % 2 ^ 32) ∧
      (encrypted = true ∧ (ofBE (inBuf.take 4) = encPacketMagic ∨ ofBE (inBuf.take 4) = signedPacketMagic) ∨
        encrypted = false ∧ ofBE (inBuf.take 4) = clearPacketMagic) := by
  unfold getPktCached at taken
  split at taken
  · cases taken
  · next long =>
      dsimp only at taken
      rw [← announcedSize] at taken
      split at taken
      next known =>
        split at taken
        next whole =>
          cases taken
          exact ⟨Nat.le_of_not_lt long, whole, rfl, Or.inl ⟨rfl, known⟩⟩
        next => cases taken
      next =>
        split at taken
        next known =>
          split at taken
          next whole =>
            cases taken
            exact ⟨Nat.le_of_not_lt long, whole, rfl, Or.inr ⟨rfl, known⟩⟩
          next => cases taken
        next => cases taken

theorem take_packet {size : Nat} (header : 8 ≤ size) : (inBuf.take size).take 4 = inBuf.take 4 := by
  rw [take_take, Nat.min_eq_left (by omega)]

theorem taken_iff (taken : getPktCached inBuf = .packet packet rest encrypted) :
    packet.length = 8 + announcedSize packet ∧ 8 ≤ packet.length ↔ announcedSize inBuf + 8 < 2 ^ 32 := by
  obtain ⟨long, whole, isPacket, -⟩ := getPktCached_packet taken
  have isLength : packet.length = (announcedSize inBuf + 8) % 2 ^ 32 := by
    rw [isPacket, length_take, Nat.min_eq_left whole]
  have small : announcedSize inBuf < 2 ^ 32 := by
    have fourBytes : ((inBuf.drop 4).take 4).length = 4 := by
      rw [length_take, length_drop]
      omega
    have bound := ofBE_lt ((inBuf.drop 4).take 4)
    rw [fourBytes] at bound
    exact bound
  constructor
  · rintro ⟨-, header⟩
    by_cases wraps : announcedSize inBuf + 8 < 2 ^ 32
    · exact wraps
    · omega
  · intro noWrap
    rw [Nat.mod_eq_of_lt noWrap] at isLength isPacket
    have same : announcedSize packet = announcedSize inBuf := by
      rw [announcedSize, announcedSize, isPacket, drop_take, take_take, Nat.min_eq_left (by omega)]
    rw [same, isLength]
    omega

theorem cacheFits_of_again (again : getPktCached inBuf = .again) : CacheFits secCtx decrypts inBuf := by
  intro long known
  unfold getPktCached at again
  rw [if_neg (Nat.not_lt_of_le long)] at again
  dsimp only at again
  rw [← announcedSize] at again
  have part : ¬(announcedSize inBuf + 8) % 2 ^ 32 ≤ inBuf.length := by
    intro whole
    rw [if_pos whole, if_pos whole] at again
    split at again
    · cases again
    · split at again
      all_goals cases again
  have noWrap : announcedSize inBuf + 8 < 2 ^ 32 := by
    by_cases wraps : announcedSize inBuf + 8 < 2 ^ 32
    · exact wraps
    · have fourBytes : ((inBuf.drop 4).take 4).length = 4 := by
        rw [length_take, length_drop]
        omega
      have bound := ofBE_lt ((inBuf.drop 4).take 4)
      rw [fourBytes, ← announcedSize] at bound
      omega
  refine ⟨noWrap, fun whole => ?_⟩
  rw [Nat.mod_eq_of_lt noWrap] at part
  exact absurd whole part

theorem cacheFits_of_badMagic (bad : getPktCached inBuf = .badMagic) : CacheFits secCtx decrypts inBuf := by
  intro long known
  unfold getPktCached at bad
  rw [if_neg (Nat.not_lt_of_le long)] at bad
  dsimp only at bad
  split at bad
  · split at bad
    all_goals cases bad
  next notSealed =>
    split at bad
    · split at bad
      all_goals cases bad
    next notClear =>
      rcases known with enc | signed | clear
      · exact absurd (Or.inl enc) notSealed
      · exact absurd (Or.inr signed) notSealed
      · exact absurd clear notClear

theorem cacheFits_packet (taken : getPktCached inBuf = .packet packet rest encrypted) :
    CacheFits secCtx decrypts inBuf ↔
      (packet.length = 8 + announcedSize packet ∧ 8 ≤ packet.length) ∧
        (decrypts = true → signing secCtx = true → ofBE (packet.take 4) = signedPacketMagic →
          MicFits (packet.drop 8)) := by
  obtain ⟨long, whole, isPacket, kind⟩ := getPktCached_packet taken
  have known : ofBE (inBuf.take 4) = encPacketMagic ∨ ofBE (inBuf.take 4) = signedPacketMagic ∨
      ofBE (inBuf.take 4) = clearPacketMagic := by
    rcases kind with ⟨-, enc | signed⟩ | ⟨-, clear⟩
    · exact Or.inl enc
    · exact Or.inr (Or.inl signed)
    · exact Or.inr (Or.inr clear)
  rw [taken_iff taken]
  by_cases noWrap : announcedSize inBuf + 8 < 2 ^ 32
  · rw [Nat.mod_eq_of_lt noWrap] at whole isPacket
    have body : packet.drop 8 = (inBuf.drop 8).take (announcedSize inBuf) := by
      rw [isPacket, drop_take, Nat.add_sub_cancel]
    have magic : packet.take 4 = inBuf.take 4 := by
      rw [isPacket, take_packet (by omega)]
    rw [body, magic]
    exact ⟨fun fits => ⟨noWrap, (fits long known).2 whole⟩, fun both _ _ => ⟨noWrap, fun _ => both.2⟩⟩
  · exact ⟨fun fits => absurd (fits long known).1 noWrap, fun both => absurd both.1 noWrap⟩

theorem verifySignedMsg_some (fits : MicFits body) (verified : verifySignedMsg auth body = some payload) :
    ∃ mic, body = toBE 2 mic.length ++ (mic ++ payload) ∧ auth.verifyMicMsg payload mic = true := by
  unfold verifySignedMsg at verified
  obtain ⟨some, verified⟩ := Option.ite_none_left_eq_some.1 verified
  dsimp only at verified
  rw [← micSize] at verified
  split at verified
  · cases verified
  · next below =>
      split at verified
      next accepted =>
        cases verified
        rcases fits with empty | ⟨two, refused | inside⟩
        · exact absurd empty some
        · exact absurd refused below
        · have twoBytes : (body.take 2).length = 2 := by
            rw [length_take]
            omega
          have isMic : ((body.drop 2).take (micSize body)).length = micSize body := by
            rw [length_take, length_drop]
            omega
          refine ⟨(body.drop 2).take (micSize body), ?_, accepted⟩
          have size : toBE 2 (micSize body) = body.take 2 := by
            have back := toBE_ofBE (body.take 2)
            rwa [twoBytes] at back
          rw [isMic, size, ← drop_drop, take_append_drop, take_append_drop]
      next => cases verified

theorem verifyTouches_le_iff : verifyTouches body ≤ body.length ↔ MicFits body := by
  unfold verifyTouches MicFits
  by_cases empty : body = []
  · rw [if_pos empty]
    exact ⟨fun _ => Or.inl empty, fun _ => Nat.zero_le _⟩
  · rw [if_neg empty, or_iff_right empty]
    by_cases refused : body.length ≤ micSize body
    · rw [if_pos refused]
      exact ⟨fun two => ⟨two, Or.inl refused⟩, And.left⟩
    · rw [if_neg refused]
      omega

theorem decryptTouches_le_iff (header : 8 ≤ packet.length) :
    decryptTouches secCtx packet encrypted ≤ packet.length ↔
      (encrypted = true → signing secCtx = true → ofBE (packet.take 4) = signedPacketMagic →
        MicFits (packet.drop 8)) := by
  have enabled : signing secCtx = true → encEnabled secCtx = true := by
    intro signs
    cases secCtx with
    | none => cases signs
    | some ctx =>
      rw [signing, Bool.and_eq_true] at signs
      exact signs.1
  unfold decryptTouches
  by_cases skipped : packet.length < 8 ∨ encEnabled secCtx ≠ encrypted ∨ encrypted = false
  · rw [if_pos skipped]
    refine ⟨fun _ isEncrypted signs _ => ?_, fun _ => Nat.zero_le _⟩
    rcases skipped with short | other | clear
    · omega
    · exact absurd ((enabled signs).trans isEncrypted.symm) other
    · rw [clear] at isEncrypted
      cases isEncrypted
  · rw [if_neg skipped]
    have isEncrypted : encrypted = true := by
      refine Bool.eq_true_of_not_eq_false fun clear => skipped (Or.inr (Or.inr clear))
    by_cases verifies : signing secCtx = true ∧ ofBE (packet.take 4) = signedPacketMagic
    · rw [if_pos verifies, ← verifyTouches_le_iff, length_drop]
      constructor
      · intro inside _ _ _
        omega
      · intro inside
        have within := inside isEncrypted verifies.1 verifies.2
        omega
    · rw [if_neg verifies]
      exact ⟨fun _ _ signs signed => absurd ⟨signs, signed⟩ verifies, fun _ => header⟩

/-- What `DecryptPkt` answers with a payload under a context that encrypts or signs was opened. -/
theorem opened_of_decryptPkt (known : encrypted = true →
      ofBE (packet.take 4) = encPacketMagic ∨ ofBE (packet.take 4) = signedPacketMagic)
    (inside : decryptTouches (some ctx) packet encrypted ≤ packet.length)
    (enabled : ctx.noEnc = false) (decrypted : decryptPkt auth (some ctx) packet encrypted = some payload) :
    Opened auth ctx packet payload := by
  unfold decryptPkt at decrypted
  split at decrypted
  · cases decrypted
  next long =>
    have header := Nat.le_of_not_lt long
    split at decrypted
    · cases decrypted
    next same =>
      have isEncrypted : encrypted = true := by
        rw [encEnabled, enabled] at same
        exact (Decidable.not_not.1 same).symm
      rw [isEncrypted] at decrypted inside
      dsimp only at decrypted
      rw [Bool.not_true, if_neg (by decide)] at decrypted
      split at decrypted
      · cases decrypted
      next mode =>
        unfold Opened
        split at decrypted
        next signs =>
          have signed : ofBE (packet.take 4) = signedPacketMagic :=
            (known isEncrypted).resolve_left fun enc => mode (Or.inr ⟨signs, enc⟩)
          have fits := (decryptTouches_le_iff header).1 inside rfl (by rw [signing, enabled, signs]; rfl) signed
          rw [if_pos signs]
          exact ⟨signed, verifySignedMsg_some fits decrypted⟩
        next wraps =>
          have notSigns : (!ctx.signMsg) = true := by
            rw [Bool.eq_false_of_not_eq_true wraps]
            rfl
          have enc : ofBE (packet.take 4) = encPacketMagic :=
            (known isEncrypted).resolve_right fun signed => mode (Or.inl ⟨notSigns, signed⟩)
          rw [if_neg wraps]
          exact ⟨enc, decrypted⟩

end

end RpcFrmwrk.Rpc
