import RpcFrmwrk.Rpc.SecBounds
import RpcFrmwrk.Rpc.SecFidoRuns

/-! The security filter against a hostile peer over whole runs. The receive events bring any bytes,
the context may be set at any time and to anything, and the listen requests come in any order with
both. Owns the receiver that records the packets it takes and what `DecryptPkt` answers for each;
that it is `SecFido` as long as it stays inside its packets; that without a trap in the input every
payload handed up was opened, and when a step keeps this. -/

namespace RpcFrmwrk.Rpc

open RpcFrmwrk.Library List
open RpcFrmwrk.Ipc

/-- A call of `DecryptPkt`: the context in force, the packet and the payload, if there is one. -/
structure SecCall where
  secCtx : Option SecCtx
  packet : List UInt8
  payload : Option (List UInt8)
deriving DecidableEq, Repr

/-- `CRpcSecFido` with the packets of `GetPktCached` and the calls of `DecryptPkt`. `outside`
records that a call left its packet. -/
structure SecReceiver where
  fido : SecFido
  outside : Bool
  taken : List (List UInt8)
  calls : List SecCall
deriving DecidableEq, Repr

namespace SecReceiver

def new : SecReceiver := ⟨.new, false, [], []⟩

def decrypt (auth : Authenticate) (receiver : SecReceiver) (packet : List UInt8) (encrypted : Bool) :
    SecReceiver :=
  match decryptPktIn auth receiver.fido.secCtx packet encrypted with
  | none => { receiver with outside := true }
  | some payload =>
    { receiver with
      fido := receiver.fido.complete payload
      calls := receiver.calls ++ [⟨receiver.fido.secCtx, packet, payload⟩] }

/-- `CompleteListeningIrp` with the bytes gathered. -/
def completeWith (auth : Authenticate) (receiver : SecReceiver) (inBuf : List UInt8) : SecReceiver :=
  match getPktCached inBuf with
  | .badMagic => { receiver with fido := { receiver.fido with inBuf := inBuf }.complete none }
  | .again => { receiver with fido := { receiver.fido with inBuf := inBuf, listening := .atLower } }
  | .packet packet rest encrypted =>
    let receiver := { receiver with taken := receiver.taken ++ [packet] }
    if encrypted ∧ receiver.fido.waitSecCtx = .wait then
      { receiver with fido := { receiver.fido with inBuf := rest, listening := .parked packet } }
    else
      let waitSecCtx :=
        if encrypted ∧ receiver.fido.waitSecCtx = .completing then .ready else receiver.fido.waitSecCtx
      { receiver with fido := { receiver.fido with inBuf := rest, waitSecCtx := waitSecCtx } }.decrypt auth
        packet encrypted

/-- `CompleteListeningIrp`. An empty buffer is an error. -/
def completeListeningIrp (auth : Authenticate) (receiver : SecReceiver) (event : SockEvent) : SecReceiver :=
  if event = .single [] then { receiver with fido := receiver.fido.complete none }
  else
    match SecFido.gather receiver.fido.inBuf event with
    | none => { receiver with fido := receiver.fido.complete none }
    | some inBuf => receiver.completeWith auth inBuf

/-- `SubmitIoctlCmd` of a listen request. -/
def submitIoctlCmd (auth : Authenticate) (receiver : SecReceiver) : SecReceiver :=
  match getPktCached receiver.fido.inBuf with
  | .badMagic => { receiver with fido := receiver.fido.complete none }
  | .again => { receiver with fido := { receiver.fido with listening := .atLower } }
  | .packet packet rest encrypted =>
    let receiver :=
      { receiver with taken := receiver.taken ++ [packet], fido := { receiver.fido with inBuf := rest } }
    if encrypted ∧ receiver.fido.waitSecCtx = .wait then
      { receiver with fido := { receiver.fido with listening := .lost } }
    else if encrypted ∧ receiver.fido.waitSecCtx = .completing then
      { receiver with fido := receiver.fido.complete none }
    else receiver.decrypt auth packet encrypted

end SecReceiver

inductive SecInput where
  | listen
  | receive (event : SockEvent)
  | setSecCtx (ctx : SecCtx)
  | resume
deriving DecidableEq, Repr

def SecReceiver.step (auth : Authenticate) (receiver : SecReceiver) (input : SecInput) : Option SecReceiver :=
  if receiver.outside then none
  else
    match input with
    | .listen => if receiver.fido.listening = .idle then some (receiver.submitIoctlCmd auth) else none
    | .receive event =>
      if receiver.fido.listening = .atLower then some (receiver.completeListeningIrp auth event) else none
    | .setSecCtx ctx => some { receiver with fido := receiver.fido.setSecCtx ctx }
    | .resume =>
      match receiver.fido.listening with
      | .resuming packet => some (receiver.completeListeningIrp auth (.single packet))
      | _ => none

def secHostile (auth : Authenticate) : Machine SecReceiver SecInput where
  start := .new
  step := SecReceiver.step auth

/-- What the filter is to keep: it stays inside its packets, a packet has the size in its header,
what is handed up comes from `DecryptPkt`, and is opened if the context encrypts or signs. -/
structure SecRight (auth : Authenticate) (receiver : SecReceiver) : Prop where
  inside : receiver.outside = false
  sizes : ∀ packet ∈ receiver.taken, packet.length = 8 + announcedSize packet ∧ 8 ≤ packet.length
  handed : receiver.fido.handed.filterMap id = receiver.calls.filterMap SecCall.payload
  opened : ∀ call ∈ receiver.calls, ∀ ctx, call.secCtx = some ctx → ctx.noEnc = false →
    ∀ payload, call.payload = some payload → Opened auth ctx call.packet payload

def SecReceiver.EventFits (receiver : SecReceiver) (event : SockEvent) : Prop :=
  event ≠ .single [] → ∀ inBuf ∈ SecFido.gather receiver.fido.inBuf event,
    CacheFits receiver.fido.secCtx (receiver.fido.waitSecCtx != .wait) inBuf

instance (receiver : SecReceiver) (event : SockEvent) : Decidable (receiver.EventFits event) := by
  unfold SecReceiver.EventFits
  infer_instance

def ListenState.resumed : ListenState → Option (List UInt8)
  | .resuming packet => some packet
  | _ => none

def SecInput.Fits (receiver : SecReceiver) : SecInput → Prop
  | .listen => CacheFits receiver.fido.secCtx (receiver.fido.waitSecCtx == .ready) receiver.fido.inBuf
  | .receive event => receiver.EventFits event
  | .setSecCtx _ => True
  | .resume => ∀ packet ∈ receiver.fido.listening.resumed, receiver.EventFits (.single packet)

instance decidableInputFits (receiver : SecReceiver) (input : SecInput) : Decidable (input.Fits receiver) :=
  match input with
  | .listen => inferInstanceAs (Decidable (CacheFits _ _ _))
  | .receive event => inferInstanceAs (Decidable (receiver.EventFits event))
  | .setSecCtx _ => inferInstanceAs (Decidable True)
  | .resume =>
    inferInstanceAs (Decidable (∀ packet ∈ receiver.fido.listening.resumed, receiver.EventFits (.single packet)))

section

variable {auth : Authenticate} {receiver next : SecReceiver} {packet inBuf : List UInt8} {encrypted : Bool}

namespace SecReceiver

end SecReceiver

/-! ### What a step keeps -/

theorem SecRight.same (right : SecRight auth receiver) {fido : SecFido}
    (handed : fido.handed = receiver.fido.handed) : SecRight auth { receiver with fido := fido } where
  inside := right.inside
  sizes := right.sizes
  handed := by
    show fido.handed.filterMap id = _
    rw [handed]
    exact right.handed
  opened := right.opened

theorem SecRight.error (right : SecRight auth receiver) {fido : SecFido}
    (handed : fido.handed = receiver.fido.handed) :
    SecRight auth { receiver with fido := fido.complete none } where
  inside := right.inside
  sizes := right.sizes
  handed := by
    show (fido.handed ++ [none]).filterMap id = _
    rw [filterMap_append, handed, right.handed]
    exact append_nil _
  opened := right.opened

theorem secRight_taken (right : SecRight auth receiver) :
    SecRight auth { receiver with taken := receiver.taken ++ [packet] } ↔
      packet.length = 8 + announcedSize packet ∧ 8 ≤ packet.length := by
  constructor
  · intro grown
    exact grown.sizes packet (mem_append_right _ (mem_singleton_self packet))
  · intro size
    refine { right with sizes := fun taken member => ?_ }
    rcases mem_append.1 member with before | last
    · exact right.sizes taken before
    · rw [mem_singleton.1 last]
      exact size

theorem secRight_decrypt (right : SecRight auth receiver) (header : 8 ≤ packet.length)
    (known : encrypted = true →
      ofBE (packet.take 4) = encPacketMagic ∨ ofBE (packet.take 4) = signedPacketMagic) :
    SecRight auth (receiver.decrypt auth packet encrypted) ↔
      (encrypted = true → signing receiver.fido.secCtx = true → ofBE (packet.take 4) = signedPacketMagic →
        MicFits (packet.drop 8)) := by
  rw [← decryptTouches_le_iff header]
  unfold SecReceiver.decrypt decryptPktIn
  by_cases within : decryptTouches receiver.fido.secCtx packet encrypted ≤ packet.length
  · rw [if_pos within]
    refine ⟨fun _ => within, fun _ => ?_⟩
    constructor
    case inside => exact right.inside
    case sizes => exact right.sizes
    case handed =>
      show (receiver.fido.handed ++ [_]).filterMap id = (receiver.calls ++ [_]).filterMap SecCall.payload
      rw [filterMap_append, filterMap_append, right.handed]
      rfl
    case opened =>
      intro call member ctx inForce enabled payload isPayload
      rcases mem_append.1 member with before | last
      · exact right.opened call before ctx inForce enabled payload isPayload
      · rw [mem_singleton.1 last] at inForce isPayload ⊢
        replace inForce : receiver.fido.secCtx = some ctx := inForce
        replace isPayload : decryptPkt auth receiver.fido.secCtx packet encrypted = some payload := isPayload
        rw [inForce] at within isPayload
        exact opened_of_decryptPkt known within enabled isPayload
  · rw [if_neg within]
    exact ⟨fun never => (by cases never.inside), fun never => absurd never within⟩

theorem decrypt_taken : (receiver.decrypt auth packet encrypted).taken = receiver.taken := by
  unfold SecReceiver.decrypt
  split
  all_goals rfl

theorem secRight_open (right : SecRight auth receiver) {fido : SecFido} {rest : List UInt8} {decrypts : Bool}
    (handed : fido.handed = receiver.fido.handed) (secCtx : fido.secCtx = receiver.fido.secCtx)
    (cached : getPktCached inBuf = .packet packet rest encrypted)
    (opens : encrypted = true → decrypts = true) :
    SecRight auth
        (SecReceiver.decrypt auth { receiver with fido := fido, taken := receiver.taken ++ [packet] } packet
          encrypted) ↔
      CacheFits receiver.fido.secCtx decrypts inBuf := by
  obtain ⟨-, -, isPacket, kind⟩ := getPktCached_packet cached
  rw [cacheFits_packet cached]
  by_cases size : packet.length = 8 + announcedSize packet ∧ 8 ≤ packet.length
  · rw [and_iff_right size]
    have magic : packet.take 4 = inBuf.take 4 := by
      have header := size.2
      rw [isPacket, length_take] at header
      rw [isPacket, take_packet (by omega)]
    have known : encrypted = true →
        ofBE (packet.take 4) = encPacketMagic ∨ ofBE (packet.take 4) = signedPacketMagic := by
      intro isEncrypted
      rw [magic]
      rcases kind with ⟨-, either⟩ | ⟨clear, -⟩
      · exact either
      · rw [clear] at isEncrypted
        cases isEncrypted
    have grown : SecRight auth { receiver with fido := fido, taken := receiver.taken ++ [packet] } :=
      (secRight_taken (right.same handed)).2 size
    rw [secRight_decrypt grown size.2 known]
    dsimp only
    rw [secCtx]
    constructor
    · intro fits _ signs signed
      refine fits ?_ signs signed
      rcases kind with ⟨isEncrypted, -⟩ | ⟨-, clear⟩
      · exact isEncrypted
      · rw [magic, clear] at signed
        exact absurd signed (by decide)
    · intro fits isEncrypted signs signed
      exact fits (opens isEncrypted) signs signed
  · refine ⟨fun grown => absurd (grown.sizes packet ?_) size, fun never => absurd never.1 size⟩
    rw [decrypt_taken]
    exact mem_append_right _ (mem_singleton_self packet)

theorem secRight_wait {fido : SecFido} {rest : List UInt8}
    (recorded : SecRight auth { receiver with fido := fido })
    (cached : getPktCached inBuf = .packet packet rest encrypted) :
    SecRight auth { receiver with fido := fido, taken := receiver.taken ++ [packet] } ↔
      CacheFits receiver.fido.secCtx false inBuf := by
  rw [cacheFits_packet cached, secRight_taken recorded]
  exact ⟨fun size => ⟨size, fun never => (by cases never)⟩, And.left⟩

theorem secRight_completeWith (right : SecRight auth receiver) :
    SecRight auth (receiver.completeWith auth inBuf) ↔
      CacheFits receiver.fido.secCtx (receiver.fido.waitSecCtx != .wait) inBuf := by
  unfold SecReceiver.completeWith
  cases cached : getPktCached inBuf with
  | again => exact ⟨fun _ => cacheFits_of_again cached, fun _ => right.same rfl⟩
  | badMagic => exact ⟨fun _ => cacheFits_of_badMagic cached, fun _ => right.error rfl⟩
  | packet packet rest encrypted =>
    dsimp only
    by_cases waits : encrypted = true ∧ receiver.fido.waitSecCtx = .wait
    · rw [if_pos waits, waits.2]
      exact secRight_wait (right.same rfl) cached
    · rw [if_neg waits]
      refine secRight_open right rfl rfl cached fun isEncrypted => ?_
      exact bne_iff_ne.2 fun isWait => waits ⟨isEncrypted, isWait⟩

theorem secRight_event (right : SecRight auth receiver) (event : SockEvent) :
    SecRight auth (receiver.completeListeningIrp auth event) ↔ receiver.EventFits event := by
  unfold SecReceiver.completeListeningIrp SecReceiver.EventFits
  by_cases empty : event = .single []
  · rw [if_pos empty]
    exact ⟨fun _ some => absurd empty some, fun _ => right.error rfl⟩
  · rw [if_neg empty]
    cases gathered : SecFido.gather receiver.fido.inBuf event with
    | none => exact ⟨fun _ _ inBuf never => (by cases never), fun _ => right.error rfl⟩
    | some inBuf =>
      dsimp only
      rw [secRight_completeWith right]
      constructor
      · intro fits _ found member
        cases member
        exact fits
      · intro fits
        exact fits empty inBuf rfl

theorem secRight_listen (right : SecRight auth receiver) :
    SecRight auth (receiver.submitIoctlCmd auth) ↔
      CacheFits receiver.fido.secCtx (receiver.fido.waitSecCtx == .ready) receiver.fido.inBuf := by
  unfold SecReceiver.submitIoctlCmd
  cases cached : getPktCached receiver.fido.inBuf with
  | again => exact ⟨fun _ => cacheFits_of_again cached, fun _ => right.same rfl⟩
  | badMagic => exact ⟨fun _ => cacheFits_of_badMagic cached, fun _ => right.error rfl⟩
  | packet packet rest encrypted =>
    dsimp only
    by_cases waits : encrypted = true ∧ receiver.fido.waitSecCtx = .wait
    · rw [if_pos waits, waits.2]
      exact secRight_wait (right.same rfl) cached
    · rw [if_neg waits]
      by_cases completing : encrypted = true ∧ receiver.fido.waitSecCtx = .completing
      · rw [if_pos completing, completing.2]
        exact secRight_wait (right.error rfl) cached
      · rw [if_neg completing]
        refine secRight_open right rfl rfl cached fun isEncrypted => ?_
        cases state : receiver.fido.waitSecCtx with
        | wait => exact absurd ⟨isEncrypted, state⟩ waits
        | completing => exact absurd ⟨isEncrypted, state⟩ completing
        | ready => rfl

theorem handed_setSecCtx (fido : SecFido) (ctx : SecCtx) : (fido.setSecCtx ctx).handed = fido.handed := by
  unfold SecFido.setSecCtx
  split
  all_goals rfl

theorem secRight_step (right : SecRight auth receiver) {input : SecInput}
    (moved : receiver.step auth input = some next) : SecRight auth next ↔ input.Fits receiver := by
  unfold SecReceiver.step at moved
  have going : ¬receiver.outside = true := by
    rw [right.inside]
    decide
  rw [if_neg going] at moved
  cases input with
  | listen =>
    dsimp only at moved
    split at moved
    · cases moved
      exact secRight_listen right
    · cases moved
  | receive event =>
    dsimp only at moved
    split at moved
    · cases moved
      exact secRight_event right event
    · cases moved
  | setSecCtx ctx =>
    cases moved
    exact ⟨fun _ => trivial, fun _ => right.same (handed_setSecCtx _ _)⟩
  | resume =>
    dsimp only at moved
    split at moved
    next packet resumes =>
      cases moved
      rw [secRight_event right, SecInput.Fits, resumes]
      constructor
      · intro fits found member
        cases member
        exact fits
      · intro fits
        exact fits packet rfl
    next => cases moved

theorem secRight_new (auth : Authenticate) : SecRight auth .new where
  inside := rfl
  sizes _ never := by cases never
  handed := rfl
  opened _ never := by cases never

/-- Whatever a peer sends, and however it is cut: as long as no input is a trap the filter is right,
and the next step is if and only if its input is none. -/
theorem secRight_of_fits (auth : Authenticate) {receiver : SecReceiver}
    (reached : ((secHostile auth).restrict fun receiver input => input.Fits receiver).Reachable receiver) :
    SecRight auth receiver ∧
      ∀ input next, (secHostile auth).step receiver input = some next →
        (SecRight auth next ↔ input.Fits receiver) := by
  have right : SecRight auth receiver := by
    refine reached.invariant (secRight_new auth) fun before input next _ right moved => ?_
    obtain ⟨fits, moved⟩ := Machine.restrict_step.1 moved
    exact (secRight_step right moved).2 fits
  exact ⟨right, fun input next moved => secRight_step right moved⟩

end

/-- With a context that signs: a signed packet in two pieces, a clear one, one that is wrapped, and
one whose code is longer than its body. -/
theorem secRight_signing : ∃ receiver : SecReceiver,
    receiver.fido.handed = [some [9, 1], none, none, none] ∧ SecRight SecLink.reversing receiver := by
  have ran : (((secHostile SecLink.reversing).restrict fun receiver input => input.Fits receiver).run .new
      [.setSecCtx ⟨false, true⟩, .listen, .receive (.single (secPacketHeader signedPacketMagic 5 ++ [0, 1])),
        .receive (.single [9, 9, 1]), .listen, .receive (.single (secPacketHeader clearPacketMagic 1 ++ [7])),
        .listen, .receive (.single (secPacketHeader encPacketMagic 1 ++ [7])), .listen,
        .receive (.single (secPacketHeader signedPacketMagic 3 ++ [1, 0, 7]))]).map
        (fun receiver => receiver.fido.handed) = some [some [9, 1], none, none, none] := by
    decide +kernel
  obtain ⟨receiver, run, handed⟩ := Option.map_eq_some_iff.1 ran
  exact ⟨receiver, handed, (secRight_of_fits SecLink.reversing (Machine.Reachable.start.run run)).1⟩

/-- A signed packet with one byte: the size of the code is read behind it. -/
theorem outside_oneByteBody :
    ¬∀ auth receiver, (secHostile auth).Reachable receiver → SecRight auth receiver := by
  intro always
  have ran : ((secHostile SecLink.reversing).run .new
      [.setSecCtx ⟨false, true⟩, .listen,
        .receive (.single (secPacketHeader signedPacketMagic 1 ++ [0]))]).map SecReceiver.outside =
      some true := by
    decide +kernel
  obtain ⟨receiver, run, outside⟩ := Option.map_eq_some_iff.1 ran
  have inside := (always _ receiver (Machine.Reachable.start.run run)).inside
  rw [outside] at inside
  cases inside

end RpcFrmwrk.Rpc
