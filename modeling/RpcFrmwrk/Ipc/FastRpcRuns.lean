import Mathlib.Algebra.Order.BigOperators.Group.List
import RpcFrmwrk.ConfigDb.Converse
import RpcFrmwrk.Ipc.FastRpc
import RpcFrmwrk.Library.Brackets

/-! The runs of a stream of the fast RPC. Owns `Reassembled`, what is to hold of the messages that
are dispatched, and of the requests that wait for one; `Fits`, when a run keeps it; `Foreign`, the
buffers that are no messages, and when a method refuses them without a look behind them. -/

namespace RpcFrmwrk.Ipc

open RpcFrmwrk.Library RpcFrmwrk.ConfigDb List

variable {H : ConfigHost}

def StmInfo.content (info : StmInfo H) (msg : List (Int32 × Value H)) : List (Int32 × Value H) :=
  msg.filter fun property => property.1 ≠ propSrcDBusName ∧ (property.1 = propContext → info.session = none)

def ChanCall.Returned : ChanCall H → Prop
  | .done => True
  | _ => False

instance (call : ChanCall H) : Decidable call.Returned :=
  match call with
  | .done => isTrue trivial
  | .look | .reading .. | .filling .. | .dispatchData | .dispatching .. => isFalse id

namespace StmChan

def messages (pieces : List (Piece H)) : List (List (Int32 × Value H)) := pieces.filterMap Piece.whole

/-- The messages that are dispatched are the first ones that were sent, and there are no more of
them than requests. When no call and no task goes on, a request waits only if every message that
has come whole is dispatched. -/
structure Reassembled (info : StmInfo H) (chan : StmChan H) : Prop where
  inOrder : chan.dispatched.map info.content <+: (messages (chan.arrived ++ chan.wire)).map info.content
  requested : chan.dispatched.length ≤ chan.requests
  prompt : (∀ call ∈ chan.calls, call.Returned) →
    chan.dispatched.length = (messages chan.arrived).length ∨ chan.dwReqCount = 0

def Accepts : ChanEvent H → Prop
  | .dispatch _ accepted => accepted = true
  | _ => True

instance (event : ChanEvent H) : Decidable (Accepts event) :=
  match event with
  | .dispatch _ accepted => inferInstanceAs (Decidable (accepted = true))
  | .send .. | .addRecvReq | .onStmRecv | .look _ | .read _ | .fill .. | .take _ | .stop => isTrue trivial

/-- A message as `FASTRPC_MSG::Serialize` can write it and `Deserialize` reads it back. -/
def SoundMsg (config : ConfigDb2 H) : Prop :=
  config.props.length ≤ cfgdbMaxItem ∧
    (capacity (fastrpcHeader + seriHeader + H.qpage) (fastrpcHeader + seriHeader) config.props).isSome = true ∧
    SoundProps config.props

def Unfinished (chan : StmChan H) (bytes : List UInt8) : Prop :=
  ∀ headBuf ∈ chan.queBuf.head?, headBuf.length - 4 + bytes.length ≠ ofBE (headBuf.take 4)

/-- The next step of the call is in order: the buffer it has read is the next one to be filled,
and the message it has taken the next one to be dispatched. -/
def InTurn (chan : StmChan H) : ChanCall H → Prop
  | .filling _ _ place bytes => place = chan.fills ∧ chan.Unfinished bytes
  | .dispatching place (_ :: _) _ => place = chan.dispatched.length
  | _ => True

instance (chan : StmChan H) (call : ChanCall H) : Decidable (chan.InTurn call) :=
  match call with
  | .filling _ _ place bytes => inferInstanceAs (Decidable (place = chan.fills ∧
      ∀ headBuf ∈ chan.queBuf.head?, headBuf.length - 4 + bytes.length ≠ ofBE (headBuf.take 4)))
  | .dispatching place (_ :: _) _ => inferInstanceAs (Decidable (place = chan.dispatched.length))
  | .dispatching _ [] _ | .look | .reading .. | .dispatchData | .done => isTrue trivial

/-- Every message is sound; the interface is connected where a buffer is read and where messages
are taken; no buffer completes a message of several buffers; buffers are filled in the order in
which they were read, and messages dispatched in the order in which they were taken; and the
port accepts them. -/
def Fits (chan : StmChan H) : ChanEvent H → Prop
  | .send config _ => SoundMsg config
  | .read _ | .take _ => chan.connected = true
  | .fill call _ _ => ∀ caller ∈ chan.calls[call]?, chan.InTurn caller
  | .dispatch call accepted => accepted = true ∧ ∀ caller ∈ chan.calls[call]?, chan.InTurn caller
  | _ => True

instance (chan : StmChan H) (event : ChanEvent H) : Decidable (chan.Fits event) :=
  match event with
  | .send config _ => inferInstanceAs (Decidable (config.props.length ≤ cfgdbMaxItem ∧
      (capacity (fastrpcHeader + seriHeader + H.qpage) (fastrpcHeader + seriHeader) config.props).isSome = true ∧
      SoundProps config.props))
  | .read _ | .take _ => inferInstanceAs (Decidable (chan.connected = true))
  | .fill call _ _ => inferInstanceAs (Decidable (∀ caller ∈ chan.calls[call]?, chan.InTurn caller))
  | .dispatch call accepted =>
    inferInstanceAs (Decidable (accepted = true ∧ ∀ caller ∈ chan.calls[call]?, chan.InTurn caller))
  | .addRecvReq | .onStmRecv | .look _ | .stop => isTrue trivial

end StmChan

/-- A buffer that is no message and no piece of one: it is shorter than the header, its size
field is zero or too large, or it is longer than the field says. -/
def Foreign (queBuf : List (List UInt8)) (block : Block) : Prop :=
  match queBuf with
  | [] => block.bytes.length < 4 ∨ block.dwSize = 0 ∨ maxBytesPerBuffer < block.dwSize ∨
      block.dwSize < block.bytes.length - 4 ∨
      block.bytes.length < fastrpcHeader ∧ block.bytes.length - 4 = block.dwSize
  | headBuf :: _ => ofBE (headBuf.take 4) < headBuf.length - 4 + block.bytes.length

def Refused (read : Read (StmInfo.Filled H × List (List UInt8))) : Prop := read.answer.1 = .error ∧ read.outside = false

/-- The size field is in the buffer, and the type and the signature are where they are read. -/
def Inside (queBuf : List (List UInt8)) (block : Block) : Prop :=
  queBuf = [] → 4 ≤ block.bytes.length ∧
    (block.bytes.length < fastrpcHeader → block.bytes.length - 4 = block.dwSize →
      5 ≤ block.bytes.length ∧ (block.bytes.drop 4).take 1 ≠ fastrpcTag.take 1)

/-- `Deserialize` leaves before it reads behind the buffer, and it does not come to its end. -/
def RefusedMsg (block : Block) : Prop :=
  4 ≤ block.bytes.length ∧ (block.dwSize ≤ block.bytes.length →
    5 ≤ block.bytes.length ∧ ((block.bytes.drop 4).take 1 = fastrpcTag.take 1 →
      fastrpcHeader ≤ block.bytes.length ∧ ((block.bytes.drop 5).take 3 = fastrpcTag.drop 1 →
        block.bytes.length = fastrpcHeader ∨
          ConfigDb.deserialize (H := H) (block.bytes.drop fastrpcHeader) = none)))

namespace Block

variable {block : Block}

theorem load_inside {offset count : Nat} (inside : offset + count ≤ block.bytes.length) :
    block.load offset count = (block.bytes.drop offset).take count := by
  apply ext_getElem?
  intro index
  by_cases within : index < count
  · have present : offset + index < block.bytes.length := Nat.lt_of_lt_of_le (Nat.add_lt_add_left within _) inside
    rw [load, List.getElem?_map, List.getElem?_range within, Option.map_some, List.getElem?_take_of_lt within,
      List.getElem?_drop, List.getElem?_eq_getElem present, Option.getD_some]
  · have short : (block.load offset count).length ≤ index := by
      rw [load, length_map, length_range]
      exact Nat.le_of_not_lt within
    have shortTake : ((block.bytes.drop offset).take count).length ≤ index :=
      Nat.le_trans (length_take_le _ _) (Nat.le_of_not_lt within)
    rw [List.getElem?_eq_none short, List.getElem?_eq_none shortTake]

theorem dwSize_inside (inside : 4 ≤ block.bytes.length) : block.dwSize = ofBE (block.bytes.take 4) := by
  rw [dwSize, load_inside (by omega), drop_zero]

end Block

/-! ### A message that is sound -/

namespace FastrpcMsg

def wireOf (props : List (Int32 × Value H)) : List UInt8 :=
  toBE 4 (20 + sizeProps props) ++ (fastrpcTag ++ (Value.config props).layout)

theorem length_wireOf (props : List (Int32 × Value H)) : (wireOf props).length = 24 + sizeProps props := by
  rw [wireOf, length_append, length_append, length_toBE, Value.length_layout, Value.size]
  have tag : fastrpcTag.length = 4 := rfl
  omega

variable {config : ConfigDb2 H}

theorem finish_wireOf (props : List (Int32 × Value H)) (cap : Nat) :
    finish ⟨toBE 4 0 ++ fastrpcTag ++ header 0 props.length ++ layoutProps props, cap⟩ = wireOf props := by
  have front : (toBE 4 0 ++ fastrpcTag ++ header 0 props.length ++ layoutProps props).drop 4 =
      fastrpcTag ++ (header 0 props.length ++ layoutProps props) := by
    rw [append_assoc, append_assoc]
    exact drop_left' (length_toBE 4 0)
  have object : (toBE 4 0 ++ fastrpcTag ++ header 0 props.length ++ layoutProps props).drop fastrpcHeader =
      header 0 props.length ++ layoutProps props := by
    rw [append_assoc]
    exact drop_left' rfl
  have size : (toBE 4 0 ++ fastrpcTag ++ header 0 props.length ++ layoutProps props).length - 4 = 20 + sizeProps props := by
    rw [length_append, length_append, length_append, length_toBE, length_header, length_layoutProps]
    have tag : fastrpcTag.length = 4 := rfl
    omega
  have tag : (fastrpcTag ++ (header 0 props.length ++ layoutProps props)).take 4 = fastrpcTag := take_left' rfl
  rw [finish]
  dsimp only
  rw [size, object, front, tag, finish_header, length_layoutProps, append_assoc]
  rfl

theorem serialize_eq {bytes : List UInt8} (sound : StmChan.SoundMsg config)
    (written : serialize config.props = some bytes) :
    bytes = wireOf config.props ∧ bytes.length ≤ maxBytesPerBuffer := by
  obtain ⟨few, fits, inner⟩ := sound
  obtain ⟨last, grown⟩ := Option.isSome_iff_exists.1 fits
  obtain ⟨page, written⟩ := Option.ite_none_left_eq_some.1 written
  have within : fastrpcHeader + seriHeader + H.qpage ≤ maxBytesPerBuffer := Nat.le_of_not_lt page
  have count : config.props.length % 2 ^ 32 = config.props.length := by
    apply Nat.mod_eq_of_lt
    unfold cfgdbMaxItem at few
    omega
  have length : (toBE 4 0 ++ fastrpcTag ++ header 0 config.props.length).length = fastrpcHeader + seriHeader := by
    rw [length_append, length_header]
    rfl
  have put := serializeProps_sound config.props inner (toBE 4 0 ++ fastrpcTag ++ header 0 config.props.length)
    (fastrpcHeader + seriHeader + H.qpage) within (by rw [length]; exact grown)
  have small := size_le_of_capacity within (Nat.le_add_right _ _) grown
  rw [count, put, Option.map_some, finish_wireOf, Option.some.injEq] at written
  rw [← written, length_wireOf]
  exact ⟨rfl, small⟩

theorem sizeProps_lt (small : (wireOf config.props).length ≤ maxBytesPerBuffer) :
    20 + sizeProps config.props < 256 ^ 4 := by
  rw [length_wireOf] at small
  have limit : maxBytesPerBuffer < 256 ^ 4 := by decide
  omega

theorem size_of_begun {begun rest : List UInt8} (long : 4 ≤ begun.length)
    (joined : begun ++ rest = wireOf config.props)
    (small : (wireOf config.props).length ≤ maxBytesPerBuffer) :
    ofBE (begun.take 4) = begun.length + rest.length - 4 := by
  have length : begun.length + rest.length = 24 + sizeProps config.props := by
    rw [← length_append, joined, length_wireOf]
  have field : begun.take 4 = toBE 4 (20 + sizeProps config.props) := by
    have front : (begun ++ rest).take 4 = begun.take 4 := take_append_of_le_length long
    rw [← front, joined]
    exact take_left' (length_toBE 4 _)
  rw [field, ofBE_toBE_of_lt (sizeProps_lt small), length]
  omega

theorem deserialize_wireOf (sound : StmChan.SoundMsg config)
    (small : (wireOf config.props).length ≤ maxBytesPerBuffer) (behind : Nat → UInt8) :
    deserialize ⟨wireOf config.props, behind⟩ = ⟨some config.props, false⟩ := by
  have length := length_wireOf config.props
  have size : Block.dwSize ⟨wireOf config.props, behind⟩ = 20 + sizeProps config.props := by
    rw [Block.dwSize_inside (by rw [length]; omega)]
    have field := size_of_begun (by rw [length]; omega) (append_nil _) small
    rw [field, length, length_nil]
    omega
  have tag : (wireOf config.props).drop 4 = fastrpcTag ++ (Value.config config.props).layout :=
    drop_left' (length_toBE 4 _)
  have type : Block.load ⟨wireOf config.props, behind⟩ 4 1 = fastrpcTag.take 1 := by
    rw [Block.load_inside (by rw [length]; omega)]
    dsimp only
    rw [tag]
    rfl
  have signature : Block.load ⟨wireOf config.props, behind⟩ 5 3 = fastrpcTag.drop 1 := by
    rw [Block.load_inside (by rw [length]; omega)]
    dsimp only
    rw [← drop_drop (i := 1) (j := 4), tag]
    rfl
  have object : (wireOf config.props).drop fastrpcHeader = (Value.config config.props).layout := by
    rw [fastrpcHeader, ← drop_drop (i := 4) (j := 4), tag]
    rfl
  have read : ConfigDb.deserialize (Value.config config.props).layout = some config.props :=
    deserialize_layout sound.1 sound.2.2 (by omega)
  rw [deserialize]
  dsimp only
  rw [size, length, type, signature, if_neg (by omega), if_neg (not_not_intro rfl), if_neg (not_not_intro rfl),
    if_neg (by rw [fastrpcHeader]; omega), object, read]

end FastrpcMsg

theorem filter_setProperty {props : List (Int32 × Value H)} {key : Int32} {value : Value H}
    {keeps : Int32 × Value H → Bool} (ignored : ∀ value, keeps (key, value) = false) :
    (setProperty props key value).filter keeps = props.filter keeps := by
  induction props with
  | nil =>
    rw [setProperty, filter_cons_of_neg (Bool.eq_false_iff.1 (ignored value))]
  | cons head tail ih =>
    obtain ⟨first, old⟩ := head
    by_cases same : first = key
    · rw [setProperty, if_pos same, filter_cons_of_neg (Bool.eq_false_iff.1 (ignored value)), same,
        filter_cons_of_neg (Bool.eq_false_iff.1 (ignored old))]
    · rw [setProperty, if_neg same, filter_cons, filter_cons, ih]

namespace StmInfo

variable (info : StmInfo H)

theorem content_received (time : UInt64) (msg : List (Int32 × Value H)) :
    info.content (info.received time msg) = info.content msg := by
  have sender : info.content (setProperty msg propSrcDBusName (.string info.strSender)) = info.content msg := by
    apply filter_setProperty
    intro value
    apply decide_eq_false
    intro other
    exact other.1 rfl
  rw [received, buildNewMsgToSvr.eq_def]
  cases server : info.session with
  | none => exact sender
  | some session =>
    dsimp only
    rw [← sender]
    apply filter_setProperty
    intro value
    apply decide_eq_false
    intro other
    exact Option.some_ne_none session (server.symm.trans (other.2 rfl))

variable {config : ConfigDb2 H} {time : UInt64} {behind : Nat → UInt8}

theorem payload_eq {length : Nat} (long : 4 ≤ length) (small : length ≤ maxBytesPerBuffer) :
    (length + 2 ^ 32 - 4) % 2 ^ 32 = length - 4 := by
  have limit : maxBytesPerBuffer < 2 ^ 32 := by decide
  omega

theorem fillReadBuf_whole (sound : StmChan.SoundMsg config)
    (small : (FastrpcMsg.wireOf config.props).length ≤ maxBytesPerBuffer) :
    (info.fillReadBuf time [] ⟨FastrpcMsg.wireOf config.props, behind⟩).answer =
      (.message (info.received time config.props), []) := by
  have long : 4 ≤ (FastrpcMsg.wireOf config.props).length := by
    rw [FastrpcMsg.length_wireOf]
    omega
  have size : Block.dwSize ⟨FastrpcMsg.wireOf config.props, behind⟩ = (FastrpcMsg.wireOf config.props).length - 4 := by
    rw [Block.dwSize_inside long]
    exact FastrpcMsg.size_of_begun long (append_nil _) small
  rw [fillReadBuf]
  dsimp only
  rw [size, payload_eq long small, if_neg (by omega), if_pos rfl, FastrpcMsg.deserialize_wireOf sound small]

theorem fillReadBuf_first {bytes rest : List UInt8} (long : 4 ≤ bytes.length) (more : rest ≠ [])
    (joined : bytes ++ rest = FastrpcMsg.wireOf config.props)
    (small : (FastrpcMsg.wireOf config.props).length ≤ maxBytesPerBuffer) :
    (info.fillReadBuf time [] ⟨bytes, behind⟩).answer = (.more, [bytes]) := by
  have positive := length_pos_of_ne_nil more
  have length : bytes.length + rest.length ≤ maxBytesPerBuffer := by
    rw [← length_append, joined]
    exact small
  have size : Block.dwSize ⟨bytes, behind⟩ = bytes.length + rest.length - 4 := by
    rw [Block.dwSize_inside long]
    exact FastrpcMsg.size_of_begun long joined small
  rw [fillReadBuf]
  dsimp only
  rw [size, payload_eq long (by omega), if_neg (by omega), if_neg (by omega), if_pos (by omega)]

theorem fillReadBuf_next {begun bytes rest : List UInt8} (long : 4 ≤ begun.length)
    (some : bytes ≠ [])
    (more : rest ≠ []) (joined : begun ++ bytes ++ rest = FastrpcMsg.wireOf config.props)
    (small : (FastrpcMsg.wireOf config.props).length ≤ maxBytesPerBuffer) :
    (info.fillReadBuf time [begun] ⟨bytes, behind⟩).answer = (.more, [begun ++ bytes]) := by
  have positive := length_pos_of_ne_nil more
  have present := length_pos_of_ne_nil some
  have length : begun.length + bytes.length + rest.length ≤ maxBytesPerBuffer := by
    rw [← length_append, ← length_append, joined]
    exact small
  have size : ofBE (begun.take 4) = begun.length + (bytes ++ rest).length - 4 :=
    FastrpcMsg.size_of_begun long (by rw [← append_assoc]; exact joined) small
  have limit : maxBytesPerBuffer ≤ bufMaxSize := by decide
  have appended : appendBuf begun bytes = Option.some (begun ++ bytes) := by
    rw [appendBuf, if_neg (by omega)]
  rw [length_append] at size
  rw [fillReadBuf]
  dsimp only
  rw [size, if_neg (by omega), if_pos (by omega), appended]

theorem complete_of_last {begun bytes : List UInt8} (long : 4 ≤ begun.length)
    (joined : begun ++ bytes = FastrpcMsg.wireOf config.props)
    (small : (FastrpcMsg.wireOf config.props).length ≤ maxBytesPerBuffer) :
    begun.length - 4 + bytes.length = ofBE (begun.take 4) := by
  rw [FastrpcMsg.size_of_begun long joined small]
  omega

end StmInfo

/-! ### Pieces of sound messages -/

/-- Behind the bytes of a message that has begun, pieces that complete it and those of other
messages. -/
inductive Framed : List UInt8 → List (Piece H) → Prop where
  | done : Framed [] []
  | last {begun bytes : List UInt8} {rest : List (Piece H)} {config : ConfigDb2 H}
      (sound : StmChan.SoundMsg config) (present : bytes ≠ [])
      (joined : begun ++ bytes = FastrpcMsg.wireOf config.props)
      (small : (FastrpcMsg.wireOf config.props).length ≤ maxBytesPerBuffer) (behind : Framed [] rest) :
      Framed begun (⟨bytes, some config.props⟩ :: rest)
  | more {begun bytes : List UInt8} {rest : List (Piece H)} (present : bytes ≠ [])
      (long : 4 ≤ (begun ++ bytes).length) (behind : Framed (begun ++ bytes) rest) :
      Framed begun (⟨bytes, none⟩ :: rest)

namespace Framed

variable {begun : List UInt8} {pieces : List (Piece H)}

theorem message (framed : Framed begun pieces) (started : begun ≠ []) :
    ∃ (config : ConfigDb2 H) (rest : List UInt8), rest ≠ [] ∧ begun ++ rest = FastrpcMsg.wireOf config.props ∧
      (FastrpcMsg.wireOf config.props).length ≤ maxBytesPerBuffer := by
  induction framed with
  | done => exact absurd rfl started
  | last sound present joined small behind ih => exact ⟨_, _, present, joined, small⟩
  | more present long behind ih =>
    obtain ⟨config, rest, _, joined, small⟩ := ih (append_ne_nil_of_right_ne_nil _ present)
    exact ⟨config, _, append_ne_nil_of_left_ne_nil present rest, (append_assoc _ _ _).symm.trans joined, small⟩

theorem append (framed : Framed begun pieces) {others : List (Piece H)} (next : Framed [] others) :
    Framed begun (pieces ++ others) := by
  induction framed with
  | done => exact next
  | last sound present joined small behind ih =>
    exact .last sound present joined small ih
  | more present long behind ih => exact .more present long ih

end Framed

theorem framed_cutOf {config : ConfigDb2 H} (sound : StmChan.SoundMsg config)
    (small : (FastrpcMsg.wireOf config.props).length ≤ maxBytesPerBuffer) {begun : List UInt8}
    {pieces : List (List UInt8)} (some : pieces ≠ []) (present : [] ∉ pieces)
    (long : 4 ≤ (begun ++ pieces.headD []).length)
    (joined : begun ++ pieces.flatten = FastrpcMsg.wireOf config.props) :
    Framed begun (cutOf config.props pieces) := by
  induction pieces generalizing begun with
  | nil => exact absurd rfl some
  | cons bytes rest ih =>
    cases rest with
    | nil =>
      have only : bytes ≠ [] := fun empty => present (mem_singleton.2 empty.symm)
      rw [flatten_singleton] at joined
      exact .last sound only joined small .done
    | cons next rest =>
      have head : bytes ≠ [] := fun empty => present (mem_cons.2 (.inl empty.symm))
      have tail : [] ∉ next :: rest := fun member => present (mem_cons_of_mem _ member)
      have longer : 4 ≤ (begun ++ bytes ++ (next :: rest).headD []).length := by
        rw [length_append]
        exact Nat.le_trans long (Nat.le_add_right _ _)
      apply Framed.more head long
      apply ih (cons_ne_nil _ _) tail longer
      rw [append_assoc]
      exact joined

/-- A piece that completes no message of several buffers is a message of its own, or goes behind
what has begun. -/
theorem Framed.fill (info : StmInfo H) {time : UInt64} {behind : Nat → UInt8} {begun : List UInt8}
    {piece : Piece H} {rest : List (Piece H)} (framed : Framed begun (piece :: rest))
    (long : begun = [] ∨ 4 ≤ begun.length)
    (unfinished : begun ≠ [] → begun.length - 4 + piece.bytes.length ≠ ofBE (begun.take 4)) :
    (∃ config : ConfigDb2 H, piece.whole = some config.props ∧ Framed [] rest ∧
      (info.fillReadBuf time (if begun = [] then [] else [begun]) ⟨piece.bytes, behind⟩).answer =
        (.message (info.received time config.props), [])) ∨
    (piece.whole = none ∧ begun ++ piece.bytes ≠ [] ∧ 4 ≤ (begun ++ piece.bytes).length ∧
      Framed (begun ++ piece.bytes) rest ∧
      (info.fillReadBuf time (if begun = [] then [] else [begun]) ⟨piece.bytes, behind⟩).answer =
        (.more, [begun ++ piece.bytes])) := by
  cases framed with
  | last sound present joined small next =>
    by_cases fresh : begun = []
    · left
      refine ⟨_, rfl, next, ?_⟩
      dsimp only
      rw [if_pos fresh]
      rw [fresh, nil_append] at joined
      rw [joined]
      exact info.fillReadBuf_whole sound small
    · have complete := StmInfo.complete_of_last (long.resolve_left fresh) joined small
      exact absurd complete (unfinished fresh)
  | more present longer next =>
    have started := append_ne_nil_of_right_ne_nil begun present
    obtain ⟨config, rest, more, joined, small⟩ := next.message started
    right
    refine ⟨rfl, started, longer, next, ?_⟩
    by_cases fresh : begun = []
    · dsimp only
      rw [if_pos fresh]
      rw [fresh, nil_append] at joined longer ⊢
      exact info.fillReadBuf_first longer more joined small
    · dsimp only
      rw [if_neg fresh]
      exact info.fillReadBuf_next (long.resolve_left fresh) present more joined small

namespace ChanCall

/-- The buffers and the messages that a call holds, and the messages it has still to read. -/
def held : ChanCall H → Nat
  | .filling .. => 1
  | _ => 0

def batch : ChanCall H → Nat
  | .dispatching _ vecMsgs _ => vecMsgs.length
  | _ => 0

def wants : ChanCall H → Nat
  | .reading iToRead _ => iToRead
  | .filling iToRead _ _ _ => iToRead
  | _ => 0

def Looks : ChanCall H → Prop
  | .look => True
  | _ => False

def Dispatches : ChanCall H → Prop
  | .look | .dispatchData => True
  | .reading _ bDispatch => bDispatch = true
  | .filling _ bDispatch _ _ => bDispatch = true
  | _ => False

def Placed (arrived : List (Piece H)) (queued : List (List (Int32 × Value H))) : ChanCall H → Prop
  | .reading iToRead _ => 0 < iToRead
  | .filling iToRead _ place bytes => 0 < iToRead ∧ (arrived[place]?).map Piece.bytes = some bytes
  | .dispatching place vecMsgs dwCount => dwCount = 0 ∧ vecMsgs <+: queued.drop place
  | _ => True

end ChanCall

def total (measure : ChanCall H → Nat) (calls : List (ChanCall H)) : Nat := (calls.map measure).sum

theorem total_set (measure : ChanCall H → Nat) {calls : List (ChanCall H)} {index : Nat}
    {call : ChanCall H}
    (next : ChanCall H) (present : calls[index]? = some call) :
    total measure (calls.set index next) + measure call = total measure calls + measure next := by
  rw [total, map_set]
  apply Library.sum_set
  rw [List.getElem?_map, present, Option.map_some]

theorem total_append (measure : ChanCall H → Nat) (calls : List (ChanCall H)) (call : ChanCall H) :
    total measure (calls ++ [call]) = total measure calls + measure call := by
  rw [total, map_append, sum_append, map_singleton, sum_singleton]
  rfl

section

variable {calls : List (ChanCall H)} {index : Nat} {call next : ChanCall H}

theorem forall_set {holds : ChanCall H → Prop} (all : ∀ call ∈ calls, holds call)
    (new : holds next) :
    ∀ call ∈ calls.set index next, holds call := by
  intro other member
  rcases mem_or_eq_of_mem_set member with old | same
  · exact all other old
  · rw [same]
    exact new

theorem exists_set_self {holds : ChanCall H → Prop} (present : calls[index]? = some call)
    (new : holds next) :
    ∃ call ∈ calls.set index next, holds call := by
  obtain ⟨within, _⟩ := List.getElem?_eq_some_iff.1 present
  exact ⟨next, mem_set within next, new⟩

theorem exists_set {holds : ChanCall H → Prop} (present : calls[index]? = some call)
    (some : ∃ call ∈ calls, holds call) (kept : holds call → holds next) :
    ∃ call ∈ calls.set index next, holds call := by
  obtain ⟨other, member, old⟩ := some
  obtain ⟨place, at?⟩ := List.getElem?_of_mem member
  by_cases same : index = place
  · rw [← same, present] at at?
    cases at?
    exact exists_set_self present (kept old)
  · refine ⟨other, mem_of_getElem? (i := place) ?_, old⟩
    rw [List.getElem?_set_ne same, at?]

theorem covers_set {need left : Nat} (present : calls[index]? = some call)
    (covers : (∃ call ∈ calls, call.Looks) ∨ need ≤ total ChanCall.wants calls) (busy : ¬call.Looks)
    (enough : left = 0 ∨ left + call.wants ≤ need + next.wants) :
    (∃ call ∈ calls.set index next, call.Looks) ∨ left ≤ total ChanCall.wants
    (calls.set index next) := by
  rcases covers with looks | few
  · exact .inl (exists_set present looks fun never => absurd never busy)
  · have moved := total_set ChanCall.wants next present
    right
    rcases enough with none | fewer
    · rw [none]
      exact Nat.zero_le _
    · omega

end

namespace StmChan

variable {info : StmInfo H} {chan : StmChan H}
variable {index iToRead place : Nat} {bDispatch : Bool}
variable {bytes : List UInt8} {holds : ChanCall H → Prop} {calls : List (ChanCall H)}

/-- The buffers and messages are where they came, none is lost on the way, and what waits has a
call that will see to it. -/
structure Inv (info : StmInfo H) (chan : StmChan H) : Prop where
  placed : ∀ call ∈ chan.calls, call.Placed chan.arrived chan.queued
  incoming : chan.recvQue = (chan.arrived.drop chan.reads).map Piece.bytes
  come : chan.reads ≤ chan.arrived.length
  held : total ChanCall.held chan.calls + chan.fills = chan.reads
  framed : ∃ begun, chan.queBuf = (if begun = [] then [] else [begun]) ∧ (begun = [] ∨ 4 ≤ begun.length) ∧
    Framed begun (chan.arrived.drop chan.fills ++ chan.wire)
  queued : chan.queued.map info.content = (messages (chan.arrived.take chan.fills)).map info.content
  waiting : chan.msgQue = chan.queued.drop chan.taken
  batch : total ChanCall.batch chan.calls + chan.dispatched.length = chan.taken
  bounded : chan.taken ≤ chan.queued.length
  dispatched : chan.dispatched <+: chan.queued
  requests : chan.dwReqCount + chan.taken = chan.requests
  covers : chan.recvQue = [] ∨ (∃ call ∈ chan.calls, call.Looks) ∨
    chan.dwReqCount - chan.msgQue.length ≤ total ChanCall.wants chan.calls
  prompt : chan.msgQue = [] ∨ chan.dwReqCount = 0 ∨ ∃ call ∈ chan.calls, call.Dispatches

theorem Inv.new : Inv info new where
  placed := forall_mem_nil _
  incoming := rfl
  come := Nat.le_refl _
  held := rfl
  framed := ⟨[], rfl, .inl rfl, .done⟩
  queued := rfl
  waiting := rfl
  batch := rfl
  bounded := Nat.le_refl _
  dispatched := prefix_refl _
  requests := rfl
  covers := .inl rfl
  prompt := .inl rfl

theorem Inv.goOn (inv : chan.Inv info) {call next : ChanCall H}
    (present : chan.calls[index]? = some call) (placed : next.Placed chan.arrived chan.queued)
    (held : next.held = call.held) (batch : next.batch = call.batch)
    (covers : chan.recvQue = [] ∨ (¬call.Looks ∧ call.wants ≤ next.wants) ∨
      chan.dwReqCount - chan.msgQue.length ≤ next.wants)
    (prompt : call.Dispatches → chan.msgQue = [] ∨ chan.dwReqCount = 0 ∨ next.Dispatches) :
    (chan.goOn index next).Inv info := by
  have heldMoved := total_set ChanCall.held next present
  have batchMoved := total_set ChanCall.batch next present
  have wantsMoved := total_set ChanCall.wants next present
  have keptHeld := inv.held
  have keptBatch := inv.batch
  refine ⟨forall_set inv.placed placed, inv.incoming, inv.come, ?_, inv.framed, inv.queued, inv.waiting, ?_, inv.bounded,
    inv.dispatched, inv.requests, ?_, ?_⟩
  · show total ChanCall.held (chan.calls.set index next) + chan.fills = chan.reads
    omega
  · show total ChanCall.batch (chan.calls.set index next) + chan.dispatched.length = chan.taken
    omega
  · rcases covers with empty | ⟨busy, enough⟩ | alone
    · exact .inl empty
    · rcases inv.covers with empty | covered
      · exact .inl empty
      · exact .inr (covers_set present covered busy (.inr (Nat.add_le_add_left enough _)))
    · have least : next.wants ≤ total ChanCall.wants (chan.calls.set index next) := by
        obtain ⟨within, _⟩ := List.getElem?_eq_some_iff.1 present
        exact single_le_sum (fun _ _ => Nat.zero_le _) _ (mem_map_of_mem (mem_set within next))
      exact .inr (.inr (Nat.le_trans alone least))
  · rcases inv.prompt with empty | none | dispatches
    · exact .inl empty
    · exact .inr (.inl none)
    · by_cases seen : call.Dispatches
      · rcases prompt seen with empty | none | goes
        · exact .inl empty
        · exact .inr (.inl none)
        · exact .inr (.inr (exists_set_self present goes))
      · exact .inr (.inr (exists_set present dispatches fun never => absurd never seen))

/-! ### The steps -/

theorem Inv.look (inv : chan.Inv info) (present : chan.calls[index]? = some .look) :
    (chan.look index).Inv info := by
  rw [StmChan.look]
  by_cases none : chan.dwReqCount = 0
  · rw [if_pos none]
    apply inv.goOn present
    · exact trivial
    · rfl
    · rfl
    · right
      right
      rw [none, Nat.zero_sub]
      exact Nat.zero_le _
    · intro _
      exact .inr (.inl none)
  · rw [if_neg none]
    by_cases ready : chan.dwReqCount ≤ chan.msgQue.length
    · rw [if_pos ready]
      apply inv.goOn present
      · exact trivial
      · rfl
      · rfl
      · right
        right
        rw [Nat.sub_eq_zero_of_le ready]
        exact Nat.zero_le _
      · intro _
        exact .inr (.inr trivial)
    · rw [if_neg ready]
      apply inv.goOn present
      · exact Nat.sub_pos_of_lt (Nat.lt_of_not_le ready)
      · rfl
      · rfl
      · exact .inr (.inr (Nat.le_refl _))
      · intro _
        cases waiting : chan.msgQue with
        | nil => exact .inl rfl
        | cons msg rest => exact .inr (.inr rfl)

theorem Inv.read (inv : chan.Inv info)
    (present : chan.calls[index]? = some (.reading iToRead bDispatch))
    (fits : chan.connected = true) :
    (chan.read index iToRead bDispatch).Inv info := by
  rw [StmChan.read.eq_def, fits]
  cases queue : chan.recvQue with
  | nil =>
    dsimp only
    apply inv.goOn present
    · cases bDispatch <;> exact trivial
    · cases bDispatch <;> rfl
    · cases bDispatch <;> rfl
    · exact .inl queue
    · intro dispatches
      cases dispatches
      exact .inr (.inr trivial)
  | cons bytes rest =>
    have read := inv.incoming
    rw [queue] at read
    have inPlace : (chan.arrived[chan.reads]?).map Piece.bytes = some bytes := by
      rw [← List.getElem?_map, ← Nat.add_zero chan.reads, ← List.getElem?_drop, ← map_drop, ← read]
      rfl
    have positive : 0 < iToRead := inv.placed _ (mem_of_getElem? present)
    have heldMoved := total_set ChanCall.held (.filling iToRead bDispatch chan.reads bytes) present
    have batchMoved := total_set ChanCall.batch (.filling iToRead bDispatch chan.reads bytes) present
    have keptHeld := inv.held
    have keptBatch := inv.batch
    dsimp only
    obtain ⟨_, at?, _⟩ := Option.map_eq_some_iff.1 inPlace
    refine ⟨forall_set inv.placed ⟨positive, inPlace⟩, ?_, (List.getElem?_eq_some_iff.1 at?).1, ?_, inv.framed, inv.queued, inv.waiting, ?_, inv.bounded,
      inv.dispatched, inv.requests, ?_, ?_⟩
    · show rest = (chan.arrived.drop (chan.reads + 1)).map Piece.bytes
      rw [← drop_drop, map_drop, ← read]
      rfl
    · show total ChanCall.held (chan.calls.set index _) + chan.fills = chan.reads + 1
      simp only [ChanCall.held] at heldMoved
      omega
    · show total ChanCall.batch (chan.calls.set index _) + chan.dispatched.length = chan.taken
      simp only [ChanCall.batch] at batchMoved
      omega
    · rcases inv.covers with empty | covered
      · rw [queue] at empty
        exact absurd empty (cons_ne_nil _ _)
      · exact .inr (covers_set present covered id (.inr (Nat.le_refl _)))
    · rcases inv.prompt with empty | none | dispatches
      · exact .inl empty
      · exact .inr (.inl none)
      · exact .inr (.inr (exists_set present dispatches id))

theorem Inv.queue (inv : chan.Inv info)
    {time : UInt64} {config : ConfigDb2 H} {next : ChanCall H}
    (present : chan.calls[index]? = some (.filling iToRead bDispatch place bytes))
    (whole : (chan.arrived[chan.fills]?).bind Piece.whole = some config.props)
    (framed : Framed [] (chan.arrived.drop (chan.fills + 1) ++ chan.wire))
    (placed : ∀ queued, next.Placed chan.arrived queued) (held : next.held = 0)
    (batch : next.batch = 0)
    (wants : iToRead ≤ next.wants + 1) (dispatches : next.Dispatches) :
    Inv info { chan.goOn index next with
      queBuf := [], fills := chan.fills + 1
      msgQue := chan.msgQue ++ [info.received time config.props]
      queued := chan.queued ++ [info.received time config.props] } := by
  have heldMoved := total_set ChanCall.held next present
  have batchMoved := total_set ChanCall.batch next present
  have keptHeld := inv.held
  have keptBatch := inv.batch
  have grown : ∀ call ∈ chan.calls,
      call.Placed chan.arrived (chan.queued ++ [info.received time config.props]) := by
    intro call member
    have old := inv.placed call member
    cases call with
    | dispatching place vecMsgs dwCount =>
      refine ⟨old.1, old.2.trans ?_⟩
      rw [drop_append]
      exact prefix_append _ _
    | reading | filling | look | dispatchData | done => exact old
  refine ⟨forall_set grown (placed _), inv.incoming, inv.come, ?_, ⟨[], rfl, .inl rfl, framed⟩, ?_, ?_, ?_, ?_, ?_, inv.requests,
    ?_, .inr (.inr (exists_set_self present dispatches))⟩
  · show total ChanCall.held (chan.calls.set index next) + (chan.fills + 1) = chan.reads
    simp only [ChanCall.held] at heldMoved held
    omega
  · show (chan.queued ++ [info.received time config.props]).map info.content =
      (messages (chan.arrived.take (chan.fills + 1))).map info.content
    rw [map_append, inv.queued, take_add_one, messages, messages, filterMap_append, map_append,
      map_singleton, info.content_received]
    congr 1
    cases piece : chan.arrived[chan.fills]? with
    | none =>
      rw [piece] at whole
      exact absurd whole.symm (Option.some_ne_none _)
    | some piece =>
      rw [piece, Option.bind_some] at whole
      rw [Option.toList_some, filterMap_cons_some whole]
      rfl
  · show chan.msgQue ++ [info.received time config.props] =
      (chan.queued ++ [info.received time config.props]).drop chan.taken
    rw [inv.waiting, drop_append_of_le_length inv.bounded]
  · show total ChanCall.batch (chan.calls.set index next) + chan.dispatched.length = chan.taken
    simp only [ChanCall.batch] at batchMoved batch
    omega
  · show chan.taken ≤ (chan.queued ++ [info.received time config.props]).length
    rw [length_append]
    exact Nat.le_trans inv.bounded (Nat.le_add_right _ _)
  · exact inv.dispatched.trans (prefix_append _ _)
  · rcases inv.covers with empty | covered
    · exact .inl empty
    · right
      apply covers_set present covered id
      show chan.dwReqCount - (chan.msgQue ++ [_]).length = 0 ∨
        chan.dwReqCount - (chan.msgQue ++ [_]).length + iToRead ≤ chan.dwReqCount - chan.msgQue.length + next.wants
      rw [length_append, length_singleton]
      omega

theorem Inv.extend (inv : chan.Inv info) {begun : List UInt8}
    (present : chan.calls[index]? = some (.filling iToRead bDispatch place bytes))
    (whole : (chan.arrived[chan.fills]?).bind Piece.whole = none) (started : begun ≠ [])
    (long : 4 ≤ begun.length)
    (framed : Framed begun (chan.arrived.drop (chan.fills + 1) ++ chan.wire)) :
    Inv info { chan.goOn index (.reading iToRead bDispatch) with queBuf := [begun], fills := chan.fills + 1 } := by
  have heldMoved := total_set ChanCall.held (.reading iToRead bDispatch) present
  have batchMoved := total_set ChanCall.batch (.reading iToRead bDispatch) present
  have keptHeld := inv.held
  have keptBatch := inv.batch
  have positive := (inv.placed _ (mem_of_getElem? present)).1
  refine ⟨forall_set inv.placed positive, inv.incoming, inv.come, ?_, ⟨begun, (if_neg started).symm, .inr long, framed⟩, ?_,
    inv.waiting, ?_, inv.bounded, inv.dispatched, inv.requests, ?_, ?_⟩
  · show total ChanCall.held (chan.calls.set index _) + (chan.fills + 1) = chan.reads
    simp only [ChanCall.held] at heldMoved
    omega
  · show chan.queued.map info.content = (messages (chan.arrived.take (chan.fills + 1))).map info.content
    rw [inv.queued, take_add_one, messages, messages, filterMap_append]
    cases piece : chan.arrived[chan.fills]? with
    | none => rw [Option.toList_none, filterMap_nil, append_nil]
    | some piece =>
      rw [piece, Option.bind_some] at whole
      rw [Option.toList_some, filterMap_cons_none whole, filterMap_nil, append_nil]
  · show total ChanCall.batch (chan.calls.set index _) + chan.dispatched.length = chan.taken
    simp only [ChanCall.batch] at batchMoved
    omega
  · rcases inv.covers with empty | covered
    · exact .inl empty
    · exact .inr (covers_set present covered id (.inr (Nat.le_refl _)))
  · rcases inv.prompt with empty | none | dispatches
    · exact .inl empty
    · exact .inr (.inl none)
    · exact .inr (.inr (exists_set present dispatches id))

theorem Inv.fill (inv : chan.Inv info)
    {time : UInt64} {behind : Nat → UInt8}
    (present : chan.calls[index]? = some (.filling iToRead bDispatch place bytes))
    (fits : chan.InTurn (.filling iToRead bDispatch place bytes)) :
    (chan.fill info index iToRead bDispatch time ⟨bytes, behind⟩).Inv info := by
  obtain ⟨positive, inPlace⟩ := inv.placed _ (mem_of_getElem? present)
  obtain ⟨next, unfinished⟩ := fits
  obtain ⟨begun, que, long, framed⟩ := inv.framed
  rw [next] at inPlace
  obtain ⟨piece, at?, same⟩ := Option.map_eq_some_iff.1 inPlace
  obtain ⟨within, is⟩ := List.getElem?_eq_some_iff.1 at?
  have uncut : begun ≠ [] → begun.length - 4 + piece.bytes.length ≠ ofBE (begun.take 4) := by
    intro started
    rw [same]
    apply unfinished
    rw [que, if_neg started]
    rfl
  have behindIt : chan.arrived.drop chan.fills ++ chan.wire =
      piece :: (chan.arrived.drop (chan.fills + 1) ++ chan.wire) := by
    rw [drop_eq_getElem_cons within, is, cons_append]
  rw [behindIt] at framed
  rw [StmChan.fill, que, ← same]
  rcases @Framed.fill H info time behind begun piece _ framed long uncut with
    ⟨config, whole, rest, answer⟩ | ⟨partly, started, longer, rest, answer⟩
  · have wholeAt : (chan.arrived[chan.fills]?).bind Piece.whole = some config.props := by
      rw [at?, Option.bind_some, whole]
    rw [answer]
    dsimp only
    by_cases last : iToRead ≤ 1
    · rw [if_pos last]
      exact inv.queue present wholeAt rest (fun _ => trivial) rfl rfl last trivial
    · rw [if_neg last]
      have more : 0 < iToRead - 1 := Nat.sub_pos_of_lt (Nat.lt_of_not_le last)
      have wants : iToRead ≤ (ChanCall.reading (H := H) (iToRead - 1) true).wants + 1 :=
        Nat.le_of_eq (Nat.sub_add_cancel positive).symm
      exact inv.queue present wholeAt rest (fun _ => more) rfl rfl wants rfl
  · have partlyAt : (chan.arrived[chan.fills]?).bind Piece.whole = none := by
      rw [at?, Option.bind_some, partly]
    rw [answer]
    exact inv.extend present partlyAt started longer rest

theorem Inv.take (inv : chan.Inv info) (present : chan.calls[index]? = some .dispatchData)
    (fits : chan.connected = true) : (chan.take index).Inv info := by
  rw [StmChan.take]
  by_cases empty : chan.connected = false ∨ chan.msgQue = []
  · have none : chan.msgQue = [] := by
      apply empty.resolve_left
      intro never
      exact Bool.false_ne_true (never.symm.trans fits)
    rw [if_pos empty]
    apply inv.goOn present
    · exact trivial
    · rfl
    · rfl
    · exact .inr (.inl ⟨id, Nat.le_refl _⟩)
    · intro _
      exact .inl none
  · rw [if_neg empty]
    generalize counted : min chan.dwReqCount chan.msgQue.length = dwCount
    have requested : dwCount ≤ chan.dwReqCount := by
      rw [← counted]
      exact Nat.min_le_left _ _
    have present' : dwCount ≤ chan.msgQue.length := by
      rw [← counted]
      exact Nat.min_le_right _ _
    have length : chan.msgQue.length = chan.queued.length - chan.taken := by
      rw [inv.waiting, length_drop]
    have heldMoved := total_set ChanCall.held (.dispatching chan.taken (chan.msgQue.take dwCount) 0) present
    have batchMoved := total_set ChanCall.batch (.dispatching chan.taken (chan.msgQue.take dwCount) 0) present
    have batch : (ChanCall.dispatching chan.taken (chan.msgQue.take dwCount) 0).batch = dwCount :=
      length_take_of_le present'
    have keptHeld := inv.held
    have keptBatch := inv.batch
    have keptRequests := inv.requests
    have bounded := inv.bounded
    refine ⟨forall_set inv.placed ⟨rfl, ?_⟩, inv.incoming, inv.come, ?_, inv.framed, inv.queued, ?_, ?_, ?_, inv.dispatched,
      ?_, ?_, ?_⟩
    · rw [inv.waiting]
      exact take_prefix _ _
    · show total ChanCall.held (chan.calls.set index _) + chan.fills = chan.reads
      simp only [ChanCall.held] at heldMoved
      omega
    · show chan.msgQue.drop dwCount = chan.queued.drop (chan.taken + dwCount)
      rw [inv.waiting, drop_drop]
    · show total ChanCall.batch (chan.calls.set index _) + chan.dispatched.length = chan.taken + dwCount
      rw [batch] at batchMoved
      simp only [ChanCall.batch] at batchMoved
      omega
    · show chan.taken + dwCount ≤ chan.queued.length
      omega
    · show chan.dwReqCount - dwCount + (chan.taken + dwCount) = chan.requests
      omega
    · rcases inv.covers with empty | covered
      · exact .inl empty
      · right
        apply covers_set present covered id
        right
        show chan.dwReqCount - dwCount - (chan.msgQue.drop dwCount).length + 0 ≤
          chan.dwReqCount - chan.msgQue.length + 0
        rw [length_drop]
        omega
    · show chan.msgQue.drop dwCount = [] ∨ chan.dwReqCount - dwCount = 0 ∨ _
      rcases Nat.le_total chan.dwReqCount chan.msgQue.length with few | many
      · right
        left
        omega
      · left
        apply drop_eq_nil_of_le
        omega

theorem Inv.dispatch (inv : chan.Inv info) {dwCount : Nat} {vecMsgs : List (List (Int32 × Value H))}
    (present : chan.calls[index]? = some (.dispatching place vecMsgs dwCount))
    (fits : chan.InTurn (.dispatching place vecMsgs dwCount)) :
    (chan.dispatch index place vecMsgs dwCount true).Inv info := by
  obtain ⟨none, inPlace⟩ := inv.placed _ (mem_of_getElem? present)
  rw [StmChan.dispatch.eq_def]
  cases vecMsgs with
  | nil =>
    have ended : (chan.goOn index .done).Inv info := by
      apply inv.goOn present
      · exact trivial
      · rfl
      · rfl
      · exact .inr (.inl ⟨id, Nat.le_refl _⟩)
      · exact fun never => absurd never id
    rw [none]
    exact ended
  | cons msg rest =>
    have next : place = chan.dispatched.length := fits
    have heldMoved := total_set ChanCall.held (.dispatching (place + 1) rest dwCount) present
    have batchMoved := total_set ChanCall.batch (.dispatching (place + 1) rest dwCount) present
    have keptHeld := inv.held
    have keptBatch := inv.batch
    obtain ⟨others, behind⟩ := inPlace
    have front : chan.queued.take place = chan.dispatched := by
      rw [next]
      exact (prefix_iff_eq_take.1 inv.dispatched).symm
    have split : chan.queued = chan.dispatched ++ (msg :: rest ++ others) := by
      rw [← front, behind, take_append_drop]
    have restInPlace : rest <+: chan.queued.drop (place + 1) := by
      rw [← drop_drop, ← behind]
      exact prefix_append _ _
    dsimp only
    rw [if_pos rfl]
    refine ⟨forall_set inv.placed ⟨none, restInPlace⟩, inv.incoming, inv.come, ?_, inv.framed, inv.queued, inv.waiting, ?_,
      inv.bounded, ?_, inv.requests, ?_, ?_⟩
    · show total ChanCall.held (chan.calls.set index _) + chan.fills = chan.reads
      simp only [ChanCall.held] at heldMoved
      omega
    · show total ChanCall.batch (chan.calls.set index _) + (chan.dispatched ++ [msg]).length = chan.taken
      rw [length_append, length_singleton]
      simp only [ChanCall.batch, length_cons] at batchMoved
      omega
    · show chan.dispatched ++ [msg] <+: chan.queued
      refine ⟨rest ++ others, ?_⟩
      rw [split, append_assoc]
      rfl
    · rcases inv.covers with empty | covered
      · exact .inl empty
      · exact .inr (covers_set present covered id (.inr (Nat.le_refl _)))
    · rcases inv.prompt with empty | none | dispatches
      · exact .inl empty
      · exact .inr (.inl none)
      · exact .inr (.inr (exists_set present dispatches fun never => absurd never id))

theorem Inv.send (inv : chan.Inv info) {config : ConfigDb2 H} {pieces : List (List UInt8)}
    {next : StmChan H}
    (fits : SoundMsg config)
    (moved : chan.step info (.send config pieces) = some next) : next.Inv info := by
  rw [StmChan.step.eq_def] at moved
  dsimp only at moved
  cases written : FastrpcMsg.serialize config.props with
  | none =>
    rw [written] at moved
    exact absurd moved.symm (Option.some_ne_none _)
  | some bytes =>
    rw [written] at moved
    obtain ⟨⟨joined, present, long⟩, same⟩ := Option.ite_none_right_eq_some.1 moved
    obtain ⟨wire, small⟩ := FastrpcMsg.serialize_eq fits written
    rw [wire] at joined small
    have some : pieces ≠ [] := by
      intro none
      rw [none] at long
      exact absurd long (by decide)
    obtain ⟨begun, que, started, framed⟩ := inv.framed
    have cut : Framed [] (cutOf config.props pieces) := framed_cutOf fits small some present long joined
    have added := framed.append cut
    rw [append_assoc] at added
    cases same
    exact ⟨inv.placed, inv.incoming, inv.come, inv.held, ⟨begun, que, started, added⟩, inv.queued, inv.waiting, inv.batch,
      inv.bounded, inv.dispatched, inv.requests, inv.covers, inv.prompt⟩

theorem exists_look (calls : List (ChanCall H)) (look : holds .look) : ∃ call ∈ calls ++ [.look], holds call :=
  ⟨.look, mem_append_right _ (mem_singleton.2 rfl), look⟩

theorem forall_look
    (all : ∀ call ∈ calls, holds call)
    (look : holds .look) : ∀ call ∈ calls ++ [.look], holds call := by
  exact forall_mem_append.2 ⟨all, forall_mem_singleton.2 look⟩

theorem Inv.addRecvReq (inv : chan.Inv info) :
    Inv info { chan with
      dwReqCount := chan.dwReqCount + 1, requests := chan.requests + 1, calls := chan.calls ++ [.look] } := by
  refine ⟨forall_look inv.placed trivial, inv.incoming, inv.come, ?_, inv.framed, inv.queued, inv.waiting, ?_, inv.bounded,
    inv.dispatched, ?_, .inr (.inl (exists_look _ trivial)), .inr (.inr (exists_look _ trivial))⟩
  · show total ChanCall.held (chan.calls ++ [.look]) + chan.fills = chan.reads
    rw [total_append]
    exact inv.held
  · show total ChanCall.batch (chan.calls ++ [.look]) + chan.dispatched.length = chan.taken
    rw [total_append]
    exact inv.batch
  · show chan.dwReqCount + 1 + chan.taken = chan.requests + 1
    rw [Nat.add_right_comm, inv.requests]

theorem placed_arrive {arrived : List (Piece H)} {queued : List (List (Int32 × Value H))}
    {call : ChanCall H} (placed : call.Placed arrived queued) (piece : Piece H) :
    call.Placed (arrived ++ [piece]) queued := by
  cases call with
  | filling iToRead bDispatch place bytes =>
    obtain ⟨old, at?, same⟩ := Option.map_eq_some_iff.1 placed.2
    have still : (arrived ++ [piece])[place]? = some old := by
      rw [List.getElem?_append_left (List.getElem?_eq_some_iff.1 at?).1, at?]
    refine ⟨placed.1, ?_⟩
    rw [still, Option.map_some, same]
  | reading | dispatching | look | dispatchData | done => exact placed

theorem Inv.onStmRecv (inv : chan.Inv info) {piece : Piece H} {rest : List (Piece H)}
    (wire : chan.wire = piece :: rest) :
    Inv info { chan with
      wire := rest, arrived := chan.arrived ++ [piece], recvQue := chan.recvQue ++ [piece.bytes]
      calls := chan.calls ++ [.look] } := by
  have reads := inv.come
  have fills : chan.fills ≤ chan.arrived.length := Nat.le_trans (inv.held ▸ Nat.le_add_left _ _) reads
  obtain ⟨begun, que, started, framed⟩ := inv.framed
  have moved : (chan.arrived ++ [piece]).drop chan.fills ++ rest = chan.arrived.drop chan.fills ++ chan.wire := by
    rw [drop_append_of_le_length fills, wire, append_assoc]
    rfl
  refine ⟨forall_look (fun call member => placed_arrive (inv.placed call member) piece) trivial, ?_, ?_, ?_,
    ⟨begun, que, started, moved ▸ framed⟩, ?_, inv.waiting, ?_, inv.bounded, inv.dispatched, inv.requests,
    .inr (.inl (exists_look _ trivial)), .inr (.inr (exists_look _ trivial))⟩
  · show chan.recvQue ++ [piece.bytes] = ((chan.arrived ++ [piece]).drop chan.reads).map Piece.bytes
    rw [inv.incoming, drop_append_of_le_length reads, map_append]
    rfl
  · show chan.reads ≤ (chan.arrived ++ [piece]).length
    rw [length_append]
    exact Nat.le_trans reads (Nat.le_add_right _ _)
  · show total ChanCall.held (chan.calls ++ [.look]) + chan.fills = chan.reads
    rw [total_append]
    exact inv.held
  · show chan.queued.map info.content = (messages ((chan.arrived ++ [piece]).take chan.fills)).map info.content
    rw [take_append_of_le_length fills]
    exact inv.queued
  · show total ChanCall.batch (chan.calls ++ [.look]) + chan.dispatched.length = chan.taken
    rw [total_append]
    exact inv.batch

theorem Inv.step (inv : chan.Inv info) {event : ChanEvent H} {next : StmChan H}
    (fits : chan.Fits event)
    (moved : chan.step info event = some next) : next.Inv info := by
  cases event with
  | send config pieces => exact inv.send fits moved
  | addRecvReq =>
    cases moved
    exact inv.addRecvReq
  | onStmRecv =>
    rw [StmChan.step.eq_def] at moved
    cases wire : chan.wire with
    | nil =>
      simp only [wire] at moved
      exact absurd moved.symm (Option.some_ne_none _)
    | cons piece rest =>
      simp only [wire] at moved
      cases moved
      exact inv.onStmRecv wire
  | look index =>
    rw [StmChan.step.eq_def] at moved
    dsimp only at moved
    split at moved
    · rename_i present
      cases moved
      exact inv.look present
    · exact absurd moved.symm (Option.some_ne_none _)
  | read index =>
    rw [StmChan.step.eq_def] at moved
    dsimp only at moved
    split at moved
    · rename_i iToRead bDispatch present
      cases moved
      exact inv.read present fits
    · exact absurd moved.symm (Option.some_ne_none _)
  | fill index time behind =>
    rw [StmChan.step.eq_def] at moved
    dsimp only at moved
    split at moved
    · rename_i iToRead bDispatch place bytes present
      cases moved
      exact inv.fill present (fits _ present)
    · exact absurd moved.symm (Option.some_ne_none _)
  | take index =>
    rw [StmChan.step.eq_def] at moved
    dsimp only at moved
    split at moved
    · rename_i present
      cases moved
      exact inv.take present fits
    · exact absurd moved.symm (Option.some_ne_none _)
  | dispatch index accepted =>
    obtain ⟨accepts, inTurn⟩ := fits
    rw [StmChan.step.eq_def] at moved
    dsimp only at moved
    split at moved
    · rename_i place vecMsgs dwCount present
      cases moved
      rw [accepts]
      exact inv.dispatch present (inTurn _ present)
    · exact absurd moved.symm (Option.some_ne_none _)
  | stop =>
    cases moved
    exact { inv with }

theorem total_returned {measure : ChanCall H → Nat}
    (none : measure .done = 0)
    (idle : ∀ call ∈ calls, call.Returned) : total measure calls = 0 := by
  apply sum_eq_zero
  intro count member
  obtain ⟨call, among, same⟩ := mem_map.1 member
  have returned := idle call among
  rw [← same]
  cases call with
  | done => exact none
  | look | dispatchData | reading | filling | dispatching => exact absurd returned id

theorem none_of_returned
    (done : ¬holds .done)
    (idle : ∀ call ∈ calls, call.Returned) : ¬∃ call ∈ calls, holds call := by
  rintro ⟨call, among, held⟩
  have returned := idle call among
  cases call with
  | done => exact done held
  | look | dispatchData | reading | filling | dispatching => exact absurd returned id

theorem Inv.inOrder (inv : chan.Inv info) :
    chan.dispatched.map info.content <+: (messages (chan.arrived ++ chan.wire)).map info.content := by
  have first : chan.dispatched.map info.content <+: chan.queued.map info.content := inv.dispatched.map _
  rw [inv.queued] at first
  apply first.trans
  apply List.IsPrefix.map
  apply List.IsPrefix.filterMap
  exact (List.take_prefix _ _).trans (prefix_append _ _)

theorem Inv.allDispatched (inv : chan.Inv info) (idle : ∀ call ∈ chan.calls, call.Returned) :
    chan.dispatched.length = (messages chan.arrived).length ∨ chan.dwReqCount = 0 := by
  have held : chan.fills = chan.reads := by
    have kept := inv.held
    rw [total_returned rfl idle, Nat.zero_add] at kept
    exact kept
  have batch : chan.dispatched.length = chan.taken := by
    have kept := inv.batch
    rw [total_returned rfl idle, Nat.zero_add] at kept
    exact kept
  by_cases unused : chan.dwReqCount = 0
  · exact .inr unused
  · left
    have noMsg : chan.msgQue = [] := by
      rcases inv.prompt with empty | none | dispatches
      · exact empty
      · exact absurd none unused
      · exact absurd dispatches (none_of_returned id idle)
    have noBuffer : chan.recvQue = [] := by
      rcases inv.covers with empty | looks | covered
      · exact empty
      · exact absurd looks (none_of_returned id idle)
      · rw [total_returned rfl idle, noMsg] at covered
        exact absurd (Nat.le_zero.1 covered) unused
    have allRead : chan.arrived.length ≤ chan.fills := by
      have rest := inv.incoming
      rw [noBuffer, ← held] at rest
      exact drop_eq_nil_iff.1 (map_eq_nil_iff.1 rest.symm)
    have allTaken : chan.queued.length ≤ chan.taken := by
      have rest := inv.waiting
      rw [noMsg] at rest
      exact drop_eq_nil_iff.1 rest.symm
    have queued := congrArg List.length inv.queued
    rw [length_map, length_map, take_of_length_le allRead] at queued
    rw [batch, ← queued]
    exact Nat.le_antisymm inv.bounded allTaken

theorem Inv.reassembled (inv : chan.Inv info) : chan.Reassembled info where
  inOrder := inv.inOrder
  requested := by
    rw [← inv.requests, ← inv.batch]
    exact Nat.le_trans (Nat.le_add_left _ _) (Nat.le_add_left _ _)
  prompt := inv.allDispatched

end StmChan

/-! ### Buffers that are no messages -/

variable {info : StmInfo H} {time : UInt64} {queBuf : List (List UInt8)} {block : Block}

theorem deserialize_short (short : block.bytes.length < fastrpcHeader)
    (size : block.dwSize ≤ block.bytes.length) :
    FastrpcMsg.deserialize (H := H) block =
      ⟨none, if block.load 4 1 ≠ fastrpcTag.take 1 then decide (block.bytes.length < 5) else true⟩ := by
  have outside : decide (block.bytes.length < 8) = true := decide_eq_true short
  rw [FastrpcMsg.deserialize.eq_def]
  dsimp only
  rw [if_neg (Nat.not_lt.2 size), outside]
  by_cases typed : block.load 4 1 ≠ fastrpcTag.take 1
  · rw [if_pos typed, if_pos typed]
  · rw [if_neg typed, if_neg typed]
    by_cases signed : block.load 5 3 ≠ fastrpcTag.drop 1
    · rw [if_pos signed]
    · rw [if_neg signed, if_pos (Nat.le_of_lt short)]

theorem outside_short (short : block.bytes.length < fastrpcHeader)
    (size : block.dwSize ≤ block.bytes.length) :
    (FastrpcMsg.deserialize (H := H) block).outside = false ↔
      5 ≤ block.bytes.length ∧ (block.bytes.drop 4).take 1 ≠ fastrpcTag.take 1 := by
  rw [deserialize_short short size]
  dsimp only
  by_cases typed : 5 ≤ block.bytes.length
  · have load : block.load 4 1 = (block.bytes.drop 4).take 1 := Block.load_inside typed
    rw [load]
    by_cases other : (block.bytes.drop 4).take 1 ≠ fastrpcTag.take 1
    · rw [if_pos other, decide_eq_false_iff_not]
      exact ⟨fun _ => ⟨typed, other⟩, fun _ => Nat.not_lt.2 typed⟩
    · rw [if_neg other]
      exact ⟨fun never => Bool.noConfusion never, fun both => absurd both.2 other⟩
  · have outside : decide (block.bytes.length < 5) = true := decide_eq_true (Nat.lt_of_not_le typed)
    rw [outside, ite_self]
    exact ⟨fun never => Bool.noConfusion never, fun both => absurd both.1 typed⟩

theorem payload_wraps {length : Nat} (short : length < 4) :
    maxBytesPerBuffer < (length + 2 ^ 32 - 4) % 2 ^ 32 := by
  have limit : maxBytesPerBuffer < 2 ^ 32 - 4 := by decide
  omega

/-- `FillReadBuf` reports an error for each of these buffers. It reads behind one that ends in
its size field, or in the type and the signature it looks at. -/
theorem fillReadBuf_foreign (small : block.bytes.length ≤ maxBytesPerBuffer)
    (foreign : Foreign queBuf block) :
    Refused (info.fillReadBuf time queBuf block) ↔ Inside queBuf block := by
  rw [StmInfo.fillReadBuf.eq_def]
  cases queBuf with
  | cons headBuf rest =>
    have longer : ofBE (headBuf.take 4) < headBuf.length - 4 + block.bytes.length := foreign
    dsimp only
    rw [if_neg (Nat.ne_of_gt longer), if_neg (Nat.lt_asymm longer)]
    exact ⟨fun _ never => absurd never (cons_ne_nil _ _), fun _ => ⟨rfl, rfl⟩⟩
  | nil =>
    dsimp only
    by_cases long : 4 ≤ block.bytes.length
    · have notShort : decide (block.bytes.length < 4) = false := decide_eq_false (Nat.not_lt.2 long)
      rw [StmInfo.payload_eq long small, notShort]
      by_cases large : maxBytesPerBuffer < block.dwSize
      · have unequal : ¬block.bytes.length - 4 = block.dwSize := by omega
        rw [if_pos large]
        exact ⟨fun _ _ => ⟨long, fun _ same => absurd same unequal⟩, fun _ => ⟨rfl, rfl⟩⟩
      · rw [if_neg large]
        by_cases matching : block.bytes.length - 4 = block.dwSize
        · have header : fastrpcHeader = 8 := rfl
          have short : block.bytes.length < fastrpcHeader := by
            rcases foreign with less | zero | more | longer | short
            · omega
            · omega
            · omega
            · omega
            · exact short.1
          have size : block.dwSize ≤ block.bytes.length := by omega
          have outside := outside_short (H := H) short size
          rw [deserialize_short short size] at outside
          rw [if_pos matching, deserialize_short short size, Bool.false_or]
          exact ⟨fun refused _ => ⟨long, fun _ _ => outside.1 refused.2⟩,
            fun inside => ⟨rfl, outside.2 ((inside rfl).2 short matching)⟩⟩
        · have more : ¬block.bytes.length - 4 < block.dwSize := by
            rcases foreign with less | zero | more | longer | short
            · omega
            · omega
            · omega
            · omega
            · omega
          rw [if_neg matching, if_neg more]
          exact ⟨fun _ _ => ⟨long, fun _ same => absurd same matching⟩, fun _ => ⟨rfl, rfl⟩⟩
    · have wraps := payload_wraps (Nat.lt_of_not_le long)
      have short : decide (block.bytes.length < 4) = true := decide_eq_true (Nat.lt_of_not_le long)
      have never : ¬Inside [] block := fun inside => long (inside rfl).1
      rw [short]
      by_cases large : maxBytesPerBuffer < block.dwSize
      · rw [if_pos large]
        exact ⟨fun refused => Bool.noConfusion refused.2, fun inside => absurd inside never⟩
      · rw [if_neg large, if_neg (by omega), if_neg (by omega)]
        exact ⟨fun refused => Bool.noConfusion refused.2, fun inside => absurd inside never⟩

theorem deserialize_large (large : block.bytes.length < block.dwSize) :
    FastrpcMsg.deserialize (H := H) block = ⟨none, decide (block.bytes.length < 4)⟩ := by
  rw [FastrpcMsg.deserialize.eq_def]
  dsimp only
  rw [if_pos large]

theorem deserialize_long (long : fastrpcHeader ≤ block.bytes.length)
    (size : block.dwSize ≤ block.bytes.length) :
    FastrpcMsg.deserialize (H := H) block =
      ⟨if (block.bytes.drop 4).take 1 = fastrpcTag.take 1 ∧ (block.bytes.drop 5).take 3 = fastrpcTag.drop 1 ∧
        block.bytes.length ≠ fastrpcHeader then ConfigDb.deserialize (block.bytes.drop fastrpcHeader) else none,
        false⟩ := by
  have header : fastrpcHeader = 8 := rfl
  have type : block.load 4 1 = (block.bytes.drop 4).take 1 := Block.load_inside (by omega)
  have signature : block.load 5 3 = (block.bytes.drop 5).take 3 := Block.load_inside (by omega)
  have five : decide (block.bytes.length < 5) = false := decide_eq_false (by omega)
  have eight : decide (block.bytes.length < 8) = false := decide_eq_false (by omega)
  rw [FastrpcMsg.deserialize.eq_def]
  dsimp only
  rw [if_neg (Nat.not_lt.2 size), type, signature, five, eight]
  by_cases typed : (block.bytes.drop 4).take 1 = fastrpcTag.take 1
  · rw [if_neg (not_not_intro typed)]
    by_cases signed : (block.bytes.drop 5).take 3 = fastrpcTag.drop 1
    · rw [if_neg (not_not_intro signed)]
      by_cases ends : block.bytes.length ≤ fastrpcHeader
      · rw [if_pos ends, if_neg fun all => all.2.2 (Nat.le_antisymm ends long)]
      · rw [if_neg ends, if_pos ⟨typed, signed, fun same => ends (Nat.le_of_eq same)⟩]
    · rw [if_pos signed, if_neg fun all => signed all.2.1]
  · rw [if_pos typed, if_neg fun all => typed all.1]

theorem deserialize_refused :
    (FastrpcMsg.deserialize (H := H) block).answer = none ∧
    (FastrpcMsg.deserialize (H := H) block).outside = false ↔ RefusedMsg (H := H) block := by
  by_cases large : block.bytes.length < block.dwSize
  · rw [deserialize_large large]
    constructor
    · intro refused
      exact ⟨Nat.le_of_not_lt (of_decide_eq_false refused.2), fun fits => absurd large (Nat.not_lt.2 fits)⟩
    · intro refused
      exact ⟨rfl, decide_eq_false (Nat.not_lt.2 refused.1)⟩
  · have size : block.dwSize ≤ block.bytes.length := Nat.le_of_not_lt large
    by_cases long : fastrpcHeader ≤ block.bytes.length
    · have header : fastrpcHeader = 8 := rfl
      have four : 4 ≤ block.bytes.length := by omega
      have five : 5 ≤ block.bytes.length := by omega
      rw [deserialize_long long size]
      dsimp only
      constructor
      · intro refused
        refine ⟨four, fun _ => ⟨five, fun typed => ⟨long, fun signed => ?_⟩⟩⟩
        by_cases ends : block.bytes.length = fastrpcHeader
        · exact .inl ends
        · rw [if_pos ⟨typed, signed, ends⟩] at refused
          exact .inr refused.1
      · intro refused
        refine ⟨?_, rfl⟩
        by_cases all : (block.bytes.drop 4).take 1 = fastrpcTag.take 1 ∧
          (block.bytes.drop 5).take 3 = fastrpcTag.drop 1 ∧ block.bytes.length ≠ fastrpcHeader
        · rw [if_pos all]
          exact (((refused.2 size).2 all.1).2 all.2.1).resolve_left all.2.2
        · rw [if_neg all]
    · have short : block.bytes.length < fastrpcHeader := Nat.lt_of_not_le long
      have outside := outside_short (H := H) short size
      rw [deserialize_short short size] at outside ⊢
      constructor
      · intro refused
        obtain ⟨five, other⟩ := outside.1 refused.2
        exact ⟨Nat.le_of_succ_le five, fun _ => ⟨five, fun typed => absurd typed other⟩⟩
      · intro refused
        obtain ⟨five, typed⟩ := refused.2 size
        exact ⟨rfl, outside.2 ⟨five, fun same => long (typed same).1⟩⟩

namespace StmChan

variable {chan : StmChan H}

theorem inv_of_fits (reached : ((stmChan info).restrict Fits).Reachable chan) : chan.Inv info := by
  apply @Machine.Reachable.invariant _ _ _ (Inv info) _ reached
  · exact Inv.new
  · intro state event next _ inv moved
    obtain ⟨fits, moved⟩ := Machine.restrict_step.1 moved
    exact inv.step fits moved

/-- A stream whose steps run as `Fits` has it puts its messages together; and another buffer is
refused without a look behind it where its header ends inside. -/
theorem reassembled_of_fits (reached : ((stmChan info).restrict Fits).Reachable chan) :
    chan.Reassembled info ∧
      (∀ (time : UInt64) (queBuf : List (List UInt8)) (block : Block), block.bytes.length ≤ maxBytesPerBuffer →
        Foreign queBuf block → (Refused (info.fillReadBuf time queBuf block) ↔ Inside queBuf block)) ∧
      ∀ block : Block, (FastrpcMsg.deserialize (H := H) block).answer = none ∧
        (FastrpcMsg.deserialize (H := H) block).outside = false ↔ RefusedMsg (H := H) block :=
  ⟨(inv_of_fits reached).reassembled, fun _ _ _ small foreign => fillReadBuf_foreign small foreign,
    fun _ => deserialize_refused⟩

def bareStream : StmInfo bareHost := ⟨7, some ⟨[0x41], [0x2f], .null⟩⟩

def oneNumber : ConfigDb2 bareHost := ⟨[(5, .uint32 9)], by simp [DistinctProps, Value.Distinct]⟩

def oneNumberBytes : List UInt8 :=
  [0, 0, 0, 29, 9, 70, 82, 77, 0, 0, 9, 0x17, 0, 0, 0, 13, 2, 0, 0, 0, 0, 0, 0, 1, 0, 0, 0, 5, 3, 0, 0, 0, 9]

/-- A message comes in one buffer, and goes to the port. -/
theorem reassembled_oneNumber : ∃ chan : StmChan bareHost,
    (chan.dispatched.length, chan.requests) = (1, 1) ∧ chan.Reassembled bareStream := by
  have ran : (((stmChan bareStream).restrict Fits).run .new
      [.send oneNumber [oneNumberBytes], .onStmRecv, .addRecvReq, .look 0, .read 0, .fill 0 3 fun _ => 0, .take 0,
        .dispatch 0 true, .dispatch 0 true, .look 1]).map (fun chan => (chan.dispatched.length, chan.requests)) =
      some (1, 1) := by
    decide +kernel
  obtain ⟨chan, run, same⟩ := Option.map_eq_some_iff.1 ran
  exact ⟨chan, same, (reassembled_of_fits (Machine.Reachable.start.run run)).1⟩

/-- A message that comes in two buffers is never dispatched. -/
theorem cutMsg_waits : ¬∀ (info : StmInfo bareHost) (chan : StmChan bareHost),
    ((stmChan info).restrict fun _ event => Accepts event).Reachable chan → chan.Reassembled info := by
  intro reassembled
  have ran : (((stmChan bareStream).restrict fun _ event => Accepts event).run .new
      [.send oneNumber [oneNumberBytes.take 10, oneNumberBytes.drop 10], .onStmRecv, .onStmRecv, .look 0, .look 1,
        .addRecvReq, .look 2, .read 2, .fill 2 3 fun _ => 0, .read 2, .fill 2 3 fun _ => 0]).map
      (fun chan => (decide (∀ call ∈ chan.calls, call.Returned), chan.dispatched.length,
        (messages chan.arrived).length, chan.dwReqCount)) = some (true, 0, 1, 1) := by
    decide +kernel
  obtain ⟨chan, run, same⟩ := Option.map_eq_some_iff.1 ran
  obtain ⟨idle, none, one, waits⟩ : decide (∀ call ∈ chan.calls, call.Returned) = true ∧
      chan.dispatched.length = 0 ∧ (messages chan.arrived).length = 1 ∧ chan.dwReqCount = 1 := by
    simpa only [Prod.mk.injEq] using same
  rcases (reassembled bareStream chan (Machine.Reachable.start.run run)).prompt (of_decide_eq_true idle) with all | unused
  · rw [none, one] at all
    exact absurd all Nat.zero_ne_one
  · rw [waits] at unused
    exact absurd unused Nat.one_ne_zero

end StmChan

end RpcFrmwrk.Ipc
