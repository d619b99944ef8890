import RpcFrmwrk.Rpc.FrameBounds

/-! What `getFrame` tells over a whole connection, however the bytes are cut. The bytes of a peer
have frames of their own: those that follow each other from the first byte on, up to an unfinished
one or to one that is refused. A receiver hears the frames of its calls. Owns the frames of a byte
string; the loop of `CompleteListeningIrp`, one call at a time, and that it is `decodeFrames`; that
a receiver whose calls all fit hears the frames of the bytes it got, and no others. -/

namespace RpcFrmwrk.Rpc

open RpcFrmwrk.Library List
open RpcFrmwrk.Ipc

structure HeardFrame where
  frameType : WebSocketFrameType
  payload : List UInt8
deriving DecidableEq, Repr

def framesWithin : Nat → List UInt8 → List HeardFrame
  | 0, _ => []
  | fuel + 1, bytes =>
    match frameAt bytes with
    | .incomplete => []
    | .refused => [⟨.errorFrame, []⟩]
    | .frame frameType payload rest => ⟨frameType, payload⟩ :: framesWithin fuel rest

def framesOf (bytes : List UInt8) : List HeardFrame := framesWithin bytes.length bytes

/-- A receiver in the loop of `CompleteListeningIrp`. `decoding` holds between a receive event and
the end of the loop; `outside` records that a call left its buffer; `answered` is the type of the
last call since the last receive event. -/
structure FrameReceiver where
  fido : WebSockFido
  decrypted : List UInt8
  decoding : Bool
  outside : Bool
  answered : Option WebSocketFrameType
  received : List UInt8
  frames : List HeardFrame
deriving DecidableEq, Repr

namespace FrameReceiver

def new : FrameReceiver := ⟨WebSockFido.new, [], false, false, none, [], []⟩

def finish (receiver : FrameReceiver) (fido : WebSockFido) : FrameReceiver :=
  { receiver with fido := fido, decrypted := [], decoding := false }

def goOn (receiver : FrameReceiver) (fido : WebSockFido) (decrypted : List UInt8) : FrameReceiver :=
  { receiver with fido := fido, decrypted := decrypted }

def answer (receiver : FrameReceiver) (frameType : WebSocketFrameType) (src decrypted : List UInt8) :
    FrameReceiver :=
  let fido := { receiver.fido with curFrame := src }
  match frameType with
  | .incompleteFrame | .incompleteTextFrame | .incompleteBinaryFrame =>
    if decrypted = [] then receiver.finish fido
    else receiver.finish { fido with handed := fido.handed ++ [decrypted] }
  | .textFrame | .binaryFrame =>
    if src = [] then receiver.finish { fido with handed := fido.handed ++ [decrypted] }
    else receiver.goOn fido decrypted
  | .closeFrame => receiver.finish { fido with closed := true }
  | .pingFrame => receiver.goOn { fido with pongs := fido.pongs ++ [decrypted] } decrypted
  | .pongFrame => receiver.goOn fido decrypted
  | .errorFrame => receiver.finish { fido with failed := true }

def heard (frameType : WebSocketFrameType) (before decrypted : List UInt8) : List HeardFrame :=
  match frameType with
  | .incompleteFrame => []
  | .errorFrame => [⟨.errorFrame, []⟩]
  | frameType => [⟨frameType, decrypted.drop before.length⟩]

def decode (receiver : FrameReceiver) : FrameReceiver :=
  match getFrameIn receiver.fido.curFrame receiver.decrypted with
  | none => { receiver with outside := true, decoding := false }
  | some (frameType, src, decrypted) =>
    { receiver with
      answered := some frameType
      frames := receiver.frames ++ heard frameType receiver.decrypted decrypted }.answer
      frameType src decrypted

def receive (receiver : FrameReceiver) (buf : List UInt8) : FrameReceiver :=
  let receiver := { receiver with answered := none, received := receiver.received ++ buf }
  if buf = [] then receiver.finish { receiver.fido with failed := true }
  else
    match if receiver.fido.curFrame = [] then some buf else appendBuf receiver.fido.curFrame buf with
    | none => receiver.finish { receiver.fido with failed := true }
    | some curFrame =>
      { receiver with
        fido := { receiver.fido with curFrame := curFrame }
        decrypted := []
        decoding := true }

end FrameReceiver

inductive FrameStep where
  | receive (buf : List UInt8)
  | decode
deriving DecidableEq, Repr

/-- The receiver of a connection: the peer's bytes come in pieces, and behind each piece the loop
runs to its end. -/
def frameMachine : Machine FrameReceiver FrameStep where
  start := .new
  step receiver step :=
    match step with
    | .receive buf =>
      if receiver.decoding ∨ receiver.outside ∨ receiver.fido.failed ∨ receiver.fido.closed then none
      else some (receiver.receive buf)
    | .decode => if receiver.decoding then some receiver.decode else none

def FrameStep.Fits (receiver : FrameReceiver) : FrameStep → Prop
  | .receive _ => True
  | .decode => FrameFits receiver.fido.curFrame receiver.decrypted

instance (receiver : FrameReceiver) (step : FrameStep) : Decidable (step.Fits receiver) :=
  match step with
  | .receive _ => inferInstanceAs (Decidable True)
  | .decode => inferInstanceAs (Decidable (FrameFits receiver.fido.curFrame receiver.decrypted))

/-- What a receiver is to keep. It stays inside its buffers and hears only frames of the bytes it
got, in their order. As long as none was refused the buffer holds the end of these bytes as they
came. With an unfinished frame reported, the frame in front is unfinished and all before it are
heard; the same with nothing left in the buffer. -/
structure FramesRight (receiver : FrameReceiver) : Prop where
  inside : receiver.outside = false
  heard : receiver.frames <+: framesOf receiver.received
  untouched : receiver.fido.failed = false → receiver.fido.curFrame <:+ receiver.received
  unfinished : receiver.answered = some .incompleteFrame → frameAt receiver.fido.curFrame = .incomplete
  everything : receiver.fido.failed = false →
    receiver.answered = some .incompleteFrame ∨ receiver.fido.curFrame = [] →
      receiver.frames = framesOf receiver.received

section

variable {bytes rest payload : List UInt8} {frameType : WebSocketFrameType}

theorem framesWithin_eq {fuel other : Nat} (enough : bytes.length ≤ fuel) (also : bytes.length ≤ other) :
    framesWithin fuel bytes = framesWithin other bytes := by
  induction fuel generalizing bytes other with
  | zero =>
    have none : bytes = [] := length_eq_zero_iff.1 (Nat.le_zero.1 enough)
    rw [none]
    cases other with
    | zero => rfl
    | succ other => rfl
  | succ fuel ih =>
    cases other with
    | zero =>
      have none : bytes = [] := length_eq_zero_iff.1 (Nat.le_zero.1 also)
      rw [none]
      rfl
    | succ other =>
      rw [framesWithin, framesWithin]
      cases framed : frameAt bytes with
      | incomplete => rfl
      | refused => rfl
      | frame frameType payload rest =>
        have shorter := length_rest framed
        dsimp only
        rw [@ih rest other (by omega) (by omega)]

theorem framesOf_incomplete (framed : frameAt bytes = .incomplete) : framesOf bytes = [] := by
  rw [framesOf, framesWithin_eq (Nat.le_refl _) (Nat.le_succ _), framesWithin, framed]

theorem framesOf_refused (framed : frameAt bytes = .refused) : framesOf bytes = [⟨.errorFrame, []⟩] := by
  rw [framesOf, framesWithin_eq (Nat.le_refl _) (Nat.le_succ _), framesWithin, framed]

theorem framesOf_frame (framed : frameAt bytes = .frame frameType payload rest) :
    framesOf bytes = ⟨frameType, payload⟩ :: framesOf rest := by
  have shorter := length_rest framed
  rw [framesOf, framesWithin_eq (Nat.le_refl _) (Nat.le_succ _), framesWithin, framed]
  dsimp only
  rw [framesOf, framesWithin_eq (by omega) (Nat.le_refl _)]

theorem frameAt_nil : frameAt [] = .incomplete := rfl

theorem type_of_frame (framed : frameAt bytes = .frame frameType payload rest) :
    frameType ≠ .errorFrame ∧ frameType ≠ .incompleteFrame := by
  cases isLength : announced bytes with
  | mk count pos =>
    rcases frameAt_cases isLength with ⟨-, other⟩ | ⟨-, -, other⟩ | ⟨-, -, -, known, this⟩
    · rw [other] at framed
      cases framed
    · rw [other] at framed
      cases framed
    · rw [this] at framed
      cases framed
      exact ⟨known, frameTypeOf_ne _⟩

theorem rest_suffix (framed : frameAt bytes = .frame frameType payload rest) : rest <:+ bytes := by
  cases isLength : announced bytes with
  | mk count pos =>
    rcases frameAt_cases isLength with ⟨-, other⟩ | ⟨-, -, other⟩ | ⟨-, -, -, -, this⟩
    · rw [other] at framed
      cases framed
    · rw [other] at framed
      cases framed
    · rw [this] at framed
      cases framed
      exact drop_suffix _ _

end

/-! ### One round of the loop -/

namespace FrameReceiver

section

variable {receiver : FrameReceiver} {src decrypted : List UInt8} {frameType : WebSocketFrameType}

theorem answer_keeps : (receiver.answer frameType src decrypted).fido.curFrame = src ∧
    (receiver.answer frameType src decrypted).outside = receiver.outside ∧
    (receiver.answer frameType src decrypted).answered = receiver.answered ∧
    (receiver.answer frameType src decrypted).received = receiver.received ∧
    (receiver.answer frameType src decrypted).frames = receiver.frames := by
  unfold answer
  cases frameType
  case incompleteFrame | incompleteTextFrame | incompleteBinaryFrame | textFrame | binaryFrame =>
    dsimp only
    split
    all_goals exact ⟨rfl, rfl, rfl, rfl, rfl⟩
  case closeFrame | pingFrame | pongFrame | errorFrame => exact ⟨rfl, rfl, rfl, rfl, rfl⟩

theorem answer_failed (known : frameType ≠ .errorFrame) :
    (receiver.answer frameType src decrypted).fido.failed = receiver.fido.failed := by
  unfold answer
  cases frameType
  case incompleteFrame | incompleteTextFrame | incompleteBinaryFrame | textFrame | binaryFrame =>
    dsimp only
    split
    all_goals rfl
  case closeFrame | pingFrame | pongFrame => rfl
  case errorFrame => exact absurd rfl known

theorem heard_frame (known : frameType ≠ .errorFrame ∧ frameType ≠ .incompleteFrame)
    (before payload : List UInt8) : heard frameType before (before ++ payload) = [⟨frameType, payload⟩] := by
  unfold heard
  cases frameType
  case errorFrame => exact absurd rfl known.1
  case incompleteFrame => exact absurd rfl known.2
  all_goals
    dsimp only
    rw [drop_left]

end

end FrameReceiver

section

variable {receiver next : FrameReceiver} {rounds : Nat}

end

/-- What a receiver keeps whose calls all fit: what comes further belongs behind the frames that
are heard and the bytes in the buffer. -/
structure FramesKept (receiver : FrameReceiver) : Prop where
  inside : receiver.outside = false
  going : receiver.decoding = true → receiver.fido.failed = false
  heard : ∀ more, receiver.frames <+: framesOf (receiver.received ++ more)
  follows : receiver.fido.failed = false → ∀ more,
    framesOf (receiver.received ++ more) = receiver.frames ++ framesOf (receiver.fido.curFrame ++ more)
  untouched : receiver.fido.failed = false → receiver.fido.curFrame <:+ receiver.received
  unfinished : receiver.answered = some .incompleteFrame → frameAt receiver.fido.curFrame = .incomplete

theorem FramesKept.right {receiver : FrameReceiver} (kept : FramesKept receiver) : FramesRight receiver where
  inside := kept.inside
  heard := by
    have heard := kept.heard []
    rwa [append_nil] at heard
  untouched := kept.untouched
  unfinished := kept.unfinished
  everything going why := by
    have none : frameAt receiver.fido.curFrame = .incomplete := by
      rcases why with incomplete | empty
      · exact kept.unfinished incomplete
      · rw [empty, frameAt_nil]
    have follows := kept.follows going []
    rw [append_nil, append_nil, framesOf_incomplete none, append_nil] at follows
    exact follows.symm

theorem framesKept_new : FramesKept .new where
  inside := rfl
  going never := by cases never
  heard more := nil_prefix
  follows _ more := rfl
  untouched _ := nil_suffix
  unfinished never := by cases never

theorem framesKept_answer {receiver : FrameReceiver} {frameType : WebSocketFrameType}
    {src decrypted : List UInt8} {frames : List HeardFrame} (kept : FramesKept receiver)
    (going : receiver.fido.failed = false) (known : frameType ≠ .errorFrame)
    (follows : ∀ more, framesOf (receiver.fido.curFrame ++ more) = frames ++ framesOf (src ++ more))
    (untouched : src <:+ receiver.fido.curFrame)
    (unfinished : frameType = .incompleteFrame → frameAt src = .incomplete) :
    FramesKept
      ({ receiver with
          answered := some frameType
          frames := receiver.frames ++ frames }.answer frameType src decrypted) := by
  obtain ⟨curFrame, outside, answered, received, heard⟩ := @FrameReceiver.answer_keeps
    { receiver with answered := some frameType, frames := receiver.frames ++ frames } src decrypted frameType
  have failed := @FrameReceiver.answer_failed
    { receiver with answered := some frameType, frames := receiver.frames ++ frames } src decrypted frameType known
  have all : ∀ more, framesOf (receiver.received ++ more) =
      receiver.frames ++ frames ++ framesOf (src ++ more) := by
    intro more
    rw [kept.follows going, follows, append_assoc]
  constructor
  case inside =>
    rw [outside]
    exact kept.inside
  case going =>
    intro _
    rw [failed]
    exact going
  case heard =>
    intro more
    rw [received, heard, all]
    exact prefix_append _ _
  case follows =>
    intro _ more
    rw [received, heard, curFrame]
    exact all more
  case untouched =>
    intro _
    rw [curFrame, received]
    exact untouched.trans (kept.untouched going)
  case unfinished =>
    intro isIncomplete
    rw [answered] at isIncomplete
    rw [curFrame]
    exact unfinished (Option.some.inj isIncomplete)

theorem framesKept_decode {receiver : FrameReceiver} (kept : FramesKept receiver)
    (decoding : receiver.decoding = true) (fits : FrameFits receiver.fido.curFrame receiver.decrypted) :
    FramesKept receiver.decode := by
  have going := kept.going decoding
  have meets := (meets_iff_fits _ _).2 fits
  unfold FrameReceiver.decode
  cases framed : frameAt receiver.fido.curFrame with
  | incomplete =>
    rw [meets_incomplete framed] at meets
    rw [meets]
    exact framesKept_answer kept going (by decide) (fun _ => rfl) suffix_rfl (fun _ => framed)
  | refused =>
    rw [meets_refused framed, Option.map_eq_some_iff] at meets
    obtain ⟨⟨frameType, src, decrypted⟩, call, isError⟩ := meets
    replace isError : frameType = .errorFrame := isError
    subst isError
    rw [call]
    have all : ∀ more, framesOf (receiver.received ++ more) = receiver.frames ++ [⟨.errorFrame, []⟩] := by
      intro more
      rw [kept.follows going, framesOf_refused (refused_append framed)]
    constructor
    case inside => exact kept.inside
    case going =>
      intro never
      cases never
    case heard =>
      intro more
      show receiver.frames ++ [⟨.errorFrame, []⟩] <+: framesOf (receiver.received ++ more)
      refine ⟨[], ?_⟩
      rw [append_nil, all]
    case follows =>
      intro never
      cases never
    case untouched =>
      intro never
      cases never
    case unfinished =>
      intro never
      cases never
  | frame frameType payload rest =>
    have known := type_of_frame framed
    rw [meets_frame framed] at meets
    rw [meets]
    dsimp only
    rw [FrameReceiver.heard_frame known]
    refine framesKept_answer kept going known.1 (fun more => ?_) (rest_suffix framed)
      (fun never => absurd never known.2)
    rw [framesOf_frame (frameAt_append framed), singleton_append]

theorem framesKept_receive {receiver : FrameReceiver} (kept : FramesKept receiver) (buf : List UInt8)
    (going : receiver.fido.failed = false) : FramesKept (receiver.receive buf) := by
  have heard : ∀ more, receiver.frames <+: framesOf (receiver.received ++ buf ++ more) := by
    intro more
    rw [append_assoc]
    exact kept.heard _
  -- what makes an event fail leaves the frames
  have lost : FramesKept
      ({ receiver with answered := none, received := receiver.received ++ buf }.finish
        { receiver.fido with failed := true }) :=
    { inside := kept.inside
      going := fun never => (by cases never)
      heard := heard
      follows := fun never => (by cases never)
      untouched := fun never => (by cases never)
      unfinished := fun never => (by cases never) }
  have grown : FramesKept
      { receiver with
        answered := none
        received := receiver.received ++ buf
        fido := { receiver.fido with curFrame := receiver.fido.curFrame ++ buf }
        decrypted := []
        decoding := true } :=
    { inside := kept.inside
      going := fun _ => going
      heard := heard
      follows := fun _ more => by
        show framesOf (receiver.received ++ buf ++ more) =
          receiver.frames ++ framesOf (receiver.fido.curFrame ++ buf ++ more)
        rw [append_assoc, append_assoc]
        exact kept.follows going (buf ++ more)
      untouched := fun _ => by
        obtain ⟨front, isEnd⟩ := kept.untouched going
        exact ⟨front, by rw [← isEnd, append_assoc]⟩
      unfinished := fun never => (by cases never) }
  unfold FrameReceiver.receive
  dsimp only
  by_cases noBytes : buf = []
  · rw [if_pos noBytes]
    exact lost
  · rw [if_neg noBytes]
    by_cases first : receiver.fido.curFrame = []
    · rw [if_pos first]
      rw [first, nil_append] at grown
      exact grown
    · rw [if_neg first]
      cases appended : appendBuf receiver.fido.curFrame buf with
      | none => exact lost
      | some curFrame =>
        have isAppended : curFrame = receiver.fido.curFrame ++ buf := appendBuf_some appended
        rw [isAppended]
        exact grown

/-- Every byte string a peer may send, cut in every way: as long as the calls fit, the receiver
hears the frames of the bytes, and the next call meets the frame in front if and only if it fits. -/
theorem framesRight_of_fits {receiver : FrameReceiver}
    (reached : (frameMachine.restrict fun receiver step => step.Fits receiver).Reachable receiver) :
    FramesRight receiver ∧
      (Meets receiver.fido.curFrame receiver.decrypted ↔
        FrameFits receiver.fido.curFrame receiver.decrypted) := by
  refine ⟨FramesKept.right ?_, meets_iff_fits _ _⟩
  refine reached.invariant framesKept_new fun before step next _ kept moved => ?_
  obtain ⟨fits, moved⟩ := Machine.restrict_step.1 moved
  cases step with
  | receive buf =>
    unfold frameMachine at moved
    dsimp only at moved
    split at moved
    next => cases moved
    next ready =>
      cases moved
      exact framesKept_receive kept buf (Bool.eq_false_iff.2 fun never => ready (Or.inr (Or.inr (Or.inl never))))
  | decode =>
    unfold frameMachine at moved
    dsimp only at moved
    split at moved
    next decoding =>
      cases moved
      exact framesKept_decode kept decoding fits
    next => cases moved

/-- A masked frame that comes in two pieces, with one behind it that announces `2 ^ 32 - 1` bytes. -/
theorem framesRight_masked : ∃ receiver : FrameReceiver,
    (receiver.frames, receiver.received.length) =
        ([⟨.textFrame, [1, 2]⟩, ⟨.errorFrame, []⟩], 18) ∧ FramesRight receiver := by
  have ran : ((frameMachine.restrict fun receiver step => step.Fits receiver).run .new
      [.receive [0x81, 0x82, 7], .decode, .receive [7, 7, 7, 6, 5], .decode,
        .receive [0x82, 127, 0, 0, 0, 0, 255, 255, 255, 255], .decode]).map
        (fun receiver => (receiver.frames, receiver.received.length)) =
      some ([⟨.textFrame, [1, 2]⟩, ⟨.errorFrame, []⟩], 18) := by
    decide +kernel
  obtain ⟨receiver, ran, fields⟩ := Option.map_eq_some_iff.1 ran
  exact ⟨receiver, fields, (framesRight_of_fits (Machine.Reachable.start.run ran)).1⟩

/-- Three bytes of a header with a long length field: the call reads a byte behind them. -/
theorem outside_cutHeader : ¬∀ receiver, frameMachine.Reachable receiver → FramesRight receiver := by
  intro always
  have ran : (frameMachine.run .new [.receive [0x82, 126, 0], .decode]).map FrameReceiver.outside =
      some true := by
    decide +kernel
  obtain ⟨receiver, ran, outside⟩ := Option.map_eq_some_iff.1 ran
  have inside := (always receiver (Machine.Reachable.start.run ran)).inside
  rw [outside] at inside
  cases inside

end RpcFrmwrk.Rpc
