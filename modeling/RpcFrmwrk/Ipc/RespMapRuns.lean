import Mathlib.Data.List.Basic
import RpcFrmwrk.Ipc.RespMap

/-! Requests and responses of a port over whole runs. Owns `ReqPdo.Settled`, what every request
comes to; what a thread may find of a request between two locks; what each move does to the request
it is about. -/

namespace RpcFrmwrk.Ipc

open RpcFrmwrk.Library List

namespace ReqIrp

def Busy (irp : ReqIrp) : Prop :=
  irp.write = .calling ∨ irp.found ≠ [] ∨ 0 < irp.respCalls ∨ irp.cancels ≠ []

/-- A call of `CompleteIrp` on a request that is ready: where it counts as the end of the write, it comes from the
callback of the write with the request in the map, or the request is about to be cancelled; where it ends the
request, the request is not in the map. -/
def FitsCall (irp : ReqIrp) (caller : CompCaller) (registered : Prop) : Prop :=
  if irp.waitWrite = true ∧ isError irp.status = false then
    caller = .write ∧ registered ∨ irp.cancels ≠ []
  else ¬registered

instance (irp : ReqIrp) (caller : CompCaller) (registered : Prop) [Decidable registered] :
    Decidable (irp.FitsCall caller registered) :=
  inferInstanceAs (Decidable (if irp.waitWrite = true ∧ isError irp.status = false then
    caller = .write ∧ registered ∨ irp.cancels ≠ [] else ¬registered))

end ReqIrp

namespace ReqPdo

/-- A request is completed once and no more, with a response to itself or with an error; one that is not completed and
that no thread is about to move on is in the map, and neither a response to it has come nor has its write
failed; and a request that is completed is in none of the maps. -/
structure Settled (port : ReqPdo) : Prop where
  once : ∀ (index : Nat) (irp : ReqIrp), port.irps[index]? = some irp →
    irp.completions.length = if irp.state = .ready then 0 else 1
  own : ∀ (index : Nat) (irp : ReqIrp), port.irps[index]? = some irp → ∀ done ∈ irp.completions, isError done.status = false →
    ∃ msg, done.respData = some msg ∧ msg.type = .methodReturn ∧ msg.serial = irp.serial ∧ msg.answers = some index
  prompt : ∀ (index : Nat) (irp : ReqIrp), port.irps[index]? = some irp → irp.state = .ready → ¬irp.Busy →
    (irp.serial, index) ∈ port.serial2Resp ∧ irp.heard = false ∧ irp.writeFailed = false
  reqMap : ∀ serial index, (serial, index) ∈ port.serial2Resp →
    ∃ irp, port.irps[index]? = some irp ∧ irp.state = .ready
  respMap : ∀ entry ∈ port.respMsgs, ∀ irp ∈ port.irps, irp.serial = entry.1 → irp.state = .ready

/-- A request does not come while a response with its serial number is kept, nor has it, where its send fails, the
serial number zero. To a `CDBusStreamPdo`, a response that finds no request in the map has a serial number
that no request has had; a malformed message has none of a request that waits, and a response of error type is
not taken by one, unless the request is about to be cancelled; and calls of `CompleteIrp` are as in
`ReqIrp.FitsCall`. -/
def Fits (kind : PdoKind) (port : ReqPdo) : PdoMove → Prop
  | .submit serial _ _ => ∀ entry ∈ port.respMsgs, entry.1 ≠ serial
  | .sent index ret => ∀ irp ∈ port.irps[index]?, isError ret = true → irp.serial = 0 →
      (0, index) ∉ port.serial2Resp
  | .respond serial _ => kind = .dbusStreamPdo → port.accepts = true → port.serial2Resp.lookup serial = none →
      ∀ irp ∈ port.irps, irp.serial ≠ serial
  | .malformed (some serial) => port.accepts = true → ∀ index ∈ port.asked serial, ∀ irp ∈ port.irps[index]?,
      irp.heard = true ∨ irp.cancels ≠ []
  | .takeResp index msg => kind = .dbusStreamPdo → ∀ irp ∈ port.irps[index]?, irp.state = .ready →
      msg.type = .methodReturn ∨ irp.cancels ≠ []
  | .completeIrp caller index => kind = .dbusStreamPdo → ∀ irp ∈ port.irps[index]?, irp.state = .ready →
      irp.FitsCall caller ((irp.serial, index) ∈ port.serial2Resp)
  | _ => True

instance (kind : PdoKind) (port : ReqPdo) (move : PdoMove) : Decidable (port.Fits kind move) :=
  match move with
  | .submit serial _ _ => inferInstanceAs (Decidable (∀ entry ∈ port.respMsgs, entry.1 ≠ serial))
  | .sent index ret => inferInstanceAs (Decidable (∀ irp ∈ port.irps[index]?, isError ret = true → irp.serial = 0 →
      (0, index) ∉ port.serial2Resp))
  | .respond serial _ => inferInstanceAs (Decidable (kind = .dbusStreamPdo → port.accepts = true →
      port.serial2Resp.lookup serial = none → ∀ irp ∈ port.irps, irp.serial ≠ serial))
  | .malformed (some serial) => inferInstanceAs (Decidable (port.accepts = true → ∀ index ∈ port.asked serial,
      ∀ irp ∈ port.irps[index]?, irp.heard = true ∨ irp.cancels ≠ []))
  | .takeResp index msg => inferInstanceAs (Decidable (kind = .dbusStreamPdo → ∀ irp ∈ port.irps[index]?,
      irp.state = .ready → msg.type = .methodReturn ∨ irp.cancels ≠ []))
  | .completeIrp caller index => inferInstanceAs (Decidable (kind = .dbusStreamPdo → ∀ irp ∈ port.irps[index]?,
      irp.state = .ready → irp.FitsCall caller ((irp.serial, index) ∈ port.serial2Resp)))
  | .malformed none | .written _ _ | .cancelIrp _ _ | .timeout _ | .cancelNext _ _ | .offline _ | .stopping
  | .cancelAll => isTrue trivial

end ReqPdo

/-! ### A request between two locks -/

def RespMsg.Answers (msg : RespMsg) (index serial : Nat) : Prop := msg.serial = serial ∧ msg.answers = some index

namespace ReqIrp

/-- What a request carries: the responses are its own, a call of `CompleteIrp` behind a response finds it or an error,
and the completions are as many and as good as they have to be. -/
structure Sound (kind : PdoKind) (index : Nat) (irp : ReqIrp) : Prop where
  submitting : irp.write = .submitting → irp.state = .ready
  stream : irp.write = .writing ∨ irp.write = .calling → kind = .dbusStreamPdo
  found : ∀ msg ∈ irp.found, msg.Answers index irp.serial ∧ msg.type.known = true
  errors : ∀ error ∈ irp.cancels, isError error = true
  called : 0 < irp.respCalls → irp.respData ≠ none ∨ isError irp.status = true ∧ kind = .rpcPdo
  waits : kind = .dbusStreamPdo → irp.write ≠ .done → irp.waitWrite = true ∨ irp.respData ≠ none
  data : ∀ msg, irp.respData = some msg → msg.Answers index irp.serial ∧ msg.type = .methodReturn
  once : irp.completions.length = if irp.state = .ready then 0 else 1
  own : ∀ done ∈ irp.completions, isError done.status = false →
    ∃ msg, done.respData = some msg ∧ msg.Answers index irp.serial ∧ msg.type = .methodReturn

def Heard (irp : ReqIrp) : Prop := irp.heard = true ∨ irp.found ≠ [] ∨ 0 < irp.respCalls

/-- Who will complete the request, with whether it is in the map. -/
structure Served (kind : PdoKind) (registered : Prop) (irp : ReqIrp) : Prop where
  waiting : irp.state = .ready → irp.cancels ≠ [] ∨ irp.found ≠ [] ∨ 0 < irp.respCalls ∨ registered
  taken : registered → irp.Heard → irp.cancels ≠ [] ∧ kind = .dbusStreamPdo
  failed : irp.state = .ready → irp.writeFailed = true →
    irp.cancels ≠ [] ∨ irp.write = .calling ∧ (isError irp.status = true ∨ irp.Heard)

section

variable {kind : PdoKind} {index : Nat} {registered : Prop} {irp : ReqIrp}

theorem Sound.new (serial dest : Nat) : Sound kind index (new kind serial dest) where
  submitting := fun _ => rfl
  stream := fun never => by rcases never with never | never <;> exact WriteStage.noConfusion never
  found := forall_mem_nil _
  errors := forall_mem_nil _
  called := fun never => absurd never (Nat.lt_irrefl 0)
  waits := fun stream _ => .inl (decide_eq_true stream)
  data := fun _ never => absurd never.symm (Option.some_ne_none _)
  once := rfl
  own := forall_mem_nil _

theorem Served.new (serial dest : Nat) (isIn : registered) : Served kind registered (new kind serial dest) where
  waiting := fun _ => .inr (.inr (.inr isIn))
  taken := fun _ never => by
    rcases never with never | never | never
    · exact absurd never Bool.false_ne_true
    · exact absurd rfl never
    · exact absurd never (Nat.lt_irrefl 0)
  failed := fun _ never => absurd never Bool.false_ne_true

theorem Served.of_ended (ended : irp.state ≠ .ready) (gone : ¬registered) : Served kind registered irp where
  waiting := fun ready => absurd ready ended
  taken := fun isIn => absurd isIn gone
  failed := fun ready => absurd ready ended

theorem Sound.complete (sound : Sound kind index irp) (ready : irp.state = .ready)
    (returned : irp.write ≠ .submitting)
    (answered : isError irp.status = true ∨ irp.respData ≠ none) :
    Sound kind index irp.complete where
  submitting := fun never => absurd never returned
  stream := sound.stream
  found := sound.found
  errors := sound.errors
  called := sound.called
  waits := sound.waits
  data := sound.data
  once := by
    show (irp.completions ++ [_]).length = 1
    rw [length_append, sound.once, if_pos ready]
    rfl
  own := by
    intro done member noError
    rcases mem_append.1 member with old | new
    · exact sound.own done old noError
    · rw [mem_singleton.1 new] at noError ⊢
      rcases answered with error | some
      · exact absurd (error.symm.trans noError) Bool.noConfusion
      · obtain ⟨msg, is⟩ := Option.ne_none_iff_exists'.1 some
        exact ⟨msg, is, sound.data msg is⟩

theorem Sound.cancel (sound : Sound kind index irp) (ready : irp.state = .ready)
    (returned : irp.write ≠ .submitting) {error : Int} (fails : isError error = true) :
    Sound kind index (irp.cancel error) where
  submitting := fun never => absurd never returned
  stream := sound.stream
  found := sound.found
  errors := sound.errors
  called := fun calls => (sound.called calls).imp id fun both => ⟨fails, both.2⟩
  waits := sound.waits
  data := sound.data
  once := by
    show (irp.completions ++ [_]).length = 1
    rw [length_append, sound.once, if_pos ready]
    rfl
  own := by
    intro done member noError
    rcases mem_append.1 member with old | new
    · exact sound.own done old noError
    · rw [mem_singleton.1 new] at noError
      exact absurd (fails.symm.trans noError) Bool.noConfusion

theorem Sound.writeDone (sound : Sound kind index irp) : Sound kind index { irp with write := .done } where
  submitting := fun never => WriteStage.noConfusion never
  stream := fun never => by rcases never with never | never <;> exact WriteStage.noConfusion never
  found := sound.found
  errors := sound.errors
  called := sound.called
  waits := fun _ never => absurd rfl never
  data := sound.data
  once := sound.once
  own := sound.own

theorem Sound.takeRespCall (sound : Sound kind index irp) :
    Sound kind index { irp with respCalls := irp.respCalls - 1 } where
  submitting := sound.submitting
  stream := sound.stream
  found := sound.found
  errors := sound.errors
  called := fun more => sound.called (Nat.lt_of_lt_of_le more (Nat.sub_le _ _))
  waits := sound.waits
  data := sound.data
  once := sound.once
  own := sound.own

theorem Sound.written (sound : Sound kind index irp) (writing : irp.write = .writing) (ret : Int) :
    Sound kind index { irp with write := .calling, status := ret, writeFailed := isError ret } where
  submitting := fun never => WriteStage.noConfusion never
  stream := fun _ => sound.stream (.inl writing)
  found := sound.found
  errors := sound.errors
  called := by
    intro calls
    rcases sound.called calls with some | ⟨_, rpc⟩
    · exact .inl some
    · exact PdoKind.noConfusion (rpc.symm.trans (sound.stream (.inl writing)))
  waits := fun stream _ => sound.waits stream fun done => WriteStage.noConfusion (writing.symm.trans done)
  data := sound.data
  once := sound.once
  own := sound.own

theorem Served.written (served : Served kind registered irp) (ret : Int) :
    Served kind registered { irp with write := .calling, status := ret, writeFailed := isError ret } where
  waiting := served.waiting
  taken := served.taken
  failed := fun _ failed => .inr ⟨rfl, .inl failed⟩

theorem Sound.timeout (sound : Sound kind index irp) :
    Sound kind index { irp with status := eTimedOut, cancels := irp.cancels ++ [eTimedOut] } where
  submitting := sound.submitting
  stream := sound.stream
  found := sound.found
  errors := by
    intro error member
    rcases mem_append.1 member with old | new
    · exact sound.errors error old
    · rw [mem_singleton.1 new]
      rfl
  called := fun calls => (sound.called calls).imp id fun both => ⟨rfl, both.2⟩
  waits := sound.waits
  data := sound.data
  once := sound.once
  own := sound.own

theorem Sound.dropCancel (sound : Sound kind index irp) (error : Int) :
    Sound kind index { irp with cancels := irp.cancels.erase error } where
  submitting := sound.submitting
  stream := sound.stream
  found := sound.found
  errors := fun other member => sound.errors other (mem_of_mem_erase member)
  called := sound.called
  waits := sound.waits
  data := sound.data
  once := sound.once
  own := sound.own

theorem Served.addCancel (served : Served kind registered irp) (status error : Int) :
    Served kind registered { irp with status := status, cancels := irp.cancels ++ [error] } where
  waiting := fun _ => .inl (append_ne_nil_of_right_ne_nil _ (cons_ne_nil _ _))
  taken := fun isIn heard =>
    ⟨append_ne_nil_of_right_ne_nil _ (cons_ne_nil _ _), (served.taken isIn heard).2⟩
  failed := fun _ _ => .inl (append_ne_nil_of_right_ne_nil _ (cons_ne_nil _ _))

theorem Sound.dropFound (sound : Sound kind index irp) (msg : RespMsg) :
    Sound kind index { irp with found := irp.found.erase msg } where
  submitting := sound.submitting
  stream := sound.stream
  found := fun other member => sound.found other (mem_of_mem_erase member)
  errors := sound.errors
  called := sound.called
  waits := sound.waits
  data := sound.data
  once := sound.once
  own := sound.own

theorem Sound.takeReturn (sound : Sound kind index irp) {msg : RespMsg}
    (answers : msg.Answers index irp.serial)
    (returns : msg.type = .methodReturn) :
    Sound kind index { irp with respData := some msg, status := 0, respCalls := irp.respCalls + 1 } where
  submitting := sound.submitting
  stream := sound.stream
  found := sound.found
  errors := sound.errors
  called := fun _ => .inl (Option.some_ne_none _)
  waits := fun _ _ => .inr (Option.some_ne_none _)
  data := fun other same => by
    cases same
    exact ⟨answers, returns⟩
  once := sound.once
  own := sound.own

theorem Sound.takeError (sound : Sound .rpcPdo index irp) {status : Int}
    (fails : isError status = true) :
    Sound .rpcPdo index { irp with status := status, respCalls := irp.respCalls + 1 } where
  submitting := sound.submitting
  stream := sound.stream
  found := sound.found
  errors := sound.errors
  called := fun _ => .inr ⟨fails, rfl⟩
  waits := fun never => PdoKind.noConfusion never
  data := sound.data
  once := sound.once
  own := sound.own

theorem Sound.setError (sound : Sound kind index irp) {status : Int}
    (fails : isError status = true) :
    Sound kind index { irp with status := status } where
  submitting := sound.submitting
  stream := sound.stream
  found := sound.found
  errors := sound.errors
  called := fun calls => (sound.called calls).imp id fun both => ⟨fails, both.2⟩
  waits := sound.waits
  data := sound.data
  once := sound.once
  own := sound.own

theorem isError_errno {errno : Int} (known : errno ≤ 0) :
    isError (if errno = 0 then errorFail else errno) = true := by
  split
  · rfl
  · exact decide_eq_true (by omega)

theorem Sound.takeResp (sound : Sound kind index irp) {msg : RespMsg} (member : msg ∈ irp.found) :
    Sound kind index (irp.takeResp kind msg) := by
  have rest := sound.dropFound msg
  obtain ⟨answers, known⟩ := sound.found msg member
  rw [ReqIrp.takeResp]
  by_cases ready : irp.state = .ready
  · rw [if_neg (not_not_intro ready)]
    cases type : msg.type with
    | methodReturn => exact rest.takeReturn answers type
    | error errno =>
      rw [type] at known
      cases kind with
      | rpcPdo => exact rest.takeError (isError_errno (of_decide_eq_true known))
      | dbusStreamPdo => exact rest.setError rfl
  · rw [if_pos ready]
    exact rest

theorem Served.takeResp (served : Served kind registered irp) {msg : RespMsg}
    (member : msg ∈ irp.found)
    (ready : irp.state = .ready)
    (fits : kind = .dbusStreamPdo → msg.type = .methodReturn ∨ irp.cancels ≠ []) :
    Served kind registered (irp.takeResp kind msg) := by
  have heard : irp.Heard := .inr (.inl (ne_nil_of_mem member))
  have calling : irp.writeFailed = true → irp.cancels ≠ [] ∨ irp.write = .calling := by
    intro failed
    exact (served.failed ready failed).imp id And.left
  rw [ReqIrp.takeResp, if_neg (not_not_intro ready)]
  cases type : msg.type with
  | methodReturn =>
    exact ⟨fun _ => .inr (.inr (.inl (Nat.succ_pos _))), fun isIn _ => served.taken isIn heard,
      fun _ failed => (calling failed).imp id fun stage => ⟨stage, .inr (.inr (.inr (Nat.succ_pos _)))⟩⟩
  | error errno =>
    cases kind with
    | rpcPdo =>
      exact ⟨fun _ => .inr (.inr (.inl (Nat.succ_pos _))), fun isIn _ => served.taken isIn heard,
        fun _ failed => (calling failed).imp id fun stage => ⟨stage, .inr (.inr (.inr (Nat.succ_pos _)))⟩⟩
    | dbusStreamPdo =>
      have cancelled : irp.cancels ≠ [] := by
        rcases fits rfl with returns | some
        · rw [type] at returns
          exact RespType.noConfusion returns
        · exact some
      exact ⟨fun _ => .inl cancelled, fun isIn _ => served.taken isIn heard, fun _ _ => .inl cancelled⟩

theorem state_takeResp (msg : RespMsg) : (irp.takeResp kind msg).state = irp.state := by
  rw [ReqIrp.takeResp]
  split
  · rfl
  · split
    · rfl
    · split <;> rfl

theorem serial_takeResp (msg : RespMsg) : (irp.takeResp kind msg).serial = irp.serial := by
  rw [ReqIrp.takeResp]
  split
  · rfl
  · split
    · rfl
    · split <;> rfl

end

end ReqIrp

/-! ### The port between two moves -/

namespace ReqPdo

/-- What holds between two moves. -/
structure Inv (kind : PdoKind) (port : ReqPdo) : Prop where
  sound : ∀ (index : Nat) (irp : ReqIrp), port.irps[index]? = some irp → irp.Sound kind index
  served : ∀ (index : Nat) (irp : ReqIrp), port.irps[index]? = some irp →
    irp.Served kind ((irp.serial, index) ∈ port.serial2Resp)
  entry : ∀ serial index, (serial, index) ∈ port.serial2Resp →
    ∃ irp, port.irps[index]? = some irp ∧ irp.serial = serial ∧ irp.state = .ready
  single : ∀ (left right : Nat) (one other : ReqIrp), port.irps[left]? = some one → port.irps[right]? = some other →
    one.state = .ready → other.state = .ready → one.serial = other.serial → left = right
  strange : ∀ entry ∈ port.respMsgs, ∀ irp ∈ port.irps, irp.serial ≠ entry.1

theorem Inv.new {kind : PdoKind} : new.Inv kind where
  sound := fun _ _ never => absurd never.symm (Option.some_ne_none _)
  served := fun _ _ never => absurd never.symm (Option.some_ne_none _)
  entry := fun _ _ never => absurd never not_mem_nil
  single := fun _ _ _ _ never => absurd never.symm (Option.some_ne_none _)
  strange := forall_mem_nil _

section

variable {kind : PdoKind} {port : ReqPdo} {index serial : Nat} {irp : ReqIrp}

theorem Inv.settled (inv : port.Inv kind) : port.Settled where
  once := fun index irp is => (inv.sound index irp is).once
  own := by
    intro index irp is done member noError
    obtain ⟨msg, data, answers, returns⟩ := (inv.sound index irp is).own done member noError
    exact ⟨msg, data, returns, answers.1, answers.2⟩
  prompt := by
    intro index irp is ready idle
    have served := inv.served index irp is
    have noCancel : ¬irp.cancels ≠ [] := fun some => idle (.inr (.inr (.inr some)))
    have registered : (irp.serial, index) ∈ port.serial2Resp := by
      rcases served.waiting ready with some | some | some | isIn
      · exact absurd some noCancel
      · exact absurd (.inr (.inl some)) idle
      · exact absurd (.inr (.inr (.inl some))) idle
      · exact isIn
    refine ⟨registered, ?_, ?_⟩
    · apply Bool.eq_false_iff.2
      intro heard
      exact noCancel (served.taken registered (.inl heard)).1
    · apply Bool.eq_false_iff.2
      intro failed
      rcases served.failed ready failed with some | calling
      · exact noCancel some
      · exact idle (.inl calling.1)
  reqMap := by
    intro serial index isIn
    obtain ⟨irp, is, _, ready⟩ := inv.entry serial index isIn
    exact ⟨irp, is, ready⟩
  respMap := fun entry member irp isIrp same => absurd same (inv.strange entry member irp isIrp)

theorem Inv.apart (inv : port.Inv kind) (is : port.irps[index]? = some irp)
    (ready : irp.state = .ready) {other : Nat}
    (differs : other ≠ index)
    (isIn : (serial, other) ∈ port.serial2Resp) : serial ≠ irp.serial := by
  intro same
  obtain ⟨irpOther, isOther, serialOther, readyOther⟩ := inv.entry serial other isIn
  exact differs (inv.single other index irpOther irp isOther is readyOther ready (serialOther.trans same))

theorem Inv.own_serial (inv : port.Inv kind) (is : port.irps[index]? = some irp)
    (isIn : (serial, index) ∈ port.serial2Resp) : serial = irp.serial ∧ irp.state = .ready := by
  obtain ⟨same, isSame, serialSame, ready⟩ := inv.entry serial index isIn
  rw [is] at isSame
  cases isSame
  exact ⟨serialSame.symm, ready⟩

variable {found before : ReqIrp} {dest : Nat} {error ret : Int} {caller : CompCaller}

theorem set_cases {irps : List ReqIrp} {put : ReqIrp} {other : Nat}
    (is : (irps.set index put)[other]? = some found) :
    other = index ∧ found = put ∨ other ≠ index ∧ irps[other]? = some found := by
  rw [List.getElem?_set] at is
  by_cases same : index = other
  · rw [if_pos same] at is
    have bound := (Option.ite_none_right_eq_some.1 is).2
    exact .inl ⟨same.symm, (Option.some.inj bound).symm⟩
  · rw [if_neg same] at is
    exact .inr ⟨fun equal => same equal.symm, is⟩

theorem Inv.put (inv : port.Inv kind) (is : port.irps[index]? = some irp) {put : ReqIrp}
    {serial2Resp : List (Nat × Nat)} {respMsgs : List (Nat × RespMsg)}
    (sameSerial : put.serial = irp.serial)
    (ready : put.state = .ready → irp.state = .ready)
    (others : ∀ serial other, other ≠ index → ((serial, other) ∈ serial2Resp ↔ (serial, other) ∈ port.serial2Resp))
    (own : ∀ serial, (serial, index) ∈ serial2Resp → serial = irp.serial ∧ put.state = .ready)
    (sound : put.Sound kind index) (served : put.Served kind ((irp.serial, index) ∈ serial2Resp))
    (fewer : ∀ entry ∈ respMsgs, entry ∈ port.respMsgs) :
    ({ port with irps := port.irps.set index put, serial2Resp := serial2Resp, respMsgs := respMsgs } : ReqPdo).Inv
      kind where
  sound := by
    intro other found isFound
    rcases set_cases isFound with ⟨rfl, rfl⟩ | ⟨_, old⟩
    · exact sound
    · exact inv.sound other found old
  served := by
    intro other found isFound
    rcases set_cases isFound with ⟨rfl, rfl⟩ | ⟨differs, old⟩
    · rw [sameSerial]
      exact served
    · show found.Served kind ((found.serial, other) ∈ serial2Resp)
      rw [others found.serial other differs]
      exact inv.served other found old
  entry := by
    intro serial other isIn
    by_cases same : other = index
    · rw [same] at isIn ⊢
      obtain ⟨equal, readyPut⟩ := own serial isIn
      refine ⟨put, ?_, sameSerial.trans equal.symm, readyPut⟩
      exact List.getElem?_set_self (List.getElem?_eq_some_iff.1 is).1
    · obtain ⟨found, isFound, serialFound, readyFound⟩ := inv.entry serial other ((others serial other same).1 isIn)
      refine ⟨found, ?_, serialFound, readyFound⟩
      exact (List.getElem?_set_ne fun equal => same equal.symm).trans isFound
  single := by
    intro left right one other isOne isOther readyOne readyOther serials
    rcases set_cases isOne with ⟨rfl, rfl⟩ | ⟨differsOne, oldOne⟩
    · rcases set_cases isOther with ⟨rfl, rfl⟩ | ⟨differsOther, oldOther⟩
      · rfl
      · exact inv.single _ _ _ _ is oldOther (ready readyOne) readyOther (sameSerial.symm.trans serials)
    · rcases set_cases isOther with ⟨rfl, rfl⟩ | ⟨differsOther, oldOther⟩
      · exact inv.single _ _ _ _ oldOne is readyOne (ready readyOther) (serials.trans sameSerial)
      · exact inv.single _ _ _ _ oldOne oldOther readyOne readyOther serials
  strange := by
    intro entry member found isFound
    rcases mem_or_eq_of_mem_set isFound with old | rfl
    · exact inv.strange entry (fewer entry member) found old
    · rw [sameSerial]
      exact inv.strange entry (fewer entry member) irp (mem_of_getElem? is)

theorem Inv.putIrp (inv : port.Inv kind) (is : port.irps[index]? = some irp) {put : ReqIrp}
    (sameSerial : put.serial = irp.serial) (ready : put.state = .ready ↔ irp.state = .ready)
    (sound : put.Sound kind index)
    (served : put.Served kind ((irp.serial, index) ∈ port.serial2Resp)) :
    (port.putIrp index put).Inv kind := by
  apply inv.put is sameSerial ready.1
  · intro serial other _
    exact Iff.rfl
  · intro serial isIn
    obtain ⟨equal, isReady⟩ := inv.own_serial is isIn
    exact ⟨equal, ready.2 isReady⟩
  · exact sound
  · exact served
  · exact fun _ member => member

theorem mem_of_lookup {entries : List (Nat × Nat)} (is : entries.lookup serial = some index) :
    (serial, index) ∈ entries := by
  obtain ⟨front, back, rfl, _⟩ := lookup_eq_some_iff.1 is
  exact mem_append_right _ mem_cons_self

theorem not_mem_of_lookup {α : Type} {entries : List (Nat × α)}
    (none : entries.lookup serial = none) (value : α) :
    (serial, value) ∉ entries := by
  intro member
  have differs := lookup_eq_none_iff.1 none _ member
  exact absurd rfl (bne_iff_ne.1 differs)

theorem asked_some (is : port.asked serial = some index) :
    ∃ irp, port.irps[index]? = some irp ∧ irp.serial = serial ∧ irp.state = .ready := by
  obtain ⟨bound, holds, _⟩ := List.findIdx?_eq_some_iff_getElem.1 is
  exact ⟨port.irps[index], List.getElem?_eq_getElem bound, of_decide_eq_true holds⟩

theorem asked_none (none : port.asked serial = none) (member : irp ∈ port.irps)
    (same : irp.serial = serial) :
    irp.state ≠ .ready := by
  intro ready
  have never := List.findIdx?_eq_none_iff.1 none irp member
  exact of_decide_eq_false never ⟨same, ready⟩

theorem Inv.asked_eq (inv : port.Inv kind) (is : port.irps[index]? = some irp)
    (ready : irp.state = .ready) :
    port.asked irp.serial = some index := by
  cases asked : port.asked irp.serial with
  | none => exact absurd ready (asked_none asked (mem_of_getElem? is) rfl)
  | some other =>
    obtain ⟨found, isFound, same, readyFound⟩ := asked_some asked
    rw [inv.single other index found irp isFound is readyFound ready same]

theorem Inv.lookup_of_asked (inv : port.Inv kind) (free : port.asked serial = none) :
    port.serial2Resp.lookup serial = none := by
  cases found : port.serial2Resp.lookup serial with
  | none => rfl
  | some index =>
    obtain ⟨irp, is, same, ready⟩ := inv.entry serial index (mem_of_lookup found)
    exact absurd ready (asked_none free (mem_of_getElem? is) same)

theorem append_cases {irps : List ReqIrp} {put : ReqIrp} {other : Nat}
    (is : (irps ++ [put])[other]? = some found) :
    other = irps.length ∧ found = put ∨ other ≠ irps.length ∧ irps[other]? = some found := by
  rw [List.getElem?_append] at is
  by_cases old : other < irps.length
  · rw [if_pos old] at is
    exact .inr ⟨Nat.ne_of_lt old, is⟩
  · rw [if_neg old, List.getElem?_singleton] at is
    obtain ⟨last, same⟩ := Option.ite_none_right_eq_some.1 is
    exact .inl ⟨by omega, (Option.some.inj same).symm⟩

theorem Inv.add (inv : port.Inv kind) {put : ReqIrp} {serial2Resp : List (Nat × Nat)}
    (free : port.asked put.serial = none)
    (others : ∀ serial other, other ≠ port.irps.length →
      ((serial, other) ∈ serial2Resp ↔ (serial, other) ∈ port.serial2Resp))
    (own : ∀ serial, (serial, port.irps.length) ∈ serial2Resp → serial = put.serial ∧ put.state = .ready)
    (sound : put.Sound kind port.irps.length)
    (served : put.Served kind ((put.serial, port.irps.length) ∈ serial2Resp))
    (strange : ∀ entry ∈ port.respMsgs, entry.1 ≠ put.serial) :
    ({ port with irps := port.irps ++ [put], serial2Resp := serial2Resp } : ReqPdo).Inv kind where
  sound := by
    intro other found isFound
    rcases append_cases isFound with ⟨rfl, rfl⟩ | ⟨_, old⟩
    · exact sound
    · exact inv.sound other found old
  served := by
    intro other found isFound
    rcases append_cases isFound with ⟨rfl, rfl⟩ | ⟨differs, old⟩
    · exact served
    · show found.Served kind ((found.serial, other) ∈ serial2Resp)
      rw [others found.serial other differs]
      exact inv.served other found old
  entry := by
    intro serial other isIn
    by_cases same : other = port.irps.length
    · rw [same] at isIn ⊢
      obtain ⟨equal, ready⟩ := own serial isIn
      exact ⟨put, List.getElem?_concat_length, equal.symm, ready⟩
    · obtain ⟨found, isFound, rest⟩ := inv.entry serial other ((others serial other same).1 isIn)
      have bound := (List.getElem?_eq_some_iff.1 isFound).1
      exact ⟨found, (List.getElem?_append_left bound).trans isFound, rest⟩
  single := by
    intro left right one other isOne isOther readyOne readyOther serials
    rcases append_cases isOne with ⟨rfl, rfl⟩ | ⟨_, oldOne⟩
    · rcases append_cases isOther with ⟨rfl, rfl⟩ | ⟨_, oldOther⟩
      · rfl
      · exact absurd readyOther (asked_none free (mem_of_getElem? oldOther) serials.symm)
    · rcases append_cases isOther with ⟨rfl, rfl⟩ | ⟨_, oldOther⟩
      · exact absurd readyOne (asked_none free (mem_of_getElem? oldOne) serials)
      · exact inv.single _ _ _ _ oldOne oldOther readyOne readyOther serials
  strange := by
    intro entry member found isFound
    rcases mem_append.1 isFound with old | new
    · exact inv.strange entry member found old
    · rw [mem_singleton.1 new]
      exact fun same => strange entry member same.symm

theorem Inv.not_mem_length (inv : port.Inv kind) : (serial, port.irps.length) ∉ port.serial2Resp := by
  intro isIn
  obtain ⟨irp, is, _⟩ := inv.entry serial _ isIn
  exact absurd (List.getElem?_eq_some_iff.1 is).1 (Nat.lt_irrefl _)

theorem Inv.addFailed (inv : port.Inv kind) (free : port.asked serial = none)
    (strange : ∀ entry ∈ port.respMsgs, entry.1 ≠ serial) (fails : isError error = true) :
    ({ port with
      irps := port.irps ++ [({ ReqIrp.new kind serial dest with write := .done, status := error } :
        ReqIrp).complete] } : ReqPdo).Inv kind := by
  have sound : ({ ReqIrp.new kind serial dest with write := .done, status := error } : ReqIrp).Sound kind
      port.irps.length := (ReqIrp.Sound.writeDone (ReqIrp.Sound.new serial dest)).setError fails
  apply inv.add free
  · exact fun _ _ _ => Iff.rfl
  · exact fun _ never => absurd never inv.not_mem_length
  · exact sound.complete rfl (fun never => WriteStage.noConfusion never) (.inl fails)
  · exact ReqIrp.Served.of_ended (fun never => IrpState.noConfusion never) inv.not_mem_length
  · exact strange

theorem Inv.addSent (inv : port.Inv kind) (dest : Nat) (free : port.asked serial = none)
    (strange : ∀ entry ∈ port.respMsgs, entry.1 ≠ serial) :
    ({ port with
      irps := port.irps ++ [ReqIrp.new kind serial dest]
      serial2Resp := port.serial2Resp ++ [(serial, port.irps.length)] } : ReqPdo).Inv kind := by
  apply inv.add free
  · intro other index differs
    rw [mem_append, mem_singleton]
    exact ⟨fun either => either.resolve_right fun same => differs (congrArg Prod.snd same), .inl⟩
  · intro other isIn
    have new := (mem_append.1 isIn).resolve_left inv.not_mem_length
    exact ⟨congrArg Prod.fst (mem_singleton.1 new), rfl⟩
  · exact ReqIrp.Sound.new serial dest
  · exact ReqIrp.Served.new serial dest (mem_append_right _ (mem_singleton.2 rfl))
  · exact strange

theorem Inv.submit (inv : port.Inv kind) (free : port.asked serial = none)
    (strange : ∀ entry ∈ port.respMsgs, entry.1 ≠ serial) :
    (port.submit kind serial dest ret).Inv kind := by
  have absent := inv.lookup_of_asked free
  have added := inv.addSent dest free strange
  rw [ReqPdo.submit.eq_def]
  dsimp only
  by_cases fails : isError ret = true
  · rw [if_pos fails]
    exact inv.addFailed free strange fails
  · rw [if_neg fails]
    have inserts : ({ port with irps := port.irps ++ [ReqIrp.new kind serial dest] } : ReqPdo).insertSerial serial
        port.irps.length = { port with
          irps := port.irps ++ [ReqIrp.new kind serial dest]
          serial2Resp := port.serial2Resp ++ [(serial, port.irps.length)] } := by
      rw [insertSerial]
      exact if_neg (by rw [absent]; exact Bool.false_ne_true)
    rw [inserts, absent]
    cases kind with
    | rpcPdo => exact added
    | dbusStreamPdo => exact added

theorem Inv.putEnded (inv : port.Inv kind) (is : port.irps[index]? = some irp) {put : ReqIrp}
    {serial2Resp : List (Nat × Nat)} {respMsgs : List (Nat × RespMsg)}
    (sound : put.Sound kind index)
    (sameSerial : put.serial = irp.serial) (ended : put.state ≠ .ready)
    (others : ∀ serial other, other ≠ index → ((serial, other) ∈ serial2Resp ↔ (serial, other) ∈ port.serial2Resp))
    (gone : ∀ serial, (serial, index) ∉ serial2Resp)
    (fewer : ∀ entry ∈ respMsgs, entry ∈ port.respMsgs) :
    ({ port with irps := port.irps.set index put, serial2Resp := serial2Resp, respMsgs := respMsgs } : ReqPdo).Inv
      kind :=
  inv.put is sameSerial (fun ready => absurd ready ended) others (fun serial isIn => absurd isIn (gone serial)) sound
    (ReqIrp.Served.of_ended ended (gone irp.serial)) fewer

theorem Inv.gone_of_ended (inv : port.Inv kind) (is : port.irps[index]? = some irp)
    (ended : irp.state ≠ .ready) :
    (serial, index) ∉ port.serial2Resp :=
  fun isIn => ended (inv.own_serial is isIn).2

theorem Inv.gone_of_own (inv : port.Inv kind) (is : port.irps[index]? = some irp)
    (gone : (irp.serial, index) ∉ port.serial2Resp) : (serial, index) ∉ port.serial2Resp := by
  intro isIn
  rw [(inv.own_serial is isIn).1] at isIn
  exact gone isIn

theorem Inv.putBehind (inv : port.Inv kind) (is : port.irps[index]? = some irp) {put : ReqIrp}
    (sameSerial : put.serial = irp.serial) (sameState : put.state = irp.state)
    (ended : irp.state ≠ .ready)
    (sound : put.Sound kind index) : (port.putIrp index put).Inv kind := by
  apply inv.putIrp is sameSerial (by rw [sameState]) sound
  exact ReqIrp.Served.of_ended (by rw [sameState]; exact ended) (inv.gone_of_ended is ended)

theorem mem_eraseSerial {entry : Nat × Nat} :
    entry ∈ (port.eraseSerial serial).serial2Resp ↔ entry ∈ port.serial2Resp ∧ entry.1 ≠ serial := by
  rw [eraseSerial, mem_filter, decide_eq_true_iff]

theorem Inv.sent (inv : port.Inv kind) (is : port.irps[index]? = some irp)
    (submitting : irp.write = .submitting)
    (fits : isError ret = true → irp.serial = 0 → (0, index) ∉ port.serial2Resp) :
    (port.sent kind index irp ret).Inv kind := by
  have sound := inv.sound index irp is
  have served := inv.served index irp is
  have ready := sound.submitting submitting
  rw [ReqPdo.sent.eq_def]
  dsimp only
  by_cases fails : isError ret = true
  · rw [if_pos fails]
    have ended : (({ irp with write := .done, status := ret } : ReqIrp).complete).Sound kind index :=
      (sound.writeDone.setError fails).complete ready (fun never => WriteStage.noConfusion never) (.inl fails)
    by_cases zero : irp.serial = 0
    · rw [if_neg (not_not_intro zero)]
      have gone : (irp.serial, index) ∉ port.serial2Resp := by
        rw [zero]
        exact fits fails zero
      exact inv.putEnded is ended rfl (fun never => IrpState.noConfusion never) (fun _ _ _ => Iff.rfl)
        (fun _ => inv.gone_of_own is gone) (fun _ member => member)
    · rw [if_pos zero]
      apply inv.putEnded is ended rfl (fun never => IrpState.noConfusion never) _ _ (fun _ member => member)
      · intro serial other differs
        rw [mem_eraseSerial]
        exact ⟨And.left, fun isIn => ⟨isIn, inv.apart is ready differs isIn⟩⟩
      · intro serial isIn
        obtain ⟨old, differs⟩ := mem_eraseSerial.1 isIn
        exact differs (inv.own_serial is old).1
  · rw [if_neg fails]
    have failed : irp.writeFailed = true → irp.cancels ≠ [] := by
      intro failed
      rcases served.failed ready failed with some | ⟨calling, _⟩
      · exact some
      · exact WriteStage.noConfusion (submitting.symm.trans calling)
    cases kind with
    | rpcPdo =>
      exact inv.putIrp is rfl Iff.rfl sound.writeDone
        ⟨served.waiting, served.taken, fun _ isFailed => .inl (failed isFailed)⟩
    | dbusStreamPdo =>
      refine inv.putIrp is rfl Iff.rfl ?_ ⟨served.waiting, served.taken, fun _ isFailed => .inl (failed isFailed)⟩
      exact ⟨fun never => WriteStage.noConfusion never, fun _ => rfl, sound.found, sound.errors, sound.called,
        fun stream _ => sound.waits stream fun never => WriteStage.noConfusion (submitting.symm.trans never),
        sound.data, sound.once, sound.own⟩

theorem Inv.written (inv : port.Inv kind) (is : port.irps[index]? = some irp)
    (writing : irp.write = .writing)
    (ret : Int) : (port.written index irp ret).Inv kind := by
  have sound := inv.sound index irp is
  rw [ReqPdo.written]
  by_cases ready : irp.state = .ready
  · rw [if_neg (not_not_intro ready)]
    exact inv.putIrp is rfl Iff.rfl (sound.written writing ret) ((inv.served index irp is).written ret)
  · rw [if_pos ready]
    exact inv.putBehind is rfl rfl ready sound.writeDone

theorem Inv.takeResp (inv : port.Inv kind) (is : port.irps[index]? = some irp) {msg : RespMsg}
    (member : msg ∈ irp.found)
    (fits : kind = .dbusStreamPdo → irp.state = .ready → msg.type = .methodReturn ∨ irp.cancels ≠ []) :
    (port.putIrp index (irp.takeResp kind msg)).Inv kind := by
  have sound := (inv.sound index irp is).takeResp member
  by_cases ready : irp.state = .ready
  · apply inv.putIrp is (ReqIrp.serial_takeResp msg) (by rw [ReqIrp.state_takeResp]) sound
    exact (inv.served index irp is).takeResp member ready fun stream => fits stream ready
  · exact inv.putBehind is (ReqIrp.serial_takeResp msg) (ReqIrp.state_takeResp msg) ready sound

theorem Inv.timeout (inv : port.Inv kind) (is : port.irps[index]? = some irp) :
    (port.putIrp index { irp with status := eTimedOut, cancels := irp.cancels ++ [eTimedOut] }).Inv kind :=
  inv.putIrp is rfl Iff.rfl (inv.sound index irp is).timeout ((inv.served index irp is).addCancel _ _)

theorem Inv.cancelIrp (inv : port.Inv kind) (is : port.irps[index]? = some irp)
    (sound : before.Sound kind index) (sameSerial : before.serial = irp.serial)
    (sameState : before.state = irp.state)
    (returned : before.write ≠ .submitting) (fails : isError error = true) :
    (port.cancelIrp index before error).Inv kind := by
  rw [ReqPdo.cancelIrp]
  by_cases ready : before.state = .ready
  · rw [if_neg (not_not_intro ready)]
    have cancelled := sound.cancel ready returned fails
    apply inv.putEnded is cancelled sameSerial (fun never => IrpState.noConfusion never) _ _ (fun _ member => member)
    · intro serial other differs
      rw [mem_filter]
      exact ⟨And.left, fun isIn => ⟨isIn, decide_eq_true differs⟩⟩
    · intro serial isIn
      exact of_decide_eq_true (mem_filter.1 isIn).2 rfl
  · rw [if_pos ready]
    exact inv.putBehind is sameSerial sameState (by rw [← sameState]; exact ready) sound

/-! ### `CompleteIrp` -/

/-- What the call of `CompleteIrp` leaves as it is. -/
structure Called (irp before : ReqIrp) : Prop where
  serial : before.serial = irp.serial
  state : before.state = irp.state
  status : before.status = irp.status
  respData : before.respData = irp.respData
  waitWrite : before.waitWrite = irp.waitWrite
  cancels : before.cancels = irp.cancels
  writeFailed : before.writeFailed = irp.writeFailed
  returned : irp.write ≠ .submitting → before.write ≠ .submitting

theorem takeCall_called (took : takeCall irp caller = some before) :
    Called irp before := by
  cases caller with
  | write =>
    cases (Option.ite_none_right_eq_some.1 took).2
    exact ⟨rfl, rfl, rfl, rfl, rfl, rfl, rfl, fun _ never => WriteStage.noConfusion never⟩
  | response =>
    cases (Option.ite_none_right_eq_some.1 took).2
    exact ⟨rfl, rfl, rfl, rfl, rfl, rfl, rfl, id⟩

theorem takeCall_sound (took : takeCall irp caller = some before)
    (sound : irp.Sound kind index) : before.Sound kind index := by
  cases caller with
  | write =>
    cases (Option.ite_none_right_eq_some.1 took).2
    exact sound.writeDone
  | response =>
    cases (Option.ite_none_right_eq_some.1 took).2
    exact sound.takeRespCall

theorem takeCall_answered (took : takeCall irp caller = some before)
    (sound : irp.Sound kind index)
    (ends : ¬(irp.waitWrite = true ∧ isError irp.status = false) ∨ kind = .rpcPdo) :
    isError irp.status = true ∨ irp.respData ≠ none := by
  cases caller with
  | write =>
    have calling := (Option.ite_none_right_eq_some.1 took).1
    have stream := sound.stream (.inr calling)
    have waiting := ends.resolve_right fun rpc => PdoKind.noConfusion (rpc.symm.trans stream)
    rcases sound.waits stream (fun never => WriteStage.noConfusion (calling.symm.trans never)) with wait | some
    · exact .inl ((Bool.eq_false_or_eq_true _).resolve_right fun noError => waiting ⟨wait, noError⟩)
    · exact .inr some
  | response =>
    have calls := (Option.ite_none_right_eq_some.1 took).1
    rcases sound.called calls with some | ⟨fails, _⟩
    · exact .inr some
    · exact .inl fails

theorem takeCall_noted (took : takeCall irp caller = some before)
    (sound : irp.Sound .dbusStreamPdo index) :
    ({ before with waitWrite := false } : ReqIrp).Sound .dbusStreamPdo index := by
  have rest := takeCall_sound took sound
  refine ⟨rest.submitting, rest.stream, rest.found, rest.errors, rest.called, ?_, rest.data, rest.once, rest.own⟩
  intro _ notDone
  cases caller with
  | write =>
    cases (Option.ite_none_right_eq_some.1 took).2
    exact absurd rfl notDone
  | response =>
    obtain ⟨calls, ⟨⟩⟩ := Option.ite_none_right_eq_some.1 took
    rcases sound.called calls with some | ⟨_, never⟩
    · exact .inr some
    · exact PdoKind.noConfusion never

theorem takeCall_served {registered : Prop}
    (took : takeCall irp caller = some before) (served : irp.Served .dbusStreamPdo registered)
    (noError : isError irp.status = false)
    (fits : caller = .write ∧ registered ∨ irp.cancels ≠ []) :
    ({ before with waitWrite := false } : ReqIrp).Served .dbusStreamPdo True := by
  have called := takeCall_called took
  rcases fits with ⟨rfl, isIn⟩ | some
  · obtain ⟨calling, ⟨⟩⟩ := Option.ite_none_right_eq_some.1 took
    refine ⟨fun _ => .inr (.inr (.inr trivial)), fun _ heard => served.taken isIn heard, ?_⟩
    intro ready failed
    rcases served.failed ready failed with some | ⟨_, fails | heard⟩
    · exact .inl some
    · exact absurd (fails.symm.trans noError) Bool.noConfusion
    · exact .inl (served.taken isIn heard).1
  · have cancelled : before.cancels ≠ [] := by
      rw [called.cancels]
      exact some
    exact ⟨fun _ => .inl cancelled, fun _ _ => ⟨cancelled, rfl⟩, fun _ _ => .inl cancelled⟩

theorem Inv.putInserted (inv : port.Inv kind) (is : port.irps[index]? = some irp)
    (ready : irp.state = .ready)
    {put : ReqIrp} (sound : put.Sound kind index) (served : put.Served kind True)
    (sameSerial : put.serial = irp.serial)
    (sameState : put.state = irp.state) :
    ((port.putIrp index put).insertSerial irp.serial index).Inv kind := by
  have present : (port.putIrp index put).insertSerial irp.serial index = { port with
      irps := port.irps.set index put
      serial2Resp := ((port.putIrp index put).insertSerial irp.serial index).serial2Resp } := by
    rw [insertSerial]
    split <;> rfl
  have isIn : (irp.serial, index) ∈ ((port.putIrp index put).insertSerial irp.serial index).serial2Resp := by
    rw [insertSerial]
    cases found : (port.putIrp index put).serial2Resp.lookup irp.serial with
    | none => exact mem_append_right _ (mem_singleton.2 rfl)
    | some other =>
      have member : (irp.serial, other) ∈ port.serial2Resp := mem_of_lookup found
      obtain ⟨irpOther, isOther, serialOther, readyOther⟩ := inv.entry _ _ member
      rw [inv.single other index irpOther irp isOther is readyOther ready serialOther] at member
      exact member
  have others : ∀ serial other, (serial, other) ≠ (irp.serial, index) →
      ((serial, other) ∈ ((port.putIrp index put).insertSerial irp.serial index).serial2Resp ↔
        (serial, other) ∈ port.serial2Resp) := by
    intro serial other differs
    rw [insertSerial]
    split
    · exact Iff.rfl
    · rw [mem_append, mem_singleton]
      exact ⟨fun either => either.resolve_right differs, .inl⟩
  rw [present]
  apply inv.put is sameSerial (fun isReady => by rw [← sameState]; exact isReady) _ _ sound _ (fun _ member => member)
  · exact fun serial other differs => others serial other fun same => differs (congrArg Prod.snd same)
  · intro serial member
    by_cases same : serial = irp.serial
    · exact ⟨same, sameState.trans ready⟩
    · exact absurd (inv.own_serial is ((others serial index fun equal => same (congrArg Prod.fst equal)).1 member)).1 same
  · rw [eq_true isIn]
    exact served

theorem Inv.lookup_respMsgs (inv : port.Inv kind) (is : port.irps[index]? = some irp) :
    port.respMsgs.lookup irp.serial = none := by
  apply lookup_eq_none_iff.2
  intro entry member
  exact bne_iff_ne.2 (inv.strange entry member irp (mem_of_getElem? is))

theorem completeSendReq_waits (wait : irp.waitWrite = true) (noError : isError irp.status = false)
    (empty : port.respMsgs.lookup irp.serial = none) : port.completeSendReq index irp =
      (port.putIrp index { irp with waitWrite := false }).insertSerial irp.serial index := by
  rw [completeSendReq.eq_def, if_pos wait, noError, if_neg Bool.false_ne_true]
  dsimp only
  rw [empty]

theorem completeSendReq_ends (ends : ¬(irp.waitWrite = true ∧ isError irp.status = false)) :
    ∃ respMsgs : List (Nat × RespMsg), (∀ entry ∈ respMsgs, entry ∈ port.respMsgs) ∧
      port.completeSendReq index irp =
        { port with irps := port.irps.set index irp.complete, respMsgs := respMsgs } := by
  rw [completeSendReq.eq_def]
  by_cases wait : irp.waitWrite = true
  · have fails : isError irp.status = true :=
      (Bool.eq_false_or_eq_true _).resolve_right fun noError => ends ⟨wait, noError⟩
    rw [if_pos wait, if_pos fails]
    exact ⟨port.respMsgs, fun _ member => member, rfl⟩
  · rw [if_neg wait]
    split
    · exact ⟨port.respMsgs, fun _ member => member, rfl⟩
    · exact ⟨_, fun _ member => (mem_filter.1 member).1, rfl⟩

theorem Inv.completeIrp (inv : port.Inv kind) (is : port.irps[index]? = some irp)
    (returned : irp.write ≠ .submitting) (took : takeCall irp caller = some before)
    (fits : kind = .dbusStreamPdo → irp.state = .ready →
      irp.FitsCall caller ((irp.serial, index) ∈ port.serial2Resp)) : (port.completeIrp kind index before).Inv kind := by
  have called := takeCall_called took
  have sound := takeCall_sound took (inv.sound index irp is)
  have served := inv.served index irp is
  rw [ReqPdo.completeIrp.eq_def]
  by_cases ready : irp.state = .ready
  · have readyBefore : before.state = .ready := called.state.trans ready
    rw [if_neg (not_not_intro readyBefore)]
    have ends : (¬(irp.waitWrite = true ∧ isError irp.status = false) ∨ kind = .rpcPdo) →
        before.complete.Sound kind index := by
      intro ends
      have answered := takeCall_answered took (inv.sound index irp is) ends
      rw [← called.status, ← called.respData] at answered
      exact sound.complete readyBefore (called.returned returned) answered
    cases kind with
    | rpcPdo =>
      have gone : (irp.serial, index) ∉ port.serial2Resp := by
        intro isIn
        cases caller with
        | write =>
          have calling := (Option.ite_none_right_eq_some.1 took).1
          exact PdoKind.noConfusion ((inv.sound index irp is).stream (.inr calling))
        | response =>
          have calls := (Option.ite_none_right_eq_some.1 took).1
          exact PdoKind.noConfusion (served.taken isIn (.inr (.inr calls))).2
      exact inv.putEnded is (ends (.inr rfl)) called.serial (fun never => IrpState.noConfusion never)
        (fun _ _ _ => Iff.rfl) (fun _ => inv.gone_of_own is gone) (fun _ member => member)
    | dbusStreamPdo =>
      have fitsCall := fits rfl ready
      have samePending : (before.waitWrite = true ∧ isError before.status = false) ↔
          irp.waitWrite = true ∧ isError irp.status = false := by
        rw [called.waitWrite, called.status]
      rw [ReqIrp.FitsCall] at fitsCall
      dsimp only
      by_cases pending : irp.waitWrite = true ∧ isError irp.status = false
      · rw [if_pos pending] at fitsCall
        have pendingBefore := samePending.2 pending
        have empty := inv.lookup_respMsgs is
        rw [← called.serial] at empty
        have inserted := inv.putInserted is ready (takeCall_noted took (inv.sound index irp is))
          (takeCall_served took served pending.2 fitsCall) called.serial called.state
        rw [← called.serial] at inserted
        rw [completeSendReq_waits pendingBefore.1 pendingBefore.2 empty]
        exact inserted
      · rw [if_neg pending] at fitsCall
        obtain ⟨respMsgs, fewer, same⟩ :=
          @completeSendReq_ends port index before fun never => pending (samePending.1 never)
        rw [same]
        exact inv.putEnded is (ends (.inl pending)) called.serial (fun never => IrpState.noConfusion never)
          (fun _ _ _ => Iff.rfl) (fun _ => inv.gone_of_own is fitsCall) fewer
  · have ended : before.state ≠ .ready := by
      rw [called.state]
      exact ready
    rw [if_pos ended]
    exact inv.putBehind is called.serial called.state ready sound

/-! ### Messages of the peer -/

theorem Inv.hear (inv : port.Inv kind) {answers : Option Nat}
    (fits : ∀ index ∈ answers, ∀ irp, port.irps[index]? = some irp → (irp.serial, index) ∈ port.serial2Resp →
      irp.Heard ∨ irp.cancels ≠ [] ∧ kind = .dbusStreamPdo) : (port.hear answers).Inv kind := by
  cases answers with
  | none => exact inv
  | some index =>
    rw [ReqPdo.hear.eq_def]
    dsimp only
    cases is : port.irps[index]? with
    | none => exact inv
    | some irp =>
      have sound := inv.sound index irp is
      have served := inv.served index irp is
      refine inv.putIrp is rfl Iff.rfl ?_ ?_
      · exact { sound with }
      · refine ⟨served.waiting, ?_, ?_⟩
        · intro isIn _
          rcases fits index rfl irp is isIn with heard | both
          · exact served.taken isIn heard
          · exact both
        · intro ready failed
          exact (served.failed ready failed).imp id fun both => ⟨both.1, .inr (.inl rfl)⟩

theorem Inv.find (inv : port.Inv kind) {msg : RespMsg} (is : port.irps[index]? = some irp)
    (isIn : (msg.serial, index) ∈ port.serial2Resp) (known : msg.type.known = true)
    (answers : msg.answers = port.asked msg.serial) :
    ((port.eraseSerial msg.serial).putIrp index { irp with found := irp.found ++ [msg] }).Inv kind := by
  have sound := inv.sound index irp is
  have served := inv.served index irp is
  obtain ⟨own, ready⟩ := inv.own_serial is isIn
  rw [own, inv.asked_eq is ready] at answers
  have gone : (irp.serial, index) ∉ (port.eraseSerial msg.serial).serial2Resp :=
    fun never => (mem_eraseSerial.1 never).2 own.symm
  have some : irp.found ++ [msg] ≠ [] := append_ne_nil_of_right_ne_nil _ (cons_ne_nil _ _)
  refine inv.put is rfl (fun same => same) ?_ ?_ ?_ ?_ (fun _ member => member)
  · intro serial other differs
    rw [mem_eraseSerial]
    refine ⟨And.left, fun old => ⟨old, ?_⟩⟩
    rw [own]
    exact inv.apart is ready differs old
  · intro serial member
    exact inv.own_serial is (mem_eraseSerial.1 member).1
  · refine ⟨sound.submitting, sound.stream, ?_, sound.errors, sound.called, sound.waits, sound.data, sound.once,
      sound.own⟩
    exact forall_mem_append.2 ⟨sound.found, forall_mem_singleton.2 (⟨⟨own, answers⟩, known⟩)⟩
  · refine ⟨fun _ => .inr (.inl some), fun isIn => absurd isIn gone, ?_⟩
    intro isReady failed
    exact (served.failed isReady failed).imp id fun both => ⟨both.1, .inr (.inr (.inl some))⟩

theorem Inv.keep (inv : port.Inv kind) {msg : RespMsg}
    (strange : ∀ irp ∈ port.irps, irp.serial ≠ msg.serial) :
    ({ port with
      respMsgs := (port.respMsgs.filter fun entry => entry.1 ≠ msg.serial) ++ [(msg.serial, msg)] } : ReqPdo).Inv
      kind where
  sound := inv.sound
  served := inv.served
  entry := inv.entry
  single := inv.single
  strange := by
    intro entry member irp isIrp
    rcases mem_append.1 member with old | new
    · exact inv.strange entry (mem_filter.1 old).1 irp isIrp
    · rw [mem_singleton.1 new]
      exact strange irp isIrp

theorem Inv.findIrpForResp (inv : port.Inv kind) {msg : RespMsg} (known : msg.type.known = true)
    (answers : msg.answers = port.asked msg.serial)
    (fits : kind = .dbusStreamPdo → port.serial2Resp.lookup msg.serial = none →
      ∀ irp ∈ port.irps, irp.serial ≠ msg.serial) : (port.findIrpForResp kind msg).Inv kind := by
  rw [ReqPdo.findIrpForResp.eq_def]
  cases found : port.serial2Resp.lookup msg.serial with
  | none =>
    cases kind with
    | rpcPdo => exact inv
    | dbusStreamPdo => exact inv.keep (fits rfl found)
  | some index =>
    have isIn := mem_of_lookup found
    obtain ⟨irp, is, _⟩ := inv.entry _ _ isIn
    dsimp only
    rw [show (port.eraseSerial msg.serial).irps[index]? = some irp from is]
    exact inv.find is isIn known answers

theorem findIrpForResp_gone {msg : RespMsg} :
    (msg.serial, index) ∉ (port.findIrpForResp kind msg).serial2Resp := by
  rw [ReqPdo.findIrpForResp.eq_def]
  cases found : port.serial2Resp.lookup msg.serial with
  | none => cases kind with
    | rpcPdo | dbusStreamPdo => exact not_mem_of_lookup found index
  | some other =>
    have erased : (msg.serial, index) ∉ (port.eraseSerial msg.serial).serial2Resp :=
      fun never => (mem_eraseSerial.1 never).2 rfl
    dsimp only
    split
    · exact erased
    · exact erased

theorem findIrpForResp_serial {msg : RespMsg}
    (is : (port.findIrpForResp kind msg).irps[index]? = some irp) :
    ∃ old, port.irps[index]? = some old ∧ irp.serial = old.serial := by
  rw [ReqPdo.findIrpForResp.eq_def] at is
  cases found : port.serial2Resp.lookup msg.serial with
  | none =>
    rw [found] at is
    cases kind with
    | rpcPdo | dbusStreamPdo => exact ⟨irp, is, rfl⟩
  | some other =>
    rw [found] at is
    dsimp only at is
    split at is
    · exact ⟨irp, is, rfl⟩
    · next old isOld =>
        rcases set_cases is with ⟨rfl, rfl⟩ | ⟨_, same⟩
        · exact ⟨old, isOld, rfl⟩
        · exact ⟨irp, same, rfl⟩

theorem Inv.respond (inv : port.Inv kind) {type : RespType} (known : type.known = true)
    (fits : kind = .dbusStreamPdo → port.accepts = true → port.serial2Resp.lookup serial = none →
      ∀ irp ∈ port.irps, irp.serial ≠ serial) : (port.respond kind serial type).Inv kind := by
  rw [ReqPdo.respond]
  split
  · next accepts =>
      have found := @Inv.findIrpForResp kind port inv ⟨serial, type, port.asked serial⟩ known rfl
        fun stream => fits stream accepts
      apply found.hear
      intro index asked irp is isIn
      obtain ⟨old, isOld, same⟩ := findIrpForResp_serial is
      obtain ⟨waiting, isWaiting, serialWaiting, _⟩ := asked_some asked
      rw [isOld] at isWaiting
      cases isWaiting
      rw [same, serialWaiting] at isIn
      exact absurd isIn findIrpForResp_gone
  · exact inv

theorem Inv.malformed (inv : port.Inv kind) {serial : Option Nat}
    (possible : ¬(kind = .rpcPdo ∧ serial ≠ none))
    (fits : ∀ number ∈ serial, port.accepts = true → ∀ index ∈ port.asked number, ∀ irp ∈ port.irps[index]?,
      irp.heard = true ∨ irp.cancels ≠ []) : (port.malformed serial).Inv kind := by
  cases serial with
  | none => exact inv
  | some number =>
    rw [ReqPdo.malformed.eq_def]
    dsimp only
    split
    · next accepts =>
        have stream : kind = .dbusStreamPdo := by
          cases kind with
          | rpcPdo => exact absurd ⟨rfl, Option.some_ne_none _⟩ possible
          | dbusStreamPdo => rfl
        apply inv.hear
        intro index asked irp is _
        rcases fits number rfl accepts index asked irp is with heard | some
        · exact .inl (.inl heard)
        · exact .inr ⟨some, stream⟩
    · exact inv

/-! ### Requests that are cancelled together -/

theorem cancelEntries_irps {which : Nat × Nat → Bool}
    (is : (port.cancelEntries which error).irps[index]? = some irp) :
    ∃ old, port.irps[index]? = some old ∧
      (irp = { old with cancels := old.cancels ++ [error] } ∨
        irp = old ∧ ∀ serial, (serial, index) ∈ port.serial2Resp → which (serial, index) = false) := by
  rw [cancelEntries, List.getElem?_mapIdx] at is
  obtain ⟨old, isOld, same⟩ := Option.map_eq_some_iff.1 is
  refine ⟨old, isOld, ?_⟩
  split at same
  · exact .inl same.symm
  · next absent =>
      refine .inr ⟨same.symm, ?_⟩
      intro serial isIn
      apply Bool.eq_false_iff.2
      intro holds
      exact absent (any_eq_true.2 ⟨_, mem_filter.2 ⟨isIn, holds⟩, decide_eq_true rfl⟩)

theorem Inv.cancelEntries (inv : port.Inv kind) (which : Nat × Nat → Bool)
    (fails : isError error = true) :
    (port.cancelEntries which error).Inv kind where
  sound := by
    intro index irp is
    obtain ⟨old, isOld, rfl | ⟨rfl, _⟩⟩ := cancelEntries_irps is
    · have sound := inv.sound index old isOld
      refine ⟨sound.submitting, sound.stream, sound.found, ?_, sound.called, sound.waits, sound.data, sound.once,
        sound.own⟩
      exact forall_mem_append.2 ⟨sound.errors, forall_mem_singleton.2 fails⟩
    · exact inv.sound index irp isOld
  served := by
    intro index irp is
    have remains : ∀ serial, (serial, index) ∈ (port.cancelEntries which error).serial2Resp →
        (serial, index) ∈ port.serial2Resp := fun _ member => (mem_filter.1 member).1
    obtain ⟨old, isOld, rfl | ⟨rfl, stays⟩⟩ := cancelEntries_irps is
    · have served := (inv.served index old isOld).addCancel old.status error
      exact ⟨fun _ => .inl (append_ne_nil_of_right_ne_nil _ (cons_ne_nil _ _)),
        fun isIn => served.taken (remains _ isIn), served.failed⟩
    · have served := inv.served index irp isOld
      have same : (irp.serial, index) ∈ (port.cancelEntries which error).serial2Resp ↔
          (irp.serial, index) ∈ port.serial2Resp := by
        refine ⟨remains _, fun isIn => mem_filter.2 ⟨isIn, ?_⟩⟩
        rw [stays _ isIn]
        rfl
      rw [same]
      exact served
  entry := by
    intro serial index isIn
    obtain ⟨old, isOld, rest⟩ := inv.entry serial index (mem_filter.1 isIn).1
    have is : (port.cancelEntries which error).irps[index]? = _ :=
      List.getElem?_mapIdx.trans (congrArg (Option.map _) isOld)
    refine ⟨_, is, ?_⟩
    split <;> exact rest
  single := by
    intro left right one other isOne isOther readyOne readyOther serials
    obtain ⟨oldOne, isOldOne, rfl | ⟨rfl, _⟩⟩ := cancelEntries_irps isOne
    · obtain ⟨oldOther, isOldOther, rfl | ⟨rfl, _⟩⟩ := cancelEntries_irps isOther
      · exact inv.single _ _ _ _ isOldOne isOldOther readyOne readyOther serials
      · exact inv.single _ _ _ _ isOldOne isOldOther readyOne readyOther serials
    · obtain ⟨oldOther, isOldOther, rfl | ⟨rfl, _⟩⟩ := cancelEntries_irps isOther
      · exact inv.single _ _ _ _ isOldOne isOldOther readyOne readyOther serials
      · exact inv.single _ _ _ _ isOldOne isOldOther readyOne readyOther serials
  strange := by
    intro entry member irp isIrp
    obtain ⟨index, is⟩ := List.getElem?_of_mem isIrp
    obtain ⟨old, isOld, rfl | ⟨rfl, _⟩⟩ := cancelEntries_irps is
    · exact inv.strange entry member old (mem_of_getElem? isOld)
    · exact inv.strange entry member irp (mem_of_getElem? isOld)

theorem free_of_moved {move : ReqIrp → Option ReqPdo} {next : ReqPdo}
    (moved : (port.irps[index]?.bind fun irp => if irp.write = .submitting then none else move irp) = some next) :
    ∃ irp, port.irps[index]? = some irp ∧ irp.write ≠ .submitting ∧ move irp = some next := by
  obtain ⟨irp, is, rest⟩ := Option.bind_eq_some_iff.1 moved
  obtain ⟨returned, same⟩ := Option.ite_none_left_eq_some.1 rest
  exact ⟨irp, is, returned, same⟩

theorem Inv.step (inv : port.Inv kind) {move : PdoMove} {next : ReqPdo} (fits : port.Fits kind move)
    (moved : port.step kind move = some next) : next.Inv kind := by
  cases move with
  | submit serial dest ret =>
    obtain ⟨⟨_, free⟩, ⟨⟩⟩ := Option.ite_none_right_eq_some.1 moved
    exact inv.submit free fits
  | sent index ret =>
    obtain ⟨irp, is, rest⟩ := Option.bind_eq_some_iff.1 moved
    obtain ⟨submitting, ⟨⟩⟩ := Option.ite_none_right_eq_some.1 rest
    exact inv.sent is submitting (fits irp is)
  | written index ret =>
    obtain ⟨irp, is, _, same⟩ := free_of_moved moved
    obtain ⟨both, ⟨⟩⟩ := Option.ite_none_right_eq_some.1 same
    exact inv.written is both.1 ret
  | respond serial type =>
    obtain ⟨known, ⟨⟩⟩ := Option.ite_none_right_eq_some.1 moved
    exact inv.respond known fits
  | malformed serial =>
    obtain ⟨possible, ⟨⟩⟩ := Option.ite_none_left_eq_some.1 moved
    apply inv.malformed possible
    intro number is
    cases is
    exact fits
  | takeResp index msg =>
    obtain ⟨irp, is, _, same⟩ := free_of_moved moved
    obtain ⟨member, ⟨⟩⟩ := Option.ite_none_right_eq_some.1 same
    exact inv.takeResp is member fun stream => fits stream irp is
  | completeIrp caller index =>
    obtain ⟨irp, is, returned, same⟩ := free_of_moved moved
    obtain ⟨before, took, ⟨⟩⟩ := Option.map_eq_some_iff.1 same
    exact inv.completeIrp is returned took fun stream => fits stream irp is
  | cancelIrp index error =>
    obtain ⟨irp, is, returned, same⟩ := free_of_moved moved
    obtain ⟨fails, ⟨⟩⟩ := Option.ite_none_right_eq_some.1 same
    exact inv.cancelIrp is (inv.sound index irp is) rfl rfl returned fails
  | timeout index =>
    obtain ⟨irp, is, _, same⟩ := free_of_moved moved
    obtain ⟨_, ⟨⟩⟩ := Option.ite_none_right_eq_some.1 same
    exact inv.timeout is
  | cancelNext index error =>
    obtain ⟨irp, is, returned, same⟩ := free_of_moved moved
    obtain ⟨member, ⟨⟩⟩ := Option.ite_none_right_eq_some.1 same
    have sound := inv.sound index irp is
    exact inv.cancelIrp is (sound.dropCancel error) rfl rfl returned (sound.errors error member)
  | offline dest =>
    obtain ⟨_, ⟨⟩⟩ := Option.ite_none_right_eq_some.1 moved
    exact inv.cancelEntries _ rfl
  | stopping =>
    obtain ⟨_, ⟨⟩⟩ := Option.ite_none_right_eq_some.1 moved
    exact { inv with }
  | cancelAll =>
    obtain ⟨_, ⟨⟩⟩ := Option.ite_none_left_eq_some.1 moved
    exact inv.cancelEntries _ rfl

end

/-- A request to a port that runs as `Fits` has it comes to one end, its own response or an error, and leaves nothing
in the maps. -/
theorem settled_of_fits {kind : PdoKind} {port : ReqPdo}
    (reached : ((reqPdo kind).restrict (Fits kind)).Reachable port) : port.Settled := by
  have inv : port.Inv kind := by
    apply @Machine.Reachable.invariant _ _ _ (Inv kind) _ reached
    · exact Inv.new
    · intro state move next _ inv moved
      obtain ⟨fits, moved⟩ := Machine.restrict_step.1 moved
      exact inv.step fits moved
  exact inv.settled

/-- One request gets its response, and one has its response on the way when its time is out. -/
theorem settled_answeredAndLate : ∃ port : ReqPdo,
    port.irps.map ReqIrp.completions =
      [[⟨0, some ⟨1, .methodReturn, some 0⟩⟩], [⟨eTimedOut, some ⟨2, .methodReturn, some 1⟩⟩]] ∧ port.Settled := by
  have ran : (((reqPdo .dbusStreamPdo).restrict (Fits .dbusStreamPdo)).run new
      [.submit 1 0 0, .sent 0 statusPending, .submit 2 0 0, .sent 1 statusPending, .written 0 0, .completeIrp .write 0,
        .written 1 0, .completeIrp .write 1, .respond 1 .methodReturn, .takeResp 0 ⟨1, .methodReturn, some 0⟩,
        .respond 2 .methodReturn, .completeIrp .response 0, .takeResp 1 ⟨2, .methodReturn, some 1⟩, .timeout 1,
        .completeIrp .response 1, .cancelNext 1 eTimedOut]).map (fun port => port.irps.map ReqIrp.completions) =
      some [[⟨0, some ⟨1, .methodReturn, some 0⟩⟩], [⟨eTimedOut, some ⟨2, .methodReturn, some 1⟩⟩]] := by
    decide +kernel
  obtain ⟨port, run, completions⟩ := Option.map_eq_some_iff.1 ran
  exact ⟨port, completions, settled_of_fits (Machine.Reachable.start.run run)⟩

/-- A response of error type takes its request from the map of a `CDBusStreamPdo`, and no thread completes it. -/
theorem errorResponse_waits :
    ¬∀ (kind : PdoKind) (port : ReqPdo), (reqPdo kind).Reachable port → port.Settled := by
  intro settled
  let irp : ReqIrp :=
    { ReqIrp.new .dbusStreamPdo 1 0 with write := .done, status := eBadMsg, waitWrite := false, heard := true }
  have ran : (reqPdo .dbusStreamPdo).run new
      [.submit 1 0 0, .sent 0 statusPending, .written 0 0, .completeIrp .write 0, .respond 1 (.error (-5)),
        .takeResp 0 ⟨1, .error (-5), some 0⟩] = some ⟨true, [irp], [], []⟩ := by
    decide +kernel
  have idle : ¬irp.Busy := by
    rintro (busy | busy | busy | busy)
    · exact WriteStage.noConfusion busy
    · exact busy rfl
    · exact Nat.lt_irrefl 0 busy
    · exact busy rfl
  have isIn := ((settled _ _ (Machine.Reachable.start.run ran)).prompt 0 irp rfl rfl idle).1
  exact not_mem_nil isIn

end ReqPdo

end RpcFrmwrk.Ipc
