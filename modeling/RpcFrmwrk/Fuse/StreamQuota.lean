import Mathlib.Logic.Function.Basic
import RpcFrmwrk.Ipc.Irp
import RpcFrmwrk.Library.Machine

/-! The quota on the streams of a session of an `rpcfs` server. Each call has the lock of the
service directory, so that one follows the other. `lock` is what `RLOCK_TESTMNT` or `WLOCK_TESTMNT`
gives. The streams are numbered as they are accepted. Owns `IncStmCount`, `DecStmCount`,
`AcceptNewStreamFuse`, `OnStreamReadyFuse` and `OnStmClosingFuse` of `CFuseSvcServer`; the count of
a session in a run in which each stream that ends is lowered by its own end. -/

namespace RpcFrmwrk.Fuse

open RpcFrmwrk.Ipc RpcFrmwrk.Library

def maxStreamsPerSvc : Nat := 1024

def maxStreamsPerSess : Nat := 256

/-- `-EMFILE`. -/
def eMFile : Int := -24

/-- The descriptor of a stream: `propNodeName`, and `propTransCtx` with the `propSessHash` in it.
What is not there is read with an error. -/
structure StreamDesc where
  nodeName : Option String
  transCtx : Except Int (Except Int String)

def StreamDesc.sessHash (desc : StreamDesc) : Except Int String := desc.transCtx.bind id

/-- `CFuseSvcServer`, with `m_mapSessCount`. -/
structure SvcServer where
  mapSessCount : String → Option Nat

namespace SvcServer

def incStmCount (svr : SvcServer) (strSess : String) : SvcServer × Int :=
  match svr.mapSessCount strSess with
  | none => (⟨Function.update svr.mapSessCount strSess (some 1)⟩, 0)
  | some count =>
    if maxStreamsPerSess ≤ count then (svr, eMFile)
    else (⟨Function.update svr.mapSessCount strSess (some (count + 1))⟩, 0)

def decStmCount (svr : SvcServer) (strSess : String) : SvcServer × Int :=
  match svr.mapSessCount strSess with
  | none => (svr, eNoEnt)
  | some count =>
    if count ≤ 0 then (svr, eRange)
    else if count - 1 = 0 then (⟨Function.update svr.mapSessCount strSess none⟩, 0)
    else (⟨Function.update svr.mapSessCount strSess (some (count - 1))⟩, 0)

/-- `AcceptNewStreamFuse`, with the number of the files of the streams. -/
def acceptNewStreamFuse (svr : SvcServer) (lock : Int) (files : Nat) (dataDesc : Option StreamDesc) :
    SvcServer × Int :=
  if isError lock then (svr, lock)
  else if maxStreamsPerSvc < files then (svr, eMFile)
  else match dataDesc with
    | none => (svr, eInval)
    | some desc =>
      if desc.nodeName = none then (svr, eNoEnt)
      else match desc.sessHash with
        | .error ret => (svr, ret)
        | .ok strSess => svr.incStmCount strSess

/-- `OnStreamReadyFuse`, with what `CreateStmFile` and `GetDataDesc` return. -/
def onStreamReadyFuse (svr : SvcServer) (lock : Int) (connected : Bool) (created : Int)
    (dataDesc : Except Int StreamDesc) : SvcServer × Int :=
  if isError lock then (svr, lock)
  else if !connected then (svr, lock)
  else if created = 0 then (svr, created)
  else match dataDesc with
    | .error ret => (svr, ret)
    -- `GET_STMDESC_LOCKED` has overwritten the error of `CreateStmFile`.
    | .ok desc => (match desc.sessHash with
      | .error _ => svr
      | .ok strSess => (svr.decStmCount strSess).1, 0)

/-- `OnStmClosingFuse`, with what `GetDataDesc` returns, and the removal of the file. -/
def onStmClosingFuse (svr : SvcServer) (lock : Int) (dataDesc : Except Int StreamDesc) (removed : Int) :
    SvcServer × Int :=
  if isError lock then (svr, lock)
  else match dataDesc with
    | .error ret => (svr, ret)
    | .ok desc => (match desc.sessHash with
      | .error _ => svr
      | .ok strSess => (svr.decStmCount strSess).1, removed)

end SvcServer

/-- An accepted stream: whether it was closed or given up, and how often the count was lowered for it. -/
structure QuotaStream where
  strSess : String
  ended : Bool
  lowered : Nat
deriving DecidableEq

structure QuotaRun where
  svr : SvcServer
  streams : List QuotaStream

inductive QuotaMove where
  | offer (lock : Int) (files : Nat) (dataDesc : Option StreamDesc)
  | ready (stream : Nat) (lock : Int) (connected : Bool) (created : Int) (dataDesc : Except Int StreamDesc)
  | closing (stream : Nat) (lock : Int) (dataDesc : Except Int StreamDesc) (removed : Int)

/-- The session of a descriptor, where one is read from it. -/
def sessRead (dataDesc : Except Int StreamDesc) : Option String := (dataDesc.bind StreamDesc.sessHash).toOption

/-- The creation of the file of a stream fails, and the stream is given up. -/
def givesUp (lock : Int) (connected : Bool) (created : Int) : Bool := !isError lock && connected && created != 0

namespace QuotaStream

/-- The stream ends, and the count is lowered if a session is read. -/
def finish (stream : QuotaStream) (dataDesc : Except Int StreamDesc) : QuotaStream :=
  { stream with ended := true, lowered := stream.lowered + if (sessRead dataDesc).isSome then 1 else 0 }

def live (sess : String) (stream : QuotaStream) : Bool := stream.strSess == sess && !stream.ended

end QuotaStream

namespace QuotaRun

/-- The accepted streams of a session that were neither closed nor given up. -/
def live (run : QuotaRun) (sess : String) : Nat := run.streams.countP (QuotaStream.live sess)

def step (run : QuotaRun) : QuotaMove → Option QuotaRun
  | .offer lock files dataDesc =>
    let answer := run.svr.acceptNewStreamFuse lock files dataDesc
    let accepted := if answer.2 = 0 then (dataDesc.bind fun desc => desc.sessHash.toOption).toList else []
    some ⟨answer.1, run.streams ++ accepted.map fun strSess => ⟨strSess, false, 0⟩⟩
  | .ready index lock connected created dataDesc =>
    run.streams[index]?.map fun stream =>
      ⟨(run.svr.onStreamReadyFuse lock connected created dataDesc).1,
        if givesUp lock connected created then run.streams.set index (stream.finish dataDesc) else run.streams⟩
  | .closing index lock dataDesc removed =>
    run.streams[index]?.map fun stream =>
      ⟨(run.svr.onStmClosingFuse lock dataDesc removed).1,
        run.streams.set index (if isError lock then { stream with ended := true } else stream.finish dataDesc)⟩

def endsOwn (run : QuotaRun) (index : Nat) (dataDesc : Except Int StreamDesc) : Bool :=
  run.streams[index]?.any fun stream => !stream.ended && sessRead dataDesc == some stream.strSess

/-- A stream ends once, with the lock, and with its own session read. -/
def orderly (run : QuotaRun) : QuotaMove → Bool
  | .offer .. => true
  | .ready index lock connected created dataDesc => !givesUp lock connected created || run.endsOwn index dataDesc
  | .closing index lock dataDesc _ => !isError lock && run.endsOwn index dataDesc

end QuotaRun

def quotaMachine : Machine QuotaRun QuotaMove := ⟨⟨⟨fun _ => none⟩, []⟩, QuotaRun.step⟩

/-! ### The balance -/

/-- What the table has for a session with so many streams. -/
def countEntry (live : Nat) : Option Nat := if live = 0 then none else some live

structure QuotaRun.Balanced (run : QuotaRun) : Prop where
  counts : ∀ sess, run.svr.mapSessCount sess = countEntry (run.live sess)
  within : ∀ sess, run.live sess ≤ maxStreamsPerSess
  once : ∀ stream ∈ run.streams, stream.lowered = if stream.ended then 1 else 0

variable {svr : SvcServer} {run next : QuotaRun} {stream : QuotaStream} {sess : String} {index live : Nat}
  {dataDesc : Except Int StreamDesc}

theorem SvcServer.incStmCount_entry (entry : svr.mapSessCount sess = countEntry live) :
    svr.incStmCount sess = if maxStreamsPerSess ≤ live then (svr, eMFile)
      else (⟨Function.update svr.mapSessCount sess (countEntry (live + 1))⟩, 0) := by
  have room : 0 < maxStreamsPerSess := by decide
  simp only [incStmCount, entry, countEntry]
  by_cases none : live = 0
  · simp [none, Nat.not_le.2 room]
  · simp [none]

theorem SvcServer.decStmCount_entry (entry : svr.mapSessCount sess = countEntry live) (some : 0 < live) :
    (svr.decStmCount sess).1 = ⟨Function.update svr.mapSessCount sess (countEntry (live - 1))⟩ := by
  have positive : live ≠ 0 := Nat.ne_of_gt some
  simp only [decStmCount, entry, countEntry, if_neg positive, if_neg (Nat.not_le.2 some)]
  split <;> rfl

theorem SvcServer.acceptNewStreamFuse_cases (lock : Int) (files : Nat) (desc : Option StreamDesc) :
    ((svr.acceptNewStreamFuse lock files desc).1 = svr ∧ ((svr.acceptNewStreamFuse lock files desc).2 = 0 →
      (desc.bind fun desc => desc.sessHash.toOption) = none)) ∨
    ∃ strSess, (desc.bind fun desc => desc.sessHash.toOption) = some strSess ∧
      svr.acceptNewStreamFuse lock files desc = svr.incStmCount strSess := by
  simp only [acceptNewStreamFuse]
  cases desc with
  | none => exact .inl ⟨by grind, fun _ => rfl⟩
  | some desc =>
    cases read : desc.sessHash with
    | error ret => exact .inl ⟨by grind, fun _ => by simp [read, Except.toOption]⟩
    | ok strSess => grind [Except.toOption, isError, eMFile, eNoEnt]

theorem SvcServer.onStreamReadyFuse_kept {lock created : Int} {connected : Bool}
    (kept : givesUp lock connected created = false) :
    (svr.onStreamReadyFuse lock connected created dataDesc).1 = svr := by
  simp only [givesUp, onStreamReadyFuse] at *
  grind

theorem SvcServer.onStreamReadyFuse_givesUp {lock created : Int} {connected : Bool}
    (ends : givesUp lock connected created = true) (read : sessRead dataDesc = some sess) :
    (svr.onStreamReadyFuse lock connected created dataDesc).1 = (svr.decStmCount sess).1 := by
  simp only [givesUp, onStreamReadyFuse] at *
  cases dataDesc with
  | error ret => cases read
  | ok desc => grind [sessRead, Except.toOption, Except.bind]

theorem SvcServer.onStmClosingFuse_read {lock : Int} (locked : isError lock = false)
    (read : sessRead dataDesc = some sess) (removed : Int) :
    (svr.onStmClosingFuse lock dataDesc removed).1 = (svr.decStmCount sess).1 := by
  simp only [onStmClosingFuse]
  cases dataDesc with
  | error ret => cases read
  | ok desc => grind [sessRead, Except.toOption, Except.bind]

theorem QuotaRun.endsOwn_spec (own : run.endsOwn index dataDesc = true) :
    ∃ stream, run.streams[index]? = some stream ∧ stream.ended = false ∧ sessRead dataDesc = some stream.strSess := by
  simp only [endsOwn, Option.any_eq_true] at own
  grind

namespace QuotaRun.Balanced

theorem accept (balanced : run.Balanced) (strSess : String) (room : run.live strSess < maxStreamsPerSess) :
    QuotaRun.Balanced ⟨⟨Function.update run.svr.mapSessCount strSess (countEntry (run.live strSess + 1))⟩,
      run.streams ++ [⟨strSess, false, 0⟩]⟩ := by
  have lives (svr : SvcServer) (sess : String) : QuotaRun.live ⟨svr, run.streams ++ [⟨strSess, false, 0⟩]⟩ sess =
      run.live sess + if strSess = sess then 1 else 0 := by
    simp [QuotaRun.live, List.countP_append, List.countP_cons, QuotaStream.live]
  refine ⟨fun sess => ?_, fun sess => ?_, ?_⟩
  · rw [lives]
    grind [balanced.counts sess, Function.update_apply]
  · rw [lives]
    grind [balanced.within sess]
  · grind [balanced.once]

theorem finish (balanced : run.Balanced) (found : run.streams[index]? = some stream) (active : stream.ended = false)
    (read : sessRead dataDesc = some stream.strSess) :
    QuotaRun.Balanced ⟨(run.svr.decStmCount stream.strSess).1, run.streams.set index (stream.finish dataDesc)⟩ := by
  obtain ⟨inside, rfl⟩ := List.getElem?_eq_some_iff.1 found
  have counted : QuotaStream.live run.streams[index].strSess run.streams[index] = true := by
    simp [QuotaStream.live, active]
  have some : 0 < run.live run.streams[index].strSess := List.countP_pos_iff.2 ⟨_, List.getElem_mem inside, counted⟩
  have lives (svr : SvcServer) (sess : String) : QuotaRun.live ⟨svr, run.streams.set index (run.streams[index].finish dataDesc)⟩ sess =
      run.live sess - if run.streams[index].strSess = sess then 1 else 0 := by
    simp [QuotaRun.live, List.countP_set inside, QuotaStream.live, QuotaStream.finish, active]
  rw [SvcServer.decStmCount_entry (balanced.counts _) some]
  refine ⟨fun sess => ?_, fun sess => ?_, ?_⟩
  · rw [lives]
    grind [balanced.counts sess, Function.update_apply]
  · rw [lives]
    grind [balanced.within sess]
  · intro other member
    rcases List.mem_or_eq_of_mem_set member with old | rfl
    · exact balanced.once other old
    · have before := balanced.once _ (List.getElem_mem inside)
      simp [QuotaStream.finish, read, before, active]

theorem step (balanced : run.Balanced) {move : QuotaMove} (orderly : run.orderly move = true)
    (moved : run.step move = some next) : next.Balanced := by
  cases move with
  | offer lock files desc =>
    simp only [QuotaRun.step, Option.some.injEq] at moved
    subst moved
    rcases run.svr.acceptNewStreamFuse_cases lock files desc with ⟨same, nothing⟩ | ⟨strSess, read, calls⟩
    · have none : (if (run.svr.acceptNewStreamFuse lock files desc).2 = 0 then
          (desc.bind fun desc => desc.sessHash.toOption).toList else []) = [] := by grind
      simpa [same, none] using balanced
    · rw [calls, SvcServer.incStmCount_entry (balanced.counts strSess)]
      by_cases full : maxStreamsPerSess ≤ run.live strSess
      · simpa [full, eMFile] using balanced
      · simpa [full, read] using balanced.accept strSess (Nat.not_le.1 full)
  | ready index lock connected created dataDesc =>
    obtain ⟨stream, found, rfl⟩ := Option.map_eq_some_iff.1 moved
    cases ends : givesUp lock connected created with
    | false => simpa [SvcServer.onStreamReadyFuse_kept ends] using balanced
    | true =>
      obtain ⟨own, isOwn, active, read⟩ := endsOwn_spec (by simpa [QuotaRun.orderly, ends] using orderly)
      obtain rfl := Option.some.inj (isOwn.symm.trans found)
      simpa [SvcServer.onStreamReadyFuse_givesUp ends read] using balanced.finish found active read
  | closing index lock dataDesc removed =>
    obtain ⟨stream, found, rfl⟩ := Option.map_eq_some_iff.1 moved
    obtain ⟨locked, owns⟩ := Bool.and_eq_true_iff.1 orderly
    rw [Bool.not_eq_true'] at locked
    obtain ⟨own, isOwn, active, read⟩ := endsOwn_spec owns
    obtain rfl := Option.some.inj (isOwn.symm.trans found)
    simpa [SvcServer.onStmClosingFuse_read locked read, locked] using balanced.finish found active read

end QuotaRun.Balanced

/-- In a run in which each stream ends once, with its own session read. -/
theorem orderly_quota (reachable : (quotaMachine.restrict fun run move => run.orderly move = true).Reachable run)
    (sess : String) :
    run.svr.mapSessCount sess = (if run.live sess = 0 then none else some (run.live sess)) ∧
    (∀ stream ∈ run.streams, stream.lowered = if stream.ended then 1 else 0) ∧
    ∀ lock files desc, isError lock = false → files ≤ maxStreamsPerSvc → desc.nodeName ≠ none →
      desc.sessHash = .ok sess → (run.svr.acceptNewStreamFuse lock files (some desc)).2 =
        if run.live sess = maxStreamsPerSess then eMFile else 0 := by
  have balanced : run.Balanced := by
    refine reachable.invariant ⟨fun _ => rfl, fun _ => Nat.zero_le _, nofun⟩ ?_
    intro before move after _ balanced moved
    rw [Machine.restrict_step] at moved
    exact balanced.step moved.1 moved.2
  refine ⟨balanced.counts sess, balanced.once, fun lock files desc locked few named read => ?_⟩
  simp only [SvcServer.acceptNewStreamFuse, locked, Nat.not_lt.2 few, named, read, Bool.false_eq_true, if_false,
    SvcServer.incStmCount_entry (balanced.counts sess)]
  grind [balanced.within sess]

/-- A descriptor of a session. -/
def sessDesc (strSess : String) : StreamDesc := ⟨some "stream", .ok (.ok strSess)⟩

theorem orderly_twoStreams : ∃ run : QuotaRun, run.live "s" = 1 ∧ run.svr.mapSessCount "s" = some 1 := by
  have ran : (((quotaMachine.restrict fun run move => run.orderly move = true).run quotaMachine.start
      [.offer 0 0 (some (sessDesc "s")), .offer 0 0 (some (sessDesc "s")), .ready 0 0 true (-17) (.ok (sessDesc "s"))]).map
      fun run => run.live "s") = some 1 := by decide +kernel
  obtain ⟨run, ran, one⟩ := Option.map_eq_some_iff.1 ran
  exact ⟨run, one, by simpa [one] using (orderly_quota (Machine.Reachable.start.run ran) "s").1⟩

/-- A stream whose file was not created is closed behind that. -/
theorem givenUp_closed : ¬ ∀ run, quotaMachine.Reachable run →
    (run.svr.mapSessCount "s").getD 0 = run.live "s" ∧ ∀ stream ∈ run.streams, stream.lowered ≤ 1 := by
  intro counts
  have ran : ((quotaMachine.run quotaMachine.start
      [.offer 0 0 (some (sessDesc "s")), .offer 0 0 (some (sessDesc "s")), .ready 0 0 true (-17) (.ok (sessDesc "s")),
        .closing 0 0 (.ok (sessDesc "s")) 0]).map fun run => ((run.svr.mapSessCount "s").getD 0, run.live "s")) =
      some (0, 1) := by decide +kernel
  obtain ⟨run, ran, both⟩ := Option.map_eq_some_iff.1 ran
  have same := (counts run (Machine.Reachable.start.run ran)).1
  rw [Prod.ext_iff] at both
  exact absurd (both.1.symm.trans (same.trans both.2)) (by decide)

end RpcFrmwrk.Fuse
