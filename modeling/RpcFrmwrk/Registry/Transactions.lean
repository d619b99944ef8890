import RpcFrmwrk.Library.Brackets
import RpcFrmwrk.Registry.CacheRuns

/-! Transactions on the block cache, under any number of callers. A `BATransact` counts itself in
`m_dwTransCount`; its constructor and its destructor call `CheckAndCommit`, as `Stop` does. The
allocator's lock makes each of these, and each write of blocks, one step. What the callers do
between the steps is left open: a call is any sequence of block writes that its entry point's use of
`BATransact` allows. Owns `checkAndCommit` and the two ends of a `BATransact`; which entry points
run inside one `BATransact`; `State.step`, one step of one of the calls in progress. -/

namespace RpcFrmwrk.Registry

open RpcFrmwrk.Library

/-! ### The allocator -/

/-- A write of blocks that the cache can serve. -/
structure Write where
  request : Request
  buf : List Block
  length : buf.length = request.blocks.length
  reachable : (Op.write request buf length).Reachable

/-- `CACHE_MAX_BLOCKS`. -/
def cacheMaxBlocks : Nat := 64 * 1024 - 16

/-- The members of `CBlockAllocator` that decide about a commit; times are in
seconds. -/
structure Session where
  alloc : Allocator
  transCount : Nat
  startTime : Int
  stopped : Bool

/-- `m_dwDirtyBlkCount`: the blocks of the runs, without the special blocks. -/
def dirtyBlkCount (alloc : Allocator) : Nat :=
  ((alloc.dirtyBlks.filter fun run => !isSpecial run.first).map fun run => run.items.length).sum

/-- The decision of `CheckAndCommit`, with `GetCacheLifeCycle()` and the time. -/
def Session.mayCommit (session : Session) (cacheLife : Nat) (now : Int) (entering : Bool) : Bool :=
  session.transCount == 0 && !session.alloc.dirtyBlks.isEmpty &&
    (session.stopped || decide (cacheMaxBlocks ≤ dirtyBlkCount session.alloc) ||
      (decide ((cacheLife : Int) ≤ now - session.startTime) && entering))

/-- `CheckAndCommit`. -/
def Session.checkAndCommit (session : Session) (cacheLife : Nat) (now : Int) (entering : Bool) :
    Option Session :=
  if session.mayCommit cacheLife now entering then
    (commitCache session.alloc).map fun alloc => { session with alloc := alloc }
  else some session

/-- The constructor of `BATransact`. -/
def Session.enter (session : Session) (cacheLife : Nat) (now : Int) : Option Session :=
  (session.checkAndCommit cacheLife now true).map fun session =>
    { session with transCount := session.transCount + 1 }

/-- The destructor of `BATransact`, up to `CheckAndCommit`. -/
def Session.decTransactCount (session : Session) : Session :=
  { session with transCount := session.transCount - 1 }

/-- The destructor of `BATransact`. -/
def Session.leave (session : Session) (cacheLife : Nat) (now : Int) : Option Session :=
  session.decTransactCount.checkAndCommit cacheLife now false

/-- `SetStopped`. -/
def Session.setStopped (session : Session) : Session := { session with stopped := true }

/-- A write through the cache. The first dirty block starts the clock. -/
def Session.write (session : Session) (write : Write) (now : Int) : Option Session :=
  (writeBlocks session.alloc write.request.blocks write.buf write.request.contigous).map
    fun result =>
      { session with
        alloc := result.2
        startTime := if session.alloc.dirtyBlks.isEmpty then now else session.startTime }

def Session.event (session : Session) (cacheLife : Nat) (now : Int) :
    Event Write → Option Session
  | .enter => session.enter cacheLife now
  | .act write => session.write write now
  | .leave => session.leave cacheLife now

/-- The entry points of `CRegistryFs` and of the FUSE layer that write blocks.
`At` marks the variants that take a handle, a directory handle for files. -/
inductive EntryPoint where
  | createFile
  | createFileAt (failed : Bool)
  | openFile
  | openFileAt
  | closeFile
  | removeFile
  | removeFileAt
  | writeFile
  | truncate
  | truncateAt
  | makeDir
  | removeDir
  | symLink
  | rename
  | chmod
  | chown
  | setUid
  | setUidAt
  | setGid
  | setGidAt
  | setValue
  | setValueAt
  | fsync
  | utimens (byPath : Bool)
  | stop
deriving DecidableEq, Repr

/-- The entry point runs inside one `BATransact`. The others have none
(`CreateFile` and `Truncate` by path, `WriteFile`, `MakeDir`, `Chmod`, `SetUid`
and `SetGid` by handle, the flush of `Stop`) or several, one behind the other:
`Truncate` by path opens, truncates and closes, a failed `CreateFile` removes
the file again, and `utimens` by path opens the file first. -/
def EntryPoint.transacts : EntryPoint → Bool
  | .createFile | .writeFile | .truncate | .makeDir | .chmod | .setUidAt | .setGidAt | .stop => false
  | .createFileAt failed => !failed
  | .utimens byPath => !byPath
  | _ => true

/-- A call of an entry point: its block writes, with the brackets of the entry
points that it calls itself. -/
structure Call where
  entry : EntryPoint
  inner : List (Event Write)
  balanced : Balanced inner

def Call.events (call : Call) : List (Event Write) :=
  if call.entry.transacts then enclose call.inner else call.inner

/-- A call in progress. -/
structure Progress where
  call : Call
  done : List (Event Write)
  rest : List (Event Write)
  whole : done ++ rest = call.events

def Progress.begin (call : Call) : Progress := ⟨call, [], call.events, rfl⟩

/-- The call behind its next event. -/
def Progress.next (progress : Progress) : Progress :=
  match ahead : progress.rest with
  | [] => progress
  | event :: rest =>
    ⟨progress.call, progress.done ++ [event], rest, by
      rw [List.append_assoc, List.singleton_append, ← ahead]
      exact progress.whole⟩

/-- The call has written some of its blocks, and not all of them. -/
def Progress.HalfDone (progress : Progress) : Prop :=
  actions progress.done ≠ [] ∧ actions progress.rest ≠ []

/-- The allocator, the calls in progress or finished, and the writes so far,
each with the position of its call. -/
structure State where
  session : Session
  calls : List Progress
  log : List (Nat × Write)

/-- A caller issues a call; a call takes its next step; the worker thread merges
blocks; `Stop` has closed the files and calls `CheckAndCommit`. -/
inductive Move where
  | issue (call : Call)
  | advance (pos : Nat) (now : Int)
  | merge
  | stop (now : Int)

def logged (pos : Nat) (event : Event Write) : List (Nat × Write) :=
  (actions [event]).map fun write => (pos, write)

/-- One step. No result for a call that is not there or is finished, and when
the process aborts. -/
def State.step (state : State) (cacheLife : Nat) : Move → Option State
  | .issue call => some { state with calls := state.calls ++ [.begin call] }
  | .advance pos now =>
    match state.calls[pos]? with
    | none => none
    | some progress =>
      match progress.rest with
      | [] => none
      | event :: _ =>
        (state.session.event cacheLife now event).map fun session =>
          ⟨session, state.calls.set pos progress.next, state.log ++ logged pos event⟩
  | .merge =>
    some { state with
      session := { state.session with alloc := mergeBlocks state.session.alloc } }
  | .stop now =>
    (state.session.setStopped.checkAndCommit cacheLife now true).map fun session =>
      { state with session := session }

/-- The event makes `CheckAndCommit` commit. -/
def Session.commitsAt (session : Session) (cacheLife : Nat) (now : Int) : Event Write → Bool
  | .enter => session.mayCommit cacheLife now true
  | .act _ => false
  | .leave => session.decTransactCount.mayCommit cacheLife now false

/-- The step makes `CheckAndCommit` commit. -/
def State.commits (state : State) (cacheLife : Nat) : Move → Bool
  | .advance pos now =>
    match state.calls[pos]? with
    | none => false
    | some progress =>
      match progress.rest with
      | [] => false
      | event :: _ => state.session.commitsAt cacheLife now event
  | .stop now => state.session.setStopped.mayCommit cacheLife now true
  | _ => false

/-- A formatted or reloaded file system before its first call. -/
def State.start (file : List Block) (errno : Nat) : State :=
  ⟨⟨⟨[], file, errno⟩, 0, 0, false⟩, [], []⟩

end RpcFrmwrk.Registry
