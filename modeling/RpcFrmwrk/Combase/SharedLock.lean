import RpcFrmwrk.Combase.Status
import RpcFrmwrk.Library.Machine

/-! `CSharedLock`, and the threads that use it. The parts of a method under `m_oLock` are one step;
the wait for a semaphore behind it is a step of its own. A semaphore wakes any one of the threads
that wait for it. There are fewer than 2^31 holders, which `m_iReadCount` counts. Owns the methods
of `CSharedLock`; `LockState.step`, one step of one of the threads. -/

namespace RpcFrmwrk.Combase

open RpcFrmwrk.Library

/-- An entry of `m_queue`, where `true` is a reader and `false` a writer. -/
inductive Mode where
  | reader
  | writer
deriving DecidableEq, Repr

structure SharedLock where
  write : Bool
  readCount : Int
  queue : List Mode
  semReader : Nat
  semWriter : Nat
deriving DecidableEq, Repr

/-- How the part of `LockRead` or `LockWrite` under the mutex ends: with a
status, or with the wait for the semaphore. -/
inductive Answer where
  | status (ret : Status)
  | waits
deriving DecidableEq, Repr

namespace SharedLock

/-- `CSharedLock::CSharedLock`. -/
def init : SharedLock := ⟨false, 0, [], 0, 0⟩

def sem (lock : SharedLock) : Mode → Nat
  | .reader => lock.semReader
  | .writer => lock.semWriter

/-- `Sem_Post`. -/
def post (lock : SharedLock) : Mode → SharedLock
  | .reader => { lock with semReader := lock.semReader + 1 }
  | .writer => { lock with semWriter := lock.semWriter + 1 }

/-- The return of `Sem_Wait`. -/
def awake (lock : SharedLock) : Mode → SharedLock
  | .reader => { lock with semReader := lock.semReader - 1 }
  | .writer => { lock with semWriter := lock.semWriter - 1 }

def push (lock : SharedLock) (mode : Mode) : SharedLock :=
  { lock with queue := lock.queue ++ [mode] }

/-- `LockRead`, up to the wait. -/
def lockRead (lock : SharedLock) : Answer × SharedLock :=
  if lock.write = false ∧ lock.queue = [] then
    (.status .success, { lock with readCount := lock.readCount + 1 })
  else (.waits, lock.push .reader)

/-- `LockWrite`, up to the wait. -/
def lockWrite (lock : SharedLock) : Answer × SharedLock :=
  if lock.write = true ∨ lock.queue ≠ [] then (.waits, lock.push .writer)
  else if 0 < lock.readCount then (.waits, lock.push .writer)
  else if lock.readCount = 0 then (.status .success, { lock with write := true })
  else (.status .efault, lock)

/-- `ReleaseRead`. -/
def releaseRead (lock : SharedLock) : Status × SharedLock :=
  let lock := { lock with readCount := lock.readCount - 1 }
  if 0 < lock.readCount then (.success, lock)
  else if lock.readCount < 0 then (.efault, lock)
  else
    match lock.queue with
    | [] => (.success, lock)
    | .reader :: _ => (.efault, lock)
    | .writer :: queue => (.success, { lock with write := true, queue := queue }.post .writer)

/-- The loop of `ReleaseWrite`, which lets the readers at the front in. -/
def grantReaders (lock : SharedLock) : List Mode → SharedLock
  | .reader :: queue =>
    grantReaders ({ lock with readCount := lock.readCount + 1, queue := queue }.post .reader)
      queue
  | queue => { lock with queue := queue }

/-- `ReleaseWrite`. -/
def releaseWrite (lock : SharedLock) : Status × SharedLock :=
  match lock.queue with
  | [] => (.success, { lock with write := false })
  | .writer :: queue => (.success, { lock with write := true, queue := queue }.post .writer)
  | .reader :: queue => (.success, { lock with write := false }.grantReaders (.reader :: queue))

/-- `TryLockRead`. -/
def tryLockRead (lock : SharedLock) : Status × SharedLock :=
  if lock.write = false ∧ lock.queue = [] then
    (.success, { lock with readCount := lock.readCount + 1 })
  else (.eagain, lock)

/-- `TryLockWrite`. -/
def tryLockWrite (lock : SharedLock) : Status × SharedLock :=
  if lock.write = true ∨ lock.queue ≠ [] then (.eagain, lock)
  else if lock.readCount = 0 then (.success, { lock with write := true })
  else (.efault, lock)

def lockAs (lock : SharedLock) : Mode → Answer × SharedLock
  | .reader => lock.lockRead
  | .writer => lock.lockWrite

def tryLockAs (lock : SharedLock) : Mode → Status × SharedLock
  | .reader => lock.tryLockRead
  | .writer => lock.tryLockWrite

def releaseAs (lock : SharedLock) : Mode → Status × SharedLock
  | .reader => lock.releaseRead
  | .writer => lock.releaseWrite

end SharedLock

/-- A thread and what it asked for or holds. -/
abbrev Claimant := Nat × Mode

/-- The lock and its threads. `line` says whose the entries of the queue are;
`asleep` are the threads in front of or inside `Sem_Wait`; `holders` those whose
call returned with the lock, once for each time they hold it. `granted` and
`woken` are what was taken off the queue and which waits returned, so far. -/
structure LockState where
  lock : SharedLock
  line : List Claimant
  asleep : List Claimant
  holders : List Claimant
  granted : List Claimant
  woken : List Claimant
deriving DecidableEq, Repr

inductive LockMove where
  | lock (claimant : Claimant)
  | tryLock (claimant : Claimant)
  | release (claimant : Claimant)
  | wake (claimant : Claimant)
deriving DecidableEq, Repr

def LockState.blocked (state : LockState) (thread : Nat) : Bool :=
  state.asleep.any fun claimant => claimant.1 == thread

def LockState.step (state : LockState) : LockMove → Option LockState
  | .lock claimant =>
    if state.blocked claimant.1 then none
    else
      match state.lock.lockAs claimant.2 with
      | (.waits, lock) =>
        some { state with
          lock := lock
          line := state.line ++ [claimant]
          asleep := state.asleep ++ [claimant] }
      | (.status ret, lock) =>
        some { state with
          lock := lock
          holders := if ret.failed then state.holders else claimant :: state.holders }
  | .tryLock claimant =>
    if state.blocked claimant.1 then none
    else
      let (ret, lock) := state.lock.tryLockAs claimant.2
      some { state with
        lock := lock
        holders := if ret.failed then state.holders else claimant :: state.holders }
  | .release claimant =>
    if claimant ∉ state.holders then none
    else
      let (_, lock) := state.lock.releaseAs claimant.2
      let count := state.lock.queue.length - lock.queue.length
      some { state with
        lock := lock
        line := state.line.drop count
        granted := state.granted ++ state.line.take count
        holders := state.holders.erase claimant }
  | .wake claimant =>
    if claimant ∈ state.asleep ∧ 0 < state.lock.sem claimant.2 then
      some { state with
        lock := state.lock.awake claimant.2
        asleep := state.asleep.erase claimant
        holders := claimant :: state.holders
        woken := state.woken ++ [claimant] }
    else none

def lockMachine : Machine LockState LockMove where
  start := ⟨.init, [], [], [], [], []⟩
  step := LockState.step

end RpcFrmwrk.Combase
