import Mathlib.Data.List.Basic
import RpcFrmwrk.Combase.SharedLock

/-! What holds of a `CSharedLock` under any interleaving of its threads. Owns the invariant between
the holder counts, the queue and the semaphores; `Handed`, what every reachable state and every step
from it satisfies; the wake-up of a thread that is not at the front of the queue. -/

namespace RpcFrmwrk.Combase

open RpcFrmwrk.Library List

variable {claimant : Claimant} {state : LockState}

def countMode (mode : Mode) (claimants : List Claimant) : Nat :=
  claimants.countP fun claimant => claimant.2 == mode

@[simp] theorem countMode_nil (mode : Mode) : countMode mode [] = 0 := rfl

theorem countMode_cons (mode : Mode) (claimant : Claimant) (claimants : List Claimant) :
    countMode mode (claimant :: claimants) = countMode mode claimants + if claimant.2 = mode then 1 else 0 := by
  rw [countMode, countP_cons]
  simp only [beq_iff_eq]
  rfl

theorem countMode_append (mode : Mode) (front back : List Claimant) :
    countMode mode (front ++ back) = countMode mode front + countMode mode back :=
  countP_append ..

theorem countMode_erase {claimants : List Claimant}
    (member : claimant ∈ claimants) (mode : Mode) :
    countMode mode (claimants.erase claimant) + (if claimant.2 = mode then 1 else 0) =
      countMode mode claimants := by
  have perm := perm_cons_erase member
  rw [countMode, countMode, perm.countP_eq, countP_cons]
  simp only [beq_iff_eq]

theorem exists_of_countMode {mode : Mode} {claimants : List Claimant}
    (some : 0 < countMode mode claimants) : ∃ claimant ∈ claimants, claimant.2 = mode := by
  obtain ⟨claimant, member, same⟩ := countP_pos_iff.1 some
  exact ⟨claimant, member, by simpa using same⟩

theorem eq_nil_of_countMode {claimants : List Claimant}
    (none : ∀ mode, countMode mode claimants = 0) : claimants = [] := by
  rw [eq_nil_iff_forall_not_mem]
  intro claimant member
  have counted := none claimant.2
  rw [countMode, countP_eq_zero] at counted
  exact counted claimant member (by simp)

/-- The next ones to be let in: a writer alone, or all readers at the front. -/
inductive Turn : List Claimant → List Claimant → Prop where
  | writer {claimant : Claimant} (asked : claimant.2 = .writer) (rest : List Claimant) :
      Turn [claimant] rest
  | readers {batch rest : List Claimant} (some : batch ≠ [])
      (asked : ∀ claimant ∈ batch, claimant.2 = .reader)
      (behind : ∀ claimant, rest.head? = Option.some claimant → claimant.2 = .writer) :
      Turn batch rest

namespace SharedLock

def frontReaders (line : List Claimant) : List Claimant :=
  line.takeWhile fun claimant => claimant.2 == .reader

def behindReaders (line : List Claimant) : List Claimant :=
  line.dropWhile fun claimant => claimant.2 == .reader

theorem frontReaders_append_behindReaders (line : List Claimant) :
    frontReaders line ++ behindReaders line = line :=
  takeWhile_append_dropWhile

theorem frontReaders_asked {line : List Claimant} {claimant : Claimant}
    (member : claimant ∈ frontReaders line) : claimant.2 = .reader := by
  simpa using all_eq_true.1 all_takeWhile claimant member

theorem behindReaders_head {line : List Claimant} {claimant : Claimant}
    (first : (behindReaders line).head? = some claimant) : claimant.2 = .writer := by
  have stopped := List.head?_dropWhile_not (fun claimant : Claimant => claimant.2 == .reader) line
  rw [behindReaders] at first
  rw [first] at stopped
  cases asked : claimant.2 with
  | writer => rfl
  | reader => simp [asked] at stopped

theorem grantReaders_spec (lock : SharedLock) (line : List Claimant) :
    lock.grantReaders (line.map Prod.snd) =
      { lock with
        readCount := lock.readCount + (frontReaders line).length
        queue := (behindReaders line).map Prod.snd
        semReader := lock.semReader + (frontReaders line).length } := by
  induction line generalizing lock with
  | nil => simp [grantReaders, frontReaders, behindReaders]
  | cons claimant line ih =>
    obtain ⟨thread, mode⟩ := claimant
    cases mode with
    | writer => simp [grantReaders, frontReaders, behindReaders]
    | reader =>
      rw [map_cons, grantReaders, ih]
      simp only [frontReaders, behindReaders, takeWhile_cons, dropWhile_cons,
        beq_self_eq_true, if_true, length_cons, post]
      congr 1 <;> omega

theorem turn_frontReaders {claimant : Claimant} (asked : claimant.2 = .reader)
    (line : List Claimant) :
    Turn (frontReaders (claimant :: line)) (behindReaders (claimant :: line)) := by
  refine .readers ?_ (fun _ member => frontReaders_asked member) (fun _ first => behindReaders_head first)
  simp [frontReaders, asked]

theorem countMode_frontReaders (line : List Claimant) (mode : Mode) :
    countMode mode (frontReaders line) = if mode = .reader then (frontReaders line).length else 0 := by
  cases mode with
  | reader =>
    rw [if_pos rfl, countMode, countP_eq_length]
    intro claimant member
    rw [frontReaders_asked member]
    rfl
  | writer =>
    rw [if_neg (by decide), countMode, countP_eq_zero]
    intro claimant member
    rw [frontReaders_asked member]
    decide

end SharedLock

/-- The queue is the line. Who sleeps is in line or has a post to come; the
counts are those who hold the lock and those it was granted to. When no writer
has it, a queue that is not empty begins with a writer that waits for readers. -/
structure LockState.Inv (state : LockState) : Prop where
  line : state.line.map Prod.snd = state.lock.queue
  asleep : ∀ mode,
    countMode mode state.asleep = countMode mode state.line + state.lock.sem mode
  readers : state.lock.readCount =
    (countMode .reader state.holders + state.lock.semReader : Nat)
  writers : countMode .writer state.holders + state.lock.semWriter =
    if state.lock.write then 1 else 0
  apart : state.lock.write = true → state.lock.readCount = 0
  front : state.lock.write = false → ∀ mode rest, state.lock.queue = mode :: rest →
    mode = .writer ∧ 0 < state.lock.readCount
  granted : ∀ mode,
    countMode mode state.granted = countMode mode state.woken + state.lock.sem mode
  waits : ∀ claimant, (state.granted ++ state.line).count claimant =
    state.woken.count claimant + state.asleep.count claimant

theorem init_inv : lockMachine.start.Inv where
  line := rfl
  asleep mode := by cases mode <;> rfl
  readers := rfl
  writers := rfl
  apart := by
    intro never
    cases never
  front := by
    intro _ mode rest never
    cases never
  granted mode := by cases mode <;> rfl
  waits claimant := rfl

theorem wait_inv (inv : state.Inv)
    (closed : state.lock.write = true ∨ state.lock.queue ≠ [] ∨
      claimant.2 = .writer ∧ 0 < state.lock.readCount) :
    LockState.Inv { state with
      lock := state.lock.push claimant.2
      line := state.line ++ [claimant]
      asleep := state.asleep ++ [claimant] } where
  line := by
    show (state.line ++ [claimant]).map Prod.snd = state.lock.queue ++ [claimant.2]
    rw [map_append, inv.line]
    rfl
  asleep mode := by
    have before := inv.asleep mode
    have same : (state.lock.push claimant.2).sem mode = state.lock.sem mode := by
      cases mode <;> rfl
    show countMode mode (state.asleep ++ [claimant]) = countMode mode (state.line ++ [claimant]) +
      (state.lock.push claimant.2).sem mode
    rw [same, countMode_append, countMode_append]
    omega
  readers := inv.readers
  writers := inv.writers
  apart := inv.apart
  front := by
    intro reading mode rest queue
    have free : ¬ state.lock.write = true := by
      intro writing
      exact Bool.false_ne_true (reading.symm.trans writing)
    cases old : state.lock.queue with
    | nil =>
      obtain ⟨asked, positive⟩ := (closed.resolve_left free).resolve_left (fun some => some old)
      replace queue : state.lock.queue ++ [claimant.2] = mode :: rest := queue
      rw [old, nil_append, List.cons.injEq] at queue
      exact ⟨queue.1.symm.trans asked, positive⟩
    | cons head tail =>
      replace queue : state.lock.queue ++ [claimant.2] = mode :: rest := queue
      rw [old, cons_append, List.cons.injEq] at queue
      obtain ⟨asked, positive⟩ := inv.front reading head tail old
      exact ⟨queue.1.symm.trans asked, positive⟩
  granted mode := by
    have before := inv.granted mode
    cases mode <;> exact before
  waits other := by
    have before := inv.waits other
    show (state.granted ++ (state.line ++ [claimant])).count other =
      state.woken.count other + (state.asleep ++ [claimant]).count other
    simp only [count_append] at before ⊢
    omega

theorem enter_inv (inv : state.Inv) (open? : state.lock.write = false)
    (empty : state.lock.queue = []) (claimant : Claimant)
    (alone : claimant.2 = .writer → state.lock.readCount = 0) :
    LockState.Inv { state with
      lock := match claimant.2 with
        | .reader => { state.lock with readCount := state.lock.readCount + 1 }
        | .writer => { state.lock with write := true }
      holders := claimant :: state.holders } := by
  obtain ⟨line, asleep, readers, writers, apart, front, granted, waits⟩ := inv
  rw [open?] at writers
  obtain ⟨thread, mode⟩ := claimant
  cases mode with
  | reader =>
    refine ⟨line, asleep, ?_, ?_, ?_, ?_, granted, waits⟩
    · simp only [countMode_cons, if_true]
      omega
    · simp only [countMode_cons, reduceCtorEq, if_false, open?]
      exact writers
    · intro writing
      exact absurd (open?.symm.trans writing) Bool.false_ne_true
    · intro _ mode rest queue
      exact absurd (empty.symm.trans queue) (cons_ne_nil mode rest).symm
  | writer =>
    refine ⟨line, asleep, ?_, ?_, fun _ => alone rfl, ?_, granted, waits⟩
    · simp only [countMode_cons, reduceCtorEq, if_false]
      exact readers
    · simp only [countMode_cons, if_true]
      simp only [Bool.false_eq_true, if_false] at writers
      omega
    · intro reading
      cases reading

theorem wake_inv (inv : state.Inv)
    (member : claimant ∈ state.asleep) (posted : 0 < state.lock.sem claimant.2) :
    LockState.Inv { state with
      lock := state.lock.awake claimant.2
      asleep := state.asleep.erase claimant
      holders := claimant :: state.holders
      woken := state.woken ++ [claimant] } := by
  obtain ⟨line, asleep, readers, writers, apart, front, granted, waits⟩ := inv
  have erased := countMode_erase member
  have sems : ∀ mode, (state.lock.awake claimant.2).sem mode +
      (if claimant.2 = mode then 1 else 0) = state.lock.sem mode := by
    intro mode
    obtain ⟨thread, asked⟩ := claimant
    cases asked <;> cases mode <;> simp only [SharedLock.awake, SharedLock.sem] at posted ⊢ <;>
      simp only [reduceCtorEq, if_true, if_false] <;> omega
  have kept : (state.lock.awake claimant.2).queue = state.lock.queue ∧
      (state.lock.awake claimant.2).write = state.lock.write ∧
      (state.lock.awake claimant.2).readCount = state.lock.readCount := by
    cases claimant.2 <;> exact ⟨rfl, rfl, rfl⟩
  obtain ⟨queue, write, readCount⟩ := kept
  refine ⟨line.trans queue.symm, ?_, ?_, ?_, ?_, ?_, ?_, ?_⟩
  · intro mode
    have := asleep mode
    have := erased mode
    have := sems mode
    show countMode mode (state.asleep.erase claimant) = countMode mode state.line +
      (state.lock.awake claimant.2).sem mode
    omega
  · have := sems .reader
    show (state.lock.awake claimant.2).readCount = ((countMode .reader (claimant :: state.holders) +
      (state.lock.awake claimant.2).sem .reader : Nat) : Int)
    rw [readCount, readers, countMode_cons]
    simp only [SharedLock.sem] at this ⊢
    omega
  · have := sems .writer
    show countMode .writer (claimant :: state.holders) + (state.lock.awake claimant.2).sem .writer = _
    rw [write, ← writers, countMode_cons]
    simp only [SharedLock.sem] at this ⊢
    omega
  · intro writing
    exact readCount.trans (apart (write.symm.trans writing))
  · intro reading mode rest found
    rw [readCount]
    exact front (write.symm.trans reading) mode rest (queue.symm.trans found)
  · intro mode
    have := granted mode
    have := sems mode
    show countMode mode state.granted = countMode mode (state.woken ++ [claimant]) +
      (state.lock.awake claimant.2).sem mode
    rw [countMode_append, countMode_cons, countMode_nil]
    omega
  · intro other
    have before := waits other
    have single : (state.asleep.erase claimant).count other =
        state.asleep.count other - if claimant == other then 1 else 0 := count_erase
    have present : claimant = other → 0 < state.asleep.count other := by
      rintro rfl
      exact count_pos_iff.2 member
    show (state.granted ++ state.line).count other =
      (state.woken ++ [claimant]).count other + (state.asleep.erase claimant).count other
    rw [before, count_append, single, count_singleton]
    by_cases same : claimant = other
    · have := present same
      simp only [same, beq_self_eq_true, if_true]
      omega
    · simp only [beq_iff_eq, same, if_false]
      omega

/-! ### Releasing -/

/-- A release lets a batch in from the front of the line: nobody, or those whose
turn it is, with one post for each of them. -/
structure LockState.Serves (state next : LockState) (batch : List Claimant) : Prop where
  line : state.line = batch ++ next.line
  granted : next.granted = state.granted ++ batch
  posted : ∀ mode, next.lock.sem mode = state.lock.sem mode + countMode mode batch
  turn : batch = [] ∨ Turn batch next.line

/-- What a release does: it succeeds, lets a batch in and keeps the invariant. -/
def LockState.Releases (state : LockState) (claimant : Claimant) : Prop :=
  ∃ next batch, state.step (.release claimant) = some next ∧ next.Inv ∧
    state.Serves next batch ∧ (state.lock.releaseAs claimant.2).1 = .success

theorem releases_of (inv : state.Inv)
    (member : claimant ∈ state.holders) {lock : SharedLock}
    (released : state.lock.releaseAs claimant.2 = (.success, lock)) {batch line : List Claimant}
    (split : state.line = batch ++ line) (queue : line.map Prod.snd = lock.queue)
    (turn : batch = [] ∨ Turn batch line)
    (posted : ∀ mode, lock.sem mode = state.lock.sem mode + countMode mode batch)
    (count : lock.readCount + (if claimant.2 = .reader then 1 else 0) =
      state.lock.readCount + countMode .reader batch)
    (writers : countMode .writer (state.holders.erase claimant) + lock.semWriter = if lock.write then 1 else 0)
    (apart : lock.write = true → lock.readCount = 0)
    (front : lock.write = false → ∀ mode rest, lock.queue = mode :: rest →
      mode = .writer ∧ 0 < lock.readCount) : state.Releases claimant := by
  have length : state.lock.queue.length - lock.queue.length = batch.length := by
    rw [← inv.line, ← queue, split, map_append, length_append, length_map, length_map, Nat.add_sub_cancel]
  have step : state.step (.release claimant) = some { state with
      lock := lock
      line := line
      granted := state.granted ++ batch
      holders := state.holders.erase claimant } := by
    rw [LockState.step, if_neg (not_not.2 member), released]
    simp only [length, split, drop_left, take_left]
  refine ⟨_, batch, step, ⟨queue, ?_, ?_, writers, apart, front, ?_, ?_⟩,
    ⟨split, rfl, posted, turn⟩, by rw [released]⟩
  · intro mode
    have before := inv.asleep mode
    rw [split, countMode_append] at before
    show countMode mode state.asleep = countMode mode line + lock.sem mode
    rw [posted]
    omega
  · have before := inv.readers
    have erased := countMode_erase member .reader
    have posts : lock.semReader = state.lock.semReader + countMode .reader batch :=
      posted .reader
    show lock.readCount = ((countMode .reader (state.holders.erase claimant) + lock.semReader : Nat) : Int)
    by_cases asked : claimant.2 = .reader
    · rw [if_pos asked] at erased count
      omega
    · rw [if_neg asked] at erased count
      omega
  · intro mode
    have before := inv.granted mode
    show countMode mode (state.granted ++ batch) = countMode mode state.woken + lock.sem mode
    rw [posted, countMode_append]
    omega
  · intro other
    have before := inv.waits other
    rw [split, ← append_assoc] at before
    exact before

theorem line_of_queue (inv : state.Inv) {mode : Mode} {queue : List Mode}
    (front : state.lock.queue = mode :: queue) :
    ∃ claimant line, state.line = claimant :: line ∧ claimant.2 = mode ∧ line.map Prod.snd = queue := by
  have line := inv.line
  rw [front] at line
  exact map_eq_cons_iff.1 line

theorem releaseRead_spec (inv : state.Inv)
    (member : claimant ∈ state.holders) (asked : claimant.2 = .reader) :
    state.Releases claimant := by
  have readers := countMode_erase member .reader
  have writers := countMode_erase member .writer
  rw [asked, if_pos rfl] at readers
  rw [asked, if_neg (by decide), Nat.add_zero] at writers
  have held := inv.readers
  have reading : state.lock.write = false := by
    by_contra writing
    have := inv.apart (by simpa using writing)
    omega
  have none : countMode .writer state.holders + state.lock.semWriter = 0 := by
    rw [inv.writers, reading]
    rfl
  have closing : ∀ mode rest, state.lock.queue = mode :: rest → mode = .writer :=
    fun mode rest queue => (inv.front reading mode rest queue).1
  -- The release without a hand-over, when others read on or nobody waits.
  have leave (released : state.lock.releaseRead =
        (.success, { state.lock with readCount := state.lock.readCount - 1 }))
      (front : ∀ mode rest, state.lock.queue = mode :: rest → 0 < state.lock.readCount - 1) :
      state.Releases claimant := by
    refine releases_of inv member ((congrArg state.lock.releaseAs asked).trans released) (nil_append _).symm
      inv.line (.inl rfl) ?_ ?_ ?_ ?_ ?_
    · intro mode
      cases mode <;> rfl
    · rw [if_pos asked, countMode_nil]
      show state.lock.readCount - 1 + 1 = state.lock.readCount + 0
      omega
    · show countMode .writer (state.holders.erase claimant) + state.lock.semWriter = _
      rw [writers, none, reading]
      rfl
    · intro writing
      exact absurd (reading.symm.trans writing) Bool.false_ne_true
    · intro _ mode rest queue
      exact ⟨closing mode rest queue, front mode rest queue⟩
  by_cases others : 0 < state.lock.readCount - 1
  · refine leave ?_ fun _ _ _ => others
    rw [SharedLock.releaseRead, if_pos others]
  · have last : state.lock.readCount = 1 := by omega
    cases queue : state.lock.queue with
    | nil =>
      refine leave ?_ fun mode rest found => by cases queue.symm.trans found
      simp only [SharedLock.releaseRead, queue, last]
      rfl
    | cons mode rest =>
      cases closing mode rest queue
      obtain ⟨waiter, line, split, waiting, behind⟩ := line_of_queue inv queue
      have released : state.lock.releaseRead = (.success,
          { state.lock with
            readCount := 0, write := true, queue := rest,
            semWriter := state.lock.semWriter + 1 }) := by
        simp only [SharedLock.releaseRead, queue, last]
        rfl
      refine releases_of inv member ((congrArg state.lock.releaseAs asked).trans released)
        (split : state.line = [waiter] ++ line) behind (.inr (.writer waiting line))
        ?_ ?_ ?_ (fun _ => rfl) ?_
      · intro mode
        rw [countMode_cons, waiting]
        cases mode <;> rfl
      · rw [if_pos asked, countMode_cons, waiting, last]
        rfl
      · show countMode .writer (state.holders.erase claimant) + (state.lock.semWriter + 1) = 1
        omega
      · intro writing
        cases writing

theorem releaseWrite_spec (inv : state.Inv)
    (member : claimant ∈ state.holders) (asked : claimant.2 = .writer) :
    state.Releases claimant := by
  have erased := countMode_erase member .writer
  rw [asked, if_pos rfl] at erased
  have held := inv.writers
  have writing : state.lock.write = true := by
    by_contra reading
    rw [if_neg reading] at held
    omega
  rw [if_pos writing] at held
  have none := inv.apart writing
  cases queue : state.lock.queue with
  | nil =>
    have released : state.lock.releaseWrite = (.success, { state.lock with write := false }) := by
      simp only [SharedLock.releaseWrite, queue]
    refine releases_of inv member ((congrArg state.lock.releaseAs asked).trans released) (nil_append _).symm
      inv.line (.inl rfl) ?_ ?_ ?_ ?_ ?_
    · intro mode
      cases mode <;> rfl
    · rw [asked]
      rfl
    · show countMode .writer (state.holders.erase claimant) + state.lock.semWriter = 0
      omega
    · intro never
      cases never
    · intro _ mode rest found
      cases queue.symm.trans found
  | cons mode rest =>
    obtain ⟨waiter, line, split, waiting, behind⟩ := line_of_queue inv queue
    cases mode with
    | writer =>
      have released : state.lock.releaseWrite = (.success,
          { state.lock with
            write := true, queue := rest, semWriter := state.lock.semWriter + 1 }) := by
        simp only [SharedLock.releaseWrite, queue]
        rfl
      refine releases_of inv member ((congrArg state.lock.releaseAs asked).trans released)
        (split : state.line = [waiter] ++ line) behind (.inr (.writer waiting line))
        ?_ ?_ ?_ (fun _ => none) ?_
      · intro mode
        rw [countMode_cons, waiting]
        cases mode <;> rfl
      · rw [asked, countMode_cons, waiting]
        rfl
      · show countMode .writer (state.holders.erase claimant) + (state.lock.semWriter + 1) = 1
        omega
      · intro never
        cases never
    | reader =>
      have whole : (waiter :: line).map Prod.snd = .reader :: rest := by
        rw [map_cons, waiting, behind]
      have batch := SharedLock.countMode_frontReaders (waiter :: line)
      have nonempty : 0 < (SharedLock.frontReaders (waiter :: line)).length := by
        simp [SharedLock.frontReaders, waiting]
      have released : state.lock.releaseWrite = (.success,
          { state.lock with
            write := false
            readCount := state.lock.readCount + (SharedLock.frontReaders (waiter :: line)).length
            queue := (SharedLock.behindReaders (waiter :: line)).map Prod.snd
            semReader :=
              state.lock.semReader + (SharedLock.frontReaders (waiter :: line)).length }) := by
        simp only [SharedLock.releaseWrite, queue]
        rw [← whole, SharedLock.grantReaders_spec]
      refine releases_of inv member ((congrArg state.lock.releaseAs asked).trans released)
        (split.trans (SharedLock.frontReaders_append_behindReaders _).symm) rfl
        (.inr (SharedLock.turn_frontReaders waiting line)) ?_ ?_ ?_ ?_ ?_
      · intro mode
        rw [batch]
        cases mode <;> rfl
      · rw [asked, batch, if_neg (by decide), if_pos rfl, Int.add_zero]
      · show countMode .writer (state.holders.erase claimant) + state.lock.semWriter = 0
        omega
      · intro never
        cases never
      · intro _ mode rest found
        obtain ⟨first, tail, shape, modes, _⟩ := map_eq_cons_iff.1 found
        have head : (SharedLock.behindReaders (waiter :: line)).head? = some first := by
          rw [shape]
          rfl
        refine ⟨modes.symm.trans (SharedLock.behindReaders_head head), ?_⟩
        show 0 < state.lock.readCount + ((SharedLock.frontReaders (waiter :: line)).length : Int)
        omega

theorem release_spec (inv : state.Inv) (member : claimant ∈ state.holders) : state.Releases claimant := by
  cases asked : claimant.2 with
  | reader => exact releaseRead_spec inv member asked
  | writer => exact releaseWrite_spec inv member asked

/-- What a move does with the line: somebody joins at its end and no semaphore
is posted, or a release serves its front. -/
def LockState.Advances (state next : LockState) : Prop :=
  (next.granted = state.granted ∧ (∃ joined, next.line = state.line ++ joined) ∧
    ∀ mode, next.lock.sem mode ≤ state.lock.sem mode) ∨
  ∃ batch, state.Serves next batch

theorem lockAs_spec (inv : state.Inv) (claimant : Claimant) :
    (state.lock.lockAs claimant.2 = (.waits, state.lock.push claimant.2) ∧
      (state.lock.write = true ∨ state.lock.queue ≠ [] ∨ claimant.2 = .writer ∧ 0 < state.lock.readCount)) ∨
    (state.lock.write = false ∧ state.lock.queue = [] ∧
      (claimant.2 = .writer → state.lock.readCount = 0) ∧
      state.lock.lockAs claimant.2 = (.status .success, match claimant.2 with
        | .reader => { state.lock with readCount := state.lock.readCount + 1 }
        | .writer => { state.lock with write := true })) := by
  have counted : 0 ≤ state.lock.readCount := by
    have := inv.readers
    omega
  obtain ⟨thread, mode⟩ := claimant
  by_cases free : state.lock.write = false ∧ state.lock.queue = []
  · have shut : ¬ (state.lock.write = true ∨ state.lock.queue ≠ []) := by
      simp [free.1, free.2]
    cases mode with
    | reader =>
      refine .inr ⟨free.1, free.2, fun never => (nomatch never), ?_⟩
      exact if_pos free
    | writer =>
      by_cases reading : 0 < state.lock.readCount
      · refine .inl ⟨?_, .inr (.inr ⟨rfl, reading⟩)⟩
        exact (if_neg shut).trans (if_pos reading)
      · have zero : state.lock.readCount = 0 := by omega
        refine .inr ⟨free.1, free.2, fun _ => zero, ?_⟩
        exact (if_neg shut).trans ((if_neg reading).trans (if_pos zero))
  · have shut : state.lock.write = true ∨ state.lock.queue ≠ [] := by
      by_contra none
      simp only [not_or, Bool.not_eq_true, not_not] at none
      exact free none
    refine .inl ⟨?_, shut.imp_right .inl⟩
    cases mode with
    | reader => exact if_neg free
    | writer => exact if_pos shut

theorem tryLockAs_spec (lock : SharedLock) (mode : Mode) :
    ((lock.tryLockAs mode).1.failed = true ∧ (lock.tryLockAs mode).2 = lock) ∨
    (lock.write = false ∧ lock.queue = [] ∧ (mode = .writer → lock.readCount = 0) ∧
      lock.tryLockAs mode = (.success, match mode with
        | .reader => { lock with readCount := lock.readCount + 1 }
        | .writer => { lock with write := true })) := by
  cases mode with
  | reader =>
    show ((lock.tryLockRead).1.failed = true ∧ (lock.tryLockRead).2 = lock) ∨ _
    rw [SharedLock.tryLockRead]
    by_cases free : lock.write = false ∧ lock.queue = []
    · refine .inr ⟨free.1, free.2, fun never => (nomatch never), ?_⟩
      exact if_pos free
    · rw [if_neg free]
      exact .inl ⟨rfl, rfl⟩
  | writer =>
    show ((lock.tryLockWrite).1.failed = true ∧ (lock.tryLockWrite).2 = lock) ∨ _
    rw [SharedLock.tryLockWrite]
    by_cases shut : lock.write = true ∨ lock.queue ≠ []
    · rw [if_pos shut]
      exact .inl ⟨rfl, rfl⟩
    · by_cases zero : lock.readCount = 0
      · simp only [not_or, Bool.not_eq_true, not_not] at shut
        refine .inr ⟨shut.1, shut.2, fun _ => zero, ?_⟩
        show lock.tryLockWrite = _
        simp [SharedLock.tryLockWrite, shut, zero]
      · rw [if_neg shut, if_neg zero]
        exact .inl ⟨rfl, rfl⟩

theorem sem_enter (lock : SharedLock) (asked mode : Mode) :
    SharedLock.sem (match asked with
      | .reader => { lock with readCount := lock.readCount + 1 }
      | .writer => { lock with write := true }) mode = lock.sem mode := by
  cases asked <;> cases mode <;> rfl

theorem step_spec {next : LockState} (inv : state.Inv) {move : LockMove}
    (moved : state.step move = some next) : next.Inv ∧ state.Advances next := by
  cases move with
  | lock claimant =>
    rw [LockState.step] at moved
    by_cases blocked : state.blocked claimant.1 = true
    · rw [if_pos blocked] at moved
      cases moved
    rw [if_neg blocked] at moved
    rcases lockAs_spec inv claimant with ⟨waits, closed⟩ | ⟨open?, empty, alone, enters⟩
    · rw [waits] at moved
      cases moved
      refine ⟨wait_inv inv closed, .inl ⟨rfl, ⟨_, rfl⟩, ?_⟩⟩
      intro mode
      cases mode <;> exact Nat.le_refl _
    · rw [enters] at moved
      cases moved
      refine ⟨enter_inv inv open? empty claimant alone, .inl ⟨rfl, ⟨[], ?_⟩, ?_⟩⟩
      · exact (append_nil _).symm
      · intro mode
        exact Nat.le_of_eq (sem_enter state.lock claimant.2 mode)
  | tryLock claimant =>
    rw [LockState.step] at moved
    by_cases blocked : state.blocked claimant.1 = true
    · rw [if_pos blocked] at moved
      cases moved
    rw [if_neg blocked] at moved
    rcases tryLockAs_spec state.lock claimant.2 with ⟨fails, same⟩ | ⟨open?, empty, alone, enters⟩
    · simp only [fails, same, if_true, Option.some.injEq] at moved
      subst moved
      exact ⟨inv, .inl ⟨rfl, ⟨[], (append_nil _).symm⟩, fun _ => Nat.le_refl _⟩⟩
    · rw [enters] at moved
      cases moved
      refine ⟨enter_inv inv open? empty claimant alone, .inl ⟨rfl, ⟨[], ?_⟩, ?_⟩⟩
      · exact (append_nil _).symm
      · intro mode
        exact Nat.le_of_eq (sem_enter state.lock claimant.2 mode)
  | release claimant =>
    by_cases member : claimant ∈ state.holders
    · obtain ⟨other, batch, step, nextInv, serves, _⟩ := release_spec inv member
      cases Option.some.inj (step.symm.trans moved)
      exact ⟨nextInv, .inr ⟨batch, serves⟩⟩
    · rw [LockState.step, if_pos member] at moved
      cases moved
  | wake claimant =>
    obtain ⟨possible, ⟨⟩⟩ := Option.ite_none_right_eq_some.1 moved
    refine ⟨wake_inv inv possible.1 possible.2, .inl ⟨rfl, ⟨[], ?_⟩, ?_⟩⟩
    · exact (append_nil _).symm
    · intro mode
      show (state.lock.awake claimant.2).sem mode ≤ _
      cases claimant.2 <;> cases mode <;> simp [SharedLock.awake, SharedLock.sem]
theorem inv_of_reachable (reachable : lockMachine.Reachable state) : state.Inv :=
  reachable.invariant init_inv fun _ _ _ _ inv moved => (step_spec inv moved).1

/-- What every state of the lock satisfies. A writer is alone, also while it has
still to wake up. Each wait returns at most once, and as many waits of a mode
have returned or have a post to come as entries of this mode were served. When
nobody holds the lock and it is granted to nobody, nobody waits. -/
structure LockState.Orderly (state : LockState) : Prop where
  alone : ∀ claimant ∈ state.holders, claimant.2 = .writer →
    state.holders = [claimant] ∧ ∀ mode, state.lock.sem mode = 0
  grantedAlone : 0 < state.lock.semWriter →
    state.holders = [] ∧ state.lock.semWriter = 1 ∧ state.lock.semReader = 0
  queue : state.line.map Prod.snd = state.lock.queue
  once : ∀ claimant, state.woken.count claimant + state.asleep.count claimant =
    (state.granted ++ state.line).count claimant
  earned : ∀ mode, countMode mode state.woken + state.lock.sem mode =
    countMode mode state.granted
  sleeper : ∀ mode, 0 < state.lock.sem mode → ∃ claimant ∈ state.asleep, claimant.2 = mode
  idle : state.holders = [] → (∀ mode, state.lock.sem mode = 0) →
    state.lock.queue = [] ∧ state.asleep = []
  releases : ∀ claimant ∈ state.holders, (state.lock.releaseAs claimant.2).1 = .success

theorem orderly_of_inv (inv : state.Inv) : state.Orderly := by
  have counted := inv.readers
  have writers := inv.writers
  -- A writer that holds the lock or has it granted leaves nothing to others.
  have single : 0 < countMode .writer state.holders + state.lock.semWriter →
      countMode .writer state.holders + state.lock.semWriter = 1 ∧
        countMode .reader state.holders = 0 ∧ state.lock.semReader = 0 := by
    intro some
    by_cases writing : state.lock.write = true
    · have none := inv.apart writing
      rw [if_pos writing] at writers
      omega
    · rw [if_neg writing] at writers
      omega
  refine ⟨?_, ?_, inv.line, ?_, ?_, ?_, ?_, ?_⟩
  · intro claimant member asked
    obtain ⟨thread, mode⟩ := claimant
    cases asked
    have erasedWriter := countMode_erase member .writer
    have erasedReader := countMode_erase member .reader
    simp only [reduceCtorEq, if_true, if_false] at erasedWriter erasedReader
    obtain ⟨one, noReader, noPost⟩ := single (by omega)
    refine ⟨?_, ?_⟩
    · have rest : state.holders.erase (thread, .writer) = [] := by
        apply eq_nil_of_countMode
        intro mode
        cases mode <;> omega
      have perm := perm_cons_erase member
      rw [rest] at perm
      exact perm_singleton.1 perm
    · intro mode
      cases mode
      · exact noPost
      · show state.lock.semWriter = 0
        omega
  · intro posted
    obtain ⟨one, noReader, noPost⟩ := single (by omega)
    refine ⟨eq_nil_of_countMode ?_, by omega, noPost⟩
    intro mode
    cases mode <;> omega
  · intro claimant
    exact (inv.waits claimant).symm
  · intro mode
    exact (inv.granted mode).symm
  · intro mode posted
    have := inv.asleep mode
    exact exists_of_countMode (by omega)
  · intro nobody none
    rw [nobody, countMode_nil] at counted writers
    have noReader : state.lock.semReader = 0 := none .reader
    have noWriter : state.lock.semWriter = 0 := none .writer
    have reading : state.lock.write = false := by
      by_contra writing
      rw [if_pos (by simpa using writing)] at writers
      omega
    have empty : state.lock.queue = [] := by
      cases queue : state.lock.queue with
      | nil => rfl
      | cons mode rest =>
        have positive := (inv.front reading mode rest queue).2
        omega
    refine ⟨empty, eq_nil_of_countMode ?_⟩
    intro mode
    have line : state.line = [] := by
      have same := inv.line
      rw [empty] at same
      exact map_eq_nil_iff.1 same
    have slept := inv.asleep mode
    rw [line, none mode] at slept
    exact slept
  · intro claimant member
    obtain ⟨_, _, _, _, _, success⟩ := release_spec inv member
    exact success

/-- Every reachable state of the lock is orderly, and every step from it serves
the line in its order. -/
theorem orderly_of_reachable {state : LockState} (reachable : lockMachine.Reachable state) :
    state.Orderly ∧ ∀ move next, state.step move = some next → state.Advances next := by
  have inv := inv_of_reachable reachable
  exact ⟨orderly_of_inv inv, fun _ _ moved => (step_spec inv moved).2⟩

/-- A writer leaves while two readers and a writer wait: the readers are let in. -/
theorem orderly_readersIn :
    LockState.Orderly ⟨⟨false, 2, [.writer], 2, 0⟩, [(3, .writer)],
      [(1, .reader), (2, .reader), (3, .writer)], [], [(1, .reader), (2, .reader)], []⟩ :=
  (orderly_of_reachable (Machine.Reachable.start.run
    (show lockMachine.run lockMachine.start [.lock (0, .writer), .lock (1, .reader),
      .lock (2, .reader), .lock (3, .writer), .release (0, .writer)] = _ from rfl))).1

/-- A semaphore need not wake the first of its threads: the writer 2 wakes up on
the post that was made for the writer 1, and has the lock while its own entry is
still in the queue. -/
theorem wake_out_of_order :
    ¬ ∀ state, lockMachine.Reachable state → ∀ claimant next,
      state.step (.wake claimant) = some next → claimant ∉ state.line := by
  intro inOrder
  have posted : lockMachine.Reachable
      ⟨⟨true, 0, [.writer], 0, 1⟩, [(2, .writer)], [(1, .writer), (2, .writer)], [],
        [(1, .writer)], []⟩ :=
    Machine.Reachable.start.run
      (show lockMachine.run lockMachine.start [.lock (0, .writer), .lock (1, .writer),
        .lock (2, .writer), .release (0, .writer)] = _ from rfl)
  exact inOrder _ posted (2, .writer) _ rfl (by decide)

end RpcFrmwrk.Combase
