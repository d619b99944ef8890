import RpcFrmwrk.Library.BigEndian

/-! Programs that read a memory, with a record of what they read. A program is a function of the
memory's bytes. It returns a value or an error and the list of its accesses, those of a failed
program included, so that one can ask whether it stays below a limit whatever stands behind the
limit. Owns `Reading` and its monad; `Yields`, `Fails` and `Within`, with a rule for each way to
build a program; programs that agree on a memory, and programs with certain errors only. -/

namespace RpcFrmwrk.Library

/-- `count` bytes read from the offset `start` on. -/
structure Access where
  start : Nat
  count : Nat
deriving DecidableEq, Repr

def Access.Below (limit : Nat) (access : Access) : Prop :=
  ∀ offset < access.count, access.start + offset < limit

theorem Access.below_iff (limit start count : Nat) :
    (Access.mk start count).Below limit ↔ count = 0 ∨ start + count ≤ limit := by
  constructor
  · intro below
    rcases Nat.eq_zero_or_pos count with empty | pos
    · exact .inl empty
    · have last := below (count - 1) (Nat.sub_lt pos Nat.one_pos)
      simp only at last
      omega
  · intro fits offset inside
    simp only at inside ⊢
    omega

def bytesFrom (memory : Nat → UInt8) (start count : Nat) : List UInt8 :=
  List.ofFn fun index : Fin count => memory (start + index)

@[simp] theorem length_bytesFrom (memory : Nat → UInt8) (start count : Nat) :
    (bytesFrom memory start count).length = count := List.length_ofFn

theorem take_bytesFrom {memory : Nat → UInt8} {start count front : Nat} (inside : front ≤ count) :
    (bytesFrom memory start count).take front = bytesFrom memory start front := by
  apply List.ext_getElem
  · simp [inside]
  · intro place _ _
    simp [bytesFrom]

theorem drop_bytesFrom (memory : Nat → UInt8) (start count front : Nat) :
    (bytesFrom memory start count).drop front = bytesFrom memory (start + front) (count - front) := by
  apply List.ext_getElem
  · simp
  · intro place _ _
    simp [bytesFrom, Nat.add_assoc]

theorem bytesFrom_add (memory : Nat → UInt8) (start front behind : Nat) :
    bytesFrom memory start (front + behind) =
      bytesFrom memory start front ++ bytesFrom memory (start + front) behind := by
  rw [← List.take_append_drop front (bytesFrom memory start (front + behind)),
    take_bytesFrom (Nat.le_add_right _ _), drop_bytesFrom, Nat.add_sub_cancel_left]

def wordFrom (memory : Nat → UInt8) (start width : Nat) : Nat := ofBE (bytesFrom memory start width)

def Reading (ε α : Type) : Type := (Nat → UInt8) → Except ε α × List Access

namespace Reading

variable {ε α β : Type}
variable (start : Nat)

def fail (ret : ε) : Reading ε α := fun _ => (.error ret, [])

def bytes (start count : Nat) : Reading ε (List UInt8) :=
  fun memory => (.ok (bytesFrom memory start count), [⟨start, count⟩])

instance : Monad (Reading ε) where
  pure value := fun _ => (.ok value, [])
  bind first next := fun memory =>
    match first memory with
    | (.error ret, accesses) => (.error ret, accesses)
    | (.ok value, accesses) =>
      let (result, behind) := next value memory
      (result, accesses ++ behind)

def word (start width : Nat) : Reading ε Nat := do
  let read ← bytes start width
  pure (ofBE read)

def byte (start : Nat) : Reading ε UInt8 := fun memory => (.ok (memory start), [⟨start, 1⟩])

/-- The value that is there, or the error. -/
def ofOption (ret : ε) : Option α → Reading ε α
  | none => fail ret
  | some value => pure value

def Yields (program : Reading ε α) (memory : Nat → UInt8) (value : α) : Prop :=
  (program memory).1 = .ok value

def Fails (program : Reading ε α) (memory : Nat → UInt8) (ret : ε) : Prop :=
  (program memory).1 = .error ret

def Within (limit : Nat) (program : Reading ε α) (memory : Nat → UInt8) : Prop :=
  ∀ access ∈ (program memory).2, access.Below limit

variable {limit : Nat} {memory : Nat → UInt8}

theorem yields_or_fails (program : Reading ε α) (memory : Nat → UInt8) :
    (∃ value, program.Yields memory value) ∨ ∃ ret, program.Fails memory ret := by
  unfold Yields Fails
  cases (program memory).1 with
  | ok value => exact .inl ⟨value, rfl⟩
  | error ret => exact .inr ⟨ret, rfl⟩

@[simp] theorem yields_pure (result value : α) :
    (pure result : Reading ε α).Yields memory value ↔ result = value := by
  simp [Yields, pure]

@[simp] theorem not_yields_fail (ret : ε) (value : α) : ¬ (fail ret : Reading ε α).Yields memory value := by
  simp [Yields, fail]

@[simp] theorem yields_bytes (count : Nat) (value : List UInt8) :
    (bytes start count : Reading ε _).Yields memory value ↔ bytesFrom memory start count = value := by
  simp [Yields, bytes]

@[simp] theorem yields_byte (value : UInt8) :
    (byte start : Reading ε _).Yields memory value ↔ memory start = value := by
  simp [Yields, byte]

@[simp] theorem yields_ofOption (ret : ε) (found : Option α) (value : α) :
    (ofOption ret found).Yields memory value ↔ found = some value := by
  cases found <;> simp [ofOption]

@[simp] theorem yields_bind (first : Reading ε α) (next : α → Reading ε β) (value : β) :
    (first >>= next).Yields memory value ↔
      ∃ middle, first.Yields memory middle ∧ (next middle).Yields memory value := by
  unfold Yields
  simp only [bind]
  rcases first memory with ⟨ret | middle, accesses⟩ <;> simp

@[simp] theorem yields_ite (guard : Prop) [Decidable guard] (first second : Reading ε α) (value : α) :
    (if guard then first else second).Yields memory value ↔
      (guard → first.Yields memory value) ∧ (¬ guard → second.Yields memory value) := by
  by_cases holds : guard <;> simp [holds]

@[simp] theorem not_fails_pure (result : α) (ret : ε) : ¬ (pure result : Reading ε α).Fails memory ret := by
  simp [Fails, pure]

@[simp] theorem fails_fail (code ret : ε) : (fail code : Reading ε α).Fails memory ret ↔ code = ret := by
  simp [Fails, fail]

@[simp] theorem not_fails_bytes (count : Nat) (ret : ε) :
    ¬ (bytes start count : Reading ε _).Fails memory ret := by
  simp [Fails, bytes]

@[simp] theorem not_fails_byte (ret : ε) : ¬ (byte start : Reading ε _).Fails memory ret := by
  simp [Fails, byte]

@[simp] theorem fails_ofOption (code : ε) (found : Option α) (ret : ε) :
    (ofOption code found).Fails memory ret ↔ found = none ∧ code = ret := by
  cases found <;> simp [ofOption]

@[simp] theorem fails_bind (first : Reading ε α) (next : α → Reading ε β) (ret : ε) :
    (first >>= next).Fails memory ret ↔
      first.Fails memory ret ∨ ∃ middle, first.Yields memory middle ∧ (next middle).Fails memory ret := by
  unfold Fails Yields
  simp only [bind]
  rcases first memory with ⟨code | middle, accesses⟩ <;> simp

namespace Agree

end Agree

@[simp] theorem within_pure (value : α) : (pure value : Reading ε α).Within limit memory := by
  simp [Within, pure]

@[simp] theorem within_fail (ret : ε) : (fail ret : Reading ε α).Within limit memory := by
  simp [Within, fail]

@[simp] theorem within_bytes (count : Nat) :
    (bytes start count : Reading ε _).Within limit memory ↔ count = 0 ∨ start + count ≤ limit := by
  simp [Within, bytes, Access.below_iff]

@[simp] theorem within_byte : (byte start : Reading ε _).Within limit memory ↔ start + 1 ≤ limit := by
  simp [Within, byte, Access.below_iff]

@[simp] theorem within_ofOption (ret : ε) (found : Option α) : (ofOption ret found).Within limit memory := by
  cases found <;> simp [ofOption]

/-- A program in two parts stays below the limit when the first part does, and
the second on what the first returns. -/
@[simp] theorem within_bind (first : Reading ε α) (next : α → Reading ε β) :
    (first >>= next).Within limit memory ↔
      first.Within limit memory ∧ ∀ middle, first.Yields memory middle → (next middle).Within limit memory := by
  unfold Within Yields
  simp only [bind]
  rcases first memory with ⟨ret | middle, accesses⟩
  · simp
  · simp [or_imp, forall_and]

@[simp] theorem within_ite (guard : Prop) [Decidable guard] (first second : Reading ε α) :
    (if guard then first else second).Within limit memory ↔
      (guard → first.Within limit memory) ∧ (¬ guard → second.Within limit memory) := by
  by_cases holds : guard <;> simp [holds]

instance (program : Reading ε α) (limit : Nat) (memory : Nat → UInt8) :
    Decidable (program.Within limit memory) :=
  decidable_of_iff (∀ access ∈ (program memory).2, access.count = 0 ∨ access.start + access.count ≤ limit)
    (forall₂_congr fun access _ => (Access.below_iff limit access.start access.count).symm)

def FailsWith (errors : ε → Prop) (program : Reading ε α) : Prop :=
  ∀ memory ret, program.Fails memory ret → errors ret

namespace FailsWith

variable {errors : ε → Prop}

theorem pure (value : α) : FailsWith errors (pure value : Reading ε α) :=
  fun _ _ fails => absurd fails (not_fails_pure _ _)

theorem fail {ret : ε} (error : errors ret) : FailsWith errors (fail ret : Reading ε α) :=
  fun _ _ fails => (fails_fail _ _).1 fails ▸ error

theorem bytes (start count : Nat) : FailsWith errors (bytes start count) :=
  fun _ _ fails => absurd fails (not_fails_bytes _ _ _)

theorem byte (start : Nat) : FailsWith errors (byte start) :=
  fun _ _ fails => absurd fails (not_fails_byte _ _)

theorem ofOption (errors : ε → Prop) {ret : ε} (error : errors ret) (found : Option α) :
    FailsWith errors (ofOption ret found) :=
  fun _ _ fails => ((fails_ofOption _ _ _).1 fails).2 ▸ error

theorem bind {first : Reading ε α} {next : α → Reading ε β} (before : FailsWith errors first)
    (behind : ∀ middle, FailsWith errors (next middle)) : FailsWith errors (first >>= next) := by
  intro memory ret fails
  rcases (fails_bind _ _ _).1 fails with early | ⟨middle, _, late⟩
  · exact before memory ret early
  · exact behind middle memory ret late

theorem ite {guard : Prop} [Decidable guard] {first second : Reading ε α}
    (holds : guard → FailsWith errors first) (fails : ¬ guard → FailsWith errors second) :
    FailsWith errors (if guard then first else second) := by
  split
  · exact holds ‹_›
  · exact fails ‹_›

end FailsWith

@[simp] theorem yields_word (width value : Nat) :
    (word start width : Reading ε Nat).Yields memory value ↔ wordFrom memory start width = value := by
  simp [word, wordFrom]

@[simp] theorem not_fails_word (width : Nat) (ret : ε) :
    ¬ (word start width : Reading ε Nat).Fails memory ret := by
  simp [word]

theorem FailsWith.word {errors : ε → Prop} (width : Nat) : FailsWith errors (word start width) :=
  fun _ _ fails => absurd fails (not_fails_word _ _ _)

@[simp] theorem within_word (width : Nat) :
    (word start width : Reading ε Nat).Within limit memory ↔ width = 0 ∨ start + width ≤ limit := by
  simp [word]

end Reading

end RpcFrmwrk.Library
