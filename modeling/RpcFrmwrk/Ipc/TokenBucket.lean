import RpcFrmwrk.Library.Machine

/-! The token bucket that limits requests and bytes. A started `CTokenBucketTask` gives out tokens
until it has none left, and its timer fills it up to the maximum. The timer reads the maximum and
frees as many tokens under two locks, so that other calls may come in between. Owns the calls of
`CTokenBucketTask` and its timer, in any order; `kept_of_fits`. -/

namespace RpcFrmwrk.Ipc

open RpcFrmwrk.Library

inductive BucketRet where
  | success
  | einval
  | edquot
  | notHandled
deriving DecidableEq

/-- The members of `CTokenBucketTask`. -/
structure TokenBucket where
  maxTokens : UInt64
  tokens : UInt64
  timerEnabled : Bool
  totalAlloced : UInt64
deriving DecidableEq

namespace TokenBucket

/-- `AllocToken`, with the number that is granted. -/
def allocToken (bucket : TokenBucket) (numReq : UInt64) : BucketRet × UInt64 × TokenBucket :=
  if numReq = 0 then (.einval, 0, bucket)
  else if bucket.tokens = 0 then (.edquot, 0, { bucket with timerEnabled := true })
  else if bucket.tokens < numReq then
    (.success, bucket.tokens,
      { bucket with
        totalAlloced := bucket.totalAlloced + bucket.tokens
        tokens := 0
        timerEnabled := true })
  else
    (.success, numReq,
      { bucket with
        tokens := bucket.tokens - numReq
        totalAlloced := bucket.totalAlloced + numReq
        timerEnabled := true })

/-- `FreeToken`. The sum may wrap. -/
def freeToken (bucket : TokenBucket) (num : UInt64) : BucketRet × TokenBucket :=
  if bucket.tokens = bucket.maxTokens then (.notHandled, bucket)
  else if bucket.maxTokens < bucket.tokens + num then (.success, { bucket with tokens := bucket.maxTokens })
  else (.success, { bucket with tokens := bucket.tokens + num })

/-- `SetMaxTokens`. -/
def setMaxTokens (bucket : TokenBucket) (maxTokens : UInt64) : TokenBucket := { bucket with maxTokens }

end TokenBucket

/-- What is told of a call. -/
inductive BucketEvent where
  /-- A refill, with the tokens before and behind it and the maximum then. -/
  | refill (before after maxTokens : Nat)
  /-- A grant out of as many tokens; the sum of all grants since the last refill, the largest maximum since then, and
  what was given back. -/
  | grant (granted available total highest freed : Nat)
deriving DecidableEq

/-- A refill leaves the maximum at most and lowers no count below it; a grant is covered, and so are all grants since
the last refill. -/
def BucketEvent.Kept : BucketEvent → Prop
  | .refill before after maxTokens => after ≤ maxTokens ∧ (before < maxTokens → before ≤ after)
  | .grant granted available total highest freed => granted ≤ available ∧ total ≤ highest + freed

structure BucketState where
  bucket : TokenBucket
  /-- The maximum that `OnRetry` has read. -/
  reading : Option UInt64
  /-- The tokens granted and given back since the last refill, and the largest maximum since then. -/
  granted : Nat
  freed : Nat
  highest : Nat
  events : List BucketEvent

/-- A bucket whose first tokens are still to come from `RunTask`. -/
def BucketState.start (maxTokens : UInt64) : BucketState :=
  ⟨⟨maxTokens, 0, false, 0⟩, none, 0, 0, maxTokens.toNat, []⟩

inductive BucketStep where
  | allocToken (numReq : UInt64)
  | freeToken (num : UInt64)
  | setMaxTokens (maxTokens : UInt64)
  /-- `GetMaxTokens` in `OnRetry`, and in front of `FreeToken` in `RunTask`. -/
  | readMax
  /-- `FreeToken` with what was read. -/
  | refill
deriving DecidableEq

def BucketState.refill (state : BucketState) (amount : UInt64) : BucketState :=
  let after := (state.bucket.freeToken amount).2
  { bucket := after
    reading := none
    granted := 0
    freed := 0
    highest := after.maxTokens.toNat
    events := .refill state.bucket.tokens.toNat after.tokens.toNat after.maxTokens.toNat :: state.events }

def BucketState.alloc (state : BucketState) (numReq : UInt64) : BucketState :=
  let done := state.bucket.allocToken numReq
  let total := state.granted + done.2.1.toNat
  { state with
    bucket := done.2.2
    granted := total
    events := .grant done.2.1.toNat state.bucket.tokens.toNat total state.highest state.freed :: state.events }

def BucketState.free (state : BucketState) (num : UInt64) : BucketState :=
  let done := state.bucket.freeToken num
  { state with
    bucket := done.2
    freed := if done.1 = .success then state.freed + num.toNat else state.freed }

def BucketState.setMax (state : BucketState) (maxTokens : UInt64) : BucketState :=
  { state with bucket := state.bucket.setMaxTokens maxTokens, highest := max state.highest maxTokens.toNat }

def bucketStep (state : BucketState) : BucketStep → Option BucketState
  | .allocToken numReq => some (state.alloc numReq)
  | .freeToken num => some (state.free num)
  | .setMaxTokens maxTokens => some (state.setMax maxTokens)
  | .readMax => if state.reading = none then some { state with reading := some state.bucket.maxTokens } else none
  | .refill => state.reading.map state.refill

def tokenBucket (maxTokens : UInt64) : Machine BucketState BucketStep := ⟨BucketState.start maxTokens, bucketStep⟩

/-! ### One call -/

theorem toNat_add_le (left right : UInt64) : (left + right).toNat ≤ left.toNat + right.toNat := by
  rw [UInt64.toNat_add]
  exact Nat.mod_le _ _

/-- `FreeToken` leaves the maximum at most, unless the bucket had exactly that, and adds no more than it was given. -/
theorem TokenBucket.freeToken_bounds (bucket : TokenBucket) (num : UInt64) :
    (bucket.freeToken num).2.maxTokens = bucket.maxTokens ∧
      (bucket.freeToken num).2.tokens.toNat ≤ bucket.maxTokens.toNat ∧
      (bucket.freeToken num).2.tokens.toNat ≤
        bucket.tokens.toNat + if (bucket.freeToken num).1 = .success then num.toNat else 0 := by
  have bound := toNat_add_le bucket.tokens num
  unfold TokenBucket.freeToken
  by_cases full : bucket.tokens = bucket.maxTokens
  · rw [if_pos full]
    exact ⟨rfl, full ▸ Nat.le_refl _, Nat.le_add_right _ _⟩
  rw [if_neg full]
  by_cases beyond : bucket.maxTokens < bucket.tokens + num
  · rw [if_pos beyond]
    rw [UInt64.lt_iff_toNat_lt] at beyond
    refine ⟨rfl, Nat.le_refl _, ?_⟩
    rw [if_pos rfl]
    dsimp only
    omega
  · rw [if_neg beyond]
    rw [UInt64.lt_iff_toNat_lt] at beyond
    refine ⟨rfl, Nat.le_of_not_lt beyond, ?_⟩
    rw [if_pos rfl]
    exact bound

theorem TokenBucket.le_freeToken (bucket : TokenBucket) {num : UInt64} (below : bucket.tokens.toNat < bucket.maxTokens.toNat)
    (fits : bucket.tokens.toNat + num.toNat < 18446744073709551616) :
    bucket.tokens.toNat ≤ (bucket.freeToken num).2.tokens.toNat := by
  unfold TokenBucket.freeToken
  split
  · exact Nat.le_refl _
  · split
    · exact Nat.le_of_lt below
    · dsimp only
      rw [UInt64.toNat_add, Nat.mod_eq_of_lt fits]
      exact Nat.le_add_right _ _

theorem TokenBucket.allocToken_takes (bucket : TokenBucket) (numReq : UInt64) :
    (bucket.allocToken numReq).2.2.maxTokens = bucket.maxTokens ∧
      (bucket.allocToken numReq).2.1.toNat + (bucket.allocToken numReq).2.2.tokens.toNat = bucket.tokens.toNat := by
  unfold TokenBucket.allocToken
  split
  · exact ⟨rfl, Nat.zero_add _⟩
  · split
    · exact ⟨rfl, Nat.zero_add _⟩
    · split
      · exact ⟨rfl, Nat.add_zero _⟩
      · rename_i enough
        refine ⟨rfl, ?_⟩
        rw [UInt64.lt_iff_toNat_lt, Nat.not_lt] at enough
        dsimp only
        rw [UInt64.toNat_sub_of_le _ _ (UInt64.le_iff_toNat_le.2 enough)]
        omega

/-- A refill finds the maximum or more, or its sum fits 64 bits. -/
def BucketStep.fits (state : BucketState) : BucketStep → Bool
  | .refill =>
    match state.reading with
    | none => true
    | some amount => decide (state.bucket.maxTokens.toNat ≤ state.bucket.tokens.toNat) ||
        decide (state.bucket.tokens.toNat + amount.toNat < 18446744073709551616)
  | _ => true

/-- The bucket and the grants together never have more than was there. -/
structure BucketState.Covered (state : BucketState) : Prop where
  inForce : state.bucket.maxTokens.toNat ≤ state.highest
  covered : state.bucket.tokens.toNat + state.granted ≤ state.highest + state.freed
  kept : ∀ event ∈ state.events, event.Kept

theorem covered_start (maxTokens : UInt64) : (BucketState.start maxTokens).Covered :=
  ⟨Nat.le_refl _, Nat.zero_le _, List.forall_mem_nil _⟩

theorem BucketState.Covered.alloc {state : BucketState} (covered : state.Covered) (numReq : UInt64) :
    (state.alloc numReq).Covered := by
  obtain ⟨sameMax, taken⟩ := state.bucket.allocToken_takes numReq
  have before := covered.covered
  refine ⟨?_, ?_, List.forall_mem_cons.2 ⟨⟨?_, ?_⟩, covered.kept⟩⟩
  · show (state.bucket.allocToken numReq).2.2.maxTokens.toNat ≤ state.highest
    rw [sameMax]
    exact covered.inForce
  · show (state.bucket.allocToken numReq).2.2.tokens.toNat + (state.granted + _) ≤ state.highest + state.freed
    omega
  · omega
  · omega

theorem BucketState.Covered.free {state : BucketState} (covered : state.Covered) (num : UInt64) :
    (state.free num).Covered := by
  obtain ⟨sameMax, _, added⟩ := state.bucket.freeToken_bounds num
  have before := covered.covered
  refine ⟨?_, ?_, covered.kept⟩
  · show (state.bucket.freeToken num).2.maxTokens.toNat ≤ state.highest
    rw [sameMax]
    exact covered.inForce
  · show (state.bucket.freeToken num).2.tokens.toNat + state.granted ≤ state.highest +
      if (state.bucket.freeToken num).1 = .success then state.freed + num.toNat else state.freed
    split at added
    · rw [if_pos ‹_›]
      omega
    · rw [if_neg ‹_›]
      omega

theorem BucketState.Covered.setMax {state : BucketState} (covered : state.Covered) (maxTokens : UInt64) :
    (state.setMax maxTokens).Covered := by
  refine ⟨Nat.le_max_right _ _, Nat.le_trans covered.covered ?_, covered.kept⟩
  exact Nat.add_le_add_right (Nat.le_max_left _ _) _

theorem BucketState.Covered.refill {state : BucketState} (covered : state.Covered) {amount : UInt64}
    (fits : state.bucket.maxTokens.toNat ≤ state.bucket.tokens.toNat ∨
      state.bucket.tokens.toNat + amount.toNat < 18446744073709551616) : (state.refill amount).Covered := by
  obtain ⟨sameMax, atMost, _⟩ := state.bucket.freeToken_bounds amount
  rw [← sameMax] at atMost
  refine ⟨Nat.le_refl _, atMost, List.forall_mem_cons.2 ⟨⟨atMost, fun below => ?_⟩, covered.kept⟩⟩
  rw [sameMax] at below
  rcases fits with full | small
  · exact absurd below (Nat.not_lt.2 full)
  · exact state.bucket.le_freeToken below small

theorem covered_bucketStep {state next : BucketState} (covered : state.Covered) {step : BucketStep}
    (fits : step.fits state = true) (moved : bucketStep state step = some next) : next.Covered := by
  cases step with
  | allocToken numReq =>
    cases moved
    exact covered.alloc numReq
  | freeToken num =>
    cases moved
    exact covered.free num
  | setMaxTokens maxTokens =>
    cases moved
    exact covered.setMax maxTokens
  | readMax =>
    rw [bucketStep] at moved
    split at moved
    · cases moved
      exact { covered with }
    · cases moved
  | refill =>
    obtain ⟨amount, read, rfl⟩ := Option.map_eq_some_iff.1 moved
    simp only [BucketStep.fits, read, Bool.or_eq_true, decide_eq_true_eq] at fits
    exact covered.refill fits

/-- In every run whose refills fit, whatever the calls and however they come between the two halves of a refill,
every refill and every grant is kept to. -/
theorem kept_of_fits (maxTokens : UInt64) (state : BucketState)
    (reachable : ((tokenBucket maxTokens).restrict fun state step => step.fits state = true).Reachable state) :
    ∀ event ∈ state.events, event.Kept := by
  refine BucketState.Covered.kept (reachable.invariant (covered_start maxTokens) fun _ _ _ _ before moved => ?_)
  obtain ⟨fits, moved⟩ := Machine.restrict_step.1 moved
  exact covered_bucketStep before fits moved

/-- A bucket of five tokens is emptied in part, given back one token, limited to two and filled up. -/
theorem kept_limited :
    ∃ state : BucketState, state.events = [.refill 4 2 2, .grant 2 5 2 5 0, .refill 0 5 5] ∧ ∀ event ∈ state.events, event.Kept := by
  have ran : (((tokenBucket 5).restrict fun state step => step.fits state = true).run (BucketState.start 5)
      [.readMax, .refill, .allocToken 2, .freeToken 1, .setMaxTokens 2, .readMax, .refill]).map BucketState.events =
        some [.refill 4 2 2, .grant 2 5 2 5 0, .refill 0 5 5] := by decide +kernel
  obtain ⟨state, ran, same⟩ := Option.map_eq_some_iff.1 ran
  exact ⟨state, same, kept_of_fits 5 state (Machine.Reachable.start.run ran)⟩

/-- The unlimited bucket is granted one token, and the refill takes another one away. -/
theorem unlimited_lowered :
    ∃ state, (tokenBucket 18446744073709551615).Reachable state ∧ ∃ event ∈ state.events, ¬ event.Kept := by
  have ran : ((tokenBucket 18446744073709551615).run (BucketState.start 18446744073709551615)
      [.readMax, .refill, .allocToken 1, .readMax, .refill]).map BucketState.events =
        some [.refill 18446744073709551614 18446744073709551613 18446744073709551615,
          .grant 1 18446744073709551615 1 18446744073709551615 0,
          .refill 0 18446744073709551615 18446744073709551615] := by decide +kernel
  obtain ⟨state, ran, same⟩ := Option.map_eq_some_iff.1 ran
  refine ⟨state, Machine.Reachable.start.run ran, _, same ▸ List.mem_cons_self, ?_⟩
  rintro ⟨_, lowers⟩
  exact absurd (lowers (by decide)) (by decide)

end RpcFrmwrk.Ipc
