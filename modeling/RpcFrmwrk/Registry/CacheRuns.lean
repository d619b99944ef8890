import RpcFrmwrk.Registry.CacheCoherence

/-! Runs of the block cache against a plain array of blocks. Owns the effect of `mergeBlocks` and
`commitCache`; `Op`, `Coherent`, and the runs in which the cache is coherent. -/

namespace RpcFrmwrk.Registry

open RpcFrmwrk.Library List

variable {alloc : Allocator} {buf : List Block}

variable {runs : List (Extent Block)} {array : BlockArray} {blocks : List Nat} {blkIdx : Nat}
    {request : Request}

theorem mergeLoop_spec {current : Extent Block}
    (ordered : Ordered (current :: runs)) (indexed : Indexed (current :: runs)) :
    Ordered (mergeLoop current runs) ∧ Indexed (mergeLoop current runs) ∧
      (∀ run ∈ mergeLoop current runs, current.first ≤ run.first) ∧
      ∀ pos, lookup (mergeLoop current runs) pos = lookup (current :: runs) pos := by
  induction runs generalizing current with
  | nil =>
    refine ⟨ordered, indexed, ?_, fun _ => rfl⟩
    intro run member
    rw [mergeLoop, mem_singleton] at member
    rw [member]
  | cons next runs ih =>
    have apart := ordered.head next mem_cons_self
    have tailIndexed : Indexed (next :: runs) := fun run member =>
      indexed run (mem_cons_of_mem current member)
    obtain ⟨laterOrdered, laterIndexed, front, later⟩ :=
      ih ordered.tail tailIndexed
    have kept : Ordered (current :: mergeLoop next runs) ∧
        Indexed (current :: mergeLoop next runs) ∧
        (∀ run ∈ current :: mergeLoop next runs, current.first ≤ run.first) ∧
        ∀ pos, lookup (current :: mergeLoop next runs) pos = lookup (current :: next :: runs) pos := by
      have later' : ∀ run ∈ mergeLoop next runs, current.last ≤ run.first := fun run member =>
        Nat.le_trans apart (front run member)
      refine ⟨laterOrdered.cons (ordered.nonempty current mem_cons_self) later', ?_, ?_, ?_⟩
      · intro run member
        rcases mem_cons.1 member with rfl | member
        · exact indexed run mem_cons_self
        · exact laterIndexed run member
      · intro run member
        rcases mem_cons.1 member with rfl | member
        · exact Nat.le_refl _
        · exact Nat.le_trans (Nat.le_add_right _ _) (later' run member)
      · intro pos
        rw [Library.lookup, later pos]
        rfl
    rw [mergeLoop]
    by_cases meets : next.first = current.first + current.items.length
    · rw [if_pos meets]
      by_cases small : (current.items.length + next.items.length) * blockSize ≤ maxBytesPerBuffer
      · rw [if_pos small]
        have joinIndexed : Indexed (current.join next :: runs) := by
          intro run member
          rcases mem_cons.1 member with rfl | member
          · rw [Extent.last_join meets]
            rcases indexed next (mem_cons_of_mem _ mem_cons_self) with low | ⟨special, _⟩
            · exact .inl low
            · -- nothing ends at a special block: the one below is not adjacent
              exfalso
              have nextSpecial := isSpecial_eq.1 special
              rcases indexed current mem_cons_self with low | ⟨own, last⟩
              · have behind := addressable_le_of_special special
                have strict : addressable < superBlkIdx ∧ addressable < grpbmpBlkIdx := by decide
                unfold Extent.last at low
                omega
              · have ownSpecial := isSpecial_eq.1 own
                unfold Extent.last at last
                unfold superBlkIdx grpbmpBlkIdx at nextSpecial ownSpecial
                omega
          · exact tailIndexed run (mem_cons_of_mem next member)
        obtain ⟨joinOrdered, joinResult, joinFront, joined⟩ :=
          ih (ordered.join meets) joinIndexed
        exact ⟨joinOrdered, joinResult, joinFront, fun pos =>
          (joined pos).trans (lookup_join meets pos)⟩
      · rw [if_neg small]
        exact kept
    · rw [if_neg meets]
      exact kept

theorem mergeBlocks_spec (sound : alloc.Sound) :
    (mergeBlocks alloc).Sound ∧ ∀ blkIdx, (mergeBlocks alloc).view blkIdx = alloc.view blkIdx := by
  obtain ⟨runs, file, errno⟩ := alloc
  cases runs with
  | nil => exact ⟨sound, fun _ => rfl⟩
  | cons run runs =>
    obtain ⟨ordered, indexed, _, same⟩ := mergeLoop_spec sound.ordered sound.indexed
    refine ⟨⟨ordered, indexed⟩, fun blkIdx => ?_⟩
    show (lookup (mergeLoop run runs) blkIdx).or _ = _
    rw [same blkIdx]
    rfl

theorem runOffset_spec {run : Extent Block} (nonempty : 0 < run.items.length)
    (indexed : run.last ≤ addressable ∨ (isSpecial run.first = true ∧ run.last = run.first + 1)) :
    runOffset run = sectorOf run.first * blockSize ∧ seekFails (runOffset run) = false ∧
      ∀ blkIdx, (sectorOf run.first ≤ sectorOf blkIdx ∧
        sectorOf blkIdx < sectorOf run.first + run.items.length) ↔ run.first ≤ blkIdx ∧ blkIdx < run.last := by
  have limits : superBlkIdx = 0xFFFFFFFE ∧ grpbmpBlkIdx = 0xFFFFFFFC ∧ addressable = 4194302 :=
    ⟨rfl, rfl, rfl⟩
  rcases indexed with low | ⟨special, last⟩
  · have small : run.first < addressable := by
      unfold Extent.last at low
      omega
    have offset : runOffset run = (run.first + 2) * blockSize := by
      rw [runOffset, if_neg (by omega), if_neg (by omega), blockAbs_of_lt small]
    rw [offset, sectorOf_of_lt small]
    refine ⟨rfl, seekFails_of_lt small, fun blkIdx => ?_⟩
    unfold Extent.last at low ⊢
    unfold sectorOf
    split
    · omega
    · split
      · omega
      · omega
  · have single : run.items.length = 1 := by
      unfold Extent.last at last
      omega
    rw [single, last]
    rcases isSpecial_eq.1 special with super | grpbmp
    · refine ⟨?_, ?_, fun blkIdx => ?_⟩
      · rw [runOffset, super, if_pos rfl]
        decide
      · rw [runOffset, super, if_pos rfl]
        decide
      · have sector : sectorOf superBlkIdx = 0 := rfl
        rw [super, sector]
        unfold sectorOf
        split
        · omega
        · split <;> omega
    · have distinct : grpbmpBlkIdx ≠ superBlkIdx := by decide
      refine ⟨?_, ?_, fun blkIdx => ?_⟩
      · rw [runOffset, grpbmp, if_neg distinct, if_pos rfl]
        decide
      · rw [runOffset, grpbmp, if_neg distinct, if_pos rfl]
        decide
      · have sector : sectorOf grpbmpBlkIdx = 1 := rfl
        rw [grpbmp, sector]
        unfold sectorOf
        split
        · omega
        · split <;> omega

theorem commitLoop_spec (alloc : Allocator) (ordered : Ordered runs)
    (indexed : Indexed runs) :
    ∃ next, commitLoop alloc runs = some next ∧ next.errno = alloc.errno ∧
      ∀ blkIdx block, (lookup runs blkIdx).or alloc.file[sectorOf blkIdx]? = some block →
        next.file[sectorOf blkIdx]? = some block := by
  induction runs generalizing alloc with
  | nil => exact ⟨alloc, rfl, rfl, fun blkIdx block found => found⟩
  | cons run runs ih =>
    have nonempty := ordered.nonempty run mem_cons_self
    obtain ⟨offset, low, sectors⟩ := runOffset_spec nonempty (indexed run mem_cons_self)
    have sector : runOffset run / blockSize = sectorOf run.first := by
      rw [offset, Nat.mul_div_cancel _ (by decide)]
    let after : Allocator :=
      { alloc with file := writeAt zeroBlock alloc.file (sectorOf run.first) run.items }
    have written : alloc.writeFile (runOffset run) run.items = (.ok (run.items.length * blockSize), after) := by
      rw [Allocator.writeFile, low, if_neg Bool.false_ne_true, sector]
    obtain ⟨next, loop, errno, later⟩ := ih after ordered.tail
      fun other member => indexed other (mem_cons_of_mem run member)
    refine ⟨next, ?_, errno, fun blkIdx block found => later blkIdx block ?_⟩
    · rw [commitLoop, written]
      exact (if_neg Bool.false_ne_true).trans loop
    · have result := getElem?_writeAt zeroBlock alloc.file (sectorOf run.first) run.items (sectorOf blkIdx)
      show (lookup runs blkIdx).or
        (writeAt zeroBlock alloc.file (sectorOf run.first) run.items)[sectorOf blkIdx]? = _
      by_cases inside : run.first ≤ blkIdx ∧ blkIdx < run.last
      · have absent : lookup runs blkIdx = none := by
          rw [lookup_eq_none ordered.tail]
          rintro other member ⟨lower, upper⟩
          have apart := ordered.head other member
          omega
        rw [lookup_of_mem ordered mem_cons_self inside.1 inside.2] at found
        have covered := (sectors blkIdx).2 inside
        have place : sectorOf blkIdx - sectorOf run.first = blkIdx - run.first := by
          rcases indexed run mem_cons_self with small | ⟨_, last⟩
          · rw [sectorOf_of_lt (by omega), sectorOf_of_lt (by omega)]
            omega
          · have same : blkIdx = run.first := by omega
            rw [same]
            omega
        have present : run.items[blkIdx - run.first]?.isSome := by
          unfold Extent.last at inside
          rw [List.getElem?_eq_getElem (by omega)]
          rfl
        obtain ⟨item, at?⟩ := Option.isSome_iff_exists.1 present
        rw [at?, Option.some_or] at found
        rw [absent, Option.none_or, result, if_pos covered, place, at?, found]
      · have outside : ¬ (sectorOf run.first ≤ sectorOf blkIdx ∧
            sectorOf blkIdx < sectorOf run.first + run.items.length) := fun covered =>
          inside ((sectors blkIdx).1 covered)
        have missing : run.get? blkIdx = none := by
          rw [← Option.not_isSome_iff_eq_none, Extent.get?_isSome]
          exact inside
        rw [Library.lookup, missing, Option.none_or] at found
        cases cached : lookup runs blkIdx with
        | some item =>
          rw [cached, Option.some_or] at found
          exact found
        | none =>
          rw [cached, Option.none_or] at found
          rw [Option.none_or]
          exact getElem?_writeAt_of_some outside found

theorem commitCache_spec (sound : alloc.Sound) :
    ∃ next, commitCache alloc = some next ∧ next.Sound ∧ next.dirtyBlks = [] ∧
      ∀ blkIdx block, alloc.view blkIdx = some block → next.file[sectorOf blkIdx]? = some block := by
  obtain ⟨next, loop, _, kept⟩ := commitLoop_spec alloc sound.ordered sound.indexed
  refine ⟨{ next with dirtyBlks := [] }, ?_, ⟨Ordered.nil, by simp [Indexed]⟩, rfl, kept⟩
  rw [commitCache, loop]
  rfl

/-! ### Operations -/

/-- What a caller of the allocator does in safe mode. -/
inductive Op where
  | write (request : Request) (buf : List Block) (length : buf.length = request.blocks.length)
  | read (request : Request) (buf : List Block) (length : buf.length = request.blocks.length)
  | merge
  | commit

def Op.step (alloc : Allocator) : Op → Option Allocator
  | .write request buf _ =>
    (writeBlocks alloc request.blocks buf request.contigous).map Prod.snd
  | .read _ _ _ => some alloc
  | .merge => some (mergeBlocks alloc)
  | .commit => commitCache alloc

/-- A plain array of blocks; `none` where nothing has ever been stored. -/
abbrev BlockArray := Nat → Option Block

def BlockArray.store (array : BlockArray) : List Nat → List Block → BlockArray
  | blkIdx :: blocks, block :: buf =>
    BlockArray.store (fun other => if other = blkIdx then some block else array other) blocks buf
  | _, _ => array

def Op.apply (array : BlockArray) : Op → BlockArray
  | .write request buf _ => array.store request.blocks buf
  | _ => array

/-- The operation does what the array says: a write succeeds, a read succeeds
with the blocks of the array and with zeros for holes, and after a commit the
file alone has every block of the array. -/
def Op.Agrees (array : BlockArray) (alloc : Allocator) : Op → Prop
  | .write request buf _ =>
    ∃ total next, writeBlocks alloc request.blocks buf request.contigous = some (.ok total, next)
  | .read request buf _ =>
    ∃ total after, readBlocks alloc request.blocks buf request.contigous = (.ok total, after) ∧
      ∀ pos blkIdx : Nat, request.blocks[pos]? = some blkIdx →
        (blkIdx = invalidBlockIdx → after[pos]? = some zeroBlock) ∧
        ∀ block, blkIdx ≠ invalidBlockIdx → array blkIdx = some block →
          after[pos]? = some block
  | .merge => True
  | .commit =>
    ∃ next, commitCache alloc = some next ∧
      ∀ blkIdx block, array blkIdx = some block → next.file[sectorOf blkIdx]? = some block

/-- Every operation of the run agrees with the array written in the same order. -/
def Coherent (array : BlockArray) (alloc : Allocator) : List Op → Prop
  | [] => True
  | op :: ops =>
    op.Agrees array alloc ∧
      ∃ next, op.step alloc = some next ∧ Coherent (op.apply array) next ops

def arrayOf (file : List Block) : BlockArray := fun blkIdx => file[sectorOf blkIdx]?

/-- The requests the cache can serve. A write names no hole, and no consecutive
blocks of more than 16 MiB. -/
def Op.Reachable : Op → Prop
  | .write request _ _ =>
    request.Reachable ∧ invalidBlockIdx ∉ request.blocks ∧
      ∀ elem ∈ requestIntervals request.contigous request.blocks,
        (elem.second - elem.first) * blockSize ≤ maxBytesPerBuffer
  | .read request _ _ => request.Reachable
  | _ => True

/-- The cache and the file hold the array. -/
structure Simulates (array : BlockArray) (alloc : Allocator) : Prop where
  sound : alloc.Sound
  view : ∀ blkIdx block, array blkIdx = some block → alloc.view blkIdx = some block

theorem store_of_not_mem (outside : blkIdx ∉ blocks) : array.store blocks buf blkIdx = array blkIdx := by
  induction blocks generalizing array buf with
  | nil => rfl
  | cons head blocks ih =>
    rw [mem_cons, not_or] at outside
    cases buf with
    | nil => rfl
    | cons block buf =>
      rw [BlockArray.store, ih outside.2, if_neg outside.1]

theorem store_of_mem (array : BlockArray)
    (length : buf.length = blocks.length) (inside : blkIdx ∈ blocks) :
    ∃ pos : Nat, blocks[pos]? = some blkIdx ∧ array.store blocks buf blkIdx = buf[pos]? := by
  induction blocks generalizing array buf with
  | nil => cases inside
  | cons head blocks ih =>
    cases buf with
    | nil => cases length
    | cons block buf =>
      rw [BlockArray.store]
      by_cases later : blkIdx ∈ blocks
      · obtain ⟨pos, at?, stored⟩ := ih
          (fun other => if other = head then some block else array other)
          (Nat.succ.inj length) later
        exact ⟨pos + 1, at?, stored⟩
      · have first : blkIdx = head := (mem_cons.1 inside).resolve_right later
        refine ⟨0, by rw [first]; rfl, ?_⟩
        rw [store_of_not_mem later, if_pos first]
        rfl

theorem writeBlocks_spec (sound : alloc.Sound)
    (length : buf.length = request.blocks.length)
    (reachable : request.Reachable) (proper : invalidBlockIdx ∉ request.blocks)
    (fits : ∀ elem ∈ requestIntervals request.contigous request.blocks,
      (elem.second - elem.first) * blockSize ≤ maxBytesPerBuffer) :
    ∃ total next, writeBlocks alloc request.blocks buf request.contigous =
      some (.ok total, next) ∧ Stored alloc next request.blocks buf := by
  have nonempty : request.blocks.length ≠ 0 := fun empty =>
    request.nonempty (eq_nil_of_length_eq_zero empty)
  rw [writeBlocks, if_neg nonempty]
  rcases reachable with ⟨blkIdx, single, special⟩ | ⟨small, _, apart⟩
  · rw [single] at length ⊢
    obtain ⟨block, rfl⟩ := length_eq_one_iff.1 length
    exact cacheBlocks_special sound special request.contigous
  · refine cacheBlocks_plain sound request.nonempty ?_ small proper fits length
    cases marked : request.contigous with
    | true => exact places_consecutive request marked proper
    | false =>
      have places := places_request request apart
      rwa [filter_eq_self.2] at places
      intro elem member
      obtain ⟨perm, _⟩ := sorted_requestIntervals request.blocks
      have runs := runs_findContigousBlocks apart
      have found := perm.mem_iff.1 member
      have nonempty := runs.nonempty elem found
      rw [decide_eq_true_iff]
      intro hole
      have held := (runs.spans elem.off _).1 ⟨elem, found, ⟨Nat.le_refl _, by omega⟩, rfl⟩
      rw [ContBlks.index, if_pos hole] at held
      exact proper (mem_of_getElem? held.2)

theorem readBlocks_spec (sound : alloc.Sound)
    (length : buf.length = request.blocks.length)
    (reachable : request.Reachable) :
    ∃ total after, readBlocks alloc request.blocks buf request.contigous = (.ok total, after) ∧
      Delivers alloc request.blocks buf after := by
  have nonempty : request.blocks.length ≠ 0 := fun empty =>
    request.nonempty (eq_nil_of_length_eq_zero empty)
  rw [readBlocks, if_neg nonempty]
  rcases reachable with ⟨blkIdx, single, special⟩ | ⟨small, proper, apart⟩
  · rw [single] at length ⊢
    obtain ⟨block, rfl⟩ := length_eq_one_iff.1 length
    exact readCache_special sound special block request.contigous
  · exact readCache_plain request sound small proper apart length

theorem Op.agrees (simulates : Simulates array alloc)
    {op : Op} (reachable : op.Reachable) :
    op.Agrees array alloc ∧ ∃ next, op.step alloc = some next ∧ Simulates (op.apply array) next := by
  obtain ⟨sound, view⟩ := simulates
  cases op with
  | write request buf length =>
    obtain ⟨total, next, written, stored⟩ :=
      writeBlocks_spec sound length reachable.1 reachable.2.1 reachable.2.2
    refine ⟨⟨total, next, written⟩, next, by rw [step, written]; rfl, stored.sound, ?_⟩
    intro blkIdx block held
    show (lookup next.dirtyBlks blkIdx).or next.file[sectorOf blkIdx]? = _
    by_cases inside : blkIdx ∈ request.blocks
    · obtain ⟨pos, at?, same⟩ := store_of_mem array length inside
      have value : buf[pos]? = some block := same.symm.trans held
      rw [stored.written pos blkIdx at?, value, Option.some_or]
    · rw [stored.kept blkIdx inside, stored.file]
      exact view blkIdx block ((store_of_not_mem inside).symm.trans held)
  | read request buf length =>
    obtain ⟨total, after, read, delivers⟩ := readBlocks_spec sound length reachable
    refine ⟨⟨total, after, read, fun pos blkIdx at? => ⟨?_, ?_⟩⟩, alloc, rfl, sound, view⟩
    · intro isHole
      rw [delivers pos blkIdx at?, if_pos isHole]
    · intro block notHole held
      rw [delivers pos blkIdx at?, if_neg notHole, view blkIdx block held, Option.some_or]
  | merge =>
    obtain ⟨merged, same⟩ := mergeBlocks_spec sound
    refine ⟨trivial, _, rfl, merged, fun blkIdx block held => ?_⟩
    rw [same blkIdx]
    exact view blkIdx block held
  | commit =>
    obtain ⟨next, committed, nextSound, empty, kept⟩ := commitCache_spec sound
    have file : ∀ blkIdx block, array blkIdx = some block →
        next.file[sectorOf blkIdx]? = some block := fun blkIdx block held =>
      kept blkIdx block (view blkIdx block held)
    refine ⟨⟨next, committed, file⟩, next, committed, nextSound, fun blkIdx block held => ?_⟩
    rw [Allocator.view, empty]
    exact file blkIdx block held

theorem coherent_of_simulates
    (simulates : Simulates array alloc) {ops : List Op} (reachable : ∀ op ∈ ops, op.Reachable) :
    Coherent array alloc ops := by
  induction ops generalizing array alloc with
  | nil => trivial
  | cons op ops ih =>
    obtain ⟨agrees, next, step, after⟩ := Op.agrees simulates (reachable op mem_cons_self)
    exact ⟨agrees, next, step, ih after fun other member =>
      reachable other (mem_cons_of_mem op member)⟩

def Request.single (blkIdx : Nat) : Request where
  blocks := [blkIdx]
  contigous := true
  nonempty := by simp
  distinct := by
    intro left right other leftAt rightAt _
    obtain ⟨leftInside, _⟩ := List.getElem?_eq_some_iff.1 leftAt
    obtain ⟨rightInside, _⟩ := List.getElem?_eq_some_iff.1 rightAt
    simp only [List.length_cons, List.length_nil] at leftInside rightInside
    omega
  consecutive _ := ⟨blkIdx, rfl⟩

/-- From any file, every run of requests the cache can serve is coherent. -/
theorem coherent_of_reachable (file : List Block) (errno : Nat) (ops : List Op)
    (reachable : ∀ op ∈ ops, op.Reachable) : Coherent (arrayOf file) ⟨[], file, errno⟩ ops := by
  have start : Simulates (arrayOf file) ⟨[], file, errno⟩ := by
    refine ⟨⟨Ordered.nil, ?_⟩, fun _ _ held => held⟩
    intro run member
    cases member
  exact coherent_of_simulates start reachable

/-- Writing a block, committing and reading it back. -/
theorem coherent_single : Coherent (arrayOf []) ⟨[], [], 0⟩
    [.write (.single 0x10) [zeroBlock] rfl, .commit, .read (.single 0x10) [zeroBlock] rfl] := by
  refine coherent_of_reachable [] 0 _ fun op member => ?_
  have single : (Request.single 0x10).Reachable := by
    refine .inr ⟨?_, fun _ => by decide, .singleton _⟩
    intro blkIdx inside
    rw [mem_singleton.1 inside]
    decide
  simp only [mem_cons, not_mem_nil, or_false] at member
  rcases member with rfl | rfl | rfl
  · refine ⟨single, by decide, ?_⟩
    intro elem inside
    rw [mem_singleton.1 inside]
    decide
  · trivial
  · exact single

def onesBlock : Block := Vector.replicate blockSize 1

theorem onesBlock_ne_zeroBlock : onesBlock ≠ zeroBlock := by
  intro same
  have first := congrArg (fun block : Block => block.toList.head?) same
  simp [onesBlock, zeroBlock, blockSize] at first

/-- The first data block of group 128 has the address of the block of the root
directory: writing the one and committing changes the other. -/
theorem aliased_blocks :
    blockAbs 0x800010 = blockAbs 0x10 ∧
      ¬ Coherent (arrayOf (List.replicate 19 zeroBlock)) ⟨[], List.replicate 19 zeroBlock, 0⟩
        [.write (.single 0x800010) [onesBlock] rfl, .commit,
          .read (.single 0x10) [zeroBlock] rfl] := by
  refine ⟨by decide, ?_⟩
  rintro ⟨_, cached, write, _, committed, commit, ⟨_, after, read, holds⟩, _⟩
  have written : Op.step ⟨[], List.replicate 19 zeroBlock, 0⟩
      (.write (.single 0x800010) [onesBlock] rfl) =
        some ⟨[⟨0x800010, [onesBlock]⟩], List.replicate 19 zeroBlock, 0⟩ := rfl
  rw [written, Option.some.injEq] at write
  subst write
  have flushed : Op.step ⟨[⟨0x800010, [onesBlock]⟩], List.replicate 19 zeroBlock, 0⟩ .commit =
      some ⟨[], List.replicate 18 zeroBlock ++ [onesBlock], 0⟩ := rfl
  rw [flushed, Option.some.injEq] at commit
  subst commit
  have found : readBlocks ⟨[], List.replicate 18 zeroBlock ++ [onesBlock], 0⟩ [0x10] [zeroBlock]
      true = (.ok 512, [onesBlock]) := rfl
  have result := found.symm.trans read
  injection result with _ same
  subst same
  have root := (holds 0 0x10 rfl).2 zeroBlock (by decide) rfl
  exact onesBlock_ne_zeroBlock (Option.some.inj root)

end RpcFrmwrk.Registry
