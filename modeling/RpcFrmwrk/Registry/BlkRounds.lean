import Mathlib.Algebra.Order.BigOperators.Group.List
import RpcFrmwrk.Registry.BitmapRuns

/-! How many blocks a scan of a bitmap takes. A scan takes of each word the first byte that is not
full, so that the blocks of the bytes behind it are left to later scans. Owns `gives`, the number of
blocks that each scan finds; the length of what a scan takes, and what it leaves to the next one. -/

namespace RpcFrmwrk.Registry

open RpcFrmwrk.Library List

namespace BlockBitmap

def notFull (bytes : Bytes) (word : Nat) : List Nat :=
  (wordBytes blkbmpWords word).filter fun byte => bytes byte ≠ BitVec.allOnes 8

def clearIn (bytes : Bytes) (byte : Nat) (bits : List Nat) : Nat :=
  bits.countP fun bit => !bytes.bitAt (byte * 8 + bit)

def wordGives (bytes : Bytes) (scan word : Nat) : Nat :=
  match (notFull bytes word)[scan]? with
  | none => 0
  | some byte => clearIn bytes byte (List.range 8)

def gives (bmp : BlockBitmap) (scan : Nat) : Nat := ((List.range blkbmpWords).map (wordGives bmp.bytes scan)).sum

variable {bytes after : Bytes}

variable {byte bit want scan word : Nat} {bits rest words : List Nat}

theorem clearIn_congr (same : after byte = bytes byte) :
    clearIn after byte (List.range 8) = clearIn bytes byte (List.range 8) := by
  rw [clearIn, clearIn]
  apply countP_congr
  intro bit member
  have within := mem_range.1 member
  have place : (byte * 8 + bit) / 8 = byte := by omega
  rw [Bytes.bitAt, Bytes.bitAt, place, same]

theorem clearIn_pos (free : bytes byte ≠ BitVec.allOnes 8) : 0 < clearIn bytes byte (List.range 8) := by
  obtain ⟨bit, within, clear⟩ := Bytes.exists_clear free
  apply countP_pos_iff.2
  exact ⟨bit, mem_range.2 within, by rw [clear]; rfl⟩

theorem clearIn_cons_clear (clear : bytes.bitAt (byte * 8 + bit) = false) :
    clearIn bytes byte (bit :: bits) = clearIn bytes byte bits + 1 := by
  rw [clearIn, countP_cons, clear]
  rfl

theorem clearIn_cons_set (set : bytes.bitAt (byte * 8 + bit) = true) :
    clearIn bytes byte (bit :: bits) = clearIn bytes byte bits := by
  rw [clearIn, countP_cons, set]
  rfl

theorem clearIn_setBit (absent : bit ∉ bits) :
    clearIn (bytes.setBit (byte * 8 + bit)) byte bits = clearIn bytes byte bits := by
  apply countP_congr
  intro other member
  have different : byte * 8 + other ≠ byte * 8 + bit := fun same => absent (Nat.add_left_cancel same ▸ member)
  rw [Bytes.bitAt_setBit, decide_eq_false different, Bool.or_false]

theorem length_takeBits {byte want : Nat} {bits : List Nat} (some : 0 < want) (nodup : bits.Nodup) :
    (takeBits byte want bits bytes).1.length = min want (clearIn bytes byte bits) := by
  induction bits generalizing want bytes with
  | nil => exact (Nat.min_zero want).symm
  | cons bit bits ih =>
    obtain ⟨absent, distinct⟩ := nodup_cons.1 nodup
    rw [takeBits]
    dsimp only
    by_cases set : bytes.bitAt (byte * 8 + bit) = true
    · rw [if_pos set, ih some distinct, clearIn_cons_set set]
    · rw [if_neg set, clearIn_cons_clear (Bool.eq_false_iff.2 set)]
      by_cases last : want = 1
      · rw [if_pos last, last]
        exact (Nat.min_eq_left (Nat.le_add_left 1 _)).symm
      · rw [if_neg last, length_cons, ih (by omega) distinct, clearIn_setBit absent]
        omega

theorem full_takeBits {byte want : Nat} {bits : List Nat} (some : 0 < want) (nodup : bits.Nodup)
    (enough : clearIn bytes byte bits ≤ want) :
    ∀ bit ∈ bits, (takeBits byte want bits bytes).2.bitAt (byte * 8 + bit) = true := by
  induction bits generalizing want bytes with
  | nil => exact forall_mem_nil _
  | cons bit bits ih =>
    obtain ⟨absent, distinct⟩ := nodup_cons.1 nodup
    rw [takeBits]
    dsimp only
    by_cases set : bytes.bitAt (byte * 8 + bit) = true
    · rw [clearIn_cons_set set] at enough
      rw [if_pos set]
      refine forall_mem_cons.2 ⟨?_, ih some distinct enough⟩
      rw [(takeBits_takes some).1.takes.bits, set, Bool.true_or]
    · rw [clearIn_cons_clear (Bool.eq_false_iff.2 set)] at enough
      rw [if_neg set]
      have isSet : (bytes.setBit (byte * 8 + bit)).bitAt (byte * 8 + bit) = true := by
        rw [Bytes.bitAt_setBit, decide_eq_true rfl, Bool.or_true]
      by_cases last : want = 1
      · rw [if_pos last]
        refine forall_mem_cons.2 ⟨isSet, ?_⟩
        intro other member
        have none : clearIn bytes byte bits = 0 := by omega
        have full := countP_eq_zero.1 none other member
        rw [Bool.not_eq_true', Bool.not_eq_false] at full
        show (bytes.setBit (byte * 8 + bit)).bitAt (byte * 8 + other) = true
        rw [Bytes.bitAt_setBit, full, Bool.true_or]
      · have more : 0 < want - 1 := by omega
        rw [← clearIn_setBit absent] at enough
        rw [if_neg last]
        refine forall_mem_cons.2 ⟨?_, ih more distinct (by omega)⟩
        show (takeBits byte (want - 1) bits (bytes.setBit (byte * 8 + bit))).2.bitAt (byte * 8 + bit) = true
        rw [(takeBits_takes more).1.takes.bits, isSet, Bool.true_or]

theorem byte_eq (same : ∀ bit < 8, after.bitAt (byte * 8 + bit) = bytes.bitAt (byte * 8 + bit)) :
    after byte = bytes byte := by
  apply BitVec.eq_of_getLsbD_eq
  intro bit within
  have place : (byte * 8 + bit) / 8 = byte ∧ (byte * 8 + bit) % 8 = bit := by omega
  have bits := same bit within
  rw [Bytes.bitAt, Bytes.bitAt, place.1, place.2] at bits
  exact bits

theorem byte_full (full : ∀ bit < 8, bytes.bitAt (byte * 8 + bit) = true) : bytes byte = BitVec.allOnes 8 := by
  apply Decidable.byContradiction
  intro free
  obtain ⟨bit, within, clear⟩ := Bytes.exists_clear free
  exact Bool.false_ne_true (clear.symm.trans (full bit within))

theorem takeBits_beside {other : Nat} (some : 0 < want) (different : other ≠ byte) :
    (takeBits byte want (List.range 8) bytes).2 other = bytes other := by
  obtain ⟨takes, among, _⟩ := @takeBits_takes byte want (List.range 8) bytes some
  apply byte_eq
  intro bit within
  have absent : other * 8 + bit ∉ (takeBits byte want (List.range 8) bytes).1 := by
    intro member
    obtain ⟨place, small, same⟩ := among _ member
    have inByte := mem_range.1 small
    omega
  rw [takes.takes.bits, decide_eq_false absent, Bool.or_false]

/-! ### A word -/

theorem wordGives_congr (same : ∀ byte, byte / 8 = word → after byte = bytes byte)
    (small : word < blkbmpWords) : wordGives after scan word = wordGives bytes scan word := by
  have filtered : notFull after word = notFull bytes word := by
    apply filter_congr
    intro byte member
    rw [same byte (mem_wordBytes small member).1]
  rw [wordGives, wordGives, filtered]
  cases place : (notFull bytes word)[scan]? with
  | none => rfl
  | some byte =>
    have member := mem_of_mem_filter (mem_of_getElem? place)
    exact clearIn_congr (same byte (mem_wordBytes small member).1)

theorem notFull_of_gives (none : wordGives bytes 0 word = 0) : notFull bytes word = [] := by
  cases filtered : notFull bytes word with
  | nil => rfl
  | cons byte rest =>
    have member : byte ∈ notFull bytes word := by
      rw [filtered]
      exact mem_cons_self
    have free := of_decide_eq_true (mem_filter.1 member).2
    rw [wordGives, filtered] at none
    exact absurd none (Nat.ne_of_gt (clearIn_pos free))

theorem wordGives_of_full (full : notFull bytes word = []) : wordGives bytes scan word = 0 := by
  rw [wordGives, full]
  rfl

theorem freeByte_eq_head (bytes : Bytes) (word : Nat) : freeByte bytes blkbmpWords word =
    (notFull bytes word).head? := by
  rw [freeByte, notFull, List.head?_filter]

theorem wordGives_filled (first : notFull bytes word = byte :: rest)
    (full : after byte = BitVec.allOnes 8)
    (beside : ∀ other, other ≠ byte → after other = bytes other) :
    wordGives after scan word = wordGives bytes (scan + 1) word := by
  have distinct : (notFull bytes word).Nodup := (nodup_range' 1).filter _
  rw [first] at distinct
  obtain ⟨absent, _⟩ := nodup_cons.1 distinct
  have others : ∀ other ∈ rest, other ≠ byte := fun other member same => absent (same ▸ member)
  have filtered : notFull after word = rest := by
    have dropped : notFull after word = (notFull bytes word).filter (fun other => other ≠ byte) := by
      rw [notFull, notFull, filter_filter]
      apply filter_congr
      intro other _
      by_cases same : other = byte
      · rw [same, full]
        simp
      · rw [beside other same]
        simp [same]
    rw [dropped, first, filter_cons_of_neg (by simp), filter_eq_self]
    intro other member
    exact decide_eq_true (others other member)
  rw [wordGives, wordGives, filtered, first, List.getElem?_cons_succ]
  cases place : rest[scan]? with
  | none => rfl
  | some other => exact clearIn_congr (beside other (others other (mem_of_getElem? place)))

/-- What the words give, and what is left to the next scan. -/
structure Scans (bytes : Bytes) (want : Nat) (words : List Nat) (taken : List Nat) (after : Bytes) : Prop where
  length : taken.length = min want (words.map (wordGives bytes 0)).sum
  shifts : (words.map (wordGives bytes 0)).sum ≤ want →
    ∀ scan, ∀ word ∈ words, wordGives after scan word = wordGives bytes (scan + 1) word
  beside : ∀ byte, byte / 8 ∉ words → after byte = bytes byte

theorem Scans.nothing (none : want = 0) : Scans bytes want words [] bytes where
  length := by
    rw [none, Nat.zero_min]
    rfl
  shifts := by
    intro few scan word member
    have zero : wordGives bytes 0 word = 0 := by
      have all := List.sum_eq_zero_iff_forall_eq_nat.1 (Nat.le_zero.1 (none ▸ few))
      exact all _ (mem_map_of_mem member)
    have full := notFull_of_gives zero
    rw [wordGives_of_full full, wordGives_of_full full]
  beside _ _ := rfl

theorem Scans.skip {taken : List Nat} (full : notFull bytes word = [])
    (small : word < blkbmpWords) (absent : word ∉ words)
    (scans : Scans bytes want words taken after) :
    Scans bytes want (word :: words) taken after where
  length := by rw [scans.length, map_cons, sum_cons, wordGives_of_full full, Nat.zero_add]
  shifts := by
    rw [map_cons, sum_cons, wordGives_of_full full, Nat.zero_add]
    intro few scan
    refine forall_mem_cons.2 ⟨?_, scans.shifts few scan⟩
    rw [wordGives_congr (fun byte place => scans.beside byte (place ▸ absent)) small, wordGives_of_full full,
      wordGives_of_full full]
  beside byte outside := scans.beside byte fun member => outside (mem_cons_of_mem _ member)

theorem Scans.next {more : List Nat} (some : 0 < want)
    (first : notFull bytes word = byte :: rest)
    (small : ∀ other ∈ word :: words, other < blkbmpWords)
    (absent : word ∉ words)
    (scans : Scans (takeBits byte want (List.range 8) bytes).2
      (want - (takeBits byte want (List.range 8) bytes).1.length) words more after) :
    Scans bytes want (word :: words) ((takeBits byte want (List.range 8) bytes).1 ++ more) after := by
  have length := @length_takeBits bytes byte want (List.range 8) some nodup_range
  have full := @full_takeBits bytes byte want (List.range 8) some nodup_range
  have beside : ∀ other, other ≠ byte → (takeBits byte want (List.range 8) bytes).2 other = bytes other :=
    fun other different => takeBits_beside some different
  have inWord : byte / 8 = word := by
    have member : byte ∈ notFull bytes word := by
      rw [first]
      exact mem_cons_self
    exact (mem_wordBytes (small word mem_cons_self) (mem_of_mem_filter member)).1
  have head : wordGives bytes 0 word = clearIn bytes byte (List.range 8) := by
    rw [wordGives, first]
    rfl
  generalize takeBits byte want (List.range 8) bytes = result at *
  obtain ⟨taken, between⟩ := result
  dsimp only at *
  have others : ∀ scan, ∀ other ∈ words, wordGives between scan other = wordGives bytes scan other := by
    intro scan other member
    apply wordGives_congr _ (small other (mem_cons_of_mem _ member))
    intro pos place
    apply beside
    intro same
    rw [← place, same, inWord] at member
    exact absent member
  have sum : (words.map (wordGives between 0)).sum = (words.map (wordGives bytes 0)).sum :=
    congrArg List.sum (map_congr_left (others 0))
  refine ⟨?_, ?_, ?_⟩
  · have later := scans.length
    rw [sum] at later
    rw [length_append, map_cons, sum_cons, head]
    omega
  · intro few scan
    rw [map_cons, sum_cons, head] at few
    have filled : between byte = BitVec.allOnes 8 :=
      byte_full fun bit within => full (by omega) bit (mem_range.2 within)
    refine forall_mem_cons.2 ⟨?_, ?_⟩
    · rw [wordGives_congr (fun pos place => scans.beside pos (place ▸ absent)) (small word mem_cons_self)]
      exact wordGives_filled first filled beside
    · intro other member
      rw [scans.shifts (by omega) scan other member, others (scan + 1) other member]
  · intro pos outside
    rw [scans.beside pos fun member => outside (mem_cons_of_mem _ member)]
    apply beside
    intro same
    rw [same, inWord] at outside
    exact outside mem_cons_self

theorem scans_takeWords {want : Nat} {words : List Nat} (nodup : words.Nodup)
    (small : ∀ word ∈ words, word < blkbmpWords) :
    Scans bytes want words (takeWords want words bytes).1 (takeWords want words bytes).2 := by
  induction words generalizing want bytes with
  | nil => exact ⟨(Nat.min_zero want).symm, fun _ _ _ member => absurd member not_mem_nil, fun _ _ => rfl⟩
  | cons word words ih =>
    obtain ⟨absent, distinct⟩ := nodup_cons.1 nodup
    obtain ⟨head, tail⟩ := forall_mem_cons.1 small
    rw [takeWords]
    by_cases none : want = 0
    · rw [if_pos none]
      exact Scans.nothing none
    · rw [if_neg none, freeByte_eq_head]
      cases first : notFull bytes word with
      | nil => exact Scans.skip first head absent (ih distinct tail)
      | cons byte rest =>
        exact Scans.next (Nat.pos_of_ne_zero none) first small absent (ih distinct tail)

variable {bmp : BlockBitmap}

theorem gives_allocBlocks (wanted : 0 < want) (free : 0 < bmp.free) :
    (bmp.allocBlocks want).2.1.length = min want (bmp.gives 0) ∧
      (bmp.gives 0 ≤ want → ∀ scan, (bmp.allocBlocks want).2.2.gives scan = bmp.gives (scan + 1)) := by
  have scans := @scans_takeWords bmp.bytes want (List.range blkbmpWords) nodup_range
    (fun word member => mem_range.1 member)
  rw [BlockBitmap.allocBlocks, if_neg (Nat.ne_of_gt wanted), if_neg (Nat.ne_of_gt free)]
  generalize takeWords want (List.range blkbmpWords) bmp.bytes = result at *
  obtain ⟨taken, bytes⟩ := result
  dsimp only at *
  have shifts : bmp.gives 0 ≤ want → ∀ scan, ((List.range blkbmpWords).map (wordGives bytes scan)).sum = bmp.gives (scan + 1) :=
    fun few scan => congrArg List.sum (map_congr_left (scans.shifts few scan))
  split
  · exact ⟨scans.length, shifts⟩
  · exact ⟨scans.length, shifts⟩

theorem Counted.gives_le (counted : bmp.Counted) : bmp.gives 0 ≤ bmp.free := by
  have small : ∀ word ∈ List.range blkbmpWords, word < blkbmpWords := fun word member => mem_range.1 member
  have scans := @scans_takeWords bmp.bytes (bmp.gives 0) (List.range blkbmpWords) nodup_range small
  obtain ⟨takes, below, _⟩ := @takeWords_takes (bmp.gives 0) (List.range blkbmpWords) bmp.bytes small
  obtain ⟨_, few, _⟩ := counted.take takes.takes below
  have length : _ = min (bmp.gives 0) (bmp.gives 0) := scans.length
  rw [Nat.min_self] at length
  rw [← length]
  exact few

theorem gives_of_none (none : bmp.gives 0 = 0) (scan : Nat) : bmp.gives scan = 0 := by
  have words := List.sum_eq_zero_iff_forall_eq_nat.1 none
  apply List.sum_eq_zero_iff_forall_eq_nat.2
  intro count member
  obtain ⟨word, among, same⟩ := mem_map.1 member
  rw [← same]
  exact wordGives_of_full (notFull_of_gives (words _ (mem_map_of_mem among)))

theorem gives_le_words (bmp : BlockBitmap) (scan : Nat) : bmp.gives scan ≤ 8 * blkbmpWords := by
  have byte : ∀ word, wordGives bmp.bytes scan word ≤ 8 := by
    intro word
    rw [wordGives]
    split
    · exact Nat.zero_le _
    · exact countP_le_length
  have bound := sum_le_card_nsmul ((List.range blkbmpWords).map (wordGives bmp.bytes scan)) 8 (by
    intro count member
    obtain ⟨word, _, same⟩ := mem_map.1 member
    rw [← same]
    exact byte word)
  rw [length_map, length_range, Nat.nsmul_eq_mul, Nat.mul_comm] at bound
  exact bound

end BlockBitmap

end RpcFrmwrk.Registry
