import Mathlib.Data.List.Forall2
import RpcFrmwrk.Combase.StlCont

/-! What becomes of the containers that are written and read again. Owns the layout of every
container, the same on machines of either byte order; `StlObj.RoundTrips`, and exactly which objects
do. -/

namespace RpcFrmwrk.Combase

open RpcFrmwrk.Library List

def netHeader (clsid size count : Nat) : List UInt8 :=
  toBE 4 clsid ++ toBE 4 size ++ [1, 0, 0, 0] ++ toBE 4 count

@[simp] theorem length_netHeader (clsid size count : Nat) :
    (netHeader clsid size count).length = stlHeaderSize := by
  simp only [netHeader, length_append, length_toBE, length_cons, length_nil]
  rfl

namespace StlHeader

variable (order : ByteOrder)

theorem bytes_swap (clsid size count : Nat) :
    ((⟨clsid, size, 1, count⟩ : StlHeader).swap order).bytes order = netHeader clsid size count := by
  simp only [swap, bytes, ByteOrder.store_swap]
  rfl

theorem swap_read {clsid size count : Nat} (clsid_lt : clsid < 256 ^ 4) (size_lt : size < 256 ^ 4)
    (count_lt : count < 256 ^ 4) (rest : List UInt8) :
    (read order (netHeader clsid size count ++ rest)).swap order = ⟨clsid, size, 1, count⟩ := by
  have split : netHeader clsid size count ++ rest =
      toBE 4 clsid ++ (toBE 4 size ++ ([1, 0, 0, 0] ++ (toBE 4 count ++ rest))) := by
    simp only [netHeader, append_assoc]
  have word (value : Nat) (tail : List UInt8) (fits : value < 256 ^ 4) :
      order.swap 4 (order.load ((toBE 4 value ++ tail).take 4)) = value := by
    rw [take_left' (length_toBE 4 value), order.swap_load (length_toBE 4 value)]
    exact ofBE_toBE_of_lt fits
  have behind : (netHeader clsid size count ++ rest).drop 4 =
      toBE 4 size ++ ([1, 0, 0, 0] ++ (toBE 4 count ++ rest)) := by
    rw [split, drop_left' (length_toBE 4 clsid)]
  have version : (netHeader clsid size count ++ rest).drop 8 = [1, 0, 0, 0] ++ (toBE 4 count ++ rest) := by
    rw [show 8 = 4 + 4 from rfl, ← drop_drop, behind, drop_left' (length_toBE 4 size)]
  have last : (netHeader clsid size count ++ rest).drop 12 = toBE 4 count ++ rest := by
    rw [show 12 = 8 + 4 from rfl, ← drop_drop, version]
    rfl
  have first : order.swap 4 (order.load ((netHeader clsid size count ++ rest).take 4)) = clsid := by
    rw [split]
    exact word clsid _ clsid_lt
  simp only [read, swap, behind, version, last, first, word size _ size_lt, word count _ count_lt]
  rfl

end StlHeader

namespace WordClass

variable (order : ByteOrder) (cls : WordClass)

def wire (elems : List cls.Word) : List UInt8 :=
  netHeader cls.clsid (cls.width * elems.length + headerNbSize) elems.length ++
    elems.flatMap fun elem => toBE cls.width (cls.toNat elem)

theorem length_flatMap (elems : List cls.Word) :
    (elems.flatMap fun elem => toBE cls.width (cls.toNat elem)).length = cls.width * elems.length := by
  induction elems with
  | nil => rfl
  | cons elem elems ih =>
    rw [flatMap_cons, length_append, length_toBE, ih, length_cons, Nat.mul_succ, Nat.add_comm]

theorem length_wire (elems : List cls.Word) :
    (cls.wire elems).length = stlHeaderSize + cls.width * elems.length := by
  rw [wire, length_append, length_netHeader, length_flatMap]

theorem serialize_eq_some {elems : List cls.Word} {bytes : List UInt8} :
    cls.serialize order elems = some (.ok bytes) ↔
      stlHeaderSize + cls.width * elems.length ≤ maxBytesPerBuffer ∧ bytes = cls.wire elems := by
  have positive := cls.width_pos
  have many : elems.length ≤ cls.width * elems.length := Nat.le_mul_of_pos_left _ positive
  unfold serialize
  by_cases outside : maxBytesPerBuffer < (stlHeaderSize + cls.width * elems.length % 2 ^ 32) % 2 ^ 32 ∨
      (stlHeaderSize + cls.width * elems.length % 2 ^ 32) % 2 ^ 32 < stlHeaderSize + cls.width * elems.length
  · rw [if_pos outside]
    refine ⟨fun never => ?_, fun ⟨fits, _⟩ => ?_⟩
    · cases never
    · unfold maxBytesPerBuffer stlHeaderSize at fits outside
      omega
  · rw [if_neg outside]
    unfold maxBytesPerBuffer stlHeaderSize at outside
    have fits : stlHeaderSize + cls.width * elems.length ≤ maxBytesPerBuffer := by
      unfold maxBytesPerBuffer stlHeaderSize
      omega
    have size : cls.width * elems.length % 2 ^ 32 = cls.width * elems.length := by omega
    have whole : (cls.width * elems.length + headerNbSize) % 2 ^ 32 =
        cls.width * elems.length + headerNbSize := by
      unfold headerNbSize stlHeaderSize seriHeaderBase
      omega
    have count : elems.length % 2 ^ 32 = elems.length := by omega
    rw [size, whole, count, StlHeader.bytes_swap]
    simp only [ByteOrder.store_swap]
    refine ⟨fun same => ⟨fits, ?_⟩, fun ⟨_, same⟩ => ?_⟩
    · exact (Except.ok.inj (Option.some_inj.1 same)).symm
    · rw [same]
      rfl

theorem readWords_flatMap (elems : List cls.Word) (rest : List UInt8) :
    cls.readWords order elems.length ((elems.flatMap fun elem => toBE cls.width (cls.toNat elem)) ++ rest) =
      elems := by
  induction elems with
  | nil => rfl
  | cons elem elems ih =>
    have length := length_toBE cls.width (cls.toNat elem)
    rw [flatMap_cons, append_assoc, length_cons, readWords, take_left' length,
      drop_left' length, order.swap_load length, ofBE_toBE_of_lt (cls.toNat_lt elem),
      cls.ofNat_toNat, ih]

theorem deserialize_wire {elems : List cls.Word}
    (fits : stlHeaderSize + cls.width * elems.length ≤ maxBytesPerBuffer) (rest : List UInt8) :
    cls.deserialize order (cls.wire elems ++ rest) = some (.ok elems) := by
  have positive := cls.width_pos
  have many : elems.length ≤ cls.width * elems.length := Nat.le_mul_of_pos_left _ positive
  have length : (cls.wire elems ++ rest).length = stlHeaderSize + cls.width * elems.length + rest.length := by
    rw [length_append, length_wire]
  have header : (StlHeader.read order (cls.wire elems ++ rest)).swap order =
      ⟨cls.clsid, cls.width * elems.length + headerNbSize, 1, elems.length⟩ := by
    rw [wire, append_assoc]
    apply StlHeader.swap_read order cls.clsid_lt
    · unfold maxBytesPerBuffer stlHeaderSize at fits
      unfold headerNbSize stlHeaderSize seriHeaderBase
      omega
    · unfold maxBytesPerBuffer stlHeaderSize at fits
      omega
  have size : sub32 (cls.width * elems.length + headerNbSize) headerNbSize = cls.width * elems.length := by
    rw [sub32_of_le (Nat.le_add_left _ _), Nat.add_sub_cancel]
    unfold maxBytesPerBuffer stlHeaderSize at fits
    unfold headerNbSize stlHeaderSize seriHeaderBase
    omega
  have small : ¬ bufMaxSize < cls.width * elems.length + headerNbSize := by
    unfold maxBytesPerBuffer stlHeaderSize at fits
    unfold bufMaxSize headerNbSize stlHeaderSize seriHeaderBase
    omega
  unfold deserialize
  rw [if_neg (by omega), header]
  simp only
  rw [if_neg (not_not.2 rfl), if_neg small, size, Nat.mul_div_cancel_left _ positive,
    if_neg (not_not.2 rfl), if_neg (by omega), if_neg (not_not.2 rfl), wire, append_assoc,
    drop_left' (length_netHeader _ _ _), readWords_flatMap]

end WordClass

theorem IntMap.deserialize_serialized {order : ByteOrder} {map : IntMap} {bytes : List UInt8}
    (written : map.serialize order = some (.ok bytes)) (rest : List UInt8) :
    IntMap.deserialize order (bytes ++ rest) = some (.error .enotsup) := by
  unfold IntMap.serialize at written
  simp only at written
  split at written
  · cases written
  · have same := Except.ok.inj (Option.some_inj.1 written)
    rw [StlHeader.bytes_swap] at same
    subst same
    have size_lt : (8 * map.entries.length % 2 ^ 32 + headerNbSize) % 2 ^ 32 < 256 ^ 4 := by omega
    have count_lt : map.entries.length % 2 ^ 32 < 256 ^ 4 := by omega
    unfold IntMap.deserialize
    rw [append_assoc, StlHeader.swap_read order (by decide) size_lt count_lt,
      if_neg (by simp only [length_append, length_netHeader]; omega)]
    exact if_pos (show clsidCStlIntMap ≠ clsidCStlIntVector by decide)

namespace StrVector

variable (order : ByteOrder)
variable {elems : List (List UInt8)}

def payload (elems : List (List UInt8)) : Nat := (elems.map fun elem => elem.length + 4).sum

def wire (elems : List (List UInt8)) : List UInt8 :=
  netHeader clsidCStlStrVector (payload elems + headerNbSize) elems.length ++
    elems.flatMap fun elem => toBE 4 elem.length ++ elem

theorem payload_cons (elem : List UInt8) (elems : List (List UInt8)) :
    payload (elem :: elems) = elem.length + 4 + payload elems := by
  rw [payload, map_cons, sum_cons]
  rfl

theorem length_flatMap (elems : List (List UInt8)) :
    (elems.flatMap fun elem => toBE 4 elem.length ++ elem).length = payload elems := by
  induction elems with
  | nil => rfl
  | cons elem elems ih =>
    rw [flatMap_cons, length_append, length_append, length_toBE, ih, payload_cons, Nat.add_comm 4]

theorem length_wire (elems : List (List UInt8)) : (wire elems).length = stlHeaderSize + payload elems := by
  rw [wire, length_append, length_netHeader, length_flatMap]

theorem length_le_payload (elems : List (List UInt8)) : 4 * elems.length ≤ payload elems := by
  induction elems with
  | nil => exact Nat.le_refl 0
  | cons elem elems ih =>
    rw [payload_cons, length_cons]
    omega

theorem flatMap_store (fits : payload elems < 2 ^ 32) :
    (elems.flatMap fun elem => order.store 4 (order.swap 4 (elem.length % 2 ^ 32)) ++ elem) =
      elems.flatMap fun elem => toBE 4 elem.length ++ elem := by
  induction elems with
  | nil => rfl
  | cons elem elems ih =>
    rw [payload_cons] at fits
    rw [flatMap_cons, flatMap_cons, ih (by omega), ByteOrder.store_swap, Nat.mod_eq_of_lt (by omega)]

theorem serialize_eq_some {bytes : List UInt8} :
    serialize order elems = some (.ok bytes) ↔
      stlHeaderSize + payload elems ≤ maxBytesPerBuffer ∧ bytes = wire elems := by
  have many := length_le_payload elems
  have header : (seriHeaderBase + (payload elems % 2 ^ 32 + headerNbSize) % 2 ^ 32) % 2 ^ 32 =
      (stlHeaderSize + payload elems) % 2 ^ 32 := by
    unfold seriHeaderBase headerNbSize stlHeaderSize seriHeaderBase
    omega
  unfold serialize
  rw [← payload]
  simp only
  rw [header]
  by_cases outside : maxBytesPerBuffer < (stlHeaderSize + payload elems) % 2 ^ 32 ∨
      (stlHeaderSize + payload elems) % 2 ^ 32 < stlHeaderSize + payload elems
  · rw [if_pos outside]
    refine ⟨fun never => ?_, fun ⟨fits, _⟩ => ?_⟩
    · cases never
    · unfold maxBytesPerBuffer stlHeaderSize at fits outside
      omega
  · rw [if_neg outside]
    unfold maxBytesPerBuffer stlHeaderSize at outside
    have fits : stlHeaderSize + payload elems ≤ maxBytesPerBuffer := by
      unfold maxBytesPerBuffer stlHeaderSize
      omega
    have whole : (payload elems % 2 ^ 32 + headerNbSize) % 2 ^ 32 = payload elems + headerNbSize := by
      unfold headerNbSize stlHeaderSize seriHeaderBase
      omega
    have count : elems.length % 2 ^ 32 = elems.length := by omega
    rw [whole, count, StlHeader.bytes_swap, flatMap_store order (by omega)]
    refine ⟨fun same => ⟨fits, ?_⟩, fun ⟨_, same⟩ => ?_⟩
    · exact (Except.ok.inj (Option.some_inj.1 same)).symm
    · rw [same]
      rfl

theorem readStrs_flatMap (fits : payload elems < 2 ^ 32) (rest : List UInt8) :
    ∀ done, readStrs order elems.length ((elems.flatMap fun elem => toBE 4 elem.length ++ elem) ++ rest) done =
      some (.ok (done ++ elems)) := by
  induction elems with
  | nil => exact fun done => by rw [append_nil]; rfl
  | cons elem elems ih =>
    intro done
    rw [payload_cons] at fits
    have length : (toBE 4 elem.length).length = 4 := length_toBE 4 elem.length
    have split : ((elem :: elems).flatMap fun elem => toBE 4 elem.length ++ elem) ++ rest =
        toBE 4 elem.length ++ (elem ++ ((elems.flatMap fun elem => toBE 4 elem.length ++ elem) ++ rest)) := by
      simp only [flatMap_cons, append_assoc]
    have bytes : order.swap 4 (order.load (toBE 4 elem.length)) = elem.length := by
      rw [order.swap_load length]
      exact ofBE_toBE_of_lt (by omega)
    rw [split]
    generalize tail : (elems.flatMap fun elem => toBE 4 elem.length ++ elem) ++ rest = behind
    rw [tail] at ih
    obtain ⟨first, more, front⟩ : ∃ first more, toBE 4 elem.length ++ (elem ++ behind) = first :: more := by
      exact ⟨_, _, rfl⟩
    rw [length_cons, front, readStrs, ← front]
    rw [if_neg (by rw [length_append, length]; omega), take_left' length,
      drop_left' length, bytes, if_neg (by rw [length_append]; omega), drop_left,
      take_left, ih (by omega), append_assoc]
    rfl

theorem deserialize_wire
    (fits : stlHeaderSize + payload elems ≤ maxBytesPerBuffer) (rest : List UInt8) :
    deserialize order (wire elems ++ rest) = some (.ok elems) := by
  have many := length_le_payload elems
  have length : (wire elems ++ rest).length = stlHeaderSize + payload elems + rest.length := by
    rw [length_append, length_wire]
  unfold maxBytesPerBuffer stlHeaderSize at fits
  have header : (StlHeader.read order (wire elems ++ rest)).swap order =
      ⟨clsidCStlStrVector, payload elems + headerNbSize, 1, elems.length⟩ := by
    rw [wire, append_assoc]
    apply StlHeader.swap_read order (by decide)
    · unfold headerNbSize stlHeaderSize seriHeaderBase
      omega
    · omega
  have small : ¬ bufMaxSize < payload elems + headerNbSize := by
    unfold bufMaxSize headerNbSize stlHeaderSize seriHeaderBase
    omega
  unfold deserialize
  rw [if_neg (by omega), header]
  rw [if_neg (not_not.2 rfl), if_neg small, wire, append_assoc,
    drop_left' (length_netHeader _ _ _), readStrs_flatMap order (by omega)]
  exact if_neg (not_not.2 rfl)

end StrVector

namespace ObjVector

def padded (obj : List UInt8) : List UInt8 := obj ++ List.replicate (padding obj.length) 0

def payload (objs : List (List UInt8)) : List UInt8 := objs.flatMap padded

def offsetsFrom (dwPos : Nat) : List (List UInt8) → List Nat
  | [] => [dwPos]
  | obj :: objs => dwPos :: offsetsFrom (dwPos + (padded obj).length) objs

def base (count : Nat) : Nat := stlHeaderSize + 4 * (count + 1)

def wire (objs : List (List UInt8)) : List UInt8 :=
  netHeader clsidCStlObjVector (base objs.length + (payload objs).length - seriHeaderBase) (objs.length + 1) ++
    (offsetsFrom 0 objs).flatMap (toBE 4) ++ payload objs

def written (objs : List (List UInt8)) : List (Option (Ran (List UInt8))) :=
  objs.map fun obj => some (some (.ok obj))

theorem padding_lt (pos : Nat) : padding pos < 4 := by
  unfold padding
  split <;> omega

theorem length_padded (obj : List UInt8) : (padded obj).length = obj.length + padding obj.length := by
  rw [padded, length_append, length_replicate]

theorem length_padded_mod (obj : List UInt8) : (padded obj).length % 4 = 0 := by
  rw [length_padded]
  unfold padding
  split <;> omega

theorem padding_add {pos : Nat} (aligned : pos % 4 = 0) (length : Nat) :
    padding (pos + length) = padding length := by
  unfold padding
  have same : (pos + length) % 4 = length % 4 := by omega
  rw [same]

theorem payload_cons (obj : List UInt8) (objs : List (List UInt8)) :
    payload (obj :: objs) = padded obj ++ payload objs := flatMap_cons

theorem length_offsetsFrom (dwPos : Nat) (objs : List (List UInt8)) :
    (offsetsFrom dwPos objs).length = objs.length + 1 := by
  induction objs generalizing dwPos with
  | nil => rfl
  | cons obj objs ih => rw [offsetsFrom, length_cons, ih, length_cons]

/-- The loop comes to its end exactly when every object is written and there is room for all of them. -/
theorem appendObjs_eq_some {front : Nat} {results : List (Option (Ran (List UInt8)))}
    {before after : List UInt8} {offsets all : List Nat}
    (aligned : before.length % 4 = 0) (frontAligned : front % 4 = 0) :
    appendObjs front results before before.length offsets = some (.ok (after, all)) ↔
      ∃ objs, results = written objs ∧ (∀ obj ∈ objs, obj ≠ []) ∧
        (objs ≠ [] → front + before.length + (payload objs).length ≤ maxBytesPerBuffer) ∧
        after = before ++ payload objs ∧ all = offsets ++ offsetsFrom before.length objs := by
  induction results generalizing before offsets with
  | nil =>
    rw [appendObjs, Option.some_inj, Except.ok.injEq, Prod.mk.injEq]
    constructor
    · rintro ⟨rfl, rfl⟩
      exact ⟨[], rfl, forall_mem_nil _, fun never => absurd rfl never, (append_nil before).symm, rfl⟩
    · rintro ⟨objs, same, _, _, rfl, rfl⟩
      cases objs with
      | nil => exact ⟨(append_nil before).symm, rfl⟩
      | cons _ _ => cases same
  | cons result results ih =>
    match result with
    | none =>
      refine ⟨fun never => ?_, fun ⟨objs, same, _⟩ => ?_⟩
      · cases never
      · cases objs <;> cases same
    | some none =>
      refine ⟨fun never => ?_, fun ⟨objs, same, _⟩ => ?_⟩
      · cases never
      · cases objs <;> cases same
    | some (some (.error _)) =>
      refine ⟨fun never => ?_, fun ⟨objs, same, _⟩ => ?_⟩
      · cases never
      · cases objs <;> cases same
    | some (some (.ok obj)) =>
      have grown : (before ++ padded obj).length = before.length + obj.length + padding obj.length := by
        rw [length_append, length_padded, Nat.add_assoc]
      have kept : (before ++ padded obj).length % 4 = 0 := by
        have aligned' := length_padded_mod obj
        rw [length_append]
        omega
      rw [appendObjs]
      by_cases empty : obj.length = 0 ∨ bufMaxSize < obj.length
      · rw [if_pos empty]
        refine ⟨fun never => ?_, fun ⟨objs, same, nonempty, room, _⟩ => ?_⟩
        · cases never
        · cases objs with
          | nil => cases same
          | cons other objs =>
            cases same
            have some := length_pos_of_ne_nil (nonempty obj mem_cons_self)
            have total := room (cons_ne_nil obj objs)
            rw [payload_cons, length_append, length_padded] at total
            unfold bufMaxSize at empty
            unfold maxBytesPerBuffer at total
            omega
      · rw [if_neg empty]
        by_cases full : maxBytesPerBuffer < front + before.length + obj.length
        · rw [if_pos full]
          refine ⟨fun never => ?_, fun ⟨objs, same, _, room, _⟩ => ?_⟩
          · cases never
          · cases objs with
            | nil => cases same
            | cons other objs =>
              cases same
              have total := room (cons_ne_nil obj objs)
              rw [payload_cons, length_append, length_padded] at total
              omega
        · -- Behind a whole number of words there is room for the padding.
          have room : front + (before ++ obj).length + padding (before.length + obj.length) ≤
              maxBytesPerBuffer := by
            rw [padding_add aligned, length_append]
            have whole := length_padded_mod obj
            rw [length_padded] at whole
            unfold maxBytesPerBuffer at full ⊢
            have small := padding_lt obj.length
            omega
          rw [if_neg full]
          simp only
          rw [if_pos room, padding_add aligned, append_assoc, ← padded, ← grown, ih kept]
          constructor
          · rintro ⟨objs, rfl, nonempty, room', rfl, rfl⟩
            refine ⟨obj :: objs, rfl, ?_, ?_, ?_, ?_⟩
            · intro other member
              rcases mem_cons.1 member with rfl | old
              · exact ne_nil_of_length_pos (by omega)
              · exact nonempty other old
            · intro _
              cases objs with
              | nil =>
                rw [payload_cons, length_append]
                rw [padding_add aligned, length_append] at room
                rw [length_padded]
                simp only [payload, flatMap_nil, length_nil]
                omega
              | cons next objs =>
                have total := room' (cons_ne_nil next objs)
                rw [payload_cons, length_append]
                rw [length_append] at total
                omega
            · rw [payload_cons, append_assoc]
            · rw [offsetsFrom, append_assoc, length_append]
              rfl
          · rintro ⟨objs, same, nonempty, room', rfl, rfl⟩
            cases objs with
            | nil => cases same
            | cons other objs =>
              cases same
              refine ⟨objs, rfl, fun one member => nonempty one (mem_cons_of_mem obj member), ?_, ?_, ?_⟩
              · intro _
                have total := room' (cons_ne_nil obj objs)
                rw [payload_cons, length_append] at total
                rw [length_append]
                omega
              · rw [payload_cons, append_assoc]
              · rw [offsetsFrom, append_assoc, length_append]
                rfl

theorem written_inj {left right : List (List UInt8)} (same : written left = written right) : left = right :=
  map_injective_iff.2 (fun _ _ equal => Except.ok.inj (Option.some_inj.1 (Option.some_inj.1 equal))) same

theorem length_written (objs : List (List UInt8)) : (written objs).length = objs.length :=
  length_map _

/-- A vector is written exactly when every object is and there is room. On a big-endian machine it does not
matter that `hton` leaves a header with too many offsets alone. -/
theorem serialize_eq_some {order : ByteOrder} {results : List (Option (Ran (List UInt8)))}
    (swaps : order = .big ∨ results.length < maxElemContainer) {bytes : List UInt8} :
    serialize order results = some (.ok bytes) ↔
      ∃ objs, results = written objs ∧ (∀ obj ∈ objs, obj ≠ []) ∧
        base objs.length + (payload objs).length ≤ maxBytesPerBuffer ∧ bytes = wire objs := by
  have aligned : base results.length % 4 = 0 := by
    unfold base stlHeaderSize
    omega
  have loop {after : List UInt8} {offsets : List Nat} :=
    @appendObjs_eq_some (base results.length) results [] after [] offsets rfl aligned
  have header (objs : List (List UInt8)) (offsets : List Nat) (same : results = written objs) (after : List UInt8) :
      (if maxElemContainer < results.length + 1 then
          some (.ok ((⟨clsidCStlObjVector, base results.length + after.length - seriHeaderBase, 1,
            results.length + 1⟩ : StlHeader).bytes order ++ offsets.flatMap (order.store 4) ++ after))
        else
          some (.ok (((⟨clsidCStlObjVector, base results.length + after.length - seriHeaderBase, 1,
            results.length + 1⟩ : StlHeader).swap order).bytes order ++
            offsets.flatMap (fun offset => order.store 4 (order.swap 4 offset)) ++ after)) : Ran (List UInt8)) =
      some (.ok (netHeader clsidCStlObjVector (base objs.length + after.length - seriHeaderBase) (objs.length + 1) ++
        offsets.flatMap (toBE 4) ++ after)) := by
    have count : results.length = objs.length := by rw [same, length_written]
    rw [count]
    by_cases many : maxElemContainer < objs.length + 1
    · have big : order = .big := swaps.resolve_right (by omega)
      subst big
      rw [if_pos many]
      rfl
    · rw [if_neg many, StlHeader.bytes_swap]
      simp only [ByteOrder.store_swap]
  unfold serialize
  simp only
  rw [← base]
  by_cases outside : maxBytesPerBuffer < base results.length % 2 ^ 32 ∨
      base results.length % 2 ^ 32 < base results.length
  · rw [if_pos outside]
    refine ⟨fun never => ?_, fun ⟨objs, same, _, room, _⟩ => ?_⟩
    · cases never
    · rw [same, length_written] at outside
      unfold maxBytesPerBuffer at outside room
      omega
  · rw [if_neg outside]
    unfold maxBytesPerBuffer at outside
    constructor
    · intro ran
      cases result : appendObjs (base results.length) results [] 0 [] with
      | none =>
        rw [result] at ran
        cases ran
      | some result' =>
        match result' with
        | .error ret =>
          rw [result] at ran
          cases ran
        | .ok (after, offsets) =>
          obtain ⟨objs, same, nonempty, room, rfl, rfl⟩ := loop.1 result
          rw [result] at ran
          simp only at ran
          rw [header objs _ same] at ran
          refine ⟨objs, same, nonempty, ?_, (Except.ok.inj (Option.some_inj.1 ran)).symm⟩
          rw [same, length_written] at room outside
          cases objs with
          | nil =>
            unfold maxBytesPerBuffer
            simp only [payload, flatMap_nil, length_nil] at outside ⊢
            omega
          | cons obj objs => exact room (cons_ne_nil obj objs)
    · rintro ⟨objs, same, nonempty, room, rfl⟩
      have result : appendObjs (base results.length) results [] 0 [] =
          some (.ok (payload objs, offsetsFrom 0 objs)) := by
        refine loop.2 ⟨objs, same, nonempty, fun _ => ?_, rfl, rfl⟩
        rw [same, length_written]
        exact room
      rw [result]
      simp only
      rw [header objs _ same]
      rfl

theorem length_flatMap_toBE (values : List Nat) : (values.flatMap (toBE 4)).length = 4 * values.length := by
  induction values with
  | nil => rfl
  | cons value values ih =>
    rw [flatMap_cons, length_append, length_toBE, ih, length_cons]
    omega

theorem length_wire (objs : List (List UInt8)) :
    (wire objs).length = base objs.length + (payload objs).length := by
  simp only [wire, length_append, length_netHeader, length_flatMap_toBE, length_offsetsFrom]
  rfl

theorem readOffsets_flatMap (order : ByteOrder) {offsets : List Nat}
    (fits : ∀ offset ∈ offsets, offset < 256 ^ 4)
    (rest : List UInt8) : readOffsets order offsets.length
    (offsets.flatMap (toBE 4) ++ rest) = offsets := by
  induction offsets with
  | nil => rfl
  | cons offset offsets ih =>
    have length := length_toBE 4 offset
    rw [flatMap_cons, append_assoc, length_cons, readOffsets, take_left' length,
      drop_left' length, order.swap_load length, ofBE_toBE_of_lt (fits offset mem_cons_self),
      ih fun other member => fits other (mem_cons_of_mem offset member)]

theorem offsetsFrom_le {dwPos : Nat} {objs : List (List UInt8)} :
    ∀ offset ∈ offsetsFrom dwPos objs, offset ≤ dwPos + (payload objs).length := by
  induction objs generalizing dwPos with
  | nil =>
    intro offset member
    rw [mem_singleton.1 member]
    exact Nat.le_add_right _ _
  | cons obj objs ih =>
    intro offset member
    rw [payload_cons, length_append]
    rcases mem_cons.1 member with rfl | later
    · exact Nat.le_add_right _ _
    · have bound := ih offset later
      omega

theorem length_le_payload {obj : List UInt8} {objs : List (List UInt8)} (member : obj ∈ objs) :
    obj.length ≤ (payload objs).length := by
  induction objs with
  | nil => exact absurd member not_mem_nil
  | cons first objs ih =>
    rw [payload_cons, length_append, length_padded]
    rcases mem_cons.1 member with rfl | later
    · omega
    · have part := ih later
      omega

def Made {Obj : Type} (newObj : Nat → List UInt8 → Ran Obj) (bytes : List UInt8) (obj : Obj) : Prop :=
  newObj (ofBE (bytes.take 4)) (padded bytes) = some (.ok obj)

section

variable {Obj : Type} {newObj : Nat → List UInt8 → Ran Obj} {order : ByteOrder}

theorem readObjs_eq_some {objs : List (List UInt8)} (long : ∀ obj ∈ objs, 4 ≤ obj.length)
    {before rest : List UInt8} {start dwPos : Nat} (place : before.length = start + dwPos)
    (small : dwPos + (payload objs).length < 2 ^ 32) {done result : List Obj} :
    readObjs order newObj (before ++ (payload objs ++ rest)) start (offsetsFrom dwPos objs) done =
        some (.ok result) ↔
      ∃ made, result = done ++ made ∧ List.Forall₂ (Made newObj) objs made := by
  induction objs generalizing before dwPos done with
  | nil =>
    show some (Except.ok done) = some (Except.ok result) ↔ _
    rw [Option.some_inj, Except.ok.injEq]
    constructor
    · rintro rfl
      exact ⟨[], (append_nil done).symm, .nil⟩
    · rintro ⟨made, rfl, all⟩
      cases all
      exact (append_nil done).symm
  | cons obj objs ih =>
    rw [payload_cons, length_append] at small
    have least : 4 ≤ obj.length := long obj mem_cons_self
    obtain ⟨later, offsets⟩ : ∃ later, offsetsFrom dwPos (obj :: objs) =
        dwPos :: (dwPos + (padded obj).length) :: later ∧
        offsetsFrom (dwPos + (padded obj).length) objs = (dwPos + (padded obj).length) :: later := by
      cases objs with
      | nil => exact ⟨[], rfl, rfl⟩
      | cons next objs => exact ⟨_, rfl, rfl⟩
    have window : sub32 (dwPos + (padded obj).length) dwPos = (padded obj).length := by
      rw [sub32_of_le (Nat.le_add_right _ _) (by omega), Nat.add_sub_cancel_left]
    have total : (before ++ (payload (obj :: objs) ++ rest)).length =
        start + dwPos + (padded obj).length + (payload objs).length + rest.length := by
      rw [payload_cons]
      simp only [length_append, place]
      omega
    have front : (before ++ (payload (obj :: objs) ++ rest)).drop (start + dwPos) =
        padded obj ++ (payload objs ++ rest) := by
      rw [payload_cons, append_assoc, drop_left' place]
    have size := length_padded obj
    have clsid : (padded obj ++ (payload objs ++ rest)).take 4 = obj.take 4 := by
      rw [padded, append_assoc, take_append_of_le_length least]
    have bytes : order.swap 4 (order.load (obj.take 4)) = ofBE (obj.take 4) :=
      order.swap_load (by rw [length_take, Nat.min_eq_left least])
    rw [offsets.1, readObjs]
    simp only
    rw [if_neg (by omega), window, if_neg (by omega), front, clsid, bytes, take_left]
    have again : before ++ (payload (obj :: objs) ++ rest) =
        (before ++ padded obj) ++ (payload objs ++ rest) := by
      rw [payload_cons]
      simp only [append_assoc]
    have step (one : Obj) :=
      @ih (fun other member => long other (mem_cons_of_mem obj member))
        (before ++ padded obj) (dwPos + (padded obj).length)
        (by rw [length_append, place, Nat.add_assoc]) (by omega) (done ++ [one])
    rw [again, ← offsets.2]
    cases ran : newObj (ofBE (obj.take 4)) (padded obj) with
    | none =>
      refine ⟨fun never => ?_, fun ⟨made, _, all⟩ => ?_⟩
      · cases never
      · cases all with
        | cons first _ =>
          rw [Made, ran] at first
          cases first
    | some outcome =>
      cases outcome with
      | error ret =>
        refine ⟨fun never => ?_, fun ⟨made, _, all⟩ => ?_⟩
        · cases never
        · cases all with
          | cons first _ =>
            rw [Made, ran] at first
            cases first
      | ok one =>
        refine (step one).trans ?_
        constructor
        · rintro ⟨made, rfl, all⟩
          exact ⟨one :: made, append_assoc _ _ _, .cons ran all⟩
        · rintro ⟨made, rfl, all⟩
          cases all with
          | @cons _ other _ made first all =>
            rw [Made, ran, Option.some_inj, Except.ok.injEq] at first
            subst first
            exact ⟨made, (append_assoc done [one] made).symm, all⟩

/-- What a vector has written is read exactly when it is not too long and every object can be made. -/
theorem deserialize_wire {objs : List (List UInt8)} (long : ∀ obj ∈ objs, 4 ≤ obj.length)
    (room : base objs.length + (payload objs).length ≤ maxBytesPerBuffer) (rest : List UInt8)
    {made : List Obj} :
    deserialize order newObj (wire objs ++ rest) = some (.ok made) ↔
      objs.length < maxElemContainer ∧ List.Forall₂ (Made newObj) objs made := by
  have length : (wire objs ++ rest).length = base objs.length + (payload objs).length + rest.length := by
    rw [length_append, length_wire]
  have least : stlHeaderSize ≤ base objs.length := Nat.le_add_right _ _
  have offsets : base objs.length = stlHeaderSize + 4 * (objs.length + 1) := rfl
  unfold maxBytesPerBuffer at room
  have header : (StlHeader.read order (wire objs ++ rest)).swap order =
      ⟨clsidCStlObjVector, base objs.length + (payload objs).length - seriHeaderBase, 1, objs.length + 1⟩ := by
    rw [wire, append_assoc, append_assoc]
    apply StlHeader.swap_read order (by decide) <;> omega
  have whole : ¬ (wire objs ++ rest).length <
      base objs.length + (payload objs).length - seriHeaderBase + headerNbSize := by
    rw [length]
    unfold headerNbSize seriHeaderBase stlHeaderSize
    omega
  unfold deserialize
  rw [if_neg (by omega), header]
  simp only
  rw [if_neg (not_not.2 rfl), if_neg whole]
  by_cases many : maxElemContainer < objs.length + 1
  · rw [if_pos many]
    refine ⟨fun never => ?_, fun few => ?_⟩
    · cases never
    · omega
  · have body : (wire objs ++ rest).drop stlHeaderSize =
        (offsetsFrom 0 objs).flatMap (toBE 4) ++ (payload objs ++ rest) := by
      rw [wire, append_assoc, append_assoc, drop_left' (length_netHeader _ _ _)]
    have small : ∀ offset ∈ offsetsFrom 0 objs, offset < 256 ^ 4 := by
      intro offset member
      have bound := offsetsFrom_le offset member
      omega
    have count := length_offsetsFrom 0 objs
    have front : wire objs ++ rest =
        (netHeader clsidCStlObjVector (base objs.length + (payload objs).length - seriHeaderBase) (objs.length + 1) ++
          (offsetsFrom 0 objs).flatMap (toBE 4)) ++ (payload objs ++ rest) := by
      rw [wire]
      simp only [append_assoc]
    rw [if_neg many, if_neg (by omega), body, ← count, readOffsets_flatMap order small, front]
    refine (readObjs_eq_some long ?_ (by omega)).trans ?_
    · rw [length_append, length_netHeader, length_flatMap_toBE, Nat.add_zero]
    · constructor
      · rintro ⟨others, rfl, all⟩
        exact ⟨by omega, all⟩
      · rintro ⟨_, all⟩
        exact ⟨made, rfl, all⟩

end

end ObjVector

theorem map_eq_ok {α β : Type} {ran : Ran α} {make : α → β} {result : β}
    (made : ran.map (Except.map make) = some (.ok result)) : ∃ value, ran = some
    (.ok value) ∧ make value = result := by
  match ran with
  | none => cases made
  | some (.error _) => cases made
  | some (.ok value) => exact ⟨value, rfl, Except.ok.inj (Option.some_inj.1 made)⟩

namespace StlObj

variable {build64 : Bool} (C : OtherClasses)

/-- On machines of either byte order the object writes the same bytes, and from these its equal is read. -/
def RoundTrips (obj : StlObj build64 C.Obj) : Prop :=
  ∃ bytes, ∀ order : ByteOrder, serialize order C obj = some (.ok bytes) ∧
    deserialize order C (clsid C obj) bytes = some (.ok obj)

mutual

def wire : StlObj build64 C.Obj → List UInt8
  | .intVector elems => cStlIntVector.wire elems
  | .longWordVector elems => (cStlLongWordVector build64).wire elems
  | .qwordVector elems => cStlQwordVector.wire elems
  | .intMap _ => []
  | .strVector elems => StrVector.wire elems
  | .objVector elems => ObjVector.wire (wires elems)
  | .other obj => C.serialized obj

def wires : List (Option (StlObj build64 C.Obj)) → List (List UInt8)
  | [] => []
  | none :: objs => [] :: wires objs
  | some obj :: objs => wire obj :: wires objs

end

mutual

/-- The bytes of an object, and those of the objects in a vector with their paddings. -/
def size : StlObj build64 C.Obj → Nat
  | .intVector elems => stlHeaderSize + 4 * elems.length
  | .longWordVector elems => stlHeaderSize + (cStlLongWordVector build64).width * elems.length
  | .qwordVector elems => stlHeaderSize + 8 * elems.length
  | .intMap map => stlHeaderSize + 8 * map.entries.length
  | .strVector elems => stlHeaderSize + (elems.map fun elem => elem.length + 4).sum
  | .objVector elems => stlHeaderSize + 4 * (elems.length + 1) + sizes elems
  | .other obj => (C.serialized obj).length

def sizes : List (Option (StlObj build64 C.Obj)) → Nat
  | [] => 0
  | none :: objs => sizes objs
  | some obj :: objs => size obj + ObjVector.padding (size obj) + sizes objs

end

mutual

/-- There is no map of integers in the object; no vector in it has a null pointer, or as many as
`MAX_ELEM_CONTAINER` objects; and no container is longer than a buffer. -/
def Fits : StlObj build64 C.Obj → Prop
  | .intVector elems => size C (.intVector elems : StlObj build64 C.Obj) ≤ maxBytesPerBuffer
  | .longWordVector elems => size C (.longWordVector elems) ≤ maxBytesPerBuffer
  | .qwordVector elems => size C (.qwordVector elems : StlObj build64 C.Obj) ≤ maxBytesPerBuffer
  | .intMap _ => False
  | .strVector elems => size C (.strVector elems : StlObj build64 C.Obj) ≤ maxBytesPerBuffer
  | .objVector elems =>
    elems.length < maxElemContainer ∧ FitAll elems ∧ size C (.objVector elems) ≤ maxBytesPerBuffer
  | .other _ => True

def FitAll : List (Option (StlObj build64 C.Obj)) → Prop
  | [] => True
  | none :: _ => False
  | some obj :: objs => Fits obj ∧ FitAll objs

end

mutual

theorem length_wire : ∀ {obj : StlObj build64 C.Obj}, Fits C obj → (wire C obj).length = size C obj
  | .intVector elems, _ => cStlIntVector.length_wire elems
  | .longWordVector elems, _ => (cStlLongWordVector build64).length_wire elems
  | .qwordVector elems, _ => cStlQwordVector.length_wire elems
  | .strVector elems, _ => StrVector.length_wire elems
  | .objVector elems, fits => by
      obtain ⟨count, total⟩ := length_wires fits.2.1
      rw [wire, ObjVector.length_wire, count, total]
      rfl
  | .other _, _ => rfl

theorem length_wires : ∀ {objs : List (Option (StlObj build64 C.Obj))}, FitAll C objs →
    (wires C objs).length = objs.length ∧ (ObjVector.payload (wires C objs)).length = sizes C objs
  | [], _ => ⟨rfl, rfl⟩
  | some obj :: objs, fits => by
      obtain ⟨count, total⟩ := length_wires fits.2
      refine ⟨congrArg Nat.succ count, ?_⟩
      rw [wires, ObjVector.payload_cons, length_append, ObjVector.length_padded, length_wire fits.1, total]
      rfl

end

theorem four_le_size (obj : StlObj build64 C.Obj) : 4 ≤ size C obj := by
  have header : 4 ≤ stlHeaderSize := by decide
  cases obj with
  | other obj =>
    rw [size, ObjectClasses.length_serialized]
    exact Nat.le_trans (by decide) (Nat.le_add_right 12 _)
  | objVector elems =>
    rw [size, Nat.add_assoc]
    exact Nat.le_trans header (Nat.le_add_right _ _)
  | _ => exact Nat.le_trans header (Nat.le_add_right _ _)

theorem long_wires {objs : List (Option (StlObj build64 C.Obj))} (fits : FitAll C objs) :
    ∀ bytes ∈ wires C objs, 4 ≤ bytes.length := by
  induction objs with
  | nil => exact forall_mem_nil _
  | cons obj objs ih =>
    cases obj with
    | none => exact fits.elim
    | some obj =>
      intro bytes member
      rcases mem_cons.1 member with rfl | later
      · rw [length_wire C fits.1]
        exact four_le_size C obj
      · exact ih fits.2 bytes later

section

variable {C} (order : ByteOrder)

mutual

theorem serialize_of_fits : ∀ {obj : StlObj build64 C.Obj}, Fits C obj →
    serialize order C obj = some (.ok (wire C obj))
  | .intVector _, fits => (cStlIntVector.serialize_eq_some order).2 ⟨fits, rfl⟩
  | .longWordVector _, fits => ((cStlLongWordVector build64).serialize_eq_some order).2 ⟨fits, rfl⟩
  | .qwordVector _, fits => (cStlQwordVector.serialize_eq_some order).2 ⟨fits, rfl⟩
  | .strVector _, fits => (StrVector.serialize_eq_some order).2 ⟨fits, rfl⟩
  | .objVector elems, fits => by
      have all := serializeAll_of_fits fits.2.1
      obtain ⟨count, total⟩ := length_wires C fits.2.1
      have few : (serializeAll order C elems).length < maxElemContainer := by
        rw [all, ObjVector.length_written, count]
        exact fits.1
      refine (ObjVector.serialize_eq_some (.inr few)).2 ⟨wires C elems, all, fun bytes member => ?_, ?_, rfl⟩
      · exact ne_nil_of_length_pos (Nat.lt_of_lt_of_le (by decide) (long_wires C fits.2.1 bytes member))
      · rw [count, total]
        exact fits.2.2
  | .other _, _ => rfl

theorem serializeAll_of_fits : ∀ {objs : List (Option (StlObj build64 C.Obj))}, FitAll C objs →
    serializeAll order C objs = ObjVector.written (wires C objs)
  | [], _ => rfl
  | some obj :: objs, fits => by
      rw [serializeAll, serialize_of_fits fits.1, serializeAll_of_fits fits.2]
      rfl

end

theorem clsid_wire {obj : StlObj build64 C.Obj} (fits : Fits C obj) :
    ofBE ((wire C obj).take 4) = clsid C obj := by
  have word (value : Nat) (rest : List UInt8) (small : value < 256 ^ 4) :
      ofBE ((toBE 4 value ++ rest).take 4) = value := by
    rw [take_left' (length_toBE 4 value)]
    exact ofBE_toBE_of_lt small
  have header (value size count : Nat) (rest : List UInt8) (small : value < 256 ^ 4) :
      ofBE ((netHeader value size count ++ rest).take 4) = value := by
    simp only [netHeader, append_assoc]
    exact word value _ small
  cases obj with
  | intVector elems => exact header _ _ _ _ cStlIntVector.clsid_lt
  | longWordVector elems =>
    have same : (cStlLongWordVector build64).clsid = clsidCStlLongWordVector := by
      cases build64 <;> rfl
    exact (header _ _ _ _ (cStlLongWordVector build64).clsid_lt).trans same
  | qwordVector elems => exact header _ _ _ _ cStlQwordVector.clsid_lt
  | intMap map => exact fits.elim
  | strVector elems => exact header _ _ _ _ (by decide)
  | objVector elems =>
    rw [wire, ObjVector.wire, append_assoc]
    exact header _ _ _ _ (by decide)
  | other obj =>
    rw [wire, ObjectClasses.serialized, append_assoc, append_assoc]
    exact word _ _ (C.clsid_lt obj)

theorem newObj_other {obj made : C.Obj} {fuel : Nat} {buf : List UInt8}
    (new : C.newObj (C.clsid obj) buf = some made) :
    newObj order C (fuel + 1) (C.clsid obj) buf = (some (.ok (.other made)) : Ran (StlObj build64 C.Obj)) := by
  have other := C.clsid_other obj
  simp only [mem_cons, not_mem_nil, or_false, not_or] at other
  obtain ⟨notInt, notLongWord, notQword, notMap, notStr, notObj⟩ := other
  rw [newObj, if_neg notInt, if_neg notLongWord, if_neg notQword, if_neg notMap, if_neg notStr, if_neg notObj,
    new]

mutual

theorem newObj_wire : ∀ {obj : StlObj build64 C.Obj}, Fits C obj → ∀ {fuel : Nat},
    (wire C obj).length < fuel → ∀ rest, newObj order C fuel (clsid C obj) (wire C obj ++ rest) = some (.ok obj)
  | .intVector elems, fits, fuel + 1, _, rest =>
    congrArg (Option.map (Except.map StlObj.intVector)) (cStlIntVector.deserialize_wire order fits rest)
  | .longWordVector elems, fits, fuel + 1, _, rest =>
    congrArg (Option.map (Except.map StlObj.longWordVector))
      ((cStlLongWordVector build64).deserialize_wire order fits rest)
  | .qwordVector elems, fits, fuel + 1, _, rest =>
    congrArg (Option.map (Except.map StlObj.qwordVector)) (cStlQwordVector.deserialize_wire order fits rest)
  | .strVector elems, fits, fuel + 1, _, rest =>
    congrArg (Option.map (Except.map StlObj.strVector)) (StrVector.deserialize_wire order fits rest)
  | .objVector elems, fits, fuel + 1, enough, rest => by
      obtain ⟨count, total⟩ := length_wires C fits.2.1
      have room : ObjVector.base (wires C elems).length + (ObjVector.payload (wires C elems)).length ≤
          maxBytesPerBuffer := by
        rw [count, total]
        exact fits.2.2
      have within : ∀ bytes ∈ wires C elems, bytes.length < fuel := by
        intro bytes member
        have part := ObjVector.length_le_payload member
        rw [wire, ObjVector.length_wire] at enough
        unfold ObjVector.base stlHeaderSize at enough
        omega
      obtain ⟨made, rfl, all⟩ := made_wires fits.2.1 within
      have few : (wires C (made.map some)).length < maxElemContainer := by
        rw [count]
        exact fits.1
      exact congrArg (Option.map (Except.map fun objs => StlObj.objVector (objs.map some)))
        ((ObjVector.deserialize_wire (long_wires C fits.2.1) room rest).2 ⟨few, all⟩)
  | .other obj, _, fuel + 1, _, rest => by
      have made := C.newObj_serialized obj rest
      rw [clsid, wire, ObjectClasses.serialized]
      exact newObj_other order made

theorem made_wires : ∀ {objs : List (Option (StlObj build64 C.Obj))}, FitAll C objs → ∀
    {fuel : Nat},
    (∀ bytes ∈ wires C objs, bytes.length < fuel) →
      ∃ made, objs = made.map some ∧ List.Forall₂ (ObjVector.Made (newObj order C fuel)) (wires C objs) made
  | [], _, _, _ => ⟨[], rfl, .nil⟩
  | some obj :: objs, fits, fuel, within => by
      obtain ⟨made, rfl, all⟩ := made_wires fits.2 fun bytes member => within bytes (mem_cons_of_mem _ member)
      refine ⟨obj :: made, rfl, .cons ?_ all⟩
      rw [ObjVector.Made, clsid_wire fits.1]
      exact newObj_wire fits.1 (within _ mem_cons_self) _

end

theorem newObj_intMap {fuel clsid : Nat} {buf : List UInt8} {map : IntMap}
    (made : newObj order C fuel clsid buf = (some (.ok (.intMap map)) : Ran (StlObj build64 C.Obj))) :
    IntMap.deserialize order buf = some (.ok map) := by
  cases fuel with
  | zero => cases made
  | succ fuel =>
    rw [newObj] at made
    split at made
    · obtain ⟨_, _, ⟨⟩⟩ := map_eq_ok made
    split at made
    · obtain ⟨_, _, ⟨⟩⟩ := map_eq_ok made
    split at made
    · obtain ⟨_, _, ⟨⟩⟩ := map_eq_ok made
    split at made
    · obtain ⟨_, ran, ⟨⟩⟩ := map_eq_ok made
      exact ran
    split at made
    · obtain ⟨_, _, ⟨⟩⟩ := map_eq_ok made
    split at made
    · obtain ⟨_, _, ⟨⟩⟩ := map_eq_ok made
    · split at made <;> cases made

theorem newObj_objVector {fuel clsid : Nat} {buf : List UInt8}
    {elems : List (Option (StlObj build64 C.Obj))}
    (made : newObj order C fuel clsid buf = some (.ok (.objVector elems))) :
    ∃ inner objs, ObjVector.deserialize order (newObj order C inner) buf = some (.ok objs) ∧
      elems = objs.map some := by
  cases fuel with
  | zero => cases made
  | succ fuel =>
    rw [newObj] at made
    split at made
    · obtain ⟨_, _, ⟨⟩⟩ := map_eq_ok made
    split at made
    · obtain ⟨_, _, ⟨⟩⟩ := map_eq_ok made
    split at made
    · obtain ⟨_, _, ⟨⟩⟩ := map_eq_ok made
    split at made
    · obtain ⟨_, _, ⟨⟩⟩ := map_eq_ok made
    split at made
    · obtain ⟨_, _, ⟨⟩⟩ := map_eq_ok made
    split at made
    · obtain ⟨objs, ran, ⟨⟩⟩ := map_eq_ok made
      exact ⟨fuel, objs, ran, rfl⟩
    · split at made <;> cases made

theorem long_of_serialize {obj : StlObj build64 C.Obj} {bytes : List UInt8}
    (written : serialize .big C obj = some (.ok bytes)) : 4 ≤ bytes.length := by
  have header : 4 ≤ stlHeaderSize := by decide
  cases obj with
  | intVector elems =>
    rw [((cStlIntVector.serialize_eq_some .big).1 written).2, WordClass.length_wire]
    exact Nat.le_trans header (Nat.le_add_right _ _)
  | longWordVector elems =>
    rw [(((cStlLongWordVector build64).serialize_eq_some .big).1 written).2, WordClass.length_wire]
    exact Nat.le_trans header (Nat.le_add_right _ _)
  | qwordVector elems =>
    rw [((cStlQwordVector.serialize_eq_some .big).1 written).2, WordClass.length_wire]
    exact Nat.le_trans header (Nat.le_add_right _ _)
  | intMap map =>
    rw [serialize] at written
    unfold IntMap.serialize at written
    simp only at written
    split at written
    · cases written
    · rw [StlHeader.bytes_swap] at written
      rw [← Except.ok.inj (Option.some_inj.1 written), length_append, length_netHeader]
      exact Nat.le_trans header (Nat.le_add_right _ _)
  | strVector elems =>
    rw [((StrVector.serialize_eq_some .big).1 written).2, StrVector.length_wire]
    exact Nat.le_trans header (Nat.le_add_right _ _)
  | objVector elems =>
    obtain ⟨objs, _, _, _, rfl⟩ := (ObjVector.serialize_eq_some (.inl rfl)).1 written
    rw [ObjVector.length_wire]
    unfold ObjVector.base stlHeaderSize
    omega
  | other obj =>
    rw [← Except.ok.inj (Option.some_inj.1 written), ObjectClasses.length_serialized]
    exact Nat.le_trans (by decide) (Nat.le_add_right 12 _)

theorem long_of_serializeAll {objs : List (Option (StlObj build64 C.Obj))} {all : List (List UInt8)}
    (written : serializeAll .big C objs = ObjVector.written all) : ∀ bytes ∈ all, 4 ≤ bytes.length := by
  induction all generalizing objs with
  | nil => exact forall_mem_nil _
  | cons first all ih =>
    cases objs with
    | nil => cases written
    | cons obj objs =>
      cases obj with
      | none => cases written
      | some obj =>
        obtain ⟨one, rest⟩ := List.cons.inj written
        intro bytes member
        rcases mem_cons.1 member with rfl | later
        · exact long_of_serialize (Option.some_inj.1 one)
        · exact ih rest bytes later

mutual

theorem fits_of_made : ∀ {obj : StlObj build64 C.Obj} {bytes : List UInt8} {fuel clsid : Nat}
    {rest : List UInt8}, serialize .big C obj = some (.ok bytes) →
    newObj .big C fuel clsid (bytes ++ rest) = some (.ok obj) → Fits C obj
  | .intVector _, _, _, _, _, written, _ => ((cStlIntVector.serialize_eq_some .big).1 written).1
  | .longWordVector _, _, _, _, _, written, _ =>
    (((cStlLongWordVector build64).serialize_eq_some .big).1 written).1
  | .qwordVector _, _, _, _, _, written, _ => ((cStlQwordVector.serialize_eq_some .big).1 written).1
  | .intMap map, bytes, _, _, rest, written, made => by
      have refused := IntMap.deserialize_serialized written rest
      rw [newObj_intMap .big made] at refused
      cases refused
  | .strVector _, _, _, _, _, written, _ => ((StrVector.serialize_eq_some .big).1 written).1
  | .objVector elems, _, _, _, rest, written, made => by
      obtain ⟨objs, all, _, room, rfl⟩ := (ObjVector.serialize_eq_some (.inl rfl)).1 written
      obtain ⟨inner, others, ran, rfl⟩ := newObj_objVector .big made
      have long := long_of_serializeAll all
      obtain ⟨few, each⟩ := (ObjVector.deserialize_wire long room rest).1 ran
      have fits := fitAll_of_made all each rfl
      have same : ObjVector.written objs = ObjVector.written (wires C (others.map some)) :=
        all.symm.trans (serializeAll_of_fits .big fits)
      obtain ⟨count, total⟩ := length_wires C fits
      have equal : objs = wires C (others.map some) := ObjVector.written_inj same
      rw [equal, count, total] at room
      rw [equal, count] at few
      exact ⟨few, fits, room⟩
  | .other _, _, _, _, _, _, _ => trivial

theorem fitAll_of_made : ∀ {objs : List (Option (StlObj build64 C.Obj))} {all : List (List UInt8)}
    {fuel : Nat}
    {made : List (StlObj build64 C.Obj)}, serializeAll .big C objs = ObjVector.written all →
    List.Forall₂ (ObjVector.Made (newObj .big C fuel)) all made → objs = made.map some → FitAll C objs
  | [], _, _, _, _, _, _ => trivial
  | none :: _, _, _, _, _, _, whole => by
      obtain ⟨_, _, ⟨⟩⟩ := mem_map.1 (whole ▸ mem_cons_self)
  | some obj :: objs, all, _, made, written, each, whole => by
      cases all with
      | nil => cases written
      | cons bytes all =>
        obtain ⟨one, others⟩ := List.cons.inj written
        cases each with
        | @cons _ first _ made same each =>
          obtain ⟨⟨⟩, later⟩ := List.cons.inj whole
          exact ⟨fits_of_made (Option.some_inj.1 one) same, fitAll_of_made others each later⟩

end

end

/-- An object is read as it was written, by machines of either byte order, exactly when it fits. -/
theorem trips_iff_fits (build64 : Bool) (C : OtherClasses) (obj : StlObj build64 C.Obj) :
    RoundTrips C obj ↔ Fits C obj := by
  constructor
  · rintro ⟨bytes, trips⟩
    obtain ⟨written, made⟩ := trips .big
    rw [deserialize, ← append_nil bytes] at made
    exact fits_of_made written made
  · intro fits
    refine ⟨wire C obj, fun order => ⟨serialize_of_fits order fits, ?_⟩⟩
    have made := newObj_wire order fits (Nat.lt_succ_self _) []
    rw [append_nil] at made
    exact made

def containersOnly : OtherClasses where
  toObjectClasses := ObjectClasses.empty
  clsid_other obj := obj.elim

def oneEntry : IntMap := ⟨[(1, 2)], List.pairwise_singleton _ _⟩

/-- A map of one entry is written, and then refused. -/
theorem intMap_refused : ¬ ∀ (build64 : Bool) (C : OtherClasses)
    (obj : StlObj build64 C.Obj), RoundTrips C obj := by
  intro all
  obtain ⟨bytes, trips⟩ := all true containersOnly (.intMap oneEntry)
  obtain ⟨written, made⟩ := trips .little
  rw [deserialize, ← append_nil bytes] at made
  rw [serialize] at written
  have refused := IntMap.deserialize_serialized written []
  rw [newObj_intMap .little made] at refused
  cases refused

end StlObj

end RpcFrmwrk.Combase
