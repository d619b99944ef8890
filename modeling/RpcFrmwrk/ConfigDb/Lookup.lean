import Mathlib.Data.List.Nodup
import RpcFrmwrk.ConfigDb.RoundTrip

/-! The properties of a configuration as a map. Owns `GetStrProp`; what looking up an id gives in
another order, behind a `SetProperty`, and after a round trip. -/

namespace RpcFrmwrk.ConfigDb

open List

variable {H : ConfigHost}

/-- `CCfgOpener::GetStrProp`. -/
def getStrProp (props : List (Int32 × Value H)) (key : Int32) : Except Status (List UInt8) :=
  match props.lookup key with
  | none => .error .enoent
  | some (.string value) => .ok value
  | some _ => .error .efault

variable {props visited : List (Int32 × Value H)} {key other : Int32} {value : Value H}

theorem distinctProps_iff :
    DistinctProps props ↔ (props.map Prod.fst).Nodup ∧ ∀ prop ∈ props, prop.2.Distinct := by
  induction props with
  | nil => exact ⟨fun _ => ⟨nodup_nil, fun _ never => (by cases never)⟩, fun _ => trivial⟩
  | cons head tail ih =>
    obtain ⟨key, value⟩ := head
    rw [DistinctProps, ih, map_cons, nodup_cons, forall_mem_cons, mem_map]
    constructor
    · rintro ⟨fresh, first, nodup, rest⟩
      refine ⟨⟨?_, nodup⟩, first, rest⟩
      rintro ⟨prop, member, same⟩
      exact fresh prop member same
    · rintro ⟨⟨fresh, nodup⟩, first, rest⟩
      exact ⟨fun prop member same => fresh ⟨prop, member, same⟩, first, nodup, rest⟩

theorem carriedProps_iff : CarriedProps props ↔ ∀ prop ∈ props, prop.2.Carried := by
  induction props with
  | nil => exact ⟨fun _ _ never => (by cases never), fun _ => trivial⟩
  | cons head tail ih =>
    obtain ⟨key, value⟩ := head
    rw [CarriedProps, ih, forall_mem_cons]

theorem sizeProps_perm (perm : visited.Perm props) : sizeProps visited = sizeProps props := by
  induction perm with
  | nil => rfl
  | cons head _ ih =>
    obtain ⟨key, value⟩ := head
    rw [sizeProps, sizeProps, ih]
  | swap first second tail =>
    obtain ⟨key, value⟩ := first
    obtain ⟨other, another⟩ := second
    rw [sizeProps, sizeProps, sizeProps, sizeProps]
    omega
  | trans _ _ left right => exact left.trans right

theorem lookup_cons (head : Int32 × Value H) (tail : List (Int32 × Value H)) :
    (head :: tail).lookup key = if head.1 = key then some head.2 else tail.lookup key := by
  obtain ⟨first, value⟩ := head
  rw [List.lookup_cons]
  by_cases same : first = key
  · rw [if_pos same, same, beq_self_eq_true]
  · have differs : (key == first) = false := beq_false_of_ne (Ne.symm same)
    rw [if_neg same, differs]

theorem lookup_iff_mem (nodup : (props.map Prod.fst).Nodup) :
    props.lookup key = some value ↔ (key, value) ∈ props := by
  induction props with
  | nil => exact ⟨fun never => (by cases never), fun never => (by cases never)⟩
  | cons head tail ih =>
    rw [map_cons, nodup_cons] at nodup
    rw [lookup_cons, mem_cons]
    by_cases same : head.1 = key
    · rw [if_pos same]
      constructor
      · intro first
        exact Or.inl (Prod.ext same.symm (Option.some.inj first).symm)
      · rintro (first | later)
        · rw [← first]
        · exact absurd (mem_map.2 ⟨_, later, same.symm⟩) nodup.1
    · rw [if_neg same, ih nodup.2]
      constructor
      · exact Or.inr
      · rintro (first | later)
        · exact absurd (congrArg Prod.fst first).symm same
        · exact later

theorem lookup_perm (nodup : (props.map Prod.fst).Nodup) (perm : visited.Perm props) :
    visited.lookup key = props.lookup key := by
  have also : (visited.map Prod.fst).Nodup := (perm.map Prod.fst).nodup_iff.2 nodup
  apply Option.ext
  intro value
  rw [lookup_iff_mem also, lookup_iff_mem nodup, perm.mem_iff]

theorem lookup_restoredProps (props : List (Int32 × Value H)) (key : Int32) :
    (restoredProps props).lookup key = (props.lookup key).map Value.restored := by
  induction props with
  | nil => rfl
  | cons head tail ih =>
    rw [restoredProps, lookup_cons, lookup_cons, ih]
    by_cases same : head.1 = key
    · rw [if_pos same, if_pos same, Option.map_some]
    · rw [if_neg same, if_neg same]

theorem lookup_setProperty (props : List (Int32 × Value H)) (key other : Int32) (value : Value H) :
    (setProperty props key value).lookup other = if key = other then some value else props.lookup other := by
  induction props with
  | nil => rw [setProperty, lookup_cons]
  | cons head tail ih =>
    rw [setProperty]
    by_cases same : head.1 = key
    · rw [if_pos same, lookup_cons, lookup_cons]
      by_cases found : key = other
      · rw [if_pos found, if_pos found]
      · rw [if_neg found, if_neg found, if_neg (by rw [same]; exact found)]
    · rw [if_neg same, lookup_cons, lookup_cons, ih]
      by_cases found : key = other
      · rw [if_pos found, if_pos found, if_neg (by rw [← found]; exact same)]
      · rw [if_neg found, if_neg found]

theorem mem_setProperty {prop : Int32 × Value H} (member : prop ∈ setProperty props key value) :
    prop = (key, value) ∨ prop ∈ props := by
  induction props with
  | nil => exact Or.inl (mem_singleton.1 member)
  | cons head tail ih =>
    rw [setProperty] at member
    split at member
    · rcases mem_cons.1 member with first | later
      · exact Or.inl first
      · exact Or.inr (mem_cons_of_mem _ later)
    · rcases mem_cons.1 member with first | later
      · exact Or.inr (by rw [first]; exact mem_cons_self)
      · exact (ih later).imp_right (mem_cons_of_mem _)

theorem distinct_setProperty (distinct : DistinctProps props) (valueDistinct : value.Distinct) :
    DistinctProps (setProperty props key value) := by
  induction props with
  | nil => exact ⟨fun _ never => (by cases never), valueDistinct, trivial⟩
  | cons head tail ih =>
    obtain ⟨first, standing⟩ := head
    obtain ⟨fresh, headDistinct, rest⟩ := distinct
    rw [setProperty]
    split
    next same => exact ⟨fun later member => by rw [← same]; exact fresh later member, valueDistinct, rest⟩
    next differs =>
      refine ⟨fun later member => ?_, headDistinct, ih rest⟩
      rcases mem_setProperty member with new | old
      · rw [new]
        exact Ne.symm differs
      · exact fresh later old

theorem getStrProp_restored (props : List (Int32 × Value H)) (key : Int32) :
    getStrProp (restoredProps props) key = getStrProp props key := by
  unfold getStrProp
  rw [lookup_restoredProps]
  cases props.lookup key with
  | none => rfl
  | some value => cases value <;> rfl

end RpcFrmwrk.ConfigDb
