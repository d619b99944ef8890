import RpcFrmwrk.Rpc.EventRoute
import RpcFrmwrk.Rpc.RouterRefsRuns

/-! The counts of matches and what the next nodes have enabled, in all runs whose steps fit. Owns
what the table, the requests on the way and the next nodes have in common; `agrees_of_fits`. -/

namespace RpcFrmwrk.Rpc

open RpcFrmwrk.Library RpcFrmwrk.Library.Counted List

/-! ### What is counted -/

def Forward.isFor (name : List Char) (enable : Bool) (forward : Forward) : Bool :=
  forward.counts && decide (forward.name = name) && decide (forward.enable = enable)

def Forward.goesTo (target : List Char × RmtMatch) (enable : Bool) (forward : Forward) : Bool :=
  decide (forward.target = target) && decide (forward.enable = enable)

namespace RouteState

def asked (state : RouteState) (name : List Char) (enable : Bool) : Nat :=
  state.sent.countP (Forward.isFor name enable) + state.handled.countP (Forward.isFor name enable)

def due (state : RouteState) (target : List Char × RmtMatch) (enable : Bool) : Nat :=
  state.sent.countP (Forward.goesTo target enable)

def wanting (table : RmtMatches) (target : List Char × RmtMatch) : Nat :=
  (table.map Counted.info).countP fun info => decide (info.target = some target)

end RouteState

open RouteState

/-- An entry of the table that requests fit. -/
structure EntryFits (entry : Counted (List Char) RmtMatch) : Prop where
  positive : 0 < entry.count
  small : entry.count < 2147483648
  key : entry.key = entry.info.toString
  routed : ∃ target, entry.info.target = some target

/-- The counts are what was answered and what will be, and so are the matches at the next nodes. -/
structure RouteState.Sound (state : RouteState) : Prop where
  unique : (state.table.map Counted.key).Nodup
  entries : ∀ entry ∈ state.table, EntryFits entry
  counts : ∀ name, (state.table.stored name : Int) + state.asked name false = state.net name + state.asked name true
  nexts : ∀ target, state.next target + state.due target true = wanting state.table target + state.due target false
  events : ∀ event ∈ state.events, event.forwarded = event.crosses

theorem sound_routeStart : RouteState.start.Sound :=
  ⟨nodup_nil, fun _ never => (by cases never), fun _ => rfl, fun _ => rfl, fun _ never => (by cases never)⟩

variable {state : RouteState} {table : RmtMatches} {source : RmtMatch} {name : List Char}
  {target : List Char × RmtMatch} {forward : Forward} {enable begins : Bool} {entry : Counted (List Char) RmtMatch}

theorem wanting_insert (key : List Char) (count : Nat) :
    wanting (⟨key, source, count⟩ :: table) target =
      wanting table target + if source.target = some target then 1 else 0 := by
  rw [wanting, map_cons, countP_cons]
  by_cases same : source.target = some target
  · rw [if_pos same, if_pos (decide_eq_true same)]
    rfl
  · rw [if_neg same, if_neg (by simpa using same)]
    rfl

theorem wanting_setCount (key : List Char) (count : Nat) :
    wanting (setCount table key count) target = wanting table target := by
  rw [wanting, map_info_setCount]
  rfl

theorem wanting_erase (unique : (table.map Counted.key).Nodup) (member : entry ∈ table) :
    wanting (erase table entry.key) target + (if entry.info.target = some target then 1 else 0) =
      wanting table target := by
  have perm := (perm_erase unique member).map Counted.info
  rw [wanting, wanting, perm.countP_eq, map_cons, countP_cons]
  by_cases same : entry.info.target = some target
  · rw [if_pos same, if_pos (decide_eq_true same)]
  · rw [if_neg same, if_neg (by simpa using same)]

theorem wanting_filter (wanted : Counted (List Char) RmtMatch → Bool) :
    wanting (table.filter fun entry => !wanted entry) target + wanting (table.filter wanted) target =
      wanting table target := by
  induction table with
  | nil => rfl
  | cons first table ih =>
    rw [filter_cons, filter_cons]
    obtain ⟨key, info, count⟩ := first
    cases wanted ⟨key, info, count⟩ with
    | true =>
      rw [if_neg (by decide), if_pos rfl, wanting_insert, wanting_insert, ← ih]
      exact (Nat.add_assoc _ _ _).symm
    | false =>
      rw [if_pos (by decide), if_neg (by decide), wanting_insert, wanting_insert, ← ih]
      exact Nat.add_right_comm _ _ _

theorem wanting_pos : 0 < wanting table target ↔ ∃ entry ∈ table, entry.info.target = some target := by
  rw [wanting, countP_pos_iff]
  constructor
  · rintro ⟨info, member, same⟩
    obtain ⟨entry, isIn, rfl⟩ := mem_map.1 member
    exact ⟨entry, isIn, of_decide_eq_true same⟩
  · rintro ⟨entry, isIn, same⟩
    exact ⟨entry.info, mem_map_of_mem isIn, decide_eq_true same⟩

theorem entries_setCount (entries : ∀ entry ∈ table, EntryFits entry) (key : List Char) {count : Nat}
    (positive : 0 < count) (small : count < 2147483648) : ∀ entry ∈ setCount table key count, EntryFits entry := by
  intro entry member
  obtain ⟨before, inTable, rfl⟩ := mem_map.1 member
  have fits := entries before inTable
  split
  · exact ⟨positive, small, fits.key, fits.routed⟩
  · exact fits

theorem asked_send (also : List Char) (other : Bool) (events : List RouteEvent) :
    ({ state with
        table := table
        events := events
        sent := state.sent ++ [⟨name, target, enable, true⟩] } : RouteState).asked also other =
      state.asked also other + if name = also ∧ enable = other then 1 else 0 := by
  show (state.sent ++ [_]).countP _ + state.handled.countP _ = _
  rw [countP_append, countP_singleton, Forward.isFor, asked]
  by_cases same : name = also ∧ enable = other
  · rw [if_pos same, if_pos (by simp [same])]
    omega
  · rw [if_neg same, if_neg (by simpa using same)]
    omega

theorem due_send (also : List Char × RmtMatch) (other : Bool) (events : List RouteEvent) (counts : Bool) :
    ({ state with
        table := table
        events := events
        sent := state.sent ++ [⟨name, target, enable, counts⟩] } : RouteState).due also other =
      state.due also other + if target = also ∧ enable = other then 1 else 0 := by
  show (state.sent ++ [_]).countP _ = _
  rw [countP_append, countP_singleton, Forward.goesTo, due]
  by_cases same : target = also ∧ enable = other
  · rw [if_pos same, if_pos (by simp [same])]
  · rw [if_neg same, if_neg (by simpa using same)]

theorem copyMatch_eq {copy : RmtMatch} (copied : source.copyMatch = .ok copy) : copy = source := by
  unfold RmtMatch.copyMatch at copied
  repeat' split at copied
  all_goals first | (cases copied; rfl) | cases copied

theorem crosses_more {before after : Nat} (several : 0 < before) (also : 0 < after) :
    (⟨before, after, false⟩ : RouteEvent).forwarded = (⟨before, after, false⟩ : RouteEvent).crosses := by
  have first : decide (before = 0) = false := decide_eq_false (Nat.ne_of_gt several)
  have last : decide (after = 0) = false := decide_eq_false (Nat.ne_of_gt also)
  simp only [RouteEvent.crosses, first, last, Bool.false_and, Bool.and_false, Bool.or_false]

theorem events_note (sound : state.Sound) {event : RouteEvent} (right : event.forwarded = event.crosses) :
    ∀ noted ∈ state.events ++ [event], noted.forwarded = noted.crosses := by
  exact forall_mem_append.2 ⟨sound.events, forall_mem_singleton.2 right⟩

theorem RouteState.Sound.first (sound : state.Sound) (copied : source.copyMatch = .ok source)
    (absent : find state.table source.toString = none) (routed : source.target = some target) :
    (state.enableRemoteEvent source true true).Sound := by
  have moved : state.enableRemoteEvent source true true =
      { state with
        table := ⟨source.toString, source, 1⟩ :: state.table
        events := state.events ++
          [⟨state.table.stored source.toString,
            RmtMatches.stored (⟨source.toString, source, 1⟩ :: state.table) source.toString, true⟩]
        sent := state.sent ++ [⟨source.toString, target, true, true⟩] } := by
    simp only [RouteState.enableRemoteEvent, RmtMatches.update, copied, RmtMatches.add, absent, routed, RouteState.note,
      if_pos]
  have none := countOf_absent (find_none absent)
  rw [moved]
  refine ⟨?_, ?_, fun name => ?_, fun also => ?_, ?_⟩
  · refine nodup_cons.2 ⟨fun member => ?_, sound.unique⟩
    obtain ⟨entry, inTable, same⟩ := mem_map.1 member
    exact find_none absent entry inTable same
  · exact forall_mem_cons.2 ⟨⟨Nat.zero_lt_one, (by decide : 1 < 2147483648), rfl, target, routed⟩, sound.entries⟩
  · have before := sound.counts name
    rw [asked_send, asked_send]
    show (countOf (⟨source.toString, source, 1⟩ :: state.table) name : Int) + _ = state.net name + _
    rw [countOf_insert, if_neg fun both : source.toString = name ∧ true = false => by cases both.2]
    rw [RmtMatches.stored] at before
    by_cases same : name = source.toString
    · rw [if_pos same, if_pos ⟨same.symm, rfl⟩]
      omega
    · rw [if_neg same, if_neg fun both => same both.1.symm]
      omega
  · have before := sound.nexts also
    rw [due_send, due_send]
    show state.next also + _ = wanting (⟨source.toString, source, 1⟩ :: state.table) also + _
    rw [wanting_insert, routed, if_neg fun both : target = also ∧ true = false => by cases both.2]
    by_cases same : target = also
    · rw [if_pos ⟨same, rfl⟩, if_pos (congrArg some same)]
      omega
    · rw [if_neg fun both => same both.1, if_neg fun equal => same (Option.some.inj equal)]
      omega
  · refine events_note sound ?_
    rw [RmtMatches.stored, RmtMatches.stored, countOf_insert, none, if_pos rfl]
    rfl

theorem RouteState.Sound.last (sound : state.Sound) (copied : source.copyMatch = .ok source)
    (found : find state.table source.toString = some entry) (single : entry.count = 1) (same : entry.info = source)
    (routed : source.target = some target) : (state.enableRemoteEvent source false true).Sound := by
  have left : asInt32 (decrement32 entry.count) ≤ 0 := by
    rw [single]
    decide
  have moved : state.enableRemoteEvent source false true =
      { state with
        table := erase state.table source.toString
        events := state.events ++
          [⟨state.table.stored source.toString,
            RmtMatches.stored (erase state.table source.toString) source.toString, true⟩]
        sent := state.sent ++ [⟨source.toString, target, false, true⟩] } := by
    simp only [RouteState.enableRemoteEvent, RmtMatches.update, copied, RmtMatches.remove, found, routed,
      RouteState.note, if_pos left, if_true, if_false, Bool.false_eq_true]
  obtain ⟨member, key⟩ := find_mem found
  have own := countOf_found sound.unique found
  rw [moved]
  refine ⟨(filter_sublist.map Counted.key).nodup sound.unique,
    fun other member => sound.entries other (mem_of_mem_filter member), fun name => ?_, fun also => ?_, ?_⟩
  · have before := sound.counts name
    rw [asked_send, asked_send]
    show (countOf (erase state.table source.toString) name : Int) + _ = state.net name + _
    rw [countOf_erase sound.unique found, if_neg fun both : source.toString = name ∧ false = true => by cases both.2]
    rw [RmtMatches.stored] at before
    by_cases equal : name = source.toString
    · rw [if_pos equal, if_pos ⟨equal.symm, rfl⟩]
      rw [equal, own, single] at before
      rw [equal]
      omega
    · rw [if_neg equal, if_neg fun both => equal both.1.symm]
      omega
  · have before := sound.nexts also
    have less := @wanting_erase _ also _ sound.unique member
    rw [key, same, routed] at less
    rw [due_send, due_send]
    show state.next also + _ = wanting (erase state.table source.toString) also + _
    rw [if_neg fun both : target = also ∧ false = true => by cases both.2]
    by_cases equal : target = also
    · rw [if_pos ⟨equal, rfl⟩]
      rw [if_pos (congrArg some equal)] at less
      omega
    · rw [if_neg fun both => equal both.1]
      rw [if_neg fun both => equal (Option.some.inj both)] at less
      omega
  · refine events_note sound ?_
    rw [RmtMatches.stored, RmtMatches.stored, own, countOf_erase sound.unique found, if_pos rfl, single]
    rfl

theorem RouteState.Sound.stays (sound : state.Sound) (found : find state.table name = some entry) {count : Nat}
    (positive : 0 < count) (small : count < 2147483648)
    (step : (count : Int) = entry.count + if enable then 1 else -1) :
    ((state.note (setCount state.table name count) name false).succeed name enable).Sound := by
  obtain ⟨member, key⟩ := find_mem found
  have own := countOf_found sound.unique found
  refine ⟨?_, entries_setCount sound.entries name positive small, fun other => ?_, fun also => ?_, ?_⟩
  · show ((setCount state.table name count).map Counted.key).Nodup
    rw [map_key_setCount]
    exact sound.unique
  · have before := sound.counts other
    show (countOf (setCount state.table name count) other : Int) + state.asked other false =
      Function.update state.net name (state.net name + if enable then 1 else -1) other + state.asked other true
    rw [countOf_setCount sound.unique found]
    by_cases equal : other = name
    · rw [equal] at before ⊢
      rw [RmtMatches.stored, own] at before
      rw [if_pos rfl, Function.update_self]
      omega
    · rw [if_neg equal, Function.update_of_ne equal]
      exact before
  · show state.next also + state.due also true = wanting (setCount state.table name count) also + state.due also false
    rw [wanting_setCount]
    exact sound.nexts also
  · refine events_note sound ?_
    rw [RmtMatches.stored, RmtMatches.stored, own, countOf_setCount sound.unique found, if_pos rfl]
    exact crosses_more (sound.entries entry member).positive positive

theorem RouteState.Sound.enableRemoteEvent (sound : state.Sound) {connected : Bool}
    (fits : (RouteStep.enableRemoteEvent source enable connected begins).fits state = true) :
    (if connected = true then state.enableRemoteEvent source enable begins else state).Sound := by
  cases connected with
  | false => exact sound
  | true =>
    rw [if_pos rfl]
    simp only [RouteStep.fits, Bool.not_true, Bool.false_or, Bool.and_eq_true] at fits
    obtain ⟨isOk, fits⟩ := fits
    have copied : source.copyMatch = .ok source := by
      cases copy : source.copyMatch with
      | error ret =>
        rw [copy] at isOk
        cases isOk
      | ok made => rw [copyMatch_eq copy]
    cases found : find state.table source.toString with
    | none =>
      rw [found] at fits
      simp only [Bool.and_eq_true] at fits
      obtain ⟨⟨rfl, isSome⟩, rfl⟩ := fits
      obtain ⟨target, routed⟩ := Option.isSome_iff_exists.1 isSome
      exact sound.first copied found routed
    | some entry =>
      rw [found] at fits
      simp only [Bool.and_eq_true, decide_eq_true_eq] at fits
      obtain ⟨same, fits⟩ := fits
      have entryFits := sound.entries entry (find_mem found).1
      cases enable with
      | true =>
        rw [if_pos rfl] at fits
        have small : entry.count + 1 < 2147483648 := of_decide_eq_true fits
        have moved : state.enableRemoteEvent source true begins =
            (state.note (setCount state.table source.toString (entry.count + 1)) source.toString false).succeed
              source.toString true := by
          simp only [RouteState.enableRemoteEvent, RmtMatches.update, copied, RmtMatches.add, found, if_true,
            increment32_small (show entry.count < 2147483648 by omega)]
        rw [moved]
        exact sound.stays found (Nat.succ_pos _) small (by rw [if_pos rfl]; omega)
      | false =>
        rw [if_neg Bool.false_ne_true] at fits
        by_cases single : entry.count = 1
        · have goes : begins = true := by
            rcases Bool.or_eq_true_iff.1 fits with several | goes
            · exact absurd single (of_decide_eq_true several)
            · exact goes
          obtain ⟨target, routed⟩ := entryFits.routed
          rw [goes]
          exact sound.last copied found single same (same ▸ routed)
        · have positive := entryFits.positive
          have small := entryFits.small
          have left : ¬ asInt32 (entry.count - 1) ≤ 0 := by
            rw [asInt32_small (by omega)]
            omega
          have moved : state.enableRemoteEvent source false begins =
              (state.note (setCount state.table source.toString (entry.count - 1)) source.toString false).succeed
                source.toString false := by
            simp only [RouteState.enableRemoteEvent, RmtMatches.update, copied, RmtMatches.remove, found, left,
              if_false, Bool.false_eq_true, decrement32_small positive small]
          rw [moved]
          exact sound.stays found (by omega) (by omega) (by rw [if_neg Bool.false_ne_true]; omega)

theorem due_erase (member : forward ∈ state.sent) (also : List Char × RmtMatch) (other : Bool) :
    state.due also other = (state.sent.erase forward).countP (Forward.goesTo also other) +
      if forward.target = also ∧ forward.enable = other then 1 else 0 := by
  rw [due, countP_erase_held member, Forward.goesTo]
  by_cases same : forward.target = also ∧ forward.enable = other
  · rw [if_pos same, if_pos (by simp [same])]
  · rw [if_neg same, if_neg (by simpa using same)]

theorem RouteState.Sound.handle (sound : state.Sound) (member : forward ∈ state.sent)
    (fits : (RouteStep.handle forward).fits state = true) : (state.handle forward).Sound := by
  refine ⟨sound.unique, sound.entries, fun name => ?_, fun also => ?_, sound.events⟩
  · have moved (other : Bool) : (state.handle forward).asked name other = state.asked name other := by
      show (state.sent.erase forward).countP _ + (state.handled ++ [forward]).countP _ = _
      rw [asked, countP_erase_held member, countP_append, countP_singleton]
      omega
    rw [moved, moved]
    exact sound.counts name
  · have before := sound.nexts also
    rw [due_erase member, due_erase member] at before
    show Function.update state.next forward.target _ also + (state.sent.erase forward).countP _ =
      wanting state.table also + (state.sent.erase forward).countP _
    by_cases same : also = forward.target
    · rw [same] at before ⊢
      rw [Function.update_self]
      cases enables : forward.enable with
      | true =>
        rw [enables, if_pos ⟨rfl, rfl⟩, if_neg fun both : _ ∧ true = false => by cases both.2] at before
        rw [if_pos rfl]
        omega
      | false =>
        have isEnabled : 0 < state.next forward.target := by
          simp only [RouteStep.fits, enables, Bool.false_or, decide_eq_true_eq] at fits
          exact fits
        rw [enables, if_neg fun both => Bool.false_ne_true both.2, if_pos ⟨rfl, rfl⟩] at before
        rw [if_neg Bool.false_ne_true]
        omega
    · rw [if_neg fun both => same both.1.symm, if_neg fun both => same both.1.symm] at before
      rw [Function.update_of_ne same]
      exact before

theorem RouteState.Sound.complete (sound : state.Sound) (member : forward ∈ state.handled) {succeeds : Bool}
    (fits : (RouteStep.complete forward succeeds).fits state = true) : (state.complete forward succeeds).Sound := by
  replace fits : (succeeds || !forward.counts) = true := fits
  have fewer (name : List Char) (other : Bool) : state.asked name other =
      ({ state with handled := state.handled.erase forward } : RouteState).asked name other +
        if Forward.isFor name other forward then 1 else 0 := by
    show state.sent.countP _ + state.handled.countP _ = _ + (state.handled.erase forward).countP _ + _
    rw [countP_erase_held member]
    exact (Nat.add_assoc _ _ _).symm
  unfold RouteState.complete
  cases counting : forward.counts with
  | false =>
    have ignored (name : List Char) (other : Bool) : Forward.isFor name other forward = false := by
      rw [Forward.isFor, counting, Bool.false_and, Bool.false_and]
    rw [Bool.and_false, if_neg Bool.false_ne_true]
    refine ⟨sound.unique, sound.entries, fun name => ?_, sound.nexts, sound.events⟩
    have before := sound.counts name
    rw [fewer, fewer, ignored, ignored, if_neg Bool.false_ne_true] at before
    exact before
  | true =>
    have goes : succeeds = true := by
      rw [counting, Bool.not_true, Bool.or_false] at fits
      exact fits
    rw [goes, Bool.and_true, if_pos rfl]
    refine ⟨sound.unique, sound.entries, fun name => ?_, sound.nexts, sound.events⟩
    have before := sound.counts name
    rw [fewer, fewer] at before
    simp only [Forward.isFor, counting, Bool.true_and, Bool.and_eq_true, decide_eq_true_eq] at before
    show (state.table.stored name : Int) +
        ({ state with handled := state.handled.erase forward } : RouteState).asked name false =
      Function.update state.net forward.name (state.net forward.name + if forward.enable then 1 else -1) name +
        ({ state with handled := state.handled.erase forward } : RouteState).asked name true
    by_cases same : name = forward.name
    · rw [same] at before ⊢
      rw [Function.update_self]
      cases enables : forward.enable with
      | true =>
        rw [enables, if_neg fun both => Bool.false_ne_true both.2.symm, if_pos ⟨rfl, rfl⟩] at before
        rw [if_pos rfl]
        omega
      | false =>
        rw [enables, if_pos ⟨rfl, rfl⟩, if_neg fun both => Bool.false_ne_true both.2] at before
        rw [if_neg Bool.false_ne_true]
        omega
    · rw [if_neg fun both => same both.1.symm, if_neg fun both => same both.1.symm] at before
      rw [Function.update_of_ne same]
      exact before

/-! ### Clears -/

theorem isFor_forget (names : List (List Char)) (name : List Char) (enable : Bool) (forward : Forward) :
    Forward.isFor name enable (if forward.name ∈ names then { forward with counts := false } else forward) =
      (Forward.isFor name enable forward && decide (name ∉ names)) := by
  by_cases forgotten : forward.name ∈ names
  · rw [if_pos forgotten]
    simp only [Forward.isFor, Bool.false_and]
    by_cases same : forward.name = name
    · rw [decide_eq_false (not_not_intro (same ▸ forgotten)), Bool.and_false]
    · rw [decide_eq_false same, Bool.and_false, Bool.false_and, Bool.false_and]
  · rw [if_neg forgotten]
    simp only [Forward.isFor]
    by_cases same : forward.name = name
    · have kept : name ∉ names := same ▸ forgotten
      rw [decide_eq_true kept, Bool.and_true]
    · rw [decide_eq_false same, Bool.and_false, Bool.false_and, Bool.false_and]

theorem countP_forget (names : List (List Char)) (name : List Char) (enable : Bool) (list : List Forward) :
    (list.map fun forward => if forward.name ∈ names then { forward with counts := false } else forward).countP
        (Forward.isFor name enable) =
      if name ∈ names then 0 else list.countP (Forward.isFor name enable) := by
  rw [countP_map]
  by_cases forgotten : name ∈ names
  · rw [if_pos forgotten]
    refine countP_eq_zero.2 fun forward _ => ?_
    rw [Function.comp_apply, isFor_forget, decide_eq_false (not_not_intro forgotten), Bool.and_false]
    exact Bool.false_ne_true
  · rw [if_neg forgotten]
    refine countP_congr fun forward _ => ?_
    rw [Function.comp_apply, isFor_forget, decide_eq_true forgotten, Bool.and_true]

theorem goesTo_forget (names : List (List Char)) (target : List Char × RmtMatch) (enable : Bool) (list : List Forward) :
    (list.map fun forward => if forward.name ∈ names then { forward with counts := false } else forward).countP
        (Forward.goesTo target enable) = list.countP (Forward.goesTo target enable) := by
  rw [countP_map]
  refine countP_congr fun forward _ => ?_
  rw [Function.comp_apply]
  split <;> rfl

theorem clearRequests_goesTo (removed : RmtMatches) (target : List Char × RmtMatch) :
    (clearRequests removed).countP (Forward.goesTo target false) = wanting removed target ∧
      (clearRequests removed).countP (Forward.goesTo target true) = 0 := by
  constructor
  · rw [clearRequests, countP_filterMap, wanting, countP_map]
    refine countP_congr fun entry _ => ?_
    rw [Function.comp_apply]
    cases entry.info.target with
    | none => simp
    | some also => simp [Forward.goesTo]
  · refine countP_eq_zero.2 fun forward member => ?_
    obtain ⟨entry, _, made⟩ := mem_filterMap.1 member
    obtain ⟨also, _, rfl⟩ := Option.map_eq_some_iff.1 made
    rw [Forward.goesTo, decide_eq_false (Bool.false_ne_true : ¬ false = true), Bool.and_false]
    exact Bool.false_ne_true

theorem clearRequests_isFor (removed : RmtMatches) (name : List Char) (enable : Bool) :
    (clearRequests removed).countP (Forward.isFor name enable) = 0 := by
  refine countP_eq_zero.2 fun forward member => ?_
  obtain ⟨entry, _, made⟩ := mem_filterMap.1 member
  obtain ⟨also, _, rfl⟩ := Option.map_eq_some_iff.1 made
  exact Bool.false_ne_true

theorem RouteState.Sound.counts_forget (sound : state.Sound) (wanted : Counted (List Char) RmtMatch → Bool)
    (name : List Char) :
    ((state.forget wanted).table.stored name : Int) + (state.forget wanted).asked name false =
      (state.forget wanted).net name + (state.forget wanted).asked name true := by
  have before := sound.counts name
  simp only [RouteState.asked, RouteState.forget, countP_forget, RmtMatches.stored, countOf_filter sound.unique] at before ⊢
  by_cases forgotten : name ∈ (state.table.filter wanted).map Counted.key
  · simp only [if_pos forgotten]
    rfl
  · simp only [if_neg forgotten]
    exact before

theorem RouteState.Sound.clearPort (sound : state.Sound) {port : Nat}
    (fits : (RouteStep.clearPort port begins).fits state = true) : (state.clearPort port begins).Sound := by
  have unique : ((state.table.filter fun entry => !decide (entry.info.portId = some port)).map Counted.key).Nodup :=
    (filter_sublist.map Counted.key).nodup sound.unique
  have entries : ∀ entry ∈ state.table.filter fun entry => !decide (entry.info.portId = some port), EntryFits entry :=
    fun entry member => sound.entries entry (mem_of_mem_filter member)
  have split := fun also => @wanting_filter state.table also fun entry => decide (entry.info.portId = some port)
  unfold RouteState.clearPort
  cases begins with
  | true =>
    refine ⟨unique, entries, fun name => ?_, fun also => ?_, sound.events⟩
    · have before := sound.counts_forget (fun entry => decide (entry.info.portId = some port)) name
      have asked (other : Bool) : ({ state.forget fun entry => decide (entry.info.portId = some port) with
          sent := (state.forget fun entry => decide (entry.info.portId = some port)).sent ++
            clearRequests (state.table.filter fun entry => decide (entry.info.portId = some port)) } :
            RouteState).asked name other =
          (state.forget fun entry => decide (entry.info.portId = some port)).asked name other := by
        rw [RouteState.asked, RouteState.asked, countP_append, clearRequests_isFor]
        rfl
      rw [if_pos rfl, asked, asked]
      exact before
    · have before := sound.nexts also
      obtain ⟨disables, enables⟩ :=
        clearRequests_goesTo (state.table.filter fun entry => decide (entry.info.portId = some port)) also
      show state.next also + (_ ++ _ : List Forward).countP _ =
        wanting (state.table.filter fun entry => !decide (entry.info.portId = some port)) also +
          (_ ++ _ : List Forward).countP _
      rw [countP_append, countP_append, disables, enables]
      simp only [RouteState.forget, goesTo_forget]
      rw [RouteState.due, RouteState.due] at before
      have parts := split also
      omega
  | false =>
    have none : state.table.filter (fun entry => decide (entry.info.portId = some port)) = [] := by
      simp only [RouteStep.fits, Bool.false_or, Bool.not_eq_true', any_eq_false] at fits
      exact filter_eq_nil_iff.2 fits
    rw [if_neg Bool.false_ne_true]
    refine ⟨unique, entries, fun name => ?_, fun also => ?_, sound.events⟩
    · exact sound.counts_forget _ name
    · have before := sound.nexts also
      have parts := split also
      rw [none] at parts
      simp only [RouteState.due, RouteState.forget, goesTo_forget] at before ⊢
      rw [show wanting [] also = 0 from rfl] at parts
      omega

theorem nodeName_of_target (routed : source.target = some target) : source.nodeName = target.1 := by
  unfold RmtMatch.target RmtMatch.hop at routed
  unfold RmtMatch.nodeName
  cases isPath : source.routerPath with
  | none =>
    rw [isPath] at routed
    cases routed
  | some path =>
    rw [isPath] at routed
    cases hops : enableRemoteEventPath path with
    | error failure =>
      dsimp only at routed
      rw [hops] at routed
      cases routed
    | ok hop =>
      dsimp only at routed ⊢
      rw [hops] at routed
      cases routed
      unfold enableRemoteEventPath at hops
      split at hops
      · cases hops
      · cases named : getNodeName path with
        | error failure =>
          rw [named] at hops
          cases hops
        | ok node =>
          rw [named] at hops
          replace hops : (cutPath path node >>= fun next => .ok (node, next)) = .ok hop := hops
          cases cut : cutPath path node with
          | error failure =>
            rw [cut] at hops
            cases hops
          | ok next =>
            rw [cut] at hops
            cases hops
            rfl

theorem goesTo_left (list : List Forward) (node : List Char) (target : List Char × RmtMatch) (enable : Bool) :
    (list.filter fun forward => forward.target.1 ≠ node).countP (Forward.goesTo target enable) =
      if target.1 = node then 0 else list.countP (Forward.goesTo target enable) := by
  rw [countP_filter]
  by_cases gone : target.1 = node
  · rw [if_pos gone]
    refine countP_eq_zero.2 fun forward _ => ?_
    by_cases same : forward.target = target
    · rw [decide_eq_false (not_not_intro (same ▸ gone)), Bool.and_false]
      exact Bool.false_ne_true
    · rw [Forward.goesTo, decide_eq_false same, Bool.false_and, Bool.false_and]
      exact Bool.false_ne_true
  · rw [if_neg gone]
    refine countP_congr fun forward _ => ?_
    by_cases same : forward.target = target
    · rw [decide_eq_true (same ▸ gone : forward.target.1 ≠ node), Bool.and_true]
    · rw [Forward.goesTo, decide_eq_false same, Bool.false_and, Bool.false_and]

theorem isFor_left {list : List Forward} {node : List Char} {name : List Char}
    (kept : name ∉ (list.filter fun forward => forward.target.1 = node).map Forward.name) (enable : Bool) :
    (list.filter fun forward => forward.target.1 ≠ node).countP (Forward.isFor name enable) =
      list.countP (Forward.isFor name enable) := by
  rw [countP_filter]
  refine countP_congr fun forward member => ?_
  by_cases same : forward.name = name
  · have other : forward.target.1 ≠ node := fun gone =>
      kept (mem_map.2 ⟨forward, mem_filter.2 ⟨member, decide_eq_true gone⟩, same⟩)
    rw [decide_eq_true other, Bool.and_true]
  · rw [Forward.isFor, decide_eq_false same, Bool.and_false, Bool.false_and, Bool.false_and]

theorem mem_forget {list : List Forward} {names : List (List Char)}
    (member : forward ∈ list.map fun other => if other.name ∈ names then { other with counts := false } else other) :
    ∃ other ∈ list, other.name = forward.name ∧ other.target = forward.target := by
  obtain ⟨other, isIn, rfl⟩ := mem_map.1 member
  refine ⟨other, isIn, ?_⟩
  split <;> exact ⟨rfl, rfl⟩

theorem RouteState.Sound.clearNode (sound : state.Sound) {node : List Char}
    (fits : (RouteStep.clearNode node).fits state = true) : (state.clearNode node).Sound := by
  replace fits := of_decide_eq_true fits
  have routes : ∀ entry ∈ state.table, ∀ target, entry.info.target = some target → entry.info.nodeName = target.1 :=
    fun entry _ target routed => nodeName_of_target routed
  refine ⟨(filter_sublist.map Counted.key).nodup sound.unique,
    fun entry member => sound.entries entry (mem_of_mem_filter member), fun name => ?_, fun also => ?_, sound.events⟩
  · have before := sound.counts_forget (fun entry => decide (entry.info.nodeName = node)) name
    by_cases dropped : name ∈ ((state.sent ++ state.handled).filter fun forward =>
        decide (forward.target.1 = node)).map Forward.name
    · obtain ⟨forward, member, rfl⟩ := mem_map.1 dropped
      obtain ⟨isIn, gone⟩ := mem_filter.1 member
      obtain ⟨stored, flying⟩ := fits forward isIn (of_decide_eq_true gone)
      have none : countOf (state.clearNode node).table forward.name = 0 := by
        refine countOf_absent fun entry isLeft same => ?_
        obtain ⟨inTable, kept⟩ := mem_filter.1 isLeft
        dsimp only at kept
        rw [decide_eq_true (stored entry inTable same)] at kept
        cases kept
      have silent (other : Bool) : (state.clearNode node).asked forward.name other = 0 := by
        have each (list : List Forward) (part : ∀ forward ∈ list, forward ∈ state.sent ++ state.handled)
            (names : List (List Char)) : ((list.map fun forward => if forward.name ∈ names then
              { forward with counts := false } else forward).filter fun forward => forward.target.1 ≠ node).countP
                (Forward.isFor forward.name other) = 0 := by
          refine countP_eq_zero.2 fun left isLeft same => ?_
          obtain ⟨mapped, other⟩ := mem_filter.1 isLeft
          obtain ⟨source, inList, sameName, sameTarget⟩ := mem_forget mapped
          simp only [Forward.isFor, Bool.and_eq_true, decide_eq_true_eq] at same
          exact of_decide_eq_true other (sameTarget ▸ flying source (part source inList) (sameName.trans same.1.2))
        rw [RouteState.asked]
        exact Nat.add_eq_zero_iff.2 ⟨each _ (fun _ isSent => mem_append_left _ isSent) _,
          each _ (fun _ isHandled => mem_append_right _ isHandled) _⟩
      rw [silent, silent, RmtMatches.stored, none]
      show _ = (if forward.name ∈ _ then 0 else _) + _
      rw [if_pos dropped]
      rfl
    · have kept (other : Bool) : (state.clearNode node).asked name other =
          (state.forget fun entry => decide (entry.info.nodeName = node)).asked name other := by
        have each (list : List Forward) (part : ∀ forward ∈ list, forward ∈ state.sent ++ state.handled)
            (names : List (List Char)) : name ∉ ((list.map fun forward => if forward.name ∈ names then
              { forward with counts := false } else forward).filter fun forward =>
                decide (forward.target.1 = node)).map Forward.name := by
          intro isIn
          obtain ⟨left, isLeft, sameName⟩ := mem_map.1 isIn
          obtain ⟨mapped, gone⟩ := mem_filter.1 isLeft
          obtain ⟨source, inList, same, sameTarget⟩ := mem_forget mapped
          refine dropped (mem_map.2 ⟨source, mem_filter.2 ⟨part source inList, ?_⟩, same.trans sameName⟩)
          rw [sameTarget]
          exact gone
        rw [RouteState.asked, RouteState.asked]
        exact congrArg₂ (· + ·) (isFor_left (each _ (fun _ isSent => mem_append_left _ isSent) _) other)
          (isFor_left (each _ (fun _ isHandled => mem_append_right _ isHandled) _) other)
      rw [kept, kept]
      show _ = (if name ∈ _ then 0 else _) + _
      rw [if_neg dropped]
      exact before
  · have before := sound.nexts also
    have parts := @wanting_filter state.table also fun entry => decide (entry.info.nodeName = node)
    show (if also.1 = node then 0 else state.next also) + (List.filter _ _ : List Forward).countP _ =
      wanting (state.table.filter fun entry => !decide (entry.info.nodeName = node)) also +
        (List.filter _ _ : List Forward).countP _
    rw [goesTo_left, goesTo_left]
    by_cases gone : also.1 = node
    · have none : ¬ 0 < wanting (state.table.filter fun entry => !decide (entry.info.nodeName = node)) also := by
        rw [wanting_pos]
        rintro ⟨entry, isLeft, routed⟩
        obtain ⟨inTable, kept⟩ := mem_filter.1 isLeft
        rw [decide_eq_true ((routes entry inTable also routed).trans gone)] at kept
        cases kept
      rw [if_pos gone, if_pos gone, if_pos gone]
      omega
    · have none : ¬ 0 < wanting (state.table.filter fun entry => decide (entry.info.nodeName = node)) also := by
        rw [wanting_pos]
        rintro ⟨entry, isRemoved, routed⟩
        obtain ⟨inTable, removed⟩ := mem_filter.1 isRemoved
        exact gone ((routes entry inTable also routed).symm.trans (of_decide_eq_true removed))
      rw [if_neg gone, if_neg gone, if_neg gone]
      simp only [RouteState.due, RouteState.forget, goesTo_forget] at before ⊢
      omega

theorem RouteState.Sound.step (sound : state.Sound) {next : RouteState} {step : RouteStep}
    (fits : step.fits state = true) (moved : state.step step = some next) : next.Sound := by
  cases step with
  | enableRemoteEvent source enable connected begins =>
    cases moved
    exact sound.enableRemoteEvent fits
  | handle forward =>
    obtain ⟨member, ⟨⟩⟩ := Option.ite_none_right_eq_some.1 moved
    exact sound.handle member fits
  | complete forward succeeds =>
    obtain ⟨member, ⟨⟩⟩ := Option.ite_none_right_eq_some.1 moved
    exact sound.complete member fits
  | fail forward => cases fits
  | clearPort port begins =>
    cases moved
    exact sound.clearPort fits
  | clearNode node =>
    obtain ⟨_, ⟨⟩⟩ := Option.ite_none_left_eq_some.1 moved
    exact sound.clearNode fits

/-- In every run whose steps fit, a request goes on exactly where the count of its match leaves or reaches none, and
whenever nothing is on the way, the counts and the next nodes agree with the requests that succeeded. -/
theorem routeAgrees_of_fits (state : RouteState)
    (reachable : (eventRoute.restrict fun state step => step.fits state = true).Reachable state) :
    (∀ event ∈ state.events, event.forwarded = event.crosses) ∧
      (state.sent = [] → state.handled = [] → state.Agrees) := by
  have sound : state.Sound := by
    refine reachable.invariant sound_routeStart fun _ _ _ _ before moved => ?_
    obtain ⟨fits, moved⟩ := Machine.restrict_step.1 moved
    exact before.step fits moved
  refine ⟨sound.events, fun noneSent noneHandled => ⟨fun name => ?_, fun target => ?_⟩⟩
  · have before := sound.counts name
    rw [RouteState.asked, RouteState.asked, noneSent, noneHandled] at before
    simpa using before
  · have before := sound.nexts target
    rw [RouteState.due, RouteState.due, noneSent] at before
    replace before : state.next target = wanting state.table target := before
    rw [before, wanting_pos]
    constructor
    · rintro ⟨entry, member, routed⟩
      exact ⟨entry, member, (sound.entries entry member).positive, routed⟩
    · rintro ⟨entry, member, _, routed⟩
      exact ⟨entry, member, routed⟩

/-- A match that comes from a port, for the node `n`. -/
def portMatch (port : Nat) : RmtMatch := ⟨['/', 'a'], ['b'], some ['c'], some port, some ['/', 'n', '/', 'x']⟩

/-- The match that the node `n` gets for it. -/
def nodeMatch : List Char × RmtMatch := (['n'], ⟨['/', 'a'], ['b'], some ['c'], none, some ['/', 'x']⟩)

/-- Two ports enable an event of one node, and one of them disables it. -/
theorem routeAgrees_twoPorts :
    ∃ state : RouteState, state.events = [⟨0, 1, true⟩, ⟨1, 2, false⟩, ⟨0, 1, true⟩, ⟨1, 0, true⟩] ∧
      state.next nodeMatch = 1 ∧ (∀ event ∈ state.events, event.forwarded = event.crosses) ∧ state.Agrees := by
  have ran : ((eventRoute.restrict fun state step => step.fits state = true).run RouteState.start
      [.enableRemoteEvent (portMatch 1) true true true, .enableRemoteEvent (portMatch 1) true true true,
        .enableRemoteEvent (portMatch 2) true true true, .handle ⟨(portMatch 1).toString, nodeMatch, true, true⟩,
        .handle ⟨(portMatch 2).toString, nodeMatch, true, true⟩,
        .complete ⟨(portMatch 2).toString, nodeMatch, true, true⟩ true,
        .enableRemoteEvent (portMatch 2) false true true, .handle ⟨(portMatch 2).toString, nodeMatch, false, true⟩,
        .complete ⟨(portMatch 1).toString, nodeMatch, true, true⟩ true,
        .complete ⟨(portMatch 2).toString, nodeMatch, false, true⟩ true]).map
          (fun state => (state.sent, state.handled, state.events, state.next nodeMatch)) =
      some ([], [], [⟨0, 1, true⟩, ⟨1, 2, false⟩, ⟨0, 1, true⟩, ⟨1, 0, true⟩], 1) := by decide +kernel
  obtain ⟨state, ran, same⟩ := Option.map_eq_some_iff.1 ran
  obtain ⟨sent, rest⟩ := Prod.mk.inj same
  obtain ⟨handled, rest⟩ := Prod.mk.inj rest
  obtain ⟨events, next⟩ := Prod.mk.inj rest
  obtain ⟨right, agrees⟩ := routeAgrees_of_fits state (Machine.Reachable.start.run ran)
  exact ⟨state, events, next, right, agrees sent handled⟩

/-- There is no proxy for the node when an event is enabled. The match is counted all the same, so the second request is
answered with a success, and the node never hears of the event. -/
theorem forwardFails_staysCounted :
    ∃ state, eventRoute.Reachable state ∧ state.sent = [] ∧ state.handled = [] ∧
      state.table.stored (portMatch 1).toString = 2 ∧ state.net (portMatch 1).toString = 1 ∧
        state.next nodeMatch = 0 ∧ ¬(∀ event ∈ state.events, event.forwarded = event.crosses) ∧ ¬state.Agrees := by
  have ran : (eventRoute.run RouteState.start
      [.enableRemoteEvent (portMatch 1) true true false, .enableRemoteEvent (portMatch 1) true true true]).map
        (fun state => ((state.sent, state.handled, state.events), state.next nodeMatch,
          state.table.stored (portMatch 1).toString, state.net (portMatch 1).toString)) =
      some (([], [], [⟨0, 1, false⟩, ⟨1, 2, false⟩]), 0, 2, 1) := by decide +kernel
  obtain ⟨state, ran, same⟩ := Option.map_eq_some_iff.1 ran
  obtain ⟨way, rest⟩ := Prod.mk.inj same
  obtain ⟨sent, way⟩ := Prod.mk.inj way
  obtain ⟨handled, events⟩ := Prod.mk.inj way
  obtain ⟨next, rest⟩ := Prod.mk.inj rest
  obtain ⟨stored, net⟩ := Prod.mk.inj rest
  refine ⟨state, Machine.Reachable.start.run ran, sent, handled, stored, net, next, ?_, fun agrees => ?_⟩
  · rw [events]
    decide
  · have counts := agrees.counts (portMatch 1).toString
    rw [stored, net] at counts
    cases counts

end RpcFrmwrk.Rpc
