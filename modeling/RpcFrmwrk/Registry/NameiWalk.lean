import RpcFrmwrk.Registry.Namei

/-! For which paths `Namei` and `GetParentDir` reach what the walk from left to right does. Owns
what the loops of `Namei` leave of the components; what the walk leaves of them; `resolves_iff`, and
a path for which they differ. -/

namespace RpcFrmwrk.Registry

open RpcFrmwrk.Library List

variable {name : Stdstr} {names rest stack : List Stdstr} {strPath : Stdstr}
variable {vecNames others left : List Stdstr}

def kept (name : Stdstr) : Bool := decide (name ≠ [] ∧ name ≠ dot)

theorem dotdot_mem_kept : dotdot ∈ names.filter kept ↔ dotdot ∈ names := by
  rw [mem_filter, and_iff_left (by decide)]

def firstNames (first : Stdstr) : List Stdstr :=
  if first = [] then [[slash]] else if first = dotdot then [] else [first]

theorem push_eq (some : name ≠ []) :
    (if name ≠ dot then vecNames ++ [name] else vecNames) = vecNames ++
    ([name].filter kept).reverse := by
  by_cases same : name = dot
  · have ignored : kept name = false := decide_eq_false fun both => both.2 same
    rw [if_neg (not_not.2 same), filter_cons, ignored]
    exact (append_nil _).symm
  · have isKept : kept name = true := decide_eq_true ⟨some, same⟩
    rw [if_pos same, filter_cons, if_pos isKept]
    rfl

theorem filter_reverse_append (last : Stdstr) :
    ((names ++ [last]).filter kept).reverse = ([last].filter kept).reverse ++
    (names.filter kept).reverse := by
  rw [filter_append, reverse_append]

theorem decide_mem_append (last : Stdstr) :
    decide (dotdot ∈ names ++ [last]) = (decide (last = dotdot) || decide (dotdot ∈ names)) := by
  rw [← Bool.decide_or, decide_eq_decide, mem_append, mem_singleton, or_comm, eq_comm]

variable {rounds : Nat} {strTemp first : Stdstr} {bBack : Bool} {right : List Stdstr} {fs : Tree}
    {rootDir : fs.Dir} {hcurDir : Option fs.Dir}

theorem nameiLoop_slash {pos : Nat}
    {front last : Stdstr} (found : lastSep slash strTemp = some pos)
    (split : strTemp = front ++ slash :: last)
    (length : front.length = pos) (takePos : strTemp.take pos = front)
    (takeNext : strTemp.take (pos + 1) = front ++ [slash])
    (dropNext : strTemp.drop (pos + 1) = last) :
    nameiLoop (rounds + 1) strTemp vecNames bBack =
      if front = [] ∧ last = [] then (true, vecNames ++ [[slash]], bBack)
      else
        nameiLoop rounds (if front = [] then [slash] else front) (vecNames ++ ([last].filter kept).reverse)
          (bBack || decide (last = dotdot)) := by
  have total := congrArg List.length split
  rw [length_append, length_cons, length] at total
  have some : strTemp ≠ [] := by
    intro empty
    rw [empty, length_nil] at total
    omega
  rw [nameiLoop, if_neg some, found]
  dsimp only
  rw [takePos, takeNext, dropNext]
  by_cases atRoot : pos = 0
  · have empty : front = [] := eq_nil_of_length_eq_zero (length.trans atRoot)
    rw [if_neg (fun both => Nat.ne_of_gt both.1 atRoot), empty]
    by_cases alone : last = []
    · rw [if_pos ⟨atRoot, by rw [total, atRoot, alone]; rfl⟩, if_pos ⟨rfl, alone⟩, split, empty, alone]
      rfl
    · have few : 0 < last.length := length_pos_of_ne_nil alone
      have many : ¬(pos = 0 ∧ strTemp.length = 1) := by omega
      have none : ¬0 < pos := by omega
      rw [if_neg many, if_neg none, push_eq alone, if_neg (fun both => alone both.2), if_pos rfl]
      rfl
  · have notEmpty : front ≠ [] := fun empty => atRoot (length.symm.trans (congrArg List.length empty))
    have behind : 0 < pos := Nat.pos_of_ne_zero atRoot
    have others : ¬(front = [] ∧ last = []) := fun both => notEmpty both.1
    by_cases alone : last = []
    · have ignored : kept [] = false := by decide
      have ends : pos + 1 = strTemp.length := by rw [total, alone]; rfl
      rw [if_pos ⟨behind, ends⟩, if_neg others, if_neg notEmpty, alone, filter_cons, ignored,
        decide_eq_false (by decide : [] ≠ dotdot), Bool.or_false]
      exact congrArg (nameiLoop rounds front · bBack) (append_nil _).symm
    · have few : 0 < last.length := length_pos_of_ne_nil alone
      have ends : ¬(0 < pos ∧ pos + 1 = strTemp.length) := by omega
      have root : ¬(pos = 0 ∧ strTemp.length = 1) := fun both => atRoot both.1
      rw [if_neg ends, if_neg root, if_pos behind, push_eq alone, if_neg others, if_neg notEmpty]

theorem nameiLoop_eq
    (some : strTemp ≠ []) (enough : strTemp.length ≤ rounds)
    (parts : segments slash strTemp = first :: others) :
    nameiLoop rounds strTemp vecNames bBack =
      (decide (first ≠ dotdot), vecNames ++ (others.filter kept).reverse ++ firstNames first,
        bBack || decide (dotdot ∈ others)) := by
  induction rounds generalizing strTemp first others vecNames bBack with
  | zero => exact absurd (eq_nil_of_length_eq_zero (Nat.le_zero.1 enough)) some
  | succ rounds ih =>
    cases found : lastSep slash strTemp with
    | none =>
      rw [segments_of_absent (lastSep_none found)] at parts
      cases parts
      rw [nameiLoop, if_neg some, found, firstNames, if_neg some]
      by_cases back : strTemp = dotdot
      · simp [back]
      · simp [back]
    | some pos =>
      obtain ⟨front, last, split, absent, length, takePos, takeNext, dropNext⟩ := lastSep_cut found
      have total := congrArg List.length split
      rw [length_append, length_cons] at total
      rw [nameiLoop_slash found split length takePos takeNext dropNext]
      rw [split, segments_append, segments_of_absent absent] at parts
      by_cases atRoot : front = []
      · rw [atRoot] at parts
        obtain ⟨isFirst, isLast⟩ := List.cons.inj parts
        have isLast : [last] = others := isLast
        rw [← isFirst, ← isLast]
        by_cases alone : last = []
        · rw [if_pos ⟨atRoot, alone⟩, alone, decide_eq_false (by decide : dotdot ∉ [[]]), Bool.or_false]
          simp [kept, firstNames, dotdot]
        · have few : 0 < last.length := length_pos_of_ne_nil alone
          have slashParts : segments slash [slash] = [] :: [[]] := rfl
          have nothing : ([[]] : List Stdstr).filter kept = [] := by decide
          have same : decide (dotdot ∈ [last]) = decide (last = dotdot) :=
            decide_eq_decide.2 (mem_singleton.trans eq_comm)
          rw [if_neg (fun both => alone both.2), if_pos atRoot,
            ih (cons_ne_nil _ _) (by rw [length_singleton]; omega) slashParts, nothing,
            reverse_nil, append_nil, decide_eq_false (by decide : dotdot ∉ [[]]), Bool.or_false, same]
      · obtain ⟨head, tail, ofFront⟩ := exists_cons_of_ne_nil (segments_ne_nil front : segments slash front ≠ [])
        rw [ofFront] at parts
        obtain ⟨isFirst, isRest⟩ := List.cons.inj parts
        have isRest : tail ++ [last] = others := isRest
        rw [if_neg (fun both => atRoot both.1), if_neg atRoot, ih atRoot (by omega) ofFront, ← isFirst,
          ← isRest, filter_reverse_append, decide_mem_append, append_assoc vecNames, Bool.or_assoc]

/-! ### The components behind the last `..` -/

theorem behindBack_of_none (none : dotdot ∉ names) : behindBack names = names := by
  cases names with
  | nil => rfl
  | cons name rest =>
    rw [mem_cons, not_or] at none
    rw [behindBack, if_neg none.2, if_neg fun same => none.1 same.symm]

theorem behindBack_cons : behindBack (dotdot :: rest) = behindBack rest := by
  rw [behindBack]
  by_cases later : dotdot ∈ rest
  · rw [if_pos later]
  · rw [if_neg later, if_pos rfl, behindBack_of_none later]

theorem dotdot_not_mem_behindBack (names : List Stdstr) : dotdot ∉ behindBack names := by
  induction names with
  | nil => exact not_mem_nil
  | cons name rest ih =>
    rw [behindBack]
    split
    · exact ih
    · rename_i later
      split
      · exact later
      · rename_i different
        rw [mem_cons, not_or]
        exact ⟨fun same => different same.symm, later⟩

theorem upToBack_append (names : List Stdstr) : upToBack names ++ behindBack names = names := by
  induction names with
  | nil => rfl
  | cons name rest ih =>
    rw [upToBack, behindBack]
    split
    · rw [cons_append, ih]
    · split
      · rfl
      · rfl

theorem behindBack_filter (names : List Stdstr) : behindBack (names.filter kept) =
    (behindBack names).filter kept := by
  induction names with
  | nil => rfl
  | cons name rest ih =>
    have isKept : kept dotdot = true := by decide
    rw [filter_cons, behindBack]
    by_cases keep : kept name = true
    · rw [if_pos keep, behindBack]
      by_cases later : dotdot ∈ rest
      · rw [if_pos (dotdot_mem_kept.2 later), if_pos later, ih]
      · rw [if_neg fun member => later (dotdot_mem_kept.1 member), if_neg later]
        by_cases back : name = dotdot
        · rw [if_pos back, if_pos back]
        · rw [if_neg back, if_neg back, filter_cons, if_pos keep]
    · have different : name ≠ dotdot := fun same => keep (same ▸ isKept)
      rw [if_neg keep, ih]
      by_cases later : dotdot ∈ rest
      · rw [if_pos later]
      · rw [if_neg later, if_neg different, behindBack_of_none later, filter_cons, if_neg keep]

/-- The loop over the names leaves the first one and those behind the last `..`. -/
theorem backLoop_eq {head : Stdstr} (front : List Stdstr) :
    backLoop (front ++ [head]) rest =
      head :: (if dotdot ∈ rest then behindBack rest else front.reverse ++ rest) := by
  induction rest generalizing front with
  | nil =>
    rw [backLoop, if_neg not_mem_nil, reverse_append, append_nil]
    rfl
  | cons name rest ih =>
    by_cases back : name = dotdot
    · rw [if_pos (by rw [back]; exact mem_cons_self), back, behindBack_cons]
      induction front with
      | nil =>
        rw [nil_append, backLoop, if_neg (not_not.2 rfl), if_pos (Nat.le_of_eq rfl : [head].length ≤ 1)]
        have erased := ih []
        rw [nil_append] at erased
        rw [erased]
        split
        · rfl
        · rename_i none
          rw [behindBack_of_none none]
          rfl
      | cons before front innerHypothesis =>
        have many : ¬(before :: front ++ [head]).length ≤ 1 := by
          rw [length_append, length_cons, length_singleton]
          omega
        rw [backLoop, if_neg (not_not.2 rfl), if_neg many]
        exact innerHypothesis
    · have same : dotdot ∈ name :: rest ↔ dotdot ∈ rest := by
        rw [mem_cons]
        exact or_iff_right fun is => back is.symm
      have pushed := ih (name :: front)
      rw [cons_append] at pushed
      rw [backLoop, if_pos back, pushed]
      by_cases later : dotdot ∈ rest
      · rw [if_pos later, if_pos (same.2 later), behindBack, if_pos later]
      · rw [if_neg later, if_neg fun member => later (same.1 member), reverse_cons, append_assoc]
        rfl

def Fitting (strPath : Stdstr) : Prop := ¬(strPath = [] ∨ regMaxPath < strPath.length)

theorem namei_back (fitting : Fitting strPath) (parts : segments slash strPath = dotdot :: others) :
    namei strPath = some (others.filter kept).reverse := by
  have notEmpty : strPath ≠ [] := fun empty => fitting (.inl empty)
  rw [namei, if_neg fitting, nameiLoop_eq notEmpty (Nat.le_refl _) parts]
  dsimp only
  rw [decide_eq_false (not_not.2 rfl), if_neg Bool.false_ne_true, firstNames, if_neg (by decide), if_pos rfl,
    append_nil, nil_append]

theorem namei_eq (fitting : Fitting strPath)
    (parts : segments slash strPath = first :: others) (forward : first ≠ dotdot) :
    namei strPath = some ((if first = [] then [slash] else first) :: behindBack (others.filter kept)) := by
  have notEmpty : strPath ≠ [] := fun empty => fitting (.inl empty)
  have head : firstNames first = [if first = [] then [slash] else first] := by
    rw [firstNames, if_neg forward]
    split
    · rfl
    · rfl
  have notBack : (if first = [] then [slash] else first) ≠ dotdot := by
    split
    · decide
    · exact forward
  rw [namei, if_neg fitting, nameiLoop_eq notEmpty (Nat.le_refl _) parts]
  dsimp only
  rw [decide_eq_true forward, if_pos rfl, nil_append, head, Bool.false_or]
  generalize (if first = [] then [slash] else first) = start at *
  have turned : (if 1 < ((others.filter kept).reverse ++ [start]).length then ((others.filter kept).reverse ++ [start]).reverse
      else (others.filter kept).reverse ++ [start]) = start :: others.filter kept := by
    split
    · rw [reverse_append, reverse_reverse]
      rfl
    · rename_i few
      rw [length_append, length_reverse, length_singleton] at few
      have none : others.filter kept = [] := eq_nil_of_length_eq_zero (by omega)
      rw [none]
      rfl
  rw [turned]
  by_cases back : dotdot ∈ others
  · have passed := @backLoop_eq (others.filter kept) start []
    rw [nil_append, if_pos (dotdot_mem_kept.2 back)] at passed
    rw [decide_eq_true back, if_pos rfl, backLoop, if_pos notBack, passed]
  · rw [decide_eq_false back, if_neg Bool.false_ne_true, behindBack_of_none fun member => back (dotdot_mem_kept.1 member)]

/-! ### What the walk leaves -/

theorem walk_nil (stack : List Stdstr) : walk stack [] = some stack.reverse := by
  rw [walk.eq_def]

theorem walk_cons (stack : List Stdstr) (name : Stdstr) (rest : List Stdstr) :
    walk stack (name :: rest) =
      if name = [] ∨ name = dot then walk stack rest
      else if name = dotdot then if stack = [] then none else walk stack.tail rest
      else if nameLimit < name.length then none
      else walk (name :: stack) rest := by
  rw [walk.eq_def]
  cases stack with
  | nil => rfl
  | cons top stack => rfl

theorem walk_append (left right : List Stdstr) (stack : List Stdstr) :
    walk stack (left ++ right) = (walk stack left).bind fun names => walk names.reverse right := by
  induction left generalizing stack with
  | nil => rw [nil_append, walk_nil, Option.bind_some, reverse_reverse]
  | cons name left ih =>
    rw [cons_append, walk_cons, walk_cons]
    split
    · exact ih stack
    · split
      · split
        · rfl
        · exact ih stack.tail
      · split
        · rfl
        · exact ih (name :: stack)

theorem walk_long (long : ∃ name ∈ names, nameLimit < name.length)
    (stack : List Stdstr) : walk stack names = none := by
  induction names generalizing stack with
  | nil =>
    obtain ⟨name, member, _⟩ := long
    exact absurd member not_mem_nil
  | cons name rest ih =>
    have later : ¬nameLimit < name.length → ∃ name ∈ rest, nameLimit < name.length := by
      intro short
      obtain ⟨other, member, isLong⟩ := long
      rcases mem_cons.1 member with same | behind
      · exact absurd (same ▸ isLong) short
      · exact ⟨other, behind, isLong⟩
    rw [walk_cons]
    split
    · rename_i ignored
      apply ih
      apply later
      rcases ignored with empty | single
      · rw [empty]
        decide
      · rw [single]
        decide
    · split
      · rename_i back
        have behind := later (by rw [back]; decide)
        split
        · rfl
        · exact ih behind stack.tail
      · split
        · rfl
        · rename_i short
          exact ih (later short) (name :: stack)

theorem walk_forward (forward : dotdot ∉ names) (short : ∀ name ∈ names, name.length ≤ nameLimit)
    (stack : List Stdstr) :
    walk stack names = some (stack.reverse ++ names.filter kept) := by
  induction names generalizing stack with
  | nil => rw [walk_nil, filter_nil, append_nil]
  | cons name rest ih =>
    rw [mem_cons, not_or] at forward
    obtain ⟨first, others⟩ := forall_mem_cons.1 short
    rw [walk_cons]
    by_cases ignored : name = [] ∨ name = dot
    · have notKept : kept name = false := decide_eq_false (by rw [← not_or]; exact not_not.2 ignored)
      rw [if_pos ignored, ih forward.2 others, filter_cons, notKept]
      rfl
    · have isKept : kept name = true := decide_eq_true (not_or.1 ignored)
      rw [if_neg ignored, if_neg fun same => forward.1 same.symm, if_neg (Nat.not_lt.2 first),
        ih forward.2 others, filter_cons, if_pos isKept, reverse_cons, append_assoc]
      rfl

theorem walk_eq (short : ∀ name ∈ names, name.length ≤ nameLimit) :
    walk [] names = (walk [] (upToBack names)).map (· ++ (behindBack names).filter kept) := by
  have behind : ∀ name ∈ behindBack names, name.length ≤ nameLimit := by
    intro name member
    apply short
    rw [← upToBack_append names]
    exact mem_append_right _ member
  have split : walk [] names = walk [] (upToBack names ++ behindBack names) := by rw [upToBack_append]
  rw [split, walk_append]
  cases walk [] (upToBack names) with
  | none => rfl
  | some left =>
    rw [Option.bind_some, walk_forward (dotdot_not_mem_behindBack names) behind, reverse_reverse]
    rfl

theorem mem_walk (walked : walk stack names = some left) :
    ∀ name ∈ left, name ∈ stack ∨ name ∈ names ∧ kept name = true := by
  induction names generalizing stack with
  | nil =>
    rw [walk_nil] at walked
    cases walked
    intro name member
    exact .inl (mem_reverse.1 member)
  | cons first rest ih =>
    rw [walk_cons] at walked
    intro name member
    split at walked
    · rcases ih walked name member with before | behind
      · exact .inl before
      · exact .inr ⟨mem_cons_of_mem _ behind.1, behind.2⟩
    · rename_i notIgnored
      split at walked
      · split at walked
        · cases walked
        · rcases ih walked name member with before | behind
          · exact .inl (mem_of_mem_tail before)
          · exact .inr ⟨mem_cons_of_mem _ behind.1, behind.2⟩
      · split at walked
        · cases walked
        · rcases ih walked name member with before | behind
          · rcases mem_cons.1 before with same | early
            · exact .inr ⟨same ▸ mem_cons_self, same ▸ decide_eq_true (not_or.1 notIgnored)⟩
            · exact .inl early
          · exact .inr ⟨mem_cons_of_mem _ behind.1, behind.2⟩

abbrev namesTree : Tree where
  Dir := List Stdstr
  enter dir name := some (dir ++ [name.take nameLimit])
  compared dir name := by rw [List.take_take, Nat.min_self]

theorem walkDirs_namesTree (dir : List Stdstr) (dirs : List Stdstr) :
    namesTree.walkDirs dir dirs = some (dir ++ dirs.map (·.take nameLimit)) := by
  induction dirs generalizing dir with
  | nil => exact congrArg some (append_nil dir).symm
  | cons name rest ih =>
    have entered := ih (dir ++ [name.take nameLimit])
    rw [append_assoc] at entered
    exact entered

theorem reach_namesTree (dirs : List Stdstr) (file : Option Stdstr) :
    namesTree.reach [] dirs file = .found (dirs.map (·.take nameLimit)) file := by
  have walked := walkDirs_namesTree [] dirs
  rw [nil_append] at walked
  unfold Tree.reach
  rw [walked]

theorem map_take_of_short {dirs : List Stdstr} (short : ∀ name ∈ dirs, name.length ≤ nameLimit) :
    dirs.map (·.take nameLimit) = dirs :=
  (map_congr_left fun name member => take_of_length_le (short name member)).trans (map_id' dirs)

theorem eq_of_dropLast (front : left.dropLast = right.dropLast)
    (last : left.getLast? = right.getLast?) : left = right := by
  cases found : left.getLast? with
  | none =>
    rw [found] at last
    rw [List.getLast?_eq_none_iff.1 found, List.getLast?_eq_none_iff.1 last.symm]
  | some item =>
    rw [found] at last
    obtain ⟨before, ofLeft⟩ := List.getLast?_eq_some_iff.1 found
    obtain ⟨also, ofRight⟩ := List.getLast?_eq_some_iff.1 last.symm
    rw [ofLeft, ofRight, dropLast_concat, dropLast_concat] at front
    rw [ofLeft, ofRight, front]

theorem eq_of_root (leftNames : [slash] ∉ left) (rightNames : [slash] ∉ right)
    (front : left.dropLast = right.dropLast)
    (last : left.getLastD [slash] = right.getLastD [slash]) : left = right := by
  apply eq_of_dropLast front
  rw [getLastD_eq_getLast?, getLastD_eq_getLast?] at last
  cases first : left.getLast? with
  | none =>
    cases second : right.getLast? with
    | none => rfl
    | some item =>
      rw [first, second] at last
      have root : [slash] = item := last
      exact absurd (mem_of_getLast? second) (root ▸ rightNames)
  | some item =>
    cases second : right.getLast? with
    | none =>
      rw [first, second] at last
      have root : item = [slash] := last
      exact absurd (mem_of_getLast? first) (root ▸ leftNames)
    | some other =>
      rw [first, second] at last
      exact congrArg some last

section

variable {others : List Stdstr}

/-- What is left behind the last `..` does not depend on the empty component at the root. -/
theorem behindBack_root : (behindBack ([] :: others)).filter kept = behindBack (others.filter kept) := by
  rw [behindBack_filter, behindBack]
  by_cases back : dotdot ∈ others
  · rw [if_pos back]
  · rw [if_neg back, if_neg (by decide : ([] : Stdstr) ≠ dotdot), behindBack_of_none back]
    rfl

theorem getParentDir_absolute (fs : Tree) (rootDir : fs.Dir) (fitting : Fitting strPath)
    (absolute : strPath.head? = some slash) (parts : segments slash strPath = [] :: others) :
    getParentDir fs rootDir none strPath =
      fs.reach rootDir (behindBack (others.filter kept)).dropLast (some ((behindBack (others.filter kept)).getLastD [slash])) := by
  have names := namei_eq fitting parts (by decide)
  rw [if_pos rfl] at names
  rw [getParentDir, names]
  dsimp only
  rw [decide_eq_true absolute, List.getLast?_cons, ← getLastD_eq_getLast?]
  rfl

end

theorem reference_none
    (fitting : Fitting strPath)
    (kind : hcurDir.isNone = decide (strPath.head? = some slash))
    (rejected : walk [] (segments slash strPath) = none) :
    reference fs rootDir hcurDir strPath = .error := by
  have valid : ¬(strPath = [] ∨ regMaxPath < strPath.length ∨ hcurDir.isNone ≠ decide (strPath.head? = some slash)) := by
    rw [← or_assoc, not_or]
    exact ⟨fitting, not_not.2 kind⟩
  rw [reference, if_neg valid, rejected]

theorem reference_some
    (fitting : Fitting strPath)
    (kind : hcurDir.isNone = decide (strPath.head? = some slash))
    (walked : walk [] (segments slash strPath) = some names) :
    reference fs rootDir hcurDir strPath =
      fs.reach (hcurDir.getD rootDir) names.dropLast
        (if hcurDir.isNone then some (names.getLastD [slash]) else names.getLast?) := by
  have valid : ¬(strPath = [] ∨ regMaxPath < strPath.length ∨ hcurDir.isNone ≠ decide (strPath.head? = some slash)) := by
    rw [← or_assoc, not_or]
    exact ⟨fitting, not_not.2 kind⟩
  rw [reference, if_neg valid, walked]

theorem mem_left (walked : walk [] (segments slash strPath) = some left)
    (short : ∀ name ∈ segments slash strPath, name.length ≤ nameLimit) :
    (∀ name ∈ left, name.length ≤ nameLimit) ∧ [slash] ∉ left := by
  have among : ∀ name ∈ left, name ∈ segments slash strPath := by
    intro name member
    exact ((mem_walk walked name member).resolve_left not_mem_nil).1
  refine ⟨fun name member => short name (among name member), ?_⟩
  intro member
  exact absent_of_mem_segments (among _ member) mem_cons_self

theorem eq_of_found {code walked : List Stdstr} {fileCode fileWalk : Option Stdstr}
    (codeShort : ∀ name ∈ code, name.length ≤ nameLimit)
    (walkShort : ∀ name ∈ walked, name.length ≤ nameLimit)
    (same : namesTree.reach [] code.dropLast fileCode = namesTree.reach [] walked.dropLast fileWalk) :
    code.dropLast = walked.dropLast ∧ fileCode = fileWalk := by
  rw [reach_namesTree, reach_namesTree, map_take_of_short fun name member => codeShort name ((dropLast_sublist _).subset member),
    map_take_of_short fun name member => walkShort name ((dropLast_sublist _).subset member)] at same
  exact Outcome.found.inj same

theorem short_of_walk (walked : walk [] names = some left) : ∀ name ∈ names, name.length ≤ nameLimit := by
  intro name member
  apply Nat.le_of_not_lt
  intro long
  rw [walk_long ⟨name, member, long⟩] at walked
  cases walked

/-- An absolute path is resolved as the walk does if and only if no component is too long and those
up to the last `..` cancel out. -/
theorem resolves_absolute (fitting : Fitting strPath) (absolute : strPath.head? = some slash) :
    Resolves true strPath ↔
      (∀ name ∈ segments slash strPath, name.length ≤ nameLimit) ∧ Cancels true (segments slash strPath) := by
  have notEmpty : strPath ≠ [] := fun empty => fitting (.inl empty)
  have head := (segments_head notEmpty).2 absolute
  obtain ⟨others, parts⟩ : ∃ others, segments slash strPath = [] :: others := by
    obtain ⟨first, others, split⟩ := exists_cons_of_ne_nil (segments_ne_nil strPath : segments slash strPath ≠ [])
    rw [split, List.head?_cons] at head
    exact ⟨others, by rw [split, Option.some.inj head]⟩
  have code := @behindBack_root others
  rw [← parts] at code
  have kind : ∀ Dir : Type, (none : Option Dir).isNone = decide (strPath.head? = some slash) :=
    fun _ => (decide_eq_true absolute).symm
  rw [Cancels, if_pos rfl]
  constructor
  · intro resolves
    have same := resolves namesTree [] none rfl
    rw [getParentDir_absolute namesTree [] fitting absolute parts, ← code] at same
    cases walked : walk [] (segments slash strPath) with
    | none =>
      rw [reference_none fitting (kind _) walked, reach_namesTree] at same
      cases same
    | some left =>
      have short := short_of_walk walked
      obtain ⟨leftShort, leftNames⟩ := mem_left walked short
      rw [reference_some fitting (kind _) walked] at same
      rw [walk_eq short] at walked
      obtain ⟨front, isFront, isLeft⟩ := Option.map_eq_some_iff.1 walked
      have among : ∀ name ∈ (behindBack (segments slash strPath)).filter kept, name ∈ left := by
        intro name member
        rw [← isLeft]
        exact mem_append_right _ member
      obtain ⟨dirs, file⟩ := eq_of_found (fun name member => leftShort name (among name member)) leftShort same
      have whole := eq_of_root (fun member => leftNames (among _ member)) leftNames dirs (Option.some.inj file)
      have nothing : front = [] := by
        rw [← isLeft] at whole
        exact append_left_eq_self.1 whole.symm
      exact ⟨short, isFront.trans (congrArg some nothing)⟩
  · rintro ⟨short, cancels⟩ fs rootDir hcurDir isRoot
    have root : hcurDir = none := Option.isNone_iff_eq_none.1 isRoot
    have walked : walk [] (segments slash strPath) = some ((behindBack (segments slash strPath)).filter kept) := by
      rw [walk_eq short, cancels]
      rfl
    rw [root, getParentDir_absolute fs rootDir fitting absolute parts, ← code,
      reference_some fitting (kind _) walked]
    rfl

/-! ### Relative paths -/

section

variable {first : Stdstr} {others : List Stdstr}

theorem getParentDir_relative {fs : Tree} {rootDir curDir : fs.Dir} (fitting : Fitting strPath)
    (relative : strPath.head? ≠ some slash) (parts : segments slash strPath = first :: others)
    (some : first ≠ [])
    (forward : first ≠ dotdot) :
    getParentDir fs rootDir (.some curDir) strPath =
      fs.reach curDir (first :: behindBack (others.filter kept)).dropLast (first :: behindBack (others.filter kept)).getLast? := by
  have names := namei_eq fitting parts forward
  rw [if_neg some] at names
  rw [getParentDir, names]
  dsimp only
  rw [decide_eq_false relative]
  rfl

theorem getParentDir_back {fs : Tree} {rootDir curDir : fs.Dir} (fitting : Fitting strPath)
    (relative : strPath.head? ≠ some slash) (parts : segments slash strPath = dotdot :: others) :
    getParentDir fs rootDir (.some curDir) strPath = .fault ∨
      ∃ dirs file, getParentDir fs rootDir (.some curDir) strPath = fs.reach curDir dirs file := by
  have names := namei_back fitting parts
  rw [getParentDir, names, decide_eq_false relative]
  cases (others.filter kept).reverse with
  | nil => exact .inl rfl
  | cons head tail => exact .inr ⟨_, _, rfl⟩

theorem walk_relative (parts : segments slash strPath = first :: others) (some : first ≠ [])
    (short : ∀ name ∈ segments slash strPath, name.length ≤ nameLimit) (forward : first ≠ dotdot) :
    walk [] (segments slash strPath) = .some (first :: behindBack (others.filter kept)) ↔
      first ≠ dot ∧ (dotdot ∈ segments slash strPath → walk [] (upToBack (segments slash strPath)) = .some [first]) := by
  have member : dotdot ∈ segments slash strPath ↔ dotdot ∈ others := by
    rw [parts, mem_cons]
    exact or_iff_right fun same => forward same.symm
  rw [behindBack_filter, member]
  by_cases back : dotdot ∈ others
  · have behind : behindBack (segments slash strPath) = behindBack others := by rw [parts, behindBack, if_pos back]
    rw [walk_eq short, behind, Option.map_eq_some_iff]
    constructor
    · rintro ⟨front, isFront, whole⟩
      have one : front = [first] := @List.append_cancel_right _ front ((behindBack others).filter kept) [first] whole
      rw [one] at isFront
      have notDot : first ≠ dot := by
        rcases mem_walk isFront first mem_cons_self with before | ⟨_, isKept⟩
        · exact absurd before not_mem_nil
        · exact (of_decide_eq_true isKept).2
      exact ⟨notDot, fun _ => isFront⟩
    · rintro ⟨_, cancels⟩
      exact ⟨[first], cancels back, rfl⟩
  · have none : dotdot ∉ segments slash strPath := fun isIn => back (member.1 isIn)
    rw [walk_forward none short, behindBack_of_none back, parts, filter_cons]
    by_cases single : first = dot
    · have ignored : kept first = false := decide_eq_false fun both => both.2 single
      rw [ignored, if_neg Bool.false_ne_true]
      refine ⟨?_, fun both => absurd single both.1⟩
      intro same
      have lengths := congrArg List.length (Option.some.inj same)
      rw [length_append, length_reverse, length_nil, length_cons] at lengths
      omega
    · have isKept : kept first = true := decide_eq_true ⟨some, single⟩
      rw [if_pos isKept]
      exact ⟨fun _ => ⟨single, fun isIn => absurd isIn back⟩, fun _ => rfl⟩

/-- A relative path is resolved as the walk does if and only if no component is too long, the first one is
neither `.` nor `..`, and it is what is left of those up to the last `..`. -/
theorem resolves_relative (fitting : Fitting strPath) (relative : strPath.head? ≠ .some slash) :
    Resolves false strPath ↔
      (∀ name ∈ segments slash strPath, name.length ≤ nameLimit) ∧ Cancels false (segments slash strPath) := by
  have notEmpty : strPath ≠ [] := fun empty => fitting (.inl empty)
  obtain ⟨first, others, parts⟩ := exists_cons_of_ne_nil (segments_ne_nil strPath : segments slash strPath ≠ [])
  have notRoot : first ≠ [] := by
    intro empty
    apply relative
    apply (segments_head notEmpty).1
    rw [parts, empty, List.head?_cons]
  have kind : ∀ (Dir : Type) (dir : Dir), (Option.some dir).isNone = decide (strPath.head? = .some slash) :=
    fun _ _ => (decide_eq_false relative).symm
  have head : (segments slash strPath).head? = .some first := by rw [parts, List.head?_cons]
  rw [Cancels, if_neg Bool.false_ne_true, head, Option.map_some]
  by_cases forward : first = dotdot
  · constructor
    · intro resolves
      have same := resolves namesTree [] (.some []) rfl
      have rejected : walk [] (segments slash strPath) = none := by
        rw [parts, forward, walk_cons, if_neg (by decide), if_pos rfl, if_pos rfl]
      rw [forward] at parts
      rw [reference_none fitting (kind _ _) rejected] at same
      rcases @getParentDir_back strPath others namesTree [] [] fitting relative parts with fault | ⟨dirs, file, found⟩
      · rw [fault] at same
        cases same
      · rw [found, reach_namesTree] at same
        cases same
    · rintro ⟨_, _, notBack, _⟩
      exact absurd (congrArg Option.some forward) notBack
  · constructor
    · intro resolves
      have same := resolves namesTree [] (.some []) rfl
      rw [getParentDir_relative fitting relative parts notRoot forward] at same
      cases walked : walk [] (segments slash strPath) with
      | none =>
        rw [reference_none fitting (kind _ _) walked, reach_namesTree] at same
        cases same
      | some left =>
        have short := short_of_walk walked
        rw [reference_some fitting (kind _ _) walked] at same
        have codeShort : ∀ name ∈ first :: behindBack (others.filter kept), name.length ≤ nameLimit := by
          intro name member
          apply short
          rw [parts]
          rcases mem_cons.1 member with same | behind
          · exact mem_cons.2 (.inl same)
          · rw [behindBack_filter] at behind
            have isBehind := mem_of_mem_filter behind
            apply mem_cons_of_mem
            rw [← upToBack_append others]
            exact mem_append_right _ isBehind
        obtain ⟨dirs, file⟩ := eq_of_found codeShort (mem_left walked short).1 same
        have whole := eq_of_dropLast dirs file
        rw [← whole] at walked
        obtain ⟨notDot, cancels⟩ := (walk_relative parts notRoot short forward).1 walked
        exact ⟨short, fun isDot => notDot (Option.some.inj isDot), fun isBack => forward (Option.some.inj isBack), cancels⟩
    · rintro ⟨short, notDot, _, cancels⟩ fs rootDir hcurDir isRoot
      have walked := (walk_relative parts notRoot short forward).2 ⟨fun isDot => notDot (congrArg _ isDot), cancels⟩
      cases hcurDir with
      | none => cases isRoot
      | some curDir =>
        rw [getParentDir_relative fitting relative parts notRoot forward, reference_some fitting (kind _ _) walked]
        rfl

end

/-- The code reaches what the walk does if and only if the path is rejected before it is read, or no
component is too long and those up to the last `..` cancel out. -/
theorem resolves_iff (bAbs : Bool)
    (strPath : Stdstr) : Resolves bAbs strPath ↔ Settled bAbs strPath := by
  rw [Settled, ← or_assoc, ← or_assoc]
  by_cases rejected : (strPath = [] ∨ regMaxPath < strPath.length) ∨ bAbs ≠ decide (strPath.head? = some slash)
  · refine ⟨fun _ => .inl rejected, fun _ => ?_⟩
    intro fs rootDir hcurDir isRoot
    have both := rejected
    rw [← isRoot] at both
    rw [reference, if_pos (or_assoc.1 both), getParentDir, isRoot]
    by_cases kind : bAbs ≠ decide (strPath.head? = some slash)
    · rw [if_pos kind]
    · rw [if_neg kind, namei, if_pos (rejected.resolve_right kind)]
  · rw [or_iff_right rejected]
    obtain ⟨fitting, kind⟩ := not_or.1 rejected
    have kind := not_not.1 kind
    cases bAbs with
    | true => exact resolves_absolute fitting (of_decide_eq_true kind.symm)
    | false => exact resolves_relative fitting (of_decide_eq_false kind.symm)

/-- Of `/a/b/..`, both components are erased. -/
theorem backBehindTwo_erases : ¬∀ (bAbs : Bool) (strPath : Stdstr), Resolves bAbs strPath := by
  intro resolves
  have fitting : Fitting [47, 97, 47, 98, 47, 46, 46] := by
    rw [Fitting]
    decide
  have cancels := ((resolves_absolute fitting (by decide)).1 (resolves true _)).2
  exact absurd cancels (by decide)

end RpcFrmwrk.Registry
