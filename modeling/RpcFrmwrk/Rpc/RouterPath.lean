import RpcFrmwrk.Combase.Status

/-! The path that a request takes through the routers. A router takes the name of the next node from
the front of the path, cuts the path by the length of that name and one slash, and sends the rest to
the node, which does the same with it. Owns `getNodeName` and the places of the multihop code that
cut a path; `walk`, the hops of a path from the first node to the last one; `exact_iff_not_skewed`.
-/

namespace RpcFrmwrk.Rpc

open List

/-- A `ret` other than zero, or `std::out_of_range`. -/
inductive PathFailure where
  | status (ret : Status)
  | outOfRange
deriving DecidableEq

/-- `find_first_of` and `find_first_not_of`: the first wanted character from a position on. -/
def findFrom (wanted : Char → Bool) (path : List Char) (pos : Nat) : Option Nat :=
  ((path.drop pos).findIdx? wanted).map (pos + ·)

/-- `substr`, which throws for a position behind the end. -/
def substr (path : List Char) (pos count : Nat) : Except PathFailure (List Char) :=
  if pos ≤ path.length then .ok ((path.drop pos).take count) else .error .outOfRange

/-- `CRpcRouter::GetNodeName`. -/
def getNodeName (path : List Char) : Except PathFailure (List Char) :=
  if path.head? ≠ some '/' then .error (.status .einval)
  else
    match findFrom (· != '/') path 1 with
    | none => .error (.status .einval)
    | some pos1 => substr path pos1 ((findFrom (· == '/') path pos1).getD path.length - pos1)

/-- The path behind a node's name: `substr( 1 + strNode.size() )`, or the root. -/
def cutPath (path node : List Char) : Except PathFailure (List Char) := do
  let next ← substr path (1 + node.length) path.length
  if next = [] then .ok ['/'] else .ok next

def isStray (next : List Char) : Bool := next.head? ≠ some '/' && next.length < 2

/-- Another `ret` in place of the one that is returned. -/
def withStatus {α : Type} (ret : Status) : Except PathFailure α → Except PathFailure α
  | .error (.status _) => .error (.status ret)
  | result => result

/-- The node and the rest that `CRpcTcpBridge::CheckRouterPath` makes of a path. -/
def checkRouterPath (path : List Char) : Except PathFailure (List Char × List Char) :=
  if path = ['/'] then .error (.status .einval)
  else do
    let node ← withStatus .enotdir (getNodeName path)
    let next ← cutPath path node
    if isStray next then .error (.status .enotdir) else .ok (node, next)

/-- `CheckRouterPathAgain`, which comes to the path when the node has been connected. -/
def checkRouterPathAgain (path : List Char) : Except PathFailure (List Char × List Char) := do
  let node ← getNodeName path
  let next ← cutPath path node
  if isStray next then .error (.status .einval) else .ok (node, next)

/-- `EnableRemoteEventInternalMH`. -/
def enableRemoteEventPath (path : List Char) : Except PathFailure (List Char × List Char) :=
  if path.length < 2 then .error (.status .einval)
  else do
    let node ← getNodeName path
    let next ← cutPath path node
    .ok (node, next)

/-- The places that a path comes to. -/
inductive PathPlace where
  | checkRouterPath
  | checkRouterPathAgain
  | enableRemoteEvent
deriving DecidableEq

def PathPlace.hop : PathPlace → List Char → Except PathFailure (List Char × List Char)
  | .checkRouterPath => Rpc.checkRouterPath
  | .checkRouterPathAgain => Rpc.checkRouterPathAgain
  | .enableRemoteEvent => enableRemoteEventPath

variable {wanted : Char → Bool} {path rest node next : List Char} {pos found count trailing : Nat}
    {α : Type} {first : Except PathFailure α} {place : PathPlace} {block : PathBlock}
    {blocks : List PathBlock}

theorem findFrom_le (finds : findFrom wanted path pos = some found) : pos ≤ found := by
  obtain ⟨index, _, same⟩ := Option.map_eq_some_iff.1 finds
  omega

theorem findFrom_lt (finds : findFrom wanted path pos = some found) : found < path.length := by
  obtain ⟨index, isIndex, rfl⟩ := Option.map_eq_some_iff.1 finds
  have bound := (List.findIdx?_eq_some_iff_findIdx_eq.1 isIndex).1
  rw [length_drop] at bound
  omega

theorem substr_length (cut : substr path pos count = .ok rest) : rest.length ≤ path.length - pos := by
  unfold substr at cut
  split at cut
  · cases cut
    rw [length_take, length_drop]
    exact Nat.min_le_right _ _
  · cases cut

theorem cutPath_length (long : 2 ≤ path.length)
    (cut : cutPath path node = .ok next) : next.length < path.length := by
  unfold cutPath at cut
  cases found : substr path (1 + node.length) path.length with
  | error failure =>
    rw [found] at cut
    cases cut
  | ok rest =>
    have bound := substr_length found
    rw [found] at cut
    replace cut : (if rest = [] then Except.ok ['/'] else .ok rest) = Except.ok next := cut
    split at cut
    · cases cut
      exact long
    · cases cut
      omega

theorem getNodeName_long (named : getNodeName path = .ok node) : 2 ≤ path.length := by
  unfold getNodeName at named
  split at named
  · cases named
  · split at named
    · cases named
    · have begins := findFrom_le ‹_›
      have ends := findFrom_lt ‹_›
      omega

theorem bind_ok {β : Type} {rest : α → Except PathFailure β} {result : β}
    (returns : first >>= rest = .ok result) : ∃ value, first = .ok value ∧ rest value = .ok result := by
  cases first with
  | error failure => cases returns
  | ok value => exact ⟨value, rfl, returns⟩

theorem withStatus_ok {ret : Status} {value : α}
    (returns : withStatus ret first = .ok value) : first = .ok value := by
  cases first with
  | error failure => cases failure <;> cases returns
  | ok other => exact returns

theorem PathPlace.hop_cuts
    (hops : place.hop path = .ok (node, next)) :
    getNodeName path = .ok node ∧ cutPath path node = .ok next := by
  cases place with
  | checkRouterPath =>
    simp only [PathPlace.hop, Rpc.checkRouterPath] at hops
    split at hops
    · cases hops
    obtain ⟨name, named, rest⟩ := bind_ok hops
    obtain ⟨left, cut, rest⟩ := bind_ok rest
    split at rest <;> cases rest
    exact ⟨withStatus_ok named, cut⟩
  | checkRouterPathAgain =>
    simp only [PathPlace.hop, Rpc.checkRouterPathAgain] at hops
    obtain ⟨name, named, rest⟩ := bind_ok hops
    obtain ⟨left, cut, rest⟩ := bind_ok rest
    split at rest <;> cases rest
    exact ⟨named, cut⟩
  | enableRemoteEvent =>
    simp only [PathPlace.hop, enableRemoteEventPath] at hops
    split at hops
    · cases hops
    obtain ⟨name, named, rest⟩ := bind_ok hops
    obtain ⟨left, cut, ⟨⟩⟩ := bind_ok rest
    exact ⟨named, cut⟩

theorem PathPlace.hop_length (hops : place.hop path = .ok (node, next)) : next.length < path.length := by
  obtain ⟨named, cut⟩ := PathPlace.hop_cuts hops
  exact cutPath_length (getNodeName_long named) cut

/-- The nodes that a path visits, and how it ends. -/
structure Walk where
  visited : List (List Char)
  outcome : Except PathFailure Unit

def walk (place : Nat → PathPlace) (hop : Nat) (path : List Char) : Walk :=
  if path = ['/'] then ⟨[], .ok ()⟩
  else
    match hops : (place hop).hop path with
    | .error failure => ⟨[], .error failure⟩
    | .ok (node, next) => ⟨node :: (walk place (hop + 1) next).visited, (walk place (hop + 1) next).outcome⟩
termination_by path.length
decreasing_by all_goals exact PathPlace.hop_length hops

/-- A name in a path, with the slashes in front of it but for one. -/
structure PathBlock where
  more : Nat
  node : List Char

def PathBlock.Named (block : PathBlock) : Prop := block.node ≠ [] ∧ '/' ∉ block.node

def PathBlock.spell (block : PathBlock) : List Char := List.replicate (block.more + 1) '/' ++ block.node

def spell (blocks : List PathBlock) (trailing : Nat) : List Char :=
  blocks.flatMap PathBlock.spell ++ List.replicate trailing '/'

def Rest (path : List Char) : Prop := path = [] ∨ path.head? = some '/'

theorem spell_cons (block : PathBlock) (blocks : List PathBlock) (trailing : Nat) :
    spell (block :: blocks) trailing =
      List.replicate (block.more + 1) '/' ++ (block.node ++ spell blocks trailing) := by
  simp only [spell, PathBlock.spell, flatMap_cons, append_assoc]

theorem rest_spell (blocks : List PathBlock) (trailing : Nat) : Rest (spell blocks trailing) := by
  cases blocks with
  | nil =>
    cases trailing with
    | zero => exact .inl rfl
    | succ count => exact .inr rfl
  | cons block blocks =>
    rw [spell_cons]
    exact .inr rfl

/-- Every path is a name, which may be empty, and blocks behind it; by induction on the path. -/
theorem exists_lead (path : List Char) :
    ∃ lead blocks trailing, '/' ∉ lead ∧ (∀ block ∈ blocks, PathBlock.Named block) ∧
      path = lead ++ spell blocks trailing := by
  induction path with
  | nil => exact ⟨[], [], 0, not_mem_nil, forall_mem_nil _, rfl⟩
  | cons char path ih =>
    obtain ⟨lead, blocks, trailing, plain, named, rfl⟩ := ih
    by_cases slash : char = '/'
    · subst slash
      by_cases empty : lead = []
      · subst empty
        cases blocks with
        | nil => exact ⟨[], [], trailing + 1, not_mem_nil, named, rfl⟩
        | cons block blocks =>
          refine ⟨[], ⟨block.more + 1, block.node⟩ :: blocks, trailing, not_mem_nil, ?_, ?_⟩
          · intro other member
            rcases mem_cons.1 member with rfl | later
            · exact named block mem_cons_self
            · exact named other (mem_cons_of_mem _ later)
          · simp only [spell_cons, nil_append]
            rfl
      · refine ⟨[], ⟨0, lead⟩ :: blocks, trailing, not_mem_nil, ?_, ?_⟩
        · intro other member
          rcases mem_cons.1 member with rfl | later
          · exact ⟨empty, plain⟩
          · exact named other later
        · rw [spell_cons]
          rfl
    · refine ⟨char :: lead, blocks, trailing, ?_, named, rfl⟩
      intro member
      rcases mem_cons.1 member with same | later
      · exact slash same.symm
      · exact plain later

theorem exists_spell (absolute : Rest path) :
    ∃ blocks trailing, (∀ block ∈ blocks, PathBlock.Named block) ∧ path = spell blocks trailing := by
  obtain ⟨lead, blocks, trailing, plain, named, rfl⟩ := exists_lead path
  cases lead with
  | nil => exact ⟨blocks, trailing, named, rfl⟩
  | cons char lead =>
    rcases absolute with empty | slash
    · cases empty
    · cases slash
      exact absurd mem_cons_self plain

def components (path : List Char) : List (List Char) := (path.splitOn '/').filter fun name => !name.isEmpty

theorem components_append (front rest : List Char) :
    components (front ++ '/' :: rest) = components front ++ components rest := by
  rw [components, splitOn_append_cons_of_beq front rest (beq_self_eq_true '/'), filter_append]
  rfl

theorem components_slash (rest : List Char) : components ('/' :: rest) = components rest :=
  components_append [] rest

theorem components_slashes (count : Nat) (rest : List Char) :
    components (List.replicate count '/' ++ rest) = components rest := by
  induction count with
  | zero => rfl
  | succ count ih =>
    rw [replicate_succ, cons_append, components_slash, ih]

theorem components_name (named : block.Named) : components block.node = [block.node] := by
  rw [components, splitOn_eq_singleton named.2, filter_cons_of_pos, filter_nil]
  simpa using named.1

theorem components_named (named : block.Named) (stops : Rest rest) :
    components (block.node ++ rest) = block.node :: components rest := by
  cases rest with
  | nil => rw [append_nil, components_name named]; rfl
  | cons char rest =>
    rcases stops with empty | slash
    · cases empty
    · cases slash
      rw [components_append, components_name named, components_slash]
      rfl

theorem components_spell (named : ∀ block ∈ blocks, PathBlock.Named block)
    (trailing : Nat) : components (spell blocks trailing) = blocks.map PathBlock.node := by
  induction blocks with
  | nil =>
    have slashes := components_slashes trailing []
    rw [append_nil] at slashes
    exact slashes
  | cons block blocks ih =>
    have others := ih fun other later => named other (mem_cons_of_mem _ later)
    rw [spell_cons, components_slashes, components_named (named block mem_cons_self) (rest_spell _ _), others]
    rfl

/-! ### One hop -/

theorem findIdx_slashes {char : Char} (plain : char ≠ '/') :
    (List.replicate count '/' ++ char :: rest).findIdx? (· != '/') = some count := by
  induction count with
  | zero => rw [replicate_zero, nil_append, List.findIdx?_cons, if_pos (bne_iff_ne.2 plain)]
  | succ count ih =>
    rw [replicate_succ, cons_append, List.findIdx?_cons, ih]
    rfl

theorem findIdx_allSlashes (count : Nat) : (List.replicate count '/').findIdx? (· != '/') = none := by
  rw [List.findIdx?_eq_none_iff]
  intro char member
  rw [eq_of_mem_replicate member]
  rfl

theorem findIdx_name (plain : '/' ∉ node) (stops : Rest rest) :
    ((node ++ rest).findIdx? (· == '/')).getD (node.length + rest.length) = node.length := by
  induction node with
  | nil =>
    rcases stops with rfl | slash
    · rfl
    · cases rest with
      | nil => rfl
      | cons char rest =>
        cases slash
        rfl
  | cons char node ih =>
    have other : (char == '/') = false := beq_eq_false_iff_ne.2 fun same => plain (same ▸ mem_cons_self)
    have later := ih fun member => plain (mem_cons_of_mem _ member)
    rw [cons_append, List.findIdx?_cons, other, if_neg Bool.false_ne_true]
    cases found : (node ++ rest).findIdx? (· == '/') with
    | none =>
      rw [found] at later
      simp only [Option.getD_none] at later
      simp only [Option.map_none, Option.getD_none, length_cons]
      omega
    | some index =>
      rw [found] at later
      simp only [Option.getD_some] at later
      simp only [Option.map_some, Option.getD_some, length_cons]
      omega

theorem getNodeName_named (named : block.Named) (stops : Rest rest) :
    getNodeName (List.replicate (block.more + 1) '/' ++ (block.node ++ rest)) = .ok block.node := by
  obtain ⟨more, node⟩ := block
  obtain ⟨char, name, rfl⟩ := exists_cons_of_ne_nil named.1
  have plain : char ≠ '/' := fun same => named.2 (same ▸ mem_cons_self)
  have begins : findFrom (· != '/') (List.replicate (more + 1) '/' ++ (char :: name ++ rest)) 1 = some (1 + more) := by
    rw [findFrom, replicate_succ, cons_append, drop_succ_cons, drop_zero, cons_append, findIdx_slashes plain]
    rfl
  have behind : (List.replicate (more + 1) '/' ++ (char :: name ++ rest)).drop (1 + more) = char :: name ++ rest := by
    rw [Nat.add_comm, drop_left' length_replicate]
  have ends : (findFrom (· == '/') (List.replicate (more + 1) '/' ++ (char :: name ++ rest)) (1 + more)).getD
      (List.replicate (more + 1) '/' ++ (char :: name ++ rest)).length = 1 + more + (char :: name).length := by
    have found := findIdx_name named.2 stops
    rw [findFrom, behind]
    simp only [length_append, length_replicate]
    cases index : (char :: name ++ rest).findIdx? (· == '/') with
    | none =>
      rw [index] at found
      simp only [Option.getD_none] at found
      simp only [Option.map_none, Option.getD_none]
      omega
    | some index =>
      rw [index] at found
      simp only [Option.getD_some] at found
      simp only [Option.map_some, Option.getD_some]
      omega
  unfold getNodeName
  rw [if_neg (by simp [replicate_succ]), begins]
  dsimp only
  rw [ends, Nat.add_sub_cancel_left, substr, if_pos, behind, take_left]
  simp only [length_append, length_replicate]
  omega

theorem getNodeName_nameless
    (nameless : path.head? ≠ some '/' ∨ ∃ count, path = List.replicate count '/') :
    getNodeName path = .error (.status .einval) := by
  unfold getNodeName
  by_cases slash : path.head? = some '/'
  · obtain ⟨count, rfl⟩ := nameless.resolve_left (not_not_intro slash)
    rw [if_neg (not_not_intro slash), findFrom, drop_replicate, findIdx_allSlashes]
    rfl
  · rw [if_pos slash]

theorem cutPath_named {block : PathBlock} (rest : List Char) :
    cutPath (List.replicate (block.more + 1) '/' ++ (block.node ++ rest)) block.node =
      .ok (if List.replicate (block.more - block.node.length) '/' ++
          (block.node ++ rest).drop (block.node.length - block.more) = [] then ['/']
        else List.replicate (block.more - block.node.length) '/' ++
          (block.node ++ rest).drop (block.node.length - block.more)) := by
  have cut : substr (List.replicate (block.more + 1) '/' ++ (block.node ++ rest)) (1 + block.node.length)
      (List.replicate (block.more + 1) '/' ++ (block.node ++ rest)).length =
        .ok (List.replicate (block.more - block.node.length) '/' ++
          (block.node ++ rest).drop (block.node.length - block.more)) := by
    rw [substr, if_pos, take_of_length_le, drop_append, drop_replicate, length_replicate,
      show block.more + 1 - (1 + block.node.length) = block.more - block.node.length by omega,
      show 1 + block.node.length - (block.more + 1) = block.node.length - block.more by omega]
    · rw [length_drop]
      exact Nat.sub_le _ _
    · simp only [length_append, length_replicate]
      omega
  rw [cutPath, cut]
  show (if _ then _ else _) = _
  split <;> rfl

theorem PathPlace.hop_of_cut (place : PathPlace) (named : getNodeName path = .ok node)
    (cut : cutPath path node = .ok next) :
    place.hop path = .ok (node, next) ∨ isStray next = true ∧ ∃ ret, place.hop path = .error (.status ret) := by
  have long := getNodeName_long named
  have notRoot : path ≠ ['/'] := by
    rintro rfl
    exact absurd long (by decide)
  have stray : ((do
      let node ← withStatus .enotdir (getNodeName path)
      let next ← cutPath path node
      if isStray next then .error (.status .enotdir) else .ok (node, next) :
        Except PathFailure (List Char × List Char))) =
      if isStray next then .error (.status .enotdir) else .ok (node, next) := by
    rw [named]
    show (cutPath path node >>= _) = _
    rw [cut]
    rfl
  cases place with
  | checkRouterPath =>
    simp only [PathPlace.hop, Rpc.checkRouterPath]
    rw [if_neg notRoot, stray]
    split
    · exact .inr ⟨‹_›, .enotdir, rfl⟩
    · exact .inl rfl
  | checkRouterPathAgain =>
    simp only [PathPlace.hop, Rpc.checkRouterPathAgain]
    rw [named]
    show (cutPath path node >>= _) = _ ∨ _ ∧ ∃ ret, (cutPath path node >>= _) = _
    rw [cut]
    by_cases lone : isStray next = true
    · exact .inr ⟨lone, .einval, if_pos lone⟩
    · exact .inl (if_neg lone)
  | enableRemoteEvent =>
    simp only [PathPlace.hop, enableRemoteEventPath]
    rw [if_neg (Nat.not_lt.2 long), named]
    left
    show (cutPath path node >>= _) = _
    rw [cut]
    rfl

theorem PathPlace.hop_nameless (place : PathPlace)
    (nameless : getNodeName path = .error (.status .einval)) : ∃ ret, place.hop path = .error
    (.status ret) := by
  cases place with
  | checkRouterPath =>
    simp only [PathPlace.hop, Rpc.checkRouterPath, nameless]
    split
    · exact ⟨_, rfl⟩
    · exact ⟨_, rfl⟩
  | checkRouterPathAgain =>
    simp only [PathPlace.hop, Rpc.checkRouterPathAgain, nameless]
    exact ⟨_, rfl⟩
  | enableRemoteEvent =>
    simp only [PathPlace.hop, enableRemoteEventPath, nameless]
    split
    · exact ⟨_, rfl⟩
    · exact ⟨_, rfl⟩

/-! ### All hops -/

variable (place : Nat → PathPlace)

theorem walk_root (hop : Nat) : walk place hop ['/'] = ⟨[], .ok ()⟩ := by
  rw [walk, if_pos rfl]

theorem walk_nameless (hop : Nat) (notRoot : path ≠ ['/'])
    (nameless : getNodeName path = .error (.status .einval)) :
    ∃ ret, walk place hop path = ⟨[], .error (.status ret)⟩ := by
  obtain ⟨ret, refuses⟩ := (place hop).hop_nameless nameless
  refine ⟨ret, ?_⟩
  rw [walk, if_neg notRoot]
  split
  · rename_i failure fails
    rw [refuses] at fails
    cases fails
    rfl
  · rename_i node next fails
    rw [refuses] at fails
    cases fails

theorem walk_onward {hop : Nat} (hops : (place hop).hop path = .ok (node, next)) :
    walk place hop path =
      ⟨node :: (walk place (hop + 1) next).visited, (walk place (hop + 1) next).outcome⟩ := by
  have notRoot : path ≠ ['/'] := by
    rintro rfl
    exact absurd (getNodeName_long (PathPlace.hop_cuts hops).1) (by decide)
  rw [walk, if_neg notRoot]
  split
  · rename_i failure fails
    rw [hops] at fails
    cases fails
  · rename_i other rest goes
    rw [hops] at goes
    cases goes
    rfl

def orRoot (rest : List Char) : List Char := if rest = [] then ['/'] else rest

theorem isStray_slash (slash : next.head? = some '/') : isStray next = false := by
  simp [isStray, slash]

theorem isStray_rest (stops : Rest rest) : isStray (orRoot rest) = false := by
  unfold orRoot
  split
  · rfl
  · exact isStray_slash (stops.resolve_left ‹_›)

variable {place}

def PathBlock.before (block : PathBlock) (rest : List Char) : List Char :=
  List.replicate (block.more + 1) '/' ++ (block.node ++ rest)

theorem hop_single (named : block.Named) (stops : Rest rest)
    (single : block.more = 0) (place : PathPlace) : place.hop (block.before rest) = .ok
    (block.node, orRoot rest) := by
  have cut := @cutPath_named block rest
  rw [single, Nat.zero_sub, replicate_zero, nil_append, Nat.sub_zero, drop_left] at cut
  rcases place.hop_of_cut (getNodeName_named named stops) (single ▸ cut) with hops | ⟨stray, _⟩
  · exact hops
  · rw [show (if rest = [] then ['/'] else rest) = orRoot rest from rfl, isStray_rest stops] at stray
    cases stray

theorem hop_again (named : block.Named) (stops : Rest rest)
    (many : block.node.length < block.more) (place : PathPlace) :
    place.hop (block.before rest) =
      .ok (block.node, PathBlock.before ⟨block.more - (block.node.length + 1), block.node⟩ rest) := by
  have cut := @cutPath_named block rest
  have count : block.more - block.node.length = block.more - (block.node.length + 1) + 1 := by omega
  have some : List.replicate (block.more - (block.node.length + 1) + 1) '/' ++ (block.node ++ rest) ≠ [] :=
    cons_ne_nil _ _
  rw [Nat.sub_eq_zero_of_le (Nat.le_of_lt many), drop_zero, count, if_neg some] at cut
  rcases place.hop_of_cut (getNodeName_named named stops) cut with hops | ⟨stray, _⟩
  · exact hops
  · rw [isStray_slash rfl] at stray
    cases stray

/-- A name that is longer than the slashes in front of it is cut itself, and nothing follows it. -/
theorem hop_torn (named : block.Named) (stops : Rest rest)
    (some : block.more ≠ 0) (few : block.more ≤ block.node.length) (place : PathPlace) :
    (∃ ret, place.hop (block.before rest) = .error (.status ret)) ∨
      ∃ next, place.hop (block.before rest) = .ok (block.node, next) ∧ next.head? ≠ Option.some '/' := by
  have cut := @cutPath_named block rest
  have inside : block.node.length - block.more < block.node.length := by
    have long := length_pos_iff.2 named.1
    omega
  obtain ⟨char, left, torn⟩ : ∃ char left, block.node.drop (block.node.length - block.more) = char :: left :=
    exists_cons_of_ne_nil (ne_nil_of_length_pos (by rw [length_drop]; omega))
  have plain : char ≠ '/' := by
    rintro rfl
    exact named.2 (mem_of_mem_drop (torn ▸ mem_cons_self))
  rw [Nat.sub_eq_zero_of_le few, replicate_zero, nil_append, drop_append_of_le_length (Nat.le_of_lt inside),
    torn, cons_append, if_neg (cons_ne_nil _ _)] at cut
  rcases place.hop_of_cut (getNodeName_named named stops) cut with hops | ⟨_, refuses⟩
  · exact .inr ⟨_, hops, fun slash => plain (Option.some.inj slash)⟩
  · exact .inl refuses

theorem walk_passes {block : PathBlock} (named : block.Named) {rest : List Char} (stops : Rest rest)
    {times : Nat}
    (even : block.more = times * (block.node.length + 1)) (hop : Nat) :
    walk place hop (block.before rest) =
      ⟨List.replicate (times + 1) block.node ++ (walk place (hop + times + 1) (orRoot rest)).visited,
        (walk place (hop + times + 1) (orRoot rest)).outcome⟩ := by
  induction times generalizing block hop with
  | zero =>
    rw [walk_onward place (hop_single named stops (by omega) (place hop))]
    rfl
  | succ times ih =>
    rw [Nat.succ_mul] at even
    rw [walk_onward place (hop_again named stops (by omega) (place hop))]
    have less : block.more - (block.node.length + 1) = times * (block.node.length + 1) := by omega
    have later := @ih ⟨block.more - (block.node.length + 1), block.node⟩ named less (hop + 1)
    rw [later, show hop + 1 + times + 1 = hop + (times + 1) + 1 by omega]
    rfl

theorem walk_stops {block : PathBlock} (named : block.Named) {rest : List Char} (stops : Rest rest)
    (uneven : ¬ block.node.length + 1 ∣ block.more) (hop : Nat) :
    ∃ count ret, walk place hop (block.before rest) = ⟨List.replicate count block.node, .error (.status ret)⟩ := by
  obtain ⟨more, node⟩ := block
  dsimp only at uneven
  induction more using Nat.strongRecOn generalizing hop with
  | ind more ih =>
  have some : more ≠ 0 := fun zero => uneven (zero ▸ Nat.dvd_zero _)
  by_cases many : node.length < more
  · have less : ¬ node.length + 1 ∣ more - (node.length + 1) := fun divides =>
      uneven ((Nat.dvd_sub_iff_left many (Nat.dvd_refl _)).1 divides)
    obtain ⟨count, ret, later⟩ := ih (more - (node.length + 1)) (by omega) (hop + 1) named less
    refine ⟨count + 1, ret, ?_⟩
    rw [walk_onward place (hop_again named stops many (place hop))]
    dsimp only
    rw [later]
    rfl
  · rcases hop_torn named stops some (Nat.le_of_not_lt many) (place hop) with ⟨ret, refuses⟩ | ⟨next, hops, plain⟩
    · refine ⟨0, ret, ?_⟩
      have notRoot : PathBlock.before ⟨more, node⟩ rest ≠ ['/'] := by
        intro root
        have long := congrArg List.length root
        have name := length_pos_iff.2 named.1
        simp only [PathBlock.before, length_append, length_replicate, length_singleton] at long
        dsimp only at name
        omega
      rw [walk, if_neg notRoot]
      split
      · rename_i failure fails
        rw [refuses] at fails
        cases fails
        rfl
      · rename_i other goes
        rw [refuses] at goes
        cases goes
    · have notRoot : next ≠ ['/'] := by
        rintro rfl
        exact plain rfl
      obtain ⟨ret, ends⟩ := walk_nameless place (hop + 1) notRoot (getNodeName_nameless (.inl plain))
      refine ⟨1, ret, ?_⟩
      rw [walk_onward place hops, ends]
      rfl

theorem walk_slashes (hop : Nat) {count : Nat} (many : 2 ≤ count) :
    ∃ ret, walk place hop (List.replicate count '/') = ⟨[], .error (.status ret)⟩ := by
  refine walk_nameless place hop ?_ (getNodeName_nameless (.inr ⟨count, rfl⟩))
  intro root
  have long := congrArg List.length root
  rw [length_replicate, length_singleton] at long
  omega

/-! ### Which paths are walked exactly -/

/-- The slashes in front of each name are one and any number of times as many as the name with a slash has, and
there is one slash behind the last name at most. -/
def Even (blocks : List PathBlock) (trailing : Nat) : Prop :=
  (∀ block ∈ blocks, block.node.length + 1 ∣ block.more) ∧ trailing ≤ 1

def PathBlock.visits (block : PathBlock) : List (List Char) :=
  List.replicate (block.more / (block.node.length + 1) + 1) block.node

/-- A walk over blocks: every visit is one to a name of the path, and the walk ends at the root exactly for even
blocks, after as many visits as these say. -/
def Walk.Over (walk : Walk) (blocks : List PathBlock) (trailing : Nat) : Prop :=
  (∀ name ∈ walk.visited, name ∈ blocks.map PathBlock.node) ∧
    ((Even blocks trailing ∧ walk = ⟨blocks.flatMap PathBlock.visits, .ok ()⟩) ∨
      (¬ Even blocks trailing ∧ ∃ ret, walk.outcome = .error (.status ret)))

theorem even_cons :
    Even (block :: blocks) trailing ↔ block.node.length + 1 ∣ block.more ∧ Even blocks trailing := by
  rw [Even, forall_mem_cons, and_assoc]
  rfl

theorem spell_ne_nil : spell (block :: blocks) trailing ≠ [] := by
  rw [spell_cons]
  exact cons_ne_nil _ _

theorem walk_spell {blocks : List PathBlock} (named : ∀ block ∈ blocks, PathBlock.Named block)
    (trailing hop : Nat) :
    (walk place hop (orRoot (spell blocks trailing))).Over blocks trailing := by
  induction blocks generalizing hop with
  | nil =>
    by_cases many : 2 ≤ trailing
    · obtain ⟨ret, ends⟩ := @walk_slashes place hop trailing many
      have slashes : orRoot (spell [] trailing) = List.replicate trailing '/' := by
        rw [orRoot, if_neg]
        · rfl
        · exact ne_nil_of_length_pos (by rw [spell]; simp; omega)
      rw [slashes, ends]
      exact ⟨forall_mem_nil _, .inr ⟨fun even => by have few := even.2; omega, ret, rfl⟩⟩
    · have root : orRoot (spell [] trailing) = ['/'] := by
        rcases trailing with _ | _ | trailing
        · rfl
        · rfl
        · omega
      rw [root, walk_root]
      refine ⟨forall_mem_nil _, .inl ⟨⟨forall_mem_nil _, ?_⟩, rfl⟩⟩
      omega
  | cons block blocks ih =>
    have first := named block mem_cons_self
    have later := fun hop => ih (fun other member => named other (mem_cons_of_mem _ member)) hop
    have stops := rest_spell blocks trailing
    rw [orRoot, if_neg spell_ne_nil, spell_cons]
    change Walk.Over (walk place hop (block.before (spell blocks trailing))) _ _
    by_cases divides : block.node.length + 1 ∣ block.more
    · have even : block.more = block.more / (block.node.length + 1) * (block.node.length + 1) :=
        (Nat.div_mul_cancel divides).symm
      obtain ⟨visits, ends⟩ := later (hop + block.more / (block.node.length + 1) + 1)
      rw [walk_passes first stops even hop]
      refine ⟨fun name member => ?_, ?_⟩
      · rcases mem_append.1 member with here | there
        · rw [eq_of_mem_replicate here]
          exact mem_cons_self
        · exact mem_cons_of_mem _ (visits name there)
      · rcases ends with ⟨even, same⟩ | ⟨uneven, failed⟩
        · refine .inl ⟨even_cons.2 ⟨divides, even⟩, ?_⟩
          rw [same, flatMap_cons]
          rfl
        · exact .inr ⟨fun even => uneven (even_cons.1 even).2, failed⟩
    · obtain ⟨count, ret, ends⟩ := @walk_stops place block first _ stops divides hop
      rw [ends]
      refine ⟨fun name member => ?_, .inr ⟨fun even => divides (even_cons.1 even).1, ret, rfl⟩⟩
      rw [eq_of_mem_replicate member]
      exact mem_cons_self

/-- A path that a walk comes to the end of, though a name in it stands behind more than one slash. -/
def Skewed (path : List Char) : Prop :=
  ∃ blocks trailing, (∀ block ∈ blocks, PathBlock.Named block) ∧ path = spell blocks trailing ∧
    Even blocks trailing ∧ ∃ block ∈ blocks, block.more ≠ 0

/-- Nothing is thrown, every visit is one to a name in the path, and a walk that ends at the root has visited all
names in their order. -/
def Walk.Exact (walk : Walk) (path : List Char) : Prop :=
  walk.outcome ≠ .error .outOfRange ∧ (∀ name ∈ walk.visited, name ∈ components path) ∧
    (walk.outcome = .ok () → walk.visited = components path)

theorem visits_single (single : block.more = 0) : block.visits = [block.node] := by
  rw [PathBlock.visits, single, Nat.zero_div]
  rfl

theorem visits_singles (single : ∀ block ∈ blocks, block.more = 0) :
    blocks.flatMap PathBlock.visits = blocks.map PathBlock.node := by
  induction blocks with
  | nil => rfl
  | cons block blocks ih =>
    rw [flatMap_cons, visits_single (single block mem_cons_self),
      ih fun other later => single other (mem_cons_of_mem _ later)]
    rfl

theorem visits_length (blocks : List PathBlock) :
    blocks.length ≤ (blocks.flatMap PathBlock.visits).length ∧
      ((∃ block ∈ blocks, block.node.length + 1 ∣ block.more ∧ block.more ≠ 0) →
        blocks.length < (blocks.flatMap PathBlock.visits).length) := by
  induction blocks with
  | nil => exact ⟨Nat.le_refl _, fun ⟨_, never, _⟩ => absurd never not_mem_nil⟩
  | cons block blocks ih =>
    obtain ⟨atLeast, more⟩ := ih
    rw [flatMap_cons, length_append, length_cons, PathBlock.visits, length_replicate]
    have once : 1 ≤ block.more / (block.node.length + 1) + 1 := Nat.succ_pos _
    refine ⟨by omega, fun ⟨other, member, divides, slashes⟩ => ?_⟩
    rcases mem_cons.1 member with rfl | later
    · have rounds : 0 < other.more / (other.node.length + 1) :=
        Nat.div_pos (Nat.le_of_dvd (Nat.pos_of_ne_zero slashes) divides) (Nat.succ_pos _)
      omega
    · have long := more ⟨other, later, divides, slashes⟩
      omega

/-- The walk over a path is exact, at whatever places its hops are, exactly when the path is not skewed. -/
theorem exact_iff_not_skewed (place : Nat → PathPlace) (hop : Nat) (path : List Char) :
    (walk place hop path).Exact path ↔ ¬ Skewed path := by
  constructor
  · rintro ⟨_, _, exact⟩ ⟨blocks, trailing, named, rfl, even, other, member, slashes⟩
    obtain ⟨first, others, rfl⟩ := exists_cons_of_ne_nil (ne_nil_of_mem member)
    have ends := (@walk_spell place _ named trailing hop).2
    rw [orRoot, if_neg spell_ne_nil] at ends
    rcases ends with ⟨_, same⟩ | ⟨uneven, _⟩
    · rw [same, components_spell named] at exact
      have more := (visits_length (first :: others)).2 ⟨other, member, even.1 other member, slashes⟩
      have visited : (first :: others).flatMap PathBlock.visits = (first :: others).map PathBlock.node := exact rfl
      rw [visited, length_map] at more
      exact Nat.lt_irrefl _ more
    · exact uneven even
  · intro notSkewed
    by_cases absolute : path.head? = some '/'
    · obtain ⟨blocks, trailing, named, rfl⟩ := exists_spell (.inr absolute)
      have some : spell blocks trailing ≠ [] := by
        intro empty
        rw [empty] at absolute
        cases absolute
      obtain ⟨visits, ends⟩ := @walk_spell place _ named trailing hop
      rw [orRoot, if_neg some] at visits ends
      rw [Walk.Exact, components_spell named]
      rcases ends with ⟨even, same⟩ | ⟨_, ret, failed⟩
      · refine ⟨fun thrown => (by rw [same] at thrown; cases thrown), visits, fun _ => ?_⟩
        have single : ∀ block ∈ blocks, block.more = 0 := fun block member =>
          Classical.byContradiction fun slashes => notSkewed ⟨blocks, trailing, named, rfl, even, block, member, slashes⟩
        rw [same]
        exact visits_singles single
      · refine ⟨fun thrown => ?_, visits, fun ended => ?_⟩
        · rw [failed] at thrown
          cases thrown
        · rw [failed] at ended
          cases ended
    · have notRoot : path ≠ ['/'] := by
        rintro rfl
        exact absolute rfl
      obtain ⟨ret, ends⟩ := walk_nameless place hop notRoot (getNodeName_nameless (.inl absolute))
      rw [ends]
      exact ⟨fun thrown => (by cases thrown), forall_mem_nil _, fun ended => (by cases ended)⟩

/-- Two slashes too many in front of `a`: the path is accepted, and the node is gone through twice. -/
theorem exact_tripleSlash :
    ¬ (walk (fun _ => .checkRouterPath) 0 ['/', '/', '/', 'a']).Exact ['/', '/', '/', 'a'] := by
  have named : PathBlock.Named ⟨2, ['a']⟩ := ⟨cons_ne_nil _ _, by decide⟩
  have passes : walk (fun _ => .checkRouterPath) 0 ['/', '/', '/', 'a'] = _ :=
    @walk_passes (fun _ => .checkRouterPath) ⟨2, ['a']⟩ named [] (.inl rfl) 1 rfl 0
  rw [orRoot, if_pos rfl, walk_root] at passes
  rintro ⟨_, _, exact⟩
  have same := exact (congrArg Walk.outcome passes)
  rw [congrArg Walk.visited passes] at same
  exact absurd same (by decide)

end RpcFrmwrk.Rpc
