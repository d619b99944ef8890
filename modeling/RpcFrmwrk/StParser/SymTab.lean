import Mathlib.Data.List.Nodup
import RpcFrmwrk.Library.Machine
import RpcFrmwrk.Library.ParentTree
import RpcFrmwrk.Library.StdMap

/-! The scopes of the symbol table of the ST parser, and what its searches find. Scopes and symbols
are numbered in the order they are made. The symbols of a scope stand in the order of their
declaration; the vector of a name is what of them has that name. Owns `CStScope`, `CStSymbolTable`,
and what opens and closes scopes, declares and looks up; the runs in which no scope takes the place
of a sibling. -/

namespace RpcFrmwrk.StParser

open RpcFrmwrk.Library List

inductive EnumSymKind where
  | unknown | variable | enumValue | dataType | program | functionBlock | function | method | interface | namespace
deriving DecidableEq

inductive EnumScopeKind where
  | global | namespace | pou | struct | interface

/-- `CStSymbol`: the object, and what the searches read of it. -/
structure CStSymbol where
  id : Nat
  strName : String
  eKind : EnumSymKind
  strTypeName : String
deriving DecidableEq

structure CStScope where
  eKind : EnumScopeKind
  strName : String
  pParent : Option Nat
  symbols : List CStSymbol
  mapChildren : List (String × Nat)

namespace CStScope

variable (scope : CStScope)

/-- `GetAllLocal`. -/
def named (strName : String) : List CStSymbol := scope.symbols.filter fun sym => sym.strName == strName

def lookupLocal (strName : String) : Option CStSymbol := (scope.named strName).head?

/-- A name is taken but for functions among functions. -/
def addSymbol (sym : CStSymbol) : Option CStScope :=
  if sym.strName = "" then none
  else if scope.named sym.strName = [] ∨
      sym.eKind = .function ∧ (scope.named sym.strName).all (fun old => old.eKind = .function) = true then
    some { scope with symbols := scope.symbols ++ [sym] }
  else none

/-- A child of the same name is replaced. -/
def addChild (strName : String) (index : Nat) : CStScope :=
  { scope with mapChildren := putEntry (· == ·) scope.mapChildren (strName, index) }

def getChild (strName : String) : Option Nat := scope.mapChildren.lookup strName

end CStScope

/-- The innermost open scope stands first; the global scope has number 0. -/
structure CStSymbolTable where
  dequeScopes : List CStScope
  stackScopes : List Nat

namespace CStSymbolTable

variable (table : CStSymbolTable)

def new : CStSymbolTable := ⟨[⟨.global, "", none, [], []⟩], [0]⟩

def getCurrentScope : Option Nat := table.stackScopes.head?

def pushScope (eKind : EnumScopeKind) (strName : String) : CStSymbolTable where
  dequeScopes :=
    let deque := table.dequeScopes ++ [⟨eKind, strName, table.getCurrentScope, [], []⟩]
    match table.getCurrentScope with
    | none => deque
    | some parent => deque.modify parent fun scope => scope.addChild strName table.dequeScopes.length
  stackScopes := table.dequeScopes.length :: table.stackScopes

/-- The global scope is never popped. -/
def popScope : CStSymbolTable :=
  if 1 < table.stackScopes.length then { table with stackScopes := table.stackScopes.tail } else table

def declare (sym : CStSymbol) : Option CStSymbolTable :=
  table.getCurrentScope.bind fun index => table.dequeScopes[index]?.bind fun scope =>
    (scope.addSymbol sym).map fun scope => { table with dequeScopes := table.dequeScopes.set index scope }

def declareScopeOwner (sym : CStSymbol) (eScopeKind : EnumScopeKind) : Option CStSymbolTable :=
  (table.declare sym).map fun table => table.pushScope eScopeKind sym.strName

def lookup (strName : String) : Option CStSymbol :=
  table.stackScopes.findSome? fun index => table.dequeScopes[index]?.bind fun scope => scope.lookupLocal strName

/-- `WalkByKind` and `WalkByDataType`, into the children. -/
def walk (wanted : CStSymbol → Bool) : Nat → Nat → List CStSymbol
  | 0, _ => []
  | fuel + 1, index =>
    match table.dequeScopes[index]? with
    | none => []
    | some scope => scope.symbols.filter wanted ++ scope.mapChildren.flatMap fun child => walk wanted fuel child.2

def findByKindAll (eKind : EnumSymKind) (fuel : Nat) : List CStSymbol := table.walk (·.eKind == eKind) fuel 0

def findByDataTypeAll (strTypeName : String) (fuel : Nat) : List CStSymbol :=
  table.walk (·.strTypeName == strTypeName) fuel 0

end CStSymbolTable

/-- The table, the symbols that were declared with their scopes, and the open scopes behind each that is open. -/
structure SymRun where
  table : CStSymbolTable
  declared : List (Nat × CStSymbol)
  outer : List (List Nat)

inductive SymMove where
  | pushScope (eKind : EnumScopeKind) (strName : String)
  | popScope
  | declare (strName : String) (eKind : EnumSymKind) (strTypeName : String)
  | declareScopeOwner (eKind : EnumSymKind) (eScopeKind : EnumScopeKind) (strName : String)

namespace SymRun

variable (run : SymRun)

def opened (table : CStSymbolTable) : SymRun := ⟨table, run.declared, run.table.stackScopes :: run.outer⟩

/-- The symbol has been declared in the current scope. -/
def noted (sym : CStSymbol) : List (Nat × CStSymbol) := run.declared ++ run.table.getCurrentScope.toList.map (·, sym)

def step : SymMove → Option SymRun
  | .pushScope eKind strName => some (run.opened (run.table.pushScope eKind strName))
  | .popScope => some ⟨run.table.popScope, run.declared, run.outer.tail⟩
  | .declare strName eKind strTypeName =>
    let sym := ⟨run.declared.length, strName, eKind, strTypeName⟩
    some ((run.table.declare sym).elim run fun table => ⟨table, run.noted sym, run.outer⟩)
  | .declareScopeOwner eKind eScopeKind strName =>
    let sym := ⟨run.declared.length, strName, eKind, ""⟩
    some ((run.table.declareScopeOwner sym eScopeKind).elim run fun table =>
      { run.opened table with declared := run.noted sym })

def isFree (strName : String) : Bool := (run.table.getCurrentScope.bind fun index => run.table.dequeScopes[index]?).all
  fun scope => (scope.getChild strName).isNone

/-- A scope is opened under a name that no child of the current scope has. -/
def fresh : SymMove → Bool
  | .pushScope _ strName => run.isFree strName
  | .declareScopeOwner eKind _ strName =>
    (run.table.declare ⟨run.declared.length, strName, eKind, ""⟩).isNone || run.isFree strName
  | _ => true

end SymRun

def symMachine : Machine SymRun SymMove := ⟨⟨.new, [], []⟩, SymRun.step⟩

namespace CStSymbolTable

variable {table next : CStSymbolTable}

def childrenOf (table : CStSymbolTable) (index : Nat) : List Nat :=
  table.dequeScopes[index]?.elim [] fun scope => scope.mapChildren.map Prod.snd

def parentOf (table : CStSymbolTable) (index : Nat) : Option Nat := table.dequeScopes[index]?.bind CStScope.pParent

/-- Each scope is a child of its parent, once. -/
abbrev Tree (table : CStSymbolTable) : Prop := ParentTree table.childrenOf table.parentOf table.dequeScopes.length

theorem walk_eq (wanted : CStSymbol → Bool) (fuel index : Nat) : table.walk wanted fuel index =
    (visits table.childrenOf fuel index).flatMap fun index =>
      table.dequeScopes[index]?.elim [] fun scope => scope.symbols.filter wanted := by
  induction fuel generalizing index with
  | zero => rfl
  | succ fuel ih =>
    rw [walk, visits, childrenOf, flatMap_cons]
    cases isThere : table.dequeScopes[index]? with
    | none => simp
    | some scope => simp [flatMap_assoc, flatMap_map, ih]

theorem declare_spec {sym : CStSymbol} (declared : table.declare sym = some next) :
    ∃ index scope, table.getCurrentScope = some index ∧ table.dequeScopes[index]? = some scope ∧
      (∀ old ∈ scope.symbols, old.strName = sym.strName → old.eKind = .function ∧ sym.eKind = .function) ∧
      next = { table with dequeScopes := table.dequeScopes.set index { scope with symbols := scope.symbols ++ [sym] } } := by
  simp only [declare, CStScope.addSymbol, Option.bind_eq_some_iff, Option.map_eq_some_iff, Option.ite_none_left_eq_some,
    Option.ite_none_right_eq_some] at declared
  obtain ⟨index, current, scope, isThere, after, ⟨_, free, ⟨⟩⟩, rfl⟩ := declared
  refine ⟨index, scope, current, isThere, fun old member same => ?_, rfl⟩
  rcases free with free | ⟨isFunction, all⟩
  · simpa [same] using filter_eq_nil_iff.1 free old member
  · exact ⟨of_decide_eq_true (all_eq_true.1 all old (mem_filter.2 ⟨member, beq_iff_eq.2 same⟩)), isFunction⟩

theorem scopes_pushScope {current : Nat} (isCurrent : table.getCurrentScope = some current)
    (inside : current < table.dequeScopes.length) (eKind : EnumScopeKind) (strName : String) (index : Nat) :
    (table.pushScope eKind strName).dequeScopes[index]? =
      if index = table.dequeScopes.length then some ⟨eKind, strName, some current, [], []⟩
      else if index = current then table.dequeScopes[index]?.map fun scope => scope.addChild strName table.dequeScopes.length
      else table.dequeScopes[index]? := by
  simp only [pushScope, isCurrent, getElem?_modify, getElem?_append]
  grind

theorem length_pushScope (table : CStSymbolTable) (eKind : EnumScopeKind) (strName : String) :
    (table.pushScope eKind strName).dequeScopes.length = table.dequeScopes.length + 1 := by
  rw [pushScope]
  cases table.getCurrentScope <;> simp

theorem tree_new : new.Tree := by
  constructor
  · intro node child
    cases node <;> cases child <;> rfl
  · intro node child isParent
    cases child <;> cases isParent
  · intro child inside _
    exact Nat.lt_one_iff.1 inside

theorem Tree.pushScope (tree : table.Tree) {current : Nat} {scope : CStScope}
    (isCurrent : table.getCurrentScope = some current) (isThere : table.dequeScopes[current]? = some scope)
    (eKind : EnumScopeKind) {strName : String} (free : scope.getChild strName = none) :
    (table.pushScope eKind strName).Tree := by
  obtain ⟨counted, made, root⟩ := tree
  have inside := (List.getElem?_eq_some_iff.1 isThere).1
  have scopes := scopes_pushScope isCurrent inside eKind strName
  have length := length_pushScope table eKind strName
  have parents (child : Nat) : (table.pushScope eKind strName).parentOf child =
      if child = table.dequeScopes.length then some current else table.parentOf child := by
    grind [parentOf, CStScope.addChild]
  have added : (scope.addChild strName table.dequeScopes.length).mapChildren =
      scope.mapChildren ++ [(strName, table.dequeScopes.length)] := by
    rw [CStScope.getChild, List.lookup_eq_none_iff] at free
    rw [CStScope.addChild, putEntry, if_neg (by grind)]
  have children (node : Nat) : (table.pushScope eKind strName).childrenOf node =
      table.childrenOf node ++ if node = current then [table.dequeScopes.length] else [] := by
    grind [childrenOf]
  have unmade : table.parentOf table.dequeScopes.length = none := by simp [parentOf]
  constructor
  · intro node child
    rw [children, parents, count_append, counted]
    by_cases isNew : child = table.dequeScopes.length <;> grind
  · grind
  · grind

theorem Tree.declare (tree : table.Tree) {sym : CStSymbol} (declared : table.declare sym = some next) : next.Tree := by
  obtain ⟨index, scope, -, isThere, -, after⟩ := declare_spec declared
  have length : next.dequeScopes.length = table.dequeScopes.length := by simp [after]
  have children : next.childrenOf = table.childrenOf := by
    funext node
    grind [childrenOf]
  have parents : next.parentOf = table.parentOf := by
    funext node
    grind [parentOf]
  rwa [Tree, children, parents, length]

end CStSymbolTable

namespace SymRun

variable {run next : SymRun}

/-- What stands behind each open scope but the global one. -/
def behind : List Nat → List (List Nat)
  | _ :: next :: rest => (next :: rest) :: behind (next :: rest)
  | _ => []

/-- The scopes hold what was declared in them, and the open ones are there. -/
structure Kept (run : SymRun) : Prop where
  held : ∀ index scope, run.table.dequeScopes[index]? = some scope →
    scope.symbols = (run.declared.filter fun entry => entry.1 == index).map Prod.snd ∧
      scope.symbols.Pairwise fun first second =>
        first.strName = second.strName → first.eKind = .function ∧ second.eKind = .function
  ids : run.declared.map (fun entry => entry.2.id) = range run.declared.length
  inside : ∀ index, index ∈ run.table.stackScopes ∨ (∃ entry ∈ run.declared, entry.1 = index) →
    index < run.table.dequeScopes.length
  outer : run.table.stackScopes ≠ [] ∧ run.outer = behind run.table.stackScopes

theorem Kept.start : Kept symMachine.start := by
  refine ⟨fun index scope isThere => ?_, rfl, ?_, by decide⟩
  · cases index <;> cases isThere
    exact ⟨rfl, .nil⟩
  · simp [symMachine, CStSymbolTable.new]

theorem Kept.current (kept : run.Kept) : ∃ index scope rest, run.table.stackScopes = index :: rest ∧
    run.table.getCurrentScope = some index ∧ run.table.dequeScopes[index]? = some scope := by
  obtain ⟨index, rest, stack⟩ := exists_cons_of_ne_nil kept.outer.1
  have inside := kept.inside index (.inl (by simp [stack]))
  exact ⟨index, _, rest, stack, by simp [CStSymbolTable.getCurrentScope, stack], List.getElem?_eq_getElem inside⟩

theorem Kept.pushScope (kept : run.Kept) (eKind : EnumScopeKind) (strName : String) :
    (run.opened (run.table.pushScope eKind strName)).Kept := by
  obtain ⟨current, scope, rest, stack, isCurrent, isThere⟩ := kept.current
  have inside := (List.getElem?_eq_some_iff.1 isThere).1
  have scopes := CStSymbolTable.scopes_pushScope isCurrent inside eKind strName
  have length := run.table.length_pushScope eKind strName
  obtain ⟨held, ids, within, -, outer⟩ := kept
  refine ⟨fun index scope isThere => ?_, ids, fun index member => ?_, cons_ne_nil _ _, ?_⟩
  · have old : index = run.table.dequeScopes.length ∧ scope.symbols = [] ∨
        ∃ old, run.table.dequeScopes[index]? = some old ∧ scope.symbols = old.symbols := by
      rw [opened, scopes] at isThere
      grind [CStScope.addChild]
    rcases old with ⟨rfl, none⟩ | ⟨old, wasThere, same⟩
    · have nothing : run.declared.filter (fun entry => entry.1 == run.table.dequeScopes.length) = [] := by
        apply filter_eq_nil_iff.2
        intro entry member same
        have before := within entry.1 (.inr ⟨entry, member, rfl⟩)
        rw [beq_iff_eq.1 same] at before
        exact Nat.lt_irrefl _ before
      simp [opened, none, nothing]
    · rw [same]
      exact held index old wasThere
  · rw [opened] at member ⊢
    grind [CStSymbolTable.pushScope]
  · rw [opened, outer]
    simp [CStSymbolTable.pushScope, stack, behind]

theorem Kept.popScope (kept : run.Kept) : Kept ⟨run.table.popScope, run.declared, run.outer.tail⟩ := by
  obtain ⟨held, ids, inside, nonempty, outer⟩ := kept
  obtain ⟨index, rest, stack⟩ := exists_cons_of_ne_nil nonempty
  rw [stack] at outer inside
  cases rest with
  | nil =>
    have same : run.table.popScope = run.table := by simp [CStSymbolTable.popScope, stack]
    rw [same, outer]
    exact ⟨held, ids, by rwa [stack], nonempty, by rw [stack]; rfl⟩
  | cons next rest =>
    have popped : run.table.popScope = { run.table with stackScopes := next :: rest } := by
      simp [CStSymbolTable.popScope, stack]
    rw [popped, outer]
    refine ⟨held, ids, fun index member => inside index ?_, cons_ne_nil _ _, ?_⟩
    · simp at member ⊢
      grind
    · rw [behind, tail_cons]

theorem Kept.declare (kept : run.Kept) {strName strTypeName : String} {eKind : EnumSymKind} {table : CStSymbolTable}
    (declared : run.table.declare ⟨run.declared.length, strName, eKind, strTypeName⟩ = some table) :
    Kept ⟨table, run.noted ⟨run.declared.length, strName, eKind, strTypeName⟩, run.outer⟩ := by
  obtain ⟨current, scope, isCurrent, isThere, unlike, rfl⟩ := CStSymbolTable.declare_spec declared
  obtain ⟨held, ids, inside, outer⟩ := kept
  have within := (List.getElem?_eq_some_iff.1 isThere).1
  rw [noted, isCurrent]
  refine ⟨fun index after found => ?_, ?_, fun index member => ?_, outer⟩
  · rw [List.getElem?_set] at found
    by_cases own : current = index
    · subst own
      obtain ⟨symbols, named⟩ := held current scope isThere
      rw [if_pos rfl, if_pos within] at found
      cases found
      refine ⟨by simp [symbols], pairwise_append.2 ⟨named, pairwise_singleton _ _, fun old member new isNew => ?_⟩⟩
      rw [mem_singleton.1 isNew]
      exact unlike old member
    · rw [if_neg own] at found
      simpa [own] using held index after found
  · simp [ids, range_succ]
  · simp at member ⊢
    grind

structure Sound (run : SymRun) : Prop extends run.Kept where
  tree : run.table.Tree

theorem Sound.step (sound : run.Sound) {move : SymMove} (fresh : run.fresh move = true)
    (moved : run.step move = some next) : next.Sound := by
  obtain ⟨kept, tree⟩ := sound
  obtain ⟨current, scope, rest, stack, isCurrent, isThere⟩ := kept.current
  have noChild {strName : String} (free : run.isFree strName = true) : scope.getChild strName = none := by
    simpa [isFree, isCurrent, isThere] using free
  cases move with
  | pushScope eKind strName =>
    cases moved
    exact ⟨kept.pushScope eKind strName, tree.pushScope isCurrent isThere eKind (noChild fresh)⟩
  | popScope =>
    cases moved
    refine ⟨kept.popScope, ?_⟩
    rw [CStSymbolTable.popScope]
    split <;> exact tree
  | declare strName eKind strTypeName =>
    cases moved
    cases declared : run.table.declare ⟨run.declared.length, strName, eKind, strTypeName⟩ with
    | none => exact ⟨kept, tree⟩
    | some table => exact ⟨kept.declare declared, tree.declare declared⟩
  | declareScopeOwner eKind eScopeKind strName =>
    cases moved
    rw [CStSymbolTable.declareScopeOwner]
    cases declared : run.table.declare ⟨run.declared.length, strName, eKind, ""⟩ with
    | none => exact ⟨kept, tree⟩
    | some table =>
      have free : scope.getChild strName = none := noChild (by simpa [SymRun.fresh, declared] using fresh)
      have opens := (kept.declare declared).pushScope eScopeKind strName
      have grown := tree.declare declared
      obtain ⟨index, found, isIndex, wasThere, -, rfl⟩ := CStSymbolTable.declare_spec declared
      obtain rfl : current = index := Option.some.inj (isCurrent.symm.trans isIndex)
      obtain rfl : scope = found := Option.some.inj (isThere.symm.trans wasThere)
      have inside := (List.getElem?_eq_some_iff.1 isThere).1
      exact ⟨opens, grown.pushScope isCurrent (List.getElem?_set_self inside) eScopeKind free⟩

/-- A search of the whole table finds a symbol it wants once. -/
theorem Sound.count_walk (sound : run.Sound) {entry : Nat × CStSymbol} (member : entry ∈ run.declared)
    {wanted : CStSymbol → Bool} (isWanted : wanted entry.2 = true) {fuel : Nat}
    (enough : run.table.dequeScopes.length ≤ fuel) : (run.table.walk wanted fuel 0).count entry.2 = 1 := by
  obtain ⟨kept, tree⟩ := sound
  have distinct : (run.declared.map fun entry => entry.2.id).Nodup := kept.ids ▸ nodup_range
  have inside := kept.inside entry.1 (.inr ⟨entry, member, rfl⟩)
  rw [CStSymbolTable.walk_eq]
  refine tree.count_flatMap_visits enough inside fun index => ?_
  cases isThere : run.table.dequeScopes[index]? with
  | none => grind
  | some scope =>
    have once : ((run.declared.filter fun entry => entry.1 == index).map Prod.snd).Nodup := by
      refine Nodup.of_map CStSymbol.id ?_
      rw [map_map]
      exact distinct.sublist ((List.filter_sublist).map _)
    rw [Option.elim_some, count_filter isWanted, (kept.held index scope isThere).1, once.count]
    refine if_congr ?_ rfl rfl
    rw [mem_map]
    constructor
    · rintro ⟨other, found, same⟩
      have equal := inj_on_of_nodup_map distinct (mem_of_mem_filter found) member (by rw [same])
      grind
    · rintro rfl
      exact ⟨entry, by simp [member], rfl⟩

theorem Kept.lookup (kept : run.Kept) (strName : String) : run.table.lookup strName =
    run.table.stackScopes.findSome? fun index =>
      (run.declared.find? fun entry => entry.1 == index && entry.2.strName == strName).map Prod.snd := by
  have inside : ∀ index ∈ run.table.stackScopes, index < run.table.dequeScopes.length :=
    fun index member => kept.inside index (.inl member)
  rw [CStSymbolTable.lookup]
  generalize run.table.stackScopes = stack at inside ⊢
  induction stack with
  | nil => rfl
  | cons index rest ih =>
    have isThere := List.getElem?_eq_getElem (inside index mem_cons_self)
    rw [findSome?_cons, findSome?_cons, ih fun other member => inside other (mem_cons_of_mem _ member), isThere,
      Option.bind_some, CStScope.lookupLocal, CStScope.named, (kept.held index _ isThere).1, head?_filter, find?_map,
      find?_filter]
    simp only [Function.comp, Bool.decide_and, Bool.decide_eq_true]

end SymRun

/-- In a run in which no scope is opened under the name of a sibling. -/
theorem fresh_scopes {run : SymRun}
    (reached : (symMachine.restrict fun run move => run.fresh move = true).Reachable run) :
    (∀ scope ∈ run.table.dequeScopes, scope.symbols.Pairwise fun first second =>
      first.strName = second.strName → first.eKind = .function ∧ second.eKind = .function) ∧
    (∀ strName, run.table.lookup strName = run.table.stackScopes.findSome? fun index =>
      (run.declared.find? fun entry => entry.1 == index && entry.2.strName == strName).map Prod.snd) ∧
    (∀ stack rest, run.outer = stack :: rest → run.table.popScope.stackScopes = stack) ∧
    (run.declared.map fun entry => entry.2.id).Nodup ∧
    ∀ entry ∈ run.declared, ∀ fuel, run.table.dequeScopes.length ≤ fuel →
      (run.table.findByKindAll entry.2.eKind fuel).count entry.2 = 1 ∧
      (run.table.findByDataTypeAll entry.2.strTypeName fuel).count entry.2 = 1 := by
  have sound : run.Sound := by
    refine reached.invariant ⟨.start, CStSymbolTable.tree_new⟩ ?_
    intro before move after _ sound moved
    rw [Machine.restrict_step] at moved
    exact sound.step moved.1 moved.2
  refine ⟨fun scope member => ?_, sound.lookup, fun stack rest outer => ?_, sound.ids ▸ nodup_range,
    fun entry member fuel enough => ⟨?_, ?_⟩⟩
  · obtain ⟨index, isThere⟩ := mem_iff_getElem?.1 member
    exact (sound.held index scope isThere).2
  · have isOuter := sound.outer.2.symm.trans outer
    rw [CStSymbolTable.popScope]
    grind [SymRun.behind.eq_def]
  · exact sound.count_walk member (beq_self_eq_true entry.2.eKind) enough
  · exact sound.count_walk member (beq_self_eq_true entry.2.strTypeName) enough

/-- Two functions of a name with a variable in each scope, and a declaration that fails. -/
theorem fresh_overloads : ∃ run : SymRun, run.declared.length = 4 ∧
    ∀ entry ∈ run.declared, (run.table.findByKindAll entry.2.eKind 3).count entry.2 = 1 := by
  have ran : ((symMachine.restrict fun run move => run.fresh move = true).run symMachine.start
      [.declareScopeOwner .function .pou "f", .declare "a" .variable "INT", .declare "a" .program "", .popScope,
        .declare "f" .function "", .pushScope .namespace "n", .declare "a" .variable "BOOL"]).map
      (fun run => (run.declared.length, run.table.dequeScopes.length)) = some (4, 3) := by decide +kernel
  obtain ⟨run, ran, sizes⟩ := Option.map_eq_some_iff.1 ran
  rw [Prod.mk.injEq] at sizes
  exact ⟨run, sizes.1, fun entry member =>
    ((fresh_scopes (Machine.Reachable.start.run ran)).2.2.2.2 entry member 3 (Nat.le_of_eq sizes.2)).1⟩

end RpcFrmwrk.StParser
