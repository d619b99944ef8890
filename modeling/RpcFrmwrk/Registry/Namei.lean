import RpcFrmwrk.Library.Segments

/-! How a path of the registry is resolved. A string is a list of bytes. A directory is entered by a
name of which at most `REGFS_NAME_LENGTH - 1` bytes are compared; whether it may be entered, and
whether there is a directory of that name, is left to the file system. Owns `Namei`, with the errors
that it drops, and `GetParentDir`; the walk over the components from left to right, to which they
are compared; `Settled`, the paths for which both reach the same. -/

namespace RpcFrmwrk.Registry

open RpcFrmwrk.Library

abbrev Stdstr := List UInt8

def slash : UInt8 := 47
def dot : Stdstr := [46]
def dotdot : Stdstr := [46, 46]

/-- `REG_MAX_PATH` and `REGFS_NAME_LENGTH - 1`. -/
def regMaxPath : Nat := 2048
def nameLimit : Nat := 95

/-- The loop of `Namei` over the path, from its end: whether it ends well, the names and `bBack`. -/
def nameiLoop : Nat → Stdstr → List Stdstr → Bool → Bool × List Stdstr × Bool
  | 0, _, vecNames, bBack => (true, vecNames, bBack)
  | rounds + 1, strTemp, vecNames, bBack =>
    if strTemp = [] then (true, vecNames, bBack)
    else
      match lastSep slash strTemp with
      | none => if strTemp = dotdot then (false, vecNames, bBack) else (true, vecNames ++ [strTemp], bBack)
      | some pos =>
        if 0 < pos ∧ pos + 1 = strTemp.length then nameiLoop rounds (strTemp.take pos) vecNames bBack
        else if pos = 0 ∧ strTemp.length = 1 then (true, vecNames ++ [strTemp], bBack)
        else
          let strName := strTemp.drop (pos + 1)
          let vecNames := if strName ≠ dot then vecNames ++ [strName] else vecNames
          let bBack := bBack || decide (strName = dotdot)
          nameiLoop rounds (if 0 < pos then strTemp.take pos else strTemp.take (pos + 1)) vecNames bBack

/-- The loop of `Namei` over the names. Those in front of the iterator are in reverse order. Where
the name before a `..` is erased, the iterator is at the `..` again. -/
def backLoop : List Stdstr → List Stdstr → List Stdstr
  | front, [] => front.reverse
  | front, name :: rest =>
    if name ≠ dotdot then backLoop (name :: front) rest
    else if front.length ≤ 1 then backLoop front rest
    else backLoop front.tail (name :: rest)
termination_by front rest => 2 * rest.length + front.length
decreasing_by
  · rw [List.length_cons, List.length_cons]
    omega
  · rw [List.length_cons]
    omega
  · rw [List.length_tail, List.length_cons]
    omega

/-- `Namei`. The errors behind the first test are set in an inner `ret`, and are dropped: that of a
path that begins with `..`, and that of a name that is too long. -/
def namei (strPath : Stdstr) : Option (List Stdstr) :=
  if strPath = [] ∨ regMaxPath < strPath.length then none
  else
    let (ok, vecNames, bBack) := nameiLoop strPath.length strPath [] false
    if ok then
      let vecNames := if 1 < vecNames.length then vecNames.reverse else vecNames
      some (if bBack then backLoop [] vecNames else vecNames)
    else some vecNames

/-- The directories of a file system. -/
structure Tree where
  Dir : Type
  enter : Dir → Stdstr → Option Dir
  compared : ∀ dir name, enter dir name = enter dir (name.take nameLimit)

/-- The component zero of an empty list is read, an error, or a directory and the last component. -/
inductive Outcome (Dir : Type) where
  | fault
  | error
  | found (dir : Dir) (file : Option Stdstr)

def Tree.walkDirs (fs : Tree) : fs.Dir → List Stdstr → Option fs.Dir
  | dir, [] => some dir
  | dir, name :: rest =>
    match fs.enter dir name with
    | none => none
    | some dir => fs.walkDirs dir rest

/-- The directories are entered, up to the last component. -/
def Tree.reach (fs : Tree) (dir : fs.Dir) (dirs : List Stdstr) (file : Option Stdstr) : Outcome fs.Dir :=
  match fs.walkDirs dir dirs with
  | none => .error
  | some dir => .found dir file

/-- `GetParentDir`. The handle of the root takes absolute paths only, and the others relative ones. -/
def getParentDir (fs : Tree) (rootDir : fs.Dir) (hcurDir : Option fs.Dir) (strPath : Stdstr) : Outcome fs.Dir :=
  let bAbs := hcurDir.isNone
  if bAbs ≠ decide (strPath.head? = some slash) then .error
  else
    match namei strPath with
    | none => .error
    | some [] => .fault
    | some (first :: names) =>
      fs.reach (hcurDir.getD rootDir) (if bAbs then names.dropLast else (first :: names).dropLast)
        (first :: names).getLast?

/-- The components from left to right, with those that are left, the last one first. -/
def walk : List Stdstr → List Stdstr → Option (List Stdstr)
  | stack, [] => some stack.reverse
  | stack, name :: rest =>
    if name = [] ∨ name = dot then walk stack rest
    else if name = dotdot then
      match stack with
      | [] => none
      | _ :: stack => walk stack rest
    else if nameLimit < name.length then none
    else walk (name :: stack) rest

/-- What a path is to reach. An absolute path that is left empty is the root, which is its own last
component; a relative one has none. -/
def reference (fs : Tree) (rootDir : fs.Dir) (hcurDir : Option fs.Dir) (strPath : Stdstr) : Outcome fs.Dir :=
  let bAbs := hcurDir.isNone
  if strPath = [] ∨ regMaxPath < strPath.length ∨ bAbs ≠ decide (strPath.head? = some slash) then .error
  else
    match walk [] (segments slash strPath) with
    | none => .error
    | some names =>
      fs.reach (hcurDir.getD rootDir) names.dropLast (if bAbs then some (names.getLastD [slash]) else names.getLast?)

/-- The code reaches what the walk does, in every file system. -/
def Resolves (bAbs : Bool) (strPath : Stdstr) : Prop :=
  ∀ (fs : Tree) (rootDir : fs.Dir) (hcurDir : Option fs.Dir), hcurDir.isNone = bAbs →
    getParentDir fs rootDir hcurDir strPath = reference fs rootDir hcurDir strPath

local instance : LawfulBEq Stdstr := inferInstance

/-- The components up to the last `..`, and behind it. -/
def upToBack : List Stdstr → List Stdstr
  | [] => []
  | name :: rest => if dotdot ∈ rest then name :: upToBack rest else if name = dotdot then [name] else []

def behindBack : List Stdstr → List Stdstr
  | [] => []
  | name :: rest => if dotdot ∈ rest then behindBack rest else if name = dotdot then rest else name :: rest

/-- The components up to the last `..` cancel out; of a relative path the first one is left, which
is neither `.` nor `..`. -/
def Cancels (bAbs : Bool) (names : List Stdstr) : Prop :=
  if bAbs then walk [] (upToBack names) = some []
  else
    names.head? ≠ some dot ∧ names.head? ≠ some dotdot ∧
      (dotdot ∈ names → walk [] (upToBack names) = names.head?.map ([·]))

instance (bAbs : Bool) (names : List Stdstr) : Decidable (Cancels bAbs names) :=
  match bAbs with
  | true => inferInstanceAs (Decidable (walk [] (upToBack names) = some []))
  | false => inferInstanceAs (Decidable (names.head? ≠ some dot ∧ names.head? ≠ some dotdot ∧
      (dotdot ∈ names → walk [] (upToBack names) = names.head?.map ([·]))))

/-- The path is rejected before it is read, or no component is too long and those up to the last
`..` cancel out. -/
def Settled (bAbs : Bool) (strPath : Stdstr) : Prop :=
  strPath = [] ∨ regMaxPath < strPath.length ∨ bAbs ≠ decide (strPath.head? = some slash) ∨
    (∀ name ∈ segments slash strPath, name.length ≤ nameLimit) ∧ Cancels bAbs (segments slash strPath)

instance (bAbs : Bool) (strPath : Stdstr) : Decidable (Settled bAbs strPath) :=
  inferInstanceAs (Decidable (_ ∨ _ ∨ _ ∨ _ ∧ _))

end RpcFrmwrk.Registry
