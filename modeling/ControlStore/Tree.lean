import ControlStore.Disk
import ControlStore.Path

/-!
A tree of files in memory. Every file and directory is kept under the names that lead to it from the
root. A path without a slash in front is read with the working directory and a slash before it, so
that the empty path is the working directory.
-/

namespace ControlStore

inductive Node
  | dir
  | file (contents : ByteArray)

def Node.isDir : Node → Bool
  | dir => true
  | file _ => false

structure Tree where
  nodes : List (List String × Node)
  workingDir : List String

/-- Where a path leads: the directory that holds its last name. A path that ends in dots has
none. -/
structure Place where
  dir : List String
  name : Option String
  /-- A slash ends the path, so that only a directory will do. -/
  slash : Bool
deriving DecidableEq

namespace Tree

def maxName : Nat := 255

def maxPath : Nat := 4096

/-- A working directory with nothing in it. -/
def empty : Tree := { nodes := [(["work"], .dir)], workingDir := ["work"] }

/-- What stands under names. The root is a directory. -/
def find? (t : Tree) (names : List String) : Option Node :=
  if names.isEmpty then some .dir else t.nodes.lookup names

/-- A directory stands under names. -/
def isDirAt (t : Tree) (names : List String) : Bool := (t.find? names).any Node.isDir

def erase (t : Tree) (names : List String) : Tree :=
  { t with nodes := t.nodes.filter (fun n => n.1 != names) }

def insert (t : Tree) (names : List String) (n : Node) : Tree :=
  { t with nodes := (t.erase names).nodes ++ [(names, n)] }

/-- Puts a node in place together with the directories above it. -/
def put (t : Tree) (names : List String) (n : Node) : Tree :=
  let t := (List.range names.length).foldl (fun t k =>
    let above := names.take k
    if (t.find? above).isSome then t else t.insert above .dir) t
  t.insert names n

/-- What stands below the working directory, by relative path. -/
def listing (t : Tree) : List (String × Node) :=
  t.nodes.filterMap fun (names, n) =>
    let rest := names.drop t.workingDir.length
    if t.workingDir.isPrefixOf names && !rest.isEmpty then some ("/".intercalate rest, n) else none

/-- Follows names through directories. -/
def walk (t : Tree) (here : List String) : List (List Char) → Except DiskError (List String)
  | [] => .ok here
  | name :: rest =>
    match t.find? here with
    | none => .error .notFound
    | some (.file _) => .error .notADirectory
    | some .dir =>
      if name = ['.'] then t.walk here rest
      else if name = ['.', '.'] then t.walk here.dropLast rest
      else
        let name := String.ofList name
        if maxName < name.utf8ByteSize then .error .nameTooLong
        else if (t.find? (here ++ [name])).isNone then .error .notFound
        else t.walk (here ++ [name]) rest

/-- The parts of a path from the root on. -/
def partsFromRoot (t : Tree) (path : List Char) : List (List Char) :=
  if Path.isAbsolute path then Path.parts path
  else t.workingDir.map String.toList ++ Path.parts path

/-- Finds the directory that a path leads to. -/
def place (t : Tree) (path : String) : Except DiskError Place := do
  let chars := path.toList
  if chars.contains (Char.ofNat 0) then throw .zeroInName
  if maxPath ≤ path.utf8ByteSize then throw .nameTooLong
  let parts := t.partsFromRoot chars
  let dir ← t.walk [] parts.dropLast
  if !t.isDirAt dir then throw .notADirectory
  -- The empty path ends in the slash after the working directory.
  let slash := chars.getLast?.all (· == '/')
  match parts.getLast? with
  | none => return { dir, name := none, slash }
  | some last =>
    if last = ['.'] then return { dir, name := none, slash }
    else if last = ['.', '.'] then return { dir := dir.dropLast, name := none, slash }
    else
      let name := String.ofList last
      if maxName < name.utf8ByteSize then throw .nameTooLong
      return { dir, name := some name, slash }

/-- What a path leads to. -/
def node (t : Tree) (path : String) : Except DiskError Node := do
  let p ← t.place path
  match p.name with
  | none => return .dir
  | some name =>
    match t.find? (p.dir ++ [name]) with
    | none => throw .notFound
    | some .dir => return .dir
    | some (.file c) => if p.slash then throw .notADirectory else return .file c

def write (t : Tree) (path : String) (contents : ByteArray) : Except DiskError Tree := do
  let p ← t.place path
  match p.name with
  | none => throw .isADirectory
  | some name =>
    if p.slash || t.isDirAt (p.dir ++ [name]) then throw .isADirectory
    return t.insert (p.dir ++ [name]) (.file contents)

def remove (t : Tree) (path : String) : Tree :=
  match t.place path with
  | .error _ => t
  | .ok p =>
    match p.name with
    | none => t
    | some name =>
      match t.find? (p.dir ++ [name]) with
      | some (.file _) => if p.slash then t else t.erase (p.dir ++ [name])
      | _ => t

/-- Moves a file. Neither end may be dots, nor the new one a directory or written like one. -/
def rename (t : Tree) (source target : String) : Except DiskError Tree := do
  let p ← t.place source
  let q ← t.place target
  match p.name, q.name with
  | some old, some new =>
    match t.find? (p.dir ++ [old]) with
    | none => throw .notFound
    | some .dir => throw .isADirectory
    | some (.file c) =>
      if p.slash || q.slash then throw .notADirectory
      if t.isDirAt (q.dir ++ [new]) then throw .isADirectory
      return (t.erase (p.dir ++ [old])).insert (q.dir ++ [new]) (.file c)
  | _, _ => throw .busy

def makeDir (t : Tree) (path : String) : Except DiskError Tree := do
  let p ← t.place path
  match p.name with
  | none => throw .alreadyExists
  | some name =>
    if (t.find? (p.dir ++ [name])).isSome then throw .alreadyExists
    return t.insert (p.dir ++ [name]) .dir

def isDir (t : Tree) (path : String) : Bool :=
  match t.node path with
  | .ok .dir => true
  | _ => false

/-- Makes a directory and, if there is nothing above it, first those above. The depth bounds how far
up this goes. -/
def makeDirs (t : Tree) (path : String) : (depth : Nat) → Tree × Except DiskError Unit
  | 0 => (t, .error .notFound)
  | depth + 1 =>
    if path.isEmpty then (t, .ok ())
    else
      -- A directory that stands there already is as good as a new one.
      let settle (t : Tree) : Tree × Except DiskError Unit :=
        match t.makeDir path with
        | .ok t => (t, .ok ())
        | .error e => if t.isDir path then (t, .ok ()) else (t, .error e)
      match t.makeDir path with
      | .error .notFound =>
        match Path.parent? path.toList with
        | none => (t, .error .notFound)
        | some above =>
          match t.makeDirs (String.ofList above) depth with
          | (t, .ok _) => settle t
          | (t, .error e) => (t, .error e)
      | _ => settle t

def read (t : Tree) (path : String) : Except ReadFailure ByteArray :=
  match t.node path with
  | .ok (.file c) => .ok c
  | .ok .dir => .error (.atRead .empty .isADirectory)
  | .error e => .error (.atOpen e)

/-- The tree after an operation, unchanged if it fails. -/
def after (r : Tree → Except DiskError Tree) : StateM Tree (Except DiskError Unit) := do
  match r (← get) with
  | .ok t => do
    set t
    return .ok ()
  | .error e => return .error e

instance : Disk (StateM Tree) where
  write path contents := after fun t => t.write path contents
  remove path := modify fun t => t.remove path
  rename source target := after fun t => t.rename source target
  makeDirs path := do
    let (t, result) := (← get).makeDirs path ((Path.parts path.toList).length + 2)
    set t
    return result
  read path := do return (← get).read path

end Tree

end ControlStore
