import Mathlib.Logic.Function.Basic
import ControlStore.Files
import ControlStore.Tree

/-! Files on a system that may refuse any operation. A volume has something or nothing under each
path, and different paths are different places. What the system will answer to the operations to
come is part of it, so that a statement about all volumes is about every way in which operations can
fail. -/

namespace ControlStore

/-- What the system says to an operation. One that is refused may have come some way before that: of
a write some contents are there, of a read some were read. -/
inductive Answer
  | granted
  | refused (cause : DiskError) (sofar : Option ByteArray)

structure Volume where
  nodes : String → Option Node
  /-- The next answers. After them everything is granted. -/
  answers : List Answer := []

namespace Volume

def isDirAt (v : Volume) (path : String) : Bool := (v.nodes path).any Node.isDir

/-- The answer to the next operation. -/
def answer (v : Volume) : Answer := v.answers.headD .granted

/-- The volume that waits for the operation after the next. -/
def next (v : Volume) : Volume := { v with answers := v.answers.tail }

def put (v : Volume) (path : String) (n : Option Node) : Volume :=
  { v with nodes := Function.update v.nodes path n }

@[simp] theorem nodes_put (v : Volume) (path : String) (n : Option Node) :
    (v.put path n).nodes = Function.update v.nodes path n := rfl

/-- Writes a file, though never over a directory. -/
def write (v : Volume) (path : String) (contents : ByteArray) : Except DiskError Unit × Volume :=
  match v.answer with
  | .granted =>
    if v.isDirAt path then (.error .isADirectory, v.next)
    else (.ok (), v.next.put path (some (.file contents)))
  | .refused cause none => (.error cause, v.next)
  | .refused cause (some sofar) =>
    if v.isDirAt path then (.error cause, v.next)
    else (.error cause, v.next.put path (some (.file sofar)))

/-- Removes a file. This is never refused. -/
def remove (v : Volume) (path : String) : Volume := v.put path ((v.nodes path).filter Node.isDir)

/-- Moves a file, though never over a directory. -/
def rename (v : Volume) (source target : String) : Except DiskError Unit × Volume :=
  match v.answer, v.nodes source with
  | .refused cause _, _ => (.error cause, v.next)
  | .granted, none => (.error .notFound, v.next)
  | .granted, some .dir => (.error .isADirectory, v.next)
  | .granted, some (.file contents) =>
    if v.isDirAt target then (.error .isADirectory, v.next)
    else (.ok (), (v.next.put source none).put target (some (.file contents)))

/-- Makes a directory. Those above it are places of their own. -/
def makeDirs (v : Volume) (path : String) : Except DiskError Unit × Volume :=
  match v.answer, v.nodes path with
  | .refused cause _, _ => (.error cause, v.next)
  | .granted, some (.file _) => (.error .alreadyExists, v.next)
  | .granted, _ => (.ok (), v.next.put path (some .dir))

def read (v : Volume) (path : String) : Except ReadFailure ByteArray :=
  match v.answer, v.nodes path with
  | .refused cause none, _ => .error (.atOpen cause)
  | .refused cause (some sofar), _ => .error (.atRead sofar cause)
  | .granted, none => .error (.atOpen .notFound)
  | .granted, some .dir => .error (.atRead .empty .isADirectory)
  | .granted, some (.file contents) => .ok contents

instance : Disk (StateM Volume) where
  write path contents := fun v => v.write path contents
  remove path := fun v => ((), v.remove path)
  rename source target := fun v => v.rename source target
  makeDirs path := fun v => v.makeDirs path
  read path := fun v => (v.read path, v.next)

theorem run_bind {α β : Type} (x : StateM Volume α) (f : α → StateM Volume β) (v : Volume) :
    (x >>= f).run v = (f (x.run v).1).run (x.run v).2 := rfl

theorem run_write (path : String) (contents : ByteArray) (v : Volume) :
    (Disk.write path contents : StateM Volume _).run v = v.write path contents := rfl

theorem run_remove (path : String) (v : Volume) :
    (Disk.remove path : StateM Volume _).run v = ((), v.remove path) := rfl

theorem run_rename (source target : String) (v : Volume) :
    (Disk.rename source target : StateM Volume _).run v = v.rename source target := rfl

theorem run_read (path : String) (v : Volume) :
    (Disk.read path : StateM Volume _).run v = (v.read path, v.next) := rfl

/-- A write puts the file in place, or it fails and leaves what was there or a file with other
contents. Directories stay. -/
theorem write_cases (v : Volume) (path : String) (contents : ByteArray) :
    ((v.write path contents).1 = .ok () ∧ v.isDirAt path = false ∧
      (v.write path contents).2.nodes =
        Function.update v.nodes path (some (.file contents))) ∨
    (∃ cause, (v.write path contents).1 = .error cause ∧
      ((v.write path contents).2.nodes = v.nodes ∨
        v.isDirAt path = false ∧ ∃ sofar, (v.write path contents).2.nodes =
          Function.update v.nodes path (some (.file sofar)))) := by
  unfold write
  split
  · split
    · exact .inr ⟨_, rfl, .inl rfl⟩
    · rename_i hdir
      exact .inl ⟨rfl, by simpa using hdir, rfl⟩
  · exact .inr ⟨_, rfl, .inl rfl⟩
  · -- Part of the file is there, unless a directory is in the way.
    split
    · exact .inr ⟨_, rfl, .inl rfl⟩
    · rename_i hdir
      exact .inr ⟨_, rfl, .inr ⟨by simpa using hdir, _, rfl⟩⟩

/-- A rename takes a file from one path to another, or it fails and changes nothing. -/
theorem rename_cases (v : Volume) (source target : String) :
    (∃ contents, (v.rename source target).1 = .ok () ∧ v.nodes source = some (.file contents) ∧
      (v.rename source target).2.nodes =
        Function.update (Function.update v.nodes source none) target (some (.file contents))) ∨
    (∃ cause, (v.rename source target).1 = .error cause ∧
      (v.rename source target).2.nodes = v.nodes) := by
  unfold rename
  split
  · exact .inr ⟨_, rfl, rfl⟩
  · exact .inr ⟨_, rfl, rfl⟩
  · exact .inr ⟨_, rfl, rfl⟩
  · rename_i contents _ hsource
    split
    · exact .inr ⟨_, rfl, rfl⟩
    · exact .inl ⟨contents, rfl, hsource, rfl⟩

/-- What is there without the files under some paths. -/
def without (paths : List String) (nodes : String → Option Node) : String → Option Node :=
  fun path => if path ∈ paths then (nodes path).filter Node.isDir else nodes path

@[simp] theorem without_nil (nodes : String → Option Node) : without [] nodes = nodes := by
  funext path
  simp [without]

theorem without_append (paths more : List String) (nodes : String → Option Node) :
    without paths (without more nodes) = without (paths ++ more) nodes := by
  funext path
  by_cases h : path ∈ paths
  · by_cases hmore : path ∈ more
    · simp [without, h, hmore, Option.filter_filter]
    · simp [without, h, hmore]
  · simp [without, h]

/-- A file that is to go may as well have been written. -/
theorem without_update {paths : List String} {path : String} (hmem : path ∈ paths)
    {nodes : String → Option Node} (hdir : (nodes path).any Node.isDir = false)
    (contents : ByteArray) :
    without paths (Function.update nodes path (some (.file contents))) = without paths nodes := by
  funext other
  by_cases h : other = path
  · subst h
    have hfile : (nodes other).filter Node.isDir = none := by
      cases hnode : nodes other with
      | none => rfl
      | some n =>
        rw [hnode] at hdir
        simpa using hdir
    simp [without, hmem, hfile, Node.isDir]
  · simp [without, Function.update_of_ne h]

/-- Whether a write succeeds or not, the file is no more after its removal. -/
theorem without_write {paths : List String} {path : String} (hmem : path ∈ paths) (v : Volume)
    (contents : ByteArray) :
    without paths (v.write path contents).2.nodes = without paths v.nodes := by
  obtain ⟨-, hdir, hnodes⟩ | ⟨cause, -, hnodes | ⟨hdir, sofar, hnodes⟩⟩ :=
    write_cases v path contents
  · rw [hnodes]
    exact without_update hmem hdir contents
  · rw [hnodes]
  · rw [hnodes]
    exact without_update hmem hdir sofar

theorem nodes_remove (v : Volume) (path : String) :
    (v.remove path).nodes = without [path] v.nodes := by
  funext other
  by_cases h : other = path
  · subst h
    simp [remove, without]
  · simp [remove, without, h]

/-- Removing one file after another. -/
theorem nodes_forM_remove (paths : List String) (v : Volume) :
    ((paths.forM Disk.remove : StateM Volume Unit).run v).2.nodes = without paths v.nodes := by
  induction paths generalizing v with
  | nil => exact (without_nil v.nodes).symm
  | cons path rest ih =>
    have hrest : ((rest.forM Disk.remove : StateM Volume Unit).run (v.remove path)).2.nodes =
        without (rest ++ [path]) v.nodes := by
      rw [ih, nodes_remove, without_append]
    rw [List.forM_eq_forM, List.forM_cons, run_bind, run_remove, ← List.forM_eq_forM, hrest]
    funext other
    simp [without, or_comm]

end Volume

end ControlStore
