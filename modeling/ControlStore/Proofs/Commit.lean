import ControlStore.Proofs.Staging
import Mathlib.Data.List.Induction
import Mathlib.Data.List.Nodup
import Mathlib.Data.List.Pairwise

/-! Files that take their places one after another. Each is taken from its staging path to its own,
so a path of one file that is the staging path of another stands for two contents in turn. -/

namespace ControlStore

namespace Path

theorem length_staging (path : String) : (staging path).length = path.length + 4 := by
  rw [staging, String.length_append]
  rfl

theorem staging_ne (path : String) : staging path ≠ path := by
  intro h
  have hlength := length_staging path
  rw [h] at hlength
  omega

theorem staging_injective : Function.Injective staging := by
  intro a b h
  exact String.append_left_inj _ |>.mp h

end Path

namespace Files

open Volume

/-- What is there after a file was taken from its staging path. -/
def moved (nodes : String → Option Node) (path : String) (contents : ByteArray) :
    String → Option Node :=
  Function.update (Function.update nodes (Path.staging path) none) path (some (.file contents))

section Moved

variable (nodes : String → Option Node) (path : String) (contents : ByteArray)

@[simp] theorem moved_self : moved nodes path contents path = some (.file contents) :=
  Function.update_self ..

@[simp] theorem moved_staging : moved nodes path contents (Path.staging path) = none := by
  rw [moved, Function.update_of_ne (Path.staging_ne path), Function.update_self]

theorem moved_of_ne {other : String} (hpath : other ≠ path) (hstaging : other ≠ Path.staging path) :
    moved nodes path contents other = nodes other := by
  rw [moved, Function.update_of_ne hpath, Function.update_of_ne hstaging]

end Moved

/-- Taking files to their places one after another leads from some nodes to others. At its turn each
file is at its staging path, with whatever contents. -/
inductive Moves : List (String × ByteArray) → (String → Option Node) → (String → Option Node) → Prop
  | nil (nodes : String → Option Node) : Moves [] nodes nodes
  | cons {file : String × ByteArray} {rest : List (String × ByteArray)}
      {nodes nodes' : String → Option Node} {contents : ByteArray}
      (hsource : nodes (Path.staging file.1) = some (.file contents))
      (hrest : Moves rest (moved nodes file.1 contents) nodes') : Moves (file :: rest) nodes nodes'

/-- No file is staged where an earlier one takes its place. -/
def Ordered (files : List (String × ByteArray)) : Prop :=
  files.Pairwise fun earlier later => Path.staging later.1 ≠ earlier.1

instance (files : List (String × ByteArray)) : Decidable (Ordered files) :=
  inferInstanceAs (Decidable (files.Pairwise _))

@[simp] theorem stagingPaths_cons (file : String × ByteArray) (rest : List (String × ByteArray)) :
    stagingPaths (file :: rest) = Path.staging file.1 :: stagingPaths rest := rfl

/-- Nothing is staged for the files that went to the taken paths, but at other taken paths. -/
def Vacated (taken : List String) (nodes : String → Option Node) : Prop :=
  ∀ path ∈ taken, nodes (Path.staging path) = none ∨ Path.staging path ∈ taken

theorem Vacated.moved {taken : List String} {nodes : String → Option Node} (h : Vacated taken nodes)
    {path : String} {contents : ByteArray} : Vacated (path :: taken) (moved nodes path contents) := by
  intro other hother
  by_cases hsame : other = path
  · exact .inl (hsame ▸ moved_staging nodes path contents)
  · by_cases hback : Path.staging other = path
    · exact .inr (hback ▸ List.mem_cons_self)
    · rw [moved_of_ne nodes path contents hback (Path.staging_injective.ne hsame)]
      have hmem : other ∈ taken := (List.mem_cons.mp hother).resolve_left hsame
      exact (h other hmem).imp id (List.mem_cons_of_mem _)

theorem mem_stagingPaths {files : List (String × ByteArray)} {path : String} :
    path ∈ stagingPaths files ↔ ∃ file ∈ files, Path.staging file.1 = path := List.mem_map

namespace Moves

variable {files : List (String × ByteArray)} {nodes nodes' : String → Option Node}

/-- A path to which no file goes is empty if a file came from it, and as it was if none did. -/
theorem apply_of_not_mem (h : Moves files nodes nodes') {path : String}
    (hpath : path ∉ files.map Prod.fst) :
    nodes' path = if path ∈ stagingPaths files then none else nodes path := by
  induction h with
  | nil nodes => simp [stagingPaths]
  | @cons file rest nodes nodes' contents hsource hrest ih =>
    rw [List.map_cons, List.mem_cons, not_or] at hpath
    rw [ih hpath.2]
    by_cases hfile : path = Path.staging file.1
    · rw [hfile, moved_staging, ite_self, stagingPaths_cons, if_pos List.mem_cons_self]
    · rw [moved_of_ne nodes file.1 contents hpath.1 hfile]
      simp only [stagingPaths_cons, List.mem_cons, hfile, false_or]

/-- Only a file that goes to an empty path can fill it. -/
theorem mem_of_empty (h : Moves files nodes nodes') {path : String} (hempty : nodes path = none)
    (hfull : nodes' path ≠ none) : path ∈ files.map Prod.fst := by
  by_contra hpath
  rw [h.apply_of_not_mem hpath, hempty, ite_self] at hfull
  exact hfull rfl

/-- Files in order are all staged before the first of them is taken away. -/
theorem exists_staged (h : Moves files nodes nodes') (hordered : Ordered files)
    {file : String × ByteArray} (hfile : file ∈ files) :
    ∃ contents, nodes (Path.staging file.1) = some (.file contents) := by
  induction h with
  | nil nodes => cases hfile
  | @cons first rest nodes nodes' contents hsource hrest ih =>
    obtain ⟨hfirst, hordered⟩ := List.pairwise_cons.mp hordered
    obtain rfl | hfile := List.mem_cons.mp hfile
    · exact ⟨contents, hsource⟩
    · obtain ⟨other, hother⟩ := ih hordered hfile
      have hstaging : Path.staging file.1 ≠ Path.staging first.1 := by
        intro hsame
        rw [hsame, moved_staging] at hother
        cases hother
      rw [moved_of_ne nodes first.1 contents (hfirst file hfile) hstaging] at hother
      exact ⟨other, hother⟩

/-- Of two files with one path the second would find nothing at its staging path. -/
theorem nodup (h : Moves files nodes nodes') (hordered : Ordered files) :
    (files.map Prod.fst).Nodup := by
  induction h with
  | nil nodes => exact List.nodup_nil
  | @cons first rest nodes nodes' contents hsource hrest ih =>
    obtain ⟨-, hordered⟩ := List.pairwise_cons.mp hordered
    refine List.nodup_cons.mpr ⟨?_, ih hordered⟩
    intro hmem
    obtain ⟨file, hfile, hsame⟩ := List.mem_map.mp hmem
    obtain ⟨other, hother⟩ := hrest.exists_staged hordered hfile
    rw [hsame, moved_staging] at hother
    cases hother

/-- Every file in order has in the end what was staged for it. -/
theorem apply_of_ordered (h : Moves files nodes nodes') (hordered : Ordered files)
    {file : String × ByteArray} (hfile : file ∈ files) :
    nodes' file.1 = nodes (Path.staging file.1) := by
  induction h with
  | nil nodes => cases hfile
  | @cons first rest nodes nodes' contents hsource hrest ih =>
    have hnodup := (Moves.cons hsource hrest).nodup hordered
    rw [List.map_cons, List.nodup_cons] at hnodup
    obtain ⟨hfirst, hordered⟩ := List.pairwise_cons.mp hordered
    obtain rfl | hfile := List.mem_cons.mp hfile
    · have hkept : file.1 ∉ stagingPaths rest := by
        intro hmem
        obtain ⟨later, hlater, hsame⟩ := mem_stagingPaths.mp hmem
        exact hfirst later hlater hsame
      rw [hrest.apply_of_not_mem hnodup.1, if_neg hkept, moved_self, hsource]
    · have hother : file.1 ≠ first.1 := by
        intro hsame
        exact hnodup.1 (hsame ▸ List.mem_map_of_mem hfile)
      rw [ih hordered hfile]
      exact moved_of_ne nodes first.1 contents (hfirst file hfile)
        (Path.staging_injective.ne hother)

/-- If in the end something is at every path to which files went, they went in order: neither was one
of them staged where another had gone, nor at one of the paths that were taken before. -/
theorem ordered_of_full (h : Moves files nodes nodes') {taken : List String}
    (htaken : Vacated taken nodes) (hfull : ∀ path ∈ taken ++ files.map Prod.fst, nodes' path ≠ none) :
    (∀ file ∈ files, Path.staging file.1 ∉ taken) ∧ Ordered files := by
  induction h generalizing taken with
  | nil nodes => exact ⟨by simp, List.Pairwise.nil⟩
  | @cons first rest nodes nodes' contents hsource hrest ih =>
    have hmoved : Vacated (first.1 :: taken) (moved nodes first.1 contents) := htaken.moved
    obtain ⟨hfree, hordered⟩ := ih hmoved fun path hpath =>
      hfull path (List.perm_middle.mem_iff.mpr hpath)
    have hrestFree : ∀ file ∈ rest, Path.staging file.1 ≠ first.1 ∧ Path.staging file.1 ∉ taken := by
      intro file hfile
      simpa only [List.mem_cons, not_or] using hfree file hfile
    refine ⟨List.forall_mem_cons.mpr ⟨?_, fun file hfile => (hrestFree file hfile).2⟩,
      List.pairwise_cons.mpr ⟨fun file hfile => (hrestFree file hfile).1, hordered⟩⟩
    intro hmem
    -- The first file was staged at a taken path, so a later one has to fill that again. But it was
    -- staged where the file of that path had been, and nothing is there any more.
    have hagain : Path.staging first.1 ∈ rest.map Prod.fst :=
      hrest.mem_of_empty (moved_staging nodes first.1 contents)
        (hfull _ (List.mem_append_left _ hmem))
    obtain ⟨later, hlater, hsame⟩ := List.mem_map.mp hagain
    obtain ⟨other, hother⟩ := hrest.exists_staged hordered hlater
    have hnot := hfree later hlater
    rw [hsame] at hother hnot
    obtain hnone | hstaged := hmoved _ (List.mem_cons_of_mem _ hmem)
    · rw [hnone] at hother
      cases hother
    · exact hnot hstaged

end Moves

/-- What is there when all files are written at their staging paths. -/
def allStaged (nodes : String → Option Node) (files : List (String × ByteArray)) :
    String → Option Node :=
  files.foldl (fun nodes file => Function.update nodes (Path.staging file.1) (some (.file file.2)))
    nodes

section AllStaged

variable (nodes : String → Option Node) {files : List (String × ByteArray)}

/-- At a staging path is the last of the files that are staged there. -/
theorem allStaged_of_mem {path : String} (hpath : path ∈ stagingPaths files) :
    ∃ file ∈ files, Path.staging file.1 = path ∧ allStaged nodes files path = some (.file file.2) := by
  induction files using List.reverseRecOn with
  | nil => cases hpath
  | append_singleton files last ih =>
    rw [allStaged, List.foldl_append, List.foldl_cons, List.foldl_nil]
    by_cases hlast : path = Path.staging last.1
    · subst hlast
      exact ⟨last, by simp, rfl, Function.update_self ..⟩
    · have hmem : path ∈ stagingPaths files := by
        simpa [stagingPaths, hlast, eq_comm] using hpath
      obtain ⟨file, hfile, hsame, hstaged⟩ := ih hmem
      exact ⟨file, List.mem_append_left _ hfile, hsame,
        (Function.update_of_ne hlast _ _).trans hstaged⟩

theorem allStaged_of_nodup (hnodup : (files.map Prod.fst).Nodup) {file : String × ByteArray}
    (hfile : file ∈ files) : allStaged nodes files (Path.staging file.1) = some (.file file.2) := by
  obtain ⟨other, hother, hsame, hstaged⟩ :=
    allStaged_of_mem nodes (mem_stagingPaths.mpr ⟨file, hfile, rfl⟩)
  rw [hstaged, List.inj_on_of_nodup_map hnodup hother hfile (Path.staging_injective hsame)]

end AllStaged

section Run

variable {path : String} (contents : ByteArray) (rest : List (String × ByteArray)) {v : Volume}

theorem commit_of_rename_ok (h : (v.rename (Path.staging path) path).1 = .ok ()) :
    ((commit ((path, contents) :: rest) : StateM Volume _).run v).1.2 =
        ((commit rest : StateM Volume _).run (v.rename (Path.staging path) path).2).1.2 ∧
      ((commit ((path, contents) :: rest) : StateM Volume _).run v).2 =
        ((commit rest : StateM Volume _).run (v.rename (Path.staging path) path).2).2 := by
  rw [commit, run_bind, run_rename, h]
  exact ⟨rfl, rfl⟩

theorem commit_of_rename_error {cause : DiskError}
    (h : (v.rename (Path.staging path) path).1 = .error cause) :
    (commit ((path, contents) :: rest) : StateM Volume _).run v =
      (([], .error (.disk path cause)),
        (v.rename (Path.staging path) path).2.remove (Path.staging path)) := by
  rw [commit, run_bind, run_rename, h]
  rfl

end Run

/-- All staged files go to their places, or some of them do and the next one is removed. -/
theorem commit_cases (files : List (String × ByteArray)) (v : Volume) :
    (((commit files : StateM Volume _).run v).1.2 = .ok () ∧
      Moves files v.nodes ((commit files : StateM Volume _).run v).2.nodes) ∨
    (∃ earlier file later cause nodes, files = earlier ++ file :: later ∧
      ((commit files : StateM Volume _).run v).1.2 = .error (.disk file.1 cause) ∧
      Moves earlier v.nodes nodes ∧
      ((commit files : StateM Volume _).run v).2.nodes = without [Path.staging file.1] nodes) := by
  induction files generalizing v with
  | nil => exact .inl ⟨rfl, .nil v.nodes⟩
  | cons first rest ih =>
    obtain ⟨path, contents⟩ := first
    obtain ⟨staged, hok, hsource, hnodes⟩ | ⟨cause, herror, hnodes⟩ :=
      rename_cases v (Path.staging path) path
    · obtain ⟨hresult, hvolume⟩ := commit_of_rename_ok contents rest hok
      rw [hresult, hvolume]
      obtain ⟨hdone, hmoves⟩ | ⟨earlier, file, later, cause, nodes, hfiles, hfailed, hmoves, hleft⟩ :=
        ih (v.rename (Path.staging path) path).2
      · rw [hnodes] at hmoves
        exact .inl ⟨hdone, .cons hsource hmoves⟩
      · rw [hnodes] at hmoves
        exact .inr ⟨(path, contents) :: earlier, file, later, cause, nodes, by rw [hfiles]; rfl,
          hfailed, .cons hsource hmoves, hleft⟩
    · rw [commit_of_rename_error contents rest herror, nodes_remove, hnodes]
      exact .inr ⟨[], (path, contents), rest, cause, v.nodes, rfl, rfl, .nil v.nodes, rfl⟩

theorem nodes_of_stage_ok {staged : List String} {files : List (String × ByteArray)} {v : Volume}
    (h : ((stage staged files : StateM Volume _).run v).1 = .ok ()) :
    ((stage staged files : StateM Volume _).run v).2.nodes = allStaged v.nodes files := by
  induction files generalizing staged v with
  | nil => rfl
  | cons file rest ih =>
    obtain ⟨path, contents⟩ := file
    obtain ⟨hok, -, hnodes⟩ | ⟨cause, herror, -⟩ := write_cases v (Path.staging path) contents
    · rw [stage_of_write_ok staged rest hok] at h ⊢
      rw [ih h, hnodes]
      rfl
    · rw [(stage_of_write_error staged rest herror).1] at h
      cases h

theorem write_of_stage_ok {files : List (String × ByteArray)} {v : Volume}
    (h : ((stage [] files : StateM Volume _).run v).1 = .ok ()) :
    (write files : StateM Volume _).run v =
      (commit files : StateM Volume _).run ((stage [] files : StateM Volume _).run v).2 := by
  rw [write, run_bind, h]

/-- A call succeeds, or it fails when it stages a file, or when it takes a staged file to its
place. -/
theorem write_outcomes (files : List (String × ByteArray)) (v : Volume) :
    (((write files : StateM Volume _).run v).1.2 = .ok () ∧
      Moves files (allStaged v.nodes files) ((write files : StateM Volume _).run v).2.nodes) ∨
    (∃ earlier file later cause, files = earlier ++ file :: later ∧
      ((write files : StateM Volume _).run v).1.2 = .error (.disk (Path.staging file.1) cause) ∧
      ((write files : StateM Volume _).run v).2.nodes =
        without (stagingPaths (earlier ++ [file])) v.nodes) ∨
    (∃ earlier file later cause nodes, files = earlier ++ file :: later ∧
      ((write files : StateM Volume _).run v).1.2 = .error (.disk file.1 cause) ∧
      Moves earlier (allStaged v.nodes files) nodes ∧
      ((write files : StateM Volume _).run v).2.nodes = without [Path.staging file.1] nodes) := by
  cases hstage : ((stage [] files : StateM Volume _).run v).1 with
  | error f =>
    obtain ⟨earlier, file, later, cause, hfiles, hf, hnodes⟩ := stage_error hstage
    rw [write_of_stage_error hstage]
    exact .inr (.inl ⟨earlier, file, later, cause, hfiles, congrArg Except.error hf, hnodes⟩)
  | ok _ =>
    rw [write_of_stage_ok hstage, ← nodes_of_stage_ok hstage]
    obtain hdone | hfailed := commit_cases files ((stage [] files : StateM Volume _).run v).2
    · exact .inl hdone
    · exact .inr (.inr hfailed)

theorem moves_of_write_ok {files : List (String × ByteArray)} {v : Volume}
    (h : ((write files : StateM Volume _).run v).1.2 = .ok ()) :
    Moves files (allStaged v.nodes files) ((write files : StateM Volume _).run v).2.nodes := by
  obtain ⟨-, hmoves⟩ | ⟨_, _, _, _, _, hfailed, _⟩ | ⟨_, _, _, _, _, _, hfailed, _⟩ :=
    write_outcomes files v
  · exact hmoves
  · rw [h] at hfailed
    cases hfailed
  · rw [h] at hfailed
    cases hfailed

/-- After a call that succeeds every listed path is a file with its own contents if and only if no
file was staged at the path of an earlier one. -/
theorem contents_after_write_iff (files : List (String × ByteArray)) (v : Volume)
    (h : ((write files : StateM Volume _).run v).1.2 = .ok ()) :
    (∀ file ∈ files,
      ((write files : StateM Volume _).run v).2.nodes file.1 = some (.file file.2)) ↔
      Ordered files := by
  have hmoves := moves_of_write_ok h
  constructor
  · intro hcontents
    have hnone : Vacated [] (allStaged v.nodes files) := fun path hpath => by cases hpath
    refine (hmoves.ordered_of_full hnone ?_).2
    intro path hpath
    obtain ⟨file, hfile, rfl⟩ := List.mem_map.mp hpath
    rw [hcontents file hfile]
    exact Option.some_ne_none _
  · intro hordered file hfile
    rw [hmoves.apply_of_ordered hordered hfile]
    exact allStaged_of_nodup v.nodes (hmoves.nodup hordered) hfile

/-- Something old is at a path and at its staging path. -/
def staleVolume : Volume where
  nodes path := if path = "a" ∨ path = "a.tmp" then some (.file ⟨#[9]⟩) else none

def followedFiles : List (String × ByteArray) := [("a", ⟨#[1]⟩), ("a.tmp", ⟨#[2]⟩)]

/-- The second file takes its place where the first was staged, but that one is gone by then. -/
theorem contents_after_write_followed :
    ((write followedFiles : StateM Volume _).run staleVolume).1.2 = .ok () ∧
    ∀ file ∈ followedFiles,
      ((write followedFiles : StateM Volume _).run staleVolume).2.nodes file.1 =
        some (.file file.2) := by
  have hok : ((write followedFiles : StateM Volume _).run staleVolume).1.2 = .ok () := rfl
  exact ⟨hok, (contents_after_write_iff followedFiles staleVolume hok).mpr (by decide)⟩

def overtakenFiles : List (String × ByteArray) := [("a.tmp", ⟨#[2]⟩), ("a", ⟨#[1]⟩)]

/-- The other way round the first file replaces what is staged for the second and is then taken on to
the path of that one. The call succeeds, and neither path has its contents. -/
theorem contents_after_write_overtaken :
    ((write overtakenFiles : StateM Volume _).run staleVolume).1.2 = .ok () ∧
    ((write overtakenFiles : StateM Volume _).run staleVolume).2.nodes "a" =
      some (.file ⟨#[2]⟩) ∧
    ((write overtakenFiles : StateM Volume _).run staleVolume).2.nodes "a.tmp" = none ∧
    ¬ ∀ file ∈ overtakenFiles,
      ((write overtakenFiles : StateM Volume _).run staleVolume).2.nodes file.1 =
        some (.file file.2) := by
  have hgone :
      ((write overtakenFiles : StateM Volume _).run staleVolume).2.nodes "a.tmp" = none := rfl
  refine ⟨rfl, rfl, hgone, ?_⟩
  intro hall
  have hfirst := hall ("a.tmp", ⟨#[2]⟩) List.mem_cons_self
  rw [hgone] at hfirst
  cases hfirst

end Files

end ControlStore
