import ControlStore.Command
import ControlStore.Proofs.Outcome
import ControlStore.Proofs.Volume

/-! Runs that fail early. A run writes nothing unless all targets are loaded and burned, and it
replaces nothing unless all files are staged: when one of them cannot be, those staged before it are
removed again together with what is left of it. -/

namespace ControlStore

open Volume

namespace Files

/-- Where files are written before they take their places. -/
def stagingPaths (files : List (String × ByteArray)) : List String :=
  files.map fun file => Path.staging file.1

section Step

variable (staged : List String) {path : String} {contents : ByteArray}
  (rest : List (String × ByteArray)) {v : Volume}

theorem stage_of_write_ok (h : (v.write (Path.staging path) contents).1 = .ok ()) :
    (stage staged ((path, contents) :: rest) : StateM Volume _).run v =
      (stage (staged ++ [Path.staging path]) rest : StateM Volume _).run
        (v.write (Path.staging path) contents).2 := by
  rw [stage, run_bind, run_write, h]

theorem stage_of_write_error {cause : DiskError}
    (h : (v.write (Path.staging path) contents).1 = .error cause) :
    ((stage staged ((path, contents) :: rest) : StateM Volume _).run v).1 =
        .error (.disk (Path.staging path) cause) ∧
      ((stage staged ((path, contents) :: rest) : StateM Volume _).run v).2.nodes =
        without (staged ++ [Path.staging path]) v.nodes := by
  rw [stage, run_bind, run_write, h]
  refine ⟨rfl, ?_⟩
  calc ((staged.forM Disk.remove : StateM Volume Unit).run
        ((v.write (Path.staging path) contents).2.remove (Path.staging path))).2.nodes
      = without staged (without [Path.staging path]
          (v.write (Path.staging path) contents).2.nodes) := by
        rw [nodes_forM_remove, nodes_remove]
    _ = without staged (without [Path.staging path] v.nodes) := by
        rw [without_write (List.mem_singleton_self _)]
    _ = without (staged ++ [Path.staging path]) v.nodes := without_append _ _ _

end Step

/-- When a file cannot be staged, nothing is left of it and of the staged files before it. -/
theorem stage_error {staged : List String} {files : List (String × ByteArray)} {v : Volume}
    {f : Failure} (h : ((stage staged files : StateM Volume _).run v).1 = .error f) :
    ∃ earlier file later cause, files = earlier ++ file :: later ∧
      f = .disk (Path.staging file.1) cause ∧
      ((stage staged files : StateM Volume _).run v).2.nodes =
        without (staged ++ stagingPaths (earlier ++ [file])) v.nodes := by
  -- Every path that was staged before stays on the list of those to be cleared.
  induction files generalizing staged v with
  | nil => cases h
  | cons file rest ih =>
    obtain ⟨path, contents⟩ := file
    obtain ⟨hok, -⟩ | ⟨cause, herror, -⟩ := write_cases v (Path.staging path) contents
    · rw [stage_of_write_ok staged rest hok] at h
      obtain ⟨earlier, file, later, cause, hfiles, hf, hnodes⟩ := ih h
      refine ⟨(path, contents) :: earlier, file, later, cause, by rw [hfiles]; rfl, hf, ?_⟩
      have hmem : Path.staging path ∈
          staged ++ [Path.staging path] ++ stagingPaths (earlier ++ [file]) := by
        simp
      rw [stage_of_write_ok staged rest hok, hnodes, without_write hmem, List.append_assoc]
      rfl
    · obtain ⟨hresult, hnodes⟩ := stage_of_write_error staged rest herror
      refine ⟨[], (path, contents), rest, cause, rfl, ?_, hnodes⟩
      rw [hresult] at h
      exact (Except.error.inj h).symm

theorem write_of_stage_error {files : List (String × ByteArray)} {v : Volume} {f : Failure}
    (h : ((stage [] files : StateM Volume _).run v).1 = .error f) :
    (write files : StateM Volume _).run v =
      (([], .error f), ((stage [] files : StateM Volume _).run v).2) := by
  rw [write, run_bind, h]
  rfl

end Files

namespace Command

/-- Reading changes nothing. -/
theorem nodes_load (o : Options) (stdin : ByteArray) (v : Volume) :
    ((load o stdin : StateM Volume _).run v).2.nodes = v.nodes := by
  unfold load
  split
  · rfl
  · split
    · rfl
    · rw [run_bind, run_read]
      split
      · rfl
      · rfl
      · rfl

/-- One target that does not burn is enough for there to be no files. -/
theorem render_error (dir : String) (f : FileFormat) {targets : List Target}
    (h : ∃ t ∈ targets, ∃ e, t.images = .error e) :
    ∃ events e, render dir f targets = (events, .error (.engine e)) := by
  induction targets with
  | nil =>
    obtain ⟨t, hmem, -⟩ := h
    cases hmem
  | cons t rest ih =>
    cases himages : t.images with
    | error e => exact ⟨[], e, by rw [render, himages]⟩
    | ok images =>
      have hrest : ∃ t' ∈ rest, ∃ e, t'.images = .error e := by
        obtain ⟨t', hmem, e, he⟩ := h
        obtain rfl | hmem := List.mem_cons.mp hmem
        · rw [himages] at he
          cases he
        · exact ⟨t', hmem, e, he⟩
      obtain ⟨events, e, he⟩ := ih hrest
      refine ⟨.rendered t.name (t.render images f).length :: events, e, ?_⟩
      rw [render, himages, he]
      rfl

section Produce

variable {o : Options} {stdin : ByteArray} {v v' : Volume} {events more : List Event}
  {targets : List Target} {f : Failure}

theorem produce_of_load_error
    (h : (load o stdin : StateM Volume _).run v = ((events, .error f), v')) :
    (produce o stdin : StateM Volume _).run v = ((events, .error f), v') := by
  rw [produce, run_bind, h]
  rfl

theorem produce_of_render_error
    (h : (load o stdin : StateM Volume _).run v = ((events, .ok targets), v'))
    (hrender : render (o.output.getD ".") (o.format.getD .binary) targets = (more, .error f)) :
    (produce o stdin : StateM Volume _).run v = ((events ++ more, .error f), v') := by
  rw [produce, run_bind, h]
  simp only [hrender]
  rfl

end Produce

/-- The targets that are asked for cannot be loaded, or one of them cannot be burned. -/
def Unready (o : Options) (stdin : ByteArray) (v : Volume) : Prop :=
  match ((load o stdin : StateM Volume _).run v).1.2 with
  | .error _ => True
  | .ok targets => ∃ t ∈ targets, ∃ e, t.images = .error e

/-- Such a run goes no further than loading. -/
theorem produce_of_unready {o : Options} {stdin : ByteArray} {v : Volume} (h : Unready o stdin v) :
    ∃ events f v', (produce o stdin : StateM Volume _).run v = ((events, .error f), v') ∧
      v'.nodes = v.nodes := by
  have hnodes := nodes_load o stdin v
  unfold Unready at h
  rcases hload : (load o stdin : StateM Volume _).run v with ⟨⟨events, f | targets⟩, v'⟩
  · rw [hload] at hnodes
    exact ⟨events, f, v', produce_of_load_error hload, hnodes⟩
  · rw [hload] at h hnodes
    obtain ⟨more, e, hrender⟩ := render_error (o.output.getD ".") (o.format.getD .binary) h
    exact ⟨_, _, v', produce_of_render_error hload hrender, hnodes⟩

theorem execute_of_produce_error {arguments : List String} {o : Options} {stdin : ByteArray}
    {v v' : Volume} {events : List Event} {f : Failure}
    (hread : Options.read arguments = .run o) (hlist : o.list = false)
    (h : (produce o stdin : StateM Volume _).run v = ((events, .error f), v')) :
    (execute arguments stdin : StateM Volume _).run v =
      ({ code := 1, stderr := ["Error: " ++ f.detail], log := shown (level o) events }, v') := by
  rw [execute, hread]
  simp only [hlist, Bool.false_eq_true, if_false]
  rw [run_bind, h]
  rfl

theorem execute_of_list {arguments : List String} {o : Options} {stdin : ByteArray} {v : Volume}
    (hread : Options.read arguments = .run o) (hlist : o.list = true) :
    (execute arguments stdin : StateM Volume _).run v = ({ code := 0, stdout := listText }, v) := by
  rw [execute, hread]
  simp only [hlist, if_true]
  rfl

end Command

/-- A run that fails before every file is staged replaces nothing, whatever the system refuses. If
targets cannot be loaded or burned, everything is as before. If a file cannot be staged, the files
at its staging path and at those of the files before it are removed, and everything else is as
before. -/
theorem replaces_nothing_unless_staged :
    (∀ (o : Options) (stdin : ByteArray) (v : Volume), Command.Unready o stdin v →
      (∃ f, ((Command.produce o stdin : StateM Volume _).run v).1.2 = .error f) ∧
      ((Command.produce o stdin : StateM Volume _).run v).2.nodes = v.nodes ∧
      ∀ arguments, Options.read arguments = .run o →
        ((Command.execute arguments stdin : StateM Volume _).run v).2.nodes = v.nodes ∧
        (o.list = false → ((Command.execute arguments stdin : StateM Volume _).run v).1.code = 1)) ∧
    (∀ (files : List (String × ByteArray)) (v : Volume) (f : Failure),
      ((Files.stage [] files : StateM Volume _).run v).1 = .error f →
      ((Files.write files : StateM Volume _).run v).1 = ([], .error f) ∧
      (∀ path ∉ Files.stagingPaths files,
        ((Files.write files : StateM Volume _).run v).2.nodes path = v.nodes path) ∧
      ∃ earlier file later cause, files = earlier ++ file :: later ∧
        f = .disk (Path.staging file.1) cause ∧
        ∀ path ∈ Files.stagingPaths files,
          ((Files.write files : StateM Volume _).run v).2.nodes path =
            if path ∈ Files.stagingPaths (earlier ++ [file]) then (v.nodes path).filter Node.isDir
            else v.nodes path) := by
  constructor
  · intro o stdin v hunready
    obtain ⟨events, f, v', hproduce, hnodes⟩ := Command.produce_of_unready hunready
    rw [hproduce]
    refine ⟨⟨f, rfl⟩, hnodes, ?_⟩
    intro arguments hread
    cases hlist : o.list with
    | true =>
      rw [Command.execute_of_list hread hlist]
      exact ⟨rfl, fun h => absurd h (by decide)⟩
    | false =>
      rw [Command.execute_of_produce_error hread hlist hproduce]
      exact ⟨hnodes, fun _ => rfl⟩
  · intro files v f hstage
    obtain ⟨earlier, file, later, cause, hfiles, hf, hnodes⟩ := Files.stage_error hstage
    rw [Files.write_of_stage_error hstage]
    refine ⟨rfl, ?_, earlier, file, later, cause, hfiles, hf, ?_⟩
    · intro path hpath
      have hreached : earlier ++ [file] <+: files := ⟨later, by rw [hfiles]; simp⟩
      rw [hnodes]
      apply if_neg
      intro hmem
      exact hpath (List.map_subset _ hreached.subset hmem)
    · intro path _
      rw [hnodes]
      rfl

/-- An old image stands where a new one should go. The first write is granted, and of the second
there is a part when it is refused. -/
def crowdedVolume : Volume where
  nodes path := if path = "a.bin" then some (.file ⟨#[1, 2]⟩) else none
  answers := [.granted, .refused .busy (some ⟨#[5]⟩)]

def threeFiles : List (String × ByteArray) :=
  [("a.bin", ⟨#[3]⟩), ("b.bin", ⟨#[5, 6]⟩), ("c.bin", ⟨#[7]⟩)]

/-- A target whose one lane is too narrow for its word. -/
def narrowText : String := "@ A:9\n! lanes 1\n! layout flags:0 opcode:0 step:0\n= A\n"

/-- Targets that do not load or burn change nothing. Of three files of which the second cannot be
written nothing is left, and the old image stays. -/
theorem replaces_nothing_on_crowdedVolume :
    ((Command.execute ["-t", "none"] .empty : StateM Volume _).run crowdedVolume).2.nodes =
        crowdedVolume.nodes ∧
    ((Command.execute [] narrowText.toUTF8 : StateM Volume _).run crowdedVolume).2.nodes =
        crowdedVolume.nodes ∧
    ((Files.write threeFiles : StateM Volume _).run crowdedVolume).1 =
        ([], .error (.disk (Path.staging "b.bin") .busy)) ∧
    ((Files.write threeFiles : StateM Volume _).run crowdedVolume).2.nodes "a.bin" =
        some (.file ⟨#[1, 2]⟩) ∧
    ∀ path ∈ Files.stagingPaths threeFiles,
      ((Files.write threeFiles : StateM Volume _).run crowdedVolume).2.nodes path = none := by
  obtain ⟨hunready, hstage⟩ := replaces_nothing_unless_staged
  refine ⟨?_, ?_, ?_⟩
  · have hload : Command.Unready { targets := ["none"] } .empty crowdedVolume := trivial
    exact ((hunready _ _ _ hload).2.2 _ rfl).1
  · have hburn : ((Command.load {} narrowText.toUTF8 : StateM Volume _).run
        crowdedVolume).1.2.toOption.any
          (fun targets => targets.any fun t => t.images.toOption.isNone) = true := by
      decide +kernel
    obtain ⟨targets, htargets, hany⟩ := exists_ok_of_any hburn
    obtain ⟨t, hmem, hnone⟩ := List.any_eq_true.mp hany
    have himages : ∃ e, t.images = .error e := by
      cases himages : t.images with
      | error e => exact ⟨e, rfl⟩
      | ok images =>
        rw [himages] at hnone
        cases hnone
    have hnarrow : Command.Unready {} narrowText.toUTF8 crowdedVolume := by
      rw [Command.Unready, htargets]
      exact ⟨t, hmem, himages⟩
    exact ((hunready _ _ _ hnarrow).2.2 [] rfl).1
  · have hrefused : ((Files.stage [] threeFiles : StateM Volume _).run crowdedVolume).1 =
        .error (.disk (Path.staging "b.bin") .busy) := rfl
    obtain ⟨hresult, hothers, earlier, file, later, cause, -, -, hnodes⟩ := hstage _ _ _ hrefused
    refine ⟨hresult, hothers "a.bin" (by decide), ?_⟩
    intro path hmem
    have hne : ∀ path ∈ Files.stagingPaths threeFiles, path ≠ "a.bin" := by decide
    have hnone : crowdedVolume.nodes path = none := if_neg (hne path hmem)
    rw [hnodes path hmem, hnone]
    split
    · rfl
    · rfl

end ControlStore
