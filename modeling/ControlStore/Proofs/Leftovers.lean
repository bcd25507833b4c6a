import ControlStore.Proofs.Commit

/-! What a call that writes files leaves at their staging paths. A file that cannot be staged takes
everything with it that was staged before; a file that cannot take its place takes only itself, and
those after it stay where they were staged. -/

namespace ControlStore.Files

open Volume

variable {files : List (String × ByteArray)}

/-- No file goes to a staging path. -/
theorem not_mem_paths (hapart : ∀ file ∈ files, file.1 ∉ stagingPaths files) {path : String}
    (hpath : path ∈ stagingPaths files) : path ∉ files.map Prod.fst := by
  intro hmem
  obtain ⟨file, hfile, rfl⟩ := List.mem_map.mp hmem
  exact hapart file hfile hpath

/-- When a file cannot take its place, those before it and itself are no more at their staging paths,
and the others are. -/
theorem staged_after_moves {earlier later : List (String × ByteArray)} {file : String × ByteArray}
    (hfiles : files = earlier ++ file :: later)
    (hapart : ∀ file ∈ files, file.1 ∉ stagingPaths files) {before nodes : String → Option Node}
    (hmoves : Moves earlier (allStaged before files) nodes) {path : String}
    (hpath : path ∈ stagingPaths files) :
    if path ∈ stagingPaths (earlier ++ [file]) then without [Path.staging file.1] nodes path = none
    else ∃ other ∈ later, Path.staging other.1 = path ∧
      without [Path.staging file.1] nodes path = some (.file other.2) := by
  obtain ⟨other, hother, hsame, hstaged⟩ := allStaged_of_mem before hpath
  have hnot : path ∉ earlier.map Prod.fst := by
    have hsub : earlier ⊆ files := hfiles ▸ List.subset_append_left _ _
    exact fun hmem => not_mem_paths hapart hpath (List.map_subset _ hsub hmem)
  have hnodes := hmoves.apply_of_not_mem hnot
  rw [hstaged] at hnodes
  have hsplit : stagingPaths (earlier ++ [file]) = stagingPaths earlier ++ [Path.staging file.1] :=
    List.map_append
  by_cases hearlier : path ∈ stagingPaths earlier
  · rw [if_pos hearlier] at hnodes
    rw [if_pos (hsplit ▸ List.mem_append_left _ hearlier), without, hnodes]
    exact ite_self _
  · rw [if_neg hearlier] at hnodes
    by_cases hfile : path = Path.staging file.1
    · rw [if_pos (hsplit ▸ List.mem_append_right _ (List.mem_singleton.mpr hfile)), without,
        if_pos (List.mem_singleton.mpr hfile), hnodes]
      rfl
    · have hreached : path ∉ stagingPaths (earlier ++ [file]) := by
        simp [hsplit, hearlier, hfile]
      rw [if_neg hreached, without, if_neg (by simpa using hfile)]
      have hlater : other ∈ later := by
        rw [hfiles, List.mem_append, List.mem_cons] at hother
        obtain hmem | rfl | hmem := hother
        · exact absurd (mem_stagingPaths.mpr ⟨other, hmem, hsame⟩) hearlier
        · exact absurd hsame.symm hfile
        · exact hmem
      exact ⟨other, hlater, hsame, hnodes⟩

/-- Files of which none goes to the staging path of another are written, or one of them cannot be
staged, or one cannot take its place. In the first case nothing is left at the staging paths. In the
second nothing is left that the call wrote there. In the third everything is left that was staged for
the files after the one that failed. -/
theorem staging_files_after_write (files : List (String × ByteArray)) (v : Volume)
    (hapart : ∀ file ∈ files, file.1 ∉ stagingPaths files) :
    (((write files : StateM Volume _).run v).1.2 = .ok () ∧
      ∀ path ∈ stagingPaths files, ((write files : StateM Volume _).run v).2.nodes path = none) ∨
    (∃ earlier file later cause, files = earlier ++ file :: later ∧
      ((write files : StateM Volume _).run v).1.2 = .error (.disk (Path.staging file.1) cause) ∧
      ∀ path ∈ stagingPaths files, ((write files : StateM Volume _).run v).2.nodes path =
        if path ∈ stagingPaths (earlier ++ [file]) then (v.nodes path).filter Node.isDir
        else v.nodes path) ∨
    (∃ earlier file later cause, files = earlier ++ file :: later ∧
      ((write files : StateM Volume _).run v).1.2 = .error (.disk file.1 cause) ∧
      ∀ path ∈ stagingPaths files,
        if path ∈ stagingPaths (earlier ++ [file]) then
          ((write files : StateM Volume _).run v).2.nodes path = none
        else ∃ other ∈ later, Path.staging other.1 = path ∧
          ((write files : StateM Volume _).run v).2.nodes path = some (.file other.2)) := by
  obtain ⟨hok, hmoves⟩ | ⟨earlier, file, later, cause, hfiles, hfailed, hnodes⟩ |
    ⟨earlier, file, later, cause, nodes, hfiles, hfailed, hmoves, hnodes⟩ := write_outcomes files v
  · refine .inl ⟨hok, ?_⟩
    intro path hpath
    rw [hmoves.apply_of_not_mem (not_mem_paths hapart hpath), if_pos hpath]
  · refine .inr (.inl ⟨earlier, file, later, cause, hfiles, hfailed, ?_⟩)
    intro path _
    rw [hnodes]
    rfl
  · refine .inr (.inr ⟨earlier, file, later, cause, hfiles, hfailed, ?_⟩)
    intro path hpath
    rw [hnodes]
    exact staged_after_moves hfiles hapart hmoves hpath

/-- A directory is where a file should go. -/
def blockedVolume : Volume where
  nodes path := if path = "b.bin" then some .dir else none

/-- Of three files the second cannot take its place, and the third stays where it was staged. -/
theorem staging_files_after_write_blocked :
    (∀ file ∈ threeFiles, file.1 ∉ stagingPaths threeFiles) ∧
    ((write threeFiles : StateM Volume _).run blockedVolume).1.2 =
      .error (.disk "b.bin" .isADirectory) ∧
    ∃ earlier file later, threeFiles = earlier ++ file :: later ∧ file.1 = "b.bin" ∧
      ∀ path ∈ stagingPaths threeFiles,
        if path ∈ stagingPaths (earlier ++ [file]) then
          ((write threeFiles : StateM Volume _).run blockedVolume).2.nodes path = none
        else ∃ other ∈ later, Path.staging other.1 = path ∧
          ((write threeFiles : StateM Volume _).run blockedVolume).2.nodes path =
            some (.file other.2) := by
  have hapart : ∀ file ∈ threeFiles, file.1 ∉ stagingPaths threeFiles := by decide
  have hresult : ((write threeFiles : StateM Volume _).run blockedVolume).1.2 =
      .error (.disk "b.bin" .isADirectory) := rfl
  refine ⟨hapart, hresult, ?_⟩
  obtain ⟨hok, -⟩ | ⟨earlier, file, later, cause, hfiles, hfailed, -⟩ |
    ⟨earlier, file, later, cause, hfiles, hfailed, hleft⟩ :=
      staging_files_after_write threeFiles blockedVolume hapart
  · rw [hresult] at hok
    cases hok
  · -- The error would name a staging path.
    have hnot : ∀ file ∈ threeFiles, Path.staging file.1 ≠ "b.bin" := by decide
    rw [hresult] at hfailed
    injection hfailed with hfailed
    injection hfailed with hpath
    exact absurd hpath.symm (hnot file (by rw [hfiles]; simp))
  · rw [hresult] at hfailed
    injection hfailed with hfailed
    injection hfailed with hpath
    exact ⟨earlier, file, later, hfiles, hpath.symm, hleft⟩

/-- The file after the one that failed is left under a name that was free before. -/
theorem staging_files_left :
    (∀ file ∈ threeFiles, file.1 ∉ stagingPaths threeFiles) ∧
    blockedVolume.nodes "c.bin.tmp" = none ∧
    ((write threeFiles : StateM Volume _).run blockedVolume).1.2 =
      .error (.disk "b.bin" .isADirectory) ∧
    ((write threeFiles : StateM Volume _).run blockedVolume).2.nodes "c.bin.tmp" =
      some (.file ⟨#[7]⟩) :=
  ⟨by decide, rfl, rfl, rfl⟩

end ControlStore.Files
