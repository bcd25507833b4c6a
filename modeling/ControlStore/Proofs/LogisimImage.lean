import ControlStore.FileFormat
import ControlStore.Proofs.Text
import Mathlib.Data.List.Chain

/-! Logisim images. The bytes fall into runs in one way only. Long runs become one entry and short
ones an entry for each byte, so that the entries are determined by the bytes; and the bytes are read
back from them, line by line. -/

namespace ControlStore.FileFormat

open Text

/-- The bytes of runs one after another. -/
def expand (rs : List (Nat × UInt8)) : List UInt8 := rs.flatMap fun r => List.replicate r.1 r.2

/-- No run is empty, and no two runs of the same byte are neighbours. -/
structure Separate (rs : List (Nat × UInt8)) : Prop where
  pos : ∀ r ∈ rs, 1 ≤ r.1
  differ : rs.IsChain fun r r' => r.2 ≠ r'.2

theorem expand_cons (r : Nat × UInt8) (rs : List (Nat × UInt8)) :
    expand (r :: rs) = List.replicate r.1 r.2 ++ expand rs := List.flatMap_cons

theorem expand_append (rs rs' : List (Nat × UInt8)) :
    expand (rs ++ rs') = expand rs ++ expand rs' := List.flatMap_append

theorem Separate.tail {r : Nat × UInt8} {rs : List (Nat × UInt8)} (h : Separate (r :: rs)) :
    Separate rs :=
  ⟨fun r' hr' => h.pos r' (List.mem_cons_of_mem r hr'), h.differ.tail⟩

theorem separate_append_iff {rs rs' : List (Nat × UInt8)} :
    Separate (rs ++ rs') ↔ Separate rs ∧ Separate rs' ∧
      ∀ r ∈ rs.getLast?, ∀ r' ∈ rs'.head?, r.2 ≠ r'.2 := by
  constructor
  · rintro ⟨hpos, hdiffer⟩
    obtain ⟨hpos, hpos'⟩ := List.forall_mem_append.mp hpos
    obtain ⟨hdiffer, hdiffer', hmiddle⟩ := List.isChain_append.mp hdiffer
    exact ⟨⟨hpos, hdiffer⟩, ⟨hpos', hdiffer'⟩, hmiddle⟩
  · rintro ⟨⟨hpos, hdiffer⟩, ⟨hpos', hdiffer'⟩, hmiddle⟩
    exact ⟨List.forall_mem_append.mpr ⟨hpos, hpos'⟩,
      List.isChain_append.mpr ⟨hdiffer, hdiffer', hmiddle⟩⟩

/-- Runs that are not empty begin and end with the bytes of their first and their last. -/
theorem head?_expand {rs : List (Nat × UInt8)} (h : ∀ r ∈ rs, 1 ≤ r.1) :
    (expand rs).head? = rs.head?.map Prod.snd := by
  cases rs with
  | nil => rfl
  | cons r rest =>
    have hr : 1 ≤ r.1 := h r List.mem_cons_self
    rw [expand_cons, List.head?_append, List.head?_replicate, if_neg (by omega)]
    rfl

theorem getLast?_expand {rs : List (Nat × UInt8)} (h : ∀ r ∈ rs, 1 ≤ r.1) :
    (expand rs).getLast? = rs.getLast?.map Prod.snd := by
  rcases List.eq_nil_or_concat' rs with rfl | ⟨rest, r, rfl⟩
  · rfl
  · have hr : 1 ≤ r.1 := h r (List.mem_append_right rest List.mem_cons_self)
    have hone : expand [r] = List.replicate r.1 r.2 := List.append_nil _
    rw [expand_append, hone, List.getLast?_append, List.getLast?_replicate, if_neg (by omega),
      List.getLast?_concat]
    rfl

theorem runs_cons (b : UInt8) (l : List UInt8) :
    runs ⟨b :: l⟩ = match runs ⟨l⟩ with
      | (n, c) :: rest => if b = c then (n + 1, c) :: rest else (1, b) :: (n, c) :: rest
      | [] => [(1, b)] := by
  have hfold (l : List UInt8) : runs ⟨l⟩ = l.foldr (fun b acc =>
      match acc with
      | (n, c) :: rest => if b = c then (n + 1, c) :: rest else (1, b) :: acc
      | [] => [(1, b)]) [] := List.foldr_toArray _ _ l
  rw [hfold, List.foldr_cons, ← hfold l]
  cases runs ⟨l⟩ <;> rfl

theorem runs_spec (l : List UInt8) : Separate (runs ⟨l⟩) ∧ expand (runs ⟨l⟩) = l := by
  induction l with
  | nil => exact ⟨⟨by simp [runs], by simp [runs]⟩, rfl⟩
  | cons b l ih =>
    obtain ⟨hseparate, hexpand⟩ := ih
    rw [runs_cons]
    split
    · rename_i n c rest hruns
      rw [hruns] at hseparate hexpand
      by_cases hbyte : b = c
      · -- The first run grows by one byte.
        subst hbyte
        rw [if_pos rfl]
        obtain ⟨hdiffer, hrest⟩ := List.isChain_cons.mp hseparate.differ
        refine ⟨⟨?_, List.isChain_cons.mpr ⟨hdiffer, hrest⟩⟩, ?_⟩
        · exact List.forall_mem_cons.mpr ⟨Nat.succ_pos n, hseparate.tail.pos⟩
        · rw [← hexpand, expand_cons, expand_cons, List.replicate_succ, List.cons_append]
      · rw [if_neg hbyte]
        refine ⟨⟨?_, List.isChain_cons_cons.mpr ⟨hbyte, hseparate.differ⟩⟩, ?_⟩
        · exact List.forall_mem_cons.mpr ⟨le_rfl, hseparate.pos⟩
        · rw [expand_cons, hexpand]
          rfl
    · rename_i hruns
      rw [hruns] at hexpand
      subst hexpand
      exact ⟨⟨by simp, by simp⟩, rfl⟩

/-- Equal bytes before others make one run. -/
theorem runs_replicate_append (n : Nat) (b : UInt8) {l : List UInt8} (h : l.head? ≠ some b) :
    runs ⟨List.replicate (n + 1) b ++ l⟩ = (n + 1, b) :: runs ⟨l⟩ := by
  induction n with
  | zero =>
    obtain ⟨hseparate, hexpand⟩ := runs_spec l
    have hhead := head?_expand hseparate.pos
    rw [hexpand] at hhead
    rw [List.replicate_one, List.singleton_append, runs_cons]
    split
    · rename_i m c rest hruns
      have hc : l.head? = some c := by rw [hhead, hruns]; rfl
      have hne : b ≠ c := by
        rintro rfl
        exact h hc
      rw [if_neg hne, hruns]
    · rename_i hruns
      rw [hruns]
  | succ n ih =>
    rw [List.replicate_succ, List.cons_append, runs_cons, ih]
    exact if_pos rfl

/-- There is one way only to take bytes apart into runs. -/
theorem runs_expand {rs : List (Nat × UInt8)} (h : Separate rs) : runs ⟨expand rs⟩ = rs := by
  induction rs with
  | nil => rfl
  | cons r rest ih =>
    obtain ⟨n, b⟩ := r
    have hpos : 1 ≤ n := h.pos (n, b) List.mem_cons_self
    have hhead : (expand rest).head? ≠ some b := by
      rw [head?_expand h.tail.pos]
      intro hb
      obtain ⟨r, hr, rfl⟩ := Option.map_eq_some_iff.mp hb
      exact (List.isChain_cons.mp h.differ).1 r hr rfl
    obtain ⟨m, rfl⟩ : ∃ m, n = m + 1 := ⟨n - 1, by omega⟩
    rw [expand_cons, runs_replicate_append m b hhead, ih h.tail]

/-- A run of its own splits the runs around it. -/
theorem runs_append {before after : List UInt8} {n : Nat} {b : UInt8} (hn : 1 ≤ n)
    (hbefore : before.getLast? ≠ some b) (hafter : after.head? ≠ some b) :
    runs ⟨before ++ List.replicate n b ++ after⟩ =
      runs ⟨before⟩ ++ (n, b) :: runs ⟨after⟩ := by
  obtain ⟨hseparate, hexpand⟩ := runs_spec before
  obtain ⟨hseparate', hexpand'⟩ := runs_spec after
  have hall : expand (runs ⟨before⟩ ++ (n, b) :: runs ⟨after⟩) =
      before ++ List.replicate n b ++ after := by
    rw [expand_append, expand_cons, hexpand, hexpand', List.append_assoc]
  rw [← hall]
  refine runs_expand (separate_append_iff.mpr ⟨hseparate, ⟨?_, ?_⟩, ?_⟩)
  · exact List.forall_mem_cons.mpr ⟨hn, hseparate'.pos⟩
  · refine List.isChain_cons.mpr ⟨?_, hseparate'.differ⟩
    rintro r hr rfl
    have hhead := head?_expand hseparate'.pos
    rw [hexpand', hr] at hhead
    exact hafter hhead
  · rintro r hr r' ⟨⟩ rfl
    have hlast := getLast?_expand hseparate.pos
    rw [hexpand, hr] at hlast
    exact hbefore hlast

/-- What an entry of an image says: one byte, or a number of equal bytes. -/
inductive Entry
  | byte (b : UInt8)
  | run (n : Nat) (b : UInt8)
deriving DecidableEq

namespace Entry

def bytes : Entry → List UInt8
  | byte b => [b]
  | run n b => List.replicate n b

/-- A byte as two lowercase hexadecimal digits. -/
def hexByte (b : UInt8) : List Char := [(b.toNat / 16).digitChar, (b.toNat % 16).digitChar]

def text : Entry → List Char
  | byte b => hexByte b
  | run n b => Nat.toDigits 10 n ++ '*' :: hexByte b

/-- The entries of a run. -/
def ofRun (r : Nat × UInt8) : List Entry :=
  if minRun ≤ r.1 then [run r.1 r.2] else List.replicate r.1 (byte r.2)

theorem padded_byte (b : UInt8) : padded 16 2 b.toNat = hexByte b := by
  have hb : b.toNat < 256 := b.toNat_lt
  by_cases hsmall : b.toNat < 16
  · -- One digit, with a zero in front.
    have hdigits : Nat.toDigits 16 b.toNat = [b.toNat.digitChar] := by
      rw [Nat.toDigits_eq_if (by decide), if_pos hsmall]
    have hhigh : b.toNat / 16 = 0 := by omega
    have hlow : b.toNat % 16 = b.toNat := by omega
    rw [padded, hdigits, hexByte, hhigh, hlow]
    rfl
  · have hhigh : b.toNat / 16 < 16 := by omega
    have hdigits : Nat.toDigits 16 b.toNat = hexByte b := by
      rw [Nat.toDigits_eq_if (by decide), if_neg hsmall, Nat.toDigits_eq_if (by decide),
        if_pos hhigh]
      rfl
    rw [padded, hdigits]
    rfl

theorem map_toList_runEntries (r : Nat × UInt8) :
    (runEntries r).map String.toList = (ofRun r).map text := by
  dsimp only [runEntries, ofRun]
  split
  · have hstar : (toString "*").toList = ['*'] := rfl
    have hbyte : (toString (String.ofList (hexByte r.2))).toList = hexByte r.2 :=
      String.toList_ofList
    simp [padded_byte, text, hstar, hbyte]
  · simp [padded_byte, text]

theorem bytes_ofRun (r : Nat × UInt8) : (ofRun r).flatMap bytes = List.replicate r.1 r.2 := by
  unfold ofRun
  split
  · exact List.append_nil _
  · rw [List.flatMap_replicate]
    simp [bytes]

theorem bytes_ofRuns (rs : List (Nat × UInt8)) :
    (rs.flatMap ofRun).flatMap bytes = expand rs := by
  rw [List.flatMap_assoc, expand]
  exact List.flatMap_congr fun r _ => bytes_ofRun r

/-- The entry of a run comes from a run that is long enough. -/
theorem exists_run_of_entry {rs : List (Nat × UInt8)} {before after : List Entry} {n : Nat}
    {b : UInt8} (h : rs.flatMap ofRun = before ++ run n b :: after) :
    4 ≤ n ∧ ∃ rs₁ rs₂, rs = rs₁ ++ (n, b) :: rs₂ ∧ before = rs₁.flatMap ofRun ∧
      after = rs₂.flatMap ofRun := by
  induction rs generalizing before with
  | nil => simp at h
  | cons r rest ih =>
    rw [List.flatMap_cons] at h
    rcases List.append_eq_append_iff.mp h with ⟨more, rfl, hrest⟩ | ⟨part, hfirst, hafter⟩
    · obtain ⟨hn, rs₁, rs₂, rfl, rfl, rfl⟩ := ih hrest
      exact ⟨hn, r :: rs₁, rs₂, rfl, rfl, rfl⟩
    · cases part with
      | nil =>
        rw [List.append_nil] at hfirst
        obtain ⟨hn, rs₁, rs₂, rfl, hnil, rfl⟩ := @ih [] hafter.symm
        refine ⟨hn, r :: rs₁, rs₂, rfl, ?_, rfl⟩
        rw [List.flatMap_cons, ← hnil, List.append_nil, hfirst]
      | cons e part =>
        obtain ⟨rfl, rfl⟩ := List.cons.inj hafter
        by_cases hlong : minRun ≤ r.1
        · rw [ofRun, if_pos hlong] at hfirst
          rcases List.append_eq_singleton_iff.mp hfirst.symm with ⟨rfl, hrun⟩ | ⟨-, hnil⟩
          · cases hrun
            exact ⟨hlong, [], rest, rfl, rfl, rfl⟩
          · cases hnil
        · -- There are only bytes among the entries of a short run.
          rw [ofRun, if_neg hlong] at hfirst
          have hmem : run n b ∈ List.replicate r.1 (byte r.2) := by
            rw [hfirst]
            simp
          cases List.eq_of_mem_replicate hmem

/-- An entry for several bytes stands for a run of at least four that goes on to neither side, and
every such run has one. -/
theorem run_entry_iff (l before after : List UInt8) (n : Nat) (b : UInt8) :
    (∃ pre post, (runs ⟨l⟩).flatMap ofRun = pre ++ run n b :: post ∧ pre.flatMap bytes = before ∧
      post.flatMap bytes = after) ↔
    l = before ++ List.replicate n b ++ after ∧ 4 ≤ n ∧ before.getLast? ≠ some b ∧
      after.head? ≠ some b := by
  obtain ⟨hseparate, hexpand⟩ := runs_spec l
  constructor
  · rintro ⟨pre, post, hentries, rfl, rfl⟩
    obtain ⟨hn, rs₁, rs₂, hruns, rfl, rfl⟩ := exists_run_of_entry hentries
    rw [hruns] at hseparate hexpand
    obtain ⟨hleft, hright, hmiddle⟩ := separate_append_iff.mp hseparate
    rw [bytes_ofRuns, bytes_ofRuns, getLast?_expand hleft.pos, head?_expand hright.tail.pos]
    refine ⟨?_, hn, ?_, ?_⟩
    · rw [← hexpand, expand_append, expand_cons, List.append_assoc]
    · intro hlast
      obtain ⟨r, hr, rfl⟩ := Option.map_eq_some_iff.mp hlast
      exact hmiddle r hr (n, r.2) rfl rfl
    · intro hhead
      obtain ⟨r, hr, rfl⟩ := Option.map_eq_some_iff.mp hhead
      exact (List.isChain_cons.mp hright.differ).1 r hr rfl
  · rintro ⟨rfl, hn, hlast, hhead⟩
    refine ⟨(runs ⟨before⟩).flatMap ofRun, (runs ⟨after⟩).flatMap ofRun, ?_, ?_, ?_⟩
    · have hrun : ofRun (n, b) = [run n b] := if_pos hn
      rw [runs_append (by omega) hlast hhead, List.flatMap_append, List.flatMap_cons, hrun]
      rfl
    · rw [bytes_ofRuns, (runs_spec before).2]
    · rw [bytes_ofRuns, (runs_spec after).2]

end Entry

/-- Entries with single blanks between them. -/
def lineText (line : List Entry) : List Char := [' '].intercalate (line.map Entry.text)

/-- Every line but the last is full, and the last is not empty. -/
structure Filled (lines : List (List Entry)) : Prop where
  full : ∀ line ∈ lines.dropLast, line.length = 16
  last : ∀ line ∈ lines.getLast?, 1 ≤ line.length ∧ line.length ≤ 16

theorem Filled.tail {line next : List Entry} {rest : List (List Entry)}
    (h : Filled (line :: next :: rest)) : line.length = 16 ∧ Filled (next :: rest) := by
  obtain ⟨hfull, hlast⟩ := h
  rw [List.dropLast_cons_cons, List.forall_mem_cons] at hfull
  rw [List.getLast?_cons_cons] at hlast
  exact ⟨hfull.1, hfull.2, hlast⟩

/-- Entries can be put on lines of sixteen. -/
theorem exists_filled (entries : List Entry) : ∃ lines, Filled lines ∧ lines.flatten = entries := by
  induction hlength : entries.length using Nat.strongRecOn generalizing entries with
  | _ count ih =>
    by_cases hempty : entries = []
    · subst hempty
      exact ⟨[], ⟨by simp, by simp⟩, rfl⟩
    have hpos : 0 < entries.length := List.length_pos_iff.mpr hempty
    by_cases hshort : entries.length ≤ 16
    · refine ⟨[entries], ⟨by simp, ?_⟩, List.append_nil _⟩
      rintro line ⟨⟩
      exact ⟨hpos, hshort⟩
    · have hdrop : (entries.drop 16).length < count := by
        rw [List.length_drop]
        omega
      obtain ⟨lines, hfilled, hlines⟩ := ih _ hdrop (entries.drop 16) rfl
      have hfirst : (entries.take 16).length = 16 := by
        rw [List.length_take]
        omega
      obtain ⟨next, rest, rfl⟩ : ∃ next rest, lines = next :: rest := by
        refine List.exists_cons_of_ne_nil ?_
        rintro rfl
        have hnil : (entries.drop 16).length = 0 := by rw [← hlines]; rfl
        rw [List.length_drop] at hnil
        omega
      refine ⟨entries.take 16 :: next :: rest, ⟨?_, ?_⟩, ?_⟩
      · rw [List.dropLast_cons_cons]
        exact List.forall_mem_cons.mpr ⟨hfirst, hfilled.full⟩
      · rw [List.getLast?_cons_cons]
        exact hfilled.last
      · rw [List.flatten_cons, hlines, List.take_append_drop]

/-- Puts an entry after a text that has a number of entries already. -/
def addEntry (acc : String × Nat) (e : String) : String × Nat :=
  let gap := if acc.2 = 0 then "" else if acc.2 % entriesPerLine = 0 then "\n" else " "
  (acc.1 ++ gap ++ e, acc.2 + 1)

theorem foldl_addEntry_within (entries : List String) (s : String) (k : Nat) (hk : k % 16 ≠ 0)
    (hroom : k % 16 + entries.length ≤ 16) :
    let acc := entries.foldl addEntry (s, k)
    acc.1.toList = s.toList ++ entries.flatMap (fun e => ' ' :: e.toList) ∧
      acc.2 = k + entries.length := by
  induction entries generalizing s k with
  | nil => simp
  | cons e rest ih =>
    have hgap : addEntry (s, k) e = (s ++ " " ++ e, k + 1) := by
      have hk0 : k ≠ 0 := by omega
      simp [addEntry, entriesPerLine, hk0, hk]
    rw [List.length_cons] at hroom
    cases rest with
    | nil => simp [hgap]
    | cons e' rest =>
      rw [List.length_cons] at hroom
      obtain ⟨htext, hcount⟩ := ih (s ++ " " ++ e) (k + 1) (by omega) (by simp; omega)
      rw [List.foldl_cons, hgap]
      refine ⟨?_, ?_⟩
      · rw [htext]
        simp
      · rw [hcount]
        simp
        omega

theorem intercalate_cons_eq (p : List Char) (rest : List (List Char)) :
    [' '].intercalate (p :: rest) = p ++ rest.flatMap (' ' :: ·) := by
  induction rest generalizing p with
  | nil => simp
  | cons q rest ih =>
    rw [List.intercalate_cons_cons, ih q, List.flatMap_cons, List.append_assoc]
    rfl

/-- What stands between the entries before a line and the line. -/
def lineGap (k : Nat) : List Char := if k = 0 then [] else ['\n']

/-- A line begins where the lines before it are full. -/
theorem foldl_addEntry_line {entries : List String} {line : List Entry}
    (hentries : entries.map String.toList = line.map Entry.text) (hpos : 1 ≤ line.length)
    (hline : line.length ≤ 16) (s : String) (k : Nat) (hk : k % 16 = 0) :
    let acc := entries.foldl addEntry (s, k)
    acc.1.toList = s.toList ++ lineGap k ++ lineText line ∧ acc.2 = k + line.length := by
  have hlength : entries.length = line.length := by
    simpa using congrArg List.length hentries
  cases entries with
  | nil =>
    rw [← hlength] at hpos
    cases hpos
  | cons e rest =>
    have hfirst : addEntry (s, k) e = (s ++ String.ofList (lineGap k) ++ e, k + 1) := by
      by_cases hk0 : k = 0
      · simp [addEntry, lineGap, hk0]
      · simp [addEntry, lineGap, entriesPerLine, hk0, hk]
    rw [List.length_cons] at hlength
    obtain ⟨htext, hcount⟩ := foldl_addEntry_within rest
      (s ++ String.ofList (lineGap k) ++ e) (k + 1) (by omega) (by omega)
    rw [List.foldl_cons, hfirst]
    refine ⟨?_, ?_⟩
    · rw [htext, lineText, ← hentries, List.map_cons, intercalate_cons_eq, List.flatMap_map]
      simp
    · rw [hcount]
      omega

/-- Lines with their ends after them. -/
def ended (lines : List (List Char)) : List Char := (lines.map (· ++ ['\n'])).flatten

theorem ended_cons (line : List Char) (lines : List (List Char)) :
    ended (line :: lines) = line ++ '\n' :: ended lines := by
  rw [ended, List.map_cons, List.flatten_cons, List.append_assoc]
  rfl

/-- The entries of lines are written as these lines. -/
theorem foldl_addEntry_lines {entries : List String} {lines : List (List Entry)}
    (hentries : entries.map String.toList = lines.flatten.map Entry.text) (hfilled : Filled lines)
    (hne : lines ≠ []) (s : String) (k : Nat) (hk : k % 16 = 0) :
    let acc := entries.foldl addEntry (s, k)
    acc.1.toList ++ ['\n'] = s.toList ++ lineGap k ++ ended (lines.map lineText) ∧ 0 < acc.2 := by
  induction lines generalizing entries s k with
  | nil => exact absurd rfl hne
  | cons line rest ih =>
    cases rest with
    | nil =>
      obtain ⟨hpos, hline⟩ := hfilled.last line rfl
      rw [List.flatten_singleton] at hentries
      obtain ⟨htext, hcount⟩ := foldl_addEntry_line hentries hpos hline s k hk
      refine ⟨?_, by omega⟩
      rw [htext, List.map_singleton, ended_cons]
      simp [ended]
    | cons next rest =>
      obtain ⟨hfull, hfilled⟩ := hfilled.tail
      rw [List.flatten_cons, List.map_append] at hentries
      obtain ⟨first, others, rfl, hfirst, hothers⟩ := List.map_eq_append_iff.mp hentries
      obtain ⟨htext, hcount⟩ :=
        foldl_addEntry_line hfirst (by omega) (by omega) s k hk
      rw [List.foldl_append]
      generalize first.foldl addEntry (s, k) = acc at htext hcount
      obtain ⟨s', k'⟩ := acc
      obtain ⟨hrest, hcount'⟩ := ih hothers hfilled (List.cons_ne_nil _ _) s' k' (by omega)
      refine ⟨?_, hcount'⟩
      have hgap : lineGap k' = ['\n'] := if_neg (by omega)
      have hended : ended ((line :: next :: rest).map lineText) =
          lineText line ++ '\n' :: ended ((next :: rest).map lineText) := ended_cons _ _
      rw [hrest, htext, hgap, hended]
      simp

theorem toList_entryLines {entries : List String} {lines : List (List Entry)}
    (hentries : entries.map String.toList = lines.flatten.map Entry.text)
    (hfilled : Filled lines) : (entryLines entries).toList = ended (lines.map lineText) := by
  by_cases hne : lines = []
  · subst hne
    obtain rfl : entries = [] := List.map_eq_nil_iff.mp hentries
    rfl
  · obtain ⟨htext, hcount⟩ := foldl_addEntry_lines hentries hfilled hne "" 0 rfl
    have hlines : entryLines entries =
        (entries.foldl addEntry ("", 0)).1 ++ "\n" := if_neg (by
          show ¬ (entries.foldl addEntry ("", 0)).2 = 0
          omega)
    rw [hlines, String.toList_append]
    exact htext

theorem exists_lines (l : List UInt8) :
    ∃ lines, lines.flatten = (runs ⟨l⟩).flatMap Entry.ofRun ∧ Filled lines ∧
      (logisimText ⟨l⟩).toList = ended ("v2.0 raw".toList :: lines.map lineText) := by
  obtain ⟨lines, hfilled, hlines⟩ := exists_filled ((runs ⟨l⟩).flatMap Entry.ofRun)
  have hentries : ((runs ⟨l⟩).flatMap runEntries).map String.toList =
      lines.flatten.map Entry.text := by
    rw [hlines, List.map_flatMap, List.map_flatMap]
    exact List.flatMap_congr fun r _ => Entry.map_toList_runEntries r
  refine ⟨lines, hlines, hfilled, ?_⟩
  rw [logisimText, String.toList_append, toList_entryLines hentries hfilled, ended_cons]
  rfl

/-- The value of a lowercase hexadecimal digit. -/
def hexDigit? (c : Char) : Option Nat := (List.range 16).find? fun d => d.digitChar == c

def readByte? : List Char → Option UInt8
  | [high, low] => do
    let h ← hexDigit? high
    let l ← hexDigit? low
    return UInt8.ofNat (16 * h + l)
  | _ => none

/-- The bytes of an entry: one in hexadecimal, or a count in decimal, a star and the byte. -/
def entryBytes? (s : List Char) : Option (List UInt8) :=
  match cut '*' s with
  | none => do
    let b ← readByte? s
    return [b]
  | some (count, byte) =>
    if count.isEmpty then none
    else do
      let n ← digits? 10 count
      let b ← readByte? byte
      return List.replicate n b

/-- The bytes of an image, entry after entry. -/
def readImage? (s : List Char) : Option (List UInt8) :=
  match lines (· == '\n') s with
  | header :: rest =>
    if header = "v2.0 raw".toList then
      List.flatten <$> (rest.flatMap (splitOn ' ')).mapM entryBytes?
    else none
  | [] => none

namespace Entry

theorem over_hexByte (b : UInt8) (others : List Char) : Over others (hexByte b) := by
  have hdigit : ∀ k : Fin 16, isNameChar (Nat.digitChar k) = true := by decide
  have hb : b.toNat < 256 := b.toNat_lt
  refine Over.cons (.inl ?_) (Over.cons (.inl ?_) (Over.nil others))
  · exact hdigit ⟨b.toNat / 16, by omega⟩
  · exact hdigit ⟨b.toNat % 16, by omega⟩

theorem over_text (e : Entry) : Over ['*'] e.text := by
  cases e with
  | byte b => exact over_hexByte b ['*']
  | run n b =>
    exact (over_toDigits 10 n (by decide) (by decide) ['*']).append
      (Over.cons (.inr List.mem_cons_self) (over_hexByte b ['*']))

theorem token_text (e : Entry) : Token e.text := by
  refine e.over_text.token ?_ (by decide)
  cases e with
  | byte b => exact List.cons_ne_nil _ _
  | run n b => exact List.append_ne_nil_of_right_ne_nil _ (List.cons_ne_nil _ _)

theorem readByte?_hexByte (b : UInt8) : readByte? (hexByte b) = some b := by
  have hdigit : ∀ k : Fin 16, hexDigit? (Nat.digitChar k) = some k.val := by decide
  have hb : b.toNat < 256 := b.toNat_lt
  have hhigh : hexDigit? (b.toNat / 16).digitChar = some (b.toNat / 16) :=
    hdigit ⟨b.toNat / 16, by omega⟩
  have hlow : hexDigit? (b.toNat % 16).digitChar = some (b.toNat % 16) :=
    hdigit ⟨b.toNat % 16, by omega⟩
  have hvalue : 16 * (b.toNat / 16) + b.toNat % 16 = b.toNat := by omega
  have hread : readByte? (hexByte b) =
      some (UInt8.ofNat (16 * (b.toNat / 16) + b.toNat % 16)) := by
    show (hexDigit? (b.toNat / 16).digitChar >>= fun h => _) = _
    rw [hhigh, hlow]
    rfl
  rw [hread, hvalue, UInt8.ofNat_toNat]

theorem entryBytes?_text (e : Entry) : entryBytes? e.text = some e.bytes := by
  cases e with
  | byte b =>
    have hstar : '*' ∉ hexByte b := (over_hexByte b []).not_mem '*' (by decide)
    rw [entryBytes?, text, cut_of_not_mem '*' _ hstar]
    simp [readByte?_hexByte, bytes]
  | run n b =>
    have hstar : '*' ∉ Nat.toDigits 10 n :=
      (over_toDigits 10 n (by decide) (by decide) []).not_mem '*' (by decide)
    have hne : (Nat.toDigits 10 n).isEmpty = false := by
      rw [List.isEmpty_eq_false_iff]
      exact Nat.toDigits_ne_nil
    rw [entryBytes?, text, cut_append '*' _ _ hstar]
    simp [hne, digits?_toDigits 10 n (by decide) (by decide), readByte?_hexByte, bytes]

end Entry

section image

variable {ls : List (List Entry)}

theorem Filled.ne_nil (h : Filled ls) {line : List Entry} (hmem : line ∈ ls) : line ≠ [] := by
  have hne : ls ≠ [] := List.ne_nil_of_mem hmem
  obtain ⟨others, last, rfl⟩ := (List.eq_nil_or_concat' ls).resolve_left hne
  have hpos : 1 ≤ line.length := by
    rcases List.mem_append.mp hmem with hothers | hlast
    · have hfull := h.full line (by simpa using hothers)
      omega
    · obtain rfl := List.mem_singleton.mp hlast
      exact (h.last line (by simp)).1
  exact List.length_pos_iff.mp hpos

theorem snug_lineText (line : List Entry) : Snug (lineText line) := by
  refine Snug.intercalate ?_
  intro p hp
  obtain ⟨e, -, rfl⟩ := List.mem_map.mp hp
  exact ⟨e.token_text.ne_nil, e.token_text.snug⟩

theorem lineText_ne_nil {line : List Entry} (h : line ≠ []) : lineText line ≠ [] := by
  obtain ⟨e, rest, rfl⟩ := List.exists_cons_of_ne_nil h
  rw [lineText, List.map_cons, intercalate_cons_eq]
  exact List.append_ne_nil_of_left_ne_nil e.token_text.ne_nil _

theorem newline_not_mem_lineText (line : List Entry) : '\n' ∉ lineText line := by
  have hover : Over ['*', ' '] (lineText line) := by
    refine Over.intercalate (by decide) ?_
    intro p hp
    obtain ⟨e, -, rfl⟩ := List.mem_map.mp hp
    exact e.over_text.mono (by decide)
  exact hover.not_mem '\n' (by decide)

/-- The lines of an image are the header and the lines of entries. -/
theorem lines_ended (ls : List (List Entry)) :
    lines (· == '\n') (ended ("v2.0 raw".toList :: ls.map lineText)) =
      "v2.0 raw".toList :: ls.map lineText := by
  have hheader : '\n' ∉ "v2.0 raw".toList := by decide
  refine lines_flatten '\n' rfl _ (List.forall_mem_cons.mpr ⟨eq_char_eq_false hheader, ?_⟩)
  intro line hline
  obtain ⟨es, -, rfl⟩ := List.mem_map.mp hline
  exact eq_char_eq_false (newline_not_mem_lineText es)

theorem splitOn_lineText {line : List Entry} (h : line ≠ []) :
    splitOn ' ' (lineText line) = line.map Entry.text := by
  refine pieces_intercalate ' ' rfl _ (by simpa using h) ?_
  intro p hp
  obtain ⟨e, -, rfl⟩ := List.mem_map.mp hp
  exact eq_char_eq_false (e.over_text.not_mem ' ' (by decide))

theorem mapM_entryBytes? (entries : List Entry) :
    (entries.map Entry.text).mapM entryBytes? = some (entries.map Entry.bytes) := by
  induction entries with
  | nil => rfl
  | cons e rest ih =>
    rw [List.map_cons, List.mapM_cons, e.entryBytes?_text, ih]
    rfl

theorem readImage?_ended (h : Filled ls) :
    readImage? (ended ("v2.0 raw".toList :: ls.map lineText)) =
      some (ls.flatten.flatMap Entry.bytes) := by
  have hsplit : (ls.map lineText).flatMap (splitOn ' ') = ls.flatten.map Entry.text := by
    rw [List.flatMap_map, List.map_flatten, ← List.flatMap_def]
    exact List.flatMap_congr fun line hline => splitOn_lineText (h.ne_nil hline)
  rw [readImage?, lines_ended]
  dsimp only
  rw [if_pos rfl, hsplit, mapM_entryBytes?]
  rfl

/-- The last character before the last line end is no line end. -/
theorem exists_ended {lines : List (List Char)} (hne : lines ≠ [])
    (h : ∀ line ∈ lines, line ≠ [] ∧ '\n' ∉ line) :
    ∃ body c, ended lines = body ++ [c, '\n'] ∧ c ≠ '\n' := by
  obtain ⟨others, last, rfl⟩ := (List.eq_nil_or_concat' lines).resolve_left hne
  obtain ⟨hlast, hnewline⟩ := h last (by simp)
  obtain ⟨init, c, rfl⟩ := (List.eq_nil_or_concat' last).resolve_left hlast
  refine ⟨ended others ++ init, c, ?_, ?_⟩
  · simp [ended]
  · rintro rfl
    exact hnewline (by simp)

end image

/-- The image of bytes: a header and lines of sixteen entries, the last of one to sixteen, which are
the bytes with each run of four and more as one entry. It can be read back, so that no other bytes
have the same image. -/
theorem logisim_image_is_canonical (bytes other : Array UInt8) :
    (∃ ls : List (List Entry),
      (logisimText bytes).toList = ended ("v2.0 raw".toList :: ls.map lineText) ∧
      (∀ line ∈ ls.dropLast, line.length = 16) ∧
      (∀ line ∈ ls.getLast?, 1 ≤ line.length ∧ line.length ≤ 16) ∧
      ls.flatten.flatMap Entry.bytes = bytes.toList ∧
      ∀ n b before after,
        (∃ pre post, ls.flatten = pre ++ .run n b :: post ∧ pre.flatMap Entry.bytes = before ∧
          post.flatMap Entry.bytes = after) ↔
        bytes.toList = before ++ List.replicate n b ++ after ∧ 4 ≤ n ∧
          before.getLast? ≠ some b ∧ after.head? ≠ some b) ∧
    (∀ line ∈ lines (· == '\n') (logisimText bytes).toList, line.getLast? ≠ some ' ') ∧
    (∃ body c, (logisimText bytes).toList = body ++ [c, '\n'] ∧ c ≠ '\n') ∧
    readImage? (logisimText bytes).toList = some bytes.toList ∧
    (logisimText bytes = logisimText other ↔ bytes = other) := by
  have hread (l : List UInt8) : readImage? (logisimText ⟨l⟩).toList = some l := by
    obtain ⟨ls, hentries, hfilled, htext⟩ := exists_lines l
    rw [htext, readImage?_ended hfilled, hentries, Entry.bytes_ofRuns, (runs_spec l).2]
  obtain ⟨l⟩ := bytes
  obtain ⟨l'⟩ := other
  obtain ⟨ls, hentries, hfilled, htext⟩ := exists_lines l
  refine ⟨⟨ls, htext, hfilled.full, hfilled.last, ?_, ?_⟩, ?_, ?_, hread l, ?_⟩
  · rw [hentries, Entry.bytes_ofRuns, (runs_spec l).2]
  · intro n b before after
    rw [hentries]
    exact Entry.run_entry_iff l before after n b
  · intro line hline hlast
    have hends : Ends line := by
      rw [htext, lines_ended, List.mem_cons] at hline
      rcases hline with rfl | hline
      · decide
      · obtain ⟨es, -, rfl⟩ := List.mem_map.mp hline
        exact (snug_lineText es).ends
    exact absurd (hends ' ' hlast) (by decide)
  · rw [htext]
    refine exists_ended (List.cons_ne_nil _ _) (List.forall_mem_cons.mpr ⟨by decide, ?_⟩)
    intro line hline
    obtain ⟨es, hes, rfl⟩ := List.mem_map.mp hline
    exact ⟨lineText_ne_nil (hfilled.ne_nil hes), newline_not_mem_lineText es⟩
  · constructor
    · intro hsame
      have hbytes := hread l
      rw [hsame, hread l'] at hbytes
      rw [Option.some.inj hbytes]
    · intro hsame
      rw [hsame]

/-- Two equal bytes are entries of their own, five are one entry. -/
example : logisimText #[0x12, 0x34, 0x34, 0, 0, 0, 0, 0, 0xff] =
    "v2.0 raw\n12 34 34 5*00 ff\n" := by
  decide +kernel

end ControlStore.FileFormat
