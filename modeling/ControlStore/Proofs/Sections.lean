import ControlStore.Proofs.Lanes
import ControlStore.Proofs.Statements

/-! The sections of a definition file, one for each target. Whatever the file says, the table of a
target covers its addresses, and lanes that are counted by the compiler hold every word of it. -/

namespace ControlStore

/-- A target as compilations make them. -/
structure Target.Sound (t : Target) : Prop where
  signals : t.signals.Sound
  suited : Source.Suited t.signals t.flags t.layout t.table
  activeLow : t.format.activeLow = t.signals.activeLow

namespace Source

def Statement.isName : Statement → Bool
  | .startTarget _ => true
  | _ => false

/-- The statement names the target or fixes its settings. -/
def Statement.opens : Statement → Bool
  | .startTarget _ => true
  | .seal => true
  | .table _ => true
  | _ => false

/-- Statements that follow one another, with the numbers of their lines. -/
abbrev Section := List (Nat × Statement)

/-- Adds a statement to the last section. A name begins another one, unless only settings and
definitions of signals stand before it. -/
def addStatement (acc : List Section × Section) (x : Nat × Statement) : List Section × Section :=
  if x.2.isName && acc.2.any (fun y => y.2.opens) then (acc.1 ++ [acc.2], [x])
  else (acc.1, acc.2 ++ [x])

def sections (statements : List (Nat × Statement)) : List Section :=
  let (done, last) := statements.foldl addStatement ([], [])
  done ++ [last]

def Statement.key? : Statement → Option String
  | .setting key _ => some key
  | _ => none

/-- The section has a setting with the key. -/
def Sets (part : Section) (key : String) : Prop := ∃ x ∈ part, x.2.key? = some key

instance (part : Section) (key : String) : Decidable (Sets part key) :=
  inferInstanceAs (Decidable (∃ x ∈ part, x.2.key? = some key))

/-- The lanes that some bits need. -/
def lanesFor (bits laneWidth : Nat) : Nat :=
  (max bits 1 + (max laneWidth 1 - 1)) / max laneWidth 1

/-- The target may have come from the section. -/
structure Describes (part : Section) (t : Target) : Prop where
  sound : t.Sound
  lanes : ¬ Sets part "lanes" → t.layout.width .lane = 0 →
    t.format.laneCount = lanesFor t.signals.width t.format.laneWidth

/-- A compilation has come to a state after complete sections and a part of the next one. -/
structure Progress (done : List Section) (part : Section) (s : State) : Prop where
  sound : s.Sound
  opened : part.any (fun x => x.2.opens) = (s.draft.named || s.draft.stage.isSealed)
  lanes : ¬ Sets part "lanes" → s.draft.lanes = none
  targets : List.Forall₂ Describes done s.targets

theorem flatten_sections (statements : List (Nat × Statement)) :
    (sections statements).flatten = statements := by
  have hfold (rest : List (Nat × Statement)) (acc : List Section × Section) :
      ((rest.foldl addStatement acc).1 ++ [(rest.foldl addStatement acc).2]).flatten =
        acc.1.flatten ++ acc.2 ++ rest := by
    induction rest generalizing acc with
    | nil => simp
    | cons x rest ih =>
      rw [List.foldl_cons, ih, addStatement]
      split <;> simp
  exact hfold statements ([], [])

theorem key_of_readSettingValue {key : String} {text : List Char} {n : Nat}
    (h : readSettingValue key text = .ok (.lanes n)) : key = "lanes" := by
  have hbind {α : Type} {x : Except Fault α} {g : α → Setting}
      (hx : (x >>= fun a => pure (g a)) = .ok (.lanes n)) : ∃ a, g a = .lanes n := by
    obtain ⟨a, -, heq⟩ := bind_eq_ok.mp hx
    exact ⟨a, Except.ok.inj heq⟩
  unfold readSettingValue at h
  split at h
  · exact absurd (hbind h) nofun
  · cases h
  · cases h
  · rfl
  · exact absurd (hbind h) nofun
  · exact absurd (hbind h) nofun
  · exact absurd (hbind h) nofun
  · exact absurd (hbind h) nofun
  · exact absurd (hbind h) nofun
  · cases h
  · cases h

theorem key_of_readSetting {text : List Char} {key : String} {n : Nat}
    (h : readSetting text = .setting key (.ok (.lanes n))) : key = "lanes" := by
  dsimp only [readSetting] at h
  split at h
  · cases h
  split at h
  · cases h
  split at h
  · cases h
  · injection h with hkey hvalue
    exact hkey ▸ key_of_readSettingValue hvalue

/-- The lines with other starts hold no settings. -/
theorem eq_readSetting_of_mem_readLine {text : List Char} {key : String}
    {value : Except Fault Setting} (h : .setting key value ∈ readLine text) :
    ∃ rest, readSetting rest = .setting key value := by
  obtain ⟨c, rest, hbare, hc⟩ := mayStart_readLine h
  have hc : c = '!' := hc
  rw [readLine_setting (hc ▸ hbare)] at h
  exact ⟨rest, (List.mem_singleton.mp h).symm⟩

theorem key_of_mem_readLines {lines : List InputLine} {line : Nat} {key : String} {n : Nat}
    (h : (line, .setting key (.ok (.lanes n))) ∈ readLines lines) : key = "lanes" := by
  obtain ⟨⟨input, number⟩, -, h⟩ := List.mem_flatMap.mp h
  obtain ⟨statement, hmem, heq⟩ := List.mem_map.mp h
  cases heq
  cases input with
  | text s =>
    obtain ⟨rest, hrest⟩ := eq_readSetting_of_mem_readLine hmem
    exact key_of_readSetting hrest
  | undecodable => cases List.mem_singleton.mp hmem
  | unreadable cause => cases List.mem_singleton.mp hmem

section progress

variable {done : List Section} {part : Section} {s s' : State}

theorem Progress.extend {x : Nat × Statement} (h : Progress done part s) (hsound : s'.Sound)
    (htargets : s'.targets = s.targets)
    (hopened : (s'.draft.named || s'.draft.stage.isSealed) =
      ((s.draft.named || s.draft.stage.isSealed) || x.2.opens))
    (hlanes : ¬ Sets [x] "lanes" → s'.draft.lanes = s.draft.lanes) :
    Progress done (part ++ [x]) s' := by
  refine ⟨hsound, ?_, ?_, htargets ▸ h.targets⟩
  · rw [List.any_append, h.opened, hopened]
    simp
  · intro hno
    have hpart : ¬ Sets part "lanes" := by
      rintro ⟨y, hmem, hkey⟩
      exact hno ⟨y, List.mem_append_left _ hmem, hkey⟩
    have hlast : ¬ Sets [x] "lanes" := by
      rintro ⟨y, hmem, hkey⟩
      exact hno ⟨y, List.mem_append_right _ hmem, hkey⟩
    exact (hlanes hlast).trans (h.lanes hpart)

/-- Closing a draft completes its section. -/
theorem Progress.close {target : Target} {events : List Event} (h : Progress done part s)
    (hclose : s.draft.close s.signals = .ok (target, events)) : Describes part target := by
  obtain ⟨⟨l, t, sealing⟩, hsealed, hclose⟩ := bind_eq_ok.mp hclose
  cases hclose
  refine ⟨⟨h.sound.signals, h.sound.draft.suited hsealed, rfl⟩, ?_⟩
  intro hno hwidth
  show s.draft.laneCount l s.signals = _
  have hwidth : ¬ 0 < l.width .lane := Nat.not_lt.mpr (Nat.le_zero.mpr hwidth)
  rw [Draft.laneCount, h.lanes hno, if_neg hwidth]
  rfl

theorem Progress.exec {statement : Statement} {events : List Event} (h : Progress done part s)
    (line : Nat)
    (hkey : ∀ key n, statement = .setting key (.ok (.lanes n)) → key = "lanes")
    (hexec : s.exec statement = .ok (s', events)) :
    Progress (addStatement (done, part) (line, statement)).1
      (addStatement (done, part) (line, statement)).2 s' := by
  cases effect_of_exec hexec with
  | declare d signals hrun =>
    exact h.extend (h.sound.with_signals hrun) rfl (Bool.or_false _).symm fun _ => rfl
  | nameValues field names signals hrun =>
    exact h.extend (h.sound.with_signals hrun) rfl (Bool.or_false _).symm fun _ => rfl
  | compose name terms signals hrun =>
    exact h.extend (h.sound.with_signals hrun) rfl (Bool.or_false _).symm fun _ => rfl
  | abbreviate name steps words hnew hwords =>
    exact h.extend (h.sound.with_sequence hwords) rfl (Bool.or_false _).symm fun _ => rfl
  | rename name hclosed =>
    rw [addStatement, h.opened, ← Draft.opened, hclosed]
    have hdraft : Draft.Sound s.signals { s.draft with name, named := true } :=
      ⟨h.sound.draft.pad, h.sound.draft.settings, h.sound.draft.sealed⟩
    exact h.extend (h.sound.with_draft hdraft) rfl (Bool.or_true _).symm fun _ => rfl
  | close name target closing hopened hclose =>
    rw [addStatement, h.opened, ← Draft.opened, hopened]
    have hdraft : Draft.Sound s.signals { name, named := true } := Draft.sound_fresh _ _ _
    refine ⟨⟨h.sound.signals, h.sound.sequences, hdraft⟩, rfl, fun _ => rfl, ?_⟩
    exact List.rel_append h.targets (.cons (h.close hclose) .nil)
  | setting key setting layout draft hstage hset =>
    have hdraft := h.sound.draft.set h.sound.signals.covers hstage hset
    obtain ⟨-, hnamed, hopen, hlanes⟩ := Draft.set_frame hstage hset
    refine h.extend (h.sound.with_draft hdraft) rfl ?_ ?_
    · show (draft.named || draft.stage.isSealed) = _
      rw [hnamed, hopen]
      exact (Bool.or_false _).symm
    · intro hno
      apply hlanes
      rintro n rfl
      obtain rfl := hkey key n rfl
      exact hno ⟨_, List.mem_singleton_self _, rfl⟩
  | «seal» l t sealing hsealed =>
    have hdraft := h.sound.draft.with_table (h.sound.draft.suited hsealed)
    refine h.extend (h.sound.with_draft hdraft) rfl ?_ fun _ => rfl
    exact (Bool.or_true _).trans (Bool.or_true _).symm
  | table statement l t t' c sealing hsealed hc hrun =>
    refine h.extend (h.sound.run_command hsealed hc hrun) rfl ?_ fun _ => rfl
    exact (Bool.or_true _).trans (Bool.or_true _).symm

theorem Progress.run {statements : List (Nat × Statement)} {log log' : Array Event}
    (h : Progress done part s)
    (hkey : ∀ line key n, (line, .setting key (.ok (.lanes n))) ∈ statements → key = "lanes")
    (hrun : State.run log s statements = (log', .ok s')) :
    Progress (statements.foldl addStatement (done, part)).1
      (statements.foldl addStatement (done, part)).2 s' := by
  induction statements generalizing done part s log with
  | nil =>
    cases hrun
    exact h
  | cons x rest ih =>
    obtain ⟨line, statement⟩ := x
    rw [State.run] at hrun
    split at hrun
    · cases hrun
    rename_i next events hexec
    have hnext : Progress (addStatement (done, part) (line, statement)).1
        (addStatement (done, part) (line, statement)).2 next := by
      refine h.exec line ?_ hexec
      rintro key n rfl
      exact hkey line key n List.mem_cons_self
    exact ih hnext (fun l key n hmem => hkey l key n (List.mem_cons_of_mem _ hmem)) hrun

theorem progress_start : Progress [] [] {} := by
  have hdraft : Draft.Sound {} {} := Draft.sound_fresh _ _ _
  exact ⟨⟨Signals.sound_empty, List.forall_mem_nil _, hdraft⟩, rfl, fun _ => rfl, .nil⟩

theorem sound_of_readLines {lines : List InputLine}
    (h : (readLines lines).foldlM State.advance {} = .ok s) : s.Sound := by
  have hrun : State.run #[] {} (readLines lines) = (_, .ok s) :=
    Prod.ext rfl ((run_eq_foldlM #[] {} (readLines lines)).trans h)
  exact (progress_start.run (fun _ _ _ => key_of_mem_readLines) hrun).sound

/-- Each target of a file comes from its section. -/
theorem forall₂_sections {lines : List InputLine} {targets : List Target}
    (h : (compile lines).result = .ok targets) :
    List.Forall₂ Describes (sections (readLines lines)) targets := by
  unfold compile at h
  split at h
  · cases h
  rename_i log s hrun
  split at h
  · cases h
  rename_i target events hclose
  cases h
  have hend := progress_start.run (fun _ _ _ => key_of_mem_readLines) hrun
  exact List.rel_append hend.targets (.cons (hend.close hclose) .nil)

end progress

end Source

namespace RomFormat

/-- A table as large as the layout is never asked for a word that it does not have. -/
theorem burn_ne_outOfRange (f : RomFormat) (t : Table) (l : Layout)
    (hs : l.count .flags ≤ t.slices) (ho : l.count .opcode ≤ t.opcodes)
    (ht : l.count .step ≤ t.config.steps) (quantity : Quantity) (value limit : Nat) :
    f.burn t l ≠ .error (.outOfRange quantity value limit) := by
  obtain ⟨words, hwords⟩ := exists_stored f t l hs ho ht
  intro h
  rw [burn, hwords] at h
  cases hcheck : f.check l with
  | ok _ =>
    rw [hcheck] at h
    by_cases hover : f.capacity < f.requiredWidth t
    · simp only [hover, if_true] at h
      cases h
    · simp only [hover, if_false] at h
      cases h
  | error e =>
    rw [hcheck] at h
    obtain ⟨why, rfl⟩ := check_eq_error hcheck
    cases h

end RomFormat

/-- The lanes that bits need hold them, and there are no more lanes than bits. -/
theorem Source.lanesFor_holds (bits laneWidth : Nat) (h : 1 ≤ laneWidth) :
    bits ≤ laneWidth * lanesFor bits laneWidth ∧ 1 ≤ lanesFor bits laneWidth ∧
      lanesFor bits laneWidth ≤ max bits 1 := by
  have hmax : max laneWidth 1 = laneWidth := Nat.max_eq_left h
  have hbits : bits ≤ max bits 1 ∧ 1 ≤ max bits 1 := ⟨Nat.le_max_left _ _, Nat.le_max_right _ _⟩
  rw [lanesFor, hmax]
  generalize max bits 1 = n at hbits ⊢
  refine ⟨?_, ?_, ?_⟩
  · have hdiv := Nat.div_add_mod (n + (laneWidth - 1)) laneWidth
    have hmod : (n + (laneWidth - 1)) % laneWidth < laneWidth := Nat.mod_lt _ h
    omega
  · exact Nat.div_pos (by omega) h
  · apply Nat.div_le_of_le_mul
    obtain ⟨k, rfl⟩ := Nat.exists_eq_add_of_le h
    have hk : k ≤ k * n := Nat.le_mul_of_pos_right k hbits.2
    rw [Nat.add_mul, Nat.one_mul]
    omega

namespace Target.Sound

variable {t : Target}

theorem requiredWidth_le (h : t.Sound) : t.format.requiredWidth t.table ≤ t.signals.width := by
  refine Nat.max_le.mpr ⟨?_, ?_⟩
  · exact Table.maxWordWidth_le_of_holds (h.suited.words.mono fun w hw => h.signals.bitWidth_le hw)
  · rw [h.activeLow]
    exact h.signals.bitWidth_le t.signals.covers_activeLow

theorem exists_images (h : t.Sound) (hlane : t.layout.width .lane = 0)
    (hcount : t.format.laneCount = Source.lanesFor t.signals.width t.format.laneWidth)
    (hpos : 1 ≤ t.format.laneWidth) (hle : t.format.laneWidth ≤ 8)
    (harr : t.format.arrangement ≠ .banked) : ∃ images, t.images = .ok images := by
  obtain ⟨hhold, hone, hmost⟩ := Source.lanesFor_holds t.signals.width t.format.laneWidth hpos
  have hbits := h.signals.width_le
  refine RomFormat.exists_burn _ _ _ ⟨hpos, hle, ?_, ?_, ?_, ?_⟩ ?_ ?_ ?_ ?_
  · rw [hcount]
    exact hone
  · rw [hcount]
    exact hmost.trans (Nat.max_le.mpr ⟨hbits, by decide⟩)
  · intro heq
    exact absurd heq harr
  · intro _
    exact hlane
  · rw [RomFormat.capacity, hcount]
    exact h.requiredWidth_le.trans hhold
  · exact h.suited.slices.ge
  · exact h.suited.opcodes.ge
  · exact h.suited.steps.ge

end Target.Sound

namespace Source

/-- In every file that compiles, each section has its target, whose table has exactly the addresses
of its layout. If the section leaves the number of lanes open and the lanes are of a kind that holds
words without banks, then the target has images. -/
theorem images_of_sections (lines : List InputLine) (targets : List Target)
    (h : (compile lines).result = .ok targets) :
    (sections (readLines lines)).flatten = readLines lines ∧
    List.Forall₂ (fun part t =>
      t.table.slices = t.layout.count .flags ∧ t.table.opcodes = t.layout.count .opcode ∧
      t.table.config.steps = t.layout.count .step ∧ t.flags.bits = t.layout.width .flags ∧
      (∀ quantity value limit, t.images ≠ .error (.outOfRange quantity value limit)) ∧
      (¬ Sets part "lanes" → t.layout.width .lane = 0 → 1 ≤ t.format.laneWidth →
        t.format.laneWidth ≤ 8 → t.format.arrangement ≠ .banked →
        ∃ images, t.images = .ok images)) (sections (readLines lines)) targets := by
  refine ⟨flatten_sections _, (forall₂_sections h).imp ?_⟩
  intro part t ht
  have hsuited := ht.sound.suited
  refine ⟨hsuited.slices, hsuited.opcodes, hsuited.steps, hsuited.flags, ?_, ?_⟩
  · exact RomFormat.burn_ne_outOfRange _ _ _ hsuited.slices.ge hsuited.opcodes.ge hsuited.steps.ge
  · intro hno hlane hpos hle harr
    exact ht.sound.exists_images hlane (ht.lanes hno hlane) hpos hle harr

/-- A target without a name, in lanes of five bits, and another one with signals defined later. -/
def twoSections : List String :=
  ["@ A B/3 /C:70", "! layout flags:1 opcode:1 step:1", "! lane-width 5", "= A B=5 | C",
    "! name second", "@ D/9:100", "! layout flags:0 opcode:1 step:0", "= A D=300"]

theorem images_of_twoSections :
    ∃ targets, (compile (twoSections.map fun s => .text s.toList)).result = .ok targets ∧
      targets.length = 2 ∧ ∀ t ∈ targets, ∃ images, t.images = .ok images := by
  have hkinds : (compile (twoSections.map fun s => .text s.toList)).result.toOption.map
      (fun targets => targets.map fun t =>
        (t.layout.width .lane, t.format.laneWidth, t.format.arrangement)) =
      some [(0, 5, .interleaved), (0, 8, .interleaved)] := by decide +kernel
  have hno : ∀ part ∈ sections (readLines (twoSections.map fun s => .text s.toList)),
      ¬ Sets part "lanes" := by decide +kernel
  cases h : (compile (twoSections.map fun s => .text s.toList)).result with
  | error e =>
    rw [h] at hkinds
    cases hkinds
  | ok targets =>
    rw [h] at hkinds
    have hkinds := Option.some.inj hkinds
    obtain ⟨-, hall⟩ := images_of_sections _ targets h
    refine ⟨targets, rfl, by simpa using congrArg List.length hkinds, ?_⟩
    intro t ht
    have hkind : (t.layout.width .lane, t.format.laneWidth, t.format.arrangement) ∈
        [(0, 5, Arrangement.interleaved), (0, 8, .interleaved)] :=
      hkinds ▸ List.mem_map_of_mem (f := fun t : Target =>
        (t.layout.width .lane, t.format.laneWidth, t.format.arrangement)) ht
    simp only [List.mem_cons, List.not_mem_nil, or_false, Prod.mk.injEq] at hkind
    obtain ⟨i, hi, rfl⟩ := List.getElem_of_mem ht
    obtain ⟨-, -, -, -, -, himages⟩ := hall.get (hall.length_eq ▸ hi) hi
    rcases hkind with ⟨hlane, hwidth, harr⟩ | ⟨hlane, hwidth, harr⟩
    all_goals
      exact himages (hno _ (List.get_mem _ _)) hlane (hwidth.ge.trans' (by decide))
        (hwidth.le.trans (by decide)) (harr ▸ nofun)

end Source

end ControlStore
