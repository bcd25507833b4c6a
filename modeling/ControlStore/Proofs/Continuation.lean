import ControlStore.Proofs.Sections
import ControlStore.Proofs.Statements

/-! Files that go on. A line that names a target completes the one before it, and nothing that
follows can change what is complete. So the targets of a file come first in every file that begins
with it and goes on with a name, and the names of targets can be read off the lines. -/

namespace ControlStore.Source

open Text

/-- The value of a line that sets the name, which is empty if the line has none. -/
def nameSetting? : List Char → Option (List Char)
  | '!' :: rest =>
    let (key, value) := (cutAt isBlank (trim rest)).getD (trim rest, [])
    if String.ofList key = "name" then some (trim value) else none
  | _ => none

/-- The line is about a table. -/
def definesTable (content : List Char) : Bool := content.head?.any fun c => decide (c ∈ tableMarks)

/-- The names that lines give to targets. -/
def titles (contents : List (List Char)) : List String :=
  (contents.filterMap nameSetting?).map String.ofList

/-- Some line is about a table before the first name is given, or none is given at all. -/
def startsUntitled (contents : List (List Char)) : Bool :=
  (contents.takeWhile fun c => (nameSetting? c).isNone).any definesTable ||
    (titles contents).isEmpty

theorem nameSetting?_of_ne {c : Char} {rest : List Char} (h : c ≠ '!') :
    nameSetting? (c :: rest) = none := by
  unfold nameSetting?
  split
  · rename_i heq
    exact absurd (List.cons.inj heq).1 h
  · rfl

/-- A setting is wrong, or it gives a name, or it is of another kind. A name that is not empty is
never wrong. -/
theorem readSetting_cases (rest : List Char) :
    ((∃ fault, readSetting rest = .fail fault) ∧
      ∀ value, nameSetting? ('!' :: rest) = some value → value = []) ∨
    (∃ value, nameSetting? ('!' :: rest) = some value ∧
      readSetting rest = .startTarget (String.ofList value)) ∨
    (nameSetting? ('!' :: rest) = none ∧ ∃ key value, readSetting rest = .setting key value) := by
  have hsetting : nameSetting? ('!' :: rest) =
      let (key, value) := (cutAt isBlank (trim rest)).getD (trim rest, [])
      if String.ofList key = "name" then some (trim value) else none := rfl
  rw [hsetting]
  dsimp only [readSetting]
  generalize (cutAt isBlank (trim rest)).getD (trim rest, []) = parts
  obtain ⟨key, value⟩ := parts
  dsimp only
  by_cases hname : String.ofList key = "name"
  · have hkey : ¬ (String.ofList key).isEmpty = true := by
      rw [hname]
      decide
    rw [if_neg hkey, if_pos hname, if_pos (beq_iff_eq.mpr hname)]
    by_cases hvalue : (trim value).isEmpty = true
    · rw [if_pos hvalue]
      refine .inl ⟨⟨_, rfl⟩, ?_⟩
      rintro _ ⟨⟩
      exact List.isEmpty_iff.mp hvalue
    · rw [if_neg hvalue]
      exact .inr (.inl ⟨trim value, rfl, rfl⟩)
  · rw [if_neg hname, if_neg (mt beq_iff_eq.mp hname)]
    split
    · exact .inl ⟨⟨_, rfl⟩, by simp⟩
    split
    · exact .inl ⟨⟨_, rfl⟩, by simp⟩
    · exact .inr (.inr ⟨rfl, _, _, rfl⟩)

/-- A line about a table fixes the settings first, unless it is wrong. -/
theorem seal_mem_readLine {s : List Char} {c : Char} {rest : List Char} (h : bare s = c :: rest)
    (hc : c ∈ tableMarks) : .seal ∈ readLine s ∨ ∃ fault, .fail fault ∈ readLine s := by
  rw [readLine, ← bare, h]
  simp only [tableMarks, List.mem_cons, List.not_mem_nil, or_false] at hc
  rcases hc with rfl | rfl | rfl | rfl | rfl
  · exact .inl List.mem_cons_self
  · exact .inl List.mem_cons_self
  · show .seal ∈ readAddress rest ∨ ∃ fault, .fail fault ∈ readAddress rest
    dsimp only [readAddress]
    split
    · exact .inr ⟨_, List.mem_cons_self⟩
    split
    · exact .inr ⟨_, List.mem_cons_self⟩
    · exact .inl List.mem_cons_self
  · exact .inl List.mem_cons_self
  · exact .inl List.mem_cons_self

section frame

variable {s s' : State}

theorem frame_of_effect {statement : Statement} (h : Effect s statement s')
    (hname : statement.isName = false) :
    s'.targets = s.targets ∧ s'.draft.name = s.draft.name ∧
      s'.draft.opened = (s.draft.opened || statement.opens) := by
  cases h with
  | rename name hopened => cases hname
  | close name target events hopened hclose => cases hname
  | setting key setting layout draft hstage hset =>
    obtain ⟨hsame, hnamed, hopen, -⟩ := Draft.set_frame hstage hset
    refine ⟨rfl, hsame, ?_⟩
    rw [Draft.opened, hnamed, hopen]
    exact (Bool.or_false _).symm
  | «seal» layout table events hsealed =>
    exact ⟨rfl, rfl, (Bool.or_true _).trans (Bool.or_true _).symm⟩
  | table statement layout before after command events hsealed hcommand hrun =>
    exact ⟨rfl, rfl, (Bool.or_true _).trans (Bool.or_true _).symm⟩
  | _ => exact ⟨rfl, rfl, (Bool.or_false _).symm⟩

theorem frame_of_run {statements : List (Nat × Statement)}
    (h : statements.foldlM State.advance s = .ok s')
    (hname : ∀ x ∈ statements, x.2.isName = false) :
    s'.targets = s.targets ∧ s'.draft.name = s.draft.name ∧
      s'.draft.opened = (s.draft.opened || statements.any fun x => x.2.opens) := by
  induction statements generalizing s with
  | nil =>
    cases h
    exact ⟨rfl, rfl, (Bool.or_false _).symm⟩
  | cons x rest ih =>
    rw [List.foldlM_cons] at h
    obtain ⟨next, hnext, hrest⟩ := bind_eq_ok.mp h
    obtain ⟨hx, hothers⟩ := List.forall_mem_cons.mp hname
    obtain ⟨htargets, hdraft, hopened⟩ := frame_of_effect (effect_of_advance hnext) hx
    obtain ⟨htargets', hdraft', hopened'⟩ := ih hrest hothers
    refine ⟨htargets'.trans htargets, hdraft'.trans hdraft, ?_⟩
    rw [hopened', hopened, List.any_cons, Bool.or_assoc]

theorem not_fail_of_run {statements : List (Nat × Statement)}
    (h : statements.foldlM State.advance s = .ok s') {line : Nat} {fault : Fault} :
    (line, .fail fault) ∉ statements := by
  intro hmem
  obtain ⟨before, after, rfl⟩ := List.append_of_mem hmem
  rw [List.foldlM_append] at h
  obtain ⟨middle, -, h⟩ := bind_eq_ok.mp h
  rw [List.foldlM_cons] at h
  obtain ⟨next, hnext, -⟩ := bind_eq_ok.mp h
  cases effect_of_advance hnext

end frame

section lines

variable {s s' : State}

theorem definesTable_cons (c : Char) (rest : List Char) :
    definesTable (c :: rest) = decide (c ∈ tableMarks) := rfl

section successful

variable {line : InputLine} {number : Nat}
  (h : (line.statements number).foldlM State.advance s = .ok s')

include h

/-- The start of a line without faults tells what kinds of statements it has. -/
theorem mayStart_of_run {x : Nat × Statement} (hx : x ∈ line.statements number) :
    ∃ c rest, line.content number = c :: rest ∧ x.2.MayStart c := by
  obtain ⟨statement, hmem, rfl⟩ := List.mem_map.mp hx
  rcases mayStart_readInputLine hmem with ⟨fault, rfl⟩ | hstart
  · exact absurd hx (not_fail_of_run h)
  · exact hstart

theorem isName_of_mark (hmark : (line.content number).head? ≠ some '!') :
    ∀ x ∈ line.statements number, x.2.isName = false := by
  rintro ⟨n, statement⟩ hx
  obtain ⟨c, rest, hcontent, hmay⟩ := mayStart_of_run h hx
  cases statement with
  | startTarget name =>
    have hc : c = '!' := hmay
    rw [hcontent, hc] at hmark
    exact absurd rfl hmark
  | _ => rfl

/-- A line that is no setting is about a table if and only if one of its statements is. -/
theorem any_opens_of_mark (hmark : (line.content number).head? ≠ some '!') :
    ((line.statements number).any fun x => x.2.opens) = definesTable (line.content number) := by
  rw [Bool.eq_iff_iff, List.any_eq_true]
  constructor
  · rintro ⟨⟨n, statement⟩, hx, hopens⟩
    have hname : statement.isName = false := isName_of_mark h hmark _ hx
    obtain ⟨c, rest, hcontent, hmay⟩ := mayStart_of_run h hx
    rw [hcontent, definesTable_cons, decide_eq_true_eq]
    cases statement with
    | «seal» => exact hmay
    | table t => exact hmay
    | startTarget name => cases hname
    | _ => cases hopens
  · intro hdefines
    cases hcontent : line.content number with
    | nil =>
      rw [hcontent] at hdefines
      cases hdefines
    | cons c rest =>
      rw [hcontent, definesTable_cons, decide_eq_true_eq] at hdefines
      obtain ⟨text, hbare, hread⟩ := exists_text_of_content hcontent
      have hmem {statement : Statement} (hstatement : statement ∈ readLine text) :
          (number, statement) ∈ line.statements number :=
        List.mem_map.mpr ⟨statement, hread ▸ hstatement, rfl⟩
      rcases seal_mem_readLine hbare hdefines with hseal | ⟨fault, hfault⟩
      · exact ⟨_, hmem hseal, rfl⟩
      · exact absurd (hmem hfault) (not_fail_of_run h)

/-- A line names a target, or it leaves targets and names as they are. -/
theorem line_cases :
    (∃ value, nameSetting? (line.content number) = some value ∧
      Effect s (.startTarget (String.ofList value)) s') ∨
    (nameSetting? (line.content number) = none ∧ s'.targets = s.targets ∧
      s'.draft.name = s.draft.name ∧
      s'.draft.opened = (s.draft.opened || definesTable (line.content number))) := by
  by_cases hmark : (line.content number).head? = some '!'
  · obtain ⟨rest, hcontent⟩ := List.head?_eq_some_iff.mp hmark
    obtain ⟨text, htext, hread⟩ := exists_text_of_content hcontent
    have heffect := effect_of_line (hread.trans (readLine_setting htext)) h
    rcases readSetting_cases rest with ⟨⟨fault, hread⟩, -⟩ | ⟨value, hvalue, hread⟩ |
      ⟨hvalue, key, value, hread⟩
    · rw [hread] at heffect
      cases heffect
    · rw [hread] at heffect
      exact .inl ⟨value, hcontent ▸ hvalue, heffect⟩
    · rw [hread] at heffect
      have hframe := frame_of_effect heffect rfl
      rw [hcontent]
      exact .inr ⟨hvalue, hframe⟩
  · have hframe := frame_of_run h (isName_of_mark h hmark)
    rw [any_opens_of_mark h hmark] at hframe
    refine .inr ⟨?_, hframe⟩
    cases hcontent : line.content number with
    | nil => rfl
    | cons c rest =>
      rw [hcontent] at hmark
      apply nameSetting?_of_ne
      rintro rfl
      exact hmark rfl

end successful

/-- The names of all targets so far, with that of the one being built. -/
def State.names (s : State) : List String := s.targets.map Target.name ++ [s.draft.name]

theorem name_of_close {d : Draft} {signals : Signals} {target : Target} {events : List Event}
    (h : d.close signals = .ok (target, events)) : target.name = d.name := by
  obtain ⟨⟨l, t, sealing⟩, -, heq⟩ := bind_eq_ok.mp h
  cases heq
  rfl

theorem titles_cons_some {c value : List Char} {rest : List (List Char)}
    (h : nameSetting? c = some value) :
    titles (c :: rest) = String.ofList value :: titles rest := by
  rw [titles, List.filterMap_cons_some h]
  rfl

theorem titles_cons_none {c : List Char} {rest : List (List Char)} (h : nameSetting? c = none) :
    titles (c :: rest) = titles rest := by
  rw [titles, List.filterMap_cons_none h]
  rfl

/-- Once a target has a name or a table, each name starts another one. -/
theorem names_of_opened {first : Nat} {lines : List InputLine}
    (h : (statementsFrom first lines).foldlM State.advance s = .ok s')
    (hopened : s.draft.opened = true) :
    s'.draft.opened = true ∧ s'.names = s.names ++ titles (contentsFrom first lines) := by
  induction lines generalizing s first with
  | nil =>
    cases h
    exact ⟨hopened, (List.append_nil _).symm⟩
  | cons line rest ih =>
    rw [statementsFrom_cons, List.foldlM_append] at h
    obtain ⟨next, hline, hrest⟩ := bind_eq_ok.mp h
    rw [contentsFrom_cons]
    rcases line_cases hline with ⟨value, hvalue, heffect⟩ | ⟨hnone, htargets, hname, hnext⟩
    · rw [titles_cons_some hvalue]
      cases heffect with
      | rename _ hclosed =>
        rw [hopened] at hclosed
        cases hclosed
      | close _ target events _ hclose =>
        obtain ⟨hopened', hnames⟩ := ih hrest rfl
        refine ⟨hopened', ?_⟩
        rw [hnames, State.names, State.names, List.map_append, List.map_singleton,
          name_of_close hclose]
        simp
    · rw [titles_cons_none hnone]
      obtain ⟨hopened', hnames⟩ := ih hrest (by rw [hnext, hopened]; rfl)
      refine ⟨hopened', ?_⟩
      rw [hnames, State.names, State.names, htargets, hname]

/-- Before that, the first name is for the target that is there already. -/
theorem names_of_closed {first : Nat} {lines : List InputLine}
    (h : (statementsFrom first lines).foldlM State.advance s = .ok s')
    (hclosed : s.draft.opened = false) :
    s'.names = s.targets.map Target.name ++
      (if startsUntitled (contentsFrom first lines) then [s.draft.name] else []) ++
      titles (contentsFrom first lines) := by
  induction lines generalizing s first with
  | nil =>
    cases h
    exact (List.append_nil _).symm
  | cons line rest ih =>
    rw [statementsFrom_cons, List.foldlM_append] at h
    obtain ⟨next, hline, hrest⟩ := bind_eq_ok.mp h
    rw [contentsFrom_cons]
    rcases line_cases hline with ⟨value, hvalue, heffect⟩ | ⟨hnone, htargets, hname, hnext⟩
    · cases heffect with
      | close _ target events hopened hclose =>
        rw [hclosed] at hopened
        cases hopened
      | rename _ _ =>
        obtain ⟨-, hnames⟩ := names_of_opened hrest rfl
        rw [hnames, titles_cons_some hvalue]
        simp [startsUntitled, hvalue, titles_cons_some, State.names]
    · have huntitled : startsUntitled (line.content first :: contentsFrom (first + 1) rest) =
          (definesTable (line.content first) ||
            startsUntitled (contentsFrom (first + 1) rest)) := by
        simp [startsUntitled, hnone, titles_cons_none, Bool.or_assoc]
      rw [titles_cons_none hnone, huntitled]
      rw [hclosed, Bool.false_or] at hnext
      cases hdefines : definesTable (line.content first) with
      | true =>
        obtain ⟨-, hnames⟩ := names_of_opened hrest (hnext.trans hdefines)
        rw [hnames, State.names, htargets, hname]
        rfl
      | false =>
        rw [ih hrest (hnext.trans hdefines), htargets, hname]
        rfl

theorem opened_of_startTarget {name : String} (h : Effect s (.startTarget name) s') :
    s'.draft.opened = true := by
  cases h with
  | rename _ hclosed => rfl
  | close _ target events hopened hclose => rfl

/-- A name or a line about a table opens a target. -/
theorem opened_of_lines {first : Nat} {lines : List InputLine}
    (h : (statementsFrom first lines).foldlM State.advance s = .ok s')
    (hopens : ∃ c ∈ contentsFrom first lines, (nameSetting? c).isSome ∨ definesTable c = true) :
    s'.draft.opened = true := by
  induction lines generalizing s first with
  | nil =>
    obtain ⟨c, hc, -⟩ := hopens
    cases hc
  | cons line rest ih =>
    rw [statementsFrom_cons, List.foldlM_append] at h
    obtain ⟨next, hline, hrest⟩ := bind_eq_ok.mp h
    obtain ⟨c, hc, hkind⟩ := hopens
    rcases List.mem_cons.mp hc with rfl | hc
    · have hnext : next.draft.opened = true := by
        rcases line_cases hline with ⟨value, -, heffect⟩ | ⟨hnone, -, -, hnext⟩
        · exact opened_of_startTarget heffect
        · have hdefines : definesTable (line.content first) = true := by
            rw [hnone] at hkind
            simpa using hkind
          rw [hnext, hdefines, Bool.or_true]
      exact (names_of_opened hrest hnext).1
    · exact ih hrest ⟨c, hc, hkind⟩

theorem targets_prefix_of_effect {statement : Statement} (h : Effect s statement s') :
    s.targets <+: s'.targets := by
  cases h with
  | close name target events hopened hclose => exact List.prefix_append _ _
  | _ => exact List.prefix_refl _

/-- A target that is complete stays as it is. -/
theorem targets_prefix_of_run {statements : List (Nat × Statement)}
    (h : statements.foldlM State.advance s = .ok s') : s.targets <+: s'.targets :=
  foldlM_invariant (fun next => s.targets <+: next.targets)
    (fun _ _ _ hs hnext => hs.trans (targets_prefix_of_effect (effect_of_advance hnext)))
    statements (List.prefix_refl _) h

end lines

/-- The text has a line that names a target or is about a table. -/
def OpensTarget (text : String) : Prop :=
  ∃ c ∈ contents (InputLine.ofText text), (nameSetting? c).isSome ∨ definesTable c = true

/-- The first line of the text gives a name to a target. -/
def StartsTarget (text : String) : Prop :=
  ∃ line rest value, Text.lines (· == '\n') text.toList = line :: rest ∧
    nameSetting? (bare line) = some value ∧ value ≠ []

theorem ofText_append (a b : String) :
    ∃ between, (between = [] ∨ between = [.text []]) ∧
      InputLine.ofText (a ++ "\n" ++ b) = InputLine.ofText a ++ between ++ InputLine.ofText b := by
  obtain ⟨between, hbetween, hlines⟩ : ∃ between, (between = [] ∨ between = [[]]) ∧
      lines (· == '\n') (a.toList ++ '\n' :: b.toList) =
        lines (· == '\n') a.toList ++ between ++ lines (· == '\n') b.toList :=
    lines_append_sep a.toList b.toList '\n' rfl
  have htext : (a ++ "\n" ++ b).toList = a.toList ++ '\n' :: b.toList := by simp
  refine ⟨between.map .text, ?_, ?_⟩
  · rcases hbetween with rfl | rfl
    · exact .inl rfl
    · exact .inr rfl
  · rw [InputLine.ofText, htext, hlines, List.map_append, List.map_append]
    rfl

theorem statementsFrom_empty (first : Nat) : statementsFrom first [.text []] = [] := by
  have hread : readInputLine first (.text []) = [] := by
    rw [readInputLine]
    split <;> rfl
  rw [statementsFrom_cons, InputLine.statements, hread]
  rfl

theorem readInputLine_name {number : Nat} {line value : List Char} (hnumber : number ≠ 1)
    (h : nameSetting? (bare line) = some value) (hne : value ≠ []) :
    readInputLine number (.text line) = [.startTarget (String.ofList value)] := by
  have hmark : ∃ rest, bare line = '!' :: rest := by
    unfold nameSetting? at h
    split at h
    · exact ⟨_, by assumption⟩
    · cases h
  obtain ⟨rest, hbare⟩ := hmark
  rw [hbare] at h
  rw [readInputLine, if_neg hnumber, readLine_setting hbare]
  rcases readSetting_cases rest with ⟨-, hempty⟩ | ⟨value', hvalue, hread⟩ | ⟨hnone, -⟩
  · exact absurd (hempty value h) hne
  · rw [hread, Option.some.inj (hvalue.symm.trans h)]
  · cases hnone.symm.trans h

/-- The statements of a text that goes on: those of its beginning, a name and what follows. -/
theorem exists_statements_append {a b : String} (ha : OpensTarget a) (hb : StartsTarget b) :
    ∃ number name later, readLines (InputLine.ofText (a ++ "\n" ++ b)) =
      readLines (InputLine.ofText a) ++ (number, .startTarget name) :: later := by
  obtain ⟨between, hbetween, hlines⟩ := ofText_append a b
  obtain ⟨line, rest, value, hfirst, hvalue, hne⟩ := hb
  have hrest : InputLine.ofText b = .text line :: rest.map .text := by
    rw [InputLine.ofText, hfirst, List.map_cons]
  have hempty : ∀ first, statementsFrom first between = [] := by
    intro first
    rcases hbetween with rfl | rfl
    · rfl
    · exact statementsFrom_empty first
  have hnumber : 1 + (InputLine.ofText a ++ between).length ≠ 1 := by
    obtain ⟨c, hc, -⟩ := ha
    have hpos := List.length_pos_of_mem hc
    rw [contents, contentsFrom, List.length_map, List.length_zipIdx] at hpos
    rw [List.length_append]
    omega
  have hsplit : readLines (InputLine.ofText (a ++ "\n" ++ b)) =
      statementsFrom 1 (InputLine.ofText a ++ between ++ .text line :: rest.map .text) := by
    rw [hlines, hrest]
    rfl
  rw [statementsFrom_append, statementsFrom_append, hempty, List.append_nil, statementsFrom_cons,
    InputLine.statements, readInputLine_name hnumber hvalue hne] at hsplit
  exact ⟨_, _, _, hsplit⟩

theorem advance_startTarget {s : State} (hopened : s.draft.opened = true) (number : Nat)
    (name : String) :
    s.advance (number, .startTarget name) =
      match s.draft.close s.signals with
      | .error fault => .error { line := number, fault }
      | .ok (target, _) =>
        .ok { s with draft := { name, named := true }, targets := s.targets ++ [target] } := by
  rw [State.advance, State.exec, ← Draft.opened, if_pos hopened]
  cases s.draft.close s.signals with
  | error fault => rfl
  | ok p => rfl

theorem finish_eq_ok {s : State} {line : Nat} {targets : List Target}
    (h : s.finish line = .ok targets) :
    ∃ target events, s.draft.close s.signals = .ok (target, events) ∧
      targets = s.targets ++ [target] := by
  unfold State.finish at h
  split at h
  · cases h
  · rename_i target events hclose
    cases h
    exact ⟨target, events, hclose, rfl⟩

/-- The compilations of a text and of one that goes on, by what becomes of the statements they have
in common. -/
theorem continuation_cases {a b : String} (ha : OpensTarget a) (hb : StartsTarget b) :
    (∃ e, (compileText a).result = .error e ∧ (compileText (a ++ "\n" ++ b)).result = .error e) ∨
    (∃ s fault line line', (State.run #[] {} (readLines (InputLine.ofText a))).2 = .ok s ∧
      (compileText a).result = .error { line, fault } ∧
      (compileText (a ++ "\n" ++ b)).result = .error { line := line', fault }) ∨
    (∃ targets, (compileText a).result = .ok targets ∧
      ∀ targets', (compileText (a ++ "\n" ++ b)).result = .ok targets' → targets <+: targets') := by
  obtain ⟨number, name, later, hstatements⟩ := exists_statements_append ha hb
  have hshort := compile_result (InputLine.ofText a)
  have hlong := compile_result (InputLine.ofText (a ++ "\n" ++ b))
  rw [← compileText] at hshort hlong
  rw [hstatements, List.foldlM_append] at hlong
  rw [run_eq_foldlM]
  cases hrun : (readLines (InputLine.ofText a)).foldlM State.advance {} with
  | error e =>
    rw [hrun] at hshort hlong
    exact .inl ⟨e, hshort, hlong⟩
  | ok s =>
    rw [hrun] at hshort hlong
    have hopened := opened_of_lines hrun ha
    have hnext : (s.advance (number, .startTarget name) >>= fun next =>
        later.foldlM State.advance next >>= fun s' =>
          s'.finish (InputLine.ofText (a ++ "\n" ++ b)).length) =
        (compileText (a ++ "\n" ++ b)).result := by
      rw [hlong, ← bind_assoc]
      rfl
    rw [advance_startTarget hopened] at hnext
    have hshort : (compileText a).result = s.finish (InputLine.ofText a).length := hshort
    rw [State.finish] at hshort
    cases hclose : s.draft.close s.signals with
    | error fault =>
      rw [hclose] at hshort hnext
      exact .inr (.inl ⟨s, fault, _, number, rfl, hshort, hnext.symm⟩)
    | ok p =>
      obtain ⟨target, events⟩ := p
      rw [hclose] at hshort hnext
      refine .inr (.inr ⟨_, hshort, ?_⟩)
      intro targets' hlong'
      obtain ⟨next, heq, hrest⟩ := bind_eq_ok.mp (hnext.trans hlong')
      cases heq
      obtain ⟨s', hrun', hfinish⟩ := bind_eq_ok.mp hrest
      have hkept : s.targets ++ [target] <+: s'.targets := targets_prefix_of_run hrun'
      obtain ⟨last, -, -, rfl⟩ := finish_eq_ok hfinish
      exact hkept.trans (List.prefix_append _ _)

/-- The targets of a file are named by its lines. Before the first name there is a target without
one if something is said about its table, or if no name follows. -/
theorem names_of_compile {lines : List InputLine} {targets : List Target}
    (h : (compile lines).result = .ok targets) :
    targets.map Target.name =
      (if startsUntitled (contents lines) then ["microcode"] else []) ++
        titles (contents lines) := by
  rw [compile_result] at h
  obtain ⟨s, hrun, hfinish⟩ := bind_eq_ok.mp h
  obtain ⟨target, events, hclose, rfl⟩ := finish_eq_ok hfinish
  have hnames : s.names = _ := names_of_closed hrun rfl
  rw [List.map_append, List.map_singleton, name_of_close hclose, ← State.names, hnames]
  rfl

/-- What follows a target does not matter to it. A text that opens a target may go on with the name
of another one: whatever is wrong with it is still wrong, in the same place unless it was wrong only
at its end, and its targets are still the first ones. The names of the targets of any file are those
that its lines give, after a target without a name if the file starts with one. -/
theorem targets_of_continued :
    (∀ a b : String, OpensTarget a → StartsTarget b →
      (∀ e, (compileText a).result = .error e →
        ∃ e', (compileText (a ++ "\n" ++ b)).result = .error e' ∧ e'.fault = e.fault ∧
          (e'.line = e.line ∨
            ∃ s, (State.run #[] {} (readLines (InputLine.ofText a))).2 = .ok s)) ∧
      (∀ targets targets', (compileText a).result = .ok targets →
        (compileText (a ++ "\n" ++ b)).result = .ok targets' → targets <+: targets')) ∧
    (∀ lines targets, (compile lines).result = .ok targets →
      targets.map Target.name =
        (if startsUntitled (contents lines) then ["microcode"] else []) ++
          titles (contents lines)) := by
  refine ⟨?_, fun lines targets h => names_of_compile h⟩
  intro a b ha hb
  rcases continuation_cases ha hb with ⟨e, hshort, hlong⟩ |
    ⟨s, fault, line, line', hrun, hshort, hlong⟩ | ⟨targets, hshort, hlong⟩
  · constructor
    · intro e' he'
      cases hshort.symm.trans he'
      exact ⟨e, hlong, rfl, .inl rfl⟩
    · intro targets targets' htargets
      cases hshort.symm.trans htargets
  · constructor
    · intro e he
      cases hshort.symm.trans he
      exact ⟨_, hlong, rfl, .inr ⟨s, hrun⟩⟩
    · intro targets targets' htargets
      cases hshort.symm.trans htargets
  · constructor
    · intro e he
      cases hshort.symm.trans he
    · intro targets' targets'' htargets htargets'
      cases hshort.symm.trans htargets
      exact hlong targets'' htargets'

instance (text : String) : Decidable (OpensTarget text) :=
  inferInstanceAs (Decidable (∃ c ∈ contents (InputLine.ofText text),
    (nameSetting? c).isSome ∨ definesTable c = true))

/-- The line on which a compilation fails. -/
def Outcome.faultLine? (o : Outcome) : Option Nat :=
  match o.result with
  | .error e => some e.line
  | .ok _ => none

theorem faultLine?_of_error {o : Outcome} {e : SourceError} (h : o.result = .error e) :
    o.faultLine? = some e.line := by
  rw [Outcome.faultLine?, h]

/-- A target without a name. -/
def untitledText : String := "@ A\n! layout flags:0 opcode:1 step:0\n= A\n"

/-- A target with a name and nothing else. -/
def bareText : String := "! name first"

/-- Another target. -/
def secondText : String := " ! name second # next\n@ B\n! layout flags:0 opcode:1 step:1\n"

/-- A text that is right, and one that is wrong at its end for want of a layout, go on with another
target. -/
theorem targets_of_continued_second :
    (∃ targets targets', (compileText untitledText).result = .ok targets ∧
      (compileText (untitledText ++ "\n" ++ secondText)).result = .ok targets' ∧
      targets.length = 1 ∧ targets <+: targets' ∧
      targets'.map Target.name = ["microcode", "second"]) ∧
    (∃ e e', (compileText bareText).result = .error e ∧ e.line = 1 ∧
      (compileText (bareText ++ "\n" ++ secondText)).result = .error e' ∧
      e'.line = 2 ∧ e'.fault = e.fault) := by
  have hsecond : StartsTarget secondText :=
    ⟨" ! name second # next".toList, _, "second".toList, rfl, by decide +kernel, by decide⟩
  constructor
  · have hshort : (compileText untitledText).result.toOption.any
        (fun targets => targets.length == 1) = true := by decide +kernel
    have hlong : (compileText (untitledText ++ "\n" ++ secondText)).result.toOption.any
        (fun targets => targets.length == 2) = true := by decide +kernel
    obtain ⟨targets, htargets, hlength⟩ := exists_ok_of_any hshort
    obtain ⟨targets', htargets', -⟩ := exists_ok_of_any hlong
    obtain ⟨hcontinued, hnames⟩ := targets_of_continued
    refine ⟨targets, targets', htargets, htargets', beq_iff_eq.mp hlength, ?_, ?_⟩
    · have huntitled : OpensTarget untitledText := by decide +kernel
      exact (hcontinued untitledText secondText huntitled hsecond).2 _ _ htargets htargets'
    · rw [hnames _ targets' htargets']
      decide +kernel
  · have hlines : (compileText bareText).faultLine? = some 1 ∧
        (compileText (bareText ++ "\n" ++ secondText)).faultLine? = some 2 := by decide +kernel
    have hbare : OpensTarget bareText := by decide +kernel
    cases hshort : (compileText bareText).result with
    | ok targets =>
      rw [Outcome.faultLine?, hshort] at hlines
      exact absurd hlines.1 (Option.some_ne_none 1).symm
    | error e =>
      obtain ⟨e', hlong, hfault, -⟩ :=
        (targets_of_continued.1 bareText secondText hbare hsecond).1 e hshort
      rw [faultLine?_of_error hshort, faultLine?_of_error hlong] at hlines
      exact ⟨e, e', rfl, Option.some.inj hlines.1, hlong, Option.some.inj hlines.2, hfault⟩

end ControlStore.Source
