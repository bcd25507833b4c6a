import ControlStore.Proofs.Drafts
import ControlStore.Proofs.Text

/-! Statements: the lines they are read from, and what each of them does to the state of a
compilation when it succeeds. -/

namespace ControlStore.Source

/-- What is left of a line without its comment and the blanks around it. -/
def bare (s : List Char) : List Char := Text.trim (s.takeWhile (· != '#'))

/-- What the line with a number says. Byte order marks on the first line are no part of it. -/
def InputLine.content (number : Nat) : InputLine → List Char
  | .text s => bare (if number = 1 then s.dropWhile isByteOrderMark else s)
  | .undecodable => []
  | .unreadable _ => []

/-- A line that says something is text. -/
theorem exists_text_of_content {line : InputLine} {number : Nat} {c : Char} {rest : List Char}
    (h : line.content number = c :: rest) :
    ∃ s, bare s = c :: rest ∧ readInputLine number line = readLine s := by
  cases line with
  | text s => exact ⟨_, h, rfl⟩
  | undecodable => cases h
  | unreadable cause => cases h

/-- What lines that are numbered from some number on say, one after another. -/
def contentsFrom (first : Nat) (lines : List InputLine) : List (List Char) :=
  (lines.zipIdx first).map fun (line, number) => line.content number

/-- What the lines of a file say. -/
def contents (lines : List InputLine) : List (List Char) := contentsFrom 1 lines

/-- The statements of the line with a number. -/
def InputLine.statements (number : Nat) (line : InputLine) : List (Nat × Statement) :=
  (readInputLine number line).map fun s => (number, s)

/-- The statements of lines that are numbered from some number on. -/
def statementsFrom (first : Nat) (lines : List InputLine) : List (Nat × Statement) :=
  (lines.zipIdx first).flatMap fun (line, number) => line.statements number

theorem contentsFrom_cons (first : Nat) (line : InputLine) (rest : List InputLine) :
    contentsFrom first (line :: rest) = line.content first :: contentsFrom (first + 1) rest := rfl

theorem statementsFrom_cons (first : Nat) (line : InputLine) (rest : List InputLine) :
    statementsFrom first (line :: rest) =
      line.statements first ++ statementsFrom (first + 1) rest := rfl

theorem statementsFrom_append (first : Nat) (a b : List InputLine) :
    statementsFrom first (a ++ b) =
      statementsFrom first a ++ statementsFrom (first + a.length) b := by
  rw [statementsFrom, List.zipIdx_append, List.flatMap_append]
  rfl

/-- The characters that start a line about the table. -/
def tableMarks : List Char := ['*', '^', '>', '=', '?']

/-- A line with such a statement may start with the character. Any line may be wrong. -/
def Statement.MayStart (c : Char) : Statement → Prop
  | .fail _ => True
  | .declare _ => c = '@'
  | .nameValues _ _ => c = '~'
  | .compose _ _ => c = '$'
  | .abbreviate _ _ => c = '%'
  | .startTarget _ => c = '!'
  | .setting _ _ => c = '!'
  | .seal => c ∈ tableMarks
  | .table _ => c ∈ tableMarks

theorem mayStart_readLine {s : List Char} {statement : Statement} (h : statement ∈ readLine s) :
    ∃ c rest, bare s = c :: rest ∧ statement.MayStart c := by
  have hafter {c : Char} {second : Statement} (hc : c ∈ tableMarks) (hsecond : second.MayStart c)
      (hmem : statement ∈ [.seal, second]) : statement.MayStart c := by
    rcases List.mem_pair.mp hmem with rfl | rfl
    · exact hc
    · exact hsecond
  have htable {c : Char} {t : TableStatement} (hc : c ∈ tableMarks)
      (hmem : statement ∈ [.seal, .table t]) : statement.MayStart c :=
    hafter hc (show (Statement.table t).MayStart c from hc) hmem
  rw [readLine, ← bare] at h
  split at h
  · cases h
  rename_i c rest hbare
  refine ⟨c, rest, hbare, ?_⟩
  split at h
  · obtain ⟨w, -, rfl⟩ := List.mem_map.mp h
    split <;> trivial
  · rw [List.mem_singleton.mp h, readValueNames]
    split <;> trivial
  · rw [List.mem_singleton.mp h, readComposite]
    split <;> trivial
  · rw [List.mem_singleton.mp h]
    dsimp only [readAbbreviation]
    split
    · trivial
    · split <;> trivial
  · rw [List.mem_singleton.mp h]
    dsimp only [readSetting]
    split
    · trivial
    split
    · trivial
    split <;> trivial
  · refine hafter (by decide) ?_ h
    unfold readTemplate
    split <;> simp [Statement.MayStart, tableMarks]
  · refine hafter (by decide) ?_ h
    unfold readReservation
    split <;> simp [Statement.MayStart, tableMarks]
  · dsimp only [readAddress] at h
    split at h
    · rw [List.mem_singleton.mp h]
      trivial
    split at h
    · rw [List.mem_singleton.mp h]
      trivial
    · exact htable (by decide) h
  · exact htable (by decide) h
  · refine hafter (by decide) ?_ h
    unfold readConditional
    split <;> simp [Statement.MayStart, tableMarks]
  · rw [List.mem_singleton.mp h]
    trivial

/-- A statement of a line is a failure, or it is one that the start of the line allows. -/
theorem mayStart_readInputLine {line : InputLine} {number : Nat} {statement : Statement}
    (h : statement ∈ readInputLine number line) :
    (∃ fault, statement = .fail fault) ∨
      ∃ c rest, line.content number = c :: rest ∧ statement.MayStart c := by
  cases line with
  | text s => exact .inr (mayStart_readLine h)
  | undecodable => exact .inl ⟨_, List.mem_singleton.mp h⟩
  | unreadable cause => exact .inl ⟨_, List.mem_singleton.mp h⟩

section marks

variable {s rest : List Char}

theorem readLine_composite (h : bare s = '$' :: rest) : readLine s = [readComposite rest] := by
  rw [readLine, ← bare, h]
  rfl

theorem readLine_abbreviation (h : bare s = '%' :: rest) :
    readLine s = [readAbbreviation rest] := by
  rw [readLine, ← bare, h]
  rfl

theorem readLine_setting (h : bare s = '!' :: rest) : readLine s = [readSetting rest] := by
  rw [readLine, ← bare, h]
  rfl

theorem readLine_template (h : bare s = '*' :: rest) :
    readLine s = [.seal, readTemplate rest] := by
  rw [readLine, ← bare, h]
  rfl

theorem readLine_reservation (h : bare s = '^' :: rest) :
    readLine s = [.seal, readReservation rest] := by
  rw [readLine, ← bare, h]
  rfl

theorem readLine_address (h : bare s = '>' :: rest) : readLine s = readAddress rest := by
  rw [readLine, ← bare, h]
  rfl

theorem readLine_definition (h : bare s = '=' :: rest) :
    readLine s = [.seal, .table (.define (readSteps rest))] := by
  rw [readLine, ← bare, h]
  rfl

theorem readLine_conditional (h : bare s = '?' :: rest) :
    readLine s = [.seal, readConditional rest] := by
  rw [readLine, ← bare, h]
  rfl

end marks

/-- The table of a target, once there is one. -/
def Stage.table? : Stage → Option Table
  | .settings _ => none
  | .sealed _ table => some table

theorem sealed_of_stage {d : Draft} {layout : Layout} {table : Table}
    (h : d.stage = .sealed layout table) : d.sealed = .ok (layout, table, []) := by
  rw [Draft.sealed, h]

/-- The target being built has a name or a table, so that another name belongs to another target. -/
def Draft.opened (d : Draft) : Bool := d.named || d.stage.isSealed

/-- The state that a statement leads to, with one rule for each way to succeed. -/
inductive Effect (s : State) : Statement → State → Prop
  | declare (d : Declaration) (signals : Signals) (h : s.signals.run d.command = .ok signals) :
    Effect s (.declare d) { s with signals }
  | nameValues (field : String) (names : List String) (signals : Signals)
    (h : s.signals.run (.nameValues field names) = .ok signals) :
    Effect s (.nameValues field names) { s with signals }
  | compose (name : String) (terms : List String) (signals : Signals)
    (h : s.signals.run (.compose name terms) = .ok signals) :
    Effect s (.compose name terms) { s with signals }
  | abbreviate (name : String) (steps : List Step) (words : List Word × Option (List Word))
    (hnew : s.sequences.lookup name = none) (h : s.splitWords false steps = .ok words) :
    Effect s (.abbreviate name steps) { s with sequences := s.sequences ++ [(name, words.1)] }
  | rename (name : String) (h : s.draft.opened = false) :
    Effect s (.startTarget name) { s with draft := { s.draft with name, named := true } }
  | close (name : String) (target : Target) (events : List Event) (h : s.draft.opened = true)
    (hclose : s.draft.close s.signals = .ok (target, events)) :
    Effect s (.startTarget name)
      { s with draft := { name, named := true }, targets := s.targets ++ [target] }
  | setting (key : String) (setting : Setting) (layout : Option Layout) (draft : Draft)
    (hstage : s.draft.stage = .settings layout)
    (h : s.draft.set layout s.signals setting = .ok draft) :
    Effect s (.setting key (.ok setting)) { s with draft }
  | seal (layout : Layout) (table : Table) (events : List Event)
    (h : s.draft.sealed = .ok (layout, table, events)) :
    Effect s .seal { s with draft := { s.draft with stage := .sealed layout table } }
  | table (statement : TableStatement) (layout : Layout) (before after : Table)
    (command : TableCommand) (events : List Event)
    (hsealed : s.draft.sealed = .ok (layout, before, events))
    (hcommand : s.command before.config statement = .ok command)
    (h : before.run command = .ok after) :
    Effect s (.table statement) { s with draft := { s.draft with stage := .sealed layout after } }

theorem effect_of_exec {s s' : State} {statement : Statement} {events : List Event}
    (h : s.exec statement = .ok (s', events)) : Effect s statement s' := by
  cases statement with
  | fail fault => cases h
  | declare d =>
    obtain ⟨signals, hsignals, heq⟩ := bind_eq_ok.mp h
    cases heq
    exact .declare d signals ((declare_eq _ _).symm.trans (ofEngine_eq_ok hsignals))
  | nameValues field names =>
    rw [State.exec] at h
    split at h
    · cases h
    obtain ⟨signals, hsignals, heq⟩ := bind_eq_ok.mp h
    cases heq
    exact .nameValues field names signals
      ((Signals.run_nameValues _ _ _).trans (ofEngine_eq_ok hsignals))
  | compose name terms =>
    obtain ⟨⟨w, signals⟩, hsignals, heq⟩ := bind_eq_ok.mp h
    cases heq
    have hrun := (s.signals.run_compose name terms).trans
      (congrArg (Except.map Prod.snd) (ofEngine_eq_ok hsignals))
    exact .compose name terms signals hrun
  | abbreviate name steps =>
    rw [State.exec] at h
    split at h
    · cases h
    rename_i hnew
    obtain ⟨words, hwords, heq⟩ := bind_eq_ok.mp h
    cases heq
    exact .abbreviate name steps words (Option.not_isSome_iff_eq_none.mp hnew) hwords
  | startTarget name =>
    rw [State.exec, ← Draft.opened] at h
    cases hopened : s.draft.opened with
    | true =>
      rw [hopened, if_pos rfl] at h
      obtain ⟨⟨target, closing⟩, hclose, heq⟩ := bind_eq_ok.mp h
      cases heq
      exact .close name target _ hopened hclose
    | false =>
      rw [hopened] at h
      cases h
      exact .rename name hopened
  | setting key value =>
    rw [State.exec] at h
    split at h
    · cases h
    rename_i layout hstage
    obtain ⟨setting, rfl, hrest⟩ := bind_eq_ok.mp h
    obtain ⟨draft, hset, heq⟩ := bind_eq_ok.mp hrest
    cases heq
    exact .setting key setting layout draft hstage hset
  | «seal» =>
    obtain ⟨⟨layout, table, sealing⟩, hsealed, heq⟩ := bind_eq_ok.mp h
    cases heq
    exact .seal layout table _ hsealed
  | table statement =>
    obtain ⟨⟨layout, before, sealing⟩, hsealed, h⟩ := bind_eq_ok.mp h
    obtain ⟨command, hcommand, h⟩ := bind_eq_ok.mp h
    obtain ⟨after, hafter, heq⟩ := bind_eq_ok.mp h
    cases heq
    exact .table statement layout before after command sealing hsealed hcommand
      (ofEngine_eq_ok hafter)

/-- The state after a statement, whatever is reported about it. -/
def State.advance (s : State) (x : Nat × Statement) : Except SourceError State :=
  match s.exec x.2 with
  | .error fault => .error { line := x.1, fault }
  | .ok (s', _) => .ok s'

theorem run_eq_foldlM (log : Array Event) (s : State) (statements : List (Nat × Statement)) :
    (State.run log s statements).2 = statements.foldlM State.advance s := by
  induction statements generalizing log s with
  | nil => rfl
  | cons x rest ih =>
    rw [State.run, List.foldlM_cons, State.advance]
    cases s.exec x.2 with
    | error fault => rfl
    | ok p => exact ih (log ++ p.2) p.1

theorem effect_of_advance {s s' : State} {x : Nat × Statement} (h : s.advance x = .ok s') :
    Effect s x.2 s' := by
  unfold State.advance at h
  split at h
  · cases h
  · rename_i hexec
    cases h
    exact effect_of_exec hexec

/-- A line with one statement has its effect. -/
theorem effect_of_line {line : InputLine} {number : Nat} {statement : Statement} {s s' : State}
    (hread : readInputLine number line = [statement])
    (h : (line.statements number).foldlM State.advance s = .ok s') : Effect s statement s' := by
  rw [InputLine.statements, hread] at h
  obtain ⟨next, hnext, heq⟩ := bind_eq_ok.mp h
  cases heq
  exact effect_of_advance hnext

/-- The targets of a file whose last target is complete at a line. -/
def State.finish (s : State) (line : Nat) : Except SourceError (List Target) :=
  match s.draft.close s.signals with
  | .error fault => .error { line, fault }
  | .ok (target, _) => .ok (s.targets ++ [target])

theorem compile_result (lines : List InputLine) :
    (compile lines).result =
      (readLines lines).foldlM State.advance {} >>= fun s => s.finish lines.length := by
  rw [← run_eq_foldlM #[] {} (readLines lines), compile]
  generalize State.run #[] {} (readLines lines) = outcome
  obtain ⟨log, result⟩ := outcome
  cases result with
  | error e => rfl
  | ok s =>
    show Outcome.result (match s.draft.close s.signals with
      | .error fault => _
      | .ok (target, events) => _) = s.finish lines.length
    unfold State.finish
    cases s.draft.close s.signals with
    | error fault => rfl
    | ok p => rfl

end ControlStore.Source
