import ControlStore.Proofs.Drafts
import ControlStore.Proofs.Reading
import ControlStore.Proofs.Table
import ControlStore.Source.Compile

/-! What a definition file means. Its statements are operations on signals and a table, made one
after another, and compiling the text of the file comes to the same end as making them. -/

namespace ControlStore.Written

/-- What statements work on. -/
structure Engine where
  signals : Signals
  table : Table

/-- The operation for a control line depends on what is said of it. -/
def Declaration.apply (d : Declaration) (signals : Signals) : Except Error Signals :=
  match d.bit with
  | none => (signals.push d.name.string d.size d.activeLow).map Prod.snd
  | some bit =>
    (if d.activeLow then signals.defineActiveLow d.name.string bit.toNat
    else if d.size = 1 then signals.define d.name.string bit.toNat
    else signals.defineField d.name.string bit.toNat d.size).map Prod.snd

/-- Each step is built by itself. -/
def Steps.words (s : Steps) (signals : Signals) : Except Error (List Word) :=
  s.val.mapM fun step => signals.build step.strings

def Condition.resolve (c : Condition) (flags : Flags) : Except Error ControlStore.Condition := do
  let literals ← c.val.mapM fun l => flags.literal l.flag.string l.value
  return { literals }

/-- The operation on the table, once its condition and its words are there. -/
def TableClause.command (flags : Flags) (signals : Signals) :
    TableClause → Except Error TableCommand
  | template none steps => do
    let words ← steps.words signals
    return .template none words
  | template (some c) steps => do
    let condition ← c.resolve flags
    let words ← steps.words signals
    return .template (some condition) words
  | reserve c steps => do
    let condition ← c.resolve flags
    let words ← steps.words signals
    return .reserve condition words
  | seek _ opcode => .ok (.seek opcode.toNat)
  | define steps => do
    let words ← steps.words signals
    return .defineNext words
  | defineWhen c steps none => do
    let condition ← c.resolve flags
    let words ← steps.words signals
    return .defineNextWhen condition words none
  | defineWhen c steps (some fallback) => do
    let condition ← c.resolve flags
    let words ← steps.words signals
    let others ← fallback.words signals
    return .defineNextWhen condition words (some others)

/-- The operations of a statement. -/
def Clause.apply (flags : Flags) (e : Engine) : Clause → Except Error Engine
  | declare d => do
    let signals ← d.apply e.signals
    return { e with signals }
  | compose name terms => do
    let (_, signals) ← e.signals.compose name.string (terms.map Term.string)
    return { e with signals }
  | table c => do
    let command ← c.command flags e.signals
    let table ← e.table.run command
    return { e with table }

/-- Statements are carried out in order. An error comes with the number of statements before the
one that meets it. -/
def Engine.perform (flags : Flags) (e : Engine) (done : Nat) :
    List Clause → Except (Nat × Error) Engine
  | [] => .ok e
  | c :: rest =>
    match c.apply flags e with
    | .error err => .error (done, err)
    | .ok e' => e'.perform flags (done + 1) rest

def Policy.apply (config : TableConfig) : Policy → TableConfig
  | fallback p => { config with fallback := p }
  | redefine p => { config with redefine := p }

namespace Program

/-- The last policy of a kind counts. -/
def config (p : Program) : TableConfig :=
  p.policies.foldl Policy.apply { steps := p.layout.count .step }

/-- No signals, and the table that the layout asks for. -/
def start (p : Program) : Except Error Engine := do
  let table ← Table.new (p.layout.count .flags) (p.layout.count .opcode) p.config
  return { signals := {}, table }

/-- The target of a file, whose words are stored in as many bytes as they take unless the layout
selects lanes. -/
def target (p : Program) (e : Engine) : Target :=
  { name := "microcode"
    signals := e.signals
    flags := p.flags
    layout := p.layout
    table := e.table
    format := {
      laneWidth := 8
      laneCount :=
        if 0 < p.layout.width .lane then p.layout.count .lane else (max e.signals.width 1 + 7) / 8
      arrangement := .interleaved
      order := .lowFirst
      activeLow := e.signals.activeLow }
    output := "microcode.bin" }

end Program

open Source

theorem ofEngine_bind {α β : Type} (x : Except Error α) (f : α → Except Error β) :
    ofEngine (x >>= f) = ofEngine x >>= fun a => ofEngine (f a) := by
  cases x <;> rfl

theorem addStep_terms (s : State) (fillAllowed : Bool) (before : List Word)
    (terms : List String) :
    s.addStep fillAllowed (before, none) (.terms terms) =
      ofEngine (s.signals.build terms) >>= fun w => pure (before ++ [w], none) := by
  rw [State.addStep, if_neg (by simp), State.stepWords]
  cases s.signals.build terms <;> rfl

/-- Steps that are lists of terms give one word each. -/
theorem splitWords_statement (s : State) (fillAllowed : Bool) (steps : Steps) :
    s.splitWords fillAllowed steps.statement =
      ofEngine (steps.words s.signals) >>= fun ws => pure (ws, none) := by
  have hfold (l : List Step) (before : List Word) :
      (l.map fun step => Source.Step.terms step.strings).foldlM (s.addStep fillAllowed)
          (before, none) =
        ofEngine (l.mapM fun step => s.signals.build step.strings) >>=
          fun ws => pure (before ++ ws, none) := by
    induction l generalizing before with
    | nil => simp [ofEngine, Except.mapError, pure, Except.pure, bind, Except.bind]
    | cons step rest ih =>
      rw [List.map_cons, List.foldlM_cons, addStep_terms, List.mapM_cons]
      cases s.signals.build step.strings with
      | error e => rfl
      | ok w =>
        show List.foldlM _ (before ++ [w], none) _ = _
        rw [ih]
        cases rest.mapM fun step => s.signals.build step.strings with
        | error e => rfl
        | ok ws =>
          show Except.ok (before ++ [w] ++ ws, none) = Except.ok (before ++ w :: ws, none)
          rw [List.append_assoc, List.singleton_append]
  exact hfold steps.val []

theorem words_statement (s : State) (config : TableConfig) (steps : Steps) :
    s.words config steps.statement = ofEngine (steps.words s.signals) := by
  rw [State.words, splitWords_statement]
  cases steps.words s.signals <;> rfl

theorem readLiteral_text (flags : Flags) (l : Literal) :
    flags.readLiteral l.text = flags.literal l.flag.string l.value := by
  have hflag : '=' ∉ l.flag.chars := (l.flag.over []).not_mem '=' (by decide)
  have hcut : Text.cut '=' l.text = some (l.flag.chars, [if l.value then '1' else '0']) :=
    Text.cut_append '=' _ _ hflag
  rw [Flags.readLiteral, hcut]
  dsimp only
  rw [l.flag.token.snug.trim]
  cases l.value <;> rfl

theorem condition_text (s : State) (c : Condition) :
    s.condition (String.ofList c.text) = ofEngine (c.resolve s.draft.flags) := by
  have hcomma : ∀ p ∈ c.val.map Literal.text, ',' ∉ p := by
    intro p hp
    obtain ⟨l, -, rfl⟩ := List.mem_map.mp hp
    exact l.over.not_mem ',' (by decide)
  have hpieces := Text.map_trim_splitOn ',' (by decide) [] [' '] Text.blanks_nil Text.blanks_space _
    (by simpa using c.property) hcomma [] [] Text.blanks_nil Text.blanks_nil
  have htrim : (c.val.map Literal.text).map Text.trim = c.val.map Literal.text := by
    rw [List.map_map]
    apply List.map_congr_left
    intro l _
    exact l.token.snug.trim
  have hlist : (Text.splitOn ',' c.text).map Text.trim = c.val.map Literal.text := by
    rw [List.nil_append, List.append_nil, htrim] at hpieces
    exact hpieces
  have hread : (Text.splitOn ',' c.text).mapM
      (fun term => s.draft.flags.readLiteral (Text.trim term)) =
      c.val.mapM fun l => s.draft.flags.literal l.flag.string l.value := by
    rw [← mapM_map_congr (g := s.draft.flags.readLiteral) (Text.splitOn ',' c.text)
      (fun _ _ => rfl), hlist, mapM_map_congr c.val fun l _ => readLiteral_text _ l]
  rw [State.condition, Flags.readCondition, String.toList_ofList, hread]
  rfl

theorem declare_statement (d : Declaration) (signals : Signals) :
    State.declare signals d.statement = d.apply signals := by
  have hpos := d.size_pos
  have hlow := d.size_of_activeLow
  dsimp only [State.declare, Declaration.apply, Declaration.statement]
  cases d.bit with
  | none => rfl
  | some bit =>
    apply congrArg (Except.map Prod.snd)
    show (if 1 < d.size then _ else _) =
      if d.activeLow = true then _ else if d.size = 1 then _ else _
    by_cases hone : d.size = 1
    · rw [if_neg (by omega), if_pos hone]
    · have hnot : ¬ d.activeLow = true := fun h => hone (hlow h)
      rw [if_pos (by omega), if_neg hnot, if_neg hone]

/-- The statements lead from one state to another. -/
def Leads (s : State) (statements : List (Nat × Statement)) (s' : State) : Prop :=
  ∀ log rest, ∃ log', State.run log s (statements ++ rest) = State.run log' s' rest

/-- The statements end in an error. -/
def Fails (s : State) (statements : List (Nat × Statement)) (e : SourceError) : Prop :=
  ∀ log rest, ∃ log', State.run log s (statements ++ rest) = (log', .error e)

theorem Leads.refl (s : State) : Leads s [] s := fun log _ => ⟨log, rfl⟩

theorem Leads.of_exec {s s' : State} {statement : Statement} (line : Nat) (events : List Event)
    (h : s.exec statement = .ok (s', events)) : Leads s [(line, statement)] s' := by
  intro log rest
  refine ⟨log ++ events, ?_⟩
  rw [List.singleton_append, State.run, h]

theorem Fails.of_exec {s : State} {statement : Statement} {fault : Fault} (line : Nat)
    (h : s.exec statement = .error fault) : Fails s [(line, statement)] { line, fault } := by
  intro log rest
  refine ⟨log, ?_⟩
  rw [List.singleton_append, State.run, h]

theorem Leads.append {s s' s'' : State} {a b : List (Nat × Statement)} (h : Leads s a s')
    (h' : Leads s' b s'') : Leads s (a ++ b) s'' := by
  intro log rest
  obtain ⟨log', hrun⟩ := h log (b ++ rest)
  obtain ⟨log'', hrun'⟩ := h' log' rest
  exact ⟨log'', by rw [List.append_assoc, hrun, hrun']⟩

theorem Leads.fails {s s' : State} {a b : List (Nat × Statement)} {e : SourceError}
    (h : Leads s a s') (h' : Fails s' b e) : Fails s (a ++ b) e := by
  intro log rest
  obtain ⟨log', hrun⟩ := h log (b ++ rest)
  obtain ⟨log'', hrun'⟩ := h' log' rest
  exact ⟨log'', by rw [List.append_assoc, hrun, hrun']⟩

theorem Fails.append {s : State} {a : List (Nat × Statement)} {e : SourceError} (h : Fails s a e)
    (b : List (Nat × Statement)) : Fails s (a ++ b) e := by
  intro log rest
  rw [List.append_assoc]
  exact h log (b ++ rest)

/-- The target while its settings are made. -/
def draftOf (layout : Layout) (flags : Flags) (config : TableConfig) : Draft :=
  { flags
    fallback := config.fallback
    redefine := config.redefine
    stage := .settings (some layout) }

/-- The state of a compilation holds what the operations have made so far. The table may not be
there yet, but it would be the same. -/
structure Tracks (p : Program) (s : State) (e : Engine) : Prop where
  signals : s.signals = e.signals
  targets : s.targets = []
  draft : ∃ stage, s.draft = { draftOf p.layout p.flags p.config with stage }
  sealed : ∃ events, s.draft.sealed = .ok (p.layout, e.table, events)

/-- The statements of a line do what the operations do, or fail with the same error. -/
def Follows (p : Program) (s : State) (statements : List Statement) (line : Nat) :
    Except Error Engine → Prop
  | .ok e => ∃ s', Leads s (statements.map fun st => (line, st)) s' ∧ Tracks p s' e
  | .error err => Fails s (statements.map fun st => (line, st)) { line, fault := .engine err }

section step

variable {p : Program} {s : State} {e : Engine}

theorem Tracks.flags (h : Tracks p s e) : s.draft.flags = p.flags := by
  obtain ⟨stage, hdraft⟩ := h.draft
  rw [hdraft]
  rfl

theorem Tracks.with_signals (h : Tracks p s e) (signals : Signals) :
    Tracks p { s with signals } { e with signals } :=
  ⟨rfl, h.targets, h.draft, h.sealed⟩

theorem Tracks.with_table (h : Tracks p s e) (table : Table) :
    Tracks p { s with draft := { s.draft with stage := .sealed p.layout table } }
      { e with table } := by
  obtain ⟨stage, hdraft⟩ := h.draft
  refine ⟨h.signals, h.targets, ⟨.sealed p.layout table, ?_⟩, ⟨[], rfl⟩⟩
  rw [hdraft]

theorem Tracks.seal (h : Tracks p s e) (line : Nat) :
    ∃ s', Leads s [(line, .seal)] s' ∧ Tracks p s' e := by
  obtain ⟨events, hsealed⟩ := h.sealed
  refine ⟨_, Leads.of_exec line events ?_, h.with_table e.table⟩
  rw [State.exec, hsealed]
  rfl

theorem command_statement (h : Tracks p s e) (config : TableConfig) (c : TableClause) :
    s.command config c.statement = ofEngine (c.command p.flags e.signals) := by
  have hwords (steps : Steps) :
      s.words config steps.statement = ofEngine (steps.words e.signals) := by
    rw [words_statement, h.signals]
  have hcondition (c : Condition) :
      s.condition (String.ofList c.text) = ofEngine (c.resolve p.flags) := by
    rw [condition_text, h.flags]
  cases c with
  | template c steps =>
    cases c with
    | none =>
      simp only [TableClause.statement, TableClause.command, Option.map_none, State.command, hwords,
        ofEngine_bind]
      rfl
    | some c =>
      simp only [TableClause.statement, TableClause.command, Option.map_some, State.command, hwords,
        hcondition, ofEngine_bind]
      rfl
  | reserve c steps =>
    simp only [TableClause.statement, TableClause.command, State.command, hwords, hcondition,
      ofEngine_bind]
    rfl
  | seek mark opcode => rfl
  | define steps =>
    simp only [TableClause.statement, TableClause.command, State.command, hwords, ofEngine_bind]
    rfl
  | defineWhen c steps fallback =>
    cases fallback with
    | none =>
      simp only [TableClause.statement, TableClause.command, Option.map_none, State.command, hwords,
        hcondition, ofEngine_bind]
      rfl
    | some fallback =>
      simp only [TableClause.statement, TableClause.command, Option.map_some, State.command, hwords,
        hcondition, ofEngine_bind]
      rfl

theorem exec_table (h : Tracks p s e) (c : TableClause) :
    ∃ events : TableCommand → List Event, s.exec (.table c.statement) = (do
      let command ← ofEngine (c.command p.flags e.signals)
      let after ← ofEngine (e.table.run command)
      return ({ s with draft := { s.draft with stage := .sealed p.layout after } },
        events command)) := by
  obtain ⟨events, hsealed⟩ := h.sealed
  refine ⟨fun command => events ++ e.table.events command, ?_⟩
  rw [State.exec, hsealed, ← command_statement h e.table.config c]
  rfl

/-- A statement that is one operation of the engine. -/
theorem Follows.of_exec {α : Type} {x : Except Error α} {statement : Statement} {after : α → State}
    {events : α → List Event} {engine : α → Engine} (line : Nat)
    (hexec : s.exec statement = ofEngine x >>= fun a => pure (after a, events a))
    (h : ∀ a, Tracks p (after a) (engine a)) :
    Follows p s [statement] line (x >>= fun a => pure (engine a)) := by
  cases x with
  | error err => exact Fails.of_exec line hexec
  | ok a => exact ⟨after a, Leads.of_exec line _ hexec, h a⟩

theorem Leads.follows {s' : State} {statement : Statement} {statements : List Statement}
    {line : Nat} {result : Except Error Engine} (h : Leads s [(line, statement)] s')
    (h' : Follows p s' statements line result) :
    Follows p s (statement :: statements) line result := by
  cases result with
  | error err => exact h.fails h'
  | ok e =>
    obtain ⟨s'', hleads, htracks⟩ := h'
    exact ⟨s'', h.append hleads, htracks⟩

/-- A statement does what its operations do. -/
theorem clause_follows (h : Tracks p s e) (line : Nat) (c : Clause) :
    Follows p s c.statements line (c.apply p.flags e) := by
  cases c with
  | declare d =>
    have hexec : s.exec (.declare d.statement) = ofEngine (d.apply e.signals) >>=
        fun signals => pure ({ s with signals }, s.signals.events signals) := by
      rw [State.exec, declare_statement, h.signals]
    exact Follows.of_exec line hexec h.with_signals
  | compose name terms =>
    have hexec : s.exec (.compose name.string (terms.map Term.string)) =
        ofEngine (e.signals.compose name.string (terms.map Term.string)) >>=
          fun p => pure ({ s with signals := p.2 }, []) := by
      rw [State.exec, h.signals]
    exact Follows.of_exec line hexec fun p => h.with_signals p.2
  | table c =>
    obtain ⟨s', hseal, h'⟩ := h.seal line
    refine hseal.follows ?_
    obtain ⟨events, hexec⟩ := exec_table h' c
    rw [Clause.apply]
    cases hc : c.command p.flags e.signals with
    | error err =>
      rw [hc] at hexec
      exact Fails.of_exec line hexec
    | ok command =>
      rw [hc] at hexec
      exact Follows.of_exec line hexec h'.with_table

end step

/-- The statements of lines, numbered from some line on. -/
def readFrom (first : Nat) (lines : List (List Char)) : List (Nat × Statement) :=
  ((lines.map InputLine.text).zipIdx first).flatMap fun (line, number) =>
    (readInputLine number line).map fun s => (number, s)

theorem readFrom_cons (first : Nat) (line : List Char) (rest : List (List Char))
    (hmark : '\ufeff' ∉ line) :
    readFrom first (line :: rest) =
      (readLine line).map (fun s => (first, s)) ++ readFrom (first + 1) rest := by
  have hread : readInputLine first (.text line) = readLine line := by
    have hdrop : line.dropWhile isByteOrderMark = line := by
      cases line with
      | nil => rfl
      | cons c r =>
        have hc : ¬ isByteOrderMark c = true := by
          intro h
          rw [isByteOrderMark, beq_iff_eq] at h
          exact hmark (h ▸ List.mem_cons_self)
        rw [List.dropWhile_cons_of_neg hc]
    rw [readInputLine, hdrop, ite_self]
  rw [← hread]
  rfl

theorem readFrom_append (first : Nat) (a b : List (List Char)) :
    readFrom first (a ++ b) = readFrom first a ++ readFrom (first + a.length) b := by
  rw [readFrom, List.map_append, List.zipIdx_append, List.flatMap_append, List.length_map]
  rfl

/-- Statements one after another, each from what it does by itself. -/
theorem perform_follows {p : Program} {s : State} {e : Engine} (h : Tracks p s e)
    (line done : Nat) (clauses : List Clause) :
    match e.perform p.flags done clauses with
    | .ok e' => ∃ s', Leads s (readFrom (line + done) (clauses.map Clause.text)) s' ∧ Tracks p s' e'
    | .error (i, err) =>
      Fails s (readFrom (line + done) (clauses.map Clause.text))
        { line := line + i, fault := .engine err } := by
  -- Each statement makes a new state that tracks a new engine, one line further down.
  induction clauses generalizing s e done with
  | nil => exact ⟨s, Leads.refl s, h⟩
  | cons c rest ih =>
    have hmark : '\ufeff' ∉ c.text := c.over.not_mem _ (by decide)
    have hstep := clause_follows h (line + done) c
    rw [List.map_cons, readFrom_cons _ _ _ hmark, readLine_text, Engine.perform]
    cases hc : c.apply p.flags e with
    | error err =>
      rw [hc] at hstep
      exact hstep.append _
    | ok e' =>
      rw [hc] at hstep
      obtain ⟨s', hleads, h'⟩ := hstep
      have hrest := ih h' (done + 1)
      rw [← Nat.add_assoc] at hrest
      show (match e'.perform p.flags (done + 1) rest with
        | .ok e' => _
        | .error (i, err) => _)
      cases hp : e'.perform p.flags (done + 1) rest with
      | error failure =>
        rw [hp] at hrest
        exact hleads.fails hrest
      | ok e'' =>
        rw [hp] at hrest
        obtain ⟨s'', hleads', h''⟩ := hrest
        exact ⟨s'', hleads.append hleads', h''⟩

theorem foldl_apply (policies : List Policy) (config : TableConfig) :
    policies.foldl Policy.apply config =
      { config with
        fallback := (policies.foldl Policy.apply config).fallback
        redefine := (policies.foldl Policy.apply config).redefine } := by
  induction policies generalizing config with
  | nil => rfl
  | cons q rest ih =>
    rw [List.foldl_cons, ih]
    cases q <;> rfl

/-- A bit that could be named lies in the flag field. -/
theorem nameFlags_bits {flags flags' : Flags} {names : List (Name × Nat)}
    (h : nameFlags flags names = .ok flags') : ∀ q ∈ names, q.2 < flags.bits := by
  induction names generalizing flags with
  | nil =>
    intro q hq
    cases hq
  | cons q rest ih =>
    rw [nameFlags, List.foldlM_cons] at h
    obtain ⟨next, hdefine, hrest⟩ := bind_eq_ok.mp h
    obtain ⟨hbits, hlt⟩ := define_bits hdefine
    intro r hr
    rcases List.mem_cons.mp hr with rfl | hr
    · exact hlt
    · exact hbits ▸ ih hrest r hr

theorem defineFlags_names (flags : Flags) (names : List (Name × Nat)) :
    Draft.defineFlags flags (names.map fun q => .ok (q.1.string, q.2)) =
      ofEngine (nameFlags flags names) := by
  induction names generalizing flags with
  | nil => rfl
  | cons q rest ih =>
    rw [nameFlags, List.foldlM_cons, ofEngine_bind]
    show (ofEngine (flags.define q.1.string q.2) >>= fun flags =>
      Draft.defineFlags flags (rest.map fun q => .ok (q.1.string, q.2))) = _
    cases flags.define q.1.string q.2 with
    | error err => rfl
    | ok next => exact ih next

/-- A line with a setting changes the draft, while the settings are open. -/
theorem setting_leads {s : State} {layout : Option Layout} {key : String} {setting : Setting}
    {draft : Draft} {text : List Char} (line : Nat) (hmark : '\ufeff' ∉ text)
    (hread : readLine text = [.setting key (.ok setting)])
    (hstage : s.draft.stage = .settings layout)
    (hset : s.draft.set layout s.signals setting = .ok draft) :
    Leads s (readFrom line [text]) { s with draft } := by
  rw [readFrom_cons line text [] hmark, hread]
  refine Leads.of_exec line [] ?_
  rw [State.exec, hstage]
  show (s.draft.set layout s.signals setting >>= _) = _
  rw [hset]
  rfl

theorem policies_lead (layout : Layout) (flags : Flags) (config : TableConfig) (line : Nat)
    (policies : List Policy) :
    Leads { draft := draftOf layout flags config }
      (readFrom line (policies.map fun q => settingText q.key q.value.toList))
      { draft := draftOf layout flags (policies.foldl Policy.apply config) } := by
  induction policies generalizing config line with
  | nil => exact Leads.refl _
  | cons q rest ih =>
    have hmark := q.line_over.not_mem '\ufeff' (by decide)
    have hset : (draftOf layout flags config).set (some layout) {} q.setting =
        .ok (draftOf layout flags (q.apply config)) := by
      cases q <;> rfl
    have hfirst : Leads { draft := draftOf layout flags config }
        (readFrom line [settingText q.key q.value.toList])
        { draft := draftOf layout flags (q.apply config) } :=
      setting_leads line hmark (readLine_policy q) rfl hset
    rw [List.map_cons, ← List.singleton_append, readFrom_append]
    exact hfirst.append (ih (q.apply config) (line + 1))

theorem flags_lead (p : Program) (config : TableConfig) (line : Nat) :
    Leads { draft := draftOf p.layout { bits := p.layout.width .flags } config }
      (readFrom line (if p.names.isEmpty then [] else [settingText "flags" (flagsText p.names)]))
      { draft := draftOf p.layout p.flags config } := by
  have hnamed := p.named
  by_cases hempty : p.names = []
  · rw [hempty] at hnamed ⊢
    have hflags : { bits := p.layout.width .flags } = p.flags := Except.ok.inj hnamed
    rw [hflags]
    exact Leads.refl _
  · have hnot : ¬ p.names.isEmpty = true := by rwa [List.isEmpty_iff]
    have hbits : ∀ q ∈ p.names, q.2 < Text.limit32 := by
      intro q hq
      calc q.2 < p.layout.width .flags := nameFlags_bits hnamed q hq
        _ ≤ Layout.maxBits := p.layout.width_le_maxBits .flags
        _ < Text.limit32 := by decide
    have hmark := (flagsLine_over p.names).not_mem '\ufeff' (by decide)
    rw [if_neg hnot]
    refine setting_leads line hmark (readLine_flags p.names hempty hbits) rfl ?_
    show (Draft.defineFlags { bits := p.layout.width .flags } _ >>= _) = _
    rw [defineFlags_names, hnamed]
    rfl

theorem layout_leads (l : Layout) (config : TableConfig) (hfallback : config.fallback = .preserve)
    (hredefine : config.redefine = .replace) :
    Leads {} (readFrom 1 [settingText "layout" (layoutText l)])
      { draft := draftOf l { bits := l.width .flags } config } := by
  have hmark := (layoutLine_over l).not_mem '\ufeff' (by decide)
  refine setting_leads 1 hmark (readLine_layout l) rfl ?_
  rw [draftOf, hfallback, hredefine]
  rfl

theorem sealed_draftOf (l : Layout) (flags : Flags) (config : TableConfig) (t : Table)
    (hconfig : config = { steps := l.count .step
                          fallback := config.fallback
                          redefine := config.redefine })
    (hnew : Table.new (l.count .flags) (l.count .opcode) config = .ok t) :
    ∃ events, (draftOf l flags config).sealed = .ok (l, t, events) := by
  have hsealed : (draftOf l flags config).sealed =
      ofEngine (Table.new (l.count .flags) (l.count .opcode)
        { steps := l.count .step, fallback := config.fallback, redefine := config.redefine }) >>=
      fun t => pure (l, t, [.targetStarted "microcode" l.totalBits (l.count .flags)
        (l.count .opcode) (l.count .step)]) := rfl
  rw [hsealed, ← hconfig, hnew]
  exact ⟨_, rfl⟩

/-- The settings open a target that holds the start of the operations. -/
theorem header_leads (p : Program) :
    ∃ s e, p.start = .ok e ∧ Leads {} (readFrom 1 p.header) s ∧ Tracks p s e := by
  have hconfig := foldl_apply p.policies { steps := p.layout.count .step }
  have hsteps : 0 < p.config.steps := by
    rw [Program.config, hconfig]
    exact p.layout.count_pos .step
  obtain ⟨t, hnew, -⟩ :=
    Table.exists_new (p.layout.count .flags) (p.layout.count .opcode) p.config hsteps
  refine ⟨{ draft := draftOf p.layout p.flags p.config }, { signals := {}, table := t }, ?_, ?_, ?_⟩
  · rw [Program.start, hnew]
    rfl
  · have hlayout := layout_leads p.layout { steps := p.layout.count .step } rfl rfl
    have hflags := flags_lead p { steps := p.layout.count .step } 2
    have hpolicies := policies_lead p.layout p.flags { steps := p.layout.count .step }
      (2 + (if p.names.isEmpty then [] else [settingText "flags" (flagsText p.names)]).length)
      p.policies
    rw [Program.header, ← List.singleton_append, readFrom_append, readFrom_append]
    exact hlayout.append (hflags.append hpolicies)
  · exact ⟨rfl, rfl, ⟨_, rfl⟩, sealed_draftOf p.layout p.flags p.config t hconfig hnew⟩

theorem ofText_text (p : Program) : InputLine.ofText p.text = p.lines.map .text := by
  have hlines : ∀ line ∈ p.lines, '\n' ∉ line := by
    intro line hline
    rcases List.mem_append.mp hline with hline | hline
    · exact (p.header_over line hline).not_mem _ (by decide)
    · obtain ⟨c, -, rfl⟩ := List.mem_map.mp hline
      exact c.over.not_mem _ (by decide)
  rw [InputLine.ofText, Program.text, String.toList_ofList,
    Text.lines_flatten '\n' (by decide) p.lines
      fun line hline => Text.eq_char_eq_false (hlines line hline)]

theorem Tracks.close {p : Program} {s : State} {e : Engine} (h : Tracks p s e) :
    ∃ events, s.draft.close s.signals = .ok (p.target e, events) := by
  obtain ⟨stage, hdraft⟩ := h.draft
  obtain ⟨events, hsealed⟩ := h.sealed
  rw [Draft.close, hsealed, h.signals, hdraft]
  exact ⟨_, rfl⟩

/-- A definition file compiles if and only if the operations it names meet no error. Its one target
then holds the signals and the table they make; else the error is theirs, on the line of the
statement that meets it. -/
theorem compile_iff_operations (p : Program) :
    ∃ e, p.start = .ok e ∧
      ((∃ targets, (compileText p.text).result = .ok targets) ↔
        ∃ e', e.perform p.flags 0 p.clauses = .ok e') ∧
      (∀ e', e.perform p.flags 0 p.clauses = .ok e' →
        (compileText p.text).result = .ok [p.target e']) ∧
      ∀ i err, e.perform p.flags 0 p.clauses = .error (i, err) →
        (compileText p.text).result =
          .error { line := p.header.length + i + 1, fault := .engine err } := by
  obtain ⟨s, e, hstart, hheader, htracks⟩ := header_leads p
  have hclauses := perform_follows htracks (1 + p.header.length) 0 p.clauses
  have hread : readLines (p.lines.map .text) =
      readFrom 1 p.header ++ readFrom (1 + p.header.length) (p.clauses.map Clause.text) :=
    readFrom_append 1 p.header (p.clauses.map Clause.text)
  have hok : ∀ e', e.perform p.flags 0 p.clauses = .ok e' →
      (compileText p.text).result = .ok [p.target e'] := by
    intro e' he
    rw [he] at hclauses
    obtain ⟨s', hleads, htracks'⟩ := hclauses
    obtain ⟨log, hrun⟩ := (hheader.append hleads) #[] []
    obtain ⟨events, hclose⟩ := htracks'.close
    rw [List.append_nil, Nat.add_zero, ← hread, State.run] at hrun
    rw [compileText, ofText_text, compile, hrun]
    dsimp only
    rw [hclose, htracks'.targets]
    rfl
  have herror : ∀ i err, e.perform p.flags 0 p.clauses = .error (i, err) →
      (compileText p.text).result =
        .error { line := p.header.length + i + 1, fault := .engine err } := by
    intro i err he
    rw [he] at hclauses
    obtain ⟨log, hrun⟩ := (hheader.fails hclauses) #[] []
    rw [List.append_nil, Nat.add_zero, ← hread] at hrun
    have hline : 1 + p.header.length + i = p.header.length + i + 1 := by omega
    rw [compileText, ofText_text, compile, hrun, hline]
  refine ⟨e, hstart, ?_, hok, herror⟩
  constructor
  · rintro ⟨targets, hresult⟩
    cases he : e.perform p.flags 0 p.clauses with
    | ok e' => exact ⟨e', rfl⟩
    | error failure =>
      rw [herror failure.1 failure.2 he] at hresult
      cases hresult
  · rintro ⟨e', he⟩
    exact ⟨_, hok e' he⟩

end ControlStore.Written
