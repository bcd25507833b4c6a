import ControlStore.Proofs.Statements

/-! The layout and the table of a target, kept apart. Where both are optional, whatever needs one of
them has to provide for its absence. No file gets there: the line that asks for the table has made
it before, and only a layout makes one. -/

namespace ControlStore.Source

/-- How a compilation ends too early where the layout and the table are optional. -/
inductive Exit
  | fault (f : Fault)
  | noTable
  | noStepCount
  | unsealed (target : String)

def Exit.message : Exit → String
  | fault f => f.message
  | noTable => "Target has no instruction table"
  | noStepCount => "'..' needs the step count of a target"
  | unsealed target => (Fault.noLayout target).message

/-- A result that may fail with a fault, among those that may fail with more. -/
def ofFault {α : Type} (r : Except Fault α) : Except Exit α := r.mapError Exit.fault

/-- A state with a layout and a table of its own. The stage of the draft is left as it is. -/
structure Loose where
  state : State := {}
  layout : Option Layout := none
  table : Option Table := none

namespace Loose

/-- Makes the table of the target, unless it has one. -/
def sealed (x : Loose) : Except Exit (Loose × List Event) :=
  match x.table with
  | some _ => .ok (x, [])
  | none => do
    let (_, table, events) ← ofFault { x.state.draft with stage := .settings x.layout }.sealed
    return ({ x with table := some table }, events)

/-- The words of steps. A fill asks the table how many steps there are. -/
def words (x : Loose) (fillAllowed : Bool) (steps : List Step) : Except Exit (List Word) := do
  match ← ofFault (x.state.splitWords fillAllowed steps) with
  | (before, none) => return before
  | (before, some after) =>
    match x.table with
    | none => throw .noStepCount
    | some table =>
      let gap := table.config.steps - (before.length + after.length)
      return before ++ List.replicate gap table.config.pad ++ after

def condition (x : Loose) (text : String) : Except Exit Condition :=
  ofFault (x.state.condition text)

def command (x : Loose) : TableStatement → Except Exit TableCommand
  | .template none steps => do
    return .template none (← x.words true steps)
  | .template (some text) steps => do
    let c ← x.condition text
    return .template (some c) (← x.words true steps)
  | .reserve text steps => do
    let c ← x.condition text
    return .reserve c (← x.words true steps)
  | .seek opcode => return .seek opcode
  | .define steps => do
    return .defineNext (← x.words true steps)
  | .defineWhen text steps none => do
    let c ← x.condition text
    return .defineNextWhen c (← x.words true steps) none
  | .defineWhen text steps (some fallback) => do
    let c ← x.condition text
    let w ← x.words true steps
    return .defineNextWhen c w (some (← x.words true fallback))

/-- Runs a command on the table of the target once it is made. -/
def withTable (x : Loose) (command : TableCommand) : Except Exit (Loose × List Event) := do
  let (x, events) ← x.sealed
  match x.table with
  | none => throw .noTable
  | some table =>
    let after ← ofFault (ofEngine (table.run command))
    return ({ x with table := some after }, events ++ table.events command)

def set (x : Loose) : Setting → Except Exit Loose
  | .layout l =>
    let draft := { x.state.draft with flags := { bits := l.width .flags } }
    .ok { x with state := { x.state with draft }, layout := some l }
  | setting => do
    let draft ← ofFault (x.state.draft.set x.layout x.state.signals setting)
    return { x with state := { x.state with draft } }

/-- The finished target, for which the table is made at the latest. -/
def close (x : Loose) : Except Exit (Target × List Event) := do
  let (x, events) ← x.sealed
  match x.layout, x.table with
  | some layout, some table =>
    let draft := { x.state.draft with stage := .sealed layout table }
    let (target, completed) ← ofFault (draft.close x.state.signals)
    return (target, events ++ completed)
  | _, _ => throw (.unsealed x.state.draft.name)

def exec (x : Loose) : Statement → Except Exit (Loose × List Event)
  | .abbreviate name steps => do
    if (x.state.sequences.lookup name).isSome then throw (.fault (.repeatedSequence name))
    let words ← x.words false steps
    let sequences := x.state.sequences ++ [(name, words)]
    return ({ x with state := { x.state with sequences } }, [])
  | .startTarget name =>
    if x.state.draft.named || x.table.isSome then do
      let (target, events) ← x.close
      let targets := x.state.targets ++ [target]
      return ({ state := { x.state with draft := { name, named := true }, targets } }, events)
    else
      let draft := { x.state.draft with name, named := true }
      .ok ({ x with state := { x.state with draft } }, [])
  | .setting key value =>
    if x.table.isSome then throw (.fault (.lateSetting key x.state.draft.name))
    else do
      let x ← x.set (← ofFault value)
      return (x, [])
  | .seal => x.sealed
  | .table statement => do
    let command ← x.command statement
    x.withTable command
  | statement => do
    let (state, events) ← ofFault (x.state.exec statement)
    return ({ x with state }, events)

def run (log : Array Event) (x : Loose) :
    List (Nat × Statement) → Array Event × Except (Nat × Exit) Loose
  | [] => (log, .ok x)
  | (line, statement) :: rest =>
    match x.exec statement with
    | .error exit => (log, .error (line, exit))
    | .ok (x, events) => run (log ++ events) x rest

/-- What a compilation reports, and its targets or the line and the exit that ended it. -/
def compile (lines : List InputLine) : List Event × Except (Nat × Exit) (List Target) :=
  match run #[] {} (readLines lines) with
  | (log, .error e) => (log.toList, .error e)
  | (log, .ok x) =>
    match x.close with
    | .error exit => (log.toList, .error (lines.length, exit))
    | .ok (target, events) => (log.toList ++ events, .ok (x.state.targets ++ [target]))

end Loose

/-- The layout of a target, once there is one. -/
def Stage.layout? : Stage → Option Layout
  | .settings layout => layout
  | .sealed layout _ => some layout

def State.loose (s : State) : Loose where
  state := { s with draft := { s.draft with stage := .settings none } }
  layout := s.draft.stage.layout?
  table := s.draft.stage.table?

theorem ofFault_bind {α β : Type} (x : Except Fault α) (f : α → Except Fault β) :
    ofFault (x >>= f) = ofFault x >>= fun a => ofFault (f a) := by
  cases x <;> rfl

section loose

variable {s : State} {layout : Layout} {table : Table}

theorem table_loose (h : s.draft.stage = .sealed layout table) : s.loose.table = some table := by
  rw [State.loose, h]
  rfl

theorem open_loose {layout : Option Layout} (h : s.draft.stage = .settings layout) :
    s.loose.layout = layout ∧ s.loose.table = none := by
  rw [State.loose, h]
  exact ⟨rfl, rfl⟩

theorem layout_of_sealed {d : Draft} {events : List Event}
    (h : d.sealed = .ok (layout, table, events)) : d.stage.layout? = some layout := by
  unfold Draft.sealed at h
  split at h
  · rename_i hstage
    cases h
    rw [hstage]
    rfl
  · cases h
  · rename_i hstage
    obtain ⟨t, -, heq⟩ := bind_eq_ok.mp h
    cases heq
    rw [hstage]
    rfl

/-- The table is the one that the draft makes, and the layout stays the one it has. -/
theorem sealed_loose (s : State) :
    s.loose.sealed = ofFault (s.draft.sealed.map fun (layout, table, events) =>
      ({ s with draft := { s.draft with stage := .sealed layout table } }.loose, events)) := by
  cases hstage : s.draft.stage with
  | «sealed» layout table =>
    rw [sealed_of_stage hstage, Loose.sealed, State.loose, hstage]
    rfl
  | settings layout =>
    have hdraft : { s.loose.state.draft with stage := .settings s.loose.layout } = s.draft := by
      show { s.draft with stage := .settings s.draft.stage.layout? } = s.draft
      rw [hstage, Stage.layout?, ← hstage]
    rw [Loose.sealed, (open_loose hstage).2]
    simp only [hdraft]
    cases hsealed : s.draft.sealed with
    | error f => rfl
    | ok p =>
      obtain ⟨l, t, events⟩ := p
      have hlayout := layout_of_sealed hsealed
      show Except.ok ({ s.loose with table := some t }, events) = _
      rw [State.loose, hlayout]
      rfl

theorem splitWords_loose (s : State) (fillAllowed : Bool) (steps : List Step) :
    s.loose.state.splitWords fillAllowed steps = s.splitWords fillAllowed steps := rfl

theorem condition_loose (s : State) (text : String) :
    s.loose.condition text = ofFault (s.condition text) := rfl

theorem words_loose (h : s.draft.stage = .sealed layout table) (steps : List Step) :
    s.loose.words true steps = ofFault (s.words table.config steps) := by
  rw [Loose.words, State.words, splitWords_loose, ofFault_bind]
  apply congrArg (ofFault (s.splitWords true steps) >>= ·)
  funext p
  obtain ⟨before, after⟩ := p
  cases after with
  | none => rfl
  | some after =>
    simp only [table_loose h]
    rfl

/-- In a sealed state, a fill finds the number of the steps. -/
theorem command_loose (h : s.draft.stage = .sealed layout table) (statement : TableStatement) :
    s.loose.command statement = ofFault (s.command table.config statement) := by
  have hwords := words_loose h
  cases statement with
  | template condition steps =>
    cases condition with
    | none =>
      simp only [Loose.command, State.command, hwords, ofFault_bind]
      rfl
    | some text =>
      simp only [Loose.command, State.command, hwords, condition_loose, ofFault_bind]
      rfl
  | reserve text steps =>
    simp only [Loose.command, State.command, hwords, condition_loose, ofFault_bind]
    rfl
  | seek opcode => rfl
  | define steps =>
    simp only [Loose.command, State.command, hwords, ofFault_bind]
    rfl
  | defineWhen text steps fallback =>
    cases fallback with
    | none =>
      simp only [Loose.command, State.command, hwords, condition_loose, ofFault_bind]
      rfl
    | some other =>
      simp only [Loose.command, State.command, hwords, condition_loose, ofFault_bind]
      rfl

/-- Without fills there is nothing after one. -/
theorem splitWords_false {s : State} {steps : List Step} {acc : List Word × Option (List Word)}
    (h : s.splitWords false steps = .ok acc) : acc.2 = none := by
  have hstep : ∀ acc step acc', acc.2 = none → s.addStep false acc step = .ok acc' →
      acc'.2 = none := by
    intro acc step acc' hnone hadd
    unfold State.addStep at hadd
    split at hadd
    · cases hadd
    · obtain ⟨words, -, hrest⟩ := bind_eq_ok.mp hadd
      rw [hnone] at hrest
      cases hrest
      rfl
  exact foldlM_invariant (fun acc => acc.2 = none) hstep steps rfl h

theorem words_false_loose (s : State) (steps : List Step) :
    s.loose.words false steps = ofFault (Prod.fst <$> s.splitWords false steps) := by
  rw [Loose.words, splitWords_loose]
  cases h : s.splitWords false steps with
  | error f => rfl
  | ok acc =>
    obtain ⟨before, after⟩ := acc
    obtain rfl : after = none := splitWords_false h
    rfl

theorem withTable_loose (h : s.draft.stage = .sealed layout table) (command : TableCommand) :
    s.loose.withTable command = ofFault ((ofEngine (table.run command)).map fun after =>
      ({ s with draft := { s.draft with stage := .sealed layout after } }.loose,
        table.events command)) := by
  rw [Loose.withTable, sealed_loose, sealed_of_stage h]
  show (ofFault (ofEngine (table.run command)) >>= _) = _
  cases table.run command <;> rfl

theorem set_loose {layout : Option Layout} (h : s.draft.stage = .settings layout)
    (setting : Setting) :
    s.loose.set setting = ofFault ((s.draft.set layout s.signals setting).map fun draft =>
      { s with draft }.loose) := by
  obtain ⟨hlayout, htable⟩ := open_loose h
  cases setting with
  | layout l =>
    show Except.ok (Loose.mk _ (some l) s.loose.table) = _
    rw [htable]
    rfl
  | flags terms =>
    rw [Loose.set, hlayout]
    · cases layout with
      | none => rfl
      | some l =>
        show ofFault (Draft.defineFlags s.draft.flags terms >>= _) >>= _ =
          ofFault (Except.map _ (Draft.defineFlags s.draft.flags terms >>= _))
        cases Draft.defineFlags s.draft.flags terms with
        | error f => rfl
        | ok flags =>
          rw [← hlayout]
          rfl
    · simp
  | pad terms =>
    show ofFault (ofEngine (s.signals.build terms) >>= _) >>= _ =
      ofFault (Except.map _ (ofEngine (s.signals.build terms) >>= _))
    cases s.signals.build terms <;> rfl
  | _ => rfl

theorem close_loose (s : State) : s.loose.close = ofFault (s.draft.close s.signals) := by
  rw [Loose.close, sealed_loose, Draft.close]
  cases s.draft.sealed with
  | error f => rfl
  | ok p => rfl

/-- What a statement leads to, with the state taken apart. -/
def loosely (r : Except Fault (State × List Event)) : Except Exit (Loose × List Event) :=
  ofFault (r.map fun p => (p.1.loose, p.2))

theorem exec_loose_nameValues (s : State) (field : String) (names : List String) :
    s.loose.exec (.nameValues field names) = loosely (s.exec (.nameValues field names)) := by
  rw [State.exec]
  show ofFault (if (s.signals.line? field).isNone then _ else _) >>= _ = _
  by_cases hfield : (s.signals.line? field).isNone
  · rw [if_pos hfield, if_pos hfield]
    rfl
  · rw [if_neg hfield, if_neg hfield]
    show ofFault (ofEngine (s.signals.nameValues field names) >>= _) >>= _ =
      loosely (ofEngine (s.signals.nameValues field names) >>= _)
    cases s.signals.nameValues field names <;> rfl

theorem exec_loose_abbreviate (s : State) (name : String) (steps : List Step) :
    s.loose.exec (.abbreviate name steps) = loosely (s.exec (.abbreviate name steps)) := by
  rw [Loose.exec, State.exec, words_false_loose]
  show (if (s.sequences.lookup name).isSome then _ else _) = _
  by_cases hold : (s.sequences.lookup name).isSome
  · rw [if_pos hold, if_pos hold]
    rfl
  · rw [if_neg hold, if_neg hold]
    show ofFault (Prod.fst <$> s.splitWords false steps) >>= _ =
      loosely (s.splitWords false steps >>= _)
    cases s.splitWords false steps <;> rfl

theorem exec_loose_startTarget (s : State) (name : String) :
    s.loose.exec (.startTarget name) = loosely (s.exec (.startTarget name)) := by
  have hopened : (s.loose.state.draft.named || s.loose.table.isSome) =
      (s.draft.named || s.draft.stage.isSealed) := by
    show (s.draft.named || s.draft.stage.table?.isSome) = _
    cases s.draft.stage <;> rfl
  rw [Loose.exec, State.exec, hopened, close_loose]
  split
  · cases s.draft.close s.signals <;> rfl
  · rfl

theorem exec_loose_setting (s : State) (key : String) (value : Except Fault Setting) :
    s.loose.exec (.setting key value) = loosely (s.exec (.setting key value)) := by
  rw [Loose.exec, State.exec]
  cases hstage : s.draft.stage with
  | «sealed» layout table =>
    rw [table_loose hstage]
    rfl
  | settings layout =>
    rw [(open_loose hstage).2]
    cases value with
    | error f => rfl
    | ok setting =>
      show s.loose.set setting >>= _ = loosely (s.draft.set layout s.signals setting >>= _)
      rw [set_loose hstage]
      cases s.draft.set layout s.signals setting <;> rfl

theorem exec_loose_other (s : State) {statement : Statement} (h : ∀ t, statement ≠ .table t) :
    s.loose.exec statement = loosely (s.exec statement) := by
  cases statement with
  | table t => exact absurd rfl (h t)
  | fail f => rfl
  | declare d =>
    show ofFault (ofEngine (State.declare s.signals d) >>= _) >>= _ =
      loosely (ofEngine (State.declare s.signals d) >>= _)
    cases State.declare s.signals d <;> rfl
  | compose name terms =>
    show ofFault (ofEngine (s.signals.compose name terms) >>= _) >>= _ =
      loosely (ofEngine (s.signals.compose name terms) >>= _)
    cases s.signals.compose name terms <;> rfl
  | nameValues field names => exact exec_loose_nameValues s field names
  | abbreviate name steps => exact exec_loose_abbreviate s name steps
  | startTarget name => exact exec_loose_startTarget s name
  | setting key value => exact exec_loose_setting s key value
  | «seal» =>
    show s.loose.sealed = _
    rw [sealed_loose, State.exec]
    cases s.draft.sealed <;> rfl

/-- A statement about the table finds it in a sealed state. -/
theorem exec_loose_table (h : s.draft.stage = .sealed layout table) (t : TableStatement) :
    s.loose.exec (.table t) = loosely (s.exec (.table t)) := by
  rw [Loose.exec, command_loose h, State.exec, sealed_of_stage h]
  show _ = loosely (s.command table.config t >>= _)
  cases s.command table.config t with
  | error f => rfl
  | ok c =>
    show s.loose.withTable c = _
    rw [withTable_loose h]
    show _ = loosely (ofEngine (table.run c) >>= _)
    cases table.run c <;> rfl

end loose

/-- What is about the table comes right after a statement that makes it. -/
inductive Guarded : List (Nat × Statement) → Prop
  | nil : Guarded []
  | other {line : Nat} {statement : Statement} {rest : List (Nat × Statement)}
    (hother : ∀ t, statement ≠ .table t) (h : Guarded rest) : Guarded ((line, statement) :: rest)
  | table {line line' : Nat} {t : TableStatement} {rest : List (Nat × Statement)}
    (h : Guarded rest) : Guarded ((line, .seal) :: (line', .table t) :: rest)

theorem Guarded.append {a b : List (Nat × Statement)} (ha : Guarded a) (hb : Guarded b) :
    Guarded (a ++ b) := by
  induction ha with
  | nil => exact hb
  | other hother _ ih => exact .other hother ih
  | table _ ih => exact .table ih

theorem Guarded.of_others {statements : List (Nat × Statement)}
    (h : ∀ x ∈ statements, ∀ t, x.2 ≠ .table t) : Guarded statements := by
  induction statements with
  | nil => exact .nil
  | cons x r ih =>
    obtain ⟨hx, hr⟩ := List.forall_mem_cons.mp h
    exact .other hx (ih hr)

theorem guarded_seal (number : Nat) (statement : Statement) :
    Guarded [(number, .seal), (number, statement)] := by
  cases statement with
  | table t => exact .table .nil
  | _ => exact .other (by simp) (.other (by simp) .nil)

theorem guarded_readAddress (number : Nat) (rest : List Char) :
    Guarded ((readAddress rest).map fun s => (number, s)) := by
  dsimp only [readAddress]
  split
  · exact .other (by simp) .nil
  split
  · exact .other (by simp) .nil
  · exact guarded_seal number _

theorem guarded_readLine (number : Nat) (s : List Char) :
    Guarded ((readLine s).map fun statement => (number, statement)) := by
  by_cases h : ∃ c rest, bare s = c :: rest ∧ c ∈ tableMarks
  · obtain ⟨c, rest, hbare, hc⟩ := h
    simp only [tableMarks, List.mem_cons, List.not_mem_nil, or_false] at hc
    rcases hc with rfl | rfl | rfl | rfl | rfl
    · rw [readLine_template hbare]
      exact guarded_seal number _
    · rw [readLine_reservation hbare]
      exact guarded_seal number _
    · rw [readLine_address hbare]
      exact guarded_readAddress number rest
    · rw [readLine_definition hbare]
      exact guarded_seal number _
    · rw [readLine_conditional hbare]
      exact guarded_seal number _
  · -- No other line has a statement about the table.
    apply Guarded.of_others
    intro x hx t ht
    obtain ⟨statement, hmem, rfl⟩ := List.mem_map.mp hx
    obtain rfl : statement = .table t := ht
    obtain ⟨c, rest, hbare, hc⟩ := mayStart_readLine hmem
    exact h ⟨c, rest, hbare, hc⟩

theorem guarded_statementsFrom (first : Nat) (lines : List InputLine) :
    Guarded (statementsFrom first lines) := by
  induction lines generalizing first with
  | nil => exact .nil
  | cons line rest ih =>
    rw [statementsFrom_cons]
    apply Guarded.append _ (ih (first + 1))
    cases line with
    | text s => exact guarded_readLine first _
    | undecodable => exact .other (by simp) .nil
    | unreadable cause => exact .other (by simp) .nil

/-- A result whose errors are faults on lines. -/
def located {α : Type} (r : Except SourceError α) : Except (Nat × Exit) α :=
  r.mapError fun e => (e.line, .fault e.fault)

theorem run_loose {statements : List (Nat × Statement)} (h : Guarded statements)
    (log : Array Event) (s : State) :
    Loose.run log s.loose statements =
      ((State.run log s statements).1,
        located ((State.run log s statements).2.map State.loose)) := by
  induction h generalizing log s with
  | nil => rfl
  | @other line statement rest hother _ ih =>
    rw [Loose.run, State.run, exec_loose_other s hother]
    cases s.exec statement with
    | error f => rfl
    | ok p => exact ih (log ++ p.2) p.1
  | @table line line' t rest _ ih =>
    rw [Loose.run, State.run, exec_loose_other s (by simp)]
    cases hseal : s.exec .seal with
    | error f => rfl
    | ok p =>
      obtain ⟨⟨layout, table, events⟩, -, heq⟩ := bind_eq_ok.mp hseal
      cases heq
      generalize hs : { s with draft := { s.draft with stage := .sealed layout table } } = s'
      have hstage : s'.draft.stage = .sealed layout table := by rw [← hs]
      show Loose.run (log ++ events) s'.loose ((line', .table t) :: rest) =
        ((State.run (log ++ events) s' ((line', .table t) :: rest)).1,
          located ((State.run (log ++ events) s' ((line', .table t) :: rest)).2.map State.loose))
      rw [Loose.run, State.run, exec_loose_table hstage]
      cases s'.exec (.table t) with
      | error f => rfl
      | ok p => exact ih (log ++ events ++ p.2) p.1

/-- Whether the layout and the table are kept apart or not makes no difference to any file. -/
theorem compile_loose (lines : List InputLine) :
    Loose.compile lines = ((compile lines).log, located (compile lines).result) := by
  have hrun : Loose.run #[] {} (readLines lines) =
      ((State.run #[] {} (readLines lines)).1,
        located ((State.run #[] {} (readLines lines)).2.map State.loose)) :=
    run_loose (guarded_statementsFrom 1 lines) #[] {}
  rw [Loose.compile, compile, hrun]
  generalize State.run #[] {} (readLines lines) = outcome
  obtain ⟨log, result⟩ := outcome
  cases result with
  | error e => rfl
  | ok s =>
    have hclose := close_loose s
    cases hdraft : s.draft.close s.signals with
    | error f =>
      rw [hdraft] at hclose
      simp only [located, Except.map, Except.mapError, hclose, hdraft]
      rfl
    | ok p =>
      rw [hdraft] at hclose
      simp only [located, Except.map, Except.mapError, hclose, hdraft]
      rfl

theorem line_of_mem_statementsFrom {first : Nat} {lines : List InputLine} {x : Nat × Statement}
    (h : x ∈ statementsFrom first lines) : first ≤ x.1 ∧ x.1 < first + lines.length := by
  obtain ⟨⟨line, number⟩, hline, hx⟩ := List.mem_flatMap.mp h
  obtain ⟨statement, -, rfl⟩ := List.mem_map.mp hx
  have hnumber := List.mem_zipIdx hline
  exact ⟨hnumber.1, hnumber.2.1⟩

/-- A run fails at one of its statements. -/
theorem exists_mem_of_run_error {statements : List (Nat × Statement)} {s : State} {e : SourceError}
    (h : statements.foldlM State.advance s = .error e) : ∃ x ∈ statements, x.1 = e.line := by
  induction statements generalizing s with
  | nil => cases h
  | cons x rest ih =>
    rw [List.foldlM_cons] at h
    rcases bind_eq_error.mp h with hx | ⟨s', -, hrest⟩
    · refine ⟨x, List.mem_cons_self, ?_⟩
      unfold State.advance at hx
      split at hx
      · cases hx
        rfl
      · cases hx
    · obtain ⟨y, hy, hline⟩ := ih hrest
      exact ⟨y, List.mem_cons_of_mem x hy, hline⟩

/-- A file gives a target at least, or it fails on one of its lines, if it has any. -/
theorem result_of_lines (lines : List InputLine) :
    (∃ first rest, (compile lines).result = .ok (first :: rest)) ∨
      ∃ e, (compile lines).result = .error e ∧ e.line ≤ lines.length ∧
        (e.line = 0 → lines.length = 0) := by
  rw [compile_result]
  cases hrun : (readLines lines).foldlM State.advance {} with
  | error e =>
    obtain ⟨x, hx, hline⟩ := exists_mem_of_run_error hrun
    have hbounds : 1 ≤ x.1 ∧ x.1 < 1 + lines.length := line_of_mem_statementsFrom hx
    exact .inr ⟨e, rfl, by omega, by omega⟩
  | ok s =>
    have hbind : (Except.ok s >>= fun s => s.finish lines.length) = s.finish lines.length := rfl
    rw [hbind, State.finish]
    cases s.draft.close s.signals with
    | error f => exact .inr ⟨{ line := lines.length, fault := f }, rfl, Nat.le_refl _, fun h => h⟩
    | ok p =>
      have hne : s.targets ++ [p.1] ≠ [] :=
        List.append_ne_nil_of_right_ne_nil s.targets (List.cons_ne_nil p.1 [])
      obtain ⟨first, rest, hcons⟩ := List.exists_cons_of_ne_nil hne
      exact .inl ⟨first, rest, congrArg Except.ok hcons⟩

/-- The text has a first character, and it is none of these. -/
def StartsApart (others : List Char) (s : String) : Prop :=
  s.toList.head?.any (fun c => decide (c ∉ others)) = true

instance (others : List Char) (s : String) : Decidable (StartsApart others s) :=
  inferInstanceAs (Decidable (_ = true))

theorem StartsApart.append {others : List Char} {s : String} (h : StartsApart others s)
    (t : String) : StartsApart others (s ++ t) := by
  unfold StartsApart at h ⊢
  rw [String.toList_append, List.head?_append]
  cases hs : s.toList.head? with
  | none =>
    rw [hs] at h
    cases h
  | some c => rwa [hs] at h

theorem StartsApart.ne {others : List Char} {s t : String} (h : StartsApart others s)
    (ht : ¬ StartsApart others t) : s ≠ t := by
  rintro rfl
  exact ht h

theorem startsApart_quantity (q : Quantity) : StartsApart ['T', '\''] q.name := by
  cases q with
  | field f => cases f <;> decide
  | _ => decide

theorem startsApart_error (e : Error) : StartsApart ['T', '\''] e.message := by
  cases e with
  | outOfRange quantity value limit =>
    have hname := startsApart_quantity quantity
    exact (((hname.append _).append _).append _).append _
  | _ =>
    dsimp only [Error.message]
    repeat first
      | decide
      | apply StartsApart.append

theorem message_noLayout_ne (target : String) :
    (Fault.noLayout target).message ≠ Exit.noTable.message := by
  intro h
  have htext : (Fault.noLayout target).message.toList = "Target '".toList ++
      (target.toList ++ "' has no address layout, expected '! layout'".toList) := by
    show ("Target '" ++ target ++ "' has no address layout, expected '! layout'").toList = _
    rw [String.toList_append, String.toList_append, List.append_assoc]
  have hstart := congrArg (List.take 8) (congrArg String.toList h)
  rw [htext, List.take_left' (by decide)] at hstart
  exact absurd hstart (by decide)

/-- No fault reads like an exit that only a missing table has. -/
theorem message_ne (f : Fault) :
    f.message ≠ Exit.noTable.message ∧ f.message ≠ Exit.noStepCount.message := by
  have hapart (h : StartsApart ['T', '\''] f.message) :
      f.message ≠ Exit.noTable.message ∧ f.message ≠ Exit.noStepCount.message :=
    ⟨h.ne (by decide), h.ne (by decide)⟩
  cases f with
  | noLayout target =>
    have hstart : StartsApart ['\''] (Fault.noLayout target).message :=
      (StartsApart.append (by decide) _).append _
    exact ⟨message_noLayout_ne target, hstart.ne (by decide)⟩
  | fillInSequence => decide
  | repeatedFill => decide
  | engine e => exact hapart (startsApart_error e)
  | conditionForm text fallback =>
    apply hapart
    cases fallback <;> exact (StartsApart.append (by decide) _).append _
  | _ =>
    apply hapart
    dsimp only [Fault.message]
    repeat first
      | decide
      | apply StartsApart.append

/-- The lines of a file: one for each line feed, and one more after the last of them unless the file
ends there. -/
def lineCount (bytes : ByteArray) : Nat :=
  bytes.data.toList.count 10 + if bytes.data.toList.getLast?.all (· == 10) then 0 else 1

theorem length_ofBytes (bytes : ByteArray) :
    (InputLine.ofBytes bytes).length = lineCount bytes := by
  rw [InputLine.ofBytes, List.length_map, Text.length_lines]
  rfl

example : lineCount ⟨#[64, 10, 10, 255]⟩ = 3 := by decide

/-- Whatever bytes a file is made of, its compilation goes the same way where the layout and the
table are optional: it never ends for want of a table or of the number of its steps, nor for want of
a layout once there is a table. It gives a target at least, or fails with a fault on one of the
lines of the file, and on line zero only if there is none. -/
theorem outcomes_of_bytes (bytes : ByteArray) :
    Loose.compile (InputLine.ofBytes bytes) =
      ((compileBytes bytes).log,
        (compileBytes bytes).result.mapError fun e => (e.line, Exit.fault e.fault)) ∧
    ((∃ first rest, (compileBytes bytes).result = .ok (first :: rest)) ∨
      ∃ e, (compileBytes bytes).result = .error e ∧ e.line ≤ lineCount bytes ∧
        (e.line = 0 → lineCount bytes = 0) ∧
        e.fault.message ≠ "Target has no instruction table" ∧
        e.fault.message ≠ "'..' needs the step count of a target") := by
  refine ⟨compile_loose (InputLine.ofBytes bytes), ?_⟩
  rcases result_of_lines (InputLine.ofBytes bytes) with hok | ⟨e, he, hle, hzero⟩
  · exact .inl hok
  · rw [length_ofBytes] at hle hzero
    exact .inr ⟨e, he, hle, hzero, message_ne e.fault⟩

end ControlStore.Source
