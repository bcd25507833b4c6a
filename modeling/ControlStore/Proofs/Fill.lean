import ControlStore.Proofs.Unfolding

/-! Fills. Two dots in a sequence stand for as many pad words as bring the steps after them to the
last micro-steps. The gap is reckoned when the line is read, and the table cuts or pads the whole
sequence again when it stores it. -/

namespace ControlStore

/-- Words with a gap of pad words between them that brings the later ones to the end, or as many of
all words as there is room for. -/
def TableConfig.filled (c : TableConfig) (before after : List Word) : List Word :=
  if before.length + after.length ≤ c.steps then
    before ++ List.replicate (c.steps - before.length - after.length) c.pad ++ after
  else (before ++ after).take c.steps

/-- The table leaves a sequence alone that has the right length, and cuts one that has no gap. -/
theorem TableConfig.toList_fit_gap (c : TableConfig) (before after : List Word) :
    (c.fit (before ++ List.replicate (c.steps - (before.length + after.length)) c.pad ++
      after)).toList = c.filled before after := by
  rw [Table.toList_fit, filled]
  by_cases hroom : before.length + after.length ≤ c.steps
  · have hlength : (before ++ List.replicate (c.steps - (before.length + after.length)) c.pad ++
        after).length = c.steps := by
      simp only [List.length_append, List.length_replicate]
      omega
    rw [if_pos hroom, List.take_append_of_le_length hlength.ge, List.take_of_length_le hlength.le,
      Nat.sub_sub]
  · have hgap : c.steps - (before.length + after.length) = 0 := by omega
    have hlength : c.steps ≤ (before ++ after).length := by
      rw [List.length_append]
      omega
    rw [if_neg hroom, hgap, List.replicate_zero, List.append_nil,
      List.take_append_of_le_length hlength]

/-- Nothing after a gap is what the table would have padded by itself. -/
theorem TableConfig.filled_nil (c : TableConfig) (words : List Word) :
    c.filled words [] = (c.fit words).toList := by
  rw [Table.toList_fit, filled]
  by_cases hroom : words.length ≤ c.steps
  · have hmin : min (c.steps - words.length) c.steps = c.steps - words.length := by omega
    rw [List.length_nil, Nat.add_zero, Nat.sub_zero, if_pos hroom, List.take_append,
      List.take_replicate, hmin, List.take_of_length_le hroom, List.append_nil]
  · rw [List.length_nil, Nat.add_zero, if_neg hroom, List.append_nil,
      List.take_append_of_le_length (Nat.le_of_not_le hroom)]

namespace Table

/-- Where a table keeps a sequence. -/
inductive Slot
  | template (slice : Nat)
  | reservation (slice : Nat)
  | cell (slice opcode : Nat)

variable {t : Table}

/-- The sequence that is kept in a slot, if there is one. -/
def kept (t : Table) : Slot → Option (List Word)
  | .template slice => t.templates[slice]?.map Vector.toList
  | .reservation slice => t.reserved[slice]?.join.map Vector.toList
  | .cell slice opcode => (t.cell slice opcode).map Vector.toList

theorem kept_setTemplate {condition : Option Condition} {slice : Nat} (steps : List Word)
    (hslice : slice < t.slices) (h : condition.all (fun c => c.holds slice) = true) :
    (t.setTemplate condition steps).kept (.template slice) = some (t.config.fit steps).toList := by
  have hget : (t.templates.mapIdx fun slice old =>
      if condition.all (fun c => c.holds slice) then t.config.fit steps else old)[slice]? =
      some (t.config.fit steps) := by simp [hslice, h]
  exact congrArg (Option.map Vector.toList) hget

theorem kept_reserve {condition : Condition} {slice : Nat} (steps : List Word)
    (hslice : slice < t.slices) (h : condition.holds slice = true) :
    (t.reserve condition steps).kept (.reservation slice) = some (t.config.fit steps).toList := by
  have hget : (t.reserved.mapIdx fun slice old =>
      if condition.holds slice then some (t.config.fit steps) else old)[slice]? =
      some (some (t.config.fit steps)) := by simp [hslice, h]
  exact congrArg (fun found => found.join.map Vector.toList) hget

theorem kept_writeRow {slice opcode : Nat}
    {f : Nat → Option (Vector Word t.config.steps) → Option (Vector Word t.config.steps)}
    {sequence : Vector Word t.config.steps} (hfree : t.reserved[slice]? = some none)
    (hf : f slice (t.cell slice opcode) = some sequence) :
    (t.writeRow opcode f).kept (.cell slice opcode) = some sequence.toList := by
  obtain ⟨hslice, hnone⟩ := Vector.getElem?_eq_some_iff.mp hfree
  show ((t.writeRow opcode f).cell slice opcode).map Vector.toList = _
  rw [cell_writeRow t opcode f slice opcode hslice, if_pos ⟨rfl, hnone⟩, hf]
  rfl

/-- A definition at the cursor may write the slice. -/
structure Writable (t : Table) (slice : Nat) : Prop where
  cursor : t.cursor < t.opcodes
  free : t.reserved[slice]? = some none

theorem kept_advance (slot : Slot) : t.advance.kept slot = t.kept slot := by
  cases slot <;> rfl

theorem Writable.define {slice : Nat} (h : t.Writable slice)
    (hnew : ¬ (t.isDefined t.cursor = true ∧ t.config.redefine = .reject)) (steps : List Word) :
    ∃ after, t.run (.defineNext steps) = .ok after ∧
      after.kept (.cell slice t.cursor) = some (t.config.fit steps).toList := by
  refine ⟨(t.writeRow t.cursor fun _ _ => some (t.config.fit steps)).advance, ?_, ?_⟩
  · rw [run, define_eq, if_neg (Nat.not_le.mpr h.cursor), if_neg hnew]
    rfl
  · rw [kept_advance]
    exact kept_writeRow h.free rfl

/-- The sequence is that of the steps where the condition holds, and else that of the fallback. -/
theorem Writable.defineWhen {slice : Nat} (h : t.Writable slice) {condition : Condition}
    {steps chosen : List Word} {fallback : Option (List Word)}
    (hchosen : (if condition.holds slice then some steps else fallback) = some chosen) :
    ∃ after, t.run (.defineNextWhen condition steps fallback) = .ok after ∧
      after.kept (.cell slice t.cursor) = some (t.config.fit chosen).toList := by
  have hrun : t.run (.defineNextWhen condition steps fallback) =
      (t.defineWhen condition t.cursor steps fallback).map advance := rfl
  rw [defineWhen_eq, if_neg (Nat.not_le.mpr h.cursor)] at hrun
  refine ⟨_, hrun, ?_⟩
  rw [kept_advance]
  refine kept_writeRow h.free ?_
  split at hchosen
  · rename_i hholds
    cases hchosen
    exact if_pos hholds
  · rename_i hholds
    subst hchosen
    exact if_neg hholds

end Table

namespace Source

variable {s : State}

/-- The words of steps one after another, abbreviated sequences in full. -/
def State.plainWords (s : State) (steps : List Step) : Except Fault (List Word) :=
  List.flatten <$> steps.mapM s.stepWords

theorem plainWords_cons (step : Step) (rest : List Step) :
    s.plainWords (step :: rest) = (do
      let first ← s.stepWords step
      let others ← s.plainWords rest
      return first ++ others) := by
  rw [State.plainWords, List.mapM_cons, State.plainWords]
  cases s.stepWords step with
  | error fault => rfl
  | ok first => cases rest.mapM s.stepWords <;> rfl

theorem addStep_of_ne_fill {step : Step} (h : step ≠ .fill) (fillAllowed : Bool)
    (acc : List Word × Option (List Word)) :
    s.addStep fillAllowed acc step = place acc <$> s.stepWords step := by
  rw [State.addStep, if_neg h]
  obtain ⟨before, after⟩ := acc
  cases s.stepWords step with
  | error fault => rfl
  | ok words => cases after <;> rfl

/-- Without a fill, all words go to the one side. -/
theorem foldlM_addStep {steps : List Step} (h : .fill ∉ steps) (fillAllowed : Bool)
    (acc : List Word × Option (List Word)) :
    steps.foldlM (s.addStep fillAllowed) acc = place acc <$> s.plainWords steps := by
  induction steps generalizing acc with
  | nil => exact congrArg Except.ok (place_nil acc).symm
  | cons step rest ih =>
    rw [List.mem_cons, not_or] at h
    rw [List.foldlM_cons, addStep_of_ne_fill (Ne.symm h.1), plainWords_cons]
    cases s.stepWords step with
    | error fault => rfl
    | ok first =>
      show rest.foldlM (s.addStep fillAllowed) (place acc first) =
        place acc <$> (s.plainWords rest >>= fun others => pure (first ++ others))
      rw [ih h.2]
      cases s.plainWords rest with
      | error fault => rfl
      | ok others => exact congrArg Except.ok (place_append acc first others)

/-- The sequence that a table stores for steps. -/
def State.stored (s : State) (config : TableConfig) (steps : List Step) :
    Except Fault (List Word) :=
  (fun words => (config.fit words).toList) <$> s.words config steps

theorem stored_of_plain {steps : List Step} (h : .fill ∉ steps) (config : TableConfig) :
    s.stored config steps = (fun words => (config.fit words).toList) <$> s.plainWords steps := by
  rw [State.stored, State.words, State.splitWords, foldlM_addStep h]
  cases s.plainWords steps <;> rfl

/-- The words before and after a fill are read apart, and the gap is what they leave. -/
theorem stored_of_fill {before after : List Step} (hbefore : .fill ∉ before)
    (hafter : .fill ∉ after) (config : TableConfig) :
    s.stored config (before ++ .fill :: after) = (do
      let b ← s.plainWords before
      let a ← s.plainWords after
      return config.filled b a) := by
  rw [State.stored, State.words, State.splitWords, List.foldlM_append, foldlM_addStep hbefore]
  cases s.plainWords before with
  | error fault => rfl
  | ok b =>
    have hplace : place ([], none) b = (b, none) := rfl
    show (fun words => (config.fit words).toList) <$>
      ((Step.fill :: after).foldlM (s.addStep true) (place ([], none) b) >>= _) = _
    rw [hplace, List.foldlM_cons]
    show (fun words => (config.fit words).toList) <$>
      (after.foldlM (s.addStep true) (b, some []) >>= _) = _
    rw [foldlM_addStep hafter]
    cases s.plainWords after with
    | error fault => rfl
    | ok a => exact congrArg Except.ok (config.toList_fit_gap b a)

/-- A fill is refused in a definition, and where there was one before. -/
theorem exists_error_of_fill {fillAllowed : Bool} {acc : List Word × Option (List Word)}
    {steps : List Step} (h : fillAllowed = false ∨ acc.2.isSome = true) (hmem : .fill ∈ steps) :
    ∃ fault, steps.foldlM (s.addStep fillAllowed) acc = .error fault := by
  induction steps generalizing acc with
  | nil => cases hmem
  | cons step rest ih =>
    rw [List.foldlM_cons]
    by_cases hstep : step = .fill
    · subst hstep
      obtain ⟨before, after⟩ := acc
      cases fillAllowed with
      | false => exact ⟨.fillInSequence, rfl⟩
      | true =>
        cases after with
        | none => simp at h
        | some after => exact ⟨.repeatedFill, rfl⟩
    · have hrest : .fill ∈ rest := (List.mem_cons.mp hmem).resolve_left (Ne.symm hstep)
      rw [addStep_of_ne_fill hstep]
      cases s.stepWords step with
      | error fault => exact ⟨fault, rfl⟩
      | ok words =>
        have hplace : (place acc words).2.isSome = acc.2.isSome := by
          obtain ⟨before, after⟩ := acc
          cases after <;> rfl
        exact ih (by rw [hplace]; exact h) hrest

theorem words_of_fills {steps : List Step} (h : 2 ≤ steps.count .fill) (config : TableConfig) :
    ∃ fault, s.words config steps = .error fault := by
  have hmem : Step.fill ∈ steps := List.count_pos_iff.mp (by omega)
  obtain ⟨before, after, rfl, hbefore⟩ := List.eq_append_cons_of_mem hmem
  have hafter : Step.fill ∈ after := by
    rw [List.count_append, List.count_cons_self, List.count_eq_zero.mpr hbefore] at h
    exact List.count_pos_iff.mp (by omega)
  rw [State.words, State.splitWords, List.foldlM_append, foldlM_addStep hbefore]
  cases s.plainWords before with
  | error fault => exact ⟨fault, rfl⟩
  | ok b =>
    obtain ⟨fault, hfault⟩ : ∃ fault, after.foldlM (s.addStep true) (b, some []) = .error fault :=
      exists_error_of_fill (.inr rfl) hafter
    refine ⟨fault, ?_⟩
    show (after.foldlM (s.addStep true) (b, some []) >>= _) = _
    rw [hfault]
    rfl

/-- The state after a line. -/
def State.line (s : State) (number : Nat) (line : InputLine) : Except SourceError State :=
  (line.statements number).foldlM State.advance s

/-- The sequence in a slot of the table after a line. -/
def State.keptAfter (s : State) (number : Nat) (line : InputLine) (slot : Table.Slot) :
    Option (List Word) :=
  (s.line number line).toOption.bind fun s' => s'.draft.stage.table?.bind fun t => t.kept slot

/-- The text is a condition, and this is what it comes to in a slice. -/
def State.Decides (s : State) (condition : List Char) (slice : Nat) (holds : Bool) : Prop :=
  ∃ c, s.condition (String.ofList (Text.trim condition)) = .ok c ∧ c.holds slice = holds

/-- What a line says gives the steps of a text to a slot, if they have words. -/
inductive Gives (s : State) (t : Table) : List Char → List Char → Table.Slot → Prop
  | template (text : List Char) (slice : Nat) (hcolon : ':' ∉ text) (hslice : slice < t.slices) :
    Gives s t ('*' :: text) text (.template slice)
  | templateWhen (condition text : List Char) (slice : Nat) (hcondition : ':' ∉ condition)
    (hcolon : ':' ∉ text) (hslice : slice < t.slices) (hholds : s.Decides condition slice true) :
    Gives s t ('*' :: (condition ++ ':' :: text)) text (.template slice)
  | reserve (condition text : List Char) (slice : Nat) (hcondition : ':' ∉ condition)
    (hcolon : ':' ∉ text) (hslice : slice < t.slices) (hholds : s.Decides condition slice true) :
    Gives s t ('^' :: (condition ++ ':' :: text)) text (.reservation slice)
  | define (text : List Char) (slice : Nat) (hwritable : t.Writable slice)
    (hnew : ¬ (t.isDefined t.cursor = true ∧ t.config.redefine = .reject)) :
    Gives s t ('=' :: text) text (.cell slice t.cursor)
  | defineWhen (condition text : List Char) (slice : Nat) (hcondition : ':' ∉ condition)
    (hcolon : ':' ∉ text) (hwritable : t.Writable slice)
    (hholds : s.Decides condition slice true) :
    Gives s t ('?' :: (condition ++ ':' :: text)) text (.cell slice t.cursor)
  | matched (condition text other : List Char) (words : List Word) (slice : Nat)
    (hcondition : ':' ∉ condition) (hcolon : ':' ∉ text) (hother : ':' ∉ other)
    (hwords : s.words t.config (readSteps other) = .ok words) (hwritable : t.Writable slice)
    (hholds : s.Decides condition slice true) :
    Gives s t ('?' :: (condition ++ ':' :: (text ++ ':' :: other))) text (.cell slice t.cursor)
  | fallback (condition text other : List Char) (words : List Word) (slice : Nat)
    (hcondition : ':' ∉ condition) (hcolon : ':' ∉ text) (hother : ':' ∉ other)
    (hwords : s.words t.config (readSteps other) = .ok words) (hwritable : t.Writable slice)
    (hholds : s.Decides condition slice false) :
    Gives s t ('?' :: (condition ++ ':' :: (other ++ ':' :: text))) text (.cell slice t.cursor)

section lines

open Text

variable {t : Table} {layout : Layout} {number : Nat} {line : InputLine}

/-- A state that is sealed already stays as it is. -/
theorem advance_seal (hsealed : s.draft.stage = .sealed layout t) (number : Nat) :
    s.advance (number, .seal) = .ok s := by
  have hsame : { s with draft := { s.draft with stage := .sealed layout t } } = s := by
    rw [← hsealed]
  rw [State.advance, State.exec, sealed_of_stage hsealed]
  exact congrArg Except.ok hsame

theorem line_of_seal {statement : Statement} (hsealed : s.draft.stage = .sealed layout t)
    (hread : readInputLine number line = [.seal, statement]) :
    s.line number line = s.advance (number, statement) := by
  rw [State.line, InputLine.statements, hread, List.map_cons, List.foldlM_cons,
    advance_seal hsealed]
  exact bind_pure (s.advance (number, statement))

/-- In a sealed state, a line about the table makes its request and does nothing else. -/
theorem line_of_table {statement : TableStatement} (hsealed : s.draft.stage = .sealed layout t)
    (hread : readInputLine number line = [.seal, .table statement]) :
    s.line number line =
      match s.command t.config statement >>= fun c => ofEngine (t.run c) with
      | .ok after => .ok { s with draft := { s.draft with stage := .sealed layout after } }
      | .error fault => .error { line := number, fault } := by
  have hdraft := sealed_of_stage hsealed
  rw [line_of_seal hsealed hread, State.advance]
  cases hcommand : s.command t.config statement with
  | error fault => simp [State.exec, hdraft, hcommand, bind, Except.bind]
  | ok c =>
    cases hrun : ofEngine (t.run c) <;>
      simp [State.exec, hdraft, hcommand, hrun, bind, Except.bind, pure, Except.pure]

theorem splitOn_pair {condition : List Char} (text : List Char) (h : ':' ∉ condition)
    (htext : ':' ∉ text) : splitOn ':' (condition ++ ':' :: text) = [condition, text] := by
  rw [splitOn_append ':' _ _ h, splitOn_of_not_mem ':' _ htext]

theorem splitOn_triple {condition text : List Char} (other : List Char) (h : ':' ∉ condition)
    (htext : ':' ∉ text) (hother : ':' ∉ other) :
    splitOn ':' (condition ++ ':' :: (text ++ ':' :: other)) = [condition, text, other] := by
  rw [splitOn_append ':' _ _ h, splitOn_pair other htext hother]

/-- A line that gives steps to a slot asks the table for their words, whatever they are, and the
table keeps them there. -/
theorem exists_statement_of_gives {content text : List Char} {slot : Table.Slot}
    (h : Gives s t content text slot) :
    ∃ (statement : TableStatement) (command : List Word → TableCommand),
      (∀ source, bare source = content → readLine source = [.seal, .table statement]) ∧
      s.command t.config statement = command <$> s.words t.config (readSteps text) ∧
      ∀ words, ∃ after, t.run (command words) = .ok after ∧
        after.kept slot = some (t.config.fit words).toList := by
  cases h with
  | template _ slice hcolon hslice =>
    refine ⟨.template none (readSteps text), .template none, ?_, rfl, ?_⟩
    · intro source hbare
      rw [readLine_template hbare, readTemplate, splitOn_of_not_mem ':' text hcolon]
    · intro words
      exact ⟨_, rfl, Table.kept_setTemplate words hslice rfl⟩
  | templateWhen condition _ slice hcondition hcolon hslice hholds =>
    obtain ⟨c, hc, hholds⟩ := hholds
    refine ⟨.template (some (String.ofList (trim condition))) (readSteps text), .template (some c),
      ?_, ?_, ?_⟩
    · intro source hbare
      rw [readLine_template hbare, readTemplate, splitOn_pair text hcondition hcolon]
    · rw [State.command, hc]
      rfl
    · intro words
      exact ⟨_, rfl, Table.kept_setTemplate words hslice hholds⟩
  | reserve condition _ slice hcondition hcolon hslice hholds =>
    obtain ⟨c, hc, hholds⟩ := hholds
    refine ⟨.reserve (String.ofList (trim condition)) (readSteps text), .reserve c, ?_, ?_, ?_⟩
    · intro source hbare
      rw [readLine_reservation hbare, readReservation, splitOn_pair text hcondition hcolon]
    · rw [State.command, hc]
      rfl
    · intro words
      exact ⟨_, rfl, Table.kept_reserve words hslice hholds⟩
  | define _ slice hwritable hnew =>
    exact ⟨.define (readSteps text), .defineNext, fun _ hbare => readLine_definition hbare, rfl,
      hwritable.define hnew⟩
  | defineWhen condition _ slice hcondition hcolon hwritable hholds =>
    obtain ⟨c, hc, hholds⟩ := hholds
    refine ⟨.defineWhen (String.ofList (trim condition)) (readSteps text) none,
      fun words => .defineNextWhen c words none, ?_, ?_, ?_⟩
    · intro source hbare
      rw [readLine_conditional hbare, readConditional, splitOn_pair text hcondition hcolon]
    · rw [State.command, hc]
      rfl
    · intro words
      exact hwritable.defineWhen (if_pos hholds)
  | matched condition _ other words' slice hcondition hcolon hother hwords hwritable hholds =>
    obtain ⟨c, hc, hholds⟩ := hholds
    refine ⟨.defineWhen (String.ofList (trim condition)) (readSteps text) (some (readSteps other)),
      fun words => .defineNextWhen c words (some words'), ?_, ?_, ?_⟩
    · intro source hbare
      rw [readLine_conditional hbare, readConditional,
        splitOn_triple other hcondition hcolon hother]
    · rw [State.command, hc, hwords]
      rfl
    · intro words
      exact hwritable.defineWhen (if_pos hholds)
  | fallback condition _ other words' slice hcondition hcolon hother hwords hwritable hholds =>
    obtain ⟨c, hc, hholds⟩ := hholds
    have hfails : ¬ c.holds slice = true := by
      rw [hholds]
      exact Bool.false_ne_true
    refine ⟨.defineWhen (String.ofList (trim condition)) (readSteps other) (some (readSteps text)),
      fun words => .defineNextWhen c words' (some words), ?_, ?_, ?_⟩
    · intro source hbare
      rw [readLine_conditional hbare, readConditional,
        splitOn_triple text hcondition hother hcolon]
    · rw [State.command, hc, hwords]
      rfl
    · intro words
      exact hwritable.defineWhen (if_neg hfails)

/-- What is kept in the slot is the sequence of the steps, or there is none if they are wrong. -/
theorem keptAfter_of_gives {content text : List Char} {slot : Table.Slot}
    (hsealed : s.draft.stage = .sealed layout t) (hcontent : line.content number = content)
    (h : Gives s t content text slot) :
    s.keptAfter number line slot = (s.stored t.config (readSteps text)).toOption := by
  obtain ⟨statement, command, hread, hcommand, hrun⟩ := exists_statement_of_gives h
  obtain ⟨c, rest, rfl⟩ : ∃ c rest, content = c :: rest := by
    cases h <;> exact ⟨_, _, rfl⟩
  obtain ⟨source, hbare, hinput⟩ := exists_text_of_content hcontent
  rw [State.keptAfter, line_of_table hsealed (hinput.trans (hread source hbare)), hcommand,
    State.stored]
  cases s.words t.config (readSteps text) with
  | error fault => rfl
  | ok words =>
    obtain ⟨after, hafter, hkept⟩ := hrun words
    show Option.bind (Except.toOption (match ofEngine (t.run (command words)) with
      | .ok after => _
      | .error fault => _)) _ = _
    rw [hafter]
    exact hkept

theorem readSteps_dots {dots : List Char} (h : trim dots = ['.', '.']) :
    readSteps dots = [.fill] := by
  obtain ⟨left, right, hleft, hright, hdots⟩ := exists_trim_pad dots
  rw [hdots, h, readSteps_append_blanks _ hright, readSteps_blanks_append _ hleft]
  rfl

theorem readSteps_append_dots (text : List Char) {dots : List Char} (h : trim dots = ['.', '.']) :
    readSteps (text ++ '|' :: dots) = readSteps text ++ [.fill] := by
  rw [← readSteps_dots h, readSteps, splitOn, pieces_append_sep text dots '|' rfl, List.map_append]
  rfl

/-- Dots at the end change nothing, since the table pads by itself. -/
theorem stored_append_fill {steps : List Step} (h : .fill ∉ steps) (config : TableConfig) :
    s.stored config (steps ++ [.fill]) = s.stored config steps := by
  rw [stored_of_fill h List.not_mem_nil, stored_of_plain h]
  cases s.plainWords steps with
  | error fault => rfl
  | ok words => exact congrArg Except.ok (config.filled_nil words)

/-- Nothing at all is a step without terms. -/
theorem readSteps_blanks {text : List Char} (h : trim text = []) :
    readSteps text = [.terms []] := by
  obtain ⟨left, right, hleft, hright, htext⟩ := exists_trim_pad text
  rw [htext, h, readSteps_append_blanks _ hright, readSteps_blanks_append _ hleft]
  rfl

/-- The sequences that a statement brings. -/
def TableStatement.sequences : TableStatement → List (List Step)
  | .template _ steps => [steps]
  | .reserve _ steps => [steps]
  | .seek _ => []
  | .define steps => [steps]
  | .defineWhen _ steps fallback => steps :: fallback.toList

/-- The texts of steps in what a line about the table says. A condition may stand before them. -/
def stepTexts : List Char → List (List Char)
  | '=' :: rest => [rest]
  | c :: rest =>
    if c ∈ ['*', '^', '?'] then
      match splitOn ':' rest with
      | [text] => [text]
      | parts => parts.drop 1
    else []
  | [] => []

theorem exists_error_of_command {statement : TableStatement} {steps : List Step}
    (hmem : steps ∈ statement.sequences) {config : TableConfig}
    (h : ∃ fault, s.words config steps = .error fault) :
    ∃ fault, s.command config statement = .error fault := by
  obtain ⟨fault, hfault⟩ := h
  have hbind {α β : Type} (x : Except Fault α) {g : α → Except Fault β}
      (hg : ∀ a, ∃ fault, g a = .error fault) : ∃ fault, (x >>= g) = .error fault := by
    cases x with
    | error fault => exact ⟨fault, rfl⟩
    | ok a => exact hg a
  have hwords {β : Type} (g : List Word → Except Fault β) :
      ∃ fault, (s.words config steps >>= g) = .error fault := ⟨fault, by rw [hfault]; rfl⟩
  cases statement with
  | template condition steps' =>
    obtain rfl := List.mem_singleton.mp hmem
    cases condition with
    | none => exact hwords _
    | some text => exact hbind _ fun c => hwords _
  | reserve text steps' =>
    obtain rfl := List.mem_singleton.mp hmem
    exact hbind _ fun c => hwords _
  | seek opcode => cases hmem
  | define steps' =>
    obtain rfl := List.mem_singleton.mp hmem
    exact hwords _
  | defineWhen text steps' fallback =>
    cases fallback with
    | none =>
      obtain rfl := List.mem_singleton.mp hmem
      exact hbind _ fun c => hwords _
    | some other =>
      rcases List.mem_pair.mp hmem with rfl | rfl
      · exact hbind _ fun c => hwords _
      · exact hbind _ fun c => hbind _ fun w => hwords _

/-- A line with steps in it is malformed or brings them to the table. -/
theorem readLine_of_stepTexts {source text : List Char} (h : text ∈ stepTexts (bare source)) :
    (∃ fault, readLine source = [.seal, .fail fault]) ∨
      ∃ statement, readLine source = [.seal, .table statement] ∧
        readSteps text ∈ statement.sequences := by
  have hone {part : List Char} {statement : TableStatement}
      (hsequences : statement.sequences = [readSteps part]) (hpart : text ∈ [part]) :
      readSteps text ∈ statement.sequences := by
    rw [hsequences, List.mem_singleton.mp hpart]
    exact List.mem_singleton_self _
  unfold stepTexts at h
  split at h
  · rename_i rest hbare
    exact .inr ⟨_, readLine_definition hbare, hone rfl h⟩
  · rename_i c rest _ hbare
    split at h
    · rename_i hc
      simp only [List.mem_cons, List.not_mem_nil, or_false] at hc
      rcases hc with rfl | rfl | rfl
      · rw [readLine_template hbare, readTemplate]
        split
        · rename_i steps hparts
          rw [hparts] at h
          exact .inr ⟨_, rfl, hone rfl h⟩
        · rename_i condition steps hparts
          rw [hparts] at h
          exact .inr ⟨_, rfl, hone rfl h⟩
        · exact .inl ⟨_, rfl⟩
      · rw [readLine_reservation hbare, readReservation]
        split
        · rename_i condition steps hparts
          rw [hparts] at h
          exact .inr ⟨_, rfl, hone rfl h⟩
        · exact .inl ⟨_, rfl⟩
      · rw [readLine_conditional hbare, readConditional]
        split
        · rename_i condition steps hparts
          rw [hparts] at h
          exact .inr ⟨_, rfl, hone rfl h⟩
        · rename_i condition steps other hparts
          rw [hparts] at h
          refine .inr ⟨_, rfl, ?_⟩
          rcases List.mem_pair.mp h with rfl | rfl
          · exact List.mem_cons_self
          · exact List.mem_cons_of_mem _ (List.mem_singleton_self _)
        · exact .inl ⟨_, rfl⟩
    · cases h
  · cases h

theorem exists_error_of_stepTexts {text : List Char} (hsealed : s.draft.stage = .sealed layout t)
    (hmem : text ∈ stepTexts (line.content number)) (hfills : 2 ≤ (readSteps text).count .fill) :
    ∃ fault, s.line number line = .error { line := number, fault } := by
  obtain ⟨c, rest, hcontent⟩ : ∃ c rest, line.content number = c :: rest := by
    refine List.exists_cons_of_ne_nil ?_
    intro hnil
    rw [hnil] at hmem
    cases hmem
  obtain ⟨source, hbare, hinput⟩ := exists_text_of_content hcontent
  rw [hcontent, ← hbare] at hmem
  rcases readLine_of_stepTexts hmem with ⟨fault, hread⟩ | ⟨statement, hread, hsequence⟩
  · exact ⟨fault, line_of_seal hsealed (hinput.trans hread)⟩
  · obtain ⟨fault, hcommand⟩ :=
      exists_error_of_command hsequence (words_of_fills (s := s) hfills t.config)
    refine ⟨fault, ?_⟩
    rw [line_of_table hsealed (hinput.trans hread), hcommand]
    rfl

/-- A statement without an effect fails on its line. -/
theorem exists_error_of_advance {statement : Statement} (number : Nat)
    (h : ∀ s', ¬ Effect s statement s') :
    ∃ fault, s.advance (number, statement) = .error { line := number, fault } := by
  unfold State.advance
  cases hexec : s.exec statement with
  | error fault => exact ⟨fault, rfl⟩
  | ok p => exact absurd (effect_of_exec hexec) (h p.1)

theorem exists_error_of_abbreviation {rest part text : List Char}
    (hcontent : line.content number = '%' :: rest) (hcut : cut '=' rest = some (part, text))
    (hfill : .fill ∈ readSteps text) :
    ∃ fault, s.line number line = .error { line := number, fault } := by
  obtain ⟨source, hbare, hinput⟩ := exists_text_of_content hcontent
  have hline : s.line number line = s.advance (number, readAbbreviation rest) := by
    rw [State.line, InputLine.statements, hinput, readLine_abbreviation hbare]
    exact bind_pure (s.advance (number, readAbbreviation rest))
  obtain ⟨fault, hsplit⟩ : ∃ fault, s.splitWords false (readSteps text) = .error fault :=
    exists_error_of_fill (.inl rfl) hfill
  rw [hline]
  refine exists_error_of_advance number ?_
  intro s' heffect
  rw [readAbbreviation, hcut] at heffect
  dsimp only at heffect
  split at heffect
  · cases heffect with
    | abbreviate _ _ words hnew hwords => cases hsplit.symm.trans hwords
  · cases heffect

/-- A fill brings what follows it to the last micro-steps, wherever a line keeps the sequence; at
the end of a sequence it changes nothing; and it stands once in a sequence at most, and never in an
abbreviation. A sequence of nothing but a fill is not the same as one without text, which has one
step. -/
theorem fill_brings_tail_to_end (s : State) (layout : Layout) (t : Table)
    (hsealed : s.draft.stage = .sealed layout t) :
    (∀ number line text slot before after b a, Gives s t (line.content number) text slot →
      readSteps text = before ++ .fill :: after → .fill ∉ before → .fill ∉ after →
      s.plainWords before = .ok b → s.plainWords after = .ok a →
      s.keptAfter number line slot = some (t.config.filled b a)) ∧
    (∀ number line number' line' text dots slot, Gives s t (line.content number) text slot →
      Gives s t (line'.content number') (text ++ '|' :: dots) slot → trim dots = ['.', '.'] →
      .fill ∉ readSteps text →
      s.keptAfter number' line' slot = s.keptAfter number line slot) ∧
    (∀ number line text slot, Gives s t (line.content number) text slot →
      (trim text = ['.', '.'] →
        s.keptAfter number line slot = some (List.replicate t.config.steps t.config.pad)) ∧
      (trim text = [] → s.keptAfter number line slot = some (t.config.filled [Word.zero] []))) ∧
    (∀ number line text, text ∈ stepTexts (line.content number) →
      2 ≤ (readSteps text).count .fill →
      ∃ fault, s.line number line = .error { line := number, fault }) ∧
    (∀ number line rest part text, line.content number = '%' :: rest →
      cut '=' rest = some (part, text) → .fill ∈ readSteps text →
      ∃ fault, s.line number line = .error { line := number, fault }) := by
  have hfilled {before after : List Step} {b a : List Word} (hbefore : .fill ∉ before)
      (hafter : .fill ∉ after) (hb : s.plainWords before = .ok b)
      (ha : s.plainWords after = .ok a) :
      s.stored t.config (before ++ .fill :: after) = .ok (t.config.filled b a) := by
    rw [stored_of_fill hbefore hafter, hb, ha]
    rfl
  refine ⟨?_, ?_, ?_, ?_, ?_⟩
  · intro number line text slot before after b a hgives hread hbefore hafter hb ha
    rw [keptAfter_of_gives hsealed rfl hgives, hread, hfilled hbefore hafter hb ha]
    rfl
  · intro number line number' line' text dots slot hgives hgives' hdots hplain
    rw [keptAfter_of_gives hsealed rfl hgives, keptAfter_of_gives hsealed rfl hgives',
      readSteps_append_dots text hdots, stored_append_fill hplain]
  · intro number line text slot hgives
    rw [keptAfter_of_gives hsealed rfl hgives]
    constructor
    · intro hdots
      have hnone : s.plainWords [] = .ok [] := rfl
      have hstored := hfilled List.not_mem_nil List.not_mem_nil hnone hnone
      rw [readSteps_dots hdots, ← List.nil_append [Step.fill], hstored, t.config.filled_nil,
        Table.toList_fit_nil]
      rfl
    · intro hblanks
      have hzero : s.plainWords [.terms []] = .ok [Word.zero] := rfl
      rw [readSteps_blanks hblanks, stored_of_plain (by simp), hzero, t.config.filled_nil]
      rfl
  · intro number line text hmem hfills
    exact exists_error_of_stepTexts hsealed hmem hfills
  · intro number line rest part text hcontent hcut hfill
    exact exists_error_of_abbreviation hcontent hcut hfill

/-- Four micro-steps, a pad word with a signal in it, and an abbreviated sequence. -/
def paddedLines : List InputLine :=
  ["@ A B NF", "! layout flags:1 opcode:1 step:2", "! flags Z:0", "! pad NF", "% M = A | B",
    "> 1"].map fun s => .text s.toList

/-- One line keeps a sequence with a gap where its condition holds, and one with dots at the end
where it fails. -/
theorem fills_of_paddedLines :
    ∃ s layout t, (State.run #[] {} (readLines paddedLines)).2 = .ok s ∧
      s.draft.stage = .sealed layout t ∧
      (let line := .text "? Z=1 : %M | .. | A : B | ..".toList
      (s.keptAfter 7 line (.cell 1 1)).map (List.map Word.toNat) = some [1, 2, 4, 1] ∧
        (s.keptAfter 7 line (.cell 0 1)).map (List.map Word.toNat) = some [2, 4, 4, 4]) ∧
      (∃ fault, s.line 7 (.text "* A | .. | B | ..".toList) = .error { line := 7, fault }) ∧
      ∃ fault, s.line 7 (.text "% N = A | ..".toList) = .error { line := 7, fault } := by
  have hrun : (State.run #[] {} (readLines paddedLines)).2.toOption.any (fun s =>
      s.draft.stage.table?.any fun t =>
        t.cursor == 1 && decide (t.cursor < t.opcodes) && decide (t.reserved[0]? = some none) &&
        decide (t.reserved[1]? = some none) &&
        (s.condition "Z=1").toOption.any (fun c => c.holds 1 && !c.holds 0) &&
        (s.words t.config (readSteps " %M | .. | A ".toList)).toOption.any (fun _ => true) &&
        (s.words t.config (readSteps " B | ..".toList)).toOption.any (fun _ => true) &&
        (s.plainWords [.splice "M"]).toOption.any (fun b =>
          (s.plainWords [.terms ["A"]]).toOption.any fun a =>
            (t.config.filled b a).map Word.toNat == [1, 2, 4, 1]) &&
        (s.plainWords [.terms ["B"]]).toOption.any (fun b =>
          (t.config.filled b []).map Word.toNat == [2, 4, 4, 4])) = true := by decide +kernel
  obtain ⟨s, hs, hrun⟩ := exists_ok_of_any hrun
  cases hstage : s.draft.stage with
  | settings layout =>
    rw [hstage] at hrun
    cases hrun
  | sealed layout t =>
    simp only [hstage, Stage.table?, Option.any_some, Bool.and_eq_true, beq_iff_eq,
      decide_eq_true_eq] at hrun
    obtain ⟨⟨⟨⟨⟨⟨⟨⟨hcursor, hopcodes⟩, hfree⟩, hfree'⟩, hcondition⟩, hwords⟩, hwords'⟩, hb⟩,
      hlast⟩ := hrun
    obtain ⟨c, hc, hholds⟩ := exists_ok_of_any hcondition
    obtain ⟨words, hwords, -⟩ := exists_ok_of_any hwords
    obtain ⟨words', hwords', -⟩ := exists_ok_of_any hwords'
    obtain ⟨b, hb, ha⟩ := exists_ok_of_any hb
    obtain ⟨a, ha, hgap⟩ := exists_ok_of_any ha
    obtain ⟨last, hlast, htrailing⟩ := exists_ok_of_any hlast
    obtain ⟨hone, hzero⟩ := Bool.and_eq_true_iff.mp hholds
    have hmatched := Gives.matched " Z=1 ".toList " %M | .. | A ".toList " B | ..".toList words' 1
      (by decide) (by decide) (by decide) hwords' ⟨hopcodes, hfree'⟩ ⟨c, hc, hone⟩
    have hfallback := Gives.fallback " Z=1 ".toList " B | ..".toList " %M | .. | A ".toList words 0
      (by decide) (by decide) (by decide) hwords ⟨hopcodes, hfree⟩
      ⟨c, hc, by simpa using hzero⟩
    rw [hcursor] at hmatched hfallback
    let line : InputLine := .text "? Z=1 : %M | .. | A : B | ..".toList
    obtain ⟨hfill, -, -, hfills, habbreviation⟩ := fill_brings_tail_to_end s layout t hstage
    refine ⟨s, layout, t, hs, hstage, ⟨?_, ?_⟩, ?_, ?_⟩
    · rw [hfill 7 line " %M | .. | A ".toList _ [.splice "M"] [.terms ["A"]] b a hmatched
        (by decide) (by decide) (by decide) hb ha]
      exact congrArg some (beq_iff_eq.mp hgap)
    · rw [hfill 7 line " B | ..".toList _ [.terms ["B"]] [] last [] hfallback (by decide)
        (by decide) (by decide) hlast rfl]
      exact congrArg some (beq_iff_eq.mp htrailing)
    · exact hfills 7 _ " A | .. | B | ..".toList (by decide) (by decide)
    · exact habbreviation 7 _ " N = A | ..".toList " N ".toList " A | ..".toList (by decide)
        (by decide) (by decide)

/-- Dots alone leave the pad word everywhere, but without them there is one step without a
signal. -/
theorem lone_fill_of_paddedLines :
    ∃ s layout t, (State.run #[] {} (readLines paddedLines)).2 = .ok s ∧
      s.draft.stage = .sealed layout t ∧ Gives s t "= ..".toList " ..".toList (.cell 0 1) ∧
      Gives s t "=".toList [] (.cell 0 1) ∧
      s.keptAfter 7 (.text "= ..".toList) (.cell 0 1) ≠
        s.keptAfter 7 (.text "=".toList) (.cell 0 1) := by
  have hrun : (State.run #[] {} (readLines paddedLines)).2.toOption.any (fun s =>
      s.draft.stage.table?.any fun t =>
        t.cursor == 1 && decide (t.cursor < t.opcodes) && decide (t.reserved[0]? = some none) &&
        decide (t.config.redefine ≠ .reject) &&
        decide ((s.stored t.config (readSteps " ..".toList)).toOption ≠
          (s.stored t.config (readSteps [])).toOption)) = true := by decide +kernel
  obtain ⟨s, hs, hrun⟩ := exists_ok_of_any hrun
  cases hstage : s.draft.stage with
  | settings layout =>
    rw [hstage] at hrun
    cases hrun
  | sealed layout t =>
    simp only [hstage, Stage.table?, Option.any_some, Bool.and_eq_true, beq_iff_eq,
      decide_eq_true_eq] at hrun
    obtain ⟨⟨⟨⟨hcursor, hopcodes⟩, hfree⟩, hnew⟩, hne⟩ := hrun
    have hgives (text : List Char) : Gives s t ('=' :: text) text (.cell 0 1) := by
      rw [← hcursor]
      refine Gives.define text 0 ⟨hopcodes, hfree⟩ ?_
      exact fun hreject => hnew hreject.2
    refine ⟨s, layout, t, hs, hstage, hgives _, hgives _, ?_⟩
    have hkept (text line : List Char)
        (hline : (InputLine.text line).content 7 = '=' :: text) :
        s.keptAfter 7 (.text line) (.cell 0 1) = (s.stored t.config (readSteps text)).toOption :=
      keptAfter_of_gives hstage hline (hgives text)
    rw [hkept " ..".toList "= ..".toList (by decide), hkept [] "=".toList (by decide)]
    exact hne

end lines

end Source

end ControlStore
