import ControlStore.Proofs.Continuation
import ControlStore.Proofs.Fill
import ControlStore.Proofs.Slices

/-! Conditional lines. The slices that receive the steps of such a line are those that its condition
selects among the slices of the target's flags, less the reserved ones. -/

namespace ControlStore

namespace Table

variable {t t' : Table}

/-- What a slice has at the cursor after a definition whose condition passes it over. -/
def passed (t : Table) (fallback : Option (List Word)) (slice : Nat) : Option (List Word) :=
  if t.reserved[slice]? = some none then
    match fallback with
    | some steps => some (t.config.fit steps).toList
    | none => if t.config.fallback = .reset then none else t.kept (.cell slice t.cursor)
  else t.kept (.cell slice t.cursor)

theorem passed_of_reserved {fallback : Option (List Word)} {slice : Nat}
    (h : t.reserved[slice]? ≠ some none) :
    t.passed fallback slice = t.kept (.cell slice t.cursor) := if_neg h

theorem kept_of_le {slice : Nat} (h : t.slices ≤ slice) (opcode : Nat) :
    t.kept (.cell slice opcode) = none := by
  have hcell : t.cell slice opcode = none := by
    unfold cell
    cases t.rows[opcode]? with
    | none => rfl
    | some row => simp [h]
  rw [kept, hcell]
  rfl

theorem kept_writeRow_cell {slice opcode : Nat}
    {f : Nat → Option (Vector Word t.config.steps) → Option (Vector Word t.config.steps)}
    {owner : Option (Vector Word t.config.steps)} (hslice : t.reserved[slice]? = some owner) :
    (t.writeRow opcode f).kept (.cell slice opcode) =
      (if owner.isSome then t.cell slice opcode else f slice (t.cell slice opcode)).map
        Vector.toList := by
  obtain ⟨hlt, howner⟩ := Vector.getElem?_eq_some_iff.mp hslice
  have hcell : (t.writeRow opcode f).cell slice opcode =
      if owner.isSome then t.cell slice opcode else f slice (t.cell slice opcode) := by
    apply (cell_writeRow t opcode f slice opcode hlt).trans
    rw [howner]
    cases owner with
    | none => exact if_pos ⟨rfl, rfl⟩
    | some sequence => exact if_neg (by simp)
  exact congrArg (Option.map Vector.toList) hcell

/-- A conditional definition gives its steps to the slices where the condition holds. It leaves
reserved slices alone, and the fallback decides about the others. -/
theorem kept_defineNextWhen {c : Condition} {steps : List Word} {fallback : Option (List Word)}
    (h : t.run (.defineNextWhen c steps fallback) = .ok t') (slice : Nat) :
    t'.kept (.cell slice t.cursor) =
      if c.holds slice = true ∧ t.reserved[slice]? = some none then
        some (t.config.fit steps).toList
      else t.passed fallback slice := by
  have hrun : (t.defineWhen c t.cursor steps fallback).map advance = .ok t' := h
  rw [defineWhen_eq] at hrun
  split at hrun
  · cases hrun
  obtain rfl := Except.ok.inj hrun
  rw [kept_advance]
  unfold passed
  cases howner : t.reserved[slice]? with
  | none =>
    have hle : t.slices ≤ slice := by
      apply Nat.not_lt.mp
      intro hlt
      rw [Vector.getElem?_eq_getElem hlt] at howner
      cases howner
    rw [if_neg (by simp), if_neg (by simp), kept_of_le hle]
    exact kept_of_le (show (t.writeRow t.cursor _).slices ≤ slice from hle) t.cursor
  | some owner =>
    rw [kept_writeRow_cell howner]
    cases owner with
    | some sequence => simp [kept]
    | none =>
      cases c.holds slice with
      | true => simp
      | false =>
        cases fallback with
        | some other => simp
        | none => by_cases hreset : t.config.fallback = .reset <;> simp [hreset, kept]

end Table

namespace Source

open Text

/-- A conditional line has a condition, steps and perhaps other steps, with colons between them, or
it is wrong. -/
theorem readConditional_cases (rest : List Char) :
    (∃ fault, readConditional rest = .fail fault) ∨
    ∃ (condition steps : List Char) (other : Option (List Char)),
      splitOn ':' rest = condition :: steps :: other.toList ∧
      readConditional rest = .table (.defineWhen (String.ofList (trim condition))
        (readSteps steps) (other.map readSteps)) := by
  unfold readConditional
  split
  · rename_i condition steps hparts
    exact .inr ⟨condition, steps, none, hparts, rfl⟩
  · rename_i condition steps other hparts
    exact .inr ⟨condition, steps, some other, hparts, rfl⟩
  · exact .inl ⟨_, rfl⟩

theorem command_defineWhen {s : State} {config : TableConfig} {text : String} {steps : List Step}
    {other : Option (List Step)} {command : TableCommand}
    (h : s.command config (.defineWhen text steps other) = .ok command) :
    ∃ c matched fallback, s.condition text = .ok c ∧ s.words config steps = .ok matched ∧
      other.mapM (s.words config) = .ok fallback ∧
      command = .defineNextWhen c matched fallback := by
  cases other with
  | none =>
    obtain ⟨c, hc, h⟩ := bind_eq_ok.mp h
    obtain ⟨matched, hmatched, h⟩ := bind_eq_ok.mp h
    cases h
    exact ⟨c, matched, none, hc, hmatched, rfl, rfl⟩
  | some other =>
    obtain ⟨c, hc, h⟩ := bind_eq_ok.mp h
    obtain ⟨matched, hmatched, h⟩ := bind_eq_ok.mp h
    obtain ⟨fallback, hfallback, h⟩ := bind_eq_ok.mp h
    cases h
    refine ⟨c, matched, some fallback, hc, hmatched, ?_, rfl⟩
    show some <$> s.words config other = .ok (some fallback)
    rw [hfallback]
    rfl

/-- The target with a number has the flags, whether it is complete or has its table. -/
def State.FixesFlags (s : State) (number : Nat) (flags : Flags) : Prop :=
  (s.targets.length = number ∧ s.draft.flags = flags ∧ s.draft.stage.isSealed = true) ∨
    ∃ target, s.targets[number]? = some target ∧ target.flags = flags

theorem flags_of_close {d : Draft} {signals : Signals} {target : Target} {events : List Event}
    (h : d.close signals = .ok (target, events)) : target.flags = d.flags := by
  obtain ⟨⟨l, t, sealing⟩, -, heq⟩ := bind_eq_ok.mp h
  cases heq
  rfl

section flags

variable {s s' : State} {number : Nat} {flags : Flags}

theorem getElem?_concat_of_flags {target : Target}
    (h : s.FixesFlags number flags) (htarget : target.flags = s.draft.flags) :
    ∃ found, (s.targets ++ [target])[number]? = some found ∧ found.flags = flags := by
  rcases h with ⟨rfl, hflags, -⟩ | ⟨found, hfound, hflags⟩
  · exact ⟨target, List.getElem?_concat_length, htarget.trans hflags⟩
  · obtain ⟨hlt, -⟩ := List.getElem?_eq_some_iff.mp hfound
    exact ⟨found, (List.getElem?_append_left hlt).trans hfound, hflags⟩

/-- No setting can be made once there is a table. -/
theorem State.FixesFlags.of_effect {statement : Statement} (hs : s.FixesFlags number flags)
    (h : Effect s statement s') : s'.FixesFlags number flags := by
  cases h with
  | rename name hclosed =>
    apply Or.inr
    apply hs.resolve_left
    rintro ⟨-, -, hsealed⟩
    rw [Draft.opened, hsealed, Bool.or_true] at hclosed
    cases hclosed
  | close name target events hopened hclose =>
    exact .inr (getElem?_concat_of_flags hs (flags_of_close hclose))
  | setting key setting layout draft hstage hset =>
    apply Or.inr
    apply hs.resolve_left
    rintro ⟨-, -, hsealed⟩
    rw [hstage] at hsealed
    cases hsealed
  | «seal» layout table events hsealed =>
    rcases hs with ⟨hnumber, hflags, -⟩ | hfound
    · exact .inl ⟨hnumber, hflags, rfl⟩
    · exact .inr hfound
  | table statement layout before after command events hsealed hcommand hrun =>
    rcases hs with ⟨hnumber, hflags, -⟩ | hfound
    · exact .inl ⟨hnumber, hflags, rfl⟩
    · exact .inr hfound
  | _ => exact hs

theorem State.FixesFlags.of_run {statements : List (Nat × Statement)}
    (hs : s.FixesFlags number flags) (h : statements.foldlM State.advance s = .ok s') :
    s'.FixesFlags number flags := by
  refine foldlM_invariant (fun next => next.FixesFlags number flags) ?_ statements hs h
  intro next x next' hnext hstep
  exact hnext.of_effect (effect_of_advance hstep)

/-- The target of a file has the flags that it had when it got its table. -/
theorem State.FixesFlags.of_finish {line : Nat} {targets : List Target}
    (hs : s.FixesFlags number flags) (h : s.finish line = .ok targets) :
    ∃ target, targets[number]? = some target ∧ target.flags = flags := by
  obtain ⟨target, events, hclose, rfl⟩ := finish_eq_ok h
  exact getElem?_concat_of_flags hs (flags_of_close hclose)

end flags

/-- The states around a line of a file that compiles, and the rest of the compilation. -/
theorem exists_states_of_line {before after : List InputLine} {line : InputLine}
    {targets : List Target} (h : (compile (before ++ line :: after)).result = .ok targets) :
    ∃ s s' last number, (statementsFrom 1 before).foldlM State.advance {} = .ok s ∧
      s.line (before.length + 1) line = .ok s' ∧
      (statementsFrom (before.length + 2) after).foldlM State.advance s' = .ok last ∧
      last.finish number = .ok targets := by
  rw [compile_result] at h
  obtain ⟨last, hrun, hfinish⟩ := bind_eq_ok.mp h
  have hstatements : readLines (before ++ line :: after) = statementsFrom 1 before ++
      (line.statements (before.length + 1) ++ statementsFrom (before.length + 2) after) := by
    show statementsFrom 1 (before ++ line :: after) = _
    rw [statementsFrom_append, statementsFrom_cons, Nat.add_comm 1]
  rw [hstatements, List.foldlM_append] at hrun
  obtain ⟨s, hbefore, hrun⟩ := bind_eq_ok.mp hrun
  rw [List.foldlM_append] at hrun
  obtain ⟨s', hline, hafter⟩ := bind_eq_ok.mp hrun
  exact ⟨s, s', last, _, hbefore, hline, hafter, hfinish⟩

/-- A line with the mark of a conditional definition is one if it succeeds. -/
theorem exists_statement_of_conditional {s s' : State} {line : InputLine} {number : Nat}
    {rest : List Char} (hcontent : line.content number = '?' :: rest)
    (h : s.line number line = .ok s') :
    ∃ statement, readInputLine number line = [.seal, .table statement] ∧
      ∃ (condition steps : List Char) (other : Option (List Char)),
        splitOn ':' rest = condition :: steps :: other.toList ∧
        statement = .defineWhen (String.ofList (trim condition)) (readSteps steps)
          (other.map readSteps) := by
  obtain ⟨text, hbare, hread⟩ := exists_text_of_content hcontent
  have hstatements : readInputLine number line = [.seal, readConditional rest] :=
    hread.trans (readLine_conditional hbare)
  rcases readConditional_cases rest with ⟨fault, hfail⟩ | ⟨condition, steps, other, hparts, htable⟩
  · rw [hfail] at hstatements
    rw [State.line, InputLine.statements, hstatements] at h
    have hmem : (number, .fail fault) ∈
        [Statement.seal, .fail fault].map fun statement => (number, statement) := by simp
    exact absurd hmem (not_fail_of_run h)
  · rw [htable] at hstatements
    exact ⟨_, hstatements, condition, steps, other, hparts, rfl⟩

/-- A line about the table seals the target, unless it is sealed, and makes its request. -/
theorem exists_run_of_line {s s' : State} {line : InputLine} {number : Nat}
    {statement : TableStatement} (hread : readInputLine number line = [.seal, .table statement])
    (h : s.line number line = .ok s') :
    ∃ layout t sealing command t', s.draft.sealed = .ok (layout, t, sealing) ∧
      s.command t.config statement = .ok command ∧ t.run command = .ok t' ∧
      s' = { s with draft := { s.draft with stage := .sealed layout t' } } := by
  rw [State.line, InputLine.statements, hread] at h
  obtain ⟨sealed, hseal, h⟩ := bind_eq_ok.mp h
  obtain ⟨next, htable, heq⟩ := bind_eq_ok.mp h
  cases heq
  cases effect_of_advance hseal with
  | «seal» layout t sealing hsealed =>
    cases effect_of_advance htable with
    | table _ layout' t' after command events hsame hcommand hrun =>
      rw [sealed_of_stage rfl] at hsame
      cases hsame
      exact ⟨layout, t, sealing, command, after, hsealed, hcommand, hrun, rfl⟩

/-- The table of the target being built, before and after a line of a file. The table before it is
the one that sealing makes if there is none. -/
structure TablesAround (before : List InputLine) (line : InputLine) (s : State) (t t' : Table) :
    Prop where
  start : (statementsFrom 1 before).foldlM State.advance {} = .ok s
  first : ∃ layout events, s.draft.sealed = .ok (layout, t, events)
  second : ∃ s', s.line (before.length + 1) line = .ok s' ∧ s'.draft.stage.table? = some t'

/-- What stands after the mark of a conditional line: a condition on the flags, steps and perhaps
others, which have these words. -/
def ReadsConditional (s : State) (config : TableConfig) (flags : Flags) (rest : List Char)
    (c : Condition) (matched : List Word) (fallback : Option (List Word)) : Prop :=
  ∃ (condition steps : List Char) (other : Option (List Char)),
    splitOn ':' rest = condition :: steps :: other.toList ∧
    flags.readCondition (String.ofList (trim condition)) = .ok c ∧
    s.words config (readSteps steps) = .ok matched ∧
    (other.map readSteps).mapM (s.words config) = .ok fallback

/-- A condition has the slices in which some literal holds, in ascending order, however its literals
are arranged and repeated, and the number of its bits says how many there are. The steps of a
conditional line go to those of the slices that are not reserved. -/
theorem slices_of_conditions :
    (∀ (f : Flags) (c : Condition),
      (f.matching c).Pairwise (· < ·) ∧
      (∀ slice, slice ∈ f.matching c ↔
        slice < 2 ^ f.bits ∧ ∃ l ∈ c.literals, slice.testBit l.bit = l.value) ∧
      (∀ c' : Condition, (∀ l, l ∈ c'.literals ↔ l ∈ c.literals) →
        f.matching c' = f.matching c) ∧
      ((∀ l ∈ c.literals, l.bit < f.bits) →
        (c.TakesBoth → (f.matching c).length = 2 ^ f.bits) ∧
        (¬ c.TakesBoth →
          (f.matching c).length = 2 ^ f.bits - 2 ^ (f.bits - c.bits.card)))) ∧
    ∀ (before : List InputLine) (line : InputLine) (after : List InputLine)
      (targets : List Target) (rest : List Char),
      (compile (before ++ line :: after)).result = .ok targets →
      line.content (before.length + 1) = '?' :: rest →
      ∃ s t t' target c matched fallback, TablesAround before line s t t' ∧
        targets[s.targets.length]? = some target ∧ t.slices = 2 ^ target.flags.bits ∧
        ReadsConditional s t.config target.flags rest c matched fallback ∧
        ∀ slice, t'.kept (.cell slice t.cursor) =
          if slice ∈ target.flags.matching c ∧ t.reserved[slice]? = some none then
            some (t.config.fit matched).toList
          else t.passed fallback slice := by
  refine ⟨?_, ?_⟩
  · intro f c
    refine ⟨f.pairwise_matching c, f.mem_matching c, fun c' => Flags.matching_congr, ?_⟩
    intro hbits
    refine ⟨?_, ?_⟩
    · intro hboth
      rw [Flags.length_matching hbits, Condition.prod_spare_of_takesBoth hbits hboth, Nat.sub_zero]
    · intro hboth
      rw [Flags.length_matching hbits, Condition.prod_spare_of_not_takesBoth hbits hboth]
  · intro before line after targets rest hcompile hcontent
    obtain ⟨s, s', last, number, hbefore, hline, hafter, hfinish⟩ :=
      exists_states_of_line hcompile
    obtain ⟨statement, hstatement, condition, steps, other, hparts, rfl⟩ :=
      exists_statement_of_conditional hcontent hline
    obtain ⟨layout, t, sealing, command, t', hsealed, hcommand, hrun, rfl⟩ :=
      exists_run_of_line hstatement hline
    obtain ⟨c, matched, fallback, hc, hmatched, hfallback, rfl⟩ := command_defineWhen hcommand
    have hfixed : State.FixesFlags { s with draft := { s.draft with stage := .sealed layout t' } }
        s.targets.length s.draft.flags := .inl ⟨rfl, rfl, rfl⟩
    obtain ⟨target, htarget, hflags⟩ := (hfixed.of_run hafter).of_finish hfinish
    have hsuited := (sound_of_readLines hbefore).draft.suited hsealed
    have hslices : t.slices = 2 ^ target.flags.bits := by
      rw [hflags, hsuited.slices, hsuited.flags, Layout.count_eq]
    refine ⟨s, t, t', target, c, matched, fallback, ⟨hbefore, ⟨layout, sealing, hsealed⟩, _, hline,
      rfl⟩, htarget, hslices, ⟨condition, steps, other, hparts, ?_, hmatched, hfallback⟩, ?_⟩
    · rw [hflags]
      exact ofEngine_eq_ok hc
    · intro slice
      rw [Table.kept_defineNextWhen hrun]
      apply if_congr _ rfl rfl
      rw [Flags.mem_matching, ← Condition.holds_iff, ← hslices]
      have hlt (hfree : t.reserved[slice]? = some none) : slice < t.slices :=
        (Vector.getElem?_eq_some_iff.mp hfree).1
      exact ⟨fun h => ⟨⟨hlt h.2, h.1⟩, h.2⟩, fun h => ⟨h.1.2, h.2⟩⟩

/-- Two flags, and a reservation of the slices with the first of them. -/
def reservedLines : List InputLine :=
  ["@ A B", "! layout flags:2 opcode:1 step:1", "! flags Z:0 C:1", "^ Z=1 : A"].map fun s =>
    .text s.toList

/-- A conditional line for these, another target after it. -/
def conditionalLines : List InputLine :=
  reservedLines ++ .text "? C=1, Z = 0,C=1 : B | A : B".toList ::
    ["! name next", "! layout flags:1 opcode:1 step:0", "= A"].map fun s => .text s.toList

/-- A literal that stands twice selects no more slices, and both values of a bit select all. The
line selects slices 2 and 3, and 3 is reserved. -/
theorem slices_of_conditionalLines :
    (Flags.matching { bits := 3 } ⟨[⟨2, true⟩, ⟨0, false⟩, ⟨2, true⟩]⟩).length = 6 ∧
      (Flags.matching { bits := 3 } ⟨[⟨1, true⟩, ⟨0, false⟩, ⟨1, false⟩]⟩).length = 8 ∧
      ∃ targets s t t', (compile conditionalLines).result = .ok targets ∧
        TablesAround reservedLines (.text "? C=1, Z = 0,C=1 : B | A : B".toList) s t t' ∧
        (t'.kept (.cell 2 0)).map (List.map Word.toNat) = some [2, 1] ∧
        t'.kept (.cell 3 0) = none := by
  obtain ⟨hconditions, hlines⟩ := slices_of_conditions
  refine ⟨?_, ?_, ?_⟩
  · obtain ⟨-, -, -, hlength⟩ :=
      hconditions { bits := 3 } ⟨[⟨2, true⟩, ⟨0, false⟩, ⟨2, true⟩]⟩
    apply (hlength (by decide)).2
    rintro ⟨bit, hfalse, htrue⟩
    simp at hfalse htrue
    omega
  · obtain ⟨-, -, -, hlength⟩ :=
      hconditions { bits := 3 } ⟨[⟨1, true⟩, ⟨0, false⟩, ⟨1, false⟩]⟩
    exact (hlength (by decide)).1 ⟨1, by decide, by decide⟩
  · have hcompile : (compile conditionalLines).result.toOption.any (fun targets =>
        decide (targets[0]?.map Target.flags = some ⟨2, [⟨"Z", 0⟩, ⟨"C", 1⟩]⟩)) = true := by
      decide +kernel
    have hrun : ((statementsFrom 1 reservedLines).foldlM State.advance {}).toOption.any (fun s =>
        s.targets.isEmpty && s.draft.sealed.toOption.any fun p =>
          p.2.1.cursor == 0 && decide (p.2.1.reserved[2]? = some none) &&
          decide (p.2.1.reserved[3]? ≠ some none) && (p.2.1.kept (.cell 3 0)).isNone &&
          (s.words p.2.1.config (readSteps " B | A ".toList)).toOption.any fun words =>
            (p.2.1.config.fit words).toList.map Word.toNat == [2, 1]) = true := by decide +kernel
    obtain ⟨targets, hcompile, hflags⟩ := exists_ok_of_any hcompile
    obtain ⟨s, t, t', target, c, matched, fallback, htables, htarget, -, hreads, hkept⟩ :=
      hlines reservedLines _ _ targets " C=1, Z = 0,C=1 : B | A : B".toList hcompile (by decide)
    obtain ⟨s', hs, hrun⟩ := exists_ok_of_any hrun
    obtain rfl : s' = s := Except.ok.inj (hs.symm.trans htables.start)
    obtain ⟨hfirst, hrun⟩ := Bool.and_eq_true_iff.mp hrun
    obtain ⟨p, hp, hrun⟩ := exists_ok_of_any hrun
    obtain ⟨layout, events, hsealed⟩ := htables.first
    obtain rfl : p = (layout, t, events) := Except.ok.inj (hp.symm.trans hsealed)
    simp only [Bool.and_eq_true, beq_iff_eq, decide_eq_true_eq, Option.isNone_iff_eq_none] at hrun
    obtain ⟨⟨⟨⟨hcursor, hfree⟩, hreserved⟩, hnone⟩, hwords⟩ := hrun
    obtain ⟨words, hwords, hvalues⟩ := exists_ok_of_any hwords
    have htargetFlags : target.flags = ⟨2, [⟨"Z", 0⟩, ⟨"C", 1⟩]⟩ := by
      rw [List.isEmpty_iff.mp hfirst] at htarget
      rw [decide_eq_true_eq, show targets[0]? = some target from htarget] at hflags
      exact Option.some.inj hflags
    obtain ⟨condition, steps, other, hparts, hc, hmatched, -⟩ := hreads
    have hsplit : splitOn ':' " C=1, Z = 0,C=1 : B | A : B".toList =
        [" C=1, Z = 0,C=1 ".toList, " B | A ".toList, " B".toList] := by decide
    obtain ⟨rfl, hrest⟩ := List.cons.inj (hsplit.symm.trans hparts)
    obtain ⟨rfl, -⟩ := List.cons.inj hrest
    obtain rfl := Except.ok.inj (hwords.symm.trans hmatched)
    rw [htargetFlags] at hc hkept
    obtain rfl : c = ⟨[⟨1, true⟩, ⟨0, false⟩, ⟨1, true⟩]⟩ := Except.ok.inj (hc.symm.trans rfl)
    rw [hcursor] at hkept
    refine ⟨targets, s', t, t', hcompile, htables, ?_, ?_⟩
    · rw [hkept 2, if_pos ⟨by decide, hfree⟩]
      exact congrArg some (beq_iff_eq.mp hvalues)
    · rw [hkept 3, if_neg fun h => hreserved h.2, Table.passed_of_reserved hreserved, hcursor]
      exact hnone

end Source

end ControlStore
