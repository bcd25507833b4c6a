import ControlStore.Proofs.Reading
import ControlStore.Proofs.Sections
import ControlStore.Proofs.Statements
import ControlStore.Proofs.Terms

/-! Composites and abbreviated sequences stand for the text of their definitions. They were built
when they were defined, and what they were built from still means the same, unless values have been
named since. -/

namespace ControlStore.Source

open Text

/-- Every term and every sequence of the one state means the same in the other. -/
structure Keeps (s s' : State) : Prop where
  terms : ∀ term w, s.signals.resolveTerm term = .ok w → s'.signals.resolveTerm term = .ok w
  sequences : ∀ name words, s.sequences.lookup name = some words →
    s'.sequences.lookup name = some words

section keeps

variable {s s' s'' : State}

theorem Keeps.refl (s : State) : Keeps s s := ⟨fun _ _ h => h, fun _ _ h => h⟩

theorem Keeps.trans (h : Keeps s s') (h' : Keeps s' s'') : Keeps s s'' :=
  ⟨fun term w hw => h'.terms term w (h.terms term w hw),
    fun name words hwords => h'.sequences name words (h.sequences name words hwords)⟩

theorem Keeps.with_signals {signals : Signals} {c : SignalCommand}
    (h : s.signals.run c = .ok signals) (hc : ∀ field names, c ≠ .nameValues field names) :
    Keeps s { s with signals } := by
  refine ⟨?_, fun _ _ hwords => hwords⟩
  intro term w hw
  refine Signals.resolveTerm_run h ?_ hw
  rintro field text - ⟨names, heq, -⟩
  exact hc field names heq

/-- Only the naming of values can change what is already there. -/
theorem Keeps.of_effect {statement : Statement} (h : Effect s statement s')
    (hno : ∀ field names, statement ≠ .nameValues field names) : Keeps s s' := by
  cases h with
  | declare d signals h =>
    refine Keeps.with_signals h ?_
    intro field names
    unfold Declaration.command
    split
    · simp
    split
    · simp
    split <;> simp
  | nameValues field names signals h => exact absurd rfl (hno field names)
  | compose name terms signals h => exact Keeps.with_signals h (by simp)
  | abbreviate name steps words hnew h =>
    refine ⟨fun _ _ hw => hw, ?_⟩
    intro name' words' hwords
    show (s.sequences ++ [(name, words.1)]).lookup name' = some words'
    rw [List.lookup_append, hwords]
    rfl
  | _ => exact ⟨fun _ _ hw => hw, fun _ _ hwords => hwords⟩

theorem Keeps.of_run {statements : List (Nat × Statement)}
    (h : statements.foldlM State.advance s = .ok s')
    (hno : ∀ x ∈ statements, ∀ field names, x.2 ≠ .nameValues field names) : Keeps s s' := by
  induction statements generalizing s with
  | nil =>
    cases h
    exact Keeps.refl _
  | cons x rest ih =>
    rw [List.foldlM_cons] at h
    obtain ⟨next, hnext, hrest⟩ := bind_eq_ok.mp h
    obtain ⟨hx, hrest'⟩ := List.forall_mem_cons.mp hno
    exact (Keeps.of_effect (effect_of_advance hnext) hx).trans (ih hrest hrest')

theorem Keeps.build (h : Keeps s s') {terms : List String} {w : Word}
    (hw : s.signals.build terms = .ok w) : s'.signals.build terms = .ok w :=
  Signals.build_of_resolveTerm hw fun term _ v hv => h.terms term v hv

theorem Keeps.stepWords (h : Keeps s s') {step : Step} {words : List Word}
    (hwords : s.stepWords step = .ok words) : s'.stepWords step = .ok words := by
  cases step with
  | terms terms =>
    obtain ⟨w, hw, heq⟩ := bind_eq_ok.mp hwords
    have hbuild := h.build (ofEngine_eq_ok hw)
    rw [State.stepWords, hbuild]
    exact heq
  | splice name =>
    rw [State.stepWords] at hwords ⊢
    cases hlookup : s.sequences.lookup name with
    | none =>
      rw [hlookup] at hwords
      cases hwords
    | some found =>
      rw [hlookup] at hwords
      rw [h.sequences name found hlookup]
      exact hwords
  | partialSplice text => cases hwords
  | fill => exact hwords

end keeps

/-- Adds words to those before a fill or, once there was one, to those after it. -/
def place (acc : List Word × Option (List Word)) (words : List Word) :
    List Word × Option (List Word) :=
  match acc.2 with
  | none => (acc.1 ++ words, none)
  | some after => (acc.1, some (after ++ words))

theorem place_nil (acc : List Word × Option (List Word)) : place acc [] = acc := by
  obtain ⟨before, after⟩ := acc
  cases after <;> simp [place]

theorem place_append (acc : List Word × Option (List Word)) (a b : List Word) :
    place (place acc a) b = place acc (a ++ b) := by
  obtain ⟨before, after⟩ := acc
  cases after <;> simp [place]

section steps

variable {s s' : State}

theorem addStep_eq_ok {fillAllowed : Bool} {acc acc' : List Word × Option (List Word)}
    (step : Step) (hfill : step ≠ .fill) :
    s.addStep fillAllowed acc step = .ok acc' ↔
      ∃ words, s.stepWords step = .ok words ∧ acc' = place acc words := by
  rw [State.addStep, if_neg hfill]
  cases s.stepWords step with
  | error e => simp [bind, Except.bind]
  | ok words =>
    obtain ⟨before, after⟩ := acc
    cases after <;> simp [bind, Except.bind, place, pure, Except.pure, eq_comm]

theorem ne_fill_of_addStep {acc acc' : List Word × Option (List Word)} {step : Step}
    (h : s.addStep false acc step = .ok acc') : step ≠ .fill := by
  rintro rfl
  cases h

/-- The words of an abbreviated sequence do not depend on where it is used, nor on what has been
defined since. -/
theorem foldlM_addStep_of_keeps (hkeeps : Keeps s s') {steps : List Step}
    {start result : List Word × Option (List Word)}
    (h : steps.foldlM (s.addStep false) start = .ok result) :
    ∃ words, result = place start words ∧
      ∀ fillAllowed acc, steps.foldlM (s'.addStep fillAllowed) acc = .ok (place acc words) := by
  -- There is no fill in a definition, so each of its steps adds words where the last one did.
  induction steps generalizing start with
  | nil =>
    cases h
    refine ⟨[], (place_nil _).symm, ?_⟩
    intro fillAllowed acc
    exact congrArg Except.ok (place_nil acc).symm
  | cons step rest ih =>
    rw [List.foldlM_cons] at h
    obtain ⟨next, hnext, hrest⟩ := bind_eq_ok.mp h
    have hfill := ne_fill_of_addStep hnext
    obtain ⟨first, hfirst, rfl⟩ := (addStep_eq_ok step hfill).mp hnext
    obtain ⟨others, rfl, hothers⟩ := ih hrest
    refine ⟨first ++ others, place_append start first others, ?_⟩
    intro fillAllowed acc
    have hstep : s'.addStep fillAllowed acc step = .ok (place acc first) :=
      (addStep_eq_ok step hfill).mpr ⟨first, hkeeps.stepWords hfirst, rfl⟩
    rw [List.foldlM_cons, hstep, ← place_append acc first others]
    exact hothers fillAllowed (place acc first)

theorem foldlM_addStep_singleton (fillAllowed : Bool) (acc : List Word × Option (List Word))
    (step : Step) : [step].foldlM (s.addStep fillAllowed) acc = s.addStep fillAllowed acc step := by
  rw [List.foldlM_cons]
  exact bind_pure _

/-- Steps that give the same words in every place may stand for one another. -/
theorem words_replace {config : TableConfig} {before old new after : List Step} {words : List Word}
    (hsame : ∀ acc acc', old.foldlM (s.addStep true) acc = .ok acc' →
      new.foldlM (s.addStep true) acc = .ok acc')
    (h : s.words config (before ++ old ++ after) = .ok words) :
    s.words config (before ++ new ++ after) = .ok words := by
  obtain ⟨split, hsplit, hwords⟩ := bind_eq_ok.mp h
  refine bind_eq_ok.mpr ⟨split, ?_, hwords⟩
  rw [State.splitWords, List.foldlM_append, List.foldlM_append] at hsplit ⊢
  obtain ⟨acc', hmid, hafter⟩ := bind_eq_ok.mp hsplit
  obtain ⟨acc, hbefore, hold⟩ := bind_eq_ok.mp hmid
  exact bind_eq_ok.mpr ⟨acc', bind_eq_ok.mpr ⟨acc, hbefore, hsame acc acc' hold⟩, hafter⟩

end steps

/-- Steps with bars between them. -/
def joined (steps : List (List Char)) : List Char := ['|'].intercalate steps

theorem readSteps_joined {steps : List (List Char)} (h : steps ≠ []) :
    readSteps (joined steps) = steps.flatMap readSteps := by
  rw [readSteps, joined, splitOn, pieces_intercalate_flatMap '|' rfl steps h, List.map_flatMap]
  rfl

theorem readSteps_of_not_mem {s : List Char} (h : '|' ∉ s) : readSteps s = [readStep (trim s)] := by
  rw [readSteps, splitOn_of_not_mem '|' s h]
  rfl

theorem bar_not_mem_blanks {s : List Char} (h : Blanks s) : '|' ∉ s := by
  intro hmem
  exact absurd (h '|' hmem) (by decide)

theorem readSteps_blanks_append {left : List Char} (s : List Char) (h : Blanks left) :
    readSteps (left ++ s) = readSteps s := by
  obtain ⟨first, rest, hs⟩ := exists_pieces_cons (· == '|') s
  have hleft : pieces (· == '|') left = [] ++ [left] :=
    splitOn_of_not_mem '|' left (bar_not_mem_blanks h)
  have htrim : trim (left ++ first) = trim first := by
    simpa using trim_pad left first [] h blanks_nil
  rw [readSteps, readSteps, splitOn, splitOn, pieces_append_pieces hleft hs, hs]
  simp [htrim]

theorem readSteps_append_blanks (s : List Char) {right : List Char} (h : Blanks right) :
    readSteps (s ++ right) = readSteps s := by
  obtain ⟨first, rest, hs⟩ := exists_pieces_cons (· == '|') s
  have hne : pieces (· == '|') s ≠ [] := by
    rw [hs]
    exact List.cons_ne_nil first rest
  obtain ⟨others, last, hs⟩ := (List.eq_nil_or_concat' _).resolve_left hne
  have hright : pieces (· == '|') right = [right] :=
    splitOn_of_not_mem '|' right (bar_not_mem_blanks h)
  have htrim : trim (last ++ right) = trim last := by
    simpa using trim_pad [] last right blanks_nil h
  rw [readSteps, readSteps, splitOn, splitOn, pieces_append_pieces hs hright, hs]
  simp [htrim]

/-- A step in which a name stands as a term is a list of terms, unless it is malformed. -/
theorem readStep_of_mem_words {s name : List Char} (hname : Over [] name) (h : name ∈ words s) :
    readStep (trim s) = .terms ((words s).map String.ofList) ∨
      ∃ text, readStep (trim s) = .partialSplice text := by
  rw [← words_trim] at h ⊢
  have hone {t : List Char} (ht : Token t) (htrim : trim s = t) : name = t := by
    rw [htrim, ht.words] at h
    exact List.mem_singleton.mp h
  unfold readStep
  split
  · rename_i heq
    have hdots := hone ⟨List.cons_ne_nil _ _, by decide⟩ heq
    exact absurd (hdots ▸ hname) (by decide)
  · rename_i rest heq
    split
    · exact .inr ⟨_, rfl⟩
    · rename_i hblank
      have hsolid : Solid ('%' :: rest) := by
        refine List.forall_mem_cons.mpr ⟨by decide, ?_⟩
        simpa using hblank
      have hmark := hone ⟨List.cons_ne_nil _ _, hsolid⟩ heq
      exact absurd (hname '%' (hmark ▸ List.mem_cons_self)) (by decide)
  · rename_i heq
    have hdash := hone ⟨List.cons_ne_nil _ _, by decide⟩ heq
    exact absurd (hdash ▸ hname) (by decide)
  · exact .inl rfl

theorem over_of_validName {name : List Char} (h : Signals.ValidName (String.ofList name)) :
    name ≠ [] ∧ Over [] name := by
  obtain ⟨hne, hchars, -⟩ := h
  refine ⟨by simpa using hne, ?_⟩
  intro c hc
  have hchar := hchars c (by simpa using hc)
  exact .inl (by simpa [isNameChar] using hchar)

/-- What is written for a term with a meaning starts like a name. -/
theorem exists_nameChar_of_resolveTerm {signals : Signals} {term : List Char} {w : Word}
    (hs : signals.Sound) (h : signals.resolveTerm (String.ofList term) = .ok w) :
    ∃ c rest, term = c :: rest ∧ isNameChar c = true := by
  have hstart {name : List Char} (hmem : String.ofList name ∈ signals.names) :
      ∃ c rest, name = c :: rest ∧ isNameChar c = true := by
    obtain ⟨hne, hover⟩ := over_of_validName (hs.valid _ hmem)
    obtain ⟨c, rest, rfl⟩ := List.exists_cons_of_ne_nil hne
    exact ⟨c, rest, rfl, (hover c List.mem_cons_self).resolve_right List.not_mem_nil⟩
  have hline {name : List Char} {l : Line} (hl : signals.line? (String.ofList name) = some l) :
      String.ofList name ∈ signals.names := by
    obtain ⟨hmem, hname⟩ := Signals.mem_of_line?_eq_some hl
    exact List.mem_append_left _ (hname ▸ List.mem_map_of_mem hmem)
  unfold Signals.resolveTerm at h
  cases hcut : cut '=' (String.ofList term).toList with
  | none =>
    rw [hcut] at h
    rcases Signals.resolve_eq_ok.mp h with ⟨l, hl, -⟩ | ⟨-, hlookup⟩
    · exact hstart (hline hl)
    · exact hstart (Signals.mem_names_of_lookup hlookup)
  | some p =>
    obtain ⟨name, text⟩ := p
    rw [hcut] at h
    obtain ⟨l, hl, -⟩ := bind_eq_ok.mp h
    obtain ⟨c, rest, rfl, hc⟩ := hstart (hline ((Signals.line_eq_ok_iff _ _ _).mp hl))
    have hterm := (eq_of_cut hcut).2
    rw [String.toList_ofList] at hterm
    exact ⟨c, rest ++ '=' :: text, hterm, hc⟩

/-- Terms that have a meaning are read as a list of terms. -/
theorem readStep_of_build {signals : Signals} {s : List Char} {w : Word} (hs : signals.Sound)
    (h : signals.build ((words s).map String.ofList) = .ok w) :
    readStep (trim s) = .terms ((words s).map String.ofList) := by
  rw [← words_trim] at h ⊢
  cases htrim : trim s with
  | nil => rfl
  | cons c rest =>
    rw [htrim] at h
    have hc : isBlank c = false := starts_trim s c (by rw [htrim]; rfl)
    obtain ⟨first, others, hwords⟩ := words_cons rest hc
    have hmem : String.ofList (c :: first) ∈ (words (c :: rest)).map String.ofList := by
      rw [hwords]
      exact List.mem_cons_self
    obtain ⟨v, hv⟩ := Signals.exists_of_mem_build h hmem
    obtain ⟨c', rest', heq, hname⟩ := exists_nameChar_of_resolveTerm hs hv
    cases heq
    exact Written.readStep_of_nameChar c rest hname

/-- A line defines a name, after a mark, as a text, and no line after it names values. -/
def Defines (lines : List InputLine) (mark : Char) (name text : List Char) : Prop :=
  ∃ before rest part after, contents lines = before ++ (mark :: rest) :: after ∧
    cut '=' rest = some (part, text) ∧ trim part = name ∧ ∀ c ∈ after, c.head? ≠ some '~'

/-- One step becomes another text when a name in it gives way to its definition: the whole step, or
a term of it. -/
inductive Unfolds (name definition : List Char) : Char → List Char → List Char → Prop
  | step (left right left' right' : List Char) (hleft : Blanks left) (hright : Blanks right)
    (hleft' : Blanks left') (hright' : Blanks right') :
    Unfolds name definition '%' (left ++ ('%' :: name) ++ right) (left' ++ definition ++ right')
  | term (left right : List Char) (hleft : ∀ c ∈ left.getLast?, isBlank c = true)
    (hright : ∀ c ∈ right.head?, isBlank c = true) (hbars : '|' ∉ left ++ right)
    (hdefinition : '|' ∉ definition) :
    Unfolds name definition '$' (left ++ name ++ right) (left ++ definition ++ right)

theorem head?_of_nameValues_mem {line : InputLine} {number : Nat} {field : String}
    {names : List String} (h : .nameValues field names ∈ readInputLine number line) :
    (line.content number).head? = some '~' := by
  rcases mayStart_readInputLine h with ⟨fault, hfail⟩ | ⟨c, rest, hcontent, hc⟩
  · cases hfail
  · have hc : c = '~' := hc
    rw [hcontent, hc]
    rfl

/-- The states around the line that defines a name. What it defines is kept. -/
theorem exists_states_of_defines {lines : List InputLine} {mark : Char} {name text : List Char}
    {s : State} (hrun : (readLines lines).foldlM State.advance {} = .ok s)
    (h : Defines lines mark name text) :
    ∃ (line : InputLine) (number : Nat) (rest part : List Char) (s₀ s₁ : State),
      line.content number = mark :: rest ∧
      cut '=' rest = some (part, text) ∧ trim part = name ∧
      (line.statements number).foldlM State.advance s₀ = .ok s₁ ∧ Keeps s₁ s := by
  obtain ⟨before, rest, part, after, hcontents, hcut, htrim, hno⟩ := h
  obtain ⟨lines₁, lines', hlines, -, hmap⟩ := List.map_eq_append_iff.mp hcontents
  obtain ⟨⟨line, number⟩, lines₂, rfl, hcontent, rfl⟩ := List.map_eq_cons_iff.mp hmap
  rw [readLines, hlines, List.flatMap_append, List.flatMap_cons, List.foldlM_append] at hrun
  obtain ⟨s₀, -, hrun⟩ := bind_eq_ok.mp hrun
  rw [List.foldlM_append] at hrun
  obtain ⟨s₁, hline, hrest⟩ := bind_eq_ok.mp hrun
  refine ⟨line, number, rest, part, s₀, s₁, hcontent, hcut, htrim, hline, Keeps.of_run hrest ?_⟩
  intro x hx field names heq
  obtain ⟨⟨line', number'⟩, hmem, hx⟩ := List.mem_flatMap.mp hx
  obtain ⟨statement, hstatement, rfl⟩ := List.mem_map.mp hx
  have hstatement : .nameValues field names ∈ readInputLine number' line' :=
    (show statement = .nameValues field names from heq) ▸ hstatement
  exact hno _ (List.mem_map_of_mem hmem) (head?_of_nameValues_mem hstatement)

/-- An abbreviated sequence means what its definition says. -/
theorem sequence_of_defines {lines : List InputLine} {name text : List Char} {s : State}
    (hrun : (readLines lines).foldlM State.advance {} = .ok s) (h : Defines lines '%' name text) :
    isName name = true ∧ ∃ words, s.sequences.lookup (String.ofList name) = some words ∧
      ∀ acc, (readSteps text).foldlM (s.addStep true) acc = .ok (place acc words) := by
  obtain ⟨line, number, rest, part, s₀, s₁, hcontent, hcut, htrim, hline, hkeeps⟩ :=
    exists_states_of_defines hrun h
  obtain ⟨source, hsource, hread⟩ := exists_text_of_content hcontent
  have heffect := effect_of_line (hread.trans (readLine_abbreviation hsource)) hline
  rw [readAbbreviation, hcut] at heffect
  dsimp only at heffect
  rw [htrim] at heffect
  cases hname : isName name with
  | false =>
    rw [hname] at heffect
    cases heffect
  | true =>
    rw [hname, if_pos rfl] at heffect
    have hstep : Keeps s₀ s₁ := Keeps.of_effect heffect (by simp)
    cases heffect with
    | abbreviate _ _ split hnew hsplit =>
      obtain ⟨words, rfl, hwords⟩ := foldlM_addStep_of_keeps (hstep.trans hkeeps) hsplit
      refine ⟨rfl, words, hkeeps.sequences _ _ ?_, hwords true⟩
      show (s₀.sequences ++ [(String.ofList name, words)]).lookup (String.ofList name) = some words
      rw [List.lookup_append, hnew]
      simp

/-- So does a composite. -/
theorem composite_of_defines {lines : List InputLine} {name text : List Char} {s : State}
    (hrun : (readLines lines).foldlM State.advance {} = .ok s) (h : Defines lines '$' name text) :
    Signals.ValidName (String.ofList name) ∧
      ∃ w, s.signals.resolveTerm (String.ofList name) = .ok w ∧
        s.signals.build ((words text).map String.ofList) = .ok w := by
  obtain ⟨line, number, rest, part, s₀, s₁, hcontent, hcut, htrim, hline, hkeeps⟩ :=
    exists_states_of_defines hrun h
  obtain ⟨source, hsource, hread⟩ := exists_text_of_content hcontent
  have heffect := effect_of_line (hread.trans (readLine_composite hsource)) hline
  rw [readComposite, hcut] at heffect
  dsimp only at heffect
  rw [htrim] at heffect
  have hstep : Keeps s₀ s₁ := Keeps.of_effect heffect (by simp)
  cases heffect with
  | compose _ _ signals hsignals =>
    rw [Signals.run_compose] at hsignals
    obtain ⟨⟨w, _⟩, hcompose, rfl⟩ := map_eq_ok.mp hsignals
    obtain ⟨hvalid, hnew, hw, rfl⟩ := Signals.compose_eq_ok hcompose
    refine ⟨hvalid, w, hkeeps.terms _ _ ?_, (hstep.trans hkeeps).build hw⟩
    have hcut : cut '=' name = none :=
      cut_of_not_mem '=' name ((over_of_validName hvalid).2.not_mem '=' (by decide))
    rw [Signals.resolveTerm, String.toList_ofList, hcut]
    refine Signals.resolve_eq_ok.mpr (.inr ⟨?_, ?_⟩)
    · -- The name is that of no line, or it could not have been given to the composite.
      rw [Signals.line?_eq_none_iff]
      exact fun hmem => hnew (List.mem_append_left _ hmem)
    · show (s₀.signals.composites ++ [(String.ofList name, w)]).lookup _ = some w
      have hnone : s₀.signals.composites.lookup (String.ofList name) = none := by
        rw [Signals.lookup_eq_none_iff]
        exact fun hmem => hnew (List.mem_append_right _ hmem)
      rw [List.lookup_append, hnone]
      simp

theorem readSteps_reference {name : List Char} (h : isName name = true) :
    readSteps ('%' :: name) = [.splice (String.ofList name)] := by
  have hover : Over [] name := by
    rw [isName, Bool.and_eq_true, List.all_eq_true] at h
    exact fun c hc => .inl (h.2 c hc)
  have hbar : '|' ∉ '%' :: name := by
    simpa using hover.not_mem '|' (by decide)
  have htoken : Token ('%' :: name) :=
    Over.token (hover.mono (List.nil_subset ['%']) |>.cons (.inr List.mem_cons_self))
      (List.cons_ne_nil _ _) (by decide)
  have hblank : ¬ name.any isBlank = true := by
    rw [List.any_eq_true]
    rintro ⟨c, hc, hblank⟩
    rw [htoken.solid c (List.mem_cons_of_mem _ hc)] at hblank
    exact Bool.false_ne_true hblank
  rw [readSteps_of_not_mem hbar, htoken.snug.trim, readStep, if_neg hblank]

/-- The step that refers to a sequence adds the words of its definition. -/
theorem foldlM_addStep_definition {lines : List InputLine} {name text : List Char} {s : State}
    (hrun : (readLines lines).foldlM State.advance {} = .ok s) (h : Defines lines '%' name text)
    {acc acc' : List Word × Option (List Word)}
    (hold : (readSteps ('%' :: name)).foldlM (s.addStep true) acc = .ok acc') :
    (readSteps text).foldlM (s.addStep true) acc = .ok acc' := by
  obtain ⟨hname, words, hlookup, hwords⟩ := sequence_of_defines hrun h
  rw [readSteps_reference hname, foldlM_addStep_singleton] at hold
  obtain ⟨words', hwords', rfl⟩ := (addStep_eq_ok (.splice _) (by simp)).mp hold
  rw [State.stepWords, hlookup] at hwords'
  cases hwords'
  exact hwords acc

theorem words_between {left right : List Char} (middle : List Char)
    (hleft : ∀ c ∈ left.getLast?, isBlank c = true)
    (hright : ∀ c ∈ right.head?, isBlank c = true) :
    words (left ++ middle ++ right) = words left ++ words middle ++ words right := by
  rw [words_append_right _ right hright, words_append_left left middle hleft]

/-- Terms with a composite among them have the word of those with its definition in its place. -/
theorem build_definition {signals : Signals} {before after terms : List String} {name : String}
    {v w : Word} (hname : signals.resolveTerm name = .ok v) (hterms : signals.build terms = .ok v)
    (h : signals.build (before ++ [name] ++ after) = .ok w) :
    signals.build (before ++ terms ++ after) = .ok w := by
  obtain ⟨ab, c, hab, hc, rfl⟩ := Signals.build_append_eq_ok.mp h
  obtain ⟨a, b, ha, hb, rfl⟩ := Signals.build_append_eq_ok.mp hab
  have hone : signals.build [name] = .ok v :=
    Signals.build_cons_eq_ok.mpr ⟨v, Word.zero, hname, rfl, (Word.or_zero v).symm⟩
  obtain rfl := Except.ok.inj (hone.symm.trans hb)
  exact Signals.build_append_eq_ok.mpr
    ⟨_, c, Signals.build_append_eq_ok.mpr ⟨a, v, ha, hterms, rfl⟩, hc, rfl⟩

/-- A step with a composite among its terms adds the word of the step with its definition. -/
theorem addStep_definition {lines : List InputLine} {name text left right : List Char} {s : State}
    (hrun : (readLines lines).foldlM State.advance {} = .ok s) (hsound : s.signals.Sound)
    (h : Defines lines '$' name text) (hleft : ∀ c ∈ left.getLast?, isBlank c = true)
    (hright : ∀ c ∈ right.head?, isBlank c = true) {acc acc' : List Word × Option (List Word)}
    (hold : s.addStep true acc (readStep (trim (left ++ name ++ right))) = .ok acc') :
    s.addStep true acc (readStep (trim (left ++ text ++ right))) = .ok acc' := by
  obtain ⟨hvalid, v, hname, htext⟩ := composite_of_defines hrun h
  obtain ⟨hne, hover⟩ := over_of_validName hvalid
  have hone : words name = [name] := (hover.token hne (by decide)).words
  have hwords := words_between name hleft hright
  rw [hone] at hwords
  have hmem : name ∈ words (left ++ name ++ right) := by
    rw [hwords]
    simp
  rcases readStep_of_mem_words hover hmem with hterms | ⟨t, hpartial⟩
  · rw [hterms] at hold
    obtain ⟨ws, hws, rfl⟩ := (addStep_eq_ok (.terms _) (by simp)).mp hold
    obtain ⟨w, hw, heq⟩ := bind_eq_ok.mp hws
    cases heq
    have hbuild := ofEngine_eq_ok hw
    rw [hwords, List.map_append, List.map_append] at hbuild
    have hnew : s.signals.build ((words (left ++ text ++ right)).map String.ofList) = .ok w := by
      rw [words_between text hleft hright, List.map_append, List.map_append]
      exact build_definition hname htext hbuild
    rw [readStep_of_build hsound hnew]
    refine (addStep_eq_ok (.terms _) (by simp)).mpr ⟨[w], ?_, rfl⟩
    rw [State.stepWords, hnew]
    rfl
  · -- A malformed step has no words.
    rw [hpartial] at hold
    obtain ⟨ws, hws, -⟩ := (addStep_eq_ok (.partialSplice t) (by simp)).mp hold
    cases hws

/-- Abbreviations are transparent: whenever steps have words, they have the same ones with the
definition of a sequence or of a composite in the place of its name, if the values of no field have
been named since the definition. -/
theorem words_of_unfolded (lines : List InputLine) (s : State)
    (hrun : (State.run #[] {} (readLines lines)).2 = .ok s) (mark : Char)
    (name definition : List Char) (hdefines : Defines lines mark name definition)
    (before after : List (List Char)) (old new : List Char)
    (hunfolds : Unfolds name definition mark old new) (config : TableConfig) (words : List Word)
    (h : s.words config (readSteps (joined (before ++ old :: after))) = .ok words) :
    s.words config (readSteps (joined (before ++ new :: after))) = .ok words := by
  have hread (step : List Char) : readSteps (joined (before ++ step :: after)) =
      before.flatMap readSteps ++ readSteps step ++ after.flatMap readSteps := by
    rw [readSteps_joined (by simp), List.flatMap_append, List.flatMap_cons, List.append_assoc]
  rw [hread] at h ⊢
  refine words_replace ?_ h
  intro acc acc' hold
  have hfold := (run_eq_foldlM #[] {} (readLines lines)).symm.trans hrun
  cases hunfolds with
  | step left right left' right' hleft hright hleft' hright' =>
    rw [readSteps_append_blanks _ hright, readSteps_blanks_append _ hleft] at hold
    rw [readSteps_append_blanks _ hright', readSteps_blanks_append _ hleft']
    exact foldlM_addStep_definition hfold hdefines hold
  | term left right hleft hright hbars hdefinition =>
    have hprogress := progress_start.run (fun _ _ _ => key_of_mem_readLines)
      (show State.run #[] {} (readLines lines) = (_, .ok s) from Prod.ext rfl hrun)
    obtain ⟨hvalid, -⟩ := composite_of_defines hfold hdefines
    have hname := (over_of_validName hvalid).2.not_mem '|' (by decide)
    have hbars (middle : List Char) (hmiddle : '|' ∉ middle) : '|' ∉ left ++ middle ++ right := by
      simp only [List.mem_append, not_or] at hbars ⊢
      exact ⟨⟨hbars.1, hmiddle⟩, hbars.2⟩
    rw [readSteps_of_not_mem (hbars name hname), foldlM_addStep_singleton] at hold
    rw [readSteps_of_not_mem (hbars definition hdefinition), foldlM_addStep_singleton]
    exact addStep_definition hfold hprogress.sound.signals hdefines hleft hright hold

/-- Sequences and composites that are defined through others, and one without terms. -/
def nestedDefinitions : List InputLine :=
  ["@ A B F/2", "~ F lo hi", "$ X = A F=hi", "$ N =", "$ Y = X B  # both", "% M = Y | A",
    "% P = %M | -", "! layout flags:0 opcode:1 step:3", "= A"].map fun s => .text s.toList

/-- A sequence and, in another step, two composites are unfolded around a fill. -/
theorem words_of_nestedDefinitions :
    ∃ s layout table words, (State.run #[] {} (readLines nestedDefinitions)).2 = .ok s ∧
      s.draft.stage = .sealed layout table ∧ words.map Word.toNat = [7, 1, 0, 0, 0, 0, 0, 7] ∧
      s.words table.config (readSteps "%P | .. | B N Y".toList) = .ok words ∧
      s.words table.config (readSteps " %M | -| .. | B   X B".toList) = .ok words := by
  have hP : Defines nestedDefinitions '%' ['P'] " %M | -".toList :=
    ⟨(contents nestedDefinitions).take 6, " P = %M | -".toList, " P ".toList,
      (contents nestedDefinitions).drop 7, by decide +kernel, by decide, by decide,
      by decide +kernel⟩
  have hY : Defines nestedDefinitions '$' ['Y'] " X B".toList :=
    ⟨(contents nestedDefinitions).take 4, " Y = X B".toList, " Y ".toList,
      (contents nestedDefinitions).drop 5, by decide +kernel, by decide, by decide,
      by decide +kernel⟩
  have hN : Defines nestedDefinitions '$' ['N'] [] :=
    ⟨(contents nestedDefinitions).take 3, " N =".toList, " N ".toList,
      (contents nestedDefinitions).drop 4, by decide +kernel, by decide, by decide,
      by decide +kernel⟩
  have hrun : (State.run #[] {} (readLines nestedDefinitions)).2.toOption.any (fun s =>
      s.draft.stage.table?.any fun table =>
        (s.words table.config (readSteps "%P | .. | B N Y".toList)).toOption.any fun words =>
          words.map Word.toNat == [7, 1, 0, 0, 0, 0, 0, 7]) = true := by decide +kernel
  obtain ⟨s, hs, hrun⟩ := exists_ok_of_any hrun
  cases hstage : s.draft.stage with
  | settings layout =>
    rw [hstage] at hrun
    cases hrun
  | sealed layout table =>
    rw [hstage] at hrun
    obtain ⟨words, hwords, hvalues⟩ := exists_ok_of_any hrun
    refine ⟨s, layout, table, words, hs, hstage, beq_iff_eq.mp hvalues, hwords, ?_⟩
    have hunfoldP := words_of_unfolded _ s hs '%' _ _ hP [] [" .. ".toList, " B N Y".toList] _ _
      (.step [] [' '] [] [] (by decide) (by decide) (by decide) (by decide)) table.config words
      hwords
    have hunfoldY := words_of_unfolded _ s hs '$' _ _ hY [" %M | -".toList, " .. ".toList] [] _ _
      (.term " B N ".toList [] (by rintro c ⟨⟩; rfl) (by simp) (by decide) (by decide)) table.config
      words hunfoldP
    exact words_of_unfolded _ s hs '$' _ _ hN [" %M | -".toList, " .. ".toList] [] _ _
      (.term " B ".toList "  X B".toList (by rintro c ⟨⟩; rfl) (by rintro c ⟨⟩; rfl) (by decide)
        (by decide)) table.config words hunfoldY

end ControlStore.Source
