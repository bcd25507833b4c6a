import ControlStore.Proofs.Address
import ControlStore.Proofs.Outcome
import ControlStore.Proofs.Text
import ControlStore.Proofs.Written
import ControlStore.Source.Reader

/-! Every written line is read as what it was written for. -/

namespace ControlStore.Written

def Declaration.statement (d : Declaration) : Source.Declaration :=
  { name := d.name.string
    width := d.size
    bit := d.bit.map UInt32.toNat
    activeLow := d.activeLow }

def Steps.statement (s : Steps) : List Source.Step := s.val.map fun step => .terms step.strings

def TableClause.statement : TableClause → Source.TableStatement
  | template c steps => .template (c.map fun c => String.ofList c.text) steps.statement
  | reserve c steps => .reserve (String.ofList c.text) steps.statement
  | seek _ opcode => .seek opcode.toNat
  | define steps => .define steps.statement
  | defineWhen c steps fallback =>
    .defineWhen (String.ofList c.text) steps.statement (fallback.map Steps.statement)

/-- What a line says. -/
def Clause.statements : Clause → List Source.Statement
  | declare d => [.declare d.statement]
  | compose name terms => [.compose name.string (terms.map Term.string)]
  | table c => [.seal, .table c.statement]

open Text

theorem Name.over (n : Name) (others : List Char) : Over others n.chars := by
  have h := n.isName
  rw [Text.isName, Bool.and_eq_true, List.all_eq_true] at h
  exact fun c hc => Or.inl (h.2 c hc)

theorem Name.ne_nil (n : Name) : n.chars ≠ [] := by
  have h := n.isName
  rw [Text.isName, Bool.and_eq_true] at h
  simpa using h.1

theorem Name.exists_cons (n : Name) : ∃ c r, n.chars = c :: r ∧ isNameChar c = true := by
  obtain ⟨c, r, hname⟩ := List.exists_cons_of_ne_nil n.ne_nil
  exact ⟨c, r, hname, by simpa using n.over [] c (hname ▸ List.mem_cons_self)⟩

theorem Name.token (n : Name) : Token n.chars := (n.over []).token n.ne_nil (by decide)

theorem Numeral.over (n : Numeral) (others : List Char) : Over others n.chars := by
  have h := n.isNumeral
  rw [Text.isNumeral, List.all_eq_true] at h
  intro c hc
  refine Or.inl ?_
  simp [isNameChar, Char.isAlphanum, h c hc]

theorem numeral_over (n : UInt32) (others : List Char) : Over others (numeral n) :=
  over_toDigits 10 n.toNat (by decide) (by decide) others

theorem marked_over (c : Char) (others : List Char) (s : Option (List Char)) (hc : c ∈ others)
    (hs : ∀ t ∈ s, Over others t) : Over others (marked c s) := by
  cases s with
  | none => exact Over.nil others
  | some t => exact Over.cons (Or.inr hc) (hs t rfl)

theorem lead_over {others s : List Char} (hs : Over others s) (hblank : ' ' ∈ others) :
    Over others (lead s) := by
  cases s with
  | nil => exact hs
  | cons c r => exact Over.cons (Or.inr hblank) hs

theorem Term.over (t : Term) : Over ['='] t.text := by
  refine (t.name.over _).append (marked_over '=' _ _ List.mem_cons_self ?_)
  intro s hs
  obtain ⟨v, -, rfl⟩ := Option.map_eq_some_iff.mp hs
  exact v.over _

theorem Term.token (t : Term) : Token t.text :=
  t.over.token (List.append_ne_nil_of_left_ne_nil t.name.ne_nil _) (by decide)

theorem termsText_over (terms : List Term) : Over ['=', ' '] (termsText terms) := by
  refine Over.intercalate (by decide) ?_
  intro p hp
  obtain ⟨t, -, rfl⟩ := List.mem_map.mp hp
  exact t.over.mono (by decide)

theorem termsText_snug (terms : List Term) : Snug (termsText terms) := by
  refine Snug.intercalate ?_
  intro p hp
  obtain ⟨t, -, rfl⟩ := List.mem_map.mp hp
  exact ⟨t.token.ne_nil, t.token.snug⟩

theorem words_termsText (terms : List Term) :
    words (termsText terms) = terms.map Term.text := by
  refine words_intercalate _ ?_
  intro p hp
  obtain ⟨t, -, rfl⟩ := List.mem_map.mp hp
  exact t.token

theorem words_lead (s : List Char) : words (lead s) = words s := by
  cases s with
  | nil => rfl
  | cons c r => exact words_of_blank ' ' _ isBlank_space

theorem trim_space_cons {s : List Char} (h : Snug s) : trim (' ' :: s) = s := by
  have hpad := trim_pad [' '] s [] blanks_space blanks_nil
  rw [List.append_nil] at hpad
  exact hpad.trans h.trim

theorem trim_spaced {s : List Char} (h : Snug s) : trim (' ' :: s ++ [' ']) = s :=
  (trim_pad [' '] s [' '] blanks_space blanks_space).trans h.trim

theorem trim_lead {s : List Char} (h : Snug s) : trim (lead s) = s := by
  cases s with
  | nil => rfl
  | cons c r => exact trim_space_cons h

theorem lead_ends {s : List Char} (h : Ends s) : Ends (lead s) := by
  cases s with
  | nil => exact h
  | cons c r => exact h.append_of_ne_nil (List.cons_ne_nil c r) (s := [' '])

theorem Step.over (s : Step) : Over ['=', ' ', '-'] s.text := by
  unfold Step.text
  split
  · decide
  · exact (termsText_over _).mono (by decide)

theorem Step.snug (s : Step) : Snug s.text := by
  unfold Step.text
  split
  · exact (Token.mk (List.cons_ne_nil _ _) (by decide)).snug
  · exact termsText_snug _

theorem readStep_of_nameChar (c : Char) (r : List Char) (hc : isNameChar c = true) :
    Source.readStep (c :: r) = .terms ((words (c :: r)).map String.ofList) := by
  unfold Source.readStep
  split
  · rename_i heq
    cases heq
    exact absurd hc (by decide)
  · rename_i heq
    cases heq
    exact absurd hc (by decide)
  · rename_i heq
    cases heq
    exact absurd hc (by decide)
  · rfl

theorem readStep_text (s : Step) : Source.readStep s.text = .terms s.strings := by
  obtain ⟨terms, dash⟩ := s
  cases terms with
  | nil => cases dash <;> rfl
  | cons t rest =>
    have hstrings : (words (termsText (t :: rest))).map String.ofList =
        (t :: rest).map Term.string := by
      rw [words_termsText, List.map_map]
      rfl
    obtain ⟨c, r, hname, hc⟩ := t.name.exists_cons
    obtain ⟨tail, htail⟩ := exists_intercalate_cons [' '] t.text (rest.map Term.text)
    have htext : termsText (t :: rest) =
        c :: (r ++ marked '=' (t.value.map Numeral.chars) ++ tail) := by
      rw [termsText, List.map_cons, htail, Term.text, hname]
      rfl
    show Source.readStep (termsText (t :: rest)) = _
    rw [htext, readStep_of_nameChar c _ hc, ← htext, hstrings]
    rfl

theorem Steps.over (s : Steps) : Over ['=', ' ', '-', '|'] s.text := by
  refine Over.intercalate (by decide) ?_
  intro p hp
  obtain ⟨step, -, rfl⟩ := List.mem_map.mp hp
  exact lead_over (step.over.mono (by decide)) (by decide)

theorem Steps.ends (s : Steps) : Ends s.text := by
  refine Ends.intercalate (by decide) ?_
  intro p hp
  obtain ⟨step, -, rfl⟩ := List.mem_map.mp hp
  exact lead_ends step.snug.ends

/-- Steps are read as they were written, also with blanks after them. -/
theorem readSteps_text (s : Steps) (after : List Char) (ha : Blanks after) :
    Source.readSteps (s.text ++ after) = s.statement := by
  have hbar : ∀ p ∈ s.val.map (fun step => lead step.text), '|' ∉ p := by
    intro p hp
    obtain ⟨step, -, rfl⟩ := List.mem_map.mp hp
    exact (lead_over step.over (by decide)).not_mem '|' (by decide)
  have hpieces := map_trim_splitOn '|' (by decide) [' '] [] blanks_space blanks_nil _
    (by simpa using s.property) hbar [] after blanks_nil ha
  calc Source.readSteps (s.text ++ after)
      = ((splitOn '|' (s.text ++ after)).map trim).map Source.readStep := by
        rw [List.map_map]
        rfl
    _ = ((s.val.map fun step => lead step.text).map trim).map Source.readStep :=
        congrArg (List.map Source.readStep) hpieces
    _ = s.statement := by
        rw [List.map_map, List.map_map]
        apply List.map_congr_left
        intro step _
        show Source.readStep (trim (lead step.text)) = _
        rw [trim_lead step.snug, readStep_text]

theorem readSteps_steps (s : Steps) : Source.readSteps s.text = s.statement := by
  simpa using readSteps_text s [] blanks_nil

theorem Literal.over (l : Literal) : Over ['='] l.text := by
  refine (l.flag.over _).append (Over.cons (Or.inr List.mem_cons_self) ?_)
  refine Over.cons (Or.inl ?_) (Over.nil _)
  cases l.value <;> decide

theorem Literal.token (l : Literal) : Token l.text :=
  l.over.token (List.append_ne_nil_of_left_ne_nil l.flag.ne_nil _) (by decide)

theorem Condition.over (c : Condition) : Over ['=', ',', ' '] c.text := by
  refine Over.intercalate (by decide) ?_
  intro p hp
  obtain ⟨l, -, rfl⟩ := List.mem_map.mp hp
  exact l.over.mono (by decide)

theorem Condition.snug (c : Condition) : Snug c.text := by
  refine Snug.intercalate ?_
  intro p hp
  obtain ⟨l, -, rfl⟩ := List.mem_map.mp hp
  exact ⟨l.token.ne_nil, l.token.snug⟩

/-- The parts of a line with a condition and steps. -/
theorem splitOn_condition (c : Condition) (rest : List Char) :
    splitOn ':' (' ' :: (c.text ++ [' ', ':'] ++ rest)) =
      (' ' :: c.text ++ [' ']) :: splitOn ':' rest := by
  have hover : Over ['=', ',', ' '] (' ' :: c.text ++ [' ']) :=
    (Over.cons (by decide) c.over).append (by decide)
  have happend : ' ' :: (c.text ++ [' ', ':'] ++ rest) = (' ' :: c.text ++ [' ']) ++ ':' :: rest := by
    simp
  rw [happend, splitOn_append ':' _ _ (hover.not_mem ':' (by decide))]

theorem splitOn_steps (s : Steps) : splitOn ':' s.text = [s.text] :=
  splitOn_of_not_mem ':' s.text (s.over.not_mem ':' (by decide))

theorem nat32?_numeral (n : UInt32) : nat32? (numeral n) = some n.toNat :=
  number?_toDigits 10 limit32 n.toNat (by decide) (by decide) n.toNat_lt

theorem Declaration.form_over (d : Declaration) : Over ['/'] d.form := by
  refine (d.name.over _).append (marked_over '/' _ _ List.mem_cons_self ?_)
  intro s hs
  obtain ⟨w, -, rfl⟩ := Option.map_eq_some_iff.mp hs
  exact numeral_over w _

theorem Declaration.text_over (d : Declaration) : Over ['/', ':'] d.text := by
  refine Over.append ?_ ((d.form_over.mono (by decide)).append (marked_over ':' _ _ (by decide) ?_))
  · cases d.activeLow
    · exact Over.nil _
    · decide
  · intro s hs
    obtain ⟨b, -, rfl⟩ := Option.map_eq_some_iff.mp hs
    exact numeral_over b _

theorem Declaration.token (d : Declaration) : Token d.text := by
  refine d.text_over.token ?_ (by decide)
  simp [Declaration.text, Declaration.form, d.name.ne_nil]

theorem readFieldForm_form (d : Declaration) :
    Source.readFieldForm d.form =
      .ok (d.name.string, d.size) := by
  have hname : '/' ∉ d.name.chars := (d.name.over []).not_mem '/' (by decide)
  cases hw : d.width with
  | none =>
    have hform : d.form = d.name.chars := by
      rw [Declaration.form, hw]
      exact List.append_nil _
    rw [hform, Source.readFieldForm, cut_of_not_mem '/' _ hname, Declaration.size, hw]
    rfl
  | some w =>
    have hform : d.form = d.name.chars ++ '/' :: numeral w := by
      rw [Declaration.form, hw]
      rfl
    have hdigits : (numeral w).contains '/' = false := by
      have := (numeral_over w []).not_mem '/' (by decide)
      simpa using this
    have hpos := d.width_pos w hw
    rw [hform, Source.readFieldForm, cut_append '/' _ _ hname, Declaration.size, hw]
    simp only [hdigits, nat32?_numeral]
    split
    · rename_i h
      exact absurd h (by decide)
    · show _ = Except.ok (d.name.string, w.toNat)
      obtain ⟨n, hn⟩ := Nat.exists_eq_succ_of_ne_zero (Nat.ne_of_gt hpos)
      rw [hn]
      rfl

theorem readPosition_form (d : Declaration) :
    Source.readPosition (d.form ++ marked ':' (d.bit.map numeral)) =
      .ok (d.form, d.bit.map UInt32.toNat) := by
  have hform : ':' ∉ d.form := d.form_over.not_mem ':' (by decide)
  cases d.bit with
  | none =>
    show Source.readPosition (d.form ++ []) = _
    rw [List.append_nil, Source.readPosition, cut_of_not_mem ':' _ hform]
    rfl
  | some b =>
    show Source.readPosition (d.form ++ ':' :: numeral b) = _
    rw [Source.readPosition, cut_append ':' _ _ hform]
    simp only [nat32?_numeral]
    rfl

theorem readPolarity_text (d : Declaration) :
    Source.readPolarity d.text = (d.activeLow, d.form ++ marked ':' (d.bit.map numeral)) := by
  rw [Declaration.text]
  cases d.activeLow with
  | true => rfl
  | false =>
    obtain ⟨c, r, hname, hc⟩ := d.name.exists_cons
    show Source.readPolarity (d.form ++ _) = _
    rw [Declaration.form, hname]
    show Source.readPolarity (c :: _) = _
    unfold Source.readPolarity
    split
    · rename_i heq
      cases heq
      exact absurd hc (by decide)
    · rfl

theorem Declaration.size_pos (d : Declaration) : 1 ≤ d.size := by
  rw [Declaration.size]
  cases hw : d.width with
  | none => exact Nat.le_refl 1
  | some w => exact d.width_pos w hw

theorem Declaration.size_of_activeLow (d : Declaration) (h : d.activeLow = true) : d.size = 1 := by
  rw [Declaration.size]
  cases hw : d.width with
  | none => rfl
  | some w => exact d.activeLow_single h w hw

theorem readDeclaration_text (d : Declaration) :
    Source.readDeclaration d.text = .ok d.statement := by
  have hlow : ¬(d.activeLow = true ∧ 1 < d.size) := by
    rintro ⟨hlow, hlt⟩
    rw [d.size_of_activeLow hlow] at hlt
    omega
  rw [Source.readDeclaration, readPolarity_text]
  dsimp only
  rw [readPosition_form]
  show (Source.readFieldForm d.form >>= _) = _
  rw [readFieldForm_form]
  exact if_neg hlow

theorem Mark.over (m : Mark) (n : Nat) : Over [] (m.text ++ Nat.toDigits m.radix n) := by
  cases m with
  | none => exact over_toDigits 10 n (by decide) (by decide) _
  | decimal => exact Over.cons (by decide) (over_toDigits 10 n (by decide) (by decide) _)
  | hexadecimal => exact Over.cons (by decide) (over_toDigits 16 n (by decide) (by decide) _)
  | binary => exact Over.cons (by decide) (over_toDigits 2 n (by decide) (by decide) _)

theorem Mark.token (m : Mark) (n : Nat) : Token (m.text ++ Nat.toDigits m.radix n) :=
  (m.over n).token (List.append_ne_nil_of_right_ne_nil _ Nat.toDigits_ne_nil) (by decide)

theorem readRadix_text (m : Mark) (n : Nat) :
    Source.readRadix (m.text ++ Nat.toDigits m.radix n) = (m.radix, Nat.toDigits m.radix n) := by
  cases m with
  | decimal => rfl
  | hexadecimal => rfl
  | binary => rfl
  | none =>
    show Source.readRadix (Nat.toDigits 10 n) = (10, Nat.toDigits 10 n)
    have hdigit : ∀ c ∈ Nat.toDigits 10 n, c.isDigit = true :=
      fun c hc => Nat.isDigit_of_mem_toDigits (by decide) (by decide) hc
    generalize Nat.toDigits 10 n = digits at hdigit
    unfold Source.readRadix
    split
    · exact absurd (hdigit 'h' List.mem_cons_self) (by decide)
    · exact absurd (hdigit 'd' List.mem_cons_self) (by decide)
    · exact absurd (hdigit 'b' List.mem_cons_self) (by decide)
    · rfl

theorem readAddress_text (m : Mark) (n : UInt32) :
    Source.readAddress (' ' :: (m.text ++ Nat.toDigits m.radix n.toNat)) =
      [.seal, .table (.seek n.toNat)] := by
  have htoken := m.token n.toNat
  have hnumber : number? m.radix limit32 (Nat.toDigits m.radix n.toNat) = some n.toNat := by
    apply number?_toDigits _ _ _ _ _ n.toNat_lt
    · cases m <;> decide
    · cases m <;> decide
  have hne : ¬ (m.text ++ Nat.toDigits m.radix n.toNat).isEmpty = true := by
    rw [List.isEmpty_iff]
    exact htoken.ne_nil
  dsimp only [Source.readAddress]
  rw [trim_space_cons htoken.snug, if_neg hne, readRadix_text]
  dsimp only
  rw [hnumber]

/-- The characters that are not in names. -/
def punctuation : List Char := ['@', '$', '*', '^', '>', '=', '?', '/', ':', ',', '|', '-', ' ']

theorem conditional_over (c : Condition) (rest : List Char) (h : Over punctuation rest) :
    Over punctuation (' ' :: (c.text ++ [' ', ':'] ++ rest)) := by
  exact Over.cons (by decide) (((c.over.mono (by decide)).append (by decide)).append h)

theorem TableClause.over (c : TableClause) : Over punctuation c.text := by
  have hsteps (s : Steps) : Over punctuation s.text := s.over.mono (by decide)
  cases c with
  | template c steps =>
    cases c with
    | none => exact Over.cons (by decide) (hsteps steps)
    | some c => exact Over.cons (by decide) (conditional_over c _ (hsteps steps))
  | reserve c steps => exact Over.cons (by decide) (conditional_over c _ (hsteps steps))
  | seek mark opcode =>
    exact Over.cons (by decide) (Over.cons (by decide) ((mark.over _).mono (by decide)))
  | define steps => exact Over.cons (by decide) (hsteps steps)
  | defineWhen c steps fallback =>
    cases fallback with
    | none => exact Over.cons (by decide) (conditional_over c _ (hsteps steps))
    | some fallback =>
      refine Over.cons (by decide) (conditional_over c _ ((hsteps steps).append ?_))
      exact Over.cons (by decide) (Over.cons (by decide) (hsteps fallback))

theorem Clause.over (c : Clause) : Over punctuation c.text := by
  cases c with
  | declare d => exact Over.cons (by decide) (Over.cons (by decide) (d.text_over.mono (by decide)))
  | compose name terms =>
    have hname : Over punctuation (name.chars ++ [' ', '=']) := (name.over _).append (by decide)
    exact Over.cons (by decide) (Over.cons (by decide)
      (hname.append (lead_over ((termsText_over terms).mono (by decide)) (by decide))))
  | table c => exact c.over

theorem conditional_ends (k : Char) (c : Condition) (rest : List Char) (h : Ends rest) :
    Ends (k :: ' ' :: (c.text ++ [' ', ':'] ++ rest)) := by
  have hcolon : Ends (k :: ' ' :: c.text ++ [' ', ':']) :=
    Ends.append_of_ne_nil (by decide) (List.cons_ne_nil _ _)
  exact hcolon.append h

theorem TableClause.ends (c : TableClause) : Ends c.text := by
  cases c with
  | template c steps =>
    cases c with
    | none => exact Ends.cons (by decide) steps.ends
    | some c => exact conditional_ends '*' c _ steps.ends
  | reserve c steps => exact conditional_ends '^' c _ steps.ends
  | seek mark opcode =>
    have htoken := mark.token opcode.toNat
    exact htoken.snug.ends.append_of_ne_nil htoken.ne_nil (s := ['>', ' '])
  | define steps => exact Ends.cons (by decide) steps.ends
  | defineWhen c steps fallback =>
    cases fallback with
    | none => exact conditional_ends '?' c _ steps.ends
    | some fallback =>
      have hrest : Ends ((steps.text ++ [' ', ':']) ++ fallback.text) :=
        (Ends.append_of_ne_nil (by decide) (List.cons_ne_nil _ _)).append fallback.ends
      rw [List.append_assoc] at hrest
      exact conditional_ends '?' c _ hrest

theorem Clause.ends (c : Clause) : Ends c.text := by
  cases c with
  | declare d => exact d.token.snug.ends.append_of_ne_nil d.token.ne_nil (s := ['@', ' '])
  | compose name terms =>
    have hequals : Ends ('$' :: ' ' :: name.chars ++ [' ', '=']) :=
      Ends.append_of_ne_nil (by decide) (List.cons_ne_nil _ _)
    exact hequals.append (lead_ends (termsText_snug terms).ends)
  | table c => exact c.ends

theorem TableClause.starts (c : TableClause) : Starts c.text := by
  intro x hx
  cases c with
  | template c steps => cases c <;> (cases hx; decide)
  | defineWhen c steps fallback => cases fallback <;> (cases hx; decide)
  | _ => cases hx; decide

theorem Clause.starts (c : Clause) : Starts c.text := by
  intro x hx
  cases c with
  | table c => exact c.starts x hx
  | _ => cases hx; decide

theorem trim_line (s : List Char) (hhash : '#' ∉ s) (hs : Snug s) :
    trim (s.takeWhile (· != '#')) = s := by
  rw [takeWhile_ne_of_not_mem '#' s hhash, hs.trim]

theorem readComposite_text (name : Name) (terms : List Term) :
    Source.readComposite (' ' :: (name.chars ++ [' ', '='] ++ lead (termsText terms))) =
      .compose name.string (terms.map Term.string) := by
  have hover : Over [' '] (' ' :: name.chars ++ [' ']) :=
    (Over.cons (by decide) (name.over _)).append (by decide)
  have happend : ' ' :: (name.chars ++ [' ', '='] ++ lead (termsText terms)) =
      (' ' :: name.chars ++ [' ']) ++ '=' :: lead (termsText terms) := by simp
  rw [Source.readComposite, happend,
    cut_append '=' _ _ (hover.not_mem '=' (by decide))]
  simp only [trim_spaced name.token.snug, words_lead, words_termsText, List.map_map]
  rfl

theorem readConditional_fallback (c : Condition) (steps fallback : Steps) :
    Source.readConditional
        (' ' :: (c.text ++ [' ', ':'] ++ (steps.text ++ ' ' :: ':' :: fallback.text))) =
      .table (.defineWhen (String.ofList c.text) steps.statement (some fallback.statement)) := by
  have hsteps : splitOn ':' (steps.text ++ ' ' :: ':' :: fallback.text) =
      [steps.text ++ [' '], fallback.text] := by
    have hover : Over ['=', ' ', '-', '|'] (steps.text ++ [' ']) := steps.over.append (by decide)
    have happend : steps.text ++ ' ' :: ':' :: fallback.text =
        (steps.text ++ [' ']) ++ ':' :: fallback.text := by simp
    rw [happend, splitOn_append ':' _ _ (hover.not_mem ':' (by decide)), splitOn_steps]
  rw [Source.readConditional, splitOn_condition, hsteps]
  simp only [trim_spaced c.snug, readSteps_text steps [' '] blanks_space, readSteps_steps]

theorem readTemplate_text (c : Condition) (steps : Steps) :
    Source.readTemplate (' ' :: (c.text ++ [' ', ':'] ++ steps.text)) =
      .table (.template (some (String.ofList c.text)) steps.statement) := by
  rw [Source.readTemplate, splitOn_condition, splitOn_steps]
  simp only [readSteps_steps, trim_spaced c.snug]

theorem readReservation_text (c : Condition) (steps : Steps) :
    Source.readReservation (' ' :: (c.text ++ [' ', ':'] ++ steps.text)) =
      .table (.reserve (String.ofList c.text) steps.statement) := by
  rw [Source.readReservation, splitOn_condition, splitOn_steps]
  simp only [readSteps_steps, trim_spaced c.snug]

theorem readConditional_text (c : Condition) (steps : Steps) :
    Source.readConditional (' ' :: (c.text ++ [' ', ':'] ++ steps.text)) =
      .table (.defineWhen (String.ofList c.text) steps.statement none) := by
  rw [Source.readConditional, splitOn_condition, splitOn_steps]
  simp only [readSteps_steps, trim_spaced c.snug]

/-- A line is read as what it says. -/
theorem readLine_text (c : Clause) : Source.readLine c.text = c.statements := by
  have hline : trim (c.text.takeWhile (· != '#')) = c.text :=
    trim_line c.text (c.over.not_mem '#' (by decide)) ⟨c.starts, c.ends⟩
  rw [Source.readLine, hline]
  cases c with
  | declare d =>
    show Source.readDeclarations (' ' :: d.text) = _
    have hwords : words (' ' :: d.text) = [d.text] := by
      rw [words_of_blank ' ' _ isBlank_space]
      exact d.token.words
    rw [Source.readDeclarations, hwords, List.map_singleton, readDeclaration_text]
    rfl
  | compose name terms => exact congrArg (fun s => [s]) (readComposite_text name terms)
  | table c =>
    have hseal {s t : Source.Statement} (h : s = t) :
        [Source.Statement.seal, s] = [Source.Statement.seal, t] := by rw [h]
    cases c with
    | template c steps =>
      cases c with
      | none =>
        apply hseal
        rw [Source.readTemplate, splitOn_steps]
        simp only [readSteps_steps]
        rfl
      | some c => exact hseal (readTemplate_text c steps)
    | reserve c steps => exact hseal (readReservation_text c steps)
    | seek mark opcode => exact readAddress_text mark opcode
    | define steps =>
      apply hseal
      rw [readSteps_steps]
      rfl
    | defineWhen c steps fallback =>
      cases fallback with
      | none => exact hseal (readConditional_text c steps)
      | some fallback => exact hseal (readConditional_fallback c steps fallback)

theorem pairText_over {name : List Char} (h : Over [] name) (n : Nat) :
    Over [':'] (pairText name n) :=
  (h.mono (by decide)).append
    (Over.cons (by decide) (over_toDigits 10 n (by decide) (by decide) _))

theorem pairText_token {name : List Char} (h : Over [] name) (n : Nat) :
    Token (pairText name n) := by
  refine (pairText_over h n).token ?_ (by decide)
  simp [pairText]

theorem cut_pairText {name : List Char} (h : Over [] name) (n : Nat) :
    cut ':' (pairText name n) = some (name, Nat.toDigits 10 n) :=
  cut_append ':' _ _ (h.not_mem ':' (by decide))

theorem nat32?_toDigits (n : Nat) (h : n < limit32) : nat32? (Nat.toDigits 10 n) = some n :=
  number?_toDigits 10 limit32 n (by decide) (by decide) h

theorem fieldName_over (f : AddressField) : Over [] f.name.toList := by
  cases f <;> decide

theorem readTerm_pairText (f : AddressField) (w : Nat) (hw : w < limit32) :
    Layout.readTerm (pairText f.name.toList w) = .ok (f, w) := by
  have hfield : Layout.readField (String.ofList f.name.toList) = .ok f := by
    rw [String.ofList_toList]
    cases f <;> rfl
  rw [Layout.readTerm, cut_pairText (fieldName_over f) w]
  simp only [nat32?_toDigits w hw, hfield]
  rfl

theorem layoutText_parts (l : Layout) :
    ∀ s ∈ l.fields.map (fun p => pairText p.1.name.toList p.2), Over [':'] s ∧ Token s := by
  intro s hs
  obtain ⟨p, -, rfl⟩ := List.mem_map.mp hs
  exact ⟨pairText_over (fieldName_over p.1) p.2, pairText_token (fieldName_over p.1) p.2⟩

/-- A text whose words are the terms of a layout is read as the layout. -/
theorem read_of_words (l : Layout) (text : List Char)
    (h : words text = l.fields.map (fun p => pairText p.1.name.toList p.2)) :
    Layout.read (String.ofList text) = .ok l := by
  have hterms : (l.fields.map (fun p => pairText p.1.name.toList p.2)).mapM Layout.readTerm =
      .ok l.fields := by
    rw [mapM_map_congr (h := fun p => pure p) l.fields, List.mapM_pure, List.map_id']
    · rfl
    · intro p hp
      have hw : p.2 < limit32 := (l.width_le p hp).trans_lt (by decide)
      exact readTerm_pairText p.1 p.2 hw
  rw [Layout.read, String.toList_ofList, h, hterms]
  exact l.ofFields_fields

theorem read_layoutText (l : Layout) : Layout.read (String.ofList (layoutText l)) = .ok l := by
  apply read_of_words
  exact words_intercalate _ fun s hs => (layoutText_parts l s hs).2

theorem settingText_starts (key : String) (value : List Char) :
    Starts (settingText key value) := by
  intro c hc
  cases hc
  decide

theorem settingText_over {key : String} {value : List Char} (hkey : Over [] key.toList)
    (hvalue : Over [':', ' '] value) : Over ['!', ':', ' '] (settingText key value) := by
  have htail : Over ['!', ':', ' '] (' ' :: value) :=
    Over.cons (Or.inr (by decide)) (hvalue.mono (by decide))
  have hbody : Over ['!', ':', ' '] (key.toList ++ ' ' :: value) :=
    (hkey.mono (by decide)).append htail
  exact Over.cons (Or.inr (by decide)) (Over.cons (Or.inr (by decide)) hbody)

/-- A line that makes a setting. -/
theorem readLine_settingText (key : String) (value : List Char) (hkey : Over [] key.toList)
    (hne : key.toList ≠ []) (hname : key ≠ "name") (hover : Over [':', ' '] value)
    (hvalue : value ≠ []) (hsnug : Snug value) :
    Source.readLine (settingText key value) =
      [.setting key (Source.readSettingValue key value)] := by
  have htoken : Token key.toList := hkey.token hne (by decide)
  have hbody : Snug (key.toList ++ ' ' :: value) := by
    have hboth := @Snug.intercalate [' '] [key.toList, value] (by
      intro p hp
      rcases List.mem_pair.mp hp with rfl | rfl
      · exact ⟨hne, htoken.snug⟩
      · exact ⟨hvalue, hsnug⟩)
    simpa [List.intercalate_cons_cons] using hboth
  have hline : trim ((settingText key value).takeWhile (· != '#')) = settingText key value := by
    have hends : Ends (settingText key value) :=
      hbody.ends.append_of_ne_nil (by simp) (s := ['!', ' '])
    exact trim_line _ ((settingText_over hkey hover).not_mem '#' (by decide))
      ⟨settingText_starts key value, hends⟩
  have hkeyne : ¬ key.isEmpty = true := by
    intro hempty
    rw [String.isEmpty_iff.mp hempty] at hne
    exact hne rfl
  have hvaluene : ¬ value.isEmpty = true := by
    rw [List.isEmpty_iff]
    exact hvalue
  rw [Source.readLine, hline]
  show [Source.readSetting (' ' :: (key.toList ++ ' ' :: value))] = _
  dsimp only [Source.readSetting]
  rw [trim_space_cons hbody, cutAt_append isBlank key.toList value ' ' htoken.solid isBlank_space]
  simp only [Option.getD_some, String.ofList_toList, hsnug.trim]
  rw [if_neg hkeyne, if_neg hvaluene, if_neg (by simpa using hname)]

theorem snug_of_tokens {parts : List (List Char)} (h : ∀ s ∈ parts, Over [':'] s ∧ Token s) :
    Snug ([' '].intercalate parts) := by
  refine Snug.intercalate ?_
  intro s hs
  exact ⟨(h s hs).2.ne_nil, (h s hs).2.snug⟩

theorem over_of_tokens {parts : List (List Char)} (h : ∀ s ∈ parts, Over [':'] s ∧ Token s) :
    Over [':', ' '] ([' '].intercalate parts) :=
  Over.intercalate (by decide) fun s hs => (h s hs).1.mono (by decide)

theorem intercalate_ne_nil {parts : List (List Char)} (hne : parts ≠ [])
    (h : ∀ s ∈ parts, Over [':'] s ∧ Token s) : [' '].intercalate parts ≠ [] := by
  obtain ⟨s, rest, rfl⟩ := List.exists_cons_of_ne_nil hne
  obtain ⟨tail, htail⟩ := exists_intercalate_cons [' '] s rest
  rw [htail]
  exact List.append_ne_nil_of_left_ne_nil (h s List.mem_cons_self).2.ne_nil tail

/-- A setting whose value is a list of pairs. -/
theorem readLine_pairs (key : String) (parts : List (List Char)) (hkey : Over [] key.toList)
    (hkeyne : key.toList ≠ []) (hname : key ≠ "name") (hne : parts ≠ [])
    (h : ∀ s ∈ parts, Over [':'] s ∧ Token s) :
    Source.readLine (settingText key ([' '].intercalate parts)) =
      [.setting key (Source.readSettingValue key ([' '].intercalate parts))] :=
  readLine_settingText key _ hkey hkeyne hname (over_of_tokens h) (intercalate_ne_nil hne h)
    (snug_of_tokens h)

theorem readLine_layout (l : Layout) :
    Source.readLine (settingText "layout" (layoutText l)) = [.setting "layout" (.ok (.layout l))] := by
  have hne : l.fields ≠ [] := by
    intro hnil
    have := l.wellFormed.flags_once
    rw [hnil] at this
    exact absurd this (by decide)
  rw [layoutText, readLine_pairs "layout" _ (by decide) (by decide) (by decide) (by simpa using hne)
    (layoutText_parts l)]
  show [Source.Statement.setting "layout" (Source.ofEngine (Layout.read
    (String.ofList (layoutText l))) >>= fun l => pure (.layout l))] = _
  rw [read_layoutText]
  rfl

theorem flagsText_parts (names : List (Name × Nat)) :
    ∀ s ∈ names.map (fun p => pairText p.1.chars p.2), Over [':'] s ∧ Token s := by
  intro s hs
  obtain ⟨p, -, rfl⟩ := List.mem_map.mp hs
  exact ⟨pairText_over (p.1.over []) p.2, pairText_token (p.1.over []) p.2⟩

theorem readLine_flags (names : List (Name × Nat)) (hne : names ≠ [])
    (hbits : ∀ p ∈ names, p.2 < limit32) :
    Source.readLine (settingText "flags" (flagsText names)) =
      [.setting "flags" (.ok (.flags (names.map fun p => .ok (p.1.string, p.2))))] := by
  rw [flagsText, readLine_pairs "flags" _ (by decide) (by decide) (by decide) (by simpa using hne)
    (flagsText_parts names)]
  show [Source.Statement.setting "flags" (.ok (.flags ((words (flagsText names)).map _)))] = _
  rw [flagsText, words_intercalate _ fun s hs => (flagsText_parts names s hs).2, List.map_map]
  have hread : names.map (Source.readFlag ∘ fun p => pairText p.1.chars p.2) =
      names.map fun p => .ok (p.1.string, p.2) := by
    apply List.map_congr_left
    intro p hp
    show Source.readFlag (pairText p.1.chars p.2) = _
    rw [Source.readFlag, cut_pairText (p.1.over [])]
    simp only [nat32?_toDigits p.2 (hbits p hp)]
    rfl
  rw [hread]

def Policy.setting : Policy → Source.Setting
  | fallback p => .fallback p
  | redefine p => .redefine p

theorem Policy.key_over (q : Policy) :
    Over [] q.key.toList ∧ q.key.toList ≠ [] ∧ q.key ≠ "name" := by
  cases q with
  | fallback p => cases p <;> decide
  | redefine p => cases p <;> decide

theorem Policy.value_over (q : Policy) : Over [] q.value.toList ∧ q.value.toList ≠ [] := by
  cases q with
  | fallback p => cases p <;> decide
  | redefine p => cases p <;> decide

theorem readLine_policy (q : Policy) :
    Source.readLine (settingText q.key q.value.toList) = [.setting q.key (.ok q.setting)] := by
  obtain ⟨hover, hne⟩ := q.value_over
  obtain ⟨hkey, hkeyne, hname⟩ := q.key_over
  rw [readLine_settingText q.key _ hkey hkeyne hname (hover.mono (by decide)) hne
    (hover.token hne (by decide)).snug]
  cases q with
  | fallback p => cases p <;> rfl
  | redefine p => cases p <;> rfl

theorem layoutLine_over (l : Layout) :
    Over ['!', ':', ' '] (settingText "layout" (layoutText l)) :=
  settingText_over (by decide) (over_of_tokens (layoutText_parts l))

theorem flagsLine_over (names : List (Name × Nat)) :
    Over ['!', ':', ' '] (settingText "flags" (flagsText names)) :=
  settingText_over (by decide) (over_of_tokens (flagsText_parts names))

theorem Policy.line_over (q : Policy) :
    Over ['!', ':', ' '] (settingText q.key q.value.toList) :=
  settingText_over q.key_over.1 (q.value_over.1.mono (by decide))

theorem Program.header_over (p : Program) : ∀ line ∈ p.header, Over ['!', ':', ' '] line := by
  intro line hline
  rcases List.mem_cons.mp hline with rfl | hline
  · exact layoutLine_over p.layout
  rcases List.mem_append.mp hline with hline | hline
  · split at hline
    · cases hline
    · rw [List.mem_singleton.mp hline]
      exact flagsLine_over p.names
  · obtain ⟨q, -, rfl⟩ := List.mem_map.mp hline
    exact q.line_over

end ControlStore.Written
