import ControlStore.Proofs.Continuation

/-! Revised texts. Comments, empty lines, blanks around lines and the way lines end say nothing: a
text in which only these were changed compiles to the same targets or has the same fault, on the
line that the faulty one has become. The two compilations carry out the same statements, which only
stand on lines with other numbers. -/

namespace ControlStore.Text

/-- Blanks, and perhaps a comment after them. -/
def Idle (s : List Char) : Prop := Blanks (s.takeWhile (· != '#'))

instance (s : List Char) : Decidable (Idle s) :=
  inferInstanceAs (Decidable (Blanks (s.takeWhile (· != '#'))))

theorem hash_not_mem_blanks {s : List Char} (h : Blanks s) : '#' ∉ s := by
  intro hmem
  exact absurd (h '#' hmem) (by decide)

end ControlStore.Text

namespace ControlStore.Source

open Text

/-- What has become of a line: it was kept, with other blanks and comments, or it is new. The end of
a kept line may have been a carriage return and a line feed. -/
inductive Revision
  | kept (body : List Char) (returned : Bool) (before after : List Char)
    (hbefore : Blanks before) (hafter : Idle after)
  | added (line : List Char) (h : Idle line)

namespace Revision

def isAdded : Revision → Bool
  | kept .. => false
  | added .. => true

/-- The line as it was, if there was one. -/
def old? : Revision → Option (List Char)
  | kept body returned .. => some (body ++ if returned then ['\r'] else [])
  | added .. => none

/-- The line as it is now. -/
def new : Revision → List Char
  | kept body _ before after .. => before ++ body ++ after
  | added line _ => line

end Revision

theorem bare_of_idle {s : List Char} (h : Idle s) : bare s = [] := by
  have htrim := trim_pad (s.takeWhile (· != '#')) [] [] h blanks_nil
  rw [List.append_nil, List.append_nil] at htrim
  exact htrim

/-- Blanks around a line and a comment after it are no part of what it says. -/
theorem bare_pad (before body after : List Char) (hbefore : Blanks before) (hafter : Idle after) :
    bare (before ++ body ++ after) = bare body := by
  have hnone : ∀ c ∈ before, (c != '#') = true := by
    intro c hc
    rw [bne_iff_ne]
    rintro rfl
    exact hash_not_mem_blanks hbefore hc
  unfold bare
  rw [List.append_assoc, List.takeWhile_append_of_pos hnone, List.takeWhile_append]
  split
  · -- No comment in the line itself: the one after it is all that is cut off.
    rename_i hlength
    have hbody : body.takeWhile (· != '#') = body :=
      (List.takeWhile_prefix _).eq_of_length hlength
    rw [hbody, ← List.append_assoc]
    exact trim_pad before body _ hbefore hafter
  · have htrim := trim_pad before (body.takeWhile (· != '#')) [] hbefore blanks_nil
    rwa [List.append_nil] at htrim

theorem readLine_of_bare_eq {s s' : List Char} (h : bare s = bare s') :
    readLine s = readLine s' := by
  rw [readLine, readLine, ← bare, ← bare, h]

theorem readLine_of_idle {s : List Char} (h : Idle s) : readLine s = [] := by
  rw [readLine, ← bare, bare_of_idle h]

/-- A line that was kept says what it said. -/
theorem readLine_kept (body : List Char) (returned : Bool) (before after : List Char)
    (hbefore : Blanks before) (hafter : Idle after) :
    readLine (before ++ body ++ after) = readLine (body ++ if returned then ['\r'] else []) := by
  have hreturn : Idle (if returned then ['\r'] else []) := by
    cases returned <;> decide
  have hold : bare (body ++ if returned then ['\r'] else []) = bare body :=
    bare_pad [] body _ blanks_nil hreturn
  apply readLine_of_bare_eq
  rw [hold]
  exact bare_pad before body after hbefore hafter

/-- The text does not start with a byte order mark. -/
def Unmarked (s : List Char) : Prop := ∀ c ∈ s.head?, isByteOrderMark c = false

instance : (s : List Char) → Decidable (Unmarked s)
  | [] => .isTrue (by simp [Unmarked])
  | c :: _ => decidable_of_iff (isByteOrderMark c = false) (by simp [Unmarked])

theorem isByteOrderMark_of_isBlank {c : Char} (h : isBlank c = true) :
    isByteOrderMark c = false := by
  rw [isByteOrderMark, beq_eq_false_iff_ne]
  rintro rfl
  exact absurd h (by decide)

theorem unmarked_of_idle {s : List Char} (h : Idle s) : Unmarked s := by
  cases s with
  | nil =>
    intro c hc
    cases hc
  | cons d r =>
    intro c hc
    obtain rfl : d = c := Option.some.inj hc
    by_cases hhash : d = '#'
    · rw [hhash]
      decide
    · apply isByteOrderMark_of_isBlank
      have htake : (d :: r).takeWhile (· != '#') = d :: r.takeWhile (· != '#') :=
        List.takeWhile_cons_of_pos (bne_iff_ne.mpr hhash)
      apply h d
      rw [htake]
      exact List.mem_cons_self

theorem unmarked_append {s t : List Char} (hs : Unmarked s) (ht : Unmarked t) :
    Unmarked (s ++ t) := by
  cases s with
  | nil => exact ht
  | cons c r => exact hs

theorem unmarked_of_append {s t : List Char} (h : Unmarked (s ++ t)) : Unmarked s := by
  cases s with
  | nil =>
    intro c hc
    cases hc
  | cons c r => exact h

theorem unmarked_of_blanks {s : List Char} (h : Blanks s) : Unmarked s :=
  fun c hc => isByteOrderMark_of_isBlank (h c (List.mem_of_mem_head? hc))

/-- Where no mark leads a line, it does not matter whether the line is the first. -/
theorem readInputLine_of_unmarked {number : Nat} {s : List Char} (h : number = 1 → Unmarked s) :
    readInputLine number (.text s) = readLine s := by
  rw [readInputLine]
  split
  · rename_i hfirst
    have hdrop : s.dropWhile isByteOrderMark = s := by
      cases s with
      | nil => rfl
      | cons c r =>
        have hc : isByteOrderMark c = false := h hfirst c rfl
        rw [List.dropWhile_cons_of_neg (by rw [hc]; exact Bool.false_ne_true)]
    rw [hdrop]
  · rfl

theorem unmarked_of_lines {s line : List Char} {rest : List (List Char)} (h : Unmarked s)
    (hlines : lines (· == '\n') s = line :: rest) : Unmarked line := by
  obtain ⟨more, -, hpieces⟩ := pieces_eq_lines_append (· == '\n') s
  rw [hlines, List.cons_append] at hpieces
  cases s with
  | nil =>
    have hnil : line = [] := (List.cons.inj hpieces).1.symm
    rw [hnil]
    intro c hc
    cases hc
  | cons c r =>
    cases hsep : (c == '\n') with
    | true =>
      rw [pieces_cons_of_sep c r hsep] at hpieces
      rw [← (List.cons.inj hpieces).1]
      intro d hd
      cases hd
    | false =>
      obtain ⟨w, ws, hr⟩ := exists_pieces_cons (· == '\n') r
      rw [pieces_cons_of_not_sep c r w ws hsep hr] at hpieces
      rw [← (List.cons.inj hpieces).1]
      exact h

/-- The line with a number was kept, and it has another number now: it comes after the lines that
were added before it. -/
def Moved (revisions : List Revision) (number number' : Nat) : Prop :=
  ∃ earlier r later, revisions = earlier ++ r :: later ∧ r.isAdded = false ∧
    number = (earlier.filterMap Revision.old?).length + 1 ∧
    number' = number + earlier.countP Revision.isAdded

theorem length_eq_old_add_added (revisions : List Revision) :
    revisions.length =
      (revisions.filterMap Revision.old?).length + revisions.countP Revision.isAdded := by
  induction revisions with
  | nil => rfl
  | cons r rest ih =>
    cases r with
    | kept body returned before after hbefore hafter =>
      simp [Revision.old?, Revision.isAdded]
      omega
    | added line h =>
      have hold : (Revision.added line h :: rest).filterMap Revision.old? =
          rest.filterMap Revision.old? := rfl
      simp only [hold, List.length_cons, List.countP_cons, Revision.isAdded, if_true]
      omega

/-- The same statement, on a line that was kept. -/
def Matches (revisions : List Revision) (x y : Nat × Statement) : Prop :=
  y.2 = x.2 ∧ Moved revisions x.1 y.1

theorem statements_text (number : Nat) (s : List Char) (h : number = 1 → Unmarked s) :
    (InputLine.text s).statements number = (readLine s).map fun x => (number, x) := by
  rw [InputLine.statements, readInputLine_of_unmarked h]

/-- A line that was added has no statements. -/
theorem statements_of_idle {line : List Char} (h : Idle line) (number : Nat) :
    (InputLine.text line).statements number = [] := by
  rw [statements_text _ _ fun _ => unmarked_of_idle h, readLine_of_idle h]
  rfl

theorem forall₂_map_moved {revisions : List Revision} {number number' : Nat}
    (h : Moved revisions number number') (statements : List Statement) :
    List.Forall₂ (Matches revisions) (statements.map fun x => (number, x))
      (statements.map fun x => (number', x)) := by
  induction statements with
  | nil => exact .nil
  | cons x rest ih => exact .cons ⟨rfl, h⟩ ih

/-- A line that was kept has the statements that it had. -/
theorem forall₂_kept {revisions : List Revision} {number number' : Nat}
    (hmoved : Moved revisions number number') (body : List Char) (returned : Bool)
    (before after : List Char) (hbefore : Blanks before) (hafter : Idle after)
    (hmark : number = 1 → Unmarked (body ++ if returned then ['\r'] else [])) :
    List.Forall₂ (Matches revisions)
      ((InputLine.text (body ++ if returned then ['\r'] else [])).statements number)
      ((InputLine.text (before ++ body ++ after)).statements number') := by
  have hfirst : number' = 1 → number = 1 := by
    obtain ⟨earlier, -, -, -, -, hnumber, hnumber'⟩ := hmoved
    omega
  have hmark' : number' = 1 → Unmarked (before ++ body ++ after) := by
    intro h
    have hbody : Unmarked body := unmarked_of_append (hmark (hfirst h))
    exact unmarked_append (unmarked_append (unmarked_of_blanks hbefore) hbody)
      (unmarked_of_idle hafter)
  rw [statements_text _ _ hmark, statements_text _ _ hmark',
    readLine_kept body returned before after hbefore hafter]
  exact forall₂_map_moved hmoved _

/-- The statements of the lines that follow some revised ones. -/
theorem forall₂_statements (revisions earlier : List Revision)
    (hmark : (earlier.filterMap Revision.old?).length = 0 →
      ∀ line ∈ (revisions.filterMap Revision.old?).head?, Unmarked line) :
    List.Forall₂ (Matches (earlier ++ revisions))
      (statementsFrom ((earlier.filterMap Revision.old?).length + 1)
        ((revisions.filterMap Revision.old?).map .text))
      (statementsFrom (earlier.length + 1) ((revisions.map Revision.new).map .text)) := by
  induction revisions generalizing earlier with
  | nil => exact .nil
  | cons r rest ih =>
    have hsplit : earlier ++ r :: rest = (earlier ++ [r]) ++ rest := by simp
    have hlength : (earlier ++ [r]).length = earlier.length + 1 := by simp
    rw [List.map_cons, List.map_cons, statementsFrom_cons]
    cases r with
    | added line h =>
      have hold : (earlier ++ [Revision.added line h]).filterMap Revision.old? =
          earlier.filterMap Revision.old? := by
        rw [List.filterMap_append]
        exact List.append_nil _
      have hrest := ih (earlier ++ [.added line h]) (by rw [hold]; exact hmark)
      rw [← hsplit, hold, hlength] at hrest
      show List.Forall₂ _ _ ((InputLine.text line).statements _ ++ _)
      rw [statements_of_idle h]
      exact hrest
    | kept body returned before after hbefore hafter =>
      have hold : (earlier ++ [Revision.kept body returned before after hbefore hafter]).filterMap
          Revision.old? = earlier.filterMap Revision.old? ++
            [body ++ if returned then ['\r'] else []] := List.filterMap_append
      have hmoved : Moved (earlier ++ .kept body returned before after hbefore hafter :: rest)
          ((earlier.filterMap Revision.old?).length + 1) (earlier.length + 1) := by
        refine ⟨earlier, _, rest, rfl, rfl, rfl, ?_⟩
        have hcount := length_eq_old_add_added earlier
        omega
      have hline := forall₂_kept hmoved body returned before after hbefore hafter
        fun hfirst => hmark (by omega) _ rfl
      have hrest := ih (earlier ++ [.kept body returned before after hbefore hafter]) (by
        intro hzero
        rw [hold, List.length_append] at hzero
        cases hzero)
      rw [← hsplit, hold, hlength, List.length_append] at hrest
      show List.Forall₂ _
        (statementsFrom _ (.text (body ++ if returned then ['\r'] else []) :: _)) _
      rw [statementsFrom_cons]
      exact List.rel_append hline hrest

theorem run_of_forall₂ {revisions : List Revision} {xs ys : List (Nat × Statement)}
    (h : List.Forall₂ (Matches revisions) xs ys) (log : Array Event) (s : State) :
    (State.run log s ys).1 = (State.run log s xs).1 ∧
    ((∃ t, (State.run log s xs).2 = .ok t ∧ (State.run log s ys).2 = .ok t) ∨
      ∃ e e', (State.run log s xs).2 = .error e ∧ (State.run log s ys).2 = .error e' ∧
        e'.fault = e.fault ∧ Moved revisions e.line e'.line) := by
  induction h generalizing log s with
  | nil => exact ⟨rfl, .inl ⟨s, rfl, rfl⟩⟩
  | @cons x y xs ys hxy _ ih =>
    obtain ⟨number, statement⟩ := x
    obtain ⟨number', statement'⟩ := y
    obtain ⟨hsame, hmoved⟩ := hxy
    have hsame : statement' = statement := hsame
    rw [hsame, State.run, State.run]
    cases s.exec statement with
    | error fault => exact ⟨rfl, .inr ⟨_, _, rfl, rfl, rfl, hmoved⟩⟩
    | ok p => exact ih (log ++ p.2) p.1

theorem compile_of_run_error {lines : List InputLine} {log : Array Event} {e : SourceError}
    (h : State.run #[] {} (readLines lines) = (log, .error e)) :
    compile lines = { log := log.toList, result := .error e } := by
  rw [compile, h]

theorem compile_of_close_error {lines : List InputLine} {log : Array Event} {s : State}
    {fault : Fault} (h : State.run #[] {} (readLines lines) = (log, .ok s))
    (hclose : s.draft.close s.signals = .error fault) :
    compile lines = { log := log.toList, result := .error { line := lines.length, fault } } := by
  simp only [compile, h, hclose]

theorem compile_of_close_ok {lines : List InputLine} {log : Array Event} {s : State}
    {target : Target} {events : List Event}
    (h : State.run #[] {} (readLines lines) = (log, .ok s))
    (hclose : s.draft.close s.signals = .ok (target, events)) :
    compile lines =
      { log := log.toList ++ events, result := .ok (s.targets ++ [target]) } := by
  simp only [compile, h, hclose]

/-- The second text is the first one with its lines revised. -/
structure Revises (revisions : List Revision) (s s' : String) : Prop where
  old : Text.lines (· == '\n') s.toList = revisions.filterMap Revision.old?
  new : Text.lines (· == '\n') s'.toList = revisions.map Revision.new

/-- Where a failure is found in a revised text: at the line that was at fault before, or at the end
of the text if all its statements pass. -/
def Relocated (revisions : List Revision) (s : String) (e e' : SourceError) : Prop :=
  ((State.run #[] {} (readLines (InputLine.ofText s))).2 = .error e ∧
      Moved revisions e.line e'.line) ∨
    ((∃ state, (State.run #[] {} (readLines (InputLine.ofText s))).2 = .ok state) ∧
      e'.line = e.line + revisions.countP Revision.isAdded)

variable {revisions : List Revision} {s s' : String}

theorem forall₂_of_revises (h : Revises revisions s s') (hmark : Unmarked s.toList) :
    List.Forall₂ (Matches revisions) (readLines (InputLine.ofText s))
      (readLines (InputLine.ofText s')) := by
  have hfirst : ∀ line ∈ (revisions.filterMap Revision.old?).head?, Unmarked line := by
    intro line hline
    obtain ⟨rest, hrest⟩ := List.head?_eq_some_iff.mp hline
    exact unmarked_of_lines hmark (h.old.trans hrest)
  have hall := forall₂_statements revisions [] fun _ => hfirst
  rw [← h.old, ← h.new] at hall
  exact hall

/-- The end of a text moves by all lines that were added. -/
theorem length_of_revises (h : Revises revisions s s') :
    (InputLine.ofText s').length =
      (InputLine.ofText s).length + revisions.countP Revision.isAdded := by
  rw [InputLine.ofText, InputLine.ofText, List.length_map, List.length_map, h.old, h.new,
    List.length_map]
  exact length_eq_old_add_added revisions

/-- The two compilations report the same, and both succeed or both fail. -/
theorem revised_cases (h : Revises revisions s s') (hmark : Unmarked s.toList) :
    (compileText s').log = (compileText s).log ∧
    ((∃ targets, (compileText s).result = .ok targets ∧ (compileText s').result = .ok targets) ∨
      ∃ e e', (compileText s).result = .error e ∧ (compileText s').result = .error e' ∧
        e'.fault = e.fault ∧ Relocated revisions s e e') := by
  obtain ⟨hlog, hresult⟩ := run_of_forall₂ (forall₂_of_revises h hmark) #[] {}
  rw [compileText, compileText]
  unfold Relocated
  generalize hrun : State.run #[] {} (readLines (InputLine.ofText s)) = r at hlog hresult
  generalize hrun' : State.run #[] {} (readLines (InputLine.ofText s')) = r' at hlog hresult
  obtain ⟨log, result⟩ := r
  obtain ⟨log', result'⟩ := r'
  have hlog : log' = log := hlog
  subst hlog
  obtain ⟨t, hok, hok'⟩ | ⟨e, e', herror, herror', hfault, hmoved⟩ := hresult
  · have hok : result = .ok t := hok
    have hok' : result' = .ok t := hok'
    subst hok hok'
    cases hclose : t.draft.close t.signals with
    | error fault =>
      rw [compile_of_close_error hrun hclose, compile_of_close_error hrun' hclose]
      exact ⟨rfl, .inr ⟨_, _, rfl, rfl, rfl, .inr ⟨⟨t, rfl⟩, length_of_revises h⟩⟩⟩
    | ok p =>
      rw [compile_of_close_ok hrun hclose, compile_of_close_ok hrun' hclose]
      exact ⟨rfl, .inl ⟨_, rfl, rfl⟩⟩
  · have herror : result = .error e := herror
    have herror' : result' = .error e' := herror'
    subst herror herror'
    rw [compile_of_run_error hrun, compile_of_run_error hrun']
    exact ⟨rfl, .inr ⟨e, e', rfl, rfl, hfault, .inl ⟨rfl, hmoved⟩⟩⟩

/-- Comments, empty lines, blanks and line ends carry no meaning. A text that does not start with a
byte order mark and one in which only these were changed report the same, and give the same targets
or have the same fault. The line of the fault moves by the lines that were added before it. -/
theorem outcome_of_revised (revisions : List Revision) (s s' : String)
    (h : Revises revisions s s') (hmark : Unmarked s.toList) :
    (compileText s').log = (compileText s).log ∧
    (∀ targets, (compileText s').result = .ok targets ↔ (compileText s).result = .ok targets) ∧
    ∀ e, (compileText s).result = .error e →
      ∃ e', (compileText s').result = .error e' ∧ e'.fault = e.fault ∧
        Relocated revisions s e e' := by
  obtain ⟨hlog, hresult⟩ := revised_cases h hmark
  refine ⟨hlog, ?_⟩
  obtain ⟨targets, hok, hok'⟩ | ⟨e, e', herror, herror', hfault, hmoved⟩ := hresult
  · rw [hok, hok']
    refine ⟨fun _ => Iff.rfl, ?_⟩
    intro e he
    cases he
  · rw [herror, herror']
    constructor
    · intro targets
      constructor
      · intro hok
        cases hok
      · intro hok
        cases hok
    · intro e₀ he
      cases he
      exact ⟨e', rfl, hfault, hmoved⟩

theorem exists_error_of_faultLine? {o : Outcome} {line : Nat} (h : o.faultLine? = some line) :
    ∃ e, o.result = .error e ∧ e.line = line := by
  cases hresult : o.result with
  | ok targets =>
    rw [Outcome.faultLine?, hresult] at h
    cases h
  | error e =>
    rw [faultLine?_of_error hresult] at h
    exact ⟨e, rfl, Option.some.inj h⟩

/-- The third line ends in a carriage return and uses a line that is not declared. -/
def faultyText : String := "@ A\n! layout flags:0 opcode:1 step:0\n= A | B\r\n"

def faultyRevisions : List Revision :=
  [ .added "# head".toList (by decide),
    .kept "@ A".toList false "\t".toList "\r".toList (by decide) (by decide),
    .added " ".toList (by decide),
    .kept "! layout flags:0 opcode:1 step:0".toList false [] "# = C".toList (by decide) (by decide),
    .kept "= A | B".toList true "  ".toList " #".toList (by decide) (by decide),
    .added [] (by decide) ]

def faultyTextRevised : String :=
  "# head\n\t@ A\r\n \n! layout flags:0 opcode:1 step:0# = C\n  = A | B #\n\n"

/-- Nothing is wrong with the lines, but the target has no layout. -/
def openText : String := "@ A\n"

def openRevisions : List Revision :=
  [ .added [] (by decide),
    .kept "@ A".toList false [] [] (by decide) (by decide),
    .added "# end".toList (by decide) ]

/-- A fault moves by the two lines that were added before it, and one at the end of a text by all
that were added. -/
theorem outcome_of_revised_faulty :
    (∃ e e', (compileText faultyText).result = .error e ∧ e.line = 3 ∧
      (compileText faultyTextRevised).result = .error e' ∧ e'.line = 5 ∧ e'.fault = e.fault ∧
      Relocated faultyRevisions faultyText e e') ∧
    (∃ e e', (compileText openText).result = .error e ∧ e.line = 1 ∧
      (compileText "\n@ A\n# end").result = .error e' ∧ e'.line = 3 ∧ e'.fault = e.fault ∧
      Relocated openRevisions openText e e') := by
  constructor
  · have hrevises : Revises faultyRevisions faultyText faultyTextRevised :=
      ⟨by decide +kernel, by decide +kernel⟩
    have hline : (compileText faultyText).faultLine? = some 3 := by decide +kernel
    have hline' : (compileText faultyTextRevised).faultLine? = some 5 := by decide +kernel
    obtain ⟨e, herror, hthree⟩ := exists_error_of_faultLine? hline
    obtain ⟨e', herror', hfault, hmoved⟩ :=
      (outcome_of_revised _ _ _ hrevises (by decide)).2.2 e herror
    rw [faultLine?_of_error herror'] at hline'
    exact ⟨e, e', herror, hthree, herror', Option.some.inj hline', hfault, hmoved⟩
  · have hrevises : Revises openRevisions openText "\n@ A\n# end" :=
      ⟨by decide +kernel, by decide +kernel⟩
    have hline : (compileText openText).faultLine? = some 1 := by decide +kernel
    have hline' : (compileText "\n@ A\n# end").faultLine? = some 3 := by decide +kernel
    obtain ⟨e, herror, hone⟩ := exists_error_of_faultLine? hline
    obtain ⟨e', herror', hfault, hmoved⟩ :=
      (outcome_of_revised _ _ _ hrevises (by decide)).2.2 e herror
    rw [faultLine?_of_error herror'] at hline'
    exact ⟨e, e', herror, hone, herror', Option.some.inj hline', hfault, hmoved⟩

end ControlStore.Source
