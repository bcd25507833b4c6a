import ControlStore.Proofs.DenseTable

/-! The policies for redefinitions differ in what they refuse. A table that warns does what one that
replaces does. One that rejects does so too once the requests that it refused are left out, and of
the definitions of an opcode that it carries out only the first can be unconditional. -/

namespace ControlStore

namespace TableCommand

def isConditional : TableCommand → Bool
  | defineWhen .. => true
  | defineNextWhen .. => true
  | _ => false

/-- The request has defined the opcode: it names it, or says so in its answer. -/
def hasDefined (opcode : Nat) : TableCommand → Except Error (Option Nat) → Bool
  | define o _, .ok _ => o = opcode
  | defineWhen _ o _ _, .ok _ => o = opcode
  | defineNext _, .ok answer => answer = some opcode
  | defineNextWhen .., .ok answer => answer = some opcode
  | _, _ => false

end TableCommand

/-- The answer to a request that names a defined opcode and is refused for it. -/
def isRefusal : Except Error (Option Nat) → Bool
  | .error (.duplicateDefinition _) => true
  | _ => false

section runs

variable {σ : Type} (perform : σ → TableCommand → σ × Except Error (Option Nat)) (cursor : σ → Nat)
  (s : σ) (commands : List TableCommand)

/-- The requests of a run that are not refused. -/
def granted : List TableCommand :=
  ((commands.zip (transcript perform cursor s commands)).filter fun p => !isRefusal p.2.1).map
    Prod.fst

/-- The requests of a run that have defined an opcode. -/
def definitionsOf (opcode : Nat) : List TableCommand :=
  ((commands.zip (transcript perform cursor s commands)).filter fun p =>
    p.1.hasDefined opcode p.2.1).map Prod.fst

theorem granted_cons (c : TableCommand) (rest : List TableCommand) :
    granted perform cursor s (c :: rest) =
      if isRefusal (perform s c).2 then granted perform cursor (perform s c).1 rest
      else c :: granted perform cursor (perform s c).1 rest := by
  cases h : isRefusal (perform s c).2 <;> simp [granted, transcript, h]

theorem definitionsOf_cons (c : TableCommand) (rest : List TableCommand) (opcode : Nat) :
    definitionsOf perform cursor s (c :: rest) opcode =
      if c.hasDefined opcode (perform s c).2 then
        c :: definitionsOf perform cursor (perform s c).1 rest opcode
      else definitionsOf perform cursor (perform s c).1 rest opcode := by
  cases h : c.hasDefined opcode (perform s c).2 <;> simp [definitionsOf, transcript, h]

/-- If no answer is a refusal, no request goes. -/
theorem granted_of_no_refusal
    (h : ∀ a ∈ transcript perform cursor s commands, isRefusal a.1 = false) :
    granted perform cursor s commands = commands := by
  induction commands generalizing s with
  | nil => rfl
  | cons c rest ih =>
    rw [transcript, List.forall_mem_cons] at h
    rw [granted_cons, if_neg (by rw [h.1]; exact Bool.false_ne_true), ih _ h.2]

end runs

namespace DenseTable

/-- The same plain table with another policy for redefinitions. -/
def under (d : DenseTable) (r : Redefine) : DenseTable :=
  { d with config := { d.config with redefine := r } }

variable {d : DenseTable} {r : Redefine}

theorem define_under (hr : r ≠ .reject) {opcode : Nat} {steps : List Word}
    (h : d.define opcode steps ≠ .error (.duplicateDefinition opcode)) :
    (d.under r).define opcode steps = (d.define opcode steps).map (·.under r) := by
  have hfree : ¬ (opcode ∈ d.named ∧ r = .reject) := fun hnamed => hr hnamed.2
  unfold DenseTable.define at h ⊢
  by_cases ho : d.opcodes ≤ opcode
  · rw [if_pos ho]
    exact if_pos ho
  rw [if_neg ho] at h ⊢
  have hgranted : ¬ (opcode ∈ d.named ∧ d.config.redefine = .reject) :=
    fun hnamed => h (if_pos hnamed)
  rw [if_neg hgranted]
  exact (if_neg ho).trans (if_neg hfree)

theorem defineWhen_under (d : DenseTable) (r : Redefine) (condition : Condition) (opcode : Nat)
    (steps : List Word) (fallback : Option (List Word)) :
    (d.under r).defineWhen condition opcode steps fallback =
      (d.defineWhen condition opcode steps fallback).map (·.under r) := by
  unfold DenseTable.defineWhen
  by_cases ho : d.opcodes ≤ opcode
  · rw [if_pos ho]
    exact if_pos ho
  · rw [if_neg ho]
    exact if_neg ho

theorem seek_under (d : DenseTable) (r : Redefine) (opcode : Nat) :
    (d.under r).seek opcode = (d.seek opcode).map (·.under r) := by
  unfold DenseTable.seek
  by_cases ho : d.opcodes ≤ opcode
  · rw [if_pos ho]
    exact if_pos ho
  · rw [if_neg ho]
    exact if_neg ho

theorem advance_under (x : Except Error DenseTable) (r : Redefine) :
    (x.map (·.under r)).map advance = (x.map advance).map (·.under r) := by
  cases x <;> rfl

theorem answering_under (d : DenseTable) (r : Redefine) (x : Except Error DenseTable)
    (answer : Option Nat) :
    (d.under r).answering (x.map (·.under r)) answer =
      ((d.answering x answer).1.under r, (d.answering x answer).2) := by
  cases x <;> rfl

/-- A definition whose answer is no refusal was not refused. -/
theorem define_of_answering {x : Except Error DenseTable} {answer : Option Nat} {opcode : Nat}
    (h : isRefusal (d.answering x answer).2 = false) :
    x ≠ .error (.duplicateDefinition opcode) := by
  rintro rfl
  cases h

/-- A request that is not refused does the same under any policy that refuses nothing. -/
theorem perform_under (hr : r ≠ .reject) {c : TableCommand}
    (h : isRefusal (d.perform c).2 = false) :
    (d.under r).perform c = ((d.perform c).1.under r, (d.perform c).2) := by
  cases c with
  | template condition steps => rfl
  | reserve condition steps => rfl
  | define opcode steps =>
    have hgranted : d.define opcode steps ≠ .error (.duplicateDefinition opcode) :=
      define_of_answering h
    dsimp only [DenseTable.perform]
    rw [define_under hr hgranted, answering_under]
  | defineWhen condition opcode steps fallback =>
    dsimp only [DenseTable.perform]
    rw [defineWhen_under, answering_under]
  | seek opcode =>
    dsimp only [DenseTable.perform]
    rw [seek_under, answering_under]
  | defineNext steps =>
    have hgranted : d.define d.cursor steps ≠ .error (.duplicateDefinition d.cursor) := by
      intro hrefused
      exact define_of_answering h (congrArg (Except.map advance) hrefused)
    have hcursor : (d.under r).cursor = d.cursor := rfl
    dsimp only [DenseTable.perform]
    rw [hcursor, define_under hr hgranted, advance_under, answering_under]
  | defineNextWhen condition steps fallback =>
    have hcursor : (d.under r).cursor = d.cursor := rfl
    dsimp only [DenseTable.perform]
    rw [hcursor, defineWhen_under, advance_under, answering_under]

theorem perform_of_refusal {c : TableCommand} (h : isRefusal (d.perform c).2 = true) :
    (d.perform c).1 = d := by
  have hanswering (x : Except Error DenseTable) (answer : Option Nat)
      (hx : isRefusal (d.answering x answer).2 = true) : (d.answering x answer).1 = d := by
    cases x with
    | error e => rfl
    | ok d' => cases hx
  cases c with
  | template condition steps => cases h
  | reserve condition steps => cases h
  | define opcode steps => exact hanswering _ _ h
  | defineWhen condition opcode steps fallback => exact hanswering _ _ h
  | seek opcode => exact hanswering _ _ h
  | defineNext steps => exact hanswering _ _ h
  | defineNextWhen condition steps fallback => exact hanswering _ _ h

/-- The requests of a run that are not refused, made under a policy that refuses nothing. -/
theorem run_under (hr : r ≠ .reject) (commands : List TableCommand) :
    let kept := granted DenseTable.perform DenseTable.cursor d commands
    transcript DenseTable.perform DenseTable.cursor (d.under r) kept =
        (transcript DenseTable.perform DenseTable.cursor d commands).filter
          (fun a => !isRefusal a.1) ∧
      after DenseTable.perform (d.under r) kept =
        (after DenseTable.perform d commands).under r := by
  induction commands generalizing d with
  | nil => exact ⟨rfl, rfl⟩
  | cons c rest ih =>
    obtain ⟨hanswers, hlast⟩ := ih (d := (d.perform c).1)
    have hafter : after DenseTable.perform d (c :: rest) =
        after DenseTable.perform (d.perform c).1 rest := rfl
    dsimp only
    rw [granted_cons, transcript, hafter]
    cases hc : isRefusal (d.perform c).2 with
    | true =>
      rw [perform_of_refusal hc] at hanswers hlast ⊢
      rw [if_pos rfl, hanswers, hlast]
      simp [hc]
    | false =>
      have hstep := perform_under hr hc
      have hcursor : ((d.perform c).1.under r).cursor = (d.perform c).1.cursor := rfl
      rw [if_neg Bool.false_ne_true, transcript, hstep, hanswers, hcursor]
      refine ⟨?_, ?_⟩
      · simp [hc]
      · simpa [after, hstep] using hlast

theorem define_eq_ok {d' : DenseTable} {opcode : Nat} {steps : List Word}
    (h : d.define opcode steps = .ok d') :
    ¬ (opcode ∈ d.named ∧ d.config.redefine = .reject) ∧ d'.config = d.config ∧
      d'.named = opcode :: d.named := by
  unfold DenseTable.define at h
  split at h
  · cases h
  split at h
  · cases h
  · rename_i hfree
    cases h
    exact ⟨hfree, rfl, rfl⟩

theorem defineWhen_eq_ok {d' : DenseTable} {condition : Condition} {opcode : Nat}
    {steps : List Word} {fallback : Option (List Word)}
    (h : d.defineWhen condition opcode steps fallback = .ok d') :
    d'.config = d.config ∧ d'.named = opcode :: d.named := by
  unfold DenseTable.defineWhen at h
  split at h
  · cases h
  · cases h
    exact ⟨rfl, rfl⟩

/-- A request leaves the policy, and the opcodes defined after it are those defined before and the
one it has defined. -/
theorem named_perform (d : DenseTable) (c : TableCommand) :
    (d.perform c).1.config = d.config ∧
      ∀ opcode, opcode ∈ (d.perform c).1.named ↔
        opcode ∈ d.named ∨ c.hasDefined opcode (d.perform c).2 = true := by
  cases c with
  | template condition steps => simp [DenseTable.perform, TableCommand.hasDefined]
  | reserve condition steps => simp [DenseTable.perform, TableCommand.hasDefined]
  | seek o =>
    dsimp only [DenseTable.perform, DenseTable.seek]
    split <;> simp [answering, TableCommand.hasDefined]
  | define o steps =>
    dsimp only [DenseTable.perform]
    cases hd : d.define o steps with
    | error e => simp [answering, TableCommand.hasDefined]
    | ok d' =>
      obtain ⟨-, hconfig, hnamed⟩ := define_eq_ok hd
      simp [answering, TableCommand.hasDefined, hconfig, hnamed, or_comm, eq_comm]
  | defineWhen condition o steps fallback =>
    dsimp only [DenseTable.perform]
    cases hd : d.defineWhen condition o steps fallback with
    | error e => simp [answering, TableCommand.hasDefined]
    | ok d' =>
      obtain ⟨hconfig, hnamed⟩ := defineWhen_eq_ok hd
      simp [answering, TableCommand.hasDefined, hconfig, hnamed, or_comm, eq_comm]
  | defineNext steps =>
    dsimp only [DenseTable.perform]
    cases hd : d.define d.cursor steps with
    | error e => simp [answering, Except.map, TableCommand.hasDefined]
    | ok d' =>
      obtain ⟨-, hconfig, hnamed⟩ := define_eq_ok hd
      simp [answering, advance, Except.map, TableCommand.hasDefined, hconfig, hnamed, or_comm,
        eq_comm]
  | defineNextWhen condition steps fallback =>
    dsimp only [DenseTable.perform]
    cases hd : d.defineWhen condition d.cursor steps fallback with
    | error e => simp [answering, Except.map, TableCommand.hasDefined]
    | ok d' =>
      obtain ⟨hconfig, hnamed⟩ := defineWhen_eq_ok hd
      simp [answering, advance, Except.map, TableCommand.hasDefined, hconfig, hnamed, or_comm,
        eq_comm]

/-- Only a policy that rejects refuses. -/
theorem not_isRefusal_perform (h : d.config.redefine ≠ .reject) (c : TableCommand) :
    isRefusal (d.perform c).2 = false := by
  have hdefine (opcode : Nat) (steps : List Word) : d.define opcode steps =
      if d.opcodes ≤ opcode then .error (.outOfRange (.field .opcode) opcode d.opcodes)
      else .ok (d.write opcode fun _ _ => some (d.fitted steps)) := by
    have hfree : ¬ (opcode ∈ d.named ∧ d.config.redefine = .reject) := fun hnamed => h hnamed.2
    rw [DenseTable.define, if_neg hfree]
  cases c with
  | template condition steps => rfl
  | reserve condition steps => rfl
  | define opcode steps =>
    dsimp only [DenseTable.perform]
    rw [hdefine]
    split <;> rfl
  | defineWhen condition opcode steps fallback =>
    dsimp only [DenseTable.perform, DenseTable.defineWhen]
    split <;> rfl
  | seek opcode =>
    dsimp only [DenseTable.perform, DenseTable.seek]
    split <;> rfl
  | defineNext steps =>
    dsimp only [DenseTable.perform]
    rw [hdefine]
    split <;> rfl
  | defineNextWhen condition steps fallback =>
    dsimp only [DenseTable.perform, DenseTable.defineWhen]
    split <;> rfl

theorem no_refusal_in_transcript (h : d.config.redefine ≠ .reject) (commands : List TableCommand) :
    ∀ a ∈ transcript DenseTable.perform DenseTable.cursor d commands, isRefusal a.1 = false := by
  induction commands generalizing d with
  | nil => simp [transcript]
  | cons c rest ih =>
    have hnext : (d.perform c).1.config.redefine ≠ .reject := (named_perform d c).1 ▸ h
    exact List.forall_mem_cons.mpr ⟨not_isRefusal_perform h c, ih hnext⟩

/-- Once an opcode is defined, a table that rejects defines it under a condition only. -/
theorem isConditional_of_named (hreject : d.config.redefine = .reject) {opcode : Nat}
    (hnamed : opcode ∈ d.named) {c : TableCommand}
    (h : c.hasDefined opcode (d.perform c).2 = true) : c.isConditional = true := by
  cases c with
  | template condition steps => cases h
  | reserve condition steps => cases h
  | defineWhen condition o steps fallback => rfl
  | seek o => simp [TableCommand.hasDefined] at h
  | define o steps =>
    dsimp only [DenseTable.perform] at h
    cases hd : d.define o steps with
    | error e => simp [hd, answering, TableCommand.hasDefined] at h
    | ok d' =>
      obtain rfl : o = opcode := by simpa [hd, answering, TableCommand.hasDefined] using h
      exact absurd ⟨hnamed, hreject⟩ (define_eq_ok hd).1
  | defineNext steps =>
    dsimp only [DenseTable.perform] at h
    cases hd : d.define d.cursor steps with
    | error e => simp [hd, answering, Except.map, TableCommand.hasDefined] at h
    | ok d' =>
      obtain rfl : d.cursor = opcode := by
        simpa [hd, answering, Except.map, TableCommand.hasDefined] using h
      exact absurd ⟨hnamed, hreject⟩ (define_eq_ok hd).1
  | defineNextWhen condition steps fallback => rfl

theorem isConditional_of_mem_definitionsOf (hreject : d.config.redefine = .reject) {opcode : Nat}
    (hnamed : opcode ∈ d.named) (commands : List TableCommand) :
    ∀ c ∈ definitionsOf DenseTable.perform DenseTable.cursor d commands opcode,
      c.isConditional = true := by
  induction commands generalizing d with
  | nil => simp [definitionsOf]
  | cons c rest ih =>
    obtain ⟨hconfig, hnext⟩ := named_perform d c
    have hrest := ih (hconfig ▸ hreject) ((hnext opcode).mpr (.inl hnamed))
    rw [definitionsOf_cons]
    split
    · rename_i hc
      exact List.forall_mem_cons.mpr ⟨isConditional_of_named hreject hnamed hc, hrest⟩
    · exact hrest

/-- All definitions of an opcode but the first are conditional. -/
theorem isConditional_of_mem_tail (hreject : d.config.redefine = .reject) (opcode : Nat)
    (commands : List TableCommand) :
    ∀ c ∈ (definitionsOf DenseTable.perform DenseTable.cursor d commands opcode).tail,
      c.isConditional = true := by
  induction commands generalizing d with
  | nil => simp [definitionsOf]
  | cons c rest ih =>
    obtain ⟨hconfig, hnext⟩ := named_perform d c
    rw [definitionsOf_cons]
    split
    · -- The first definition names the opcode, so that those after it meet a defined one.
      rename_i hc
      exact isConditional_of_mem_definitionsOf (hconfig ▸ hreject) ((hnext opcode).mpr (.inr hc))
        rest
    · exact ih (hconfig ▸ hreject)

end DenseTable

namespace Table

/-- Two tables stand at one opcode and read the same everywhere. -/
structure LooksLike (t t' : Table) : Prop where
  cursor : t.cursor = t'.cursor
  sequence : ∀ slice opcode,
    (t.sequence slice opcode).map Vector.toList = (t'.sequence slice opcode).map Vector.toList
  word : ∀ slice opcode step, t.word slice opcode step = t'.word slice opcode step

/-- Tables that plain tables show which differ in their policy only. -/
theorem looksLike_of_shows {d : DenseTable} {r : Redefine} {t t' : Table} (h : (d.under r).Shows t)
    (h' : d.Shows t') : t.LooksLike t' := by
  refine ⟨?_, ?_, ?_⟩
  · exact h.cursor.symm.trans h'.cursor
  · intro slice opcode
    exact (h.sequence slice opcode).trans (h'.sequence slice opcode).symm
  · intro slice opcode step
    exact (h.word slice opcode step).trans (h'.word slice opcode step).symm

/-- The same requests under each policy. Warning gives the answers, cursors and sequences that
replacing gives. Rejecting gives the ones that replacing gives for the requests that are not
refused, and of the definitions of an opcode that succeed all but the first are conditional. -/
theorem runs_under_policies (slices opcodes : Nat) (config : TableConfig)
    (hsteps : 0 < config.steps) :
    ∃ replacing warning rejecting,
      Table.new slices opcodes { config with redefine := .replace } = .ok replacing ∧
      Table.new slices opcodes { config with redefine := .warn } = .ok warning ∧
      Table.new slices opcodes { config with redefine := .reject } = .ok rejecting ∧
      ∀ commands : List TableCommand,
        let kept := granted Table.perform Table.cursor rejecting commands
        (transcript Table.perform Table.cursor warning commands =
            transcript Table.perform Table.cursor replacing commands ∧
          (after Table.perform warning commands).LooksLike
            (after Table.perform replacing commands)) ∧
        (transcript Table.perform Table.cursor replacing kept =
            (transcript Table.perform Table.cursor rejecting commands).filter
              (fun a => !isRefusal a.1) ∧
          (after Table.perform replacing kept).LooksLike
            (after Table.perform rejecting commands)) ∧
        ∀ opcode, ∀ c ∈ (definitionsOf Table.perform Table.cursor rejecting commands opcode).tail,
          c.isConditional = true := by
  let d (r : Redefine) : DenseTable := DenseTable.new slices opcodes { config with redefine := r }
  obtain ⟨replacing, hreplacing, hshowsReplacing⟩ :=
    DenseTable.shows_new slices opcodes { config with redefine := .replace } hsteps
  obtain ⟨warning, hwarning, hshowsWarning⟩ :=
    DenseTable.shows_new slices opcodes { config with redefine := .warn } hsteps
  obtain ⟨rejecting, hrejecting, hshowsRejecting⟩ :=
    DenseTable.shows_new slices opcodes { config with redefine := .reject } hsteps
  refine ⟨replacing, warning, rejecting, hreplacing, hwarning, hrejecting, fun commands => ?_⟩
  have hwarn : (d .replace).under .warn = d .warn := rfl
  have hreplace : (d .reject).under .replace = d .replace := rfl
  obtain ⟨hanswers, hlast⟩ := hshowsReplacing.run commands
  obtain ⟨hanswersWarning, hlastWarning⟩ := hshowsWarning.run commands
  obtain ⟨hanswersRejecting, hlastRejecting⟩ := hshowsRejecting.run commands
  refine ⟨?_, ?_, ?_⟩
  · have hquiet := DenseTable.no_refusal_in_transcript (d := d .replace) nofun commands
    obtain ⟨hsame, hsameLast⟩ := DenseTable.run_under (d := d .replace) (r := .warn) nofun commands
    rw [granted_of_no_refusal _ _ _ _ hquiet, hwarn] at hsame hsameLast
    rw [List.filter_eq_self.mpr fun a ha => by rw [hquiet a ha]; rfl] at hsame
    refine ⟨?_, looksLike_of_shows (hsameLast ▸ hlastWarning) hlast⟩
    rw [hanswers, hanswersWarning]
    exact hsame
  · have hkept : granted Table.perform Table.cursor rejecting commands =
        granted DenseTable.perform DenseTable.cursor (d .reject) commands := by
      rw [granted, hanswersRejecting]
      rfl
    obtain ⟨hsame, hsameLast⟩ :=
      DenseTable.run_under (d := d .reject) (r := .replace) nofun commands
    rw [hreplace] at hsame hsameLast
    rw [hkept, hanswersRejecting]
    obtain ⟨hanswersKept, hlastKept⟩ := hshowsReplacing.run
      (granted DenseTable.perform DenseTable.cursor (d .reject) commands)
    rw [hanswersKept]
    exact ⟨hsame, looksLike_of_shows (hsameLast ▸ hlastKept) hlastRejecting⟩
  · intro opcode
    have hdefinitions : definitionsOf Table.perform Table.cursor rejecting commands opcode =
        definitionsOf DenseTable.perform DenseTable.cursor (d .reject) commands opcode := by
      rw [definitionsOf, hanswersRejecting]
      rfl
    rw [hdefinitions]
    exact DenseTable.isConditional_of_mem_tail rfl opcode commands

/-- A conditional definition comes first, so that every later definition of its opcode is refused
unless it is conditional as well, at the cursor and away from it. -/
def contested : List TableCommand :=
  [.defineNextWhen ⟨[⟨0, true⟩]⟩ [Word.bit 1] none, .define 0 [Word.bit 2], .seek 0,
    .defineNext [Word.bit 3], .defineNextWhen ⟨[⟨0, false⟩]⟩ [Word.bit 4] none,
    .defineNext [Word.bit 5], .defineNext []]

theorem runs_under_policies_contested :
    ∃ replacing rejecting,
      Table.new 2 2 { steps := 1, redefine := .replace } = .ok replacing ∧
      Table.new 2 2 { steps := 1, redefine := .reject } = .ok rejecting ∧
      transcript Table.perform Table.cursor rejecting contested =
        [(.ok (some 0), 1), (.error (.duplicateDefinition 0), 1), (.ok none, 0),
          (.error (.duplicateDefinition 0), 0), (.ok (some 0), 1), (.ok (some 1), 2),
          (.error (.outOfRange (.field .opcode) 2 2), 2)] ∧
      transcript Table.perform Table.cursor replacing
          (granted Table.perform Table.cursor rejecting contested) =
        [(.ok (some 0), 1), (.ok none, 0), (.ok (some 0), 1), (.ok (some 1), 2),
          (.error (.outOfRange (.field .opcode) 2 2), 2)] ∧
      (after Table.perform replacing
          (granted Table.perform Table.cursor rejecting contested)).LooksLike
        (after Table.perform rejecting contested) ∧
      ∀ c ∈ (definitionsOf Table.perform Table.cursor rejecting contested 0).tail,
        c.isConditional = true := by
  obtain ⟨replacing, warning, rejecting, hreplacing, -, hrejecting, hruns⟩ :=
    runs_under_policies 2 2 { steps := 1 } (by decide)
  obtain ⟨-, ⟨hkept, hlooks⟩, hdefinitions⟩ := hruns contested
  obtain ⟨t, ht, hshows⟩ := DenseTable.shows_new 2 2 { steps := 1, redefine := .reject } (by decide)
  cases ht.symm.trans hrejecting
  have hanswers : transcript Table.perform Table.cursor rejecting contested =
      [(.ok (some 0), 1), (.error (.duplicateDefinition 0), 1), (.ok none, 0),
        (.error (.duplicateDefinition 0), 0), (.ok (some 0), 1), (.ok (some 1), 2),
        (.error (.outOfRange (.field .opcode) 2 2), 2)] := by
    rw [(hshows.run contested).1]
    decide
  refine ⟨replacing, rejecting, hreplacing, hrejecting, hanswers, ?_, hlooks, hdefinitions 0⟩
  rw [hkept, hanswers]
  decide

end Table

end ControlStore
