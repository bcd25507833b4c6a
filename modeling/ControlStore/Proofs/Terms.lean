import ControlStore.Proofs.Signals
import ControlStore.Proofs.Text

/-! What terms mean. The word of a list of terms is the OR of their words, and requests that are
made later leave it as it is, unless they name the value that a term asks for. -/

namespace ControlStore.Signals

variable {s s' : Signals}

theorem foldlM_build (s : Signals) (terms : List String) (acc : Word) :
    terms.foldlM (fun w t => do
      let v ← s.resolveTerm t
      return w ||| v) acc = (fun w => acc ||| w) <$> s.build terms := by
  -- The accumulator stays in front of all words that are still to come.
  induction terms generalizing acc with
  | nil => exact congrArg Except.ok (Word.or_zero acc).symm
  | cons t rest ih =>
    rw [build, List.foldlM_cons, List.foldlM_cons]
    cases s.resolveTerm t with
    | error e => rfl
    | ok v =>
      show List.foldlM _ (acc ||| v) rest =
        (fun w => acc ||| w) <$> List.foldlM _ (Word.zero ||| v) rest
      rw [ih, ih, Word.zero_or]
      cases s.build rest with
      | error e => rfl
      | ok w => exact congrArg Except.ok (Word.or_assoc acc v w)

theorem build_cons (t : String) (rest : List String) :
    s.build (t :: rest) =
      (s.resolveTerm t >>= fun a => (fun b => a ||| b) <$> s.build rest) := by
  rw [build, List.foldlM_cons]
  cases s.resolveTerm t with
  | error e => rfl
  | ok a =>
    show List.foldlM _ (Word.zero ||| a) rest = (fun b => a ||| b) <$> s.build rest
    rw [foldlM_build, Word.zero_or]

theorem build_cons_eq_ok {t : String} {rest : List String} {w : Word} :
    s.build (t :: rest) = .ok w ↔
      ∃ a b, s.resolveTerm t = .ok a ∧ s.build rest = .ok b ∧ w = a ||| b := by
  rw [build_cons, bind_eq_ok]
  constructor
  · rintro ⟨a, ha, h⟩
    obtain ⟨b, hb, rfl⟩ := map_eq_ok.mp h
    exact ⟨a, b, ha, hb, rfl⟩
  · rintro ⟨a, b, ha, hb, rfl⟩
    exact ⟨a, ha, map_eq_ok.mpr ⟨b, hb, rfl⟩⟩

/-- Terms in two lists are built list by list. -/
theorem build_append_eq_ok {xs ys : List String} {w : Word} :
    s.build (xs ++ ys) = .ok w ↔
      ∃ a b, s.build xs = .ok a ∧ s.build ys = .ok b ∧ w = a ||| b := by
  induction xs generalizing w with
  | nil =>
    constructor
    · intro h
      exact ⟨Word.zero, w, rfl, h, (Word.zero_or w).symm⟩
    · rintro ⟨a, b, ha, hb, rfl⟩
      cases ha
      rw [Word.zero_or]
      exact hb
  | cons t rest ih =>
    rw [List.cons_append, build_cons_eq_ok]
    constructor
    · rintro ⟨a, v, ha, hv, rfl⟩
      obtain ⟨b, c, hb, hc, rfl⟩ := ih.mp hv
      exact ⟨a ||| b, c, build_cons_eq_ok.mpr ⟨a, b, ha, hb, rfl⟩, hc, (Word.or_assoc a b c).symm⟩
    · rintro ⟨v, c, hv, hc, rfl⟩
      obtain ⟨a, b, ha, hb, rfl⟩ := build_cons_eq_ok.mp hv
      exact ⟨a, b ||| c, ha, ih.mpr ⟨b, c, hb, hc, rfl⟩, Word.or_assoc a b c⟩

theorem exists_of_mem_build {terms : List String} {w : Word} (h : s.build terms = .ok w)
    {t : String} (ht : t ∈ terms) : ∃ v, s.resolveTerm t = .ok v := by
  induction terms generalizing w with
  | nil => cases ht
  | cons t' rest ih =>
    obtain ⟨a, b, ha, hb, -⟩ := build_cons_eq_ok.mp h
    rcases List.mem_cons.mp ht with rfl | ht
    · exact ⟨a, ha⟩
    · exact ih hb ht

theorem build_of_resolveTerm {terms : List String} {w : Word} (h : s.build terms = .ok w)
    (hterms : ∀ t ∈ terms, ∀ v, s.resolveTerm t = .ok v → s'.resolveTerm t = .ok v) :
    s'.build terms = .ok w := by
  induction terms generalizing w with
  | nil => exact h
  | cons t rest ih =>
    obtain ⟨a, b, ha, hb, rfl⟩ := build_cons_eq_ok.mp h
    obtain ⟨ht, hrest⟩ := List.forall_mem_cons.mp hterms
    exact build_cons_eq_ok.mpr ⟨a, b, ht a ha, ih hb hrest, rfl⟩

/-- The names that the values of a field have. -/
def valueNamesOf (s : Signals) (field : String) : List String := (s.valueNames.lookup field).getD []

/-- A text that is no name of a value is a number or nothing. -/
theorem value_of_not_mem {field text : String} (h : text ∉ s.valueNamesOf field) :
    s.value field text =
      match Text.nat64? text.toList with
      | some n => .ok n
      | none => .error (.invalid (.valueText text field)) := by
  have hindex : ((s.valueNames.lookup field).getD []).idxOf? text = none :=
    List.idxOf?_eq_none_iff.mpr h
  cases hnumber : Text.nat64? text.toList with
  | none => simp only [value, hindex, hnumber]
  | some n => simp only [value, hindex, hnumber]

theorem value_congr {field : String} (h : s'.valueNamesOf field = s.valueNamesOf field)
    (text : String) : s'.value field text = s.value field text := by
  unfold valueNamesOf at h
  rw [value, value, h]

theorem line?_run {c : SignalCommand} {name : String} {l : Line} (h : s.run c = .ok s')
    (hl : s.line? name = some l) : s'.line? name = some l := by
  unfold line? at hl ⊢
  rw [lines_run h, List.find?_append, hl]
  rfl

/-- A name with a meaning is that of a line or else of a composite. -/
theorem resolve_eq_ok {name : String} {w : Word} :
    s.resolve name = .ok w ↔ (∃ l, s.line? name = some l ∧ l.mask = w) ∨
      (s.line? name = none ∧ s.composites.lookup name = some w) := by
  unfold resolve
  cases s.line? name with
  | some l => simp
  | none => cases s.composites.lookup name <;> simp

theorem mem_names_of_lookup {name : String} {w : Word} (h : s.composites.lookup name = some w) :
    name ∈ s.names := by
  have hne : ¬ s.composites.lookup name = none := by
    rw [h]
    exact Option.some_ne_none w
  rw [lookup_eq_none_iff, not_not] at hne
  exact List.mem_append_right _ hne

/-- A new name is none of those that have a meaning already. -/
theorem resolve_run {c : SignalCommand} {name : String} {w : Word} (h : s.run c = .ok s')
    (hw : s.resolve name = .ok w) : s'.resolve name = .ok w := by
  rw [resolve_eq_ok] at hw ⊢
  rcases hw with ⟨l, hl, hmask⟩ | ⟨hnone, hlookup⟩
  · exact .inl ⟨l, line?_run h hl, hmask⟩
  refine .inr ?_
  rcases run_eq_ok h with ⟨l, _, -, -, -, hline⟩ | ⟨name', terms, w', -, hcompose⟩ |
    ⟨field, names, -, hnames⟩
  · -- Lines go before composites, so the new line must not have the name of this one.
    obtain ⟨-, hfresh, -, -, -, rfl⟩ := insert_eq_ok hline
    have hne : name ≠ l.name := fun heq => hfresh (heq ▸ mem_names_of_lookup hlookup)
    refine ⟨?_, hlookup⟩
    rw [line?_eq_none_iff] at hnone ⊢
    simpa [hne] using hnone
  · obtain ⟨-, -, -, rfl⟩ := compose_eq_ok hcompose
    refine ⟨hnone, ?_⟩
    show (s.composites ++ [(name', w')]).lookup name = some w
    rw [List.lookup_append, hlookup]
    rfl
  · obtain ⟨l, -, -, -, rfl⟩ := nameValues_eq_ok hnames
    exact ⟨hnone, hlookup⟩

theorem lookup_filter_of_ne {α : Type} (entries : List (String × α)) {field other : String}
    (h : other ≠ field) :
    (entries.filter fun p => p.1 != field).lookup other = entries.lookup other := by
  induction entries with
  | nil => rfl
  | cons p rest ih =>
    obtain ⟨name, a⟩ := p
    by_cases hname : name = field
    · subst hname
      have hno : (other == name) = false := by simpa using h
      rw [List.filter_cons_of_neg (by simp), ih, List.lookup_cons, hno]
    · rw [List.filter_cons_of_pos (by simpa using hname), List.lookup_cons, List.lookup_cons, ih]

/-- A field keeps the names of its values until they are named again. -/
theorem valueNamesOf_run {c : SignalCommand} (h : s.run c = .ok s') (field : String) :
    s'.valueNamesOf field = s.valueNamesOf field ∨
      ∃ names, c = .nameValues field names ∧ s'.valueNamesOf field = names := by
  rcases run_eq_ok h with ⟨l, _, -, -, -, hline⟩ | ⟨name, terms, w, -, hcompose⟩ |
    ⟨field', names, rfl, hnames⟩
  · obtain ⟨-, -, -, -, -, rfl⟩ := insert_eq_ok hline
    exact .inl rfl
  · obtain ⟨-, -, -, rfl⟩ := compose_eq_ok hcompose
    exact .inl rfl
  · obtain ⟨l, -, -, -, rfl⟩ := nameValues_eq_ok hnames
    by_cases hfield : field = field'
    · subst hfield
      refine .inr ⟨names, rfl, ?_⟩
      simp [valueNamesOf]
    · have hno : (field == field') = false := by simpa using hfield
      refine .inl ?_
      show (((field', names) :: s.valueNames.filter _).lookup field).getD [] = _
      rw [List.lookup_cons, hno, lookup_filter_of_ne _ hfield]
      rfl

/-- The request names the values of the field, and the text is or was such a name. -/
def NamesValue (s : Signals) (c : SignalCommand) (field text : String) : Prop :=
  ∃ names, c = .nameValues field names ∧ (text ∈ names ∨ text ∈ s.valueNamesOf field)

theorem value_run {c : SignalCommand} {field text : String} (h : s.run c = .ok s')
    (hno : ¬ s.NamesValue c field text) : s'.value field text = s.value field text := by
  rcases valueNamesOf_run h field with hsame | ⟨names, rfl, hnew⟩
  · exact value_congr hsame text
  · -- The text is no name before or after, and a number means the same in all fields.
    have hboth : ¬(text ∈ names ∨ text ∈ s.valueNamesOf field) := fun hor => hno ⟨names, rfl, hor⟩
    rw [not_or] at hboth
    rw [value_of_not_mem hboth.2, value_of_not_mem (hnew.symm ▸ hboth.1)]

theorem resolveTerm_run {c : SignalCommand} {term : String} {w : Word} (h : s.run c = .ok s')
    (hno : ∀ field text, term = field ++ "=" ++ text → ¬ s.NamesValue c field text)
    (hw : s.resolveTerm term = .ok w) : s'.resolveTerm term = .ok w := by
  unfold resolveTerm at hw ⊢
  cases hcut : Text.cut '=' term.toList with
  | none =>
    rw [hcut] at hw
    exact resolve_run h hw
  | some p =>
    obtain ⟨name, text⟩ := p
    rw [hcut] at hw
    have hterm : term = String.ofList name ++ "=" ++ String.ofList text := by
      rw [← String.toList_inj, (Text.eq_of_cut hcut).2]
      simp
    obtain ⟨l, hl, hw⟩ := bind_eq_ok.mp hw
    obtain ⟨v, hv, hw⟩ := bind_eq_ok.mp hw
    have hl' : s'.line (String.ofList name) = .ok l :=
      (line_eq_ok_iff _ _ _).mpr (line?_run h ((line_eq_ok_iff _ _ _).mp hl))
    have hv' := (value_run h (hno _ _ hterm)).trans hv
    exact bind_eq_ok.mpr ⟨l, hl', bind_eq_ok.mpr ⟨v, hv', hw⟩⟩

/-- Some request among them succeeds in naming the values of the field, and the text is then or was
until then such a name. -/
def Renames (s : Signals) (commands : List SignalCommand) (field text : String) : Prop :=
  ∃ before c rest s', commands = before ++ c :: rest ∧ (s.after before).run c = .ok s' ∧
    (s.after before).NamesValue c field text

theorem not_renames_next {c : SignalCommand} {rest : List SignalCommand} {field text : String}
    (h : ¬ s.Renames (c :: rest) field text) : ¬ (s.next c).Renames rest field text := by
  rintro ⟨before, c', rest', s', rfl, hrun, hnames⟩
  exact h ⟨c :: before, c', rest', s', rfl, hrun, hnames⟩

theorem resolveTerm_after {commands : List SignalCommand} {term : String} {w : Word}
    (hno : ∀ field text, term = field ++ "=" ++ text → ¬ s.Renames commands field text)
    (hw : s.resolveTerm term = .ok w) : (s.after commands).resolveTerm term = .ok w := by
  induction commands generalizing s with
  | nil => exact hw
  | cons c rest ih =>
    show ((s.next c).after rest).resolveTerm term = .ok w
    refine ih (fun field text heq => not_renames_next (hno field text heq)) ?_
    cases hc : s.run c with
    | error e =>
      rw [next_of_error hc]
      exact hw
    | ok s' =>
      rw [next_of_ok hc]
      refine resolveTerm_run hc ?_ hw
      intro field text heq hnames
      exact hno field text heq ⟨[], c, rest, s', rfl, hc, hnames⟩

theorem width_after (s : Signals) (commands : List SignalCommand) :
    s.width ≤ (s.after commands).width := by
  rw [width_le_iff]
  intro l hl
  have hmem : l ∈ (s.after commands).lines := by
    rw [lines_after]
    exact List.mem_append_left _ hl
  exact (width_le_iff _ _).mp le_rfl l hmem

/-- Whatever is defined later, a term keeps its word, unless it gives a field a value by a text that
becomes a name or ceases to be one; so do lists of terms; and signals never become narrower. -/
theorem words_of_terms_after (s : Signals) (commands : List SignalCommand) :
    (∀ term w, s.resolveTerm term = .ok w →
      (∀ field text, term = field ++ "=" ++ text → ¬ s.Renames commands field text) →
      (s.after commands).resolveTerm term = .ok w) ∧
    (∀ terms w, s.build terms = .ok w →
      (∀ term ∈ terms, ∀ field text, term = field ++ "=" ++ text →
        ¬ s.Renames commands field text) →
      (s.after commands).build terms = .ok w) ∧
    s.width ≤ (s.after commands).width := by
  refine ⟨?_, ?_, s.width_after commands⟩
  · intro term w hw hno
    exact resolveTerm_after hno hw
  · intro terms w hw hno
    refine build_of_resolveTerm hw ?_
    intro term hterm v hv
    exact resolveTerm_after (hno term hterm) hv

/-- A field whose first two values have names, and a composite that uses one of them. -/
def withNamedValues : Signals :=
  after {} [.define "A" 0, .defineField "F" 4 3, .nameValues "F" ["lo", "hi"],
    .compose "X" ["A", "F=hi"]]

/-- The names change places and a request fails, and only the term that uses such a name moves. -/
theorem words_of_terms_after_swap :
    withNamedValues.build ["X", "F=5"] = .ok (Word.ofNat 0x51) ∧
    (withNamedValues.after [.push "B" 1 true, .nameValues "F" ["hi", "lo"], .define "A" 9]).build
      ["X", "F=5"] = .ok (Word.ofNat 0x51) ∧
    withNamedValues.resolveTerm "F=hi" = .ok (Word.ofNat 0x10) ∧
    (withNamedValues.after [.push "B" 1 true, .nameValues "F" ["hi", "lo"],
      .define "A" 9]).resolveTerm "F=hi" = .ok Word.zero := by
  have hbuild : withNamedValues.build ["X", "F=5"] = .ok (Word.ofNat 0x51) := by decide +kernel
  refine ⟨hbuild, (words_of_terms_after _ _).2.1 _ _ hbuild ?_, by decide +kernel,
    by decide +kernel⟩
  rintro term hterm field text rfl ⟨before, c, rest, s', heq, -, names, rfl, hnamed⟩
  have hfield : before = [.push "B" 1 true] ∧ field = "F" ∧ names = ["hi", "lo"] := by
    rcases before with _ | ⟨c, _ | ⟨c', _ | ⟨c'', before⟩⟩⟩ <;> simp at heq
    exact ⟨by rw [heq.1], heq.2.1.1.symm, heq.2.1.2.symm⟩
  obtain ⟨rfl, rfl, rfl⟩ := hfield
  have hbefore : (withNamedValues.after [.push "B" 1 true]).valueNamesOf "F" = ["lo", "hi"] := by
    decide +kernel
  rw [hbefore] at hnamed
  have htext : text = "hi" ∨ text = "lo" := by
    simp only [List.mem_cons, List.not_mem_nil, or_false] at hnamed
    tauto
  rcases htext with rfl | rfl
  · exact absurd hterm (by decide)
  · exact absurd hterm (by decide)

end ControlStore.Signals
