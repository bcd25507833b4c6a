import ControlStore.Proofs.Terms

/-! Values of lines. A field takes a value by its number or by the name of the value, as far as its
width goes, and terms for different lines keep out of each other's way. -/

namespace ControlStore

theorem Word.field_eq_ofNat {lsb width v : Nat} (hw : width ≤ 64) (hv : v < 2 ^ width) :
    field lsb width v = ofNat (v * 2 ^ lsb) := by
  apply toNat_injective
  rw [toNat_field, toNat_ofNat, Nat.min_eq_left hw, Nat.mod_eq_of_lt hv]

theorem Word.test_ofNat_mul {lsb width v : Nat} (hv : v < 2 ^ width) {k : Nat}
    (h : (ofNat (v * 2 ^ lsb)).test k = true) : lsb ≤ k ∧ k < lsb + width := by
  rw [test_eq, toNat_ofNat, Nat.testBit_mul_two_pow, Bool.and_eq_true, decide_eq_true_eq] at h
  obtain ⟨hle, hbit⟩ := h
  have hlt : k - lsb < width := by
    by_contra hge
    have hpow : 2 ^ width ≤ 2 ^ (k - lsb) := Nat.pow_le_pow_right (by decide) (Nat.not_lt.mp hge)
    rw [Nat.testBit_lt_two_pow (lt_of_lt_of_le hv hpow)] at hbit
    cases hbit
  omega

theorem Word.extract_ofNat_mul {lsb width v : Nat} (hw : width ≤ 64) (hv : v < 2 ^ width) :
    ((ofNat (v * 2 ^ lsb)).extract lsb width).toNat = v := by
  rw [toNat_extract _ _ _ hw, toNat_ofNat, Nat.mul_div_cancel _ (Nat.two_pow_pos lsb),
    Nat.mod_eq_of_lt hv]

/-- What is taken out depends on the bits that are taken out only. -/
theorem Word.extract_congr {a b : Word} {lsb width : Nat} (hw : width ≤ 64)
    (h : ∀ k, lsb ≤ k → k < lsb + width → a.test k = b.test k) :
    a.extract lsb width = b.extract lsb width := by
  apply UInt64.toNat_inj.mp
  rw [toNat_extract _ _ _ hw, toNat_extract _ _ _ hw]
  apply Nat.eq_of_testBit_eq
  intro i
  rw [Nat.testBit_mod_two_pow, Nat.testBit_mod_two_pow, Nat.testBit_div_two_pow,
    Nat.testBit_div_two_pow, ← test_eq, ← test_eq]
  by_cases hi : i < width
  · rw [h (i + lsb) (by omega) (by omega)]
  · simp [hi]

theorem Line.mask_eq_ofNat (l : Line) (h : l.bit + l.width ≤ Signals.maxBits) :
    l.mask = Word.ofNat ((2 ^ l.width - 1) * 2 ^ l.bit) := by
  apply Word.toNat_injective
  apply Nat.eq_of_testBit_eq
  intro k
  rw [← Word.test_eq, mask, Word.test_foldl_set, Word.test_zero, Bool.false_or, l.stop_eq h,
    Word.toNat_ofNat, Nat.testBit_mul_two_pow, Nat.testBit_two_pow_sub_one, ← Bool.decide_and,
    decide_eq_decide, List.mem_range'_1]
  omega

namespace Signals

variable {s s' : Signals}

/-- A text means a value of a field: the index of the value name that it is, or the number that it
writes if it is none. -/
inductive Means (s : Signals) (field text : String) (v : Nat) : Prop
  | name (h : (s.valueNamesOf field)[v]? = some text)
  | number (hname : text ∉ s.valueNamesOf field) (h : Text.Signed text v)

theorem Sound.value_of_valueName (hs : s.Sound) {field text : String} {i : Nat}
    (h : (s.valueNamesOf field)[i]? = some text) :
    s.value field text = .ok i ∧ ∃ l ∈ s.lines, l.name = field ∧ i < 2 ^ l.width := by
  unfold valueNamesOf at h
  cases hlookup : s.valueNames.lookup field with
  | none =>
    rw [hlookup] at h
    cases h
  | some names =>
    rw [hlookup] at h
    obtain ⟨hvalue, l, hl, hlt⟩ := hs.value_of_name field names i text hlookup h
    obtain ⟨hmem, hname⟩ := (hs.line_eq_ok_iff field l).mp hl
    exact ⟨hvalue, l, hmem, hname, hlt⟩

theorem Sound.means_unique (hs : s.Sound) {field text : String} {v v' : Nat}
    (h : s.Means field text v) (h' : s.Means field text v') : v = v' := by
  cases h with
  | name hv =>
    cases h' with
    | name hv' =>
      exact Except.ok.inj ((hs.value_of_valueName hv).1.symm.trans (hs.value_of_valueName hv').1)
    | number hno _ => exact absurd (List.mem_of_getElem? hv) hno
  | number hno hv =>
    cases h' with
    | name hv' => exact absurd (List.mem_of_getElem? hv') hno
    | number _ hv' => exact hv.unique hv'

/-- A text is taken for a value if it means one that a 64-bit number can hold. -/
theorem Sound.value_eq_ok_iff (hs : s.Sound) (field text : String) (v : Nat) :
    s.value field text = .ok v ↔ v < 2 ^ 64 ∧ s.Means field text v := by
  by_cases hname : text ∈ s.valueNamesOf field
  · obtain ⟨i, hi⟩ := List.mem_iff_getElem?.mp hname
    obtain ⟨hvalue, l, hl, -, hlt⟩ := hs.value_of_valueName hi
    have hbound : i < 2 ^ 64 :=
      hlt.trans_le (Nat.pow_le_pow_right (by decide) (hs.width l hl).2)
    rw [hvalue, Except.ok.injEq]
    constructor
    · rintro rfl
      exact ⟨hbound, .name hi⟩
    · rintro ⟨-, hmeans⟩
      exact hs.means_unique (.name hi) hmeans
  · have hmeans : s.Means field text v ↔ Text.Signed text v := by
      constructor
      · intro h
        cases h with
        | name hv => exact absurd (List.mem_of_getElem? hv) hname
        | number _ hv => exact hv
      · exact .number hname
    rw [value_of_not_mem hname, hmeans, ← Text.nat64?_eq_some_iff]
    cases Text.nat64? text.toList with
    | none => simp
    | some n => simp

theorem Sound.equals_not_mem (hs : s.Sound) {l : Line} (hl : l ∈ s.lines) :
    '=' ∉ l.name.toList := by
  obtain ⟨-, hchars, -⟩ := hs.valid l.name (List.mem_append_left _ (List.mem_map_of_mem hl))
  intro hmem
  exact absurd (hchars '=' hmem) (by decide)

/-- What a field and the text of a value come to. -/
theorem Sound.resolveTerm_assign (hs : s.Sound) {l : Line} (hl : l ∈ s.lines) (text : String) :
    s.resolveTerm (l.name ++ "=" ++ text) = (do
      let v ← s.value l.name text
      if 2 ^ l.width ≤ v then .error (.fieldValue l.name v l.width)
      else .ok (Word.ofNat (v * 2 ^ l.bit))) := by
  have hterm : (l.name ++ "=" ++ text).toList = l.name.toList ++ '=' :: text.toList := by simp
  have hline : s.line l.name = .ok l := (hs.line_eq_ok_iff _ _).mpr ⟨hl, rfl⟩
  rw [resolveTerm, hterm, Text.cut_append '=' _ _ (hs.equals_not_mem hl)]
  simp only [String.ofList_toList, hline]
  cases hvalue : s.value l.name text with
  | error e => rfl
  | ok v =>
    -- A field of 64 bits is not checked, and needs no check: a value is no wider.
    have hwidth := (hs.width l hl).2
    have hbound : v < 2 ^ 64 := ((hs.value_eq_ok_iff _ _ _).mp hvalue).1
    have hcheck : (l.width < 64 ∧ 1 <<< l.width ≤ v) ↔ 2 ^ l.width ≤ v := by
      rw [Nat.one_shiftLeft]
      constructor
      · exact fun h => h.2
      · intro hle
        refine ⟨?_, hle⟩
        by_contra hge
        have hfull : l.width = 64 := by omega
        rw [hfull] at hle
        omega
    show (if l.width < 64 ∧ 1 <<< l.width ≤ v then _ else _) = (if 2 ^ l.width ≤ v then _ else _)
    by_cases hv : 2 ^ l.width ≤ v
    · rw [if_pos hv, if_pos (hcheck.mpr hv)]
    · rw [if_neg hv, if_neg (fun h => hv (hcheck.mp h)),
        Word.field_eq_ofNat hwidth (Nat.not_le.mp hv)]

theorem Sound.resolve_line (hs : s.Sound) {l : Line} (hl : l ∈ s.lines) :
    s.resolve l.name = .ok (Word.ofNat ((2 ^ l.width - 1) * 2 ^ l.bit)) := by
  have hline := (Signals.line_eq_ok_iff s _ _).mp ((hs.line_eq_ok_iff l.name l).mpr ⟨hl, rfl⟩)
  exact resolve_eq_ok.mpr (.inl ⟨l, hline, l.mask_eq_ofNat (hs.below l hl)⟩)

/-- No value has a name that could be a number. -/
def PlainNames (s : Signals) : Prop :=
  ∀ field, ∀ name ∈ s.valueNamesOf field, Text.isNumeral name.toList = false

theorem isNumeral_of_checkValueNames {field : String} {seen names : List String}
    (h : checkValueNames field seen names = .ok ()) :
    ∀ name ∈ names, Text.isNumeral name.toList = false := by
  induction names generalizing seen with
  | nil => exact fun name hname => absurd hname List.not_mem_nil
  | cons name rest ih =>
    rw [checkValueNames] at h
    split at h
    · cases h
    rename_i hnumeral
    split at h
    · cases h
    exact List.forall_mem_cons.mpr ⟨Bool.eq_false_iff.mpr hnumeral, ih h⟩

theorem PlainNames.run {c : SignalCommand} (hs : s.PlainNames) (h : s.run c = .ok s') :
    s'.PlainNames := by
  intro field name hname
  rcases valueNamesOf_run h field with hsame | ⟨names, rfl, hnew⟩
  · exact hs field name (hsame ▸ hname)
  · rw [run_nameValues] at h
    obtain ⟨l, -, -, hcheck, -⟩ := checks_of_nameValues h
    exact isNumeral_of_checkValueNames hcheck name (hnew ▸ hname)

theorem PlainNames.after (hs : s.PlainNames) (commands : List SignalCommand) :
    (s.after commands).PlainNames := by
  induction commands generalizing s with
  | nil => exact hs
  | cons c rest ih =>
    show ((s.next c).after rest).PlainNames
    cases hc : s.run c with
    | error e =>
      rw [next_of_error hc]
      exact ih hs
    | ok s' =>
      rw [next_of_ok hc]
      exact ih (hs.run hc)

theorem plainNames_empty : PlainNames {} := by
  intro field name hname
  cases hname

/-- The last of some requests that succeeded in naming the values of a field gave them these
names. -/
def LastNamed (s : Signals) (commands : List SignalCommand) (field : String)
    (names : List String) : Prop :=
  ∃ before rest s', commands = before ++ .nameValues field names :: rest ∧
    (s.after before).run (.nameValues field names) = .ok s' ∧
    ∀ more others later, rest = more ++ .nameValues field others :: later →
      ∃ e, (s'.after more).run (.nameValues field others) = .error e

/-- Names stay as long as every attempt to replace them fails. -/
theorem valueNamesOf_after {rest : List SignalCommand} {field : String}
    (h : ∀ more others later, rest = more ++ .nameValues field others :: later →
      ∃ e, (s.after more).run (.nameValues field others) = .error e) :
    (s.after rest).valueNamesOf field = s.valueNamesOf field := by
  induction rest generalizing s with
  | nil => rfl
  | cons c rest ih =>
    have hnext : ((s.next c).after rest).valueNamesOf field = (s.next c).valueNamesOf field := by
      apply ih
      intro more others later heq
      exact h (c :: more) others later (congrArg (c :: ·) heq)
    have hstep : (s.next c).valueNamesOf field = s.valueNamesOf field := by
      cases hc : s.run c with
      | error e => rw [next_of_error hc]
      | ok s' =>
        rw [next_of_ok hc]
        rcases valueNamesOf_run hc field with hsame | ⟨names, rfl, -⟩
        · exact hsame
        · obtain ⟨e, he⟩ := h [] names rest rfl
          exact absurd (hc.symm.trans he) (by simp)
    exact hnext.trans hstep

theorem valueNamesOf_of_lastNamed {commands : List SignalCommand} {field : String}
    {names : List String} (h : s.LastNamed commands field names) :
    (s.after commands).valueNamesOf field = names := by
  obtain ⟨before, rest, s', rfl, hrun, hlast⟩ := h
  have hnamed : s'.valueNamesOf field = names := by
    rw [run_nameValues] at hrun
    obtain ⟨l, -, -, -, rfl⟩ := nameValues_eq_ok hrun
    simp [valueNamesOf]
  have hafter : s.after (before ++ .nameValues field names :: rest) = s'.after rest := by
    rw [after_append]
    show ((s.after before).next _).after rest = _
    rw [next_of_ok hrun]
  rw [hafter, valueNamesOf_after hlast, hnamed]

theorem PlainNames.not_mem_of_decimal (h : s.PlainNames) {text : String} {n : Nat}
    (hn : Text.Decimal text n) (field : String) : text ∉ s.valueNamesOf field := by
  intro hmem
  have hnumeral : Text.isNumeral text.toList = true := List.all_eq_true.mpr hn.digits
  rw [h field text hmem] at hnumeral
  cases hnumeral

/-- What a field and a number in decimal come to. -/
theorem Sound.resolveTerm_decimal (hs : s.Sound) (hplain : s.PlainNames) {l : Line}
    (hl : l ∈ s.lines) {text : String} {n : Nat} (hn : Text.Decimal text n) :
    s.resolveTerm (l.name ++ "=" ++ text) =
      if n < 2 ^ l.width then .ok (Word.ofNat (n * 2 ^ l.bit))
      else if n < 2 ^ 64 then .error (.fieldValue l.name n l.width)
      else .error (.invalid (.valueText text l.name)) := by
  have hwidth : 2 ^ l.width ≤ 2 ^ 64 := Nat.pow_le_pow_right (by decide) (hs.width l hl).2
  rw [hs.resolveTerm_assign hl, value_of_not_mem (hplain.not_mem_of_decimal hn l.name),
    Text.nat64?_of_decimal hn]
  by_cases hbound : n < 2 ^ 64
  · rw [if_pos hbound, if_pos hbound]
    show (if 2 ^ l.width ≤ n then _ else _) = _
    by_cases hfits : n < 2 ^ l.width
    · rw [if_neg (Nat.not_le.mpr hfits), if_pos hfits]
    · rw [if_pos (Nat.not_lt.mp hfits), if_neg hfits]
  · have hfits : ¬ n < 2 ^ l.width := fun h => hbound (h.trans_le hwidth)
    rw [if_neg hbound, if_neg hfits, if_neg hbound]
    rfl

theorem Sound.resolveTerm_valueName (hs : s.Sound) {l : Line} (hl : l ∈ s.lines) {name : String}
    {i : Nat} (hi : (s.valueNamesOf l.name)[i]? = some name) :
    i < 2 ^ l.width ∧
      s.resolveTerm (l.name ++ "=" ++ name) = .ok (Word.ofNat (i * 2 ^ l.bit)) := by
  obtain ⟨hvalue, l', hl', hname, hlt⟩ := hs.value_of_valueName hi
  have hsame : l' = l := by
    have hline := (hs.line_eq_ok_iff l.name l').mpr ⟨hl', hname⟩
    exact Except.ok.inj (hline.symm.trans ((hs.line_eq_ok_iff l.name l).mpr ⟨hl, rfl⟩))
  rw [hsame] at hlt
  refine ⟨hlt, ?_⟩
  rw [hs.resolveTerm_assign hl, hvalue]
  show (if 2 ^ l.width ≤ i then _ else _) = _
  rw [if_neg (Nat.not_le.mpr hlt)]

/-- Every line takes the numbers below its width's limit, wherever zeros lead them and whatever its
values are called; from there on the value is refused, and from 64 bits on the text. The names that
its values have last been given mean their indices, and the line alone means its highest value. -/
theorem values_by_number_and_name (commands : List SignalCommand) (l : Line)
    (hl : l ∈ (after {} commands).lines) :
    (∀ text n, Text.Decimal text n →
      ((after {} commands).resolveTerm (l.name ++ "=" ++ text) =
        .ok (Word.ofNat (n * 2 ^ l.bit)) ↔ n < 2 ^ l.width) ∧
      ((after {} commands).resolveTerm (l.name ++ "=" ++ text) =
        .error (.fieldValue l.name n l.width) ↔ 2 ^ l.width ≤ n ∧ n < 2 ^ 64) ∧
      ((after {} commands).resolveTerm (l.name ++ "=" ++ text) =
        .error (.invalid (.valueText text l.name)) ↔ 2 ^ 64 ≤ n)) ∧
    (∀ names i name, LastNamed {} commands l.name names → names[i]? = some name →
      (after {} commands).resolveTerm (l.name ++ "=" ++ name) = .ok (Word.ofNat (i * 2 ^ l.bit)) ∧
      (after {} commands).resolveTerm (l.name ++ "=" ++ name) =
        (after {} commands).resolveTerm (l.name ++ "=" ++ toString i)) ∧
    (after {} commands).resolve l.name =
      (after {} commands).resolveTerm (l.name ++ "=" ++ toString (2 ^ l.width - 1)) := by
  have hs : (after {} commands).Sound := sound_empty.after commands
  have hplain : (after {} commands).PlainNames := plainNames_empty.after commands
  have hwidth : 2 ^ l.width ≤ 2 ^ 64 := Nat.pow_le_pow_right (by decide) (hs.width l hl).2
  refine ⟨?_, ?_, ?_⟩
  · intro text n hn
    rw [hs.resolveTerm_decimal hplain hl hn]
    refine ⟨?_, ?_, ?_⟩ <;> split_ifs <;> simp <;> omega
  · intro names i name hlast hi
    rw [← valueNamesOf_of_lastNamed hlast] at hi
    obtain ⟨hlt, hterm⟩ := hs.resolveTerm_valueName hl hi
    refine ⟨hterm, ?_⟩
    rw [hterm, hs.resolveTerm_decimal hplain hl (Text.decimal_toString i), if_pos hlt]
  · have hlt : 2 ^ l.width - 1 < 2 ^ l.width := Nat.sub_lt (Nat.two_pow_pos _) Nat.one_pos
    rw [hs.resolve_line hl, hs.resolveTerm_decimal hplain hl (Text.decimal_toString _), if_pos hlt]

/-- A single bit, a field across a limb boundary that gets names twice and fails to get them again,
and a field of 64 bits. -/
def namedFields : List SignalCommand :=
  [.define "A" 0, .defineField "F" 62 3, .nameValues "F" ["hi", "lo", "off"], .push "G" 64 false,
    .nameValues "F" ["lo", "+7"], .nameValues "F" ["1"]]

/-- A number with a sign may be a name and then is no number; one of too many bits is refused for
its value or, past 64 bits, for its text. -/
theorem values_of_namedFields :
    (after {} namedFields).resolveTerm "F=+7" = .ok (Word.ofNat (1 * 2 ^ 62)) ∧
    (after {} namedFields).resolveTerm "F=007" = .ok (Word.ofNat (7 * 2 ^ 62)) ∧
    (after {} namedFields).resolveTerm "F=8" = .error (.fieldValue "F" 8 3) ∧
    (after {} namedFields).resolveTerm "G=18446744073709551616" =
      .error (.invalid (.valueText "18446744073709551616" "G")) ∧
    (after {} namedFields).resolve "G" =
      (after {} namedFields).resolveTerm "G=18446744073709551615" := by
  obtain ⟨hF, hnames, -⟩ :=
    values_by_number_and_name namedFields ⟨"F", 62, 3, false⟩ (by decide +kernel)
  obtain ⟨hG, -, hall⟩ :=
    values_by_number_and_name namedFields ⟨"G", 65, 64, false⟩ (by decide +kernel)
  have hlast : LastNamed {} namedFields "F" ["lo", "+7"] := by
    have hrun : ((after {} (namedFields.take 4)).run (.nameValues "F" ["lo", "+7"])).toOption.any
        (fun s' => (s'.run (.nameValues "F" ["1"])).toOption.isNone) = true := by decide +kernel
    obtain ⟨s', hs', hfails⟩ := exists_ok_of_any hrun
    refine ⟨_, _, s', rfl, hs', ?_⟩
    intro more others later heq
    obtain ⟨rfl, rfl⟩ : more = [] ∧ others = ["1"] := by
      rcases more with _ | ⟨c, more⟩ <;> simp_all
    cases hfail : s'.run (.nameValues "F" ["1"]) with
    | error e => exact ⟨e, hfail⟩
    | ok s'' =>
      rw [hfail] at hfails
      cases hfails
  refine ⟨(hnames _ 1 "+7" hlast rfl).1, ?_, ?_, ?_, hall⟩
  · exact (hF "007" 7 (by decide +kernel)).1.mpr (by decide)
  · exact (hF "8" 8 (by decide +kernel)).2.1.mpr (by decide)
  · exact (hG "18446744073709551616" (2 ^ 64) (by decide +kernel)).2.2.mpr (by decide)

/-- A term for a line: its name alone, or with the text of a value. -/
structure LineTerm where
  line : Line
  value? : Option String := none

def LineTerm.text (t : LineTerm) : String :=
  match t.value? with
  | none => t.line.name
  | some value => t.line.name ++ "=" ++ value

/-- The value that a term asks for. The name alone asks for all bits of the line. -/
def LineTerm.Asks (s : Signals) (t : LineTerm) (v : Nat) : Prop :=
  match t.value? with
  | none => v = 2 ^ t.line.width - 1
  | some value => s.Means t.line.name value v

theorem Sound.asks_unique (hs : s.Sound) {t : LineTerm} {v v' : Nat} (h : t.Asks s v)
    (h' : t.Asks s v') : v = v' := by
  obtain ⟨l, value?⟩ := t
  cases value? with
  | none => exact Eq.trans h (Eq.symm h')
  | some value => exact hs.means_unique h h'

/-- A term for a line has the word with the value it asks for, if the line can hold it. -/
theorem Sound.resolveTerm_text (hs : s.Sound) {t : LineTerm} (ht : t.line ∈ s.lines) {w : Word} :
    s.resolveTerm t.text = .ok w ↔
      ∃ v, t.Asks s v ∧ v < 2 ^ t.line.width ∧ w = Word.ofNat (v * 2 ^ t.line.bit) := by
  obtain ⟨l, value?⟩ := t
  cases value? with
  | none =>
    have hcut := Text.cut_of_not_mem '=' l.name.toList (hs.equals_not_mem ht)
    have hlt : 2 ^ l.width - 1 < 2 ^ l.width := Nat.sub_lt (Nat.two_pow_pos _) Nat.one_pos
    show s.resolveTerm l.name = .ok w ↔ ∃ v, v = 2 ^ l.width - 1 ∧ _
    rw [resolveTerm, hcut, exists_eq_left]
    show s.resolve l.name = .ok w ↔ _
    rw [hs.resolve_line ht, Except.ok.injEq]
    exact ⟨fun h => ⟨hlt, h.symm⟩, fun h => h.2.symm⟩
  | some value =>
    show s.resolveTerm (l.name ++ "=" ++ value) = .ok w ↔ ∃ v, s.Means l.name value v ∧ _
    rw [hs.resolveTerm_assign ht, bind_eq_ok]
    have hwidth : 2 ^ l.width ≤ 2 ^ 64 := Nat.pow_le_pow_right (by decide) (hs.width l ht).2
    constructor
    · rintro ⟨v, hv, hw⟩
      split at hw
      · cases hw
      rename_i hfits
      cases hw
      exact ⟨v, ((hs.value_eq_ok_iff _ _ _).mp hv).2, Nat.not_le.mp hfits, rfl⟩
    · rintro ⟨v, hmeans, hlt, rfl⟩
      refine ⟨v, (hs.value_eq_ok_iff _ _ _).mpr ⟨hlt.trans_le hwidth, hmeans⟩, ?_⟩
      rw [if_neg (Nat.not_le.mpr hlt)]

/-- The word of terms for different lines agrees with the word of each term on the bits of its line,
and has no bits of other lines. -/
theorem Sound.exists_build (hs : s.Sound) {terms : List LineTerm}
    (hlines : ∀ t ∈ terms, t.line ∈ s.lines) (hdistinct : (terms.map LineTerm.line).Nodup)
    (hresolves : ∀ t ∈ terms, ∃ w, s.resolveTerm t.text = .ok w) :
    ∃ w, s.build (terms.map LineTerm.text) = .ok w ∧
      (∀ t ∈ terms, ∀ u, s.resolveTerm t.text = .ok u →
        ∀ k, t.line.Owns k → w.test k = u.test k) ∧
      (∀ l ∈ s.lines, l ∉ terms.map LineTerm.line → ∀ k, l.Owns k → w.test k = false) := by
  induction terms with
  | nil =>
    refine ⟨Word.zero, rfl, ?_, ?_⟩
    · intro t ht
      cases ht
    · intro l _ _ k _
      exact Word.test_zero k
  | cons t rest ih =>
    obtain ⟨ht, hlines⟩ := List.forall_mem_cons.mp hlines
    obtain ⟨⟨u, hu⟩, hresolves⟩ := List.forall_mem_cons.mp hresolves
    obtain ⟨hfresh, hdistinct⟩ := List.nodup_cons.mp hdistinct
    obtain ⟨w, hw, hnamed, hothers⟩ := ih hlines hdistinct hresolves
    have hown (l : Line) (hl : l ∈ s.lines) (hne : l ≠ t.line) (k : Nat) (hk : l.Owns k) :
        u.test k = false := by
      obtain ⟨v, -, hlt, rfl⟩ := (hs.resolveTerm_text ht).mp hu
      rw [Bool.eq_false_iff]
      intro htest
      exact hne (hs.eq_of_owns hl ht hk (Word.test_ofNat_mul hlt htest))
    refine ⟨u ||| w, build_cons_eq_ok.mpr ⟨u, w, hu, hw, rfl⟩, ?_, ?_⟩
    · intro t' ht' u' hu' k hk
      rw [Word.test_or]
      rcases List.mem_cons.mp ht' with rfl | ht'
      · obtain rfl := Except.ok.inj (hu.symm.trans hu')
        rw [hothers _ ht hfresh k hk, Bool.or_false]
      · have hne : t'.line ≠ t.line := fun heq => hfresh (heq ▸ List.mem_map_of_mem ht')
        rw [hown _ (hlines t' ht') hne k hk, Bool.false_or, hnamed t' ht' u' hu' k hk]
    · intro l hl hnot k hk
      rw [List.map_cons, List.mem_cons, not_or] at hnot
      obtain ⟨hne, hnot⟩ := hnot
      rw [Word.test_or, hown l hl hne k hk, hothers l hl hnot k hk]
      rfl

/-- Terms for different lines do not interfere: there is a word for them, it holds the value that
each term asks for on the line of that term, and nothing on any other line or outside all lines. -/
theorem lines_of_built_terms (commands : List SignalCommand) (terms : List LineTerm)
    (hlines : ∀ t ∈ terms, t.line ∈ (after {} commands).lines)
    (hdistinct : (terms.map LineTerm.line).Nodup)
    (hresolves : ∀ t ∈ terms, t.value? ≠ none →
      ∃ w, (after {} commands).resolveTerm t.text = .ok w) :
    ∃ w, (after {} commands).build (terms.map LineTerm.text) = .ok w ∧
      (∀ t ∈ terms, ∀ v, (w.extract t.line.bit t.line.width).toNat = v ↔
        t.Asks (after {} commands) v) ∧
      (∀ l ∈ (after {} commands).lines, l ∉ terms.map LineTerm.line →
        w.extract l.bit l.width = 0) ∧
      (∀ k, (∀ l ∈ (after {} commands).lines, ¬ l.Owns k) → w.test k = false) := by
  have hs : (after {} commands).Sound := sound_empty.after commands
  have hall : ∀ t ∈ terms, ∃ w, (after {} commands).resolveTerm t.text = .ok w := by
    intro t ht
    cases hvalue : t.value? with
    | some value => exact hresolves t ht (by simp [hvalue])
    | none =>
      have hlt : 2 ^ t.line.width - 1 < 2 ^ t.line.width :=
        Nat.sub_lt (Nat.two_pow_pos _) Nat.one_pos
      refine ⟨_, (hs.resolveTerm_text (hlines t ht)).mpr ⟨2 ^ t.line.width - 1, ?_, hlt, rfl⟩⟩
      simp [LineTerm.Asks, hvalue]
  obtain ⟨w, hw, hnamed, hothers⟩ := hs.exists_build hlines hdistinct hall
  refine ⟨w, hw, ?_, ?_, ?_⟩
  · intro t ht v
    have hwidth := (hs.width _ (hlines t ht)).2
    obtain ⟨u, hu⟩ := hall t ht
    obtain ⟨v', hasks, hlt, rfl⟩ := (hs.resolveTerm_text (hlines t ht)).mp hu
    have hextract : (w.extract t.line.bit t.line.width).toNat = v' := by
      rw [Word.extract_congr hwidth fun k hle hk => hnamed t ht _ hu k ⟨hle, hk⟩]
      exact Word.extract_ofNat_mul hwidth hlt
    rw [hextract]
    exact ⟨fun h => h ▸ hasks, fun h => hs.asks_unique hasks h⟩
  · intro l hl hnot
    have hwidth := (hs.width l hl).2
    have hzero (k : Nat) (hk : l.Owns k) : w.test k = Word.zero.test k := by
      rw [hothers l hl hnot k hk, Word.test_zero]
    rw [Word.extract_congr hwidth fun k hle hk => hzero k ⟨hle, hk⟩]
    apply UInt64.toNat_inj.mp
    rw [Word.toNat_extract _ _ _ hwidth, Word.toNat_zero, Nat.zero_div, Nat.zero_mod]
    rfl
  · intro k hk
    exact (build_covers hs.covers hw).test_eq_false hk

/-- Two neighbours that share a limb, one of them with a value by name, and a line that is not asked
for. -/
theorem lines_of_neighbours :
    ∃ w, (after {} namedFields).build ["G", "F=+7"] = .ok w ∧
      (w.extract 65 64).toNat = 2 ^ 64 - 1 ∧ (w.extract 62 3).toNat = 1 ∧ w.extract 0 1 = 0 ∧
      w.test 1 = false := by
  have hlines : (after {} namedFields).lines =
      [⟨"A", 0, 1, false⟩, ⟨"F", 62, 3, false⟩, ⟨"G", 65, 64, false⟩] := by decide +kernel
  have hresolves : ((after {} namedFields).resolveTerm "F=+7").toOption.any (fun _ => true) =
      true := by decide +kernel
  obtain ⟨u, hu, -⟩ := exists_ok_of_any hresolves
  obtain ⟨w, hw, hnamed, hothers, houtside⟩ := lines_of_built_terms namedFields
    [⟨⟨"G", 65, 64, false⟩, none⟩, ⟨⟨"F", 62, 3, false⟩, some "+7"⟩] (by simp [hlines]) (by decide)
    (by simpa using ⟨u, hu⟩)
  refine ⟨w, hw, ?_, ?_, ?_, ?_⟩
  · exact (hnamed _ List.mem_cons_self _).mpr rfl
  · have hname : (valueNamesOf (after {} namedFields) "F")[1]? = some "+7" := by decide +kernel
    exact (hnamed _ (List.mem_cons_of_mem _ List.mem_cons_self) 1).mpr (.name hname)
  · exact hothers ⟨"A", 0, 1, false⟩ (by simp [hlines]) (by decide)
  · apply houtside
    rw [hlines]
    simp [Line.Owns]

end Signals

end ControlStore
