import ControlStore.Proofs.Outcome
import ControlStore.Proofs.Table
import ControlStore.Proofs.Word
import ControlStore.Signals
import Mathlib.Data.List.Nodup
import Mathlib.Data.List.Pairwise

/-! Signals after any run of requests. Lines never share a bit, names are never given twice, and no
word that is built from signals has a bit outside their lines. -/

namespace ControlStore

/-- The line that a request asks for. Only a single bit may be active low. -/
def SignalCommand.line? (s : Signals) : SignalCommand → Option Line
  | define name bit => some { name, bit, width := 1 }
  | defineActiveLow name bit => some { name, bit, width := 1, activeLow := true }
  | defineField name lsb width => some { name, bit := lsb, width }
  | push name width activeLow =>
    some { name, bit := s.width, width, activeLow := activeLow && decide (width = 1) }
  | compose _ _ => none
  | nameValues _ _ => none

/-- The bits of a line. -/
def Line.Owns (l : Line) (k : Nat) : Prop := l.bit ≤ k ∧ k < l.bit + l.width

namespace Signals

/-- The signals after a request, which are the same ones if it fails. -/
def next (s : Signals) (c : SignalCommand) : Signals :=
  match s.run c with
  | .ok s' => s'
  | .error _ => s

/-- The signals after requests made one after another. -/
def after (s : Signals) (commands : List SignalCommand) : Signals := commands.foldl next s

/-- The lines that the successful ones among some requests ask for. -/
def defined (s : Signals) : List SignalCommand → List Line
  | [] => []
  | c :: rest =>
    match s.run c with
    | .ok s' => (c.line? s).toList ++ defined s' rest
    | .error _ => defined s rest

/-- A name that a signal may have. -/
def ValidName (name : String) : Prop :=
  name ≠ "" ∧ (∀ c ∈ name.toList, c.isAlphanum = true ∨ c = '_') ∧
    ∃ c ∈ name.toList, c.isDigit = false

/-- The names of lines and composites. -/
def names (s : Signals) : List String := s.lines.map Line.name ++ s.composites.map Prod.fst

/-- Every bit of the word belongs to a line. -/
def Covers (s : Signals) (w : Word) : Prop := ∀ k, w.test k = true → ∃ l ∈ s.lines, l.Owns k

/-- What holds of signals at any time. -/
structure Sound (s : Signals) : Prop where
  disjoint : s.lines.Pairwise fun a b => ∀ k, ¬(a.Owns k ∧ b.Owns k)
  width : ∀ l ∈ s.lines, 1 ≤ l.width ∧ l.width ≤ 64
  below : ∀ l ∈ s.lines, l.bit + l.width ≤ maxBits
  distinct : s.names.Nodup
  valid : ∀ name ∈ s.names, ValidName name
  covers : ∀ p ∈ s.composites, s.Covers p.2
  fields : (s.valueNames.map Prod.fst).Nodup
  values : ∀ p ∈ s.valueNames, p.2.Nodup ∧
    ∃ l ∈ s.lines, l.name = p.1 ∧ p.2.length ≤ 2 ^ l.width

end Signals

theorem Word.test_eq (w : Word) (k : Nat) : w.test k = w.toNat.testBit k :=
  (w.testBit_toNat k).symm

theorem Word.test_or (a b : Word) (k : Nat) : (a ||| b).test k = (a.test k || b.test k) := by
  rw [test_eq, test_eq, test_eq, toNat_or, Nat.testBit_or]

/-- A word is known by its bits. -/
theorem Word.eq_of_test {a b : Word} (h : ∀ k, a.test k = b.test k) : a = b := by
  apply toNat_injective
  apply Nat.eq_of_testBit_eq
  intro k
  rw [← test_eq, ← test_eq, h k]

theorem Word.test_zero (k : Nat) : zero.test k = false := by
  rw [test_eq, toNat_zero, Nat.zero_testBit]

theorem Word.test_foldl_set (bits : List Nat) (w : Word) (k : Nat) :
    (bits.foldl set w).test k = (w.test k || decide (k ∈ bits)) := by
  induction bits generalizing w with
  | nil => simp
  | cons b rest ih =>
    have hb : (bit b).test k = decide (k = b) := by
      rw [test_eq, toNat_bit, Nat.testBit_two_pow, decide_eq_decide]
      exact eq_comm
    rw [List.foldl_cons, ih, set, test_or, hb, Bool.or_assoc]
    simp [List.mem_cons]

theorem Line.owns_of_test_mask (l : Line) (k : Nat) (h : l.mask.test k = true) : l.Owns k := by
  rw [mask, Word.test_foldl_set, Word.test_zero, Bool.false_or, decide_eq_true_eq,
    List.mem_range'_1] at h
  have hstop : l.stop ≤ l.bit + l.width := Nat.min_le_left _ _
  exact ⟨h.1, by omega⟩

theorem Line.owns_of_test_field (l : Line) (v k : Nat)
    (h : (Word.field l.bit l.width v).test k = true) : l.Owns k := by
  rw [Word.test_eq, Word.field, Word.testBit_field_fold, Bool.and_eq_true, decide_eq_true_eq] at h
  have hmin : min l.width 64 ≤ l.width := Nat.min_le_left _ _
  exact ⟨h.1.1, by omega⟩

theorem Line.stop_eq (l : Line) (h : l.bit + l.width ≤ Signals.maxBits) :
    l.stop = l.bit + l.width :=
  Nat.min_eq_left (h.trans (by decide))

theorem Line.test_mask_iff (l : Line) (h : l.bit + l.width ≤ Signals.maxBits) (k : Nat) :
    l.mask.test k = true ↔ l.Owns k := by
  rw [mask, Word.test_foldl_set, Word.test_zero, Bool.false_or, decide_eq_true_eq,
    List.mem_range'_1, l.stop_eq h, Owns]
  omega

/-- Below the limit, the comparison of the ends finds every bit that two lines share. -/
theorem Line.not_owns_of_not_overlaps (a b : Line) (ha : a.bit + a.width ≤ Signals.maxBits)
    (hb : b.bit + b.width ≤ Signals.maxBits) (h : a.overlaps b = false) (k : Nat) :
    ¬(a.Owns k ∧ b.Owns k) := by
  rintro ⟨⟨ha1, ha2⟩, hb1, hb2⟩
  have hover : a.overlaps b = true := by
    rw [overlaps, Bool.and_eq_true, decide_eq_true_eq, decide_eq_true_eq, stop_eq a ha,
      stop_eq b hb]
    omega
  rw [hover] at h
  cases h

namespace Signals

variable {s s' : Signals}

theorem covers_zero (s : Signals) : s.Covers Word.zero := by
  intro k hk
  rw [Word.test_zero] at hk
  cases hk

theorem Covers.or {a b : Word} (ha : s.Covers a) (hb : s.Covers b) : s.Covers (a ||| b) := by
  intro k hk
  rw [Word.test_or, Bool.or_eq_true] at hk
  rcases hk with hk | hk
  · exact ha k hk
  · exact hb k hk

theorem Covers.mono {w : Word} (h : s.Covers w) (hlines : s.lines ⊆ s'.lines) : s'.Covers w := by
  intro k hk
  obtain ⟨l, hl, howns⟩ := h k hk
  exact ⟨l, hlines hl, howns⟩

theorem mem_of_line?_eq_some {name : String} {l : Line} (h : s.line? name = some l) :
    l ∈ s.lines ∧ l.name = name :=
  ⟨List.mem_of_find?_eq_some h, by simpa using List.find?_some h⟩

theorem line?_eq_none_iff (s : Signals) (name : String) :
    s.line? name = none ↔ name ∉ s.lines.map Line.name := by
  rw [line?, List.find?_eq_none]
  simp

theorem lookup_eq_none_iff {α : Type} (entries : List (String × α)) (name : String) :
    entries.lookup name = none ↔ name ∉ entries.map Prod.fst := by
  rw [List.lookup_eq_none_iff]
  constructor
  · intro h hmem
    obtain ⟨p, hp, rfl⟩ := List.mem_map.mp hmem
    simpa using h p hp
  · intro h p hp
    have hne : name ≠ p.1 := fun heq => h (heq ▸ List.mem_map_of_mem hp)
    simpa using hne

theorem contains_eq_false_iff (s : Signals) (name : String) :
    s.contains name = false ↔ name ∉ s.names := by
  rw [contains, Bool.or_eq_false_iff, Option.isSome_eq_false_iff, Option.isSome_eq_false_iff,
    Option.isNone_iff_eq_none, Option.isNone_iff_eq_none, line?_eq_none_iff, lookup_eq_none_iff,
    names, List.mem_append, not_or]

theorem line_eq_ok_iff (s : Signals) (name : String) (l : Line) :
    s.line name = .ok l ↔ s.line? name = some l := by
  unfold line
  cases s.line? name with
  | none => simp
  | some l' => simp

theorem checkName_eq_ok_iff (name : String) : checkName name = .ok () ↔ ValidName name := by
  have hname : Text.isName name.toList = true ↔
      name ≠ "" ∧ ∀ c ∈ name.toList, c.isAlphanum = true ∨ c = '_' := by
    simp [Text.isName]
  have hnumeral : Text.isNumeral name.toList = false ↔ ∃ c ∈ name.toList, c.isDigit = false := by
    simp [Text.isNumeral]
  rw [ValidName, ← and_assoc, ← hname, ← hnumeral, checkName]
  cases Text.isName name.toList with
  | false => simp
  | true => cases Text.isNumeral name.toList <;> simp

theorem checkNew_eq_ok {name : String} (h : s.checkNew name = .ok ()) :
    ValidName name ∧ name ∉ s.names := by
  obtain ⟨_, hname, h⟩ := bind_eq_ok.mp h
  refine ⟨(checkName_eq_ok_iff name).mp hname, (contains_eq_false_iff s name).mp ?_⟩
  cases hc : s.contains name with
  | false => rfl
  | true =>
    rw [hc] at h
    cases h

theorem insert_eq_ok {l : Line} {w : Word} (h : s.insert l = .ok (w, s')) :
    ValidName l.name ∧ l.name ∉ s.names ∧ l.bit + l.width ≤ maxBits ∧
      (∀ other ∈ s.lines, other.overlaps l = false) ∧ w = l.mask ∧
      s' = { s with lines := s.lines ++ [l] } := by
  obtain ⟨_, hnew, h⟩ := bind_eq_ok.mp h
  obtain ⟨hvalid, hfresh⟩ := checkNew_eq_ok hnew
  by_cases hbits : maxBits < l.bit + l.width
  · rw [if_pos hbits] at h
    cases h
  rw [if_neg hbits] at h
  cases hfind : s.lines.find? (fun other => other.overlaps l) with
  | some other =>
    rw [hfind] at h
    cases h
  | none =>
    rw [hfind] at h
    cases h
    have hfree := List.find?_eq_none.mp hfind
    exact ⟨hvalid, hfresh, Nat.not_lt.mp hbits, fun other ho => by simpa using hfree other ho, rfl,
      rfl⟩

/-- A line is pushed like any other line, and what is given back is its position. -/
theorem push_eq (s : Signals) (name : String) (width : Nat) (activeLow : Bool) :
    s.push name width activeLow =
      if width = 0 ∨ 64 < width then .error (.invalid (.fieldWidth name))
      else (s.insert ⟨name, s.width, width, activeLow && decide (width = 1)⟩).map
        fun p => (s.width, p.2) := by
  unfold push
  by_cases hone : width = 1
  · subst hone
    cases activeLow with
    | false =>
      show (s.define name s.width >>= _) = (s.define name s.width).map _
      cases s.define name s.width <;> rfl
    | true =>
      show (s.defineActiveLow name s.width >>= _) = (s.defineActiveLow name s.width).map _
      cases s.defineActiveLow name s.width <;> rfl
  · rw [if_neg hone, defineField]
    simp only [hone, decide_false, Bool.and_false]
    split
    · rfl
    · cases s.insert ⟨name, s.width, width, false⟩ <;> rfl

/-- The requests for a line differ in the line only. -/
theorem run_of_line {c : SignalCommand} {l : Line} (hl : c.line? s = some l) :
    s.run c =
      if l.width = 0 ∨ 64 < l.width then .error (.invalid (.fieldWidth l.name))
      else (s.insert l).map Prod.snd := by
  cases c with
  | define name bit =>
    cases hl
    exact map_snd_map _ _
  | defineActiveLow name bit =>
    cases hl
    exact map_snd_map _ _
  | defineField name lsb width =>
    cases hl
    rw [run, respond, defineField]
    split
    · rfl
    · exact map_snd_map _ _
  | push name width activeLow =>
    cases hl
    rw [run, respond, push_eq]
    split
    · rfl
    · cases s.insert _ <;> rfl
  | compose name terms => cases hl
  | nameValues field names => cases hl

theorem run_compose (s : Signals) (name : String) (terms : List String) :
    s.run (.compose name terms) = (s.compose name terms).map Prod.snd :=
  map_snd_map _ _

theorem run_nameValues (s : Signals) (field : String) (names : List String) :
    s.run (.nameValues field names) = s.nameValues field names := by
  rw [run, respond]
  cases s.nameValues field names <;> rfl

theorem compose_eq_ok {name : String} {terms : List String} {w : Word}
    (h : s.compose name terms = .ok (w, s')) :
    ValidName name ∧ name ∉ s.names ∧ s.build terms = .ok w ∧
      s' = { s with composites := s.composites ++ [(name, w)] } := by
  obtain ⟨_, hnew, h⟩ := bind_eq_ok.mp h
  obtain ⟨w, hw, h⟩ := bind_eq_ok.mp h
  cases h
  obtain ⟨hvalid, hfresh⟩ := checkNew_eq_ok hnew
  exact ⟨hvalid, hfresh, hw, rfl⟩

theorem nodup_of_checkValueNames {field : String} {seen names : List String}
    (h : checkValueNames field seen names = .ok ()) :
    names.Nodup ∧ ∀ name ∈ names, name ∉ seen := by
  induction names generalizing seen with
  | nil => simp
  | cons name rest ih =>
    rw [checkValueNames] at h
    split at h
    · cases h
    split at h
    · cases h
    rename_i hseen
    obtain ⟨hnodup, hfresh⟩ := ih h
    have hname : name ∉ rest := fun hmem => hfresh name hmem List.mem_cons_self
    refine ⟨List.nodup_cons.mpr ⟨hname, hnodup⟩, List.forall_mem_cons.mpr ⟨?_, ?_⟩⟩
    · simpa using hseen
    · intro other hother hmem
      exact hfresh other hother (List.mem_cons_of_mem name hmem)

/-- Value names that are given have passed every check. -/
theorem checks_of_nameValues {field : String} {names : List String}
    (h : s.nameValues field names = .ok s') :
    ∃ l, s.line? field = some l ∧ names.length ≤ 2 ^ l.width ∧
      checkValueNames field [] names = .ok () ∧
      s' = { s with valueNames := (field, names) :: s.valueNames.filter (fun p => p.1 != field) } := by
  obtain ⟨l, hl, h⟩ := bind_eq_ok.mp h
  by_cases hone : l.width = 1
  · rw [if_pos hone] at h
    cases h
  rw [if_neg hone] at h
  by_cases hmany : 1 <<< l.width < names.length
  · rw [if_pos hmany] at h
    cases h
  rw [if_neg hmany] at h
  obtain ⟨_, hcheck, h⟩ := bind_eq_ok.mp h
  cases h
  rw [Nat.one_shiftLeft] at hmany
  exact ⟨l, (line_eq_ok_iff s field l).mp hl, Nat.not_lt.mp hmany, hcheck, rfl⟩

theorem nameValues_eq_ok {field : String} {names : List String}
    (h : s.nameValues field names = .ok s') :
    ∃ l, s.line? field = some l ∧ names.length ≤ 2 ^ l.width ∧ names.Nodup ∧
      s' = { s with valueNames := (field, names) :: s.valueNames.filter (fun p => p.1 != field) } := by
  obtain ⟨l, hl, hlength, hcheck, heq⟩ := checks_of_nameValues h
  exact ⟨l, hl, hlength, (nodup_of_checkValueNames hcheck).1, heq⟩

/-- Whatever succeeds adds a line, or a composite, or gives names to values. -/
theorem run_eq_ok {c : SignalCommand} (h : s.run c = .ok s') :
    (∃ l w, c.line? s = some l ∧ 1 ≤ l.width ∧ l.width ≤ 64 ∧ s.insert l = .ok (w, s')) ∨
    (∃ name terms w, c = .compose name terms ∧ s.compose name terms = .ok (w, s')) ∨
    (∃ field names, c = .nameValues field names ∧ s.nameValues field names = .ok s') := by
  cases hl : c.line? s with
  | some l =>
    rw [run_of_line hl] at h
    by_cases hwidth : l.width = 0 ∨ 64 < l.width
    · rw [if_pos hwidth] at h
      cases h
    · rw [if_neg hwidth] at h
      obtain ⟨⟨w, _⟩, hinsert, rfl⟩ := map_eq_ok.mp h
      exact .inl ⟨l, w, rfl, by omega, by omega, hinsert⟩
  | none =>
    cases c with
    | compose name terms =>
      rw [run_compose] at h
      obtain ⟨⟨w, _⟩, hcompose, rfl⟩ := map_eq_ok.mp h
      exact .inr (.inl ⟨name, terms, w, rfl, hcompose⟩)
    | nameValues field names =>
      rw [run_nameValues] at h
      exact .inr (.inr ⟨field, names, rfl, h⟩)
    | _ => cases hl

theorem resolve_covers {name : String} {w : Word} (hs : ∀ p ∈ s.composites, s.Covers p.2)
    (h : s.resolve name = .ok w) : s.Covers w := by
  unfold resolve at h
  cases hl : s.line? name with
  | some l =>
    rw [hl] at h
    cases h
    intro k hk
    exact ⟨l, (mem_of_line?_eq_some hl).1, l.owns_of_test_mask k hk⟩
  | none =>
    rw [hl] at h
    cases hc : s.composites.lookup name with
    | none =>
      rw [hc] at h
      cases h
    | some v =>
      rw [hc] at h
      cases h
      obtain ⟨before, rest, heq, -⟩ := List.lookup_eq_some_iff.mp hc
      exact hs (name, w) (heq ▸ List.mem_append_right before List.mem_cons_self)

theorem resolveTerm_covers {term : String} {w : Word} (hs : ∀ p ∈ s.composites, s.Covers p.2)
    (h : s.resolveTerm term = .ok w) : s.Covers w := by
  unfold resolveTerm at h
  split at h
  · exact resolve_covers hs h
  · obtain ⟨l, hl, h⟩ := bind_eq_ok.mp h
    obtain ⟨v, -, h⟩ := bind_eq_ok.mp h
    split at h
    · cases h
    · cases h
      intro k hk
      exact ⟨l, (mem_of_line?_eq_some ((line_eq_ok_iff s _ l).mp hl)).1,
        l.owns_of_test_field v k hk⟩

theorem build_covers {terms : List String} {w : Word} (hs : ∀ p ∈ s.composites, s.Covers p.2)
    (h : s.build terms = .ok w) : s.Covers w := by
  refine foldlM_invariant s.Covers ?_ terms s.covers_zero h
  intro acc term acc' hacc hstep
  obtain ⟨v, hv, heq⟩ := bind_eq_ok.mp hstep
  cases heq
  exact hacc.or (resolveTerm_covers hs hv)

theorem Sound.insert {l : Line} {w : Word} (hs : s.Sound) (hl : 1 ≤ l.width ∧ l.width ≤ 64)
    (h : s.insert l = .ok (w, s')) : s'.Sound := by
  obtain ⟨hvalid, hfresh, hbelow, hfree, -, rfl⟩ := insert_eq_ok h
  have hperm : (names { s with lines := s.lines ++ [l] }).Perm (l.name :: s.names) := by
    rw [names, List.map_append, List.append_assoc]
    exact List.perm_middle
  have hmem : s.lines ⊆ s.lines ++ [l] := List.subset_append_left _ _
  refine ⟨?_, ?_, ?_, ?_, ?_, ?_, hs.fields, ?_⟩
  · rw [List.pairwise_append]
    refine ⟨hs.disjoint, List.pairwise_singleton _ _, ?_⟩
    intro other ho new hnew
    obtain rfl := List.mem_singleton.mp hnew
    exact other.not_owns_of_not_overlaps new (hs.below other ho) hbelow (hfree other ho)
  · exact List.forall_mem_append.mpr ⟨hs.width, List.forall_mem_singleton.mpr hl⟩
  · exact List.forall_mem_append.mpr ⟨hs.below, List.forall_mem_singleton.mpr hbelow⟩
  · rw [hperm.nodup_iff, List.nodup_cons]
    exact ⟨hfresh, hs.distinct⟩
  · intro name hname
    rcases List.mem_cons.mp (hperm.mem_iff.mp hname) with rfl | hname
    · exact hvalid
    · exact hs.valid name hname
  · intro p hp
    exact (hs.covers p hp).mono hmem
  · intro p hp
    obtain ⟨hnodup, field, hfield, heq⟩ := hs.values p hp
    exact ⟨hnodup, field, hmem hfield, heq⟩

theorem Sound.compose {name : String} {terms : List String} {w : Word} (hs : s.Sound)
    (h : s.compose name terms = .ok (w, s')) : s'.Sound := by
  obtain ⟨hvalid, hfresh, hw, rfl⟩ := compose_eq_ok h
  have hnames : names { s with composites := s.composites ++ [(name, w)] } = s.names ++ [name] := by
    rw [names, names, List.map_append, List.append_assoc]
    rfl
  refine ⟨hs.disjoint, hs.width, hs.below, ?_, ?_, ?_, hs.fields, hs.values⟩
  · rw [hnames, (List.perm_append_singleton name s.names).nodup_iff, List.nodup_cons]
    exact ⟨hfresh, hs.distinct⟩
  · rw [hnames]
    exact List.forall_mem_append.mpr ⟨hs.valid, List.forall_mem_singleton.mpr hvalid⟩
  · have hnew : s.Covers w := build_covers hs.covers hw
    exact List.forall_mem_append.mpr ⟨hs.covers, List.forall_mem_singleton.mpr hnew⟩

theorem Sound.nameValues {field : String} {names : List String} (hs : s.Sound)
    (h : s.nameValues field names = .ok s') : s'.Sound := by
  obtain ⟨l, hl, hlength, hnodup, rfl⟩ := nameValues_eq_ok h
  obtain ⟨hmem, hname⟩ := mem_of_line?_eq_some hl
  have hothers : ∀ p ∈ s.valueNames.filter (fun p => p.1 != field),
      p ∈ s.valueNames ∧ p.1 ≠ field := by
    intro p hp
    simpa using List.mem_filter.mp hp
  refine ⟨hs.disjoint, hs.width, hs.below, hs.distinct, hs.valid, hs.covers, ?_, ?_⟩
  · rw [List.map_cons, List.nodup_cons]
    constructor
    · intro hfield
      obtain ⟨p, hp, heq⟩ := List.mem_map.mp hfield
      exact (hothers p hp).2 heq
    · -- Names given to the field before are gone, all others stay.
      exact hs.fields.sublist (List.filter_sublist.map Prod.fst)
  · rw [List.forall_mem_cons]
    exact ⟨⟨hnodup, l, hmem, hname, hlength⟩, fun p hp => hs.values p (hothers p hp).1⟩

theorem Sound.run {c : SignalCommand} (hs : s.Sound) (h : s.run c = .ok s') : s'.Sound := by
  rcases run_eq_ok h with ⟨l, w, -, hpos, hle, h⟩ | ⟨name, terms, w, -, h⟩ | ⟨field, names, -, h⟩
  · exact hs.insert ⟨hpos, hle⟩ h
  · exact hs.compose h
  · exact hs.nameValues h

/-- Lines are only ever added, and only those that are asked for. -/
theorem lines_run {c : SignalCommand} (h : s.run c = .ok s') :
    s'.lines = s.lines ++ (c.line? s).toList := by
  rcases run_eq_ok h with ⟨l, w, hl, -, -, hline⟩ | ⟨name, terms, w, rfl, hcompose⟩ |
    ⟨field, names, rfl, hnames⟩
  · obtain ⟨-, -, -, -, -, rfl⟩ := insert_eq_ok hline
    rw [hl]
    rfl
  · obtain ⟨-, -, -, rfl⟩ := compose_eq_ok hcompose
    exact (List.append_nil s.lines).symm
  · obtain ⟨l, -, -, -, rfl⟩ := nameValues_eq_ok hnames
    exact (List.append_nil s.lines).symm

theorem sound_empty : Sound {} := by
  refine ⟨.nil, ?_, ?_, .nil, ?_, ?_, .nil, ?_⟩ <;> simp [names]

theorem next_of_error {c : SignalCommand} {e : Error} (h : s.run c = .error e) : s.next c = s := by
  rw [next, h]

theorem next_of_ok {c : SignalCommand} (h : s.run c = .ok s') : s.next c = s' := by
  rw [next, h]

theorem Sound.after (hs : s.Sound) (commands : List SignalCommand) : (s.after commands).Sound := by
  induction commands generalizing s with
  | nil => exact hs
  | cons c rest ih =>
    show ((s.next c).after rest).Sound
    cases hc : s.run c with
    | error e => rw [next_of_error hc]; exact ih hs
    | ok s' => rw [next_of_ok hc]; exact ih (hs.run hc)

theorem lines_after (s : Signals) (commands : List SignalCommand) :
    (s.after commands).lines = s.lines ++ s.defined commands := by
  induction commands generalizing s with
  | nil => exact (List.append_nil s.lines).symm
  | cons c rest ih =>
    show ((s.next c).after rest).lines = _
    rw [defined]
    cases hc : s.run c with
    | error e => rw [next_of_error hc, ih]
    | ok s' => rw [next_of_ok hc, ih, lines_run hc, List.append_assoc]

theorem after_append (s : Signals) (a b : List SignalCommand) :
    s.after (a ++ b) = (s.after a).after b := List.foldl_append

theorem Sound.line_eq_ok_iff (hs : s.Sound) (name : String) (l : Line) :
    s.line name = .ok l ↔ l ∈ s.lines ∧ l.name = name := by
  rw [Signals.line_eq_ok_iff]
  constructor
  · exact mem_of_line?_eq_some
  · rintro ⟨hl, rfl⟩
    cases hfind : s.line? l.name with
    | none => exact absurd (List.mem_map_of_mem hl) ((line?_eq_none_iff s l.name).mp hfind)
    | some other =>
      obtain ⟨hother, hname⟩ := mem_of_line?_eq_some hfind
      have hnodup : (s.lines.map Line.name).Nodup := (List.nodup_append.mp hs.distinct).1
      rw [List.inj_on_of_nodup_map hnodup hother hl hname]

/-- A value name means its index, which the field can hold. -/
theorem Sound.value_of_name (hs : s.Sound) (field : String) (names : List String) (i : Nat)
    (text : String) (hfield : s.valueNames.lookup field = some names)
    (hi : names[i]? = some text) :
    s.value field text = .ok i ∧ ∃ l, s.line field = .ok l ∧ i < 2 ^ l.width := by
  obtain ⟨before, rest, heq, -⟩ := List.lookup_eq_some_iff.mp hfield
  have hmem : (field, names) ∈ s.valueNames := heq ▸ List.mem_append_right before List.mem_cons_self
  obtain ⟨hnodup, l, hl, hname, hlength⟩ := hs.values _ hmem
  obtain ⟨hlt, hget⟩ := List.getElem?_eq_some_iff.mp hi
  have hindex : names.idxOf? text = some i := by
    refine List.idxOf?_eq_some_iff.mpr ⟨hlt, hget, ?_⟩
    intro j hj hsame
    have hij : j = i := hnodup.getElem_inj_iff.mp (hsame.trans hget.symm)
    omega
  refine ⟨?_, l, (hs.line_eq_ok_iff field l).mpr ⟨hl, hname⟩, hlt.trans_le hlength⟩
  rw [value, hfield, Option.getD_some, hindex]

theorem width_le_iff (s : Signals) (b : Nat) : s.width ≤ b ↔ ∀ l ∈ s.lines, l.stop ≤ b := by
  have hmax (w : Nat) (l : Line) : max w l.stop ≤ b ↔ w ≤ b ∧ l.stop ≤ b := Nat.max_le
  rw [width, Table.foldl_le_iff hmax]
  simp

theorem Sound.width_le (hs : s.Sound) : s.width ≤ maxBits := by
  rw [width_le_iff]
  intro l hl
  rw [l.stop_eq (hs.below l hl)]
  exact hs.below l hl

/-- A word within the lines is no wider than all of them. -/
theorem Sound.bitWidth_le (hs : s.Sound) {w : Word} (hw : s.Covers w) : w.bitWidth ≤ s.width := by
  rw [Word.bitWidth_le_iff]
  apply Nat.lt_pow_two_of_testBit
  intro k hk
  by_contra hne
  rw [Bool.not_eq_false, ← Word.test_eq] at hne
  obtain ⟨l, hl, -, hlt⟩ := hw k hne
  have hstop := (width_le_iff s s.width).mp le_rfl l hl
  rw [l.stop_eq (hs.below l hl)] at hstop
  omega

/-- A bit belongs to one line at most. -/
theorem Sound.eq_of_owns (hs : s.Sound) {a b : Line} (ha : a ∈ s.lines) (hb : b ∈ s.lines) {k : Nat}
    (hak : a.Owns k) (hbk : b.Owns k) : a = b := by
  by_contra hne
  have hsymm : Std.Symm fun a b : Line => ∀ k, ¬(a.Owns k ∧ b.Owns k) :=
    ⟨fun a b h k hk => h k hk.symm⟩
  exact hs.disjoint.forall ha hb hne k ⟨hak, hbk⟩

theorem Sound.test_mask (hs : s.Sound) {l : Line} (hl : l ∈ s.lines) {k : Nat} (hk : l.Owns k) :
    l.mask.test k = true :=
  (l.test_mask_iff (hs.below l hl) k).mpr hk

theorem Covers.test_eq_false {w : Word} (h : s.Covers w) {k : Nat}
    (hk : ∀ l ∈ s.lines, ¬ l.Owns k) : w.test k = false := by
  rw [Bool.eq_false_iff]
  intro htest
  obtain ⟨l, hl, howns⟩ := h k htest
  exact hk l hl howns

theorem test_foldl_mask (ls : List Line) (w : Word) (k : Nat) :
    (ls.foldl (fun w l => w ||| l.mask) w).test k =
      (w.test k || ls.any fun l => l.mask.test k) := by
  induction ls generalizing w with
  | nil => simp
  | cons l rest ih => rw [List.foldl_cons, ih, Word.test_or, List.any_cons, Bool.or_assoc]

/-- A bit idles high if it is one of an active-low line. -/
theorem test_activeLow (s : Signals) (k : Nat) :
    s.activeLow.test k = true ↔ ∃ l ∈ s.lines, l.activeLow = true ∧ l.mask.test k = true := by
  rw [activeLow, test_foldl_mask, Word.test_zero, Bool.false_or, List.any_eq_true]
  simp only [List.mem_filter, and_assoc]

/-- The bits of a line idle high if and only if the line is active low: no other line has them. -/
theorem Sound.test_activeLow_of_owns (hs : s.Sound) {l : Line} (hl : l ∈ s.lines) {k : Nat}
    (hk : l.Owns k) : s.activeLow.test k = l.activeLow := by
  rw [Bool.eq_iff_iff, test_activeLow]
  constructor
  · rintro ⟨other, hother, hlow, hmask⟩
    have hsame := hs.eq_of_owns hother hl (other.owns_of_test_mask k hmask) hk
    exact hsame ▸ hlow
  · intro hlow
    exact ⟨l, hl, hlow, hs.test_mask hl hk⟩

theorem covers_activeLow (s : Signals) : s.Covers s.activeLow := by
  intro k hk
  obtain ⟨l, hl, -, hmask⟩ := (s.test_activeLow k).mp hk
  exact ⟨l, hl, l.owns_of_test_mask k hmask⟩

/-- After any requests to empty signals the lines own different bits within the limit, names are
valid and given once, a name leads to the line that was defined under it and to no other, composites
and value names stay within their lines and fields, and a request that failed might as well not have
been made. -/
theorem signals_after_requests (commands : List SignalCommand) :
    (after {} commands).Sound ∧
    (∀ name l, (after {} commands).line name = .ok l ↔ l ∈ defined {} commands ∧ l.name = name) ∧
    (∀ field names i text, (after {} commands).valueNames.lookup field = some names →
      names[i]? = some text → (after {} commands).value field text = .ok i ∧
        ∃ l, (after {} commands).line field = .ok l ∧ i < 2 ^ l.width) ∧
    (∀ c e rest, (after {} commands).run c = .error e →
      after {} (commands ++ c :: rest) = after {} (commands ++ rest)) := by
  have hsound : (after {} commands).Sound := sound_empty.after commands
  refine ⟨hsound, ?_, hsound.value_of_name, ?_⟩
  · intro name l
    rw [hsound.line_eq_ok_iff, lines_after]
    rfl
  · intro c e rest h
    rw [after_append, after_append]
    show ((after {} commands).next c).after rest = _
    rw [next_of_error h]

end Signals

end ControlStore
