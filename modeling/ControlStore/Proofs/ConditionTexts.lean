import ControlStore.Flags
import ControlStore.Proofs.Outcome
import ControlStore.Proofs.Text

/-! Texts of conditions. A condition is read from literals with commas between them, each the name
of a flag, an equals sign and a digit, with blanks around them. Any other text fails as its first
term that is no literal does. -/

namespace ControlStore

open Text

namespace Flags

variable {f f' : Flags}

/-- The flags after a request to name a bit, which changes nothing if it fails. -/
def request (f : Flags) (r : String × Nat) : Flags := (f.define r.1 r.2).toOption.getD f

/-- The flags that requests define, of a field of some bits. -/
def defined (bits : Nat) (requests : List (String × Nat)) : Flags :=
  requests.foldl request { bits }

/-- No two flags have a name or a bit in common. -/
structure Distinct (f : Flags) : Prop where
  names : (f.flags.map Flag.name).Nodup
  bits : (f.flags.map Flag.bit).Nodup

theorem Distinct.define {name : String} {bit : Nat} (h : f.Distinct)
    (hdefine : f.define name bit = .ok f') : f'.Distinct := by
  unfold Flags.define at hdefine
  split at hdefine
  · cases hdefine
  split at hdefine
  · cases hdefine
  rename_i hnone
  cases hdefine
  have hnew : ∀ g ∈ f.flags, g.name ≠ name ∧ g.bit ≠ bit := by
    simpa using hnone
  constructor
  · rw [List.map_append, List.nodup_append]
    refine ⟨h.names, by simp, ?_⟩
    simpa using fun g hg => (hnew g hg).1
  · rw [List.map_append, List.nodup_append]
    refine ⟨h.bits, by simp, ?_⟩
    simpa using fun g hg => (hnew g hg).2

theorem Distinct.request (h : f.Distinct) (r : String × Nat) : (f.request r).Distinct := by
  unfold Flags.request
  cases hdefine : f.define r.1 r.2 with
  | error e => exact h
  | ok f' => exact h.define hdefine

theorem distinct_defined (bits : Nat) (requests : List (String × Nat)) :
    (defined bits requests).Distinct := by
  apply List.foldlRecOn requests Flags.request
  · exact ⟨List.nodup_nil, List.nodup_nil⟩
  · intro f h r _
    exact h.request r

theorem bitOf_eq_ok_iff (h : f.Distinct) {name : String} {bit : Nat} :
    f.bitOf name = .ok bit ↔ ⟨name, bit⟩ ∈ f.flags := by
  unfold bitOf
  constructor
  · intro hbit
    split at hbit
    · rename_i g hg
      cases hbit
      obtain rfl : g.name = name := by simpa using List.find?_some hg
      exact List.mem_of_find?_eq_some hg
    · cases hbit
  · intro hmem
    split
    · rename_i g hg
      have hname : g.name = name := by simpa using List.find?_some hg
      have hsame : g = ⟨name, bit⟩ :=
        List.inj_on_of_nodup_map h.names (List.mem_of_find?_eq_some hg) hmem hname
      rw [hsame]
    · rename_i hnone
      simpa using List.find?_eq_none.mp hnone _ hmem

theorem bitOf_eq_error_iff {name : String} {e : Error} :
    f.bitOf name = .error e ↔ (∀ g ∈ f.flags, g.name ≠ name) ∧ e = .unknownFlag name := by
  unfold bitOf
  split
  · rename_i g hg
    have hname : g.name = name := by simpa using List.find?_some hg
    constructor
    · intro h
      cases h
    · intro h
      exact absurd hname (h.1 g (List.mem_of_find?_eq_some hg))
  · rename_i hnone
    have hno : ∀ g ∈ f.flags, g.name ≠ name := by simpa using hnone
    constructor
    · intro h
      cases h
      exact ⟨hno, rfl⟩
    · rintro ⟨-, rfl⟩
      rfl

theorem literal_eq_ok_iff (h : f.Distinct) {name : String} {value : Bool} {l : Literal} :
    f.literal name value = .ok l ↔ ⟨name, l.bit⟩ ∈ f.flags ∧ l.value = value := by
  rw [literal, bind_eq_ok]
  constructor
  · rintro ⟨bit, hbit, heq⟩
    cases heq
    exact ⟨(bitOf_eq_ok_iff h).mp hbit, rfl⟩
  · rintro ⟨hmem, rfl⟩
    exact ⟨l.bit, (bitOf_eq_ok_iff h).mpr hmem, rfl⟩

theorem literal_eq_error_iff {name : String} {value : Bool} {e : Error} :
    f.literal name value = .error e ↔
      (∀ g ∈ f.flags, g.name ≠ name) ∧ e = .unknownFlag name := by
  rw [literal, bind_eq_error, bitOf_eq_error_iff]
  constructor
  · rintro (h | ⟨bit, -, h⟩)
    · exact h
    · cases h
  · exact .inl

/-- Any number of blanks. -/
abbrev Gap := { s : List Char // Blanks s }

/-- The blanks around the parts of a term. -/
structure Spacing where
  before : Gap
  after : Gap
  lead : Gap
  tail : Gap

/-- What stands for a value in a term. -/
def digit (value : Bool) : Char := if value then '1' else '0'

/-- A name and a value with an equals sign between them, and blanks around all three. -/
def Spacing.term (p : Spacing) (name : List Char) (value : Bool) : List Char :=
  p.before.val ++ name ++ p.after.val ++ '=' :: (p.lead.val ++ [digit value] ++ p.tail.val)

/-- The term is the name of a flag and a value, and this is its literal. -/
def Spells (f : Flags) (term : List Char) (l : Literal) : Prop :=
  ∃ (name : List Char) (p : Spacing), Snug name ∧ '=' ∉ name ∧
    ⟨String.ofList name, l.bit⟩ ∈ f.flags ∧ term = p.term name l.value

/-- What is wrong with a term. -/
inductive Faulty (f : Flags) (term : List Char) : Error → Prop
  | term (h : '=' ∉ term) : Faulty f term (.invalid (.flagTerm (String.ofList (trim term))))
  | value (name value : List Char) (hname : '=' ∉ name) (hterm : term = name ++ '=' :: value)
    (hvalue : ∀ b, trim value ≠ [digit b]) :
    Faulty f term
      (.invalid (.flagValue (String.ofList (trim value)) (String.ofList (trim term))))
  | flag (name value : List Char) (b : Bool) (hname : '=' ∉ name)
    (hterm : term = name ++ '=' :: value) (hvalue : trim value = [digit b])
    (hno : ∀ g ∈ f.flags, g.name ≠ String.ofList (trim name)) :
    Faulty f term (.unknownFlag (String.ofList (trim name)))

/-- A term without an equals sign is no literal. -/
theorem readLiteral_of_not_mem {term : List Char} (h : '=' ∉ term) :
    f.readLiteral (trim term) = .error (.invalid (.flagTerm (String.ofList (trim term)))) := by
  have hno : '=' ∉ trim term := by
    obtain ⟨before, after, -, -, hpad⟩ := exists_trim_pad term
    intro hmem
    apply h
    rw [hpad]
    simp [hmem]
  rw [readLiteral, cut_of_not_mem '=' _ hno]

/-- A term with an equals sign asks for the flag that the text before the first one names. -/
theorem readLiteral_of_digit {name value : List Char} {b : Bool} (hname : '=' ∉ name)
    (hvalue : trim value = [digit b]) :
    f.readLiteral (trim (name ++ '=' :: value)) = f.literal (String.ofList (trim name)) b := by
  obtain ⟨name', value', hcut, hname', hvalue'⟩ :=
    cut_trim (by decide) (cut_append '=' name value hname)
  rw [readLiteral, hcut]
  dsimp only
  rw [hname', hvalue', hvalue]
  cases b <;> rfl

theorem readLiteral_of_other {name value : List Char} (hname : '=' ∉ name)
    (hvalue : ∀ b, trim value ≠ [digit b]) :
    f.readLiteral (trim (name ++ '=' :: value)) =
      .error (.invalid (.flagValue (String.ofList (trim value))
        (String.ofList (trim (name ++ '=' :: value))))) := by
  obtain ⟨name', value', hcut, hname', hvalue'⟩ :=
    cut_trim (by decide) (cut_append '=' name value hname)
  rw [readLiteral, hcut]
  dsimp only
  rw [hname', hvalue']
  split
  · rename_i hzero
    exact absurd hzero (hvalue false)
  · rename_i hone
    exact absurd hone (hvalue true)
  · rfl

theorem term_cases (term : List Char) :
    '=' ∉ term ∨ ∃ name value, '=' ∉ name ∧ term = name ++ '=' :: value ∧
      ((∃ b, trim value = [digit b]) ∨ ∀ b, trim value ≠ [digit b]) := by
  by_cases hmem : '=' ∈ term
  · obtain ⟨name, value, rfl, hname⟩ := List.eq_append_cons_of_mem hmem
    exact .inr ⟨name, value, hname, rfl, (em _).imp_right not_exists.mp⟩
  · exact .inl hmem

/-- A term spells a literal if its trimmed parts do. -/
theorem spells_of_parts {name value : List Char} {l : Literal} (hname : '=' ∉ name)
    (hvalue : trim value = [digit l.value])
    (hflag : ⟨String.ofList (trim name), l.bit⟩ ∈ f.flags) :
    f.Spells (name ++ '=' :: value) l := by
  obtain ⟨before, after, hbefore, hafter, hpad⟩ := exists_trim_pad name
  obtain ⟨lead, tail, hlead, htail, hpad'⟩ := exists_trim_pad value
  let p : Spacing := ⟨⟨before, hbefore⟩, ⟨after, hafter⟩, ⟨lead, hlead⟩, ⟨tail, htail⟩⟩
  refine ⟨trim name, p, snug_trim name, ?_, hflag, ?_⟩
  · intro hmem
    apply hname
    rw [hpad]
    simp [hmem]
  · rw [hvalue] at hpad'
    rw [Spacing.term, ← hpad, ← hpad']

theorem Spells.parts {term : List Char} {l : Literal} (h : f.Spells term l) :
    ∃ name value, '=' ∉ name ∧ term = name ++ '=' :: value ∧ trim value = [digit l.value] ∧
      ⟨String.ofList (trim name), l.bit⟩ ∈ f.flags := by
  obtain ⟨name, p, hsnug, hname, hflag, rfl⟩ := h
  have hblank : isBlank '=' = false := by decide
  refine ⟨p.before.val ++ name ++ p.after.val, _, ?_, rfl, ?_, ?_⟩
  · simp [hname, p.before.property.not_mem hblank, p.after.property.not_mem hblank]
  · rw [trim_pad _ _ _ p.lead.property p.tail.property]
    cases l.value <;> rfl
  · rw [trim_pad _ _ _ p.before.property p.after.property, hsnug.trim]
    exact hflag

theorem readLiteral_eq_ok_iff (hf : f.Distinct) {term : List Char} {l : Literal} :
    f.readLiteral (trim term) = .ok l ↔ f.Spells term l := by
  constructor
  · intro h
    rcases term_cases term with hno | ⟨name, value, hname, rfl, ⟨b, hb⟩ | hother⟩
    · rw [readLiteral_of_not_mem hno] at h
      cases h
    · rw [readLiteral_of_digit hname hb] at h
      obtain ⟨hflag, rfl⟩ := (literal_eq_ok_iff hf).mp h
      exact spells_of_parts hname hb hflag
    · rw [readLiteral_of_other hname hother] at h
      cases h
  · intro h
    obtain ⟨name, value, hname, rfl, hvalue, hflag⟩ := h.parts
    rw [readLiteral_of_digit hname hvalue]
    exact (literal_eq_ok_iff hf).mpr ⟨hflag, rfl⟩

theorem readLiteral_eq_error_iff {term : List Char} {e : Error} :
    f.readLiteral (trim term) = .error e ↔ f.Faulty term e := by
  constructor
  · intro h
    rcases term_cases term with hno | ⟨name, value, hname, rfl, ⟨b, hb⟩ | hother⟩
    · rw [readLiteral_of_not_mem hno] at h
      cases h
      exact .term hno
    · rw [readLiteral_of_digit hname hb] at h
      obtain ⟨hno, rfl⟩ := literal_eq_error_iff.mp h
      exact .flag name value b hname rfl hb hno
    · rw [readLiteral_of_other hname hother] at h
      cases h
      exact .value name value hname rfl hother
  · intro h
    cases h with
    | term hno => exact readLiteral_of_not_mem hno
    | value name value hname hterm hother =>
      subst hterm
      exact readLiteral_of_other hname hother
    | flag name value b hname hterm hvalue hno =>
      subst hterm
      rw [readLiteral_of_digit hname hvalue]
      exact literal_eq_error_iff.mpr ⟨hno, rfl⟩

theorem readCondition_eq_ok_iff (hf : f.Distinct) {text : String} {c : Condition} :
    f.readCondition text = .ok c ↔
      ∃ terms, Separated ',' text.toList terms ∧ List.Forall₂ f.Spells terms c.literals := by
  have hread (terms : List (List Char)) (ls : List Literal) :
      terms.mapM (fun term => f.readLiteral (trim term)) = .ok ls ↔
        List.Forall₂ f.Spells terms ls := by
    rw [mapM_eq_ok_iff]
    simp only [readLiteral_eq_ok_iff hf]
  rw [readCondition, bind_eq_ok]
  constructor
  · rintro ⟨ls, hls, heq⟩
    cases heq
    exact ⟨_, splitOn_eq_iff.mp rfl, (hread _ _).mp hls⟩
  · rintro ⟨terms, hterms, hspells⟩
    rw [splitOn_eq_iff.mpr hterms]
    exact ⟨c.literals, (hread _ _).mpr hspells, rfl⟩

theorem readCondition_eq_error_iff (hf : f.Distinct) {text : String} {e : Error} :
    f.readCondition text = .error e ↔
      ∃ before term after, Separated ',' text.toList (before ++ term :: after) ∧
        (∀ t ∈ before, ∃ l, f.Spells t l) ∧ f.Faulty term e := by
  have hread (terms : List (List Char)) :
      terms.mapM (fun term => f.readLiteral (trim term)) = .error e ↔
        ∃ before term after, terms = before ++ term :: after ∧
          (∀ t ∈ before, ∃ l, f.Spells t l) ∧ f.Faulty term e := by
    rw [mapM_eq_error_iff]
    simp only [readLiteral_eq_ok_iff hf, readLiteral_eq_error_iff]
  rw [readCondition, bind_eq_error, hread]
  constructor
  · rintro (⟨before, term, after, hsplit, hbefore, hterm⟩ | ⟨ls, -, heq⟩)
    · exact ⟨before, term, after, splitOn_eq_iff.mp hsplit, hbefore, hterm⟩
    · cases heq
  · rintro ⟨before, term, after, hseparated, hbefore, hterm⟩
    exact .inl ⟨before, term, after, splitOn_eq_iff.mpr hseparated, hbefore, hterm⟩

/-- The name of a bit, which is empty if it has none. -/
def nameOf (f : Flags) (bit : Nat) : String :=
  ((f.flags.find? (fun g => g.bit == bit)).map Flag.name).getD ""

/-- The text of literals, with any blanks around their parts. -/
def print (f : Flags) (literals : List (Literal × Spacing)) : String :=
  String.ofList ([','].intercalate
    (literals.map fun p => p.2.term (f.nameOf p.1.bit).toList p.1.value))

/-- The bit has a name that can stand in a condition. -/
def Printable (f : Flags) (bit : Nat) : Prop :=
  ∃ name : String, ⟨name, bit⟩ ∈ f.flags ∧ ',' ∉ name.toList ∧ '=' ∉ name.toList ∧
    Snug name.toList

theorem nameOf_of_mem (hf : f.Distinct) {name : String} {bit : Nat}
    (h : ⟨name, bit⟩ ∈ f.flags) : f.nameOf bit = name := by
  unfold nameOf
  cases hfind : f.flags.find? (fun g => g.bit == bit) with
  | none =>
    exact absurd (beq_self_eq_true bit) (List.find?_eq_none.mp hfind _ h)
  | some g =>
    have hbit : g.bit = bit := by simpa using List.find?_some hfind
    have hsame : g = ⟨name, bit⟩ :=
      List.inj_on_of_nodup_map hf.bits (List.mem_of_find?_eq_some hfind) h hbit
    rw [hsame]
    rfl

/-- Printed literals are read again, whatever the blanks. -/
theorem readCondition_print (hf : f.Distinct) {literals : List (Literal × Spacing)}
    (hne : literals ≠ []) (h : ∀ p ∈ literals, f.Printable p.1.bit) :
    f.readCondition (f.print literals) = .ok ⟨literals.map Prod.fst⟩ := by
  apply (readCondition_eq_ok_iff hf).mpr
  refine ⟨literals.map fun p => p.2.term (f.nameOf p.1.bit).toList p.1.value, ⟨?_, ?_, ?_⟩, ?_⟩
  · simpa using hne
  · intro term hterm hmem
    obtain ⟨p, hp, rfl⟩ := List.mem_map.mp hterm
    obtain ⟨name, hflag, hcomma, -, -⟩ := h p hp
    rw [nameOf_of_mem hf hflag] at hmem
    have hblank (gap : Gap) : ',' ∉ gap.val := gap.property.not_mem (by decide)
    have hdigit : ',' ≠ digit p.1.value := by cases p.1.value <;> decide
    simp [Spacing.term, hblank, hcomma, hdigit] at hmem
  · rw [print, String.toList_ofList]
  · rw [List.forall₂_map_left_iff, List.forall₂_map_right_iff, List.forall₂_same]
    intro p hp
    obtain ⟨name, hflag, -, hequals, hsnug⟩ := h p hp
    refine ⟨name.toList, p.2, hsnug, hequals, ?_, ?_⟩
    · rw [String.ofList_toList]
      exact hflag
    · rw [nameOf_of_mem hf hflag]

/-- Exactly the texts of one or more terms with commas between them, each the name of a flag and a
value, are conditions, with one literal for each term. Any other text fails as its leftmost faulty
term does. Names that have no comma, no equals sign and no blanks at their ends can be printed with
any blanks around them and are read again. -/
theorem conditions_of_texts (bits : Nat) (requests : List (String × Nat)) :
    (∀ text c, (defined bits requests).readCondition text = .ok c ↔
      ∃ terms, Separated ',' text.toList terms ∧
        List.Forall₂ (defined bits requests).Spells terms c.literals) ∧
    (∀ text e, (defined bits requests).readCondition text = .error e ↔
      ∃ before term after, Separated ',' text.toList (before ++ term :: after) ∧
        (∀ t ∈ before, ∃ l, (defined bits requests).Spells t l) ∧
        (defined bits requests).Faulty term e) ∧
    (∀ literals : List (Literal × Spacing), literals ≠ [] →
      (∀ p ∈ literals, (defined bits requests).Printable p.1.bit) →
      (defined bits requests).readCondition ((defined bits requests).print literals) =
        .ok ⟨literals.map Prod.fst⟩) := by
  have hdistinct := distinct_defined bits requests
  refine ⟨?_, ?_, ?_⟩
  · intro text c
    exact readCondition_eq_ok_iff hdistinct
  · intro text e
    exact readCondition_eq_error_iff hdistinct
  · intro literals hne hprintable
    exact readCondition_print hdistinct hne hprintable

/-- A second flag of one name is refused, and a flag may have an equals sign in its name. -/
def requestedFlags : Flags := defined 3 [("Z", 0), ("C", 1), ("Z", 2), ("a=b", 2)]

/-- A literal that is repeated, with blanks of several kinds. -/
def spacedLiterals : List (Literal × Spacing) :=
  let empty : Gap := ⟨[], blanks_nil⟩
  [(⟨1, true⟩, ⟨⟨['\u00a0'], by decide⟩, ⟨['\u2003'], by decide⟩, ⟨['\t'], by decide⟩, empty⟩),
    (⟨0, false⟩, ⟨empty, empty, empty, ⟨['\n'], by decide⟩⟩),
    (⟨1, true⟩, ⟨⟨[' '], blanks_space⟩, empty, empty, empty⟩)]

/-- The blanks are read over. A name with an equals sign cannot be asked about, and the unknown flag
after it does not matter. -/
theorem conditions_of_spaced_texts :
    requestedFlags.print spacedLiterals = "\u00a0C\u2003=\t1,Z=0\n, C=1" ∧
      requestedFlags.readCondition "\u00a0C\u2003=\t1,Z=0\n, C=1" =
        .ok ⟨[⟨1, true⟩, ⟨0, false⟩, ⟨1, true⟩]⟩ ∧
      requestedFlags.readCondition "C = 1, a=b=1 ,Q=0" =
        .error (.invalid (.flagValue "b=1" "a=b=1")) := by
  obtain ⟨-, herror, hprint⟩ :=
    conditions_of_texts 3 [("Z", 0), ("C", 1), ("Z", 2), ("a=b", 2)]
  have htext : requestedFlags.print spacedLiterals = "\u00a0C\u2003=\t1,Z=0\n, C=1" := by
    decide +kernel
  have hprintable : ∀ p ∈ spacedLiterals, requestedFlags.Printable p.1.bit := by
    have hflag (name : String) (bit : Nat) (hmem : ⟨name, bit⟩ ∈ requestedFlags.flags)
        (hover : Over [] name.toList) (hne : name.toList ≠ []) : requestedFlags.Printable bit :=
      ⟨name, hmem, hover.not_mem ',' (by decide), hover.not_mem '=' (by decide),
        (hover.token hne (by decide)).snug⟩
    have hC := hflag "C" 1 (by decide) (by decide) (by decide)
    have hZ := hflag "Z" 0 (by decide) (by decide) (by decide)
    simp only [spacedLiterals, List.forall_mem_cons]
    exact ⟨hC, hZ, hC, List.forall_mem_nil _⟩
  have hspells : requestedFlags.Spells ("C ".toList ++ '=' :: " 1".toList) ⟨1, true⟩ :=
    spells_of_parts (by decide) (by decide) (by decide)
  have hvalue : String.ofList (trim "b=1 ".toList) = "b=1" := by decide
  have hterm : String.ofList (trim " a=b=1 ".toList) = "a=b=1" := by decide
  refine ⟨htext, ?_, ?_⟩
  · rw [← htext]
    exact hprint spacedLiterals (List.cons_ne_nil _ _) hprintable
  · apply (herror _ _).mpr
    refine ⟨["C = 1".toList], " a=b=1 ".toList, ["Q=0".toList], ⟨?_, ?_, ?_⟩, ?_, ?_⟩
    · decide
    · decide
    · decide
    · intro t ht
      rw [List.mem_singleton.mp ht]
      exact ⟨_, hspells⟩
    · rw [← hvalue, ← hterm]
      exact .value " a".toList "b=1 ".toList (by decide) (by decide) (by decide)

end Flags

end ControlStore
