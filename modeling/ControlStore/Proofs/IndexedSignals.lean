import ControlStore.Proofs.Procedures
import ControlStore.Proofs.Terms
import Std.Data.HashMap

/-! Signals with indices. The name of a line leads to its position among the lines, the name of a
composite to its bits and the name of a value to the value. Requests check and write step by step,
and everything comes out as for signals without indices. -/

namespace ControlStore

structure IndexedSignals where
  lines : Array Line := #[]
  lineIndex : Std.HashMap String Nat := {}
  composites : Std.HashMap String Word := {}
  valueNames : Std.HashMap String (Std.HashMap String Nat) := {}

namespace IndexedSignals

open Procedure

def contains (x : IndexedSignals) (name : String) : Bool :=
  x.lineIndex.contains name || x.composites.contains name

def line? (x : IndexedSignals) (name : String) : Option Line :=
  x.lineIndex[name]?.bind fun i => x.lines[i]?

def line (x : IndexedSignals) (name : String) : Except Error Line :=
  match x.line? name with
  | some l => .ok l
  | none => .error (.unknownSignal name)

def width (x : IndexedSignals) : Nat := x.lines.foldl (fun w l => max w l.stop) 0

def activeLow (x : IndexedSignals) : Word :=
  (x.lines.filter Line.activeLow).foldl (fun w l => w ||| l.mask) Word.zero

def resolve (x : IndexedSignals) (name : String) : Except Error Word :=
  match x.line? name with
  | some l => .ok l.mask
  | none =>
    match x.composites[name]? with
    | some w => .ok w
    | none => .error (.unknownSignal name)

def value (x : IndexedSignals) (field text : String) : Except Error Nat :=
  match x.valueNames[field]?.bind fun values => values[text]? with
  | some v => .ok v
  | none =>
    match Text.nat64? text.toList with
    | some n => .ok n
    | none => .error (.invalid (.valueText text field))

def resolveTerm (x : IndexedSignals) (term : String) : Except Error Word :=
  match Text.cut '=' term.toList with
  | none => x.resolve term
  | some (name, text) => do
    let name := String.ofList name
    let l ← x.line name
    let v ← x.value name (String.ofList text)
    if l.width < 64 ∧ 1 <<< l.width ≤ v then
      .error (.fieldValue name v l.width)
    else
      .ok (Word.field l.bit l.width v)

def build (x : IndexedSignals) (terms : List String) : Except Error Word :=
  terms.foldlM (fun w t => do
    let v ← x.resolveTerm t
    return w ||| v) Word.zero

def checkNew (name : String) : Procedure IndexedSignals Unit := do
  ofExcept (Signals.checkName name)
  if (← get).contains name then throw (.duplicateSignal name)

/-- Adds a line, first to the index and then to the lines. -/
def add (l : Line) : Procedure IndexedSignals Word := do
  modify fun x => { x with lineIndex := x.lineIndex.insert l.name x.lines.size }
  modify fun x => { x with lines := x.lines.push l }
  return l.mask

def insert (l : Line) : Procedure IndexedSignals Word := do
  checkNew l.name
  if Signals.maxBits < l.bit + l.width then
    throw (.invalid (.lineRange l.name l.bit Signals.maxBits))
  match (← get).lines.find? fun other => other.overlaps l with
  | some other => throw (.overlappingLine l.name other.name (max l.bit other.bit))
  | none => add l

def define (name : String) (bit : Nat) : Procedure IndexedSignals Word :=
  insert { name, bit, width := 1 }

def defineActiveLow (name : String) (bit : Nat) : Procedure IndexedSignals Word :=
  insert { name, bit, width := 1, activeLow := true }

def defineField (name : String) (lsb width : Nat) : Procedure IndexedSignals Word :=
  if width = 0 ∨ 64 < width then throw (.invalid (.fieldWidth name))
  else insert { name, bit := lsb, width }

def push (name : String) (width : Nat) (activeLow : Bool) : Procedure IndexedSignals Nat := do
  let bit := (← get).width
  let _ ←
    if width = 1 then
      if activeLow then defineActiveLow name bit else define name bit
    else defineField name bit width
  return bit

def compose (name : String) (terms : List String) : Procedure IndexedSignals Word := do
  checkNew name
  let w ← ofExcept ((← get).build terms)
  modify fun x => { x with composites := x.composites.insert name w }
  return w

/-- The values of names, counted from `value` up and checked one after the other. -/
def indexNames (field : String) (value : Nat) (values : Std.HashMap String Nat) :
    List String → Except Error (Std.HashMap String Nat)
  | [] => .ok values
  | name :: rest =>
    if Text.isNumeral name.toList then .error (.invalid (.numeralValueName name))
    else
      match values.containsThenInsert name value with
      | (true, _) => .error (.invalid (.repeatedValueName name field))
      | (false, values) => indexNames field (value + 1) values rest

def nameValues (field : String) (names : List String) : Procedure IndexedSignals Unit := do
  let l ← ofExcept ((← get).line field)
  if l.width = 1 then throw (.invalid (.notMultibit field))
  if 1 <<< l.width < names.length then
    throw (.invalid (.tooManyValueNames field (1 <<< l.width)))
  let values ← ofExcept (indexNames field 0 {} names)
  modify fun x => { x with valueNames := x.valueNames.insert field values }

def request : SignalCommand → Procedure IndexedSignals SignalAnswer
  | .define name bit => return .word (← define name bit)
  | .defineActiveLow name bit => return .word (← defineActiveLow name bit)
  | .defineField name lsb width => return .word (← defineField name lsb width)
  | .push name width activeLow => return .position (← push name width activeLow)
  | .compose name terms => return .word (← compose name terms)
  | .nameValues field names => do
    nameValues field names
    return .done

/-- The signals that a request leaves, and the answer or the error. -/
def perform (x : IndexedSignals) (c : SignalCommand) : IndexedSignals × Except Error SignalAnswer :=
  (request c).perform x

/-- The signals after requests made one after another. -/
def after (x : IndexedSignals) (commands : List SignalCommand) : IndexedSignals :=
  commands.foldl (fun x c => (x.perform c).1) x

theorem reads_checkNew (name : String) : Reads (checkNew name) := by
  intro x
  rw [checkNew]
  cases Signals.checkName name with
  | error e => rfl
  | ok _ => exact reads_throw_if _ _ x

theorem succeeds_add (l : Line) : Succeeds (add l) := fun _ => ⟨_, _, rfl⟩

theorem clean_insert (l : Line) : Clean (insert l) := by
  refine (reads_checkNew l.name).bind fun _ => .ite (reads_throw _).clean ?_
  refine .of_get fun x => ?_
  split
  · exact (reads_throw _).clean
  · exact (succeeds_add l).clean

theorem clean_defineField (name : String) (lsb width : Nat) :
    Clean (defineField name lsb width) :=
  .ite (reads_throw _).clean (clean_insert _)

theorem clean_push (name : String) (width : Nat) (activeLow : Bool) :
    Clean (push name width activeLow) := by
  refine .of_get fun x => .ite (.ite ?_ ?_) ?_
  · exact (clean_insert _).bind fun _ _ => ⟨_, _, rfl⟩
  · exact (clean_insert _).bind fun _ _ => ⟨_, _, rfl⟩
  · exact (clean_defineField name x.width width).bind fun _ _ => ⟨_, _, rfl⟩

theorem clean_compose (name : String) (terms : List String) : Clean (compose name terms) := by
  refine (reads_checkNew name).bind fun _ => .of_get fun x => (reads_ofExcept _).bind fun w => ?_
  exact Succeeds.clean fun _ => ⟨_, _, rfl⟩

theorem clean_nameValues (field : String) (names : List String) :
    Clean (nameValues field names) := by
  refine .of_get fun x => (reads_ofExcept _).bind fun l => ?_
  refine .ite (reads_throw _).clean (.ite (reads_throw _).clean ?_)
  exact (reads_ofExcept _).bind fun values => Succeeds.clean fun _ => ⟨_, _, rfl⟩

/-- Every request checks all that it checks before it writes. -/
theorem clean_request (c : SignalCommand) : Clean (request c) := by
  cases c with
  | define name bit => exact (clean_insert _).bind fun _ _ => ⟨_, _, rfl⟩
  | defineActiveLow name bit => exact (clean_insert _).bind fun _ _ => ⟨_, _, rfl⟩
  | defineField name lsb width =>
    exact (clean_defineField name lsb width).bind fun _ _ => ⟨_, _, rfl⟩
  | push name width activeLow =>
    exact (clean_push name width activeLow).bind fun _ _ => ⟨_, _, rfl⟩
  | compose name terms => exact (clean_compose name terms).bind fun _ _ => ⟨_, _, rfl⟩
  | nameValues field names => exact (clean_nameValues field names).bind fun _ _ => ⟨_, _, rfl⟩

/-- The indices lead to what the signals have. -/
structure Indexes (x : IndexedSignals) (s : Signals) : Prop where
  lines : x.lines.toList = s.lines
  index : ∀ (name : String) (i : Nat),
    x.lineIndex[name]? = some i ↔ ∃ l, x.lines[i]? = some l ∧ l.name = name
  composites : ∀ name : String, x.composites[name]? = s.composites.lookup name
  valueNames : ∀ field text : String, (x.valueNames[field]?.bind fun values => values[text]?) =
    ((s.valueNames.lookup field).getD []).idxOf? text

theorem indexes_empty : Indexes {} {} := by
  refine ⟨rfl, ?_, ?_, ?_⟩
  · intro name i
    simp
  · intro name
    simp
  · intro field text
    simp

section Reads

variable {x : IndexedSignals} {s : Signals}

/-- The index of a name leads to the first line that has it, since no two lines have it. -/
theorem Indexes.line?_eq (h : x.Indexes s) (name : String) : x.line? name = s.line? name := by
  rw [line?]
  cases hi : x.lineIndex[name]? with
  | none =>
    refine ((Signals.line?_eq_none_iff s name).mpr ?_).symm
    intro hmem
    obtain ⟨l, hl, hname⟩ := List.mem_map.mp hmem
    rw [← h.lines, Array.mem_toList_iff] at hl
    obtain ⟨i, hget⟩ := Array.mem_iff_getElem?.mp hl
    have hindex := (h.index name i).mpr ⟨l, hget, hname⟩
    rw [hi] at hindex
    cases hindex
  | some i =>
    obtain ⟨l, hget, hname⟩ := (h.index name i).mp hi
    rw [Option.bind_some, hget]
    cases hfind : s.line? name with
    | none =>
      refine absurd ?_ ((Signals.line?_eq_none_iff s name).mp hfind)
      rw [← h.lines]
      exact List.mem_map.mpr ⟨l, Array.mem_toList_iff.mpr (Array.mem_of_getElem? hget), hname⟩
    | some other =>
      obtain ⟨hother, hsame⟩ := Signals.mem_of_line?_eq_some hfind
      rw [← h.lines, Array.mem_toList_iff] at hother
      obtain ⟨j, hj⟩ := Array.mem_iff_getElem?.mp hother
      have hindex := (h.index name j).mpr ⟨other, hj, hsame⟩
      rw [hi] at hindex
      cases hindex
      exact hget.symm.trans hj

theorem Indexes.line_eq (h : x.Indexes s) (name : String) : x.line name = s.line name := by
  have hline := h.line?_eq name
  unfold line Signals.line
  cases hl : s.line? name <;> rw [hline, hl]

theorem Indexes.contains_eq (h : x.Indexes s) (name : String) :
    x.contains name = s.contains name := by
  have hindex : x.lineIndex.contains name = (x.line? name).isSome := by
    rw [Std.HashMap.contains_eq_isSome_getElem?, line?]
    cases hi : x.lineIndex[name]? with
    | none => rfl
    | some i =>
      obtain ⟨l, hget, -⟩ := (h.index name i).mp hi
      rw [Option.bind_some, hget]
      rfl
  rw [contains, Signals.contains, hindex, h.line?_eq, Std.HashMap.contains_eq_isSome_getElem?,
    h.composites]

theorem Indexes.resolve_eq (h : x.Indexes s) (name : String) :
    x.resolve name = s.resolve name := by
  have hline := h.line?_eq name
  have hcomposite := h.composites name
  unfold resolve Signals.resolve
  cases hl : s.line? name with
  | some l => rw [hline, hl]
  | none => cases hc : s.composites.lookup name <;> rw [hline, hl, hcomposite, hc]

theorem Indexes.value_eq (h : x.Indexes s) (field text : String) :
    x.value field text = s.value field text := by
  have hvalue := h.valueNames field text
  unfold value Signals.value
  cases hi : ((s.valueNames.lookup field).getD []).idxOf? text with
  | some v => rw [hvalue, hi]
  | none => cases Text.nat64? text.toList <;> rw [hvalue, hi]

theorem Indexes.resolveTerm_eq (h : x.Indexes s) (term : String) :
    x.resolveTerm term = s.resolveTerm term := by
  unfold resolveTerm Signals.resolveTerm
  cases Text.cut '=' term.toList with
  | none => exact h.resolve_eq term
  | some p => simp only [h.line_eq, h.value_eq]

theorem Indexes.build_eq (h : x.Indexes s) (terms : List String) :
    x.build terms = s.build terms := by
  unfold build Signals.build
  simp only [h.resolveTerm_eq]

theorem Indexes.width_eq (h : x.Indexes s) : x.width = s.width := by
  rw [width, Signals.width, ← h.lines, Array.foldl_toList]

theorem Indexes.activeLow_eq (h : x.Indexes s) : x.activeLow = s.activeLow := by
  rw [activeLow, Signals.activeLow, ← h.lines, ← Array.foldl_toList, Array.toList_filter]

end Reads

/-- The error is the same and nothing changed, or the answer is the same and the signals agree. -/
inductive Agree {α : Type} (x : IndexedSignals) :
    IndexedSignals × Except Error α → Except Error (α × Signals) → Prop
  | error (e : Error) : Agree x (x, .error e) (.error e)
  | ok (a : α) {x' : IndexedSignals} {s' : Signals} (h : x'.Indexes s') :
    Agree x (x', .ok a) (.ok (a, s'))

section Steps

variable {α β : Type} {x : IndexedSignals} {s : Signals}

/-- What only reads is either the end of both or a step of both. -/
theorem Agree.reading {y : Procedure IndexedSignals β} {r : Except Error β}
    (hy : y.perform x = (x, r)) {f : β → Procedure IndexedSignals α}
    {g : β → Except Error (α × Signals)}
    (hnext : ∀ b, r = .ok b → Agree x ((f b).perform x) (g b)) :
    Agree x ((y >>= f).perform x) (r >>= g) := by
  cases hrun : y.run x with
  | error e x' =>
    rw [perform_of_error hrun] at hy
    cases hy
    rw [perform_bind_of_error f hrun]
    exact .error e
  | ok b x' =>
    rw [perform_of_ok hrun] at hy
    cases hy
    rw [perform_bind_of_ok f hrun]
    exact hnext b rfl

theorem Agree.check {c : Prop} [Decidable c] {e : Error} {y : Procedure IndexedSignals α}
    {r : Except Error (α × Signals)} (h : ¬c → Agree x (y.perform x) r) :
    Agree x ((if c then throw e else y : Procedure IndexedSignals α).perform x)
      (if c then throw e else r) := by
  by_cases hc : c
  · rw [if_pos hc, if_pos hc]
    exact .error e
  · rw [if_neg hc, if_neg hc]
    exact h hc

theorem Agree.map {y : Procedure IndexedSignals α} {r : Except Error (α × Signals)}
    (h : Agree x (y.perform x) r) (f : α → β) :
    Agree x ((y >>= fun a => pure (f a)).perform x) (r.map (Prod.map f id)) := by
  cases hrun : y.run x with
  | error e x' =>
    rw [perform_bind_of_error _ hrun]
    rw [perform_of_error hrun] at h
    cases h
    exact .error e
  | ok a x' =>
    rw [perform_bind_of_ok _ hrun]
    rw [perform_of_ok hrun] at h
    cases h with
    | ok _ h => exact .ok (f a) h

theorem Agree.of_get {f : IndexedSignals → Procedure IndexedSignals α}
    {r : Except Error (α × Signals)} (h : Agree x ((f x).perform x) r) :
    Agree x ((get >>= f).perform x) r := h

theorem perform_ofExcept (r : Except Error α) (x : IndexedSignals) :
    (ofExcept r : Procedure IndexedSignals α).perform x = (x, r) := by
  cases r <;> rfl

theorem Indexes.checkNew (h : x.Indexes s) (name : String) :
    (checkNew name).perform x = (x, s.checkNew name) := by
  rw [IndexedSignals.checkNew, Signals.checkNew]
  cases Signals.checkName name with
  | error e => rfl
  | ok _ =>
    show (if x.contains name then _ else _ : Procedure IndexedSignals Unit).perform x =
      (x, if s.contains name then _ else _)
    rw [h.contains_eq]
    split <;> rfl

theorem getElem?_lineIndex_of_new {name : String} (h : x.contains name = false) :
    x.lineIndex[name]? = none ∧ x.composites[name]? = none := by
  rw [contains, Bool.or_eq_false_iff, Std.HashMap.contains_eq_isSome_getElem?,
    Std.HashMap.contains_eq_isSome_getElem?, Option.isSome_eq_false_iff,
    Option.isSome_eq_false_iff, Option.isNone_iff_eq_none, Option.isNone_iff_eq_none] at h
  exact h

theorem Indexes.new_of_checkNew (h : x.Indexes s) {name : String}
    (hnew : s.checkNew name = .ok ()) :
    x.lineIndex[name]? = none ∧ x.composites[name]? = none := by
  apply getElem?_lineIndex_of_new
  rw [h.contains_eq]
  exact (Signals.contains_eq_false_iff s name).mpr (Signals.checkNew_eq_ok hnew).2

theorem Indexes.index_push (h : x.Indexes s) {l : Line} (hnew : x.lineIndex[l.name]? = none)
    (name : String) (i : Nat) :
    (x.lineIndex.insert l.name x.lines.size)[name]? = some i ↔
      ∃ l', (x.lines.push l)[i]? = some l' ∧ l'.name = name := by
  have hfree (j : Nat) (l' : Line) (hj : x.lines[j]? = some l') : l'.name ≠ l.name := by
    intro hname
    have hindex := (h.index l.name j).mpr ⟨l', hj, hname⟩
    rw [hnew] at hindex
    cases hindex
  rw [Std.HashMap.getElem?_insert, Array.getElem?_push]
  by_cases hi : i = x.lines.size
  · subst hi
    by_cases hname : l.name = name
    · simp [hname]
    · have hno : x.lineIndex[name]? ≠ some x.lines.size := by
        intro hsome
        obtain ⟨l', hget, -⟩ := (h.index name x.lines.size).mp hsome
        rw [Array.getElem?_size] at hget
        cases hget
      simp [hname, hno]
  · by_cases hname : l.name = name
    · subst hname
      have hno : ¬∃ l', x.lines[i]? = some l' ∧ l'.name = l.name :=
        fun ⟨l', hget, hsame⟩ => hfree i l' hget hsame
      simp only [BEq.rfl, if_true, if_neg hi, hno, Option.some.injEq, iff_false]
      exact Ne.symm hi
    · simp only [beq_iff_eq, if_neg hname, if_neg hi]
      exact h.index name i

theorem Indexes.insert (h : x.Indexes s) (l : Line) :
    Agree x ((insert l).perform x) (s.insert l) := by
  refine Agree.reading (h.checkNew l.name) fun _ hnew => Agree.check fun _ => ?_
  have hfind : x.lines.find? (fun other => other.overlaps l) =
      s.lines.find? fun other => other.overlaps l := by
    rw [← h.lines, Array.find?_toList]
  show Agree x (Procedure.perform (match x.lines.find? fun other => other.overlaps l with
    | some other => _
    | none => _) x) (match s.lines.find? fun other => other.overlaps l with
    | some other => _
    | none => _)
  rw [hfind]
  cases s.lines.find? fun other => other.overlaps l with
  | some other => exact .error _
  | none =>
    refine .ok l.mask ⟨?_, h.index_push (h.new_of_checkNew hnew).1, h.composites, h.valueNames⟩
    rw [← h.lines]
    exact Array.toList_push

theorem Indexes.defineField (h : x.Indexes s) (name : String) (lsb width : Nat) :
    Agree x ((defineField name lsb width).perform x) (s.defineField name lsb width) :=
  Agree.check fun _ => h.insert _

theorem Agree.pushed {y : Procedure IndexedSignals Word} {r : Except Error (Word × Signals)}
    (h : Agree x (y.perform x) r) (bit : Nat) :
    Agree x ((y >>= fun _ => pure bit).perform x) (r >>= fun p => pure (bit, p.2)) := by
  have hmap := h.map fun _ => bit
  cases r <;> exact hmap

theorem Indexes.push (h : x.Indexes s) (name : String) (width : Nat) (activeLow : Bool) :
    Agree x ((push name width activeLow).perform x) (s.push name width activeLow) := by
  unfold Signals.push
  rw [← h.width_eq]
  by_cases hone : width = 1
  · subst hone
    cases activeLow with
    | false => exact (h.insert ⟨name, x.width, 1, false⟩).pushed x.width
    | true => exact (h.insert ⟨name, x.width, 1, true⟩).pushed x.width
  · show Agree x ((if width = 1 then _ else _ : Procedure IndexedSignals Nat).perform x)
      (if width = 1 then _ else _)
    rw [if_neg hone, if_neg hone]
    exact (h.defineField name x.width width).pushed x.width

theorem Indexes.compose (h : x.Indexes s) (name : String) (terms : List String) :
    Agree x ((compose name terms).perform x) (s.compose name terms) := by
  have hbuild : (ofExcept (x.build terms) : Procedure IndexedSignals Word).perform x =
      (x, s.build terms) := by
    rw [perform_ofExcept, h.build_eq]
  refine Agree.reading (h.checkNew name) fun _ hnew => .of_get (Agree.reading hbuild fun w _ => ?_)
  refine .ok w ⟨h.lines, h.index, ?_, h.valueNames⟩
  intro other
  have hfree : s.composites.lookup name = none :=
    (h.composites name).symm.trans (h.new_of_checkNew hnew).2
  rw [Std.HashMap.getElem?_insert, List.lookup_append, h.composites]
  by_cases hname : name = other
  · subst hname
    rw [if_pos BEq.rfl, hfree]
    simp
  · have hno : (other == name) = false := by simpa using Ne.symm hname
    rw [if_neg (by simpa using hname), List.lookup_cons, hno]
    simp

/-- Names pass the checks if and only if they are indexed, and then each has the number of names
before it. -/
theorem indexNames_eq (field : String) {seen : List String} {values : Std.HashMap String Nat}
    (hseen : ∀ name : String, values.contains name = seen.contains name) (value : Nat)
    (names : List String) :
    (∃ e, Signals.checkValueNames field seen names = .error e ∧
        indexNames field value values names = .error e) ∨
      ∃ values', Signals.checkValueNames field seen names = .ok () ∧
        indexNames field value values names = .ok values' ∧
        ∀ text : String,
          values'[text]? = ((names.idxOf? text).map (value + ·)).or values[text]? := by
  induction names generalizing seen values value with
  | nil => exact .inr ⟨values, rfl, rfl, fun text => rfl⟩
  | cons name rest ih =>
    rw [Signals.checkValueNames, indexNames]
    by_cases hnumeral : Text.isNumeral name.toList = true
    · rw [if_pos hnumeral, if_pos hnumeral]
      exact .inl ⟨_, rfl, rfl⟩
    rw [if_neg hnumeral, if_neg hnumeral, ← hseen name]
    have hstep : values.containsThenInsert name value =
        (values.contains name, values.insert name value) := by
      rw [← Std.HashMap.containsThenInsert_fst, ← Std.HashMap.containsThenInsert_snd]
    rw [hstep]
    cases hold : values.contains name with
    | true => exact .inl ⟨_, rfl, rfl⟩
    | false =>
      have hseen' (other : String) :
          (values.insert name value).contains other = (name :: seen).contains other := by
        rw [Std.HashMap.contains_insert, hseen, List.contains_cons, Bool.beq_comm]
      obtain ⟨e, hcheck, hindex⟩ | ⟨values', hcheck, hindex, hget⟩ := ih hseen' (value + 1)
      · exact .inl ⟨e, hcheck, hindex⟩
      refine .inr ⟨values', hcheck, hindex, ?_⟩
      intro text
      have hfresh : name ∉ rest := fun hmem =>
        (Signals.nodup_of_checkValueNames hcheck).2 name hmem List.mem_cons_self
      rw [hget text, Std.HashMap.getElem?_insert, List.idxOf?_cons]
      by_cases hname : name = text
      · subst hname
        have hnone : rest.idxOf? name = none := List.idxOf?_eq_none_iff.mpr hfresh
        rw [hnone, if_pos BEq.rfl, if_pos BEq.rfl]
        rfl
      · have hno : ¬(name == text) = true := by simpa using hname
        rw [if_neg hno, if_neg hno, Option.map_map]
        congr 2
        funext i
        exact Nat.add_right_comm value 1 i

theorem map_nameValues {γ : Type} (s : Signals) (field : String) (names : List String)
    (f : Signals → γ) :
    (s.nameValues field names).map f = (do
      let l ← s.line field
      if l.width = 1 then throw (.invalid (.notMultibit field))
      else if 1 <<< l.width < names.length then
        throw (.invalid (.tooManyValueNames field (1 <<< l.width)))
      else (Signals.checkValueNames field [] names).map fun _ => f { s with
        valueNames := (field, names) :: s.valueNames.filter fun p => p.1 != field }) := by
  rw [Signals.nameValues]
  cases s.line field with
  | error e => rfl
  | ok l =>
    show Except.map f (if l.width = 1 then _ else if 1 <<< l.width < names.length then _ else _) =
      if l.width = 1 then _ else if 1 <<< l.width < names.length then _ else _
    split
    · rfl
    split
    · rfl
    · cases Signals.checkValueNames field [] names <;> rfl

theorem Indexes.nameValues (h : x.Indexes s) (field : String) (names : List String) :
    Agree x ((nameValues field names).perform x)
      ((s.nameValues field names).map fun after => ((), after)) := by
  have hline : (ofExcept (x.line field) : Procedure IndexedSignals Line).perform x =
      (x, s.line field) := by
    rw [perform_ofExcept, h.line_eq]
  rw [map_nameValues]
  refine .of_get (Agree.reading hline fun l _ => Agree.check fun _ => Agree.check fun _ => ?_)
  have hempty (name : String) :
      (({} : Std.HashMap String Nat).contains name) = ([] : List String).contains name := by
    simp
  obtain ⟨e, hcheck, hindex⟩ | ⟨values, hcheck, hindex, hget⟩ := indexNames_eq field hempty 0 names
  · rw [hcheck, hindex]
    exact .error e
  rw [hcheck, hindex]
  refine .ok () ⟨h.lines, h.index, h.composites, ?_⟩
  intro other text
  rw [Std.HashMap.getElem?_insert]
  by_cases hfield : field = other
  · subst hfield
    rw [if_pos BEq.rfl, List.lookup_cons_self, Option.bind_some, Option.getD_some, hget]
    simp
  · have hno : (other == field) = false := by simpa using Ne.symm hfield
    rw [if_neg (by simpa using hfield), List.lookup_cons, hno,
      Signals.lookup_filter_of_ne _ (Ne.symm hfield)]
    exact h.valueNames other text

theorem Indexes.request (h : x.Indexes s) (c : SignalCommand) :
    Agree x ((request c).perform x) (s.respond c) := by
  cases c with
  | define name bit => exact (h.insert _).map SignalAnswer.word
  | defineActiveLow name bit => exact (h.insert _).map SignalAnswer.word
  | defineField name lsb width => exact (h.defineField name lsb width).map SignalAnswer.word
  | push name width activeLow => exact (h.push name width activeLow).map SignalAnswer.position
  | compose name terms => exact (h.compose name terms).map SignalAnswer.word
  | nameValues field names =>
    have hdone := (h.nameValues field names).map fun _ => SignalAnswer.done
    rw [Signals.respond]
    cases hs : s.nameValues field names <;> rw [hs] at hdone <;> exact hdone

/-- One request. -/
theorem Indexes.perform (h : x.Indexes s) (c : SignalCommand) :
    (x.perform c).2 = (s.perform c).2 ∧ (x.perform c).1.Indexes (s.perform c).1 := by
  have hrequest := h.request c
  rw [IndexedSignals.perform, Signals.perform]
  generalize (IndexedSignals.request c).perform x = p at hrequest
  generalize s.respond c = r at hrequest
  cases hrequest with
  | error e => exact ⟨rfl, h⟩
  | ok answer h' => exact ⟨rfl, h'⟩

theorem perform_eq_next (s : Signals) (c : SignalCommand) : (s.perform c).1 = s.next c := by
  rw [Signals.perform, Signals.next, Signals.run]
  cases s.respond c <;> rfl

/-- A run of requests, from what each of them does. -/
theorem Indexes.after (h : x.Indexes s) (commands : List SignalCommand) :
    (x.after commands).Indexes (s.after commands) := by
  induction commands generalizing x s with
  | nil => exact h
  | cons c rest ih => exact ih (perform_eq_next s c ▸ (h.perform c).2)

end Steps

/-- After any run of requests the signals answer the next one as those with indices do and give the
same bits for names, terms and lists of terms. Every index is that of a line, and a request that
fails leaves the signals with indices as they were. -/
theorem signals_refine_indexed (commands : List SignalCommand) :
    (∀ c, ((Signals.after {} commands).perform c).2 = ((after {} commands).perform c).2) ∧
    (Signals.after {} commands).lines = (after {} commands).lines.toList ∧
    (∀ name, (Signals.after {} commands).line name = (after {} commands).line name) ∧
    (∀ name, (Signals.after {} commands).contains name = (after {} commands).contains name) ∧
    (∀ name, (Signals.after {} commands).resolve name = (after {} commands).resolve name) ∧
    (∀ term, (Signals.after {} commands).resolveTerm term = (after {} commands).resolveTerm term) ∧
    (∀ terms, (Signals.after {} commands).build terms = (after {} commands).build terms) ∧
    (Signals.after {} commands).width = (after {} commands).width ∧
    (Signals.after {} commands).activeLow = (after {} commands).activeLow ∧
    (∀ (name : String) (i : Nat), (after {} commands).lineIndex[name]? = some i →
      i < (after {} commands).lines.size) ∧
    ∀ c e, ((after {} commands).perform c).2 = .error e →
      ((after {} commands).perform c).1 = after {} commands := by
  have h : (after {} commands).Indexes (Signals.after {} commands) := indexes_empty.after commands
  refine ⟨fun c => (h.perform c).1.symm, h.lines.symm, fun name => (h.line_eq name).symm,
    fun name => (h.contains_eq name).symm, fun name => (h.resolve_eq name).symm,
    fun term => (h.resolveTerm_eq term).symm, fun terms => (h.build_eq terms).symm,
    h.width_eq.symm, h.activeLow_eq.symm, ?_, fun c e => clean_request c _ e⟩
  intro name i hi
  obtain ⟨l, hget, -⟩ := (h.index name i).mp hi
  exact (Array.getElem?_eq_some_iff.mp hget).1

end IndexedSignals

end ControlStore
