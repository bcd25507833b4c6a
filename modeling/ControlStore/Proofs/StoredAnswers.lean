import ControlStore.Proofs.StoredTable
import Mathlib.Order.Basic

/-! What a table with indices answers. As long as every index leads to the sequence that was
written, which it does since none is ever moved, requests and reads come out as for the plain table,
and so as for the table with rows. -/

namespace ControlStore

namespace StoredTable

open Procedure

/-- The index leads to the sequence, or there is neither of them. -/
def Refers (arena : Array (List Word)) : Option Nat → Option (List Word) → Prop :=
  Option.Rel fun index sequence => arena[index]? = some sequence

section Refers

variable {arena : Array (List Word)} {index : Option Nat} {sequence : Option (List Word)}

theorem Refers.eq_none_iff (h : Refers arena index sequence) : index = none ↔ sequence = none := by
  cases h with
  | none => exact iff_of_true rfl rfl
  | some h => exact iff_of_false nofun nofun

/-- Sequences stay where they are when others are added. -/
theorem Refers.push (h : Refers arena index sequence) (more : List Word) :
    Refers (arena.push more) index sequence := by
  cases h with
  | none => exact .none
  | @some i x h =>
    obtain ⟨hi, -⟩ := Array.getElem?_eq_some_iff.mp h
    refine .some ?_
    rw [Array.getElem?_push_lt hi, ← Array.getElem?_eq_getElem hi, h]

theorem refers_last (arena : Array (List Word)) (sequence : List Word) :
    Refers (arena.push sequence) (some arena.size) (some sequence) :=
  .some Array.getElem?_push_size

theorem Refers.getD (h : Refers arena index sequence) {other : Nat} {otherwise : List Word}
    (hother : arena[other]? = some otherwise) :
    arena[index.getD other]? = some (sequence.getD otherwise) := by
  cases h with
  | none => exact hother
  | some h => exact h

end Refers

/-- A stored table has the contents of the plain one. -/
structure Stores (s : StoredTable) (d : DenseTable) : Prop where
  slices : s.slices = d.slices
  opcodes : s.opcodes = d.opcodes
  config : s.config = d.config
  templates : s.templates.size = d.slices
  template : ∀ slice < d.slices, Refers s.arena s.templates[slice]? (some (d.template slice))
  reservations : s.reserved.size = d.slices
  reserved : ∀ slice < d.slices, Refers s.arena s.reserved[slice]?.join (d.reserved slice)
  cell : ∀ slice < d.slices, ∀ opcode,
    Refers s.arena s.overrides[(slice, opcode)]? (d.cell slice opcode)
  /-- Nothing is written for slices that there are not. -/
  within : ∀ key ∈ s.overrides, key.1 < d.slices
  named : ∀ opcode, s.defined.contains opcode = true ↔ opcode ∈ d.named
  cursor : s.cursor = d.cursor

theorem stores_new (slices opcodes : Nat) (config : TableConfig) (hsteps : 0 < config.steps) :
    ∃ s, new slices opcodes config = .ok s ∧ s.Stores (.new slices opcodes config) := by
  refine ⟨_, if_neg (Nat.ne_of_gt hsteps), rfl, rfl, rfl, ?_, ?_, ?_, ?_, ?_, ?_, ?_, rfl⟩
  · exact Array.size_replicate
  · intro slice h
    have hs : slice < slices := h
    rw [Array.getElem?_replicate, if_pos hs]
    exact .some rfl
  · exact Array.size_replicate
  · intro slice h
    have hs : slice < slices := h
    rw [Array.getElem?_replicate, if_pos hs]
    exact .none
  · intro slice h opcode
    rw [Std.HashMap.getElem?_empty]
    exact .none
  · intro key hkey
    simp at hkey
  · intro opcode
    simp [DenseTable.new]

section Step

variable {s : StoredTable} {d : DenseTable}

theorem Stores.fit (h : s.Stores d) (steps : List Word) : s.fit steps = d.fitted steps := by
  have hmin : d.config.steps - min d.config.steps steps.length =
      min (d.config.steps - steps.length) d.config.steps := by omega
  rw [DenseTable.fitted, List.take_append, List.take_replicate, ← hmin, ← List.length_take,
    ← h.config]
  rfl

theorem Stores.stored (h : s.Stores d) (steps : List Word) :
    (s.stored steps).Stores d ∧
      Refers (s.stored steps).arena (some s.arena.size) (some (d.fitted steps)) := by
  refine ⟨⟨h.slices, h.opcodes, h.config, h.templates, ?_, h.reservations, ?_, ?_, h.within,
    h.named, h.cursor⟩, ?_⟩
  · intro slice hs
    exact (h.template slice hs).push _
  · intro slice hs
    exact (h.reserved slice hs).push _
  · intro slice hs opcode
    exact (h.cell slice hs opcode).push _
  · rw [← h.fit steps]
    exact refers_last s.arena (s.fit steps)

/-- A loop over slices leaves one new index at each of them. -/
theorem getElem?_foldl_setIfInBounds {α : Type} (slices : List Nat) (x : α) (indices : Array α)
    (slice : Nat) :
    (slices.foldl (fun indices slice => indices.setIfInBounds slice x) indices)[slice]? =
      if slice ∈ slices ∧ slice < indices.size then some x else indices[slice]? := by
  induction slices generalizing indices with
  | nil => simp
  | cons first rest ih =>
    rw [List.foldl_cons, ih, Array.size_setIfInBounds, Array.getElem?_setIfInBounds]
    by_cases hfirst : first = slice
    · subst hfirst
      by_cases hsize : first < indices.size <;> simp [hsize]
    · simp [hfirst, Ne.symm hfirst]

theorem size_foldl_setIfInBounds {α : Type} (slices : List Nat) (x : α) (indices : Array α) :
    (slices.foldl (fun indices slice => indices.setIfInBounds slice x) indices).size =
      indices.size := by
  induction slices generalizing indices with
  | nil => rfl
  | cons first rest ih => rw [List.foldl_cons, ih, Array.size_setIfInBounds]

theorem Stores.getElem?_foldl_matching {α : Type} (h : s.Stores d) (condition : Option Condition)
    (x : α) {indices : Array α} (hsize : indices.size = d.slices) {slice : Nat}
    (hs : slice < d.slices) :
    ((s.matching condition).foldl (fun indices slice => indices.setIfInBounds slice x)
        indices)[slice]? =
      if condition.all (fun c => c.holds slice) = true then some x else indices[slice]? := by
  rw [getElem?_foldl_setIfInBounds]
  refine if_congr ?_ rfl rfl
  rw [matching, List.mem_filter, List.mem_range, h.slices, hsize, and_iff_right hs,
    and_iff_left hs]

theorem Stores.mem_writable (h : s.Stores d) {slice : Nat} (hs : slice < d.slices) :
    slice ∈ s.writable ↔ d.reserved slice = none := by
  rw [writable, List.mem_filter, List.mem_range, h.slices, Option.isNone_iff_eq_none,
    (h.reserved slice hs).eq_none_iff]
  exact and_iff_right hs

/-- What a loop does to the overrides of an opcode, if it does the same to each key by itself. -/
theorem getElem?_foldl_change (opcode : Nat) {slices : List Nat} (hnodup : slices.Nodup)
    {change : Std.HashMap (Nat × Nat) Nat → Nat × Nat → Std.HashMap (Nat × Nat) Nat}
    {next : Nat → Option Nat → Option Nat}
    (hchange : ∀ overrides key other, (change overrides key)[other]? =
      if other = key then next key.1 overrides[key]? else overrides[other]?)
    (overrides : Std.HashMap (Nat × Nat) Nat) (key : Nat × Nat) :
    (slices.foldl (fun overrides slice => change overrides (slice, opcode)) overrides)[key]? =
      if key.1 ∈ slices ∧ key.2 = opcode then next key.1 overrides[key]? else overrides[key]? := by
  induction slices generalizing overrides with
  | nil => simp
  | cons first rest ih =>
    obtain ⟨hfirst, hrest⟩ := List.nodup_cons.mp hnodup
    have hstep := hchange overrides (first, opcode) key
    rw [List.foldl_cons, ih hrest, hstep]
    by_cases hkey : key = (first, opcode)
    · subst hkey
      simp [hfirst]
    · have hother : key.2 = opcode → key.1 ≠ first := fun ho hs => hkey (Prod.ext hs ho)
      rw [if_neg hkey]
      refine if_congr (and_congr_left fun ho => ?_) rfl rfl
      rw [List.mem_cons]
      exact (or_iff_right (hother ho)).symm

theorem Stores.overwritten (h : s.Stores d) (opcode : Nat)
    {change : Std.HashMap (Nat × Nat) Nat → Nat × Nat → Std.HashMap (Nat × Nat) Nat}
    (next : Nat → Option Nat → Option Nat)
    (hchange : ∀ overrides key other, (change overrides key)[other]? =
      if other = key then next key.1 overrides[key]? else overrides[other]?)
    {contents : Nat → Option (List Word) → Option (List Word)}
    (hcontents : ∀ slice index sequence, Refers s.arena index sequence →
      Refers s.arena (next slice index) (contents slice sequence)) :
    (s.overwritten opcode change).Stores (d.write opcode contents) := by
  have hget (key : Nat × Nat) : (s.overwritten opcode change).overrides[key]? =
      if key.1 ∈ s.writable ∧ key.2 = opcode then next key.1 s.overrides[key]?
      else s.overrides[key]? :=
    getElem?_foldl_change opcode (List.nodup_range.filter _) hchange s.overrides key
  refine ⟨h.slices, h.opcodes, h.config, h.templates, h.template, h.reservations, h.reserved, ?_,
    ?_, ?_, h.cursor⟩
  · intro slice hs o
    have hcond : slice ∈ s.writable ∧ o = opcode ↔ o = opcode ∧ d.reserved slice = none := by
      rw [h.mem_writable hs, and_comm]
    rw [hget (slice, o)]
    dsimp only [DenseTable.write]
    by_cases hw : o = opcode ∧ d.reserved slice = none
    · rw [if_pos (hcond.mpr hw), if_pos hw]
      exact hcontents slice _ _ (h.cell slice hs o)
    · rw [if_neg (hcond.not.mpr hw), if_neg hw]
      exact h.cell slice hs o
  · intro key hkey
    by_cases hw : key.1 ∈ s.writable
    · have hlt := List.mem_range.mp (List.mem_filter.mp hw).1
      rw [h.slices] at hlt
      exact hlt
    · rw [Std.HashMap.mem_iff_isSome_getElem?, hget key, if_neg (fun hboth => hw hboth.1)] at hkey
      exact h.within key (Std.HashMap.mem_iff_isSome_getElem?.mpr hkey)
  · intro o
    show (s.defined.insert opcode).contains o = true ↔ o ∈ opcode :: d.named
    rw [Std.HashSet.contains_insert, Bool.or_eq_true, beq_iff_eq, h.named o, List.mem_cons, eq_comm]

/-- What a conditional definition makes of the index at the override of one slice. -/
def nextWhen (condition : Condition) (matched : Nat) (other : Option Nat) (policy : Fallback)
    (slice : Nat) (index : Option Nat) : Option Nat :=
  if condition.holds slice then some matched
  else match other, policy with
    | some i, _ => some i
    | none, .reset => none
    | none, .preserve => index

theorem getElem?_changeWhen (condition : Condition) (matched : Nat) (other : Option Nat)
    (policy : Fallback) (overrides : Std.HashMap (Nat × Nat) Nat) (key key' : Nat × Nat) :
    (changeWhen condition matched other policy overrides key)[key']? =
      if key' = key then nextWhen condition matched other policy key.1 overrides[key]?
      else overrides[key']? := by
  have hinsert (i : Nat) : (overrides.insert key i)[key']? =
      if key' = key then some i else overrides[key']? := by
    rw [Std.HashMap.getElem?_insert]
    exact if_congr (by rw [beq_iff_eq, eq_comm]) rfl rfl
  have herase : (overrides.erase key)[key']? = if key' = key then none else overrides[key']? := by
    rw [Std.HashMap.getElem?_erase]
    exact if_congr (by rw [beq_iff_eq, eq_comm]) rfl rfl
  unfold changeWhen nextWhen
  split
  · exact hinsert matched
  · cases other with
    | some i => exact hinsert i
    | none =>
      cases policy with
      | reset => exact herase
      | preserve =>
        by_cases hkey : key' = key
        · rw [if_pos hkey, hkey]
        · rw [if_neg hkey]

theorem Stores.storedAll (h : s.Stores d) (steps : List Word) (fallback : Option (List Word)) :
    (s.storedAll steps fallback).Stores d ∧
      Refers (s.storedAll steps fallback).arena (some s.arena.size) (some (d.fitted steps)) ∧
      ∀ other, fallback = some other → Refers (s.storedAll steps fallback).arena
        (some (s.stored steps).arena.size) (some (d.fitted other)) := by
  obtain ⟨hstored, hlast⟩ := h.stored steps
  cases fallback with
  | none => exact ⟨hstored, hlast, nofun⟩
  | some other =>
    obtain ⟨hboth, hother⟩ := hstored.stored other
    refine ⟨hboth, hlast.push _, ?_⟩
    rintro _ ⟨⟩
    exact hother

theorem Stores.template_getD (h : s.Stores d) {slice : Nat} (hs : slice < d.slices) :
    s.arena[s.templates.getD slice 0]? = some (d.template slice) := by
  have htemplate := h.template slice hs
  rw [Array.getD_eq_getD_getElem?]
  cases hi : s.templates[slice]? with
  | none =>
    rw [hi] at htemplate
    cases htemplate
  | some i =>
    rw [hi] at htemplate
    cases htemplate with
    | some h => exact h

theorem Stores.setTemplate (h : s.Stores d) (condition : Option Condition) (steps : List Word) :
    ({ s.stored steps with
        templates := (s.matching condition).foldl
          (fun templates slice => templates.setIfInBounds slice s.arena.size) s.templates } :
      StoredTable).Stores
    { d with
      template := fun slice =>
        if condition.all (fun c => c.holds slice) then d.fitted steps else d.template slice } := by
  obtain ⟨hstored, hlast⟩ := h.stored steps
  refine ⟨h.slices, h.opcodes, h.config, ?_, ?_, h.reservations, hstored.reserved, hstored.cell,
    h.within, h.named, h.cursor⟩
  · rw [size_foldl_setIfInBounds]
    exact h.templates
  · intro slice hs
    dsimp only
    rw [h.getElem?_foldl_matching condition s.arena.size h.templates hs]
    by_cases hc : condition.all (fun c => c.holds slice) = true
    · rw [if_pos hc, if_pos hc]
      exact hlast
    · rw [if_neg hc, if_neg hc]
      exact hstored.template slice hs

theorem Stores.reserve (h : s.Stores d) (condition : Condition) (steps : List Word) :
    ({ s.stored steps with
        reserved := (s.matching (some condition)).foldl
          (fun reserved slice => reserved.setIfInBounds slice (some s.arena.size)) s.reserved } :
      StoredTable).Stores
    { d with
      reserved := fun slice =>
        if condition.holds slice then some (d.fitted steps) else d.reserved slice } := by
  obtain ⟨hstored, hlast⟩ := h.stored steps
  refine ⟨h.slices, h.opcodes, h.config, h.templates, hstored.template, ?_, ?_, hstored.cell,
    h.within, h.named, h.cursor⟩
  · rw [size_foldl_setIfInBounds]
    exact h.reservations
  · intro slice hs
    dsimp only
    rw [h.getElem?_foldl_matching (some condition) (some s.arena.size) h.reservations hs,
      Option.all_some]
    by_cases hc : condition.holds slice = true
    · rw [if_pos hc, if_pos hc]
      exact hlast
    · rw [if_neg hc, if_neg hc]
      exact hstored.reserved slice hs

/-- The error is the same, or the request succeeds and the tables it leaves agree. -/
inductive Agree (s : StoredTable) : EStateM.Result Error StoredTable Unit →
    Except Error DenseTable → Prop
  | error (e : Error) : Agree s (.error e s) (.error e)
  | ok {s' : StoredTable} {d : DenseTable} (h : s'.Stores d) : Agree s (.ok () s') (.ok d)

theorem Stores.define (h : s.Stores d) (opcode : Nat) (steps : List Word) :
    Agree s ((define opcode steps).run s) (d.define opcode steps) := by
  rw [run_define, DenseTable.define]
  simp only [h.opcodes, h.named, h.config]
  split
  · exact .error _
  split
  · exact .error _
  obtain ⟨hstored, hlast⟩ := h.stored steps
  refine .ok (hstored.overwritten opcode (fun _ _ => some s.arena.size) ?_ ?_)
  · intro overrides key other
    rw [Std.HashMap.getElem?_insert]
    exact if_congr (by rw [beq_iff_eq, eq_comm]) rfl rfl
  · intro slice index sequence _
    exact hlast

theorem Stores.defineWhen (h : s.Stores d) (condition : Condition) (opcode : Nat)
    (steps : List Word) (fallback : Option (List Word)) :
    Agree s ((StoredTable.defineWhen condition opcode steps fallback).run s)
      (d.defineWhen condition opcode steps fallback) := by
  rw [run_defineWhen, DenseTable.defineWhen]
  simp only [h.opcodes, h.config]
  split
  · exact .error _
  obtain ⟨hstored, hmatched, hother⟩ := h.storedAll steps fallback
  refine .ok (hstored.overwritten opcode _ (getElem?_changeWhen condition _ _ _) ?_)
  intro slice index sequence hindex
  by_cases hc : condition.holds slice
  · simp only [nextWhen, hc, if_true]
    exact hmatched
  · simp only [nextWhen, hc]
    cases fallback with
    | some other => exact hother other rfl
    | none =>
      cases d.config.fallback with
      | preserve => exact hindex
      | reset => exact .none

theorem Stores.seek (h : s.Stores d) (opcode : Nat) :
    Agree s ((StoredTable.seek opcode).run s) (d.seek opcode) := by
  rw [run_seek, DenseTable.seek]
  simp only [h.opcodes]
  split
  · exact .error _
  · exact .ok ⟨h.slices, rfl, h.config, h.templates, h.template, h.reservations, h.reserved, h.cell,
      h.within, h.named, rfl⟩

theorem Agree.answered {x : Procedure StoredTable Unit} {r : Except Error DenseTable}
    (h : s.Stores d) (hr : Agree s (x.run s) r) (answer : Option Nat) :
    ((x >>= fun _ => pure answer).perform s).2 = (d.answering r answer).2 ∧
      ((x >>= fun _ => pure answer).perform s).1.Stores (d.answering r answer).1 := by
  generalize hrun : x.run s = result at hr
  cases hr with
  | error e =>
    rw [perform_bind_of_error _ hrun]
    exact ⟨rfl, h⟩
  | ok h' =>
    rw [perform_bind_of_ok _ hrun]
    exact ⟨rfl, h'⟩

theorem Agree.answeredNext (definition : Nat → Procedure StoredTable Unit)
    {r : Except Error DenseTable} (h : s.Stores d)
    (hr : Agree s ((definition d.cursor).run s) r) :
    ((defineNext definition >>= fun opcode => pure (some opcode)).perform s).2 =
        (d.answering (r.map DenseTable.advance) (some d.cursor)).2 ∧
      ((defineNext definition >>= fun opcode => pure (some opcode)).perform s).1.Stores
        (d.answering (r.map DenseTable.advance) (some d.cursor)).1 := by
  let finish : Unit → Procedure StoredTable Nat := fun _ => do
    modify fun s => { s with cursor := s.cursor + 1 }
    return s.cursor
  rw [← h.cursor] at hr
  generalize hrun : (definition s.cursor).run s = result at hr
  cases hr with
  | error e =>
    have hnext : (defineNext definition).run s = .error e s := run_bind_of_error finish hrun
    rw [perform_bind_of_error _ hnext]
    exact ⟨rfl, h⟩
  | @ok s' d' h' =>
    have hnext : (defineNext definition).run s =
        .ok s.cursor { s' with cursor := s'.cursor + 1 } := run_bind_of_ok finish hrun
    rw [perform_bind_of_ok _ hnext]
    exact ⟨congrArg (fun opcode => Except.ok (some opcode)) h.cursor, h'.slices, h'.opcodes,
      h'.config, h'.templates, h'.template, h'.reservations, h'.reserved, h'.cell, h'.within,
      h'.named, congrArg (· + 1) h'.cursor⟩

/-- One request. -/
theorem Stores.perform (h : s.Stores d) (c : TableCommand) :
    (s.perform c).2 = (d.perform c).2 ∧ (s.perform c).1.Stores (d.perform c).1 := by
  cases c with
  | template condition steps =>
    rw [StoredTable.perform, request, perform_bind_of_ok _ (run_setTemplate s condition steps)]
    exact ⟨rfl, h.setTemplate condition steps⟩
  | reserve condition steps =>
    rw [StoredTable.perform, request, perform_bind_of_ok _ (run_reserve s condition steps)]
    exact ⟨rfl, h.reserve condition steps⟩
  | define opcode steps => exact (h.define opcode steps).answered h none
  | defineWhen condition opcode steps fallback =>
    exact (h.defineWhen condition opcode steps fallback).answered h none
  | seek opcode => exact (h.seek opcode).answered h none
  | defineNext steps =>
    exact Agree.answeredNext (fun opcode => StoredTable.define opcode steps) h
      (h.define d.cursor steps)
  | defineNextWhen condition steps fallback =>
    exact Agree.answeredNext
      (fun opcode => StoredTable.defineWhen condition opcode steps fallback) h
      (h.defineWhen condition d.cursor steps fallback)

/-- What an instruction reads, through the index of the reservation, the cell or the template. -/
theorem Stores.read (h : s.Stores d) {slice : Nat} (hs : slice < d.slices) (opcode : Nat) :
    s.arena[s.reserved[slice]?.join.getD
        (s.overrides[(slice, opcode)]?.getD (s.templates.getD slice 0))]? =
      some ((d.reserved slice).getD ((d.cell slice opcode).getD (d.template slice))) :=
  (h.reserved slice hs).getD ((h.cell slice hs opcode).getD (h.template_getD hs))

theorem Stores.sequence (h : s.Stores d) (slice opcode : Nat) :
    s.sequence slice opcode = d.sequence slice opcode := by
  rw [StoredTable.sequence, index, DenseTable.sequence, h.slices, h.opcodes]
  by_cases hs : d.slices ≤ slice
  · rw [if_pos hs, if_pos hs]
    rfl
  by_cases ho : d.opcodes ≤ opcode
  · rw [if_neg hs, if_neg hs, if_pos ho, if_pos ho]
    rfl
  rw [if_neg hs, if_neg hs, if_neg ho, if_neg ho]
  show Except.ok (s.arena.getD _ []) = _
  rw [Array.getD_eq_getD_getElem?, h.read (Nat.not_le.mp hs) opcode, Option.getD_some]

/-- No index is beyond the sequences. -/
theorem Stores.lt_of_index (h : s.Stores d) {slice opcode i : Nat}
    (hi : s.index slice opcode = .ok i) : i < s.arena.size := by
  rw [index, h.slices] at hi
  split at hi
  · cases hi
  split at hi
  · cases hi
  rename_i hs _
  cases hi
  exact (Array.getElem?_eq_some_iff.mp (h.read (Nat.not_le.mp hs) opcode)).1

theorem Stores.word (h : s.Stores d) (slice opcode step : Nat) :
    s.word slice opcode step = d.word slice opcode step := by
  rw [StoredTable.word, DenseTable.word, h.sequence, h.config]

theorem mem_referred_iff (s : StoredTable) {i : Nat} :
    i ∈ s.referred ↔ (∃ slice : Nat, s.templates[slice]? = some i) ∨
      (∃ slice : Nat, s.reserved[slice]?.join = some i) ∨
        ∃ key : Nat × Nat, s.overrides[key]? = some i := by
  have hreserved : i ∈ s.reserved.toList.filterMap id ↔
      ∃ slice : Nat, s.reserved[slice]?.join = some i := by
    simp [Option.join_eq_some_iff, Array.mem_iff_getElem?]
  have hcell : i ∈ s.overrides.toList.map Prod.snd ↔
      ∃ key : Nat × Nat, s.overrides[key]? = some i := by
    simp [Std.HashMap.mem_toList_iff_getElem?_eq_some]
  rw [referred, List.mem_append, List.mem_append, Array.mem_toList_iff, Array.mem_iff_getElem?,
    hreserved, hcell, or_assoc]

/-- Everything that is referred to is a template, a reservation or a cell. -/
theorem Stores.maxWordWidth_le_iff (h : s.Stores d) (b : Nat) :
    s.maxWordWidth ≤ b ↔ d.Within b := by
  have hall : s.maxWordWidth ≤ b ↔
      ∀ i ∈ s.referred, ∀ w ∈ s.arena.getD i [], w.bitWidth ≤ b := by
    have hmax (w : Nat) (x : Word) : max w x.bitWidth ≤ b ↔ w ≤ b ∧ x.bitWidth ≤ b := Nat.max_le
    rw [StoredTable.maxWordWidth, Table.foldl_le_iff hmax]
    simp only [Nat.zero_le, true_and, List.mem_flatMap]
    exact ⟨fun h i hi w hw => h w ⟨i, hi, hw⟩, fun h w ⟨i, hi, hw⟩ => h i hi w hw⟩
  rw [hall]
  constructor
  · intro hwidth slice hs
    have hrefers {index : Option Nat} {sequence : List Word} (hindex : ∀ i ∈ index, i ∈ s.referred)
        (h : Refers s.arena index (some sequence)) : ∀ w ∈ sequence, w.bitWidth ≤ b := by
      cases h with
      | @some i _ h =>
        intro w hw
        refine hwidth i (hindex i rfl) w ?_
        rw [Array.getD_eq_getD_getElem?, h]
        exact hw
    refine ⟨?_, ?_, ?_⟩
    · refine hrefers (fun i hi => ?_) (h.template slice hs)
      exact s.mem_referred_iff.mpr (.inl ⟨slice, hi⟩)
    · intro x hx
      refine hrefers (fun i hi => ?_) (hx ▸ h.reserved slice hs)
      exact s.mem_referred_iff.mpr (.inr (.inl ⟨slice, hi⟩))
    · intro opcode x hx
      refine hrefers (fun i hi => ?_) (hx ▸ h.cell slice hs opcode)
      exact s.mem_referred_iff.mpr (.inr (.inr ⟨(slice, opcode), hi⟩))
  · intro hwithin i hi w hw
    have hfits {sequence : Option (List Word)} (h : Refers s.arena (some i) sequence)
        (hsequence : ∀ x, sequence = some x → ∀ w ∈ x, w.bitWidth ≤ b) : w.bitWidth ≤ b := by
      cases h with
      | @some _ x h =>
        rw [Array.getD_eq_getD_getElem?, h] at hw
        exact hsequence x rfl w hw
    rcases s.mem_referred_iff.mp hi with ⟨slice, htemplate⟩ | ⟨slice, hreserved⟩ | ⟨key, hcell⟩
    · have hs : slice < d.slices := by
        rw [← h.templates]
        exact (Array.getElem?_eq_some_iff.mp htemplate).1
      refine hfits (htemplate ▸ h.template slice hs) ?_
      rintro _ ⟨⟩
      exact (hwithin slice hs).1
    · have hs : slice < d.slices := by
        rw [← h.reservations]
        exact (Array.getElem?_eq_some_iff.mp (Option.join_eq_some_iff.mp hreserved)).1
      exact hfits (hreserved ▸ h.reserved slice hs) (hwithin slice hs).2.1
    · have hs := h.within key (Std.HashMap.mem_iff_isSome_getElem?.mpr (hcell ▸ rfl))
      exact hfits (hcell ▸ h.cell key.1 hs key.2) ((hwithin key.1 hs).2.2 key.2)

end Step

/-- A table answers every run of requests as the one with indices does, moves its cursor with it,
reads the same sequences and words after it, and has words of the same width. No index leads beyond
the sequences, and a request that fails leaves the table with indices as it was. -/
theorem table_refines_stored (slices opcodes : Nat) (config : TableConfig)
    (hsteps : 0 < config.steps) :
    ∃ t s, Table.new slices opcodes config = .ok t ∧ new slices opcodes config = .ok s ∧
      ∀ commands : List TableCommand,
        transcript Table.perform Table.cursor t commands = transcript perform cursor s commands ∧
        (∀ slice opcode,
          ((after Table.perform t commands).sequence slice opcode).map Vector.toList =
            (after perform s commands).sequence slice opcode) ∧
        (∀ slice opcode step,
          (after Table.perform t commands).word slice opcode step =
            (after perform s commands).word slice opcode step) ∧
        (after Table.perform t commands).maxWordWidth = (after perform s commands).maxWordWidth ∧
        (∀ slice opcode i, (after perform s commands).index slice opcode = .ok i →
          i < (after perform s commands).arena.size) ∧
        ∀ command e, ((after perform s commands).perform command).2 = .error e →
          ((after perform s commands).perform command).1 = after perform s commands := by
  obtain ⟨t, ht, hshows⟩ := DenseTable.shows_new slices opcodes config hsteps
  obtain ⟨s, hs, hstores⟩ := stores_new slices opcodes config hsteps
  refine ⟨t, s, ht, hs, fun commands => ?_⟩
  obtain ⟨hanswers, hlast⟩ := hshows.run commands
  obtain ⟨hanswers', hlast'⟩ :=
    run_of_perform (fun _ _ c h => h.perform c) (fun _ _ h => h.cursor) hstores commands
  refine ⟨hanswers.trans hanswers'.symm, ?_, ?_, ?_, fun _ _ _ => hlast'.lt_of_index, ?_⟩
  · intro slice opcode
    rw [hlast.sequence, hlast'.sequence]
  · intro slice opcode step
    rw [hlast.word, hlast'.word]
  · exact eq_of_forall_ge_iff fun b => by
      rw [hlast.maxWordWidth_le_iff, hlast'.maxWordWidth_le_iff]
  · intro command e
    exact clean_request command _ e

end StoredTable

end ControlStore
