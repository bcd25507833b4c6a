import ControlStore.Proofs.Signals
import ControlStore.Source.Compile

/-! What a compilation keeps from statement to statement: the signals are sound, the table of a
target has the counts of its layout, and every word that has been built, for a sequence, for the pad
or for a table, has its bits in lines. -/

namespace ControlStore.Source

/-- Flags, layout and table belong together, and the words of the table come from the signals. -/
structure Suited (signals : Signals) (flags : Flags) (l : Layout) (t : Table) : Prop where
  flags : flags.bits = l.width .flags
  slices : t.slices = l.count .flags
  opcodes : t.opcodes = l.count .opcode
  steps : t.config.steps = l.count .step
  words : t.Holds signals.Covers
  pad : signals.Covers t.config.pad

structure Draft.Sound (signals : Signals) (d : Draft) : Prop where
  pad : signals.Covers d.pad
  settings : ∀ l, d.stage = .settings (some l) → d.flags.bits = l.width .flags
  sealed : ∀ l t, d.stage = .sealed l t → Suited signals d.flags l t

structure State.Sound (s : State) : Prop where
  signals : s.signals.Sound
  sequences : ∀ p ∈ s.sequences, ∀ w ∈ p.2, s.signals.Covers w
  draft : s.draft.Sound s.signals

theorem ofEngine_eq_ok {α : Type} {x : Except Error α} {a : α} (h : ofEngine x = .ok a) :
    x = .ok a := by
  cases x with
  | error e => cases h
  | ok b => exact congrArg Except.ok (Except.ok.inj h)

section draft

variable {signals signals' : Signals} {d d' : Draft}

theorem Suited.mono {flags : Flags} {l : Layout} {t : Table} (h : Suited signals flags l t)
    (hlines : signals.lines ⊆ signals'.lines) : Suited signals' flags l t :=
  ⟨h.flags, h.slices, h.opcodes, h.steps, h.words.mono fun _ hw => hw.mono hlines,
    h.pad.mono hlines⟩

theorem Suited.run {flags : Flags} {l : Layout} {t t' : Table} {c : TableCommand}
    (h : Suited signals flags l t) (hwords : ∀ w ∈ c.words, signals.Covers w)
    (hrun : t.run c = .ok t') : Suited signals flags l t' := by
  obtain ⟨hconfig, hslices, hopcodes⟩ := Table.counts_run hrun
  refine ⟨h.flags, hslices.trans h.slices, hopcodes.trans h.opcodes, ?_,
    h.words.run h.pad hwords hrun, ?_⟩
  · rw [hconfig]
    exact h.steps
  · rw [hconfig]
    exact h.pad

theorem Draft.Sound.mono (h : d.Sound signals) (hlines : signals.lines ⊆ signals'.lines) :
    d.Sound signals' :=
  ⟨h.pad.mono hlines, h.settings, fun l t hstage => (h.sealed l t hstage).mono hlines⟩

theorem Draft.sound_fresh (signals : Signals) (name : String) (named : Bool) :
    Draft.Sound signals { name, named } := by
  refine ⟨signals.covers_zero, ?_, ?_⟩
  · intro l hstage
    cases hstage
  · intro l t hstage
    cases hstage

theorem Draft.Sound.with_table {l : Layout} {t : Table} (h : d.Sound signals)
    (ht : Suited signals d.flags l t) : Draft.Sound signals { d with stage := .sealed l t } := by
  refine ⟨h.pad, ?_, ?_⟩
  · intro l' hstage
    cases hstage
  · intro l' t' hstage
    cases hstage
    exact ht

/-- Sealing makes a table that suits the layout, or finds the one that is there. -/
theorem Draft.Sound.suited {l : Layout} {t : Table} {events : List Event} (h : d.Sound signals)
    (hsealed : d.sealed = .ok (l, t, events)) : Suited signals d.flags l t := by
  unfold Draft.sealed at hsealed
  split at hsealed
  · rename_i l' t' hstage
    cases hsealed
    exact h.sealed l t hstage
  · cases hsealed
  · rename_i l' hstage
    obtain ⟨t', hnew, heq⟩ := bind_eq_ok.mp hsealed
    cases heq
    have ht := ofEngine_eq_ok hnew
    obtain ⟨hconfig, hslices, hopcodes⟩ := Table.counts_new ht
    refine ⟨h.settings l hstage, hslices, hopcodes, ?_, Table.holds_new ht h.pad, ?_⟩
    · rw [hconfig]
    · rw [hconfig]
      exact h.pad

theorem define_bits {flags flags' : Flags} {name : String} {bit : Nat}
    (h : flags.define name bit = .ok flags') : flags'.bits = flags.bits ∧ bit < flags.bits := by
  unfold Flags.define at h
  split at h
  · cases h
  · rename_i hlt
    split at h
    · cases h
    · cases h
      exact ⟨rfl, Nat.not_le.mp hlt⟩

theorem defineFlags_bits {flags flags' : Flags} {terms : List (Except Fault (String × Nat))}
    (h : Draft.defineFlags flags terms = .ok flags') : flags'.bits = flags.bits := by
  refine foldlM_invariant (fun f : Flags => f.bits = flags.bits) ?_ terms rfl h
  intro f term f' hf hstep
  obtain ⟨p, -, hdefine⟩ := bind_eq_ok.mp hstep
  exact (define_bits (ofEngine_eq_ok hdefine)).1.trans hf

/-- A setting keeps the name of a draft and leaves it open, and nothing but the lanes setting sets
the lanes. -/
theorem Draft.set_frame {layout : Option Layout} {setting : Setting}
    (hstage : d.stage = .settings layout) (hset : d.set layout signals setting = .ok d') :
    d'.name = d.name ∧ d'.named = d.named ∧ d'.stage.isSealed = d.stage.isSealed ∧
      ((∀ n, setting ≠ .lanes n) → d'.lanes = d.lanes) := by
  have hopen : d.stage.isSealed = false := by
    rw [hstage]
    rfl
  cases setting with
  | layout l =>
    cases hset
    exact ⟨rfl, rfl, hopen.symm, fun _ => rfl⟩
  | flags terms =>
    cases layout with
    | none => cases hset
    | some l =>
      obtain ⟨flags, -, heq⟩ := bind_eq_ok.mp hset
      cases heq
      exact ⟨rfl, rfl, rfl, fun _ => rfl⟩
  | pad terms =>
    obtain ⟨pad, -, heq⟩ := bind_eq_ok.mp hset
    cases heq
    exact ⟨rfl, rfl, rfl, fun _ => rfl⟩
  | lanes n =>
    cases hset
    exact ⟨rfl, rfl, rfl, fun hno => absurd rfl (hno n)⟩
  | _ =>
    cases hset
    exact ⟨rfl, rfl, rfl, fun _ => rfl⟩

theorem Draft.Sound.set {layout : Option Layout} {setting : Setting} (h : d.Sound signals)
    (hcovers : ∀ p ∈ signals.composites, signals.Covers p.2)
    (hstage : d.stage = .settings layout) (hset : d.set layout signals setting = .ok d') :
    d'.Sound signals := by
  cases setting with
  | layout l =>
    cases hset
    refine ⟨h.pad, ?_, ?_⟩
    · intro l' heq
      cases heq
      rfl
    · intro l' t heq
      cases heq
  | flags terms =>
    cases layout with
    | none => cases hset
    | some l =>
      obtain ⟨flags, hflags, heq⟩ := bind_eq_ok.mp hset
      cases heq
      refine ⟨h.pad, ?_, ?_⟩
      · intro l' heq
        exact (defineFlags_bits hflags).trans (h.settings l' heq)
      · intro l' t heq
        have hno := hstage.symm.trans heq
        cases hno
  | pad terms =>
    obtain ⟨pad, hpad, heq⟩ := bind_eq_ok.mp hset
    cases heq
    have hnew : signals.Covers pad := Signals.build_covers hcovers (ofEngine_eq_ok hpad)
    exact ⟨hnew, h.settings, h.sealed⟩
  | _ =>
    cases hset
    exact ⟨h.pad, h.settings, h.sealed⟩

end draft

section words

variable {s s' : State}

theorem State.Sound.stepWords {step : Step} {ws : List Word} (hs : s.Sound)
    (h : s.stepWords step = .ok ws) : ∀ w ∈ ws, s.signals.Covers w := by
  cases step with
  | terms terms =>
    obtain ⟨w, hw, heq⟩ := bind_eq_ok.mp h
    cases heq
    exact List.forall_mem_singleton.mpr
      (Signals.build_covers hs.signals.covers (ofEngine_eq_ok hw))
  | splice name =>
    rw [State.stepWords] at h
    cases hlookup : s.sequences.lookup name with
    | none =>
      rw [hlookup] at h
      cases h
    | some words =>
      rw [hlookup] at h
      cases h
      obtain ⟨before, rest, heq, -⟩ := List.lookup_eq_some_iff.mp hlookup
      exact hs.sequences (name, ws) (heq ▸ List.mem_append_right before List.mem_cons_self)
  | partialSplice text => cases h
  | fill =>
    cases h
    exact List.forall_mem_nil _

theorem State.Sound.addStep {fillAllowed : Bool} {acc acc' : List Word × Option (List Word)}
    {step : Step} (hs : s.Sound) (hacc : ∀ w ∈ acc.1 ++ acc.2.getD [], s.signals.Covers w)
    (h : s.addStep fillAllowed acc step = .ok acc') :
    ∀ w ∈ acc'.1 ++ acc'.2.getD [], s.signals.Covers w := by
  unfold State.addStep at h
  by_cases hfill : step = .fill
  · rw [if_pos hfill] at h
    cases fillAllowed with
    | false => cases h
    | true =>
      cases hafter : acc.2 with
      | some after =>
        rw [hafter] at h
        cases h
      | none =>
        rw [hafter] at h hacc
        cases h
        exact hacc
  · rw [if_neg hfill] at h
    obtain ⟨ws, hws, h⟩ := bind_eq_ok.mp h
    have hnew := hs.stepWords hws
    cases hafter : acc.2 with
    | none =>
      rw [hafter] at h hacc
      cases h
      rw [Option.getD_none, List.append_nil] at hacc ⊢
      exact List.forall_mem_append.mpr ⟨hacc, hnew⟩
    | some after =>
      rw [hafter] at h hacc
      cases h
      rw [Option.getD_some, ← List.append_assoc]
      exact List.forall_mem_append.mpr ⟨hacc, hnew⟩

theorem State.Sound.splitWords {fillAllowed : Bool} {steps : List Step}
    {acc : List Word × Option (List Word)} (hs : s.Sound)
    (h : s.splitWords fillAllowed steps = .ok acc) :
    ∀ w ∈ acc.1 ++ acc.2.getD [], s.signals.Covers w :=
  foldlM_invariant (fun acc => ∀ w ∈ acc.1 ++ acc.2.getD [], s.signals.Covers w)
    (fun _ _ _ hacc hstep => hs.addStep hacc hstep) steps (List.forall_mem_nil _) h

theorem State.Sound.words {config : TableConfig} {steps : List Step} {ws : List Word}
    (hs : s.Sound) (hpad : s.signals.Covers config.pad) (h : s.words config steps = .ok ws) :
    ∀ w ∈ ws, s.signals.Covers w := by
  obtain ⟨⟨before, after⟩, hsplit, h⟩ := bind_eq_ok.mp h
  obtain ⟨hbefore, hafter⟩ := List.forall_mem_append.mp (hs.splitWords hsplit)
  cases after with
  | none =>
    cases h
    exact hbefore
  | some after =>
    cases h
    have hgap (n : Nat) : ∀ w ∈ List.replicate n config.pad, s.signals.Covers w := by
      intro w hw
      exact List.eq_of_mem_replicate hw ▸ hpad
    exact List.forall_mem_append.mpr ⟨List.forall_mem_append.mpr ⟨hbefore, hgap _⟩, hafter⟩

theorem State.Sound.command {config : TableConfig} {statement : TableStatement} {c : TableCommand}
    (hs : s.Sound) (hpad : s.signals.Covers config.pad)
    (h : s.command config statement = .ok c) : ∀ w ∈ c.words, s.signals.Covers w := by
  cases statement with
  | template condition steps =>
    cases condition with
    | none =>
      obtain ⟨ws, hws, heq⟩ := bind_eq_ok.mp h
      cases heq
      exact hs.words hpad hws
    | some text =>
      obtain ⟨condition, -, h⟩ := bind_eq_ok.mp h
      obtain ⟨ws, hws, heq⟩ := bind_eq_ok.mp h
      cases heq
      exact hs.words hpad hws
  | reserve text steps =>
    obtain ⟨condition, -, h⟩ := bind_eq_ok.mp h
    obtain ⟨ws, hws, heq⟩ := bind_eq_ok.mp h
    cases heq
    exact hs.words hpad hws
  | seek opcode =>
    cases h
    exact List.forall_mem_nil _
  | define steps =>
    obtain ⟨ws, hws, heq⟩ := bind_eq_ok.mp h
    cases heq
    exact hs.words hpad hws
  | defineWhen text steps fallback =>
    cases fallback with
    | none =>
      obtain ⟨condition, -, h⟩ := bind_eq_ok.mp h
      obtain ⟨ws, hws, heq⟩ := bind_eq_ok.mp h
      cases heq
      exact List.forall_mem_append.mpr ⟨hs.words hpad hws, List.forall_mem_nil _⟩
    | some fallback =>
      obtain ⟨condition, -, h⟩ := bind_eq_ok.mp h
      obtain ⟨ws, hws, h⟩ := bind_eq_ok.mp h
      obtain ⟨others, hothers, heq⟩ := bind_eq_ok.mp h
      cases heq
      exact List.forall_mem_append.mpr ⟨hs.words hpad hws, hs.words hpad hothers⟩

end words

section statement

variable {s : State}

/-- The request that a declaration stands for. -/
def Declaration.command (d : Declaration) : SignalCommand :=
  match d.bit with
  | none => .push d.name d.width d.activeLow
  | some bit =>
    if 1 < d.width then .defineField d.name bit d.width
    else if d.activeLow then .defineActiveLow d.name bit
    else .define d.name bit

theorem declare_eq (signals : Signals) (d : Declaration) :
    State.declare signals d = signals.run d.command := by
  unfold State.declare Declaration.command
  cases d.bit with
  | none => exact (map_snd_map _ _).symm
  | some bit =>
    dsimp only
    split
    · exact (map_snd_map _ _).symm
    · split <;> exact (map_snd_map _ _).symm

theorem State.Sound.with_signals {signals : Signals} {c : SignalCommand} (hs : s.Sound)
    (h : s.signals.run c = .ok signals) : State.Sound { s with signals } := by
  have hlines : s.signals.lines ⊆ signals.lines := by
    rw [Signals.lines_run h]
    exact List.subset_append_left _ _
  refine ⟨hs.signals.run h, ?_, hs.draft.mono hlines⟩
  intro p hp w hw
  exact (hs.sequences p hp w hw).mono hlines

theorem State.Sound.with_sequence {name : String} {steps : List Step}
    {acc : List Word × Option (List Word)} (hs : s.Sound)
    (h : s.splitWords false steps = .ok acc) :
    State.Sound { s with sequences := s.sequences ++ [(name, acc.1)] } := by
  have hwords := (List.forall_mem_append.mp (hs.splitWords h)).1
  have hnew : ∀ p ∈ [(name, acc.1)], ∀ w ∈ p.2, s.signals.Covers w :=
    List.forall_mem_singleton.mpr hwords
  exact ⟨hs.signals, List.forall_mem_append.mpr ⟨hs.sequences, hnew⟩, hs.draft⟩

theorem State.Sound.with_draft {draft : Draft} (hs : s.Sound) (h : draft.Sound s.signals) :
    State.Sound { s with draft } :=
  ⟨hs.signals, hs.sequences, h⟩

theorem State.Sound.run_command {l : Layout} {t t' : Table} {statement : TableStatement}
    {c : TableCommand} {events : List Event} (hs : s.Sound)
    (hsealed : s.draft.sealed = .ok (l, t, events)) (hc : s.command t.config statement = .ok c)
    (hrun : t.run c = .ok t') :
    State.Sound { s with draft := { s.draft with stage := .sealed l t' } } := by
  have hsuited := hs.draft.suited hsealed
  exact hs.with_draft (hs.draft.with_table (hsuited.run (hs.command hsuited.pad hc) hrun))

end statement

end ControlStore.Source
