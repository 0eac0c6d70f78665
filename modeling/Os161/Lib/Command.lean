import Mathlib.Tactic.Common

set_option autoImplicit false

/-!
# Commands

The statements of a C function over an explicit state: assignments, choices that the program does
not make itself (`pick`), sequences, conditionals and loops. `Small` is one step of a command, so
that other threads can run between any two; `Big` is the run of a command to its end. They agree
(`smalls_iff`). `Ensures` says that a command always ends and where, with one rule for each
command.
-/

namespace Os161.Lib.Command

variable {ς : Type}

/-- Commands over the states `ς`. A statement or a condition without a result, such as one that
dereferences `NULL`, has no next step. -/
inductive Cmd (ς : Type) where
  | skip
  | stmt (f : ς → Option ς)
  | pick (r : ς → ς → Prop)
  | seq (c d : Cmd ς)
  | ite (b : ς → Option Bool) (c d : Cmd ς)
  | loop (b : ς → Option Bool) (c : Cmd ς)

/-- Commands one after the other. -/
def Cmd.block : List (Cmd ς) → Cmd ς
  | [] => .skip
  | c :: cs => .seq c (.block cs)

/-- One step. -/
inductive Small : Cmd ς → ς → Cmd ς → ς → Prop where
  | stmt {f : ς → Option ς} {s s' : ς} : f s = some s' → Small (.stmt f) s .skip s'
  | pick {r : ς → ς → Prop} {s s' : ς} : r s s' → Small (.pick r) s .skip s'
  | seqSkip {d : Cmd ς} {s : ς} : Small (.seq .skip d) s d s
  | seqStep {c c' d : Cmd ς} {s s' : ς} : Small c s c' s' → Small (.seq c d) s (.seq c' d) s'
  | iteTrue {b : ς → Option Bool} {c d : Cmd ς} {s : ς} : b s = some true →
      Small (.ite b c d) s c s
  | iteFalse {b : ς → Option Bool} {c d : Cmd ς} {s : ς} : b s = some false →
      Small (.ite b c d) s d s
  | loop {b : ς → Option Bool} {c : Cmd ς} {s : ς} :
      Small (.loop b c) s (.ite b (.seq c (.loop b c)) .skip) s

/-- A run to the end. -/
inductive Big : Cmd ς → ς → ς → Prop where
  | skip {s : ς} : Big .skip s s
  | stmt {f : ς → Option ς} {s s' : ς} : f s = some s' → Big (.stmt f) s s'
  | pick {r : ς → ς → Prop} {s s' : ς} : r s s' → Big (.pick r) s s'
  | seq {c d : Cmd ς} {s s' s'' : ς} : Big c s s' → Big d s' s'' → Big (.seq c d) s s''
  | iteTrue {b : ς → Option Bool} {c d : Cmd ς} {s s' : ς} : b s = some true → Big c s s' →
      Big (.ite b c d) s s'
  | iteFalse {b : ς → Option Bool} {c d : Cmd ς} {s s' : ς} : b s = some false → Big d s s' →
      Big (.ite b c d) s s'
  | loopTrue {b : ς → Option Bool} {c : Cmd ς} {s s' s'' : ς} : b s = some true → Big c s s' →
      Big (.loop b c) s' s'' → Big (.loop b c) s s''
  | loopFalse {b : ς → Option Bool} {c : Cmd ς} {s : ς} : b s = some false →
      Big (.loop b c) s s

/-! ## Inversion of runs -/

@[simp] theorem big_skip (s s' : ς) : Big .skip s s' ↔ s' = s := by
  constructor
  · intro h
    cases h
    rfl
  · rintro rfl
    exact .skip

@[simp] theorem big_stmt (f : ς → Option ς) (s s' : ς) : Big (.stmt f) s s' ↔ f s = some s' := by
  constructor
  · intro h
    cases h with
    | stmt hf => exact hf
  · exact .stmt

@[simp] theorem big_pick (r : ς → ς → Prop) (s s' : ς) : Big (.pick r) s s' ↔ r s s' := by
  constructor
  · intro h
    cases h with
    | pick hr => exact hr
  · exact .pick

@[simp] theorem big_seq (c d : Cmd ς) (s s'' : ς) :
    Big (.seq c d) s s'' ↔ ∃ s', Big c s s' ∧ Big d s' s'' := by
  constructor
  · intro h
    cases h with
    | seq hc hd => exact ⟨_, hc, hd⟩
  · rintro ⟨s', hc, hd⟩
    exact .seq hc hd

@[simp] theorem big_block_nil (s s' : ς) : Big (.block []) s s' ↔ s' = s := big_skip s s'

@[simp] theorem big_block_cons (c : Cmd ς) (cs : List (Cmd ς)) (s s'' : ς) :
    Big (.block (c :: cs)) s s'' ↔ ∃ s', Big c s s' ∧ Big (.block cs) s' s'' :=
  big_seq c (.block cs) s s''

@[simp] theorem big_ite (b : ς → Option Bool) (c d : Cmd ς) (s s' : ς) :
    Big (.ite b c d) s s' ↔
      (b s = some true ∧ Big c s s') ∨ (b s = some false ∧ Big d s s') := by
  constructor
  · intro h
    cases h with
    | iteTrue h hc => exact .inl ⟨h, hc⟩
    | iteFalse h hd => exact .inr ⟨h, hd⟩
  · rintro (⟨h, hc⟩ | ⟨h, hd⟩)
    · exact .iteTrue h hc
    · exact .iteFalse h hd

/-- A loop ends at once, or runs its body and goes on. -/
theorem big_loop (b : ς → Option Bool) (c : Cmd ς) (s s'' : ς) :
    Big (.loop b c) s s'' ↔
      (b s = some true ∧ ∃ s', Big c s s' ∧ Big (.loop b c) s' s'') ∨
        (b s = some false ∧ s'' = s) := by
  constructor
  · intro h
    cases h with
    | loopTrue h hc hl => exact .inl ⟨h, _, hc, hl⟩
    | loopFalse h => exact .inr ⟨h, rfl⟩
  · rintro (⟨h, s', hc, hl⟩ | ⟨h, rfl⟩)
    · exact .loopTrue h hc hl
    · exact .loopFalse h

/-! ## Steps and runs -/

/-- Steps one after the other. -/
inductive Smalls : Cmd ς → ς → Cmd ς → ς → Prop where
  | refl {c : Cmd ς} {s : ς} : Smalls c s c s
  | head {c c' d : Cmd ς} {s s' t : ς} : Small c s c' s' → Smalls c' s' d t → Smalls c s d t

theorem Smalls.single {c d : Cmd ς} {s t : ς} (h : Small c s d t) : Smalls c s d t := .head h .refl

theorem Smalls.trans {c c' d : Cmd ς} {s s' t : ς} (h : Smalls c s c' s') (h' : Smalls c' s' d t) :
    Smalls c s d t := by
  induction h with
  | refl => exact h'
  | head hstep _ ih => exact .head hstep (ih h')

/-- Step lemma. What a command has left to do after a step is what it had to do before. -/
theorem Small.big {c c' : Cmd ς} {s s' s'' : ς} (h : Small c s c' s') (hb : Big c' s' s'') :
    Big c s s'' := by
  induction h generalizing s'' with
  | stmt hf =>
      obtain rfl := (big_skip _ _).1 hb
      exact .stmt hf
  | pick hr =>
      obtain rfl := (big_skip _ _).1 hb
      exact .pick hr
  | seqSkip => exact .seq .skip hb
  | seqStep _ ih =>
      obtain ⟨t, hc, hd⟩ := (big_seq _ _ _ _).1 hb
      exact .seq (ih hc) hd
  | iteTrue h => exact .iteTrue h hb
  | iteFalse h => exact .iteFalse h hb
  | loop =>
      rw [big_ite, big_seq, big_skip] at hb
      exact (big_loop _ _ _ _).2 hb

/-- Run lemma. -/
theorem Smalls.big {c c' : Cmd ς} {s s' s'' : ς} (h : Smalls c s c' s') (hb : Big c' s' s'') :
    Big c s s'' := by
  induction h with
  | refl => exact hb
  | head hstep _ ih => exact hstep.big (ih hb)

/-- The first of two commands runs to its end. -/
theorem Smalls.seq {c d : Cmd ς} {s s' : ς} (h : Smalls c s .skip s') :
    Smalls (.seq c d) s d s' := by
  generalize hskip : Cmd.skip = e at h
  induction h with
  | refl =>
      subst hskip
      exact .single .seqSkip
  | head hstep _ ih => exact .head (.seqStep hstep) (ih hskip)

theorem Big.smalls {c : Cmd ς} {s s' : ς} (h : Big c s s') : Smalls c s .skip s' := by
  induction h with
  | skip => exact .refl
  | stmt hf => exact .single (.stmt hf)
  | pick hr => exact .single (.pick hr)
  | seq _ _ hc hd => exact hc.seq.trans hd
  | iteTrue h _ hc => exact .head (.iteTrue h) hc
  | iteFalse h _ hd => exact .head (.iteFalse h) hd
  | loopTrue h _ _ hc hl => exact .head .loop (.head (.iteTrue h) (hc.seq.trans hl))
  | loopFalse h => exact .head .loop (.single (.iteFalse h))

/-- The steps of a command to its end make up its runs. -/
theorem smalls_iff {c : Cmd ς} {s s' : ς} : Smalls c s .skip s' ↔ Big c s s' :=
  ⟨fun h => h.big .skip, Big.smalls⟩

/-! ## Total correctness -/

/-- The command, started in `s`, can run to its end, and every run of it ends in `Q`. -/
def Ensures (c : Cmd ς) (s : ς) (Q : ς → Prop) : Prop :=
  (∃ s', Big c s s') ∧ ∀ s', Big c s s' → Q s'

section Rules

variable {c d : Cmd ς} {cs : List (Cmd ς)} {s t : ς} {Q R : ς → Prop}

theorem Ensures.mono (h : Ensures c s R) (hQ : ∀ t, R t → Q t) : Ensures c s Q :=
  ⟨h.1, fun t ht => hQ t (h.2 t ht)⟩

theorem Ensures.nil (h : Q s) : Ensures (.block []) s Q :=
  ⟨⟨s, .skip⟩, fun s' hs' => by
    obtain rfl := (big_block_nil s s').1 hs'
    exact h⟩

theorem Ensures.seq (hc : Ensures c s R) (hd : ∀ t, R t → Ensures d t Q) :
    Ensures (.seq c d) s Q := by
  obtain ⟨⟨t, ht⟩, hall⟩ := hc
  obtain ⟨⟨u, hu⟩, -⟩ := hd t (hall t ht)
  refine ⟨⟨u, .seq ht hu⟩, fun s' hs' => ?_⟩
  obtain ⟨t', ht', hrest⟩ := (big_seq _ _ _ _).1 hs'
  exact (hd t' (hall t' ht')).2 s' hrest

/-- The rest of a block, after what its first command ensures. -/
theorem Ensures.cons (hc : Ensures c s fun t => Ensures (.block cs) t Q) :
    Ensures (.block (c :: cs)) s Q :=
  hc.seq fun _ h => h

theorem Ensures.stmt {f : ς → Option ς} (hf : f s = some t) (h : Q t) : Ensures (.stmt f) s Q :=
  ⟨⟨t, .stmt hf⟩, fun s' hs' => by
    obtain rfl : t = s' := Option.some.inj (hf.symm.trans ((big_stmt _ _ _).1 hs'))
    exact h⟩

/-- The block goes on after a statement. -/
theorem Ensures.step {f : ς → Option ς} (hf : f s = some t) (h : Ensures (.block cs) t Q) :
    Ensures (.block (.stmt f :: cs)) s Q :=
  .cons (.stmt hf h)

theorem Ensures.pick {r : ς → ς → Prop} (hex : ∃ t, r s t) (h : ∀ t, r s t → Q t) :
    Ensures (.pick r) s Q := by
  obtain ⟨t, ht⟩ := hex
  exact ⟨⟨t, .pick ht⟩, fun s' hs' => h s' ((big_pick _ _ _).1 hs')⟩

theorem Ensures.skip (h : Q s) : Ensures .skip s Q :=
  ⟨⟨s, .skip⟩, fun s' hs' => by
    obtain rfl := (big_skip s s').1 hs'
    exact h⟩

theorem Ensures.iteTrue {b : ς → Option Bool} (hb : b s = some true) (h : Ensures c s Q) :
    Ensures (.ite b c d) s Q := by
  obtain ⟨⟨t, ht⟩, hall⟩ := h
  refine ⟨⟨t, .iteTrue hb ht⟩, fun s' hs' => ?_⟩
  rcases (big_ite _ _ _ _ _).1 hs' with ⟨-, hc⟩ | ⟨hb', -⟩
  · exact hall s' hc
  · exact absurd (hb.symm.trans hb') (by simp)

theorem Ensures.iteFalse {b : ς → Option Bool} (hb : b s = some false) (h : Ensures d s Q) :
    Ensures (.ite b c d) s Q := by
  obtain ⟨⟨t, ht⟩, hall⟩ := h
  refine ⟨⟨t, .iteFalse hb ht⟩, fun s' hs' => ?_⟩
  rcases (big_ite _ _ _ _ _).1 hs' with ⟨hb', -⟩ | ⟨-, hd⟩
  · exact absurd (hb.symm.trans hb') (by simp)
  · exact hall s' hd

/-- One more turn of a loop. -/
theorem Ensures.turn {b : ς → Option Bool} (hb : b s = some true)
    (h : Ensures c s fun t => Ensures (.loop b c) t Q) : Ensures (.loop b c) s Q := by
  obtain ⟨⟨t, ht⟩, hall⟩ := h
  obtain ⟨u, hu⟩ := (hall t ht).1
  refine ⟨⟨u, .loopTrue hb ht hu⟩, fun s' hs' => ?_⟩
  rcases (big_loop _ _ _ _).1 hs' with ⟨-, t', ht', hl⟩ | ⟨hb', -⟩
  · exact (hall t' ht').2 s' hl
  · exact absurd (hb.symm.trans hb') (by simp)

/-- The end of a loop. -/
theorem Ensures.exit {b : ς → Option Bool} (hb : b s = some false) (h : Q s) :
    Ensures (.loop b c) s Q := by
  refine ⟨⟨s, .loopFalse hb⟩, fun s' hs' => ?_⟩
  rcases (big_loop _ _ _ _).1 hs' with ⟨hb', -⟩ | ⟨-, rfl⟩
  · exact absurd (hb.symm.trans hb') (by simp)
  · exact h

end Rules

end Os161.Lib.Command
