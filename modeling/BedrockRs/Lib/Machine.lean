/-
Runs of a deterministic machine: a step function folded over a list of inputs, conditions that hold
at every step of a run, and the induction rules that turn what one step preserves into what a whole
run preserves. Every safety result of the development goes through these rules.
-/
import Mathlib.Tactic

namespace BedrockRs.Lib.Machine

variable {σ ι : Type} (step : σ → ι → σ)

/-- The state after the inputs `ops`, taken in order. -/
def run (s : σ) (ops : List ι) : σ := ops.foldl step s

/-- `C` holds at every step of the run, of the state the step is taken in and of its input. -/
def Along (C : σ → ι → Prop) : σ → List ι → Prop
  | _, [] => True
  | s, op :: ops => C s op ∧ Along C (step s op) ops

instance instDecidableAlong (C : σ → ι → Prop) [∀ s op, Decidable (C s op)] :
    ∀ (s : σ) (ops : List ι), Decidable (Along step C s ops)
  | _, [] => inferInstanceAs (Decidable True)
  | s, op :: ops =>
    have := instDecidableAlong C (step s op) ops
    inferInstanceAs (Decidable (C s op ∧ Along step C (step s op) ops))

@[simp] theorem run_nil (s : σ) : run step s [] = s := rfl

@[simp] theorem run_cons (s : σ) (op : ι) (ops : List ι) : run step s (op :: ops) = run step (step s op) ops := rfl

theorem run_append (s : σ) (as bs : List ι) : run step s (as ++ bs) = run step (run step s as) bs :=
  List.foldl_append

variable {step}

theorem Along.append {C : σ → ι → Prop} : ∀ {s : σ} {as bs : List ι},
    Along step C s (as ++ bs) ↔ Along step C s as ∧ Along step C (run step s as) bs
  | s, [], bs => by simp [Along]
  | s, op :: as, bs => by
    have ih : Along step C (step s op) (as ++ bs) ↔ _ := Along.append
    simp only [List.cons_append, Along, run_cons, ih, and_assoc]

theorem Along.and {C D : σ → ι → Prop} : ∀ {s : σ} {ops : List ι}, Along step C s ops → Along step D s ops →
    Along step (fun s op => C s op ∧ D s op) s ops
  | _, [], _, _ => trivial
  | _, _ :: _, hc, hd => ⟨⟨hc.1, hd.1⟩, hc.2.and hd.2⟩

/-- What every step that meets `C` preserves, every run whose steps meet `C` preserves. The
invariant may speak of the inputs taken so far. -/
theorem run_inv_history {C : σ → ι → Prop} {P : List ι → σ → Prop}
    (hstep : ∀ done s op, P done s → C s op → P (done ++ [op]) (step s op)) :
    ∀ (ops done : List ι) (s : σ), P done s → Along step C s ops → P (done ++ ops) (run step s ops)
  | [], done, s, h, _ => by simpa using h
  | op :: ops, done, s, h, hc => by
    have := run_inv_history hstep ops (done ++ [op]) (step s op) (hstep done s op h hc.1) hc.2
    simpa using this

theorem run_inv {C : σ → ι → Prop} {P : σ → Prop} (hstep : ∀ s op, P s → C s op → P (step s op))
    (ops : List ι) {s : σ} (h : P s) (hc : Along step C s ops) : P (run step s ops) :=
  run_inv_history (P := fun _ => P) (fun _ => hstep) ops [] s h hc

theorem along_true (s : σ) (ops : List ι) : Along step (fun _ _ => True) s ops := by
  induction ops generalizing s with
  | nil => trivial
  | cons op ops ih => exact ⟨trivial, ih _⟩

/-- An invariant of every step holds after every run. -/
theorem run_inv_all {P : σ → Prop} (hstep : ∀ s op, P s → P (step s op)) (ops : List ι) {s : σ} (h : P s) :
    P (run step s ops) :=
  run_inv (C := fun _ _ => True) (fun s op hp _ => hstep s op hp) ops h (along_true s ops)

/-- A property that a step preserves exactly under `C` holds in every state of a run exactly when every step of the run
meets `C`. -/
theorem inv_iff_along {C : σ → ι → Prop} {I : σ → Prop} (hstep : ∀ s op, I s → (I (step s op) ↔ C s op)) :
    ∀ {s : σ} {ops : List ι}, I s → ((∀ done, done <+: ops → I (run step s done)) ↔ Along step C s ops) := by
  intro s ops h
  constructor
  · intro hall
    induction ops generalizing s with
    | nil => trivial
    | cons op ops ih =>
      have hnext : I (step s op) := hall [op] ⟨ops, rfl⟩
      refine ⟨(hstep s op h).1 hnext, ih hnext fun done hdone => ?_⟩
      exact hall (op :: done) (List.cons_prefix_cons.2 ⟨rfl, hdone⟩)
  · rintro halong done ⟨rest, rfl⟩
    exact run_inv (fun s op hs hc => (hstep s op hs).2 hc) done h (Along.append.1 halong).1

/-! ## Measures -/

section Monotone

variable {ρ : Type} [Preorder ρ] {f : σ → ρ} {C : σ → ι → Prop}

theorem Along.le_run (hC : ∀ s op, C s op → f s ≤ f (step s op)) : ∀ {s : σ} {ops : List ι}, Along step C s ops →
    f s ≤ f (run step s ops)
  | _, [], _ => le_refl _
  | s, op :: _, h => le_trans (hC s op h.1) (h.2.le_run hC)

/-- A measure never falls within a run exactly when it falls at none of its steps. -/
theorem monotone_iff_along (hC : ∀ s op, f s ≤ f (step s op) ↔ C s op) : ∀ {s : σ} {ops : List ι},
    (∀ as bs, as ++ bs <+: ops → f (run step s as) ≤ f (run step s (as ++ bs))) ↔ Along step C s ops := by
  intro s ops
  constructor
  · intro h
    induction ops generalizing s with
    | nil => trivial
    | cons op ops ih =>
      refine ⟨(hC s op).1 (h [] [op] ⟨ops, rfl⟩), ih fun as bs hp => ?_⟩
      exact h (op :: as) bs (List.cons_prefix_cons.2 ⟨rfl, hp⟩)
  · rintro h as bs ⟨rest, rfl⟩
    rw [run_append]
    exact (Along.append.1 (Along.append.1 h).1).2.le_run fun s op => (hC s op).2

end Monotone

/-! ## What a run puts out -/

section Outputs

variable {α : Type} {out : σ → ι → List α} {C : σ → ι → Prop}

/-- What the steps of a run put out, in order. -/
def outputs (step : σ → ι → σ) (out : σ → ι → List α) : σ → List ι → List α
  | _, [] => []
  | s, op :: ops => out s op ++ outputs step out (step s op) ops

/-- An invariant that may speak of what was put out so far. -/
theorem run_inv_outputs {P : List α → σ → Prop}
    (hstep : ∀ past s op, P past s → C s op → P (past ++ out s op) (step s op)) :
    ∀ (ops : List ι) (past : List α) {s : σ}, P past s → Along step C s ops →
      P (past ++ outputs step out s ops) (run step s ops)
  | [], past, s, h, _ => by
    rw [outputs, List.append_nil]
    exact h
  | op :: ops, past, s, h, hc => by
    rw [outputs, ← List.append_assoc]
    exact run_inv_outputs hstep ops (past ++ out s op) (hstep past s op h hc.1) hc.2

/-- A condition on the inputs alone. -/
theorem along_of_forall {D : ι → Prop} :
    ∀ {ops : List ι}, (∀ op ∈ ops, D op) → ∀ s : σ, Along step (fun _ op => D op) s ops
  | [], _, _ => trivial
  | op :: _, h, s =>
    ⟨h op (List.mem_cons_self ..), along_of_forall (fun op' hop' => h op' (List.mem_cons_of_mem _ hop')) (step s op)⟩

end Outputs

/-! ## Steps that may end the run

A step that returns `none` ends the run: every later state is `none` too. An invariant is kept by the
steps that return, and then holds of the state of every run that is still going. -/

section Partial

variable {next : σ → ι → Option σ} {C : σ → ι → Prop}

/-- The step of a machine that may stop. -/
def advance (next : σ → ι → Option σ) (o : Option σ) (op : ι) : Option σ := o.bind fun s => next s op

@[simp] theorem advance_some (s : σ) (op : ι) : advance next (some s) op = next s op := rfl

theorem run_advance_none (ops : List ι) : run (advance next) none ops = none := by
  induction ops with
  | nil => rfl
  | cons op ops ih => exact ih

/-- A run that is still going was going after its first step. -/
theorem run_advance_cons {s s' : σ} {op : ι} {ops : List ι} (h : run (advance next) (some s) (op :: ops) = some s') :
    ∃ mid, next s op = some mid ∧ run (advance next) (some mid) ops = some s' := by
  rw [run_cons, advance_some] at h
  cases hn : next s op with
  | none => rw [hn, run_advance_none] at h; cases h
  | some mid => exact ⟨mid, rfl, by rwa [hn] at h⟩

/-- What every returning step preserves holds along a run. The invariant may speak of the inputs taken so
far. -/
theorem run_advance_inv_history {P : List ι → σ → Prop}
    (hstep : ∀ done s op s', P done s → next s op = some s' → P (done ++ [op]) s') :
    ∀ (ops done : List ι) {s s' : σ}, P done s → run (advance next) (some s) ops = some s' → P (done ++ ops) s'
  | [], done, s, s', h, hr => by
    cases hr
    simpa using h
  | op :: ops, done, s, s', h, hr => by
    obtain ⟨mid, hn, hr⟩ := run_advance_cons hr
    have := run_advance_inv_history hstep ops (done ++ [op]) (hstep done s op mid h hn) hr
    simpa using this

end Partial

/-! ## What holds since an input

The history of a run is its list of inputs. What a state remembers of it is often the last input of some
kind, as long as nothing undid it since. -/

section Since

variable {P Q : ι → Prop}

/-- Some input met `P`, and all inputs after it meet `Q`. -/
def Since (P Q : ι → Prop) (ops : List ι) : Prop :=
  ∃ before op behind, ops = before ++ op :: behind ∧ P op ∧ ∀ op' ∈ behind, Q op'

theorem not_since_nil : ¬ Since P Q [] := by
  rintro ⟨before, op, behind, heq, -, -⟩
  exact absurd heq.symm (by simp)

theorem since_concat {ops : List ι} {op : ι} : Since P Q (ops ++ [op]) ↔ P op ∨ Since P Q ops ∧ Q op := by
  constructor
  · rintro ⟨before, op', behind, heq, hp, hq⟩
    rcases behind.eq_nil_or_concat with rfl | ⟨init, last, rfl⟩
    · obtain ⟨-, hlast⟩ := List.append_inj' heq rfl
      cases hlast
      exact .inl hp
    · -- the input at the end came after the one that met `P`
      rw [List.concat_eq_append] at heq hq
      rw [← List.cons_append, ← List.append_assoc] at heq
      obtain ⟨rfl, hlast⟩ := List.append_inj' heq rfl
      cases hlast
      exact .inr ⟨⟨before, op', init, rfl, hp, fun o ho => hq o (List.mem_append_left _ ho)⟩,
        hq op (List.mem_append_right _ (List.mem_singleton_self _))⟩
  · rintro (hp | ⟨⟨before, op', behind, rfl, hp, hq⟩, hop⟩)
    · exact ⟨ops, op, [], rfl, hp, by simp⟩
    · refine ⟨before, op', behind ++ [op], by rw [List.append_assoc, List.cons_append], hp, fun o ho => ?_⟩
      rcases List.mem_append.1 ho with ho | ho
      · exact hq o ho
      · rwa [List.mem_singleton.1 ho]

end Since

/-! ## Runs that simulate a step

A machine built on top of another makes several steps of it in one of its own. `Reach` is the
relation of such a step: some run whose inputs all meet `P`. -/

/-- `s'` is reached from `s` by inputs that all meet `P`. -/
def Reach (step : σ → ι → σ) (P : ι → Prop) (s s' : σ) : Prop := ∃ ops, (∀ op ∈ ops, P op) ∧ run step s ops = s'

theorem Reach.refl {P : ι → Prop} (s : σ) : Reach step P s s := ⟨[], by simp, rfl⟩

theorem Reach.single {P : ι → Prop} {op : ι} (h : P op) (s : σ) : Reach step P s (step s op) := ⟨[op], by simpa, rfl⟩

theorem Reach.trans {P : ι → Prop} {s s' s'' : σ} (h : Reach step P s s') (h' : Reach step P s' s'') :
    Reach step P s s'' := by
  obtain ⟨as, ha, rfl⟩ := h
  obtain ⟨bs, hb, rfl⟩ := h'
  refine ⟨as ++ bs, fun op hop => ?_, run_append step s as bs⟩
  exact (List.mem_append.1 hop).elim (ha op) (hb op)

/-- What every input that meets `P` preserves, the reached state has. -/
theorem Reach.inv {P : ι → Prop} {I : σ → Prop} {s s' : σ} (h : Reach step P s s')
    (hstep : ∀ s op, P op → I s → I (step s op)) (hs : I s) : I s' := by
  obtain ⟨ops, hops, rfl⟩ := h
  induction ops generalizing s with
  | nil => exact hs
  | cons op ops ih =>
    exact ih (hstep s op (hops op (List.mem_cons_self ..)) hs) fun o ho => hops o (List.mem_cons_of_mem _ ho)

end BedrockRs.Lib.Machine
