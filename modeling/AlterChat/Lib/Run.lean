/-!
# Runs of a labelled step relation

A system is given by its start states and a labelled step relation. `Reach` are the states a run
reaches; `Reach.inv` is the rule every safety proof here uses: what holds at the start and is kept
by each step holds in every state reached. `Guarded` keeps the steps that meet a condition on the
state before the step and the label; a run of the guarded relation is a run whose steps all meet
the condition.

Where a step is a function, a run is a list of labels, and `Along` says a condition of each step of
it.
-/

namespace Lib

variable {σ ε : Type}

/-- The states reached from `start` by steps of `step`. -/
inductive Reach (start : σ → Prop) (step : σ → ε → σ → Prop) : σ → Prop where
  | start (s : σ) (h : start s) : Reach start step s
  | step (s : σ) (e : ε) (s' : σ) (h : Reach start step s) (hs : step s e s') :
      Reach start step s'

variable {start : σ → Prop} {step : σ → ε → σ → Prop}

/-- **The invariant rule**: an invariant of the start states that every step keeps. -/
theorem Reach.inv {I : σ → Prop} (h0 : ∀ s, start s → I s)
    (hs : ∀ s e s', I s → step s e s' → I s') {s : σ} (h : Reach start step s) : I s := by
  induction h with
  | start s h => exact h0 s h
  | step s e s' _ hst ih => exact hs s e s' ih hst

/-- The steps whose state and label meet a condition. -/
def Guarded (cond : σ → ε → Prop) (step : σ → ε → σ → Prop) : σ → ε → σ → Prop :=
  fun s e s' => cond s e ∧ step s e s'

/-- More start states and more steps reach at least as much. -/
theorem Reach.mono {start' : σ → Prop} {step' : σ → ε → σ → Prop} (h0 : ∀ s, start s → start' s)
    (hle : ∀ s e s', step s e s' → step' s e s') {s : σ} (h : Reach start step s) :
    Reach start' step' s := by
  induction h with
  | start s h => exact .start s (h0 s h)
  | step s e s' _ hst ih => exact .step s e s' ih (hle s e s' hst)

/-- A condition on the state before each step of a run and on its label. -/
def Along (f : σ → ε → σ) (cond : σ → ε → Prop) : σ → List ε → Prop
  | _, [] => True
  | s, e :: rest => cond s e ∧ Along f cond (f s e) rest

section

variable {f : σ → ε → σ} {cond cond' : σ → ε → Prop}

theorem Along.congr (h : ∀ s e, cond s e ↔ cond' s e) (s : σ) (es : List ε) :
    Along f cond s es ↔ Along f cond' s es := by
  induction es generalizing s with
  | nil => exact Iff.rfl
  | cons e rest ih => exact and_congr (h s e) (ih (f s e))

/-- The same where the conditions agree in the states of an invariant, which steps that meet them
    keep. -/
theorem Along.congr_inv {I : σ → Prop} (h : ∀ s e, I s → (cond s e ↔ cond' s e))
    (hs : ∀ s e, I s → cond s e → I (f s e)) {s : σ} (h0 : I s) (es : List ε) :
    Along f cond s es ↔ Along f cond' s es := by
  induction es generalizing s with
  | nil => exact Iff.rfl
  | cons e rest ih =>
    constructor
    · rintro ⟨he, hrest⟩
      exact ⟨(h s e h0).mp he, (ih (hs s e h0 he)).mp hrest⟩
    · rintro ⟨he, hrest⟩
      have hcond := (h s e h0).mpr he
      exact ⟨hcond, (ih (hs s e h0 hcond)).mpr hrest⟩

theorem Along.append {s : σ} {es es' : List ε} :
    Along f cond s (es ++ es') ↔ Along f cond s es ∧ Along f cond (es.foldl f s) es' := by
  induction es generalizing s with
  | nil => exact (iff_of_eq (true_and _)).symm
  | cons e rest ih => exact (and_congr_right fun _ => ih).trans and_assoc.symm

/-- What each step keeps is kept by the run. -/
theorem Along.inv {I : σ → Prop} {es : List ε} {s : σ} (h : Along f cond s es) (h0 : I s)
    (hs : ∀ s, ∀ e ∈ es, cond s e → I s → I (f s e)) : I (es.foldl f s) := by
  induction es generalizing s with
  | nil => exact h0
  | cons e rest ih =>
    refine ih h.2 (hs s e List.mem_cons_self h.1 h0) fun s e he => ?_
    exact hs s e (List.mem_cons_of_mem _ he)

end

end Lib
