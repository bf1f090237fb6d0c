import Mathlib.Logic.Relation

/-!
# Runs of guarded step functions

A system has a step function on states, one step for each event, and a guard that says
in which states an event may happen. A run is a list of events whose guards hold one
after the other. The rules below are the only inductions on runs that are needed:
an invariant kept by every guarded step is kept by every run (`Run.invariant`), and a
run may be put after another one (`Run.append`). A list of events is found to be a run by
evaluation where guards can be decided (`Run.of_allows`), also where that takes something
that the state does not say (`Run.of_passes`).

For step relations the same rule is `invariant_of_steps`.
-/

namespace Transition

variable {σ ε : Type}

/-- A step function and the guard of its events. -/
structure System (σ ε : Type) where
  step : σ → ε → σ
  guard : σ → ε → Prop

/-- The events lead from the first state to the last, every guard holding in turn. -/
inductive Run (S : System σ ε) : σ → List ε → σ → Prop
  | nil (s : σ) : Run S s [] s
  | cons {s t : σ} {e : ε} {es : List ε} (hguard : S.guard s e) (hrest : Run S (S.step s e) es t) :
      Run S s (e :: es) t

variable {S : System σ ε}

theorem Run.append {s t u : σ} {es fs : List ε} (h : Run S s es t) (h' : Run S t fs u) :
    Run S s (es ++ fs) u := by
  induction h with
  | nil s => exact h'
  | cons hguard _ ih => exact .cons hguard (ih h')

/-- A run is cut where the first of its events have led. -/
theorem Run.cut {s t : σ} {es fs : List ε} (h : Run S s (es ++ fs) t) :
    Run S s es (es.foldl S.step s) ∧ Run S (es.foldl S.step s) fs t := by
  induction es generalizing s with
  | nil => exact ⟨.nil s, h⟩
  | cons e es ih =>
    cases h with
    | cons hguard hrest => exact ⟨.cons hguard (ih hrest).1, (ih hrest).2⟩

/-- What every guarded step keeps, every run keeps. -/
theorem Run.invariant {I : σ → Prop} (hstep : ∀ s e, I s → S.guard s e → I (S.step s e))
    {s t : σ} {es : List ε} (h : Run S s es t) (hs : I s) : I t := by
  induction h with
  | nil s => exact hs
  | cons hguard _ ih => exact ih (hstep _ _ hs hguard)

/-- A run of a system with a stronger guard is a run of the weaker one. -/
theorem Run.mono {S' : System σ ε} (hstep : S.step = S'.step)
    (hguard : ∀ s e, S.guard s e → S'.guard s e) {s t : σ} {es : List ε} (h : Run S s es t) :
    Run S' s es t := by
  induction h with
  | nil s => exact .nil s
  | cons hg _ ih => exact .cons (hguard _ _ hg) (hstep ▸ ih)

/-! ## Runs that are computed -/

section Computed

variable {κ : Type}

/-- Whether the events pass one after the other. The check may look at something that is
kept up beside the state. -/
def passes (step : σ → ε → σ) (pass : σ → κ → ε → Bool) (next : κ → ε → κ) (s : σ) (k : κ) :
    List ε → Bool
  | [] => true
  | e :: es => pass s k e && passes step pass next (step s e) (next k e) es

/-- What is kept up stands in some relation to the state, and the check is right in view of
it. -/
theorem Run.of_passes {pass : σ → κ → ε → Bool} {next : κ → ε → κ} {I : σ → κ → Prop}
    (hpass : ∀ s k e, I s k → pass s k e = true → S.guard s e)
    (hnext : ∀ s k e, I s k → I (S.step s e) (next k e)) {es : List ε} {s : σ} {k : κ}
    (hs : I s k) (h : passes S.step pass next s k es = true) :
    Run S s es (es.foldl S.step s) := by
  induction es generalizing s k with
  | nil => exact .nil s
  | cons e es ih =>
    obtain ⟨hfirst, hrest⟩ := (Bool.and_eq_true _ _).mp h
    exact .cons (hpass s k e hs hfirst) (ih (hnext s k e hs) hrest)

/-- Whether the guards hold one after the other. -/
def System.allows (S : System σ ε) [∀ s e, Decidable (S.guard s e)] (s : σ) (es : List ε) :
    Bool :=
  passes S.step (fun s () e => decide (S.guard s e)) (fun _ _ => ()) s () es

theorem Run.of_allows [∀ s e, Decidable (S.guard s e)] {es : List ε} {s : σ}
    (h : S.allows s es = true) : Run S s es (es.foldl S.step s) :=
  .of_passes (I := fun _ _ => True) (fun _ _ _ _ => of_decide_eq_true) (fun _ _ _ _ => trivial)
    trivial h

end Computed

/-! ## What a run puts out -/

/-- What the steps of a run put out, one after the other. -/
def outputs {α : Type} (step : σ → ε → σ) (out : σ → ε → List α) (s : σ) : List ε → List α
  | [] => []
  | e :: es => out s e ++ outputs step out (step s e) es

section Outputs

variable {α : Type} {out : σ → ε → List α}

/-- A property of the state and of what has been put out so far. -/
theorem Run.invariant_outputs {I : List α → σ → Prop}
    (hstep : ∀ as s e, I as s → S.guard s e → I (as ++ out s e) (S.step s e)) {s t : σ}
    {es : List ε} (h : Run S s es t) {as : List α} (hs : I as s) :
    I (as ++ outputs S.step out s es) t := by
  induction h generalizing as with
  | nil s =>
    rw [outputs, List.append_nil]
    exact hs
  | cons hguard _ ih =>
    rw [outputs, ← List.append_assoc]
    exact ih (hstep _ _ _ hs hguard)

/-- A run whose steps put out nothing. -/
theorem Run.outputs_eq_nil (hout : ∀ s e, S.guard s e → out s e = []) {s t : σ} {es : List ε}
    (h : Run S s es t) : outputs S.step out s es = [] := by
  induction h with
  | nil s => rfl
  | cons hguard _ ih => rw [outputs, hout _ _ hguard, ih, List.append_nil]

end Outputs

/-- What every step of a relation keeps, every sequence of steps keeps. -/
theorem invariant_of_steps {r : σ → σ → Prop} {I : σ → Prop}
    (hstep : ∀ s t, I s → r s t → I t) {s t : σ} (h : Relation.ReflTransGen r s t)
    (hs : I s) : I t := by
  induction h with
  | refl => exact hs
  | tail _ hlast ih => exact hstep _ _ ih hlast

end Transition
