import Mathlib.Logic.Relation

/-!
# Labelled steps and forward simulation

A system is a relation on states whose steps carry a label, or none when nobody outside
can see them. `Run` collects the labels of the steps it takes.

A forward simulation matches every step of the concrete system by a run of the abstract
one with the same label (`Simulates`). What the concrete system shows in a run, the
abstract system then shows in a run too (`Simulates.run`).

Where steps can be computed, a list of moves is replayed to get a run (`Run.of_replay`).
-/

namespace Simulation

variable {σ τ α : Type}

/-- A step relation with labels; a step without one is silent. -/
abbrev Steps (σ α : Type) := σ → Option α → σ → Prop

/-- The steps lead from the first state to the last, and these labels are seen. -/
inductive Run (step : Steps σ α) : σ → List α → σ → Prop
  | nil (s : σ) : Run step s [] s
  | cons {s t u : σ} {l : Option α} {as : List α} (hstep : step s l t)
      (hrest : Run step t as u) : Run step s (l.toList ++ as) u

section Runs

variable {step : Steps σ α}

theorem Run.single {s t : σ} {l : Option α} (h : step s l t) : Run step s l.toList t := by
  have hrun := Run.cons h (.nil t)
  rwa [List.append_nil] at hrun

theorem Run.append {s t u : σ} {as bs : List α} (h : Run step s as t) (h' : Run step t bs u) :
    Run step s (as ++ bs) u := by
  induction h with
  | nil s => exact h'
  | cons hstep _ ih =>
    rw [List.append_assoc]
    exact .cons hstep (ih h')

/-- What every step keeps, every run keeps. -/
theorem Run.invariant {I : σ → Prop} (hstep : ∀ s l t, I s → step s l t → I t) {s t : σ}
    {as : List α} (h : Run step s as t) (hs : I s) : I t := by
  induction h with
  | nil s => exact hs
  | cons h _ ih => exact ih (hstep _ _ _ hs h)

/-- A property of the state and of the labels seen so far. -/
theorem Run.invariant_labels {I : List α → σ → Prop}
    (hstep : ∀ as s l t, I as s → step s l t → I (as ++ l.toList) t) {s t : σ} {as bs : List α}
    (h : Run step s bs t) (hs : I as s) : I (as ++ bs) t := by
  induction h generalizing as with
  | nil s =>
    rw [List.append_nil]
    exact hs
  | cons h _ ih =>
    rw [← List.append_assoc]
    exact ih (hstep _ _ _ _ hs h)

/-- A run can be cut where its labels are. -/
theorem Run.split {s t : σ} {as bs : List α} (h : Run step s (as ++ bs) t) :
    ∃ m, Run step s as m ∧ Run step m bs t := by
  generalize hcs : as ++ bs = cs at h
  induction h generalizing as with
  | nil s =>
    obtain ⟨rfl, rfl⟩ := List.append_eq_nil_iff.mp hcs
    exact ⟨s, .nil s, .nil s⟩
  | @cons s m t l cs hstep hrest ih =>
    cases l with
    | none =>
      obtain ⟨m', hfirst, hlast⟩ := ih hcs
      exact ⟨m', .cons hstep hfirst, hlast⟩
    | some a =>
      cases as with
      | nil =>
        subst hcs
        exact ⟨s, .nil s, .cons hstep hrest⟩
      | cons b as =>
        obtain ⟨hb, htail⟩ := List.cons_eq_cons.mp hcs
        obtain ⟨m', hfirst, hlast⟩ := ih htail
        subst hb
        exact ⟨m', .cons hstep hfirst, hlast⟩

/-- A label of a run belongs to one of its steps. -/
theorem Run.split_cons {s t : σ} {a : α} {as : List α} (h : Run step s (a :: as) t) :
    ∃ m m', Run step s [] m ∧ step m (some a) m' ∧ Run step m' as t := by
  generalize hcs : a :: as = cs at h
  induction h with
  | nil s => cases hcs
  | @cons s m t l cs hstep hrest ih =>
    cases l with
    | none =>
      obtain ⟨n, n', hfirst, hmid, hlast⟩ := ih hcs
      exact ⟨n, n', .cons hstep hfirst, hmid, hlast⟩
    | some b =>
      obtain ⟨rfl, rfl⟩ := List.cons_eq_cons.mp hcs
      exact ⟨s, m, .nil s, hstep, hrest⟩

end Runs

/-! ## Runs that are computed -/

section Computed

variable {μ : Type} {step : Steps τ α} {next : σ → μ → Option (Option α × σ)}

/-- The steps that a function takes for a list of moves, and what is seen of them. -/
def replay (next : σ → μ → Option (Option α × σ)) (s : σ) : List μ → Option (List α × σ)
  | [] => some ([], s)
  | m :: ms =>
    (next s m).bind fun (l, t) => (replay next t ms).map fun (as, u) => (l.toList ++ as, u)

/-- The replay may go through richer states, of which something is known. -/
theorem Run.of_replay {f : σ → τ} {I : σ → Prop}
    (hnext : ∀ s m l t, I s → next s m = some (l, t) → step (f s) l (f t) ∧ I t) {ms : List μ}
    {s t : σ} {as : List α} (hs : I s) (h : replay next s ms = some (as, t)) :
    Run step (f s) as (f t) := by
  induction ms generalizing s as with
  | nil =>
    cases h
    exact .nil _
  | cons m ms ih =>
    obtain ⟨⟨l, t'⟩, hfirst, hrest⟩ := Option.bind_eq_some_iff.mp h
    obtain ⟨⟨bs, u⟩, hreplay, hlabels⟩ := Option.map_eq_some_iff.mp hrest
    cases hlabels
    obtain ⟨hstep, ht'⟩ := hnext s m l t' hs hfirst
    exact .cons hstep (ih ht' hreplay)

end Computed

/-- Every step of the first system is matched by a run of the second with its label. -/
def Simulates (C : Steps σ α) (A : Steps τ α) (R : σ → τ → Prop) : Prop :=
  ∀ ⦃s l s' t⦄, R s t → C s l s' → ∃ t', Run A t l.toList t' ∧ R s' t'

section Forward

variable {C : Steps σ α} {A : Steps τ α} {R : σ → τ → Prop}

theorem Simulates.run (h : Simulates C A R) {s s' : σ} {t : τ} {as : List α}
    (hrun : Run C s as s') (hst : R s t) : ∃ t', Run A t as t' ∧ R s' t' := by
  induction hrun generalizing t with
  | nil s => exact ⟨t, .nil t, hst⟩
  | cons hstep _ ih =>
    obtain ⟨t₁, hfirst, hmid⟩ := h hst hstep
    obtain ⟨t₂, hrest, hlast⟩ := ih hmid
    exact ⟨t₂, hfirst.append hrest, hlast⟩

/-- A silent step that the second system does not notice. -/
theorem matched_by_nothing {s' : σ} {t : τ} (h : R s' t) :
    ∃ t', Run A t (none : Option α).toList t' ∧ R s' t' :=
  ⟨t, .nil t, h⟩

theorem matched_by_step {s' : σ} {t t' : τ} {l : Option α} (hstep : A t l t') (h : R s' t') :
    ∃ t', Run A t l.toList t' ∧ R s' t' :=
  ⟨t', .single hstep, h⟩

end Forward

end Simulation
