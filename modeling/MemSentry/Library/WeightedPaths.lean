import Mathlib.Algebra.BigOperators.Group.List.Basic
import Mathlib.Data.List.Infix

/-!
# Weighted paths

A list of paths with weights. `below p` is what lies below `p`: the paths that go through
`p`, each without it. The weight below `p` splits into the weight that ends at `p` and the
weights below its extensions by one more label (`weight_eq_ending_add`).
-/

namespace WeightedPaths

variable {κ M : Type}

section Weights

variable [AddCommMonoid M]

/-! ## Weights -/

def weight (es : List (List κ × M)) : M := (es.map Prod.snd).sum

/-- The weight of the paths that end here. -/
def ending (es : List (List κ × M)) : M := ((es.filter fun e => e.1.isEmpty).map Prod.snd).sum

@[simp] theorem weight_nil : weight ([] : List (List κ × M)) = 0 := rfl

@[simp] theorem weight_cons (e : List κ × M) (es : List (List κ × M)) :
    weight (e :: es) = e.2 + weight es := List.sum_cons

@[simp] theorem weight_append (es fs : List (List κ × M)) :
    weight (es ++ fs) = weight es + weight fs := by
  unfold weight
  rw [List.map_append, List.sum_append]

@[simp] theorem ending_nil : ending ([] : List (List κ × M)) = 0 := rfl

@[simp] theorem ending_ended (w : M) (es : List (List κ × M)) :
    ending (([], w) :: es) = w + ending es := List.sum_cons

@[simp] theorem ending_through (k : κ) (path : List κ) (w : M) (es : List (List κ × M)) :
    ending ((k :: path, w) :: es) = ending es := rfl

@[simp] theorem ending_append (es fs : List (List κ × M)) :
    ending (es ++ fs) = ending es + ending fs := by
  unfold ending
  rw [List.filter_append, List.map_append, List.sum_append]

end Weights

/-! ## What lies below -/

variable [DecidableEq κ]

/-- The paths that start with the label, without it. -/
def step (k : κ) : List (List κ × M) → List (List κ × M)
  | [] => []
  | ([], _) :: es => step k es
  | (k' :: path, w) :: es => if k' = k then (path, w) :: step k es else step k es

/-- The paths that go through `p`, without it. -/
def below : List κ → List (List κ × M) → List (List κ × M)
  | [], es => es
  | k :: p, es => below p (step k es)

@[simp] theorem below_nil (es : List (List κ × M)) : below [] es = es := rfl

@[simp] theorem below_cons (k : κ) (p : List κ) (es : List (List κ × M)) :
    below (k :: p) es = below p (step k es) := rfl

@[simp] theorem step_nil (k : κ) : step k ([] : List (List κ × M)) = [] := rfl

@[simp] theorem step_ended (k : κ) (w : M) (es : List (List κ × M)) :
    step k (([], w) :: es) = step k es := rfl

theorem step_through (k k' : κ) (path : List κ) (w : M) (es : List (List κ × M)) :
    step k ((k' :: path, w) :: es) = if k' = k then (path, w) :: step k es else step k es := rfl

theorem step_append (k : κ) (es fs : List (List κ × M)) :
    step k (es ++ fs) = step k es ++ step k fs := by
  induction es with
  | nil => rfl
  | cons e es ih =>
    obtain ⟨path, w⟩ := e
    cases path with
    | nil => exact ih
    | cons k' path =>
      rw [List.cons_append, step_through, step_through, ih]
      split
      · rfl
      · rfl

theorem mem_step {k : κ} {path : List κ} {w : M} {es : List (List κ × M)} :
    (path, w) ∈ step k es ↔ (k :: path, w) ∈ es := by
  induction es with
  | nil => simp
  | cons e es ih =>
    obtain ⟨path', w'⟩ := e
    cases path' with
    | nil => simp [ih]
    | cons k' path' =>
      rw [step_through]
      split
      · rename_i heq
        simp [ih, heq]
      · rename_i hne
        simp [ih, Ne.symm hne]

variable [AddCommMonoid M]

/-- The weight below `p` is the weight of the paths that have it as a prefix. -/
theorem weight_below (p : List κ) (es : List (List κ × M)) :
    weight (below p es) = ((es.filter fun e => p <+: e.1).map Prod.snd).sum := by
  induction p generalizing es with
  | nil => simp [weight]
  | cons k p ih =>
    rw [below_cons, ih]
    induction es with
    | nil => rfl
    | cons e es ihes =>
      obtain ⟨path, w⟩ := e
      cases path with
      | nil => simpa using ihes
      | cons k' path =>
        rw [step_through]
        by_cases hk : k' = k
        · by_cases hp : p <+: path
          · simp [hk, hp, ihes, List.cons_prefix_cons]
          · simp [hk, hp, ihes, List.cons_prefix_cons]
        · simp [hk, Ne.symm hk, ihes, List.cons_prefix_cons]

/-- The weight that ends at `p`. -/
theorem ending_below (p : List κ) (es : List (List κ × M)) :
    ending (below p es) = ((es.filter fun e => e.1 = p).map Prod.snd).sum := by
  induction p generalizing es with
  | nil =>
    have hended : (fun e : List κ × M => decide (e.1 = [])) = fun e => e.1.isEmpty := by
      ext e
      cases e.1 <;> simp
    rw [hended]
    rfl
  | cons k p ih =>
    rw [below_cons, ih]
    induction es with
    | nil => rfl
    | cons e es ihes =>
      obtain ⟨path, w⟩ := e
      cases path with
      | nil => simpa using ihes
      | cons k' path =>
        rw [step_through]
        by_cases hk : k' = k
        · by_cases hp : path = p
          · simp [hk, hp, ihes]
          · simp [hk, hp, ihes]
        · simp [hk, ihes]

/-- A single label picked out of a list without duplicates. -/
theorem sum_pick {ks : List κ} (hnodup : ks.Nodup) {k : κ} (hk : k ∈ ks) (w : M)
    (f : κ → M) :
    (ks.map fun j => if k = j then w + f j else f j).sum = w + (ks.map f).sum := by
  induction ks with
  | nil => cases hk
  | cons j ks ih =>
    rw [List.nodup_cons] at hnodup
    simp only [List.map_cons, List.sum_cons]
    by_cases hj : k = j
    · have hrest : (ks.map fun j => if k = j then w + f j else f j) = ks.map f := by
        apply List.map_congr_left
        intro i hi
        rw [if_neg]
        rintro rfl
        exact hnodup.1 (hj ▸ hi)
      rw [if_pos hj, hrest, add_assoc]
    · rw [if_neg hj, ih hnodup.2 ((List.mem_cons.mp hk).resolve_left hj), add_left_comm]

/-- What ends here, and what goes on through the labels. -/
theorem weight_eq_ending_add {ks : List κ} (hnodup : ks.Nodup) {es : List (List κ × M)}
    (hcover : ∀ k path w, (k :: path, w) ∈ es → k ∈ ks) :
    weight es = ending es + (ks.map fun k => weight (step k es)).sum := by
  induction es with
  | nil => simp
  | cons e es ih =>
    have hrest := ih fun k path w he => hcover k path w (List.mem_cons_of_mem _ he)
    obtain ⟨path, w⟩ := e
    cases path with
    | nil => simp [hrest, add_assoc]
    | cons k path =>
      have hk := hcover k path w List.mem_cons_self
      have hsteps : (ks.map fun j => weight (step j ((k :: path, w) :: es))) =
          ks.map fun j => if k = j then w + weight (step j es) else weight (step j es) := by
        apply List.map_congr_left
        intro j _
        rw [step_through]
        split
        · rfl
        · rfl
      rw [hsteps, sum_pick hnodup hk, weight_cons, ending_through, hrest, add_left_comm]

end WeightedPaths
