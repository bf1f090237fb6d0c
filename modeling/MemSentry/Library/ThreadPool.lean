import Mathlib.Algebra.BigOperators.Group.Finset.Basic
import Mathlib.Data.Fintype.Basic

/-!
# Thread pools and what their threads hold

A pool gives every thread its program point. A point holds some amount of a resource
(an element of a commutative monoid: numbers, multisets, products of them), and an
invariant of the shared state may speak of the total that all threads hold. A step of
one thread changes the shared state and that thread's point only, so it is enough to
check the step against an arbitrary amount held by the others: `invariant_step`.
-/

namespace ThreadPool

variable {ι P R σ : Type} [Fintype ι] [DecidableEq ι] [AddCommMonoid R]

/-- What all threads hold together. -/
def total (holds : P → R) (pool : ι → P) : R := ∑ i, holds (pool i)

/-- What the threads other than `i` hold together. -/
def others (holds : P → R) (pool : ι → P) (i : ι) : R :=
  ∑ j ∈ Finset.univ.erase i, holds (pool j)

theorem total_eq (holds : P → R) (pool : ι → P) (i : ι) :
    total holds pool = holds (pool i) + others holds pool i :=
  (Finset.add_sum_erase Finset.univ (fun j => holds (pool j)) (Finset.mem_univ i)).symm

/-- The others hold at least what one of them holds. -/
theorem exists_others_eq (holds : P → R) (pool : ι → P) {i j : ι} (hij : j ≠ i) :
    ∃ rest, others holds pool i = holds (pool j) + rest :=
  ⟨_, (Finset.add_sum_erase _ (fun j => holds (pool j))
    (Finset.mem_erase.mpr ⟨hij, Finset.mem_univ j⟩)).symm⟩

/-- A homomorphism may be taken of each share. -/
theorem map_others {S : Type} [AddCommMonoid S] (f : R →+ S) (holds : P → R) (pool : ι → P)
    (i : ι) : f (others holds pool i) = others (fun p => f (holds p)) pool i :=
  map_sum f _ _

theorem others_add (holds holds' : P → R) (pool : ι → P) (i : ι) :
    others (fun p => holds p + holds' p) pool i =
      others holds pool i + others holds' pool i :=
  Finset.sum_add_distrib

theorem others_update (holds : P → R) (pool : ι → P) (i : ι) (p : P) :
    others holds (Function.update pool i p) i = others holds pool i := by
  unfold others
  refine Finset.sum_congr rfl fun j hj => ?_
  rw [Function.update_of_ne (Finset.ne_of_mem_erase hj)]

theorem total_update (holds : P → R) (pool : ι → P) (i : ι) (p : P) :
    total holds (Function.update pool i p) = holds p + others holds pool i := by
  rw [total_eq holds _ i, Function.update_self, others_update]

/-- A step of one thread that keeps the invariant whatever the others hold keeps it. -/
theorem invariant_step {holds : P → R} {I : σ → R → Prop} {s s' : σ} {pool : ι → P} {i : ι}
    {p : P} (hstep : ∀ held, I s (holds (pool i) + held) → I s' (holds p + held))
    (h : I s (total holds pool)) : I s' (total holds (Function.update pool i p)) := by
  rw [total_update]
  rw [total_eq holds pool i] at h
  exact hstep _ h

omit [DecidableEq ι] in
/-- A pool whose points hold nothing holds nothing. -/
theorem total_eq_zero {holds : P → R} {pool : ι → P} (h : ∀ i, holds (pool i) = 0) :
    total holds pool = 0 :=
  Finset.sum_eq_zero fun i _ => h i

section Exists

variable {ι P : Type} [DecidableEq ι] {Q : P → Prop} {pool : ι → P} {i : ι} {p : P}

/-- A thread of the pool after a step is the one that moved, or one as it was. -/
theorem of_exists_update (h : ∃ j, Q (Function.update pool i p j)) : Q p ∨ ∃ j, Q (pool j) := by
  rw [Function.exists_update_iff pool fun _ => Q] at h
  rcases h with hp | ⟨j, _, hj⟩
  · exact Or.inl hp
  · exact Or.inr ⟨j, hj⟩

theorem exists_update (hp : Q (pool i) → Q p) (h : ∃ j, Q (pool j)) :
    ∃ j, Q (Function.update pool i p j) := by
  obtain ⟨j, hj⟩ := h
  rw [Function.exists_update_iff pool fun _ => Q]
  by_cases hji : j = i
  · exact Or.inl (hp (hji ▸ hj))
  · exact Or.inr ⟨j, hji, hj⟩

end Exists

/-- Two threads: the smallest pool in which one can get in the other's way. -/
inductive Pair
  | first
  | second
  deriving DecidableEq

instance : Fintype Pair where
  elems := {.first, .second}
  complete := fun i => by cases i <;> decide

end ThreadPool
