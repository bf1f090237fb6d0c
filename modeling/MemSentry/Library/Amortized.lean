import Mathlib.Algebra.Order.BigOperators.Group.Finset
import Mathlib.Data.Fintype.Card
import MemSentry.Library.ThreadPool
import MemSentry.Library.Transition

/-!
# What a run costs

Every step of a run has a cost and a grant, and the state has a potential. If each step
pays its cost and the rise of the potential out of its grant, so does a whole run
(`Run.amortized`).

In a thread pool the potential is a sum over the threads, and a step moves one of them.
When the step also changes what the points of the others are worth, by at most 1 each, the
other threads together have to be granted their number less 1 (`others_le_add`).
-/

namespace Transition

variable {σ ε : Type}

/-- The sum over the steps of a run. -/
def along (step : σ → ε → σ) (f : σ → ε → ℕ) (s : σ) : List ε → ℕ
  | [] => 0
  | e :: es => f s e + along step f (step s e) es

theorem Run.amortized {S : System σ ε} {cost grant : σ → ε → ℕ} {potential : σ → ℕ}
    (hstep : ∀ s e, S.guard s e → cost s e + potential (S.step s e) ≤ potential s + grant s e)
    {s t : σ} {es : List ε} (h : Run S s es t) :
    along S.step cost s es + potential t ≤ potential s + along S.step grant s es := by
  induction h with
  | nil s => exact Nat.le_of_eq (Nat.add_comm 0 (potential s))
  | @cons s t e es hguard _ ih =>
    have hfirst := hstep s e hguard
    rw [along, along]
    omega

end Transition

namespace ThreadPool

variable {ι P : Type} [Fintype ι] [DecidableEq ι] {holds holds' : P → ℕ} {pool : ι → P}

/-- Each of the other threads is worth at most 1 more than before. -/
theorem others_le_add (h : ∀ p, holds' p ≤ holds p + 1) (i : ι) :
    others holds' pool i ≤ others holds pool i + (Fintype.card ι - 1) := by
  have hcard : (Finset.univ.erase i).card = Fintype.card ι - 1 := by
    rw [Finset.card_erase_of_mem (Finset.mem_univ i), Finset.card_univ]
  calc others holds' pool i ≤ ∑ j ∈ Finset.univ.erase i, (holds (pool j) + 1) :=
        Finset.sum_le_sum fun j _ => h (pool j)
    _ = others holds pool i + (Fintype.card ι - 1) := by
        rw [Finset.sum_add_distrib, ← Finset.card_eq_sum_ones, hcard]
        rfl

end ThreadPool
