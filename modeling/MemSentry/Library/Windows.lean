import Mathlib.Data.Nat.Basic
import Mathlib.Algebra.Order.Ring.Int
import Mathlib.Tactic.Linarith
import Mathlib.Tactic.Ring

/-!
# Low residues in windows

How many of `m` consecutive numbers have a residue below `p` modulo `q`. Counted from 0
there is a closed form (`below`), and a window is the difference of two such counts
(`hits_add_below`). A window of whole periods has exactly `p` hits a period (`hits_mul`).
For any window the closed form stays within `p * (q - p)` of proportionality
(`surplus_bounds`), and with it the count (`hits_deviation`).
-/

namespace Windows

/-- The numbers among `c, ..., c + m - 1` whose residue is below `p`. -/
def hits (q p c m : Nat) : Nat := (List.range m).countP fun j => decide ((c + j) % q < p)

/-- The numbers below `x` whose residue is below `p`. -/
def below (q p x : Nat) : Nat := p * (x / q) + min (x % q) p

section Counting

variable {q p : Nat}

@[simp] theorem hits_zero (c : Nat) : hits q p c 0 = 0 := rfl

theorem hits_succ (c m : Nat) :
    hits q p c (m + 1) = hits q p c m + if (c + m) % q < p then 1 else 0 := by
  simp [hits, List.range_succ, List.countP_append, List.countP_singleton]

/-- One step up either stays in its period or begins the next. -/
theorem below_succ (hq : 0 < q) (hp : p ≤ q) (x : Nat) :
    below q p (x + 1) = below q p x + if x % q < p then 1 else 0 := by
  have hr := Nat.mod_lt x hq
  have hx := Nat.div_add_mod x q
  rcases Nat.lt_or_ge (x % q + 1) q with hsame | hnext
  · have hdiv : (x + 1) / q = x / q := by
      rw [Nat.div_eq_iff hq]
      constructor
      · rw [Nat.mul_comm]
        omega
      · rw [Nat.mul_comm]
        omega
    have hmod : (x + 1) % q = x % q + 1 := by
      have hx' := Nat.div_add_mod (x + 1) q
      rw [hdiv] at hx'
      omega
    unfold below
    rw [hdiv, hmod]
    split <;> omega
  · have hx' : x + 1 = q * (x / q + 1) := by
      rw [Nat.mul_succ]
      omega
    unfold below
    rw [hx', Nat.mul_div_cancel_left _ hq, Nat.mul_mod_right, Nat.mul_succ]
    split <;> omega

theorem hits_add_below (hq : 0 < q) (hp : p ≤ q) (c m : Nat) :
    hits q p c m + below q p c = below q p (c + m) := by
  induction m with
  | zero => simp
  | succ m ih =>
    rw [hits_succ, ← Nat.add_assoc c m 1, below_succ hq hp, ← ih]
    omega

/-- A window of whole periods. -/
theorem hits_mul (hq : 0 < q) (hp : p ≤ q) (c k : Nat) : hits q p c (q * k) = p * k := by
  have hsplit := hits_add_below hq hp c (q * k)
  unfold below at hsplit
  rw [Nat.add_mul_div_left _ _ hq, Nat.add_mul_mod_self_left, Nat.mul_add] at hsplit
  omega

/-- How far the closed form is ahead of `p / q` of the numbers, times `q`. -/
def surplus (q p x : Nat) : Int := q * below q p x - p * x

theorem surplus_eq (x : Nat) :
    surplus q p x = q * min (x % q) p - p * (x % q : Nat) := by
  have hx : (x : Int) = q * (x / q : Nat) + (x % q : Nat) := by
    exact_mod_cast (Nat.div_add_mod x q).symm
  unfold surplus below
  push_cast at hx ⊢
  calc (q : Int) * (p * (x / q) + min (x % q : Int) p) - p * x
      = q * (p * (x / q) + min (x % q : Int) p) - p * (q * (x / q) + x % q) := by rw [← hx]
    _ = q * min (x % q : Int) p - p * (x % q) := by ring

theorem surplus_bounds (hq : 0 < q) (hp : p ≤ q) (x : Nat) :
    0 ≤ surplus q p x ∧ surplus q p x ≤ p * (q - p) := by
  have hr : (x % q : Nat) < q := Nat.mod_lt x hq
  rw [surplus_eq]
  generalize x % q = r at hr
  have hr' : (r : Int) < q := by exact_mod_cast hr
  have hp' : (p : Int) ≤ q := by exact_mod_cast hp
  rcases Nat.le_total r p with hlow | hhigh
  · have hlow' : (r : Int) ≤ p := by exact_mod_cast hlow
    rw [Nat.min_eq_left hlow]
    constructor
    · nlinarith
    · nlinarith
  · have hhigh' : (p : Int) ≤ r := by exact_mod_cast hhigh
    rw [Nat.min_eq_right hhigh]
    constructor
    · nlinarith
    · nlinarith

/-- Any window is within `p * (q - p) / q` of its share. -/
theorem hits_deviation (hq : 0 < q) (hp : p ≤ q) (c m : Nat) :
    |(q : Int) * hits q p c m - p * m| ≤ p * (q - p) := by
  have hsplit : (hits q p c m : Int) = below q p (c + m) - below q p c := by
    have h := hits_add_below hq hp c m
    omega
  obtain ⟨hlow, hhigh⟩ := surplus_bounds hq hp c
  obtain ⟨hlow', hhigh'⟩ := surplus_bounds hq hp (c + m)
  have hdiff : (q : Int) * hits q p c m - p * m = surplus q p (c + m) - surplus q p c := by
    unfold surplus
    rw [hsplit]
    push_cast
    ring
  rw [hdiff, abs_le]
  constructor
  · linarith
  · linarith

end Counting

end Windows
