import Mathlib.Data.Rat.Defs
import Mathlib.Algebra.Order.Field.Rat
import Mathlib.Data.Rat.Cast.Order
import Mathlib.Tactic.NormNum.Prime
import MemSentry.Types
import MemSentry.Library.BinaryPolynomials

/-!
# The uniform draws

A thread draws its sampling intervals from a generator of its own: a word that starts at
0, is seeded by the first draw from its own address, and is shifted and xored by every
draw. The low 53 bits over `2 ^ 53` are the number drawn; a `double` holds it exactly, so
it is a rational here. The logarithm that makes an interval of it is a parameter.

The step is additive, so its period comes from the library: the polynomial
`X ^ 64 + low` kills it, and for each prime of `2 ^ 64 - 1` a word inverts
`X ^ ((2 ^ 64 - 1) / p) + 1`. The generator passes every word but 0, so a seeded thread
never seeds again, and in a period every draw comes `2 ^ 11` times, apart from 0, which
comes `2 ^ 11 - 1` times.
-/

namespace MemSentry

open BinaryPolynomials Function

/-! ## The generator -/

/-- The step of `tl_rng_state`. -/
def xorshift (state : Word) : Word :=
  let state := state ^^^ (state <<< 13)
  let state := state ^^^ (state >>> 7)
  state ^^^ (state <<< 17)

/-- `next_uniform_double`, with the address of `tl_rng_state` and its value: the value
afterwards, and the number drawn. -/
def nextUniformDouble (address state : Word) : Word × ℚ :=
  let state := if state = 0 then 0x853c49e6748fea9b#64 ^^^ address else state
  let state := xorshift state
  (state, (state &&& 0x1FFFFFFFFFFFFF#64).toNat / 9007199254740992)

/-- The `double` next to 1e-10. -/
def lowestDraw : ℚ := 7737125245533627 / 2 ^ 86

/-- The `double` next to 1 - 1e-10. -/
def highestDraw : ℚ := 562949953365017 / 2 ^ 49

/-- `next_geometric_interval`. `scaledLog m u` is the `double` `-m * log (1 - u)`, cast to an
integer. -/
def nextGeometricInterval (scaledLog : Word → ℚ → Int) (address state meanBytes : Word) :
    Word × Int :=
  if meanBytes = 0 then (state, 0)
  else
    let (state, u) := nextUniformDouble address state
    let u := if u ≤ 0 then lowestDraw else u
    let u := if u ≥ 1 then highestDraw else u
    (state, scaledLog meanBytes u + 1)

/-- `tl_rng_state` after `k` draws. -/
def rngState (address : Word) : ℕ → Word
  | 0 => 0
  | k + 1 => (nextUniformDouble address (rngState address k)).1

/-- Draw `k` of a thread, from 0. -/
def uniformDraw (address : Word) (k : ℕ) : ℚ := (nextUniformDouble address (rngState address k)).2

/-- The word that a draw steps from. -/
def seeded (address : Word) : Word := 0x853c49e6748fea9b#64 ^^^ address

/-! ## The period of the step -/

theorem additive_xorshift : Additive xorshift := by
  have hleft (k : ℕ) : Additive (fun a : Word => a ^^^ (a <<< k)) :=
    Additive.id.xor (Additive.shiftLeft k)
  have hright : Additive (fun a : Word => a ^^^ (a >>> 7)) :=
    Additive.id.xor (Additive.ushiftRight 7)
  exact (hleft 17).comp (hright.comp (hleft 13))

/-- The characteristic polynomial of the step, without `X ^ 64`. -/
def xorshiftLow : Word := 0x13ed4a358913201#64

theorem kills_xorshift : Kills xorshift xorshiftLow := by
  apply kills_of_twoPow additive_xorshift
  decide +kernel

def primesOfPeriod : List ℕ := [3, 5, 17, 257, 641, 65537, 6700417]

theorem prod_primesOfPeriod : primesOfPeriod.prod = 2 ^ 64 - 1 := rfl

theorem prime_of_mem_primesOfPeriod {p : ℕ} (h : p ∈ primesOfPeriod) : p.Prime := by
  simp only [primesOfPeriod, List.mem_cons, List.not_mem_nil, or_false] at h
  rcases h with rfl | rfl | rfl | rfl | rfl | rfl | rfl <;> norm_num

/-- For each prime `p` the inverse of `X ^ ((2 ^ 64 - 1) / p) + 1`. -/
def inverseAt : ℕ → Word
  | 3 => 0xd742ca58f5d785e2#64
  | 5 => 0xa3f64d1fb612f669#64
  | 17 => 0x63f43995a1b49645#64
  | 257 => 0x7d573a75b5260c4d#64
  | 641 => 0x1ead61508d13286#64
  | 65537 => 0xed7248a2317d33b1#64
  | 6700417 => 0x483b08aa5d3741b5#64
  | _ => 0#64

theorem powerNumber_period :
    powerNumber 64 (2 ^ 64 + xorshiftLow.toNat) 64 (2 ^ 64 - 1) = 1 := by
  decide +kernel

theorem productNumber_inverseAt : ∀ p ∈ primesOfPeriod,
    productNumber 64 (2 ^ 64 + xorshiftLow.toNat) (inverseAt p).toNat
      (powerNumber 64 (2 ^ 64 + xorshiftLow.toNat) 64 ((2 ^ 64 - 1) / p) ^^^ 1) = 1 := by
  decide +kernel

theorem powX_period : powX xorshiftLow 64 (2 ^ 64 - 1) = 1#64 := by
  apply BitVec.eq_of_toNat_eq
  rw [toNat_powX (by omega), powerNumber_period]
  rfl

theorem inverseAt_spec {p : ℕ} (hp : p ∈ primesOfPeriod) : mulMod xorshiftLow (inverseAt p)
    (powX xorshiftLow 64 ((2 ^ 64 - 1) / p) ^^^ 1#64) = 1#64 := by
  apply BitVec.eq_of_toNat_eq
  rw [toNat_mulMod (by omega), BitVec.toNat_xor, toNat_powX (by omega)]
  exact productNumber_inverseAt p hp

theorem isPeriodicPt_xorshift (v : Word) : IsPeriodicPt xorshift (2 ^ 64 - 1) v := by
  have hact := act_powX additive_xorshift kills_xorshift (by omega) (k := 64) (e := 2 ^ 64 - 1)
    (by omega) v
  rw [powX_period, act_one additive_xorshift v (by omega)] at hact
  exact hact.symm

theorem minimalPeriod_xorshift {v : Word} (hv : v ≠ 0) :
    minimalPeriod xorshift v = 2 ^ 64 - 1 := by
  rw [← prod_primesOfPeriod]
  apply minimalPeriod_eq_of_primes
  · intro p hp
    exact prime_of_mem_primesOfPeriod hp
  · rw [prod_primesOfPeriod]
    exact isPeriodicPt_xorshift v
  · intro p hp hfix
    rw [prod_primesOfPeriod] at hfix
    have hlt : (2 ^ 64 - 1) / p < 2 ^ 64 :=
      Nat.lt_of_le_of_lt (Nat.div_le_self _ _) (by omega)
    exact hv (eq_zero_of_inverse additive_xorshift kills_xorshift (by omega) hlt
      (inverseAt_spec hp) hfix)

theorem iterate_xorshift_ne_zero {v : Word} (hv : v ≠ 0) (k : ℕ) : xorshift^[k] v ≠ 0 :=
  iterate_ne_zero additive_xorshift (by omega) (isPeriodicPt_xorshift v) hv k

/-! ## The draws of a thread -/

/-- The constant is odd, so no aligned address cancels it. -/
theorem seeded_ne_zero {address : Word} (h : address.toNat % 8 = 0) : seeded address ≠ 0 := by
  intro hzero
  have heq : 0x853c49e6748fea9b#64 = address := BitVec.xor_eq_zero_iff.mp hzero
  rw [← heq] at h
  exact absurd h (by decide)

theorem rngState_succ {address : Word} (h : address.toNat % 8 = 0) (k : ℕ) :
    rngState address (k + 1) = xorshift^[k + 1] (seeded address) := by
  induction k with
  | zero => rfl
  | succ k ih =>
    have hne : rngState address (k + 1) ≠ 0 := by
      rw [ih]
      exact iterate_xorshift_ne_zero (seeded_ne_zero h) (k + 1)
    rw [rngState, nextUniformDouble, if_neg hne, ih, ← iterate_succ_apply' xorshift]

theorem toNat_mantissa (v : Word) : (v &&& 0x1FFFFFFFFFFFFF#64).toNat = v.toNat % 2 ^ 53 := by
  rw [BitVec.toNat_and]
  exact Nat.and_two_pow_sub_one_eq_mod v.toNat 53

theorem uniformDraw_eq (address : Word) (k : ℕ) :
    uniformDraw address k = ((rngState address (k + 1)).toNat % 2 ^ 53 : ℕ) / 2 ^ 53 := by
  rw [← toNat_mantissa]
  norm_num [uniformDraw, rngState, nextUniformDouble]

theorem uniformDraw_nonneg (address : Word) (k : ℕ) : 0 ≤ uniformDraw address k := by
  rw [uniformDraw_eq]
  positivity

theorem uniformDraw_lt_one (address : Word) (k : ℕ) : uniformDraw address k < 1 := by
  have hlt : (rngState address (k + 1)).toNat % 2 ^ 53 < 2 ^ 53 := Nat.mod_lt _ (by omega)
  rw [uniformDraw_eq, div_lt_one (by norm_num)]
  exact_mod_cast hlt

theorem uniformDraw_eq_div_iff (address : Word) (k a : ℕ) :
    uniformDraw address k = (a : ℚ) / 2 ^ 53 ↔ (rngState address (k + 1)).toNat % 2 ^ 53 = a := by
  rw [uniformDraw_eq, div_left_inj' (by norm_num)]
  exact Nat.cast_inj

/-! ## The intervals -/

/-- What the logarithm is taken of, as `1 - u`: the lower clamp replaces a draw of 0, and the
upper one has nothing to replace. -/
def clampedDraw (address : Word) (k : ℕ) : ℚ :=
  if uniformDraw address k = 0 then lowestDraw else uniformDraw address k

/-- The intervals of one thread, for the means that its calls are made with. -/
def intervals (scaledLog : Word → ℚ → Int) (address : Word) : Word → List Word → List Int
  | _, [] => []
  | state, mean :: means =>
    let (state, interval) := nextGeometricInterval scaledLog address state mean
    interval :: intervals scaledLog address state means

theorem nextGeometricInterval_eq {scaledLog : Word → ℚ → Int} {address mean : Word}
    (hmean : mean ≠ 0) (k : ℕ) :
    nextGeometricInterval scaledLog address (rngState address k) mean =
      (rngState address (k + 1), scaledLog mean (clampedDraw address k) + 1) := by
  have hdraw : nextUniformDouble address (rngState address k) =
      (rngState address (k + 1), uniformDraw address k) := rfl
  have hlow : ¬ lowestDraw ≥ 1 := by norm_num [lowestDraw]
  have hhigh : ¬ uniformDraw address k ≥ 1 := not_le.mpr (uniformDraw_lt_one address k)
  rw [nextGeometricInterval, if_neg hmean, hdraw, clampedDraw]
  by_cases hzero : uniformDraw address k = 0
  · simp [hzero, hlow]
  · have hpos : ¬ uniformDraw address k ≤ 0 :=
      fun hle => hzero (le_antisymm hle (uniformDraw_nonneg address k))
    simp [hzero, hpos, hhigh]

theorem intervals_eq {scaledLog : Word → ℚ → Int} {address : Word} {means : List Word}
    (hmeans : ∀ m ∈ means, m ≠ 0) (k : ℕ) :
    intervals scaledLog address (rngState address k) means =
      (means.zipIdx k).map fun mi => scaledLog mi.1 (clampedDraw address mi.2) + 1 := by
  induction means generalizing k with
  | nil => rfl
  | cons mean means ih =>
    have htail : ∀ m ∈ means, m ≠ 0 := fun m hm => hmeans m (List.mem_cons_of_mem mean hm)
    rw [intervals, nextGeometricInterval_eq (hmeans mean List.mem_cons_self), List.zipIdx_cons,
      List.map_cons, ← ih htail]

/-! ## One period -/

section

variable {address : Word} (h : address.toNat % 8 = 0)

include h

theorem rngState_add (start k : ℕ) :
    rngState address (start + k + 1) = xorshift^[k] (rngState address (start + 1)) := by
  rw [rngState_succ h, rngState_succ h, ← iterate_add_apply]
  congr 1
  omega

theorem rngState_ne_zero (k : ℕ) : rngState address (k + 1) ≠ 0 := by
  rw [rngState_succ h]
  exact iterate_xorshift_ne_zero (seeded_ne_zero h) (k + 1)

theorem rngState_eq_iff (i j : ℕ) :
    rngState address (i + 1) = rngState address (j + 1) ↔ i ≡ j [MOD 2 ^ 64 - 1] := by
  have hperiod := minimalPeriod_xorshift (rngState_ne_zero h 0)
  have hfirst (k : ℕ) : rngState address (k + 1) = xorshift^[k] (rngState address 1) := by
    have hadd := rngState_add h 0 k
    rwa [Nat.zero_add] at hadd
  rw [hfirst i, hfirst j, iterate_eq_iff_mod (by rw [hperiod]; omega), hperiod]

theorem count_uniformDraw (start : ℕ) {a : ℕ} (ha : a < 2 ^ 53) :
    Nat.count (fun k => uniformDraw address (start + k) = (a : ℚ) / 2 ^ 53) (2 ^ 64 - 1) =
      2 ^ 11 - (if a = 0 then 1 else 0) := by
  have hne (k : ℕ) : xorshift^[k] (rngState address (start + 1)) ≠ 0#64 :=
    iterate_xorshift_ne_zero (rngState_ne_zero h start) k
  have hcount := count_low_bits (minimalPeriod_xorshift (rngState_ne_zero h start)) hne
    (k := 53) (by omega) ha
  simp only [uniformDraw_eq_div_iff, rngState_add h]
  exact hcount

/-- A thread's generator is seeded once, comes back after `2 ^ 64 - 1` draws and not before,
and draws every multiple of `2 ^ -53` below 1 equally often, apart from 0, which comes once
less and is the only draw that the clamps of an interval replace. -/
theorem uniform_draws_full_period :
    (∀ k, rngState address (k + 1) ≠ 0) ∧
    (∀ i j, rngState address (i + 1) = rngState address (j + 1) ↔ i ≡ j [MOD 2 ^ 64 - 1]) ∧
    (∀ start a : ℕ, a < 2 ^ 53 →
      Nat.count (fun k => uniformDraw address (start + k) = (a : ℚ) / 2 ^ 53) (2 ^ 64 - 1) =
        2 ^ 11 - (if a = 0 then 1 else 0)) ∧
    ∀ scaledLog : Word → ℚ → Int, ∀ means : List Word, (∀ m ∈ means, m ≠ 0) →
      intervals scaledLog address 0 means =
        means.zipIdx.map fun mi => scaledLog mi.1 (clampedDraw address mi.2) + 1 := by
  refine ⟨rngState_ne_zero h, rngState_eq_iff h, fun start a ha => count_uniformDraw h start ha, ?_⟩
  intro scaledLog means hmeans
  exact intervals_eq hmeans 0

end

/-- The variable of a thread at an aligned address. -/
theorem uniform_draws_full_period_main :
    (∀ k, rngState 0x7ffff7d8a738#64 (k + 1) ≠ 0) ∧
    (∀ i j, rngState 0x7ffff7d8a738#64 (i + 1) = rngState 0x7ffff7d8a738#64 (j + 1) ↔
      i ≡ j [MOD 2 ^ 64 - 1]) := by
  have hall := @uniform_draws_full_period 0x7ffff7d8a738#64 (by decide)
  exact ⟨hall.1, hall.2.1⟩

end MemSentry
