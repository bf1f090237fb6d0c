import Mathlib.Algebra.Order.BigOperators.GroupWithZero.List
import Mathlib.Algebra.Order.Ring.Nat
import Mathlib.Data.Int.CardIntervalMod
import Mathlib.Data.List.Prime
import Mathlib.Data.Nat.Prime.Basic
import Mathlib.Dynamics.PeriodicPts.Defs

/-!
# The period of a generator made of shifts and exclusive ors

A step `T` on words of `n` bits that is additive for `^^^` is a linear map over the field
of two elements. If the monic polynomial `X ^ n + low` kills it, the polynomials below
degree `n` act on the words as they multiply modulo that polynomial: `act` is the action,
`mulMod` the product, and one word of `n` bits stands for one polynomial. So a power of
`T` is computed by squaring a word (`act_powX`), and `T ^ e` moves every word but 0 as soon as
`X ^ e + 1` has an inverse (`eq_zero_of_inverse`). `productNumber` and `powerNumber` compute
the same on numbers, which is what an evaluation is fast on.

The period of a word then follows from the primes that divide `N`: it is `N` when `N`
steps lead back and no `N / p` steps do (`minimalPeriod_eq_of_primes`). A period of
`2 ^ n - 1` that avoids 0 passes every other word once, so counts along it are counts over
the numbers below `2 ^ n` (`count_along`).
-/

namespace BinaryPolynomials

variable {n m : ℕ}

/-! ## Additive maps -/

def Additive (f : BitVec n → BitVec m) : Prop := ∀ a b, f (a ^^^ b) = f a ^^^ f b

namespace Additive

theorem id : Additive (fun a : BitVec n => a) := fun _ _ => rfl

theorem zero : Additive (fun _ : BitVec n => 0#m) := by
  intro a b
  rw [BitVec.xor_zero]

theorem map_zero {f : BitVec n → BitVec m} (h : Additive f) : f 0#n = 0#m := by
  have hself := h 0#n 0#n
  rwa [BitVec.xor_self, BitVec.xor_self] at hself

theorem comp {k : ℕ} {g : BitVec m → BitVec k} {f : BitVec n → BitVec m} (hg : Additive g)
    (hf : Additive f) : Additive (fun a => g (f a)) := by
  intro a b
  change g (f (a ^^^ b)) = g (f a) ^^^ g (f b)
  rw [hf, hg]

theorem xor {f g : BitVec n → BitVec m} (hf : Additive f) (hg : Additive g) :
    Additive (fun a => f a ^^^ g a) := by
  intro a b
  change f (a ^^^ b) ^^^ g (a ^^^ b) = (f a ^^^ g a) ^^^ (f b ^^^ g b)
  rw [hf a b, hg a b]
  ac_rfl

theorem shiftLeft (k : ℕ) : Additive (fun a : BitVec n => a <<< k) :=
  fun a b => BitVec.shiftLeft_xor_distrib a b k

theorem ushiftRight (k : ℕ) : Additive (fun a : BitVec n => a >>> k) :=
  fun a b => BitVec.ushiftRight_xor_distrib a b k

/-- A bit of the argument selects a fixed word. -/
theorem select {p : BitVec n → Bool} (hp : ∀ a b, p (a ^^^ b) = (p a ^^ p b)) (v : BitVec m) :
    Additive (fun a => if p a then v else 0#m) := by
  intro a b
  simp only [hp]
  cases p a <;> cases p b <;> simp

theorem iterate {f : BitVec n → BitVec n} (h : Additive f) (k : ℕ) : Additive f^[k] := by
  induction k with
  | zero => exact fun _ _ => rfl
  | succ k ih =>
    intro a b
    rw [Function.iterate_succ_apply, Function.iterate_succ_apply, Function.iterate_succ_apply,
      h a b, ih]

end Additive

/-- The bits of `a` below `k`. -/
def lowBits (a : BitVec n) (k : ℕ) : BitVec n := BitVec.ofNat n (a.toNat % 2 ^ k)

theorem getLsbD_lowBits (a : BitVec n) (k i : ℕ) :
    (lowBits a k).getLsbD i = (decide (i < k) && a.getLsbD i) := by
  by_cases hi : i < n
  · simp [lowBits, hi, Nat.testBit_mod_two_pow, BitVec.getLsbD]
  · simp [BitVec.getLsbD_of_ge _ _ (Nat.le_of_not_lt hi)]

theorem lowBits_succ {a : BitVec n} {k : ℕ} (hk : k < n) :
    lowBits a (k + 1) = lowBits a k ^^^ (if a.getLsbD k then BitVec.twoPow n k else 0#n) := by
  apply BitVec.eq_of_getLsbD_eq
  intro i _
  rw [BitVec.getLsbD_xor, getLsbD_lowBits, getLsbD_lowBits]
  rcases Nat.lt_trichotomy i k with hik | rfl | hik
  · have hne : k ≠ i := by omega
    split <;> simp [hik, hne, Nat.lt_succ_of_lt hik]
  · split <;> simp_all
  · have hne : k ≠ i := by omega
    have h1 : ¬ i < k := by omega
    have h2 : ¬ i < k + 1 := by omega
    split <;> simp [h1, h2, hne]

/-- Additive maps that agree on the single bits are equal. -/
theorem Additive.eq_of_twoPow {f g : BitVec n → BitVec m} (hf : Additive f) (hg : Additive g)
    (h : ∀ i < n, f (BitVec.twoPow n i) = g (BitVec.twoPow n i)) (a : BitVec n) : f a = g a := by
  have hlow : ∀ k ≤ n, f (lowBits a k) = g (lowBits a k) := by
    intro k
    induction k with
    | zero =>
      intro _
      have hzero : lowBits a 0 = 0#n := by simp [lowBits, Nat.mod_one]
      rw [hzero, hf.map_zero, hg.map_zero]
    | succ k ih =>
      intro hk
      rw [lowBits_succ hk, hf, hg, ih (by omega)]
      congr 1
      split
      · exact h k hk
      · rw [hf.map_zero, hg.map_zero]
  have hall : lowBits a n = a := by
    apply BitVec.eq_of_getLsbD_eq
    intro i hi
    rw [getLsbD_lowBits]
    simp [hi]
  rw [← hall]
  exact hlow n le_rfl

/-! ## Polynomials that act on words -/

section

variable (T : BitVec n → BitVec n)

/-- The value of a polynomial in `T`, its coefficients given least first, at `v`. -/
def eval (v : BitVec n) : List Bool → BitVec n
  | [] => 0#n
  | b :: bs => (if b then v else 0#n) ^^^ T (eval v bs)

def coefficients (a : BitVec n) : List Bool := (List.range n).map a.getLsbD

/-- The polynomial that the bits of `a` are the coefficients of, in `T`. -/
def act (a v : BitVec n) : BitVec n := eval T v (coefficients a)

/-- The product with `X`, modulo `X ^ n + low`. -/
def timesX (low a : BitVec n) : BitVec n := (a <<< 1) ^^^ (if a.msb then low else 0#n)

def mulMod (low a b : BitVec n) : BitVec n := act (timesX low) a b

/-- `X ^ e` for `e` of at most `k` binary digits. -/
def powX (low : BitVec n) : ℕ → ℕ → BitVec n
  | 0, _ => 1#n
  | k + 1, e =>
    if e % 2 = 1 then timesX low (mulMod low (powX low k (e / 2)) (powX low k (e / 2)))
    else mulMod low (powX low k (e / 2)) (powX low k (e / 2))

end

theorem additive_timesX (low : BitVec n) : Additive (timesX low) :=
  (Additive.shiftLeft 1).xor (Additive.select (fun _ _ => BitVec.msb_xor) low)

variable {T : BitVec n → BitVec n}

theorem additive_eval (hT : Additive T) (bs : List Bool) : Additive (fun v => eval T v bs) := by
  induction bs with
  | nil => exact Additive.zero
  | cons b bs ih =>
    cases b with
    | true => exact Additive.id.xor (hT.comp ih)
    | false => exact Additive.zero.xor (hT.comp ih)

theorem additive_act (hT : Additive T) (a : BitVec n) : Additive (act T a) :=
  additive_eval hT (coefficients a)

/-- A map from one step to another carries the values of a polynomial along. -/
theorem map_eval {S : BitVec m → BitVec m} {f : BitVec m → BitVec n} (hf : Additive f)
    (hsemi : ∀ a, f (S a) = T (f a)) (v : BitVec m) (bs : List Bool) :
    f (eval S v bs) = eval T (f v) bs := by
  induction bs with
  | nil => exact hf.map_zero
  | cons b bs ih =>
    rw [eval, eval, hf, hsemi, ih]
    cases b with
    | true => rfl
    | false => simp [hf.map_zero]

/-- The coefficients from position `i` on. -/
theorem additive_eval_range (hT : Additive T) (v : BitVec n) (k i : ℕ) :
    Additive (fun a : BitVec n => eval T v ((List.range' i k).map a.getLsbD)) := by
  induction k generalizing i with
  | zero => exact Additive.zero
  | succ k ih =>
    have hbit : Additive (fun a : BitVec n => if a.getLsbD i then v else 0#n) :=
      Additive.select (fun _ _ => BitVec.getLsbD_xor) v
    exact hbit.xor (hT.comp (ih (i + 1)))

theorem additive_act_left (hT : Additive T) (v : BitVec n) : Additive (fun a => act T a v) := by
  have h := additive_eval_range hT v n 0
  rwa [← List.range_eq_range'] at h

theorem eval_of_false (hT : Additive T) (v : BitVec n) {bs : List Bool} (h : ∀ b ∈ bs, b = false) :
    eval T v bs = 0#n := by
  induction bs with
  | nil => rfl
  | cons b bs ih =>
    rw [eval, ih fun c hc => h c (List.mem_cons_of_mem b hc), hT.map_zero, h b List.mem_cons_self]
    simp

theorem eval_twoPow (hT : Additive T) (v : BitVec n) {e i k : ℕ} (he : e < n) (hie : i ≤ e)
    (hek : e < i + k) :
    eval T v ((List.range' i k).map (BitVec.twoPow n e).getLsbD) = T^[e - i] v := by
  induction k generalizing i with
  | zero => omega
  | succ k ih =>
    rw [List.range'_succ, List.map_cons, eval, BitVec.getLsbD_twoPow]
    rcases Nat.eq_or_lt_of_le hie with rfl | hlt
    · have hrest : ∀ b ∈ (List.range' (i + 1) k).map (BitVec.twoPow n i).getLsbD, b = false := by
        intro b hb
        obtain ⟨j, hj, rfl⟩ := List.mem_map.mp hb
        have hne : i ≠ j := by
          have := (List.mem_range'_1.mp hj).1
          omega
        simp [hne]
      rw [eval_of_false hT v hrest, hT.map_zero, Nat.sub_self]
      simp [he]
    · have hne : e ≠ i := by omega
      have hstep : e - i = (e - (i + 1)) + 1 := by omega
      rw [ih hlt (by omega), hstep, Function.iterate_succ_apply']
      simp [hne]

theorem act_twoPow (hT : Additive T) (v : BitVec n) {e : ℕ} (he : e < n) :
    act T (BitVec.twoPow n e) v = T^[e] v := by
  rw [act, coefficients, List.range_eq_range']
  exact eval_twoPow hT v he (Nat.zero_le e) (by omega)

theorem act_one (hT : Additive T) (v : BitVec n) (hn : 0 < n) : act T 1#n v = v := by
  rw [← BitVec.twoPow_zero]
  exact act_twoPow hT v hn

theorem act_xor (hT : Additive T) (a b v : BitVec n) :
    act T (a ^^^ b) v = act T a v ^^^ act T b v :=
  additive_act_left hT v a b

/-! ## The ring of the words -/

/-- `X ^ n + low` kills `T`. -/
def Kills (T : BitVec n → BitVec n) (low : BitVec n) : Prop := ∀ v, T^[n] v = act T low v

/-- It is enough to look at the single bits. -/
theorem kills_of_twoPow {low : BitVec n} (hT : Additive T)
    (h : ∀ i < n, T^[n] (BitVec.twoPow n i) = act T low (BitVec.twoPow n i)) : Kills T low := by
  intro v
  exact (hT.iterate n).eq_of_twoPow (additive_act hT low) h v

theorem timesX_twoPow (low : BitVec n) {i : ℕ} (hi : i < n) :
    timesX low (BitVec.twoPow n i) = if i + 1 < n then BitVec.twoPow n (i + 1) else low := by
  have hshift : BitVec.twoPow n i <<< 1 = BitVec.twoPow n (i + 1) := by
    rw [BitVec.twoPow_eq, BitVec.twoPow_eq, BitVec.shiftLeft_add]
  rw [timesX, hshift, BitVec.msb_twoPow]
  by_cases hlast : i + 1 < n
  · have hne : ¬ i = n - 1 := by omega
    simp [hlast, hne]
  · have hn : i + 1 = n := by omega
    have hlt : i = n - 1 := by omega
    have hzero : BitVec.twoPow n (i + 1) = 0#n := by
      rw [BitVec.twoPow_eq, BitVec.shiftLeft_eq_zero (by omega)]
    have hmsb : (decide (i < n) && decide (i = n - 1)) = true := by
      rw [decide_eq_true hi, decide_eq_true hlt]
      rfl
    rw [hzero, if_neg hlast, BitVec.zero_xor, hmsb, if_pos rfl]

theorem act_timesX {low : BitVec n} (hT : Additive T) (hk : Kills T low) (a v : BitVec n) :
    act T (timesX low a) v = T (act T a v) := by
  refine ((additive_act_left hT v).comp (additive_timesX low)).eq_of_twoPow
    (hT.comp (additive_act_left hT v)) ?_ a
  intro i hi
  rw [timesX_twoPow low hi, act_twoPow hT v hi, ← Function.iterate_succ_apply' T i v]
  by_cases hlast : i + 1 < n
  · rw [if_pos hlast, act_twoPow hT v hlast]
  · have hn : i.succ = n := by omega
    rw [if_neg hlast, hn, hk v]

theorem act_mulMod {low : BitVec n} (hT : Additive T) (hk : Kills T low) (a b v : BitVec n) :
    act T (mulMod low a b) v = act T a (act T b v) :=
  map_eval (additive_act_left hT v) (fun c => act_timesX hT hk c v) b (coefficients a)

theorem act_powX {low : BitVec n} (hT : Additive T) (hk : Kills T low) (hn : 0 < n)
    {k e : ℕ} (he : e < 2 ^ k) (v : BitVec n) : act T (powX low k e) v = T^[e] v := by
  induction k generalizing e v with
  | zero =>
    have hzero : e = 0 := by omega
    rw [hzero, powX, act_one hT v hn]
    rfl
  | succ k ih =>
    have hhalf : e / 2 < 2 ^ k := by omega
    have hsquare : act T (mulMod low (powX low k (e / 2)) (powX low k (e / 2))) v =
        T^[e / 2 + e / 2] v := by
      rw [act_mulMod hT hk, ih hhalf, ih hhalf, ← Function.iterate_add_apply]
    rw [powX]
    split
    · have hodd : e = e / 2 + e / 2 + 1 := by omega
      rw [act_timesX hT hk, hsquare, ← Function.iterate_succ_apply' T (e / 2 + e / 2) v,
        Nat.succ_eq_add_one, ← hodd]
    · have heven : e = e / 2 + e / 2 := by omega
      rw [hsquare, ← heven]

/-- If `X ^ e + 1` has an inverse, `e` steps fix no word but 0. -/
theorem eq_zero_of_inverse {low u : BitVec n} (hT : Additive T) (hk : Kills T low) (hn : 0 < n)
    {k e : ℕ} (he : e < 2 ^ k) (hinv : mulMod low u (powX low k e ^^^ 1#n) = 1#n) {v : BitVec n}
    (hfix : T^[e] v = v) : v = 0#n := by
  have hmoved : act T (powX low k e ^^^ 1#n) v = 0#n := by
    rw [act_xor hT, act_powX hT hk hn he, hfix, act_one hT v hn, BitVec.xor_self]
  have hone : act T u (act T (powX low k e ^^^ 1#n) v) = v := by
    rw [← act_mulMod hT hk, hinv, act_one hT v hn]
  rw [← hone, hmoved, (additive_act hT u).map_zero]

/-! ## The same on numbers

A word is the number of its bits, and the polynomial is the number `2 ^ n + low`. -/

def timesXNumber (n poly a : ℕ) : ℕ := (2 * a) ^^^ ((a >>> (n - 1)) * poly)

/-- The top `k` coefficients of `a`, times `b`. -/
def productFrom (n poly a b : ℕ) : ℕ → ℕ
  | 0 => 0
  | k + 1 => ((a >>> (n - (k + 1))) % 2 * b) ^^^ timesXNumber n poly (productFrom n poly a b k)

def productNumber (n poly a b : ℕ) : ℕ := productFrom n poly a b n

/-- As `powX`. -/
def powerNumber (n poly : ℕ) : ℕ → ℕ → ℕ
  | 0, _ => 1
  | k + 1, e =>
    if e % 2 = 1 then
      timesXNumber n poly
        (productNumber n poly (powerNumber n poly k (e / 2)) (powerNumber n poly k (e / 2)))
    else productNumber n poly (powerNumber n poly k (e / 2)) (powerNumber n poly k (e / 2))

theorem xor_two_pow_add {a b : ℕ} (ha : a < 2 ^ n) (hb : b < 2 ^ n) :
    (2 ^ n + a) ^^^ (2 ^ n + b) = a ^^^ b := by
  apply Nat.eq_of_testBit_eq
  intro i
  rw [Nat.testBit_xor, Nat.testBit_xor]
  rcases Nat.lt_trichotomy i n with hlt | rfl | hgt
  · rw [Nat.testBit_two_pow_add_gt hlt, Nat.testBit_two_pow_add_gt hlt]
  · rw [Nat.testBit_two_pow_add_eq, Nat.testBit_two_pow_add_eq, Nat.testBit_lt_two_pow ha,
      Nat.testBit_lt_two_pow hb]
    rfl
  · have habove : 2 ^ n + 2 ^ n ≤ 2 ^ i := by
      rw [← Nat.two_mul, ← Nat.pow_succ']
      exact Nat.pow_le_pow_right Nat.two_pos hgt
    rw [Nat.testBit_lt_two_pow (by omega), Nat.testBit_lt_two_pow (by omega),
      Nat.testBit_lt_two_pow (by omega), Nat.testBit_lt_two_pow (by omega)]

theorem toNat_timesX (hn : 0 < n) (low a : BitVec n) :
    (timesX low a).toNat = timesXNumber n (2 ^ n + low.toNat) a.toNat := by
  have htop : 2 ^ n = 2 * 2 ^ (n - 1) := by
    rw [← Nat.pow_succ', Nat.succ_eq_add_one, Nat.sub_add_cancel hn]
  have ha := a.isLt
  have hshift : (a <<< 1).toNat = 2 * a.toNat % 2 ^ n := by
    rw [BitVec.toNat_shiftLeft, Nat.shiftLeft_eq, Nat.pow_one, Nat.mul_comm]
  rw [timesX, BitVec.toNat_xor, hshift, BitVec.msb_eq_decide, timesXNumber,
    Nat.shiftRight_eq_div_pow]
  by_cases hmsb : 2 ^ (n - 1) ≤ a.toNat
  · have hquot : a.toNat / 2 ^ (n - 1) = 1 := Nat.div_eq_of_lt_le (by omega) (by omega)
    have hrest : 2 * a.toNat = 2 ^ n + 2 * a.toNat % 2 ^ n := by
      have hsub : 2 * a.toNat % 2 ^ n = 2 * a.toNat - 2 ^ n := by
        rw [Nat.mod_eq_sub_mod (by omega), Nat.mod_eq_of_lt (by omega)]
      omega
    rw [if_pos (decide_eq_true hmsb), hquot, Nat.one_mul]
    calc (2 * a.toNat % 2 ^ n) ^^^ low.toNat
        = (2 ^ n + 2 * a.toNat % 2 ^ n) ^^^ (2 ^ n + low.toNat) :=
          (xor_two_pow_add (Nat.mod_lt _ (Nat.two_pow_pos n)) low.isLt).symm
      _ = (2 * a.toNat) ^^^ (2 ^ n + low.toNat) := by rw [← hrest]
  · have hquot : a.toNat / 2 ^ (n - 1) = 0 := Nat.div_eq_of_lt (by omega)
    have hsmall : 2 * a.toNat % 2 ^ n = 2 * a.toNat := Nat.mod_eq_of_lt (by omega)
    rw [if_neg (by simpa using hmsb), hquot, Nat.zero_mul, hsmall]
    rfl

theorem toNat_eval_range (hn : 0 < n) (low a b : BitVec n) {k : ℕ} (hk : k ≤ n) :
    (eval (timesX low) b ((List.range' (n - k) k).map a.getLsbD)).toNat =
      productFrom n (2 ^ n + low.toNat) a.toNat b.toNat k := by
  induction k with
  | zero => rfl
  | succ k ih =>
    have hnext : n - (k + 1) + 1 = n - k := by omega
    have hbit : (if a.getLsbD (n - (k + 1)) then b else 0#n).toNat =
        (a.toNat >>> (n - (k + 1))) % 2 * b.toNat := by
      rw [BitVec.getLsbD, Nat.testBit_eq_decide_div_mod_eq, Nat.shiftRight_eq_div_pow]
      rcases Nat.mod_two_eq_zero_or_one (a.toNat / 2 ^ (n - (k + 1))) with hzero | hone
      · rw [hzero, Nat.zero_mul]
        rfl
      · rw [hone, Nat.one_mul]
        rfl
    rw [List.range'_succ, List.map_cons, eval, BitVec.toNat_xor, hbit, toNat_timesX hn, hnext,
      ih (by omega), productFrom]

theorem toNat_mulMod (hn : 0 < n) (low a b : BitVec n) :
    (mulMod low a b).toNat = productNumber n (2 ^ n + low.toNat) a.toNat b.toNat := by
  have hall := toNat_eval_range hn low a b (Nat.le_refl n)
  rwa [Nat.sub_self, ← List.range_eq_range'] at hall

theorem toNat_powX (hn : 0 < n) (low : BitVec n) (k e : ℕ) :
    (powX low k e).toNat = powerNumber n (2 ^ n + low.toNat) k e := by
  induction k generalizing e with
  | zero => exact Nat.mod_eq_of_lt (Nat.one_lt_two_pow (by omega))
  | succ k ih =>
    rw [powX, powerNumber]
    split
    · rw [toNat_timesX hn, toNat_mulMod hn, ih]
    · rw [toNat_mulMod hn, ih]

/-! ## Periods -/

/-- The period is `N` when `N` steps lead back and, for each prime of `N`, `N / p` do
not. -/
theorem minimalPeriod_eq_of_primes {α : Type} {f : α → α} {x : α} {ps : List ℕ}
    (hprime : ∀ p ∈ ps, p.Prime) (hback : Function.IsPeriodicPt f ps.prod x)
    (hnot : ∀ p ∈ ps, ¬ Function.IsPeriodicPt f (ps.prod / p) x) :
    Function.minimalPeriod f x = ps.prod := by
  have hpos : 0 < ps.prod := List.prod_pos fun p hp => (hprime p hp).pos
  obtain ⟨q, hq⟩ := hback.minimalPeriod_dvd
  by_contra hne
  have hq1 : q ≠ 1 := by
    rintro rfl
    rw [Nat.mul_one] at hq
    exact hne hq.symm
  -- A prime of the quotient is one of the list.
  obtain ⟨p, hp, r, hr⟩ := Nat.exists_prime_and_dvd hq1
  have hprod : ps.prod = Function.minimalPeriod f x * r * p := by
    rw [hq, hr, Nat.mul_comm p r, Nat.mul_assoc]
  obtain ⟨p', hp', hdvd⟩ := (Nat.prime_iff.mp hp).dvd_prod_iff.mp (Dvd.intro_left _ hprod.symm)
  have heq : p = p' := (Nat.prime_dvd_prime_iff_eq hp (hprime p' hp')).mp hdvd
  subst heq
  apply hnot p hp'
  have hquot : ps.prod / p = Function.minimalPeriod f x * r := by
    rw [hprod, Nat.mul_div_cancel _ hp.pos]
  rw [hquot]
  exact (Function.isPeriodicPt_minimalPeriod f x).trans_dvd (Dvd.intro _ rfl)

theorem iterate_eq_iff_mod {α : Type} {f : α → α} {x : α} (h : 0 < Function.minimalPeriod f x)
    {i j : ℕ} : f^[i] x = f^[j] x ↔ i ≡ j [MOD Function.minimalPeriod f x] := by
  rw [← Function.iterate_mod_minimalPeriod_eq (n := i),
    ← Function.iterate_mod_minimalPeriod_eq (n := j)]
  exact Function.iterate_eq_iterate_iff_of_lt_minimalPeriod (Nat.mod_lt _ h) (Nat.mod_lt _ h)

/-- A word that some steps lead back to is never led to 0, which stays 0. -/
theorem iterate_ne_zero (hT : Additive T) {N : ℕ} {v : BitVec n} (hN : 0 < N)
    (hback : Function.IsPeriodicPt T N v) (hv : v ≠ 0#n) (k : ℕ) : T^[k] v ≠ 0#n := by
  intro hzero
  have hsplit : N * k = (N * k - k) + k := by
    have := Nat.le_mul_of_pos_left k hN
    omega
  apply hv
  calc v = T^[N * k] v := (hback.mul_const k).symm
    _ = T^[N * k - k] (T^[k] v) := by rw [← Function.iterate_add_apply, ← hsplit]
    _ = 0#n := by rw [hzero, (hT.iterate _).map_zero]

/-! ## Full periods -/

theorem mapsTo_along {x : BitVec n} (hne : ∀ k, T^[k] x ≠ 0#n) :
    Set.MapsTo (fun k => (T^[k] x).toNat) (Finset.range (2 ^ n - 1))
      ((Finset.range (2 ^ n)).erase 0) := by
  intro k _
  apply Finset.mem_coe.mpr
  refine Finset.mem_erase.mpr ⟨?_, Finset.mem_range.mpr (T^[k] x).isLt⟩
  intro hzero
  exact hne k (BitVec.eq_of_toNat_eq hzero)

section

variable {x : BitVec n} (hperiod : Function.minimalPeriod T x = 2 ^ n - 1)
  (hne : ∀ k, T^[k] x ≠ 0#n)

include hperiod

theorem injOn_along :
    Set.InjOn (fun k => (T^[k] x).toNat) (Finset.range (2 ^ n - 1)) := by
  intro i hi j hj hij
  rw [Finset.coe_range, Set.mem_Iio, ← hperiod] at hi hj
  exact (Function.iterate_eq_iterate_iff_of_lt_minimalPeriod hi hj).mp (BitVec.eq_of_toNat_eq hij)

include hne

theorem surjOn_along : Set.SurjOn (fun k => (T^[k] x).toNat) (Finset.range (2 ^ n - 1))
    ((Finset.range (2 ^ n)).erase 0) := by
  refine Finset.surjOn_of_injOn_of_card_le _ (mapsTo_along hne) (injOn_along hperiod) ?_
  rw [Finset.card_erase_of_mem (Finset.mem_range.mpr (Nat.two_pow_pos n)), Finset.card_range,
    Finset.card_range]

/-- Along a full period every word but 0 occurs once. -/
theorem count_along (p : ℕ → Prop) [DecidablePred p] :
    Nat.count (fun k => p (T^[k] x).toNat) (2 ^ n - 1) + (if p 0 then 1 else 0) =
      Nat.count p (2 ^ n) := by
  have hbij : ((Finset.range (2 ^ n - 1)).filter fun k => p (T^[k] x).toNat).card =
      (((Finset.range (2 ^ n)).filter p).erase 0).card := by
    refine Finset.card_nbij (fun k => (T^[k] x).toNat) ?_ ?_ ?_
    · intro k hk
      obtain ⟨hk, hp⟩ := Finset.mem_filter.mp hk
      obtain ⟨hzero, hlt⟩ := Finset.mem_erase.mp (mapsTo_along hne hk)
      exact Finset.mem_erase.mpr ⟨hzero, Finset.mem_filter.mpr ⟨hlt, hp⟩⟩
    · exact (injOn_along hperiod).mono fun k hk => (Finset.mem_filter.mp hk).1
    · intro a ha
      obtain ⟨hzero, ha⟩ := Finset.mem_erase.mp ha
      obtain ⟨hlt, hp⟩ := Finset.mem_filter.mp ha
      obtain ⟨k, hk, rfl⟩ := surjOn_along hperiod hne (Finset.mem_erase.mpr ⟨hzero, hlt⟩)
      exact ⟨k, Finset.mem_filter.mpr ⟨hk, hp⟩, rfl⟩
  rw [Nat.count_eq_card_filter_range, Nat.count_eq_card_filter_range, hbij]
  split
  case isTrue hp =>
    exact Finset.card_erase_add_one
      (Finset.mem_filter.mpr ⟨Finset.mem_range.mpr (Nat.two_pow_pos n), hp⟩)
  case isFalse hp =>
    rw [Finset.erase_eq_of_notMem fun h => hp (Finset.mem_filter.mp h).2, Nat.add_zero]

/-- The low `k` bits take every value equally often, apart from 0, which comes once less. -/
theorem count_low_bits {k : ℕ} (hk : k ≤ n) {a : ℕ} (ha : a < 2 ^ k) :
    Nat.count (fun i => (T^[i] x).toNat % 2 ^ k = a) (2 ^ n - 1) =
      2 ^ (n - k) - (if a = 0 then 1 else 0) := by
  have hall : Nat.count (fun b => b % 2 ^ k = a) (2 ^ n) = 2 ^ (n - k) := by
    have hmod := Nat.count_modEq_card (2 ^ n) (Nat.two_pow_pos k) a
    rw [Nat.mod_eq_zero_of_dvd (Nat.pow_dvd_pow 2 hk), if_neg (Nat.not_lt_zero _),
      Nat.pow_div hk (by omega), Nat.add_zero] at hmod
    simpa only [Nat.ModEq, Nat.mod_eq_of_lt ha] using hmod
  have halong := count_along hperiod hne fun b => b % 2 ^ k = a
  rw [hall, Nat.zero_mod] at halong
  simp only [eq_comm (a := 0)] at halong
  omega

end

end BinaryPolynomials
