import Mathlib.Data.BitVec
import Mathlib.Data.List.Basic

/-!
# A ring that remembers the last `N` pushes

A ring of `N` slots is written at `head % N` and its head counter is `w` bits wide, so
the counter wraps at `2 ^ w`. An entry can be forgotten: every slot that holds it is
emptied, and the head does not move.

The ring is compared with the unbounded log of its pushes, newest first, in which a
forgotten push leaves a hole (`none`). `Represents` says that slot `(head - 1 - k) % N`
shows entry `k` of the log for every `k < N`; it holds of the empty ring and is kept by
`push` (`Represents.push`, which is where `N ∣ 2 ^ w` is needed for the counter to wrap)
and by `forget`. So an entry is in the ring exactly when it is one of the `N` newest
entries of the log (`Represents.mem_iff`).
-/

namespace EvictingRing

/-- `N` slots and the counter of all pushes so far. -/
structure Ring (α : Type) (N w : Nat) where
  slots : Fin N → α
  head : BitVec w

variable {α : Type} {N w : Nat}

/-- The slot that the next push overwrites. -/
def Ring.cursor (r : Ring α N w) (hN : 0 < N) : Fin N := ⟨r.head.toNat % N, Nat.mod_lt _ hN⟩

def Ring.push (r : Ring α N w) (hN : 0 < N) (x : α) : Ring α N w where
  slots := Function.update r.slots (r.cursor hN) x
  head := r.head + 1

def Ring.forget [DecidableEq α] (r : Ring α N w) (hole x : α) : Ring α N w where
  slots := fun i => if r.slots i = x then hole else r.slots i
  head := r.head

/-- The slot written `k + 1` pushes ago. -/
def Ring.slotBack (r : Ring α N w) (hN : 0 < N) (k : Nat) : Fin N :=
  ⟨(r.head.toNat + (N - 1 - k)) % N, Nat.mod_lt _ hN⟩

/-- What a log entry shows in its slot. -/
def shown (hole : α) : Option (Option α) → α
  | some (some x) => x
  | _ => hole

/-- The slots show the `N` newest entries of the log. -/
def Represents (hN : 0 < N) (hole : α) (r : Ring α N w) (log : List (Option α)) : Prop :=
  ∀ k < N, r.slots (r.slotBack hN k) = shown hole log[k]?

/-! ## Positions of the slots -/

theorem add_one_mod {h : BitVec w} (hdvd : N ∣ 2 ^ w) :
    (h + 1).toNat % N = (h.toNat + 1) % N := by
  have hone : (1 : BitVec w).toNat % N = 1 % N := by
    rw [show (1 : BitVec w) = BitVec.ofNat w 1 from rfl, BitVec.toNat_ofNat,
      Nat.mod_mod_of_dvd _ hdvd]
  rw [BitVec.toNat_add, Nat.mod_mod_of_dvd _ hdvd, Nat.add_mod, hone, ← Nat.add_mod]

theorem mod_add_eq_iff {a c d : Nat} (hc : c < N) (hd : d < N) :
    (a + c) % N = (a + d) % N ↔ c = d := by
  constructor
  · intro h
    have hcd : c ≡ d [MOD N] := Nat.ModEq.add_left_cancel' a h
    rwa [Nat.ModEq, Nat.mod_eq_of_lt hc, Nat.mod_eq_of_lt hd] at hcd
  · rintro rfl
    rfl

theorem slotBack_push_zero (hN : 0 < N) (hdvd : N ∣ 2 ^ w) (r : Ring α N w) (x : α) :
    (r.push hN x).slotBack hN 0 = r.cursor hN := by
  apply Fin.ext
  simp only [Ring.slotBack, Ring.push, Ring.cursor]
  rw [Nat.add_mod, add_one_mod hdvd, ← Nat.add_mod,
    show r.head.toNat + 1 + (N - 1 - 0) = r.head.toNat + N by omega, Nat.add_mod_right]

theorem slotBack_push_succ (hN : 0 < N) (hdvd : N ∣ 2 ^ w) (r : Ring α N w) (x : α) {k : Nat}
    (hk : k + 1 < N) : (r.push hN x).slotBack hN (k + 1) = r.slotBack hN k := by
  apply Fin.ext
  simp only [Ring.slotBack, Ring.push]
  rw [Nat.add_mod, add_one_mod hdvd, ← Nat.add_mod,
    show r.head.toNat + 1 + (N - 1 - (k + 1)) = r.head.toNat + (N - 1 - k) by omega]

theorem slotBack_ne_cursor (hN : 0 < N) (r : Ring α N w) {k : Nat} (hk : k + 1 < N) :
    r.slotBack hN k ≠ r.cursor hN := by
  intro h
  have hmod : (r.head.toNat + (N - 1 - k)) % N = (r.head.toNat + 0) % N := congrArg Fin.val h
  have := (mod_add_eq_iff (by omega) hN).mp hmod
  omega

/-- Every slot was written at most `N` pushes ago. -/
theorem exists_slotBack (hN : 0 < N) (r : Ring α N w) (i : Fin N) :
    ∃ k < N, r.slotBack hN k = i := by
  have hi := i.isLt
  have hmod := Nat.mod_lt r.head.toNat hN
  have hdiv := Nat.div_add_mod r.head.toNat N
  -- the distance from the slot up to the cursor, going round once if need be
  by_cases hle : i.val < r.head.toNat % N
  · refine ⟨r.head.toNat % N - 1 - i.val, by omega, Fin.ext ?_⟩
    have hsum : r.head.toNat + (N - 1 - (r.head.toNat % N - 1 - i.val)) =
        i.val + N * (r.head.toNat / N + 1) := by
      rw [Nat.mul_add, Nat.mul_one]
      omega
    simp only [Ring.slotBack, hsum, Nat.add_mul_mod_self_left, Nat.mod_eq_of_lt hi]
  · refine ⟨r.head.toNat % N + N - 1 - i.val, by omega, Fin.ext ?_⟩
    have hsum : r.head.toNat + (N - 1 - (r.head.toNat % N + N - 1 - i.val)) =
        i.val + N * (r.head.toNat / N) := by
      omega
    simp only [Ring.slotBack, hsum, Nat.add_mul_mod_self_left, Nat.mod_eq_of_lt hi]

/-! ## The ring against its log -/

theorem Represents.empty (hN : 0 < N) (hole : α) (h : BitVec w) :
    Represents hN hole ⟨fun _ => hole, h⟩ [] := by
  intro k _
  rfl

theorem Represents.push {hN : 0 < N} {hole : α} {r : Ring α N w} {log : List (Option α)}
    (h : Represents hN hole r log) (hdvd : N ∣ 2 ^ w) (x : α) :
    Represents hN hole (r.push hN x) (some x :: log) := by
  intro k hk
  cases k with
  | zero =>
    rw [slotBack_push_zero hN hdvd]
    exact Function.update_self _ _ _
  | succ k =>
    rw [slotBack_push_succ hN hdvd r x hk, List.getElem?_cons_succ, ← h k (by omega)]
    exact Function.update_of_ne (slotBack_ne_cursor hN r hk) _ _

/-- Forgetting `x` turns every push of `x` in the log into a hole. -/
def forgetLog [DecidableEq α] (x : α) (log : List (Option α)) : List (Option α) :=
  log.map fun e => if e = some x then none else e

theorem Represents.forget [DecidableEq α] {hN : 0 < N} {hole : α} {r : Ring α N w}
    {log : List (Option α)} (h : Represents hN hole r log) (x : α) :
    Represents hN hole (r.forget hole x) (forgetLog x log) := by
  intro k hk
  have hslot := h k hk
  change (if r.slots (r.slotBack hN k) = x then hole else r.slots (r.slotBack hN k)) = _
  rw [hslot, forgetLog, List.getElem?_map]
  rcases log[k]? with _ | _ | y
  · exact ite_self hole
  · exact ite_self hole
  · by_cases hy : y = x <;> simp [shown, hy]

/-- An entry is in the ring when it is one of the `N` newest entries of the log. -/
theorem Represents.mem_iff {hN : 0 < N} {hole x : α} {r : Ring α N w} {log : List (Option α)}
    (h : Represents hN hole r log) (hx : x ≠ hole) :
    (∃ i, r.slots i = x) ↔ ∃ k < N, log[k]? = some (some x) := by
  constructor
  · rintro ⟨i, hi⟩
    obtain ⟨k, hk, rfl⟩ := exists_slotBack hN r i
    refine ⟨k, hk, ?_⟩
    rw [h k hk] at hi
    rcases hlog : log[k]? with _ | _ | y
    · rw [hlog] at hi
      exact absurd hi.symm hx
    · rw [hlog] at hi
      exact absurd hi.symm hx
    · rw [hlog] at hi
      exact congrArg (fun z => some (some z)) hi
  · rintro ⟨k, hk, hlog⟩
    refine ⟨r.slotBack hN k, ?_⟩
    rw [h k hk, hlog]
    rfl

end EvictingRing
