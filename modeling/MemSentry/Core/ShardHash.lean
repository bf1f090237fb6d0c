import MemSentry.Core.ShardedTracker

/-!
# The shard hash

`get_shard_index` multiplies by the constant of Fibonacci hashing and then keeps the six
lowest bits. The lowest bits of a product depend on the lowest bits of its factors alone,
so the hash sees bits 4 to 9 of the address and nothing above (`getShardIndex_eq_iff`); the
bits that the multiplication has mixed are those it throws away. Blocks that lie a
multiple of 1024 bytes apart share one shard, its lock and its quarantine.
-/

namespace MemSentry.Core

/-- The address of the `i`-th of the blocks that lie `2 ^ k` bytes apart. -/
def strided (b : Ptr) (k i : Nat) : Ptr := b + BitVec.ofNat 64 (i * 2 ^ k)

/-- The 64 blocks are all mapped to one shard. -/
def SharesShard (b : Ptr) (k : Nat) : Prop :=
  ∃ s, ∀ i < 64, getShardIndex (strided b k i) = s

variable {b p q : Ptr} {k i : Nat}

/-- The multiplier modulo 64 is 21. -/
theorem getShardIndex_val (p : Ptr) : (getShardIndex p).val = p.toNat / 16 * 21 % 64 := by
  have hmask : (63#64).toNat = 2 ^ 6 - 1 := rfl
  have hmod : ∀ n : Nat, n * 0x9E3779B97F4A7C15 % 2 ^ 64 % 2 ^ 6 = n * 21 % 64 := by
    intro n
    omega
  unfold getShardIndex
  dsimp only
  rw [BitVec.toNat_and, hmask, Nat.and_two_pow_sub_one_eq_mod, BitVec.toNat_mul,
    BitVec.toNat_ushiftRight, Nat.shiftRight_eq_div_pow]
  exact hmod _

/-- Being odd, the multiplier keeps apart what six bits keep apart. -/
theorem getShardIndex_eq_iff :
    getShardIndex p = getShardIndex q ↔ p.toNat / 16 % 64 = q.toNat / 16 % 64 := by
  rw [Fin.ext_iff, getShardIndex_val, getShardIndex_val]
  omega

theorem toNat_strided (hspace : b.toNat + 63 * 2 ^ k < 2 ^ 64) (hi : i < 64) :
    (strided b k i).toNat = b.toNat + i * 2 ^ k := by
  have hle : i * 2 ^ k ≤ 63 * 2 ^ k := Nat.mul_le_mul_right _ (Nat.le_of_lt_succ hi)
  exact ByteMemory.toNat_add_ofNat (by omega)

theorem strided_div (hk : 4 ≤ k) (hspace : b.toNat + 63 * 2 ^ k < 2 ^ 64) (hi : i < 64) :
    (strided b k i).toNat / 16 = b.toNat / 16 + i * 2 ^ (k - 4) := by
  have hpow : i * 2 ^ k = i * 2 ^ (k - 4) * 16 := by
    rw [Nat.mul_assoc, ← Nat.pow_add 2 (k - 4) 4, Nat.sub_add_cancel hk]
  rw [toNat_strided hspace hi, hpow, Nat.add_mul_div_right _ _ (by decide)]

theorem sharesShard_of_le (hk : 10 ≤ k) (hspace : b.toNat + 63 * 2 ^ k < 2 ^ 64) :
    SharesShard b k := by
  refine ⟨getShardIndex b, fun i hi => ?_⟩
  have hpow : i * 2 ^ (k - 4) = 64 * (i * 2 ^ (k - 10)) := by
    rw [show k - 4 = 6 + (k - 10) by omega, Nat.pow_add, Nat.mul_left_comm]
  rw [getShardIndex_eq_iff, strided_div (by omega) hspace hi, hpow, Nat.add_mul_mod_self_left]

/-- Already the second block is in another shard. -/
theorem not_sharesShard_of_lt (hlow : 4 ≤ k) (hk : k < 10)
    (hspace : b.toNat + 63 * 2 ^ k < 2 ^ 64) : ¬ SharesShard b k := by
  rintro ⟨s, hs⟩
  have hsame := getShardIndex_eq_iff.mp ((hs 0 (by decide)).trans (hs 1 (by decide)).symm)
  have hpos : 0 < 2 ^ (k - 4) := Nat.two_pow_pos _
  have hlt : 2 ^ (k - 4) < 2 ^ 6 := Nat.pow_lt_pow_right (by decide) (by omega)
  rw [strided_div hlow hspace (by decide), strided_div hlow hspace (by decide)] at hsame
  omega

/-- **Which strides spread over the shards**: those below 1024 bytes. From there on the
blocks have one shard in common, with its lock and its quarantine. -/
theorem stride_spreads_iff (b : Ptr) (k : Nat) (hlow : 4 ≤ k)
    (hspace : b.toNat + 63 * 2 ^ k < 2 ^ 64) :
    (¬ SharesShard b k ↔ k < 10) ∧
    (10 ≤ k → ∀ (t : ShardedTracker), ∀ i < 64, ∀ j < 64,
      t.shardOf (strided b k i) = t.shardOf (strided b k j)) := by
  refine ⟨⟨fun h => ?_, fun hk => not_sharesShard_of_lt hlow hk hspace⟩, fun hk t i hi j hj => ?_⟩
  · by_contra hk
    exact h (sharesShard_of_le (Nat.le_of_not_lt hk) hspace)
  · obtain ⟨s, hs⟩ := sharesShard_of_le hk hspace
    rw [ShardedTracker.shardOf, ShardedTracker.shardOf, hs i hi, hs j hj]

/-- Blocks 512 bytes apart are spread over two shards. -/
theorem stride_spreads_512 : ¬ SharesShard 0x10000#64 9 :=
  (stride_spreads_iff 0x10000#64 9 (by decide) (by decide)).1.mpr (by decide)

/-- Pages are not. -/
theorem pages_share_shard :
    (0x10000#64).toNat + 63 * 2 ^ 12 < 2 ^ 64 ∧ SharesShard 0x10000#64 12 := by
  refine ⟨by decide, getShardIndex 0x10000#64, ?_⟩
  decide +kernel

end MemSentry.Core
