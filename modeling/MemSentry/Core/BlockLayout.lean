import MemSentry.Core.Header
import Mathlib.Data.Nat.Bitwise

/-!
# Where the parts of a block lie

`calculate_total_size` and `init_block` round the same numbers in two places. When the
true sum of the parts fits a `size_t`, the raw block has room for the header, the back
offset, the payload and the footer, and at least one byte is left over behind the footer
(`placed_userAddress`). The rounding of `user_addr` is by a mask, so these bounds hold
for every alignment; that the result is a multiple of the alignment needs a power of two
(`dvd_userAddress`).
-/

namespace MemSentry.Core

/-- `sizeof(BlockHeader) + sizeof(uint32_t)`. -/
theorem headerSize_add_backOffsetSize : headerSize + backOffsetSize = 68#64 := rfl

/-- The true sum of the parts of a block fits a `size_t`. -/
def SizesFit (requestedSize alignment footerSize : Word) : Prop :=
  68 + (effectiveAlignment alignment).toNat + requestedSize.toNat + footerSize.toNat < 2 ^ 64

instance (requestedSize alignment footerSize : Word) :
    Decidable (SizesFit requestedSize alignment footerSize) :=
  inferInstanceAs (Decidable (_ < _))

/-- The header, the back offset, the payload and the footer of a block, inside the
`total` bytes from `raw` up. -/
structure Placed (raw user : Ptr) (requested footer total : Nat) : Prop where
  raw_ne_zero : raw ≠ 0
  space : raw.toNat + total ≤ 2 ^ 64
  below : raw.toNat + 68 ≤ user.toNat
  above : user.toNat + requested + footer < raw.toNat + total

/-! ## The effective alignment -/

theorem toNat_effectiveAlignment (alignment : Word) :
    (effectiveAlignment alignment).toNat = max alignment.toNat 16 := by
  have h16 : maxAlign.toNat = 16 := rfl
  unfold effectiveAlignment
  split
  · rename_i h
    rw [gt_iff_lt, BitVec.lt_def, h16] at h
    omega
  · rename_i h
    rw [gt_iff_lt, BitVec.lt_def, h16] at h
    omega

theorem le_effectiveAlignment (alignment : Word) : 16 ≤ (effectiveAlignment alignment).toNat := by
  rw [toNat_effectiveAlignment]
  exact Nat.le_max_right _ _

/-- `allocate` rounds the alignment up and `init_block` does so again. -/
theorem effectiveAlignment_effectiveAlignment (alignment : Word) :
    effectiveAlignment (effectiveAlignment alignment) = effectiveAlignment alignment := by
  apply BitVec.eq_of_toNat_eq
  rw [toNat_effectiveAlignment, toNat_effectiveAlignment]
  omega

/-! ## The size of the raw block -/

/-- What `calculate_total_size` leaves for the payload. -/
theorem toNat_room {alignment footerSize : Word}
    (h : 68 + (effectiveAlignment alignment).toNat + footerSize.toNat < 2 ^ 64) :
    (sizeMax - (68#64 + effectiveAlignment alignment) - footerSize).toNat =
      2 ^ 64 - 1 - (68 + (effectiveAlignment alignment).toNat) - footerSize.toNat := by
  have hmax : sizeMax.toNat = 2 ^ 64 - 1 := rfl
  have hoff : (68#64 + effectiveAlignment alignment).toNat =
      68 + (effectiveAlignment alignment).toNat := by
    rw [BitVec.toNat_add_of_lt (by rw [BitVec.toNat_ofNat]; omega)]
    rfl
  have hfirst : (sizeMax - (68#64 + effectiveAlignment alignment)).toNat =
      2 ^ 64 - 1 - (68 + (effectiveAlignment alignment).toNat) := by
    rw [BitVec.toNat_sub_of_le (by rw [BitVec.le_def, hoff, hmax]; omega), hoff, hmax]
  rw [BitVec.toNat_sub_of_le (by rw [BitVec.le_def, hfirst]; omega), hfirst]

theorem toNat_calculateTotalSize {requestedSize alignment footerSize : Word}
    (h : SizesFit requestedSize alignment footerSize) :
    (calculateTotalSize requestedSize alignment footerSize).toNat =
      68 + (effectiveAlignment alignment).toNat + requestedSize.toNat + footerSize.toNat := by
  unfold SizesFit at h
  unfold calculateTotalSize
  rw [headerSize_add_backOffsetSize]
  have hoff : (68#64 + effectiveAlignment alignment).toNat =
      68 + (effectiveAlignment alignment).toNat := by
    rw [BitVec.toNat_add_of_lt (by rw [BitVec.toNat_ofNat]; omega)]
    rfl
  have hroom := @toNat_room alignment footerSize (by omega)
  dsimp only
  rw [if_neg (by rw [gt_iff_lt, BitVec.lt_def, hroom]; omega), BitVec.toNat_add_of_lt,
    BitVec.toNat_add_of_lt, hoff]
  · rw [hoff]
    omega
  · rw [BitVec.toNat_add_of_lt (by rw [hoff]; omega), hoff]
    omega

theorem ne_zero_of_sizesFit {requestedSize alignment footerSize : Word}
    (h : SizesFit requestedSize alignment footerSize) :
    calculateTotalSize requestedSize alignment footerSize ≠ 0 := by
  have htotal := toNat_calculateTotalSize h
  intro h0
  rw [h0, show (0 : Word).toNat = 0 from rfl] at htotal
  omega

/-- Once the other parts fit, the check of `calculate_total_size` is exact. -/
theorem sizesFit_of_ne_zero {requestedSize alignment footerSize : Word}
    (h : 68 + (effectiveAlignment alignment).toNat + footerSize.toNat < 2 ^ 64)
    (hne : calculateTotalSize requestedSize alignment footerSize ≠ 0) :
    SizesFit requestedSize alignment footerSize := by
  have hroom := toNat_room h
  unfold calculateTotalSize at hne
  rw [headerSize_add_backOffsetSize] at hne
  dsimp only at hne
  split at hne
  · exact absurd rfl hne
  · rename_i hle
    rw [gt_iff_lt, BitVec.lt_def, hroom] at hle
    unfold SizesFit
    omega

/-! ## The user pointer -/

/-- Clearing the bits of a mask takes at most the mask away. -/
theorem and_not_bounds (y k : Word) :
    (y &&& ~~~k).toNat ≤ y.toNat ∧ y.toNat ≤ (y &&& ~~~k).toNat + k.toNat := by
  have hsplit : (y &&& ~~~k) + (y &&& k) = y := by
    rw [BitVec.add_eq_or_of_and_eq_zero]
    · ext i hi
      simp only [BitVec.getElem_or, BitVec.getElem_and, BitVec.getElem_not]
      cases y[i] <;> cases k[i] <;> rfl
    · ext i hi
      simp only [BitVec.getElem_and, BitVec.getElem_not, BitVec.getElem_zero]
      cases y[i] <;> cases k[i] <;> rfl
  have hlow : (y &&& k).toNat ≤ k.toNat := by
    rw [BitVec.toNat_and]
    exact Nat.and_le_right
  have hhigh : (y &&& ~~~k).toNat ≤ y.toNat := by
    rw [BitVec.toNat_and]
    exact Nat.and_le_left
  have hsum := congrArg BitVec.toNat hsplit
  rw [BitVec.toNat_add] at hsum
  have hmod := Nat.mod_le ((y &&& ~~~k).toNat + (y &&& k).toNat) (2 ^ 64)
  omega

/-- The user pointer is at least 68 bytes and less than `68 + eff_align` above the raw
pointer. -/
theorem userAddress_bounds {raw alignment : Word}
    (h : raw.toNat + 68 + (effectiveAlignment alignment).toNat ≤ 2 ^ 64) :
    raw.toNat + 68 ≤ (userAddress raw alignment).toNat ∧
      (userAddress raw alignment).toNat < raw.toNat + 68 + (effectiveAlignment alignment).toNat := by
  have h16 := le_effectiveAlignment alignment
  have hmask : (effectiveAlignment alignment - 1).toNat =
      (effectiveAlignment alignment).toNat - 1 := by
    rw [BitVec.toNat_sub_of_le (by rw [BitVec.le_def]; exact Nat.le_trans (by decide) h16)]
    rfl
  have hmin : (raw + headerSize + backOffsetSize).toNat = raw.toNat + 68 := by
    rw [BitVec.add_assoc, headerSize_add_backOffsetSize, BitVec.toNat_add_of_lt]
    · rfl
    · rw [BitVec.toNat_ofNat]
      omega
  have htop : (raw + headerSize + backOffsetSize + (effectiveAlignment alignment - 1)).toNat =
      raw.toNat + 68 + ((effectiveAlignment alignment).toNat - 1) := by
    rw [BitVec.toNat_add_of_lt (by rw [hmin, hmask]; omega), hmin, hmask]
  obtain ⟨hle, hge⟩ := and_not_bounds
    (raw + headerSize + backOffsetSize + (effectiveAlignment alignment - 1))
    (effectiveAlignment alignment - 1)
  rw [htop, hmask] at hge
  rw [htop] at hle
  unfold userAddress
  dsimp only
  omega

/-- A block of `calculate_total_size` bytes has room for all its parts. -/
theorem placed_userAddress {raw requestedSize alignment footerSize : Word} (hraw : raw ≠ 0)
    (hfit : SizesFit requestedSize alignment footerSize)
    (hspace : raw.toNat + (calculateTotalSize requestedSize alignment footerSize).toNat ≤ 2 ^ 64) :
    Placed raw (userAddress raw alignment) requestedSize.toNat footerSize.toNat
      (calculateTotalSize requestedSize alignment footerSize).toNat := by
  have htotal := toNat_calculateTotalSize hfit
  obtain ⟨hlow, hhigh⟩ := @userAddress_bounds raw alignment (by omega)
  exact ⟨hraw, hspace, hlow, by omega⟩

theorem Placed.user_ne_zero {raw user : Ptr} {requested footer total : Nat}
    (h : Placed raw user requested footer total) : user ≠ 0 := by
  intro h0
  have hbelow := h.below
  rw [h0, show (0 : Ptr).toNat = 0 from rfl] at hbelow
  omega

/-- The rounding mask of a power of two leaves a multiple of it. -/
theorem dvd_and_not {y : Word} {k : Nat} (hk : k < 64) :
    2 ^ k ∣ (y &&& ~~~(BitVec.ofNat 64 (2 ^ k) - 1)).toNat := by
  have hpow : 2 ^ k < 2 ^ 64 := Nat.pow_lt_pow_right (by decide) hk
  have hmask : (BitVec.ofNat 64 (2 ^ k) - 1).toNat = 2 ^ k - 1 := by
    rw [BitVec.toNat_sub_of_le]
    · rw [BitVec.toNat_ofNat, Nat.mod_eq_of_lt hpow]
      rfl
    · rw [BitVec.le_def, BitVec.toNat_ofNat, Nat.mod_eq_of_lt hpow]
      exact Nat.one_le_two_pow
  apply Nat.dvd_of_mod_eq_zero
  rw [← Nat.and_two_pow_sub_one_eq_mod, ← hmask, ← BitVec.toNat_and, BitVec.and_assoc,
    BitVec.not_and_self]
  exact congrArg BitVec.toNat BitVec.and_zero

/-- The effective alignment of a power of two is a power of two at least as high. -/
theorem effectiveAlignment_two_pow {alignment : Word} {k : Nat} (hk : alignment.toNat = 2 ^ k) :
    ∃ j < 64, k ≤ j ∧ effectiveAlignment alignment = BitVec.ofNat 64 (2 ^ j) := by
  have heff := toNat_effectiveAlignment alignment
  have hlt : 2 ^ k < 2 ^ 64 := hk ▸ alignment.isLt
  rcases Nat.lt_or_ge k 4 with hsmall | hbig
  · have hpow : 2 ^ k ≤ 2 ^ 3 := Nat.pow_le_pow_right (by decide) (by omega)
    refine ⟨4, by decide, by omega, BitVec.eq_of_toNat_eq ?_⟩
    rw [heff, hk]
    change max (2 ^ k) 16 = 16
    omega
  · have hpow : 2 ^ 4 ≤ 2 ^ k := Nat.pow_le_pow_right (by decide) hbig
    refine ⟨k, (Nat.pow_lt_pow_iff_right (by decide)).mp hlt, Nat.le_refl k,
      BitVec.eq_of_toNat_eq ?_⟩
    rw [heff, hk, BitVec.toNat_ofNat, Nat.mod_eq_of_lt hlt]
    omega

/-- With a power of two the user pointer is a multiple of the alignment. -/
theorem dvd_userAddress {raw alignment : Word} {k : Nat} (hk : alignment.toNat = 2 ^ k) :
    alignment.toNat ∣ (userAddress raw alignment).toNat := by
  obtain ⟨j, hj, hle, heff⟩ := effectiveAlignment_two_pow hk
  rw [hk]
  refine Nat.dvd_trans (Nat.pow_dvd_pow 2 hle) ?_
  unfold userAddress
  dsimp only
  rw [heff]
  exact dvd_and_not hj

end MemSentry.Core
