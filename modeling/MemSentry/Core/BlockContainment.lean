import MemSentry.Core.BlockIntegrity

/-!
# A block holds all its parts

`calculate_total_size` reserves the worst case of the rounding that `init_block` does on
the actual address. `blockContainment` is about every address and every alignment whose
true sizes fit: the payload starts behind the header and the back offset, the footer ends
inside the block, no store of `init_block` leaves the block, and the header does not
promise more than was reserved. The mask only rounds to a multiple of the alignment when
that is a power of two.
-/

namespace MemSentry.Core

open ByteMemory

def totalSizeOf (m : Memory) (header : Ptr) : Word := loadWord m (header + 24)

/-- Where `encode` puts the size of the block. -/
theorem encode_totalSize (h : BlockHeader) :
    (h.encode.drop 24).take 8 = leBytes 8 h.totalSize.toNat := by
  unfold BlockHeader.encode
  simp [List.drop_append, List.drop_eq_nil_of_le]

/-- With a power of two the user pointer is a multiple of the effective alignment. -/
theorem effectiveAlignment_dvd_userAddress {raw alignment : Word} {k : Nat}
    (hk : alignment.toNat = 2 ^ k) :
    (effectiveAlignment alignment).toNat ∣ (userAddress raw alignment).toNat := by
  obtain ⟨j, hj, _, heff⟩ := effectiveAlignment_two_pow hk
  have hpow : (effectiveAlignment alignment).toNat = 2 ^ j := by
    rw [heff, BitVec.toNat_ofNat, Nat.mod_eq_of_lt (Nat.pow_lt_pow_right (by decide) hj)]
  rw [hpow]
  unfold userAddress
  dsimp only
  rw [heff]
  exact dvd_and_not hj

section Init

variable {m : Memory} {raw requested alignment footer allocId : Word} {tag : Ptr} {canary : Bool}
  {tid : BitVec 32} {total : Nat}

/-- The header stays as `init_block` first writes it: the later stores lie above it. -/
theorem initBlock_encode
    (h : Placed raw (userAddress raw alignment) requested.toNat footer.toNat total) {i : Nat}
    (hi : i < 64) :
    (initBlock m raw requested alignment footer allocId tag canary tid).2.1
        (raw + BitVec.ofNat 64 i) =
      writeBytes m raw
        (initHeader raw requested alignment footer allocId tag canary tid).encode
        (raw + BitVec.ofNat 64 i) := by
  have hlen := canaryLength_le canary footer
  have hbelow := h.below
  have habove := h.above
  have hspace := h.space
  have hfooter := h.toNat_footer
  have hback := h.toNat_backOffset
  have haddr : (raw + BitVec.ofNat 64 i).toNat = raw.toNat + i := toNat_add_ofNat (by omega)
  rw [initBlock_memory h.raw_ne_zero, writeBytes_of_not_inSpan, writeBytes_of_not_inSpan]
  · rw [length_leBytes, inSpan_iff (by omega)]
    omega
  · rw [length_redZone, inSpan_iff (by omega)]
    omega

/-- A word of the header is read back as it was written. -/
theorem initBlock_word {k : Nat} {v : Word}
    (h : Placed raw (userAddress raw alignment) requested.toNat footer.toNat total)
    (hk : k + 8 ≤ 64)
    (hv : ((initHeader raw requested alignment footer allocId tag canary tid).encode.drop k).take 8 =
      leBytes 8 v.toNat) :
    loadWord (initBlock m raw requested alignment footer allocId tag canary tid).2.1
      (raw + BitVec.ofNat 64 k) = v := by
  have hread := @readBytes_header m raw
    (initHeader raw requested alignment footer allocId tag canary tid) k 8 hk
  rw [hv] at hread
  apply loadWord_of_readBytes
  rw [← hread]
  apply readBytes_congr
  intro i hi
  rw [← add_ofNat_add, ← initBlock_encode h (by omega), add_ofNat_add]

theorem initBlock_totalSize
    (h : Placed raw (userAddress raw alignment) requested.toNat footer.toNat total) :
    totalSizeOf (initBlock m raw requested alignment footer allocId tag canary tid).2.1 raw =
      (initHeader raw requested alignment footer allocId tag canary tid).totalSize :=
  initBlock_word h (by decide) (encode_totalSize _)

/-- The size in the header counts the footer only when the block has one. -/
theorem toNat_headerTotalSize
    (h : Placed raw (userAddress raw alignment) requested.toNat footer.toNat total) :
    (initHeader raw requested alignment footer allocId tag canary tid).totalSize.toNat =
      ((userAddress raw alignment).toNat - raw.toNat) + requested.toNat +
        (if canary then footer else 0).toNat := by
  have hbelow := h.below
  have habove := h.above
  have hspace := h.space
  have hle : (if canary then footer else 0).toNat ≤ footer.toNat := by
    cases canary
    · exact Nat.zero_le _
    · exact Nat.le_refl _
  have hoffset : (userAddress raw alignment - raw).toNat =
      (userAddress raw alignment).toNat - raw.toNat := toNat_sub_of_le (by omega)
  have hpayload : (userAddress raw alignment - raw + requested).toNat =
      (userAddress raw alignment).toNat - raw.toNat + requested.toNat := by
    rw [BitVec.toNat_add_of_lt (by omega), hoffset]
  change (userAddress raw alignment - raw + requested + (if canary then footer else 0)).toNat = _
  rw [BitVec.toNat_add_of_lt (by omega), hpayload]

/-- Every store of `init_block` lies in the block. -/
theorem initBlock_inside
    (h : Placed raw (userAddress raw alignment) requested.toNat footer.toNat total) {a : Access}
    (ha : a ∈ (initBlock m raw requested alignment footer allocId tag canary tid).2.2) :
    a.Inside raw total := by
  have hbelow := h.below
  have habove := h.above
  unfold initBlock at ha
  rw [if_neg h.raw_ne_zero] at ha
  obtain ⟨s, hs, rfl⟩ := List.mem_map.mp ha
  rcases List.mem_append.mp hs with hfirst | hfooter
  · simp only [List.mem_cons, List.not_mem_nil, or_false] at hfirst
    rcases hfirst with rfl | rfl
    · rw [storeAccess, length_encode]
      change Access.Inside raw total ⟨raw, 64⟩
      exact Access.inside_of_le h.space (Nat.le_refl _) (by omega)
    · rw [storeAccess, length_leBytes]
      exact h.backOffset_inside
  · split at hfooter
    · obtain ⟨c, hc, rfl⟩ := List.mem_map.mp hfooter
      rw [storeAccess_chunkStore hc]
      exact h.footer_inside (Nat.le_refl _) hc
    · cases hfooter

end Init

/-- For every address, payload size, alignment and footer size whose true sum fits: what
`init_block` lays out lies in the `calculate_total_size` bytes from the raw pointer up. A
null pointer is refused and nothing is written. -/
theorem blockContainment (m : Memory) (raw requested alignment footer allocId : Word) (tag : Ptr)
    (canary : Bool) (tid : BitVec 32) (hfit : SizesFit requested alignment footer)
    (hspace : raw.toNat + (calculateTotalSize requested alignment footer).toNat ≤ 2 ^ 64) :
    let total := (calculateTotalSize requested alignment footer).toNat
    let result := initBlock m raw requested alignment footer allocId tag canary tid
    if raw = 0 then result = (0, m, []) else
      let user := result.1
      let after := result.2.1
      let userOffset := (userOffsetOf after raw).toNat
      user.toNat = raw.toNat + userOffset ∧
      68 ≤ userOffset ∧
      userOffset + requested.toNat + footer.toNat ≤ total ∧
      (totalSizeOf after raw).toNat ≤ total ∧
      (raw.toNat < user.toNat ∧ user.toNat < raw.toNat + total) ∧
      (∀ a ∈ result.2.2, a.Inside raw total) ∧
      (∀ a, ¬ InSpan raw total a → after a = m a) ∧
      ((∃ k, alignment.toNat = 2 ^ k) → max alignment.toNat 16 ∣ user.toNat) := by
  dsimp only
  by_cases hraw : raw = 0
  · rw [if_pos hraw, initBlock, if_pos hraw]
  rw [if_neg hraw]
  have hp := placed_userAddress hraw hfit hspace
  have hbelow := hp.below
  have habove := hp.above
  have hheader := @initBlock_header m raw requested alignment footer allocId tag canary tid _ hp
  have hoffset : (userOffsetOf
      (initBlock m raw requested alignment footer allocId tag canary tid).2.1 raw).toNat =
      (userAddress raw alignment).toNat - raw.toNat := by
    rw [hheader.userOffset, toNat_sub_of_le (by omega)]
  have hcounted : (if canary then footer else 0).toNat ≤ footer.toNat := by
    cases canary
    · exact Nat.zero_le _
    · exact Nat.le_refl _
  rw [initBlock_user hraw, hoffset, initBlock_totalSize hp, toNat_headerTotalSize hp]
  refine ⟨by omega, by omega, by omega, by omega, ⟨by omega, by omega⟩, ?_, ?_, ?_⟩
  · intro a ha
    exact initBlock_inside hp ha
  · intro a ha
    exact initBlock_frame hp ha
  · rintro ⟨k, hk⟩
    rw [← toNat_effectiveAlignment]
    exact effectiveAlignment_dvd_userAddress hk

/-- An empty payload without footer, at an odd address and with an alignment of 48. -/
theorem blockContainment_empty :
    let result := initBlock (fun _ => 0) 0x1001 0 48 0 7 0 false 1
    (result.1.toNat = 0x1001 + (userOffsetOf result.2.1 0x1001).toNat ∧
      68 ≤ (userOffsetOf result.2.1 0x1001).toNat) ∧
      ∀ a ∈ result.2.2, a.Inside 0x1001 116 := by
  have h := blockContainment (fun _ => 0) 0x1001 0 48 0 7 0 false 1 (by decide) (by decide)
  dsimp only at h
  rw [if_neg (by decide)] at h
  obtain ⟨huser, hoffset, _, _, _, hinside, _⟩ := h
  exact ⟨⟨huser, hoffset⟩, hinside⟩

end MemSentry.Core
