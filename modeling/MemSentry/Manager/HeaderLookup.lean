import MemSentry.Core.BlockContainment
import MemSentry.Manager.Effects
import MemSentry.Manager.Hooks

/-!
# Finding the header from the user pointer

`init_block` stores the distance from the raw address to the user pointer in the four
bytes below the user pointer, and `get_header_from_user_ptr` walks back by it. The two do
not agree on how long the way may be. `init_block` rounds up to any alignment, the lookup
gives up after `4096 + sizeof(BlockHeader)` bytes. So the header of a block is found
exactly when some multiple of the alignment lies 68 to 4160 bytes above the raw address
(`lookup_iff`). Up to page alignment one always does (`exists_near_multiple`), above it
that depends on the raw address.
-/

namespace MemSentry

open ByteMemory MemSentry.Core World

/-- The longest way back that `get_header_from_user_ptr` goes. -/
def maxBackOffset : Nat := 4160

/-- The two memories agree outside the `n` bytes from `p` up. -/
def ConfinedTo (p : Ptr) (n : Nat) (m m' : Memory) : Prop := ∀ a, m' a ≠ m a → InSpan p n a

/-- A multiple of the effective alignment lies within reach of the lookup. -/
def NearMultiple (raw alignment : Word) : Prop :=
  ∃ d, 68 ≤ d ∧ d ≤ maxBackOffset ∧ (effectiveAlignment alignment).toNat ∣ raw.toNat + d

/-! ## What `init_block` leaves below the user pointer -/

section Init

variable {m : Memory} {raw requested alignment footer allocId : Word} {tag : Ptr} {canary : Bool}
  {tid : BitVec 32} {total : Nat}

theorem initBlock_backOffset
    (h : Placed raw (userAddress raw alignment) requested.toNat footer.toNat total) :
    readBytes (initBlock m raw requested alignment footer allocId tag canary tid).2.1
        (userAddress raw alignment - backOffsetSize) 4 =
      leBytes 4 (userAddress raw alignment - raw).toNat := by
  have hlen := canaryLength_le canary footer
  have hbelow := h.below
  have habove := h.above
  have hspace := h.space
  have hfooter := h.toNat_footer
  have hback := h.toNat_backOffset
  have hlength := length_leBytes 4 (userAddress raw alignment - raw).toNat
  have hwritten := @readBytes_writeBytes_self 64
    (writeBytes m raw (initHeader raw requested alignment footer allocId tag canary tid).encode)
    (userAddress raw alignment - backOffsetSize) _ (by rw [hlength]; decide)
  rw [hlength] at hwritten
  rw [initBlock_memory h.raw_ne_zero]
  -- the footer, which is written last, lies above
  refine (readBytes_congr fun i hi => ?_).trans hwritten
  have haddr : (userAddress raw alignment - backOffsetSize + BitVec.ofNat 64 i).toNat =
      (userAddress raw alignment).toNat - 4 + i := by
    rw [toNat_add_ofNat (by omega), hback]
  apply writeBytes_of_not_inSpan
  rw [length_redZone, inSpan_iff (by omega), haddr]
  omega

end Init

/-! ## The lookup -/

section Lookup

variable {m : Memory} {raw user : Ptr} {requested : Word} {canary : Bool} {footer total : Nat}

/-- The way back is 32 bits wide. -/
theorem loadHalf_of_readBytes {p : Ptr} {v : Word} (h : readBytes m p 4 = leBytes 4 v.toNat) :
    (loadHalf m p).toNat = v.toNat % 2 ^ 32 := by
  have hlt : v.toNat % 256 ^ 4 < 2 ^ 64 :=
    Nat.lt_of_lt_of_le (Nat.mod_lt _ (by decide)) (by decide)
  rw [loadHalf, load, h, ofLeBytes_leBytes, BitVec.toNat_ofNat, Nat.mod_eq_of_lt hlt]
  rfl

theorem toNat_way_back (hplaced : Placed raw user requested.toNat footer total) :
    (user - raw).toNat = user.toNat - raw.toNat := by
  have hbelow := hplaced.below
  exact BitVec.toNat_sub_of_le (by rw [BitVec.le_def]; omega)

theorem getHeaderFromUserPtr_eq_iff (hheader : HeaderIntact m raw user requested canary)
    (hplaced : Placed raw user requested.toNat footer total)
    (hback : readBytes m (user - backOffsetSize) 4 = leBytes 4 (user - raw).toNat) :
    getHeaderFromUserPtr m user = raw ↔ user.toNat - raw.toNat ≤ maxBackOffset := by
  have hbelow := hplaced.below
  have hway := toNat_way_back hplaced
  have hload := loadHalf_of_readBytes hback
  have hlimit : maxBackOffset = 4160 := rfl
  have hmin : (headerSize + backOffsetSize).toNat = 68 := rfl
  have hmax : (4096 + headerSize).toNat = 4160 := rfl
  have hlow : ¬ user < headerSize + backOffsetSize := by
    rw [BitVec.lt_def, hmin]
    omega
  unfold getHeaderFromUserPtr
  rw [if_neg hplaced.user_ne_zero, if_neg hlow]
  dsimp only
  by_cases hreach : user.toNat - raw.toNat ≤ maxBackOffset
  · have hoffset : loadHalf m (user - backOffsetSize) = user - raw := by
      apply BitVec.eq_of_toNat_eq
      rw [hload, Nat.mod_eq_of_lt (by omega)]
    have hrange : ¬ (user - raw < headerSize + backOffsetSize ∨
        user - raw > 4096 + headerSize) := by
      rw [gt_iff_lt, BitVec.lt_def, BitVec.lt_def, hmin, hmax]
      omega
    rw [hoffset, if_neg hrange, sub_sub_cancel, if_pos hheader.magic, if_pos hheader.userOffset]
    exact iff_of_true rfl hreach
  · -- a longer way back is out of range, or its low half leads to another address
    refine iff_of_false ?_ hreach
    split
    · exact hplaced.raw_ne_zero.symm
    · rename_i hrange
      rw [gt_iff_lt, BitVec.lt_def, BitVec.lt_def, hmin, hmax] at hrange
      have hother : user - loadHalf m (user - backOffsetSize) ≠ raw := by
        intro heq
        have hoffset : loadHalf m (user - backOffsetSize) = user - raw := by
          rw [← heq, sub_sub_cancel]
        rw [hoffset] at hrange
        omega
      split
      · split
        · exact hother
        · exact hplaced.raw_ne_zero.symm
      · exact hplaced.raw_ne_zero.symm

theorem header_of_confined {m' : Memory} {n : Nat}
    (hplaced : Placed raw user requested.toNat footer total)
    (hn : n ≤ requested.toNat + footer) (hconfined : ConfinedTo user n m m') :
    (∀ i < 64, m' (raw + BitVec.ofNat 64 i) = m (raw + BitVec.ofNat 64 i)) ∧
      readBytes m' (user - backOffsetSize) 4 = readBytes m (user - backOffsetSize) 4 := by
  have hbelow := hplaced.below
  have habove := hplaced.above
  have hspace := hplaced.space
  have hback := hplaced.toNat_backOffset
  have hkept : ∀ a : Ptr, a.toNat < user.toNat → m' a = m a := by
    intro a ha
    by_contra hne
    have hin := hconfined a hne
    rw [inSpan_iff (by omega)] at hin
    omega
  refine ⟨fun i hi => hkept _ ?_, readBytes_congr fun i hi => hkept _ ?_⟩
  · rw [hplaced.toNat_header hi]
    omega
  · rw [toNat_add_ofNat (by omega), hback]
    omega

end Lookup

/-! ## The user pointer is the next multiple of the alignment -/

section Multiples

variable {raw alignment : Word} {k : Nat}

theorem nearMultiple_iff (hk : alignment.toNat = 2 ^ k)
    (hspace : raw.toNat + 68 + (effectiveAlignment alignment).toNat ≤ 2 ^ 64) :
    NearMultiple raw alignment ↔
      (userAddress raw alignment).toNat - raw.toNat ≤ maxBackOffset := by
  obtain ⟨hlow, hhigh⟩ := userAddress_bounds hspace
  obtain ⟨u, hu⟩ := @effectiveAlignment_dvd_userAddress raw alignment k hk
  constructor
  · rintro ⟨d, hd, hreach, v, hv⟩
    have huv : u ≤ v := by
      by_contra hlt
      have hstep : (effectiveAlignment alignment).toNat * (v + 1) ≤
          (effectiveAlignment alignment).toNat * u := Nat.mul_le_mul_left _ (by omega)
      rw [Nat.mul_succ] at hstep
      omega
    have hle := Nat.mul_le_mul_left (effectiveAlignment alignment).toNat huv
    omega
  · intro hreach
    refine ⟨(userAddress raw alignment).toNat - raw.toNat, by omega, hreach, u, ?_⟩
    rw [← hu]
    omega

/-- Up to page alignment the lookup reaches every block at a 16-aligned address. -/
theorem exists_near_multiple (hk : alignment.toNat = 2 ^ k) (hpage : alignment.toNat ≤ 4096)
    (hraw : 16 ∣ raw.toNat)
    (hspace : raw.toNat + 68 + (effectiveAlignment alignment).toNat ≤ 2 ^ 64) :
    NearMultiple raw alignment := by
  rw [nearMultiple_iff hk hspace]
  obtain ⟨hlow, hhigh⟩ := userAddress_bounds hspace
  have heff := toNat_effectiveAlignment alignment
  have h16 : 16 ∣ (userAddress raw alignment).toNat := by
    obtain ⟨j, hj, _, hpow⟩ := effectiveAlignment_two_pow hk
    have htoNat : (effectiveAlignment alignment).toNat = 2 ^ j := by
      rw [hpow, BitVec.toNat_ofNat, Nat.mod_eq_of_lt (Nat.pow_lt_pow_right (by decide) hj)]
    have hj4 : 2 ^ 4 ≤ 2 ^ j := by
      rw [← htoNat]
      exact le_effectiveAlignment alignment
    have hdvd := @effectiveAlignment_dvd_userAddress raw alignment k hk
    rw [htoNat] at hdvd
    exact Nat.dvd_trans
      (Nat.pow_dvd_pow 2 ((Nat.pow_le_pow_iff_right (by decide)).mp hj4)) hdvd
  obtain ⟨x, hx⟩ := hraw
  obtain ⟨y, hy⟩ := h16
  have hlimit : maxBackOffset = 4160 := rfl
  omega

end Multiples

/-! ## Blocks of the manager -/

section Manager

variable {w : World} {o : Oracle} {tid : ThreadId} {size a tag : Word} {k : Nat}

/-- **Where the lookup inverts `init_block`.** The header of a tracked block is found
again, whatever is written to its payload and footer, exactly when a multiple of the
alignment lies within 4160 bytes of the raw address. -/
theorem lookup_iff (hk : a.toNat = 2 ^ k) (htracks : w.Tracks o tid size)
    (hsuccess : (w.trackAlloc o tid size a tag).2 ≠ 0)
    (hfresh : Fresh w.heap o.malloc
      (calculateTotalSize size (effectiveAlignment a) w.config.footerSize)) :
    (∀ m, ConfinedTo (w.trackAlloc o tid size a tag).2
        (size.toNat + w.config.footerSize.toNat) (w.trackAlloc o tid size a tag).1.mem m →
      getHeaderFromUserPtr m (w.trackAlloc o tid size a tag).2 = o.malloc) ↔
    NearMultiple o.malloc a := by
  rw [trackAlloc_eq] at hsuccess ⊢
  have hi := installed_of_ne htracks hsuccess
  have hextent := hfresh.1
  unfold extent at hextent
  have htotal := toNat_calculateTotalSize hi.fit
  rw [effectiveAlignment_effectiveAlignment] at htotal
  have hplaced := placed_userAddress hi.raw_ne_zero hi.fit (by omega)
  have hheader := @initBlock_header w.mem o.malloc size (effectiveAlignment a)
    w.config.footerSize w.allocCounter (w.finalTag tid tag) w.config.enableCanary tid _ hplaced
  have hback := @initBlock_backOffset w.mem o.malloc size (effectiveAlignment a)
    w.config.footerSize w.allocCounter (w.finalTag tid tag) w.config.enableCanary tid _ hplaced
  rw [← hi.mem, ← hi.pointer] at hheader hback
  rw [← hi.pointer] at hplaced
  have hnear : NearMultiple o.malloc a ↔
      (w.allocate o tid size a tag).2.toNat - o.malloc.toNat ≤ maxBackOffset := by
    have huser : userAddress o.malloc (effectiveAlignment a) = userAddress o.malloc a := by
      unfold userAddress
      rw [effectiveAlignment_effectiveAlignment]
    rw [nearMultiple_iff hk (by omega), hi.pointer, huser]
  rw [hnear]
  constructor
  · intro hall
    rw [← getHeaderFromUserPtr_eq_iff hheader hplaced hback]
    exact hall _ fun x hx => absurd rfl hx
  · intro hreach m hconfined
    obtain ⟨hkept, hbytes⟩ := header_of_confined hplaced (Nat.le_refl _) hconfined
    exact (getHeaderFromUserPtr_eq_iff (hheader.congr hkept) hplaced
      (hbytes.trans hback)).mpr hreach

end Manager

/-! ## Two blocks -/

/-- A manager in its initial configuration. -/
def freshManager : World := (World.start fun _ => 0).init {}

/-- At page alignment, right behind a page boundary. -/
theorem lookup_at_page :
    (∀ m, ConfinedTo (freshManager.trackAlloc { malloc := 0x10010 } 1 100 4096 0).2 (100 + 16)
        (freshManager.trackAlloc { malloc := 0x10010 } 1 100 4096 0).1.mem m →
      getHeaderFromUserPtr m (freshManager.trackAlloc { malloc := 0x10010 } 1 100 4096 0).2 =
        0x10010) ↔ NearMultiple 0x10010 4096 :=
  @lookup_iff freshManager { malloc := 0x10010 } 1 100 4096 0 12 rfl (by decide) (by decide +kernel)
    (fresh_empty (by decide))

/-- With an alignment of 8192 bytes the header of the untouched block is not found. -/
theorem lookup_fails_above_page :
    (16 ∣ (0x10010 : Ptr).toNat ∧ (8192 : Word).toNat = 2 ^ 13) ∧
      (freshManager.memsentryPosixMemalign { malloc := 0x10010 } 1 0x7000 8192 100).2 =
        (0, some 0x12000) ∧
      getHeaderFromUserPtr
        (freshManager.memsentryPosixMemalign { malloc := 0x10010 } 1 0x7000 8192 100).1.mem
        0x12000 = 0 := by
  decide +kernel

end MemSentry
