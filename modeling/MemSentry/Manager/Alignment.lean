import MemSentry.Manager.Hooks
import MemSentry.Manager.SafeRuns

/-!
# Alignment

`init_block` rounds the user pointer up to the alignment asked for. Every other way out
of `allocate` returns what the system's `malloc` answered, and that is aligned to 16
bytes only. So an alignment above 16 is honoured exactly when the allocation takes the
tracking path. Each statement below is about all 16-aligned answers of `malloc`, with
everything else that comes from outside held fixed.
-/

namespace MemSentry

open MemSentry.Core World

variable {w : World} {o : Oracle} {tid : ThreadId} {size a tag n : Word} {ptr : Ptr} {k : Nat}

/-- A null pointer counts as a failure. -/
def AlignedOrNull (a p : Word) : Prop := p ≠ 0 → a.toNat ∣ p.toNat

/-- The oracle with another answer of `malloc`. -/
def Oracle.answer (o : Oracle) (raw : Ptr) : Oracle := { o with malloc := raw }

theorem tracks_answer (raw : Ptr) : w.Tracks (o.answer raw) tid size ↔ w.Tracks o tid size :=
  Iff.rfl

/-! ## What an allocation returns -/

theorem allocate_of_tracks_aligned (hk : a.toNat = 2 ^ k) (h : w.Tracks o tid size) :
    AlignedOrNull a (w.allocate o tid size a tag).2 := by
  intro hne
  rw [(installed_of_ne h hne).pointer]
  unfold userAddress
  rw [effectiveAlignment_effectiveAlignment]
  exact dvd_userAddress hk

theorem allocate_of_not_tracks_snd (h : ¬ w.Tracks o tid size) :
    (w.allocate o tid size a tag).2 = o.malloc := by
  obtain ⟨w₁, _, _, _, _, heq⟩ := @allocate_of_not_tracks w o tid size a tag h
  rw [heq, rawSystemAlloc_snd]

theorem dvd_of_le_sixteen (hk : a.toNat = 2 ^ k) (ha : a.toNat ≤ 16) {p : Ptr}
    (hp : 16 ∣ p.toNat) : a.toNat ∣ p.toNat := by
  have hk4 : k ≤ 4 := by
    have h16 : 2 ^ k ≤ 2 ^ 4 := hk ▸ ha
    exact (Nat.pow_le_pow_iff_right (by decide)).mp h16
  rw [hk]
  exact Nat.dvd_trans (Nat.pow_dvd_pow 2 hk4) hp

theorem not_dvd_sixteen (ha : ¬ a.toNat ≤ 16) : ¬ a.toNat ∣ (16 : Ptr).toNat :=
  fun hdvd => ha (Nat.le_of_dvd (by decide) hdvd)

/-- The alignment is honoured for every answer of `malloc`. -/
theorem allocate_aligned_iff (hk : a.toNat = 2 ^ k) :
    (∀ raw : Ptr, 16 ∣ raw.toNat → AlignedOrNull a (w.allocate (o.answer raw) tid size a tag).2) ↔
      a.toNat ≤ 16 ∨ w.Tracks o tid size := by
  by_cases ht : w.Tracks o tid size
  · exact iff_of_true (fun raw _ => allocate_of_tracks_aligned hk ((tracks_answer raw).mpr ht))
      (Or.inr ht)
  have hsnd : ∀ raw : Ptr, (w.allocate (o.answer raw) tid size a tag).2 = raw :=
    fun raw => allocate_of_not_tracks_snd fun h => ht ((tracks_answer raw).mp h)
  constructor
  · intro h
    by_contra hnot
    have h16 := h 16 (by decide)
    rw [hsnd] at h16
    exact not_dvd_sixteen (fun ha => hnot (Or.inl ha)) (h16 (by decide))
  · intro h raw hraw _
    rw [hsnd]
    exact dvd_of_le_sixteen hk (h.resolve_right ht) hraw

/-! ## The entry points -/

theorem trackAlloc_aligned_iff (hk : a.toNat = 2 ^ k) :
    (∀ raw : Ptr, 16 ∣ raw.toNat → AlignedOrNull a (w.trackAlloc (o.answer raw) tid size a tag).2) ↔
      a.toNat ≤ 16 ∨ w.Tracks o tid size := by
  simp only [trackAlloc_eq]
  exact allocate_aligned_iff hk

/-- The aligned forms of `operator new` return a pointer or throw. -/
theorem operatorNewAligned_iff (hk : a.toNat = 2 ^ k) :
    (∀ raw : Ptr, 16 ∣ raw.toNat → ∀ p,
        (w.operatorNewAligned (o.answer raw) tid size a).2 = some p → a.toNat ∣ p.toNat) ↔
      a.toNat ≤ 16 ∨ w.Tracks o tid size := by
  refine Iff.trans ?_ (@trackAlloc_aligned_iff w o tid size a 0 k hk)
  unfold operatorNewAligned AlignedOrNull
  dsimp only
  constructor
  · intro h raw hraw hne
    exact h raw hraw _ (by rw [if_neg hne])
  · intro h raw hraw p hp
    split at hp
    · cases hp
    · rename_i hne
      cases hp
      exact h raw hraw hne

theorem and_pred_of_two_pow (hk : a.toNat = 2 ^ k) : a &&& (a - 1) = 0 := by
  have hpos : 1 ≤ a.toNat := hk ▸ Nat.one_le_two_pow
  have hpred : (a - 1).toNat = 2 ^ k - 1 := by
    rw [BitVec.toNat_sub_of_le (by rw [BitVec.le_def]; exact hpos), hk]
    rfl
  apply BitVec.eq_of_toNat_eq
  rw [BitVec.toNat_and, hpred, Nat.and_two_pow_sub_one_eq_mod, hk, Nat.mod_self]
  rfl

theorem posixMemalign_iff {memptr : Word} (hmemptr : memptr ≠ 0) (hk : a.toNat = 2 ^ k) :
    (∀ raw : Ptr, 16 ∣ raw.toNat → ∀ p,
        (w.memsentryPosixMemalign (o.answer raw) tid memptr a size).2.2 = some p →
          a.toNat ∣ p.toNat) ↔
      a.toNat ≤ 16 ∨ w.Tracks o tid size := by
  by_cases h8 : a % 8 = 0
  · refine Iff.trans ?_ (@trackAlloc_aligned_iff w o tid size a alignedAllocTag k hk)
    unfold memsentryPosixMemalign memsentryAlignedAlloc AlignedOrNull
    have hcheck : ¬ (a &&& (a - 1) ≠ 0 ∨ a % 8 ≠ 0) :=
      fun h => h.elim (fun hpow => hpow (and_pred_of_two_pow hk)) fun hmod => hmod h8
    simp only [if_neg hmemptr, if_neg hcheck]
    constructor
    · intro h raw hraw hne
      exact h raw hraw _ (by rw [if_neg hne])
    · intro h raw hraw p hp
      split at hp
      · cases hp
      · rename_i hne
        cases hp
        exact h raw hraw hne
  -- below 8 the call is refused
  · have hsmall : a.toNat ≤ 16 := by
      by_contra hbig
      refine h8 (BitVec.eq_of_toNat_eq ?_)
      have hk3 : 3 ≤ k := by
        by_contra hlt
        have hpow : 2 ^ k ≤ 2 ^ 2 := Nat.pow_le_pow_right (by decide) (by omega)
        omega
      rw [BitVec.toNat_umod, hk]
      exact Nat.mod_eq_zero_of_dvd (Nat.pow_dvd_pow 2 hk3)
    refine iff_of_true (fun raw _ p hp => ?_) (Or.inl hsmall)
    unfold memsentryPosixMemalign at hp
    rw [if_neg hmemptr, if_pos (Or.inr h8)] at hp
    cases hp

/-! ## Reallocation of a tracked block -/

theorem rawSystemRealloc_snd (hp : ptr ≠ 0) (hn : n ≠ 0) :
    (w.rawSystemRealloc o ptr n).2 = o.malloc := by
  by_cases hraw : o.malloc = 0
  · rw [rawSystemRealloc_failed hp hn hraw, hraw]
  · rw [rawSystemRealloc_moved hp hn hraw]

/-- The pointer that `reallocate` of a tracked pointer returns is the one that its
allocation returns. -/
theorem reallocate_snd {r : AllocationRecord} (hn : n ≠ 0) (hguard : w.guardActive tid = false)
    (hinit : w.initialized = true) (hfind : w.tracker.find ptr = some r) :
    (w.reallocate o tid ptr n).2 = (w.reallocated o tid ptr r n).2 := by
  rw [reallocate_of_find hn hguard hinit hfind]
  split
  · rename_i h0
    exact h0.symm
  · rfl

theorem trackRealloc_of_not_tracks_snd {r : AllocationRecord} (hn : n ≠ 0)
    (hfind : w.tracker.find ptr = some r) (h : ¬ w.Tracks o tid n) :
    (w.trackRealloc o tid ptr n).2 = o.malloc := by
  have hp := ShardedTracker.ne_zero_of_find hfind
  by_cases hbypass : w.guardActive tid = true ∨ w.initialized = false
  · rw [trackRealloc_of_bypass hbypass, rawSystemRealloc_snd hp hn]
  · rw [not_or, Bool.not_eq_true, Bool.not_eq_false] at hbypass
    obtain ⟨hguard, hinit⟩ := hbypass
    obtain ⟨as, hcheck, _⟩ := checkOldBlock_log { w with calls := .find ptr :: w.calls } ptr r
    rw [trackRealloc_of_open hguard hinit, reallocate_snd hn hguard hinit hfind]
    unfold reallocated
    rw [hcheck]
    exact allocate_of_not_tracks_snd h

theorem trackRealloc_aligned_iff {r : AllocationRecord} (hk : a.toNat = 2 ^ k)
    (hfind : w.tracker.find ptr = some r) (halign : r.alignment = effectiveAlignment a) :
    (∀ raw : Ptr, 16 ∣ raw.toNat → AlignedOrNull a (w.trackRealloc (o.answer raw) tid ptr n).2) ↔
      n = 0 ∨ a.toNat ≤ 16 ∨ w.Tracks o tid n := by
  have hp := ShardedTracker.ne_zero_of_find hfind
  by_cases hn : n = 0
  · refine iff_of_true (fun raw _ hne => absurd ?_ hne) (Or.inl hn)
    subst hn
    unfold trackRealloc
    split
    · rw [rawSystemRealloc_zero hp]
    · rw [reallocate_zero hp]
  by_cases ht : w.Tracks o tid n
  · refine iff_of_true (fun raw _ => ?_) (Or.inr (Or.inr ht))
    have hguard := ht.1
    have hinit := ht.2.1
    obtain ⟨as, hcheck, _⟩ := checkOldBlock_log { w with calls := .find ptr :: w.calls } ptr r
    obtain ⟨j, hj, hle, heff⟩ := effectiveAlignment_two_pow hk
    have hpow : r.alignment.toNat = 2 ^ j := by
      rw [halign, heff, BitVec.toNat_ofNat,
        Nat.mod_eq_of_lt (Nat.pow_lt_pow_right (by decide) hj)]
    rw [trackRealloc_of_open hguard hinit, reallocate_snd hn hguard hinit hfind]
    intro hne
    have haligned : AlignedOrNull r.alignment (w.reallocated (o.answer raw) tid ptr r n).2 := by
      unfold reallocated
      rw [hcheck]
      exact allocate_of_tracks_aligned hpow ht
    rw [hk]
    exact Nat.dvd_trans (Nat.pow_dvd_pow 2 hle) (hpow ▸ haligned hne)
  have hsnd : ∀ raw : Ptr, (w.trackRealloc (o.answer raw) tid ptr n).2 = raw :=
    fun raw => trackRealloc_of_not_tracks_snd hn hfind fun h => ht ((tracks_answer raw).mp h)
  constructor
  · intro h
    by_contra hnot
    have h16 := h 16 (by decide)
    rw [hsnd] at h16
    exact not_dvd_sixteen (fun ha => hnot (Or.inr (Or.inl ha))) (h16 (by decide))
  · intro h raw hraw _
    rw [hsnd]
    exact dvd_of_le_sixteen hk ((h.resolve_left hn).resolve_right ht) hraw

/-! ## All entry points -/

/-- The record of a tracked allocation carries the effective alignment. -/
theorem trackAlloc_record_alignment (h : w.Tracks o tid size)
    (hne : (w.trackAlloc o tid size a tag).2 ≠ 0) :
    ∃ r, (w.trackAlloc o tid size a tag).1.tracker.find (w.trackAlloc o tid size a tag).2 =
      some r ∧ r.alignment = effectiveAlignment a := by
  rw [trackAlloc_eq] at hne ⊢
  refine ⟨w.recordOf o tid w.allocCounter size a tag (w.allocate o tid size a tag).2, ?_, rfl⟩
  rw [(installed_of_ne h hne).tracker]
  exact ShardedTracker.find_insert_self hne

/-- **The alignment guarantee**, in every state of the manager: each aligned entry point
honours a power of two `a` for all 16-aligned answers of `malloc` exactly when `a` is at
most 16 or the allocation takes the tracking path. For a reallocation `a` is the
alignment in the record, which is where the tracking path puts it. -/
theorem aligned_iff (w : World) (o : Oracle) (tid : ThreadId) (size a tag : Word) (k : Nat)
    (hk : a.toNat = 2 ^ k) :
    ((∀ raw : Ptr, 16 ∣ raw.toNat →
        AlignedOrNull a (w.trackAlloc (o.answer raw) tid size a tag).2) ↔
      a.toNat ≤ 16 ∨ w.Tracks o tid size) ∧
    ((∀ raw : Ptr, 16 ∣ raw.toNat →
        AlignedOrNull a (w.memsentryAlignedAlloc (o.answer raw) tid a size).2) ↔
      a.toNat ≤ 16 ∨ w.Tracks o tid size) ∧
    (∀ memptr : Word, memptr ≠ 0 → ((∀ raw : Ptr, 16 ∣ raw.toNat → ∀ p,
        (w.memsentryPosixMemalign (o.answer raw) tid memptr a size).2.2 = some p →
          a.toNat ∣ p.toNat) ↔
      a.toNat ≤ 16 ∨ w.Tracks o tid size)) ∧
    ((∀ raw : Ptr, 16 ∣ raw.toNat → ∀ p,
        (w.operatorNewAligned (o.answer raw) tid size a).2 = some p → a.toNat ∣ p.toNat) ↔
      a.toNat ≤ 16 ∨ w.Tracks o tid size) ∧
    (∀ (ptr : Ptr) (r : AllocationRecord), w.tracker.find ptr = some r →
      r.alignment = effectiveAlignment a → ((∀ raw : Ptr, 16 ∣ raw.toNat →
        AlignedOrNull a (w.trackRealloc (o.answer raw) tid ptr size).2) ↔
      size = 0 ∨ a.toNat ≤ 16 ∨ w.Tracks o tid size)) ∧
    (w.Tracks o tid size → (w.trackAlloc o tid size a tag).2 ≠ 0 →
      ∃ r, (w.trackAlloc o tid size a tag).1.tracker.find (w.trackAlloc o tid size a tag).2 =
        some r ∧ r.alignment = effectiveAlignment a) :=
  ⟨trackAlloc_aligned_iff hk, trackAlloc_aligned_iff hk,
    fun _ hmemptr => posixMemalign_iff hmemptr hk, operatorNewAligned_iff hk,
    fun _ _ hfind halign => trackRealloc_aligned_iff hk hfind halign,
    trackAlloc_record_alignment⟩

/-- A manager that tracks everything, before its first allocation. -/
def trackingWorld : World := (World.start fun _ => 0).init {}

/-- What it returns for 100 bytes at an alignment of 64. -/
def sixtyFour : World × Ptr := trackingWorld.trackAlloc { malloc := 0x10010 } 1 100 64 0

/-- An alignment of 64 bytes is honoured there, by each entry point for every answer of
`malloc`, and by a reallocation of the block. -/
theorem aligned_iff_sixty_four :
    sixtyFour.2 = 0x10080 ∧
      (∀ raw : Ptr, 16 ∣ raw.toNat → AlignedOrNull 64
        (trackingWorld.trackAlloc (Oracle.answer { malloc := 0 } raw) 1 100 64 0).2) ∧
      (∀ raw : Ptr, 16 ∣ raw.toNat → AlignedOrNull 64
        (trackingWorld.memsentryAlignedAlloc (Oracle.answer { malloc := 0 } raw) 1 64 100).2) ∧
      (∀ raw : Ptr, 16 ∣ raw.toNat → ∀ p,
        (trackingWorld.memsentryPosixMemalign (Oracle.answer { malloc := 0 } raw) 1 0x7000 64
          100).2.2 = some p → 64 ∣ p.toNat) ∧
      (∀ raw : Ptr, 16 ∣ raw.toNat → ∀ p,
        (trackingWorld.operatorNewAligned (Oracle.answer { malloc := 0 } raw) 1 100 64).2 =
          some p → 64 ∣ p.toNat) ∧
      ∃ r, sixtyFour.1.tracker.find 0x10080 = some r ∧ r.alignment = 64 ∧
        ∀ raw : Ptr, 16 ∣ raw.toNat → AlignedOrNull 64
          (sixtyFour.1.trackRealloc (Oracle.answer { malloc := 0 } raw) 1 0x10080 200).2 := by
  have htracks : trackingWorld.Tracks { malloc := 0 } 1 100 := by decide +kernel
  have htracks' : sixtyFour.1.Tracks { malloc := 0 } 1 200 := by decide +kernel
  obtain ⟨halloc, haligned, hmemalign, hnew, _, _⟩ :=
    aligned_iff trackingWorld { malloc := 0 } 1 100 64 0 6 rfl
  obtain ⟨_, _, _, _, _, hrecord⟩ :=
    aligned_iff trackingWorld { malloc := 0x10010 } 1 100 64 0 6 rfl
  have haddress : sixtyFour.2 = 0x10080 := by decide +kernel
  obtain ⟨r, hfind, halign⟩ := hrecord (by decide +kernel)
    (show sixtyFour.2 ≠ 0 by decide +kernel)
  change sixtyFour.1.tracker.find sixtyFour.2 = some r at hfind
  rw [haddress] at hfind
  obtain ⟨_, _, _, _, hrealloc, _⟩ := aligned_iff sixtyFour.1 { malloc := 0 } 1 200 64 0 6 rfl
  have hgoes : (64 : Word).toNat ≤ 16 ∨ trackingWorld.Tracks { malloc := 0 } 1 100 := Or.inr htracks
  exact ⟨haddress, halloc.mpr hgoes, haligned.mpr hgoes,
    (hmemalign 0x7000 (by decide)).mpr hgoes, hnew.mpr hgoes,
    r, hfind, halign, (hrealloc _ r hfind halign).mpr (Or.inr (Or.inr htracks'))⟩

/-- A manager that tracks every second allocation, at its first one. -/
def samplingWorld : World := (World.start fun _ => 0).init { sampleEveryN := 2 }

/-- An alignment of 64 bytes is not honoured there. -/
theorem sampled_out_unaligned :
    ¬ ∀ raw : Ptr, 16 ∣ raw.toNat →
      AlignedOrNull 64 (samplingWorld.trackAlloc (Oracle.answer { malloc := 0 } raw) 1 100 64 0).2 := by
  intro h
  have hdvd := h 0x10010 (by decide) (by decide)
  exact absurd hdvd (by decide)

end MemSentry
