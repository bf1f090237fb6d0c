import MemSentry.Manager.Hooks
import MemSentry.Manager.Alignment
import MemSentry.Manager.Reallocation

/-!
# The contract of `posix_memalign`

The test of `memsentry_posix_memalign` clears the lowest bit that is set and compares with
zero, which is what remains of zero as well; the remainder is zero too. So zero passes for an
alignment (`rejected_iff`). For the other alignments the answer is right, and what can
still go wrong is what goes wrong for every allocation: the sum of the parts wraps, or the block
is not tracked and `memsentry_free` takes its pointer for another one.
`posix_memalign_iff` has all of it.
-/

namespace MemSentry

open ByteMemory MemSentry.Core Function World

/-- A power of two that is a multiple of `sizeof(void*)`. -/
def ValidAlignment (alignment : Word) : Prop :=
  alignment.toNat.isPowerOfTwo ∧ 8 ∣ alignment.toNat

/-- The `size` bytes from `p` up are inside one live block, and `memsentry_free` gives back
this block and no other. -/
def LiveAndReleasable (w : World) (tid : ThreadId) (p : Ptr) (size : Word) : Prop :=
  ∃ base n, w.heap base = some n ∧ (base.toNat ≤ p.toNat ∧ p.toNat < base.toNat + n) ∧
    p.toNat + size.toNat ≤ base.toNat + n ∧
    (w.memsentryFree tid p).heap = update w.heap base none ∧
    (w.memsentryFree tid p).fault = w.fault

/-- `EINVAL` for the alignments that are not valid and for no others; nothing kept of a
failed call; a block for one that succeeds. -/
structure MemalignContract (w : World) (o : Oracle) (tid : ThreadId) (memptr alignment size : Word) :
    Prop where
  invalid : (w.memsentryPosixMemalign o tid memptr alignment size).2.1 = einval ↔
    ¬ ValidAlignment alignment
  failed : (w.memsentryPosixMemalign o tid memptr alignment size).2.1 ≠ 0 →
    (w.memsentryPosixMemalign o tid memptr alignment size).2.2 = none ∧
      (w.memsentryPosixMemalign o tid memptr alignment size).1.tracker = w.tracker ∧
      (w.memsentryPosixMemalign o tid memptr alignment size).1.stats = w.stats
  served : (w.memsentryPosixMemalign o tid memptr alignment size).2.1 = 0 →
    ∃ p, (w.memsentryPosixMemalign o tid memptr alignment size).2.2 = some p ∧
      LiveAndReleasable (w.memsentryPosixMemalign o tid memptr alignment size).1 tid p size
  defined : (w.memsentryPosixMemalign o tid memptr alignment size).1.fault = w.fault

/-- What the call asks the system for. -/
def systemRequest (w : World) (o : Oracle) (tid : ThreadId) (alignment size : Word) : Word :=
  if w.Tracks o tid size then
    calculateTotalSize size (effectiveAlignment alignment) w.config.footerSize
  else size

/-- The release of `p`, with the guard inactive, hands `p` itself to the system. No record
of a state in order has its user pointer for a base. -/
def FreesItself (w : World) (p : Ptr) : Prop :=
  match w.tracker.find p with
  | some r => r.rawPtr = p ∧ (verifyCanary w.mem p w.config.footerSize).1 = .none
  | none => ¬ w.tracker.Quarantined p ∧ getHeaderFromUserPtr w.mem p = 0

/-- The alignment is not zero; and if it is valid, the system gives nothing, or the block is
tracked and its size is refused or fits, or it is not tracked and its pointer is not taken
for another one. -/
def MemalignExact (w : World) (o : Oracle) (tid : ThreadId) (alignment size : Word) : Prop :=
  alignment ≠ 0 ∧ (¬ ValidAlignment alignment ∨ o.malloc = 0 ∨
    if w.Tracks o tid size then
      calculateTotalSize size (effectiveAlignment alignment) w.config.footerSize = 0 ∨
        SizesFit size (effectiveAlignment alignment) w.config.footerSize
    else w.guardActive tid ∨ FreesItself w o.malloc)

/-! ## The test of the alignment -/

section Test

variable {a : Word}

theorem mod_eight_iff : a % 8 = 0 ↔ 8 ∣ a.toNat := by
  have h8 : (8 : Word).toNat = 8 := rfl
  rw [Nat.dvd_iff_mod_eq_zero, ← h8, ← BitVec.toNat_umod]
  exact ⟨fun h => by rw [h]; rfl, fun h => BitVec.eq_of_toNat_eq h⟩

theorem and_pred_iff (ha : a ≠ 0) : a &&& (a - 1) = 0 ↔ a.toNat.isPowerOfTwo := by
  have hne : a.toNat ≠ 0 := fun h => ha (BitVec.eq_of_toNat_eq h)
  have hone : (1 : Word).toNat = 1 := rfl
  have hpred : (a - 1).toNat = a.toNat - 1 :=
    BitVec.toNat_sub_of_le (by rw [BitVec.le_def, hone]; omega)
  rw [← Nat.and_sub_one_eq_zero_iff_isPowerOfTwo hne, ← hpred, ← BitVec.toNat_and]
  exact ⟨fun h => by rw [h]; rfl, fun h => BitVec.eq_of_toNat_eq h⟩

/-- The test refuses the alignments that are not valid, zero excepted. -/
theorem rejected_iff :
    (a &&& (a - 1) ≠ 0 ∨ a % 8 ≠ 0) ↔ a ≠ 0 ∧ ¬ ValidAlignment a := by
  by_cases ha : a = 0
  · subst a
    exact iff_of_false (by decide) fun h => h.1 rfl
  · rw [← not_and_or, and_pred_iff ha, mod_eight_iff]
    exact (and_iff_right ha).symm

theorem not_validAlignment_zero : ¬ ValidAlignment 0 :=
  fun h => Nat.not_isPowerOfTwo_zero h.1

end Test

section Memalign

variable {w : World} {o : Oracle} {tid : ThreadId} {memptr alignment size : Word}

theorem posixMemalign_rejected (hmemptr : memptr ≠ 0) (hzero : alignment ≠ 0)
    (hinvalid : ¬ ValidAlignment alignment) :
    w.memsentryPosixMemalign o tid memptr alignment size = (w, einval, none) := by
  unfold memsentryPosixMemalign
  rw [if_neg hmemptr, if_pos (rejected_iff.mpr ⟨hzero, hinvalid⟩)]

theorem posixMemalign_accepted (hmemptr : memptr ≠ 0)
    (h : alignment = 0 ∨ ValidAlignment alignment) :
    w.memsentryPosixMemalign o tid memptr alignment size =
      if (w.allocate o tid size alignment alignedAllocTag).2 = 0 then
        ((w.allocate o tid size alignment alignedAllocTag).1, enomem, none)
      else ((w.allocate o tid size alignment alignedAllocTag).1, 0,
        some (w.allocate o tid size alignment alignedAllocTag).2) := by
  have hpass : ¬ (alignment &&& (alignment - 1) ≠ 0 ∨ alignment % 8 ≠ 0) := by
    rw [rejected_iff]
    exact fun hno => h.elim hno.1 hno.2
  unfold memsentryPosixMemalign memsentryAlignedAlloc
  rw [if_neg hmemptr, if_neg hpass]
  dsimp only
  rw [trackAlloc_eq]

/-- No allocation answers `EINVAL`. -/
theorem posixMemalign_accepted_ne (hmemptr : memptr ≠ 0)
    (h : alignment = 0 ∨ ValidAlignment alignment) :
    (w.memsentryPosixMemalign o tid memptr alignment size).2.1 ≠ einval := by
  rw [posixMemalign_accepted hmemptr h]
  split
  · exact (by decide : enomem ≠ einval)
  · exact (by decide : 0 ≠ einval)

/-! ## The contract, once the alignment is valid -/

theorem contract_of_null (hmemptr : memptr ≠ 0) (hvalid : ValidAlignment alignment)
    (hnull : (w.allocate o tid size alignment alignedAllocTag).2 = 0) :
    MemalignContract w o tid memptr alignment size ↔
      (w.allocate o tid size alignment alignedAllocTag).1.tracker = w.tracker ∧
      (w.allocate o tid size alignment alignedAllocTag).1.stats = w.stats ∧
      (w.allocate o tid size alignment alignedAllocTag).1.fault = w.fault := by
  have hne := @posixMemalign_accepted_ne w o tid memptr alignment size hmemptr (Or.inr hvalid)
  have heq := @posixMemalign_accepted w o tid memptr alignment size hmemptr (Or.inr hvalid)
  rw [if_pos hnull] at heq
  constructor
  · intro h
    have hfailed := h.failed
    have hdefined := h.defined
    rw [heq] at hfailed hdefined
    obtain ⟨_, htracker, hstats⟩ := hfailed (show enomem ≠ 0 by decide)
    exact ⟨htracker, hstats, hdefined⟩
  · rintro ⟨htracker, hstats, hdefined⟩
    refine ⟨iff_of_false hne (not_not_intro hvalid), ?_, ?_, ?_⟩
    · rw [heq]
      exact fun _ => ⟨rfl, htracker, hstats⟩
    · rw [heq]
      exact fun h => absurd h (show enomem ≠ 0 by decide)
    · rw [heq]
      exact hdefined

theorem contract_of_ne (hmemptr : memptr ≠ 0) (hvalid : ValidAlignment alignment) {p : Ptr}
    (hp : (w.allocate o tid size alignment alignedAllocTag).2 = p) (hpne : p ≠ 0)
    (hfault : (w.allocate o tid size alignment alignedAllocTag).1.fault = w.fault) :
    MemalignContract w o tid memptr alignment size ↔
      LiveAndReleasable (w.allocate o tid size alignment alignedAllocTag).1 tid p size := by
  have hne := @posixMemalign_accepted_ne w o tid memptr alignment size hmemptr (Or.inr hvalid)
  have heq := @posixMemalign_accepted w o tid memptr alignment size hmemptr (Or.inr hvalid)
  rw [hp, if_neg hpne] at heq
  constructor
  · intro h
    have hserved := h.served
    rw [heq] at hserved
    obtain ⟨q, hq, hlive⟩ := hserved rfl
    rwa [← Option.some.inj hq] at hlive
  · intro hlive
    refine ⟨iff_of_false hne (not_not_intro hvalid), ?_, ?_, ?_⟩
    · rw [heq]
      exact fun h => absurd rfl h
    · rw [heq]
      exact fun _ => ⟨p, rfl, hlive⟩
    · rw [heq]
      exact hfault

/-! ## Releasing a block that is not tracked -/

section Release

variable {w' : World} {raw : Ptr} {heap : Ptr → Option Nat}

/-- Two blocks are told apart by what is gone without them. -/
theorem base_eq_of_update {b c : Ptr} {n : Nat} (hlive : heap b = some n)
    (h : update heap c none = update heap b none) : b = c := by
  by_contra hne
  have hat := congrFun h b
  rw [update_self, update_of_ne hne, hlive] at hat
  cases hat

theorem ne_update_of_live {b : Ptr} {n : Nat} (hlive : heap b = some n) :
    heap ≠ update heap b none := by
  intro h
  have hat := congrFun h b
  rw [update_self, hlive] at hat
  cases hat

/-- The block at `raw` is released exactly when it is the one that leaves the heap. -/
theorem releasable_iff_of_freed (hheap : w'.heap = update heap raw (some (extent size)))
    (hfresh : Fresh heap raw size) {b : Ptr}
    (hfreed : (w'.memsentryFree tid raw).heap = update w'.heap b none)
    (hfault : (w'.memsentryFree tid raw).fault = (w'.fault || !(w'.heap b).isSome)) :
    LiveAndReleasable w' tid raw size ↔ b = raw := by
  have hraw : w'.heap raw = some (extent size) := by rw [hheap, update_self]
  have hextent := le_extent size
  have hpos := extent_pos size
  constructor
  · rintro ⟨base, n, hlive, hinside, _, hgone, _⟩
    obtain rfl := base_eq_of_update hlive (hfreed.symm.trans hgone)
    by_contra hne
    rw [hheap, update_of_ne hne] at hlive
    rcases hfresh.2 _ n hlive with habove | hbelow
    · omega
    · omega
  · rintro rfl
    refine ⟨b, extent size, hraw, by omega, by omega, hfreed, ?_⟩
    rw [hfault, hraw, Option.isSome_some, Bool.not_true, Bool.or_false]

theorem not_releasable_of_kept (h : (w'.memsentryFree tid raw).heap = w'.heap) :
    ¬ LiveAndReleasable w' tid raw size := by
  rintro ⟨base, n, hlive, _, _, hgone, _⟩
  exact ne_update_of_live hlive (h.symm.trans hgone)

theorem releasable_untracked_iff (hraw : raw ≠ 0)
    (hheap : w'.heap = update heap raw (some (extent size))) (hfresh : Fresh heap raw size) :
    LiveAndReleasable w' tid raw size ↔ w'.guardActive tid ∨ FreesItself w' raw := by
  by_cases hguard : w'.guardActive tid
  · have hfree : w'.memsentryFree tid raw = w'.rawSystemFree raw := trackFree_of_guard hraw hguard
    rw [rawSystemFree_of_ne hraw] at hfree
    exact iff_of_true ((releasable_iff_of_freed hheap hfresh (by rw [hfree])
      (by rw [hfree])).mpr rfl) (Or.inl hguard)
  rw [or_iff_right hguard]
  rw [Bool.not_eq_true] at hguard
  have hfree : w'.memsentryFree tid raw = w'.deallocate tid raw :=
    trackFree_of_no_guard hraw hguard
  unfold FreesItself
  cases (deallocate_effect w' tid raw hguard hraw).2.2 with
  | released r hfind hbase hverdict hheap' htracker hmem hlog hfault =>
    rw [hfind, releasable_iff_of_freed hheap hfresh (hfree ▸ hheap') (hfree ▸ hfault)]
    constructor
    · intro hr
      exact ⟨hr, hr ▸ hverdict⟩
    · exact And.left
  | leaked r hfind hverdict hheap' htracker hmem hlog hfault =>
    rw [hfind]
    refine iff_of_false (not_releasable_of_kept (hfree ▸ hheap')) ?_
    rintro ⟨hr, hclean⟩
    exact hverdict (hr ▸ hclean)
  | alarm hfind hq hheap' htracker hmem hlog hfault =>
    rw [hfind]
    exact iff_of_false (not_releasable_of_kept (hfree ▸ hheap')) fun h => h.1 hq
  | untracked hfind hq hheader hheap' htracker hmem hlog hfault =>
    rw [hfind]
    exact iff_of_true ((releasable_iff_of_freed hheap hfresh (hfree ▸ hheap')
      (hfree ▸ hfault)).mpr rfl) ⟨hq, hheader⟩
  | misread hfind hq hheader hlog =>
    rw [hfind]
    refine iff_of_false (fun h => ?_) fun h => hheader h.2
    rw [deallocate_of_not_found hguard hraw hfind hq,
      @releaseUntracked_of_ne (w'.trackerErase raw) raw hheader] at hfree
    have hb := (releasable_iff_of_freed hheap hfresh (by rw [hfree]; rfl)
      (by rw [hfree]; rfl)).mp h
    exact (getHeaderFromUserPtr_spec hheader).2 hb

end Release

/-! ## The ways of an allocation -/

theorem freesItself_congr {w' : World} {p : Ptr} (htracker : w'.tracker = w.tracker)
    (hmem : w'.mem = w.mem) (hconfig : w'.config = w.config) :
    FreesItself w' p ↔ FreesItself w p := by
  unfold FreesItself
  rw [htracker, hmem, hconfig]

/-- A tracked block verifies clean right after it is laid out, so it is released. -/
theorem releasable_tracked {w' : World} {r : AllocationRecord} {p : Ptr} {footer total : Nat}
    (hguard : w'.guardActive tid = false) (hfind : w'.tracker.find p = some r)
    (hplaced : Placed r.rawPtr p size.toNat footer total)
    (hlive : w'.heap r.rawPtr = some total)
    (hverdict : (verifyCanary w'.mem r.rawPtr w'.config.footerSize).1 = .none) :
    LiveAndReleasable w' tid p size := by
  have hp := hplaced.user_ne_zero
  have hbelow := hplaced.below
  have habove := hplaced.above
  have hfree : w'.memsentryFree tid p = w'.deallocate tid p := trackFree_of_no_guard hp hguard
  rw [deallocate_of_find hguard hfind,
    @releaseTracked_clean (w'.trackerErase p) p r hplaced.raw_ne_zero hverdict] at hfree
  refine ⟨r.rawPtr, total, hlive, ⟨by omega, by omega⟩, by omega, ?_, ?_⟩
  · rw [hfree]
    rfl
  · rw [hfree]
    dsimp only
    rw [show (w'.trackerErase p).heap = w'.heap from rfl, hlive, Option.isSome_some, Bool.not_true,
      Bool.or_false]
    rfl

variable (hmemptr : memptr ≠ 0) (hvalid : ValidAlignment alignment)
include hmemptr hvalid

theorem contract_of_refused (hwhy : o.malloc = 0 ∨ w.Tracks o tid size ∧
      calculateTotalSize size (effectiveAlignment alignment) w.config.footerSize = 0) :
    MemalignContract w o tid memptr alignment size := by
  obtain ⟨hnull, hblocks, hfault⟩ := @allocate_refused w o tid size alignment alignedAllocTag hwhy
  have hstats := (@allocate_stats_of_failed w o tid size alignment alignedAllocTag hwhy).1
  exact (contract_of_null hmemptr hvalid hnull).mpr ⟨hblocks.tracker, hstats, hfault⟩

/-- Where the sum of the parts wraps, the block is too small for what is laid out in it. -/
theorem not_contract_of_not_fit (hdefined : w.fault = false) (hraw : o.malloc ≠ 0)
    (htracks : w.Tracks o tid size)
    (hzero : calculateTotalSize size (effectiveAlignment alignment) w.config.footerSize ≠ 0)
    (hfit : ¬ SizesFit size (effectiveAlignment alignment) w.config.footerSize) :
    ¬ MemalignContract w o tid memptr alignment size := by
  have heq := @allocate_of_tracks w o tid size alignment alignedAllocTag htracks
  rw [@allocateTracked_of_not_fit (w.passGate o tid size) o tid size alignment alignedAllocTag
    w.allocCounter hzero hraw hfit] at heq
  rw [contract_of_null hmemptr hvalid (by rw [heq]), heq]
  intro h
  exact Bool.noConfusion (hdefined.symm.trans h.2.2.symm)

theorem contract_of_fit (hraw : o.malloc ≠ 0) (htracks : w.Tracks o tid size)
    (hfresh : Fresh w.heap o.malloc
      (calculateTotalSize size (effectiveAlignment alignment) w.config.footerSize))
    (hfit : SizesFit size (effectiveAlignment alignment) w.config.footerSize) :
    MemalignContract w o tid memptr alignment size := by
  have hspace := hfresh.1
  unfold extent at hspace
  obtain ⟨hcontrol, hi⟩ :=
    @allocate_installed w o tid size alignment alignedAllocTag htracks hraw hfit
  have hplaced := placed_userAddress hraw hfit (by omega)
  have hheap := hi.heap
  rw [hplaced.extent_eq] at hheap
  have hverdict := @verifyCanary_verdict _ o.malloc _ size w.config.footerSize _
    (@initBlock_header w.mem o.malloc size (effectiveAlignment alignment) w.config.footerSize
      w.allocCounter (w.finalTag tid alignedAllocTag) w.config.enableCanary tid _ hplaced) hraw
  rw [if_pos (initBlock_footer hplaced), ← hi.mem, ← hcontrol.config] at hverdict
  rw [← hi.pointer] at hplaced
  have hfind := hi.tracker ▸ ShardedTracker.find_insert_self hplaced.user_ne_zero
  refine (contract_of_ne hmemptr hvalid rfl hplaced.user_ne_zero hi.fault).mpr ?_
  refine releasable_tracked ((hcontrol.guardActive tid).trans htracks.1) hfind hplaced ?_ hverdict
  rw [hheap]
  exact update_self _ _ _

theorem contract_untracked_iff (hraw : o.malloc ≠ 0) (htracks : ¬ w.Tracks o tid size)
    (hfresh : Fresh w.heap o.malloc size) :
    MemalignContract w o tid memptr alignment size ↔
      w.guardActive tid ∨ FreesItself w o.malloc := by
  have hcontrol := (allocate_effect w o tid size alignment alignedAllocTag).1
  obtain ⟨hp, hheap, htracker, hmem, hfault⟩ :=
    @allocate_untracked w o tid size alignment alignedAllocTag hraw htracks
  rw [contract_of_ne hmemptr hvalid hp hraw hfault, releasable_untracked_iff hraw hheap hfresh,
    hcontrol.guardActive tid, freesItself_congr htracker hmem hcontrol.config]

end Memalign

/-- **When `posix_memalign` keeps its contract**, in every state of the manager whose
behaviour is defined. -/
theorem posix_memalign_iff (w : World) (o : Oracle) (tid : ThreadId)
    (memptr alignment size : Word) (hmemptr : memptr ≠ 0) (hdefined : w.fault = false)
    (hfresh : o.malloc ≠ 0 → Fresh w.heap o.malloc (systemRequest w o tid alignment size)) :
    MemalignContract w o tid memptr alignment size ↔ MemalignExact w o tid alignment size := by
  unfold MemalignExact
  by_cases hzero : alignment = 0
  · -- zero is no power of two, and yet it is not refused
    refine iff_of_false (fun h => ?_) fun h => h.1 hzero
    rw [hzero] at h
    exact posixMemalign_accepted_ne hmemptr (Or.inl rfl) (h.invalid.mpr not_validAlignment_zero)
  rw [and_iff_right hzero]
  by_cases hvalid : ValidAlignment alignment
  · rw [or_iff_right (not_not_intro hvalid)]
    by_cases hraw : o.malloc = 0
    · exact iff_of_true (contract_of_refused hmemptr hvalid (Or.inl hraw)) (Or.inl hraw)
    rw [or_iff_right hraw]
    have hfresh := hfresh hraw
    unfold systemRequest at hfresh
    by_cases htracks : w.Tracks o tid size
    · rw [if_pos htracks]
      rw [if_pos htracks] at hfresh
      by_cases htotal :
          calculateTotalSize size (effectiveAlignment alignment) w.config.footerSize = 0
      · exact iff_of_true (contract_of_refused hmemptr hvalid (Or.inr ⟨htracks, htotal⟩))
          (Or.inl htotal)
      rw [or_iff_right htotal]
      by_cases hfit : SizesFit size (effectiveAlignment alignment) w.config.footerSize
      · exact iff_of_true (contract_of_fit hmemptr hvalid hraw htracks hfresh hfit) hfit
      · exact iff_of_false
          (not_contract_of_not_fit hmemptr hvalid hdefined hraw htracks htotal hfit) hfit
    · rw [if_neg htracks]
      rw [if_neg htracks] at hfresh
      exact contract_untracked_iff hmemptr hvalid hraw htracks hfresh
  · refine iff_of_true ?_ (Or.inl hvalid)
    have heq := @posixMemalign_rejected w o tid memptr alignment size hmemptr hzero hvalid
    refine ⟨?_, ?_, ?_, ?_⟩
    · rw [heq]
      exact iff_of_true rfl hvalid
    · rw [heq]
      exact fun _ => ⟨rfl, rfl, rfl⟩
    · rw [heq]
      exact fun h => absurd h (show einval ≠ 0 by decide)
    · rw [heq]

/-- An alignment of 64 bytes. -/
theorem posix_memalign_64 :
    MemalignContract ((World.start fun _ => 0).init {}) { malloc := 0x10000 } 1 0x7000 64 128 := by
  refine (posix_memalign_iff _ _ 1 0x7000 64 128 (by decide) rfl fun _ =>
    fresh_empty (by decide +kernel)).mpr ⟨by decide, Or.inr (Or.inr ?_)⟩
  rw [if_pos (by decide)]
  exact Or.inr (by decide)

/-- An alignment of zero gets a block. -/
theorem posix_memalign_zero :
    ¬ MemalignContract ((World.start fun _ => 0).init {}) { malloc := 0x10000 } 1 0x7000 0 128 := by
  intro h
  have hanswer : (((World.start fun _ => 0).init {}).memsentryPosixMemalign { malloc := 0x10000 } 1
      0x7000 0 128).2.1 = 0 := by decide +kernel
  have hinvalid := h.invalid.mpr not_validAlignment_zero
  rw [hanswer] at hinvalid
  exact absurd hinvalid (by decide)

end MemSentry
