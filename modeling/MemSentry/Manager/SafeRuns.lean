import MemSentry.Manager.Ownership

/-!
# Runs that keep the blocks in order

`CallSound` is the condition on a call under which the manager recovers the right base
address: a tracked pointer is released with the guard inactive and reallocated while
initialised, and the four bytes below an untracked pointer are not taken for the back
offset of a header. Every call that meets it keeps `Owned` and hands the system only
bases of live blocks (`step_ok`); a run of such calls therefore never frees an
address that is not the base of a live block (`run_ok`).
-/

namespace MemSentry

open ByteMemory MemSentry.Core Function World Transition

/-- A pointer handed to `free` or `realloc` of the system was the base of a live block. -/
def Action.OnLiveBlock : Action → Prop
  | .systemFree _ live => live = true
  | .systemRealloc _ _ _ live => live = true
  | _ => True

/-- `deallocate` with the guard inactive does not take the bytes below the pointer for a
header when it falls through to them. -/
def NotMisread (w : World) (ptr : Ptr) : Prop :=
  (w.tracker.erase ptr).1 = .notFound → getHeaderFromUserPtr w.mem ptr = 0

def CallSound (w : World) : Call → Prop
  | .trackFree tid ptr =>
    ptr = 0 ∨ if w.guardActive tid then w.tracker.find ptr = none else NotMisread w ptr
  | .trackRealloc tid _ ptr newSize =>
    ptr = 0 ∨
      if w.guardActive tid ∨ w.initialized = false then w.tracker.find ptr = none
      else newSize = 0 → NotMisread w ptr
  | _ => True

instance (w : World) (ptr : Ptr) : Decidable (NotMisread w ptr) :=
  inferInstanceAs (Decidable (_ → _))

instance (w : World) (c : Call) : Decidable (CallSound w c) :=
  match c with
  | .trackFree .. => inferInstanceAs (Decidable (_ ∨ ite _ _ _))
  | .trackRealloc .. => inferInstanceAs (Decidable (_ ∨ ite _ _ (_ → _)))
  | .init _ | .shutdown | .enterGuard _ | .exitGuard _ | .setCurrentTag .. | .trackAlloc ..
  | .store _ => isTrue trivial

theorem onLiveBlock_of_log {old log as : List Action} (hlog : log = old ++ as)
    (has : ∀ a ∈ as, a.OnLiveBlock) : ∀ a ∈ log, a ∈ old ∨ a.OnLiveBlock := by
  intro a ha
  rw [hlog] at ha
  exact (List.mem_append.mp ha).imp_right (has a)

namespace World

variable {w : World} {o : Oracle} {tid : ThreadId} {size alignment tag newSize : Word} {ptr : Ptr}
  {ls : Ptr → Option Lease} {l : Lease}

/-- The blocks, the records and the given leases fit together. -/
def OwnedBy (w : World) (ls : Ptr → Option Lease) : Prop := Owned w.heap w.tracker ls

/-! ## The system allocator -/

theorem rawSystemFree_owned (h : w.OwnedBy ls) (hl : ls ptr = some l)
    (hfind : w.tracker.find ptr = none) :
    (w.rawSystemFree ptr).OwnedBy (update ls ptr none) ∧
      (w.rawSystemFree ptr).fault = w.fault ∧
      ∀ a ∈ (w.rawSystemFree ptr).log, a ∈ w.log ∨ a.OnLiveBlock := by
  obtain ⟨hbase, hlive⟩ := h.untracked ptr l hl hfind
  have hp : ptr ≠ 0 := (h.space ptr _ hlive).1
  have hrelease := h.release hl
  rw [hbase, ShardedTracker.afterErase_of_find_none hfind] at hrelease
  rw [rawSystemFree_of_ne hp]
  refine ⟨hrelease, ?_, ?_⟩
  · rw [hlive]
    exact Bool.or_false _
  · exact onLiveBlock_of_log rfl (by simp [Action.OnLiveBlock, hlive])

/-- What an allocation leaves of the tables: nothing new, or one more block with its
pointer leased. -/
structure AllocOwned (w : World) (ls : Ptr → Option Lease) (o : Oracle) (size : Word)
    (w' : World) (q : Ptr) : Prop where
  failed : q = 0 → w'.fault = true ∨ w'.OwnedBy ls ∧ w'.fault = w.fault
  got : q ≠ 0 → w'.OwnedBy (update ls q (some ⟨o.malloc, size⟩)) ∧ ls q = none ∧
    w'.fault = w.fault ∧ ∀ p, p ≠ q → w'.tracker.find p = w.tracker.find p
  log : ∀ a ∈ w'.log, a ∈ w.log ∨ a.OnLiveBlock

theorem rawSystemAlloc_owned (h : w.OwnedBy ls)
    (hfresh : o.malloc ≠ 0 → Fresh w.heap o.malloc size) :
    AllocOwned w ls o size (w.rawSystemAlloc o size).1 (w.rawSystemAlloc o size).2 := by
  by_cases hraw : o.malloc = 0
  · rw [rawSystemAlloc_of_null hraw]
    exact ⟨fun _ => Or.inr ⟨h, rfl⟩, fun hne => absurd rfl hne,
      onLiveBlock_of_log rfl (by simp [Action.OnLiveBlock])⟩
  · rw [rawSystemAlloc_of_ne hraw]
    have hf := hfresh hraw
    refine ⟨fun h0 => absurd h0 hraw, fun _ => ⟨h.alloc_raw hraw hf, ?_, rfl, fun _ _ => rfl⟩, ?_⟩
    · exact h.no_lease_inside hf (Nat.le_refl _) (Nat.lt_add_of_pos_right (extent_pos size))
    · exact onLiveBlock_of_log rfl (by simp [Action.OnLiveBlock])

/-- Reallocating an untracked pointer: a release followed by an allocation. -/
theorem rawSystemRealloc_owned (h : w.OwnedBy ls) (hl : ls ptr = some l)
    (hfind : w.tracker.find ptr = none) (hn : newSize ≠ 0)
    (hfresh : ∀ a ∈ (w.rawSystemRealloc o ptr newSize).1.log, a.Fresh w.heap) :
    ((w.rawSystemRealloc o ptr newSize).2 = 0 → (w.rawSystemRealloc o ptr newSize).1.OwnedBy ls) ∧
      ((w.rawSystemRealloc o ptr newSize).2 ≠ 0 →
        (w.rawSystemRealloc o ptr newSize).1.OwnedBy
          (update (update ls ptr none) (w.rawSystemRealloc o ptr newSize).2
            (some ⟨o.malloc, newSize⟩))) ∧
      (w.rawSystemRealloc o ptr newSize).1.fault = w.fault ∧
      ∀ a ∈ (w.rawSystemRealloc o ptr newSize).1.log, a ∈ w.log ∨ a.OnLiveBlock := by
  obtain ⟨hbase, hlive⟩ := h.untracked ptr l hl hfind
  have hp : ptr ≠ 0 := (h.space ptr _ hlive).1
  have hlog : ∀ a ∈ w.log ++ [Action.systemRealloc ptr newSize o.malloc (w.heap ptr).isSome],
      a ∈ w.log ∨ a.OnLiveBlock :=
    onLiveBlock_of_log rfl (by simp [Action.OnLiveBlock, hlive])
  have hfault : (w.fault || !(w.heap ptr).isSome) = w.fault := by
    rw [hlive]
    exact Bool.or_false _
  by_cases hraw : o.malloc = 0
  · rw [rawSystemRealloc_failed hp hn hraw]
    exact ⟨fun _ => h, fun hne => absurd rfl hne, hfault, hlog⟩
  · rw [rawSystemRealloc_moved hp hn hraw] at hfresh ⊢
    have hf : Fresh (update w.heap ptr none) o.malloc newSize :=
      hfresh (.systemRealloc ptr newSize o.malloc (w.heap ptr).isSome)
        (List.mem_append_right _ List.mem_cons_self) hraw
    have hrelease := h.release hl
    rw [hbase, ShardedTracker.afterErase_of_find_none hfind] at hrelease
    exact ⟨fun h0 => absurd h0 hraw, fun _ => hrelease.alloc_raw hraw hf, hfault, hlog⟩

/-! ## Allocation -/

theorem recordOf_footerSize {allocId userPtr : Word}
    (hfit : SizesFit size (effectiveAlignment alignment) w.config.footerSize) :
    (w.recordOf o tid allocId size alignment tag userPtr).footerSize = w.config.footerSize := by
  have hne := ne_zero_of_sizesFit hfit
  unfold AllocationRecord.footerSize recordOf
  dsimp only
  unfold calculateTotalSize at *
  dsimp only at *
  split at hne
  · exact absurd rfl hne
  · rename_i hroom
    rw [if_neg hroom, effectiveAlignment_effectiveAlignment, BitVec.add_assoc,
      BitVec.add_comm _ (size + _), BitVec.add_sub_cancel, BitVec.add_comm size,
      BitVec.add_sub_cancel]

/-- The block of a tracked allocation, described by its record. -/
theorem recordOf_placed {allocId : Word} (hraw : o.malloc ≠ 0)
    (hfit : SizesFit size (effectiveAlignment alignment) w.config.footerSize)
    (hspace : o.malloc.toNat + (calculateTotalSize size (effectiveAlignment alignment)
      w.config.footerSize).toNat ≤ 2 ^ 64) :
    Placed o.malloc (userAddress o.malloc (effectiveAlignment alignment)) size.toNat
      (w.recordOf o tid allocId size alignment tag
        (userAddress o.malloc (effectiveAlignment alignment))).footerSize.toNat
      (calculateTotalSize size (effectiveAlignment alignment) w.config.footerSize).toNat := by
  rw [recordOf_footerSize hfit]
  exact placed_userAddress hraw hfit hspace

theorem allocate_owned (h : w.OwnedBy ls)
    (hfresh : ∀ a ∈ (w.allocate o tid size alignment tag).1.log, a.Fresh w.heap) :
    AllocOwned w ls o size (w.allocate o tid size alignment tag).1
      (w.allocate o tid size alignment tag).2 := by
  have hlive : ∀ a ∈ (w.allocate o tid size alignment tag).1.log, a ∈ w.log ∨ a.OnLiveBlock := by
    obtain ⟨as, hlog, has⟩ := @allocate_log w o tid size alignment tag
    refine onLiveBlock_of_log hlog fun a ha => ?_
    rcases has a ha with ⟨n, q, rfl⟩ | ⟨m, n, rfl⟩
    · trivial
    · trivial
  cases (allocate_effect w o tid size alignment tag).2 with
  | failed hp hwhy hblocks hfault hlog =>
    refine ⟨fun _ => Or.inr ⟨?_, hfault⟩, fun hne => absurd hp hne, ?_⟩
    · unfold OwnedBy
      rw [hblocks.heap, hblocks.tracker]
      exact h
    · exact hlive
  | faulted hp hfit hfault htracker hmem hcalls hlog =>
    exact ⟨fun _ => Or.inl hfault, fun hne => absurd hp hne, hlive⟩
  | raw hp hne htracks hheap htracker hmem hcalls hlog hfault =>
    have hraw : o.malloc ≠ 0 := hp ▸ hne
    have hf : Fresh w.heap o.malloc size := hfresh (.systemAlloc size o.malloc)
      (by rw [hlog]; exact List.mem_append_right _ List.mem_cons_self) hraw
    refine ⟨fun h0 => absurd h0 hne, fun _ => ⟨?_, ?_, hfault, fun p _ => by rw [htracker]⟩, ?_⟩
    · unfold OwnedBy
      rw [hheap, htracker, hp]
      exact h.alloc_raw hraw hf
    · rw [hp]
      exact h.no_lease_inside hf (Nat.le_refl _) (Nat.lt_add_of_pos_right (extent_pos size))
    · exact hlive
  | tracked allocId tag' htracks hraw hfit hp hheap htracker hcalls hmem hlog hfault =>
    obtain ⟨rest, hlog, _⟩ := hlog
    have hf : Fresh w.heap o.malloc (calculateTotalSize size (effectiveAlignment alignment)
        w.config.footerSize) := hfresh (.systemAlloc _ o.malloc)
      (by rw [hlog]; exact List.mem_append_right _ List.mem_cons_self) hraw
    have hspace := hf.1
    have hplaced := @recordOf_placed w o tid size alignment tag' allocId hraw hfit
      (Nat.le_trans (Nat.add_le_add_left (le_extent _) _) hspace)
    have huser : (w.allocate o tid size alignment tag).2 ≠ 0 := hp ▸ hplaced.user_ne_zero
    refine ⟨fun h0 => absurd h0 huser, fun _ => ⟨?_, ?_, hfault, ?_⟩, ?_⟩
    · unfold OwnedBy
      rw [hheap, htracker]
      rw [hp]
      exact Owned.alloc_tracked h (r := w.recordOf o tid allocId size alignment tag' _) hf hplaced
    · have hbelow := hplaced.below
      have habove := hplaced.above
      rw [hp]
      exact h.no_lease_inside hf (by omega) (by rw [hplaced.extent_eq]; omega)
    · intro p hne
      rw [htracker, ShardedTracker.find_insert_of_ne hne]
    · exact hlive

/-! ## Release -/

/-- Giving a held pointer back: its block is released or leaked, and the tables no longer
speak of it. -/
theorem deallocate_owned (h : w.OwnedBy ls) (hl : ls ptr = some l)
    (hguard : w.guardActive tid = false) (hsound : NotMisread w ptr) :
    (w.deallocate tid ptr).OwnedBy (update ls ptr none) ∧
      (w.deallocate tid ptr).fault = w.fault ∧
      ∀ a ∈ (w.deallocate tid ptr).log, a ∈ w.log ∨ a.OnLiveBlock := by
  have hp := h.held_ne_zero hl
  obtain ⟨_, _, heffect⟩ := deallocate_effect w tid ptr hguard hp
  have hleak := h.leak ptr
  have hrelease := h.release hl
  unfold OwnedBy
  cases heffect with
  | released r hfind hraw hverdict hheap htracker hmem hlog hfault =>
    obtain ⟨hblock, hlease⟩ := h.tracked ptr r hfind
    rw [hl] at hlease
    cases hlease
    rw [hblock.live] at hlog hfault
    refine ⟨by rw [hheap, htracker]; exact hrelease, by rw [hfault]; exact Bool.or_false _, ?_⟩
    exact onLiveBlock_of_log hlog (by simp [Action.OnLiveBlock])
  | leaked r hfind hverdict hheap htracker hmem hlog hfault =>
    refine ⟨by rw [hheap, htracker]; exact hleak, hfault, ?_⟩
    exact onLiveBlock_of_log hlog (by simp [Action.OnLiveBlock])
  | alarm hfind hq hheap htracker hmem hlog hfault =>
    rw [ShardedTracker.afterErase_of_find_none hfind] at hleak
    refine ⟨by rw [hheap, htracker]; exact hleak, hfault, ?_⟩
    exact onLiveBlock_of_log hlog (by simp [Action.OnLiveBlock])
  | untracked hfind hq hheader hheap htracker hmem hlog hfault =>
    obtain ⟨hbase, hlive⟩ := h.untracked ptr l hl hfind
    rw [hbase, ShardedTracker.afterErase_of_find_none hfind] at hrelease
    rw [hlive] at hlog hfault
    refine ⟨by rw [hheap, htracker]; exact hrelease, by rw [hfault]; exact Bool.or_false _, ?_⟩
    exact onLiveBlock_of_log hlog (by simp [Action.OnLiveBlock])
  | misread hfind hq hheader hlog =>
    have hstatus : (w.tracker.erase ptr).1 = .notFound := by
      rw [ShardedTracker.erase_of_not_quarantined hfind (Or.inr hq)]
    exact absurd (hsound hstatus) hheader

/-! ## Reallocation -/

/-- The allocation inside `reallocate` of a tracked pointer. -/
def reallocated (w : World) (o : Oracle) (tid : ThreadId) (ptr : Ptr) (r : AllocationRecord)
    (newSize : Word) : World × Ptr :=
  (World.checkOldBlock { w with calls := .find ptr :: w.calls } ptr r).allocate o tid newSize
    r.alignment r.tag

/-- The state in which `reallocate` gives the old block back. -/
def recopied (w : World) (o : Oracle) (tid : ThreadId) (ptr : Ptr) (r : AllocationRecord)
    (newSize : Word) : World :=
  (w.reallocated o tid ptr r newSize).1.copyPayload (w.reallocated o tid ptr r newSize).2 ptr
    (copyBytes r newSize)

theorem reallocate_of_find {r : AllocationRecord} (hn : newSize ≠ 0)
    (hguard : w.guardActive tid = false) (hinit : w.initialized = true)
    (hfind : w.tracker.find ptr = some r) :
    w.reallocate o tid ptr newSize =
      if (w.reallocated o tid ptr r newSize).2 = 0 then
        ((w.reallocated o tid ptr r newSize).1, 0)
      else
        ((w.recopied o tid ptr r newSize).deallocate tid ptr,
          (w.reallocated o tid ptr r newSize).2) := by
  have hopen : ¬ (w.guardActive tid = true ∨ ¬ w.initialized = true) := by
    rw [hguard, hinit]
    decide
  unfold reallocate
  rw [if_neg (ShardedTracker.ne_zero_of_find hfind), if_neg hn, if_neg hopen, hfind]
  rfl

theorem reallocate_of_find_none (hp : ptr ≠ 0) (hn : newSize ≠ 0)
    (hguard : w.guardActive tid = false) (hinit : w.initialized = true)
    (hfind : w.tracker.find ptr = none) :
    w.reallocate o tid ptr newSize =
      World.rawSystemRealloc { w with calls := .find ptr :: w.calls } o ptr newSize := by
  have hopen : ¬ (w.guardActive tid = true ∨ ¬ w.initialized = true) := by
    rw [hguard, hinit]
    decide
  unfold reallocate
  rw [if_neg hp, if_neg hn, if_neg hopen, hfind]

/-- The canary check of `reallocate` only adds to the log. -/
theorem checkOldBlock_log (w : World) (ptr : Ptr) (r : AllocationRecord) :
    ∃ as, w.checkOldBlock ptr r = { w with log := w.log ++ as } ∧
      ∀ a ∈ as, a.OnLiveBlock := by
  unfold checkOldBlock
  split
  · dsimp only
    split
    · exact ⟨[.inspect (verifyCanary w.mem r.rawPtr w.config.canaryFooterSize).2,
        .alert ptr (verifyCanary w.mem r.rawPtr w.config.canaryFooterSize).1],
        by simp [alert, emit], by simp [Action.OnLiveBlock]⟩
    · exact ⟨[.inspect (verifyCanary w.mem r.rawPtr w.config.canaryFooterSize).2], rfl,
        by simp [Action.OnLiveBlock]⟩
  · exact ⟨[], by rw [List.append_nil], fun a ha => by cases ha⟩

theorem lease_of_ne {l : Lease} (h : ptr ≠ 0) :
    w.lease ptr l = { w with leases := update w.leases ptr (some l) } := if_neg h

theorem lease_null {l : Lease} : w.lease 0 l = w := if_pos rfl

theorem rawSystemFree_log (w : World) (ptr : Ptr) :
    ∃ as, (w.rawSystemFree ptr).log = w.log ++ as := by
  by_cases hp : ptr = 0
  · rw [hp]
    exact ⟨[], (List.append_nil _).symm⟩
  · rw [rawSystemFree_of_ne hp]
    exact ⟨_, rfl⟩

/-- A release only adds to the log. -/
theorem deallocate_log (w : World) (tid : ThreadId) (ptr : Ptr) :
    ∃ as, (w.deallocate tid ptr).log = w.log ++ as := by
  have hkeep : ∃ as, w.log = w.log ++ as := ⟨[], (List.append_nil _).symm⟩
  by_cases hp : ptr = 0
  · unfold deallocate
    rw [if_pos hp]
    exact hkeep
  by_cases hguard : w.guardActive tid
  · unfold deallocate
    rw [if_neg hp, if_pos hguard]
    dsimp only
    split
    · split
      · exact hkeep
      · exact rawSystemFree_log w _
    · exact rawSystemFree_log w _
  obtain ⟨_, _, heffect⟩ := deallocate_effect w tid ptr (Bool.not_eq_true _ ▸ hguard) hp
  cases heffect with
  | released r hfind hraw hverdict hheap htracker hmem hlog hfault => exact ⟨_, hlog⟩
  | leaked r hfind hverdict hheap htracker hmem hlog hfault => exact ⟨_, hlog⟩
  | alarm hfind hq hheap htracker hmem hlog hfault => exact ⟨_, hlog⟩
  | untracked hfind hq hheader hheap htracker hmem hlog hfault => exact ⟨_, hlog⟩
  | misread hfind hq hheader hlog =>
    obtain ⟨accesses, hlog⟩ := hlog
    exact ⟨_, hlog⟩

theorem reallocated_control (w : World) (o : Oracle) (tid : ThreadId) (ptr : Ptr)
    (r : AllocationRecord) (newSize : Word) :
    SameControl w (w.reallocated o tid ptr r newSize).1 := by
  obtain ⟨as, hcheck, _⟩ := checkOldBlock_log { w with calls := .find ptr :: w.calls } ptr r
  unfold reallocated
  rw [hcheck]
  obtain ⟨hinner, _⟩ := allocate_effect { w with calls := .find ptr :: w.calls, log := w.log ++ as }
    o tid newSize r.alignment r.tag
  exact ⟨hinner.config, hinner.initialized, hinner.leases, hinner.guardActive⟩

theorem reallocate_tracked_control {r : AllocationRecord} (hn : newSize ≠ 0)
    (hguard : w.guardActive tid = false) (hinit : w.initialized = true)
    (hfind : w.tracker.find ptr = some r) :
    SameControl w (w.reallocate o tid ptr newSize).1 := by
  have hcontrol := reallocated_control w o tid ptr r newSize
  rw [reallocate_of_find hn hguard hinit hfind]
  split
  · exact hcontrol
  · obtain ⟨hrelease, _⟩ := deallocate_effect (w.recopied o tid ptr r newSize) tid ptr
      ((hcontrol.guardActive tid).trans hguard) (ShardedTracker.ne_zero_of_find hfind)
    exact hcontrol.trans ⟨hrelease.config, hrelease.initialized, hrelease.leases,
      hrelease.guardActive⟩

/-- The allocation inside a reallocation is logged by the reallocation. -/
theorem reallocated_log {r : AllocationRecord} (hn : newSize ≠ 0)
    (hguard : w.guardActive tid = false) (hinit : w.initialized = true)
    (hfind : w.tracker.find ptr = some r) :
    ∀ a ∈ (w.reallocated o tid ptr r newSize).1.log,
      a ∈ (w.reallocate o tid ptr newSize).1.log := by
  intro a ha
  rw [reallocate_of_find hn hguard hinit hfind]
  split
  · exact ha
  · obtain ⟨bs, hbs⟩ := deallocate_log (w.recopied o tid ptr r newSize) tid ptr
    rw [hbs]
    exact List.mem_append_left _ ha

theorem reallocated_owned (h : w.OwnedBy ls) {r : AllocationRecord}
    (hfresh : ∀ a ∈ (w.reallocated o tid ptr r newSize).1.log, a.Fresh w.heap) :
    AllocOwned w ls o newSize (w.reallocated o tid ptr r newSize).1
      (w.reallocated o tid ptr r newSize).2 := by
  obtain ⟨as, hcheck, has⟩ := checkOldBlock_log { w with calls := .find ptr :: w.calls } ptr r
  unfold reallocated at hfresh ⊢
  rw [hcheck] at hfresh ⊢
  obtain ⟨hfailed, hgot, hlog⟩ := allocate_owned (w := { w with
    calls := .find ptr :: w.calls, log := w.log ++ as }) h hfresh
  refine ⟨hfailed, hgot, fun a ha => ?_⟩
  rcases hlog a ha with hold | hlive
  · exact (List.mem_append.mp hold).imp_right (has a)
  · exact Or.inr hlive

/-- Reallocating a tracked pointer: an allocation, then the release of the old block. -/
theorem reallocate_tracked_owned (h : w.OwnedBy ls) {r : AllocationRecord} (hn : newSize ≠ 0)
    (hguard : w.guardActive tid = false) (hinit : w.initialized = true)
    (hfind : w.tracker.find ptr = some r)
    (hfresh : ∀ a ∈ (w.reallocate o tid ptr newSize).1.log, a.Fresh w.heap) :
    ((w.reallocate o tid ptr newSize).2 = 0 → (w.reallocate o tid ptr newSize).1.fault = true ∨
        (w.reallocate o tid ptr newSize).1.OwnedBy ls) ∧
      ((w.reallocate o tid ptr newSize).2 ≠ 0 →
        (w.reallocate o tid ptr newSize).1.OwnedBy
          (update (update ls ptr none) (w.reallocate o tid ptr newSize).2
            (some ⟨o.malloc, newSize⟩))) ∧
      ∀ a ∈ (w.reallocate o tid ptr newSize).1.log, a ∈ w.log ∨ a.OnLiveBlock := by
  have hlease := (h.tracked ptr r hfind).2
  have hcontrol := reallocated_control w o tid ptr r newSize
  have halloc := reallocated_owned h fun a ha =>
    hfresh a (reallocated_log hn hguard hinit hfind a ha)
  rw [reallocate_of_find hn hguard hinit hfind]
  by_cases hnull : (w.reallocated o tid ptr r newSize).2 = 0
  · rw [if_pos hnull]
    exact ⟨fun _ => (halloc.failed hnull).imp_right And.left, fun hne => absurd rfl hne, halloc.log⟩
  · rw [if_neg hnull]
    obtain ⟨hafter, hnone, hfault, hkeep⟩ := halloc.got hnull
    have hne : ptr ≠ (w.reallocated o tid ptr r newSize).2 := by
      intro heq
      rw [← heq, hlease] at hnone
      cases hnone
    have hlease' : update ls (w.reallocated o tid ptr r newSize).2 (some ⟨o.malloc, newSize⟩) ptr =
        some ⟨r.rawPtr, r.requestedSize⟩ := by
      rw [update_of_ne hne]
      exact hlease
    have hfind' := (hkeep ptr hne).trans hfind
    have hsound : NotMisread (w.recopied o tid ptr r newSize) ptr := by
      intro hstatus
      change (((w.reallocated o tid ptr r newSize).1.tracker).erase ptr).1 = _ at hstatus
      rw [ShardedTracker.erase_of_find hfind'] at hstatus
      cases hstatus
    obtain ⟨hreleased, _, hlog⟩ := deallocate_owned (w := w.recopied o tid ptr r newSize)
      hafter hlease' ((hcontrol.guardActive tid).trans hguard) hsound
    refine ⟨fun h0 => absurd h0 hnull, fun _ => ?_, fun a ha => ?_⟩
    · rw [update_comm hne]
      exact hreleased
    · rcases hlog a ha with hold | hlive
      · exact halloc.log a hold
      · exact Or.inr hlive

end World

/-! ## Steps -/

/-- The blocks, the records and the leases of a world fit together. -/
def InOrder (w : World) : Prop := Owned w.heap w.tracker w.leases

section Steps

variable {mayWrite : World → Memory → Prop} {w : World} {o : Oracle} {tid : ThreadId}
  {size alignment tag newSize : Word} {ptr : Ptr}

/-- What a sound step leaves: the tables in order, unless the behaviour is undefined, and
a log of releases of live blocks. -/
def StepOk (w' : World) : Prop :=
  (w'.fault = true ∨ InOrder w') ∧ ∀ a ∈ w'.log, a.OnLiveBlock

theorem log_lease (w : World) (q : Ptr) (l : Lease) : (w.lease q l).log = w.log := by
  unfold World.lease
  split <;> rfl

/-- Moving a lease changes nothing but the leases. -/
theorem moveLease_eq (w : World) (p q : Ptr) (n : Word) (l : Lease) :
    ∃ ls, w.moveLease p q n l = { w with leases := ls } := by
  unfold World.moveLease
  split
  · rename_i hq
    rw [lease_of_ne hq]
    exact ⟨_, rfl⟩
  · split
    · exact ⟨_, rfl⟩
    · exact ⟨w.leases, rfl⟩

theorem log_moveLease (w : World) (p q : Ptr) (n : Word) (l : Lease) :
    (w.moveLease p q n l).log = w.log := by
  obtain ⟨ls, hls⟩ := moveLease_eq w p q n l
  rw [hls]

theorem step_trackAlloc_ok (h : InOrder w)
    (hperm : Permitted mayWrite w (.trackAlloc tid o size alignment tag)) :
    StepOk (w.step (.trackAlloc tid o size alignment tag)) := by
  have hcontrol := (allocate_effect w.clearLog o tid size alignment tag).1
  have hfresh := hperm.fresh
  unfold StepOk
  unfold World.step at hfresh ⊢
  dsimp only at hfresh ⊢
  rw [trackAlloc_eq, log_lease] at hfresh ⊢
  obtain ⟨hfailed, hgot, hlog⟩ := allocate_owned (w := w.clearLog) h hfresh
  refine ⟨?_, fun a ha => (hlog a ha).resolve_left (List.not_mem_nil)⟩
  by_cases hq : (w.clearLog.allocate o tid size alignment tag).2 = 0
  · rw [hq, lease_null]
    refine (hfailed hq).imp_right fun hall => ?_
    have howned := hall.1
    unfold InOrder
    rw [hcontrol.leases]
    exact howned
  · obtain ⟨howned, _, hfault, _⟩ := hgot hq
    right
    rw [lease_of_ne hq]
    unfold InOrder
    dsimp only
    rw [hcontrol.leases]
    exact howned

theorem step_trackFree_ok (h : InOrder w) (hperm : Permitted mayWrite w (.trackFree tid ptr))
    (hsound : CallSound w (.trackFree tid ptr)) : StepOk (w.step (.trackFree tid ptr)) := by
  unfold StepOk World.step
  dsimp only
  by_cases hp : ptr = 0
  · have hleak := h.leak 0
    rw [ShardedTracker.afterErase_of_find_none ShardedTracker.find_null] at hleak
    rw [hp, trackFree_null]
    exact ⟨Or.inr hleak, fun a ha => absurd ha List.not_mem_nil⟩
  obtain ⟨l, hl⟩ := hperm.disciplined.resolve_left hp
  have hcond := hsound.resolve_left hp
  by_cases hguard : w.guardActive tid
  · rw [if_pos hguard] at hcond
    have hfree := @trackFree_of_guard (w.clearLog.unlease ptr) tid ptr hp hguard
    obtain ⟨howned, _, hlog⟩ := rawSystemFree_owned (w := w.clearLog.unlease ptr) h hl hcond
    rw [hfree]
    refine ⟨Or.inr ?_, fun a ha => (hlog a ha).resolve_left List.not_mem_nil⟩
    unfold InOrder
    rw [rawSystemFree_system.leases]
    exact howned
  · rw [if_neg hguard] at hcond
    rw [Bool.not_eq_true] at hguard
    have hfree := @trackFree_of_no_guard (w.clearLog.unlease ptr) tid ptr hp hguard
    obtain ⟨howned, _, hlog⟩ :=
      deallocate_owned (w := w.clearLog.unlease ptr) h hl hguard hcond
    have hcontrol := (deallocate_effect (w.clearLog.unlease ptr) tid ptr hguard hp).1
    rw [hfree]
    refine ⟨Or.inr ?_, fun a ha => (hlog a ha).resolve_left List.not_mem_nil⟩
    unfold InOrder
    rw [hcontrol.leases]
    exact howned

/-- A reallocation that returned `q`, in terms of what it left of the tables. -/
theorem stepOk_moveLease {w' : World} {q : Ptr} {ls : Ptr → Option Lease} (hls : w'.leases = ls)
    (hnull : q = 0 → newSize ≠ 0 → w'.fault = true ∨ w'.OwnedBy ls)
    (hzero : q = 0 → newSize = 0 → w'.fault = true ∨ w'.OwnedBy (update ls ptr none))
    (hgot : q ≠ 0 → w'.OwnedBy (update (update ls ptr none) q (some ⟨o.malloc, newSize⟩)))
    (hlog : ∀ a ∈ w'.log, a.OnLiveBlock) :
    StepOk (w'.moveLease ptr q newSize ⟨o.malloc, newSize⟩) := by
  subst hls
  unfold StepOk
  rw [log_moveLease]
  refine ⟨?_, hlog⟩
  unfold World.moveLease
  by_cases hq : q = 0
  · rw [if_neg (not_not_intro hq)]
    by_cases hn : newSize = 0
    · rw [if_pos hn]
      exact hzero hq hn
    · rw [if_neg hn]
      exact hnull hq hn
  · rw [if_pos hq, lease_of_ne hq]
    exact Or.inr (hgot hq)

/-- `realloc` of the null pointer is an allocation. -/
theorem stepOk_moveLease_alloc {w' : World} {q : Ptr} (h : InOrder w)
    (hls : w'.leases = w.leases) (hnone : ptr = 0)
    (halloc : AllocOwned w.clearLog w.leases o newSize w' q) :
    StepOk (w'.moveLease ptr q newSize ⟨o.malloc, newSize⟩) := by
  have hleases : update w.leases ptr none = w.leases := by
    rw [update_eq_self_iff]
    rcases hl : w.leases ptr with _ | l
    · rfl
    · exact absurd hnone (h.held_ne_zero hl)
  refine stepOk_moveLease hls (fun hq _ => (halloc.failed hq).imp_right And.left) ?_ ?_
    fun a ha => (halloc.log a ha).resolve_left List.not_mem_nil
  · intro hq _
    rw [hleases]
    exact (halloc.failed hq).imp_right And.left
  · intro hq
    rw [hleases]
    exact (halloc.got hq).1

theorem step_trackRealloc_ok (h : InOrder w)
    (hperm : Permitted mayWrite w (.trackRealloc tid o ptr newSize))
    (hsound : CallSound w (.trackRealloc tid o ptr newSize)) :
    StepOk (w.step (.trackRealloc tid o ptr newSize)) := by
  have hfresh := hperm.fresh
  unfold World.step at hfresh ⊢
  dsimp only at hfresh ⊢
  rw [log_moveLease] at hfresh
  by_cases hbypass : w.guardActive tid = true ∨ w.initialized = false
  · rw [@trackRealloc_of_bypass w.clearLog o tid ptr newSize hbypass] at hfresh ⊢
    by_cases hp : ptr = 0
    · subst hp
      rw [rawSystemRealloc_null] at hfresh ⊢
      refine stepOk_moveLease_alloc h rawSystemAlloc_system.leases rfl
        (rawSystemAlloc_owned (w := w.clearLog) h fun hraw => ?_)
      exact hfresh (.systemAlloc newSize o.malloc)
        (by rw [rawSystemAlloc_of_ne hraw]; exact List.mem_append_right _ List.mem_cons_self) hraw
    obtain ⟨l, hl⟩ := hperm.disciplined.resolve_left hp
    have hfind := hsound.resolve_left hp
    rw [if_pos hbypass] at hfind
    by_cases hn : newSize = 0
    · subst hn
      obtain ⟨howned, _, hlog⟩ := rawSystemFree_owned (w := w.clearLog) h hl hfind
      rw [rawSystemRealloc_zero hp]
      exact stepOk_moveLease rawSystemFree_system.leases (fun _ hne => absurd rfl hne)
        (fun _ _ => Or.inr howned) (fun hne => absurd rfl hne)
        fun a ha => (hlog a ha).resolve_left List.not_mem_nil
    · obtain ⟨hnull, hgot, _, hlog⟩ :=
        rawSystemRealloc_owned (w := w.clearLog) h hl hfind hn hfresh
      exact stepOk_moveLease rawSystemRealloc_system.leases (fun hq _ => Or.inr (hnull hq))
        (fun _ h0 => absurd h0 hn) hgot fun a ha => (hlog a ha).resolve_left List.not_mem_nil
  · have hguard : w.guardActive tid = false := by
      cases hg : w.guardActive tid
      · rfl
      · exact absurd (Or.inl hg) hbypass
    have hinit : w.initialized = true := by
      cases hi : w.initialized
      · exact absurd (Or.inr hi) hbypass
      · rfl
    rw [@trackRealloc_of_open w.clearLog o tid ptr newSize hguard hinit] at hfresh ⊢
    by_cases hp : ptr = 0
    · subst hp
      rw [reallocate_null] at hfresh ⊢
      exact stepOk_moveLease_alloc h (allocate_effect w.clearLog o tid newSize _ 0).1.leases rfl
        (allocate_owned (w := w.clearLog) h hfresh)
    obtain ⟨l, hl⟩ := hperm.disciplined.resolve_left hp
    have hcond := hsound.resolve_left hp
    rw [if_neg hbypass] at hcond
    by_cases hn : newSize = 0
    · subst hn
      obtain ⟨howned, _, hlog⟩ :=
        deallocate_owned (w := w.clearLog) h hl hguard (hcond rfl)
      rw [reallocate_zero hp]
      exact stepOk_moveLease (deallocate_effect w.clearLog tid ptr hguard hp).1.leases
        (fun _ hne => absurd rfl hne) (fun _ _ => Or.inr howned) (fun hne => absurd rfl hne)
        fun a ha => (hlog a ha).resolve_left List.not_mem_nil
    rcases hfind : w.tracker.find ptr with _ | r
    · rw [@reallocate_of_find_none w.clearLog o tid newSize ptr hp hn hguard hinit hfind]
        at hfresh ⊢
      obtain ⟨hnull, hgot, _, hlog⟩ := rawSystemRealloc_owned (w := { w.clearLog with
        calls := .find ptr :: w.calls }) h hl hfind hn hfresh
      have hleases := (@rawSystemRealloc_system { w.clearLog with
        calls := .find ptr :: w.calls } o ptr newSize).leases
      exact stepOk_moveLease hleases (fun hq _ => Or.inr (hnull hq))
        (fun _ h0 => absurd h0 hn) hgot fun a ha => (hlog a ha).resolve_left List.not_mem_nil
    · obtain ⟨hnull, hgot, hlog⟩ :=
        reallocate_tracked_owned (w := w.clearLog) h hn hguard hinit hfind hfresh
      have hcontrol := @reallocate_tracked_control w.clearLog o tid newSize ptr r hn hguard hinit
        hfind
      exact stepOk_moveLease hcontrol.leases (fun hq _ => hnull hq) (fun _ h0 => absurd h0 hn)
        hgot fun a ha => (hlog a ha).resolve_left List.not_mem_nil

/-- A sound step keeps the tables in order and releases only live blocks. -/
theorem step_ok {c : Call} (h : InOrder w) (hperm : Permitted mayWrite w c)
    (hsound : CallSound w c) : StepOk (w.step c) := by
  have hnil : ∀ a ∈ ([] : List Action), a.OnLiveBlock := fun a ha => absurd ha List.not_mem_nil
  cases c with
  | init config => exact ⟨Or.inr h, hnil⟩
  | shutdown => exact ⟨Or.inr h, hnil⟩
  | enterGuard tid => exact ⟨Or.inr h, hnil⟩
  | exitGuard tid => exact ⟨Or.inr h, hnil⟩
  | setCurrentTag tid tag => exact ⟨Or.inr h, hnil⟩
  | trackAlloc tid o size alignment tag => exact step_trackAlloc_ok h hperm
  | trackFree tid ptr => exact step_trackFree_ok h hperm hsound
  | trackRealloc tid o ptr newSize => exact step_trackRealloc_ok h hperm hsound
  | store mem => exact ⟨Or.inr h, hnil⟩

/-- A run of sound steps. -/
theorem run_ok {cond : World → Call → Prop} {w' : World} {cs : List Call}
    (hcond : ∀ w c, cond w c → CallSound w c) (hrun : Run (managerSystem mayWrite cond) w cs w')
    (h : StepOk w) : StepOk w' := by
  refine hrun.invariant (I := StepOk) ?_ h
  intro w c hw hguard
  have horder : InOrder w := by
    rcases hw.1 with hfault | horder
    · rw [hguard.1.defined] at hfault
      cases hfault
    · exact horder
  exact step_ok horder hguard.1 (hcond w c hguard.2)

/-- A release asks the system for nothing. -/
theorem trackFree_fresh (w : World) (tid : ThreadId) (p : Ptr) (heap : Ptr → Option Nat) :
    ∀ a ∈ (w.step (.trackFree tid p)).log, a.Fresh heap := by
  by_cases hp : p = 0
  · subst hp
    exact fun a ha => absurd ha List.not_mem_nil
  by_cases hguard : w.guardActive tid
  · rw [step_trackFree_of_guard hp hguard, rawSystemFree_of_ne hp]
    simp [emit, unlease, clearLog, Action.Fresh]
  rw [Bool.not_eq_true] at hguard
  obtain ⟨_, _, heffect⟩ := deallocate_effect (w.clearLog.unlease p) tid p hguard hp
  rw [step_trackFree hp hguard]
  cases heffect with
  | released r hfind hraw hverdict hheap htracker hmem hlog hfault =>
    rw [hlog]
    simp [unlease, clearLog, Action.Fresh]
  | leaked r hfind hverdict hheap htracker hmem hlog hfault =>
    rw [hlog]
    simp [unlease, clearLog, Action.Fresh]
  | alarm hfind hq hheap htracker hmem hlog hfault =>
    rw [hlog]
    simp [unlease, clearLog, Action.Fresh]
  | untracked hfind hq hheader hheap htracker hmem hlog hfault =>
    rw [hlog]
    simp [unlease, clearLog, Action.Fresh]
  | misread hfind hq hheader hlog =>
    obtain ⟨accesses, hlog⟩ := hlog
    rw [hlog]
    simp [unlease, clearLog, Action.Fresh]

/-- A release of a held pointer is permitted while the behaviour is defined. -/
theorem permitted_trackFree {tid : ThreadId} {p : Ptr} (hdefined : w.fault = false)
    (hheld : Held w p) : Permitted mayWrite w (.trackFree tid p) :=
  ⟨hdefined, hheld, trackFree_fresh w tid p w.heap⟩

theorem stepOk_start (mem : Memory) : StepOk (World.start mem) :=
  ⟨Or.inr owned_start, fun _ ha => absurd ha List.not_mem_nil⟩

end Steps

end MemSentry
