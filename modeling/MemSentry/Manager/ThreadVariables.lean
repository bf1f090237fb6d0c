import MemSentry.Manager.Effects

/-!
# The thread-local variables

Which calls touch the variables of a thread: the sampling gate moves the countdown of the
thread that allocates, a `ScopedTag` its tag, the recursion guard its depth, and nothing
else touches any of them.
-/

namespace MemSentry

open MemSentry.Core World Function

section Locals

variable {w : World} {o : Oracle} {tid : ThreadId} {size alignment tag allocId : Word} {ptr : Ptr}

/-! ## Allocation -/

theorem installBlock_locals (hraw : o.malloc ≠ 0) :
    (w.installBlock o tid allocId size alignment tag).1.locals = w.locals := by
  obtain ⟨w', heq, hlocals⟩ : ∃ w', w.installBlock o tid allocId size alignment tag =
      (World.checkLimit w', userAddress o.malloc (effectiveAlignment alignment)) ∧
      w'.locals = w.locals := by
    unfold installBlock
    dsimp only
    rw [initBlock_user hraw]
    exact ⟨_, rfl, rfl⟩
  rw [heq]
  exact checkLimit_system.locals.trans hlocals

theorem allocateTracked_locals :
    (w.allocateTracked o tid allocId size alignment tag).1.locals = w.locals := by
  by_cases h0 : calculateTotalSize size (effectiveAlignment alignment) w.config.footerSize = 0
  · rw [allocateTracked_of_zero h0]
  by_cases hraw : o.malloc = 0
  · rw [allocateTracked_of_null h0 hraw]
    rfl
  by_cases hfit : SizesFit size (effectiveAlignment alignment) w.config.footerSize
  · rw [allocateTracked_of_fit h0 hraw hfit, installBlock_locals hraw]
    rfl
  · rw [allocateTracked_of_not_fit h0 hraw hfit]
    rfl

/-- The countdown goes through the gate, whatever becomes of the allocation. -/
theorem allocate_locals (hguard : w.guardActive tid = false) (hinit : w.initialized = true) :
    (w.allocate o tid size alignment tag).1.locals = (w.passGate o tid size).locals := by
  unfold allocate
  rw [if_neg (by rw [hguard, hinit]; decide)]
  split
  · exact allocateTracked_locals
  · exact rawSystemAlloc_system.locals

/-- The variables of the threads go through the gate, or stay as they are. -/
theorem allocate_locals_cases :
    (w.allocate o tid size alignment tag).1.locals = w.locals ∨
      (w.allocate o tid size alignment tag).1.locals = (w.passGate o tid size).locals := by
  unfold allocate
  split
  · exact Or.inl rawSystemAlloc_system.locals
  split
  · exact Or.inr allocateTracked_locals
  · exact Or.inr rawSystemAlloc_system.locals

/-! ## Release -/

theorem releaseTracked_locals {r : AllocationRecord} :
    (w.releaseTracked ptr r).locals = w.locals := by
  by_cases hverdict : (verifyCanary w.mem r.rawPtr w.config.footerSize).1 = .none
  · rw [releaseTracked_clean (ne_zero_of_verdict hverdict) hverdict]
  · rw [releaseTracked_corrupted hverdict]

theorem deallocate_locals : (w.deallocate tid ptr).locals = w.locals := by
  by_cases hp : ptr = 0
  · unfold deallocate
    rw [if_pos hp]
  cases hguard : w.guardActive tid with
  | true =>
    unfold deallocate
    rw [if_neg hp, if_pos hguard]
    dsimp only
    split
    · split
      · rfl
      · exact rawSystemFree_system.locals
    · exact rawSystemFree_system.locals
  | false =>
    rcases hfind : w.tracker.find ptr with _ | r
    · by_cases hq : w.tracker.Quarantined ptr
      · rw [deallocate_of_quarantined hguard hp hfind hq]
        rfl
      · rw [deallocate_of_not_found hguard hp hfind hq]
        exact releaseUntracked_system.locals
    · rw [deallocate_of_find hguard hfind]
      exact releaseTracked_locals

theorem trackFree_locals : (w.trackFree tid ptr).locals = w.locals := by
  unfold trackFree
  split
  · rfl
  split
  · exact rawSystemFree_system.locals
  · exact deallocate_locals

/-! ## The tag of a thread -/

theorem allocate_scopeTag (t : ThreadId) :
    ((w.allocate o tid size alignment tag).1.locals t).activeScopeTag =
      (w.locals t).activeScopeTag := by
  rcases @allocate_locals_cases w o tid size alignment tag with h | h
  · rw [h]
  · rw [h]
    exact (locals_passGate w o tid size t).2

theorem reallocate_scopeTag (t : ThreadId) :
    ((w.reallocate o tid ptr size).1.locals t).activeScopeTag = (w.locals t).activeScopeTag := by
  unfold reallocate
  split
  · exact allocate_scopeTag t
  split
  · dsimp only
    rw [deallocate_locals]
  split
  · rw [rawSystemRealloc_system.locals]
  dsimp only
  split
  · rw [rawSystemRealloc_system.locals]
  · rename_i r _
    split
    · rw [allocate_scopeTag, checkOldBlock_system.locals]
    · rw [deallocate_locals]
      change (((World.allocate _ o tid size _ _).1).locals t).activeScopeTag = _
      rw [allocate_scopeTag, checkOldBlock_system.locals]

theorem lease_locals {l : Lease} : (w.lease ptr l).locals = w.locals := by
  unfold World.lease
  split
  · rfl
  · rfl

theorem moveLease_locals {p : Ptr} {l : Lease} :
    (w.moveLease ptr p size l).locals = w.locals := by
  unfold World.moveLease
  split
  · exact lease_locals
  split
  · rfl
  · rfl

/-- Only `set_current_tag` on the thread itself changes its tag. -/
theorem step_scopeTag (c : Call) (hc : ∀ newTag, c ≠ .setCurrentTag tid newTag) :
    ((w.step c).locals tid).activeScopeTag = (w.locals tid).activeScopeTag := by
  cases c with
  | init config => rfl
  | shutdown => rfl
  | store mem => rfl
  | enterGuard t =>
    change (update w.locals t _ tid).activeScopeTag = _
    by_cases ht : tid = t
    · rw [ht, update_self]
      rfl
    · rw [update_of_ne ht]
  | exitGuard t =>
    change (update w.locals t _ tid).activeScopeTag = _
    by_cases ht : tid = t
    · rw [ht, update_self]
      rfl
    · rw [update_of_ne ht]
  | setCurrentTag t newTag =>
    change (update w.locals t _ tid).activeScopeTag = _
    rw [update_of_ne]
    rintro rfl
    exact hc newTag rfl
  | trackAlloc t o size alignment tag =>
    change ((World.lease (w.clearLog.trackAlloc o t size alignment tag).1
      (w.clearLog.trackAlloc o t size alignment tag).2 ⟨o.malloc, size⟩).locals tid).activeScopeTag = _
    rw [lease_locals, trackAlloc_eq]
    exact @allocate_scopeTag w.clearLog o t size alignment tag tid
  | trackFree t ptr =>
    change (((w.clearLog.unlease ptr).trackFree t ptr).locals tid).activeScopeTag = _
    rw [trackFree_locals]
    rfl
  | trackRealloc t o ptr newSize =>
    change ((World.moveLease (w.clearLog.trackRealloc o t ptr newSize).1 ptr
      (w.clearLog.trackRealloc o t ptr newSize).2 newSize ⟨o.malloc, newSize⟩).locals
        tid).activeScopeTag = _
    rw [moveLease_locals]
    unfold trackRealloc
    split
    · rw [rawSystemRealloc_system.locals]
      rfl
    · exact @reallocate_scopeTag w.clearLog o t newSize ptr tid

end Locals

end MemSentry
