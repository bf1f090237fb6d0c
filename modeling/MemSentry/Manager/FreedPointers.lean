import MemSentry.Manager.DoubleFree

/-!
# What realloc makes of a freed pointer

`deallocate` asks the tracker to `erase` the pointer, and `erase` looks into the
quarantine. `reallocate` asks it to `find` the pointer, and `find` does not. So a pointer
that was freed and is still quarantined is turned away by `deallocate`, and by
`reallocate` only when the new size is 0, which makes it a call of `deallocate`. With any
other size it goes on to the `realloc` of the system as if it had never been tracked
(`reallocate_rejects_iff`).
-/

namespace MemSentry

open MemSentry.Core World

/-- The pointer is reported as freed before, and nothing else comes of it: neither
release function of the system is called, and tracker and statistics stay as they are. -/
structure RejectsFreed (w w' : World) (p : Ptr) : Prop where
  reported : .alert p .doubleFree ∈ w'.log
  noFree : ∀ q live, .systemFree q live ∉ w'.log
  noRealloc : ∀ q n answer live, .systemRealloc q n answer live ∉ w'.log
  tracker : w'.tracker = w.tracker
  stats : w'.stats = w.stats

section Freed

variable {w : World} {tid : ThreadId} {p : Ptr}

theorem reallocate_of_unknown {o : Oracle} {n : Word} (hinit : w.initialized = true)
    (hguard : w.guardActive tid = false) (hp : p ≠ 0) (hn : n ≠ 0)
    (hfind : w.tracker.find p = none) :
    w.reallocate o tid p n =
      ({ w with calls := .find p :: w.calls } : World).rawSystemRealloc o p n := by
  unfold reallocate
  rw [if_neg hp, if_neg hn, if_neg (by rw [hguard, hinit]; decide), hfind]

/-- A request to the system allocator reports no double free. -/
theorem not_rejects_of_requests {w₀ w' : World} (hlog : LogsRequests w₀.clearLog w') :
    ¬ RejectsFreed w w' p := by
  obtain ⟨as, hlog, has⟩ := hlog
  intro h
  have hmem := h.reported
  rw [hlog] at hmem
  rcases has _ hmem with ⟨_, _, heq⟩ | ⟨_, _, heq⟩
  · cases heq
  · cases heq

theorem systemRealloc_mem_log {w₀ : World} {o : Oracle} {n : Word} (hp : p ≠ 0) (hn : n ≠ 0) :
    ∃ answer live, .systemRealloc p n answer live ∈ (w₀.rawSystemRealloc o p n).1.log := by
  by_cases hraw : o.malloc = 0
  · rw [rawSystemRealloc_failed hp hn hraw]
    exact ⟨_, _, List.mem_append_right _ List.mem_cons_self⟩
  · rw [rawSystemRealloc_moved hp hn hraw]
    exact ⟨_, _, List.mem_append_right _ List.mem_cons_self⟩

variable (hguard : w.guardActive tid = false) (hfind : w.tracker.find p = none)
  (hq : w.tracker.Quarantined p)

include hguard hfind hq

theorem deallocate_rejects (hp : p ≠ 0) :
    RejectsFreed w (w.clearLog.deallocate tid p) p := by
  rw [@deallocate_of_quarantined w.clearLog tid p hguard hp hfind hq]
  refine ⟨List.mem_cons_self, ?_, ?_, ShardedTracker.afterErase_of_find_none hfind, rfl⟩
  · intro q live hmem
    cases List.mem_singleton.mp hmem
  · intro q n answer live hmem
    cases List.mem_singleton.mp hmem

/-- **`reallocate` turns a freed pointer away for the size 0 only.** An empty slot of the
quarantine is a null pointer, which was never freed. -/
theorem reallocate_rejects_iff (hinit : w.initialized = true) (o : Oracle) (n : Word) :
    (RejectsFreed w (w.clearLog.deallocate tid p) p ↔ p ≠ 0) ∧
      (RejectsFreed w (w.clearLog.reallocate o tid p n).1 p ↔ p ≠ 0 ∧ n = 0) := by
  by_cases hp : p = 0
  · subst hp
    refine ⟨iff_of_false (fun h => ?_) (not_not_intro rfl), iff_of_false ?_ fun h => h.1 rfl⟩
    · exact absurd h.reported List.not_mem_nil
    · rw [reallocate_null]
      exact not_rejects_of_requests allocate_log
  have hfree := deallocate_rejects hguard hfind hq hp
  refine ⟨iff_of_true hfree hp, ?_⟩
  by_cases hn : n = 0
  · subst hn
    rw [reallocate_zero hp]
    exact iff_of_true hfree ⟨hp, rfl⟩
  · rw [@reallocate_of_unknown w.clearLog tid p o n hinit hguard hp hn hfind]
    obtain ⟨answer, live, hmem⟩ :=
      @systemRealloc_mem_log p { w.clearLog with calls := .find p :: w.clearLog.calls } o n hp hn
    exact iff_of_false (fun h => h.noRealloc p n answer live hmem) fun h => hn h.2

end Freed

/-! ## One pointer freed and reallocated -/

/-- A block at `0x10000` has been handed out and freed again. -/
def afterFirstFree : World :=
  (initialized.step (allocSmall 0x10000)).step (freeSmall 0x10000)

theorem afterFirstFree_unknown :
    afterFirstFree.tracker.find (userAddress 0x10000 16) = none ∧
      afterFirstFree.tracker.Quarantined (userAddress 0x10000 16) := by
  decide +kernel

theorem afterFirstFree_rejects :
    (RejectsFreed afterFirstFree
        (afterFirstFree.clearLog.deallocate 1 (userAddress 0x10000 16))
        (userAddress 0x10000 16) ↔ userAddress 0x10000 16 ≠ 0) ∧
      (RejectsFreed afterFirstFree
        (afterFirstFree.clearLog.reallocate { malloc := 0 } 1 (userAddress 0x10000 16) 0).1
        (userAddress 0x10000 16) ↔ userAddress 0x10000 16 ≠ 0 ∧ (0 : Word) = 0) :=
  reallocate_rejects_iff (by decide +kernel) afterFirstFree_unknown.1 afterFirstFree_unknown.2
    (by decide +kernel) _ _

/-- The freed pointer reallocated to 32 bytes: it goes to the `realloc` of the system, for
which it is no live block, and no double free is reported. -/
theorem freed_pointer_reaches_realloc :
    afterFirstFree.initialized = true ∧ afterFirstFree.guardActive 1 = false ∧
      afterFirstFree.tracker.find (userAddress 0x10000 16) = none ∧
      afterFirstFree.tracker.Quarantined (userAddress 0x10000 16) ∧
      (afterFirstFree.clearLog.reallocate { malloc := 0x10000 } 1
        (userAddress 0x10000 16) 32).1.log =
          [.systemRealloc (userAddress 0x10000 16) 32 0x10000 false] ∧
      ¬ RejectsFreed afterFirstFree
        (afterFirstFree.clearLog.reallocate { malloc := 0x10000 } 1
          (userAddress 0x10000 16) 32).1 (userAddress 0x10000 16) := by
  obtain ⟨hfind, hq⟩ := afterFirstFree_unknown
  have hlog : (afterFirstFree.clearLog.reallocate { malloc := 0x10000 } 1
      (userAddress 0x10000 16) 32).1.log =
        [.systemRealloc (userAddress 0x10000 16) 32 0x10000 false] := by
    decide +kernel
  refine ⟨by decide +kernel, by decide +kernel, hfind, hq, hlog, fun h => ?_⟩
  exact h.noRealloc _ _ _ _ (by rw [hlog]; exact List.mem_cons_self)

end MemSentry
