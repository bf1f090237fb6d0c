import MemSentry.Manager.ComputedRuns
import MemSentry.Manager.SafeRuns

/-!
# Releasing while the recursion guard is active

`track_free` and `track_realloc` hand their pointer to the system unseen while the guard
is active, as it is inside the watchdog callback. For a pointer without a record that is
the base of its block. For a tracked pointer it is an address inside the block, and the
record stays in the tracker. So these calls are right exactly for the pointers that the
tracker does not know (`guarded_release_iff`).
-/

namespace MemSentry

open MemSentry.Core Function World Transition

/-- Whatever is handed to `free` or `realloc` of the system is this address. -/
def Action.Passes (base : Ptr) : Action → Prop
  | .systemFree ptr _ => ptr = base
  | .systemRealloc ptr _ _ _ => ptr = base
  | _ => True

/-- The call has handed the system only the base of the block, and every record left in
the tracker is of a block that is still live. -/
structure GivesBack (w' : World) (base : Ptr) : Prop where
  passes : ∀ a ∈ w'.log, a.Passes base
  records : ∀ q r, w'.tracker.find q = some r → w'.heap r.rawPtr = some r.totalSize.toNat

section Guarded

variable {w : World} {tid : ThreadId} {p : Ptr} {l : Lease} {o : Oracle} {n : Word}

/-- A tracked pointer is not the base of its block. -/
theorem InOrder.base_ne (h : InOrder w) (hl : w.leases p = some l)
    (hfind : w.tracker.find p ≠ none) : p ≠ l.base := by
  obtain ⟨r, hr⟩ := Option.ne_none_iff_exists'.mp hfind
  obtain ⟨hblock, hlease⟩ := h.tracked p r hr
  rw [hl] at hlease
  cases hlease
  have hbelow := hblock.placed.below
  intro heq
  rw [heq] at hbelow
  dsimp only at hbelow
  omega

theorem guarded_free_iff (h : InOrder w) (hl : w.leases p = some l)
    (hguard : w.guardActive tid = true) :
    GivesBack (w.step (.trackFree tid p)) l.base ↔ w.tracker.find p = none := by
  have hp := Owned.held_ne_zero h hl
  rw [step_trackFree_of_guard hp hguard]
  by_cases hfind : w.tracker.find p = none
  · obtain ⟨hbase, _⟩ := h.untracked p l hl hfind
    obtain ⟨howned, _⟩ := rawSystemFree_owned (w := w.clearLog.unlease p) h hl hfind
    refine iff_of_true ⟨?_, fun q r hr => (howned.tracked q r hr).1.live⟩ hfind
    rw [rawSystemFree_of_ne hp]
    intro a ha
    rw [List.mem_singleton.mp ha, hbase]
    exact rfl
  · refine iff_of_false (fun hback => ?_) hfind
    have hpass := hback.passes (.systemFree p (w.heap p).isSome)
    rw [rawSystemFree_of_ne hp] at hpass
    exact h.base_ne hl hfind (hpass List.mem_cons_self)

/-- With the guard active the whole call is one call of the system's `realloc`. -/
theorem step_trackRealloc_guarded (w : World) (tid : ThreadId) (o : Oracle) (p : Ptr) (n : Word)
    (hguard : w.guardActive tid = true) :
    ∃ ls, w.step (.trackRealloc tid o p n) =
      { (w.clearLog.rawSystemRealloc o p n).1 with leases := ls } := by
  have hcall := @trackRealloc_of_bypass w.clearLog o tid p n (Or.inl hguard)
  unfold World.step
  dsimp only
  rw [hcall]
  exact moveLease_eq _ _ _ _ _

/-- The one address that it passes on. -/
theorem rawSystemRealloc_passes (hp : p ≠ 0) :
    ∃ a, (w.clearLog.rawSystemRealloc o p n).1.log = [a] ∧ ∀ b, a.Passes b ↔ p = b := by
  by_cases hn : n = 0
  · rw [hn, rawSystemRealloc_zero hp, rawSystemFree_of_ne hp]
    exact ⟨_, rfl, fun b => Iff.rfl⟩
  by_cases hraw : o.malloc = 0
  · rw [rawSystemRealloc_failed hp hn hraw]
    exact ⟨_, rfl, fun b => Iff.rfl⟩
  · rw [rawSystemRealloc_moved hp hn hraw]
    exact ⟨_, rfl, fun b => Iff.rfl⟩

theorem guarded_realloc_iff (h : InOrder w) (hl : w.leases p = some l)
    (hguard : w.guardActive tid = true)
    (hfresh : ∀ a ∈ (w.step (.trackRealloc tid o p n)).log, a.Fresh w.heap) :
    GivesBack (w.step (.trackRealloc tid o p n)) l.base ↔ w.tracker.find p = none := by
  have hp := Owned.held_ne_zero h hl
  obtain ⟨ls, hstep⟩ := step_trackRealloc_guarded w tid o p n hguard
  obtain ⟨a, ha, hpass⟩ := @rawSystemRealloc_passes w p o n hp
  rw [hstep] at hfresh ⊢
  by_cases hfind : w.tracker.find p = none
  · obtain ⟨hbase, _⟩ := h.untracked p l hl hfind
    have howned : ∃ ls', (w.clearLog.rawSystemRealloc o p n).1.OwnedBy ls' := by
      by_cases hn : n = 0
      · rw [hn, rawSystemRealloc_zero hp]
        exact ⟨_, (rawSystemFree_owned (w := w.clearLog) h hl hfind).1⟩
      · obtain ⟨hnull, hgot, _⟩ := rawSystemRealloc_owned (w := w.clearLog) h hl hfind hn hfresh
        by_cases hq : (w.clearLog.rawSystemRealloc o p n).2 = 0
        · exact ⟨_, hnull hq⟩
        · exact ⟨_, hgot hq⟩
    obtain ⟨ls', howned⟩ := howned
    refine iff_of_true ⟨?_, fun q r hr => (howned.tracked q r hr).1.live⟩ hfind
    intro b hb
    have hb' : b ∈ [a] := ha ▸ hb
    rw [List.mem_singleton.mp hb', hpass, hbase]
  · refine iff_of_false (fun hback => ?_) hfind
    have hmem : a ∈ (w.clearLog.rawSystemRealloc o p n).1.log := by
      rw [ha]
      exact List.mem_cons_self
    exact h.base_ne hl hfind ((hpass l.base).mp (hback.passes a hmem))

end Guarded

/-- **Releasing under an active guard is safe exactly for pointers without a record**, in
every state that a run of sound calls reaches. -/
theorem guarded_release_iff {mem : Memory} {cs : List Call} {w : World} {tid : ThreadId} {p : Ptr}
    {l : Lease} (hrun : Run (managerSystem PayloadWrites CallSound) (World.start mem) cs w)
    (hdefined : w.fault = false) (hl : w.leases p = some l) (hguard : w.guardActive tid = true) :
    (GivesBack (w.step (.trackFree tid p)) l.base ↔ w.tracker.find p = none) ∧
      ∀ (o : Oracle) (n : Word),
        (∀ a ∈ (w.step (.trackRealloc tid o p n)).log, a.Fresh w.heap) →
        (GivesBack (w.step (.trackRealloc tid o p n)) l.base ↔ w.tracker.find p = none) := by
  have horder : InOrder w := by
    rcases (run_ok (fun _ _ h => h) hrun (stepOk_start mem)).1 with hfault | horder
    · rw [hdefined] at hfault
      cases hfault
    · exact horder
  exact ⟨guarded_free_iff horder hl hguard,
    fun o n hfresh => guarded_realloc_iff horder hl hguard hfresh⟩

/-- Every second allocation is tracked: of two blocks the first is sampled out. Then the guard
is active. -/
def guardedSampling : List Call :=
  [.init { sampleEveryN := 2 }, .trackAlloc 1 { malloc := 0x10000 } 16 16 0,
    .trackAlloc 1 { malloc := 0x20000 } 16 16 0, .enterGuard 1]

theorem guarded_release_sampled :
    let w := World.after (fun _ => 0) guardedSampling
    Run (managerSystem PayloadWrites CallSound) (World.start fun _ => 0) guardedSampling w ∧
      GivesBack (w.step (.trackFree 1 0x10000)) 0x10000 ∧
      GivesBack (w.step (.trackRealloc 1 { malloc := 0x30000 } 0x10000 32)) 0x10000 ∧
      ¬ GivesBack (w.step (.trackFree 1 0x20050)) 0x20000 ∧
      ¬ GivesBack (w.step (.trackRealloc 1 { malloc := 0x30000 } 0x20050 0)) 0x20000 := by
  intro w
  have hmoved : Run (managerSystem PayloadWrites CallSound) (World.start fun _ => 0)
      (guardedSampling ++ [.trackRealloc 1 { malloc := 0x30000 } 0x10000 32]) _ :=
    run_from_start _ _ (by decide +kernel)
  have hrun : Run (managerSystem PayloadWrites CallSound) (World.start fun _ => 0)
      guardedSampling w := hmoved.cut.1
  have hfresh : ∀ a ∈ (w.step (.trackRealloc 1 { malloc := 0x30000 } 0x10000 32)).log,
      a.Fresh w.heap := by
    cases hmoved.cut.2 with
    | cons hguard _ => exact hguard.1.fresh
  have hdefined : w.fault = false := by decide +kernel
  have hguard : w.guardActive 1 = true := by decide +kernel
  have hraw : w.leases 0x10000 = some ⟨0x10000, 16⟩ := by decide +kernel
  have hinner : w.leases 0x20050 = some ⟨0x20000, 16⟩ := by decide +kernel
  have hunknown : w.tracker.find 0x10000 = none := by decide +kernel
  have hknown : w.tracker.find 0x20050 ≠ none := by decide +kernel
  obtain ⟨hfree, hrealloc⟩ := guarded_release_iff hrun hdefined hraw hguard
  obtain ⟨hfree', hrealloc'⟩ := guarded_release_iff hrun hdefined hinner hguard
  have hfreed : (w.step (.trackRealloc 1 { malloc := 0x30000 } 0x20050 0)).log =
      [.systemFree 0x20050 false] := by decide +kernel
  refine ⟨hrun, hfree.mpr hunknown, (hrealloc _ _ hfresh).mpr hunknown,
    fun hback => hknown (hfree'.mp hback),
    fun hback => hknown ((hrealloc' _ _ fun a ha => ?_).mp hback)⟩
  rw [hfreed, List.mem_singleton] at ha
  subst ha
  exact trivial

/-- A tracked pointer, released inside a guard: the system gets the user pointer. -/
theorem guarded_free_of_tracked :
    ∃ (cs : List Call) (w : World) (l : Lease),
      Run (managerSystem PayloadWrites CallSound) (World.start fun _ => 0) cs w ∧
        w.fault = false ∧ w.leases 0x10050 = some l ∧ w.guardActive 1 = true ∧
        ¬ GivesBack (w.step (.trackFree 1 0x10050)) l.base := by
  have hfirst : Fresh (fun _ => none) 0x10000 116 := fresh_empty (by decide)
  refine ⟨[.init {}, .trackAlloc 1 { malloc := 0x10000 } 16 16 0, .enterGuard 1], _,
    ⟨0x10000, 16⟩, .cons ⟨?_, trivial⟩ (.cons ⟨?_, trivial⟩ (.cons ⟨?_, trivial⟩ (.nil _))),
    rfl, rfl, rfl, fun hback => ?_⟩
  · exact permitted_of_log rfl trivial rfl fun a ha => absurd ha List.not_mem_nil
  · refine permitted_of_log rfl trivial rfl fun a ha => ?_
    rw [List.mem_singleton.mp ha]
    exact fun _ => hfirst
  · exact permitted_of_log rfl trivial rfl fun a ha => absurd ha List.not_mem_nil
  · have hpass : (0x10050 : Ptr) = 0x10000 :=
      hback.passes (.systemFree 0x10050 false) List.mem_cons_self
    exact absurd hpass (by decide)

end MemSentry
