import MemSentry.Manager.BlockContents
import MemSentry.Manager.GuardedRelease

/-!
# Runs under one configuration

While `init` is always called with the same configuration, every record in the tracker
was made under it: the block is laid out with the footer in force and the recorded
alignment is one that `allocate` would choose again (`run_underConfig`). Whatever else
the clients write, the tables stay in order as long as no stray bytes below a pointer are
taken for a header (`run_inOrder`).
-/

namespace MemSentry

open MemSentry.Core Function World Transition

/-- `init` is called with this configuration only. -/
def Initializes (config : Config) : Call → Prop
  | .init config' => config' = config
  | _ => True

/-- A release that falls through to the bytes below its pointer does not take them for
the back offset of a header. -/
def HeadersSound (w : World) : Call → Prop
  | .trackFree tid ptr => w.guardActive tid = false → NotMisread w ptr
  | .trackRealloc tid _ ptr newSize =>
    w.guardActive tid = false → w.initialized = true → newSize = 0 → NotMisread w ptr
  | _ => True

/-! ## The tables stay in order -/

section Order

variable {mayWrite : World → Memory → Prop} {w : World} {tid : ThreadId} {o : Oracle} {p : Ptr}
  {n : Word}

/-- A tracked pointer is not the base of a live block. -/
theorem InOrder.not_base (h : InOrder w) {r : AllocationRecord}
    (hfind : w.tracker.find p = some r) : w.heap p = none := by
  obtain ⟨hblock, hlease⟩ := h.tracked p r hfind
  have hne : p ≠ r.rawPtr := h.base_ne hlease (by rw [hfind]; exact Option.some_ne_none r)
  rcases hp : w.heap p with _ | k
  · rfl
  · have hpos := (h.space p k hp).2.1
    have hbelow := hblock.placed.below
    have habove := hblock.placed.above
    exact absurd (h.base_unique (a := p.toNat) hp hblock.live (by omega) (by omega)) hne

/-- Handing a tracked pointer to the system is undefined behaviour. -/
theorem rawSystemFree_fault (h : InOrder w) {r : AllocationRecord}
    (hfind : w.tracker.find p = some r) : (w.rawSystemFree p).fault = true := by
  rw [rawSystemFree_of_ne (ShardedTracker.ne_zero_of_find hfind)]
  simp [h.not_base hfind]

theorem rawSystemRealloc_fault (h : InOrder w) {r : AllocationRecord}
    (hfind : w.tracker.find p = some r) : (w.rawSystemRealloc o p n).1.fault = true := by
  have hp := ShardedTracker.ne_zero_of_find hfind
  have hnone := h.not_base hfind
  by_cases hn : n = 0
  · rw [hn, rawSystemRealloc_zero hp]
    exact rawSystemFree_fault h hfind
  by_cases hraw : o.malloc = 0
  · rw [rawSystemRealloc_failed hp hn hraw]
    simp [hnone]
  · rw [rawSystemRealloc_moved hp hn hraw]
    simp [hnone]

theorem fault_moveLease (w : World) (p q : Ptr) (n : Word) (l : Lease) :
    (w.moveLease p q n l).fault = w.fault := by
  obtain ⟨ls, hls⟩ := moveLease_eq w p q n l
  rw [hls]

/-- A call that hands a tracked pointer to the system leaves no defined behaviour, so the
other calls are sound. -/
theorem callSound_or_fault {c : Call} (h : InOrder w) (hheaders : HeadersSound w c) :
    CallSound w c ∨ (w.step c).fault = true := by
  cases c with
  | trackFree tid p =>
    by_cases hp : p = 0
    · exact Or.inl (Or.inl hp)
    by_cases hguard : w.guardActive tid
    · rcases hfind : w.tracker.find p with _ | r
      · left; right
        rw [if_pos hguard]
        exact hfind
      · right
        have hfault := @rawSystemFree_fault w.clearLog p h r hfind
        rw [rawSystemFree_of_ne hp] at hfault
        rw [step_trackFree_of_guard hp hguard, rawSystemFree_of_ne hp]
        exact hfault
    · left; right
      rw [if_neg hguard]
      exact hheaders (Bool.not_eq_true _ ▸ hguard)
  | trackRealloc tid o p n =>
    by_cases hp : p = 0
    · exact Or.inl (Or.inl hp)
    by_cases hbypass : w.guardActive tid = true ∨ w.initialized = false
    · rcases hfind : w.tracker.find p with _ | r
      · left; right
        rw [if_pos hbypass]
        exact hfind
      · right
        have hcall := @trackRealloc_of_bypass w.clearLog o tid p n hbypass
        unfold World.step
        dsimp only
        rw [fault_moveLease, hcall]
        exact @rawSystemRealloc_fault w.clearLog o p n h r hfind
    · left; right
      rw [if_neg hbypass]
      rw [not_or, Bool.not_eq_true, Bool.not_eq_false] at hbypass
      exact hheaders hbypass.1 hbypass.2
  | init config => exact Or.inl trivial
  | shutdown => exact Or.inl trivial
  | enterGuard tid => exact Or.inl trivial
  | exitGuard tid => exact Or.inl trivial
  | setCurrentTag tid tag => exact Or.inl trivial
  | trackAlloc tid o size alignment tag => exact Or.inl trivial
  | store mem => exact Or.inl trivial

theorem run_inOrder {cond : World → Call → Prop} {w' : World} {cs : List Call}
    (hcond : ∀ w c, cond w c → HeadersSound w c)
    (hrun : Run (managerSystem mayWrite cond) w cs w') (h : w.fault = true ∨ InOrder w) :
    w'.fault = true ∨ InOrder w' := by
  refine hrun.invariant (I := fun w => w.fault = true ∨ InOrder w) (fun w c hw hguard => ?_) h
  rcases hw with hfault | horder
  · rw [hguard.1.defined] at hfault
    cases hfault
  · rcases callSound_or_fault horder (hcond w c hguard.2) with hsound | hfault
    · exact (step_ok horder hguard.1 hsound).1
    · exact Or.inl hfault

end Order

/-! ## The records are made under the configuration -/

structure LaidOutUnder (config : Config) (r : AllocationRecord) : Prop where
  fits : SizesFit r.requestedSize r.alignment config.footerSize
  footerSize : r.footerSize = config.footerSize
  alignment : effectiveAlignment r.alignment = r.alignment
  tag : r.tag ≠ 0

/-- A block of another size with the alignment of the record either fits or is refused. -/
theorem LaidOutUnder.sizesFit {config : Config} {r : AllocationRecord} (h : LaidOutUnder config r)
    {n : Word} (hne : calculateTotalSize n (effectiveAlignment r.alignment) config.footerSize ≠ 0) :
    SizesFit n (effectiveAlignment r.alignment) config.footerSize := by
  have hfits := h.fits
  unfold SizesFit at hfits
  apply sizesFit_of_ne_zero ?_ hne
  rw [effectiveAlignment_effectiveAlignment]
  omega

/-- The records in the tracker were there before or have been made under the
configuration. -/
def RecordsFrom (w w' : World) : Prop :=
  ∀ q r, w'.tracker.find q = some r →
    w.tracker.find q = some r ∨ w.initialized = true ∧ LaidOutUnder w.config r

theorem RecordsFrom.of_eq {w w' : World} (h : w'.tracker = w.tracker) : RecordsFrom w w' :=
  fun _ _ hfind => Or.inl (h ▸ hfind)

theorem RecordsFrom.trans {w w' w'' : World} (hcontrol : SameControl w w') (h : RecordsFrom w w')
    (h' : RecordsFrom w' w'') : RecordsFrom w w'' := by
  intro q r hfind
  rcases h' q r hfind with hold | ⟨hinit, hlaid⟩
  · exact h q r hold
  · rw [hcontrol.initialized] at hinit
    rw [hcontrol.config] at hlaid
    exact Or.inr ⟨hinit, hlaid⟩

section Records

variable {w : World} {o : Oracle} {tid : ThreadId} {size alignment tag n : Word} {p : Ptr}

/-- The scope tag is never null, so neither is the final one. -/
theorem finalTag_ne_zero (w : World) (tid : ThreadId) (tag : Ptr) : w.finalTag tid tag ≠ 0 := by
  have hscope : w.currentScopeTag tid ≠ 0 := by
    unfold currentScopeTag
    split
    · assumption
    · decide
  unfold finalTag
  split
  · assumption
  · exact hscope

theorem laidOutUnder_recordOf {allocId : Word} {userPtr : Ptr}
    (hfit : SizesFit size (effectiveAlignment alignment) w.config.footerSize) :
    LaidOutUnder w.config (w.recordOf o tid allocId size alignment tag userPtr) where
  fits := hfit
  footerSize := recordOf_footerSize hfit
  alignment := effectiveAlignment_effectiveAlignment alignment
  tag := finalTag_ne_zero w tid tag

theorem allocate_records : RecordsFrom w (w.allocate o tid size alignment tag).1 := by
  cases (allocate_effect w o tid size alignment tag).2 with
  | failed hp hwhy hblocks hfault hlog => exact .of_eq hblocks.tracker
  | faulted hp hfit hfault htracker hmem hcalls hlog => exact .of_eq htracker
  | raw hp hne htracks hheap htracker hmem hcalls hlog hfault => exact .of_eq htracker
  | tracked allocId tag' htracks hraw hfit hp hheap htracker hcalls hmem hlog hfault =>
    intro q r hfind
    rw [htracker] at hfind
    have hq := ShardedTracker.ne_zero_of_find hfind
    by_cases hne : q = (w.allocate o tid size alignment tag).2
    · rw [← hne, ShardedTracker.find_insert_self hq] at hfind
      cases hfind
      exact Or.inr ⟨htracks.2.1, laidOutUnder_recordOf hfit⟩
    · rw [ShardedTracker.find_insert_of_ne hne] at hfind
      exact Or.inl hfind

theorem afterErase_records {w' : World} (h : w'.tracker = w.tracker.afterErase p) :
    RecordsFrom w w' := by
  intro q r hfind
  rw [h, ShardedTracker.find_afterErase] at hfind
  split at hfind
  · cases hfind
  · exact Or.inl hfind

theorem deallocate_records : RecordsFrom w (w.deallocate tid p) := by
  by_cases hp : p = 0
  · unfold deallocate
    rw [if_pos hp]
    exact .of_eq rfl
  by_cases hguard : w.guardActive tid
  · unfold deallocate
    rw [if_neg hp, if_pos hguard]
    dsimp only
    split
    · split
      · exact .of_eq rfl
      · exact .of_eq rawSystemFree_system.tracker
    · exact .of_eq rawSystemFree_system.tracker
  · obtain ⟨_, ⟨_, htracker⟩, _⟩ := deallocate_effect w tid p (Bool.not_eq_true _ ▸ hguard) hp
    exact afterErase_records htracker

theorem reallocated_records {r : AllocationRecord} :
    RecordsFrom w (w.reallocated o tid p r n).1 := by
  obtain ⟨as, hcheck, _⟩ := checkOldBlock_log { w with calls := .find p :: w.calls } p r
  unfold reallocated
  rw [hcheck]
  exact @allocate_records { w with calls := .find p :: w.calls, log := w.log ++ as } o tid n _ _

theorem reallocate_records : RecordsFrom w (w.reallocate o tid p n).1 := by
  by_cases hp : p = 0
  · subst hp
    rw [reallocate_null]
    exact allocate_records
  by_cases hn : n = 0
  · subst hn
    rw [reallocate_zero hp]
    exact deallocate_records
  by_cases hbypass : w.guardActive tid = true ∨ ¬ w.initialized = true
  · unfold reallocate
    rw [if_neg hp, if_neg hn, if_pos hbypass]
    exact .of_eq rawSystemRealloc_system.tracker
  rw [not_or, Bool.not_eq_true, not_not] at hbypass
  obtain ⟨hguard, hinit⟩ := hbypass
  rcases hfind : w.tracker.find p with _ | r
  · rw [reallocate_of_find_none hp hn hguard hinit hfind]
    exact .of_eq (@rawSystemRealloc_system { w with calls := .find p :: w.calls } o p n).tracker
  have hcontrol := reallocated_control w o tid p r n
  have halloc := @reallocated_records w o tid n p r
  rw [reallocate_of_find hn hguard hinit hfind]
  split
  · exact halloc
  · have hcopied : RecordsFrom w (w.recopied o tid p r n) := halloc
    have hcontrol' : SameControl w (w.recopied o tid p r n) :=
      ⟨hcontrol.config, hcontrol.initialized, hcontrol.leases, hcontrol.guardActive⟩
    exact hcopied.trans hcontrol' deallocate_records

theorem step_records (w : World) (c : Call) : RecordsFrom w (w.step c) := by
  cases c with
  | init config => exact .of_eq rfl
  | shutdown => exact .of_eq rfl
  | enterGuard tid => exact .of_eq rfl
  | exitGuard tid => exact .of_eq rfl
  | setCurrentTag tid tag => exact .of_eq rfl
  | store mem => exact .of_eq rfl
  | trackAlloc tid o size alignment tag =>
    obtain ⟨ls, hls⟩ := lease_eq (w.clearLog.allocate o tid size alignment tag).1
      (w.clearLog.allocate o tid size alignment tag).2 ⟨o.malloc, size⟩
    unfold World.step
    dsimp only
    rw [trackAlloc_eq, hls]
    exact @allocate_records w.clearLog o tid size alignment tag
  | trackFree tid p =>
    change RecordsFrom w ((w.clearLog.unlease p).trackFree tid p)
    unfold trackFree
    split
    · exact .of_eq rfl
    · split
      · exact .of_eq (@rawSystemFree_system (w.clearLog.unlease p) p).tracker
      · exact @deallocate_records (w.clearLog.unlease p) tid p
  | trackRealloc tid o p n =>
    obtain ⟨ls, hls⟩ := moveLease_eq (w.clearLog.trackRealloc o tid p n).1 p
      (w.clearLog.trackRealloc o tid p n).2 n ⟨o.malloc, n⟩
    unfold World.step
    dsimp only
    rw [hls]
    unfold trackRealloc
    split
    · exact .of_eq (@rawSystemRealloc_system w.clearLog o p n).tracker
    · exact @reallocate_records w.clearLog o tid n p

end Records

/-! ## Runs -/

structure UnderConfig (c : Config) (w : World) : Prop where
  config : w.initialized = true → w.config = c
  records : ∀ p r, w.tracker.find p = some r → w.config = c ∧ LaidOutUnder c r

section Runs

variable {w : World} {o : Oracle} {tid : ThreadId} {n : Word} {p : Ptr}

theorem deallocate_control : SameControl w (w.deallocate tid p) := by
  by_cases hp : p = 0
  · unfold deallocate
    rw [if_pos hp]
    exact SameControl.refl w
  by_cases hguard : w.guardActive tid
  · unfold deallocate
    rw [if_neg hp, if_pos hguard]
    dsimp only
    split
    · split
      · exact SameControl.refl w
      · exact rawSystemFree_system.control
    · exact rawSystemFree_system.control
  · exact (deallocate_effect w tid p (Bool.not_eq_true _ ▸ hguard) hp).1

theorem reallocate_control : SameControl w (w.reallocate o tid p n).1 := by
  by_cases hp : p = 0
  · subst hp
    rw [reallocate_null]
    exact (allocate_effect w o tid n _ 0).1
  by_cases hn : n = 0
  · subst hn
    rw [reallocate_zero hp]
    exact deallocate_control
  by_cases hbypass : w.guardActive tid = true ∨ ¬ w.initialized = true
  · unfold reallocate
    rw [if_neg hp, if_neg hn, if_pos hbypass]
    exact rawSystemRealloc_system.control
  rw [not_or, Bool.not_eq_true, not_not] at hbypass
  obtain ⟨hguard, hinit⟩ := hbypass
  rcases hfind : w.tracker.find p with _ | r
  · have hcontrol :=
      (@rawSystemRealloc_system { w with calls := .find p :: w.calls } o p n).control
    rw [reallocate_of_find_none hp hn hguard hinit hfind]
    exact ⟨hcontrol.config, hcontrol.initialized, hcontrol.leases, hcontrol.guardActive⟩
  · exact reallocate_tracked_control hn hguard hinit hfind

/-- Only `init` and `shutdown` change the configuration or the lifecycle state. -/
theorem step_config (w : World) (c : Call) :
    (w.step c).config = w.config ∧ (w.step c).initialized = w.initialized ∨
      c = .shutdown ∨ ∃ config, c = .init config := by
  cases c with
  | init config => exact Or.inr (Or.inr ⟨config, rfl⟩)
  | shutdown => exact Or.inr (Or.inl rfl)
  | enterGuard tid => exact Or.inl ⟨rfl, rfl⟩
  | exitGuard tid => exact Or.inl ⟨rfl, rfl⟩
  | setCurrentTag tid tag => exact Or.inl ⟨rfl, rfl⟩
  | store mem => exact Or.inl ⟨rfl, rfl⟩
  | trackAlloc tid o size alignment tag =>
    obtain ⟨ls, hls⟩ := lease_eq (w.clearLog.allocate o tid size alignment tag).1
      (w.clearLog.allocate o tid size alignment tag).2 ⟨o.malloc, size⟩
    have hcontrol := (allocate_effect w.clearLog o tid size alignment tag).1
    left
    unfold World.step
    dsimp only
    rw [trackAlloc_eq, hls]
    exact ⟨hcontrol.config, hcontrol.initialized⟩
  | trackFree tid p =>
    left
    change ((w.clearLog.unlease p).trackFree tid p).config = w.config ∧
      ((w.clearLog.unlease p).trackFree tid p).initialized = w.initialized
    unfold trackFree
    split
    · exact ⟨rfl, rfl⟩
    · split
      · have hcontrol := @rawSystemFree_system (w.clearLog.unlease p) p
        exact ⟨hcontrol.config, hcontrol.initialized⟩
      · have hcontrol := @deallocate_control (w.clearLog.unlease p) tid p
        exact ⟨hcontrol.config, hcontrol.initialized⟩
  | trackRealloc tid o p n =>
    obtain ⟨ls, hls⟩ := moveLease_eq (w.clearLog.trackRealloc o tid p n).1 p
      (w.clearLog.trackRealloc o tid p n).2 n ⟨o.malloc, n⟩
    left
    unfold World.step
    dsimp only
    rw [hls]
    unfold trackRealloc
    split
    · have hcontrol := @rawSystemRealloc_system w.clearLog o p n
      exact ⟨hcontrol.config, hcontrol.initialized⟩
    · have hcontrol := @reallocate_control w.clearLog o tid n p
      exact ⟨hcontrol.config, hcontrol.initialized⟩

theorem UnderConfig.step {c : Config} {call : Call} (h : UnderConfig c w)
    (hcall : Initializes c call) : UnderConfig c (w.step call) := by
  have hrecords : ∀ q r, (w.step call).tracker.find q = some r →
      w.config = c ∧ LaidOutUnder c r := by
    intro q r hfind
    rcases step_records w call q r hfind with hold | ⟨hinit, hlaid⟩
    · exact h.records q r hold
    · rw [h.config hinit] at hlaid
      exact ⟨h.config hinit, hlaid⟩
  rcases step_config w call with ⟨hconfig, hinit⟩ | rfl | ⟨config, rfl⟩
  · refine ⟨fun hi => hconfig.trans (h.config (hinit ▸ hi)), fun q r hfind => ?_⟩
    rw [hconfig]
    exact hrecords q r hfind
  · exact ⟨fun hi => (nomatch hi), hrecords⟩
  · exact ⟨fun _ => hcall, fun q r hfind => ⟨hcall, (hrecords q r hfind).2⟩⟩

theorem underConfig_start (c : Config) (mem : Memory) : UnderConfig c (World.start mem) where
  config := fun hinit => nomatch hinit
  records := fun p r hfind => by
    rw [show (World.start mem).tracker = ShardedTracker.empty from rfl,
      ShardedTracker.find_empty] at hfind
    cases hfind

theorem run_underConfig {mayWrite : World → Memory → Prop} {cond : World → Call → Prop}
    {c : Config} {w' : World} {cs : List Call} (hcond : ∀ w call, cond w call → Initializes c call)
    (hrun : Run (managerSystem mayWrite cond) w cs w') (h : UnderConfig c w) :
    UnderConfig c w' := by
  refine hrun.invariant (I := UnderConfig c) (fun w call hw hguard => ?_) h
  exact hw.step (hcond w call hguard.2)

end Runs

end MemSentry
