import MemSentry.Manager.BlockContents
import MemSentry.Manager.ComputedRuns
import MemSentry.Manager.DoubleFree

/-!
# False double-free alarms

The quarantine remembers user pointers of tracked blocks, and only an insertion clears an
entry. A block that is not tracked can be handed out at an address that the quarantine
still holds; releasing it is then reported as a double free, and the block is never
returned (`false_alarm`). `no_false_alarm_iff` says exactly when a release goes well.
-/

namespace MemSentry

open ByteMemory MemSentry.Core Function World Transition

/-- The release raised no double-free alarm for the pointer and gave its block back. -/
def GoesWell (w' : World) (p base : Ptr) : Prop :=
  .alert p .doubleFree ∉ w'.log ∧ .systemFree base true ∈ w'.log

section Release

variable {w : World} {tid : ThreadId} {p : Ptr} {l : Lease}

/-- The verdict on a tracked block with an intact header. -/
theorem verdict_iff {r : AllocationRecord} (h : InOrder w)
    (hall : HoldsOfAll intactHeader w.tracker w.mem) (hfind : w.tracker.find p = some r) :
    (verifyCanary w.mem r.rawPtr w.config.footerSize).1 =
      if FooterIntact w.mem p r.requestedSize (checkedLength w r) then .none
      else .footerCorrupted :=
  verifyCanary_verdict (hall p r hfind) (h.tracked p r hfind).1.placed.raw_ne_zero

theorem goesWell_iff (h : InOrder w) (hall : HoldsOfAll intactHeader w.tracker w.mem)
    (hl : w.leases p = some l) (hguard : w.guardActive tid = false) :
    GoesWell (w.step (.trackFree tid p)) p l.base ↔
      (∃ r, w.tracker.find p = some r ∧
        FooterIntact w.mem p r.requestedSize (checkedLength w r)) ∨
      (w.tracker.find p = none ∧ ¬ w.tracker.Quarantined p ∧ getHeaderFromUserPtr w.mem p = 0) := by
  have hp := h.held_ne_zero hl
  obtain ⟨_, _, heffect⟩ := deallocate_effect (w.clearLog.unlease p) tid p hguard hp
  have hlive : ∀ r, w.tracker.find p = some r → l.base = r.rawPtr ∧ (w.heap r.rawPtr).isSome := by
    intro r hfind
    obtain ⟨hblock, hlease⟩ := h.tracked p r hfind
    rw [hl] at hlease
    cases hlease
    exact ⟨rfl, by rw [hblock.live]; rfl⟩
  rw [step_trackFree hp hguard]
  unfold GoesWell
  cases heffect with
  | released r hfind hraw hverdict hheap htracker hmem hlog hfault =>
    obtain ⟨hbase, hsome⟩ := hlive r hfind
    have hsome' : ((w.clearLog.unlease p).heap r.rawPtr).isSome = true := hsome
    rw [hlog, hsome', hbase]
    refine iff_of_true ⟨?_, ?_⟩ (Or.inl ⟨r, hfind, ?_⟩)
    · simp [unlease, clearLog]
    · simp
    · have hverdict' := (verdict_iff h hall hfind).symm.trans hverdict
      by_contra hbroken
      rw [if_neg hbroken] at hverdict'
      cases hverdict'
  | leaked r hfind hverdict hheap htracker hmem hlog hfault =>
    rw [hlog]
    refine iff_of_false (fun hwell => ?_) ?_
    · simp [unlease, clearLog] at hwell
    · rintro (⟨r', hfind', hfooter⟩ | ⟨hnone, _⟩)
      · have hfind'' : w.tracker.find p = some r := hfind
        rw [hfind''] at hfind'
        cases hfind'
        exact hverdict ((verdict_iff h hall hfind).trans (if_pos hfooter))
      · have hfind'' : w.tracker.find p = some r := hfind
        rw [hfind''] at hnone
        cases hnone
  | alarm hfind hq hheap htracker hmem hlog hfault =>
    rw [hlog]
    refine iff_of_false (fun hwell => ?_) ?_
    · simp [unlease, clearLog] at hwell
    · rintro (⟨r', hfind', _⟩ | ⟨_, hnq, _⟩)
      · have hfind'' : w.tracker.find p = none := hfind
        rw [hfind''] at hfind'
        cases hfind'
      · exact hnq hq
  | untracked hfind hq hheader hheap htracker hmem hlog hfault =>
    obtain ⟨hbase, hheap⟩ := h.untracked p l hl hfind
    have hsome : ((w.clearLog.unlease p).heap p).isSome = true := by
      rw [show (w.clearLog.unlease p).heap = w.heap from rfl, hheap]
      rfl
    rw [hlog, hsome, hbase]
    refine iff_of_true ⟨?_, ?_⟩ (Or.inr ⟨hfind, hq, hheader⟩)
    · simp [unlease, clearLog]
    · simp
  | misread hfind hq hheader hlog =>
    obtain ⟨accesses, hlog⟩ := hlog
    obtain ⟨hbase, _⟩ := h.untracked p l hl hfind
    rw [hlog, hbase]
    refine iff_of_false (fun hwell => ?_) ?_
    · have hne := (getHeaderFromUserPtr_spec hheader).2
      have hmem := hwell.2
      simp [unlease, clearLog] at hmem
      exact hne hmem.1.symm
    · rintro (⟨r', hfind', _⟩ | ⟨_, _, hnull⟩)
      · have hfind'' : w.tracker.find p = none := hfind
        rw [hfind''] at hfind'
        cases hfind'
      · exact hheader hnull

end Release

/-- **A release goes well exactly when** its pointer has a record and the red zone of the
length now in force is intact, or it has none, the quarantine does not hold it and no
header is recognised below it. The red zone is intact unless the footer in force has
become longer than the one laid out. -/
theorem no_false_alarm_iff {mem : Memory} {cs : List Call} {w : World} {tid : ThreadId} {p : Ptr}
    {l : Lease} (hrun : Run (managerSystem PayloadWrites ReleaseSound) (World.start mem) cs w)
    (hdefined : w.fault = false) (hl : w.leases p = some l) (hguard : w.guardActive tid = false) :
    (GoesWell (w.step (.trackFree tid p)) p l.base ↔
      (∃ r, w.tracker.find p = some r ∧
        FooterIntact w.mem p r.requestedSize (checkedLength w r)) ∨
      (w.tracker.find p = none ∧ ¬ w.tracker.Quarantined p ∧
        getHeaderFromUserPtr w.mem p = 0)) ∧
    ∀ r, w.tracker.find p = some r → checkedLength w r ≤ laidOutLength w.mem r →
      FooterIntact w.mem p r.requestedSize (checkedLength w r) := by
  have hok := run_contents (Φ := intactBlock) payloadWrites_keep hrun (contentsOk_start mem)
  obtain ⟨horder, hall⟩ := hok.of_defined hdefined
  refine ⟨goesWell_iff horder (fun q r hfind => (hall q r hfind).1) hl hguard, ?_⟩
  intro r hfind hle
  exact (hall p r hfind).2.of_le hle

/-- One block is from before `init`. Two tracked ones are freed, and the address of the first
is in quarantine until the system answers with its base once more. -/
def recycling : List Call :=
  [.trackAlloc 1 { malloc := 0x70000 } 16 16 0, .init {},
    .trackAlloc 1 { malloc := 0x10000 } 16 16 0, .trackAlloc 2 { malloc := 0x20000 } 40 64 0,
    .trackFree 1 0x10050, .trackFree 2 0x20080, .trackAlloc 2 { malloc := 0x10000 } 16 16 0]

def recycled : World := World.after (fun _ => 0) recycling

theorem no_false_alarm_recycled :
    Run (managerSystem PayloadWrites ReleaseSound) (World.start fun _ => 0) recycling recycled ∧
      (World.after (fun _ => 0) (recycling.take 6)).tracker.Quarantined 0x10050 ∧
      recycled.tracker.Quarantined 0x20080 ∧
      GoesWell (recycled.step (.trackFree 1 0x10050)) 0x10050 0x10000 ∧
      GoesWell (recycled.step (.trackFree 1 0x70000)) 0x70000 0x70000 := by
  have hrun : Run (managerSystem PayloadWrites ReleaseSound) (World.start fun _ => 0) recycling
      recycled := run_from_start _ _ (by decide +kernel)
  have hdefined : recycled.fault = false := by decide +kernel
  have hguard : recycled.guardActive 1 = false := by decide +kernel
  have htracked : recycled.leases 0x10050 = some ⟨0x10000, 16⟩ := by decide +kernel
  have hbefore : recycled.leases 0x70000 = some ⟨0x70000, 16⟩ := by decide +kernel
  obtain ⟨hwell, hintact⟩ := no_false_alarm_iff hrun hdefined htracked hguard
  refine ⟨hrun, by decide +kernel, by decide +kernel, hwell.mpr (Or.inl ?_), ?_⟩
  · obtain ⟨r, hfind⟩ := Option.isSome_iff_exists.mp
      (show (recycled.tracker.find 0x10050).isSome = true by decide +kernel)
    have hlengths : (recycled.tracker.find 0x10050).all fun r =>
      decide (checkedLength recycled r ≤ laidOutLength recycled.mem r) := by decide +kernel
    exact ⟨r, hfind, hintact r hfind
      (of_decide_eq_true ((Option.all_eq_true _ _).mp hlengths r hfind))⟩
  · exact (no_false_alarm_iff hrun hdefined hbefore hguard).1.mpr
      (Or.inr ⟨by decide +kernel, by decide +kernel, by decide +kernel⟩)

/-- A run that hands out one block, which is in order and intact. -/
theorem first_block_intact :
    ∃ (w : World) (r : AllocationRecord), Run (managerSystem PayloadWrites ReleaseSound)
        (World.start fun _ => 0) ([.init {}] ++ [allocSmall 0x10000]) w ∧ Halfway 0x10000 w r ∧
      TrackedBlock w.heap (userAddress 0x10000 16) r ∧
      intactBlock.holds w.mem (userAddress 0x10000 16) r := by
  obtain ⟨r, hhalf⟩ := first_block
  have hrun := @first_block_run PayloadWrites ReleaseSound ⟨trivial, trivial⟩ ⟨trivial, trivial⟩
  have hok := run_contents (Φ := intactBlock) payloadWrites_keep hrun (contentsOk_start _)
  obtain ⟨horder, hall⟩ := hok.of_defined hhalf.ready.defined
  exact ⟨_, r, hrun, hhalf, (horder.tracked _ _ hhalf.find).1, hall _ _ hhalf.find⟩

/-- A block handed out at `p` under a guard. -/
def guardedBlock (p : Ptr) : List Call :=
  [.enterGuard 1, .trackAlloc 1 { malloc := p } 16 16 0, .exitGuard 1]

theorem guardedBlock_run {w : World} {p : Ptr} (h : Idle w) (hp : p ≠ 0)
    (hspace : p.toNat + 16 ≤ 2 ^ 64) :
    ∃ w', Run (managerSystem PayloadWrites ReleaseSound) w (guardedBlock p) w' ∧
      w'.fault = false ∧ w'.tracker = w.tracker ∧ w'.leases p = some ⟨p, 16⟩ ∧
      w'.guardActive 1 = false := by
  have hguard : (w.step (.enterGuard 1)).guardActive 1 = true := by
    simp [World.step, enterGuard, World.guardActive]
  have halloc : (w.step (.enterGuard 1)).step (.trackAlloc 1 { malloc := p } 16 16 0) =
      { (w.step (.enterGuard 1)).clearLog with
        heap := update w.heap p (some (extent 16))
        log := [.systemAlloc 16 p]
        leases := update w.leases p (some ⟨p, 16⟩) } := by
    have hraw : (w.step (.enterGuard 1)).clearLog.trackAlloc { malloc := p } 1 16 16 0 =
        (w.step (.enterGuard 1)).clearLog.rawSystemAlloc { malloc := p } 16 :=
      if_pos (Or.inl hguard)
    unfold World.step at hraw ⊢
    dsimp only at hraw ⊢
    rw [hraw, rawSystemAlloc_of_ne hp, lease_of_ne hp]
    rfl
  have hfresh : Fresh (w.step (.enterGuard 1)).heap p 16 := by
    rw [show (w.step (.enterGuard 1)).heap = w.heap from rfl, h.heap]
    exact fresh_empty hspace
  have hfirst : Permitted PayloadWrites w (.enterGuard 1) :=
    permitted_of_log h.ready.defined trivial rfl fun a ha => absurd ha List.not_mem_nil
  have hsecond : Permitted PayloadWrites (w.step (.enterGuard 1))
      (.trackAlloc 1 { malloc := p } 16 16 0) := by
    refine permitted_of_log h.ready.defined trivial (congrArg World.log halloc) fun a ha => ?_
    rw [List.mem_singleton.mp ha]
    exact fun _ => hfresh
  refine ⟨_, .cons ⟨hfirst, trivial, trivial⟩ (.cons ⟨hsecond, trivial, trivial⟩
    (.cons ⟨?_, trivial, trivial⟩ (.nil _))), ?_⟩
  · change Permitted PayloadWrites ((w.step (.enterGuard 1)).step
      (.trackAlloc 1 { malloc := p } 16 16 0)) (.exitGuard 1)
    rw [halloc]
    exact permitted_of_log h.ready.defined hguard rfl fun a ha => absurd ha List.not_mem_nil
  · change (((w.step (.enterGuard 1)).step (.trackAlloc 1 { malloc := p } 16 16 0)).step
      (.exitGuard 1)).fault = false ∧ _ ∧ _ ∧ _
    simp only [managerSystem]
    rw [halloc]
    refine ⟨h.ready.defined, rfl, update_self _ _ _, ?_⟩
    have hready := h.ready.guard
    simp only [World.step, enterGuard, exitGuard, clearLog, World.guardActive, update_self]
      at hready ⊢
    exact hready

/-- A tracked block is handed out and freed, and then, under a guard, a block at the address
of its payload. -/
theorem false_alarm :
    ∃ (cs : List Call) (w : World) (p : Ptr) (l : Lease),
      Run (managerSystem PayloadWrites ReleaseSound) (World.start fun _ => 0) cs w ∧
        w.fault = false ∧ w.leases p = some l ∧ w.guardActive 1 = false ∧
        .alert p .doubleFree ∈ (w.step (.trackFree 1 p)).log ∧
        ¬ GoesWell (w.step (.trackFree 1 p)) p l.base := by
  obtain ⟨r, hhalf⟩ := first_block
  obtain ⟨hidle, _⟩ := freeSmall_idle hhalf
  have hfirst := @first_block_run PayloadWrites ReleaseSound ⟨trivial, trivial⟩ ⟨trivial, trivial⟩
  have hp := ShardedTracker.ne_zero_of_find hhalf.find
  have herased := calls_of_first_free hhalf.find hhalf.ready.guard
  have hfree : ReleaseSound (initialized.step (allocSmall 0x10000)) (freeSmall 0x10000) := by
    refine ⟨Or.inr ?_, fun r' hr' => ?_⟩
    · rw [hhalf.ready.guard, if_neg Bool.false_ne_true]
      intro hstatus
      rw [ShardedTracker.erase_of_find hhalf.find] at hstatus
      cases hstatus
    · rw [hhalf.find] at hr'
      cases hr'
      unfold checkedLength laidOutLength
      rw [hhalf.ready.config, hhalf.footerSize]
      exact Nat.le_refl _
  have hrun := hfirst.append (.cons ⟨permitted_trackFree hhalf.ready.defined hhalf.held, hfree⟩
    (.nil _))
  obtain ⟨w, hrest, hdefined, htracker, hlease, hguard⟩ :=
    guardedBlock_run hidle hp (by decide)
  have hq : w.tracker.Quarantined (userAddress 0x10000 16) := by
    rw [htracker]
    exact herased.tracker ▸ ShardedTracker.quarantined_afterErase hhalf.find
  have hnone : w.tracker.find (userAddress 0x10000 16) = none := by
    rw [htracker]
    have hfind := ShardedTracker.find_afterErase (initialized.step (allocSmall 0x10000)).tracker
      (userAddress 0x10000 16) (userAddress 0x10000 16)
    rw [if_pos rfl] at hfind
    exact herased.tracker ▸ hfind
  have hreport := (@reportsDoubleFree_iff_quarantined w 1 _ hp hnone hguard).mpr hq
  exact ⟨_, w, _, _, hrun.append hrest, hdefined, hlease, hguard, hreport.1,
    fun hwell => hwell.1 hreport.1⟩

end MemSentry
