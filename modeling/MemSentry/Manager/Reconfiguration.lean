import MemSentry.Manager.DoubleFree
import MemSentry.Manager.BlockContents

/-!
# Live blocks and reconfiguration

A block is laid out with the footer size in force when it is allocated, and checked with
the one in force when it is released. `DecidedByRedZone` says what a release should do
whatever has happened to the configuration in between: an intact red zone is not reported, a
broken one is, and nothing outside the block is touched. A block is freed like that exactly
when the two lengths agree, and reallocated like that exactly when the manager is initialised
besides (`reconfiguration_iff`). A footer that has become longer is checked against bytes that
were never written, and the tail of one that has become shorter is not checked at all; after a
`shutdown` a reallocation hands the pointer to the system as it is.
-/

namespace MemSentry

open ByteMemory MemSentry.Core Function World Transition

/-- Clients that may also write over the footers of their blocks. -/
def BodyWrites (w : World) (mem : Memory) : Prop :=
  ∀ a, mem a ≠ w.mem a →
    (∃ p l, w.leases p = some l ∧ InSpan p l.size.toNat a) ∨
    (∃ p r, w.tracker.find p = some r ∧ InSpan (p + r.requestedSize) r.footerSize.toNat a) ∨
      ∀ b n, w.heap b = some n → ¬ InSpan b n a

/-- No corruption is reported, the block is returned if the call is done with it, and
canary checks and poisoning stay inside the block. -/
structure Clean (log : List Action) (r : AllocationRecord) (done : Prop) : Prop where
  quiet : ∀ q kind, .alert q kind ∉ log
  returned : done → .systemFree r.rawPtr true ∈ log
  inside : ∀ accesses, .inspect accesses ∈ log →
    ∀ a ∈ accesses, a.Inside r.rawPtr r.totalSize.toNat

/-- The red zone decides: clean if it is intact, reported if it is not. -/
def DecidedByRedZone (w : World) (log : List Action) (p : Ptr) (r : AllocationRecord)
    (done : Prop) : Prop :=
  (FooterIntact w.mem p r.requestedSize (laidOutLength w.mem r) → Clean log r done) ∧
    (¬ FooterIntact w.mem p r.requestedSize (laidOutLength w.mem r) →
      .alert p .footerCorrupted ∈ log)

/-- Freeing the pointer is decided by its red zone. -/
def FreeExact (w : World) (tid : ThreadId) (p : Ptr) (r : AllocationRecord) : Prop :=
  DecidedByRedZone w (w.step (.trackFree tid p)).log p r True

/-- So is reallocating it, to any size and whatever the system answers. -/
def ReallocExact (w : World) (tid : ThreadId) (p : Ptr) (r : AllocationRecord) : Prop :=
  ∀ o n, (∀ a ∈ (w.step (.trackRealloc tid o p n)).log, a.Fresh w.heap) →
    DecidedByRedZone w (w.step (.trackRealloc tid o p n)).log p r
      (n = 0 ∨ (w.clearLog.trackRealloc o tid p n).2 ≠ 0)

/-- The contents of the block except its header are replaced. -/
def SameHeader (w : World) (r : AllocationRecord) (mem : Memory) : Prop :=
  ∀ a, mem a ≠ w.mem a → InSpan r.rawPtr r.totalSize.toNat a ∧ ¬ InSpan r.rawPtr 64 a

section Lengths

variable {w : World} {tid : ThreadId} {p : Ptr} {r : AllocationRecord} {ls : Ptr → Option Lease}

/-- What a release logs, if the two lengths agree. -/
theorem deallocate_decided (h : w.OwnedBy ls) (hguard : w.guardActive tid = false)
    (hfind : w.tracker.find p = some r)
    (hheader : HeaderIntact w.mem r.rawPtr p r.requestedSize (hasCanaryOf w.mem r.rawPtr))
    (hlength : checkedLength w r = laidOutLength w.mem r) :
    ∃ as, (w.deallocate tid p).log = w.log ++ as ∧ DecidedByRedZone w as p r True := by
  have hplaced := (h.tracked p r hfind).1.placed
  have hlive := (h.tracked p r hfind).1.live
  have hp := ShardedTracker.ne_zero_of_find hfind
  have hverdict := @verifyCanary_verdict w.mem r.rawPtr p r.requestedSize w.config.footerSize _
    hheader hplaced.raw_ne_zero
  have hshort : checkedLength w r ≤ r.footerSize.toNat :=
    Nat.le_trans (Nat.le_of_eq hlength) (laidOutLength_le w.mem r)
  change _ = if FooterIntact _ _ _ (checkedLength w r) then _ else _ at hverdict
  rw [hlength] at hverdict
  obtain ⟨_, _, heffect⟩ := deallocate_effect w tid p hguard hp
  cases heffect with
  | released r' hfind' hraw hclean hheap htracker hmem hlog hfault =>
    rw [hfind] at hfind'
    cases hfind'
    have hintact : FooterIntact w.mem p r.requestedSize (laidOutLength w.mem r) := by
      by_contra hbroken
      rw [hclean, if_neg hbroken] at hverdict
      cases hverdict
    refine ⟨_, hlog, fun _ => ⟨by simp, by simp [hlive], ?_⟩, fun hbroken => absurd hintact hbroken⟩
    intro accesses hmem' a ha
    simp only [List.mem_cons, Action.inspect.injEq, reduceCtorEq, List.not_mem_nil, or_false]
      at hmem'
    rcases hmem' with rfl | rfl
    · exact verifyCanary_inside hheader hplaced hshort ha
    · exact poisonBlock_inside hheader hplaced hshort ha
  | leaked r' hfind' hcorrupt hheap htracker hmem hlog hfault =>
    rw [hfind] at hfind'
    cases hfind'
    have hbroken : ¬ FooterIntact w.mem p r.requestedSize (laidOutLength w.mem r) := by
      intro hintact
      rw [if_pos hintact] at hverdict
      exact hcorrupt hverdict
    rw [if_neg hbroken] at hverdict
    exact ⟨_, hlog, fun hintact => absurd hintact hbroken, fun _ => by simp [hverdict]⟩
  | alarm hnone hq hheap htracker hmem hlog hfault =>
    rw [hfind] at hnone
    cases hnone
  | untracked hnone hq hheader hheap htracker hmem hlog hfault =>
    rw [hfind] at hnone
    cases hnone
  | misread hnone hq hheader hlog =>
    rw [hfind] at hnone
    cases hnone

/-- What the canary check of `reallocate` logs, if the two lengths agree. -/
theorem checkOldBlock_decided (h : w.OwnedBy ls) (hfind : w.tracker.find p = some r)
    (hheader : HeaderIntact w.mem r.rawPtr p r.requestedSize (hasCanaryOf w.mem r.rawPtr))
    (hlength : checkedLength w r = laidOutLength w.mem r) :
    ∃ as, World.checkOldBlock { w with calls := .find p :: w.calls } p r =
        { w with calls := .find p :: w.calls, log := w.log ++ as } ∧
      DecidedByRedZone w as p r False := by
  have hplaced := (h.tracked p r hfind).1.placed
  have hverdict := @verifyCanary_verdict w.mem r.rawPtr p r.requestedSize w.config.footerSize _
    hheader hplaced.raw_ne_zero
  have hshort : checkedLength w r ≤ r.footerSize.toNat :=
    Nat.le_trans (Nat.le_of_eq hlength) (laidOutLength_le w.mem r)
  change _ = if FooterIntact _ _ _ (checkedLength w r) then _ else _ at hverdict
  rw [hlength] at hverdict
  unfold checkOldBlock
  dsimp only
  by_cases hcanary : w.config.enableCanary
  · have hsize : w.config.footerSize = w.config.canaryFooterSize := if_pos hcanary
    have hinside : ∀ a ∈ (verifyCanary w.mem r.rawPtr w.config.footerSize).2,
        a.Inside r.rawPtr r.totalSize.toNat :=
      fun a ha => verifyCanary_inside hheader hplaced hshort ha
    rw [hsize] at hverdict hinside
    rw [if_pos hcanary]
    by_cases hintact : FooterIntact w.mem p r.requestedSize (laidOutLength w.mem r)
    · rw [if_pos hintact] at hverdict
      rw [if_neg (not_not_intro hverdict)]
      refine ⟨_, rfl, fun _ => ⟨by simp, False.elim, ?_⟩, fun hbroken => absurd hintact hbroken⟩
      intro accesses haccesses
      simp only [List.mem_singleton, Action.inspect.injEq] at haccesses
      rw [haccesses]
      exact hinside
    · rw [if_neg hintact] at hverdict
      rw [hverdict]
      refine ⟨[.inspect (verifyCanary w.mem r.rawPtr w.config.canaryFooterSize).2,
        .alert p .footerCorrupted], ?_, fun hi => absurd hi hintact, fun _ => by simp⟩
      simp [alert, emit]
  · have hzero : laidOutLength w.mem r = 0 := by
      rw [← hlength, checkedLength, Config.footerSize, if_neg hcanary, canaryLength,
        if_neg (fun hlong => absurd hlong.2 (by decide))]
    rw [if_neg hcanary]
    refine ⟨[], by rw [List.append_nil], fun _ => ⟨by simp, False.elim, by simp⟩, fun hbroken => ?_⟩
    rw [hzero] at hbroken
    exact absurd rfl hbroken

theorem DecidedByRedZone.weaken {log : List Action} {done : Prop}
    (h : DecidedByRedZone w log p r True) : DecidedByRedZone w log p r done :=
  ⟨fun hintact => ⟨(h.1 hintact).quiet, fun _ => (h.1 hintact).returned trivial,
    (h.1 hintact).inside⟩, h.2⟩

/-- A first part that is decided, entries that say nothing about corruption, and a last
part that is decided too. -/
theorem DecidedByRedZone.append {as bs cs : List Action} {done done' : Prop}
    (has : DecidedByRedZone w as p r False)
    (hbs : ∀ a ∈ bs, (∃ n q, a = .systemAlloc n q) ∨ ∃ m n, a = .limitExceeded m n)
    (hcs : done' → DecidedByRedZone w cs p r True) (hdone : done → done')
    (hnil : ¬ done' → cs = []) : DecidedByRedZone w (as ++ bs ++ cs) p r done := by
  have hsplit : ∀ a, a ∈ as ++ bs ++ cs → (∀ n q, a ≠ .systemAlloc n q) →
      (∀ m n, a ≠ .limitExceeded m n) → a ∈ as ∨ done' ∧ a ∈ cs := by
    intro a ha hsystem hlimit
    rcases List.mem_append.mp ha with hab | hc
    · rcases List.mem_append.mp hab with ha | hb
      · exact Or.inl ha
      · rcases hbs a hb with ⟨n, q, rfl⟩ | ⟨m, n, rfl⟩
        · exact absurd rfl (hsystem n q)
        · exact absurd rfl (hlimit m n)
    · by_cases hd : done'
      · exact Or.inr ⟨hd, hc⟩
      · rw [hnil hd] at hc
        cases hc
  refine ⟨fun hintact => ⟨?_, ?_, ?_⟩, fun hbroken => ?_⟩
  · intro q kind ha
    rcases hsplit _ ha (by simp) (by simp) with ha | ⟨hd, hc⟩
    · exact (has.1 hintact).quiet q kind ha
    · exact ((hcs hd).1 hintact).quiet q kind hc
  · exact fun hd => List.mem_append_right _ (((hcs (hdone hd)).1 hintact).returned trivial)
  · intro accesses ha
    rcases hsplit _ ha (by simp) (by simp) with ha | ⟨hd, hc⟩
    · exact (has.1 hintact).inside accesses ha
    · exact ((hcs hd).1 hintact).inside accesses hc
  · exact List.mem_append_left _ (List.mem_append_left _ (has.2 hbroken))

theorem free_decided (h : InOrder w) (hguard : w.guardActive tid = false)
    (hfind : w.tracker.find p = some r)
    (hheader : HeaderIntact w.mem r.rawPtr p r.requestedSize (hasCanaryOf w.mem r.rawPtr))
    (hlength : checkedLength w r = laidOutLength w.mem r) :
    DecidedByRedZone w (w.step (.trackFree tid p)).log p r True := by
  have hp := ShardedTracker.ne_zero_of_find hfind
  obtain ⟨as, hlog, has⟩ := @deallocate_decided (w.clearLog.unlease p) tid p r w.leases h hguard
    hfind hheader hlength
  rw [step_trackFree hp hguard, hlog]
  exact has

theorem realloc_decided (h : InOrder w) (hguard : w.guardActive tid = false)
    (hinit : w.initialized = true) (hfind : w.tracker.find p = some r)
    (hheader : HeaderIntact w.mem r.rawPtr p r.requestedSize (hasCanaryOf w.mem r.rawPtr))
    (hlength : checkedLength w r = laidOutLength w.mem r) (o : Oracle) (n : Word)
    (hfresh : ∀ a ∈ (w.step (.trackRealloc tid o p n)).log, a.Fresh w.heap) :
    DecidedByRedZone w (w.step (.trackRealloc tid o p n)).log p r
      (n = 0 ∨ (w.clearLog.trackRealloc o tid p n).2 ≠ 0) := by
  have hp := ShardedTracker.ne_zero_of_find hfind
  have hlog : (w.step (.trackRealloc tid o p n)).log = (w.clearLog.trackRealloc o tid p n).1.log :=
    log_moveLease _ _ _ _ _
  rw [hlog] at hfresh
  rw [hlog]
  rw [@trackRealloc_of_open w.clearLog o tid p n hguard hinit] at hfresh ⊢
  rcases eq_or_ne n 0 with hn | hn
  · subst hn
    obtain ⟨as, hlog, has⟩ := @deallocate_decided w.clearLog tid p r w.leases h hguard hfind
      hheader hlength
    rw [reallocate_zero hp, hlog]
    exact has.weaken
  have hinner : ∀ a ∈ (w.clearLog.reallocated o tid p r n).1.log, a.Fresh w.heap :=
    fun a ha => hfresh a (@reallocated_log w.clearLog o tid n p r hn hguard hinit hfind a ha)
  obtain ⟨as, hcheck, has⟩ := @checkOldBlock_decided w.clearLog p r w.leases h hfind hheader hlength
  obtain ⟨bs, hbs, hquiet⟩ : LogsRequests
      { w.clearLog with calls := .find p :: w.calls, log := [] ++ as }
      (w.clearLog.reallocated o tid p r n).1 := by
    unfold reallocated
    rw [hcheck]
    exact allocate_log
  rw [@reallocate_of_find w.clearLog o tid n p r hn hguard hinit hfind]
  rcases eq_or_ne (w.clearLog.reallocated o tid p r n).2 0 with hq | hq
  · rw [if_pos hq, hbs]
    have happ := @DecidedByRedZone.append w p r as bs []
      (n = 0 ∨ (0 : Ptr) ≠ 0) False has hquiet False.elim
      (fun hdone => hdone.elim hn fun hne => hne rfl) fun _ => rfl
    rw [List.append_nil] at happ
    exact happ
  · rw [if_neg hq]
    have hspec := @recopied_spec w.clearLog o tid n p w.leases r h hfind hinner hq
    have hplaced := (h.tracked p r hfind).1.placed
    obtain ⟨hchecked, hlaid⟩ :=
      @checkedLength_recopied w.clearLog o n p w.leases r _ _ h hfind hspec
    have hheader' := hheader.congr_self (header_bytes_congr hplaced hspec.bytes)
    obtain ⟨cs, hcs, hdecided⟩ := deallocate_decided hspec.owned
      ((hspec.control.guardActive tid).trans hguard) hspec.find hheader'
      (hchecked.trans (hlength.trans hlaid.symm))
    have hfooter : FooterIntact (w.clearLog.recopied o tid p r n).mem p r.requestedSize
        (laidOutLength (w.clearLog.recopied o tid p r n).mem r) ↔
        FooterIntact w.mem p r.requestedSize (laidOutLength w.mem r) := by
      have hbytes : ∀ i < laidOutLength w.mem r, _ := fun i hi =>
        footer_bytes_congr hplaced hspec.bytes i (Nat.lt_of_lt_of_le hi (laidOutLength_le w.mem r))
      rw [hlaid]
      exact ⟨fun hi => hi.congr fun i hlt => (hbytes i hlt).symm, fun hi => hi.congr hbytes⟩
    have hdecided' : DecidedByRedZone w cs p r True :=
      ⟨fun hi => hdecided.1 (hfooter.mpr hi), fun hb => hdecided.2 fun hi => hb (hfooter.mp hi)⟩
    have hmiddle : (w.clearLog.recopied o tid p r n).log = as ++ bs := by
      rw [recopied]
      exact hbs
    rw [hcs, hmiddle]
    exact @DecidedByRedZone.append w p r as bs cs _ True has hquiet (fun _ => hdecided')
      (fun _ => trivial) fun hf => absurd trivial hf

/-- Whether a corruption is reported depends on the checked length alone. -/
theorem free_alert_iff (h : InOrder w) (hguard : w.guardActive tid = false)
    (hfind : w.tracker.find p = some r)
    (hheader : HeaderIntact w.mem r.rawPtr p r.requestedSize (hasCanaryOf w.mem r.rawPtr)) :
    .alert p .footerCorrupted ∈ (w.step (.trackFree tid p)).log ↔
      ¬ FooterIntact w.mem p r.requestedSize (checkedLength w r) := by
  have hraw := (h.tracked p r hfind).1.placed.raw_ne_zero
  have hverdict := @verifyCanary_verdict w.mem r.rawPtr p r.requestedSize w.config.footerSize _
    hheader hraw
  rw [trackFree_log hguard hfind]
  by_cases hintact : FooterIntact w.mem p r.requestedSize (checkedLength w r)
  · simp [hverdict.trans (if_pos hintact), hintact]
  · simp [hverdict.trans (if_neg hintact), hintact]

/-- The red zone broken at byte `k`, and intact below. -/
def brokenAt (m : Memory) (footerPtr : Ptr) (k : Nat) : Memory :=
  writeBytes m footerPtr (redZone canaryFooterMagic k ++ [redZoneByte canaryFooterMagic k + 1])

theorem brokenAt_intact {m : Memory} {requested : Word} {k : Nat} (hk : k + 1 ≤ 2 ^ 64) :
    FooterIntact (brokenAt m (p + requested) k) p requested k := by
  have hread := @readBytes_writeBytes_inside 64 m (p + requested)
    (redZone canaryFooterMagic k ++ [redZoneByte canaryFooterMagic k + 1]) 0 k (by simp)
    (by simp only [List.length_append, length_redZone, List.length_singleton]; exact hk)
  rw [show p + requested + BitVec.ofNat 64 0 = p + requested from BitVec.add_zero _, List.drop_zero,
    List.take_left' (length_redZone _ k)] at hread
  exact hread

theorem brokenAt_broken {m : Memory} {requested : Word} {k j : Nat} (hk : k + 1 ≤ 2 ^ 64)
    (hj : k < j) : ¬ FooterIntact (brokenAt m (p + requested) k) p requested j := by
  intro hintact
  have hnext : FooterIntact _ p requested (k + 1) := hintact.of_le hj
  have hread := @readBytes_writeBytes_inside 64 m (p + requested)
    (redZone canaryFooterMagic k ++ [redZoneByte canaryFooterMagic k + 1]) 0 (k + 1) (by simp)
    (by simp only [List.length_append, length_redZone, List.length_singleton]; exact hk)
  rw [show p + requested + BitVec.ofNat 64 0 = p + requested from BitVec.add_zero _, List.drop_zero,
    List.take_of_length_le (by simp)] at hread
  have hzone : redZone canaryFooterMagic (k + 1) =
      redZone canaryFooterMagic k ++ [redZoneByte canaryFooterMagic k] := by
    simp [redZone, List.range_succ]
  have hlast := hread.symm.trans (hnext.trans hzone)
  have hbyte := List.singleton_inj.mp (List.append_cancel_left hlast)
  exact absurd hbyte (by simp)

/-- If freeing is decided by the red zone whatever the block contains, the lengths agree. -/
theorem lengths_of_decided {done : Prop} (h : InOrder w) (hguard : w.guardActive tid = false)
    (hfind : w.tracker.find p = some r)
    (hheader : HeaderIntact w.mem r.rawPtr p r.requestedSize (hasCanaryOf w.mem r.rawPtr))
    (hall : ∀ mem, SameHeader w r mem → DecidedByRedZone { w with mem := mem }
      (World.step { w with mem := mem } (.trackFree tid p)).log p r done) :
    checkedLength w r = laidOutLength w.mem r := by
  by_contra hne
  have hplaced := (h.tracked p r hfind).1.placed
  have hbelow := hplaced.below
  have habove := hplaced.above
  have hspace := hplaced.space
  have hfooter := hplaced.toNat_footer
  have hlaid := laidOutLength_le w.mem r
  obtain ⟨k, hk⟩ : ∃ k, k = min (checkedLength w r) (laidOutLength w.mem r) := ⟨_, rfl⟩
  have hsame : SameHeader w r (brokenAt w.mem (p + r.requestedSize) k) := by
    intro a hchanged
    have hin : InSpan (p + r.requestedSize) (k + 1) a := by
      by_contra hout
      refine hchanged (writeBytes_of_not_inSpan ?_)
      rwa [List.length_append, length_redZone, List.length_singleton]
    rw [inSpan_iff (by omega)] at hin
    rw [inSpan_iff hspace, inSpan_iff (by omega)]
    omega
  have hbytes : ∀ i < 64, brokenAt w.mem (p + r.requestedSize) k (r.rawPtr + BitVec.ofNat 64 i) =
      w.mem (r.rawPtr + BitVec.ofNat 64 i) := by
    intro i hi
    by_contra hchanged
    apply (hsame _ hchanged).2
    rw [InSpan, add_ofNat_sub_toNat _ (by omega)]
    exact hi
  have hcanary := hasCanaryOf_congr hbytes
  have halert := free_alert_iff (w := { w with mem := brokenAt w.mem (p + r.requestedSize) k })
    h hguard hfind (hheader.congr_self hbytes)
  have hexact := hall _ hsame
  unfold DecidedByRedZone at hexact
  have hchecked' : checkedLength { w with mem := brokenAt w.mem (p + r.requestedSize) k } r =
      checkedLength w r := by
    unfold checkedLength
    rw [hcanary]
  have hlaid' : laidOutLength (brokenAt w.mem (p + r.requestedSize) k) r =
      laidOutLength w.mem r := by
    unfold laidOutLength
    rw [hcanary]
  rw [hchecked'] at halert
  rw [hlaid'] at hexact
  have hk64 : k + 1 ≤ 2 ^ 64 := by omega
  rcases Nat.lt_or_gt_of_ne hne with hlt | hlt
  · rw [Nat.min_eq_left (Nat.le_of_lt hlt)] at hk
    exact halert.mp (hexact.2 (brokenAt_broken hk64 (hk ▸ hlt))) (hk ▸ brokenAt_intact hk64)
  · rw [Nat.min_eq_right (Nat.le_of_lt hlt)] at hk
    exact (hexact.1 (hk ▸ brokenAt_intact hk64)).quiet _ _
      (halert.mpr (brokenAt_broken hk64 (hk ▸ hlt)))

/-- Reallocating to zero bytes is freeing. -/
theorem realloc_zero_log (hguard : w.guardActive tid = false) (hinit : w.initialized = true)
    (hfind : w.tracker.find p = some r) (o : Oracle) :
    (w.step (.trackRealloc tid o p 0)).log = (w.step (.trackFree tid p)).log := by
  have hp := ShardedTracker.ne_zero_of_find hfind
  have hlog : (w.step (.trackRealloc tid o p 0)).log = (w.clearLog.trackRealloc o tid p 0).1.log :=
    log_moveLease _ _ _ _ _
  rw [hlog, @trackRealloc_of_open w.clearLog o tid p 0 hguard hinit, reallocate_zero hp,
    trackFree_log hguard hfind, @deallocate_of_find w.clearLog tid p r hguard hfind]
  by_cases hverdict : (verifyCanary w.mem r.rawPtr w.config.footerSize).1 = .none
  · rw [@releaseTracked_clean (w.clearLog.trackerErase p) p r (ne_zero_of_verdict hverdict)
      hverdict, if_pos hverdict]
    rfl
  · rw [@releaseTracked_corrupted (w.clearLog.trackerErase p) p r hverdict, if_neg hverdict]
    rfl

/-- Outside the initialised state the system gets an address inside the block. -/
theorem realloc_uninitialized (hinit : w.initialized = false)
    (hfind : w.tracker.find p = some r)
    (hplaced : Placed r.rawPtr p r.requestedSize.toNat r.footerSize.toNat r.totalSize.toNat) :
    ¬ ReallocExact w tid p r := by
  have hp := ShardedTracker.ne_zero_of_find hfind
  intro hexact
  have hlog : (w.step (.trackRealloc tid { malloc := 0 } p 0)).log =
      [.systemFree p (w.heap p).isSome] := by
    refine (log_moveLease _ _ _ _ _).trans ?_
    rw [@trackRealloc_of_bypass w.clearLog { malloc := 0 } tid p 0 (Or.inr hinit)]
    unfold rawSystemRealloc
    rw [if_neg hp, if_pos rfl, rawSystemFree_of_ne hp]
    rfl
  have hdecided := hexact { malloc := 0 } 0 fun a ha => by
    rw [hlog, List.mem_singleton] at ha
    rw [ha]
    trivial
  rw [hlog] at hdecided
  by_cases hintact : FooterIntact w.mem p r.requestedSize (laidOutLength w.mem r)
  · have hreturned := (hdecided.1 hintact).returned (Or.inl rfl)
    rw [List.mem_singleton, Action.systemFree.injEq] at hreturned
    have hbelow := hplaced.below
    rw [hreturned.1] at hbelow
    omega
  · have halert := hdecided.2 hintact
    rw [List.mem_singleton] at halert
    cases halert

end Lengths

theorem bodyWrites_keep (w : World) (mem : Memory) (h : InOrder w)
    (hall : HoldsOfAll intactHeader w.tracker w.mem) (hwrites : BodyWrites w mem) :
    HoldsOfAll intactHeader w.tracker mem := by
  intro p r hfind
  obtain ⟨hblock, hlease⟩ := h.tracked p r hfind
  refine (hall p r hfind).congr_self fun i hi => ?_
  by_contra hchanged
  have hin := hblock.placed.header_inSpan hi
  rcases hwrites _ hchanged with ⟨q, l, hl, hq⟩ | ⟨q, r', hr', hq⟩ | houtside
  · obtain ⟨n, hlive, hspan⟩ := h.payload_inSpan hl hq
    have hbase := h.base_eq_of_inSpan hlive hblock.live hspan hin
    have hqp := h.separate q p l _ hl hlease hbase
    rw [hqp, hlease] at hl
    cases hl
    dsimp only at hq
    rw [hqp] at hq
    exact hblock.placed.header_not_payload hi hq
  · obtain ⟨hblock', hlease'⟩ := h.tracked q r' hr'
    obtain ⟨j, hj, hat⟩ : ∃ j < r'.footerSize.toNat,
        r.rawPtr + BitVec.ofNat 64 i = q + r'.requestedSize + BitVec.ofNat 64 j :=
      ⟨_, hq, by rw [BitVec.ofNat_toNat, BitVec.setWidth_eq, add_sub_cancel]⟩
    have hspan := hblock'.placed.footer_inSpan hj
    rw [← hat] at hspan
    have hbase := h.base_eq_of_inSpan hblock'.live hblock.live hspan hin
    have hqp := h.separate q p _ _ hlease' hlease hbase
    subst hqp
    rw [hfind] at hr'
    cases hr'
    have hbelow := hblock.placed.below
    have haddr := hblock.placed.toNat_header hi
    rw [hat, hblock.placed.toNat_footer_add hj] at haddr
    omega
  · exact houtside _ _ hblock.live hin

/-- Other contents of the block leave its header and the two lengths as they are. -/
theorem sameHeader_lengths {w : World} {p : Ptr} {r : AllocationRecord} {mem : Memory}
    (hheader : HeaderIntact w.mem r.rawPtr p r.requestedSize (hasCanaryOf w.mem r.rawPtr))
    (hsame : SameHeader w r mem) :
    HeaderIntact mem r.rawPtr p r.requestedSize (hasCanaryOf mem r.rawPtr) ∧
      checkedLength { w with mem := mem } r = checkedLength w r ∧
      laidOutLength mem r = laidOutLength w.mem r := by
  have hbytes : ∀ i < 64, mem (r.rawPtr + BitVec.ofNat 64 i) =
      w.mem (r.rawPtr + BitVec.ofNat 64 i) := by
    intro i hi
    by_contra hchanged
    apply (hsame _ hchanged).2
    rw [InSpan, add_ofNat_sub_toNat _ (by omega)]
    exact hi
  refine ⟨hheader.congr_self hbytes, ?_, ?_⟩
  · unfold checkedLength
    rw [hasCanaryOf_congr hbytes]
  · unfold laidOutLength
    rw [hasCanaryOf_congr hbytes]

/-- **Reconfiguration does not affect a live block exactly when** the red zone checked at
its release is as long as the one it was laid out with; a reallocation needs the manager to
be initialised besides. Clients that write into payloads only leave every red zone intact. -/
theorem reconfiguration_iff {m : Memory} {cs : List Call} {w : World} {tid : ThreadId} {p : Ptr}
    {r : AllocationRecord} (hrun : Run (managerSystem BodyWrites ReleaseSound) (World.start m) cs w)
    (hdefined : w.fault = false) (hfind : w.tracker.find p = some r)
    (hguard : w.guardActive tid = false) :
    ((∀ mem, SameHeader w r mem → FreeExact { w with mem := mem } tid p r) ↔
      checkedLength w r = laidOutLength w.mem r) ∧
    ((∀ mem, SameHeader w r mem → ReallocExact { w with mem := mem } tid p r) ↔
      checkedLength w r = laidOutLength w.mem r ∧ w.initialized = true) ∧
    ∀ (cs' : List Call) (w' : World),
      Run (managerSystem PayloadWrites ReleaseSound) (World.start m) cs' w' → w'.fault = false →
      ∀ q r', w'.tracker.find q = some r' →
        FooterIntact w'.mem q r'.requestedSize (laidOutLength w'.mem r') := by
  obtain ⟨horder, hall⟩ := (run_contents bodyWrites_keep hrun (contentsOk_start m)).of_defined
    hdefined
  have hheader : HeaderIntact w.mem r.rawPtr p r.requestedSize (hasCanaryOf w.mem r.rawPtr) :=
    hall p r hfind
  refine ⟨⟨lengths_of_decided horder hguard hfind hheader, fun hlength mem hsame => ?_⟩,
    ⟨fun hexact => ?_, fun ⟨hlength, hinit⟩ mem hsame => ?_⟩, ?_⟩
  · obtain ⟨hheader', hchecked, hlaid⟩ := sameHeader_lengths hheader hsame
    exact free_decided (w := { w with mem := mem }) horder hguard hfind hheader'
      (hchecked.trans (hlength.trans hlaid.symm))
  · have hinit : w.initialized = true := by
      rw [← Bool.not_eq_false]
      intro hout
      exact realloc_uninitialized hout hfind (horder.tracked p r hfind).1.placed
        (hexact w.mem fun _ hchanged => absurd rfl hchanged)
    have hzero : ∀ mem, SameHeader w r mem → DecidedByRedZone { w with mem := mem }
        (World.step { w with mem := mem } (.trackFree tid p)).log p r False := by
      intro mem hsame
      have hlog := @realloc_zero_log { w with mem := mem } tid p r hguard hinit hfind
        { malloc := 0 }
      have hdecided := hexact mem hsame { malloc := 0 } 0
      rw [hlog, trackFree_log (w := { w with mem := mem }) hguard hfind] at hdecided
      rw [trackFree_log (w := { w with mem := mem }) hguard hfind]
      have hnext := hdecided fun a ha => by
        split at ha
        · simp only [List.mem_cons, List.not_mem_nil, or_false] at ha
          rcases ha with rfl | rfl | rfl
          · trivial
          · trivial
          · trivial
        · simp only [List.mem_cons, List.not_mem_nil, or_false] at ha
          rcases ha with rfl | rfl
          · trivial
          · trivial
      exact ⟨fun hintact => ⟨(hnext.1 hintact).quiet, False.elim, (hnext.1 hintact).inside⟩,
        hnext.2⟩
    exact ⟨lengths_of_decided horder hguard hfind hheader hzero, hinit⟩
  · obtain ⟨hheader', hchecked, hlaid⟩ := sameHeader_lengths hheader hsame
    exact realloc_decided (w := { w with mem := mem }) horder hguard hinit hfind hheader'
      (hchecked.trans (hlength.trans hlaid.symm))
  · intro cs' w' hrun' hdefined' q r' hfind'
    have hok := run_contents (Φ := intactBlock) payloadWrites_keep hrun' (contentsOk_start m)
    obtain ⟨_, hall'⟩ := hok.of_defined hdefined'
    exact (hall' q r' hfind').2

/-- A block that has lived through a longer footer, a shutdown and the old footer again. -/
theorem reconfiguration_there_and_back :
    ∃ (w : World) (r : AllocationRecord),
      Run (managerSystem BodyWrites ReleaseSound) (World.start fun _ => 0)
        ([.init {}] ++ [allocSmall 0x10000] ++
          [.init { canaryFooterSize := 32 }, .shutdown, .init {}]) w ∧
        w.tracker.find (userAddress 0x10000 16) = some r ∧
        FreeExact w 1 (userAddress 0x10000 16) r ∧ ReallocExact w 1 (userAddress 0x10000 16) r := by
  obtain ⟨r, hhalf⟩ := first_block
  let w₁ := initialized.step (allocSmall 0x10000)
  let w₂ := w₁.step (.init { canaryFooterSize := 32 })
  let w₃ := w₂.step .shutdown
  let w₄ := w₃.step (.init {})
  have hdefined : w₄.fault = false := hhalf.ready.defined
  have hquiet : ∀ {w : World} {c : Call}, w.fault = false → (w.step c).log = [] →
      Disciplined BodyWrites w c → Permitted BodyWrites w c :=
    fun hfault hlog hdisciplined => permitted_of_log hfault hdisciplined hlog
      fun _ ha => absurd ha List.not_mem_nil
  have hfirst := @first_block_run BodyWrites ReleaseSound ⟨trivial, trivial⟩ ⟨trivial, trivial⟩
  have hrest : Run (managerSystem BodyWrites ReleaseSound) w₁
      [.init { canaryFooterSize := 32 }, .shutdown, .init {}] w₄ := by
    have hlonger : Permitted BodyWrites w₁ (.init { canaryFooterSize := 32 }) :=
      hquiet hdefined rfl trivial
    have hdown : Permitted BodyWrites w₂ .shutdown := hquiet hdefined rfl trivial
    have hagain : Permitted BodyWrites w₃ (.init {}) := hquiet hdefined rfl trivial
    exact .cons ⟨hlonger, trivial, trivial⟩ (.cons ⟨hdown, trivial, trivial⟩
      (.cons ⟨hagain, trivial, trivial⟩ (.nil _)))
  have hrun := hfirst.append hrest
  have hfind : w₄.tracker.find (userAddress 0x10000 16) = some r := hhalf.find
  have hlength : checkedLength w₄ r = laidOutLength w₄.mem r := by
    unfold checkedLength laidOutLength
    rw [hhalf.footerSize]
    rfl
  obtain ⟨hfree, hrealloc, _⟩ := @reconfiguration_iff _ _ w₄ 1 _ r hrun hdefined hfind
    hhalf.ready.guard
  exact ⟨w₄, r, hrun, hfind, hfree.mpr hlength _ fun _ hchanged => absurd rfl hchanged,
    hrealloc.mpr ⟨hlength, rfl⟩ _ fun _ hchanged => absurd rfl hchanged⟩

/-- A footer of 16 bytes, checked as one of 32: an alert for a block nobody has touched. -/
theorem grown_footer_reported :
    ∃ (cs : List Call) (w : World) (p : Ptr) (r : AllocationRecord),
      Run (managerSystem PayloadWrites fun _ _ => True) (World.start fun _ => 0) cs w ∧
        w.fault = false ∧ w.guardActive 1 = false ∧ w.tracker.find p = some r ∧
        FooterIntact w.mem p r.requestedSize (laidOutLength w.mem r) ∧
        .alert p .footerCorrupted ∈ (w.step (.trackFree 1 p)).log := by
  obtain ⟨r, hhalf⟩ := first_block
  have hfirst := @first_block_run PayloadWrites (fun _ _ => True) trivial trivial
  have hsecond : Permitted PayloadWrites (initialized.step (allocSmall 0x10000))
      (.init { canaryFooterSize := 32 }) :=
    permitted_of_log hhalf.ready.defined trivial rfl fun a ha => absurd ha List.not_mem_nil
  refine ⟨_, _, userAddress 0x10000 16, r, hfirst.append (.cons ⟨hsecond, trivial⟩ (.nil _)),
    hhalf.ready.defined, hhalf.ready.guard, hhalf.find, ?_, ?_⟩
  · have hsound := @first_block_run PayloadWrites ReleaseSound ⟨trivial, trivial⟩ ⟨trivial, trivial⟩
    have hok := run_contents (Φ := intactBlock) payloadWrites_keep hsound (contentsOk_start _)
    obtain ⟨_, hall⟩ := hok.of_defined hhalf.ready.defined
    exact (hall _ r hhalf.find).2
  · exact List.mem_cons_of_mem _ List.mem_cons_self

end MemSentry
