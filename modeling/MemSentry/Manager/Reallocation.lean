import MemSentry.Manager.OneConfiguration
import MemSentry.Manager.FalseAlarm

/-!
# Moving a block

`reallocate` of a tracked pointer is a look-up, a canary check, a whole allocation, a copy
and a release. `reallocated_cases` says what the allocation leaves, a new block or none, and
`reallocate_cases` what the call then leaves: a block that has been moved, or the old one as
it was.
-/

namespace MemSentry

open ByteMemory MemSentry.Core Function World Transition

/-! ## What is handed to the system -/

def Action.handedBack : Action → Option (Ptr × Bool)
  | .systemFree ptr live => some (ptr, live)
  | .systemRealloc ptr _ _ live => some (ptr, live)
  | _ => none

/-- The pointers that were handed to `free` or `realloc` of the system, in order. -/
def handedBack (log : List Action) : List (Ptr × Bool) := log.filterMap Action.handedBack

theorem handedBack_append (as bs : List Action) :
    handedBack (as ++ bs) = handedBack as ++ handedBack bs := List.filterMap_append

theorem handedBack_eq_nil {as : List Action} (h : ∀ a ∈ as, a.handedBack = none) :
    handedBack as = [] := List.filterMap_eq_nil_iff.mpr h

namespace World

variable {w w' : World} {o : Oracle} {tid : ThreadId} {size alignment tag n : Word} {p : Ptr}
  {r : AllocationRecord}

theorem handedBack_of_logsRequests (h : LogsRequests w w') :
    handedBack w'.log = handedBack w.log := by
  obtain ⟨as, hlog, has⟩ := h
  have hnil : handedBack as = [] := by
    apply handedBack_eq_nil
    intro a ha
    rcases has a ha with ⟨k, q, rfl⟩ | ⟨k, l, rfl⟩
    · rfl
    · rfl
  rw [hlog, handedBack_append, hnil, List.append_nil]

/-- The canary check of `reallocate` hands nothing to the system. -/
theorem checkOldBlock_handedBack (w : World) (p : Ptr) (r : AllocationRecord) :
    ∃ as, w.checkOldBlock p r = { w with log := w.log ++ as } ∧ handedBack as = [] := by
  unfold checkOldBlock
  split
  · dsimp only
    split
    · exact ⟨[.inspect (verifyCanary w.mem r.rawPtr w.config.canaryFooterSize).2,
        .alert p (verifyCanary w.mem r.rawPtr w.config.canaryFooterSize).1],
        by simp [alert, emit], rfl⟩
    · exact ⟨[.inspect (verifyCanary w.mem r.rawPtr w.config.canaryFooterSize).2], rfl, rfl⟩
  · exact ⟨[], by rw [List.append_nil], rfl⟩

/-! ## The statistics -/

/-- The counters and the histogram stay as they are. -/
def SameStats (w w' : World) : Prop := w'.stats = w.stats ∧ w'.freeHist = w.freeHist

theorem SameStats.of_system {w w' : World} (h : SystemOnly w w') : SameStats w w' :=
  ⟨h.stats, h.freeHist⟩

theorem allocate_stats_of_not_tracks (h : ¬ w.Tracks o tid size) :
    SameStats w (w.allocate o tid size alignment tag).1 := by
  unfold allocate
  split
  · exact .of_system rawSystemAlloc_system
  · rename_i hopen
    split
    · rename_i hgate
      rw [not_or, Bool.not_eq_true, not_not] at hopen
      exact absurd ⟨hopen.1, hopen.2, hgate⟩ h
    · have h := @rawSystemAlloc_system (w.passGate o tid size) o size
      exact ⟨h.stats, h.freeHist⟩

theorem allocate_stats_of_failed (hwhy : o.malloc = 0 ∨ w.Tracks o tid size ∧
      calculateTotalSize size (effectiveAlignment alignment) w.config.footerSize = 0) :
    SameStats w (w.allocate o tid size alignment tag).1 := by
  by_cases htracks : w.Tracks o tid size
  · rw [allocate_of_tracks htracks]
    by_cases h0 : calculateTotalSize size (effectiveAlignment alignment)
        (w.passGate o tid size).config.footerSize = 0
    · rw [allocateTracked_of_zero h0]
      exact ⟨rfl, rfl⟩
    · rw [allocateTracked_of_null h0 (hwhy.resolve_right fun h => h0 h.2)]
      exact ⟨rfl, rfl⟩
  · exact allocate_stats_of_not_tracks htracks

theorem allocate_of_fit (htracks : w.Tracks o tid size) (hraw : o.malloc ≠ 0)
    (hfit : SizesFit size (effectiveAlignment alignment) w.config.footerSize) :
    (w.allocate o tid size alignment tag).1.stats = w.stats.updateOnAlloc size ∧
      (w.allocate o tid size alignment tag).1.tracker =
        w.tracker.insert (userAddress o.malloc (effectiveAlignment alignment))
          (w.recordOf o tid w.allocCounter size alignment tag
            (userAddress o.malloc (effectiveAlignment alignment))) := by
  have hi := (@allocate_installed w o tid size alignment tag htracks hraw hfit).2
  refine ⟨?_, hi.pointer ▸ hi.tracker⟩
  rw [allocate_of_tracks htracks, @allocateTracked_of_fit (w.passGate o tid size) o tid size alignment
    tag w.allocCounter (ne_zero_of_sizesFit hfit) hraw hfit]
  unfold installBlock
  dsimp only
  exact checkLimit_system.stats

/-- Where the sum of the parts cannot wrap around, the behaviour stays defined. -/
theorem allocate_fault (h : calculateTotalSize size (effectiveAlignment alignment)
      w.config.footerSize ≠ 0 → SizesFit size (effectiveAlignment alignment) w.config.footerSize) :
    (w.allocate o tid size alignment tag).1.fault = w.fault := by
  by_cases htracks : w.Tracks o tid size
  · rw [allocate_of_tracks htracks]
    by_cases h0 : calculateTotalSize size (effectiveAlignment alignment)
        (w.passGate o tid size).config.footerSize = 0
    · rw [allocateTracked_of_zero h0]
      rfl
    by_cases hraw : o.malloc = 0
    · rw [allocateTracked_of_null h0 hraw]
      rfl
    obtain ⟨w', heq, _, _, hfault, _⟩ :=
      installBlock_spec ((w.passGate o tid size).withRawBlock o (calculateTotalSize size
        (effectiveAlignment alignment) (w.passGate o tid size).config.footerSize)) o tid
        w.allocCounter size alignment tag hraw
    rw [@allocateTracked_of_fit (w.passGate o tid size) o tid size alignment tag w.allocCounter h0
      hraw (h h0), heq, hfault]
    rfl
  · obtain ⟨w₁, _, _, _, hfault, heq⟩ := @allocate_of_not_tracks w o tid size alignment tag htracks
    rw [heq, ← hfault]
    by_cases hraw : o.malloc = 0
    · rw [rawSystemAlloc_of_null hraw]
      rfl
    · rw [rawSystemAlloc_of_ne hraw]
      rfl

/-! ## The allocation inside -/

theorem reallocated_eq (w : World) (o : Oracle) (tid : ThreadId) (p : Ptr) (r : AllocationRecord)
    (n : Word) :
    ∃ as, handedBack as = [] ∧ w.reallocated o tid p r n =
      World.allocate { w with calls := .find p :: w.calls, log := w.log ++ as } o tid n
        r.alignment r.tag := by
  obtain ⟨as, hcheck, has⟩ := checkOldBlock_handedBack { w with calls := .find p :: w.calls } p r
  refine ⟨as, has, ?_⟩
  unfold reallocated
  rw [hcheck]

/-- A pointer that is tracked goes on with the tag and the alignment of the old record. -/
structure Inherits (r : AllocationRecord) (n : Word) (r' : AllocationRecord) : Prop where
  requestedSize : r'.requestedSize = n
  tag : r'.tag = r.tag
  alignment : r'.alignment = r.alignment

/-- The new block is there, tracked or not, and nothing else has changed. -/
structure NewBlock (w : World) (o : Oracle) (r : AllocationRecord) (n : Word) (w' : World)
    (q : Ptr) : Prop where
  unused : w.heap o.malloc = none
  heap : ∃ k, w'.heap = update w.heap o.malloc (some k)
  mem : ∀ b k a, w.heap b = some k → InSpan b k a → w'.mem a = w.mem a
  handedBack : handedBack w'.log = handedBack w.log
  record : w'.tracker = w.tracker ∧ w'.stats = w.stats ∨
    ∃ r', Inherits r n r' ∧ w'.tracker = w.tracker.insert q r' ∧
      w'.stats = w.stats.updateOnAlloc n

/-- Nothing that matters to a client has changed. -/
structure Kept (w w' : World) : Prop where
  heap : w'.heap = w.heap
  tracker : w'.tracker = w.tracker
  mem : w'.mem = w.mem
  stats : SameStats w w'
  handedBack : handedBack w'.log = handedBack w.log

/-- An allocation under the configuration that the record was made under. -/
theorem allocate_cases (hdefined : w.fault = false) (hheap : SoundHeap w.heap)
    (hlaid : LaidOutUnder w.config r)
    (hfresh : ∀ a ∈ (w.allocate o tid n r.alignment r.tag).1.log, a.Fresh w.heap) :
    (w.allocate o tid n r.alignment r.tag).1.fault = w.fault ∧
      if (w.allocate o tid n r.alignment r.tag).2 = 0 then
        (o.malloc = 0 ∨ calculateTotalSize n r.alignment w.config.footerSize = 0) ∧
          Kept w (w.allocate o tid n r.alignment r.tag).1
      else NewBlock w o r n (w.allocate o tid n r.alignment r.tag).1
        (w.allocate o tid n r.alignment r.tag).2 := by
  have hwrites := @allocate_writes w o tid n r.alignment r.tag (fun _ => none)
    (fun b k hb => (hheap.space b k hb).2.2) hfresh
  have hkeep := @allocate_fault w o tid n r.alignment r.tag hlaid.sizesFit
  have hmem : ∀ b k a, w.heap b = some k → InSpan b k a →
      (w.allocate o tid n r.alignment r.tag).1.mem a = w.mem a := by
    intro b k a hb ha
    by_contra hchanged
    rcases hwrites a hchanged with ⟨q, l, hl, _⟩ | hout
    · cases hl
    · exact hout b k hb ha
  have hhanded := handedBack_of_logsRequests (@allocate_log w o tid n r.alignment r.tag)
  cases (allocate_effect w o tid n r.alignment r.tag).2 with
  | failed hp hwhy hblocks hfault hlog =>
    refine ⟨hfault, ?_⟩
    rw [if_pos hp]
    refine ⟨hwhy.imp_right fun h => ?_, hblocks.heap, hblocks.tracker, hblocks.mem,
      allocate_stats_of_failed hwhy, hhanded⟩
    rw [← hlaid.alignment]
    exact h.2
  | faulted hp hfit hfault htracker hmem hcalls hlog =>
    rw [hkeep, hdefined] at hfault
    cases hfault
  | raw hp hne htracks hheap' htracker hmem' hcalls hlog hfault =>
    have hf : Fresh w.heap o.malloc n := hfresh (.systemAlloc n o.malloc)
      (by rw [hlog]; exact List.mem_append_right _ List.mem_cons_self) (hp ▸ hne)
    refine ⟨hfault, ?_⟩
    rw [if_neg hne]
    exact ⟨hf.not_live hheap, ⟨_, hheap'⟩, hmem, hhanded,
      Or.inl ⟨htracker, (allocate_stats_of_not_tracks htracks).1⟩⟩
  | tracked allocId tag' htracks hraw hfit hp hheap' htracker hcalls hmem' hlog hfault =>
    obtain ⟨rest, hlog', _⟩ := hlog
    have hf : Fresh w.heap o.malloc (calculateTotalSize n (effectiveAlignment r.alignment)
        w.config.footerSize) := hfresh (.systemAlloc _ o.malloc)
      (by rw [hlog']; exact List.mem_append_right _ List.mem_cons_self) hraw
    have hplaced := placed_userAddress hraw hfit
      (Nat.le_trans (Nat.add_le_add_left (le_extent _) _) hf.1)
    refine ⟨hfault, ?_⟩
    obtain ⟨hstats, hinsert⟩ := @allocate_of_fit w o tid n r.alignment r.tag htracks hraw hfit
    rw [if_neg (hp ▸ hplaced.user_ne_zero)]
    rw [← hp] at hinsert
    exact ⟨hf.not_live hheap, ⟨_, hheap'⟩, hmem, hhanded,
      Or.inr ⟨_, ⟨rfl, if_pos hlaid.tag, hlaid.alignment⟩, hinsert, hstats⟩⟩

theorem reallocated_cases (hdefined : w.fault = false) (hheap : SoundHeap w.heap)
    (hlaid : LaidOutUnder w.config r)
    (hfresh : ∀ a ∈ (w.reallocated o tid p r n).1.log, a.Fresh w.heap) :
    (w.reallocated o tid p r n).1.fault = w.fault ∧
      if (w.reallocated o tid p r n).2 = 0 then
        (o.malloc = 0 ∨ calculateTotalSize n r.alignment w.config.footerSize = 0) ∧
          Kept w (w.reallocated o tid p r n).1
      else NewBlock w o r n (w.reallocated o tid p r n).1 (w.reallocated o tid p r n).2 := by
  obtain ⟨as, has, heq⟩ := reallocated_eq w o tid p r n
  have hlog : handedBack (w.log ++ as) = handedBack w.log := by
    rw [handedBack_append, has, List.append_nil]
  rw [heq] at hfresh ⊢
  obtain ⟨hfault, hcases⟩ := allocate_cases (w := { w with
    calls := .find p :: w.calls, log := w.log ++ as }) hdefined hheap hlaid hfresh
  refine ⟨hfault, ?_⟩
  split at hcases
  · rename_i hnull
    obtain ⟨hwhy, hkept⟩ := hcases
    rw [if_pos hnull]
    exact ⟨hwhy, hkept.heap, hkept.tracker, hkept.mem, hkept.stats, hkept.handedBack.trans hlog⟩
  · rename_i hnew
    rw [if_neg hnew]
    exact ⟨hcases.unused, hcases.heap, hcases.mem, hcases.handedBack.trans hlog, hcases.record⟩

end World

/-! ## The whole call -/

/-- The header and the red zone of the block are as they were laid out. -/
structure Uncorrupted (w : World) (p : Ptr) (r : AllocationRecord) : Prop where
  header : HeaderIntact w.mem r.rawPtr p r.requestedSize (hasCanaryOf w.mem r.rawPtr)
  footer : FooterIntact w.mem p r.requestedSize (checkedLength w r)

/-- The contents of the block at `p` have moved to `q`, and its block has been given
back. -/
structure Moved (w : World) (p : Ptr) (r : AllocationRecord) (n : Word) (w' : World) (q : Ptr) :
    Prop where
  bytes : readBytes w'.mem q (min r.requestedSize.toNat n.toNat) =
    readBytes w.mem p (min r.requestedSize.toNat n.toNat)
  gone : w'.tracker.find p = none
  released : handedBack w'.log = [(r.rawPtr, true)] ∧ w'.heap r.rawPtr = none
  tracked : ∀ r', w'.tracker.find q = some r' → Inherits r n r' ∧
    w'.stats.currentAllocatedBytes = w.stats.currentAllocatedBytes + (n - r.requestedSize)
  untracked : w'.tracker.find q = none →
    w'.stats.currentAllocatedBytes = w.stats.currentAllocatedBytes - r.requestedSize
  unused : w.tracker.find q = none
  others : ∀ x, x ≠ p → x ≠ q → w'.tracker.find x = w.tracker.find x
  blocks : ∀ b k, w.heap b = some k → b ≠ r.rawPtr →
    w'.heap b = some k ∧ ∀ a, InSpan b k a → w'.mem a = w.mem a

section Reallocate

variable {w : World} {o : Oracle} {tid : ThreadId} {n : Word} {p : Ptr} {r : AllocationRecord}

theorem current_updateOnFree (s : MemoryStats) (n : Word) :
    (s.updateOnFree n).currentAllocatedBytes = s.currentAllocatedBytes - n := rfl

theorem current_updateOnAlloc (s : MemoryStats) (n : Word) :
    (s.updateOnAlloc n).currentAllocatedBytes = s.currentAllocatedBytes + n := by
  unfold MemoryStats.updateOnAlloc
  dsimp only
  split
  · rfl
  · rfl

/-- The number of bytes copied. -/
theorem toNat_copyBytes (r : AllocationRecord) (n : Word) :
    (copyBytes r n).toNat = min r.requestedSize.toNat n.toNat := by
  unfold copyBytes
  split
  · rename_i h
    rw [BitVec.lt_def] at h
    omega
  · rename_i h
    rw [BitVec.lt_def] at h
    omega

/-- The block has been given back and nothing outside it has been written. -/
structure Released (w : World) (p : Ptr) (r : AllocationRecord) (w' : World) : Prop where
  heap : w'.heap = update w.heap r.rawPtr none
  tracker : w'.tracker = w.tracker.afterErase p
  stats : w'.stats = w.stats.updateOnFree r.requestedSize
  mem : ∀ a, ¬ InSpan r.rawPtr r.totalSize.toNat a → w'.mem a = w.mem a
  handedBack : handedBack w'.log = handedBack w.log ++ [(r.rawPtr, true)]
  fault : w'.fault = w.fault

theorem released_of_uncorrupted (hguard : w.guardActive tid = false)
    (hfind : w.tracker.find p = some r) (hblock : TrackedBlock w.heap p r)
    (hclean : Uncorrupted w p r) (hsize : r.footerSize = w.config.footerSize) :
    Released w p r (w.deallocate tid p) := by
  have hraw := hblock.placed.raw_ne_zero
  have hverdict : (verifyCanary w.mem r.rawPtr w.config.footerSize).1 = .none :=
    (verifyCanary_verdict hclean.header hraw).trans (if_pos hclean.footer)
  rw [deallocate_of_find hguard hfind,
    @releaseTracked_clean (w.trackerErase p) p r hraw hverdict]
  have hlive : ((w.trackerErase p).heap r.rawPtr).isSome = true := by
    rw [show (w.trackerErase p).heap = w.heap from rfl, hblock.live]
    rfl
  refine ⟨rfl, rfl, rfl, fun a ha => ?_, ?_, ?_⟩
  · apply poisonBlock_frame hclean.header hblock.placed ?_ ha
    rw [hsize]
    exact canaryLength_le _ _
  · rw [handedBack_append, hlive]
    rfl
  · rw [hlive]
    exact Bool.or_false _

/-- The copy leaves the old block uncorrupted. -/
theorem uncorrupted_recopied {ls : Ptr → Option Lease} {w₂ : World} {q : Ptr} (h : w.OwnedBy ls)
    (hfind : w.tracker.find p = some r) (hsize : r.footerSize = w.config.footerSize)
    (hclean : Uncorrupted w p r) (hspec : Recopied w ls o p r n w₂ q) : Uncorrupted w₂ p r := by
  have hplaced := (h.tracked p r hfind).1.placed
  have hchecked := (checkedLength_recopied h hfind hspec).1
  refine ⟨hclean.header.congr_self (header_bytes_congr hplaced hspec.bytes), ?_⟩
  rw [hchecked]
  refine hclean.footer.congr fun i hi => footer_bytes_congr hplaced hspec.bytes i ?_
  rw [hsize]
  exact Nat.lt_of_lt_of_le hi (canaryLength_le _ _)

/-- The copied bytes arrive in the new block. -/
theorem bytes_recopied {ls : Ptr → Option Lease} (h : w.OwnedBy ls)
    (hfind : w.tracker.find p = some r)
    (hnew : NewBlock w o r n (w.reallocated o tid p r n).1 (w.reallocated o tid p r n).2) :
    readBytes (w.recopied o tid p r n).mem (w.reallocated o tid p r n).2 (copyBytes r n).toNat =
      readBytes w.mem p (copyBytes r n).toNat := by
  have hblock := (h.tracked p r hfind).1
  have hcopied := @readBytes_writeBytes_self 64 (w.reallocated o tid p r n).1.mem
    (w.reallocated o tid p r n).2
    (readBytes (w.reallocated o tid p r n).1.mem p (copyBytes r n).toNat)
    (by rw [length_readBytes]; exact Nat.le_of_lt (copyBytes r n).isLt)
  rw [length_readBytes] at hcopied
  refine hcopied.trans (readBytes_congr fun i hi => ?_)
  apply hnew.mem _ _ _ hblock.live
  apply hblock.placed.payload_inSpan
  have hk := toNat_copyBytes r n
  have hlt := (copyBytes r n).isLt
  rw [InSpan, add_ofNat_sub_toNat _ (by omega)]
  omega

/-- The copy writes into the payload of the new pointer only. -/
theorem mem_recopied {a : Ptr} (ha : ¬ InSpan (w.reallocated o tid p r n).2 n.toNat a) :
    (w.recopied o tid p r n).mem a = (w.reallocated o tid p r n).1.mem a := by
  have hk := toNat_copyBytes r n
  apply writeBytes_of_not_inSpan
  rw [length_readBytes]
  intro hin
  exact ha (Nat.lt_of_lt_of_le hin (by omega))

/-! ### The new block -/

theorem World.NewBlock.tracked {w' : World} {q : Ptr} (hnew : NewBlock w o r n w' q) (hq : q ≠ 0)
    (hunused : w.tracker.find q = none) {r' : AllocationRecord}
    (hr' : w'.tracker.find q = some r') : Inherits r n r' ∧
      w'.stats.currentAllocatedBytes = w.stats.currentAllocatedBytes + n := by
  rcases hnew.record with ⟨htracker, _⟩ | ⟨r'', hinherits, htracker, hstats⟩
  · rw [htracker, hunused] at hr'
    cases hr'
  · rw [htracker, ShardedTracker.find_insert_self hq] at hr'
    cases hr'
    exact ⟨hinherits, by rw [hstats, current_updateOnAlloc]⟩

theorem World.NewBlock.untracked {w' : World} {q : Ptr} (hnew : NewBlock w o r n w' q) (hq : q ≠ 0)
    (hfind : w'.tracker.find q = none) : w'.stats = w.stats := by
  rcases hnew.record with ⟨_, hstats⟩ | ⟨r'', _, htracker, _⟩
  · exact hstats
  · rw [htracker, ShardedTracker.find_insert_self hq] at hfind
    cases hfind

theorem World.NewBlock.others {w' : World} {q x : Ptr} (hnew : NewBlock w o r n w' q) (hx : x ≠ q) :
    w'.tracker.find x = w.tracker.find x := by
  rcases hnew.record with ⟨htracker, _⟩ | ⟨r'', _, htracker, _⟩
  · rw [htracker]
  · rw [htracker, ShardedTracker.find_insert_of_ne hx]

theorem heap_recopied_of_live
    (hnew : NewBlock w o r n (w.reallocated o tid p r n).1 (w.reallocated o tid p r n).2)
    {b : Ptr} {j : Nat} (hb : w.heap b = some j) : (w.recopied o tid p r n).heap b = some j := by
  obtain ⟨k, hheap⟩ := hnew.heap
  have hne : b ≠ o.malloc := by
    rintro rfl
    rw [hnew.unused] at hb
    cases hb
  change (w.reallocated o tid p r n).1.heap b = some j
  rw [hheap, update_of_ne hne]
  exact hb

/-- The payload of the new pointer lies in no block that was live before. -/
theorem not_payload_of_live {ls : Ptr → Option Lease}
    (hnew : NewBlock w o r n (w.reallocated o tid p r n).1 (w.reallocated o tid p r n).2)
    (hspec : Recopied w ls o p r n (w.recopied o tid p r n) (w.reallocated o tid p r n).2)
    {b a : Ptr} {j : Nat} (hb : w.heap b = some j) (ha : InSpan b j a) :
    ¬ InSpan (w.reallocated o tid p r n).2 n.toNat a := by
  intro hin
  obtain ⟨i, hi, hspan⟩ := Owned.payload_inSpan hspec.owned (update_self _ _ _) hin
  have hlive := heap_recopied_of_live hnew hb
  have hbase := Owned.base_eq_of_inSpan hspec.owned hlive hi ha hspan
  rw [hbase, hnew.unused] at hb
  cases hb

/-- The payload is copied, and the old block given back. -/
theorem moved_of_released {ls : Ptr → Option Lease} {w' : World} (h : w.OwnedBy ls)
    (hfind : w.tracker.find p = some r) (hlog : w.log = [])
    (hnone : ls (w.reallocated o tid p r n).2 = none)
    (hnew : NewBlock w o r n (w.reallocated o tid p r n).1 (w.reallocated o tid p r n).2)
    (hspec : Recopied w ls o p r n (w.recopied o tid p r n) (w.reallocated o tid p r n).2)
    (hreleased : Released (w.recopied o tid p r n) p r w') :
    Moved w p r n w' (w.reallocated o tid p r n).2 := by
  have hblock := (h.tracked p r hfind).1
  have hunused := h.find_none_of_not_leased hnone
  have hqne : (w.reallocated o tid p r n).2 ≠ 0 := hspec.owned.held_ne_zero (update_self _ _ _)
  have hfound : ∀ x, w'.tracker.find x =
      if x = p then none else (w.reallocated o tid p r n).1.tracker.find x := by
    intro x
    rw [hreleased.tracker, ShardedTracker.find_afterErase]
    rfl
  have hq : w'.tracker.find (w.reallocated o tid p r n).2 =
      (w.reallocated o tid p r n).1.tracker.find (w.reallocated o tid p r n).2 := by
    rw [hfound, if_neg hspec.ne.symm]
  have hcurrent : w'.stats.currentAllocatedBytes =
      (w.reallocated o tid p r n).1.stats.currentAllocatedBytes - r.requestedSize := by
    rw [hreleased.stats, current_updateOnFree]
    rfl
  constructor
  case bytes =>
    rw [← toNat_copyBytes, ← bytes_recopied h hfind hnew]
    apply readBytes_congr
    intro i hi
    apply hreleased.mem
    intro hin
    refine not_payload_of_live hnew hspec hblock.live hin ?_
    have hk := toNat_copyBytes r n
    have hlt := (copyBytes r n).isLt
    rw [InSpan, add_ofNat_sub_toNat _ (by omega)]
    omega
  case gone => rw [hfound, if_pos rfl]
  case released =>
    constructor
    · rw [hreleased.handedBack]
      change handedBack (w.reallocated o tid p r n).1.log ++ _ = _
      rw [hnew.handedBack, hlog]
      rfl
    · rw [hreleased.heap, update_self]
  case tracked =>
    intro r' hr'
    rw [hq] at hr'
    obtain ⟨hinherits, hstats⟩ := hnew.tracked hqne hunused hr'
    refine ⟨hinherits, ?_⟩
    rw [hcurrent, hstats]
    bv_omega
  case untracked =>
    intro hr'
    rw [hq] at hr'
    rw [hcurrent, hnew.untracked hqne hr']
  case unused => exact hunused
  case others =>
    intro x hxp hxq
    rw [hfound, if_neg hxp, hnew.others hxq]
  case blocks =>
    intro b j hb hbr
    constructor
    · rw [hreleased.heap, update_of_ne hbr]
      exact heap_recopied_of_live hnew hb
    · intro a ha
      have hout : ¬ InSpan r.rawPtr r.totalSize.toNat a := fun hin =>
        hbr (h.base_eq_of_inSpan hb hblock.live ha hin)
      rw [hreleased.mem a hout, mem_recopied (not_payload_of_live hnew hspec hb ha)]
      exact hnew.mem b j a hb ha

/-- One call from a state in order. -/
theorem reallocate_cases {ls : Ptr → Option Lease} (h : w.OwnedBy ls) (hdefined : w.fault = false)
    (hlog : w.log = []) (hn : n ≠ 0) (hguard : w.guardActive tid = false)
    (hinit : w.initialized = true) (hfind : w.tracker.find p = some r)
    (hlaid : LaidOutUnder w.config r) (hclean : Uncorrupted w p r)
    (hfresh : ∀ a ∈ (w.reallocate o tid p n).1.log, a.Fresh w.heap) :
    (w.reallocate o tid p n).1.fault = false ∧
      ((w.reallocate o tid p n).2 ≠ 0 →
        Moved w p r n (w.reallocate o tid p n).1 (w.reallocate o tid p n).2) ∧
      ((w.reallocate o tid p n).2 = 0 →
        (o.malloc = 0 ∨ calculateTotalSize n r.alignment w.config.footerSize = 0) ∧
          Kept w (w.reallocate o tid p n).1) := by
  have hinner : ∀ a ∈ (w.reallocated o tid p r n).1.log, a.Fresh w.heap :=
    fun a ha => hfresh a (reallocated_log hn hguard hinit hfind a ha)
  obtain ⟨hfault, hcases⟩ := reallocated_cases hdefined h.toSoundHeap hlaid hinner
  rw [reallocate_of_find hn hguard hinit hfind]
  by_cases hq : (w.reallocated o tid p r n).2 = 0
  · rw [if_pos hq] at hcases ⊢
    exact ⟨hfault.trans hdefined, fun hne => absurd rfl hne, fun _ => hcases⟩
  · rw [if_neg hq] at hcases ⊢
    have hspec := recopied_spec h hfind hinner hq
    have hreleased := @released_of_uncorrupted (w.recopied o tid p r n) tid p r
      ((hspec.control.guardActive tid).trans hguard) hspec.find
      (hspec.owned.tracked p r hspec.find).1
      (uncorrupted_recopied h hfind hlaid.footerSize hclean hspec)
      (by rw [hspec.control.config]; exact hlaid.footerSize)
    refine ⟨hreleased.fault.trans (hspec.fault.trans hdefined), fun _ => ?_, fun h0 => absurd h0 hq⟩
    exact moved_of_released h hfind hlog ((reallocated_owned h hinner).got hq).2.1 hcases hspec
      hreleased

end Reallocate

/-! ## In a run -/

/-- **Reallocation of an uncorrupted pointer**, after any run under one configuration whose
releases have taken no stray bytes for a header: a pointer returned has the contents, and a
call that returns null has changed nothing. -/
theorem reallocate_moves_or_keeps {mayWrite : World → Memory → Prop} {c : Config} {mem : Memory}
    {cs : List Call} {w : World} {tid : ThreadId} {o : Oracle} {p : Ptr} {r : AllocationRecord}
    {n : Word}
    (hrun : Run (managerSystem mayWrite fun w call => HeadersSound w call ∧ Initializes c call)
      (World.start mem) cs w)
    (hinit : w.initialized = true) (hguard : w.guardActive tid = false)
    (hfind : w.tracker.find p = some r) (hclean : Uncorrupted w p r) (hn : n ≠ 0)
    (hperm : Permitted mayWrite w (.trackRealloc tid o p n)) :
    (w.clearLog.reallocate o tid p n).1.fault = false ∧
      ((w.clearLog.reallocate o tid p n).2 ≠ 0 →
        Moved w p r n (w.clearLog.reallocate o tid p n).1 (w.clearLog.reallocate o tid p n).2) ∧
      ((w.clearLog.reallocate o tid p n).2 = 0 →
        (o.malloc = 0 ∨ calculateTotalSize n r.alignment c.footerSize = 0) ∧
          Kept w.clearLog (w.clearLog.reallocate o tid p n).1) := by
  have hdefined := hperm.defined
  have horder : InOrder w := by
    rcases run_inOrder (fun _ _ h => h.1) hrun (Or.inr owned_start) with hfault | horder
    · rw [hdefined] at hfault
      cases hfault
    · exact horder
  have hunder := run_underConfig (fun _ _ h => h.2) hrun (underConfig_start c mem)
  obtain ⟨hconfig, hlaid⟩ := hunder.records p r hfind
  have hfresh := hperm.fresh
  unfold World.step at hfresh
  dsimp only at hfresh
  rw [log_moveLease, @trackRealloc_of_open w.clearLog o tid p n hguard hinit] at hfresh
  rw [← hconfig] at hlaid ⊢
  obtain ⟨hfault, hmoved, hkept⟩ :=
    reallocate_cases (w := w.clearLog) horder hdefined rfl hn hguard hinit hfind hlaid
      ⟨hclean.header, hclean.footer⟩ hfresh
  refine ⟨hfault, fun hq => ?_, hkept⟩
  obtain ⟨hbytes, hgone, hreleased, htracked, huntracked, hunused, hothers, hblocks⟩ := hmoved hq
  exact ⟨hbytes, hgone, hreleased, htracked, huntracked, hunused, hothers, hblocks⟩

/-- The action asks the system for nothing but this block. -/
def Action.Asks (base : Ptr) (size : Word) : Action → Prop
  | .systemAlloc size' answer => answer = base ∧ size' = size
  | .systemRealloc _ _ _ _ => False
  | _ => True

instance (base : Ptr) (size : Word) (a : Action) : Decidable (a.Asks base size) := by
  cases a <;> unfold Action.Asks <;> infer_instance

theorem fresh_of_asks {heap : Ptr → Option Nat} {base : Ptr} {size : Word} {log : List Action}
    (hfresh : Fresh heap base size) (hasks : ∀ a ∈ log, a.Asks base size) :
    ∀ a ∈ log, a.Fresh heap := by
  intro a ha
  have hask := hasks a ha
  cases a with
  | systemAlloc size' answer =>
    obtain ⟨rfl, rfl⟩ := hask
    exact fun _ => hfresh
  | systemRealloc ptr size' answer live => exact hask.elim
  | systemFree ptr live => trivial
  | alert ptr kind => trivial
  | inspect accesses => trivial
  | limitExceeded current limit => trivial

/-- A block of 16 bytes grown to 32. -/
theorem reallocate_moves_small :
    ∃ r, Moved (initialized.step (allocSmall 0x10000)) 0x10050 r 32
      ((initialized.step (allocSmall 0x10000)).clearLog.reallocate { malloc := 0x20000 } 1
        0x10050 32).1
      ((initialized.step (allocSmall 0x10000)).clearLog.reallocate { malloc := 0x20000 } 1
        0x10050 32).2 := by
  obtain ⟨_, hhalf⟩ := first_block
  have hrun := @first_block_run PayloadWrites
    (fun w call => HeadersSound w call ∧ Initializes {} call) ⟨trivial, rfl⟩ ⟨trivial, trivial⟩
  have hfresh : Fresh (initialized.step (allocSmall 0x10000)).heap 0x20000 132 := by
    rw [hhalf.heap]
    exact (fresh_empty (by decide)).update_some (by decide)
  have hclean : Uncorrupted (initialized.step (allocSmall 0x10000)) 0x10050
      (((initialized.step (allocSmall 0x10000)).tracker.find 0x10050).getD {}) :=
    ⟨⟨by decide +kernel, by decide +kernel, by decide +kernel, rfl⟩, by decide +kernel⟩
  exact ⟨_, (reallocate_moves_or_keeps hrun hhalf.ready.initialized hhalf.ready.guard
    (by decide +kernel) hclean (by decide) ⟨hhalf.ready.defined, hhalf.held,
      fresh_of_asks hfresh (by decide +kernel)⟩).2.1 (by decide +kernel)⟩

/-! ## A header in a payload -/

/-- A header that leads 256 bytes up. -/
def forgedHeader : BlockHeader :=
  { initHeader 0x10000 16 16 16 1 0 false 1 with userOffset := 0x100 }

/-- The header at the start of a payload of 256 bytes, the back offset at its end. -/
def forged : Memory :=
  writeBytes (writeBytes (fun _ => 0) 0x10000 forgedHeader.encode) 0x100FC (leBytes 4 0x100)

/-- Two untracked blocks side by side. -/
def sideBySide : World :=
  ((World.start fun _ => 0).step (.trackAlloc 1 { malloc := 0x10000 } 0x100 16 0)).step
    (.trackAlloc 1 { malloc := 0x10100 } 16 16 0)

/-- The client of the first block has written into its payload. -/
def prepared : World := (sideBySide.step (.store forged)).step (.init {})

/-- The second block is released. -/
def misread : World := prepared.step (.trackFree 1 0x10100)

/-- The system hands the first block, given back in its place, out to a tracked allocation. -/
def reused : World := misread.step (.trackAlloc 1 { malloc := 0x10000 } 16 16 0)

/-- The client of the first block, who still holds it, releases it. -/
def stale : World := reused.step (.trackFree 1 0x10000)

/-- The release of the second block gives the first one back. -/
theorem heap_misread : misread.heap = update prepared.heap 0x10000 none := by
  have hheader : getHeaderFromUserPtr prepared.mem 0x10100 = 0x10000 := by decide +kernel
  have hfind : prepared.tracker.find 0x10100 = none := rfl
  have hq : ¬ prepared.tracker.Quarantined 0x10100 := by
    rintro ⟨i, hi⟩
    have hslot : (0 : Ptr) = 0x10100 := hi
    exact absurd hslot (by decide)
  have hfree : misread = (prepared.clearLog.unlease 0x10100).deallocate 1 0x10100 :=
    @trackFree_of_no_guard (prepared.clearLog.unlease 0x10100) 1 0x10100 (by decide) rfl
  have hdeallocate := @deallocate_of_not_found (prepared.clearLog.unlease 0x10100) 1 0x10100
    rfl (by decide) hfind hq
  have hrelease := @releaseUntracked_of_ne
    ((prepared.clearLog.unlease 0x10100).trackerErase 0x10100) 0x10100
    (by
      change getHeaderFromUserPtr prepared.mem 0x10100 ≠ 0
      rw [hheader]
      decide)
  have hheap := congrArg World.heap (hfree.trans (hdeallocate.trans hrelease))
  change misread.heap = update prepared.heap (getHeaderFromUserPtr prepared.mem 0x10100) none
    at hheap
  rw [hheap, hheader]

theorem heap_clearLog (w : World) : w.clearLog.heap = w.heap := rfl

theorem heap_reused : reused.heap = update misread.heap 0x10000 (some 116) := by
  obtain ⟨ls, hls⟩ := lease_eq (misread.clearLog.allocate { malloc := 0x10000 } 1 16 16 0).1
    (misread.clearLog.allocate { malloc := 0x10000 } 1 16 16 0).2 ⟨0x10000, 16⟩
  have hstep : reused.heap =
      (misread.clearLog.allocate { malloc := 0x10000 } 1 16 16 0).1.heap := by
    change ((misread.clearLog.trackAlloc { malloc := 0x10000 } 1 16 16 0).1.lease
      (misread.clearLog.trackAlloc { malloc := 0x10000 } 1 16 16 0).2 ⟨0x10000, 16⟩).heap = _
    rw [trackAlloc_eq, hls]
  rw [hstep]
  have hi := (@allocate_installed misread.clearLog { malloc := 0x10000 } 1 16 16 0
    (by decide +kernel) (by decide) (by decide +kernel)).2
  have htotal : extent (calculateTotalSize 16 (effectiveAlignment 16)
      misread.clearLog.config.footerSize) = 116 := by decide +kernel
  rw [hi.heap, htotal, heap_clearLog]

theorem heap_unlease (w : World) (p : Ptr) : (w.clearLog.unlease p).heap = w.heap := rfl

theorem heap_stale : stale.heap = update reused.heap 0x10000 none := by
  have hguard : (reused.clearLog.unlease 0x10000).guardActive 1 = false := by decide +kernel
  have hfind : (reused.clearLog.unlease 0x10000).tracker.find 0x10000 = none := by decide +kernel
  have hfree : stale = (reused.clearLog.unlease 0x10000).deallocate 1 0x10000 :=
    @trackFree_of_no_guard (reused.clearLog.unlease 0x10000) 1 0x10000 (by decide) hguard
  have hstatus : ((reused.clearLog.unlease 0x10000).tracker.erase 0x10000).1 = .notFound := by
    decide +kernel
  have hheader : getHeaderFromUserPtr (reused.clearLog.unlease 0x10000).mem 0x10000 = 0 := by
    decide +kernel
  rw [hfree]
  cases (deallocate_effect (reused.clearLog.unlease 0x10000) 1 0x10000 hguard (by decide)).2.2 with
  | released r hr hraw hverdict hheap htracker hmem hlog hfault =>
    rw [hfind] at hr
    cases hr
  | leaked r hr hverdict hheap htracker hmem hlog hfault =>
    rw [hfind] at hr
    cases hr
  | alarm hnone hq hheap htracker hmem hlog hfault =>
    rw [ShardedTracker.erase_of_quarantined (by decide) hnone hq] at hstatus
    cases hstatus
  | untracked hnone hq hnull hheap htracker hmem hlog hfault =>
    rw [hheap, heap_unlease]
  | misread hnone hq hne hlog => exact absurd hheader hne

theorem forged_payloadWrites {w : World} (hmem : w.mem = fun _ => 0)
    (hlease : w.leases 0x10000 = some ⟨0x10000, 0x100⟩) : PayloadWrites w forged := by
  intro a ha
  refine Or.inl ⟨0x10000, ⟨0x10000, 0x100⟩, hlease, ?_⟩
  by_contra hout
  apply ha
  rw [inSpan_iff (by decide)] at hout
  rw [hmem]
  have hV : (0x10000 : Ptr).toNat = 0x10000 := rfl
  have hU : (0x100FC : Ptr).toNat = 0x100FC := rfl
  have hsize : (Lease.mk 0x10000 0x100).size.toNat = 0x100 := rfl
  unfold forged
  rw [writeBytes_of_not_inSpan, writeBytes_of_not_inSpan]
  · rw [length_encode, inSpan_iff (by decide)]
    omega
  · rw [length_leBytes, inSpan_iff (by decide)]
    omega

theorem run_one {mayWrite : World → Memory → Prop} {cond : World → Call → Prop} {w : World}
    {call : Call} (hperm : Permitted mayWrite w call) (hcond : cond w call) :
    Run (managerSystem mayWrite cond) w [call] (w.step call) :=
  .cons ⟨hperm, hcond⟩ (.nil _)

theorem stale_run : ∃ cs, Run (managerSystem PayloadWrites fun _ call => Initializes {} call)
    (World.start fun _ => 0) cs stale := by
  have hheap : prepared.heap =
      update (update (fun _ => none) 0x10000 (some 0x100)) 0x10100 (some 16) := rfl
  have hheap₁ : ((World.start fun _ => 0).step
      (.trackAlloc 1 { malloc := 0x10000 } 0x100 16 0)).heap =
      update (fun _ => none) 0x10000 (some 0x100) := rfl
  have hheap₅ : misread.heap = update (fun _ => none) 0x10100 (some 16) := by
    rw [heap_misread, hheap, update_comm (by decide), update_idem]
    exact congrArg (update · _ _) (update_eq_self_iff.mpr rfl)
  have hfirst : Permitted PayloadWrites (World.start fun _ => 0)
      (.trackAlloc 1 { malloc := 0x10000 } 0x100 16 0) :=
    ⟨rfl, trivial, @fresh_of_asks _ 0x10000 0x100 _ (fresh_empty (by decide))
      (by decide +kernel)⟩
  have hsecond : Permitted PayloadWrites ((World.start fun _ => 0).step
      (.trackAlloc 1 { malloc := 0x10000 } 0x100 16 0))
      (.trackAlloc 1 { malloc := 0x10100 } 16 16 0) :=
    ⟨rfl, trivial, @fresh_of_asks _ 0x10100 16 _
      (by rw [hheap₁]; exact (fresh_empty (by decide)).update_some (by decide))
      (by decide +kernel)⟩
  have hstore : Permitted PayloadWrites sideBySide (.store forged) :=
    ⟨rfl, forged_payloadWrites rfl rfl, fun a ha => absurd ha List.not_mem_nil⟩
  have hinit : Permitted PayloadWrites (sideBySide.step (.store forged)) (.init {}) :=
    ⟨rfl, trivial, fun a ha => absurd ha List.not_mem_nil⟩
  have hfree : Permitted PayloadWrites prepared (.trackFree 1 0x10100) :=
    permitted_trackFree rfl (Or.inr ⟨_, rfl⟩)
  have halloc : Permitted PayloadWrites misread (.trackAlloc 1 { malloc := 0x10000 } 16 16 0) := by
    refine ⟨by decide +kernel, trivial, @fresh_of_asks _ 0x10000 116 _ ?_
      (by decide +kernel)⟩
    rw [hheap₅]
    exact (fresh_empty (by decide)).update_some (by decide)
  have hagain : Permitted PayloadWrites reused (.trackFree 1 0x10000) :=
    permitted_trackFree (by decide +kernel) (Or.inr ⟨⟨0x10000, 0x100⟩, by decide +kernel⟩)
  refine ⟨_, (((((run_one hfirst trivial).append (run_one hsecond trivial)).append
    (run_one hstore trivial)).append (run_one hinit rfl)).append (run_one hfree trivial)).append
    ((run_one halloc trivial).append (run_one hagain trivial))⟩

/-- The record of the tracked block. -/
def staleRecord : AllocationRecord := (stale.tracker.find 0x10050).getD {}

theorem stale_uncorrupted : Uncorrupted stale 0x10050 staleRecord := by
  refine ⟨⟨?_, ?_, ?_, rfl⟩, ?_⟩
  · decide +kernel
  · decide +kernel
  · decide +kernel
  · decide +kernel

/-- The block of a tracked pointer has been given back behind its back, and moving the
pointer gives it back once more. -/
theorem reallocate_stale_block :
    ∃ (cs : List Call) (w : World) (o : Oracle) (p : Ptr) (r : AllocationRecord) (n : Word),
      Run (managerSystem PayloadWrites fun _ call => Initializes {} call)
          (World.start fun _ => 0) cs w ∧
        w.initialized = true ∧ w.guardActive 1 = false ∧ w.tracker.find p = some r ∧
        Uncorrupted w p r ∧ n ≠ 0 ∧ Permitted PayloadWrites w (.trackRealloc 1 o p n) ∧
        (w.clearLog.reallocate o 1 p n).2 ≠ 0 ∧
        ¬ Moved w p r n (w.clearLog.reallocate o 1 p n).1 (w.clearLog.reallocate o 1 p n).2 := by
  obtain ⟨cs, hrun⟩ := stale_run
  have hfresh : Fresh stale.heap 0x20000 132 := by
    rw [heap_stale, heap_reused, heap_misread]
    exact ((((((fresh_empty (by decide)).update_some (by decide)).update_some
      (by decide)).update_none).update_some (by decide)).update_none)
  refine ⟨cs, stale, { malloc := 0x20000 }, 0x10050, staleRecord, 32, hrun, by decide +kernel,
    by decide +kernel, by decide +kernel, stale_uncorrupted, by decide,
    ⟨by decide +kernel, Or.inr ⟨⟨0x10000, 16⟩, by decide +kernel⟩,
      fresh_of_asks hfresh (by decide +kernel)⟩, by decide +kernel, fun hmoved => ?_⟩
  have hreleased := hmoved.released.1
  have hdead : handedBack (stale.clearLog.reallocate { malloc := 0x20000 } 1 0x10050 32).1.log =
      [(0x10000, false)] := by decide +kernel
  rw [hdead] at hreleased
  simp at hreleased

end MemSentry
