import MemSentry.Concurrent.Accounting
import MemSentry.Core.SnapshotScan
import MemSentry.Profiler.Snapshot

/-!
# Snapshot diffs agree with the accounting

The lists of a `SnapshotDiff` come from the table and its deltas from the counters. Two
snapshots taken while no operation is in progress see the table with exact counters, and
a record keeps its identifier for good, so the lists account for the deltas
(`compareSnapshots_agrees`).
-/

namespace MemSentry

open MemSentry.Core Profiler Function Transition

/-- `take_snapshot` while nobody else is at work; the label and the time may be anything,
and the table may be iterated in any order. -/
structure World.TakesSnapshot (w : World) (snap : HeapSnapshot) : Prop where
  stats : snap.stats = w.stats
  records : w.tracker.SnapshotAll snap.activeAllocations

theorem exists_takesSnapshot (w : World) : ∃ snap, w.TakesSnapshot snap := by
  obtain ⟨records, hscan⟩ := exists_snapshotAll w.tracker
  exact ⟨⟨"", 0, w.stats, records⟩, rfl, hscan⟩

/-- The difference of two unsigned counters below `2 ^ 63`, read as an `int64_t`. -/
theorem toInt_sub_of_lt {x y : Word} (hx : x.toNat < 2 ^ 63) (hy : y.toNat < 2 ^ 63) :
    (x - y).toInt = x.toNat - y.toNat := by
  rw [BitVec.toInt_sub, BitVec.toInt_eq_toNat_of_lt (by omega),
    BitVec.toInt_eq_toNat_of_lt (by omega), Int.bmod_eq_of_le (by omega) (by omega)]

theorem nodup_of_numbered {a : Accounts} {ids : Multiset Word} (h : Numbered a ids) :
    (a.inserted.map AllocationRecord.allocationId).Nodup := by
  have hdistinct := h.distinct
  rw [drawnIds, Multiset.nodup_add, Multiset.map_coe, Multiset.coe_nodup] at hdistinct
  exact hdistinct.1

namespace Machine

variable {ι : Type} [Fintype ι] [DecidableEq ι] {tid : ι → ThreadId} {s s₁ s₂ : Machine ι}

omit [DecidableEq ι] in
/-- An identifier means one record, whenever it was stored. -/
theorem Settled.record_unique (hs : s.Settled) {r r' : AllocationRecord}
    (hr : r ∈ s.world.accounts.inserted) (hr' : r' ∈ s.world.accounts.inserted)
    (hid : r.allocationId = r'.allocationId) : r = r' :=
  List.inj_on_of_nodup_map (nodup_of_numbered hs.balanced.numbered) hr hr' hid

theorem inserted_of_run {es : List (Event ι)} (hs : s₁.Settled)
    (h : Run (accountable tid) s₁ es s₂) :
    s₂.Settled ∧ ∀ r ∈ s₁.world.accounts.inserted, r ∈ s₂.world.accounts.inserted :=
  h.invariant
    (I := fun s => s.Settled ∧ ∀ r ∈ s₁.world.accounts.inserted, r ∈ s.world.accounts.inserted)
    (fun _ _ hI hg => ⟨hI.1.step hg.1 hg.2, fun r hr => hI.1.inserted_step hg.1 hg.2 (hI.2 r hr)⟩)
    ⟨hs, fun _ hr => hr⟩

omit [DecidableEq ι] in
theorem Settled.current_le_total (hs : s.Settled) :
    s.world.stats.currentAllocatedBytes.toNat ≤ s.world.stats.totalAllocatedBytes.toNat := by
  have hcovered : s.world.stats.currentAllocatedBytes.toNat + _ ≤
    s.world.stats.totalAllocatedBytes.toNat := hs.balanced.agrees.covered
  omega

/-- What a snapshot says of a state in which no operation is in progress. -/
structure Exact (s : Machine ι) (snap : HeapSnapshot) : Prop where
  nodup : snap.activeAllocations.Nodup
  recorded : ∀ r ∈ snap.activeAllocations, r ∈ s.world.accounts.inserted
  active : snap.stats.activeAllocationCount.toNat = snap.activeAllocations.length
  current : snap.stats.currentAllocatedBytes.toNat = requestedBytes snap.activeAllocations
  short : snap.activeAllocations.length ≤ 2 ^ 58

omit [DecidableEq ι] in
theorem Settled.exact (hs : s.Settled) (hq : s.Quiescent) {snap : HeapSnapshot}
    (h : s.world.TakesSnapshot snap) : s.Exact snap := by
  have hall := coe_of_snapshotAll h.records
  have hlisted := hs.balanced.listed
  obtain ⟨hactive, hcurrent⟩ := hs.counters_exact hq
  have hnodup := ShardedTracker.nodup_map_userPtr_records hlisted.wellPlaced hlisted.keyed
  refine ⟨?_, ?_, ?_, ?_, ?_⟩
  · rw [← Multiset.coe_nodup, hall]
    exact Multiset.Nodup.of_map _ hnodup
  · intro r hr
    apply hs.balanced.numbered.recorded
    change r ∈ s.world.tracker.records
    rwa [← hall]
  · rw [h.stats, hactive, ← hall, Multiset.coe_card]
  · rw [h.stats, hcurrent, ShardedTracker.storedBytes, ← hall, Multiset.map_coe,
      Multiset.sum_coe, requestedBytes]
  · have hcard := hs.balanced.housed.card_le
    rw [Multiset.card_add, show s.world.accounts.tracker.records = _ from hall.symm,
      Multiset.coe_card] at hcard
    omega

/-- The diff of two snapshots taken while no operation is in progress: the records of the
later one are split into those that stay and those that are new, the freed ones are those
of the earlier one that are gone, and the deltas are what the lists add up to. -/
theorem compareSnapshots_agrees {c : Config} (hc : c.Plain) {mem : Memory}
    {es es' : List (Event ι)} (h₁ : Run (accountable tid) (start c mem) es s₁)
    (h₂ : Run (accountable tid) s₁ es' s₂) (hq₁ : s₁.Quiescent) (hq₂ : s₂.Quiescent)
    (hbytes₁ : s₁.world.stats.totalAllocatedBytes.toNat < 2 ^ 63)
    (hbytes₂ : s₂.world.stats.totalAllocatedBytes.toNat < 2 ^ 63) {a b : HeapSnapshot}
    (ha : s₁.world.TakesSnapshot a) (hb : s₂.world.TakesSnapshot b) :
    let diff := compareSnapshots a b
    diff.persistentAllocations =
        b.activeAllocations.filter (fun r => r.allocationId ∈ idsOf a.activeAllocations) ∧
      diff.newAllocations =
        b.activeAllocations.filter (fun r => r.allocationId ∉ idsOf a.activeAllocations) ∧
      diff.freedAllocations =
        a.activeAllocations.filter (fun r => r.allocationId ∉ idsOf b.activeAllocations) ∧
      diff.netBytesDelta.toInt =
        (requestedBytes diff.newAllocations : Int) - requestedBytes diff.freedAllocations ∧
      diff.netAllocationsDelta.toInt =
        (diff.newAllocations.length : Int) - diff.freedAllocations.length := by
  intro diff
  have hs₁ := settled_of_run hc h₁
  obtain ⟨hs₂, hgrown⟩ := inserted_of_run hs₁ h₂
  have hexact₁ := hs₁.exact hq₁ ha
  have hexact₂ := hs₂.exact hq₂ hb
  have hconsistent : Consistent a.activeAllocations b.activeAllocations :=
    ⟨hexact₁.nodup, hexact₂.nodup, fun r hr r' hr' =>
      hs₂.record_unique (hgrown r (hexact₁.recorded r hr)) (hexact₂.recorded r' hr')⟩
  obtain ⟨hpersistent, hnew, hfreed⟩ := compareSnapshots_lists a b
  refine ⟨hpersistent, hnew, hfreed, ?_, ?_⟩
  · have hsum := hconsistent.sum_sub_sum fun r => r.requestedSize.toNat
    have hdelta : diff.netBytesDelta.toInt =
        b.stats.currentAllocatedBytes.toNat - a.stats.currentAllocatedBytes.toNat := by
      apply toInt_sub_of_lt
      · rw [hb.stats]
        exact Nat.lt_of_le_of_lt hs₂.current_le_total hbytes₂
      · rw [ha.stats]
        exact Nat.lt_of_le_of_lt hs₁.current_le_total hbytes₁
    rw [hdelta, hexact₁.current, hexact₂.current, show diff.newAllocations = _ from hnew,
      show diff.freedAllocations = _ from hfreed]
    unfold requestedBytes
    omega
  · have hsum := hconsistent.sum_sub_sum fun _ => 1
    have hshort₁ := hexact₁.short
    have hshort₂ := hexact₂.short
    have hdelta : diff.netAllocationsDelta.toInt =
        b.stats.activeAllocationCount.toNat - a.stats.activeAllocationCount.toNat := by
      apply toInt_sub_of_lt
      · rw [hexact₂.active]
        omega
      · rw [hexact₁.active]
        omega
    rw [hdelta, hexact₁.active, hexact₂.active, show diff.newAllocations = _ from hnew,
      show diff.freedAllocations = _ from hfreed]
    simp only [List.map_const', List.sum_replicate, smul_eq_mul, mul_one] at hsum
    omega

/-- One block before the first snapshot and another one before the second. -/
theorem compareSnapshots_agrees_two_blocks :
    ∃ (s₁ s₂ : Machine (Fin 2)) (a b : HeapSnapshot), s₁.world.TakesSnapshot a ∧
      s₂.world.TakesSnapshot b ∧ s₁.world.stats.activeAllocationCount = 1 ∧
      s₂.world.stats.activeAllocationCount = 2 ∧
      (compareSnapshots a b).netAllocationsDelta.toInt =
        ((compareSnapshots a b).newAllocations.length : Int) -
          (compareSnapshots a b).freedAllocations.length := by
  have hfirst : Fresh (fun _ => none) 0x10000 116 := fresh_empty (by decide)
  have hsecond : Fresh (fun _ => none) 0x20000 116 := fresh_empty (by decide)
  have hgranted : Granted ((World.start fun _ => 0).init {}) { malloc := 0x10000 } 16 16 :=
    granted_small ⟨plain_default.exhaustive, rfl, fun _ => rfl⟩ rfl rfl (by decide) (by decide) (by decide)
      hfirst
  obtain ⟨es, w₁, r₁, hsilent₁, ⟨hheap₁, hconfig₁, hstats₁, hcounter₁, hfault₁⟩, _⟩ :=
    @run_trackAlloc (Fin 2) _ (fun i => BitVec.ofNat 32 i.val) ((World.start fun _ => 0).init {}) 0
      (fun _ => .idle) 0 { malloc := 0x10000 } 16 16 0 rfl (hgranted.toAccepted _)
      (fun h => absurd h Bool.false_ne_true)
  have hrun₁ := accountable_of_silent hsilent₁
  have hopen₁ := (settled_of_run plain_default hrun₁).opened
  have hfresh : Fresh w₁.heap 0x20000 116 := by
    rw [hheap₁]
    exact hsecond.update_some (Or.inr (by decide))
  have hgranted₁ : Granted w₁ { malloc := 0x20000 } 16 16 :=
    granted_small hopen₁ hconfig₁ hfault₁ (by rw [hcounter₁]; decide) (by rw [hstats₁]; decide)
      (by decide) hfresh
  obtain ⟨es', w₂, r₂, hsilent₂, ⟨hheap₂, hconfig₂, hstats₂, hcounter₂, hfault₂⟩, _⟩ :=
    @run_trackAlloc (Fin 2) _ (fun i => BitVec.ofNat 32 i.val) w₁
      (0 + nonNull r₁.userPtr) (fun _ => .idle) 1 { malloc := 0x20000 } 16 16 0 rfl
      (hgranted₁.toAccepted _) (fun h => by rw [hconfig₁] at h; exact absurd h Bool.false_ne_true)
  have hrun₂ := accountable_of_silent hsilent₂
  obtain ⟨a, ha⟩ := exists_takesSnapshot w₁
  obtain ⟨b, hb⟩ := exists_takesSnapshot w₂
  obtain ⟨_, _, _, _, hcount⟩ := compareSnapshots_agrees plain_default hrun₁ hrun₂ (fun _ => rfl)
    (fun _ => rfl) (by rw [hstats₁]; decide) (by rw [hstats₂, hstats₁]; decide) ha hb
  refine ⟨⟨w₁, 0 + nonNull r₁.userPtr, fun _ => .idle⟩,
    ⟨w₂, 0 + nonNull r₁.userPtr + nonNull r₂.userPtr, fun _ => .idle⟩, a, b, ha, hb, ?_, ?_, hcount⟩
  · rw [hstats₁]
    rfl
  · rw [hstats₂, hstats₁]
    rfl

end Machine

end MemSentry
