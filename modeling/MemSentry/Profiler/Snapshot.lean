import MemSentry.Types
import Mathlib.Data.Finmap
import Mathlib.Algebra.BigOperators.Group.List.Basic
import Mathlib.Algebra.Order.Ring.Int

/-!
# Comparing heap snapshots

`profiler/snapshot.hpp` and `snapshot.cpp`. The three loops of `compare_snapshots` are
folds over the lists they go through; the map and the set they fill are a `Finmap` and a
`Finset`.

The loops come down to three filters, whatever the two snapshots are
(`compareSnapshots_lists`). When identifiers are unique and mean the same record in both
snapshots, what the lists add and take away is the difference of the sums over all
records (`sum_sub_sum`).
-/

namespace MemSentry.Profiler

structure HeapSnapshot where
  label : String
  timestamp : Int
  stats : MemoryStatsSnapshot
  activeAllocations : List AllocationRecord

/-- The two deltas are `int64_t`, kept as bits; `BitVec.toInt` reads them. -/
structure SnapshotDiff where
  beforeLabel : String
  afterLabel : String
  startTime : Int
  endTime : Int
  netBytesDelta : BitVec 64
  netAllocationsDelta : BitVec 64
  newAllocations : List AllocationRecord
  freedAllocations : List AllocationRecord
  persistentAllocations : List AllocationRecord

/-! ## The loops -/

/-- `before_map`; a later record replaces an earlier one with its identifier. -/
def beforeMap (before : List AllocationRecord) : Finmap fun _ : Word => AllocationRecord :=
  before.foldl (fun m rec => m.insert rec.allocationId rec) ∅

/-- The lists and the set that the second loop fills. -/
structure Join where
  persistent : List AllocationRecord := []
  new : List AllocationRecord := []
  matchedIds : Finset Word := ∅

def Join.add (m : Finmap fun _ : Word => AllocationRecord) (j : Join) (rec : AllocationRecord) :
    Join :=
  if rec.allocationId ∈ m then
    { j with
      persistent := j.persistent ++ [rec]
      matchedIds := insert rec.allocationId j.matchedIds }
  else { j with new := j.new ++ [rec] }

def joinSnapshots (before after : List AllocationRecord) : Join :=
  after.foldl (Join.add (beforeMap before)) {}

/-- The third loop. -/
def freedAllocations (matchedIds : Finset Word) (before : List AllocationRecord) :
    List AllocationRecord :=
  before.foldl (fun freed rec =>
    if rec.allocationId ∉ matchedIds then freed ++ [rec] else freed) []

def compareSnapshots (before after : HeapSnapshot) : SnapshotDiff :=
  let joined := joinSnapshots before.activeAllocations after.activeAllocations
  { beforeLabel := before.label
    afterLabel := after.label
    startTime := before.timestamp
    endTime := after.timestamp
    netBytesDelta := after.stats.currentAllocatedBytes - before.stats.currentAllocatedBytes
    netAllocationsDelta :=
      after.stats.activeAllocationCount - before.stats.activeAllocationCount
    newAllocations := joined.new
    freedAllocations := freedAllocations joined.matchedIds before.activeAllocations
    persistentAllocations := joined.persistent }

/-! ## What the loops compute -/

/-- The identifiers of the records. -/
def idsOf (records : List AllocationRecord) : List Word :=
  records.map AllocationRecord.allocationId

/-- The sum of `requested_size` over the records. -/
def requestedBytes (records : List AllocationRecord) : Nat :=
  (records.map fun r => r.requestedSize.toNat).sum

theorem mem_foldl_insert {records : List AllocationRecord}
    {m : Finmap fun _ : Word => AllocationRecord} {id : Word} :
    id ∈ records.foldl (fun m rec => m.insert rec.allocationId rec) m ↔
      id ∈ m ∨ id ∈ idsOf records := by
  induction records generalizing m with
  | nil => simp [idsOf]
  | cons rec rest ih =>
    rw [List.foldl_cons, ih]
    simp [idsOf]
    tauto

theorem mem_beforeMap {before : List AllocationRecord} {id : Word} :
    id ∈ beforeMap before ↔ id ∈ idsOf before := by
  unfold beforeMap
  rw [mem_foldl_insert]
  simp [Finmap.notMem_empty]

/-- The second loop appends to the two lists and collects the matched identifiers. -/
theorem foldl_add (m : Finmap fun _ : Word => AllocationRecord) (after : List AllocationRecord)
    (j : Join) :
    (after.foldl (Join.add m) j).persistent =
        j.persistent ++ after.filter (fun rec => rec.allocationId ∈ m) ∧
      (after.foldl (Join.add m) j).new =
        j.new ++ after.filter (fun rec => rec.allocationId ∉ m) ∧
      ∀ id, id ∈ (after.foldl (Join.add m) j).matchedIds ↔
        id ∈ j.matchedIds ∨ id ∈ m ∧ id ∈ idsOf after := by
  induction after generalizing j with
  | nil => simp [idsOf]
  | cons rec rest ih =>
    obtain ⟨hpersistent, hnew, hmatched⟩ := ih (j.add m rec)
    rw [List.foldl_cons]
    by_cases hmem : rec.allocationId ∈ m
    · have hadd : j.add m rec =
          { j with
            persistent := j.persistent ++ [rec]
            matchedIds := insert rec.allocationId j.matchedIds } := if_pos hmem
      rw [hadd] at hpersistent hnew hmatched ⊢
      refine ⟨?_, ?_, fun id => ?_⟩
      · rw [hpersistent]
        simp [hmem]
      · rw [hnew]
        simp [hmem]
      · rw [hmatched]
        simp [idsOf]
        grind
    · have hadd : j.add m rec = { j with new := j.new ++ [rec] } := if_neg hmem
      rw [hadd] at hpersistent hnew hmatched ⊢
      refine ⟨?_, ?_, fun id => ?_⟩
      · rw [hpersistent]
        simp [hmem]
      · rw [hnew]
        simp [hmem]
      · rw [hmatched]
        simp [idsOf]
        grind

theorem foldl_freed (matchedIds : Finset Word) (before freed : List AllocationRecord) :
    before.foldl (fun freed rec =>
        if rec.allocationId ∉ matchedIds then freed ++ [rec] else freed) freed =
      freed ++ before.filter (fun rec => rec.allocationId ∉ matchedIds) := by
  induction before generalizing freed with
  | nil => simp
  | cons rec rest ih =>
    rw [List.foldl_cons, ih]
    by_cases hmem : rec.allocationId ∈ matchedIds
    · simp [hmem]
    · simp [hmem]

/-- The three lists are filters, and keep the order of the snapshots. -/
theorem compareSnapshots_lists (before after : HeapSnapshot) :
    (compareSnapshots before after).persistentAllocations =
        after.activeAllocations.filter
          (fun rec => rec.allocationId ∈ idsOf before.activeAllocations) ∧
      (compareSnapshots before after).newAllocations =
        after.activeAllocations.filter
          (fun rec => rec.allocationId ∉ idsOf before.activeAllocations) ∧
      (compareSnapshots before after).freedAllocations =
        before.activeAllocations.filter
          (fun rec => rec.allocationId ∉ idsOf after.activeAllocations) := by
  obtain ⟨hpersistent, hnew, hmatched⟩ :=
    foldl_add (beforeMap before.activeAllocations) after.activeAllocations {}
  refine ⟨?_, ?_, ?_⟩
  · have h : (compareSnapshots before after).persistentAllocations = _ := hpersistent
    rw [h]
    simp [mem_beforeMap]
  · have h : (compareSnapshots before after).newAllocations = _ := hnew
    rw [h]
    simp [mem_beforeMap]
  · have h : (compareSnapshots before after).freedAllocations = _ :=
      foldl_freed _ before.activeAllocations []
    rw [h, List.nil_append]
    refine List.filter_congr fun rec hrec => ?_
    have hid : rec.allocationId ∈ idsOf before.activeAllocations :=
      List.mem_map_of_mem hrec
    simp [joinSnapshots, hmatched, mem_beforeMap, hid]

/-! ## Sums -/

/-- No record is listed twice, and an identifier means the same record in both lists. -/
structure Consistent (before after : List AllocationRecord) : Prop where
  nodup_before : before.Nodup
  nodup_after : after.Nodup
  same : ∀ r ∈ before, ∀ r' ∈ after, r.allocationId = r'.allocationId → r = r'

section Sums

variable {before after : List AllocationRecord}

/-- The records that stay are the same ones, seen from either snapshot. -/
theorem Consistent.kept_perm (h : Consistent before after) :
    (before.filter fun rec => rec.allocationId ∈ idsOf after).Perm
      (after.filter fun rec => rec.allocationId ∈ idsOf before) := by
  rw [List.perm_ext_iff_of_nodup (h.nodup_before.filter _) (h.nodup_after.filter _)]
  intro r
  simp only [List.mem_filter, decide_eq_true_eq, idsOf, List.mem_map]
  constructor
  · rintro ⟨hr, r', hr', hid⟩
    have heq := h.same r hr r' hr' hid.symm
    subst r'
    exact ⟨hr', r, hr, rfl⟩
  · rintro ⟨hr, r', hr', hid⟩
    have heq := h.same r' hr' r hr hid
    subst r'
    exact ⟨hr', r, hr, rfl⟩

theorem sum_filter_add_sum_filter (l : List AllocationRecord) (p : AllocationRecord → Prop)
    [DecidablePred p] (f : AllocationRecord → Nat) :
    ((l.filter fun r => p r).map f).sum + ((l.filter fun r => ¬ p r).map f).sum =
      (l.map f).sum := by
  have hperm := (List.filter_append_perm (fun r => decide (p r)) l).map f
  have hsum := hperm.sum_eq
  rw [List.map_append, List.sum_append] at hsum
  simpa using hsum

/-- What is new less what was freed is the difference of the whole sums. -/
theorem Consistent.sum_sub_sum (h : Consistent before after) (f : AllocationRecord → Nat) :
    ((after.filter fun rec => rec.allocationId ∉ idsOf before).map f).sum + (before.map f).sum =
      ((before.filter fun rec => rec.allocationId ∉ idsOf after).map f).sum +
        (after.map f).sum := by
  have hkept := (h.kept_perm.map f).sum_eq
  have hbefore := sum_filter_add_sum_filter before (fun r => r.allocationId ∈ idsOf after) f
  have hafter := sum_filter_add_sum_filter after (fun r => r.allocationId ∈ idsOf before) f
  omega

end Sums

end MemSentry.Profiler
