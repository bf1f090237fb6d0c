import MemSentry.Profiler.Histogram
import Mathlib.Algebra.Order.Field.Basic
import Mathlib.Algebra.Order.Field.Rat
import Mathlib.Tactic.Linarith

/-!
# Fragmentation reports

`profiler/fragmentation.hpp`. A `double` stands for a rational number, and an operation
on doubles is the exact operation followed by rounding. All that the report needs of the
rounding is that it is monotone and exact at 0 and 1.
-/

namespace MemSentry.Profiler

/-- How the results of floating point operations are rounded. -/
structure Rounding where
  round : ℚ → ℚ
  monotone : Monotone round
  round_zero : round 0 = 0
  round_one : round 1 = 1

/-- Doubles as exact as rational numbers. -/
def Rounding.exact : Rounding := ⟨id, monotone_id, rfl, rfl⟩

/-- `feed`. -/
def AllocationHistogram.feed (hist : AllocationHistogram) (records : List AllocationRecord) :
    AllocationHistogram :=
  records.foldl (fun hist rec => hist.record rec.requestedSize) hist

structure FragmentationReport where
  externalFragmentationRatio : ℚ := 0
  peakAllocatedBytes : Word := 0
  currentAllocatedBytes : Word := 0
  totalFreedBytes : Word := 0
  totalFreedBlocks : Word := 0
  avgFreedBlockSize : ℚ := 0
  activeBuckets : List SizeBucket := []
  freedBuckets : List SizeBucket := []

namespace Rounding

variable (R : Rounding)

/-- `static_cast<double>`. -/
def ofWord (n : Word) : ℚ := R.round n.toNat

/-- The quotient of two counters. -/
def ratio (m n : Word) : ℚ := R.round (R.ofWord m / R.ofWord n)

end Rounding

/-- `FragmentationAnalyzer::analyze`. -/
def analyze (R : Rounding) (stats : MemoryStatsSnapshot) (activeRecords : List AllocationRecord)
    (freeHist : AllocationHistogram) : FragmentationReport where
  peakAllocatedBytes := stats.peakAllocatedBytes
  currentAllocatedBytes := stats.currentAllocatedBytes
  totalFreedBytes := stats.totalFreedBytes
  totalFreedBlocks := stats.totalFreeCount
  avgFreedBlockSize :=
    if stats.totalFreeCount > 0 then R.ratio stats.totalFreedBytes stats.totalFreeCount else 0
  externalFragmentationRatio :=
    if stats.peakAllocatedBytes > 0 then
      R.round (1 - R.ratio stats.currentAllocatedBytes stats.peakAllocatedBytes)
    else 0
  activeBuckets := emptyHistogram.feed activeRecords
  freedBuckets := freeHist

/-! ## Sums over the buckets -/

namespace AllocationHistogram

theorem Standard.feed {hist : AllocationHistogram} (h : hist.Standard)
    (records : List AllocationRecord) : (hist.feed records).Standard := by
  unfold AllocationHistogram.feed
  induction records generalizing hist with
  | nil => exact h
  | cons r rest ih => exact ih (h.record r.requestedSize)

/-- Every record adds its size to the bytes, and one to the counts if it has a bucket. -/
theorem Standard.totals_feed {hist : AllocationHistogram} (h : hist.Standard)
    (records : List AllocationRecord) :
    (hist.feed records).totalCount =
        hist.totalCount + (records.map fun r => countOf r.requestedSize).sum ∧
      (hist.feed records).totalBytes =
        hist.totalBytes + (records.map AllocationRecord.requestedSize).sum := by
  unfold AllocationHistogram.feed
  induction records generalizing hist with
  | nil => simp
  | cons r rest ih =>
    obtain ⟨hcount, hbytes⟩ := h.totals_record r.requestedSize
    obtain ⟨hcounts, hsum⟩ := ih (h.record r.requestedSize)
    rw [List.foldl_cons, hcounts, hsum, hcount, hbytes]
    simp [add_assoc]

end AllocationHistogram

/-! ## The ratio -/

section Ratio

variable (R : Rounding) {m n : Word}

theorem Rounding.ofWord_nonneg : 0 ≤ R.ofWord n := by
  rw [← R.round_zero]
  exact R.monotone (Nat.cast_nonneg _)

theorem Rounding.ofWord_pos (hn : n > 0) : 0 < R.ofWord n := by
  have hone : (1 : ℚ) ≤ n.toNat := by
    exact_mod_cast BitVec.lt_def.mp hn
  have hrounded : R.round 1 ≤ R.ofWord n := R.monotone hone
  rw [R.round_one] at hrounded
  linarith

/-- A number between 0 and 1 is rounded to one. -/
theorem Rounding.round_mem {x : ℚ} (h : 0 ≤ x ∧ x ≤ 1) : 0 ≤ R.round x ∧ R.round x ≤ 1 := by
  constructor
  · rw [← R.round_zero]
    exact R.monotone h.1
  · rw [← R.round_one]
    exact R.monotone h.2

theorem Rounding.ratio_mem (hmn : m ≤ n) (hn : n > 0) : 0 ≤ R.ratio m n ∧ R.ratio m n ≤ 1 := by
  have hpos := R.ofWord_pos hn
  have hle : R.ofWord m ≤ R.ofWord n := by
    apply R.monotone
    exact_mod_cast hmn
  apply R.round_mem
  exact ⟨div_nonneg R.ofWord_nonneg hpos.le, (div_le_one hpos).mpr hle⟩

/-- The fragmentation ratio of counters whose current value does not exceed the peak. -/
theorem externalFragmentationRatio_mem {stats : MemoryStatsSnapshot}
    (h : stats.currentAllocatedBytes ≤ stats.peakAllocatedBytes)
    (activeRecords : List AllocationRecord) (freeHist : AllocationHistogram) :
    0 ≤ (analyze R stats activeRecords freeHist).externalFragmentationRatio ∧
      (analyze R stats activeRecords freeHist).externalFragmentationRatio ≤ 1 := by
  unfold analyze
  dsimp only
  split
  · obtain ⟨hnonneg, hle⟩ := R.ratio_mem h ‹_›
    apply R.round_mem
    exact ⟨by linarith, by linarith⟩
  · exact ⟨le_refl 0, zero_le_one⟩

end Ratio

end MemSentry.Profiler
