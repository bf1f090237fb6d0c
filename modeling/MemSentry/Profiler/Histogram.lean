import MemSentry.Types

/-!
# Size histograms

`profiler/histogram.hpp`, without the labels of the buckets.
-/

namespace MemSentry.Profiler

structure SizeBucket where
  minBytes : Word
  maxBytes : Word
  count : Word := 0
  totalBytes : Word := 0
  deriving DecidableEq, Repr

/-- The buckets of an `AllocationHistogram`, from the smallest sizes up. -/
abbrev AllocationHistogram := List SizeBucket

def emptyHistogram : AllocationHistogram :=
  [⟨1, 16, 0, 0⟩, ⟨17, 64, 0, 0⟩, ⟨65, 256, 0, 0⟩, ⟨257, 1024, 0, 0⟩, ⟨1025, 4096, 0, 0⟩,
    ⟨4097, 65536, 0, 0⟩, ⟨65537, 1048576, 0, 0⟩, ⟨1048577, sizeMax, 0, 0⟩]

/-- `record`: the first bucket whose bounds admit the size takes it. -/
def AllocationHistogram.record (buckets : AllocationHistogram) (size : Word) :
    AllocationHistogram :=
  match buckets with
  | [] => []
  | bucket :: rest =>
    if size ≥ bucket.minBytes ∧ size ≤ bucket.maxBytes then
      { bucket with count := bucket.count + 1, totalBytes := bucket.totalBytes + size } :: rest
    else bucket :: AllocationHistogram.record rest size

/-! ## One bucket for every size but zero -/

/-- The bucket takes this size. -/
def SizeBucket.Admits (bucket : SizeBucket) (size : Word) : Prop :=
  size ≥ bucket.minBytes ∧ size ≤ bucket.maxBytes

instance (bucket : SizeBucket) (size : Word) : Decidable (bucket.Admits size) :=
  inferInstanceAs (Decidable (_ ∧ _))

theorem emptyHistogram_ascending :
    emptyHistogram.Pairwise fun b b' => b.maxBytes < b'.minBytes := by
  decide

/-- Buckets in ascending order share no size. -/
theorem eq_of_admits {buckets : AllocationHistogram}
    (hascending : buckets.Pairwise fun b b' => b.maxBytes < b'.minBytes) {b b' : SizeBucket}
    {size : Word} (hb : b ∈ buckets) (hb' : b' ∈ buckets) (h : b.Admits size)
    (h' : b'.Admits size) : b = b' := by
  have hapart : ∀ {c c' : SizeBucket}, c.Admits size → c'.Admits size →
      ¬ c.maxBytes < c'.minBytes := by
    intro c c' hc hc' hlt
    have hbelow := BitVec.le_def.mp hc.2
    have habove := BitVec.le_def.mp hc'.1
    have hgap := BitVec.lt_def.mp hlt
    omega
  induction hascending with
  | nil => cases hb
  | cons hfirst _ ih =>
    rcases List.mem_cons.mp hb with rfl | hrest
    · rcases List.mem_cons.mp hb' with rfl | hrest'
      · rfl
      · exact absurd (hfirst _ hrest') (hapart h h')
    · rcases List.mem_cons.mp hb' with rfl | hrest'
      · exact absurd (hfirst _ hrest) (hapart h' h)
      · exact ih hrest hrest'

theorem admitted_iff {size : Word} : (∃ b ∈ emptyHistogram, b.Admits size) ↔ size ≠ 0 := by
  simp only [emptyHistogram, List.mem_cons, List.not_mem_nil, or_false, exists_eq_or_imp,
    exists_eq_left, SizeBucket.Admits, BitVec.le_def, ge_iff_le, sizeMax, ne_eq]
  bv_omega

/-- A size has a bucket of its own, unless it is zero. -/
theorem existsUnique_admits {size : Word} (h : size ≠ 0) :
    ∃! b, b ∈ emptyHistogram ∧ b.Admits size := by
  obtain ⟨b, hb, hadmits⟩ := admitted_iff.mpr h
  refine ⟨b, ⟨hb, hadmits⟩, fun b' h' => ?_⟩
  exact eq_of_admits emptyHistogram_ascending h'.1 hb h'.2 hadmits

/-! ## Sums over the buckets -/

namespace AllocationHistogram

variable {buckets : AllocationHistogram} {size : Word}

/-- The bounds of the buckets, which nothing changes. -/
def bounds (buckets : AllocationHistogram) : List (Word × Word) :=
  buckets.map fun b => (b.minBytes, b.maxBytes)

def totalCount (buckets : AllocationHistogram) : Word := (buckets.map SizeBucket.count).sum

def totalBytes (buckets : AllocationHistogram) : Word := (buckets.map SizeBucket.totalBytes).sum

theorem record_of_admits {b : SizeBucket} (h : b.Admits size) (rest : AllocationHistogram) :
    record (b :: rest) size =
      { b with count := b.count + 1, totalBytes := b.totalBytes + size } :: rest := if_pos h

theorem record_of_not_admits {b : SizeBucket} (h : ¬ b.Admits size) (rest : AllocationHistogram) :
    record (b :: rest) size = b :: record rest size := if_neg h

theorem bounds_record (buckets : AllocationHistogram) (size : Word) :
    (buckets.record size).bounds = buckets.bounds := by
  induction buckets with
  | nil => rfl
  | cons b rest ih =>
    by_cases h : b.Admits size
    · rw [record_of_admits h]
      rfl
    · rw [record_of_not_admits h]
      exact congrArg (List.cons _) ih

theorem record_of_none (h : ∀ b ∈ buckets, ¬ b.Admits size) : buckets.record size = buckets := by
  induction buckets with
  | nil => rfl
  | cons b rest ih =>
    rw [record_of_not_admits (h b List.mem_cons_self),
      ih fun b' hb' => h b' (List.mem_cons_of_mem b hb')]

/-- One count and the bytes go to a bucket that takes the size. -/
theorem totals_record (h : ∃ b ∈ buckets, b.Admits size) :
    (buckets.record size).totalCount = buckets.totalCount + 1 ∧
      (buckets.record size).totalBytes = buckets.totalBytes + size := by
  induction buckets with
  | nil => simp at h
  | cons b rest ih =>
    by_cases hb : b.Admits size
    · rw [record_of_admits hb]
      simp only [totalCount, totalBytes, List.map_cons, List.sum_cons]
      exact ⟨add_right_comm _ _ _, add_right_comm _ _ _⟩
    · obtain ⟨b', hb', hadmits⟩ := h
      have hrest : b' ∈ rest := by
        rcases List.mem_cons.mp hb' with rfl | hrest
        · exact absurd hadmits hb
        · exact hrest
      obtain ⟨hcount, hbytes⟩ := ih ⟨b', hrest, hadmits⟩
      rw [record_of_not_admits hb]
      simp only [totalCount, totalBytes, List.map_cons, List.sum_cons] at hcount hbytes ⊢
      rw [hcount, hbytes, add_assoc, add_assoc]
      exact ⟨rfl, rfl⟩

/-- The histogram has the bounds that the constructor gives it. -/
def Standard (buckets : AllocationHistogram) : Prop := buckets.bounds = emptyHistogram.bounds

theorem standard_empty : Standard emptyHistogram := rfl

theorem Standard.record (h : buckets.Standard) (size : Word) : (buckets.record size).Standard :=
  (bounds_record buckets size).trans h

/-- What a histogram admits depends on its bounds only. -/
theorem admits_iff_bounds :
    (∃ b ∈ buckets, b.Admits size) ↔ ∃ p ∈ buckets.bounds, size ≥ p.1 ∧ size ≤ p.2 := by
  simp [bounds, SizeBucket.Admits]

theorem Standard.admits_iff (h : buckets.Standard) :
    (∃ b ∈ buckets, b.Admits size) ↔ size ≠ 0 := by
  rw [admits_iff_bounds, h, ← admits_iff_bounds, admitted_iff]

/-- What one record of the size counts: a size of zero has no bucket. -/
def countOf (size : Word) : Word := if size = 0 then 0 else 1

theorem Standard.totals_record (h : buckets.Standard) (size : Word) :
    (buckets.record size).totalCount = buckets.totalCount + countOf size ∧
      (buckets.record size).totalBytes = buckets.totalBytes + size := by
  by_cases hzero : size = 0
  · have hnone : ∀ b ∈ buckets, ¬ b.Admits size := by
      intro b hb hadmits
      exact h.admits_iff.mp ⟨b, hb, hadmits⟩ hzero
    rw [record_of_none hnone, countOf, if_pos hzero, hzero]
    exact ⟨(add_zero _).symm, (add_zero _).symm⟩
  · rw [countOf, if_neg hzero]
    exact AllocationHistogram.totals_record (h.admits_iff.mpr hzero)

end AllocationHistogram

end MemSentry.Profiler
