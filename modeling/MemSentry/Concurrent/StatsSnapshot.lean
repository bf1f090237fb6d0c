import MemSentry.Library.ThreadPool
import MemSentry.Library.Transition
import MemSentry.Profiler.Fragmentation
import Mathlib.Algebra.BigOperators.Group.Multiset.Basic
import Mathlib.Algebra.Group.Pi.Basic
import Mathlib.Data.Multiset.AddSub
import Mathlib.Data.Fin.VecNotation
import Mathlib.Tactic.FinCases

/-!
# Snapshots of the counters while others update them

`MemoryStatsSnapshot::from` loads seven counters one after the other, and any number of
steps of `update_on_alloc` and `update_on_free` may fall between two of the loads. What
the counters say of one state holds of the snapshot only as far as nobody has moved them
in between (`snapshot_consistent`).

The threads here do nothing but update. A size may be given to `update_on_free` once the
`update_on_alloc` that counted it has returned.
-/

namespace MemSentry

open Profiler Function Transition
open ThreadPool (Pair)

/-! ## Updates taken apart -/

/-- Where a thread is in an update; the step named is the next one. -/
inductive Update
  | idle
  -- `update_on_alloc`
  | addTotalBytes (bytes : Word)
  | addTotalCount (bytes : Word)
  | addActive (bytes : Word)
  | addCurrent (bytes : Word)
  | loadPeak (bytes current : Word)
  | raisePeak (bytes current peak : Word)
  | counted (bytes : Word)
  -- `update_on_free`
  | addFreedBytes (bytes : Word)
  | addFreeCount (bytes : Word)
  | subActive (bytes : Word)
  | subCurrent (bytes : Word)
  deriving DecidableEq, Repr

namespace MemoryStats

variable (s : MemoryStats)

/-- One atomic step; a weak exchange may fail for no reason. -/
def advance (spurious : Bool) : Update → MemoryStats × Update
  | .idle => (s, .idle)
  | .addTotalBytes n => (s.addTotalAllocatedBytes n, .addTotalCount n)
  | .addTotalCount n => (s.addTotalAllocationCount, .addActive n)
  | .addActive n => (s.addActiveAllocationCount, .addCurrent n)
  | .addCurrent n =>
    (s.addCurrentAllocatedBytes n, .loadPeak n (s.addCurrentAllocatedBytes n).currentAllocatedBytes)
  | .loadPeak n current => (s, .raisePeak n current s.peakAllocatedBytes)
  | .raisePeak n current peak =>
    if current > peak then
      if s.peakAllocatedBytes = peak ∧ ¬ spurious then (s.storePeak current, .counted n)
      else (s, .raisePeak n current s.peakAllocatedBytes)
    else (s, .counted n)
  | .counted _ => (s, .idle)
  | .addFreedBytes n => (s.addTotalFreedBytes n, .addFreeCount n)
  | .addFreeCount n => (s.addTotalFreeCount, .subActive n)
  | .subActive n => (s.subActiveAllocationCount, .subCurrent n)
  | .subCurrent n => (s.subCurrentAllocatedBytes n, .idle)

/-- The totals do not wrap in the next step. -/
def NoWrap : Update → Prop
  | .addTotalBytes n => s.totalAllocatedBytes.toNat + n.toNat < 2 ^ 64
  | .addTotalCount _ => s.totalAllocationCount.toNat + 1 < 2 ^ 64
  | _ => True

instance (u : Update) : Decidable (s.NoWrap u) :=
  match u with
  | .addTotalBytes n => inferInstanceAs (Decidable (s.totalAllocatedBytes.toNat + n.toNat < 2 ^ 64))
  | .addTotalCount _ => inferInstanceAs (Decidable (s.totalAllocationCount.toNat + 1 < 2 ^ 64))
  | .idle | .addActive _ | .addCurrent _ | .loadPeak .. | .raisePeak .. | .counted _
  | .addFreedBytes _ | .addFreeCount _ | .subActive _ | .subCurrent _ => .isTrue trivial

end MemoryStats

/-- The size that may be freed from now on. -/
def Update.given : Update → Multiset Word
  | .counted n => {n}
  | _ => 0

structure SharedStats (ι : Type) where
  stats : MemoryStats
  /-- The sizes that are counted, and that nobody has begun to free. -/
  live : Multiset Word
  pool : ι → Update

inductive UpdateEvent (ι : Type)
  | alloc (i : ι) (bytes : Word)
  | free (i : ι) (bytes : Word)
  | advance (i : ι) (spurious : Bool)

namespace SharedStats

variable {ι : Type}

def start : SharedStats ι := ⟨{}, 0, fun _ => .idle⟩

section Steps

variable [DecidableEq ι] (s : SharedStats ι)

def step : UpdateEvent ι → SharedStats ι
  | .alloc i n => { s with pool := update s.pool i (.addTotalBytes n) }
  | .free i n => { s with live := s.live.erase n, pool := update s.pool i (.addFreedBytes n) }
  | .advance i spurious =>
    let next := s.stats.advance spurious (s.pool i)
    { stats := next.1
      live := s.live + (s.pool i).given
      pool := update s.pool i next.2 }

omit [DecidableEq ι] in
/-- A thread begins an update when it has none, a free follows its allocation, and the
totals do not wrap. -/
def Legal : UpdateEvent ι → Prop
  | .alloc i _ => s.pool i = .idle
  | .free i n => s.pool i = .idle ∧ n ∈ s.live
  | .advance i _ => s.stats.NoWrap (s.pool i)

def updates : System (SharedStats ι) (UpdateEvent ι) where
  step := step
  guard := Legal

instance (e : UpdateEvent ι) : Decidable (updates.guard s e) :=
  match e with
  | .alloc i _ => inferInstanceAs (Decidable (s.pool i = .idle))
  | .free i n => inferInstanceAs (Decidable (s.pool i = .idle ∧ n ∈ s.live))
  | .advance i _ => inferInstanceAs (Decidable (s.stats.NoWrap (s.pool i)))

end Steps

end SharedStats

/-! ## What the updates in progress have counted -/

/-- Bytes of `total_allocated_bytes` that are neither live nor freed. -/
@[simp] def Update.billed : Update → Nat
  | .addTotalCount n | .addActive n | .addCurrent n | .loadPeak n _ | .raisePeak n _ _
  | .counted n | .addFreedBytes n => n.toNat
  | _ => 0

/-- Allocations of `total_allocation_count` that are neither live nor freed. -/
@[simp] def Update.billedCount : Update → Nat
  | .addActive _ | .addCurrent _ | .loadPeak .. | .raisePeak .. | .counted _
  | .addFreedBytes _ | .addFreeCount _ => 1
  | _ => 0

/-- Bytes of `current_allocated_bytes` that are not live. -/
@[simp] def Update.booked : Update → Nat
  | .loadPeak n _ | .raisePeak n _ _ | .counted n | .addFreedBytes n | .addFreeCount n
  | .subActive n | .subCurrent n => n.toNat
  | _ => 0

/-- Bytes of `total_allocated_bytes` that `current_allocated_bytes` has not got yet. -/
@[simp] def Update.pending : Update → Nat
  | .addTotalCount n | .addActive n | .addCurrent n => n.toNat
  | _ => 0

inductive Quantity
  | billed
  | billedCount
  | booked
  | pending

def Update.holds (u : Update) : Quantity → Nat
  | .billed => u.billed
  | .billedCount => u.billedCount
  | .booked => u.booked
  | .pending => u.pending

/-- The sum of the sizes. -/
def liveBytes (live : Multiset Word) : Nat := (live.map BitVec.toNat).sum

/-- The counters agree, what is in progress being `h`. -/
structure Reconciled (s : MemoryStats × Multiset Word) (h : Quantity → Nat) : Prop where
  bytes : s.1.totalAllocatedBytes.toNat =
    s.1.totalFreedBytes.toNat + liveBytes s.2 + h .billed
  count : s.1.totalAllocationCount.toNat =
    s.1.totalFreeCount.toNat + s.2.card + h .billedCount
  current : s.1.currentAllocatedBytes.toNat = liveBytes s.2 + h .booked
  covered : s.1.currentAllocatedBytes.toNat + h .pending ≤ s.1.totalAllocatedBytes.toNat

section Reconciled

variable {st : MemoryStats} {live : Multiset Word} {h : Quantity → Nat} {u : Update}

theorem liveBytes_erase {n : Word} (hn : n ∈ live) :
    liveBytes (live.erase n) + n.toNat = liveBytes live := by
  unfold liveBytes
  conv_rhs => rw [← Multiset.cons_erase hn]
  rw [Multiset.map_cons, Multiset.sum_cons, Nat.add_comm]

theorem reconciled_iff : Reconciled (st, live) (u.holds + h) ↔
    st.totalAllocatedBytes.toNat =
        st.totalFreedBytes.toNat + liveBytes live + (u.billed + h .billed) ∧
      st.totalAllocationCount.toNat =
        st.totalFreeCount.toNat + live.card + (u.billedCount + h .billedCount) ∧
      st.currentAllocatedBytes.toNat = liveBytes live + (u.booked + h .booked) ∧
      st.currentAllocatedBytes.toNat + (u.pending + h .pending) ≤
        st.totalAllocatedBytes.toNat :=
  ⟨fun hr => ⟨hr.bytes, hr.count, hr.current, hr.covered⟩,
    fun hr => ⟨hr.1, hr.2.1, hr.2.2.1, hr.2.2.2⟩⟩

theorem Reconciled.begin_free {n : Word} (hr : Reconciled (st, live) (Update.idle.holds + h))
    (hn : n ∈ live) :
    Reconciled (st, live.erase n) ((Update.addFreedBytes n).holds + h) := by
  have hsum := liveBytes_erase hn
  have hcard := Multiset.card_erase_add_one hn
  rw [reconciled_iff] at hr ⊢
  simp at hr ⊢
  omega

/-- A step that changes no counter but the peak. -/
theorem Reconciled.still {u' : Update} {st' : MemoryStats} (hr : Reconciled (st, live) (u.holds + h))
    (hst : st' = { st with peakAllocatedBytes := st'.peakAllocatedBytes })
    (hu : u'.holds = u.holds) : Reconciled (st', live) (u'.holds + h) := by
  rw [hst, hu]
  exact ⟨hr.bytes, hr.count, hr.current, hr.covered⟩

theorem Reconciled.advance {spurious : Bool}
    (hr : Reconciled (st, live) (u.holds + h)) (hwrap : st.NoWrap u) :
    Reconciled ((st.advance spurious u).1, live + u.given)
      ((st.advance spurious u).2.holds + h) := by
  have htotal := st.totalAllocatedBytes.isLt
  have hcounts := st.totalAllocationCount.isLt
  cases u with
  | idle => simpa [MemoryStats.advance, Update.given] using hr
  | addTotalBytes n =>
    have hsum : (st.totalAllocatedBytes + n).toNat = _ := BitVec.toNat_add_of_lt hwrap
    change Reconciled (st.addTotalAllocatedBytes n, live + 0) ((Update.addTotalCount n).holds + h)
    rw [reconciled_iff] at hr ⊢
    simp at hr
    simp [MemoryStats.addTotalAllocatedBytes, hsum]
    omega
  | addTotalCount n =>
    have hsum : (st.totalAllocationCount + 1).toNat = st.totalAllocationCount.toNat + 1 :=
      BitVec.toNat_add_of_lt hwrap
    change Reconciled (st.addTotalAllocationCount, live + 0) ((Update.addActive n).holds + h)
    rw [reconciled_iff] at hr ⊢
    simp at hr
    simp [MemoryStats.addTotalAllocationCount]
    omega
  | addActive n =>
    change Reconciled (st.addActiveAllocationCount, live + 0) ((Update.addCurrent n).holds + h)
    rw [add_zero]
    exact ⟨hr.bytes, hr.count, hr.current, hr.covered⟩
  | addCurrent n =>
    rw [reconciled_iff] at hr
    simp at hr
    have hsum : (st.currentAllocatedBytes + n).toNat = _ :=
      BitVec.toNat_add_of_lt (by omega)
    change Reconciled (st.addCurrentAllocatedBytes n, live + 0)
      ((Update.loadPeak n (st.addCurrentAllocatedBytes n).currentAllocatedBytes).holds + h)
    rw [reconciled_iff]
    simp [MemoryStats.addCurrentAllocatedBytes, hsum]
    omega
  | loadPeak n current =>
    change Reconciled (st, live + 0) _
    rw [add_zero]
    exact hr.still rfl rfl
  | raisePeak n current peak =>
    change Reconciled (_, live + 0) _
    rw [add_zero]
    unfold MemoryStats.advance
    dsimp only
    split
    · split
      · exact hr.still rfl rfl
      · exact hr.still rfl rfl
    · exact hr.still rfl rfl
  | counted n =>
    change Reconciled (st, live + {n}) (Update.idle.holds + h)
    rw [reconciled_iff] at hr ⊢
    simp at hr
    simp [liveBytes]
    unfold liveBytes at hr
    omega
  | addFreedBytes n =>
    rw [reconciled_iff] at hr
    simp at hr
    have hsum : (st.totalFreedBytes + n).toNat = _ := BitVec.toNat_add_of_lt (by omega)
    change Reconciled (st.addTotalFreedBytes n, live + 0) ((Update.addFreeCount n).holds + h)
    rw [reconciled_iff]
    simp [MemoryStats.addTotalFreedBytes, hsum]
    omega
  | addFreeCount n =>
    rw [reconciled_iff] at hr
    simp at hr
    have hsum : (st.totalFreeCount + 1).toNat = st.totalFreeCount.toNat + 1 :=
      BitVec.toNat_add_of_lt (show st.totalFreeCount.toNat + 1 < 2 ^ 64 by omega)
    change Reconciled (st.addTotalFreeCount, live + 0) ((Update.subActive n).holds + h)
    rw [reconciled_iff]
    simp [MemoryStats.addTotalFreeCount]
    omega
  | subActive n =>
    change Reconciled (st.subActiveAllocationCount, live + 0) ((Update.subCurrent n).holds + h)
    rw [add_zero]
    exact ⟨hr.bytes, hr.count, hr.current, hr.covered⟩
  | subCurrent n =>
    rw [reconciled_iff] at hr
    simp at hr
    have hsub : (st.currentAllocatedBytes - n).toNat = _ :=
      BitVec.toNat_sub_of_le (BitVec.le_def.mpr (by omega))
    change Reconciled (st.subCurrentAllocatedBytes n, live + 0) (Update.idle.holds + h)
    rw [reconciled_iff]
    simp [MemoryStats.subCurrentAllocatedBytes, hsub]
    omega

end Reconciled

/-! ## The loop on the peak -/

/-- The thread has got the sum `current` and has not left the loop on the peak. -/
def Update.Raising (current : Word) : Update → Prop
  | .loadPeak _ sum | .raisePeak _ sum _ => sum = current
  | _ => False

/-- What one step may do to the peak and to the sums on their way to it. -/
structure PeakStep (st : MemoryStats) (u : Update) (st' : MemoryStats) (u' : Update) : Prop where
  peak : st.peakAllocatedBytes ≤ st'.peakAllocatedBytes
  loaded : ∀ n current peak, u' = .raisePeak n current peak → peak ≤ st'.peakAllocatedBytes
  raising : ∀ current, u.Raising current →
    current ≤ st'.peakAllocatedBytes ∨ u'.Raising current
  current : st'.currentAllocatedBytes ≤ st.currentAllocatedBytes ∨
    u'.Raising st'.currentAllocatedBytes

section PeakStep

variable {st st' : MemoryStats} {u u' : Update}

/-- A step that neither loads nor raises the peak. -/
theorem PeakStep.calm (hpeak : st'.peakAllocatedBytes = st.peakAllocatedBytes)
    (hcurrent : st'.currentAllocatedBytes ≤ st.currentAllocatedBytes)
    (hu : ∀ current, ¬ u.Raising current) (hu' : ∀ current, ¬ u'.Raising current) :
    PeakStep st u st' u' := by
  refine ⟨?_, ?_, ?_, Or.inl hcurrent⟩
  · rw [hpeak]
    exact BitVec.le_refl _
  · rintro n current peak rfl
    exact absurd rfl (hu' current)
  · exact fun current h => absurd h (hu current)

theorem sub_le_self {x n : Word} (h : n.toNat ≤ x.toNat) : x - n ≤ x := by
  rw [BitVec.le_def, BitVec.toNat_sub_of_le (BitVec.le_def.mpr h)]
  omega

theorem advance_peak {spurious : Bool}
    (hloaded : ∀ n current peak, u = .raisePeak n current peak → peak ≤ st.peakAllocatedBytes)
    (hcounted : ∀ n, u = .subCurrent n → n.toNat ≤ st.currentAllocatedBytes.toNat) :
    PeakStep st u (st.advance spurious u).1 (st.advance spurious u).2 := by
  have hrefl := fun x : Word => BitVec.le_refl x
  cases u with
  | addCurrent n => exact ⟨hrefl _, fun _ _ _ h => (nomatch h), fun _ => False.elim, Or.inr rfl⟩
  | loadPeak n current =>
    refine ⟨hrefl _, ?_, fun _ h => Or.inr h, Or.inl (hrefl _)⟩
    rintro _ _ _ ⟨⟩
    exact hrefl _
  | raisePeak n current peak =>
    have hpeak := hloaded n current peak rfl
    unfold MemoryStats.advance
    dsimp only
    by_cases habove : current > peak
    · rw [if_pos habove]
      by_cases hstore : st.peakAllocatedBytes = peak ∧ ¬ spurious
      · rw [if_pos hstore]
        refine ⟨?_, fun _ _ _ h => (nomatch h), ?_, Or.inl (hrefl _)⟩
        · rw [hstore.1]
          exact BitVec.le_of_lt habove
        · rintro _ rfl
          exact Or.inl (hrefl _)
      · rw [if_neg hstore]
        refine ⟨hrefl _, ?_, fun _ h => Or.inr h, Or.inl (hrefl _)⟩
        rintro _ _ _ ⟨⟩
        exact hrefl _
    · rw [if_neg habove]
      refine ⟨hrefl _, fun _ _ _ h => (nomatch h), ?_, Or.inl (hrefl _)⟩
      rintro _ rfl
      exact Or.inl (BitVec.le_trans (BitVec.not_lt.mp habove) hpeak)
  | subCurrent n => exact .calm rfl (sub_le_self (hcounted n rfl)) (fun _ => id) fun _ => id
  | _ => exact .calm rfl (hrefl _) (fun _ => id) fun _ => id

end PeakStep

namespace SharedStats

variable {ι : Type}

/-- The peak stands above every value that a thread has loaded of it. -/
def PeakLoaded (s : SharedStats ι) : Prop :=
  ∀ i n current peak, s.pool i = .raisePeak n current peak → peak ≤ s.stats.peakAllocatedBytes

/-- The peak has reached a sum of the thread, or the thread is in the loop with it. -/
def Raised (i : ι) (sum : Word) (s : SharedStats ι) : Prop :=
  sum ≤ s.stats.peakAllocatedBytes ∨ (s.pool i).Raising sum

/-- The current bytes do not exceed the peak, or do not exceed a sum that will raise it. -/
def Bounded (s : SharedStats ι) : Prop :=
  s.stats.currentAllocatedBytes ≤ s.stats.peakAllocatedBytes ∨
    ∃ i sum, s.stats.currentAllocatedBytes ≤ sum ∧ (s.pool i).Raising sum

/-- The counters agree with each other, whatever the threads are in the middle of. -/
structure Sound [Fintype ι] (s : SharedStats ι) : Prop where
  reconciled : Reconciled (s.stats, s.live) (ThreadPool.total Update.holds s.pool)
  peakLoaded : s.PeakLoaded
  bounded : s.Bounded

section Runs

variable [DecidableEq ι] {s t : SharedStats ι} {e : UpdateEvent ι} {es : List (UpdateEvent ι)}
  {i : ι} {st' : MemoryStats} {live' : Multiset Word} {u' : Update} {sum : Word}

theorem PeakLoaded.move (h : s.PeakLoaded) (hstep : PeakStep s.stats (s.pool i) st' u') :
    PeakLoaded ⟨st', live', update s.pool i u'⟩ := by
  intro j n current peak hj
  change update s.pool i u' j = _ at hj
  by_cases hji : j = i
  · subst j
    rw [update_self] at hj
    exact hstep.loaded n current peak hj
  · rw [update_of_ne hji] at hj
    exact BitVec.le_trans (h j n current peak hj) hstep.peak

theorem Raised.move {j : ι} (h : s.Raised j sum) (hstep : PeakStep s.stats (s.pool i) st' u') :
    Raised j sum ⟨st', live', update s.pool i u'⟩ := by
  change sum ≤ st'.peakAllocatedBytes ∨ (update s.pool i u' j).Raising sum
  rcases h with hle | hraising
  · exact Or.inl (BitVec.le_trans hle hstep.peak)
  · by_cases hji : j = i
    · subst j
      rw [update_self]
      exact hstep.raising sum hraising
    · rw [update_of_ne hji]
      exact Or.inr hraising

theorem Bounded.move (h : s.Bounded) (hstep : PeakStep s.stats (s.pool i) st' u') :
    Bounded ⟨st', live', update s.pool i u'⟩ := by
  rcases hstep.current with hle | hu'
  · rcases h with hpeak | ⟨j, sum, hcurrent, hraising⟩
    · exact Or.inl (BitVec.le_trans hle (BitVec.le_trans hpeak hstep.peak))
    · have hkept := @Raised.move _ _ s i st' live' u' sum j (Or.inr hraising) hstep
      have hbelow := BitVec.le_trans hle hcurrent
      rcases hkept with hreached | hstill
      · exact Or.inl (BitVec.le_trans hbelow hreached)
      · exact Or.inr ⟨j, sum, hbelow, hstill⟩
  · refine Or.inr ⟨i, st'.currentAllocatedBytes, BitVec.le_refl _, ?_⟩
    change (update s.pool i u' i).Raising _
    rwa [update_self]

variable [Fintype ι]

/-- What a thread has booked is part of the current bytes. -/
theorem Sound.booked_le (hs : s.Sound) (i : ι) :
    (s.pool i).booked ≤ s.stats.currentAllocatedBytes.toNat := by
  have hr := hs.reconciled
  rw [ThreadPool.total_eq Update.holds s.pool i, reconciled_iff] at hr
  obtain ⟨_, _, hcurrent, _⟩ := hr
  omega

/-- What a thread is about to take off is there. -/
theorem Sound.subCurrent_le (hs : s.Sound) {n : Word} (hi : s.pool i = .subCurrent n) :
    n.toNat ≤ s.stats.currentAllocatedBytes.toNat := by
  have hbooked := hs.booked_le i
  rw [hi] at hbooked
  exact hbooked

/-- Every event moves one thread, and does to the peak what a step may do to it. -/
theorem Sound.peak_step (hs : s.Sound) (hlegal : s.Legal e) : ∃ i st' live' u',
    s.step e = ⟨st', live', update s.pool i u'⟩ ∧ PeakStep s.stats (s.pool i) st' u' := by
  cases e with
  | alloc i n =>
    refine ⟨i, _, _, _, rfl, ?_⟩
    rw [show s.pool i = .idle from hlegal]
    exact .calm rfl (BitVec.le_refl _) (fun _ => id) fun _ => id
  | free i n =>
    refine ⟨i, _, _, _, rfl, ?_⟩
    rw [show s.pool i = .idle from hlegal.1]
    exact .calm rfl (BitVec.le_refl _) (fun _ => id) fun _ => id
  | advance i spurious =>
    exact ⟨i, _, _, _, rfl, advance_peak (hs.peakLoaded i) fun n => hs.subCurrent_le⟩

theorem Sound.reconciled_step (hs : s.Sound) (hlegal : s.Legal e) :
    Reconciled ((s.step e).stats, (s.step e).live)
      (ThreadPool.total Update.holds (s.step e).pool) := by
  cases e with
  | alloc i n =>
    refine ThreadPool.invariant_step (fun h hr => ?_) hs.reconciled
    rw [show s.pool i = .idle from hlegal] at hr
    exact hr.still rfl rfl
  | free i n =>
    refine ThreadPool.invariant_step (fun h hr => ?_) hs.reconciled
    rw [show s.pool i = .idle from hlegal.1] at hr
    exact hr.begin_free hlegal.2
  | advance i spurious =>
    exact ThreadPool.invariant_step (fun h hr => hr.advance hlegal) hs.reconciled

theorem Sound.step (hs : s.Sound) (hlegal : s.Legal e) : (s.step e).Sound := by
  have hreconciled := hs.reconciled_step hlegal
  obtain ⟨i, st', live', u', heq, hpeak⟩ := hs.peak_step hlegal
  rw [heq] at hreconciled ⊢
  exact ⟨hreconciled, hs.peakLoaded.move hpeak, hs.bounded.move hpeak⟩

theorem Sound.raised_step (hs : s.Sound) (hlegal : s.Legal e) {j : ι} (h : s.Raised j sum) :
    (s.step e).Raised j sum := by
  obtain ⟨i, st', live', u', heq, hpeak⟩ := hs.peak_step hlegal
  rw [heq]
  exact h.move hpeak

omit [DecidableEq ι] in
theorem sound_start : (start : SharedStats ι).Sound := by
  have hnone : ThreadPool.total Update.holds (fun _ : ι => Update.idle) = 0 := by
    apply ThreadPool.total_eq_zero
    intro i
    funext q
    cases q with
    | billed => rfl
    | billedCount => rfl
    | booked => rfl
    | pending => rfl
  refine ⟨?_, fun _ _ _ _ h => (nomatch h), Or.inl (BitVec.le_refl _)⟩
  change Reconciled ({}, 0) (ThreadPool.total Update.holds fun _ : ι => Update.idle)
  rw [hnone]
  exact ⟨rfl, rfl, rfl, le_refl _⟩

theorem sound_of_run (hs : s.Sound) (h : Run updates s es t) : t.Sound :=
  h.invariant (I := Sound) (fun _ _ hs hlegal => hs.step hlegal) hs

/-- A sum that is on its way to the peak gets there, or stays on its way. -/
theorem raised_of_run (hs : s.Sound) {j : ι} (hraised : s.Raised j sum) (h : Run updates s es t) :
    t.Raised j sum := by
  have hboth : t.Sound ∧ t.Raised j sum := by
    apply h.invariant (I := fun t => t.Sound ∧ t.Raised j sum) _ ⟨hs, hraised⟩
    rintro t e ⟨hs, hraised⟩ hlegal
    exact ⟨hs.step hlegal, hs.raised_step hlegal hraised⟩
  exact hboth.2

theorem peak_of_run (hs : s.Sound) (h : Run updates s es t) :
    s.stats.peakAllocatedBytes ≤ t.stats.peakAllocatedBytes := by
  have hboth : t.Sound ∧ s.stats.peakAllocatedBytes ≤ t.stats.peakAllocatedBytes := by
    apply h.invariant (I := fun t => t.Sound ∧
      s.stats.peakAllocatedBytes ≤ t.stats.peakAllocatedBytes) _ ⟨hs, BitVec.le_refl _⟩
    rintro t e ⟨ht, hle⟩ hlegal
    obtain ⟨i, st', live', u', heq, hpeak⟩ := ht.peak_step hlegal
    refine ⟨ht.step hlegal, ?_⟩
    change _ ≤ (t.step e).stats.peakAllocatedBytes
    rw [heq]
    exact BitVec.le_trans hle hpeak.peak
  exact hboth.2

omit [DecidableEq ι] in
/-- Nothing is freed that was not allocated before. -/
theorem Sound.freed_le (hs : s.Sound) :
    s.stats.totalFreedBytes ≤ s.stats.totalAllocatedBytes ∧
      s.stats.totalFreeCount ≤ s.stats.totalAllocationCount := by
  have hbytes := hs.reconciled.bytes
  have hcount := hs.reconciled.count
  rw [BitVec.le_def, BitVec.le_def]
  dsimp only at hbytes hcount
  omega

end Runs

/-! ## The snapshot -/

/-- `MemoryStatsSnapshot::from`, its seven loads taking place in these states. -/
def snapshotFrom (s : Fin 7 → SharedStats ι) : MemoryStatsSnapshot where
  totalAllocatedBytes := (s 0).stats.totalAllocatedBytes
  totalFreedBytes := (s 1).stats.totalFreedBytes
  currentAllocatedBytes := (s 2).stats.currentAllocatedBytes
  peakAllocatedBytes := (s 3).stats.peakAllocatedBytes
  totalAllocationCount := (s 4).stats.totalAllocationCount
  totalFreeCount := (s 5).stats.totalFreeCount
  activeAllocationCount := (s 6).stats.activeAllocationCount

/-- The loads take place one after the other in a run, with updates in between. -/
structure Interleaved [DecidableEq ι] (s : Fin 7 → SharedStats ι) : Prop where
  reached : ∃ es, Run updates start es (s 0)
  between : ∀ k : Fin 6, ∃ es, Run updates (s k.castSucc) es (s k.succ)

/-- Between the two states there is a moment at which the thread is not in the loop on the peak
with this sum, so no update of it is there during both. -/
def Leaves [DecidableEq ι] (s t : SharedStats ι) (i : ι) (sum : Word) : Prop :=
  ∃ m es fs, Run updates s es m ∧ Run updates m fs t ∧ ¬ (m.pool i).Raising sum

section Snapshot

variable [DecidableEq ι] [Fintype ι] {s : Fin 7 → SharedStats ι}

theorem Interleaved.sound (h : Interleaved s) (k : Fin 7) : (s k).Sound := by
  induction k using Fin.induction with
  | zero =>
    obtain ⟨es, hrun⟩ := h.reached
    exact sound_of_run sound_start hrun
  | succ k ih =>
    obtain ⟨es, hrun⟩ := h.between k
    exact sound_of_run ih hrun

/-- The current bytes of the snapshot do not exceed its peak, unless an update is in the
loop on the peak during both loads. -/
theorem Interleaved.current_le_peak (h : Interleaved s)
    (hloop : ∀ i sum, ((s 2).pool i).Raising sum → Leaves (s 2) (s 3) i sum) :
    (snapshotFrom s).currentAllocatedBytes ≤ (snapshotFrom s).peakAllocatedBytes := by
  have hs := h.sound 2
  rcases hs.bounded with hpeak | ⟨i, sum, hcurrent, hraising⟩
  · obtain ⟨es, hrun⟩ : ∃ es, Run updates (s 2) es (s 3) := h.between 2
    exact BitVec.le_trans hpeak (peak_of_run hs hrun)
  · obtain ⟨m, es, fs, hrun, hrest, hout⟩ := hloop i sum hraising
    have hreached := (raised_of_run hs (Or.inr hraising) hrun).resolve_right hout
    have hgrown := peak_of_run (sound_of_run hs hrun) hrest
    exact BitVec.le_trans hcurrent (BitVec.le_trans hreached hgrown)

end Snapshot

/-! ## Updates without interference -/

section Alone

variable [DecidableEq ι] {st : MemoryStats} {live : Multiset Word} {pool : ι → Update} {i : ι}
  {n current : Word} {u : Update}

theorem run_advance (hwrap : st.NoWrap u) :
    Run updates ⟨st, live, update pool i u⟩ [.advance i false]
      ⟨(st.advance false u).1, live + u.given, update pool i (st.advance false u).2⟩ := by
  have hstep : step ⟨st, live, update pool i u⟩ (.advance i false) =
      ⟨(st.advance false u).1, live + u.given, update pool i (st.advance false u).2⟩ := by
    simp [step]
  rw [← hstep]
  refine .cons ?_ (.nil _)
  change st.NoWrap (update pool i u i)
  rwa [update_self]

/-- A step that ends no allocation. -/
theorem run_quiet {st' : MemoryStats} {u' : Update} (hadv : st.advance false u = (st', u'))
    (hwrap : st.NoWrap u) (hgiven : u.given = 0) :
    Run updates ⟨st, live, update pool i u⟩ [.advance i false] ⟨st', live, update pool i u'⟩ := by
  have hrun := @run_advance ι _ st live pool i u hwrap
  rwa [hadv, hgiven, add_zero] at hrun

/-- `update_on_alloc` up to the loop on the peak. -/
theorem run_toLoop (hidle : pool i = .idle) (hbytes : st.totalAllocatedBytes.toNat + n.toNat < 2 ^ 64)
    (hcount : st.totalAllocationCount.toNat + 1 < 2 ^ 64) :
    ∃ es, Run updates ⟨st, live, pool⟩ es
      ⟨(((st.addTotalAllocatedBytes n).addTotalAllocationCount).addActiveAllocationCount
        ).addCurrentAllocatedBytes n, live,
        update pool i (.loadPeak n (st.currentAllocatedBytes + n))⟩ := by
  have hbegin : Run updates ⟨st, live, pool⟩ [.alloc i n]
      ⟨st, live, update pool i (.addTotalBytes n)⟩ := .cons hidle (.nil _)
  have htotal : Run updates ⟨st, live, update pool i (.addTotalBytes n)⟩ [.advance i false]
      ⟨st.addTotalAllocatedBytes n, live, update pool i (.addTotalCount n)⟩ :=
    run_quiet rfl hbytes rfl
  have hcounted (st : MemoryStats) (h : st.totalAllocationCount.toNat + 1 < 2 ^ 64) :
      Run updates ⟨st, live, update pool i (.addTotalCount n)⟩ [.advance i false]
        ⟨st.addTotalAllocationCount, live, update pool i (.addActive n)⟩ := run_quiet rfl h rfl
  have hactive (st : MemoryStats) : Run updates ⟨st, live, update pool i (.addActive n)⟩
      [.advance i false] ⟨st.addActiveAllocationCount, live, update pool i (.addCurrent n)⟩ :=
    run_quiet rfl trivial rfl
  have hcurrent (st : MemoryStats) : Run updates ⟨st, live, update pool i (.addCurrent n)⟩
      [.advance i false] ⟨st.addCurrentAllocatedBytes n, live,
        update pool i (.loadPeak n (st.currentAllocatedBytes + n))⟩ :=
    run_quiet rfl trivial rfl
  exact ⟨_, hbegin.append (htotal.append ((hcounted (st.addTotalAllocatedBytes n) hcount).append
    ((hactive _).append (hcurrent _))))⟩

/-- The loop on the peak ends after one exchange. -/
theorem run_fromLoop :
    ∃ es, Run updates ⟨st, live, update pool i (.loadPeak n current)⟩ es
      ⟨if current > st.peakAllocatedBytes then st.storePeak current else st, live + {n},
        update pool i .idle⟩ := by
  have hload : Run updates ⟨st, live, update pool i (.loadPeak n current)⟩ [.advance i false]
      ⟨st, live, update pool i (.raisePeak n current st.peakAllocatedBytes)⟩ :=
    run_quiet rfl trivial rfl
  have hraise : Run updates
      ⟨st, live, update pool i (.raisePeak n current st.peakAllocatedBytes)⟩ [.advance i false]
      ⟨if current > st.peakAllocatedBytes then st.storePeak current else st, live,
        update pool i (.counted n)⟩ := by
    refine run_quiet ?_ trivial rfl
    unfold MemoryStats.advance
    dsimp only
    by_cases habove : current > st.peakAllocatedBytes
    · rw [if_pos habove, if_pos ⟨rfl, Bool.false_ne_true⟩, if_pos habove]
    · rw [if_neg habove, if_neg habove]
  have hreturn (st : MemoryStats) : Run updates ⟨st, live, update pool i (.counted n)⟩
      [.advance i false] ⟨st, live + {n}, update pool i .idle⟩ := run_advance trivial
  exact ⟨_, hload.append (hraise.append (hreturn _))⟩

/-- The steps of `update_on_alloc` together. -/
theorem run_updateOnAlloc (hidle : pool i = .idle)
    (hbytes : st.totalAllocatedBytes.toNat + n.toNat < 2 ^ 64)
    (hcount : st.totalAllocationCount.toNat + 1 < 2 ^ 64) :
    ∃ es, Run updates ⟨st, live, pool⟩ es ⟨st.updateOnAlloc n, live + {n}, pool⟩ := by
  obtain ⟨es, hloop⟩ := @run_toLoop ι _ st live pool i n hidle hbytes hcount
  obtain ⟨es', hrest⟩ := @run_fromLoop ι _ ((((st.addTotalAllocatedBytes n
    ).addTotalAllocationCount).addActiveAllocationCount).addCurrentAllocatedBytes n) live pool i n
    (st.currentAllocatedBytes + n)
  rw [← hidle, update_eq_self] at hrest
  exact ⟨_, hloop.append hrest⟩

/-- The steps of `update_on_free` together. -/
theorem run_updateOnFree (hidle : pool i = .idle) (hn : n ∈ live) :
    ∃ es, Run updates ⟨st, live, pool⟩ es ⟨st.updateOnFree n, live.erase n, pool⟩ := by
  have hbegin : Run updates ⟨st, live, pool⟩ [.free i n]
      ⟨st, live.erase n, update pool i (.addFreedBytes n)⟩ := .cons ⟨hidle, hn⟩ (.nil _)
  have hbytes (live : Multiset Word) : Run updates ⟨st, live, update pool i (.addFreedBytes n)⟩
      [.advance i false] ⟨st.addTotalFreedBytes n, live, update pool i (.addFreeCount n)⟩ :=
    run_quiet rfl trivial rfl
  have hcount (st : MemoryStats) (live : Multiset Word) :
      Run updates ⟨st, live, update pool i (.addFreeCount n)⟩ [.advance i false]
        ⟨st.addTotalFreeCount, live, update pool i (.subActive n)⟩ := run_quiet rfl trivial rfl
  have hactive (st : MemoryStats) (live : Multiset Word) :
      Run updates ⟨st, live, update pool i (.subActive n)⟩ [.advance i false]
        ⟨st.subActiveAllocationCount, live, update pool i (.subCurrent n)⟩ :=
    run_quiet rfl trivial rfl
  have hcurrent (st : MemoryStats) (live : Multiset Word) :
      Run updates ⟨st, live, update pool i (.subCurrent n)⟩ [.advance i false]
        ⟨st.subCurrentAllocatedBytes n, live, update pool i .idle⟩ := run_quiet rfl trivial rfl
  have hrun := hbegin.append ((hbytes _).append ((hcount _ _).append ((hactive _ _).append
    (hcurrent _ _))))
  rw [← hidle, update_eq_self] at hrun
  exact ⟨_, hrun⟩

end Alone

/-! ## Snapshots that contradict themselves -/

/-- What two threads do before each of the seven loads. The first has counted 16 bytes and the
second is counting 32 before the first load; the one frees its bytes and counts 8 more, the
other goes through the loop on the peak and then frees. -/
def meanwhile : Fin 7 → List (UpdateEvent Pair) :=
  let a : UpdateEvent Pair := .advance .first false
  let b : UpdateEvent Pair := .advance .second false
  ![.alloc .first 16 :: List.replicate 7 a ++ [.alloc .second 32, b],
    [.free .first 16, a, b, a, b], [b, b], [a, b, a], [.alloc .first 8, a, b, a],
    [.free .second 32, b, a, b], [a, b]]

/-- The state at each load. -/
def loaded (k : Fin 7) : SharedStats Pair :=
  ((List.ofFn meanwhile).take (k + 1)).flatten.foldl step start

theorem interleaved_loaded : Interleaved loaded := by
  refine ⟨⟨meanwhile 0, .of_allows (by decide +kernel)⟩, fun k => ⟨meanwhile k.succ, ?_⟩⟩
  fin_cases k
  all_goals exact .of_allows (by decide +kernel)

end SharedStats

end MemSentry
