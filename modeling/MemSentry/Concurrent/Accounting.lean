import MemSentry.Concurrent.Custody
import MemSentry.Concurrent.ComputedRuns
import MemSentry.Concurrent.Solo

/-!
# The machine keeps its accounts

The accounts are balanced against what everybody holds in every state that a run reaches in
which no total wraps (`settled_of_run`). What the counters say of the table follows
(`accounting_invariant`).
-/

namespace MemSentry

open ByteMemory MemSentry.Core Function Transition World
open ThreadPool (Pair)

/-! ## Runs of the machine -/

namespace Machine

variable {ι : Type} [Fintype ι] [DecidableEq ι]

/-- Every thread is on the tracked path, and the accounts are balanced. -/
structure Settled (s : Machine ι) : Prop where
  opened : s.world.Open
  inside : ∀ i, ¬ (s.pool i).Stray
  fault : s.world.fault = false
  balanced : Balanced s.world.accounts s.holding

variable {tid : ι → ThreadId} {s : Machine ι}

omit [DecidableEq ι] in
theorem Settled.tended (hs : s.Settled) : s.Tended :=
  ⟨hs.opened, hs.inside, hs.balanced.custody⟩

omit [DecidableEq ι] in
theorem settled_start {c : Config} (hc : c.Plain) (mem : Memory) :
    (start c mem : Machine ι).Settled := by
  refine ⟨⟨hc.exhaustive, rfl, fun _ => rfl⟩, fun _ => id, rfl, ?_⟩
  rw [holding_of_quiescent fun _ => rfl]
  exact balanced_start

/-- The history of insertions only grows. -/
theorem Settled.inserted_step (hs : s.Settled) {e : Event ι} (hlegal : s.Legal tid e)
    (hwrap : s.NoWrap e) {r : AllocationRecord} (hr : r ∈ s.world.accounts.inserted) :
    r ∈ (s.step tid e).world.accounts.inserted :=
  hs.tended.invariant_step (I := fun a _ => r ∈ a.inserted) (W := True) hlegal (fun _ => hwrap)
    hwrap.fits (fun _ _ _ hm hr => hm.inserted hr) hr

theorem Settled.step (hs : s.Settled) {e : Event ι} (hlegal : s.Legal tid e)
    (hwrap : s.NoWrap e) : (s.step tid e).Settled := by
  have ht := hs.tended
  have hnext := ht.step hlegal hwrap.fits
  have hfault : (s.step tid e).world.accounts.fault = false :=
    ht.invariant_step (I := fun a _ => a.fault = false) (W := True) hlegal (fun _ => hwrap)
      hwrap.fits (fun _ _ _ hm hfault => hm.fault.trans hfault) hs.fault
  have hbalanced : Balanced (s.step tid e).world.accounts (s.step tid e).holding :=
    ht.invariant_step (W := True) hlegal (fun _ => hwrap) hwrap.fits
      (fun _ _ _ hm hb => hb.motion hm trivial) hs.balanced
  exact ⟨hnext.opened, hnext.inside, hfault, hbalanced⟩

theorem settled_of_run {c : Config} (hc : c.Plain) {mem : Memory} {es : List (Event ι)}
    (h : Run (accountable tid) (start c mem) es s) : s.Settled :=
  h.invariant (fun _ _ hs hg => hs.step hg.1 hg.2) (settled_start hc mem)

/-! ## The counters -/

/-- What the accounts say next to one thread. -/
theorem Settled.balanced_at (hs : s.Settled) (i : ι) :
    ∃ o, Balanced s.world.accounts ((s.pool i).holds + o) := by
  have hb := hs.balanced
  rw [holding, ThreadPool.total_eq _ _ i, add_assoc] at hb
  exact ⟨_, hb⟩

omit [DecidableEq ι] in
theorem Settled.counters (hs : s.Settled) :
    s.world.tracker.records.card ≤ s.world.stats.activeAllocationCount.toNat ∧
      s.world.tracker.storedBytes ≤ s.world.stats.currentAllocatedBytes.toNat := by
  have hactive : s.world.stats.activeAllocationCount.toNat = _ := hs.balanced.agrees.active
  have hcurrent : s.world.stats.currentAllocatedBytes.toNat = _ := hs.balanced.agrees.current
  rw [hactive, hcurrent]
  exact ⟨Nat.le_add_right _ _, Nat.le_add_right _ _⟩

omit [DecidableEq ι] in
/-- No operation in progress, and the counters are exact. -/
theorem Settled.counters_exact (hs : s.Settled) (hq : s.Quiescent) :
    s.world.stats.activeAllocationCount.toNat = s.world.tracker.records.card ∧
      s.world.stats.currentAllocatedBytes.toNat = s.world.tracker.storedBytes := by
  have hb := hs.balanced
  rw [holding_of_quiescent hq] at hb
  exact ⟨hb.agrees.active, hb.agrees.current⟩

/-- The insertion of a new record finds the table without its key. -/
theorem Settled.insert_fresh (hs : s.Settled) {i : ι} {r : AllocationRecord} {k : After}
    (hp : s.pool i = .insert r k) :
    r.userPtr ≠ 0 ∧ s.world.tracker.find r.userPtr = none := by
  obtain ⟨o, hb⟩ := hs.balanced_at i
  rw [hp] at hb
  exact hb.custody.find_of_held (by simp [Point.holds])

/-- No step of `update_on_alloc` or `update_on_free` wraps the two counters. -/
structure InRange (w : World) (p : Point) : Prop where
  addActive : ∀ r k, p = .addActive r k → w.stats.activeAllocationCount.toNat + 1 < 2 ^ 64
  addCurrent : ∀ r k, p = .addCurrent r k →
    w.stats.currentAllocatedBytes.toNat + r.requestedSize.toNat < 2 ^ 64
  subActive : ∀ r verdict result, p = .subActive r verdict result →
    0 < w.stats.activeAllocationCount.toNat
  subCurrent : ∀ r verdict result, p = .subCurrent r verdict result →
    r.requestedSize.toNat ≤ w.stats.currentAllocatedBytes.toNat

theorem Settled.inRange (hs : s.Settled) (i : ι) : InRange s.world (s.pool i) := by
  obtain ⟨o, hb⟩ := hs.balanced_at i
  obtain ⟨hactive, hcurrent, hissued, hcovered⟩ := hb.agrees
  have hcounter := s.world.allocCounter.isLt
  have htotal := s.world.stats.totalAllocatedBytes.isLt
  refine ⟨fun r k hp => ?_, fun r k hp => ?_, fun r v q hp => ?_, fun r v q hp => ?_⟩
  · rw [hp] at hissued
    simp [Point.holds, accounts] at hissued
    omega
  · rw [hp] at hcovered
    simp [Point.holds, accounts] at hcovered
    omega
  · rw [hp] at hactive
    simp [Point.holds, accounts] at hactive
    omega
  · rw [hp] at hcurrent
    simp [Point.holds, accounts] at hcurrent
    omega

/-- The accounting invariant, at every point of every interleaving: an insertion never
finds its key present, the counters never fall behind the table and never wrap, and they
agree with the table whenever no operation is in progress. -/
theorem accounting_invariant {c : Config} (hc : c.Plain) {mem : Memory} {es : List (Event ι)}
    (h : Run (accountable tid) (start c mem) es s) :
    (∀ i r k, s.pool i = .insert r k →
      r.userPtr ≠ 0 ∧ s.world.tracker.find r.userPtr = none) ∧
    s.world.tracker.records.card ≤ s.world.stats.activeAllocationCount.toNat ∧
    s.world.tracker.storedBytes ≤ s.world.stats.currentAllocatedBytes.toNat ∧
    (∀ i, InRange s.world (s.pool i)) ∧
    (s.Quiescent →
      s.world.stats.activeAllocationCount.toNat = s.world.tracker.records.card ∧
      s.world.stats.currentAllocatedBytes.toNat = s.world.tracker.storedBytes) := by
  have hs := settled_of_run hc h
  obtain ⟨hactive, hcurrent⟩ := hs.counters
  exact ⟨fun i r k => hs.insert_fresh, hactive, hcurrent, hs.inRange, hs.counters_exact⟩

theorem plain_default : Config.Plain {} := ⟨rfl, by decide, by decide, rfl⟩

/-- Two threads at work: the first allocates 16 bytes and has not inserted its record yet, the
second has allocated 40 bytes and is about to take its released block off the counters. -/
def interleaved : List (Event Pair) :=
  let a : Event Pair := .advance .first { malloc := 0x10000 }
  let b : Event Pair := .advance .second { malloc := 0x20000 }
  [.call .first (.alloc 16 16 0), .call .second (.alloc 40 64 0), a, b, b, a, b, a, b, b, a, b, b,
    b, a, a, b, a, b, b, .call .second (.free 0x20080), b, b, b, b, a]

/-- The record that the first thread is about to insert. -/
def pendingRecord : AllocationRecord :=
  { allocationId := 1, userPtr := 0x10050, rawPtr := 0x10000, requestedSize := 16
    totalSize := 116, alignment := 16 }

theorem accounting_invariant_interleaved :
    let s := after pair {} (fun _ => 0) interleaved
    Run (accountable pair) (start {} fun _ => 0) interleaved s ∧
      s.pool .first = .insert pendingRecord .done ∧
      s.world.tracker.find pendingRecord.userPtr = none ∧
      s.world.stats.activeAllocationCount = 2 ∧ s.world.tracker.records.card ≤ 2 ∧
      s.world.stats.currentAllocatedBytes = 56 ∧ s.world.tracker.storedBytes ≤ 56 := by
  intro s
  have hrun : Run (accountable pair) (start {} fun _ => 0) interleaved s :=
    run_from_start pair (fun s e => s.NoWrap e) (by decide +kernel)
  have hpoint : s.pool .first = .insert pendingRecord .done := by decide +kernel
  have hcount : s.world.stats.activeAllocationCount = 2 := by decide +kernel
  have hbytes : s.world.stats.currentAllocatedBytes = 56 := by decide +kernel
  obtain ⟨hinsert, hactive, hcurrent, _⟩ := accounting_invariant plain_default hrun
  rw [hcount] at hactive
  rw [hbytes] at hcurrent
  exact ⟨hrun, hpoint, (hinsert _ _ _ hpoint).2, hcount, hactive, hbytes, hcurrent⟩

end Machine

end MemSentry
