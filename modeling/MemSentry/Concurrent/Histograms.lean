import MemSentry.Concurrent.ComputedRuns
import MemSentry.Concurrent.Custody
import MemSentry.Concurrent.Solo
import MemSentry.Core.SnapshotScan
import MemSentry.Profiler.Fragmentation
import Mathlib.Data.BitVec
import Mathlib.Tactic.Ring

/-!
# Histograms and counters

The counters, the table and the histogram of the freed sizes are kept separately. Whatever
wraps, the byte sums of a fragmentation report agree with the counters, and so do the sums
of the counts as long as no block of zero bytes is tracked, the one size without a bucket
(`histograms_conserve`).
-/

namespace MemSentry

open ByteMemory MemSentry.Core Profiler Function Transition World
open ThreadPool (Pair)

/-! ## The table and the counters -/

/-- The counters of the active allocations agree with the table and the holding, modulo
`2 ^ 64`. -/
structure Tallied (a : Accounts) (h : Holding) : Prop where
  active : a.activeAllocationCount = BitVec.ofNat 64 (a.tracker.records.card + h.counted)
  current : a.currentAllocatedBytes = BitVec.ofNat 64 (a.tracker.storedBytes + h.booked)

section Tallied

variable {W : Prop} {a a' : Accounts} {h h' x y o : Holding}

theorem Tallied.post (he : Entry W a x a' y) (hc : Custody a (x + o)) (ht : Tallied a (x + o)) :
    Tallied a' (y + o) := by
  obtain ⟨hactive, hcurrent⟩ := ht
  cases he with
  | count =>
    refine ⟨?_, by simpa using hcurrent⟩
    simp [BitVec.ofNat_add] at hactive ⊢
    rw [hactive]
    ring
  | book n =>
    refine ⟨by simpa using hactive, ?_⟩
    simp [BitVec.ofNat_add] at hcurrent ⊢
    rw [hcurrent]
    ring
  | insert r =>
    obtain ⟨hr, hfree⟩ := @Custody.find_of_held _ _ hc r (by simp)
    constructor
    · simp [ShardedTracker.records_insert hr hfree, BitVec.ofNat_add] at hactive ⊢
      rw [hactive]
      ring
    · simp [storedBytes_insert hr hfree, BitVec.ofNat_add] at hcurrent ⊢
      rw [hcurrent]
      ring
  | erase ptr r hfind =>
    constructor
    · simp [ShardedTracker.records_eq_cons_afterErase hfind, BitVec.ofNat_add] at hactive ⊢
      rw [hactive]
      ring
    · simp [storedBytes_erase hfind, BitVec.ofNat_add] at hcurrent ⊢
      rw [hcurrent]
      ring
  | uncount =>
    refine ⟨?_, by simpa using hcurrent⟩
    simp [BitVec.ofNat_add] at hactive ⊢
    rw [hactive]
    ring
  | unbook n =>
    refine ⟨by simpa using hactive, ?_⟩
    simp [BitVec.ofNat_add] at hcurrent ⊢
    rw [hcurrent]
    ring
  | _ => exact ⟨by simpa using hactive, by simpa using hcurrent⟩

theorem Tallied.motion (hm : Motion W a h a' h') (hc : Custody a (h + o)) (ht : Tallied a (h + o)) :
    Tallied a' (h' + o) := by
  obtain ⟨x, y, rest, rfl, rfl, he⟩ := hm
  rw [add_assoc] at hc ht ⊢
  exact ht.post he hc

end Tallied

/-! ## Freed sizes -/

/-- The bytes and the count of a release that are in the counters and not in the histogram. -/
def Point.unrecorded : Point → Word × Word
  | .addFreeCount r _ _ => (r.requestedSize, 0)
  | .subActive r _ _ | .subCurrent r _ _ | .recordSize r _ _ => (r.requestedSize, 1)
  | _ => 0

/-- What the counters of the releases have and the histogram lacks. -/
def World.unrecorded (w : World) : Word × Word :=
  (w.stats.totalFreedBytes - w.freeHist.totalBytes,
    w.stats.totalFreeCount - w.freeHist.totalCount)

/-- What a step does to the counters of the releases and to the histogram. -/
inductive FreedStep (w : World) (p : Point) (w' : World) (p' : Point) : Prop
  | quiet (hbytes : w'.stats.totalFreedBytes = w.stats.totalFreedBytes)
      (hcount : w'.stats.totalFreeCount = w.stats.totalFreeCount)
      (hhist : w'.freeHist = w.freeHist) (hp : p'.unrecorded = p.unrecorded)
  | addFreedBytes (r : AllocationRecord) (verdict : CorruptionType) (result : Ptr)
      (hp : p = .addFreedBytes r verdict result) (hp' : p' = .addFreeCount r verdict result)
      (hw : w' = { w.clearLog with stats := w.stats.addTotalFreedBytes r.requestedSize })
  | addFreeCount (r : AllocationRecord) (verdict : CorruptionType) (result : Ptr)
      (hp : p = .addFreeCount r verdict result) (hp' : p' = .subActive r verdict result)
      (hw : w' = { w.clearLog with stats := w.stats.addTotalFreeCount })
  | recordSize (r : AllocationRecord) (verdict : CorruptionType) (result : Ptr)
      (hp : p = .recordSize r verdict result) (hp' : p'.unrecorded = 0)
      (hw : w' = { w.clearLog with freeHist := w.freeHist.record r.requestedSize })

section Freed

variable {w w' : World} {p p' : Point} {tid : ThreadId} {o : Oracle}

theorem After.unrecorded_next (k : After) (ptr : Ptr) : (k.next ptr).unrecorded = 0 := by
  cases k with
  | done => rfl
  | moveFrom old record newSize =>
    rcases eq_or_ne ptr 0 with rfl | hne
    · rw [After.next_failed]
      rfl
    · rw [After.next_moved hne]
      rfl

/-- A step that has nothing to do with releases. -/
theorem FreedStep.still (hw : w'.stats = w.stats ∧ w'.freeHist = w.freeHist)
    (hp' : p'.unrecorded = p.unrecorded) : FreedStep w p w' p' :=
  .quiet (congrArg _ hw.1) (congrArg _ hw.1) hw.2 hp'

theorem layOut_freed (args : AllocArgs) (allocId : Word) (k : After) :
    FreedStep w (.layOut args allocId k) (w.clearLog.layOut tid o args allocId k).1
      (w.clearLog.layOut tid o args allocId k).2 := by
  have hframe := @layOut_frame w.clearLog tid o args allocId k
  refine .still ⟨hframe.stats, hframe.freeHist⟩ ?_
  rcases @layOut_point w.clearLog tid o args allocId k with h | ⟨userPtr, h⟩
  · rw [h]
    exact k.unrecorded_next 0
  · rw [h]
    rfl

/-- On the tracked path every step is one of the four. -/
theorem advance_freed (hinside : ¬ p.Stray) (hready : w.Ready p) :
    FreedStep w p (w.clearLog.advance tid o p).1 (w.clearLog.advance tid o p).2 := by
  cases p with
  | drawId args k =>
    refine .still ⟨rfl, rfl⟩ ?_
    unfold advance advanceAllocate
    dsimp only
    split
    · rfl
    · rfl
  | systemAlloc size k => exact absurd trivial hinside
  | layOut args allocId k => exact layOut_freed args allocId k
  | addCurrent r k => exact .quiet rfl rfl rfl rfl
  | raisePeak r current peak k =>
    unfold advance advanceAllocate
    dsimp only
    split
    · split
      · exact .quiet rfl rfl rfl rfl
      · exact .still ⟨rfl, rfl⟩ rfl
    · exact .still ⟨rfl, rfl⟩ rfl
  | checkLimit ptr k =>
    refine .still ?_ (k.unrecorded_next ptr)
    change w.clearLog.checkLimit.stats = _ ∧ w.clearLog.checkLimit.freeHist = _
    rcases @checkLimit_eq w.clearLog with h | ⟨m, n, h⟩
    · rw [h]
      exact ⟨rfl, rfl⟩
    · rw [h]
      exact ⟨rfl, rfl⟩
  | erase ptr result =>
    rcases eq_or_ne ptr 0 with rfl | hne
    · exact .still ⟨rfl, rfl⟩ rfl
    · obtain ⟨r, hfind⟩ := hready hne
      have hstep : w.clearLog.advance tid o (.erase ptr result) = _ :=
        @erase_of_stored w.clearLog ptr r hfind result
      rw [hstep]
      exact .still ⟨rfl, rfl⟩ rfl
  | verify r ptr result =>
    refine .still ?_ rfl
    unfold advance advanceDeallocate
    dsimp only
    split
    · exact ⟨rfl, rfl⟩
    · exact ⟨rfl, rfl⟩
  | addFreedBytes r verdict result => exact .addFreedBytes r verdict result rfl rfl rfl
  | addFreeCount r verdict result => exact .addFreeCount r verdict result rfl rfl rfl
  | recordSize r verdict result =>
    refine .recordSize r verdict result rfl ?_ rfl
    unfold advance advanceDeallocate
    dsimp only
    split
    · rfl
    · rfl
  | freeBlock r result => exact .still ⟨rawSystemFree_system.stats, rawSystemFree_system.freeHist⟩ rfl
  | systemFree ptr => exact absurd trivial hinside
  | find ptr newSize =>
    obtain ⟨r, hfind⟩ := hready
    have hstep : w.clearLog.advance tid o (.find ptr newSize) = _ :=
      @find_of_stored w.clearLog tid o ptr r hfind newSize
    rw [hstep]
    exact .still ⟨rfl, rfl⟩ rfl
  | checkOld ptr r newSize =>
    refine .still ?_ ?_
    · change (w.clearLog.checkOldBlock ptr r).stats = _ ∧
        (w.clearLog.checkOldBlock ptr r).freeHist = _
      unfold checkOldBlock
      split
      · dsimp only
        split
        · exact ⟨rfl, rfl⟩
        · exact ⟨rfl, rfl⟩
      · exact ⟨rfl, rfl⟩
    · change (w.clearLog.enterAllocate tid _ _).unrecorded = 0
      unfold enterAllocate
      split
      · rfl
      · rfl
  | systemRealloc ptr newSize => exact absurd trivial hinside
  | _ => exact .quiet rfl rfl rfl rfl

/-- The bytes on their way into the histogram are those that the counter has already. -/
theorem FreedStep.bytes (h : FreedStep w p w' p') (hhist : w.freeHist.Standard) :
    w'.freeHist.Standard ∧
      w'.unrecorded.1 + p.unrecorded.1 = w.unrecorded.1 + p'.unrecorded.1 := by
  cases h with
  | quiet hbytes hcount hkept hp =>
    rw [hkept]
    refine ⟨hhist, ?_⟩
    rw [hp]
    simp only [unrecorded, hbytes, hkept]
  | addFreedBytes r verdict result hp hp' hw =>
    subst hp hp' hw
    refine ⟨hhist, ?_⟩
    simp [unrecorded, Point.unrecorded, clearLog, MemoryStats.addTotalFreedBytes]
    ring
  | addFreeCount r verdict result hp hp' hw =>
    subst hp hp' hw
    exact ⟨hhist, rfl⟩
  | recordSize r verdict result hp hp' hw =>
    subst hp hw
    refine ⟨hhist.record _, ?_⟩
    rw [hp']
    simp [unrecorded, Point.unrecorded, clearLog, (hhist.totals_record r.requestedSize).2]
    ring

/-! ## Blocks of some bytes -/

/-- The sizes that the thread is about to store or to count are not zero. -/
def Point.Sized : Point → Prop
  | .addTotalBytes r _ | .addTotalCount r _ | .addActive r _ | .addCurrent r _
  | .loadPeak r _ _ | .raisePeak r _ _ _ | .insert r _ => r.requestedSize ≠ 0
  | .verify r _ _ | .addFreedBytes r _ _ | .addFreeCount r _ _ | .subActive r _ _
  | .subCurrent r _ _ | .recordSize r _ _ => r.requestedSize ≠ 0
  | _ => True

/-- The allocation is of zero bytes, and the system has a block for it. -/
def World.TracksZero (w : World) (o : Oracle) : Point → Prop
  | .layOut args _ _ => args.size = 0 ∧ o.malloc ≠ 0 ∧
      calculateTotalSize args.size (effectiveAlignment args.alignment) w.config.footerSize ≠ 0
  | _ => False

instance (w : World) (o : Oracle) (p : Point) : Decidable (w.TracksZero o p) :=
  match p with
  | .layOut .. => inferInstanceAs (Decidable (_ ∧ _))
  | .idle | .drawId .. | .systemAlloc .. | .addTotalBytes .. | .addTotalCount .. | .addActive ..
  | .addCurrent .. | .loadPeak .. | .raisePeak .. | .insert .. | .checkLimit .. | .erase ..
  | .verify .. | .addFreedBytes .. | .addFreeCount .. | .subActive .. | .subCurrent ..
  | .recordSize .. | .poison .. | .freeBlock .. | .systemFree .. | .find .. | .checkOld ..
  | .copy .. | .systemRealloc .. | .finish .. => isFalse id

/-- No stored record is of zero bytes. -/
def World.Sized (w : World) : Prop :=
  ∀ ptr r, w.tracker.find ptr = some r → r.requestedSize ≠ 0

theorem After.sized_next (k : After) (ptr : Ptr) : (k.next ptr).Sized := by
  cases k with
  | done => trivial
  | moveFrom old record newSize =>
    rcases eq_or_ne ptr 0 with rfl | hne
    · rw [After.next_failed]
      trivial
    · rw [After.next_moved hne]
      trivial

theorem enterAllocate_sized (args : AllocArgs) (k : After) :
    (w.enterAllocate tid args k).Sized := by
  unfold enterAllocate
  split
  · trivial
  · trivial

theorem sized_of_stray (h : p.Stray) : p.Sized := by
  cases p with
  | systemAlloc | systemFree | systemRealloc => trivial
  | _ => exact absurd h id

theorem enter_sized (q : Request) : (w.enter tid q).Sized := by
  apply enter_induction (P := Point.Sized) q
  · trivial
  · exact fun p => sized_of_stray
  · exact fun ptr => trivial
  · exact fun args => trivial
  · exact fun ptr newSize _ => trivial

/-- A call starts with nothing freed. -/
theorem enter_unrecorded (q : Request) : (w.enter tid q).unrecorded = 0 := by
  apply enter_induction (P := fun p => p.unrecorded = 0) q
  · rfl
  · intro p hp
    cases p with
    | systemAlloc | systemFree | systemRealloc => rfl
    | _ => exact absurd hp id
  · exact fun ptr => rfl
  · exact fun args => rfl
  · exact fun ptr newSize _ => rfl

theorem Sized.of_tracker (h : w.Sized) (htracker : w'.tracker = w.tracker) : w'.Sized := by
  unfold World.Sized
  rw [htracker]
  exact h

theorem layOut_sized {args : AllocArgs} {allocId : Word} {k : After} (hw : w.Sized)
    (hzero : ¬ w.TracksZero o (.layOut args allocId k)) :
    (w.layOut tid o args allocId k).1.Sized ∧ (w.layOut tid o args allocId k).2.Sized := by
  refine ⟨Sized.of_tracker hw (layOut_frame args allocId k).tracker, ?_⟩
  by_cases h0 : calculateTotalSize args.size (effectiveAlignment args.alignment)
      w.config.footerSize = 0
  · rw [layOut_of_zero h0]
    exact k.sized_next 0
  by_cases hraw : o.malloc = 0
  · rw [layOut_of_null h0 hraw]
    exact k.sized_next 0
  have hsize : args.size ≠ 0 := fun hsize => hzero ⟨hsize, hraw, h0⟩
  rcases @layOut_point w tid o args allocId k with h | ⟨userPtr, h⟩
  · rw [h]
    exact k.sized_next 0
  · rw [h]
    exact hsize

theorem advance_sized (hinside : ¬ p.Stray) (hready : w.Ready p) (hw : w.Sized) (hp : p.Sized)
    (hzero : ¬ w.TracksZero o p) :
    (w.clearLog.advance tid o p).1.Sized ∧ (w.clearLog.advance tid o p).2.Sized := by
  cases p with
  | drawId args k =>
    refine ⟨hw, ?_⟩
    unfold advance advanceAllocate
    dsimp only
    split
    · trivial
    · trivial
  | systemAlloc size k => exact absurd trivial hinside
  | layOut args allocId k => exact @layOut_sized w.clearLog tid o args allocId k hw hzero
  | raisePeak r current peak k =>
    unfold advance advanceAllocate
    dsimp only
    split
    · split
      · exact ⟨hw, hp⟩
      · exact ⟨hw, hp⟩
    · exact ⟨hw, hp⟩
  | insert r k =>
    refine ⟨fun ptr r' hfind => ?_, trivial⟩
    change (w.tracker.insert r.userPtr r).find ptr = some r' at hfind
    rcases eq_or_ne r.userPtr 0 with hzero | hne
    · rw [hzero, ShardedTracker.insert_null] at hfind
      exact hw ptr r' hfind
    · rw [ShardedTracker.find_insert hne] at hfind
      split at hfind
      · cases hfind
        exact hp
      · exact hw ptr r' hfind
  | checkLimit ptr k =>
    refine ⟨Sized.of_tracker hw ?_, k.sized_next ptr⟩
    exact congrArg Accounts.tracker (@accounts_checkLimit w.clearLog)
  | erase ptr result =>
    rcases eq_or_ne ptr 0 with rfl | hne
    · exact ⟨hw, trivial⟩
    · obtain ⟨r, hfind⟩ := hready hne
      have hstep : w.clearLog.advance tid o (.erase ptr result) = _ :=
        @erase_of_stored w.clearLog ptr r hfind result
      rw [hstep]
      refine ⟨fun q r' hfind' => ?_, hw ptr r hfind⟩
      change (w.tracker.afterErase ptr).find q = some r' at hfind'
      rw [ShardedTracker.find_afterErase] at hfind'
      split at hfind'
      · cases hfind'
      · exact hw q r' hfind'
  | verify r ptr result =>
    refine ⟨Sized.of_tracker hw ?_, hp⟩
    unfold advance advanceDeallocate
    dsimp only
    split
    · rfl
    · rfl
  | recordSize r verdict result =>
    refine ⟨hw, ?_⟩
    unfold advance advanceDeallocate
    dsimp only
    split
    · trivial
    · trivial
  | freeBlock r result =>
    exact ⟨Sized.of_tracker hw (@rawSystemFree_system w.clearLog r.rawPtr).tracker, trivial⟩
  | systemFree ptr => exact absurd trivial hinside
  | find ptr newSize =>
    obtain ⟨r, hfind⟩ := hready
    have hstep : w.clearLog.advance tid o (.find ptr newSize) = _ :=
      @find_of_stored w.clearLog tid o ptr r hfind newSize
    rw [hstep]
    exact ⟨hw, trivial⟩
  | checkOld ptr r newSize =>
    refine ⟨Sized.of_tracker hw ?_, ?_⟩
    · exact congrArg Accounts.tracker (@accounts_checkOldBlock w.clearLog ptr r)
    · exact @enterAllocate_sized w.clearLog tid ⟨newSize, r.alignment, r.tag⟩ _
  | systemRealloc ptr newSize => exact absurd trivial hinside
  | idle | finish ptr => exact ⟨hw, trivial⟩
  | poison r result => exact ⟨hw, trivial⟩
  | copy newPtr ptr bytes => exact ⟨hw, trivial⟩
  | _ => exact ⟨hw, hp⟩

/-- The same for the counts, where every size has a bucket. -/
theorem FreedStep.count (h : FreedStep w p w' p') (hhist : w.freeHist.Standard) (hp : p.Sized) :
    w'.unrecorded.2 + p.unrecorded.2 = w.unrecorded.2 + p'.unrecorded.2 := by
  cases h with
  | quiet hbytes hcount hkept hp =>
    rw [hp]
    simp only [unrecorded, hcount, hkept]
  | addFreedBytes r verdict result hp hp' hw =>
    subst hp hp' hw
    rfl
  | addFreeCount r verdict result hp hp' hw =>
    subst hp hp' hw
    simp [unrecorded, Point.unrecorded, clearLog, MemoryStats.addTotalFreeCount]
    ring
  | recordSize r verdict result hrecord hp' hw =>
    subst hrecord hw
    have hcounted : AllocationHistogram.countOf r.requestedSize = 1 := if_neg hp
    rw [hp']
    simp [unrecorded, Point.unrecorded, clearLog, (hhist.totals_record r.requestedSize).1,
      hcounted]
    ring

end Freed

/-! ## Runs -/

theorem After.next_ne_idle (k : After) (ptr : Ptr) : k.next ptr ≠ .idle := by
  cases k with
  | done => exact Point.noConfusion
  | moveFrom old record newSize =>
    unfold After.next
    dsimp only
    split
    · exact Point.noConfusion
    · exact Point.noConfusion

namespace Machine

variable {ι : Type} [Fintype ι] [DecidableEq ι] {tid : ι → ThreadId} {s : Machine ι} {e : Event ι}

/-- The event gets a block of zero bytes that is going to be tracked. -/
def TracksZero (s : Machine ι) (e : Event ι) : Prop :=
  ∃ i o, e = .advance i o ∧ s.world.TracksZero o (s.pool i)

instance (s : Machine ι) (e : Event ι) : Decidable (s.TracksZero e) :=
  match e with
  | .advance i o => decidable_of_iff (s.world.TracksZero o (s.pool i))
    ⟨fun h => ⟨i, o, rfl, h⟩, fun ⟨_, _, he, h⟩ => by cases he; exact h⟩
  | .call .. | .setCurrentTag .. | .store _ => isFalse fun ⟨_, _, he, _⟩ => by cases he

/-- The byte sums agree, what the threads are in the middle of being taken into account. -/
structure Reckoned (s : Machine ι) : Prop where
  tended : s.Tended
  tallied : Tallied s.world.accounts s.holding
  standard : s.world.freeHist.Standard
  freedBytes : s.world.unrecorded.1 = ThreadPool.total (fun p => p.unrecorded.1) s.pool

/-- No size is zero, and the counts agree as well. -/
structure SizedUp (s : Machine ι) : Prop where
  sized : s.world.Sized
  points : ∀ i, (s.pool i).Sized
  freedCount : s.world.unrecorded.2 = ThreadPool.total (fun p => p.unrecorded.2) s.pool

/-- The behaviour is undefined, in the middle of a call. -/
def Undefined (s : Machine ι) : Prop := s.world.fault = true ∧ ∃ i, s.pool i ≠ .idle

/-- A thread moves a quantity between itself and the world. -/
theorem total_move {f : Point → Word} {i : ι} {p' : Point} {x x' : Word}
    (h : x = ThreadPool.total f s.pool) (hmove : x' + f (s.pool i) = x + f p') :
    x' = ThreadPool.total f (update s.pool i p') := by
  rw [ThreadPool.total_update]
  rw [h, ThreadPool.total_eq f s.pool i] at hmove
  calc x' = x' + f (s.pool i) - f (s.pool i) := by ring
    _ = f p' + ThreadPool.others f s.pool i := by
      rw [hmove]
      ring

omit [Fintype ι] in
/-- A block laid out in too little memory. -/
theorem undefined_of_not_fits (hfits : ¬ s.Fits e) : (s.step tid e).Undefined := by
  unfold Fits at hfits
  push Not at hfits
  obtain ⟨i, o, rfl, hnot⟩ := hfits
  rcases hp : s.pool i with _ | _ | _ | ⟨args, allocId, k⟩
  case layOut =>
    rw [hp] at hnot
    simp only [World.Fits, not_or] at hnot
    obtain ⟨h0, hraw, hfit⟩ := hnot
    have hadv : s.world.clearLog.advance (tid i) o (s.pool i) = _ :=
      (congrArg _ hp).trans (@layOut_of_not_fit s.world.clearLog (tid i) o args allocId k h0 hraw
        hfit)
    refine ⟨?_, i, ?_⟩
    · change (s.world.clearLog.advance (tid i) o (s.pool i)).1.fault = true
      rw [hadv]
    · change update s.pool i (s.world.clearLog.advance (tid i) o (s.pool i)).2 i ≠ .idle
      rw [hadv, update_self]
      exact k.next_ne_idle 0
  all_goals
    rw [hp] at hnot
    exact absurd trivial hnot

theorem Reckoned.freed_step (hr : s.Reckoned) {i : ι} (o : Oracle) :
    FreedStep s.world (s.pool i) (s.world.clearLog.advance (tid i) o (s.pool i)).1
      (s.world.clearLog.advance (tid i) o (s.pool i)).2 :=
  advance_freed (hr.tended.inside i) (hr.tended.ready i)

theorem Reckoned.step (hr : s.Reckoned) (hlegal : s.Legal tid e) (hfits : s.Fits e) :
    (s.step tid e).Reckoned := by
  have ht := hr.tended
  have htallied : Custody (s.step tid e).world.accounts (s.step tid e).holding ∧
      Tallied (s.step tid e).world.accounts (s.step tid e).holding :=
    ht.invariant_step (I := fun a h => Custody a h ∧ Tallied a h) hlegal False.elim hfits
      (fun _ _ _ hm h => ⟨h.1.motion hm, h.2.motion hm h.1⟩) ⟨ht.custody, hr.tallied⟩
  cases e with
  | call i q =>
    refine ⟨ht.step hlegal hfits, htallied.2, hr.standard, ?_⟩
    refine total_move hr.freedBytes ?_
    rw [hlegal.idle i q rfl, enter_unrecorded]
    rfl
  | advance i o =>
    obtain ⟨hstandard, hbytes⟩ := (hr.freed_step o).bytes hr.standard
    exact ⟨ht.step hlegal hfits, htallied.2, hstandard, total_move hr.freedBytes hbytes⟩
  | setCurrentTag i tag =>
    exact ⟨ht.step hlegal hfits, htallied.2, hr.standard, hr.freedBytes⟩
  | store mem => exact ⟨ht.step hlegal hfits, htallied.2, hr.standard, hr.freedBytes⟩

theorem SizedUp.step (hz : s.SizedUp) (hr : s.Reckoned) (hlegal : s.Legal tid e)
    (hsize : ¬ s.TracksZero e) : (s.step tid e).SizedUp := by
  cases e with
  | call i q =>
    refine ⟨hz.sized, fun j => ?_, ?_⟩
    · change (update s.pool i (s.world.enter (tid i) q) j).Sized
      by_cases hji : j = i
      · subst j
        rw [update_self]
        exact enter_sized q
      · rw [update_of_ne hji]
        exact hz.points j
    · refine total_move hz.freedCount ?_
      rw [hlegal.idle i q rfl, enter_unrecorded]
      rfl
  | advance i o =>
    have hready := hr.tended.ready i
    obtain ⟨hsized, hpoint⟩ := @advance_sized s.world (s.pool i) (tid i) o (hr.tended.inside i)
      hready hz.sized (hz.points i) fun h => hsize ⟨i, o, rfl, h⟩
    refine ⟨hsized, fun j => ?_, ?_⟩
    · change (update s.pool i _ j).Sized
      by_cases hji : j = i
      · subst j
        rwa [update_self]
      · rw [update_of_ne hji]
        exact hz.points j
    · exact total_move hz.freedCount ((hr.freed_step o).count hr.standard (hz.points i))
  | setCurrentTag i tag => exact ⟨hz.sized, hz.points, hz.freedCount⟩
  | store mem => exact ⟨hz.sized, hz.points, hz.freedCount⟩

omit [DecidableEq ι] in
theorem total_of_quiescent {f : Point → Word} (hf : f .idle = 0) (hq : s.Quiescent) :
    ThreadPool.total f s.pool = 0 := by
  apply ThreadPool.total_eq_zero
  intro i
  rw [hq i, hf]

omit [Fintype ι] [DecidableEq ι] in
theorem unrecorded_start (c : Config) (mem : Memory) :
    (start c mem : Machine ι).world.unrecorded = 0 := by
  change ((0 : Word) - emptyHistogram.totalBytes, (0 : Word) - emptyHistogram.totalCount) = 0
  decide

omit [DecidableEq ι] in
theorem reckoned_start {c : Config} (hc : c.Exhaustive) (mem : Memory) :
    (start c mem : Machine ι).Reckoned := by
  refine ⟨tended_start hc mem, ?_, AllocationHistogram.standard_empty, ?_⟩
  · rw [holding_of_quiescent fun _ => rfl]
    have hrecords : ShardedTracker.empty.records = 0 := ShardedTracker.records_empty
    constructor
    · change (0 : Word) = BitVec.ofNat 64 (ShardedTracker.empty.records.card + 0)
      rw [hrecords]
      rfl
    · change (0 : Word) = BitVec.ofNat 64 (ShardedTracker.empty.storedBytes + 0)
      rw [ShardedTracker.storedBytes, hrecords]
      rfl
  · rw [unrecorded_start]
    exact (@total_of_quiescent ι _ (start c mem) (fun p => p.unrecorded.1) rfl fun _ => rfl).symm

omit [DecidableEq ι] in
theorem sizedUp_start (c : Config) (mem : Memory) : (start c mem : Machine ι).SizedUp := by
  refine ⟨fun ptr r hfind => ?_, fun _ => trivial, ?_⟩
  · rw [show (start c mem : Machine ι).world.tracker = ShardedTracker.empty from rfl,
      ShardedTracker.find_empty] at hfind
    cases hfind
  · rw [unrecorded_start]
    exact (@total_of_quiescent ι _ (start c mem) (fun p => p.unrecorded.2) rfl fun _ => rfl).symm

/-- Nothing follows on undefined behaviour. -/
theorem reckoned_of_run {c : Config} (hc : c.Exhaustive) {mem : Memory} {es : List (Event ι)}
    (h : Run (system tid fun _ _ => True) (start c mem) es s) : s.Reckoned ∨ s.Undefined := by
  apply h.invariant (I := fun s => s.Reckoned ∨ s.Undefined) _ (Or.inl (reckoned_start hc mem))
  rintro s e (hr | hu) ⟨hlegal, _⟩
  · by_cases hfits : s.Fits e
    · exact Or.inl (hr.step hlegal hfits)
    · exact Or.inr (undefined_of_not_fits hfits)
  · exact absurd (hlegal.defined.symm.trans hu.1) Bool.false_ne_true

theorem sizedUp_of_run {c : Config} (hc : c.Exhaustive) {mem : Memory} {es : List (Event ι)}
    (h : Run (system tid fun s e => ¬ s.TracksZero e) (start c mem) es s) :
    s.Reckoned ∧ s.SizedUp ∨ s.Undefined := by
  apply h.invariant (I := fun s => s.Reckoned ∧ s.SizedUp ∨ s.Undefined) _
    (Or.inl ⟨reckoned_start hc mem, sizedUp_start c mem⟩)
  rintro s e (⟨hr, hz⟩ | hu) ⟨hlegal, hsize⟩
  · by_cases hfits : s.Fits e
    · exact Or.inl ⟨hr.step hlegal hfits, hz.step hr hlegal hsize⟩
    · exact Or.inr (undefined_of_not_fits hfits)
  · exact absurd (hlegal.defined.symm.trans hu.1) Bool.false_ne_true

omit [Fintype ι] [DecidableEq ι] in
theorem not_undefined_of_quiescent (hq : s.Quiescent) : ¬ s.Undefined := by
  rintro ⟨_, i, hi⟩
  exact hi (hq i)

/-! ## Reports -/

/-- `get_fragmentation_report` while nobody else is at work; the table may be iterated in
any order. -/
def ReportsFragmentation (R : Rounding) (s : Machine ι) (report : FragmentationReport) : Prop :=
  ∃ records, s.world.tracker.SnapshotAll records ∧
    report = analyze R s.world.stats records s.world.freeHist

section Reports

variable {R : Rounding} {report : FragmentationReport}

theorem sum_requestedSize (records : List AllocationRecord) :
    (records.map AllocationRecord.requestedSize).sum =
      BitVec.ofNat 64 (records.map fun r => r.requestedSize.toNat).sum := by
  induction records with
  | nil => rfl
  | cons r rest ih => simp [BitVec.ofNat_add, ih]

theorem sum_countOf {records : List AllocationRecord}
    (h : ∀ r ∈ records, r.requestedSize ≠ 0) :
    (records.map fun r => AllocationHistogram.countOf r.requestedSize).sum =
      BitVec.ofNat 64 records.length := by
  induction records with
  | nil => rfl
  | cons r rest ih =>
    have hone : AllocationHistogram.countOf r.requestedSize = 1 := if_neg (h r List.mem_cons_self)
    rw [List.map_cons, List.sum_cons, ih fun r' hr' => h r' (List.mem_cons_of_mem r hr'), hone,
      List.length_cons, BitVec.ofNat_add, add_comm]
    rfl

omit [DecidableEq ι] in
/-- The bytes of the report, whatever was asked for. -/
theorem Reckoned.bytes (hr : s.Reckoned) (hq : s.Quiescent) (h : s.ReportsFragmentation R report) :
    AllocationHistogram.totalBytes report.activeBuckets = report.currentAllocatedBytes ∧
      AllocationHistogram.totalBytes report.freedBuckets = report.totalFreedBytes := by
  obtain ⟨records, hscan, rfl⟩ := h
  have hrecords := coe_of_snapshotAll hscan
  constructor
  · have hcurrent := hr.tallied.current
    rw [holding_of_quiescent hq] at hcurrent
    have hfeed := (AllocationHistogram.standard_empty.totals_feed records).2
    have hstored : (records.map fun r => r.requestedSize.toNat).sum =
        s.world.tracker.storedBytes := by
      rw [ShardedTracker.storedBytes, ← hrecords, Multiset.map_coe, Multiset.sum_coe]
    change (emptyHistogram.feed records).totalBytes = s.world.accounts.currentAllocatedBytes
    rw [hfeed, hcurrent, sum_requestedSize, hstored]
    exact zero_add _
  · have hfreed : s.world.stats.totalFreedBytes - s.world.freeHist.totalBytes = 0 :=
      hr.freedBytes.trans (total_of_quiescent rfl hq)
    exact (sub_eq_zero.mp hfreed).symm

omit [DecidableEq ι] in
/-- The counts of the report, where every size has a bucket. -/
theorem SizedUp.counts (hz : s.SizedUp) (hr : s.Reckoned) (hq : s.Quiescent)
    (h : s.ReportsFragmentation R report) :
    AllocationHistogram.totalCount report.activeBuckets = s.world.stats.activeAllocationCount ∧
      AllocationHistogram.totalCount report.freedBuckets = report.totalFreedBlocks := by
  obtain ⟨records, hscan, rfl⟩ := h
  have hrecords := coe_of_snapshotAll hscan
  constructor
  · have hactive := hr.tallied.active
    rw [holding_of_quiescent hq] at hactive
    have hfeed := (AllocationHistogram.standard_empty.totals_feed records).1
    have hsized : ∀ r ∈ records, r.requestedSize ≠ 0 := by
      intro r hmem
      have hstored : r ∈ s.world.tracker.records := by
        rw [← hrecords]
        exact hmem
      obtain ⟨ptr, hfind⟩ :=
        (ShardedTracker.mem_records hr.tended.custody.listed.wellPlaced).mp hstored
      exact hz.sized ptr r hfind
    have hcard : records.length = s.world.tracker.records.card := by
      rw [← hrecords, Multiset.coe_card]
    change (emptyHistogram.feed records).totalCount = s.world.accounts.activeAllocationCount
    rw [hfeed, hactive, sum_countOf hsized, hcard]
    exact zero_add _
  · have hfreed : s.world.stats.totalFreeCount - s.world.freeHist.totalCount = 0 :=
      hz.freedCount.trans (total_of_quiescent rfl hq)
    exact (sub_eq_zero.mp hfreed).symm

end Reports

/-- **Histograms conserve the accounting**, but for sizes of zero: while no operation is in
progress the bytes of the buckets add up to the counters after every run, and their counts
after every run in which no block of zero bytes is tracked. Every other size has one bucket. -/
theorem histograms_conserve {c : Config} (hc : c.Exhaustive) (mem : Memory) (R : Rounding) :
    (∀ (es : List (Event ι)) (s : Machine ι) (report : FragmentationReport),
      Run (system tid fun s e => ¬ s.TracksZero e) (start c mem) es s → s.Quiescent →
      s.ReportsFragmentation R report →
      AllocationHistogram.totalCount report.activeBuckets = s.world.stats.activeAllocationCount ∧
      AllocationHistogram.totalCount report.freedBuckets = report.totalFreedBlocks) ∧
    (∀ (es : List (Event ι)) (s : Machine ι) (report : FragmentationReport),
      Run (system tid fun _ _ => True) (start c mem) es s → s.Quiescent →
      s.ReportsFragmentation R report →
      AllocationHistogram.totalBytes report.activeBuckets = report.currentAllocatedBytes ∧
      AllocationHistogram.totalBytes report.freedBuckets = report.totalFreedBytes) ∧
    ∀ size : Word, size ≠ 0 → ∃! b, b ∈ emptyHistogram ∧ b.Admits size := by
  refine ⟨fun es s report hrun hq hreport => ?_, fun es s report hrun hq hreport => ?_,
    fun size => existsUnique_admits⟩
  · rcases sizedUp_of_run hc hrun with ⟨hr, hz⟩ | hu
    · exact hz.counts hr hq hreport
    · exact absurd hu (not_undefined_of_quiescent hq)
  · rcases reckoned_of_run hc hrun with hr | hu
    · exact hr.bytes hq hreport
    · exact absurd hu (not_undefined_of_quiescent hq)

/-- Two threads allocate 16 and 40 bytes, the first gives its block back, and the second asks
in vain for a block of zero bytes. -/
def sizing : List (Event Pair) :=
  let a : Event Pair := .advance .first { malloc := 0x10000 }
  let c : Event Pair := .advance .second { malloc := 0 }
  twoBlocks ++ [.call .first (.free 0x10050), a, a, .call .second (.alloc 0 16 0), a, c, a, c, a,
    c, a, a, a, a, a]

theorem histograms_conserve_sizing :
    let s := after pair {} (fun _ => 0) sizing
    Run (system pair fun s e => ¬ s.TracksZero e) (start {} fun _ => 0) sizing s ∧ s.Quiescent ∧
      ∃ report, s.ReportsFragmentation .exact report ∧
        AllocationHistogram.totalCount report.activeBuckets = 1 ∧
        AllocationHistogram.totalBytes report.activeBuckets = 40 ∧
        AllocationHistogram.totalCount report.freedBuckets = 1 ∧
        AllocationHistogram.totalBytes report.freedBuckets = 16 := by
  intro s
  have hrun : Run (system pair fun s e => ¬ s.TracksZero e) (start {} fun _ => 0) sizing s :=
    run_from_start pair (fun s e => ¬ s.TracksZero e) (by decide +kernel)
  have hquiet : s.Quiescent := by
    have hidle : ∀ i, s.pool i = .idle := by decide +kernel
    exact hidle
  have hcounters : (s.world.stats.activeAllocationCount, s.world.stats.currentAllocatedBytes,
      s.world.stats.totalFreeCount, s.world.stats.totalFreedBytes) = (1, 40, 1, 16) := by
    decide +kernel
  simp only [Prod.mk.injEq] at hcounters
  obtain ⟨hactive, hcurrent, hblocks, hfreed⟩ := hcounters
  have hany : Run (system pair fun _ _ => True) (start {} fun _ => 0) sizing s :=
    run_from_start pair (fun _ _ => True) (by decide +kernel)
  obtain ⟨records, hscan⟩ := exists_snapshotAll s.world.tracker
  have hreport : s.ReportsFragmentation .exact (analyze .exact s.world.stats records
    s.world.freeHist) := ⟨records, hscan, rfl⟩
  obtain ⟨hcounts, hbytes, _⟩ := @histograms_conserve Pair _ _ pair _ exhaustive_default
    (fun _ => 0) .exact
  obtain ⟨hactiveSum, hfreedSum⟩ := hcounts sizing s _ hrun hquiet hreport
  obtain ⟨hcurrentBytes, hfreedBytes⟩ := hbytes sizing s _ hany hquiet hreport
  exact ⟨hrun, hquiet, _, hreport, hactiveSum.trans hactive, hcurrentBytes.trans hcurrent,
    hfreedSum.trans hblocks, hfreedBytes.trans hfreed⟩

/-- Zero bytes allocated: one active allocation, and no bucket counts it. -/
theorem zero_size_uncounted :
    ∃ (es : List (Event (Fin 2))) (s : Machine (Fin 2)) (report : FragmentationReport),
      Run (system (fun i => BitVec.ofNat 32 i.val) fun _ _ => True) (start {} fun _ => 0) es s ∧
      s.Quiescent ∧ s.ReportsFragmentation .exact report ∧
      s.world.stats.activeAllocationCount = 1 ∧
      AllocationHistogram.totalCount report.activeBuckets = 0 := by
  have haccepted : Accepted ((World.start fun _ => 0).init {}) 0 { malloc := 0x10000 } 0 16 :=
    ⟨rfl, rfl, rfl, rfl, by decide, by decide, by decide, by decide, by decide, rfl,
      fresh_empty (by decide)⟩
  obtain ⟨es, w, r, hrun, ⟨_, _, hstats, _, _⟩, htracker, _, hr⟩ := @run_trackAlloc (Fin 2) _
    (fun i => BitVec.ofNat 32 i.val) ((World.start fun _ => 0).init {}) 0 (fun _ => .idle) 0
    { malloc := 0x10000 } 0 16 0 rfl haccepted (fun h => absurd h Bool.false_ne_true)
  obtain ⟨records, hscan⟩ := exists_snapshotAll w.tracker
  refine ⟨es, ⟨w, _, fun _ => .idle⟩, analyze .exact w.stats records w.freeHist,
    unguarded_of_silent hrun, fun _ => rfl, ⟨records, hscan, rfl⟩, ?_, ?_⟩
  · change w.stats.activeAllocationCount = 1
    rw [hstats]
    rfl
  · have hptr : r.userPtr ≠ 0 := by
      rw [hr.userPtr]
      decide
    have hstored : (records : Multiset AllocationRecord) = {r} := by
      rw [coe_of_snapshotAll hscan, htracker]
      change (ShardedTracker.empty.insert r.userPtr r).records = _
      rw [ShardedTracker.records_insert hptr (ShardedTracker.find_empty _),
        ShardedTracker.records_empty]
      rfl
    change (emptyHistogram.feed records).totalCount = 0
    rw [(AllocationHistogram.standard_empty.totals_feed records).1,
      Multiset.coe_eq_singleton.mp hstored]
    simp [hr.requestedSize, AllocationHistogram.countOf]
    rfl

end Machine

end MemSentry
