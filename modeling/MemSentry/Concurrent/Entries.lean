import MemSentry.Concurrent.Accounts
import MemSentry.Concurrent.Steps
import MemSentry.Manager.SafeRuns

/-!
# The entries that the steps make

`Point.holds` says what a thread holds at each point of a call. Under a configuration that
tracks every allocation, one step of a thread is one entry in the accounts
(`advance_motion`), and a call starts with the pointer that the client gave up
(`enter_spec`).
-/

namespace MemSentry

open ByteMemory MemSentry.Core Function Transition World

/-! ## Holdings of the points -/

/-- The old pointer of a reallocation stays with it until it is released. -/
def After.holds : After → Holding
  | .done => {}
  | .moveFrom ptr _ _ => { pointers := nonNull ptr }

def Point.holds : Point → Holding
  | .idle => {}
  | .drawId _ k => k.holds
  | .systemAlloc _ k => k.holds
  | .layOut _ allocId k => { tickets := 1, ids := {allocId} } + k.holds
  | .addTotalBytes r k =>
    { tickets := 1, ids := {r.allocationId}, blocks := {r} } + k.holds
  | .addTotalCount r k | .addActive r k =>
    { tickets := 1, pending := r.requestedSize.toNat, ids := {r.allocationId}, blocks := {r} } +
      k.holds
  | .addCurrent r k =>
    { counted := 1, pending := r.requestedSize.toNat, ids := {r.allocationId}, blocks := {r} } +
      k.holds
  | .loadPeak r _ k | .raisePeak r _ _ k | .insert r k =>
    { counted := 1, booked := r.requestedSize.toNat, ids := {r.allocationId}, blocks := {r} } +
      k.holds
  | .checkLimit ptr k => { pointers := nonNull ptr } + k.holds
  | .erase ptr result => { pointers := nonNull ptr + nonNull result }
  | .verify r _ result | .addFreedBytes r _ result | .addFreeCount r _ result
  | .subActive r _ result =>
    { counted := 1, booked := r.requestedSize.toNat, blocks := {r}, pointers := nonNull result }
  | .subCurrent r _ result =>
    { booked := r.requestedSize.toNat, blocks := {r}, pointers := nonNull result }
  | .recordSize r _ result | .poison r result | .freeBlock r result =>
    { blocks := {r}, pointers := nonNull result }
  | .systemFree _ => {}
  | .find ptr _ => { pointers := {ptr} }
  | .checkOld ptr _ _ => { pointers := nonNull ptr }
  | .copy newPtr ptr _ => { pointers := nonNull newPtr + nonNull ptr }
  | .systemRealloc ptr _ => { pointers := nonNull ptr }
  | .finish ptr => { pointers := nonNull ptr }

theorem After.holds_next (k : After) (ptr : Ptr) :
    (k.next ptr).holds = { pointers := nonNull ptr } + k.holds := by
  cases k with
  | done => ext1 <;> simp [After.next, Point.holds, After.holds]
  | moveFrom old record newSize =>
    rcases eq_or_ne ptr 0 with rfl | hne
    · rw [After.next_failed]
      ext1 <;> simp [Point.holds, After.holds]
    · rw [After.next_moved hne]
      ext1 <;> simp [Point.holds, After.holds]

/-! ## The accounts of a world -/

def insertedRecords (calls : List TrackerCall) : List AllocationRecord :=
  calls.filterMap fun
    | .insert _ r => some r
    | _ => none

def World.accounts (w : World) : Accounts where
  heap := w.heap
  tracker := w.tracker
  inserted := insertedRecords w.calls
  allocCounter := w.allocCounter
  totalAllocatedBytes := w.stats.totalAllocatedBytes
  activeAllocationCount := w.stats.activeAllocationCount
  currentAllocatedBytes := w.stats.currentAllocatedBytes
  fault := w.fault

/-- What the accounts imply for a thread at this point. -/
def World.Ready (w : World) : Point → Prop
  | .find ptr _ => ∃ r, w.tracker.find ptr = some r
  | .erase ptr _ => ptr ≠ 0 → ∃ r, w.tracker.find ptr = some r
  | .freeBlock r _ => r.rawPtr ≠ 0 ∧ (w.heap r.rawPtr).isSome
  | _ => True

/-- The step lays out no block in less memory than it takes. -/
def World.Fits (w : World) (o : Oracle) : Point → Prop
  | .layOut args _ _ =>
    calculateTotalSize args.size (effectiveAlignment args.alignment) w.config.footerSize = 0 ∨
      o.malloc = 0 ∨ SizesFit args.size (effectiveAlignment args.alignment) w.config.footerSize
  | _ => True

theorem World.NoWrap.fits {w : World} {p : Point} (h : w.NoWrap p) (o : Oracle) : w.Fits o p := by
  cases p with
  | layOut args allocId k => exact h.imp_right Or.inr
  | _ => trivial

section Steps

variable {w : World} {tid : ThreadId} {o : Oracle} {W : Prop}

theorem accounts_checkLimit : w.checkLimit.accounts = w.accounts := by
  rcases checkLimit_eq with h | ⟨m, n, h⟩
  · rw [h]
  · rw [h]
    rfl

theorem accounts_checkOldBlock {ptr : Ptr} {r : AllocationRecord} :
    (w.checkOldBlock ptr r).accounts = w.accounts := by
  unfold checkOldBlock
  split
  · dsimp only
    split
    · rfl
    · rfl
  · rfl

theorem accounts_rawSystemFree {ptr : Ptr} (hptr : ptr ≠ 0) (hlive : (w.heap ptr).isSome) :
    (w.rawSystemFree ptr).accounts = { w.accounts with heap := update w.heap ptr none } := by
  rw [rawSystemFree_of_ne hptr]
  simp [accounts, emit, hlive]

/-- The step from the drawn identifier to the finished record. -/
theorem layOut_motion (args : AllocArgs) (allocId : Word) (k : After)
    (hfits : w.Fits o (.layOut args allocId k))
    (hfresh : ∀ a ∈ (w.clearLog.layOut tid o args allocId k).1.log, a.Fresh w.heap) :
    Motion W w.accounts (Point.holds (.layOut args allocId k))
      (w.clearLog.layOut tid o args allocId k).1.accounts
      (w.clearLog.layOut tid o args allocId k).2.holds := by
  have hfail : Motion W w.accounts (Point.holds (.layOut args allocId k)) w.accounts
      (k.next 0).holds := by
    refine ⟨_, _, k.holds, rfl, ?_, .abandon allocId⟩
    rw [k.holds_next]
    ext1 <;> simp
  by_cases h0 : calculateTotalSize args.size (effectiveAlignment args.alignment)
      w.config.footerSize = 0
  · rw [@layOut_of_zero w.clearLog tid o args allocId k h0]
    exact hfail
  by_cases hraw : o.malloc = 0
  · rw [@layOut_of_null w.clearLog tid o args allocId k h0 hraw]
    exact hfail
  have hfit := (hfits.resolve_left h0).resolve_left hraw
  have heq := @layOut_of_fit w.clearLog tid o args allocId k h0 hraw hfit
  rw [heq] at hfresh ⊢
  have hf : Fresh w.heap o.malloc (calculateTotalSize args.size
      (effectiveAlignment args.alignment) w.config.footerSize) :=
    hfresh (.systemAlloc _ o.malloc) List.mem_cons_self hraw
  have hplaced := @recordOf_placed w o tid args.size args.alignment args.tag allocId hraw hfit
    (Nat.le_trans (Nat.add_le_add_left (le_extent _) _) hf.1)
  refine ⟨_, _, { tickets := 1, ids := {allocId} } + k.holds, ?_, ?_,
    .layOut (w.clearLog.recordOf o tid allocId args.size args.alignment args.tag
      (userAddress o.malloc (effectiveAlignment args.alignment))) hf hplaced⟩
  · ext1 <;> simp [Point.holds]
  · ext1 <;> simp [Point.holds]

/-- A step of `allocate` is one entry. -/
theorem advanceAllocate_motion {p : Point} (hopen : w.Open) (hinside : ¬ p.Stray)
    (hwrap : W → w.NoWrap p) (hfits : w.Fits o p)
    (hfresh : ∀ a ∈ (w.clearLog.advanceAllocate tid o p).1.log, a.Fresh w.heap) :
    Motion W w.accounts p.holds (w.clearLog.advanceAllocate tid o p).1.accounts
      (w.clearLog.advanceAllocate tid o p).2.holds := by
  cases p with
  | drawId args k =>
    have hgate : (w.clearLog.gate o tid args.size).1 = true :=
      @gate_of_exhaustive w.clearLog tid o hopen.exhaustive args.size
    have hnext : (w.clearLog.advanceAllocate tid o (.drawId args k)).2 =
        .layOut args w.allocCounter k := if_pos hgate
    rw [hnext]
    exact ⟨_, _, k.holds, (zero_add _).symm, rfl, .draw hwrap⟩
  | systemAlloc size k => exact absurd trivial hinside
  | layOut args allocId k => exact layOut_motion args allocId k hfits hfresh
  | addTotalBytes r k =>
    refine ⟨_, _, _, (zero_add _).symm, ?_, .bill r.requestedSize hwrap⟩
    ext1 <;> simp [Point.holds, advanceAllocate]
  | addTotalCount r k => exact .still rfl rfl
  | addActive r k =>
    refine ⟨_, _, { pending := r.requestedSize.toNat, ids := {r.allocationId}, blocks := {r} } +
      k.holds, ?_, ?_, .count⟩
    · ext1 <;> simp [Point.holds]
    · ext1 <;> simp [Point.holds, advanceAllocate]
  | addCurrent r k =>
    refine ⟨_, _, { counted := 1, ids := {r.allocationId}, blocks := {r} } + k.holds, ?_, ?_,
      .book r.requestedSize⟩
    · ext1 <;> simp [Point.holds]
    · ext1 <;> simp [Point.holds, advanceAllocate]
  | loadPeak r current k => exact .still rfl rfl
  | raisePeak r current peak k =>
    unfold advanceAllocate
    dsimp only
    split
    · split
      · exact .still rfl rfl
      · exact .still rfl rfl
    · exact .still rfl rfl
  | insert r k => exact ⟨_, _, k.holds, rfl, rfl, .insert r⟩
  | checkLimit ptr k => exact .still accounts_checkLimit (k.holds_next ptr)
  | _ => exact .still rfl rfl

/-- A step of `deallocate` is one entry. -/
theorem advanceDeallocate_motion {p : Point} (hinside : ¬ p.Stray) (hready : w.Ready p) :
    Motion W w.accounts p.holds (w.clearLog.advanceDeallocate p).1.accounts
      (w.clearLog.advanceDeallocate p).2.holds := by
  cases p with
  | erase ptr result =>
    rcases eq_or_ne ptr 0 with rfl | hne
    · refine .still rfl ?_
      ext1 <;> simp [Point.holds, advanceDeallocate]
    · obtain ⟨r, hfind⟩ := hready hne
      rw [@erase_of_stored w.clearLog ptr r hfind result]
      refine ⟨_, _, { pointers := nonNull result }, ?_, ?_, .erase ptr r hfind⟩
      · ext1 <;> simp [Point.holds, nonNull_of_ne hne]
      · ext1 <;> simp [Point.holds]
  | verify r ptr result =>
    unfold advanceDeallocate
    dsimp only
    split
    · exact .still rfl rfl
    · exact .still rfl rfl
  | addFreedBytes r verdict result => exact .still rfl rfl
  | addFreeCount r verdict result => exact .still rfl rfl
  | subActive r verdict result =>
    refine ⟨_, _, { booked := r.requestedSize.toNat, blocks := {r}, pointers := nonNull result },
      ?_, ?_, .uncount⟩
    · ext1 <;> simp [Point.holds]
    · ext1 <;> simp [Point.holds, advanceDeallocate]
  | subCurrent r verdict result =>
    refine ⟨_, _, { blocks := {r}, pointers := nonNull result }, ?_, ?_,
      .unbook r.requestedSize⟩
    · ext1 <;> simp [Point.holds]
    · ext1 <;> simp [Point.holds, advanceDeallocate]
  | recordSize r verdict result =>
    unfold advanceDeallocate
    dsimp only
    split
    · exact .still rfl rfl
    · -- a corrupted block is never given back
      refine ⟨_, _, { pointers := nonNull result }, ?_, ?_, .leak r⟩
      · ext1 <;> simp [Point.holds]
      · ext1 <;> simp [Point.holds]
  | poison r result => exact .still rfl rfl
  | freeBlock r result =>
    obtain ⟨hraw, hlive⟩ := hready
    have hstep : (w.clearLog.advanceDeallocate (.freeBlock r result)).1.accounts =
        { w.accounts with heap := update w.heap r.rawPtr none } :=
      @accounts_rawSystemFree w.clearLog r.rawPtr hraw hlive
    rw [hstep]
    refine ⟨_, _, { pointers := nonNull result }, ?_, ?_, .free r⟩
    · ext1 <;> simp [Point.holds]
    · ext1 <;> simp [Point.holds, advanceDeallocate]
  | systemFree ptr => exact absurd trivial hinside
  | _ => exact .still rfl rfl

/-- A step of `reallocate` is one entry. -/
theorem advanceReallocate_motion {p : Point} (hopen : w.Open) (hinside : ¬ p.Stray)
    (hready : w.Ready p) :
    Motion W w.accounts p.holds (w.clearLog.advanceReallocate tid o p).1.accounts
      (w.clearLog.advanceReallocate tid o p).2.holds := by
  cases p with
  | find ptr newSize =>
    obtain ⟨r, hfind⟩ := hready
    have hfind' : w.clearLog.tracker.find ptr = some r := hfind
    have hne := ShardedTracker.ne_zero_of_find hfind
    simp only [advanceReallocate, hfind']
    refine .still rfl ?_
    ext1 <;> simp [Point.holds, nonNull_of_ne hne]
  | checkOld ptr r newSize =>
    have henter := @enterAllocate_of_open w.clearLog tid ⟨hopen.1, hopen.2, hopen.3⟩
      ⟨newSize, r.alignment, r.tag⟩ (.moveFrom ptr r newSize)
    simp only [advanceReallocate, henter]
    exact .still accounts_checkOldBlock rfl
  | copy newPtr ptr bytes =>
    refine .still rfl ?_
    ext1 <;> simp [Point.holds, advanceReallocate, add_comm]
  | systemRealloc ptr newSize => exact absurd trivial hinside
  | _ => exact .still rfl rfl

/-- Every step is one entry; when the call ends, its pointer goes to the client. -/
theorem advance_motion {p : Point} (hopen : w.Open) (hinside : ¬ p.Stray) (hready : w.Ready p)
    (hwrap : W → w.NoWrap p) (hfits : w.Fits o p)
    (hfresh : ∀ a ∈ (w.clearLog.advance tid o p).1.log, a.Fresh w.heap) :
    Motion W w.accounts p.holds (w.clearLog.advance tid o p).1.accounts
      ((w.clearLog.advance tid o p).2.holds + { pointers := p.given }) := by
  have hgiven : ∀ h : Holding, p.given = 0 → h + { pointers := p.given } = h := by
    intro h h0
    rw [h0]
    exact add_zero h
  cases p with
  | idle => exact .still rfl (hgiven _ rfl)
  | finish ptr => exact .still rfl (zero_add _)
  | drawId | systemAlloc | layOut | addTotalBytes | addTotalCount | addActive | addCurrent
  | loadPeak | raisePeak | insert | checkLimit =>
    rw [hgiven _ rfl]
    exact @advanceAllocate_motion w tid o W _ hopen hinside hwrap hfits hfresh
  | erase | verify | addFreedBytes | addFreeCount | subActive | subCurrent | recordSize | poison
  | freeBlock | systemFree =>
    rw [hgiven _ rfl]
    exact advanceDeallocate_motion hinside hready
  | find | checkOld | copy | systemRealloc =>
    rw [hgiven _ rfl]
    exact @advanceReallocate_motion w tid o W _ hopen hinside hready

/-- Under a configuration that tracks every allocation nobody leaves the tracked path. -/
theorem advance_inside {p : Point} (hopen : w.Open) (hinside : ¬ p.Stray) (hready : w.Ready p) :
    ¬ (w.advance tid o p).2.Stray := by
  cases p with
  | drawId args k =>
    have hgate := @gate_of_exhaustive w tid o hopen.exhaustive args.size
    simp [advance, advanceAllocate, hgate, Point.Stray]
  | systemAlloc size k => exact absurd trivial hinside
  | layOut args allocId k =>
    change ¬ (w.layOut tid o args allocId k).2.Stray
    rcases @layOut_point w tid o args allocId k with h | ⟨userPtr, h⟩
    · rw [h]
      exact k.not_stray_next 0
    · rw [h]
      exact id
  | raisePeak r current peak k =>
    unfold advance advanceAllocate
    dsimp only
    split
    · split
      · exact id
      · exact id
    · exact id
  | checkLimit ptr k => exact k.not_stray_next ptr
  | erase ptr result =>
    unfold advance advanceDeallocate
    dsimp only
    split
    · exact id
    · split
      · exact id
      · exact id
      · exact id
  | recordSize r verdict result =>
    unfold advance advanceDeallocate
    dsimp only
    split
    · exact id
    · exact id
  | find ptr newSize =>
    obtain ⟨r, hfind⟩ := hready
    simp [advance, advanceReallocate, hfind, Point.Stray]
  | checkOld ptr r newSize =>
    have henter := @enterAllocate_of_open w tid hopen ⟨newSize, r.alignment, r.tag⟩
      (.moveFrom ptr r newSize)
    simp [advance, advanceReallocate, henter, Point.Stray]
  | systemFree ptr => exact absurd trivial hinside
  | systemRealloc ptr newSize => exact absurd trivial hinside
  | _ => exact id

/-- What a thread needs for its next step follows from the accounts. -/
theorem ready_of_custody {p : Point} {h : Holding} (hb : Custody w.accounts (p.holds + h)) :
    w.Ready p := by
  cases p with
  | find ptr newSize =>
    apply hb.listed.find_of_mem
    simp [Point.holds]
  | erase ptr result =>
    intro hne
    apply hb.listed.find_of_mem
    simp [Point.holds, nonNull_of_ne hne]
  | freeBlock r result =>
    have hblock := hb.housed.housed r (by simp [Point.holds])
    have hlive : w.heap r.rawPtr = some r.totalSize.toNat := hblock.live
    exact ⟨hblock.placed.raw_ne_zero, by rw [hlive]; rfl⟩
  | _ => trivial

/-! ## Starting a call -/

/-- A call starts with the pointer that the client gave up. -/
theorem enter_spec (hopen : w.Open) (q : Request) :
    (w.enter tid q).holds = { pointers := q.pointers } ∧ ¬ (w.enter tid q).Stray := by
  cases q with
  | alloc size alignment tag =>
    rw [enter, enterAllocate_of_open hopen]
    exact ⟨rfl, id⟩
  | free ptr =>
    rcases eq_or_ne ptr 0 with rfl | hne
    · exact ⟨rfl, id⟩
    · rw [enter_free hopen hne]
      refine ⟨?_, id⟩
      ext1 <;> simp [Point.holds, Request.pointers]
  | realloc ptr newSize =>
    rcases @enter_realloc w tid hopen ptr newSize with ⟨rfl, h⟩ | ⟨hne, h | h⟩
    · rw [h]
      refine ⟨?_, id⟩
      ext1 <;> simp [Point.holds, After.holds, Request.pointers]
    · rw [h]
      refine ⟨?_, id⟩
      ext1 <;> simp [Point.holds, Request.pointers]
    · rw [h]
      refine ⟨?_, id⟩
      ext1 <;> simp [Point.holds, Request.pointers, nonNull_of_ne hne]

end Steps

end MemSentry
