import MemSentry.Concurrent.ComputedRuns
import MemSentry.Concurrent.Custody
import MemSentry.Manager.Reallocation

/-!
# What the blocks contain while many threads run

A step of a thread writes at most into a block that is its own: one that it has just got, one
that it is about to give back, or the payload that it copies into (`Outcome`). So headers and
red zones stay as they were laid out, as long as the clients write into the payloads they
hold and into nothing else (`Unspoilt`). No operation then finds a block corrupted, in
whatever order the threads take their steps, and no block is lost (`no_alarm`).
-/

namespace MemSentry

open ByteMemory MemSentry.Core Function Transition World
open ThreadPool (Pair)

/-! ## Points -/

/-- The block that the operation has laid out or taken out of the table, until it is
poisoned. -/
def Point.intact : Point → Option AllocationRecord
  | .addTotalBytes r _ | .addTotalCount r _ | .addActive r _ | .addCurrent r _ | .loadPeak r _ _
  | .raisePeak r _ _ _ | .insert r _ | .verify r _ _ | .addFreedBytes r _ _ | .addFreeCount r _ _
  | .subActive r _ _ | .subCurrent r _ _ | .recordSize r _ _ | .poison r _ => some r
  | _ => none

/-- A reallocation waits for a block of the size it asked for, and the record that it has
found is still stored. -/
def After.UpToDate (t : ShardedTracker) (size : Word) : After → Prop
  | .done => True
  | .moveFrom ptr record newSize => newSize = size ∧ newSize ≠ 0 ∧ t.find ptr = some record

/-- What the operation has read of the table is still so, and it has seen no corruption. -/
def Point.UpToDate (t : ShardedTracker) : Point → Prop
  | .drawId args k | .layOut args _ k => k.UpToDate t args.size
  | .addTotalBytes r k | .addTotalCount r k | .addActive r k | .addCurrent r k
  | .loadPeak r _ k | .raisePeak r _ _ k | .insert r k => k.UpToDate t r.requestedSize
  | .checkLimit ptr k => ∃ r, t.find ptr = some r ∧ k.UpToDate t r.requestedSize
  | .find _ newSize => newSize ≠ 0
  | .checkOld ptr r newSize => newSize ≠ 0 ∧ t.find ptr = some r
  | .copy newPtr ptr bytes => ∃ r r', t.find ptr = some r ∧ t.find newPtr = some r' ∧
      r'.requestedSize ≠ 0 ∧ bytes = copyBytes r r'.requestedSize
  | .addFreedBytes _ verdict _ | .addFreeCount _ verdict _ | .subActive _ verdict _
  | .subCurrent _ verdict _ | .recordSize _ verdict _ => verdict = .none
  | _ => True

theorem Point.mem_blocks_of_intact {p : Point} {r : AllocationRecord} (h : p.intact = some r) :
    r ∈ p.holds.blocks := by
  cases p with
  | addTotalBytes | addTotalCount | addActive | addCurrent | loadPeak | raisePeak | insert
  | verify | addFreedBytes | addFreeCount | subActive | subCurrent | recordSize | poison =>
    cases h
    simp [Point.holds]
  | _ => cases h

theorem After.UpToDate.congr {t t' : ShardedTracker} {size : Word} {k : After}
    (hfind : ∀ q ∈ k.holds.pointers, t.find q ≠ none → t'.find q = t.find q)
    (h : k.UpToDate t size) : k.UpToDate t' size := by
  cases k with
  | done => trivial
  | moveFrom ptr record newSize =>
    obtain ⟨hsize, hne, hrecord⟩ := h
    refine ⟨hsize, hne, ?_⟩
    rw [hfind ptr ?_ (by simp [hrecord]), hrecord]
    simp [After.holds, nonNull_of_ne (ShardedTracker.ne_zero_of_find hrecord)]

/-- Only the records of the pointers that the thread has matter. -/
theorem Point.UpToDate.congr {t t' : ShardedTracker} {p : Point}
    (hfind : ∀ q ∈ p.holds.pointers, t.find q ≠ none → t'.find q = t.find q)
    (h : p.UpToDate t) : p.UpToDate t' := by
  have hstays : ∀ {q : Ptr} {r : AllocationRecord}, (q ≠ 0 → q ∈ p.holds.pointers) →
      t.find q = some r → t'.find q = some r := by
    intro q r hq hr
    rw [hfind q (hq (ShardedTracker.ne_zero_of_find hr)) (by simp [hr]), hr]
  cases p with
  | drawId | layOut | addTotalBytes | addTotalCount | addActive | addCurrent | loadPeak
  | raisePeak | insert =>
    refine After.UpToDate.congr (fun q hq => hfind q ?_) h
    simp [Point.holds, hq]
  | checkLimit ptr k =>
    obtain ⟨r, hr, hk⟩ := h
    refine ⟨r, hstays (fun hne => ?_) hr, hk.congr fun q hq => hfind q ?_⟩
    · simp [Point.holds, nonNull_of_ne hne]
    · simp [Point.holds, hq]
  | checkOld ptr r newSize =>
    refine ⟨h.1, hstays (fun hne => ?_) h.2⟩
    simp [Point.holds, nonNull_of_ne hne]
  | copy newPtr ptr bytes =>
    obtain ⟨r, r', hr, hr', hne, hbytes⟩ := h
    refine ⟨r, r', hstays (fun hne => ?_) hr, hstays (fun hne => ?_) hr', hne, hbytes⟩
    · simp [Point.holds, nonNull_of_ne hne]
    · simp [Point.holds, nonNull_of_ne hne]
  | _ => exact h

/-! ## Blocks as they were laid out -/

/-- The header and the red zone of the block are intact, with the footer now in force. -/
structure World.Whole (w : World) (r : AllocationRecord) : Prop where
  placed : Placed r.rawPtr r.userPtr r.requestedSize.toNat r.footerSize.toNat r.totalSize.toNat
  footerSize : r.footerSize = w.config.footerSize
  intact : intactBlock.holds w.mem r.userPtr r

section Whole

variable {w w' : World} {tid : ThreadId} {o : Oracle} {r : AllocationRecord}

/-- Writes into the payload leave the block whole. -/
theorem World.Whole.congr (h : w.Whole r) (hconfig : w'.config = w.config)
    (hmem : ∀ a, InSpan r.rawPtr r.totalSize.toNat a → ¬ InSpan r.userPtr r.requestedSize.toNat a →
      w'.mem a = w.mem a) : w'.Whole r :=
  ⟨h.placed, h.footerSize.trans (congrArg Config.footerSize hconfig.symm),
    intactBlock.congr h.placed hmem h.intact⟩

theorem World.Whole.verdict (h : w.Whole r) :
    (verifyCanary w.mem r.rawPtr w.config.footerSize).1 = .none := by
  rw [verifyCanary_verdict h.intact.1 h.placed.raw_ne_zero, if_pos]
  rw [← h.footerSize]
  exact h.intact.2

theorem World.Whole.poison_frame (h : w.Whole r) {a : Ptr}
    (ha : ¬ InSpan r.rawPtr r.totalSize.toNat a) :
    (poisonBlock w.mem r.rawPtr w.config.footerSize).1 a = w.mem a := by
  apply poisonBlock_frame h.intact.1 h.placed _ ha
  rw [h.footerSize]
  exact canaryLength_le _ _

/-- What `init_block` leaves is whole. -/
theorem whole_layOut {args : AllocArgs} {allocId : Word} {k : After} (hraw : o.malloc ≠ 0)
    (h0 : calculateTotalSize args.size (effectiveAlignment args.alignment)
      w.config.footerSize ≠ 0)
    (hfit : SizesFit args.size (effectiveAlignment args.alignment) w.config.footerSize)
    (hfresh : Fresh w.heap o.malloc (calculateTotalSize args.size
      (effectiveAlignment args.alignment) w.config.footerSize)) :
    (w.layOut tid o args allocId k).1.Whole (w.recordOf o tid allocId args.size args.alignment
      args.tag (userAddress o.malloc (effectiveAlignment args.alignment))) := by
  have hplaced := @recordOf_placed w o tid args.size args.alignment args.tag allocId hraw hfit
    (Nat.le_trans (Nat.add_le_add_left (le_extent _) _) hfresh.1)
  have hfooter := @recordOf_footerSize w o tid args.size args.alignment args.tag allocId
    (userAddress o.malloc (effectiveAlignment args.alignment)) hfit
  rw [layOut_of_fit h0 hraw hfit]
  refine ⟨hplaced, hfooter, ?_⟩
  have hinit := @BlockProperty.init intactBlock w.mem (w.recordOf o tid allocId args.size
    args.alignment args.tag (userAddress o.malloc (effectiveAlignment args.alignment)))
    (effectiveAlignment args.alignment) allocId (w.finalTag tid args.tag) w.config.enableCanary tid
    hplaced
  rw [hfooter] at hinit
  exact hinit

end Whole

/-! ## Single steps -/

/-- What a step on the tracked path does to the blocks, the table and the memory. -/
inductive Outcome (w : World) : Point → World → Point → Prop
  | quiet {p p' : Point} {w' : World} (hheap : w'.heap = w.heap)
      (htracker : w'.tracker = w.tracker) (hmem : w'.mem = w.mem)
      (hintact : p'.intact = p.intact) (hblocks : p'.holds.blocks = p.holds.blocks)
      (hdate : p'.UpToDate w.tracker) : Outcome w p w' p'
  | laidOut {args : AllocArgs} {allocId : Word} {k : After} {w' : World} (r : AllocationRecord)
      (hfresh : Fresh w.heap r.rawPtr r.totalSize)
      (hheap : w'.heap = update w.heap r.rawPtr (some (extent r.totalSize)))
      (htracker : w'.tracker = w.tracker)
      (hframe : ∀ a, ¬ InSpan r.rawPtr r.totalSize.toNat a → w'.mem a = w.mem a)
      (hwhole : w'.Whole r) (hdate : k.UpToDate w.tracker r.requestedSize) :
      Outcome w (.layOut args allocId k) w' (.addTotalBytes r k)
  | inserted {r : AllocationRecord} {k : After} {w' : World} (hheap : w'.heap = w.heap)
      (htracker : w'.tracker = w.tracker.insert r.userPtr r) (hmem : w'.mem = w.mem) :
      Outcome w (.insert r k) w' (.checkLimit r.userPtr k)
  | erased {ptr result : Ptr} {w' : World} (r : AllocationRecord)
      (hfind : w.tracker.find ptr = some r) (hheap : w'.heap = w.heap)
      (htracker : w'.tracker = w.tracker.afterErase ptr) (hmem : w'.mem = w.mem) :
      Outcome w (.erase ptr result) w' (.verify r ptr result)
  | poisoned {r : AllocationRecord} {result : Ptr} {w' : World} (hheap : w'.heap = w.heap)
      (htracker : w'.tracker = w.tracker)
      (hframe : ∀ a, ¬ InSpan r.rawPtr r.totalSize.toNat a → w'.mem a = w.mem a) :
      Outcome w (.poison r result) w' (.freeBlock r result)
  | freed {r : AllocationRecord} {result : Ptr} {w' : World}
      (hheap : w'.heap = update w.heap r.rawPtr none) (htracker : w'.tracker = w.tracker)
      (hmem : w'.mem = w.mem) : Outcome w (.freeBlock r result) w' (.finish result)
  | copied {newPtr ptr : Ptr} {bytes : Word} {w' : World} (hheap : w'.heap = w.heap)
      (htracker : w'.tracker = w.tracker)
      (hmem : w'.mem = writeBytes w.mem newPtr (readBytes w.mem ptr bytes.toNat)) :
      Outcome w (.copy newPtr ptr bytes) w' (.erase ptr newPtr)

section Steps

variable {w : World} {tid : ThreadId} {o : Oracle}

theorem checkOldBlock_blocks {ptr : Ptr} {r : AllocationRecord} :
    (w.checkOldBlock ptr r).heap = w.heap ∧ (w.checkOldBlock ptr r).tracker = w.tracker ∧
      (w.checkOldBlock ptr r).mem = w.mem := by
  unfold checkOldBlock
  split
  · dsimp only
    split
    · exact ⟨rfl, rfl, rfl⟩
    · exact ⟨rfl, rfl, rfl⟩
  · exact ⟨rfl, rfl, rfl⟩

/-- Going on after `allocate`: a block that is needed is there. -/
theorem After.UpToDate.next {t : ShardedTracker} {k : After} {ptr : Ptr} {r : AllocationRecord}
    (h : k.UpToDate t r.requestedSize) (hfind : t.find ptr = some r) :
    (k.next ptr).UpToDate t := by
  cases k with
  | done => trivial
  | moveFrom old record newSize =>
    obtain ⟨hsize, hne, hrecord⟩ := h
    rw [After.next_moved (ShardedTracker.ne_zero_of_find hfind)]
    subst newSize
    exact ⟨record, r, hrecord, hfind, hne, rfl⟩

theorem After.upToDate_failed {t : ShardedTracker} (k : After) : (k.next 0).UpToDate t := by
  cases k with
  | done => trivial
  | moveFrom old record newSize =>
    rw [After.next_failed]
    trivial

theorem After.intact_next (k : After) (ptr : Ptr) : (k.next ptr).intact = none := by
  cases k with
  | done => rfl
  | moveFrom old record newSize =>
    rcases eq_or_ne ptr 0 with rfl | hne
    · rw [After.next_failed]
      rfl
    · rw [After.next_moved hne]
      rfl

theorem After.blocks_holds (k : After) : k.holds.blocks = 0 := by
  cases k <;> rfl

theorem After.blocks_next (k : After) (ptr : Ptr) : (k.next ptr).holds.blocks = 0 := by
  rw [k.holds_next]
  simp [k.blocks_holds]

theorem layOut_outcome {args : AllocArgs} {allocId : Word} {k : After}
    (hfits : w.Fits o (.layOut args allocId k))
    (hfresh : ∀ a ∈ (w.clearLog.layOut tid o args allocId k).1.log, a.Fresh w.heap)
    (hdate : k.UpToDate w.tracker args.size) :
    Outcome w (.layOut args allocId k) (w.clearLog.layOut tid o args allocId k).1
      (w.clearLog.layOut tid o args allocId k).2 := by
  have hblocks : (k.next 0).holds.blocks = (Point.layOut args allocId k).holds.blocks := by
    rw [k.blocks_next]
    simp [Point.holds, k.blocks_holds]
  by_cases h0 : calculateTotalSize args.size (effectiveAlignment args.alignment)
      w.config.footerSize = 0
  · rw [@layOut_of_zero w.clearLog tid o args allocId k h0]
    exact .quiet rfl rfl rfl (k.intact_next 0) hblocks k.upToDate_failed
  by_cases hraw : o.malloc = 0
  · rw [@layOut_of_null w.clearLog tid o args allocId k h0 hraw]
    exact .quiet rfl rfl rfl (k.intact_next 0) hblocks k.upToDate_failed
  have hfit := (hfits.resolve_left h0).resolve_left hraw
  have hwhole := @whole_layOut w.clearLog tid o args allocId k hraw h0 hfit
  have heq := @layOut_of_fit w.clearLog tid o args allocId k h0 hraw hfit
  rw [heq] at hfresh hwhole ⊢
  have hf : Fresh w.heap o.malloc (calculateTotalSize args.size
      (effectiveAlignment args.alignment) w.config.footerSize) :=
    hfresh (.systemAlloc _ o.malloc) List.mem_cons_self hraw
  have hplaced := placed_userAddress hraw hfit
    (Nat.le_trans (Nat.add_le_add_left (le_extent _) _) hf.1)
  exact .laidOut _ hf rfl rfl (fun a ha => initBlock_frame hplaced ha) (hwhole hf) hdate

theorem advanceAllocate_outcome {p : Point} (hopen : w.Open) (hinside : ¬ p.Stray)
    (hfits : w.Fits o p) (hfresh : ∀ a ∈ (w.clearLog.advanceAllocate tid o p).1.log, a.Fresh w.heap)
    (hdate : p.UpToDate w.tracker) :
    Outcome w p (w.clearLog.advanceAllocate tid o p).1 (w.clearLog.advanceAllocate tid o p).2 := by
  cases p with
  | drawId args k =>
    have hgate : (w.clearLog.gate o tid args.size).1 = true :=
      @gate_of_exhaustive w.clearLog tid o hopen.exhaustive args.size
    have hnext : (w.clearLog.advanceAllocate tid o (.drawId args k)).2 =
        .layOut args w.allocCounter k := if_pos hgate
    rw [hnext]
    refine .quiet rfl rfl rfl rfl ?_ hdate
    simp [Point.holds]
  | systemAlloc size k => exact absurd trivial hinside
  | layOut args allocId k => exact layOut_outcome hfits hfresh hdate
  | raisePeak r current peak k =>
    unfold advanceAllocate
    dsimp only
    split
    · split
      · exact .quiet rfl rfl rfl rfl rfl hdate
      · exact .quiet rfl rfl rfl rfl rfl hdate
    · exact .quiet rfl rfl rfl rfl rfl hdate
  | insert r k => exact .inserted rfl rfl rfl
  | checkLimit ptr k =>
    obtain ⟨r, hfind, hk⟩ := hdate
    have hsame := @accounts_checkLimit w.clearLog
    have hmem : w.clearLog.checkLimit.mem = w.mem := by
      rcases @checkLimit_eq w.clearLog with h | ⟨m, n, h⟩
      · rw [h]
        rfl
      · rw [h]
        rfl
    refine .quiet (congrArg Accounts.heap hsame) (congrArg Accounts.tracker hsame) hmem
      (k.intact_next ptr) ?_ (hk.next hfind)
    refine (k.blocks_next ptr).trans ?_
    simp [Point.holds, k.blocks_holds]
  | addTotalBytes r k | addTotalCount r k | addActive r k | addCurrent r k | loadPeak r current k =>
    refine .quiet rfl rfl rfl rfl ?_ hdate
    simp [Point.holds, advanceAllocate]
  | idle | erase | verify | addFreedBytes | addFreeCount | subActive | subCurrent | recordSize
  | poison | freeBlock | systemFree | find | checkOld | copy | systemRealloc | finish =>
    exact .quiet rfl rfl rfl rfl rfl hdate

theorem advanceDeallocate_outcome {p : Point} (hinside : ¬ p.Stray) (hready : w.Ready p)
    (hdate : p.UpToDate w.tracker) (hwhole : ∀ r, p.intact = some r → w.Whole r) :
    Outcome w p (w.clearLog.advanceDeallocate p).1 (w.clearLog.advanceDeallocate p).2 := by
  cases p with
  | erase ptr result =>
    rcases eq_or_ne ptr 0 with rfl | hne
    · exact .quiet rfl rfl rfl rfl rfl trivial
    · obtain ⟨r, hfind⟩ := hready hne
      rw [@erase_of_stored w.clearLog ptr r hfind result]
      exact .erased r hfind rfl rfl rfl
  | verify r ptr result =>
    have hverdict : (verifyCanary w.clearLog.mem r.rawPtr w.clearLog.config.footerSize).1 = .none :=
      (hwhole r rfl).verdict
    unfold advanceDeallocate
    dsimp only
    rw [hverdict, if_neg (not_not_intro rfl)]
    exact .quiet rfl rfl rfl rfl rfl rfl
  | recordSize r verdict result =>
    have hverdict : verdict = .none := hdate
    unfold advanceDeallocate
    dsimp only
    rw [if_pos hverdict]
    exact .quiet rfl rfl rfl rfl rfl trivial
  | poison r result => exact .poisoned rfl rfl fun a ha => (hwhole r rfl).poison_frame ha
  | freeBlock r result =>
    obtain ⟨hraw, hlive⟩ := hready
    have hsame := @accounts_rawSystemFree w.clearLog r.rawPtr hraw hlive
    have hmem : (w.clearLog.rawSystemFree r.rawPtr).mem = w.mem := by
      rw [rawSystemFree_of_ne hraw]
      rfl
    exact .freed (congrArg Accounts.heap hsame) (congrArg Accounts.tracker hsame) hmem
  | systemFree ptr => exact absurd trivial hinside
  | _ => exact .quiet rfl rfl rfl rfl rfl hdate

theorem advanceReallocate_outcome {p : Point} (hopen : w.Open) (hinside : ¬ p.Stray)
    (hready : w.Ready p) (hdate : p.UpToDate w.tracker) :
    Outcome w p (w.clearLog.advanceReallocate tid o p).1
      (w.clearLog.advanceReallocate tid o p).2 := by
  cases p with
  | find ptr newSize =>
    obtain ⟨r, hfind⟩ := hready
    rw [@find_of_stored w.clearLog tid o ptr r hfind newSize]
    exact .quiet rfl rfl rfl rfl rfl ⟨hdate, hfind⟩
  | checkOld ptr r newSize =>
    obtain ⟨hne, hfind⟩ := hdate
    have henter := @enterAllocate_of_open w.clearLog tid ⟨hopen.1, hopen.2, hopen.3⟩
      ⟨newSize, r.alignment, r.tag⟩ (.moveFrom ptr r newSize)
    obtain ⟨hheap, htracker, hmem⟩ := @checkOldBlock_blocks w.clearLog ptr r
    unfold advanceReallocate
    dsimp only
    rw [henter]
    exact .quiet hheap htracker hmem rfl rfl ⟨rfl, hne, hfind⟩
  | copy newPtr ptr bytes => exact .copied rfl rfl rfl
  | systemRealloc ptr newSize => exact absurd trivial hinside
  | _ => exact .quiet rfl rfl rfl rfl rfl hdate

/-- A step on the tracked path. -/
theorem advance_outcome {p : Point} (hopen : w.Open) (hinside : ¬ p.Stray) (hready : w.Ready p)
    (hfits : w.Fits o p) (hfresh : ∀ a ∈ (w.clearLog.advance tid o p).1.log, a.Fresh w.heap)
    (hdate : p.UpToDate w.tracker) (hwhole : ∀ r, p.intact = some r → w.Whole r) :
    Outcome w p (w.clearLog.advance tid o p).1 (w.clearLog.advance tid o p).2 := by
  cases p with
  | idle => exact .quiet rfl rfl rfl rfl rfl trivial
  | finish ptr => exact .quiet rfl rfl rfl rfl rfl trivial
  | drawId | systemAlloc | layOut | addTotalBytes | addTotalCount | addActive | addCurrent
  | loadPeak | raisePeak | insert | checkLimit =>
    exact @advanceAllocate_outcome w tid o _ hopen hinside hfits hfresh hdate
  | erase | verify | addFreedBytes | addFreeCount | subActive | subCurrent | recordSize | poison
  | freeBlock | systemFree => exact advanceDeallocate_outcome hinside hready hdate hwhole
  | find | checkOld | copy | systemRealloc =>
    exact @advanceReallocate_outcome w tid o _ hopen hinside hready hdate

/-- The log shows no alarm. -/
def World.Calm (w : World) : Prop := ∀ ptr kind, .alert ptr kind ∉ w.log

theorem calm_of_nil (h : w.log = []) : w.Calm := by
  intro ptr kind
  rw [h]
  exact List.not_mem_nil

theorem calm_of_single {b : Action} (h : w.log = [b]) (hb : ∀ ptr kind, b ≠ .alert ptr kind) :
    w.Calm := by
  intro ptr kind hmem
  rw [h, List.mem_singleton] at hmem
  exact hb ptr kind hmem.symm

theorem checkOldBlock_calm {ptr : Ptr} {r : AllocationRecord} (hwhole : w.Whole r) :
    (w.clearLog.checkOldBlock ptr r).Calm := by
  unfold checkOldBlock
  split
  case isTrue hcanary =>
    have hfooter : w.clearLog.config.canaryFooterSize = w.config.footerSize :=
      (if_pos hcanary : w.config.footerSize = w.config.canaryFooterSize).symm
    have hverdict : (verifyCanary w.clearLog.mem r.rawPtr
        w.clearLog.config.canaryFooterSize).1 = .none := by
      rw [hfooter]
      exact hwhole.verdict
    dsimp only
    rw [hverdict, if_neg (not_not_intro rfl)]
    exact calm_of_single rfl fun _ _ => Action.noConfusion
  case isFalse => exact calm_of_nil rfl

/-- Who finds every block whole raises no alarm. -/
theorem advance_calm {p : Point} (hinside : ¬ p.Stray) (hready : w.Ready p)
    (hdate : p.UpToDate w.tracker) (hwhole : ∀ r, p.intact = some r → w.Whole r)
    (hstored : ∀ ptr r, w.tracker.find ptr = some r → w.Whole r) :
    (w.clearLog.advance tid o p).1.Calm := by
  cases p with
  | systemAlloc size k => exact absurd trivial hinside
  | systemFree ptr => exact absurd trivial hinside
  | systemRealloc ptr newSize => exact absurd trivial hinside
  | layOut args allocId k =>
    rcases (@layOut_frame w.clearLog tid o args allocId k).log with h | ⟨n, q, h⟩
    · exact calm_of_nil h
    · exact calm_of_single h fun _ _ => Action.noConfusion
  | raisePeak r current peak k =>
    unfold advance advanceAllocate
    dsimp only
    split
    · split
      · exact calm_of_nil rfl
      · exact calm_of_nil rfl
    · exact calm_of_nil rfl
  | checkLimit ptr k =>
    rcases @checkLimit_eq w.clearLog with h | ⟨m, n, h⟩
    · exact calm_of_nil (congrArg World.log h)
    · exact calm_of_single (congrArg World.log h) fun _ _ => Action.noConfusion
  | erase ptr result =>
    rcases eq_or_ne ptr 0 with rfl | hne
    · exact calm_of_nil rfl
    · obtain ⟨r, hfind⟩ := hready hne
      have herase := @erase_of_stored w.clearLog ptr r hfind result
      unfold advance
      dsimp only
      rw [herase]
      exact calm_of_nil rfl
  | verify r ptr result =>
    have hverdict : (verifyCanary w.clearLog.mem r.rawPtr w.clearLog.config.footerSize).1 = .none :=
      (hwhole r rfl).verdict
    unfold advance advanceDeallocate
    dsimp only
    rw [hverdict, if_neg (not_not_intro rfl)]
    exact calm_of_single rfl fun _ _ => Action.noConfusion
  | poison r result => exact calm_of_single rfl fun _ _ => Action.noConfusion
  | freeBlock r result =>
    have hlog := congrArg World.log (@rawSystemFree_of_ne w.clearLog r.rawPtr
      (fun h0 => absurd h0 hready.1))
    exact calm_of_single hlog fun _ _ => Action.noConfusion
  | checkOld ptr r newSize => exact checkOldBlock_calm (hstored ptr r hdate.2)
  | _ => exact calm_of_nil rfl

end Steps

/-! ## What a step leaves to the others -/

section Frame

variable {w w' : World} {p p' : Point} {o : Holding} {r r' : AllocationRecord} {a q : Ptr}

/-- Two of the blocks share no byte. -/
theorem Housed.not_inSpan {heap : Ptr → Option Nat} {blocks : Multiset AllocationRecord}
    (h : Housed heap blocks) (hr : r ∈ blocks) (hr' : r' ∈ blocks) (hne : r.rawPtr ≠ r'.rawPtr)
    (ha : InSpan r.rawPtr r.totalSize.toNat a) : ¬ InSpan r'.rawPtr r'.totalSize.toNat a := by
  intro ha'
  rw [inSpan_iff (h.housed r hr).placed.space] at ha
  rw [inSpan_iff (h.housed r' hr').placed.space] at ha'
  exact hne (h.base_unique (h.housed r hr).live (h.housed r' hr').live ha ha')

/-- A fresh block lies outside all of them. -/
theorem Housed.not_inSpan_fresh {heap : Ptr → Option Nat} {blocks : Multiset AllocationRecord}
    {b : Ptr} {size : Word} (h : Housed heap blocks) (hr : r ∈ blocks) (hfresh : Fresh heap b size)
    (ha : InSpan r.rawPtr r.totalSize.toNat a) : ¬ InSpan b size.toNat a := by
  intro ha'
  have hle := le_extent size
  rw [inSpan_iff (h.housed r hr).placed.space] at ha
  rw [inSpan_iff (Nat.le_trans (Nat.add_le_add_left hle _) hfresh.1)] at ha'
  rcases hfresh.2 _ _ (h.housed r hr).live with hd | hd
  · omega
  · omega

/-- The block that an operation has is none of the others. -/
theorem Custody.rawPtr_ne {b : Accounts} {x : Holding} (hc : Custody b (x + o))
    (hr : r ∈ x.blocks) (hr' : r' ∈ b.tracker.records + o.blocks) : r.rawPtr ≠ r'.rawPtr := by
  have hnodup := hc.housed.separate
  rw [Holding.blocks_add, add_left_comm, Multiset.map_add, Multiset.nodup_add] at hnodup
  intro heq
  refine Multiset.disjoint_left.mp hnodup.2.2 (Multiset.mem_map_of_mem _ hr) ?_
  rw [heq]
  exact Multiset.mem_map_of_mem _ hr'

/-- Different pointers have different blocks. -/
theorem Custody.rawPtr_ne_of_find {b : Accounts} {x : Holding} (hc : Custody b x) {ptr ptr' : Ptr}
    (hr : b.tracker.find ptr = some r) (hr' : b.tracker.find ptr' = some r') (hne : ptr ≠ ptr') :
    r.rawPtr ≠ r'.rawPtr := by
  have hnodup := hc.housed.separate
  rw [Multiset.map_add, Multiset.nodup_add] at hnodup
  intro heq
  have hsame := Multiset.inj_on_of_nodup_map hnodup.1 r (hc.listed.mem_of_find hr) r'
    (hc.listed.mem_of_find hr') heq
  subst r'
  exact hne ((hc.listed.keyed _ _ hr).symm.trans (hc.listed.keyed _ _ hr'))

/-- The pointers in somebody's hands are all different. -/
theorem Custody.pointers_nodup {b : Accounts} {x : Holding} (hc : Custody b x) :
    x.pointers.Nodup := by
  have hnodup := hc.housed.separate
  rw [Multiset.map_add, Multiset.nodup_add] at hnodup
  have hrecords : b.tracker.records.Nodup := Multiset.Nodup.of_map _ hnodup.1
  rw [← hc.listed.pointers]
  refine Multiset.Nodup.map_on (fun r hr r' hr' heq => ?_) hrecords
  have hfind := (ShardedTracker.mem_records_iff_find hc.listed.wellPlaced hc.listed.keyed).mp hr
  have hfind' := (ShardedTracker.mem_records_iff_find hc.listed.wellPlaced hc.listed.keyed).mp hr'
  rw [heq, hfind'] at hfind
  exact (Option.some.inj hfind).symm

/-- A step changes no byte of a block that the thread does not have, except in the payload that
it copies into. -/
theorem Outcome.frame (h : Outcome w p w' p') (hc : Custody w.accounts (p.holds + o))
    (hdate : p.UpToDate w.tracker) (hr : r ∈ w.tracker.records + o.blocks)
    (hin : InSpan r.rawPtr r.totalSize.toNat a)
    (hcopy : ∀ ptr bytes, p = .copy r.userPtr ptr bytes →
      ¬ InSpan r.userPtr r.requestedSize.toNat a) : w'.mem a = w.mem a := by
  have hall : r ∈ w.accounts.tracker.records + (p.holds + o).blocks := by
    rw [Holding.blocks_add, add_left_comm]
    exact Multiset.mem_add.mpr (Or.inr hr)
  cases h with
  | quiet hheap htracker hmem hintact hblocks hdate' => rw [hmem]
  | laidOut r' hfresh hheap htracker hframe hwhole hdate' =>
    exact hframe a (hc.housed.not_inSpan_fresh hall hfresh hin)
  | inserted hheap htracker hmem => rw [hmem]
  | erased r' hfind hheap htracker hmem => rw [hmem]
  | @poisoned r' result _ hheap htracker hframe =>
    have hmine : r' ∈ (Point.poison r' result).holds.blocks := by simp [Point.holds]
    have hall' : r' ∈ w.accounts.tracker.records +
        ((Point.poison r' result).holds + o).blocks := by
      rw [Holding.blocks_add]
      exact Multiset.mem_add.mpr (Or.inr (Multiset.mem_add.mpr (Or.inl hmine)))
    exact hframe a (hc.housed.not_inSpan hall hall' (hc.rawPtr_ne hmine hr).symm hin)
  | freed hheap htracker hmem => rw [hmem]
  | @copied newPtr ptr bytes _ hheap htracker hmem =>
    obtain ⟨r₁, r₂, hfind₁, hfind₂, hne, rfl⟩ := hdate
    rw [hmem]
    apply writeBytes_of_not_inSpan
    rw [length_readBytes]
    have hkey : r₂.userPtr = newPtr := hc.listed.keyed _ _ hfind₂
    have hstored : r₂ ∈ w.accounts.tracker.records +
        ((Point.copy newPtr ptr (copyBytes r₁ r₂.requestedSize)).holds + o).blocks :=
      Multiset.mem_add.mpr (Or.inl (hc.listed.mem_of_find hfind₂))
    have hbytes := toNat_copyBytes r₁ r₂.requestedSize
    have hsmall : InSpan newPtr (copyBytes r₁ r₂.requestedSize).toNat a →
        InSpan r₂.userPtr r₂.requestedSize.toNat a := by
      intro ha
      rw [hkey]
      exact Nat.lt_of_lt_of_le ha (by omega)
    intro ha
    have hpayload := hsmall ha
    by_cases hsame : r.rawPtr = r₂.rawPtr
    · have heq := Multiset.inj_on_of_nodup_map hc.housed.separate r hall r₂ hstored hsame
      subst heq
      exact hcopy ptr _ (by rw [hkey]) hpayload
    · exact hc.housed.not_inSpan hall hstored hsame hin
        ((hc.housed.housed r₂ hstored).placed.payload_inSpan hpayload)

/-- A stored record stays, unless the step releases its pointer. -/
theorem Outcome.find_eq (h : Outcome w p w' p') (hc : Custody w.accounts (p.holds + o))
    (hq : w.tracker.find q ≠ none) (hkept : ∀ result, p ≠ .erase q result) :
    w'.tracker.find q = w.tracker.find q := by
  cases h with
  | quiet hheap htracker => rw [htracker]
  | laidOut r' hfresh hheap htracker => rw [htracker]
  | @inserted r' k _ hheap htracker =>
    have hnew := (hc.find_of_held (r := r') (by simp [Point.holds])).2
    rw [htracker, ShardedTracker.find_insert_of_ne]
    rintro rfl
    exact hq hnew
  | @erased ptr result _ r' hfind hheap htracker =>
    rw [htracker, ShardedTracker.find_afterErase, if_neg]
    rintro rfl
    exact hkept result rfl
  | poisoned hheap htracker => rw [htracker]
  | freed hheap htracker => rw [htracker]
  | copied hheap htracker => rw [htracker]

/-- Nobody else has the pointer that a thread releases. -/
theorem Custody.erase_ne {ptr result : Ptr} {b : Accounts}
    (hc : Custody b ((Point.erase ptr result).holds + o))
    (hq : q ∈ o.pointers) (hq0 : q ≠ 0) : q ≠ ptr := by
  rintro rfl
  have hnodup := hc.pointers_nodup
  rw [Holding.pointers_add, Multiset.nodup_add] at hnodup
  refine Multiset.disjoint_left.mp hnodup.2.2 ?_ hq
  simp [Point.holds, nonNull_of_ne hq0]

/-- What the step leaves in the hands of the thread is whole. -/
theorem Outcome.inHand (h : Outcome w p w' p') (hconfig : w'.config = w.config)
    (hmine : ∀ r, p.intact = some r → w.Whole r)
    (hstored : ∀ q r, w.tracker.find q = some r → w.Whole r) (hr : p'.intact = some r) :
    w'.Whole r := by
  have hkept : w'.mem = w.mem → w.Whole r → w'.Whole r := by
    intro hmem hwhole
    exact hwhole.congr hconfig fun a _ _ => by rw [hmem]
  cases h with
  | quiet hheap htracker hmem hintact =>
    rw [hintact] at hr
    exact hkept hmem (hmine r hr)
  | laidOut r' hfresh hheap htracker hframe hwhole =>
    cases hr
    exact hwhole
  | inserted => cases hr
  | erased r' hfind hheap htracker hmem =>
    cases hr
    exact hkept hmem (hstored _ _ hfind)
  | poisoned => cases hr
  | freed => cases hr
  | copied => cases hr

/-- What the thread has read of the table is still so after its step. -/
theorem Outcome.upToDate (h : Outcome w p w' p') (hc : Custody w.accounts (p.holds + o))
    (hdate : p.UpToDate w.tracker) : p'.UpToDate w'.tracker := by
  have hout := h
  cases h with
  | quiet hheap htracker hmem hintact hblocks hdate' =>
    rw [htracker]
    exact hdate'
  | laidOut r' hfresh hheap htracker hframe hwhole hdate' =>
    rw [htracker]
    exact hdate'
  | @inserted r' k _ hheap htracker hmem =>
    have hnew := (hc.find_of_held (r := r') (by simp [Point.holds])).1
    refine ⟨r', ?_, After.UpToDate.congr (fun q _ hq => ?_) hdate⟩
    · rw [htracker, ShardedTracker.find_insert_self hnew]
    · exact hout.find_eq hc hq fun _ => Point.noConfusion
  | erased => trivial
  | poisoned => trivial
  | freed => trivial
  | copied => trivial

/-- Every live block belongs to a stored record or to an operation. -/
def Covered (heap : Ptr → Option Nat) (blocks : Multiset AllocationRecord) : Prop :=
  ∀ b n, heap b = some n → ∃ r ∈ blocks, r.rawPtr = b

/-- No step loses a block. -/
theorem Outcome.covered (h : Outcome w p w' p') (hc : Custody w.accounts (p.holds + o))
    (hcovered : Covered w.heap (w.tracker.records + (p.holds + o).blocks)) :
    Covered w'.heap (w'.tracker.records + (p'.holds + o).blocks) := by
  intro b n hb
  cases h with
  | quiet hheap htracker hmem hintact hblocks =>
    rw [hheap] at hb
    rw [htracker, Holding.blocks_add, hblocks]
    exact hcovered b n hb
  | @laidOut args allocId k _ r' hfresh hheap htracker =>
    rw [hheap] at hb
    rw [htracker]
    by_cases hbr : b = r'.rawPtr
    · exact ⟨r', by simp [Point.holds], hbr.symm⟩
    · rw [update_of_ne hbr] at hb
      obtain ⟨r, hr, hraw⟩ := hcovered b n hb
      refine ⟨r, ?_, hraw⟩
      simp [Point.holds, k.blocks_holds] at hr ⊢
      exact Or.inr hr
  | @inserted r' k _ hheap htracker =>
    obtain ⟨hne, hnew⟩ := hc.find_of_held (r := r') (by simp [Point.holds])
    have hrecords : (w.tracker.insert r'.userPtr r').records = r' ::ₘ w.tracker.records :=
      ShardedTracker.records_insert hne hnew
    rw [hheap] at hb
    obtain ⟨r, hr, hraw⟩ := hcovered b n hb
    refine ⟨r, ?_, hraw⟩
    rw [htracker, hrecords]
    simp [Point.holds, k.blocks_holds] at hr ⊢
    tauto
  | @erased ptr result _ r' hfind hheap htracker =>
    rw [hheap] at hb
    obtain ⟨r, hr, hraw⟩ := hcovered b n hb
    refine ⟨r, ?_, hraw⟩
    rw [ShardedTracker.records_eq_cons_afterErase hfind] at hr
    rw [htracker]
    simp [Point.holds] at hr ⊢
    tauto
  | poisoned hheap htracker =>
    rw [hheap] at hb
    rw [htracker]
    exact hcovered b n hb
  | @freed r' result _ hheap htracker =>
    rw [hheap] at hb
    obtain ⟨hne, hlive⟩ := update_none_eq_some hb
    obtain ⟨r, hr, hraw⟩ := hcovered b n hlive
    refine ⟨r, ?_, hraw⟩
    rw [htracker]
    simp [Point.holds] at hr ⊢
    rcases hr with rfl | hr
    · exact absurd hraw.symm hne
    · exact hr
  | copied hheap htracker =>
    rw [hheap] at hb
    rw [htracker]
    exact hcovered b n hb

end Frame

/-! ## Runs -/

namespace Machine

variable {ι : Type} [Fintype ι] [DecidableEq ι]

/-- The clients write into the payloads that they hold, and the system outside the live
blocks. -/
structure Mannered (s : Machine ι) (e : Event ι) : Prop where
  fits : s.Fits e
  writes : ∀ mem, e = .store mem → ∀ a, mem a ≠ s.world.mem a →
    (∃ p ∈ s.held, ∃ r, s.world.tracker.find p = some r ∧ InSpan p r.requestedSize.toNat a) ∨
      ∀ b n, s.world.heap b = some n → ¬ InSpan b n a

/-- Every block is as it was laid out, until it is poisoned, and is still in custody. -/
structure Unspoilt (s : Machine ι) : Prop where
  tended : s.Tended
  defined : s.world.fault = false
  upToDate : ∀ i, (s.pool i).UpToDate s.world.tracker
  stored : ∀ p r, s.world.tracker.find p = some r → s.world.Whole r
  inHand : ∀ i r, (s.pool i).intact = some r → s.world.Whole r
  covered : Covered s.world.heap (s.world.tracker.records + s.holding.blocks)

variable {tid : ι → ThreadId} {s : Machine ι} {e : Event ι}

omit [DecidableEq ι] in
theorem unspoilt_start {c : Config} (hc : c.Exhaustive) (mem : Memory) :
    (start c mem : Machine ι).Unspoilt where
  tended := tended_start hc mem
  defined := rfl
  upToDate := fun _ => trivial
  stored := by
    intro p r hfind
    have hnone : ShardedTracker.empty.find p = some r := hfind
    rw [ShardedTracker.find_empty] at hnone
    cases hnone
  inHand := fun _ _ h => by cases h
  covered := fun _ _ h => by cases h

/-- What one thread has, next to what all others and the clients have. -/
def aside (s : Machine ι) (i : ι) : Holding :=
  ThreadPool.others Point.holds s.pool i + { pointers := s.held }

theorem holding_eq (s : Machine ι) (i : ι) : s.holding = (s.pool i).holds + s.aside i := by
  rw [holding, ThreadPool.total_eq _ _ i, add_assoc]
  rfl

theorem Tended.custody_at (ht : s.Tended) (i : ι) :
    Custody s.world.accounts ((s.pool i).holds + s.aside i) := by
  rw [← holding_eq]
  exact ht.custody

/-- What another thread has is among what is aside. -/
theorem exists_aside_eq (s : Machine ι) {i j : ι} (hij : j ≠ i) :
    ∃ rest, s.aside i = (s.pool j).holds + rest := by
  obtain ⟨rest, hrest⟩ := ThreadPool.exists_others_eq Point.holds s.pool hij
  exact ⟨rest + { pointers := s.held }, by rw [aside, hrest, add_assoc]⟩

theorem Unspoilt.outcome (hs : s.Unspoilt) {i : ι} {o : Oracle}
    (hlegal : s.Legal tid (.advance i o)) (hfits : s.Fits (.advance i o)) :
    Outcome s.world (s.pool i) (s.step tid (.advance i o)).world
      (s.world.clearLog.advance (tid i) o (s.pool i)).2 :=
  advance_outcome hs.tended.opened (hs.tended.inside i) (hs.tended.ready i) (hfits i o rfl)
    hlegal.fresh (hs.upToDate i) (hs.inHand i)

/-- What the others have does not change with the step of a thread. -/
theorem Unspoilt.others_step (hs : s.Unspoilt) {i j : ι} {w' : World} {p' : Point} (hij : j ≠ i)
    (h : Outcome s.world (s.pool i) w' p') (hconfig : w'.config = s.world.config) :
    (s.pool j).UpToDate w'.tracker ∧ ∀ r, (s.pool j).intact = some r → w'.Whole r := by
  have hc := hs.tended.custody_at i
  obtain ⟨rest, hrest⟩ := exists_aside_eq s hij
  constructor
  · refine Point.UpToDate.congr (fun q hq hstored => h.find_eq hc hstored fun result hp => ?_)
      (hs.upToDate j)
    have hq0 : q ≠ 0 := by
      rintro rfl
      exact hstored ShardedTracker.find_null
    rw [hp] at hc
    refine hc.erase_ne ?_ hq0 rfl
    rw [hrest]
    exact Multiset.mem_add.mpr (Or.inl hq)
  · intro r hr
    refine (hs.inHand j r hr).congr hconfig fun a hin hout => ?_
    refine h.frame hc (hs.upToDate i) (Multiset.mem_add.mpr (Or.inr ?_)) hin fun _ _ _ => hout
    rw [hrest]
    exact Multiset.mem_add.mpr (Or.inl (Point.mem_blocks_of_intact hr))

/-- Every stored block is whole after the step of a thread. -/
theorem Unspoilt.stored_step (hs : s.Unspoilt) {i : ι} {w' : World} {p' : Point}
    (h : Outcome s.world (s.pool i) w' p') (hconfig : w'.config = s.world.config) {q : Ptr}
    {r : AllocationRecord} (hfind : w'.tracker.find q = some r) : w'.Whole r := by
  have hc := hs.tended.custody_at i
  have hold : ∀ {q : Ptr}, s.world.tracker.find q = some r → w'.Whole r := by
    intro q hfind
    refine (hs.stored q r hfind).congr hconfig fun a hin hout => ?_
    exact h.frame hc (hs.upToDate i)
      (Multiset.mem_add.mpr (Or.inl (hc.listed.mem_of_find hfind))) hin fun _ _ _ => hout
  have hmine := hs.inHand i
  generalize hp : s.pool i = p at h hmine
  cases h with
  | quiet hheap htracker => exact hold (htracker ▸ hfind)
  | laidOut r' hfresh hheap htracker => exact hold (htracker ▸ hfind)
  | @inserted r' k _ hheap htracker hmem =>
    by_cases hq : q = r'.userPtr
    · rw [hp] at hc
      have hne := (hc.find_of_held (r := r') (by simp [Point.holds])).1
      rw [htracker, hq, ShardedTracker.find_insert_self hne] at hfind
      cases hfind
      exact (hmine r rfl).congr hconfig fun a _ _ => by rw [hmem]
    · rw [htracker, ShardedTracker.find_insert_of_ne hq] at hfind
      exact hold hfind
  | erased r' hfound hheap htracker =>
    rw [htracker, ShardedTracker.find_afterErase] at hfind
    split at hfind
    · cases hfind
    · exact hold hfind
  | poisoned hheap htracker => exact hold (htracker ▸ hfind)
  | freed hheap htracker => exact hold (htracker ▸ hfind)
  | copied hheap htracker => exact hold (htracker ▸ hfind)

theorem Unspoilt.advance_step (hs : s.Unspoilt) {i : ι} {o : Oracle}
    (hlegal : s.Legal tid (.advance i o)) (hfits : s.Fits (.advance i o)) :
    (s.step tid (.advance i o)).Unspoilt := by
  have h := hs.outcome hlegal hfits
  have hconfig : (s.step tid (.advance i o)).world.config = s.world.config :=
    (@advance_control s.world.clearLog (tid i) o (s.pool i)).config
  have hc := hs.tended.custody_at i
  have hpoint : (s.step tid (.advance i o)).pool i =
      (s.world.clearLog.advance (tid i) o (s.pool i)).2 := update_self _ _ _
  have hother : ∀ j, j ≠ i → (s.step tid (.advance i o)).pool j = s.pool j :=
    fun j hj => update_of_ne hj _ _
  refine ⟨hs.tended.step hlegal hfits, ?_, fun j => ?_, fun q r => hs.stored_step h hconfig,
    fun j r hr => ?_, ?_⟩
  · have hfault : (s.step tid (.advance i o)).world.accounts.fault = false :=
      hs.tended.invariant_step (I := fun a _ => a.fault = false) (W := False) hlegal
        False.elim hfits (fun _ _ _ hm hfault => hm.fault.trans hfault) hs.defined
    exact hfault
  · by_cases hj : j = i
    · subst j
      rw [hpoint]
      exact h.upToDate hc (hs.upToDate i)
    · rw [hother j hj]
      exact (hs.others_step hj h hconfig).1
  · by_cases hj : j = i
    · subst j
      rw [hpoint] at hr
      exact h.inHand hconfig (hs.inHand i) hs.stored hr
    · rw [hother j hj] at hr
      exact (hs.others_step hj h hconfig).2 r hr
  · have hcovered := hs.covered
    rw [holding_eq s i] at hcovered
    have hnext := h.covered hc hcovered
    have hholding : (s.step tid (.advance i o)).holding.blocks =
        ((s.world.clearLog.advance (tid i) o (s.pool i)).2.holds + s.aside i).blocks := by
      simp [holding, step, aside, ThreadPool.total_update]
    rw [hholding]
    exact hnext

theorem Unspoilt.call_step (hs : s.Unspoilt) {i : ι} {q : Request}
    (hlegal : s.Legal tid (.call i q)) : (s.step tid (.call i q)).Unspoilt := by
  have hidle := hlegal.idle i q rfl
  obtain ⟨hholds, _⟩ := @enter_spec s.world (tid i) hs.tended.opened q
  have hstart : (s.world.enter (tid i) q).UpToDate s.world.tracker ∧
      (s.world.enter (tid i) q).intact = none := by
    refine enter_induction (P := fun p => p.UpToDate s.world.tracker ∧ p.intact = none) q
      ⟨trivial, rfl⟩ (fun p hp => ?_) (fun _ => ⟨trivial, rfl⟩) (fun _ => ⟨trivial, rfl⟩)
      fun _ _ hne => ⟨hne, rfl⟩
    cases p with
    | systemAlloc | systemFree | systemRealloc => exact ⟨trivial, rfl⟩
    | _ => exact hp.elim
  have hpoint : (s.step tid (.call i q)).pool i = s.world.enter (tid i) q := update_self _ _ _
  have hother : ∀ j, j ≠ i → (s.step tid (.call i q)).pool j = s.pool j :=
    fun j hj => update_of_ne hj _ _
  have hkept : ∀ r, s.world.Whole r → (s.step tid (.call i q)).world.Whole r :=
    fun r hr => hr.congr rfl fun _ _ _ => rfl
  refine ⟨hs.tended.step hlegal (fun _ _ he => by cases he), hs.defined, fun j => ?_,
    fun p r hfind => hkept r (hs.stored p r hfind), fun j r hr => ?_, ?_⟩
  · by_cases hj : j = i
    · subst j
      rw [hpoint]
      exact hstart.1
    · rw [hother j hj]
      exact hs.upToDate j
  · by_cases hj : j = i
    · subst j
      rw [hpoint, hstart.2] at hr
      cases hr
    · rw [hother j hj] at hr
      exact hkept r (hs.inHand j r hr)
  · have hblocks : (s.world.enter (tid i) q).holds.blocks = 0 := by rw [hholds]
    have hnone : Point.idle.holds.blocks = 0 := rfl
    have hholding : (s.step tid (.call i q)).holding.blocks = s.holding.blocks := by
      rw [holding_eq s i, hidle]
      simp [holding, step, aside, ThreadPool.total_update, hblocks, hnone]
    rw [hholding]
    exact hs.covered

/-- Such writes leave every block whole. -/
theorem Unspoilt.store_step (hs : s.Unspoilt) {mem : Memory} (hlegal : s.Legal tid (.store mem))
    (hmannered : s.Mannered (.store mem)) : (s.step tid (.store mem)).Unspoilt := by
  have hc := hs.tended.custody
  have hkept : ∀ r ∈ s.world.accounts.tracker.records + s.holding.blocks, s.world.Whole r →
      (s.step tid (.store mem)).world.Whole r := by
    intro r hr hwhole
    refine hwhole.congr rfl fun a hin hout => ?_
    by_contra hchanged
    rcases hmannered.writes mem rfl a hchanged with ⟨p, _, r', hfind, hpayload⟩ | houtside
    · have hstored : r' ∈ s.world.accounts.tracker.records + s.holding.blocks :=
        Multiset.mem_add.mpr (Or.inl (hc.listed.mem_of_find hfind))
      have hkey : r'.userPtr = p := hc.listed.keyed _ _ hfind
      rw [← hkey] at hpayload
      by_cases hsame : r.rawPtr = r'.rawPtr
      · have heq := Multiset.inj_on_of_nodup_map hc.housed.separate r hr r' hstored hsame
        subst r'
        exact hout hpayload
      · exact hc.housed.not_inSpan hr hstored hsame hin
          ((hc.housed.housed r' hstored).placed.payload_inSpan hpayload)
    · exact houtside _ _ (hc.housed.housed r hr).live hin
  refine ⟨hs.tended.step hlegal hmannered.fits, hs.defined, hs.upToDate,
    fun p r hfind => hkept r ?_ (hs.stored p r hfind),
    fun i r hr => hkept r ?_ (hs.inHand i r hr), hs.covered⟩
  · exact Multiset.mem_add.mpr (Or.inl (hc.listed.mem_of_find hfind))
  · rw [holding_eq s i]
    exact Multiset.mem_add.mpr (Or.inr (Multiset.mem_add.mpr
      (Or.inl (Point.mem_blocks_of_intact hr))))

/-- Every event of such a run leaves everything unspoilt, and raises no alarm. -/
theorem Unspoilt.step (hs : s.Unspoilt) (hlegal : s.Legal tid e) (hmannered : s.Mannered e) :
    (s.step tid e).Unspoilt ∧ (s.step tid e).world.Calm := by
  cases e with
  | call i q => exact ⟨hs.call_step hlegal, calm_of_nil rfl⟩
  | advance i o =>
    exact ⟨hs.advance_step hlegal hmannered.fits, advance_calm (hs.tended.inside i)
      (hs.tended.ready i) (hs.upToDate i) (hs.inHand i) hs.stored⟩
  | setCurrentTag i tag =>
    refine ⟨⟨hs.tended.step hlegal hmannered.fits, hs.defined, hs.upToDate,
      fun p r hfind => (hs.stored p r hfind).congr rfl fun _ _ _ => rfl,
      fun i r hr => (hs.inHand i r hr).congr rfl fun _ _ _ => rfl, hs.covered⟩, calm_of_nil rfl⟩
  | store mem => exact ⟨hs.store_step hlegal hmannered, calm_of_nil rfl⟩

theorem unspoilt_of_run {c : Config} (hc : c.Exhaustive) {mem : Memory} {es : List (Event ι)}
    (h : Run (system tid Mannered) (start c mem) es s) : s.Unspoilt ∧ s.world.Calm :=
  h.invariant (I := fun s => s.Unspoilt ∧ s.world.Calm)
    (fun _ _ hs hg => hs.1.step hg.1 hg.2) ⟨unspoilt_start hc mem, fun _ _ => List.not_mem_nil⟩

omit [DecidableEq ι] in
/-- When nobody is in the middle of a call, the live blocks are those of the pointers held. -/
theorem Unspoilt.live_iff (hs : s.Unspoilt) (hq : s.Quiescent) (b : Ptr) (n : Nat) :
    s.world.heap b = some n ↔ ∃ p ∈ s.held, ∃ r, s.world.tracker.find p = some r ∧
      r.rawPtr = b ∧ r.totalSize.toNat = n := by
  have hcustody := hs.tended.custody
  have hcovered := hs.covered
  rw [holding_of_quiescent hq] at hcustody hcovered
  have hlive : ∀ r ∈ s.world.accounts.tracker.records,
      s.world.heap r.rawPtr = some r.totalSize.toNat := by
    intro r hr
    exact (hcustody.housed.housed r (Multiset.mem_add.mpr (Or.inl hr))).live
  constructor
  · intro hb
    obtain ⟨r, hr, rfl⟩ := hcovered b n hb
    have hstored : r ∈ s.world.tracker.records := by simpa [accounts] using hr
    refine ⟨r.userPtr, ?_, r, ?_, rfl, ?_⟩
    · have hheld : r.userPtr ∈ s.world.accounts.tracker.records.map AllocationRecord.userPtr :=
        Multiset.mem_map_of_mem _ hstored
      rwa [hcustody.listed.pointers] at hheld
    · exact (ShardedTracker.mem_records_iff_find hcustody.listed.wellPlaced
        hcustody.listed.keyed).mp hstored
    · have hsize := hlive r hstored
      rw [hb] at hsize
      exact (Option.some.inj hsize).symm
  · rintro ⟨p, _, r, hfind, rfl, rfl⟩
    exact hlive r (hcustody.listed.mem_of_find hfind)

/-- Whatever the threads do to each other, as long as every client frees and resizes what it
holds and writes into its payloads only: no step raises an alarm, the behaviour stays defined,
and whenever nobody is in the middle of a call, the live blocks are exactly those of the
pointers that the clients hold. -/
theorem no_alarm {c : Config} (hc : c.Exhaustive) {mem : Memory} {es : List (Event ι)}
    (h : Run (system tid Mannered) (start c mem) es s) :
    s.world.Calm ∧ s.world.fault = false ∧
      (s.Quiescent → ∀ b n, s.world.heap b = some n ↔
        ∃ p ∈ s.held, ∃ r, s.world.tracker.find p = some r ∧ r.rawPtr = b ∧
          r.totalSize.toNat = n) := by
  obtain ⟨hs, hcalm⟩ := unspoilt_of_run hc h
  exact ⟨hcalm, hs.defined, hs.live_iff⟩

/-- Nothing is written and no counter wraps. -/
def Untouching (s : Machine ι) (e : Event ι) : Prop := s.NoWrap e ∧ ∀ mem, e ≠ .store mem

instance (s : Machine ι) (e : Event ι) : Decidable (s.Untouching e) :=
  match e with
  | .store mem => .isFalse fun h => h.2 mem rfl
  | .call .. | .advance .. | .setCurrentTag .. =>
    decidable_of_iff (s.NoWrap _) ⟨fun h => ⟨h, nofun⟩, And.left⟩

omit [Fintype ι] [DecidableEq ι] in
theorem Untouching.mannered {s : Machine ι} {e : Event ι} (h : s.Untouching e) : s.Mannered e :=
  ⟨h.1.fits, fun mem he => absurd he (h.2 mem)⟩

omit [Fintype ι] [DecidableEq ι] in
/-- A client fills its block from the front. -/
theorem mannered_fill {s : Machine ι} {p : Ptr} {bytes : List Byte} (hheld : p ∈ s.held)
    (hfit : (s.world.tracker.find p).any
      (fun r => decide (bytes.length ≤ r.requestedSize.toNat)) = true) :
    s.Mannered (.store (writeBytes s.world.mem p bytes)) := by
  obtain ⟨r, hfind, hlen⟩ := (Option.any_eq_true _ _).mp hfit
  refine ⟨nofun, fun mem hmem a ha => Or.inl ⟨p, hheld, r, hfind, ?_⟩⟩
  cases hmem
  by_contra hout
  exact ha (writeBytes_of_not_inSpan fun hin =>
    hout (Nat.lt_of_lt_of_le hin (of_decide_eq_true hlen)))

omit [Fintype ι] in
/-- One store between two runs that are computed. -/
theorem run_with_store {c : Config} {mem mem' : Memory} {before rest : List (Event ι)}
    (hbefore : (start c mem).checks tid Untouching [] before = true)
    (hlegal : (after tid c mem before).check tid (before.flatMap Event.bases) (.store mem') = true)
    (hmannered : (after tid c mem before).Mannered (.store mem'))
    (hrest : ((after tid c mem before).step tid (.store mem')).checks tid Untouching
      (before.flatMap Event.bases) rest = true) :
    Run (system tid Mannered) (start c mem) (before ++ .store mem' :: rest)
      (after tid c mem (before ++ .store mem' :: rest)) := by
  have hlive := liveAmong_after tid c mem before
  have hguard : ∀ s e, (system tid Untouching).guard s e → (system tid Mannered).guard s e :=
    fun _ _ hg => ⟨hg.1, hg.2.mannered⟩
  have hsame : (system tid Untouching).step = (system tid Mannered).step := rfl
  have hfirst := (run_from_start tid Untouching hbefore).mono hsame hguard
  have hlast := (run_of_checks tid (s := (after tid c mem before).step tid (.store mem'))
    hlive hrest).mono hsame hguard
  have hall := hfirst.append (.cons ⟨legal_of_check tid hlive hlegal, hmannered⟩ hlast)
  rwa [after, List.foldl_append]

def beforeFill : Machine Pair := after pair {} (fun _ => 0) twoBlocks

/-- The first block is filled. -/
def filled : Memory := writeBytes beforeFill.world.mem 0x10050 (List.replicate 16 0xAB)

/-- The filled block is moved while the other one is freed. -/
def movingOn : List (Event Pair) :=
  let a : Event Pair := .advance .first { malloc := 0x30000 }
  let b : Event Pair := .advance .second { malloc := 0x40000 }
  [.call .first (.realloc 0x10050 32), .call .second (.free 0x20080)] ++
    (List.replicate 10 [a, b]).flatten ++ List.replicate 16 a

def disturbing : List (Event Pair) := twoBlocks ++ .store filled :: movingOn

theorem run_disturbing : Run (system pair Mannered) (start {} fun _ => 0) disturbing
    (after pair {} (fun _ => 0) disturbing) := by
  have hfill : beforeFill.Mannered (.store filled) :=
    mannered_fill (p := 0x10050) (by decide +kernel) (by decide +kernel)
  exact run_with_store (by decide +kernel) (by decide +kernel) hfill (by decide +kernel)

theorem no_alarm_disturbed :
    let s := after pair {} (fun _ => 0) disturbing
    Run (system pair Mannered) (start {} fun _ => 0) disturbing s ∧
      (∀ k, ((disturbing.take k).foldl (step pair) (start {} fun _ => 0)).world.Calm) ∧
      s.world.fault = false ∧ s.world.mem 0x30050 = 0xAB ∧
      ∀ b n, s.world.heap b = some n ↔ b = 0x30000 ∧ n = 132 := by
  intro s
  have hrun : Run (system pair Mannered) (start {} fun _ => 0) disturbing s := run_disturbing
  obtain ⟨_, hdefined, hlive⟩ := no_alarm exhaustive_default hrun
  refine ⟨hrun, fun k => ?_, hdefined, by decide +kernel, fun b n => ?_⟩
  · have hcut := hrun
    rw [← List.take_append_drop k disturbing] at hcut
    exact (no_alarm exhaustive_default hcut.cut.1).1
  · have hidle : ∀ i, s.pool i = .idle := by decide +kernel
    have hheld : s.held = {0x30050} := by decide +kernel
    have hrecord : (s.world.tracker.find 0x30050).map
        (fun r => (r.rawPtr, r.totalSize.toNat)) = some (0x30000, 132) := by decide +kernel
    obtain ⟨r, hfind, hblock⟩ := Option.map_eq_some_iff.mp hrecord
    obtain ⟨hraw, htotal⟩ := Prod.mk.inj hblock
    rw [hlive hidle, hheld]
    constructor
    · rintro ⟨p, hp, r', hfind', rfl, rfl⟩
      rw [Multiset.mem_singleton.mp hp, hfind] at hfind'
      cases hfind'
      exact ⟨hraw, htotal⟩
    · rintro ⟨rfl, rfl⟩
      exact ⟨0x30050, Multiset.mem_singleton_self _, r, hfind, hraw, htotal⟩

end Machine

end MemSentry
