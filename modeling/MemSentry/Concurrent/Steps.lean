import MemSentry.Concurrent.Machine
import MemSentry.Manager.Effects

/-!
# Single steps of the machine

What one step of a thread does, for the steps that have several outcomes, and what no step
changes: the configuration, the initialisation and the recursion guards
(`advance_control`).
-/

namespace MemSentry

open ByteMemory MemSentry.Core Function Transition World

/-! ## Where a call goes on -/

theorem After.next_failed (ptr : Ptr) (record : AllocationRecord) (newSize : Word) :
    (After.moveFrom ptr record newSize).next 0 = .finish ptr := by
  simp [After.next]

theorem After.next_moved {newPtr : Ptr} (hne : newPtr ≠ 0) (ptr : Ptr) (record : AllocationRecord)
    (newSize : Word) :
    (After.moveFrom ptr record newSize).next newPtr =
      .copy newPtr ptr (copyBytes record newSize) := by
  simpa [After.next] using hne

/-- The thread is on its way to the system allocator, past the tracker. -/
def Point.Stray : Point → Prop
  | .systemAlloc .. | .systemFree .. | .systemRealloc .. => True
  | _ => False

theorem After.not_stray_next (k : After) (ptr : Ptr) : ¬ (k.next ptr).Stray := by
  cases k with
  | done => exact id
  | moveFrom old record newSize =>
    rcases eq_or_ne ptr 0 with rfl | hne
    · rw [After.next_failed]
      exact id
    · rw [After.next_moved hne]
      exact id

/-- Sampling is off: every allocation is tracked. -/
structure Config.Exhaustive (c : Config) : Prop where
  rate : c.samplingRateBytes = 0
  everyN : ¬ c.sampleEveryN > 1
  percentage : ¬ c.samplingPercentage < 100

theorem exhaustive_default : Config.Exhaustive {} := ⟨rfl, by decide, by decide⟩

theorem Config.Plain.exhaustive {c : Config} (h : c.Plain) : c.Exhaustive :=
  ⟨h.rate, h.everyN, h.percentage⟩

/-- Initialised under a configuration that tracks every allocation, outside every guard. -/
structure World.Open (w : World) : Prop where
  exhaustive : w.config.Exhaustive
  initialized : w.initialized = true
  unguarded : ∀ tid, w.guardActive tid = false

section Steps

variable {w : World} {tid : ThreadId} {o : Oracle}

/-! ## Outcomes -/

theorem gate_of_exhaustive (h : w.config.Exhaustive) (size : Word) : (w.gate o tid size).1 = true := by
  unfold gate samplingGate
  rw [if_neg (by rw [h.rate]; decide), if_neg h.everyN, if_neg h.percentage]

theorem enterAllocate_of_open (h : w.Open) (args : AllocArgs) (k : After) :
    w.enterAllocate tid args k = .drawId args k := by
  unfold enterAllocate
  rw [if_neg (by simp [h.unguarded tid, h.initialized])]

theorem enter_free (hopen : w.Open) {ptr : Ptr} (hne : ptr ≠ 0) :
    w.enter tid (.free ptr) = .erase ptr 0 := by
  unfold enter
  dsimp only
  rw [if_neg hne, hopen.unguarded tid, if_neg Bool.false_ne_true]

/-- The three ways into `reallocate`. -/
theorem enter_realloc (hopen : w.Open) (ptr : Ptr) (newSize : Word) :
    (ptr = 0 ∧ w.enter tid (.realloc ptr newSize) =
      .drawId ⟨newSize, w.config.alignment, 0⟩ .done) ∨
    (ptr ≠ 0 ∧ (w.enter tid (.realloc ptr newSize) = .erase ptr 0 ∨
      w.enter tid (.realloc ptr newSize) = .find ptr newSize)) := by
  unfold enter
  dsimp only
  rw [if_neg (by simp [hopen.unguarded tid, hopen.initialized])]
  split
  · rw [enterAllocate_of_open hopen]
    exact Or.inl ⟨‹_›, rfl⟩
  · split
    · exact Or.inr ⟨‹_›, Or.inl rfl⟩
    · exact Or.inr ⟨‹_›, Or.inr rfl⟩

/-- The points at which a call may start. -/
theorem enter_induction {P : Point → Prop} (q : Request) (hfinish : P (.finish 0))
    (hstray : ∀ p : Point, p.Stray → P p) (herase : ∀ ptr, P (.erase ptr 0))
    (hdraw : ∀ args, P (.drawId args .done))
    (hfind : ∀ ptr newSize, newSize ≠ 0 → P (.find ptr newSize)) : P (w.enter tid q) := by
  have halloc : ∀ args : AllocArgs, P (w.enterAllocate tid args .done) := by
    intro args
    unfold enterAllocate
    split
    · exact hstray _ trivial
    · exact hdraw args
  cases q with
  | alloc size alignment tag => exact halloc ⟨size, alignment, tag⟩
  | free ptr =>
    unfold enter
    dsimp only
    split
    · exact hfinish
    · split
      · exact hstray _ trivial
      · exact herase ptr
  | realloc ptr newSize =>
    unfold enter
    dsimp only
    split
    · exact hstray _ trivial
    · split
      · exact halloc _
      · split
        · exact herase ptr
        · exact hfind ptr newSize ‹_›

@[simp] theorem allocationId_recordOf (allocId size alignment tag userPtr : Word) :
    (w.recordOf o tid allocId size alignment tag userPtr).allocationId = allocId := rfl

theorem layOut_of_zero {args : AllocArgs} {allocId : Word} {k : After}
    (h : calculateTotalSize args.size (effectiveAlignment args.alignment)
      w.config.footerSize = 0) : w.layOut tid o args allocId k = (w, k.next 0) := by
  unfold layOut
  exact if_pos h

theorem layOut_of_null {args : AllocArgs} {allocId : Word} {k : After}
    (h : calculateTotalSize args.size (effectiveAlignment args.alignment)
      w.config.footerSize ≠ 0) (hraw : o.malloc = 0) :
    w.layOut tid o args allocId k =
      (w.emit (.systemAlloc (calculateTotalSize args.size (effectiveAlignment args.alignment)
        w.config.footerSize) 0), k.next 0) := by
  unfold layOut
  dsimp only
  rw [if_neg h, rawSystemAlloc_of_null hraw, if_pos rfl]

theorem layOut_of_fit {args : AllocArgs} {allocId : Word} {k : After}
    (h : calculateTotalSize args.size (effectiveAlignment args.alignment)
      w.config.footerSize ≠ 0) (hraw : o.malloc ≠ 0)
    (hfit : SizesFit args.size (effectiveAlignment args.alignment) w.config.footerSize) :
    w.layOut tid o args allocId k =
      ({ w.withRawBlock o (calculateTotalSize args.size (effectiveAlignment args.alignment)
          w.config.footerSize) with
        mem := (initBlock w.mem o.malloc args.size (effectiveAlignment args.alignment)
          w.config.footerSize allocId (w.finalTag tid args.tag) w.config.enableCanary tid).2.1 },
        .addTotalBytes (w.recordOf o tid allocId args.size args.alignment args.tag
          (userAddress o.malloc (effectiveAlignment args.alignment))) k) := by
  unfold layOut
  dsimp only
  rw [if_neg h, rawSystemAlloc_of_ne hraw, if_neg hraw, if_pos hfit]
  unfold initBlock
  rw [if_neg hraw]
  rfl

theorem layOut_of_not_fit {args : AllocArgs} {allocId : Word} {k : After}
    (h : calculateTotalSize args.size (effectiveAlignment args.alignment)
      w.config.footerSize ≠ 0) (hraw : o.malloc ≠ 0)
    (hfit : ¬ SizesFit args.size (effectiveAlignment args.alignment) w.config.footerSize) :
    w.layOut tid o args allocId k =
      ({ w.withRawBlock o (calculateTotalSize args.size (effectiveAlignment args.alignment)
          w.config.footerSize) with fault := true }, k.next 0) := by
  unfold layOut
  dsimp only
  rw [if_neg h, rawSystemAlloc_of_ne hraw, if_neg hraw, if_neg hfit]
  rfl

theorem erase_of_stored {ptr : Ptr} {r : AllocationRecord} (hfind : w.tracker.find ptr = some r)
    (result : Ptr) :
    w.advanceDeallocate (.erase ptr result) = (w.trackerErase ptr, .verify r ptr result) := by
  unfold advanceDeallocate
  simp only [if_neg (ShardedTracker.ne_zero_of_find hfind), ShardedTracker.erase_of_find hfind,
    Option.getD_some]

theorem find_of_stored {ptr : Ptr} {r : AllocationRecord} (hfind : w.tracker.find ptr = some r)
    (newSize : Word) :
    w.advanceReallocate tid o (.find ptr newSize) =
      ({ w with calls := .find ptr :: w.calls }, .checkOld ptr r newSize) := by
  unfold advanceReallocate
  simp only [hfind]

/-! ## What a step leaves alone -/

/-- What laying a block out leaves alone. -/
structure BlockOnly (w w' : World) : Prop where
  control : SameControl w w'
  stats : w'.stats = w.stats
  tracker : w'.tracker = w.tracker
  freeHist : w'.freeHist = w.freeHist
  allocCounter : w'.allocCounter = w.allocCounter
  log : w'.log = w.log ∨ ∃ n p, w'.log = w.log ++ [.systemAlloc n p]

theorem layOut_frame (args : AllocArgs) (allocId : Word) (k : After) :
    BlockOnly w (w.layOut tid o args allocId k).1 := by
  by_cases h0 : calculateTotalSize args.size (effectiveAlignment args.alignment)
      w.config.footerSize = 0
  · rw [layOut_of_zero h0]
    exact ⟨.refl w, rfl, rfl, rfl, rfl, Or.inl rfl⟩
  by_cases hraw : o.malloc = 0
  · rw [layOut_of_null h0 hraw]
    exact ⟨⟨rfl, rfl, rfl, fun _ => rfl⟩, rfl, rfl, rfl, rfl, Or.inr ⟨_, _, rfl⟩⟩
  by_cases hfit : SizesFit args.size (effectiveAlignment args.alignment) w.config.footerSize
  · rw [layOut_of_fit h0 hraw hfit]
    exact ⟨⟨rfl, rfl, rfl, fun _ => rfl⟩, rfl, rfl, rfl, rfl, Or.inr ⟨_, _, rfl⟩⟩
  · rw [layOut_of_not_fit h0 hraw hfit]
    exact ⟨⟨rfl, rfl, rfl, fun _ => rfl⟩, rfl, rfl, rfl, rfl, Or.inr ⟨_, _, rfl⟩⟩

/-- Either the allocation has failed, or its record is on its way. -/
theorem layOut_point (args : AllocArgs) (allocId : Word) (k : After) :
    (w.layOut tid o args allocId k).2 = k.next 0 ∨
      ∃ userPtr, (w.layOut tid o args allocId k).2 =
        .addTotalBytes (w.recordOf o tid allocId args.size args.alignment args.tag userPtr) k := by
  by_cases h0 : calculateTotalSize args.size (effectiveAlignment args.alignment)
      w.config.footerSize = 0
  · exact Or.inl (congrArg Prod.snd (layOut_of_zero h0))
  by_cases hraw : o.malloc = 0
  · exact Or.inl (congrArg Prod.snd (layOut_of_null h0 hraw))
  by_cases hfit : SizesFit args.size (effectiveAlignment args.alignment) w.config.footerSize
  · exact Or.inr ⟨_, congrArg Prod.snd (layOut_of_fit h0 hraw hfit)⟩
  · exact Or.inl (congrArg Prod.snd (layOut_of_not_fit h0 hraw hfit))

theorem emit_control {a : Action} : SameControl w (w.emit a) := ⟨rfl, rfl, rfl, fun _ => rfl⟩

theorem advance_control {p : Point} : SameControl w (w.advance tid o p).1 := by
  cases p with
  | drawId args k => exact passGate_control
  | systemAlloc size k => exact rawSystemAlloc_system.control
  | layOut args allocId k => exact (layOut_frame args allocId k).control
  | raisePeak r current peak k =>
    unfold advance advanceAllocate
    dsimp only
    split
    · split
      · exact ⟨rfl, rfl, rfl, fun _ => rfl⟩
      · exact .refl w
    · exact .refl w
  | checkLimit ptr k => exact checkLimit_system.control
  | erase ptr result =>
    have herase : SameControl w (w.trackerErase ptr) := ⟨rfl, rfl, rfl, fun _ => rfl⟩
    unfold advance advanceDeallocate
    dsimp only
    split
    · exact .refl w
    · split
      · exact herase
      · exact herase.trans emit_control
      · exact herase.trans releaseUntracked_system.control
  | verify r ptr result =>
    unfold advance advanceDeallocate
    dsimp only
    split
    · exact emit_control.trans emit_control
    · exact emit_control
  | freeBlock r result => exact rawSystemFree_system.control
  | systemFree ptr => exact rawSystemFree_system.control
  | checkOld ptr r newSize => exact checkOldBlock_system.control
  | systemRealloc ptr newSize => exact rawSystemRealloc_system.control
  | _ => exact ⟨rfl, rfl, rfl, fun _ => rfl⟩

theorem guardActive_setCurrentTag {tag : Ptr} (tid t : ThreadId) :
    (w.setCurrentTag tid tag).guardActive t = w.guardActive t := by
  have hdepth : ((w.setCurrentTag tid tag).locals t).recursionDepth =
      (w.locals t).recursionDepth := by
    unfold setCurrentTag
    dsimp only
    by_cases ht : t = tid
    · rw [ht, update_self]
    · rw [update_of_ne ht]
  simp only [guardActive, hdepth]

end Steps

end MemSentry
