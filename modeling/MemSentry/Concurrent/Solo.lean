import MemSentry.Concurrent.Steps

/-!
# A thread that is left alone

When nobody interferes, the pieces into which the machine takes a call do what the whole
call of `Manager/Operations` does: `run_updateOnAlloc` for the counters,
`run_trackAlloc` for an allocation that goes through, `run_trackFree` for a release. The
callback of the watchdog is not called in these runs, so they are runs of a system that
says so, `silent`.
-/

namespace MemSentry

open MemSentry.Core Function Transition World

/-- The calls of the callback: the bytes and the limit passed. -/
def callbacks (log : List Action) : List (Word × Word) :=
  log.filterMap fun
    | .limitExceeded current limit => some (current, limit)
    | _ => none

/-- The watchdog has nothing to say. -/
def World.Silent (w : World) : Prop :=
  w.config.onLimitExceeded = true → w.stats.currentAllocatedBytes ≤ w.config.maxHeapBytes

theorem World.checkLimit_of_silent {w : World} (h : w.Silent) : w.checkLimit = w := by
  unfold checkLimit
  rw [if_neg]
  rintro ⟨_, hcallback, habove⟩
  exact BitVec.not_lt.mpr (h hcallback) habove

namespace Machine

variable {ι : Type} [DecidableEq ι] {tid : ι → ThreadId} {w w' : World}
  {held : Multiset Ptr} {pool : ι → Point} {i : ι} {o : Oracle} {p p' : Point}
  {r : AllocationRecord} {k : After}

/-- The machine in which no total wraps and the callback is not called. -/
def silent (tid : ι → ThreadId) : System (Machine ι) (Event ι) :=
  system tid fun s e => s.NoWrap e ∧ callbacks (s.step tid e).world.log = []

theorem accountable_of_silent {s t : Machine ι} {es : List (Event ι)}
    (h : Run (silent tid) s es t) : Run (accountable tid) s es t := by
  apply @Run.mono _ _ (silent tid) (accountable tid) rfl _ _ _ _ h
  rintro _ _ ⟨hlegal, hwrap, _⟩
  exact ⟨hlegal, hwrap⟩

theorem unguarded_of_silent {s t : Machine ι} {es : List (Event ι)}
    (h : Run (silent tid) s es t) : Run (system tid fun _ _ => True) s es t := by
  apply @Run.mono _ _ (silent tid) (system tid fun _ _ => True) rfl _ _ _ _ h
  rintro _ _ ⟨hlegal, _⟩
  exact ⟨hlegal, trivial⟩

/-- One step of a thread, from a state written out to a state written out. -/
theorem run_advance (hadv : w.clearLog.advance (tid i) o p = (w', p')) (hfault : w.fault = false)
    (hfresh : ∀ a ∈ w'.log, a.Fresh w.heap) (hsilent : callbacks w'.log = [])
    (hwrap : w.NoWrap p) :
    Run (silent tid) ⟨w, held, update pool i p⟩ [.advance i o]
      ⟨w', held + p.given, update pool i p'⟩ := by
  have hstep : Machine.step tid ⟨w, held, update pool i p⟩ (.advance i o) =
      ⟨w', held + p.given, update pool i p'⟩ := by
    simp [Machine.step, hadv]
  have hlegal : Machine.Legal tid ⟨w, held, update pool i p⟩ (.advance i o) := by
    refine ⟨hfault, fun _ _ h => (nomatch h), fun _ _ h => (nomatch h), ?_⟩
    rw [hstep]
    exact hfresh
  have hnowrap : Machine.NoWrap ⟨w, held, update pool i p⟩ (.advance i o) := by
    rintro j o' ⟨⟩
    simpa using hwrap
  have hsilent' : callbacks (Machine.step tid ⟨w, held, update pool i p⟩
      (.advance i o)).world.log = [] := by
    rw [hstep]
    exact hsilent
  rw [← hstep]
  exact .cons ⟨hlegal, hnowrap, hsilent'⟩ (.nil _)

/-- A step that asks the system for nothing and gives the client nothing. -/
theorem run_quiet (hadv : w.clearLog.advance (tid i) o p = (w', p')) (hfault : w.fault = false)
    (hlog : w'.log = []) (hwrap : w.NoWrap p) (hgiven : p.given = 0) :
    Run (silent tid) ⟨w, held, update pool i p⟩ [.advance i o]
      ⟨w', held, update pool i p'⟩ := by
  have hrun := @run_advance ι _ tid w w' held pool i o p p' hadv hfault
    (fun a ha => by rw [hlog] at ha; exact absurd ha List.not_mem_nil) (by rw [hlog]; rfl) hwrap
  rwa [hgiven, add_zero] at hrun

/-- `update_on_alloc` without interference; the exchange on the peak does not fail. -/
theorem run_updateOnAlloc (hfault : w.fault = false)
    (hwrap : w.stats.totalAllocatedBytes.toNat + r.requestedSize.toNat < 2 ^ 64)
    (hspurious : o.spurious = false) :
    ∃ es, Run (silent tid) ⟨w, held, update pool i (.addTotalBytes r k)⟩ es
      ⟨{ w.clearLog with stats := w.stats.updateOnAlloc r.requestedSize }, held,
        update pool i (.insert r k)⟩ := by
  let at_ (st : MemoryStats) (p : Point) : Machine ι :=
    ⟨{ w.clearLog with stats := st }, held, update pool i p⟩
  have hbytes : Run (silent tid) ⟨w, held, update pool i (.addTotalBytes r k)⟩
      [.advance i o] (at_ (w.stats.addTotalAllocatedBytes r.requestedSize) (.addTotalCount r k)) :=
    run_quiet rfl hfault rfl hwrap rfl
  have hcount (st : MemoryStats) : Run (silent tid) (at_ st (.addTotalCount r k))
      [.advance i o] (at_ st.addTotalAllocationCount (.addActive r k)) :=
    run_quiet rfl hfault rfl trivial rfl
  have hactive (st : MemoryStats) : Run (silent tid) (at_ st (.addActive r k))
      [.advance i o] (at_ st.addActiveAllocationCount (.addCurrent r k)) :=
    run_quiet rfl hfault rfl trivial rfl
  have hcurrent (st : MemoryStats) : Run (silent tid) (at_ st (.addCurrent r k))
      [.advance i o] (at_ (st.addCurrentAllocatedBytes r.requestedSize) (.loadPeak r
        (st.addCurrentAllocatedBytes r.requestedSize).currentAllocatedBytes k)) :=
    run_quiet rfl hfault rfl trivial rfl
  have hload (st : MemoryStats) (current : Word) : Run (silent tid)
      (at_ st (.loadPeak r current k)) [.advance i o]
      (at_ st (.raisePeak r current st.peakAllocatedBytes k)) :=
    run_quiet rfl hfault rfl trivial rfl
  have hraise (st : MemoryStats) (current : Word) : Run (silent tid)
      (at_ st (.raisePeak r current st.peakAllocatedBytes k)) [.advance i o]
      (at_ (if current > st.peakAllocatedBytes then st.storePeak current else st)
        (.insert r k)) := by
    refine run_quiet ?_ hfault rfl trivial rfl
    change (if current > st.peakAllocatedBytes then
      if st.peakAllocatedBytes = st.peakAllocatedBytes ∧ ¬ o.spurious then _ else _ else _) = _
    rw [hspurious]
    split
    · exact if_pos ⟨rfl, Bool.false_ne_true⟩
    · rfl
  exact ⟨_, hbytes.append ((hcount _).append ((hactive _).append ((hcurrent _).append
    ((hload _ _).append (hraise _ _)))))⟩

theorem run_call {q : Request} (hidle : pool i = .idle) (hfault : w.fault = false)
    (hheld : q.pointers ≤ held) :
    Run (silent tid) ⟨w, held, pool⟩ [.call i q]
      ⟨w.clearLog, held - q.pointers, update pool i (w.enter (tid i) q)⟩ := by
  refine .cons ⟨⟨hfault, ?_, ?_, ?_⟩, ?_, rfl⟩ (.nil _)
  · rintro j q' ⟨⟩
    exact hidle
  · rintro j q' ⟨⟩
    exact hheld
  · exact fun a ha => absurd ha List.not_mem_nil
  · rintro j o' ⟨⟩

/-- The block of a tracked allocation is laid out, and nothing is counted yet. -/
theorem layOut_spec (w : World) (t : ThreadId) {args : AllocArgs} (allocId : Word) (k : After)
    (htotal : calculateTotalSize args.size (effectiveAlignment args.alignment)
      w.config.footerSize ≠ 0)
    (hfit : SizesFit args.size (effectiveAlignment args.alignment) w.config.footerSize)
    (hraw : o.malloc ≠ 0) :
    ∃ w₁ r, w.layOut t o args allocId k = (w₁, .addTotalBytes r k) ∧
      r = w.recordOf o t allocId args.size args.alignment args.tag
        (userAddress o.malloc (effectiveAlignment args.alignment)) ∧
      w₁.heap = update w.heap o.malloc (some (extent (calculateTotalSize args.size
        (effectiveAlignment args.alignment) w.config.footerSize))) ∧
      w₁.log = w.log ++ [.systemAlloc (calculateTotalSize args.size
        (effectiveAlignment args.alignment) w.config.footerSize) o.malloc] ∧
      SameControl w w₁ ∧ w₁.tracker = w.tracker ∧ w₁.stats = w.stats ∧
      w₁.allocCounter = w.allocCounter ∧ w₁.fault = w.fault :=
  ⟨_, _, layOut_of_fit htotal hraw hfit, rfl, rfl, rfl, ⟨rfl, rfl, rfl, fun _ => rfl⟩, rfl, rfl,
    rfl, rfl⟩

/-- What a tracked allocation of a thread needs in order to go through when nobody
interferes. -/
structure Accepted (w : World) (t : ThreadId) (o : Oracle) (size alignment : Word) : Prop where
  unguarded : w.guardActive t = false
  initialized : w.initialized = true
  tracked : (w.gate o t size).1 = true
  defined : w.fault = false
  counter : w.allocCounter.toNat + 1 < 2 ^ 64
  bytes : w.stats.totalAllocatedBytes.toNat + size.toNat < 2 ^ 64
  accepted : calculateTotalSize size (effectiveAlignment alignment) w.config.footerSize ≠ 0
  fit : SizesFit size (effectiveAlignment alignment) w.config.footerSize
  answered : o.malloc ≠ 0
  steady : o.spurious = false
  fresh : Fresh w.heap o.malloc
    (calculateTotalSize size (effectiveAlignment alignment) w.config.footerSize)

/-- The same under a configuration that tracks every allocation. -/
structure Granted (w : World) (o : Oracle) (size alignment : Word) : Prop where
  opened : w.Open
  defined : w.fault = false
  counter : w.allocCounter.toNat + 1 < 2 ^ 64
  bytes : w.stats.totalAllocatedBytes.toNat + size.toNat < 2 ^ 64
  accepted : calculateTotalSize size (effectiveAlignment alignment) w.config.footerSize ≠ 0
  fit : SizesFit size (effectiveAlignment alignment) w.config.footerSize
  answered : o.malloc ≠ 0
  steady : o.spurious = false
  fresh : Fresh w.heap o.malloc
    (calculateTotalSize size (effectiveAlignment alignment) w.config.footerSize)

theorem Granted.toAccepted {size alignment : Word} (h : Granted w o size alignment)
    (t : ThreadId) : Accepted w t o size alignment where
  unguarded := h.opened.unguarded t
  initialized := h.opened.initialized
  tracked := gate_of_exhaustive h.opened.exhaustive size
  defined := h.defined
  counter := h.counter
  bytes := h.bytes
  accepted := h.accepted
  fit := h.fit
  answered := h.answered
  steady := h.steady
  fresh := h.fresh

/-- What such an allocation has done once its block is counted. -/
structure Counted (w : World) (o : Oracle) (size alignment : Word) (w' : World) : Prop where
  heap : w'.heap = update w.heap o.malloc (some (extent (calculateTotalSize size
    (effectiveAlignment alignment) w.config.footerSize)))
  config : w'.config = w.config
  stats : w'.stats = w.stats.updateOnAlloc size
  allocCounter : w'.allocCounter = w.allocCounter + 1
  fault : w'.fault = false

/-- Sixteen bytes with sixteen bytes of footer. -/
theorem accepted_small {b : Ptr} {t : ThreadId} (hfooter : w.config.footerSize = 16)
    (hunguarded : w.guardActive t = false) (hinitialized : w.initialized = true)
    (htracked : (w.gate { malloc := b } t 16).1 = true) (hdefined : w.fault = false)
    (hcounter : w.allocCounter.toNat + 1 < 2 ^ 64)
    (hbytes : w.stats.totalAllocatedBytes.toNat + 16 < 2 ^ 64) (hb : b ≠ 0)
    (hfresh : Fresh w.heap b 116) : Accepted w t { malloc := b } 16 16 := by
  have heff : effectiveAlignment 16 = 16 := by decide
  have htotal : calculateTotalSize 16 16 16 = 116 := by decide
  refine ⟨hunguarded, hinitialized, htracked, hdefined, hcounter, hbytes, ?_, ?_, hb, rfl, ?_⟩
  · rw [hfooter, heff, htotal]
    decide
  · rw [hfooter, heff]
    decide
  · rw [hfooter, heff, htotal]
    exact hfresh

/-- The same under the default configuration. -/
theorem granted_small {b : Ptr} (hopen : w.Open) (hconfig : w.config = {})
    (hdefined : w.fault = false) (hcounter : w.allocCounter.toNat + 1 < 2 ^ 64)
    (hbytes : w.stats.totalAllocatedBytes.toNat + 16 < 2 ^ 64) (hb : b ≠ 0)
    (hfresh : Fresh w.heap b 116) : Granted w { malloc := b } 16 16 := by
  have h := accepted_small (by rw [hconfig]; rfl) (hopen.unguarded 0) hopen.initialized
    (gate_of_exhaustive hopen.exhaustive 16) hdefined hcounter hbytes hb hfresh
  exact ⟨hopen, hdefined, hcounter, hbytes, h.accepted, h.fit, hb, rfl, h.fresh⟩

/-- The record that such an allocation is about to store. -/
structure Announced (o : Oracle) (size alignment : Word) (r : AllocationRecord) : Prop where
  userPtr : r.userPtr = userAddress o.malloc (effectiveAlignment alignment)
  rawPtr : r.rawPtr = o.malloc
  requestedSize : r.requestedSize = size

/-- An allocation up to the insertion of its record. -/
theorem run_toInsert {size alignment tag : Word} (hidle : pool i = .idle)
    (h : Accepted w (tid i) o size alignment) :
    ∃ es w' r, Run (silent tid) ⟨w, held, pool⟩ es
        ⟨w', held, update pool i (.insert r .done)⟩ ∧ Counted w o size alignment w' ∧
      w'.tracker = w.tracker ∧ SameControl w w' ∧ Announced o size alignment r := by
  have hcall := @run_call ι _ tid w held pool i (.alloc size alignment tag) hidle h.defined
    (Multiset.zero_le _)
  have henter : w.enter (tid i) (.alloc size alignment tag) =
      .drawId ⟨size, alignment, tag⟩ .done := by
    change w.enterAllocate _ _ _ = _
    unfold enterAllocate
    rw [if_neg (by simp [h.unguarded, h.initialized])]
  have hzero : held - (Request.alloc size alignment tag).pointers = held := Multiset.sub_zero held
  rw [henter, hzero] at hcall
  have hgate : (w.clearLog.gate o (tid i) size).1 = true := h.tracked
  have hdraw : Run (silent tid)
      ⟨w.clearLog, held, update pool i (.drawId ⟨size, alignment, tag⟩ .done)⟩ [.advance i o]
      ⟨w.clearLog.passGate o (tid i) size, held,
        update pool i (.layOut ⟨size, alignment, tag⟩ w.allocCounter .done)⟩ := by
    refine run_quiet ?_ h.defined rfl h.counter rfl
    exact congrArg (Prod.mk _) (if_pos hgate)
  obtain ⟨w₁, r, hadv, hr, hheap, hlog, hcontrol, htracker, hstats, hcounter, hfault⟩ :=
    @layOut_spec o (w.clearLog.passGate o (tid i) size).clearLog (tid i)
      ⟨size, alignment, tag⟩ w.allocCounter .done h.accepted h.fit h.answered
  have hsize : r.requestedSize = size := by
    rw [hr]
    rfl
  have hlayOut : Run (silent tid)
      ⟨w.clearLog.passGate o (tid i) size, held,
        update pool i (.layOut ⟨size, alignment, tag⟩ w.allocCounter .done)⟩ [.advance i o]
      ⟨w₁, held, update pool i (.addTotalBytes r .done)⟩ := by
    have hrun := @run_advance ι _ tid (w.clearLog.passGate o (tid i) size) w₁ held pool i o
      (.layOut ⟨size, alignment, tag⟩ w.allocCounter .done) (.addTotalBytes r .done) hadv
      h.defined (fun a ha => ?_) (by rw [hlog]; rfl) (Or.inr h.fit)
    · rwa [show Point.given (.layOut _ _ _) = 0 from rfl, add_zero] at hrun
    · rw [hlog] at ha
      rw [List.mem_singleton.mp ha]
      exact fun _ => h.fresh
  have hdefined : w₁.fault = false := hfault.trans h.defined
  obtain ⟨es, hcounters⟩ := @run_updateOnAlloc ι _ tid w₁ held pool i o r .done hdefined
    (by rw [hstats, hsize]; exact h.bytes) h.steady
  refine ⟨_, _, r, hcall.append (hdraw.append (hlayOut.append hcounters)), ?_, ?_⟩
  · refine ⟨hheap, hcontrol.config, ?_, hcounter, hdefined⟩
    change w₁.stats.updateOnAlloc r.requestedSize = _
    rw [hstats, hsize]
    rfl
  · have hpassed := @passGate_control w.clearLog o (tid i) size
    refine ⟨htracker, ⟨?_, ?_, ?_, ?_⟩, ?_, ?_, hsize⟩
    · exact hcontrol.config
    · exact hcontrol.initialized
    · exact hcontrol.leases
    · exact fun t => (hcontrol.guardActive t).trans (hpassed.guardActive t)
    · rw [hr]
      rfl
    · rw [hr]
      rfl

/-- The system allocator is not asked. -/
def quietOracle : Oracle := { malloc := 0 }

theorem run_finish (hfault : w.fault = false) (ptr : Ptr) :
    Run (silent tid) ⟨w, held, update pool i (.finish ptr)⟩ [.advance i quietOracle]
      ⟨w.clearLog, held + nonNull ptr, update pool i .idle⟩ :=
  run_advance rfl hfault (fun _ ha => absurd ha List.not_mem_nil) rfl trivial

/-- The record is stored, and the call returns. -/
theorem run_fromInsert (hfault : w.fault = false) (hsilent : w.Silent) :
    ∃ es, Run (silent tid) ⟨w, held, update pool i (.insert r .done)⟩ es
      ⟨(w.trackerInsert r.userPtr r).clearLog, held + nonNull r.userPtr,
        update pool i .idle⟩ := by
  have hinsert : Run (silent tid) ⟨w, held, update pool i (.insert r .done)⟩ [.advance i quietOracle]
      ⟨w.clearLog.trackerInsert r.userPtr r, held,
        update pool i (.checkLimit r.userPtr .done)⟩ :=
    run_quiet rfl hfault rfl trivial rfl
  have hchecked : (w.clearLog.trackerInsert r.userPtr r).clearLog.checkLimit =
      (w.trackerInsert r.userPtr r).clearLog := checkLimit_of_silent hsilent
  have hcheck : Run (silent tid)
      ⟨w.clearLog.trackerInsert r.userPtr r, held, update pool i (.checkLimit r.userPtr .done)⟩
      [.advance i quietOracle]
      ⟨(w.trackerInsert r.userPtr r).clearLog, held, update pool i (.finish r.userPtr)⟩ :=
    run_quiet (congrArg (fun w' => (w', Point.finish r.userPtr)) hchecked) hfault rfl trivial rfl
  exact ⟨_, hinsert.append (hcheck.append (@run_finish ι _ tid
    (w.trackerInsert r.userPtr r).clearLog held pool i hfault r.userPtr))⟩

/-- An allocation that goes through, from the call to the return. -/
theorem run_trackAlloc {size alignment tag : Word} (hidle : pool i = .idle)
    (h : Accepted w (tid i) o size alignment)
    (hsilent : w.config.onLimitExceeded = true →
      (w.stats.updateOnAlloc size).currentAllocatedBytes ≤ w.config.maxHeapBytes) :
    ∃ es w' r, Run (silent tid) ⟨w, held, pool⟩ es ⟨w', held + nonNull r.userPtr, pool⟩ ∧
      Counted w o size alignment w' ∧ w'.tracker = w.tracker.insert r.userPtr r ∧
      SameControl w w' ∧ Announced o size alignment r := by
  obtain ⟨es, w₁, r, hrun, ⟨hheap, hconfig, hstats, hcounter, hfault⟩, htracker, hcontrol, hr⟩ :=
    @run_toInsert ι _ tid w held pool i o size alignment tag hidle h
  have hlow : w₁.Silent := by
    unfold World.Silent
    rw [hconfig, hstats]
    exact hsilent
  obtain ⟨es', hrest⟩ := @run_fromInsert ι _ tid w₁ held pool i r hfault hlow
  rw [← hidle, update_eq_self] at hrest
  refine ⟨_, _, r, hrun.append hrest, ⟨hheap, hconfig, hstats, hcounter, hfault⟩, ?_, ?_, hr⟩
  · exact congrArg (fun t => t.insert r.userPtr r) htracker
  · exact ⟨hconfig, hcontrol.initialized, hcontrol.leases, hcontrol.guardActive⟩

/-! ## A release -/

/-- `update_on_free` without interference. -/
theorem run_updateOnFree {verdict : CorruptionType} {result : Ptr} (hfault : w.fault = false) :
    ∃ es, Run (silent tid) ⟨w, held, update pool i (.addFreedBytes r verdict result)⟩ es
      ⟨{ w.clearLog with stats := w.stats.updateOnFree r.requestedSize }, held,
        update pool i (.recordSize r verdict result)⟩ := by
  let at_ (st : MemoryStats) (p : Point) : Machine ι :=
    ⟨{ w.clearLog with stats := st }, held, update pool i p⟩
  have hbytes : Run (silent tid) ⟨w, held, update pool i (.addFreedBytes r verdict result)⟩
      [.advance i quietOracle]
      (at_ (w.stats.addTotalFreedBytes r.requestedSize) (.addFreeCount r verdict result)) :=
    run_quiet rfl hfault rfl trivial rfl
  have hcount (st : MemoryStats) : Run (silent tid) (at_ st (.addFreeCount r verdict result))
      [.advance i quietOracle] (at_ st.addTotalFreeCount (.subActive r verdict result)) :=
    run_quiet rfl hfault rfl trivial rfl
  have hactive (st : MemoryStats) : Run (silent tid) (at_ st (.subActive r verdict result))
      [.advance i quietOracle] (at_ st.subActiveAllocationCount (.subCurrent r verdict result)) :=
    run_quiet rfl hfault rfl trivial rfl
  have hcurrent (st : MemoryStats) : Run (silent tid) (at_ st (.subCurrent r verdict result))
      [.advance i quietOracle]
      (at_ (st.subCurrentAllocatedBytes r.requestedSize) (.recordSize r verdict result)) :=
    run_quiet rfl hfault rfl trivial rfl
  exact ⟨_, hbytes.append ((hcount _).append ((hactive _).append (hcurrent _)))⟩

theorem rawSystemFree_of_live {ptr : Ptr} (hraw : ptr ≠ 0) (hlive : (w.heap ptr).isSome = true)
    (hfault : w.fault = false) :
    (w.rawSystemFree ptr).fault = false ∧ (w.rawSystemFree ptr).stats = w.stats ∧
      (w.rawSystemFree ptr).config = w.config ∧
      (w.rawSystemFree ptr).log = w.log ++ [.systemFree ptr true] := by
  rw [rawSystemFree_of_ne hraw, hlive]
  refine ⟨?_, rfl, rfl, rfl⟩
  rw [hfault]
  rfl

/-- From the end of `update_on_free` to the return, whatever the verdict. -/
theorem run_fromRecordSize {verdict : CorruptionType} (hfault : w.fault = false)
    (hlive : (w.heap r.rawPtr).isSome = true) (hraw : r.rawPtr ≠ 0) :
    ∃ es w', Run (silent tid) ⟨w, held, update pool i (.recordSize r verdict 0)⟩ es
        ⟨w', held, update pool i .idle⟩ ∧ w'.stats = w.stats ∧ w'.config = w.config ∧
      w'.fault = false := by
  have hrecord : Run (silent tid) ⟨w, held, update pool i (.recordSize r verdict 0)⟩
      [.advance i quietOracle]
      ⟨{ w.clearLog with freeHist := w.freeHist.record r.requestedSize }, held,
        update pool i (if verdict = .none then .poison r 0 else .finish 0)⟩ :=
    run_quiet rfl hfault rfl trivial rfl
  have hfinish : ∀ w₁ : World, w₁.fault = false →
      Run (silent tid) ⟨w₁, held, update pool i (.finish 0)⟩ [.advance i quietOracle]
        ⟨w₁.clearLog, held, update pool i .idle⟩ := by
    intro w₁ h₁
    simpa using @run_finish ι _ tid w₁ held pool i h₁ 0
  by_cases hverdict : verdict = .none
  · rw [if_pos hverdict] at hrecord
    obtain ⟨w₂, hw₂⟩ : ∃ w₂, w₂ = (World.advanceDeallocate
        { w.clearLog with freeHist := w.freeHist.record r.requestedSize } (.poison r 0)).1 :=
      ⟨_, rfl⟩
    have hpoison : Run (silent tid)
        ⟨{ w.clearLog with freeHist := w.freeHist.record r.requestedSize }, held,
          update pool i (.poison r 0)⟩ [.advance i quietOracle]
        ⟨w₂, held, update pool i (.freeBlock r 0)⟩ := by
      have hrun := @run_advance ι _ tid
        { w.clearLog with freeHist := w.freeHist.record r.requestedSize } w₂ held pool i quietOracle
        (.poison r 0) (.freeBlock r 0) (by rw [hw₂]; rfl) hfault ?_ (by rw [hw₂]; rfl) trivial
      · rwa [show Point.given (.poison r 0) = 0 from rfl, add_zero] at hrun
      · intro a ha
        rw [hw₂] at ha
        rw [List.mem_singleton.mp ha]
        trivial
    have hheap : w₂.heap = w.heap := by rw [hw₂]; rfl
    have hstats : w₂.stats = w.stats := by rw [hw₂]; rfl
    have hconfig : w₂.config = w.config := by rw [hw₂]; rfl
    have hfault₂ : w₂.fault = false := by rw [hw₂]; exact hfault
    obtain ⟨hfault₃, hstats₃, hconfig₃, hlog₃⟩ := @rawSystemFree_of_live w₂.clearLog r.rawPtr hraw
      (by rw [← hheap] at hlive; exact hlive) hfault₂
    have hfree : Run (silent tid) ⟨w₂, held, update pool i (.freeBlock r 0)⟩
        [.advance i quietOracle]
        ⟨w₂.clearLog.rawSystemFree r.rawPtr, held, update pool i (.finish 0)⟩ := by
      have hrun := @run_advance ι _ tid w₂ (w₂.clearLog.rawSystemFree r.rawPtr) held pool i
        quietOracle (.freeBlock r 0) (.finish 0) rfl hfault₂ ?_ (by rw [hlog₃]; rfl) trivial
      · rwa [show Point.given (.freeBlock r 0) = 0 from rfl, add_zero] at hrun
      · intro a ha
        rw [hlog₃] at ha
        rw [List.mem_singleton.mp ha]
        trivial
    exact ⟨_, _, hrecord.append (hpoison.append (hfree.append (hfinish _ hfault₃))),
      hstats₃.trans hstats, hconfig₃.trans hconfig, hfault₃⟩
  · rw [if_neg hverdict] at hrecord
    exact ⟨_, _, hrecord.append (hfinish _ hfault), rfl, rfl, hfault⟩

/-- The check of the block, whatever it finds. -/
theorem run_verify {ptr : Ptr} (hfault : w.fault = false) :
    ∃ verdict w', Run (silent tid) ⟨w, held, update pool i (.verify r ptr 0)⟩
        [.advance i quietOracle] ⟨w', held, update pool i (.addFreedBytes r verdict 0)⟩ ∧
      w'.stats = w.stats ∧ w'.config = w.config ∧ w'.heap = w.heap ∧ w'.fault = false := by
  obtain ⟨verdict, hverdict⟩ : ∃ v, v = verifyCanary w.mem r.rawPtr w.config.footerSize :=
    ⟨_, rfl⟩
  obtain ⟨w₁, hw₁⟩ : ∃ w₁, w₁ = w.clearLog.emit (.inspect verdict.2) := ⟨_, rfl⟩
  obtain ⟨w₂, hw₂⟩ : ∃ w₂, w₂ = if verdict.1 ≠ .none then w₁.alert ptr verdict.1 else w₁ :=
    ⟨_, rfl⟩
  have hcases : w₂ = w₁.alert ptr verdict.1 ∨ w₂ = w₁ := by
    rw [hw₂]
    split
    · exact Or.inl rfl
    · exact Or.inr rfl
  have hadv : w.clearLog.advance (tid i) quietOracle (.verify r ptr 0) =
      (w₂, .addFreedBytes r verdict.1 0) := by
    rw [hw₂, hw₁, hverdict]
    rfl
  have hlog : (∀ a ∈ w₂.log, a.Fresh w.heap) ∧ callbacks w₂.log = [] := by
    rcases hcases with h | h
    · rw [h, hw₁]
      refine ⟨fun a ha => ?_, rfl⟩
      simp [alert, emit, clearLog] at ha
      rcases ha with rfl | rfl
      · trivial
      · trivial
    · rw [h, hw₁]
      refine ⟨fun a ha => ?_, rfl⟩
      rw [List.mem_singleton.mp ha]
      trivial
  have hrun := @run_advance ι _ tid w w₂ held pool i quietOracle (.verify r ptr 0)
    (.addFreedBytes r verdict.1 0) hadv hfault hlog.1 hlog.2 trivial
  rw [show Point.given (.verify r ptr 0) = 0 from rfl, add_zero] at hrun
  refine ⟨verdict.1, w₂, hrun, ?_⟩
  rcases hcases with h | h
  · rw [h, hw₁]
    exact ⟨rfl, rfl, rfl, hfault⟩
  · rw [h, hw₁]
    exact ⟨rfl, rfl, rfl, hfault⟩

/-- A release of a stored record, from the call to the return. -/
theorem run_trackFree {ptr : Ptr} (hidle : pool i = .idle) (hguard : w.guardActive (tid i) = false)
    (hheld : ptr ∈ held) (hfind : w.tracker.find ptr = some r) (hfault : w.fault = false)
    (hlive : (w.heap r.rawPtr).isSome = true) (hraw : r.rawPtr ≠ 0) :
    ∃ es w', Run (silent tid) ⟨w, held, pool⟩ es ⟨w', held - {ptr}, pool⟩ ∧
      w'.stats = w.stats.updateOnFree r.requestedSize ∧ w'.config = w.config ∧
      w'.fault = false := by
  have hne := ShardedTracker.ne_zero_of_find hfind
  have hcall := @run_call ι _ tid w held pool i (.free ptr) hidle hfault
    (by rw [Request.pointers, nonNull_of_ne hne]; exact Multiset.singleton_le.mpr hheld)
  have henter : w.enter (tid i) (.free ptr) = .erase ptr 0 := by
    unfold enter
    dsimp only
    rw [if_neg hne, hguard, if_neg Bool.false_ne_true]
  rw [henter, Request.pointers, nonNull_of_ne hne] at hcall
  have herase : Run (silent tid) ⟨w.clearLog, held - {ptr}, update pool i (.erase ptr 0)⟩
      [.advance i quietOracle]
      ⟨w.clearLog.trackerErase ptr, held - {ptr}, update pool i (.verify r ptr 0)⟩ :=
    run_quiet (@erase_of_stored w.clearLog ptr r hfind 0) hfault rfl trivial rfl
  obtain ⟨verdict, w₁, hverify, hstats₁, hconfig₁, hheap₁, hfault₁⟩ :=
    @run_verify ι _ tid (w.clearLog.trackerErase ptr) (held - {ptr}) pool i r ptr hfault
  obtain ⟨es, hcounters⟩ :=
    @run_updateOnFree ι _ tid w₁ (held - {ptr}) pool i r verdict 0 hfault₁
  obtain ⟨es', w₂, hrest, hstats₂, hconfig₂, hfault₂⟩ := @run_fromRecordSize ι _ tid
    { w₁.clearLog with stats := w₁.stats.updateOnFree r.requestedSize } (held - {ptr}) pool i r
    verdict hfault₁ ((congrArg (fun heap => (heap r.rawPtr).isSome) hheap₁).trans hlive) hraw
  rw [← hidle, update_eq_self] at hrest
  refine ⟨_, w₂, hcall.append (herase.append (hverify.append (hcounters.append hrest))), ?_,
    hconfig₂.trans hconfig₁, hfault₂⟩
  rw [hstats₂]
  exact congrArg (fun st => st.updateOnFree r.requestedSize) hstats₁

end Machine

end MemSentry
