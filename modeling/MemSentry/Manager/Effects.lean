import MemSentry.Manager.Runs

/-!
# What the operations change

One inversion lemma for each operation of the manager. `SameControl` collects what no
operation touches: configuration, lifecycle state, leases and recursion guards.
`SystemOnly` is for the steps that leave all members of the manager alone.
-/

namespace MemSentry

open ByteMemory MemSentry.Core Profiler Function

structure SameControl (w w' : World) : Prop where
  config : w'.config = w.config
  initialized : w'.initialized = w.initialized
  leases : w'.leases = w.leases
  guardActive : ∀ tid, w'.guardActive tid = w.guardActive tid

theorem SameControl.refl (w : World) : SameControl w w := ⟨rfl, rfl, rfl, fun _ => rfl⟩

theorem SameControl.trans {w w' w'' : World} (h : SameControl w w') (h' : SameControl w' w'') :
    SameControl w w'' :=
  ⟨h'.config.trans h.config, h'.initialized.trans h.initialized, h'.leases.trans h.leases,
    fun tid => (h'.guardActive tid).trans (h.guardActive tid)⟩

/-- Only the memory, the blocks, the log and the mark may have changed. That is all the
system allocator and the checks of the manager touch. -/
structure SystemOnly (w w' : World) : Prop where
  config : w'.config = w.config
  initialized : w'.initialized = w.initialized
  allocCounter : w'.allocCounter = w.allocCounter
  stats : w'.stats = w.stats
  tracker : w'.tracker = w.tracker
  freeHist : w'.freeHist = w.freeHist
  locals : w'.locals = w.locals
  leases : w'.leases = w.leases
  calls : w'.calls = w.calls

theorem SystemOnly.refl (w : World) : SystemOnly w w :=
  ⟨rfl, rfl, rfl, rfl, rfl, rfl, rfl, rfl, rfl⟩

theorem SystemOnly.of_fields (w : World) (mem : Memory) (heap : Ptr → Option Nat)
    (log : List Action) (fault : Bool) :
    SystemOnly w { w with mem := mem, heap := heap, log := log, fault := fault } :=
  ⟨rfl, rfl, rfl, rfl, rfl, rfl, rfl, rfl, rfl⟩

theorem SystemOnly.control {w w' : World} (h : SystemOnly w w') : SameControl w w' := by
  refine ⟨h.config, h.initialized, h.leases, fun tid => ?_⟩
  unfold World.guardActive
  rw [h.locals]

/-- Neither the blocks nor the tracker nor the memory have changed. -/
structure SameBlocks (w w' : World) : Prop where
  heap : w'.heap = w.heap
  tracker : w'.tracker = w.tracker
  mem : w'.mem = w.mem
  calls : w'.calls = w.calls

namespace World

variable {w : World} {o : Oracle} {tid : ThreadId} {size alignment tag allocId : Word} {ptr : Ptr}

/-! ## The system allocator -/

theorem rawSystemAlloc_of_null (h : o.malloc = 0) :
    w.rawSystemAlloc o size = (w.emit (.systemAlloc size 0), 0) := by
  unfold rawSystemAlloc
  dsimp only
  rw [if_pos h, h]

theorem rawSystemAlloc_of_ne (h : o.malloc ≠ 0) :
    w.rawSystemAlloc o size =
      ({ w.emit (.systemAlloc size o.malloc) with
          heap := update w.heap o.malloc (some (extent size)) }, o.malloc) := by
  unfold rawSystemAlloc
  dsimp only
  rw [if_neg h]
  rfl

theorem rawSystemAlloc_snd : (w.rawSystemAlloc o size).2 = o.malloc := by
  by_cases h : o.malloc = 0
  · rw [rawSystemAlloc_of_null h, h]
  · rw [rawSystemAlloc_of_ne h]

theorem rawSystemAlloc_system : SystemOnly w (w.rawSystemAlloc o size).1 := by
  by_cases h : o.malloc = 0
  · rw [rawSystemAlloc_of_null h]
    exact .of_fields w _ _ _ _
  · rw [rawSystemAlloc_of_ne h]
    exact .of_fields w _ _ _ _

theorem rawSystemFree_of_ne (h : ptr ≠ 0) :
    w.rawSystemFree ptr =
      { w.emit (.systemFree ptr (w.heap ptr).isSome) with
        heap := update w.heap ptr none
        fault := w.fault || !(w.heap ptr).isSome } := by
  unfold rawSystemFree
  rw [if_neg h]
  rfl

theorem rawSystemFree_system : SystemOnly w (w.rawSystemFree ptr) := by
  unfold rawSystemFree
  split
  · exact .refl w
  · exact .of_fields w _ _ _ _

/-! ## Allocation -/

theorem locals_passGate (w : World) (o : Oracle) (tid : ThreadId) (size : Word) (t : ThreadId) :
    ((w.passGate o tid size).locals t).recursionDepth = (w.locals t).recursionDepth ∧
      ((w.passGate o tid size).locals t).activeScopeTag = (w.locals t).activeScopeTag := by
  unfold passGate
  dsimp only
  by_cases ht : t = tid
  · rw [ht, update_self]
    exact ⟨rfl, rfl⟩
  · rw [update_of_ne ht]
    exact ⟨rfl, rfl⟩

theorem passGate_control : SameControl w (w.passGate o tid size) := by
  refine ⟨rfl, rfl, rfl, fun t => ?_⟩
  have hdepth := (locals_passGate w o tid size t).1
  simp only [guardActive, hdepth]

theorem finalTag_passGate : (w.passGate o tid size).finalTag tid tag = w.finalTag tid tag := by
  have hscope := (locals_passGate w o tid size tid).2
  simp only [finalTag, currentScopeTag, hscope]
  rfl

theorem checkLimit_eq : w.checkLimit = w ∨ ∃ a b, w.checkLimit = w.emit (.limitExceeded a b) := by
  unfold checkLimit
  split
  · exact Or.inr ⟨_, _, rfl⟩
  · exact Or.inl rfl

/-- The allocation goes on past the guard check and the sampling gate. -/
def Tracks (w : World) (o : Oracle) (tid : ThreadId) (size : Word) : Prop :=
  w.guardActive tid = false ∧ w.initialized = true ∧ (w.gate o tid size).1 = true

instance (w : World) (o : Oracle) (tid : ThreadId) (size : Word) : Decidable (w.Tracks o tid size) :=
  inferInstanceAs (Decidable (_ ∧ _))

theorem allocate_of_tracks (h : w.Tracks o tid size) :
    w.allocate o tid size alignment tag =
      (w.passGate o tid size).allocateTracked o tid w.allocCounter size alignment tag := by
  obtain ⟨hguard, hinit, hgate⟩ := h
  unfold allocate
  rw [if_neg, if_pos hgate]
  rw [hguard, hinit]
  decide

/-- An allocation that is not tracked asks the system for the bare size. -/
theorem allocate_of_not_tracks (h : ¬ w.Tracks o tid size) :
    ∃ w₁, SameControl w w₁ ∧ SameBlocks w w₁ ∧ w₁.log = w.log ∧ w₁.fault = w.fault ∧
      w.allocate o tid size alignment tag = w₁.rawSystemAlloc o size := by
  unfold allocate
  split
  · exact ⟨w, SameControl.refl w, ⟨rfl, rfl, rfl, rfl⟩, rfl, rfl, rfl⟩
  · rename_i hopen
    split
    · rename_i hgate
      rw [not_or, Bool.not_eq_true, not_not] at hopen
      exact absurd ⟨hopen.1, hopen.2, hgate⟩ h
    · exact ⟨_, passGate_control, ⟨rfl, rfl, rfl, rfl⟩, rfl, rfl, rfl⟩

/-- The log grows by requests to the system and calls of the watchdog. -/
def LogsRequests (w w' : World) : Prop :=
  ∃ as, w'.log = w.log ++ as ∧
    ∀ a ∈ as, (∃ n q, a = .systemAlloc n q) ∨ ∃ m n, a = .limitExceeded m n

theorem logsRequests_of_eq {w' : World} (h : w'.log = w.log) : LogsRequests w w' :=
  ⟨[], by rw [h, List.append_nil], fun _ ha => absurd ha List.not_mem_nil⟩

theorem logsRequests_of_systemAlloc {w' : World} {n : Word} {q : Ptr}
    (h : w'.log = w.log ++ [.systemAlloc n q]) : LogsRequests w w' :=
  ⟨_, h, fun _ ha => Or.inl ⟨n, q, List.mem_singleton.mp ha⟩⟩

/-- What `allocate` can do to blocks, tracker and memory. -/
inductive AllocateEffect (w : World) (o : Oracle) (tid : ThreadId) (size alignment : Word)
    (w' : World) (p : Ptr) : Prop
  | failed (hp : p = 0) (hwhy : o.malloc = 0 ∨ w.Tracks o tid size ∧
        calculateTotalSize size (effectiveAlignment alignment) w.config.footerSize = 0)
      (hblocks : SameBlocks w w') (hfault : w'.fault = w.fault)
      (hlog : LogsRequests w w')
  | faulted (hp : p = 0)
      (hfit : ¬ SizesFit size (effectiveAlignment alignment) w.config.footerSize)
      (hfault : w'.fault = true) (htracker : w'.tracker = w.tracker) (hmem : w'.mem = w.mem)
      (hcalls : w'.calls = w.calls)
      (hlog : LogsRequests w w')
  | raw (hp : p = o.malloc) (hne : p ≠ 0) (htracks : ¬ w.Tracks o tid size)
      (hheap : w'.heap = update w.heap o.malloc (some (extent size)))
      (htracker : w'.tracker = w.tracker) (hmem : w'.mem = w.mem) (hcalls : w'.calls = w.calls)
      (hlog : w'.log = w.log ++ [.systemAlloc size o.malloc]) (hfault : w'.fault = w.fault)
  | tracked (allocId tag : Word) (htracks : w.Tracks o tid size) (hraw : o.malloc ≠ 0)
      (hfit : SizesFit size (effectiveAlignment alignment) w.config.footerSize)
      (hp : p = userAddress o.malloc (effectiveAlignment alignment))
      (hheap : w'.heap = update w.heap o.malloc
        (some (extent (calculateTotalSize size (effectiveAlignment alignment)
          w.config.footerSize))))
      (htracker : w'.tracker = w.tracker.insert p (w.recordOf o tid allocId size alignment tag p))
      (hcalls : w'.calls = .insert p (w.recordOf o tid allocId size alignment tag p) :: w.calls)
      (hmem : w'.mem = (initBlock w.mem o.malloc size (effectiveAlignment alignment)
        w.config.footerSize allocId (w.finalTag tid tag) w.config.enableCanary tid).2.1)
      (hlog : ∃ rest, w'.log = w.log ++ .systemAlloc (calculateTotalSize size
        (effectiveAlignment alignment) w.config.footerSize) o.malloc :: rest ∧
        ∀ a ∈ rest, ∃ m n, a = .limitExceeded m n) (hfault : w'.fault = w.fault)

/-- What a tracked allocation has done that got its block. -/
structure Installed (w : World) (o : Oracle) (tid : ThreadId) (size alignment tag : Word)
    (w' : World) (p : Ptr) : Prop where
  raw_ne_zero : o.malloc ≠ 0
  fit : SizesFit size (effectiveAlignment alignment) w.config.footerSize
  pointer : p = userAddress o.malloc (effectiveAlignment alignment)
  heap : w'.heap = update w.heap o.malloc
    (some (extent (calculateTotalSize size (effectiveAlignment alignment) w.config.footerSize)))
  tracker : w'.tracker = w.tracker.insert p
    (w.recordOf o tid w.allocCounter size alignment tag p)
  calls : w'.calls = .insert p (w.recordOf o tid w.allocCounter size alignment tag p) :: w.calls
  mem : w'.mem = (initBlock w.mem o.malloc size (effectiveAlignment alignment)
    w.config.footerSize w.allocCounter (w.finalTag tid tag) w.config.enableCanary tid).2.1
  log : ∃ rest, w'.log = w.log ++ .systemAlloc (calculateTotalSize size
    (effectiveAlignment alignment) w.config.footerSize) o.malloc :: rest ∧
    ∀ a ∈ rest, ∃ m n, a = .limitExceeded m n
  fault : w'.fault = w.fault

theorem installBlock_spec (w : World) (o : Oracle) (tid : ThreadId)
    (allocId size alignment tag : Word) (hraw : o.malloc ≠ 0) :
    ∃ w', w.installBlock o tid allocId size alignment tag =
        (w', userAddress o.malloc (effectiveAlignment alignment)) ∧
      SameControl w w' ∧ w'.heap = w.heap ∧ w'.fault = w.fault ∧
      w'.tracker = w.tracker.insert (userAddress o.malloc (effectiveAlignment alignment))
        (w.recordOf o tid allocId size alignment tag
          (userAddress o.malloc (effectiveAlignment alignment))) ∧
      w'.calls = .insert (userAddress o.malloc (effectiveAlignment alignment))
        (w.recordOf o tid allocId size alignment tag
          (userAddress o.malloc (effectiveAlignment alignment))) :: w.calls ∧
      w'.mem = (initBlock w.mem o.malloc size (effectiveAlignment alignment)
        w.config.footerSize allocId (w.finalTag tid tag) w.config.enableCanary tid).2.1 ∧
      ∃ rest, w'.log = w.log ++ rest ∧ ∀ a ∈ rest, ∃ m n, a = .limitExceeded m n := by
  unfold installBlock
  dsimp only
  rw [initBlock_user hraw]
  refine ⟨_, rfl, ?_⟩
  rcases checkLimit_eq (w := World.trackerInsert
    { w with
      mem := (initBlock w.mem o.malloc size (effectiveAlignment alignment)
        w.config.footerSize allocId (w.finalTag tid tag) w.config.enableCanary tid).2.1
      stats := w.stats.updateOnAlloc size }
    (userAddress o.malloc (effectiveAlignment alignment))
    (w.recordOf o tid allocId size alignment tag
      (userAddress o.malloc (effectiveAlignment alignment)))) with heq | ⟨m, n, heq⟩
  · rw [heq]
    exact ⟨⟨rfl, rfl, rfl, fun _ => rfl⟩, rfl, rfl, rfl, rfl, rfl, [], (List.append_nil _).symm,
      fun _ ha => by cases ha⟩
  · rw [heq]
    refine ⟨⟨rfl, rfl, rfl, fun _ => rfl⟩, rfl, rfl, rfl, rfl, rfl, [.limitExceeded m n], rfl, ?_⟩
    exact fun a ha => ⟨m, n, List.mem_singleton.mp ha⟩

/-- The record depends on the state through the configuration and the scope tag. -/
theorem recordOf_passGate {userPtr : Ptr} :
    (w.passGate o tid size).recordOf o tid allocId size alignment tag userPtr =
      w.recordOf o tid allocId size alignment tag userPtr := by
  unfold recordOf
  rw [finalTag_passGate]
  rfl

theorem allocate_not_tracks_effect (h : ¬ w.Tracks o tid size) :
    SameControl w (w.allocate o tid size alignment tag).1 ∧
      w.AllocateEffect o tid size alignment (w.allocate o tid size alignment tag).1
        (w.allocate o tid size alignment tag).2 := by
  obtain ⟨w₁, hcontrol, hblocks, hlog, hfault, heq⟩ :=
    @allocate_of_not_tracks w o tid size alignment tag h
  rw [heq]
  refine ⟨hcontrol.trans rawSystemAlloc_system.control, ?_⟩
  by_cases hraw : o.malloc = 0
  · rw [rawSystemAlloc_of_null hraw]
    refine .failed rfl (Or.inl hraw) ⟨hblocks.heap, hblocks.tracker, hblocks.mem, hblocks.calls⟩
      hfault (logsRequests_of_systemAlloc (n := size) (q := 0) ?_)
    rw [← hlog]
    rfl
  · rw [rawSystemAlloc_of_ne hraw]
    refine .raw rfl hraw h ?_ hblocks.tracker hblocks.mem hblocks.calls ?_ hfault
    · rw [← hblocks.heap]
    · rw [← hlog]
      rfl

/-- An untracked block is the system's own, and nothing but the heap has changed. -/
theorem allocate_untracked (hraw : o.malloc ≠ 0) (htracks : ¬ w.Tracks o tid size) :
    (w.allocate o tid size alignment tag).2 = o.malloc ∧
      (w.allocate o tid size alignment tag).1.heap =
        update w.heap o.malloc (some (extent size)) ∧
      (w.allocate o tid size alignment tag).1.tracker = w.tracker ∧
      (w.allocate o tid size alignment tag).1.mem = w.mem ∧
      (w.allocate o tid size alignment tag).1.fault = w.fault := by
  obtain ⟨w₁, _, hblocks, _, hfault, heq⟩ :=
    @allocate_of_not_tracks w o tid size alignment tag htracks
  rw [heq, rawSystemAlloc_of_ne hraw]
  refine ⟨rfl, ?_, hblocks.tracker, hblocks.mem, hfault⟩
  rw [← hblocks.heap]

theorem allocateTracked_of_zero
    (h : calculateTotalSize size (effectiveAlignment alignment) w.config.footerSize = 0) :
    w.allocateTracked o tid allocId size alignment tag = (w, 0) := by
  unfold allocateTracked
  exact if_pos h

theorem allocateTracked_of_null
    (h : calculateTotalSize size (effectiveAlignment alignment) w.config.footerSize ≠ 0)
    (hraw : o.malloc = 0) :
    w.allocateTracked o tid allocId size alignment tag =
      (w.emit (.systemAlloc (calculateTotalSize size (effectiveAlignment alignment)
        w.config.footerSize) 0), 0) := by
  unfold allocateTracked
  dsimp only
  rw [if_neg h, rawSystemAlloc_snd, if_pos hraw, rawSystemAlloc_of_null hraw]

/-- The world after the raw block of a tracked allocation has been handed out. -/
def withRawBlock (w : World) (o : Oracle) (totalSize : Word) : World :=
  { w.emit (.systemAlloc totalSize o.malloc) with
    heap := update w.heap o.malloc (some (extent totalSize)) }

theorem allocateTracked_of_fit
    (h : calculateTotalSize size (effectiveAlignment alignment) w.config.footerSize ≠ 0)
    (hraw : o.malloc ≠ 0)
    (hfit : SizesFit size (effectiveAlignment alignment) w.config.footerSize) :
    w.allocateTracked o tid allocId size alignment tag =
      (w.withRawBlock o (calculateTotalSize size (effectiveAlignment alignment)
        w.config.footerSize)).installBlock o tid allocId size alignment tag := by
  unfold allocateTracked
  dsimp only
  rw [if_neg h, rawSystemAlloc_snd, if_neg hraw, if_pos hfit, rawSystemAlloc_of_ne hraw]
  rfl

theorem allocateTracked_of_not_fit
    (h : calculateTotalSize size (effectiveAlignment alignment) w.config.footerSize ≠ 0)
    (hraw : o.malloc ≠ 0)
    (hfit : ¬ SizesFit size (effectiveAlignment alignment) w.config.footerSize) :
    w.allocateTracked o tid allocId size alignment tag =
      ({ w.withRawBlock o (calculateTotalSize size (effectiveAlignment alignment)
        w.config.footerSize) with fault := true }, 0) := by
  unfold allocateTracked
  dsimp only
  rw [if_neg h, rawSystemAlloc_snd, if_neg hraw, if_neg hfit, rawSystemAlloc_of_ne hraw]
  rfl

theorem allocate_installed (h : w.Tracks o tid size) (hraw : o.malloc ≠ 0)
    (hfit : SizesFit size (effectiveAlignment alignment) w.config.footerSize) :
    SameControl w (w.allocate o tid size alignment tag).1 ∧
      w.Installed o tid size alignment tag (w.allocate o tid size alignment tag).1
        (w.allocate o tid size alignment tag).2 := by
  have hpass := @passGate_control w o tid size
  obtain ⟨w', heq, hcontrol, hheap, hfault, htracker, hcalls, hmem, rest, hlog, hrest⟩ :=
    installBlock_spec ((w.passGate o tid size).withRawBlock o (calculateTotalSize size
      (effectiveAlignment alignment) (w.passGate o tid size).config.footerSize)) o tid
      w.allocCounter size alignment tag hraw
  have hrecord := @recordOf_passGate w o tid size alignment tag w.allocCounter
    (userAddress o.malloc (effectiveAlignment alignment))
  have htag := @finalTag_passGate w o tid size tag
  rw [allocate_of_tracks h, @allocateTracked_of_fit (w.passGate o tid size) o tid size alignment
    tag w.allocCounter (ne_zero_of_sizesFit hfit) hraw hfit, heq]
  refine ⟨⟨hcontrol.config, hcontrol.initialized, hcontrol.leases, fun t =>
    (hcontrol.guardActive t).trans (hpass.guardActive t)⟩, ?_⟩
  refine ⟨hraw, hfit, rfl, hheap, ?_, ?_, ?_, ⟨rest, ?_, hrest⟩, hfault⟩
  · rw [htracker, ← hrecord]
    rfl
  · rw [hcalls, ← hrecord]
    rfl
  · rw [hmem, ← htag]
    rfl
  · rw [hlog]
    exact List.append_assoc _ _ _

theorem allocate_tracks_effect (h : w.Tracks o tid size) :
    SameControl w (w.allocate o tid size alignment tag).1 ∧
      w.AllocateEffect o tid size alignment (w.allocate o tid size alignment tag).1
        (w.allocate o tid size alignment tag).2 := by
  have hpass := @passGate_control w o tid size
  by_cases h0 : calculateTotalSize size (effectiveAlignment alignment)
      (w.passGate o tid size).config.footerSize = 0
  · rw [allocate_of_tracks h, allocateTracked_of_zero h0]
    exact ⟨hpass, .failed rfl (Or.inr ⟨h, h0⟩) ⟨rfl, rfl, rfl, rfl⟩ rfl (logsRequests_of_eq rfl)⟩
  by_cases hraw : o.malloc = 0
  · rw [allocate_of_tracks h, allocateTracked_of_null h0 hraw]
    exact ⟨⟨rfl, rfl, rfl, hpass.guardActive⟩,
      .failed rfl (Or.inl hraw) ⟨rfl, rfl, rfl, rfl⟩ rfl
        (logsRequests_of_systemAlloc rfl)⟩
  by_cases hfit : SizesFit size (effectiveAlignment alignment)
      (w.passGate o tid size).config.footerSize
  · obtain ⟨hcontrol, hi⟩ := @allocate_installed w o tid size alignment tag h hraw hfit
    exact ⟨hcontrol, .tracked w.allocCounter tag h hraw hfit hi.pointer hi.heap hi.tracker
      hi.calls hi.mem hi.log hi.fault⟩
  · rw [allocate_of_tracks h, allocateTracked_of_not_fit h0 hraw hfit]
    exact ⟨⟨rfl, rfl, rfl, hpass.guardActive⟩,
      .faulted rfl hfit rfl rfl rfl rfl (logsRequests_of_systemAlloc rfl)⟩

theorem allocate_effect (w : World) (o : Oracle) (tid : ThreadId) (size alignment tag : Word) :
    SameControl w (w.allocate o tid size alignment tag).1 ∧
      w.AllocateEffect o tid size alignment (w.allocate o tid size alignment tag).1
        (w.allocate o tid size alignment tag).2 := by
  by_cases h : w.Tracks o tid size
  · exact allocate_tracks_effect h
  · exact allocate_not_tracks_effect h

/-- A tracked allocation that succeeds has got its block. -/
theorem installed_of_ne (htracks : w.Tracks o tid size)
    (hne : (w.allocate o tid size alignment tag).2 ≠ 0) :
    w.Installed o tid size alignment tag (w.allocate o tid size alignment tag).1
      (w.allocate o tid size alignment tag).2 := by
  cases (allocate_effect w o tid size alignment tag).2 with
  | failed hp hwhy hblocks hfault hlog => exact absurd hp hne
  | faulted hp hfit hfault htracker hmem hcalls hlog => exact absurd hp hne
  | raw hp hne hnot hheap htracker hmem hcalls hlog hfault => exact absurd htracks hnot
  | tracked allocId tag' _ hraw hfit hp hheap htracker hcalls hmem hlog hfault =>
    exact (allocate_installed htracks hraw hfit).2

/-- Without an answer, or with a size that is refused, nothing is kept. -/
theorem allocate_refused (hwhy : o.malloc = 0 ∨ w.Tracks o tid size ∧
      calculateTotalSize size (effectiveAlignment alignment) w.config.footerSize = 0) :
    (w.allocate o tid size alignment tag).2 = 0 ∧
      SameBlocks w (w.allocate o tid size alignment tag).1 ∧
      (w.allocate o tid size alignment tag).1.fault = w.fault := by
  by_cases htracks : w.Tracks o tid size
  · rw [allocate_of_tracks htracks]
    by_cases hzero : calculateTotalSize size (effectiveAlignment alignment)
        (w.passGate o tid size).config.footerSize = 0
    · rw [allocateTracked_of_zero hzero]
      exact ⟨rfl, ⟨rfl, rfl, rfl, rfl⟩, rfl⟩
    · rw [allocateTracked_of_null hzero (hwhy.resolve_right fun h => hzero h.2)]
      exact ⟨rfl, ⟨rfl, rfl, rfl, rfl⟩, rfl⟩
  · have hraw : o.malloc = 0 := hwhy.resolve_right fun h => htracks h.1
    obtain ⟨w₁, _, hblocks, _, hfault, heq⟩ :=
      @allocate_of_not_tracks w o tid size alignment tag htracks
    rw [heq, rawSystemAlloc_of_null hraw]
    exact ⟨rfl, ⟨hblocks.heap, hblocks.tracker, hblocks.mem, hblocks.calls⟩, hfault⟩

theorem allocate_log : LogsRequests w (w.allocate o tid size alignment tag).1 := by
  cases (allocate_effect w o tid size alignment tag).2 with
  | failed hp hwhy hblocks hfault hlog => exact hlog
  | faulted hp hfit hfault htracker hmem hcalls hlog => exact hlog
  | raw hp hne htracks hheap htracker hmem hcalls hlog hfault =>
    exact logsRequests_of_systemAlloc hlog
  | tracked allocId tag' htracks hraw hfit hp hheap htracker hcalls hmem hlog hfault =>
    obtain ⟨rest, hlog, hrest⟩ := hlog
    refine ⟨_, hlog, fun a ha => ?_⟩
    rcases List.mem_cons.mp ha with rfl | ha
    · exact Or.inl ⟨_, _, rfl⟩
    · exact Or.inr (hrest a ha)

/-- The entry point looks at the guard and the lifecycle state once more. -/
theorem trackAlloc_eq (w : World) (o : Oracle) (tid : ThreadId) (size alignment tag : Word) :
    w.trackAlloc o tid size alignment tag = w.allocate o tid size alignment tag := by
  unfold trackAlloc
  split
  · rename_i h
    unfold allocate
    rw [if_pos h]
  · rfl

/-! ## Release -/

variable {r : AllocationRecord}

theorem releaseTracked_clean (hraw : r.rawPtr ≠ 0)
    (hverdict : (verifyCanary w.mem r.rawPtr w.config.footerSize).1 = .none) :
    w.releaseTracked ptr r =
      { w with
        mem := (poisonBlock w.mem r.rawPtr w.config.footerSize).1
        stats := w.stats.updateOnFree r.requestedSize
        freeHist := w.freeHist.record r.requestedSize
        heap := update w.heap r.rawPtr none
        log := w.log ++ [.inspect (verifyCanary w.mem r.rawPtr w.config.footerSize).2,
          .inspect (poisonBlock w.mem r.rawPtr w.config.footerSize).2,
          .systemFree r.rawPtr (w.heap r.rawPtr).isSome]
        fault := w.fault || !(w.heap r.rawPtr).isSome } := by
  unfold releaseTracked
  dsimp only
  rw [if_neg (not_not_intro hverdict), if_pos hverdict, rawSystemFree_of_ne hraw]
  simp [emit]

theorem releaseTracked_corrupted
    (hverdict : (verifyCanary w.mem r.rawPtr w.config.footerSize).1 ≠ .none) :
    w.releaseTracked ptr r =
      { w with
        stats := w.stats.updateOnFree r.requestedSize
        freeHist := w.freeHist.record r.requestedSize
        log := w.log ++ [.inspect (verifyCanary w.mem r.rawPtr w.config.footerSize).2,
          .alert ptr (verifyCanary w.mem r.rawPtr w.config.footerSize).1] } := by
  unfold releaseTracked
  dsimp only
  rw [if_pos hverdict, if_neg hverdict]
  simp [alert, emit]

theorem releaseUntracked_of_null (h : getHeaderFromUserPtr w.mem ptr = 0) :
    w.releaseUntracked ptr = w.rawSystemFree ptr := by
  unfold releaseUntracked
  dsimp only
  rw [if_neg (not_not_intro h)]

/-- The branch for a freed magic number is dead: only headers with the live magic number
are recognised. -/
theorem releaseUntracked_of_ne (h : getHeaderFromUserPtr w.mem ptr ≠ 0) :
    w.releaseUntracked ptr =
      { w with
        mem := (poisonBlock w.mem (getHeaderFromUserPtr w.mem ptr) w.config.canaryFooterSize).1
        heap := update w.heap (getHeaderFromUserPtr w.mem ptr) none
        log := w.log ++ [.inspect (poisonBlock w.mem (getHeaderFromUserPtr w.mem ptr)
            w.config.canaryFooterSize).2,
          .systemFree (getHeaderFromUserPtr w.mem ptr)
            (w.heap (getHeaderFromUserPtr w.mem ptr)).isSome]
        fault := w.fault || !(w.heap (getHeaderFromUserPtr w.mem ptr)).isSome } := by
  have hmagic := (getHeaderFromUserPtr_spec h).1
  unfold releaseUntracked
  dsimp only
  rw [if_pos h, if_neg (by rw [hmagic]; exact magic_ne_freed), if_pos hmagic,
    rawSystemFree_of_ne h]
  simp [emit]

/-- What `deallocate` can do with the guard inactive. -/
inductive DeallocateEffect (w : World) (p : Ptr) (w' : World) : Prop
  | released (r : AllocationRecord) (hfind : w.tracker.find p = some r) (hraw : r.rawPtr ≠ 0)
      (hverdict : (verifyCanary w.mem r.rawPtr w.config.footerSize).1 = .none)
      (hheap : w'.heap = update w.heap r.rawPtr none)
      (htracker : w'.tracker = w.tracker.afterErase p)
      (hmem : w'.mem = (poisonBlock w.mem r.rawPtr w.config.footerSize).1)
      (hlog : w'.log = w.log ++ [.inspect (verifyCanary w.mem r.rawPtr w.config.footerSize).2,
        .inspect (poisonBlock w.mem r.rawPtr w.config.footerSize).2,
        .systemFree r.rawPtr (w.heap r.rawPtr).isSome])
      (hfault : w'.fault = (w.fault || !(w.heap r.rawPtr).isSome))
  | leaked (r : AllocationRecord) (hfind : w.tracker.find p = some r)
      (hverdict : (verifyCanary w.mem r.rawPtr w.config.footerSize).1 ≠ .none)
      (hheap : w'.heap = w.heap) (htracker : w'.tracker = w.tracker.afterErase p)
      (hmem : w'.mem = w.mem)
      (hlog : w'.log = w.log ++ [.inspect (verifyCanary w.mem r.rawPtr w.config.footerSize).2,
        .alert p (verifyCanary w.mem r.rawPtr w.config.footerSize).1])
      (hfault : w'.fault = w.fault)
  | alarm (hfind : w.tracker.find p = none) (hq : w.tracker.Quarantined p)
      (hheap : w'.heap = w.heap) (htracker : w'.tracker = w.tracker) (hmem : w'.mem = w.mem)
      (hlog : w'.log = w.log ++ [.alert p .doubleFree]) (hfault : w'.fault = w.fault)
  | untracked (hfind : w.tracker.find p = none) (hq : ¬ w.tracker.Quarantined p)
      (hheader : getHeaderFromUserPtr w.mem p = 0)
      (hheap : w'.heap = update w.heap p none) (htracker : w'.tracker = w.tracker)
      (hmem : w'.mem = w.mem)
      (hlog : w'.log = w.log ++ [.systemFree p (w.heap p).isSome])
      (hfault : w'.fault = (w.fault || !(w.heap p).isSome))
  | misread (hfind : w.tracker.find p = none) (hq : ¬ w.tracker.Quarantined p)
      (hheader : getHeaderFromUserPtr w.mem p ≠ 0)
      (hlog : ∃ accesses, w'.log = w.log ++ [.inspect accesses,
        .systemFree (getHeaderFromUserPtr w.mem p)
          (w.heap (getHeaderFromUserPtr w.mem p)).isSome])

theorem deallocate_of_find (hguard : w.guardActive tid = false)
    (hfind : w.tracker.find ptr = some r) :
    w.deallocate tid ptr = (w.trackerErase ptr).releaseTracked ptr r := by
  unfold deallocate
  rw [if_neg (ShardedTracker.ne_zero_of_find hfind), hguard, if_neg Bool.false_ne_true,
    ShardedTracker.erase_of_find hfind]
  rfl

theorem deallocate_of_quarantined (hguard : w.guardActive tid = false) (hp : ptr ≠ 0)
    (hfind : w.tracker.find ptr = none) (hq : w.tracker.Quarantined ptr) :
    w.deallocate tid ptr = (w.trackerErase ptr).alert ptr .doubleFree := by
  unfold deallocate
  rw [if_neg hp, hguard, if_neg Bool.false_ne_true,
    ShardedTracker.erase_of_quarantined hp hfind hq]

theorem deallocate_of_not_found (hguard : w.guardActive tid = false) (hp : ptr ≠ 0)
    (hfind : w.tracker.find ptr = none) (hq : ¬ w.tracker.Quarantined ptr) :
    w.deallocate tid ptr = (w.trackerErase ptr).releaseUntracked ptr := by
  unfold deallocate
  rw [if_neg hp, hguard, if_neg Bool.false_ne_true,
    ShardedTracker.erase_of_not_quarantined hfind (Or.inr hq)]

/-- A null header is reported as an untracked pointer. -/
theorem ne_zero_of_verdict {m : Memory} {raw : Ptr} {footerSize : Word}
    (h : (verifyCanary m raw footerSize).1 = .none) : raw ≠ 0 := by
  intro h0
  unfold verifyCanary at h
  rw [if_pos h0] at h
  cases h

theorem deallocate_effect (w : World) (tid : ThreadId) (p : Ptr)
    (hguard : w.guardActive tid = false) (hp : p ≠ 0) :
    SameControl w (w.deallocate tid p) ∧
      ((w.deallocate tid p).calls = .erase p :: w.calls ∧
        (w.deallocate tid p).tracker = w.tracker.afterErase p) ∧
      w.DeallocateEffect p (w.deallocate tid p) := by
  rcases hfind : w.tracker.find p with _ | r
  · have htracker : (w.trackerErase p).tracker = w.tracker :=
      ShardedTracker.afterErase_of_find_none hfind
    by_cases hq : w.tracker.Quarantined p
    · rw [deallocate_of_quarantined hguard hp hfind hq]
      exact ⟨⟨rfl, rfl, rfl, fun _ => rfl⟩, ⟨rfl, rfl⟩, .alarm hfind hq rfl htracker rfl rfl rfl⟩
    rw [deallocate_of_not_found hguard hp hfind hq]
    by_cases hheader : getHeaderFromUserPtr w.mem p = 0
    · rw [@releaseUntracked_of_null (w.trackerErase p) p hheader, rawSystemFree_of_ne hp]
      exact ⟨⟨rfl, rfl, rfl, fun _ => rfl⟩, ⟨rfl, rfl⟩,
        .untracked hfind hq hheader rfl htracker rfl rfl rfl⟩
    · rw [@releaseUntracked_of_ne (w.trackerErase p) p hheader]
      exact ⟨⟨rfl, rfl, rfl, fun _ => rfl⟩, ⟨rfl, rfl⟩, .misread hfind hq hheader ⟨_, rfl⟩⟩
  · rw [deallocate_of_find hguard hfind]
    by_cases hverdict : (verifyCanary w.mem r.rawPtr w.config.footerSize).1 = .none
    · have hraw := ne_zero_of_verdict hverdict
      rw [@releaseTracked_clean (w.trackerErase p) p r hraw hverdict]
      exact ⟨⟨rfl, rfl, rfl, fun _ => rfl⟩, ⟨rfl, rfl⟩,
        .released r hfind hraw hverdict rfl rfl rfl rfl rfl⟩
    · rw [@releaseTracked_corrupted (w.trackerErase p) p r hverdict]
      exact ⟨⟨rfl, rfl, rfl, fun _ => rfl⟩, ⟨rfl, rfl⟩,
        .leaked r hfind hverdict rfl rfl rfl rfl rfl⟩

/-! ## Entry points -/

theorem trackFree_null : w.trackFree tid 0 = w := if_pos rfl

theorem trackFree_of_guard (hp : ptr ≠ 0) (hguard : w.guardActive tid = true) :
    w.trackFree tid ptr = w.rawSystemFree ptr := by
  unfold trackFree
  rw [if_neg hp, if_pos hguard]

theorem trackFree_of_no_guard (hp : ptr ≠ 0) (hguard : w.guardActive tid = false) :
    w.trackFree tid ptr = w.deallocate tid ptr := by
  unfold trackFree
  rw [if_neg hp, hguard, if_neg Bool.false_ne_true]

theorem trackRealloc_of_bypass {newSize : Word}
    (h : w.guardActive tid = true ∨ w.initialized = false) :
    w.trackRealloc o tid ptr newSize = w.rawSystemRealloc o ptr newSize := by
  unfold trackRealloc
  rw [if_pos]
  rcases h with hguard | hinit
  · exact Or.inl hguard
  · exact Or.inr (by rw [hinit]; exact Bool.false_ne_true)

theorem trackRealloc_of_open {newSize : Word} (hguard : w.guardActive tid = false)
    (hinit : w.initialized = true) :
    w.trackRealloc o tid ptr newSize = w.reallocate o tid ptr newSize := by
  unfold trackRealloc
  rw [if_neg]
  rw [hguard, hinit]
  decide

theorem reallocate_null {newSize : Word} :
    w.reallocate o tid 0 newSize = w.allocate o tid newSize w.config.alignment 0 := if_pos rfl

theorem reallocate_zero (hp : ptr ≠ 0) :
    w.reallocate o tid ptr 0 = (w.deallocate tid ptr, 0) := by
  unfold reallocate
  rw [if_neg hp, if_pos rfl]

theorem rawSystemRealloc_null {newSize : Word} :
    w.rawSystemRealloc o 0 newSize = w.rawSystemAlloc o newSize := if_pos rfl

theorem rawSystemRealloc_zero (hp : ptr ≠ 0) :
    w.rawSystemRealloc o ptr 0 = (w.rawSystemFree ptr, 0) := by
  unfold rawSystemRealloc
  rw [if_neg hp, if_pos rfl]

theorem rawSystemRealloc_failed {newSize : Word} (hp : ptr ≠ 0) (hn : newSize ≠ 0)
    (hraw : o.malloc = 0) :
    w.rawSystemRealloc o ptr newSize =
      ({ w.emit (.systemRealloc ptr newSize o.malloc (w.heap ptr).isSome) with
          fault := w.fault || !(w.heap ptr).isSome }, 0) := by
  unfold rawSystemRealloc
  rw [if_neg hp, if_neg hn]
  dsimp only
  rw [if_pos hraw]
  rfl

theorem rawSystemRealloc_moved {newSize : Word} (hp : ptr ≠ 0) (hn : newSize ≠ 0)
    (hraw : o.malloc ≠ 0) :
    w.rawSystemRealloc o ptr newSize =
      ({ w.emit (.systemRealloc ptr newSize o.malloc (w.heap ptr).isSome) with
          mem := writeBytes w.mem o.malloc
            (readBytes w.mem ptr (min ((w.heap ptr).getD 0) newSize.toNat))
          heap := update (update w.heap ptr none) o.malloc (some (extent newSize))
          fault := w.fault || !(w.heap ptr).isSome }, o.malloc) := by
  unfold rawSystemRealloc
  rw [if_neg hp, if_neg hn]
  dsimp only
  rw [if_neg hraw]
  rfl

theorem rawSystemRealloc_system {newSize : Word} :
    SystemOnly w (w.rawSystemRealloc o ptr newSize).1 := by
  by_cases hp : ptr = 0
  · rw [hp, rawSystemRealloc_null]
    exact rawSystemAlloc_system
  by_cases hn : newSize = 0
  · rw [hn, rawSystemRealloc_zero hp]
    exact rawSystemFree_system
  by_cases hraw : o.malloc = 0
  · rw [rawSystemRealloc_failed hp hn hraw]
    exact .of_fields w _ _ _ _
  · rw [rawSystemRealloc_moved hp hn hraw]
    exact .of_fields w _ _ _ _

/-! ## Checks -/

theorem checkLimit_system : SystemOnly w w.checkLimit := by
  rcases checkLimit_eq with h | ⟨m, n, h⟩
  · rw [h]
    exact .refl w
  · rw [h]
    exact .of_fields w _ _ _ _

theorem checkOldBlock_system {r : AllocationRecord} : SystemOnly w (w.checkOldBlock ptr r) := by
  unfold checkOldBlock
  split
  · dsimp only
    split
    · exact .of_fields w _ _ _ _
    · exact .of_fields w _ _ _ _
  · exact .refl w

theorem releaseUntracked_system : SystemOnly w (w.releaseUntracked ptr) := by
  by_cases h : getHeaderFromUserPtr w.mem ptr = 0
  · rw [releaseUntracked_of_null h]
    exact rawSystemFree_system
  · rw [releaseUntracked_of_ne h]
    exact .of_fields w _ _ _ _

/-! ## The free step -/

theorem step_trackFree_of_guard (hp : ptr ≠ 0) (hguard : w.guardActive tid = true) :
    w.step (.trackFree tid ptr) = (w.clearLog.unlease ptr).rawSystemFree ptr :=
  @trackFree_of_guard (w.clearLog.unlease ptr) tid ptr hp hguard

theorem step_trackFree (hp : ptr ≠ 0) (hguard : w.guardActive tid = false) :
    w.step (.trackFree tid ptr) = (w.clearLog.unlease ptr).deallocate tid ptr :=
  @trackFree_of_no_guard (w.clearLog.unlease ptr) tid ptr hp hguard

theorem step_trackFree_of_find (hguard : w.guardActive tid = false)
    (hfind : w.tracker.find ptr = some r) :
    w.step (.trackFree tid ptr) =
      ((w.clearLog.unlease ptr).trackerErase ptr).releaseTracked ptr r := by
  rw [step_trackFree (ShardedTracker.ne_zero_of_find hfind) hguard]
  exact @deallocate_of_find (w.clearLog.unlease ptr) tid ptr r hguard hfind

/-- A tracked block is looked at once, and then it is either released or reported. -/
theorem trackFree_log (hguard : w.guardActive tid = false) (hfind : w.tracker.find ptr = some r) :
    (w.step (.trackFree tid ptr)).log =
      .inspect (verifyCanary w.mem r.rawPtr w.config.footerSize).2 ::
        if (verifyCanary w.mem r.rawPtr w.config.footerSize).1 = .none then
          [.inspect (poisonBlock w.mem r.rawPtr w.config.footerSize).2,
            .systemFree r.rawPtr (w.heap r.rawPtr).isSome]
        else [.alert ptr (verifyCanary w.mem r.rawPtr w.config.footerSize).1] := by
  rw [step_trackFree_of_find hguard hfind]
  by_cases hverdict : (verifyCanary w.mem r.rawPtr w.config.footerSize).1 = .none
  · have hraw := ne_zero_of_verdict hverdict
    rw [@releaseTracked_clean ((w.clearLog.unlease ptr).trackerErase ptr) ptr r hraw hverdict,
      if_pos hverdict]
    rfl
  · rw [@releaseTracked_corrupted ((w.clearLog.unlease ptr).trackerErase ptr) ptr r hverdict,
      if_neg hverdict]
    rfl

end World

end MemSentry
