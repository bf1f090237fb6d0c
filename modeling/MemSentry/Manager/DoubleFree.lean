import MemSentry.Manager.TrackerCalls

/-!
# Double frees

`deallocate` has two ways to recognise a pointer that was freed before: the quarantine of
the pointer's shard, and the freed magic number in the header. The second never answers:
`poison_block` clears the back offset and overwrites the magic number, and
`get_header_from_user_ptr` returns only headers with the live magic number. So a double
free is reported exactly as long as the quarantine remembers the pointer, which is for
the next 255 releases in its shard (`second_free_reported_iff`).
-/

namespace MemSentry

open MemSentry.Core Function World Transition

/-- The answer of the system allocator, if it gave one, lies outside these bytes. -/
def Action.Avoids (base : Ptr) (n : Nat) : Action → Prop
  | .systemAlloc size answer => answer ≠ 0 →
    answer.toNat + extent size ≤ base.toNat ∨ base.toNat + n ≤ answer.toNat
  | .systemRealloc _ size answer _ => answer ≠ 0 →
    answer.toNat + extent size ≤ base.toNat ∨ base.toNat + n ≤ answer.toNat
  | _ => True

/-- The memory of the block is not handed out again by the call. -/
def KeepsUnused (r : AllocationRecord) (w : World) (c : Call) : Prop :=
  ∀ a ∈ (w.step c).log, a.Avoids r.rawPtr r.totalSize.toNat

/-- The call reported a double free of the pointer and gave nothing to the system. -/
def ReportsDoubleFree (w' : World) (p : Ptr) : Prop :=
  .alert p .doubleFree ∈ w'.log ∧ ∀ q live, .systemFree q live ∉ w'.log

/-! ## Where the records come from -/

/-- Every record ever inserted has the user pointer at its place in its block. -/
def InsertedPlaced (w : World) : Prop :=
  ∀ q r, TrackerCall.insert q r ∈ w.calls →
    Placed r.rawPtr q r.requestedSize.toNat r.footerSize.toNat r.totalSize.toNat

theorem insert_mem_of_stored {h : List TrackerCall} {p : Ptr} {r : AllocationRecord}
    (hs : stored h p = some r) : TrackerCall.insert p r ∈ h := by
  induction h with
  | nil => cases hs
  | cons c h ih =>
    cases c with
    | insert q r' =>
      simp only [stored] at hs
      split at hs
      · rename_i hq
        cases hs
        rw [hq.2]
        exact List.mem_cons_self
      · exact List.mem_cons_of_mem _ (ih hs)
    | erase q =>
      simp only [stored] at hs
      split at hs
      · cases hs
      · exact List.mem_cons_of_mem _ (ih hs)
    | find q => exact List.mem_cons_of_mem _ (ih hs)
    | size => exact List.mem_cons_of_mem _ (ih hs)
    | clear => cases hs

theorem run_insertedPlaced {mayWrite : World → Memory → Prop} {cond : World → Call → Prop}
    {w w' : World} {cs : List Call} (hrun : Run (managerSystem mayWrite cond) w cs w')
    (h : InsertedPlaced w) : InsertedPlaced w' := by
  refine hrun.invariant (I := InsertedPlaced) (fun w c hw hguard => ?_) h
  obtain ⟨new, hnew, hproper⟩ := step_calls hguard.1.fresh
  intro q r hmem
  rw [show (managerSystem mayWrite cond).step w c = w.step c from rfl, hnew.calls] at hmem
  rcases List.mem_append.mp hmem with hadd | hold
  · exact (hproper _ hadd).1
  · exact hw q r hold

/-! ## Between the two releases -/

section Between

variable {mayWrite : World → Memory → Prop} {w₁ w : World} {p : Ptr} {r : AllocationRecord}
  {cs : List Call}

/-- As long as the memory of its block is not handed out again, the pointer is not
inserted again. -/
theorem leaves_of_keepsUnused {c : Call} (hfresh : ∀ a ∈ (w.step c).log, a.Fresh w.heap)
    (hunused : KeepsUnused r w c)
    (hplaced : Placed r.rawPtr p r.requestedSize.toNat r.footerSize.toNat r.totalSize.toNat) :
    ∃ new, CallsAdded w (w.step c) new ∧ ∀ d ∈ new, d.Leaves p := by
  obtain ⟨new, hnew, hproper⟩ := step_calls hfresh
  refine ⟨new, hnew, fun d hd => ?_⟩
  have hd' := hproper d hd
  cases d with
  | insert q r' =>
    obtain ⟨hplaced', hanswer⟩ := hd'
    have havoid := hunused _ hanswer hplaced'.raw_ne_zero
    rw [hplaced'.extent_eq] at havoid
    have hbelow := hplaced.below
    have habove := hplaced.above
    have hbelow' := hplaced'.below
    have habove' := hplaced'.above
    intro heq
    rw [heq] at hbelow' habove'
    omega
  | erase q => trivial
  | find q => trivial
  | size => trivial
  | clear => exact hd'

theorem run_leaves (hrun : Run (managerSystem mayWrite (KeepsUnused r)) w₁ cs w)
    (hplaced : Placed r.rawPtr p r.requestedSize.toNat r.footerSize.toNat r.totalSize.toNat) :
    ∃ new, CallsAdded w₁ w new ∧ ∀ d ∈ new, d.Leaves p := by
  refine hrun.invariant (I := fun w => ∃ new, CallsAdded w₁ w new ∧ ∀ d ∈ new, d.Leaves p) ?_
    ⟨[], .refl rfl rfl, fun d hd => absurd hd List.not_mem_nil⟩
  intro w c hw hguard
  obtain ⟨new, hnew, hleaves⟩ := hw
  obtain ⟨new', hnew', hleaves'⟩ := leaves_of_keepsUnused hguard.1.fresh hguard.2 hplaced
  exact ⟨new' ++ new, hnew.trans hnew', fun d hd =>
    (List.mem_append.mp hd).elim (hleaves' d) (hleaves d)⟩

end Between

/-! ## The second release -/

section Second

variable {w : World} {tid : ThreadId} {p : Ptr}

/-- For a pointer without a record the quarantine alone decides. -/
theorem reportsDoubleFree_iff_quarantined (hp : p ≠ 0) (hfind : w.tracker.find p = none)
    (hguard : w.guardActive tid = false) :
    ReportsDoubleFree (w.step (.trackFree tid p)) p ↔ w.tracker.Quarantined p := by
  rw [step_trackFree hp hguard]
  by_cases hq : w.tracker.Quarantined p
  · rw [@deallocate_of_quarantined (w.clearLog.unlease p) tid p hguard hp hfind hq]
    refine iff_of_true ⟨List.mem_cons_self, fun q live hmem => ?_⟩ hq
    cases List.mem_singleton.mp hmem
  · refine iff_of_false (fun hreport => ?_) hq
    obtain ⟨_, hnot⟩ := hreport
    rw [@deallocate_of_not_found (w.clearLog.unlease p) tid p hguard hp hfind hq] at hnot
    by_cases hheader : getHeaderFromUserPtr w.mem p = 0
    · rw [@releaseUntracked_of_null ((w.clearLog.unlease p).trackerErase p) p hheader,
        rawSystemFree_of_ne hp] at hnot
      exact hnot _ _ (List.mem_append_right _ List.mem_cons_self)
    · rw [@releaseUntracked_of_ne ((w.clearLog.unlease p).trackerErase p) p hheader] at hnot
      exact hnot _ _ (List.mem_append_right _ (List.mem_cons_of_mem _ List.mem_cons_self))

variable {w₀ : World} {r : AllocationRecord} {tid₀ : ThreadId}

theorem calls_of_first_free (hfind : w₀.tracker.find p = some r)
    (hguard : w₀.guardActive tid₀ = false) :
    CallsAdded w₀ (w₀.step (.trackFree tid₀ p)) [.erase p] := by
  have hp := ShardedTracker.ne_zero_of_find hfind
  obtain ⟨_, ⟨hcalls, htracker⟩, _⟩ :=
    deallocate_effect (w₀.clearLog.unlease p) tid₀ p hguard hp
  rw [step_trackFree hp hguard]
  exact ⟨hcalls, htracker⟩

theorem second_free_of_recorded {mayWrite : World → Memory → Prop} {cs : List Call}
    (hrecorded : Recorded w₀) (hplaced : InsertedPlaced w₀)
    (hfind : w₀.tracker.find p = some r) (hguard₀ : w₀.guardActive tid₀ = false)
    (hrest : Run (managerSystem mayWrite (KeepsUnused r)) (w₀.step (.trackFree tid₀ p)) cs w)
    (hguard : w.guardActive tid = false) :
    ReportsDoubleFree (w.step (.trackFree tid p)) p ↔
      shardReleases w.calls (getShardIndex p) <
        shardReleases (w₀.step (.trackFree tid₀ p)).calls (getShardIndex p) + 256 := by
  have hp := ShardedTracker.ne_zero_of_find hfind
  have hfirst := calls_of_first_free hfind hguard₀
  have hstored : stored w₀.calls p = some r := by
    rw [← find_replay, ← hrecorded, hfind]
  obtain ⟨new, hnew, hleaves⟩ := run_leaves hrest (hplaced p r (insert_mem_of_stored hstored))
  have hcalls₁ : (w₀.step (.trackFree tid₀ p)).calls = .erase p :: w₀.calls := hfirst.calls
  have hcalls : w.calls = new ++ .erase p :: w₀.calls := by
    rw [hnew.calls, hcalls₁]
  have htracker : w.tracker = replay w.calls := (hrecorded.of_calls hfirst).of_calls hnew
  obtain ⟨k, hago, hnone, hcount⟩ := releasedAgo_append hstored hleaves
  rw [← hcalls] at hago hnone hcount
  have hgone : w.tracker.find p = none := by
    rw [htracker, find_replay, hnone]
  rw [reportsDoubleFree_iff_quarantined hp hgone hguard, htracker, quarantined_replay_iff hp,
    hcalls₁, hcount]
  constructor
  · rintro ⟨n, hn, hk⟩
    rw [hago] at hk
    cases hk
    exact Nat.add_lt_add_left hn _
  · intro hlt
    exact ⟨k, by rw [quarantineSize]; omega, hago⟩

/-- **A double free is caught as long as the quarantine remembers the pointer**: after a
tracked pointer has been freed, and while its memory is not handed out again, a second
free is reported, with nothing given to the system, exactly when fewer than 256
releases have fallen in its shard since. -/
theorem second_free_reported_iff {mayWrite : World → Memory → Prop} {cond : World → Call → Prop}
    {mem : Memory} {cs cs' : List Call}
    (hrun : Run (managerSystem mayWrite cond) (World.start mem) cs w₀)
    (hfind : w₀.tracker.find p = some r) (hguard₀ : w₀.guardActive tid₀ = false)
    (hrest : Run (managerSystem mayWrite (KeepsUnused r)) (w₀.step (.trackFree tid₀ p)) cs' w)
    (hguard : w.guardActive tid = false) :
    ReportsDoubleFree (w.step (.trackFree tid p)) p ↔
      shardReleases w.calls (getShardIndex p) <
        shardReleases (w₀.step (.trackFree tid₀ p)).calls (getShardIndex p) + 256 :=
  second_free_of_recorded (run_recorded hrun rfl)
    (run_insertedPlaced hrun fun _ _ hmem => absurd hmem List.not_mem_nil) hfind hguard₀ hrest hguard

end Second

/-! ## Allocating and freeing over and over

A block of 16 bytes is allocated at `b` and freed, with nothing else allocated. Such
cycles at one address push a pointer that was freed before out of the quarantine. -/

section Cycles

/-- The next allocation of the first thread is tracked, with the default footer. -/
structure Ready (w : World) : Prop where
  config : w.config = {}
  initialized : w.initialized = true
  guard : w.guardActive 1 = false
  defined : w.fault = false

theorem Ready.of_control {w w' : World} (h : Ready w) (hcontrol : SameControl w w')
    (hfault : w'.fault = false) : Ready w' :=
  ⟨hcontrol.config.trans h.config, hcontrol.initialized.trans h.initialized,
    (hcontrol.guardActive 1).trans h.guard, hfault⟩

/-- Ready, and nothing is allocated. -/
structure Idle (w : World) : Prop where
  ready : Ready w
  heap : w.heap = fun _ => none

/-- In the middle of a cycle. -/
structure Halfway (b : Ptr) (w : World) (r : AllocationRecord) : Prop where
  ready : Ready w
  rawPtr : r.rawPtr = b
  totalSize : r.totalSize = 116
  footerSize : r.footerSize = 16
  find : w.tracker.find (userAddress b 16) = some r
  heap : w.heap = update (fun _ => none) b (some 116)
  held : Held w (userAddress b 16)
  clean : (verifyCanary w.mem b 16).1 = .none

variable {w : World} {b : Ptr} {r : AllocationRecord}

def allocSmall (b : Ptr) : Call := .trackAlloc 1 { malloc := b } 16 16 0

def freeSmall (b : Ptr) : Call := .trackFree 1 (userAddress b 16)

theorem Ready.tracks (h : Ready w) (o : Oracle) (size : Word) : w.clearLog.Tracks o 1 size := by
  refine ⟨h.guard, h.initialized, ?_⟩
  unfold gate clearLog
  rw [h.config]
  rfl

theorem allocSmall_halfway (h : Idle w) (hb : b ≠ 0) (hspace : b.toNat + 116 ≤ 2 ^ 64) :
    ∃ r, Halfway b (w.step (allocSmall b)) r ∧
      (w.step (allocSmall b)).calls = .insert (userAddress b 16) r :: w.calls ∧
      ∀ a ∈ (w.step (allocSmall b)).log, a = .systemAlloc 116 b ∨ ∃ m n, a = .limitExceeded m n := by
  have htracks := h.ready.tracks { malloc := b } 16
  have hfooter : w.clearLog.config.footerSize = 16 := by
    rw [show w.clearLog.config = w.config from rfl, h.ready.config]
    rfl
  have hcanary : w.clearLog.config.enableCanary = true := by
    rw [show w.clearLog.config = w.config from rfl, h.ready.config]
  have heff : effectiveAlignment 16 = 16 := by decide
  have htotal : calculateTotalSize 16 16 16 = 116 := by decide
  have hfit : SizesFit 16 16 16 := by decide
  have hplaced : Placed b (userAddress b 16) (16 : Word).toNat (16 : Word).toNat
      (calculateTotalSize 16 16 16).toNat :=
    placed_userAddress hb hfit (by rw [htotal]; exact hspace)
  obtain ⟨hcontrol, _, hfit', hp, hheap, htracker, hcalls, hmem, hlog, hfault⟩ :=
    @allocate_installed w.clearLog { malloc := b } 1 16 16 0 htracks hb (by rwa [hfooter, heff])
  have hstep : w.step (allocSmall b) =
      (w.clearLog.allocate { malloc := b } 1 16 16 0).1.lease
        (w.clearLog.allocate { malloc := b } 1 16 16 0).2 ⟨b, 16⟩ := by
    rw [← trackAlloc_eq]
    rfl
  rw [hfooter, heff, htotal] at hheap hlog
  rw [hfooter, heff, hcanary] at hmem
  rw [heff] at hp
  rw [hp] at htracker hcalls
  obtain ⟨rest, hlog, hrest⟩ := hlog
  have huser := hplaced.user_ne_zero
  rw [hstep, hp, lease_of_ne huser]
  refine ⟨_, ⟨?_, rfl, ?_, (recordOf_footerSize hfit').trans hfooter, ?_, ?_, ?_, ?_⟩, hcalls, ?_⟩
  · have hclear : Ready w.clearLog :=
      ⟨h.ready.config, h.ready.initialized, h.ready.guard, h.ready.defined⟩
    obtain ⟨hconfig, hinit, hguard, hdefined⟩ :=
      hclear.of_control hcontrol (hfault.trans h.ready.defined)
    exact ⟨hconfig, hinit, hguard, hdefined⟩
  · unfold recordOf
    dsimp only
    rw [hfooter, heff, htotal]
  · dsimp only
    rw [htracker]
    exact ShardedTracker.find_insert_self huser
  · dsimp only
    rw [hheap, show w.clearLog.heap = w.heap from rfl, h.heap]
    rfl
  · exact Or.inr ⟨_, update_self _ _ _⟩
  · dsimp only
    rw [hmem, verifyCanary_verdict (initBlock_header hplaced) hb]
    exact if_pos (initBlock_footer hplaced)
  · intro a ha
    dsimp only at ha
    rw [hlog] at ha
    rcases List.mem_cons.mp ha with hsystem | hlimit
    · exact Or.inl hsystem
    · exact Or.inr (hrest a hlimit)

theorem freeSmall_idle (h : Halfway b w r) :
    Idle (w.step (freeSmall b)) ∧
      (w.step (freeSmall b)).calls = .erase (userAddress b 16) :: w.calls ∧
      ∀ a ∈ (w.step (freeSmall b)).log, ∀ base n, a.Avoids base n := by
  have hp := ShardedTracker.ne_zero_of_find h.find
  have hstep : w.step (freeSmall b) =
      (w.clearLog.unlease (userAddress b 16)).deallocate 1 (userAddress b 16) :=
    step_trackFree hp h.ready.guard
  have hfooter : (w.clearLog.unlease (userAddress b 16)).config.footerSize = 16 := by
    rw [show (w.clearLog.unlease (userAddress b 16)).config = w.config from rfl, h.ready.config]
    rfl
  obtain ⟨hcontrol, ⟨hcalls, _⟩, heffect⟩ := deallocate_effect
    (w.clearLog.unlease (userAddress b 16)) 1 (userAddress b 16) h.ready.guard hp
  have hfind : (w.clearLog.unlease (userAddress b 16)).tracker.find (userAddress b 16) = some r :=
    h.find
  have hlive : w.heap b = some 116 := by
    rw [h.heap]
    exact update_self _ _ _
  rw [hstep]
  cases heffect with
  | released r' hfind' hraw hverdict hheap htracker hmem hlog hfault =>
    rw [hfind] at hfind'
    cases hfind'
    rw [h.rawPtr, show (w.clearLog.unlease (userAddress b 16)).heap = w.heap from rfl] at hheap
    rw [h.rawPtr, show (w.clearLog.unlease (userAddress b 16)).heap = w.heap from rfl, hlive]
      at hfault
    have hready : Ready (w.clearLog.unlease (userAddress b 16)) :=
      ⟨h.ready.config, h.ready.initialized, h.ready.guard, h.ready.defined⟩
    refine ⟨⟨hready.of_control hcontrol ?_, ?_⟩, hcalls, ?_⟩
    · rw [hfault]
      exact (Bool.or_false _).trans h.ready.defined
    · rw [hheap, h.heap, update_idem]
      exact update_eq_self_iff.mpr rfl
    · rw [hlog]
      simp [World.unlease, World.clearLog, Action.Avoids]
  | leaked r' hfind' hverdict hheap htracker hmem hlog hfault =>
    rw [hfind] at hfind'
    cases hfind'
    rw [h.rawPtr, hfooter] at hverdict
    exact absurd h.clean hverdict
  | alarm hnone hq hheap htracker hmem hlog hfault =>
    rw [hfind] at hnone
    cases hnone
  | untracked hnone hq hheader hheap htracker hmem hlog hfault =>
    rw [hfind] at hnone
    cases hnone
  | misread hnone hq hheader hlog =>
    rw [hfind] at hnone
    cases hnone

theorem allocSmall_permitted {mayWrite : World → Memory → Prop} (h : Idle w)
    (hb : b ≠ 0) (hspace : b.toNat + 116 ≤ 2 ^ 64) : Permitted mayWrite w (allocSmall b) := by
  obtain ⟨r, _, _, hlog⟩ := allocSmall_halfway h hb hspace
  refine ⟨h.ready.defined, trivial, fun a ha => ?_⟩
  rcases hlog a ha with rfl | ⟨m, n, rfl⟩
  · intro _
    rw [h.heap]
    exact fresh_empty hspace
  · trivial

/-- One cycle is one release in the shard of its pointer. -/
theorem cycle_run {r₀ : AllocationRecord} (h : Idle w) (hb : b ≠ 0)
    (hspace : b.toNat + 116 ≤ 2 ^ 64) (havoid : b.toNat + 116 ≤ r₀.rawPtr.toNat ∨
      r₀.rawPtr.toNat + r₀.totalSize.toNat ≤ b.toNat) :
    ∃ w', Run (managerSystem PayloadWrites (KeepsUnused r₀)) w [allocSmall b, freeSmall b] w' ∧
      Idle w' ∧ shardReleases w'.calls (getShardIndex (userAddress b 16)) =
        shardReleases w.calls (getShardIndex (userAddress b 16)) + 1 := by
  obtain ⟨r, hhalf, hcalls, hlog⟩ := allocSmall_halfway h hb hspace
  obtain ⟨hidle, hcalls', hlog'⟩ := freeSmall_idle hhalf
  have hp := ShardedTracker.ne_zero_of_find hhalf.find
  refine ⟨_, .cons ⟨allocSmall_permitted h hb hspace, ?_⟩
    (.cons ⟨permitted_trackFree hhalf.ready.defined hhalf.held, ?_⟩ (.nil _)), hidle, ?_⟩
  · intro a ha
    rcases hlog a ha with rfl | ⟨m, n, rfl⟩
    · exact fun _ => havoid
    · trivial
  · exact fun a ha => hlog' a ha _ _
  · have hstored : stored (w.step (allocSmall b)).calls (userAddress b 16) = some r := by
      rw [hcalls]
      exact if_pos ⟨hp, rfl⟩
    change shardReleases ((w.step (allocSmall b)).step (freeSmall b)).calls _ = _
    rw [hcalls', shardReleases, hstored, if_pos ⟨rfl, rfl⟩, hcalls]
    rfl

def cycles (b : Ptr) : Nat → List Call
  | 0 => []
  | n + 1 => [allocSmall b, freeSmall b] ++ cycles b n

theorem cycles_run {r₀ : AllocationRecord} (hb : b ≠ 0) (hspace : b.toNat + 116 ≤ 2 ^ 64)
    (havoid : b.toNat + 116 ≤ r₀.rawPtr.toNat ∨
      r₀.rawPtr.toNat + r₀.totalSize.toNat ≤ b.toNat) (n : Nat) (h : Idle w) :
    ∃ w', Run (managerSystem PayloadWrites (KeepsUnused r₀)) w (cycles b n) w' ∧ Idle w' ∧
      shardReleases w'.calls (getShardIndex (userAddress b 16)) =
        shardReleases w.calls (getShardIndex (userAddress b 16)) + n := by
  induction n generalizing w with
  | zero => exact ⟨w, .nil w, h, rfl⟩
  | succ n ih =>
    obtain ⟨w₁, hrun, hidle, hcount⟩ := cycle_run h hb hspace havoid
    obtain ⟨w₂, hrest, hidle', hcount'⟩ := ih hidle
    exact ⟨w₂, hrun.append hrest, hidle', by omega⟩

end Cycles

/-! ## One pointer freed twice -/

/-- The state after `init`. -/
def initialized : World := (World.start fun _ => 0).step (.init {})

theorem initialized_idle : Idle initialized := ⟨⟨rfl, rfl, rfl, rfl⟩, rfl⟩

/-- The block at `0x10000` is handed out. -/
theorem first_block : ∃ r, Halfway 0x10000 (initialized.step (allocSmall 0x10000)) r := by
  obtain ⟨r, hhalf, _⟩ := allocSmall_halfway (b := 0x10000) initialized_idle (by decide) (by decide)
  exact ⟨r, hhalf⟩

theorem first_block_run {mayWrite : World → Memory → Prop} {cond : World → Call → Prop}
    (hinit : cond (World.start fun _ => 0) (.init {}))
    (halloc : cond initialized (allocSmall 0x10000)) :
    Run (managerSystem mayWrite cond) (World.start fun _ => 0)
      ([.init {}] ++ [allocSmall 0x10000]) (initialized.step (allocSmall 0x10000)) := by
  have hb : (0x10000 : Ptr) ≠ 0 := by decide
  have hspace : (0x10000 : Ptr).toNat + 116 ≤ 2 ^ 64 := by decide
  have hsecond : Permitted mayWrite initialized (allocSmall 0x10000) :=
    allocSmall_permitted initialized_idle hb hspace
  have hfirst : Run (managerSystem mayWrite cond) (World.start fun _ => 0) [.init {}] initialized :=
    .cons ⟨permitted_of_log rfl trivial rfl fun _ ha => absurd ha List.not_mem_nil, hinit⟩ (.nil _)
  exact hfirst.append (.cons ⟨hsecond, halloc⟩ (.nil _))

/-- The pointer freed twice in a row. -/
theorem second_free_reported_at_once :
    ReportsDoubleFree
      (((initialized.step (allocSmall 0x10000)).step (freeSmall 0x10000)).step
        (freeSmall 0x10000)) (userAddress 0x10000 16) := by
  obtain ⟨r, hhalf⟩ := first_block
  have hrun := @first_block_run PayloadWrites (fun _ _ => True) trivial trivial
  have hguard := (freeSmall_idle hhalf).1.ready.guard
  exact (second_free_reported_iff hrun hhalf.find hhalf.ready.guard (.nil _) hguard).mpr
    (Nat.lt_add_of_pos_right (by decide))

/-- A pointer freed, another pointer of its shard allocated and freed 256 times, and the
first pointer freed again: no report. -/
theorem second_free_after_256_releases :
    ∃ (cs cs' : List Call) (w₀ w : World) (p : Ptr) (r : AllocationRecord),
      Run (managerSystem PayloadWrites fun _ _ => True) (World.start fun _ => 0) cs w₀ ∧
        w₀.tracker.find p = some r ∧ w₀.guardActive 1 = false ∧
        (verifyCanary w₀.mem r.rawPtr w₀.config.footerSize).1 = .none ∧
        Run (managerSystem PayloadWrites (KeepsUnused r)) (w₀.step (.trackFree 1 p)) cs' w ∧
        w.guardActive 1 = false ∧ w.initialized = true ∧
        ¬ ReportsDoubleFree (w.step (.trackFree 1 p)) p := by
  obtain ⟨r, hhalf⟩ := first_block
  have hrun := @first_block_run PayloadWrites (fun _ _ => True) trivial trivial
  obtain ⟨hidle, _⟩ := freeSmall_idle hhalf
  have havoid : (0x10400 : Ptr).toNat + 116 ≤ r.rawPtr.toNat ∨
      r.rawPtr.toNat + r.totalSize.toNat ≤ (0x10400 : Ptr).toNat := by
    rw [hhalf.rawPtr, hhalf.totalSize]
    decide
  obtain ⟨w, hrest, hidle', hcount⟩ :=
    @cycles_run _ 0x10400 r (by decide) (by decide) havoid 256 hidle
  have hshard : getShardIndex (userAddress 0x10400 16) = getShardIndex (userAddress 0x10000 16) := by
    decide
  rw [hshard] at hcount
  refine ⟨_, _, _, w, _, r, hrun, hhalf.find, hhalf.ready.guard, ?_, hrest, hidle'.ready.guard,
    hidle'.ready.initialized, fun hreport => ?_⟩
  · rw [hhalf.rawPtr, hhalf.ready.config]
    exact hhalf.clean
  · have hlt := (second_free_of_recorded (run_recorded hrun rfl)
      (run_insertedPlaced hrun fun _ _ hmem => absurd hmem List.not_mem_nil) hhalf.find
      hhalf.ready.guard hrest hidle'.ready.guard).mp hreport
    rw [show Call.trackFree 1 (userAddress 0x10000 16) = freeSmall 0x10000 from rfl] at hlt
    omega

end MemSentry
