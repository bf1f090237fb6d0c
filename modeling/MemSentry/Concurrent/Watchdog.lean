import MemSentry.Concurrent.ComputedRuns
import MemSentry.Concurrent.Solo
import MemSentry.Library.ThreadPool

/-!
# The memory limit watchdog

An allocation adds its size to `current_allocated_bytes`, raises the peak to the sum it
got, stores its record and only then loads the counter again for the watchdog. What other
threads free in between is gone by then. `alarm_of_breach` says that this is the only way
to miss a breach: while the counter does not fall back to the limit behind the back of
such an allocation, a peak above the limit has called the callback.
-/

namespace MemSentry

open MemSentry.Core Function Transition World
open ThreadPool (Pair)

/-! ## Points -/

/-- The thread is between its `fetch_add` on the current bytes and its watchdog load. -/
def Point.Watching : Point → Prop
  | .loadPeak .. | .raisePeak .. | .insert .. | .checkLimit .. => True
  | _ => False

instance (p : Point) : Decidable p.Watching :=
  match p with
  | .loadPeak .. | .raisePeak .. | .insert .. | .checkLimit .. => isTrue trivial
  | .idle | .drawId .. | .systemAlloc .. | .layOut .. | .addTotalBytes .. | .addTotalCount ..
  | .addActive .. | .addCurrent .. | .erase .. | .verify .. | .addFreedBytes ..
  | .addFreeCount .. | .subActive .. | .subCurrent .. | .recordSize .. | .poison ..
  | .freeBlock .. | .systemFree .. | .find .. | .checkOld .. | .copy .. | .systemRealloc ..
  | .finish .. => isFalse id

/-- The thread has got a sum above the limit and has not compared it with the peak yet. -/
def Point.Above (limit : Word) : Point → Prop
  | .loadPeak _ current _ | .raisePeak _ current _ _ => current > limit
  | _ => False

theorem After.next_calm (k : After) (ptr : Ptr) (limit : Word) :
    ¬ (k.next ptr).Watching ∧ ¬ (k.next ptr).Above limit := by
  cases k with
  | done => exact ⟨id, id⟩
  | moveFrom old record newSize =>
    rcases eq_or_ne ptr 0 with rfl | hne
    · rw [After.next_failed]
      exact ⟨id, id⟩
    · rw [After.next_moved hne]
      exact ⟨id, id⟩

/-! ## Single steps -/

/-- What a step means for the watchdog. -/
inductive WatchStep (limit : Word) (w : World) (p : Point) (w' : World) (p' : Point) : Prop
  | quiet (hpeak : w'.stats.peakAllocatedBytes = w.stats.peakAllocatedBytes)
      (hwatching : p.Watching → p'.Watching) (habove : p'.Above limit → p.Above limit)
      (hlog : callbacks w'.log = [])
  | booked (r : AllocationRecord) (k : After)
      (hp' : p' = .loadPeak r w'.stats.currentAllocatedBytes k)
      (hpeak : w'.stats.peakAllocatedBytes = w.stats.peakAllocatedBytes)
      (hlog : callbacks w'.log = [])
  | raised (r : AllocationRecord) (current peak : Word) (k : After)
      (hp : p = .raisePeak r current peak k) (hp' : p' = .insert r k)
      (hpeak : w'.stats.peakAllocatedBytes = current) (hlog : callbacks w'.log = [])
  | checked (ptr : Ptr) (k : After) (hp : p = .checkLimit ptr k) (hp' : p' = k.next ptr)
      (hw : w' = w.clearLog.checkLimit)

section Steps

variable {limit : Word} {w : World} {tid : ThreadId} {o : Oracle}

/-- A step of a thread that does not watch, and does not start to. -/
theorem WatchStep.calm {p p' : Point} {w' : World}
    (hpeak : w'.stats.peakAllocatedBytes = w.stats.peakAllocatedBytes)
    (hlog : callbacks w'.log = []) (hp : ¬ p.Watching) (hp' : ¬ p'.Above limit) :
    WatchStep limit w p w' p' :=
  .quiet hpeak (fun h => absurd h hp) (fun h => absurd h hp') hlog

theorem layOut_calm (args : AllocArgs) (allocId : Word) (k : After) :
    (w.clearLog.layOut tid o args allocId k).1.stats = w.stats ∧
      callbacks (w.clearLog.layOut tid o args allocId k).1.log = [] ∧
      ¬ (w.clearLog.layOut tid o args allocId k).2.Above limit := by
  have hframe := @layOut_frame w.clearLog tid o args allocId k
  refine ⟨hframe.stats, ?_, ?_⟩
  · rcases hframe.log with hlog | ⟨n, p, hlog⟩
    · rw [hlog]
      rfl
    · rw [hlog]
      rfl
  · rcases @layOut_point w.clearLog tid o args allocId k with h | ⟨userPtr, h⟩
    · rw [h]
      exact (k.next_calm 0 limit).2
    · rw [h]
      exact id

theorem rawSystemFree_calm (ptr : Ptr) :
    (w.clearLog.rawSystemFree ptr).stats = w.stats ∧
      callbacks (w.clearLog.rawSystemFree ptr).log = [] := by
  by_cases h : ptr = 0
  · rw [h]
    exact ⟨rfl, rfl⟩
  · rw [rawSystemFree_of_ne h]
    exact ⟨rfl, rfl⟩

theorem releaseUntracked_calm (ptr : Ptr) :
    ((w.clearLog.trackerErase ptr).releaseUntracked ptr).stats = w.stats ∧
      callbacks ((w.clearLog.trackerErase ptr).releaseUntracked ptr).log = [] := by
  by_cases h : getHeaderFromUserPtr w.mem ptr = 0
  · rw [@releaseUntracked_of_null (w.clearLog.trackerErase ptr) ptr h]
    exact @rawSystemFree_calm (w.trackerErase ptr) ptr
  · rw [@releaseUntracked_of_ne (w.clearLog.trackerErase ptr) ptr h]
    exact ⟨rfl, rfl⟩

theorem advanceAllocate_watch (p : Point) :
    WatchStep limit w p (w.clearLog.advanceAllocate tid o p).1
      (w.clearLog.advanceAllocate tid o p).2 := by
  cases p with
  | drawId args k =>
    refine .calm rfl rfl id ?_
    unfold advanceAllocate
    dsimp only
    split
    · exact id
    · exact id
  | systemAlloc size k =>
    have hnext := (k.next_calm (w.clearLog.rawSystemAlloc o size).2 limit).2
    refine .calm ?_ ?_ id hnext
    · by_cases h : o.malloc = 0
      · simp only [advanceAllocate, rawSystemAlloc_of_null h]
        rfl
      · simp only [advanceAllocate, rawSystemAlloc_of_ne h]
        rfl
    · by_cases h : o.malloc = 0
      · simp only [advanceAllocate, rawSystemAlloc_of_null h]
        rfl
      · simp only [advanceAllocate, rawSystemAlloc_of_ne h]
        rfl
  | layOut args allocId k =>
    obtain ⟨hstats, hlog, habove⟩ := @layOut_calm limit w tid o args allocId k
    exact .calm (congrArg _ hstats) hlog id habove
  | addCurrent r k => exact .booked r k rfl rfl rfl
  | loadPeak r current k => exact .quiet rfl (fun _ => trivial) id rfl
  | raisePeak r current peak k =>
    unfold advanceAllocate
    dsimp only
    split
    · split
      · exact .raised r current peak k rfl rfl rfl rfl
      · exact .quiet rfl (fun _ => trivial) id rfl
    · exact .quiet rfl (fun _ => trivial) False.elim rfl
  | insert r k => exact .quiet rfl (fun _ => trivial) False.elim rfl
  | checkLimit ptr k => exact .checked ptr k rfl rfl rfl
  | addTotalBytes | addTotalCount | addActive => exact .calm rfl rfl id id
  | _ => exact .quiet rfl id id rfl

theorem advanceDeallocate_watch (p : Point) (hp : ¬ p.Watching) :
    WatchStep limit w p (w.clearLog.advanceDeallocate p).1 (w.clearLog.advanceDeallocate p).2 := by
  cases p with
  | erase ptr result =>
    unfold advanceDeallocate
    dsimp only
    split
    · exact .calm rfl rfl hp id
    · split
      · exact .calm rfl rfl hp id
      · exact .calm rfl rfl hp id
      · obtain ⟨hstats, hlog⟩ := @releaseUntracked_calm w ptr
        exact .calm (congrArg _ hstats) hlog hp id
  | verify r ptr result =>
    unfold advanceDeallocate
    dsimp only
    split
    · exact .calm rfl rfl hp id
    · exact .calm rfl rfl hp id
  | recordSize r verdict result =>
    unfold advanceDeallocate
    dsimp only
    split
    · exact .calm rfl rfl hp id
    · exact .calm rfl rfl hp id
  | freeBlock r result =>
    obtain ⟨hstats, hlog⟩ := @rawSystemFree_calm w r.rawPtr
    exact .calm (congrArg _ hstats) hlog hp id
  | systemFree ptr =>
    obtain ⟨hstats, hlog⟩ := @rawSystemFree_calm w ptr
    exact .calm (congrArg _ hstats) hlog hp id
  | addFreedBytes | addFreeCount | subActive | subCurrent | poison => exact .calm rfl rfl hp id
  | _ => exact .quiet rfl id id rfl

theorem rawSystemRealloc_calm (ptr : Ptr) (newSize : Word) :
    (w.clearLog.rawSystemRealloc o ptr newSize).1.stats = w.stats ∧
      callbacks (w.clearLog.rawSystemRealloc o ptr newSize).1.log = [] := by
  unfold rawSystemRealloc rawSystemAlloc
  dsimp only
  split
  · split
    · exact ⟨rfl, rfl⟩
    · exact ⟨rfl, rfl⟩
  · split
    · exact @rawSystemFree_calm w ptr
    · split
      · exact ⟨rfl, rfl⟩
      · exact ⟨rfl, rfl⟩

theorem advanceReallocate_watch (p : Point) (hp : ¬ p.Watching) :
    WatchStep limit w p (w.clearLog.advanceReallocate tid o p).1
      (w.clearLog.advanceReallocate tid o p).2 := by
  cases p with
  | find ptr newSize =>
    unfold advanceReallocate
    dsimp only
    split
    · exact .calm rfl rfl hp id
    · exact .calm rfl rfl hp id
  | checkOld ptr r newSize =>
    have hstart : ¬ (w.clearLog.enterAllocate tid ⟨newSize, r.alignment, r.tag⟩
        (.moveFrom ptr r newSize)).Above limit := by
      unfold enterAllocate
      split
      · exact id
      · exact id
    refine .calm ?_ ?_ hp hstart
    · unfold advanceReallocate checkOldBlock
      dsimp only
      split
      · split
        · rfl
        · rfl
      · rfl
    · unfold advanceReallocate checkOldBlock
      dsimp only
      split
      · split
        · rfl
        · rfl
      · rfl
  | copy newPtr ptr bytes => exact .calm rfl rfl hp id
  | systemRealloc ptr newSize =>
    obtain ⟨hstats, hlog⟩ := @rawSystemRealloc_calm w o ptr newSize
    exact .calm (congrArg _ hstats) hlog hp id
  | _ => exact .quiet rfl id id rfl

/-- Every step of a thread is one of the four. -/
theorem advance_watch (p : Point) :
    WatchStep limit w p (w.clearLog.advance tid o p).1 (w.clearLog.advance tid o p).2 := by
  cases p with
  | idle => exact .calm rfl rfl id id
  | finish ptr => exact .calm rfl rfl id id
  | drawId | systemAlloc | layOut | addTotalBytes | addTotalCount | addActive | addCurrent
  | loadPeak | raisePeak | insert | checkLimit => exact @advanceAllocate_watch limit w tid o _
  | erase | verify | addFreedBytes | addFreeCount | subActive | subCurrent | recordSize | poison
  | freeBlock | systemFree => exact advanceDeallocate_watch _ id
  | find | checkOld | copy | systemRealloc => exact @advanceReallocate_watch limit w tid o _ id

end Steps

/-! ## Runs -/

namespace Machine

variable {ι : Type} [DecidableEq ι]

/-- The calls of the callback in a run. -/
def alarms (tid : ι → ThreadId) (s : Machine ι) (es : List (Event ι)) : List (Word × Word) :=
  outputs (fun s e => s.step tid e) (fun s e => callbacks (s.step tid e).world.log) s es

/-- The event takes the current bytes from above the limit to the limit or below, while an
allocation is between its `fetch_add` and its watchdog load. -/
def Dips (tid : ι → ThreadId) (limit : Word) (s : Machine ι) (e : Event ι) : Prop :=
  s.world.stats.currentAllocatedBytes > limit ∧
    (s.step tid e).world.stats.currentAllocatedBytes ≤ limit ∧ ∃ i, (s.pool i).Watching

instance [Fintype ι] (tid : ι → ThreadId) (limit : Word) (s : Machine ι) (e : Event ι) :
    Decidable (s.Dips tid limit e) :=
  inferInstanceAs (Decidable (_ ∧ _))

/-- A sum above the limit has reached the peak, or is about to. -/
def Breached (limit : Word) (s : Machine ι) : Prop :=
  s.world.stats.peakAllocatedBytes > limit ∨ ∃ i, (s.pool i).Above limit

/-- After a breach the callback has been called, or a thread is on its way to call it. -/
structure Watched (c : Config) (alarms : List (Word × Word)) (s : Machine ι) : Prop where
  config : s.world.config = c
  watched : s.Breached c.maxHeapBytes → alarms ≠ [] ∨
    (∃ i, (s.pool i).Watching) ∧ s.world.stats.currentAllocatedBytes > c.maxHeapBytes

variable {tid : ι → ThreadId} {s : Machine ι} {c : Config} {as : List (Word × Word)}

theorem config_step (e : Event ι) : (s.step tid e).world.config = s.world.config := by
  cases e with
  | advance i o => exact (@advance_control s.world.clearLog (tid i) o (s.pool i)).config
  | _ => rfl

theorem callbacks_checkLimit (w : World) (hlimit : w.config.maxHeapBytes > 0)
    (hcallback : w.config.onLimitExceeded = true) :
    callbacks w.clearLog.checkLimit.log =
      if w.stats.currentAllocatedBytes > w.config.maxHeapBytes then
        [(w.stats.currentAllocatedBytes, w.config.maxHeapBytes)] else [] := by
  unfold checkLimit
  by_cases habove : w.stats.currentAllocatedBytes > w.config.maxHeapBytes
  · rw [if_pos habove, if_pos ⟨hlimit, hcallback, habove⟩]
    rfl
  · rw [if_neg habove, if_neg fun h => habove h.2.2]
    rfl

/-- One thread moves: a breach is either old, or the thread itself has just made it. -/
theorem Watched.move (h : Watched c as s) (hlimit : c.maxHeapBytes > 0)
    (hcallback : c.onLimitExceeded = true) {i : ι} {w' : World} {p' : Point} {held' : Multiset Ptr}
    (hstep : WatchStep c.maxHeapBytes s.world (s.pool i) w' p')
    (hdips : s.world.stats.currentAllocatedBytes > c.maxHeapBytes → (∃ j, (s.pool j).Watching) →
      w'.stats.currentAllocatedBytes > c.maxHeapBytes)
    (hbreached : Breached c.maxHeapBytes ⟨w', held', update s.pool i p'⟩) :
    as ++ callbacks w'.log ≠ [] ∨ (∃ j, (update s.pool i p' j).Watching) ∧
      w'.stats.currentAllocatedBytes > c.maxHeapBytes := by
  have hself : p'.Watching → ∃ j, (update s.pool i p' j).Watching := by
    intro hp'
    exact ⟨i, by rwa [update_self]⟩
  rcases eq_or_ne as [] with hnil | hne
  · have hold : s.Breached c.maxHeapBytes → (∃ j, (s.pool j).Watching) ∧
        s.world.stats.currentAllocatedBytes > c.maxHeapBytes :=
      fun hb => (h.watched hb).resolve_left (not_not_intro hnil)
    cases hstep with
    | quiet hpeak hwatching habove hlog =>
      have hb : s.Breached c.maxHeapBytes := by
        rcases hbreached with hhigh | hpoint
        · rw [hpeak] at hhigh
          exact Or.inl hhigh
        · rcases ThreadPool.of_exists_update hpoint with hp' | hother
          · exact Or.inr ⟨i, habove hp'⟩
          · exact Or.inr hother
      obtain ⟨hwatch, hcurrent⟩ := hold hb
      exact Or.inr ⟨ThreadPool.exists_update hwatching hwatch, hdips hcurrent hwatch⟩
    | booked r k hp' hpeak hlog =>
      subst hp'
      refine Or.inr ⟨hself trivial, ?_⟩
      rcases hbreached with hhigh | hpoint
      · rw [hpeak] at hhigh
        obtain ⟨hwatch, hcurrent⟩ := hold (Or.inl hhigh)
        exact hdips hcurrent hwatch
      · rcases ThreadPool.of_exists_update hpoint with hnew | hother
        · exact hnew
        · obtain ⟨hwatch, hcurrent⟩ := hold (Or.inr hother)
          exact hdips hcurrent hwatch
    | raised r current peak k hp hp' hpeak hlog =>
      subst hp'
      have hb : s.Breached c.maxHeapBytes := by
        rcases hbreached with hhigh | hpoint
        · rw [hpeak] at hhigh
          exact Or.inr ⟨i, by rw [hp]; exact hhigh⟩
        · rcases ThreadPool.of_exists_update hpoint with hnew | hother
          · exact absurd hnew id
          · exact Or.inr hother
      obtain ⟨hwatch, hcurrent⟩ := hold hb
      exact Or.inr ⟨hself trivial, hdips hcurrent hwatch⟩
    | checked ptr k hp hp' hw =>
      subst hp' hw
      have hstats : s.world.clearLog.checkLimit.stats = s.world.stats := by
        rcases checkLimit_eq (w := s.world.clearLog) with heq | ⟨m, n, heq⟩
        · rw [heq]
          rfl
        · rw [heq]
          rfl
      have hb : s.Breached c.maxHeapBytes := by
        rcases hbreached with hhigh | hpoint
        · rw [hstats] at hhigh
          exact Or.inl hhigh
        · rcases ThreadPool.of_exists_update hpoint with hnew | hother
          · exact absurd hnew (k.next_calm ptr _).2
          · exact Or.inr hother
      obtain ⟨_, hcurrent⟩ := hold hb
      left
      rw [callbacks_checkLimit s.world (h.config ▸ hlimit) (h.config ▸ hcallback),
        if_pos (h.config ▸ hcurrent)]
      simp
  · left
    intro happ
    exact hne (List.append_eq_nil_iff.mp happ).1

/-- A call starts far from the watchdog. -/
theorem enter_calm (w : World) (t : ThreadId) (q : Request) (limit : Word) :
    ¬ (w.enter t q).Above limit := by
  apply enter_induction (P := fun p => ¬ p.Above limit) q
  · exact id
  · intro p hp
    cases p with
    | systemAlloc | systemFree | systemRealloc => exact id
    | _ => exact absurd hp id
  · exact fun ptr => id
  · exact fun args => id
  · exact fun ptr newSize _ => id

theorem Watched.step (h : Watched c as s) (hlimit : c.maxHeapBytes > 0)
    (hcallback : c.onLimitExceeded = true) {e : Event ι} (hlegal : s.Legal tid e)
    (hdips : ¬ s.Dips tid c.maxHeapBytes e) :
    Watched c (as ++ callbacks (s.step tid e).world.log) (s.step tid e) := by
  have hkept : s.world.stats.currentAllocatedBytes > c.maxHeapBytes →
      (∃ j, (s.pool j).Watching) →
      (s.step tid e).world.stats.currentAllocatedBytes > c.maxHeapBytes := by
    intro hcurrent hwatch
    by_contra hlow
    exact hdips ⟨hcurrent, BitVec.not_lt.mp hlow, hwatch⟩
  refine ⟨(config_step e).trans h.config, ?_⟩
  cases e with
  | call i q =>
    have hidle := hlegal.idle i q rfl
    have hcalm : WatchStep c.maxHeapBytes s.world (s.pool i) s.world.clearLog
        (s.world.enter (tid i) q) :=
      .calm rfl rfl (by rw [hidle]; exact id) (enter_calm _ _ _ _)
    exact h.move hlimit hcallback hcalm hkept
  | advance i o =>
    exact h.move hlimit hcallback (@advance_watch c.maxHeapBytes s.world (tid i) o (s.pool i)) hkept
  | setCurrentTag i tag =>
    intro hbreached
    change as ++ [] ≠ [] ∨ _
    rw [List.append_nil]
    exact h.watched hbreached
  | store mem =>
    intro hbreached
    change as ++ [] ≠ [] ∨ _
    rw [List.append_nil]
    exact h.watched hbreached

omit [DecidableEq ι] in
theorem watched_start (mem : Memory) : Watched c [] (start c mem : Machine ι) := by
  refine ⟨rfl, ?_⟩
  rintro (hhigh | ⟨i, hi⟩)
  · exact absurd hhigh (by simp [start, World.init, World.start])
  · exact absurd hi id

/-- What the callback is called with. -/
theorem callbacks_step (hlimit : s.world.config.maxHeapBytes > 0)
    (hcallback : s.world.config.onLimitExceeded = true) {e : Event ι} {a : Word × Word}
    (ha : a ∈ callbacks (s.step tid e).world.log) :
    a = (s.world.stats.currentAllocatedBytes, s.world.config.maxHeapBytes) ∧ a.1 > a.2 := by
  cases e with
  | advance i o =>
    have hstep := @advance_watch 0 s.world (tid i) o (s.pool i)
    have hquiet : callbacks (s.world.clearLog.advance (tid i) o (s.pool i)).1.log = [] →
        a = (s.world.stats.currentAllocatedBytes, s.world.config.maxHeapBytes) ∧ a.1 > a.2 := by
      intro hlog
      have ha' : a ∈ callbacks (s.world.clearLog.advance (tid i) o (s.pool i)).1.log := ha
      rw [hlog] at ha'
      cases ha'
    cases hstep with
    | quiet hpeak hwatching habove hlog => exact hquiet hlog
    | booked r k hp' hpeak hlog => exact hquiet hlog
    | raised r current peak k hp hp' hpeak hlog => exact hquiet hlog
    | checked ptr k hp hp' hw =>
      have ha' : a ∈ callbacks (s.world.clearLog.advance (tid i) o (s.pool i)).1.log := ha
      rw [hw, callbacks_checkLimit s.world hlimit hcallback] at ha'
      split at ha'
      · rename_i habove
        rw [List.mem_singleton.mp ha']
        exact ⟨rfl, habove⟩
      · cases ha'
  | _ => cases ha

/-- **A peak above the limit has called the callback,** in every run in which the current
bytes do not fall back to the limit while an allocation is between its `fetch_add` and its
watchdog load. In every run at all, the callback gets the current bytes at its load, and
they are above the limit. -/
theorem alarm_of_breach {c : Config} (hlimit : c.maxHeapBytes > 0)
    (hcallback : c.onLimitExceeded = true) (mem : Memory) :
    (∀ (es : List (Event ι)) (s : Machine ι),
      Run (system tid fun s e => ¬ s.Dips tid c.maxHeapBytes e) (start c mem) es s →
      s.Quiescent → s.world.stats.peakAllocatedBytes > c.maxHeapBytes →
      alarms tid (start c mem) es ≠ []) ∧
    (∀ (es : List (Event ι)) (s : Machine ι),
      Run (system tid fun _ _ => True) (start c mem) es s →
      ∀ a ∈ alarms tid (start c mem) es, a.1 > c.maxHeapBytes ∧ a.2 = c.maxHeapBytes) ∧
    ∀ (es : List (Event ι)) (s : Machine ι) (e : Event ι),
      Run (system tid fun _ _ => True) (start c mem) es s →
      ∀ a ∈ callbacks (s.step tid e).world.log, a.1 = s.world.stats.currentAllocatedBytes := by
  have hconfig : ∀ (es : List (Event ι)) (s : Machine ι),
      Run (system tid fun _ _ => True) (start c mem) es s → s.world.config = c :=
    fun es s hrun => hrun.invariant (I := fun s => s.world.config = c)
      (fun s e hs _ => (config_step e).trans hs) rfl
  refine ⟨fun es s hrun hquiet hpeak => ?_, fun es s hrun => ?_, fun es s e hrun a ha => ?_⟩
  · have hwatched : Watched c ([] ++ alarms tid (start c mem) es) s := by
      apply Run.invariant_outputs _ hrun (watched_start mem)
      intro as s e hs hguard
      exact hs.step hlimit hcallback hguard.1 hguard.2
    rcases hwatched.watched (Or.inl hpeak) with hcalled | ⟨⟨i, hi⟩, _⟩
    · exact hcalled
    · rw [hquiet i] at hi
      exact absurd hi id
  · have hpassed : s.world.config = c ∧ ∀ a ∈ [] ++ alarms tid (start c mem) es,
        a.1 > c.maxHeapBytes ∧ a.2 = c.maxHeapBytes := by
      apply @Run.invariant_outputs _ _ _ _ _ (fun (as : List (Word × Word)) s =>
        s.world.config = c ∧ ∀ a ∈ as, a.1 > c.maxHeapBytes ∧ a.2 = c.maxHeapBytes) _ _ _ _ hrun
      · exact ⟨rfl, fun a ha => absurd ha List.not_mem_nil⟩
      · intro as s e hs _
        refine ⟨(config_step e).trans hs.1, fun a ha => ?_⟩
        rcases List.mem_append.mp ha with hold | hnew
        · exact hs.2 a hold
        · obtain ⟨heq, habove⟩ := callbacks_step (hs.1 ▸ hlimit) (hs.1 ▸ hcallback) hnew
          rw [heq, hs.1] at habove
          rw [heq, hs.1]
          exact ⟨habove, rfl⟩
    exact hpassed.2
  · have hc := hconfig es s hrun
    rw [(callbacks_step (hc ▸ hlimit) (hc ▸ hcallback) ha).1]

theorem alarms_of_silent {s t : Machine ι} {es : List (Event ι)} (h : Run (silent tid) s es t) :
    alarms tid s es = [] := by
  apply @Run.outputs_eq_nil _ _ (silent tid) _ _ _ _ _ _ h
  rintro _ _ ⟨_, _, hcallbacks⟩
  exact hcallbacks

/-- A limit of twenty bytes, and a callback. -/
def limitedConfig : Config := { maxHeapBytes := 20, onLimitExceeded := true }

/-- The first of two threads gets 16 bytes, and gives them back while the second gets 32. -/
def breaching : List (Event Pair) :=
  let a : Event Pair := .advance .first { malloc := 0x10000 }
  let b : Event Pair := .advance .second { malloc := 0x20000 }
  [.call .first (.alloc 16 16 0)] ++ List.replicate 11 a ++ [.call .second (.alloc 32 16 0),
    .call .first (.free 0x10050)] ++ List.replicate 7 b ++ List.replicate 5 a ++
    [b, a, b, b, a, b, a, a, a, b]

theorem alarm_of_breach_twenty :
    let s := after pair limitedConfig (fun _ => 0) breaching
    Run (system pair fun s e => ¬ s.Dips pair 20 e) (start limitedConfig fun _ => 0) breaching s ∧
      s.Quiescent ∧ s.world.stats.peakAllocatedBytes = 48 ∧
      alarms pair (start limitedConfig fun _ => 0) breaching = [(32, 20)] ∧
      alarms pair (start limitedConfig fun _ => 0) breaching ≠ [] := by
  intro s
  have hrun : Run (system pair fun s e => ¬ s.Dips pair 20 e) (start limitedConfig fun _ => 0)
      breaching s := run_from_start pair (fun s e => ¬ s.Dips pair 20 e) (by decide +kernel)
  have hquiet : s.Quiescent := by
    have hidle : ∀ i, s.pool i = .idle := by decide +kernel
    exact hidle
  have hpeak : s.world.stats.peakAllocatedBytes = 48 := by decide +kernel
  have hcalled := (@alarm_of_breach Pair _ pair limitedConfig (by decide) rfl fun _ => 0).1
    breaching s hrun hquiet (by rw [hpeak]; decide)
  exact ⟨hrun, hquiet, hpeak, by decide +kernel, hcalled⟩

/-- Two threads allocate sixteen bytes each, and the first releases its block before the
second has loaded the current bytes: the peak is 32, and nobody has been told. -/
theorem breach_unnoticed :
    limitedConfig.maxHeapBytes > 0 ∧ limitedConfig.onLimitExceeded = true ∧
    ∃ (es : List (Event (Fin 2))) (s : Machine (Fin 2)),
      Run (system (fun i => BitVec.ofNat 32 i.val) fun _ _ => True)
        (start limitedConfig fun _ => 0) es s ∧
      s.Quiescent ∧ s.world.stats.peakAllocatedBytes > limitedConfig.maxHeapBytes ∧
      alarms (fun i => BitVec.ofNat 32 i.val) (start limitedConfig fun _ => 0) es = [] := by
  have hsmall : (({} : MemoryStats).updateOnAlloc 16).currentAllocatedBytes ≤ 20 := by decide
  have hfirst : Fresh (fun _ => none) 0x10000 116 := fresh_empty (by decide)
  have hsecond : Fresh (fun _ => none) 0x20000 116 := fresh_empty (by decide)
  have haccepted₁ : Accepted ((World.start fun _ => 0).init limitedConfig) 0
      { malloc := 0x10000 } 16 16 :=
    accepted_small rfl rfl rfl rfl rfl (by decide) (by decide) (by decide) hfirst
  -- the first thread has its block
  obtain ⟨es₁, w₁, r₁, hrun₁, ⟨hheap₁, hconfig₁, hstats₁, hcounter₁, hfault₁⟩, htracker₁,
    hcontrol₁, hr₁⟩ := @run_trackAlloc (Fin 2) _ (fun i => BitVec.ofNat 32 i.val)
      ((World.start fun _ => 0).init limitedConfig) 0 (fun _ => .idle) 0 { malloc := 0x10000 }
      16 16 0 rfl haccepted₁ (fun _ => hsmall)
  have hptr₁ : r₁.userPtr ≠ 0 := by
    rw [hr₁.userPtr]
    decide
  have haccepted₂ : Accepted w₁ 1 { malloc := 0x20000 } 16 16 := by
    refine accepted_small ?_ (hcontrol₁.guardActive 1) hcontrol₁.initialized ?_ hfault₁ ?_ ?_
      (by decide) ?_
    · rw [hconfig₁]
      rfl
    · unfold gate
      rw [hconfig₁]
      rfl
    · rw [hcounter₁]
      decide
    · rw [hstats₁]
      decide
    · rw [hheap₁]
      exact hsecond.update_some (Or.inr (by decide))
  -- the second one has counted its own, and not stored it yet
  obtain ⟨es₂, w₂, r₂, hrun₂, ⟨hheap₂, hconfig₂, hstats₂, hcounter₂, hfault₂⟩, htracker₂,
    hcontrol₂, hr₂⟩ := @run_toInsert (Fin 2) _ (fun i => BitVec.ofNat 32 i.val) w₁
      (0 + nonNull r₁.userPtr) (fun _ => .idle) 1 { malloc := 0x20000 } 16 16 0 rfl haccepted₂
  have hfind : w₂.tracker.find r₁.userPtr = some r₁ := by
    rw [htracker₂, htracker₁, ShardedTracker.find_insert_self hptr₁]
  have hlive : (w₂.heap r₁.rawPtr).isSome = true := by
    rw [hheap₂, hr₁.rawPtr, update_of_ne (by decide), hheap₁, update_self]
    rfl
  obtain ⟨es₃, w₃, hrun₃, hstats₃, hconfig₃, hfault₃⟩ := @run_trackFree (Fin 2) _
    (fun i => BitVec.ofNat 32 i.val) w₂ (0 + nonNull r₁.userPtr)
    (update (fun _ => .idle) 1 (.insert r₂ .done)) 0 r₁ r₁.userPtr rfl
    ((hcontrol₂.guardActive 0).trans (hcontrol₁.guardActive 0))
    (by rw [zero_add, nonNull_of_ne hptr₁]; exact Multiset.mem_singleton_self _) hfind hfault₂
    hlive (by rw [hr₁.rawPtr]; decide)
  have hstats : w₃.stats = ((({} : MemoryStats).updateOnAlloc 16).updateOnAlloc 16).updateOnFree
      16 := by
    rw [hstats₃, hstats₂, hstats₁, hr₁.requestedSize]
    rfl
  -- now the second one looks at the counter
  have hsilent₃ : w₃.Silent := by
    intro _
    rw [hstats, hconfig₃, hconfig₂, hconfig₁]
    decide
  obtain ⟨es₄, hrun₄⟩ := @run_fromInsert (Fin 2) _ (fun i => BitVec.ofNat 32 i.val) w₃
    (0 + nonNull r₁.userPtr - {r₁.userPtr}) (fun _ => .idle) 1 r₂ hfault₃ hsilent₃
  have hrun := hrun₁.append (hrun₂.append (hrun₃.append hrun₄))
  refine ⟨by decide, rfl, _, _, unguarded_of_silent hrun, ?_, ?_, alarms_of_silent hrun⟩
  · intro i
    change update (fun _ : Fin 2 => Point.idle) 1 .idle i = .idle
    rw [update_eq_self]
  · change w₃.stats.peakAllocatedBytes > _
    rw [hstats]
    decide

end Machine

end MemSentry
