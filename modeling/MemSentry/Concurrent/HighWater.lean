import MemSentry.Concurrent.StatsSnapshot

/-!
# The peak is the high-water mark

The threads update as in `StatsSnapshot`, but any size may be freed at any time, as long
as `fetch_sub` does not take off more than is there. Beside the counters the state keeps
every value that `current_allocated_bytes` has held, and the sum with which each
`update_on_alloc` has returned.

Every value ever held is below the peak or below a sum that a thread is still carrying
into the loop on the peak, and every sum carried has been held (`HighWater`). So the peak
never overshoots, and it falls short only as long as somebody is in the loop
(`peak_high_water`).
-/

namespace MemSentry

open Profiler Function Transition
open ThreadPool (Pair)

/-- The update has taken its last step. -/
def Update.Ended : Update → Prop
  | .idle | .counted _ => True
  | _ => False

instance (u : Update) : Decidable u.Ended :=
  match u with
  | .idle | .counted _ => .isTrue trivial
  | .addTotalBytes _ | .addTotalCount _ | .addActive _ | .addCurrent _ | .loadPeak ..
  | .raisePeak .. | .addFreedBytes _ | .addFreeCount _ | .subActive _ | .subCurrent _ =>
    .isFalse id

/-- What the next step takes off `current_allocated_bytes`. -/
def Update.subtracted : Update → Word
  | .subCurrent n => n
  | _ => 0

theorem Update.subtracted_le (u : Update) (k : Nat) :
    u.subtracted.toNat ≤ k ↔ ∀ n, u = .subCurrent n → n.toNat ≤ k := by
  cases u <;> simp [Update.subtracted]

/-- The sum with which `update_on_alloc` returns in a step from one point to the other. -/
def Update.returned : Update → Update → List Word
  | .raisePeak _ current _, .counted _ => [current]
  | _, _ => []

theorem Update.not_raising_of_ended {u : Update} (h : u.Ended) (sum : Word) : ¬ u.Raising sum := by
  cases u with
  | loadPeak n current => exact h.elim
  | raisePeak n current peak => exact h.elim
  | _ => exact id

structure WatchedStats (ι : Type) where
  shared : SharedStats ι
  /-- The values of `current_allocated_bytes` so far, newest first. -/
  past : List Word
  /-- The sums with which updates have returned, newest first. -/
  returned : List Word

namespace WatchedStats

variable {ι : Type}

def start : WatchedStats ι := ⟨.start, [0], []⟩

variable [DecidableEq ι] (s : WatchedStats ι)

def returns : UpdateEvent ι → List Word
  | .advance i spurious =>
    (s.shared.pool i).returned (s.shared.stats.advance spurious (s.shared.pool i)).2
  | _ => []

def step (e : UpdateEvent ι) : WatchedStats ι where
  shared := s.shared.step e
  past := (s.shared.step e).stats.currentAllocatedBytes :: s.past
  returned := s.returns e ++ s.returned

omit [DecidableEq ι] in
/-- A thread begins an update when it has none, and takes off no more than is there. -/
def Legal : UpdateEvent ι → Prop
  | .alloc i _ => s.shared.pool i = .idle
  | .free i _ => s.shared.pool i = .idle
  | .advance i _ => ∀ n, s.shared.pool i = .subCurrent n →
    n.toNat ≤ s.shared.stats.currentAllocatedBytes.toNat

def updates : System (WatchedStats ι) (UpdateEvent ι) where
  step := step
  guard := Legal

omit [DecidableEq ι] in
/-- No update is in progress. -/
def Quiescent : Prop := ∀ i, (s.shared.pool i).Ended

instance (e : UpdateEvent ι) : Decidable (updates.guard s e) :=
  match e with
  | .alloc i _ => inferInstanceAs (Decidable (s.shared.pool i = .idle))
  | .free i _ => inferInstanceAs (Decidable (s.shared.pool i = .idle))
  | .advance i _ =>
    decidable_of_iff ((s.shared.pool i).subtracted.toNat ≤
      s.shared.stats.currentAllocatedBytes.toNat) (Update.subtracted_le _ _)

instance [Fintype ι] : Decidable s.Quiescent :=
  inferInstanceAs (Decidable (∀ i, (s.shared.pool i).Ended))

end WatchedStats

/-! ## Where peak and sums come from -/

/-- Peak and sums after one step are old ones, or the value just held. -/
structure SumStep (st : MemoryStats) (u : Update) (st' : MemoryStats) (u' : Update) : Prop where
  peak : st'.peakAllocatedBytes = st.peakAllocatedBytes ∨ u.Raising st'.peakAllocatedBytes
  sums : ∀ sum, u'.Raising sum → u.Raising sum ∨ sum = st'.currentAllocatedBytes
  returned : ∀ sum ∈ u.returned u', sum ≤ st'.peakAllocatedBytes

section SumStep

variable {st st' : MemoryStats} {u u' : Update}

/-- A step that does not touch the peak. -/
theorem SumStep.calm (hpeak : st'.peakAllocatedBytes = st.peakAllocatedBytes)
    (hu' : ∀ sum, ¬ u'.Raising sum) (hreturned : u.returned u' = []) : SumStep st u st' u' := by
  refine ⟨Or.inl hpeak, fun sum h => absurd h (hu' sum), ?_⟩
  rw [hreturned]
  simp

/-- In the loop a step either stores the sum, or leaves with a peak that has passed it, or
goes round again. -/
theorem raisePeak_sumStep {spurious : Bool} {n current peak : Word}
    (hpeak : peak ≤ st.peakAllocatedBytes) :
    SumStep st (.raisePeak n current peak) (st.advance spurious (.raisePeak n current peak)).1
      (st.advance spurious (.raisePeak n current peak)).2 := by
  unfold MemoryStats.advance
  dsimp only
  by_cases habove : current > peak
  · rw [if_pos habove]
    by_cases hstore : st.peakAllocatedBytes = peak ∧ ¬ spurious
    · rw [if_pos hstore]
      refine ⟨Or.inr rfl, fun _ h => h.elim, fun sum hsum => ?_⟩
      cases List.mem_singleton.mp hsum
      exact BitVec.le_refl _
    · rw [if_neg hstore]
      exact ⟨Or.inl rfl, fun _ h => Or.inl h, fun _ hsum => absurd hsum List.not_mem_nil⟩
  · rw [if_neg habove]
    refine ⟨Or.inl rfl, fun _ h => h.elim, fun sum hsum => ?_⟩
    cases List.mem_singleton.mp hsum
    exact BitVec.le_trans (BitVec.not_lt.mp habove) hpeak

theorem advance_sumStep {spurious : Bool}
    (hloaded : ∀ n current peak, u = .raisePeak n current peak → peak ≤ st.peakAllocatedBytes) :
    SumStep st u (st.advance spurious u).1 (st.advance spurious u).2 := by
  cases u with
  | addCurrent n =>
    refine ⟨Or.inl rfl, ?_, fun _ hsum => absurd hsum List.not_mem_nil⟩
    rintro sum rfl
    exact Or.inr rfl
  | loadPeak n current =>
    exact ⟨Or.inl rfl, fun _ h => Or.inl h, fun _ hsum => absurd hsum List.not_mem_nil⟩
  | raisePeak n current peak => exact raisePeak_sumStep (hloaded n current peak rfl)
  | _ => exact .calm rfl (fun _ => id) rfl

end SumStep

/-! ## Runs -/

namespace WatchedStats

variable {ι : Type} {s t : WatchedStats ι}

/-- The value is below the peak, or below a sum that a thread carries into the loop. -/
def Accounted (s : WatchedStats ι) (v : Word) : Prop :=
  v ≤ s.shared.stats.peakAllocatedBytes ∨ ∃ i sum, v ≤ sum ∧ (s.shared.pool i).Raising sum

/-- What holds of the peak whatever the threads are in the middle of. -/
structure HighWater (s : WatchedStats ι) : Prop where
  loaded : s.shared.PeakLoaded
  current : s.shared.stats.currentAllocatedBytes ∈ s.past
  attained : s.shared.stats.peakAllocatedBytes ∈ s.past
  sums : ∀ i sum, (s.shared.pool i).Raising sum → sum ∈ s.past
  reached : ∀ v ∈ s.past, s.Accounted v
  returned : ∀ v ∈ s.returned, v ≤ s.shared.stats.peakAllocatedBytes

variable [DecidableEq ι] {e : UpdateEvent ι} {es fs : List (UpdateEvent ι)} {i : ι}
  {st' : MemoryStats} {live' : Multiset Word} {u' : Update} {v : Word}

/-- Every event moves one thread. -/
theorem HighWater.moves (h : s.HighWater) (hlegal : s.Legal e) : ∃ i st' live' u',
    s.shared.step e = ⟨st', live', update s.shared.pool i u'⟩ ∧
      s.returns e = (s.shared.pool i).returned u' ∧
      PeakStep s.shared.stats (s.shared.pool i) st' u' ∧
      SumStep s.shared.stats (s.shared.pool i) st' u' := by
  cases e with
  | alloc i n =>
    refine ⟨i, _, _, _, rfl, ?_⟩
    rw [show s.shared.pool i = .idle from hlegal]
    exact ⟨rfl, .calm rfl (BitVec.le_refl _) (fun _ => id) fun _ => id, .calm rfl (fun _ => id) rfl⟩
  | free i n =>
    refine ⟨i, _, _, _, rfl, ?_⟩
    rw [show s.shared.pool i = .idle from hlegal]
    exact ⟨rfl, .calm rfl (BitVec.le_refl _) (fun _ => id) fun _ => id, .calm rfl (fun _ => id) rfl⟩
  | advance i spurious =>
    exact ⟨i, _, _, _, rfl, rfl, advance_peak (h.loaded i) hlegal, advance_sumStep (h.loaded i)⟩

omit [DecidableEq ι] in
theorem Accounted.le (h : s.Accounted v) {v' : Word} (hle : v' ≤ v) : s.Accounted v' := by
  rcases h with hpeak | ⟨j, sum, hsum, hraising⟩
  · exact Or.inl (BitVec.le_trans hle hpeak)
  · exact Or.inr ⟨j, sum, BitVec.le_trans hle hsum, hraising⟩

theorem Accounted.move {past' returned' : List Word} (h : s.Accounted v)
    (hstep : PeakStep s.shared.stats (s.shared.pool i) st' u') :
    Accounted ⟨⟨st', live', update s.shared.pool i u'⟩, past', returned'⟩ v := by
  rcases h with hpeak | ⟨j, sum, hsum, hraising⟩
  · exact Or.inl (BitVec.le_trans hpeak hstep.peak)
  · have hkept := @SharedStats.Raised.move _ _ s.shared i st' live' u' sum j (Or.inr hraising) hstep
    rcases hkept with hreached | hstill
    · exact Or.inl (BitVec.le_trans hsum hreached)
    · exact Or.inr ⟨j, sum, hsum, hstill⟩

theorem HighWater.move {returned' : List Word} (h : s.HighWater)
    (hpeak : PeakStep s.shared.stats (s.shared.pool i) st' u')
    (hsum : SumStep s.shared.stats (s.shared.pool i) st' u')
    (hreturned : ∀ v ∈ returned', v ≤ st'.peakAllocatedBytes) :
    HighWater ⟨⟨st', live', update s.shared.pool i u'⟩, st'.currentAllocatedBytes :: s.past,
      returned' ++ s.returned⟩ := by
  refine ⟨h.loaded.move hpeak, List.mem_cons_self, ?_, ?_, ?_, ?_⟩
  · rcases hsum.peak with hsame | hraised
    · exact List.mem_cons_of_mem _ (hsame ▸ h.attained)
    · exact List.mem_cons_of_mem _ (h.sums i _ hraised)
  · intro j sum hj
    change (update s.shared.pool i u' j).Raising sum at hj
    by_cases hji : j = i
    · subst j
      rw [update_self] at hj
      rcases hsum.sums sum hj with hold | hnew
      · exact List.mem_cons_of_mem _ (h.sums i sum hold)
      · exact hnew ▸ List.mem_cons_self
    · rw [update_of_ne hji] at hj
      exact List.mem_cons_of_mem _ (h.sums j sum hj)
  · intro v hv
    rcases List.mem_cons.mp hv with rfl | hold
    · -- a new value is no higher than the last one, or the thread carries it itself
      rcases hpeak.current with hle | hcarried
      · exact ((h.reached _ h.current).le hle).move hpeak
      · refine Or.inr ⟨i, st'.currentAllocatedBytes, BitVec.le_refl _, ?_⟩
        change (update s.shared.pool i u' i).Raising _
        rwa [update_self]
    · exact (h.reached v hold).move hpeak
  · intro v hv
    rcases List.mem_append.mp hv with hnew | hold
    · exact hreturned v hnew
    · exact BitVec.le_trans (h.returned v hold) hpeak.peak

theorem HighWater.step (h : s.HighWater) (hlegal : s.Legal e) :
    (s.step e).HighWater ∧ s.shared.stats.peakAllocatedBytes ≤
      (s.step e).shared.stats.peakAllocatedBytes := by
  obtain ⟨i, st', live', u', heq, hreturns, hpeak, hsum⟩ := h.moves hlegal
  unfold WatchedStats.step
  rw [heq, hreturns]
  exact ⟨h.move hpeak hsum hsum.returned, hpeak.peak⟩

omit [DecidableEq ι] in
theorem highWater_start : (start : WatchedStats ι).HighWater := by
  refine ⟨fun _ _ _ _ h => (nomatch h), List.mem_cons_self, List.mem_cons_self,
    fun _ _ h => h.elim, fun v hv => ?_, fun _ h => absurd h List.not_mem_nil⟩
  rw [List.mem_singleton.mp hv]
  exact Or.inl (BitVec.le_refl _)

theorem highWater_of_run (hs : s.HighWater) (h : Run updates s es t) : t.HighWater :=
  h.invariant (I := HighWater) (fun _ _ hs hlegal => (hs.step hlegal).1) hs

theorem peak_le_of_run (hs : s.HighWater) (h : Run updates s es t) :
    s.shared.stats.peakAllocatedBytes ≤ t.shared.stats.peakAllocatedBytes := by
  have hboth : t.HighWater ∧ s.shared.stats.peakAllocatedBytes ≤
      t.shared.stats.peakAllocatedBytes := by
    apply h.invariant (I := fun t => t.HighWater ∧ s.shared.stats.peakAllocatedBytes ≤
      t.shared.stats.peakAllocatedBytes) _ ⟨hs, BitVec.le_refl _⟩
    rintro t e ⟨ht, hle⟩ hlegal
    obtain ⟨hstep, hpeak⟩ := ht.step hlegal
    exact ⟨hstep, BitVec.le_trans hle hpeak⟩
  exact hboth.2

/-- **The peak is the high-water mark** of `current_allocated_bytes`: it never decreases, it
is a value that has been held, it is no lower than the sum of any allocation that has been
counted, and whenever no update is in progress it is the highest value ever held. -/
theorem peak_high_water (hrun : Run updates start es s) (hrest : Run updates s fs t) :
    s.shared.stats.peakAllocatedBytes ≤ t.shared.stats.peakAllocatedBytes ∧
      (∃ v ∈ t.past, t.shared.stats.peakAllocatedBytes ≤ v) ∧
      (∀ v ∈ t.returned, v ≤ t.shared.stats.peakAllocatedBytes) ∧
      (t.Quiescent → t.shared.stats.peakAllocatedBytes ∈ t.past ∧
        ∀ v ∈ t.past, v ≤ t.shared.stats.peakAllocatedBytes) := by
  have hs := highWater_of_run highWater_start hrun
  have ht := highWater_of_run hs hrest
  refine ⟨peak_le_of_run hs hrest, ⟨_, ht.attained, BitVec.le_refl _⟩, ht.returned, ?_⟩
  intro hquiet
  refine ⟨ht.attained, fun v hv => ?_⟩
  rcases ht.reached v hv with hpeak | ⟨i, sum, _, hraising⟩
  · exact hpeak
  · exact absurd hraising (Update.not_raising_of_ended (hquiet i) sum)

/-! ## Frees that follow their allocations -/

/-- Where every free follows its allocation and the totals do not wrap, nothing is taken
off that is not there. -/
theorem legal_of_sound [Fintype ι] (hs : s.shared.Sound) (hlegal : s.shared.Legal e) :
    s.Legal e := by
  cases e with
  | alloc i n => exact hlegal
  | free i n => exact hlegal.1
  | advance i spurious => exact fun n => hs.subCurrent_le

theorem run_of_updates [Fintype ι] {t : SharedStats ι} (hs : s.shared.Sound)
    (h : Run SharedStats.updates s.shared es t) :
    ∃ t', Run updates s es t' ∧ t'.shared = t := by
  generalize hshared : s.shared = shared at h
  induction h generalizing s with
  | nil => exact ⟨s, .nil s, hshared⟩
  | @cons shared t e es hguard hrest ih =>
    subst hshared
    obtain ⟨t', hrun, ht'⟩ := ih (s := s.step e) (hs.step hguard) rfl
    exact ⟨t', .cons (legal_of_sound hs hguard) hrun, ht'⟩

/-- The first thread has counted 16 bytes and the second then 32; the second has raised the
peak to both together, and the exchange of the first has failed for no reason. -/
def contended : List (UpdateEvent Pair) :=
  .alloc .first 16 :: List.replicate 4 (.advance .first false) ++
    .alloc .second 32 :: List.replicate 4 (.advance .second false) ++
    [.advance .first false, .advance .first true, .advance .second false, .advance .second false]

/-- The first thread finds another peak than the one it loaded, then one above its own sum, and
frees what it has counted. -/
def settling : List (UpdateEvent Pair) :=
  [.advance .first false, .advance .first false, .advance .first false] ++
    .free .first 16 :: List.replicate 4 (.advance .first false)

theorem peak_high_water_contended :
    ∃ s t : WatchedStats Pair, Run updates start contended s ∧ Run updates s settling t ∧
      s.shared.pool .first = .raisePeak 16 16 0 ∧ s.shared.stats.peakAllocatedBytes = 48 ∧
      t.shared.stats.currentAllocatedBytes = 32 ∧ t.shared.stats.peakAllocatedBytes = 48 ∧
      t.returned = [16, 48] ∧ (∀ v ∈ t.returned, v ≤ 48) ∧ 48 ∈ t.past ∧ ∀ v ∈ t.past, v ≤ 48 := by
  have hrun : Run updates start contended _ := .of_allows (by decide +kernel)
  have hrest : Run updates (contended.foldl updates.step start) settling _ :=
    .of_allows (by decide +kernel)
  obtain ⟨_, _, hreturned, hquiet⟩ := peak_high_water hrun hrest
  obtain ⟨hheld, habove⟩ := hquiet (by decide +kernel)
  exact ⟨_, _, hrun, hrest, by decide +kernel, by decide +kernel, by decide +kernel,
    by decide +kernel, by decide +kernel, hreturned, hheld, habove⟩

end WatchedStats

end MemSentry
