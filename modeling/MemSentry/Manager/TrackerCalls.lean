import MemSentry.Manager.SafeRuns

/-!
# The calls on the tracker in a run

Every step adds calls to the history, and the tracker is what these calls make of it
(`step_calls`). So along every run the tracker is the replay of the history
(`run_recorded`), and what `TrackerHistory` knows about histories holds of the manager.
The records that are inserted describe blocks that the step itself has got from the
system.
-/

namespace MemSentry

open MemSentry.Core Function World Transition

/-- A call that the manager makes: an inserted record has the user pointer at its place
in a block that the system answered with, and the tracker is never cleared. -/
def ProperCall (log : List Action) : TrackerCall → Prop
  | .insert q r =>
    Placed r.rawPtr q r.requestedSize.toNat r.footerSize.toNat r.totalSize.toNat ∧
      Action.systemAlloc r.totalSize r.rawPtr ∈ log
  | .clear => False
  | _ => True

theorem ProperCall.mono {log log' : List Action} {c : TrackerCall} (h : ProperCall log c)
    (hlog : ∀ a ∈ log, a ∈ log') : ProperCall log' c := by
  cases c with
  | insert q r => exact ⟨h.1, hlog _ h.2⟩
  | erase q => trivial
  | find q => trivial
  | size => trivial
  | clear => exact h

/-- Between the two states the tracker has seen the calls `new`. -/
structure CallsAdded (w w' : World) (new : List TrackerCall) : Prop where
  calls : w'.calls = new ++ w.calls
  tracker : w'.tracker = new.foldr (fun c t => c.perform t) w.tracker

theorem CallsAdded.refl {w w' : World} (hcalls : w'.calls = w.calls)
    (htracker : w'.tracker = w.tracker) : CallsAdded w w' [] := ⟨hcalls, htracker⟩

theorem CallsAdded.of_system {w w' : World} (h : SystemOnly w w') : CallsAdded w w' [] :=
  .refl h.calls h.tracker

theorem CallsAdded.trans {w w' w'' : World} {new new' : List TrackerCall}
    (h : CallsAdded w w' new) (h' : CallsAdded w' w'' new') : CallsAdded w w'' (new' ++ new) := by
  refine ⟨?_, ?_⟩
  · rw [h'.calls, h.calls, List.append_assoc]
  · rw [h'.tracker, h.tracker, List.foldr_append]

/-- The tracker of the manager is the replay of its history. -/
def Recorded (w : World) : Prop := w.tracker = replay w.calls

theorem Recorded.of_calls {w w' : World} {new : List TrackerCall} (h : Recorded w)
    (hnew : CallsAdded w w' new) : Recorded w' := by
  unfold Recorded at *
  rw [hnew.tracker, hnew.calls, replay_append, h]

section Operations

variable {w : World} {o : Oracle} {tid : ThreadId} {size alignment tag n : Word} {p : Ptr}

theorem allocate_calls {heap : Ptr → Option Nat}
    (hfresh : ∀ a ∈ (w.allocate o tid size alignment tag).1.log, a.Fresh heap) :
    ∃ new, CallsAdded w (w.allocate o tid size alignment tag).1 new ∧
      ∀ c ∈ new, ProperCall (w.allocate o tid size alignment tag).1.log c := by
  cases (allocate_effect w o tid size alignment tag).2 with
  | failed hp hwhy hblocks hfault hlog =>
    exact ⟨[], .refl hblocks.calls hblocks.tracker, fun c hc => absurd hc List.not_mem_nil⟩
  | faulted hp hfit hfault htracker hmem hcalls hlog =>
    exact ⟨[], .refl hcalls htracker, fun c hc => absurd hc List.not_mem_nil⟩
  | raw hp hne htracks hheap htracker hmem hcalls hlog hfault =>
    exact ⟨[], .refl hcalls htracker, fun c hc => absurd hc List.not_mem_nil⟩
  | tracked allocId tag' htracks hraw hfit hp hheap htracker hcalls hmem hlog hfault =>
    obtain ⟨rest, hlog, _⟩ := hlog
    have hanswer : Action.systemAlloc (calculateTotalSize size (effectiveAlignment alignment)
        w.config.footerSize) o.malloc ∈ (w.allocate o tid size alignment tag).1.log := by
      rw [hlog]
      exact List.mem_append_right _ List.mem_cons_self
    have hspace := (hfresh _ hanswer hraw).1
    have hplaced := @recordOf_placed w o tid size alignment tag' allocId hraw hfit
      (Nat.le_trans (Nat.add_le_add_left (le_extent _) _) hspace)
    rw [hp] at hcalls htracker
    refine ⟨[.insert _ _], ⟨hcalls, htracker⟩, fun c hc => ?_⟩
    rw [List.mem_singleton.mp hc]
    exact ⟨hplaced, hanswer⟩

theorem deallocate_calls (log : List Action) :
    ∃ new, CallsAdded w (w.deallocate tid p) new ∧ ∀ c ∈ new, ProperCall log c := by
  have hkeep : ∃ new, CallsAdded w w new ∧ ∀ c ∈ new, ProperCall log c :=
    ⟨[], .refl rfl rfl, fun c hc => absurd hc List.not_mem_nil⟩
  have hfree : ∀ q, ∃ new, CallsAdded w (w.rawSystemFree q) new ∧ ∀ c ∈ new, ProperCall log c :=
    fun q => ⟨[], .of_system rawSystemFree_system, fun c hc => absurd hc List.not_mem_nil⟩
  by_cases hp : p = 0
  · unfold deallocate
    rw [if_pos hp]
    exact hkeep
  by_cases hguard : w.guardActive tid
  · unfold deallocate
    rw [if_neg hp, if_pos hguard]
    dsimp only
    split
    · split
      · exact hkeep
      · exact hfree _
    · exact hfree _
  · obtain ⟨_, ⟨hcalls, htracker⟩, _⟩ := deallocate_effect w tid p (Bool.not_eq_true _ ▸ hguard) hp
    refine ⟨[.erase p], ⟨hcalls, htracker⟩, fun c hc => ?_⟩
    rw [List.mem_singleton.mp hc]
    trivial

theorem reallocate_calls {heap : Ptr → Option Nat}
    (hfresh : ∀ a ∈ (w.reallocate o tid p n).1.log, a.Fresh heap) :
    ∃ new, CallsAdded w (w.reallocate o tid p n).1 new ∧
      ∀ c ∈ new, ProperCall (w.reallocate o tid p n).1.log c := by
  by_cases hp : p = 0
  · subst hp
    rw [reallocate_null] at hfresh ⊢
    exact allocate_calls hfresh
  by_cases hn : n = 0
  · subst hn
    rw [reallocate_zero hp]
    exact deallocate_calls _
  by_cases hbypass : w.guardActive tid = true ∨ ¬ w.initialized = true
  · refine ⟨[], ?_, fun c hc => absurd hc List.not_mem_nil⟩
    unfold reallocate
    rw [if_neg hp, if_neg hn, if_pos hbypass]
    exact .of_system rawSystemRealloc_system
  rw [not_or, Bool.not_eq_true, not_not] at hbypass
  obtain ⟨hguard, hinit⟩ := hbypass
  have hfound : CallsAdded w { w with calls := .find p :: w.calls } [.find p] := ⟨rfl, rfl⟩
  have hproper : ∀ log, ∀ c ∈ [TrackerCall.find p], ProperCall log c := by
    intro log c hc
    rw [List.mem_singleton.mp hc]
    trivial
  rcases hfind : w.tracker.find p with _ | r
  · rw [reallocate_of_find_none hp hn hguard hinit hfind]
    exact ⟨_, hfound.trans (.of_system rawSystemRealloc_system), hproper _⟩
  obtain ⟨as, hcheck, _⟩ := checkOldBlock_log { w with calls := .find p :: w.calls } p r
  obtain ⟨bs, hbs⟩ := deallocate_log (w.recopied o tid p r n) tid p
  have hinner : ∀ a ∈ (w.reallocated o tid p r n).1.log, a.Fresh heap :=
    fun a ha => hfresh a (reallocated_log hn hguard hinit hfind a ha)
  rw [reallocate_of_find hn hguard hinit hfind]
  have halloc : ∃ new, CallsAdded w (w.reallocated o tid p r n).1 new ∧
      ∀ c ∈ new, ProperCall (w.reallocated o tid p r n).1.log c := by
    unfold reallocated at hinner ⊢
    rw [hcheck] at hinner ⊢
    obtain ⟨new, hnew, hcs⟩ := allocate_calls hinner
    have hchecked : CallsAdded w { w with calls := .find p :: w.calls, log := w.log ++ as }
        [.find p] := ⟨rfl, rfl⟩
    refine ⟨_, hchecked.trans hnew, fun c hc => ?_⟩
    exact (List.mem_append.mp hc).elim (hcs c) (hproper _ c)
  obtain ⟨new, hnew, hcs⟩ := halloc
  split
  · exact ⟨new, hnew, hcs⟩
  · obtain ⟨new', hnew', hcs'⟩ := @deallocate_calls (w.recopied o tid p r n) tid p
      (w.reallocated o tid p r n).1.log
    have hcopied : CallsAdded w (w.recopied o tid p r n) new := ⟨hnew.calls, hnew.tracker⟩
    refine ⟨new' ++ new, hcopied.trans hnew', fun c hc => ?_⟩
    have hmono : ∀ a ∈ (w.reallocated o tid p r n).1.log, a ∈ ((w.recopied o tid p r n).deallocate tid p).log := by
      intro a ha
      rw [hbs]
      exact List.mem_append_left _ ha
    exact (List.mem_append.mp hc).elim (fun h => (hcs' c h).mono hmono) fun h => (hcs c h).mono hmono

end Operations

/-! ## Steps and runs -/

section Steps

variable {mayWrite : World → Memory → Prop} {w : World} {c : Call}

theorem step_calls (hfresh : ∀ a ∈ (w.step c).log, a.Fresh w.heap) :
    ∃ new, CallsAdded w (w.step c) new ∧ ∀ d ∈ new, ProperCall (w.step c).log d := by
  have hnone : ∀ w' : World, w'.calls = w.calls → w'.tracker = w.tracker →
      ∃ new, CallsAdded w w' new ∧ ∀ d ∈ new, ProperCall w'.log d :=
    fun w' hcalls htracker => ⟨[], .refl hcalls htracker, fun d hd => absurd hd List.not_mem_nil⟩
  cases c with
  | init config => exact hnone _ rfl rfl
  | shutdown => exact hnone _ rfl rfl
  | enterGuard tid => exact hnone _ rfl rfl
  | exitGuard tid => exact hnone _ rfl rfl
  | setCurrentTag tid tag => exact hnone _ rfl rfl
  | trackAlloc tid o size alignment tag =>
    unfold World.step at hfresh ⊢
    dsimp only at hfresh ⊢
    rw [trackAlloc_eq, log_lease] at hfresh ⊢
    obtain ⟨new, hnew, hcs⟩ := @allocate_calls w.clearLog o tid size alignment tag w.heap hfresh
    refine ⟨new, ?_, hcs⟩
    by_cases hq : (w.clearLog.allocate o tid size alignment tag).2 = 0
    · rw [hq, lease_null]
      exact ⟨hnew.calls, hnew.tracker⟩
    · rw [lease_of_ne hq]
      exact ⟨hnew.calls, hnew.tracker⟩
  | trackFree tid ptr =>
    by_cases hp : ptr = 0
    · subst hp
      exact hnone _ rfl rfl
    by_cases hguard : w.guardActive tid
    · have hcalls := @rawSystemFree_system (w.clearLog.unlease ptr) ptr
      rw [step_trackFree_of_guard hp hguard]
      exact hnone _ hcalls.calls hcalls.tracker
    · obtain ⟨new, hnew, hcs⟩ := @deallocate_calls (w.clearLog.unlease ptr) tid ptr
        ((w.clearLog.unlease ptr).deallocate tid ptr).log
      rw [step_trackFree hp (Bool.not_eq_true _ ▸ hguard)]
      exact ⟨new, ⟨hnew.calls, hnew.tracker⟩, hcs⟩
  | trackRealloc tid o ptr newSize =>
    unfold World.step at hfresh ⊢
    dsimp only at hfresh ⊢
    obtain ⟨ls, hls⟩ := moveLease_eq (w.clearLog.trackRealloc o tid ptr newSize).1 ptr
      (w.clearLog.trackRealloc o tid ptr newSize).2 newSize ⟨o.malloc, newSize⟩
    rw [hls] at hfresh ⊢
    have hcall : ∃ new, CallsAdded w (w.clearLog.trackRealloc o tid ptr newSize).1 new ∧
        ∀ d ∈ new, ProperCall (w.clearLog.trackRealloc o tid ptr newSize).1.log d := by
      unfold World.trackRealloc at hfresh ⊢
      split at hfresh
      · rename_i hbypass
        rw [if_pos hbypass]
        have hcalls := @rawSystemRealloc_system w.clearLog o ptr newSize
        exact hnone _ hcalls.calls hcalls.tracker
      · rename_i hopen
        rw [if_neg hopen]
        obtain ⟨new, hnew, hcs⟩ := @reallocate_calls w.clearLog o tid newSize ptr w.heap hfresh
        exact ⟨new, ⟨hnew.calls, hnew.tracker⟩, hcs⟩
    obtain ⟨new, hnew, hcs⟩ := hcall
    exact ⟨new, ⟨hnew.calls, hnew.tracker⟩, hcs⟩
  | store mem => exact hnone _ rfl rfl

theorem run_recorded {cond : World → Call → Prop} {w' : World} {cs : List Call}
    (hrun : Run (managerSystem mayWrite cond) w cs w') (h : Recorded w) : Recorded w' := by
  refine hrun.invariant (I := Recorded) (fun w c hw hguard => ?_) h
  obtain ⟨new, hnew, _⟩ := step_calls hguard.1.fresh
  exact hw.of_calls hnew

end Steps

end MemSentry
