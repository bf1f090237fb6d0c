import MemSentry.Manager.Ownership

/-!
# Runs that are computed

What the system may answer depends on all live blocks, and those are not a list. But every
live block is at an address that the system has answered with, so it is enough to look at
these: `checks` decides whether calls are permitted one after the other, and then they are a
run (`run_of_checks`).
-/

namespace MemSentry

open MemSentry.Core Function Transition World

/-! ## Live blocks -/

/-- Every live block is at one of the addresses. -/
def LiveAmong (heap : Ptr → Option Nat) (bases : List Ptr) : Prop :=
  ∀ b n, heap b = some n → b ∈ bases

/-- `Fresh`, when every live block is at one of the addresses. -/
def checkFresh (heap : Ptr → Option Nat) (bases : List Ptr) (base : Ptr) (size : Word) : Bool :=
  decide (base.toNat + extent size ≤ 2 ^ 64) && bases.all fun b =>
    (heap b).all fun n =>
      decide (base.toNat + extent size ≤ b.toNat ∨ b.toNat + n ≤ base.toNat)

theorem fresh_of_check {heap : Ptr → Option Nat} {bases : List Ptr} {base : Ptr} {size : Word}
    (hlive : LiveAmong heap bases) (h : checkFresh heap bases base size = true) :
    Fresh heap base size := by
  obtain ⟨hspace, hall⟩ := (Bool.and_eq_true _ _).mp h
  refine ⟨of_decide_eq_true hspace, fun b n hb => ?_⟩
  have hapart := List.all_eq_true.mp hall b (hlive b n hb)
  rw [hb] at hapart
  exact of_decide_eq_true hapart

theorem LiveAmong.update_none {heap : Ptr → Option Nat} {bases : List Ptr}
    (h : LiveAmong heap bases) (b : Ptr) : LiveAmong (update heap b none) bases := by
  intro c n hc
  exact h c n (update_none_eq_some hc).2

/-- `Action.Fresh`, likewise. -/
def Action.check (heap : Ptr → Option Nat) (bases : List Ptr) : Action → Bool
  | .systemAlloc size answer => answer == 0 || checkFresh heap bases answer size
  | .systemRealloc ptr size answer _ =>
    answer == 0 || checkFresh (update heap ptr none) bases answer size
  | _ => true

theorem Action.fresh_of_check {heap : Ptr → Option Nat} {bases : List Ptr} {a : Action}
    (hlive : LiveAmong heap bases) (h : a.check heap bases = true) : a.Fresh heap := by
  cases a with
  | systemAlloc size answer =>
    intro hanswer
    rcases (Bool.or_eq_true _ _).mp h with h0 | hfresh
    · exact absurd (eq_of_beq h0) hanswer
    · exact MemSentry.fresh_of_check hlive hfresh
  | systemRealloc ptr size answer live =>
    intro hanswer
    rcases (Bool.or_eq_true _ _).mp h with h0 | hfresh
    · exact absurd (eq_of_beq h0) hanswer
    · exact MemSentry.fresh_of_check (hlive.update_none ptr) hfresh
  | _ => trivial

/-- Only blocks at these addresses may be new. -/
def World.Grows (w w' : World) (new : List Ptr) : Prop :=
  ∀ b n, w'.heap b = some n → b ∈ new ∨ w.heap b = some n

section Grows

variable {w w' w'' : World} {new : List Ptr}

theorem World.Grows.of_heap (h : w'.heap = w.heap) : w.Grows w' new :=
  fun _ _ hb => Or.inr (h ▸ hb)

theorem World.Grows.trans (h : w.Grows w' new) (h' : w'.Grows w'' new) : w.Grows w'' new :=
  fun b n hb => (h' b n hb).elim Or.inl (h b n)

theorem World.Grows.liveAmong {bases : List Ptr} (h : w.Grows w' new)
    (hlive : LiveAmong w.heap bases) : LiveAmong w'.heap (new ++ bases) :=
  fun b n hb => List.mem_append.mpr ((h b n hb).imp_right (hlive b n))

theorem grows_rawSystemAlloc (w : World) (o : Oracle) (size : Word) :
    w.Grows (w.rawSystemAlloc o size).1 [o.malloc] := by
  unfold rawSystemAlloc
  dsimp only
  split
  · exact .of_heap rfl
  · intro b n hb
    by_cases hne : b = o.malloc
    · exact Or.inl (List.mem_singleton.mpr hne)
    · exact Or.inr ((update_of_ne hne _ _).symm.trans hb)

theorem grows_rawSystemFree (w : World) (ptr : Ptr) : w.Grows (w.rawSystemFree ptr) new := by
  unfold rawSystemFree
  dsimp only
  split
  · exact .of_heap rfl
  · exact fun b n hb => Or.inr (update_none_eq_some hb).2

theorem grows_rawSystemRealloc (w : World) (o : Oracle) (ptr : Ptr) (newSize : Word) :
    w.Grows (w.rawSystemRealloc o ptr newSize).1 [o.malloc] := by
  unfold rawSystemRealloc
  dsimp only
  split
  · exact grows_rawSystemAlloc w o newSize
  split
  · exact grows_rawSystemFree w ptr
  split
  · exact .of_heap rfl
  · intro b n hb
    by_cases hne : b = o.malloc
    · exact Or.inl (List.mem_singleton.mpr hne)
    · have hold := (update_of_ne hne _ _).symm.trans hb
      exact Or.inr (update_none_eq_some hold).2

theorem grows_releaseUntracked (w : World) (ptr : Ptr) :
    w.Grows (w.releaseUntracked ptr) new := by
  have hpoison : ∀ (mem : Memory) (a : Action), w.Grows (World.emit { w with mem := mem } a) new :=
    fun _ _ => .of_heap rfl
  unfold releaseUntracked
  dsimp only
  split
  · split
    · exact .of_heap rfl
    · split
      · exact (hpoison _ _).trans (grows_rawSystemFree _ _)
      · exact grows_rawSystemFree _ _
  · exact grows_rawSystemFree _ _

theorem heap_checkLimit (w : World) : w.checkLimit.heap = w.heap := by
  unfold checkLimit
  split
  · rfl
  · rfl

theorem heap_checkOldBlock (w : World) (ptr : Ptr) (r : AllocationRecord) :
    (w.checkOldBlock ptr r).heap = w.heap := by
  unfold checkOldBlock
  dsimp only
  split
  · split
    · rfl
    · rfl
  · rfl

theorem World.Grows.of_update {base : Ptr} {x : Option Nat}
    (h : w'.heap = update w.heap base x) : w.Grows w' [base] := by
  intro b n hb
  by_cases hne : b = base
  · exact Or.inl (List.mem_singleton.mpr hne)
  · rw [h, update_of_ne hne] at hb
    exact Or.inr hb

theorem grows_allocateTracked (w : World) (o : Oracle) (tid : ThreadId)
    (allocId size alignment tag : Word) :
    w.Grows (w.allocateTracked o tid allocId size alignment tag).1 [o.malloc] := by
  by_cases h0 : calculateTotalSize size (effectiveAlignment alignment) w.config.footerSize = 0
  · rw [allocateTracked_of_zero h0]
    exact .of_heap rfl
  by_cases hraw : o.malloc = 0
  · rw [allocateTracked_of_null h0 hraw]
    exact .of_heap rfl
  by_cases hfit : SizesFit size (effectiveAlignment alignment) w.config.footerSize
  · rw [allocateTracked_of_fit h0 hraw hfit]
    exact .of_update (heap_checkLimit _)
  · rw [allocateTracked_of_not_fit h0 hraw hfit]
    exact .of_update rfl

theorem grows_allocate (w : World) (o : Oracle) (tid : ThreadId) (size alignment tag : Word) :
    w.Grows (w.allocate o tid size alignment tag).1 [o.malloc] := by
  by_cases htracks : w.Tracks o tid size
  · rw [allocate_of_tracks htracks]
    exact World.Grows.trans (.of_heap rfl) (grows_allocateTracked _ o tid _ size alignment tag)
  · obtain ⟨w₁, _, hblocks, _, _, heq⟩ :=
      @allocate_of_not_tracks w o tid size alignment tag htracks
    rw [heq]
    exact World.Grows.trans (.of_heap hblocks.heap) (grows_rawSystemAlloc w₁ o size)

theorem grows_releaseTracked (w : World) (ptr : Ptr) (r : AllocationRecord) :
    w.Grows (w.releaseTracked ptr r) new := by
  unfold releaseTracked
  dsimp only
  generalize verifyCanary w.mem r.rawPtr w.config.footerSize = verdict
  by_cases hverdict : verdict.1 = .none
  · rw [if_pos hverdict, if_neg (not_not_intro hverdict)]
    exact World.Grows.trans (.of_heap rfl) (grows_rawSystemFree _ _)
  · rw [if_neg hverdict, if_pos hverdict]
    exact .of_heap rfl

theorem grows_deallocate (w : World) (tid : ThreadId) (ptr : Ptr) :
    w.Grows (w.deallocate tid ptr) new := by
  have herase : w.Grows (w.trackerErase ptr) new := .of_heap rfl
  unfold deallocate
  dsimp only
  split
  · exact .of_heap rfl
  split
  · split
    · split
      · exact .of_heap rfl
      · exact grows_rawSystemFree w _
    · exact grows_rawSystemFree w _
  split
  · exact herase.trans (grows_releaseTracked _ _ _)
  · exact herase
  · exact herase.trans (grows_releaseUntracked _ _)

theorem grows_reallocate (w : World) (o : Oracle) (tid : ThreadId) (ptr : Ptr) (newSize : Word) :
    w.Grows (w.reallocate o tid ptr newSize).1 [o.malloc] := by
  have hfind : w.Grows { w with calls := .find ptr :: w.calls } [o.malloc] := .of_heap rfl
  unfold reallocate
  dsimp only
  split
  · exact grows_allocate w o tid newSize _ 0
  split
  · exact grows_deallocate w tid ptr
  split
  · exact grows_rawSystemRealloc w o ptr newSize
  split
  · exact hfind.trans (grows_rawSystemRealloc _ o ptr newSize)
  · rename_i r _
    have hchecked : w.Grows (World.checkOldBlock { w with calls := .find ptr :: w.calls } ptr r)
        [o.malloc] := .of_heap (heap_checkOldBlock _ ptr r)
    have hnew := hchecked.trans (grows_allocate _ o tid newSize r.alignment r.tag)
    split
    · exact hnew
    · refine hnew.trans (World.Grows.trans (.of_heap ?_) (grows_deallocate _ tid ptr))
      rfl

theorem heap_lease (w : World) (p : Ptr) (l : Lease) : (w.lease p l).heap = w.heap := by
  unfold lease
  split
  · rfl
  · rfl

theorem heap_moveLease (w : World) (ptr newPtr : Ptr) (newSize : Word) (l : Lease) :
    (w.moveLease ptr newPtr newSize l).heap = w.heap := by
  unfold moveLease
  split
  · exact heap_lease _ _ _
  · split
    · rfl
    · rfl

end Grows

/-! ## Calls -/

/-- What the system answers with. -/
def Call.bases : Call → List Ptr
  | .trackAlloc _ o .. => [o.malloc]
  | .trackRealloc _ o .. => [o.malloc]
  | _ => []

theorem grows_step (w : World) (c : Call) : w.Grows (w.step c) c.bases := by
  have hclear : ∀ new, w.Grows w.clearLog new := fun _ => .of_heap rfl
  cases c with
  | trackAlloc tid o size alignment tag =>
    have hcalled : w.clearLog.Grows (w.clearLog.trackAlloc o tid size alignment tag).1
        [o.malloc] := by
      unfold trackAlloc
      split
      · exact grows_rawSystemAlloc _ o size
      · exact grows_allocate _ o tid size alignment tag
    exact ((hclear _).trans hcalled).trans (.of_heap (heap_lease _ _ _))
  | trackFree tid ptr =>
    have hunleased : w.Grows (w.clearLog.unlease ptr) [] := .of_heap rfl
    have hcalled : (w.clearLog.unlease ptr).Grows ((w.clearLog.unlease ptr).trackFree tid ptr)
        [] := by
      unfold trackFree
      split
      · exact .of_heap rfl
      split
      · exact grows_rawSystemFree _ ptr
      · exact grows_deallocate _ tid ptr
    exact hunleased.trans hcalled
  | trackRealloc tid o ptr newSize =>
    have hcalled : w.clearLog.Grows (w.clearLog.trackRealloc o tid ptr newSize).1 [o.malloc] := by
      unfold trackRealloc
      split
      · exact grows_rawSystemRealloc _ o ptr newSize
      · exact grows_reallocate _ o tid ptr newSize
    exact ((hclear _).trans hcalled).trans (.of_heap (heap_moveLease _ _ _ _ _))
  | _ => exact .of_heap rfl

/-- `Permitted`, for a call that writes nothing itself. -/
def Call.check (w : World) (bases : List Ptr) (c : Call) : Bool :=
  !w.fault && (w.step c).log.all (Action.check w.heap bases) &&
    match c with
    | .exitGuard tid => w.guardActive tid
    | .trackFree _ ptr => ptr == 0 || (w.leases ptr).isSome
    | .trackRealloc _ _ ptr _ => ptr == 0 || (w.leases ptr).isSome
    | .store _ => false
    | _ => true

theorem permitted_of_check {mayWrite : World → Memory → Prop} {w : World} {bases : List Ptr}
    {c : Call} (hlive : LiveAmong w.heap bases) (h : c.check w bases = true) :
    Permitted mayWrite w c := by
  have hheld : ∀ ptr, (ptr == 0 || (w.leases ptr).isSome) = true → Held w ptr := by
    intro ptr hptr
    rcases (Bool.or_eq_true _ _).mp hptr with h0 | hsome
    · exact Or.inl (eq_of_beq h0)
    · exact Or.inr (Option.isSome_iff_exists.mp hsome)
  obtain ⟨hlog, hcall⟩ := (Bool.and_eq_true _ _).mp h
  obtain ⟨hfault, hlog⟩ := (Bool.and_eq_true _ _).mp hlog
  refine ⟨Bool.not_eq_true' _ ▸ hfault, ?_, fun a ha =>
    Action.fresh_of_check hlive (List.all_eq_true.mp hlog a ha)⟩
  cases c with
  | exitGuard tid => exact hcall
  | trackFree tid ptr => exact hheld ptr hcall
  | trackRealloc tid o ptr newSize => exact hheld ptr hcall
  | store mem => cases hcall
  | _ => trivial

/-- Every call of the list is permitted and meets the condition when it comes. -/
def checks (cond : World → Call → Prop) [∀ w c, Decidable (cond w c)] (w : World)
    (bases : List Ptr) (cs : List Call) : Bool :=
  passes World.step (fun w bases c => c.check w bases && decide (cond w c))
    (fun bases c => c.bases ++ bases) w bases cs

theorem run_of_checks {mayWrite : World → Memory → Prop} {cond : World → Call → Prop}
    [∀ w c, Decidable (cond w c)] {cs : List Call} {w : World} {bases : List Ptr}
    (hlive : LiveAmong w.heap bases) (h : checks cond w bases cs = true) :
    Run (managerSystem mayWrite cond) w cs (cs.foldl World.step w) := by
  refine .of_passes (I := fun w bases => LiveAmong w.heap bases) (fun w bases c hlive hpass => ?_)
    (fun w bases c hlive => (grows_step w c).liveAmong hlive) hlive h
  obtain ⟨hcheck, hcond⟩ := (Bool.and_eq_true _ _).mp hpass
  exact ⟨permitted_of_check hlive hcheck, of_decide_eq_true hcond⟩

/-- The world that the calls lead to from the start. -/
def World.after (mem : Memory) (cs : List Call) : World := cs.foldl World.step (World.start mem)

theorem run_from_start (mayWrite : World → Memory → Prop) (cond : World → Call → Prop)
    [∀ w c, Decidable (cond w c)] {mem : Memory} {cs : List Call}
    (h : checks cond (World.start mem) [] cs = true) :
    Run (managerSystem mayWrite cond) (World.start mem) cs (World.after mem cs) :=
  run_of_checks (fun _ _ hb => by cases hb) h

end MemSentry
