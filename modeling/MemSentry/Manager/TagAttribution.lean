import MemSentry.Core.BlockContainment
import MemSentry.Manager.ThreadVariables

/-!
# Whose tag an allocation carries

A `ScopedTag` keeps what `get_current_tag` returned when its scope was opened, and puts it
back when the scope is closed. `ScopedThread` is the state of the manager together with the
scopes that one thread has open. Whatever other calls come in between, by this thread or by
others, the thread's tag is that of its innermost open scope (`Nested`).

`get_current_tag` never returns null: with no scope open it returns the literal "General".
So the last resort in `allocate`, the default tag of the configuration, is never reached,
and the attribution is as intended only where that default is the same literal
(`attribution_iff`).
-/

namespace MemSentry

open ByteMemory MemSentry.Core World Function Transition

/-- `BlockHeader::tag`. -/
def tagOf (m : Memory) (header : Ptr) : Ptr := loadWord m (header + 48)

/-- A live `ScopedTag`: its tag and `prev_`. -/
structure Scope where
  tag : Ptr
  prev : Ptr
  deriving DecidableEq, Repr

structure ScopedThread where
  world : World
  /-- The scopes that the thread has open, innermost first. -/
  scopes : List Scope

inductive ScopeEvent
  | opening (tag : Ptr)
  | closing
  /-- Any other call, by any thread. -/
  | other (c : Call)

namespace ScopedThread

variable (tid : ThreadId) (s : ScopedThread)

def step : ScopeEvent → ScopedThread
  | .opening tag =>
    ⟨s.world.step (.setCurrentTag tid tag), ⟨tag, s.world.currentScopeTag tid⟩ :: s.scopes⟩
  | .closing =>
    match s.scopes with
    | [] => s
    | scope :: outer => ⟨s.world.step (.setCurrentTag tid scope.prev), outer⟩
  | .other c => ⟨s.world.step c, s.scopes⟩

/-- Tags of scopes are not null, and only scopes set the tag of the thread. -/
def Legal : ScopeEvent → Prop
  | .opening tag => tag ≠ 0
  | .closing => s.scopes ≠ []
  | .other c => ∀ tag, c ≠ .setCurrentTag tid tag

def scoping : System ScopedThread ScopeEvent where
  step := step tid
  guard := Legal tid

end ScopedThread

/-- The explicit tag, else that of the innermost open scope, else the configured default. -/
def intendedTag (s : ScopedThread) (tag : Ptr) : Ptr :=
  if tag ≠ 0 then tag
  else match s.scopes with
    | scope :: _ => scope.tag
    | [] => s.world.config.defaultTag

/-- Record and header of a new block carry the tag. -/
structure Carries (w : World) (o : Oracle) (p tag : Ptr) : Prop where
  record : ∃ r, w.tracker.find p = some r ∧ r.tag = tag
  header : tagOf w.mem o.malloc = tag

/-! ## The scopes of a thread -/

/-- The tag that `get_current_tag` should return. -/
def innermostTag : List Scope → Ptr
  | [] => generalTag
  | scope :: _ => scope.tag

/-- Every scope will put back the tag of the scope around it. -/
def Restoring : List Scope → Prop
  | [] => True
  | scope :: outer => scope.tag ≠ 0 ∧ scope.prev = innermostTag outer ∧ Restoring outer

theorem Restoring.innermost_ne_zero {scopes : List Scope} (h : Restoring scopes) :
    innermostTag scopes ≠ 0 := by
  cases scopes with
  | nil => decide
  | cons scope outer => exact h.1

namespace ScopedThread

variable {tid : ThreadId} {s t : ScopedThread} {e : ScopeEvent}

structure Nested (tid : ThreadId) (s : ScopedThread) : Prop where
  current : s.world.currentScopeTag tid = innermostTag s.scopes
  restoring : Restoring s.scopes

theorem currentScopeTag_setCurrentTag {w : World} {tag : Ptr} (htag : tag ≠ 0) :
    (w.step (.setCurrentTag tid tag)).currentScopeTag tid = tag := by
  have hactive : ((w.step (.setCurrentTag tid tag)).locals tid).activeScopeTag = tag := by
    change (update w.locals tid _ tid).activeScopeTag = tag
    rw [update_self]
  unfold currentScopeTag
  rw [hactive, if_pos htag]

theorem currentScopeTag_step {w : World} {c : Call} (hc : ∀ tag, c ≠ .setCurrentTag tid tag) :
    (w.step c).currentScopeTag tid = w.currentScopeTag tid := by
  unfold currentScopeTag
  rw [step_scopeTag c hc]

theorem nested_step (h : Nested tid s) (hlegal : s.Legal tid e) : Nested tid (s.step tid e) := by
  cases e with
  | opening tag => exact ⟨currentScopeTag_setCurrentTag hlegal, hlegal, h.current, h.restoring⟩
  | closing =>
    obtain ⟨world, scopes⟩ := s
    cases scopes with
    | nil => exact absurd rfl hlegal
    | cons scope outer =>
      obtain ⟨_, hprev, houter⟩ := h.restoring
      refine ⟨?_, houter⟩
      change (world.step (.setCurrentTag tid scope.prev)).currentScopeTag tid = innermostTag outer
      rw [hprev]
      exact currentScopeTag_setCurrentTag houter.innermost_ne_zero
  | other c => exact ⟨(currentScopeTag_step hlegal).trans h.current, h.restoring⟩

/-- Before a thread opens its first scope it has no tag. -/
theorem nested_start {w : World} (h : (w.locals tid).activeScopeTag = 0) : Nested tid ⟨w, []⟩ := by
  refine ⟨?_, trivial⟩
  unfold currentScopeTag
  rw [if_neg (not_not_intro h)]
  rfl

theorem nested_of_run {es : List ScopeEvent} (h : Nested tid s) (hrun : Run (scoping tid) s es t) :
    Nested tid t :=
  hrun.invariant (I := Nested tid) (fun _ _ hs hlegal => nested_step hs hlegal) h

/-- What `allocate` settles on. -/
theorem Nested.finalTag_eq (h : Nested tid s) (tag : Ptr) :
    s.world.finalTag tid tag = if tag ≠ 0 then tag else innermostTag s.scopes := by
  have hne := h.restoring.innermost_ne_zero
  rw [← h.current] at hne ⊢
  unfold finalTag
  rw [if_pos hne]

theorem Nested.finalTag_ne_zero (h : Nested tid s) (tag : Ptr) : s.world.finalTag tid tag ≠ 0 := by
  rw [h.finalTag_eq]
  split
  · assumption
  · exact h.restoring.innermost_ne_zero

theorem Nested.finalTag_intended_iff (h : Nested tid s) (tag : Ptr) :
    s.world.finalTag tid tag = intendedTag s tag ↔
      tag ≠ 0 ∨ s.scopes ≠ [] ∨ s.world.config.defaultTag = generalTag := by
  rw [h.finalTag_eq]
  unfold intendedTag
  by_cases htag : tag = 0
  · rw [if_neg (not_not_intro htag), if_neg (not_not_intro htag)]
    cases hscopes : s.scopes with
    | nil => simp [innermostTag, htag, eq_comm]
    | cons scope outer => simp [innermostTag]
  · rw [if_pos htag, if_pos htag]
    exact iff_of_true rfl (Or.inl htag)

end ScopedThread

/-! ## Record and header -/

section Blocks

variable {m : Memory} {raw requested alignment footer allocId : Word} {tag : Ptr} {canary : Bool}
  {tid : ThreadId} {total : Nat}

theorem encode_tag (h : BlockHeader) : (h.encode.drop 48).take 8 = leBytes 8 h.tag.toNat := by
  unfold BlockHeader.encode
  simp [List.drop_append, List.drop_eq_nil_of_le]

theorem initBlock_tag (htag : tag ≠ 0)
    (h : Placed raw (userAddress raw alignment) requested.toNat footer.toNat total) :
    tagOf (initBlock m raw requested alignment footer allocId tag canary tid).2.1 raw = tag := by
  have hword := @initBlock_word m raw requested alignment footer allocId tag canary tid total 48 _ h
    (by decide) (encode_tag _)
  rw [show (initHeader raw requested alignment footer allocId tag canary tid).tag = tag from
    if_pos htag] at hword
  exact hword

variable {w : World} {o : Oracle} {size a : Word}

/-- Record and header get the tag that `allocate` has settled on. -/
theorem carries_iff {expected : Ptr} (hfinal : w.finalTag tid tag ≠ 0)
    (htracks : w.Tracks o tid size) (hsuccess : (w.trackAlloc o tid size a tag).2 ≠ 0)
    (hfresh : Fresh w.heap o.malloc
      (calculateTotalSize size (effectiveAlignment a) w.config.footerSize)) :
    Carries (w.trackAlloc o tid size a tag).1 o (w.trackAlloc o tid size a tag).2 expected ↔
      w.finalTag tid tag = expected := by
  have hspace := hfresh.1
  unfold extent at hspace
  rw [trackAlloc_eq] at hsuccess ⊢
  have hi := installed_of_ne htracks hsuccess
  have hplaced := placed_userAddress hi.raw_ne_zero hi.fit (by omega)
  have hheader := @initBlock_tag w.mem o.malloc size (effectiveAlignment a) w.config.footerSize
    w.allocCounter (w.finalTag tid tag) w.config.enableCanary tid _ hfinal hplaced
  have hfound := @ShardedTracker.find_insert_self w.tracker _
    (w.recordOf o tid w.allocCounter size a tag (w.allocate o tid size a tag).2) hsuccess
  rw [← hi.mem] at hheader
  rw [← hi.tracker] at hfound
  constructor
  · intro h
    exact hheader.symm.trans h.header
  · rintro rfl
    exact ⟨⟨_, hfound, rfl⟩, hheader⟩

end Blocks

/-- **Whose tag an allocation carries**: after any nesting of scopes, opened and closed
among other calls, a tracked allocation carries the tag it should exactly when it comes with
a tag, or a scope is open, or the configured default is the literal "General". -/
theorem attribution_iff {w : World} {es : List ScopeEvent} {s : ScopedThread} {tid : ThreadId}
    {o : Oracle} {size a tag : Word} (hfirst : (w.locals tid).activeScopeTag = 0)
    (hrun : Run (ScopedThread.scoping tid) ⟨w, []⟩ es s)
    (htracks : s.world.Tracks o tid size) (hsuccess : (s.world.trackAlloc o tid size a tag).2 ≠ 0)
    (hfresh : Fresh s.world.heap o.malloc
      (calculateTotalSize size (effectiveAlignment a) s.world.config.footerSize)) :
    Carries (s.world.trackAlloc o tid size a tag).1 o (s.world.trackAlloc o tid size a tag).2
        (intendedTag s tag) ↔
      tag ≠ 0 ∨ s.scopes ≠ [] ∨ s.world.config.defaultTag = generalTag := by
  have hnested := ScopedThread.nested_of_run (ScopedThread.nested_start hfirst) hrun
  rw [carries_iff (hnested.finalTag_ne_zero tag) htracks hsuccess hfresh]
  exact hnested.finalTag_intended_iff tag

/-! ## A configured default -/

/-- A manager whose default tag is a literal of its own. -/
def ownDefault : World := (World.start fun _ => 0).init { defaultTag := 0x403000 }

/-- A scope opened and closed again. -/
def scopeAndBack : ScopedThread :=
  (ScopedThread.step 1 ⟨ownDefault, []⟩ (.opening 0x404000)).step 1 .closing

theorem scopeAndBack_run :
    Run (ScopedThread.scoping 1) ⟨ownDefault, []⟩ [.opening 0x404000, .closing] scopeAndBack :=
  .cons (show (0x404000 : Ptr) ≠ 0 by decide)
    (.cons (show [(⟨0x404000, generalTag⟩ : Scope)] ≠ [] by decide) (.nil _))

/-- An allocation with a tag of its own, after that. -/
theorem attribution_explicit :
    Carries (scopeAndBack.world.trackAlloc { malloc := 0x10000 } 1 100 16 0x405000).1
        { malloc := 0x10000 }
        (scopeAndBack.world.trackAlloc { malloc := 0x10000 } 1 100 16 0x405000).2
        (intendedTag scopeAndBack 0x405000) :=
  (attribution_iff rfl scopeAndBack_run (by decide +kernel) (by decide +kernel)
    (fresh_empty (by decide))).mpr (Or.inl (by decide))

/-- An allocation without a tag and outside every scope carries "General", not the default of
the configuration. -/
theorem default_tag_masked :
    ownDefault.config.defaultTag = 0x403000 ∧ ownDefault.Tracks { malloc := 0x10000 } 1 100 ∧
      intendedTag ⟨ownDefault, []⟩ 0 = 0x403000 ∧
      tagOf (ownDefault.trackAlloc { malloc := 0x10000 } 1 100 16 0).1.mem 0x10000 = generalTag ∧
      ¬ Carries (ownDefault.trackAlloc { malloc := 0x10000 } 1 100 16 0).1 { malloc := 0x10000 }
        (ownDefault.trackAlloc { malloc := 0x10000 } 1 100 16 0).2
        (intendedTag ⟨ownDefault, []⟩ 0) := by
  have hheader : tagOf (ownDefault.trackAlloc { malloc := 0x10000 } 1 100 16 0).1.mem 0x10000 =
      generalTag := by
    decide +kernel
  refine ⟨rfl, by decide +kernel, rfl, hheader, fun h => ?_⟩
  have hcarried := h.header
  rw [hheader] at hcarried
  exact absurd hcarried (by decide)

end MemSentry
