import MemSentry.Concurrent.TrackerLocks
import MemSentry.Core.TrackerContents

/-!
# What a snapshot of the locked tracker says

A history is what the threads see: which calls began and which answers came back, in the
order of time. `snapshot_all_history` reads a snapshot off a history of the tracker with
its locks, with nothing said about the order in which the critical sections fell.

A pointer is settled in a history (`Settled`) when its last call began after all others on
it had been answered and is answered itself; that call then says what is stored. If no call
on a settled pointer begins while the snapshot runs, the result says the same.
-/

namespace MemSentry.Core

open CriticalSections Simulation Function ShardedTracker

variable {ι : Type} [DecidableEq ι]

/-! ## Histories -/

/-- The call may change what is stored for the pointer. -/
def TrackerRequest.Touches (p : Ptr) : TrackerRequest → Prop
  | .insert q _ | .erase q => q = p
  | .clear => True
  | _ => False

def TrackerSection.Touches (p : Ptr) : TrackerSection → Prop
  | .insert q _ _ | .erase q _ => q = p
  | .wipe _ => True
  | _ => False

/-- No call on the pointer is without an answer. -/
def Quiet (p : Ptr) (es : List (TrackerEvent ι)) : Prop :=
  ∀ i q, openCall es i = some q → ¬ q.Touches p

/-- No call on the pointer begins. -/
def Untouched (p : Ptr) (es : List (TrackerEvent ι)) : Prop :=
  ∀ i q, Event.call i q ∈ es → ¬ q.Touches p

/-- What the call leaves stored for its pointer. -/
def TrackerRequest.leaves (p : Ptr) : TrackerRequest → Option AllocationRecord → Prop
  | .insert q r, o => q = p ∧ o = some r
  | .erase q, o => q = p ∧ o = none
  | _, _ => False

/-- The last call on the pointer is answered, began when no other one was open, and leaves
this stored. -/
def Settled (p : Ptr) (o : Option AllocationRecord) (es : List (TrackerEvent ι)) : Prop :=
  p ≠ 0 ∧ ∃ before during after j q a,
    es = before ++ .call j q :: during ++ .answer j a :: after ∧ q.leaves p o ∧
      Quiet p before ∧ Untouched p during ∧ Untouched p after

/-- Every insertion is of a record under its own pointer, as in `Manager::allocate`. -/
def KeyedCalls (es : List (TrackerEvent ι)) : Prop :=
  ∀ i p r, Event.call i (.insert p r) ∈ es → r.userPtr = p

/-- The record was handed to the tracker. -/
def Inserted (p : Ptr) (r : AllocationRecord) (es : List (TrackerEvent ι)) : Prop :=
  ∃ i, Event.call i (.insert p r) ∈ es

/-! ## What a section leaves alone -/

section Sections

variable {t t' : ShardedTracker} {n n' : TrackerSection} {x : TrackerSection ⊕ TrackerAnswer}
  {p : Ptr}

theorem performs_find (h : n.Performs t t' x) (hn : ¬ n.Touches p) : t'.find p = t.find p := by
  cases h with
  | insert q hq r => exact find_insert_of_ne fun hpq => hn hpq.symm
  | erase q hq => exact (find_afterErase t q p).trans (if_neg fun hpq => hn hpq.symm)
  | find q hq => rfl
  | scan i result scanned hscan => rfl
  | count i total => rfl
  | wipe i => exact absurd trivial hn

/-- A loop that touches a pointer later touches it now. -/
theorem performs_touches (h : n.Performs t t' (.inl n')) (hn' : n'.Touches p) : n.Touches p := by
  generalize hx : (Sum.inl n' : TrackerSection ⊕ TrackerAnswer) = x at h
  cases h with
  | insert q hq r => cases hx
  | erase q hq => cases hx
  | find q hq => cases hx
  | scan i result scanned hscan =>
    unfold afterScan nextShard at hx
    split at hx
    · cases hx
      exact hn'.elim
    · cases hx
  | count i total =>
    unfold afterCount nextShard at hx
    split at hx
    · cases hx
      exact hn'.elim
    · cases hx
  | wipe i => trivial

end Sections

/-! ## The invariant of a history -/

/-- What a scan has gathered from the shards below `k`. -/
structure Gathered (es : List (TrackerEvent ι)) (k : Nat) (result : List AllocationRecord) :
    Prop where
  nodup : (result.map AllocationRecord.userPtr).Nodup
  below : ∀ r ∈ result, (getShardIndex r.userPtr).val < k
  inserted : ∀ r ∈ result, Inserted r.userPtr r es

/-- What the history says about a thread at this point. -/
structure PointTraced (es : List (TrackerEvent ι)) (i : ι)
    (x : Option (TrackerSection ⊕ TrackerAnswer)) : Prop where
  inserting : ∀ p hp r, x = some (.inl (.insert p hp r)) → Inserted p r es
  /-- A section belongs to an open call. -/
  touching : ∀ n p, x = some (.inl n) → n.Touches p → ∃ q, openCall es i = some q ∧ q.Touches p
  scanning : ∀ k result, x = some (.inl (.scan k result)) → Gathered es k.val result
  scanned : ∀ result, x = some (.inr (.records result)) → Gathered es shardCount result

structure Traced (es : List (TrackerEvent ι)) (s : TrackerSystem ι) : Prop where
  wellPlaced : s.tracker.WellPlaced
  stored : ∀ p r, s.tracker.find p = some r → Inserted p r es
  points : ∀ i, PointTraced es i (s.pool i)

omit [DecidableEq ι] in
theorem Inserted.append {p : Ptr} {r : AllocationRecord} {es : List (TrackerEvent ι)}
    (h : Inserted p r es) (fs : List (TrackerEvent ι)) : Inserted p r (es ++ fs) := by
  obtain ⟨i, hi⟩ := h
  exact ⟨i, List.mem_append_left _ hi⟩

omit [DecidableEq ι] in
theorem Gathered.append {es : List (TrackerEvent ι)} {k : Nat} {result : List AllocationRecord}
    (h : Gathered es k result) (fs : List (TrackerEvent ι)) : Gathered (es ++ fs) k result :=
  ⟨h.nodup, h.below, fun r hr => (h.inserted r hr).append fs⟩

theorem pointTraced_idle (es : List (TrackerEvent ι)) (i : ι) : PointTraced es i none where
  inserting := fun _ _ _ h => by cases h
  touching := fun _ _ h => by cases h
  scanning := fun _ _ h => by cases h
  scanned := fun _ h => by cases h

theorem traced_start : Traced (ι := ι) [] TrackerSystem.start where
  wellPlaced := wellPlaced_empty
  stored := fun p r h => by
    have hfind : ShardedTracker.empty.find p = some r := h
    rw [find_empty] at hfind
    cases hfind
  points := pointTraced_idle []

section Invariant

variable {es : List (TrackerEvent ι)} {s : TrackerSystem ι} {i : ι}

/-- A record is stored under its own pointer. -/
theorem Traced.keyed (h : Traced es s) (hkeyed : KeyedCalls es) : s.tracker.Keyed := by
  intro p r hfind
  obtain ⟨i, hi⟩ := h.stored p r hfind
  exact hkeyed i p r hi

/-- One more shard is scanned. -/
theorem Traced.gathered (h : Traced es s) (hkeyed : KeyedCalls es) {k : Fin shardCount}
    {result scanned : List AllocationRecord} (hgathered : Gathered es k.val result)
    (hscan : (s.tracker.shards k).ScansTo scanned) :
    Gathered es (k.val + 1) (result ++ scanned) := by
  have hmem : ∀ r ∈ scanned, s.tracker.find r.userPtr = some r ∧ getShardIndex r.userPtr = k := by
    intro r hr
    rw [← mem_shard_values h.wellPlaced (h.keyed hkeyed), ← hscan]
    exact hr
  refine ⟨?_, ?_, ?_⟩
  · have hkeys : ((scanned.map AllocationRecord.userPtr : List Ptr) : Multiset Ptr) =
        (s.tracker.shards k).records.keys.val := by
      rw [← Multiset.map_coe, hscan, map_userPtr_values h.wellPlaced (h.keyed hkeyed)]
    have hnodup : (scanned.map AllocationRecord.userPtr).Nodup := by
      rw [← Multiset.coe_nodup, hkeys]
      exact (s.tracker.shards k).records.keys.nodup
    rw [List.map_append]
    refine hgathered.nodup.append hnodup ?_
    -- what was gathered before is of lower shards
    intro p hold hnew
    obtain ⟨r, hr, rfl⟩ := List.mem_map.mp hold
    obtain ⟨r', hr', hptr⟩ := List.mem_map.mp hnew
    have hlow := hgathered.below r hr
    have hindex := (hmem r' hr').2
    rw [hptr] at hindex
    rw [hindex] at hlow
    exact Nat.lt_irrefl _ hlow
  · intro r hr
    rcases List.mem_append.mp hr with hold | hnew
    · exact Nat.lt_succ_of_lt (hgathered.below r hold)
    · rw [(hmem r hnew).2]
      exact Nat.lt_succ_self _
  · intro r hr
    rcases List.mem_append.mp hr with hold | hnew
    · exact hgathered.inserted r hold
    · exact h.stored _ r (hmem r hnew).1

theorem performs_wellPlaced {t t' : ShardedTracker} {n : TrackerSection}
    {x : TrackerSection ⊕ TrackerAnswer} (h : n.Performs t t' x) (hw : t.WellPlaced) :
    t'.WellPlaced := by
  cases h with
  | insert p hp r => exact hw.insert p r
  | erase p hp => exact hw.afterErase p
  | find p hp => exact hw
  | scan i result scanned hscan => exact hw
  | count i total => exact hw
  | wipe i =>
    intro k q hq
    by_cases hk : k = i
    · rw [hk] at hq
      simp only [update_self] at hq
      exact absurd hq Finmap.notMem_empty
    · simp only [update_of_ne hk] at hq
      exact hw k q hq

/-- Nothing is stored that was not there before, except by an insertion. -/
theorem performs_stored {t t' : ShardedTracker} {n : TrackerSection}
    {x : TrackerSection ⊕ TrackerAnswer} (h : n.Performs t t' x) {p : Ptr} {r : AllocationRecord}
    (hfind : t'.find p = some r) : t.find p = some r ∨ ∃ hp, n = .insert p hp r := by
  cases h with
  | insert q hq r' =>
    by_cases hpq : p = q
    · subst p
      rw [find_insert_self hq] at hfind
      cases hfind
      exact Or.inr ⟨hq, rfl⟩
    · rw [find_insert_of_ne hpq] at hfind
      exact Or.inl hfind
  | erase q hq =>
    rw [find_afterErase] at hfind
    split at hfind
    · cases hfind
    · exact Or.inl hfind
  | find q hq => exact Or.inl hfind
  | scan i result scanned hscan => exact Or.inl hfind
  | count i total => exact Or.inl hfind
  | wipe i =>
    have hp := ne_zero_of_find hfind
    rw [find_eq_lookup hp, shardOf] at hfind
    by_cases hi : getShardIndex p = i
    · rw [hi] at hfind
      simp only [update_self] at hfind
      exact absurd (Finmap.mem_of_lookup_eq_some hfind) Finmap.notMem_empty
    · simp only [update_of_ne hi] at hfind
      exact Or.inl ((find_eq_lookup hp).trans hfind)

/-- A scan that goes on has gathered one more shard. -/
theorem performs_scan {t t' : ShardedTracker} {n : TrackerSection} {k : Fin shardCount}
    {result : List AllocationRecord} (h : n.Performs t t' (.inl (.scan k result))) :
    ∃ i before scanned, n = .scan i before ∧ k.val = i.val + 1 ∧ result = before ++ scanned ∧
      (t.shards i).ScansTo scanned := by
  generalize hx : (Sum.inl (.scan k result) : TrackerSection ⊕ TrackerAnswer) = x at h
  cases h with
  | insert p hp r => cases hx
  | erase p hp => cases hx
  | find p hp => cases hx
  | scan i before scanned hscan =>
    unfold afterScan nextShard at hx
    split at hx
    · cases hx
      exact ⟨i, before, scanned, rfl, rfl, rfl, hscan⟩
    · cases hx
  | count i total =>
    unfold afterCount nextShard at hx
    split at hx <;> cases hx
  | wipe i =>
    unfold afterWipe nextShard at hx
    split at hx <;> cases hx

/-- A scan that is through has gathered the last shard. -/
theorem performs_records {t t' : ShardedTracker} {n : TrackerSection}
    {result : List AllocationRecord} (h : n.Performs t t' (.inr (.records result))) :
    ∃ i before scanned, n = .scan i before ∧ i.val + 1 = shardCount ∧
      result = before ++ scanned ∧ (t.shards i).ScansTo scanned := by
  generalize hx : (Sum.inr (.records result) : TrackerSection ⊕ TrackerAnswer) = x at h
  cases h with
  | insert p hp r => cases hx
  | erase p hp => cases hx
  | find p hp => cases hx
  | scan i before scanned hscan =>
    unfold afterScan nextShard at hx
    split at hx
    · cases hx
    · rename_i hlast
      cases hx
      have hi := i.isLt
      exact ⟨i, before, scanned, rfl, by omega, rfl, hscan⟩
  | count i total =>
    unfold afterCount nextShard at hx
    split at hx <;> cases hx
  | wipe i =>
    unfold afterWipe nextShard at hx
    split at hx <;> cases hx

/-- A call begins with a section of its own kind, if it needs one. -/
theorem start_cases (q : TrackerRequest) :
    (∃ p hp r, q = .insert p r ∧ q.start = .inl (.insert p hp r)) ∨
    (∃ p hp, q = .erase p ∧ q.start = .inl (.erase p hp)) ∨
    (∃ p hp, q.start = .inl (.find p hp)) ∨ q.start = .inl (.scan firstShard []) ∨
    q.start = .inl (.count firstShard 0) ∨ (q = .clear ∧ q.start = .inl (.wipe firstShard)) ∨
    ∃ a, q.start = .inr a ∧ ∀ result, a ≠ .records result := by
  cases q with
  | insert p r =>
    by_cases hp : p = 0
    · refine Or.inr (Or.inr (Or.inr (Or.inr (Or.inr (Or.inr ⟨.done, dif_pos hp, ?_⟩)))))
      intro result h
      cases h
    · exact Or.inl ⟨p, hp, r, rfl, dif_neg hp⟩
  | erase p =>
    by_cases hp : p = 0
    · refine Or.inr (Or.inr (Or.inr (Or.inr (Or.inr (Or.inr ⟨_, dif_pos hp, ?_⟩)))))
      intro result h
      cases h
    · exact Or.inr (Or.inl ⟨p, hp, rfl, dif_neg hp⟩)
  | find p =>
    by_cases hp : p = 0
    · refine Or.inr (Or.inr (Or.inr (Or.inr (Or.inr (Or.inr ⟨_, dif_pos hp, ?_⟩)))))
      intro result h
      cases h
    · exact Or.inr (Or.inr (Or.inl ⟨p, hp, dif_neg hp⟩))
  | snapshotAll => exact Or.inr (Or.inr (Or.inr (Or.inl rfl)))
  | size => exact Or.inr (Or.inr (Or.inr (Or.inr (Or.inl rfl))))
  | clear => exact Or.inr (Or.inr (Or.inr (Or.inr (Or.inr (Or.inl ⟨rfl, rfl⟩)))))

/-- A section is never followed by one that inserts. -/
theorem performs_not_insert {t t' : ShardedTracker} {n : TrackerSection} {p : Ptr} {hp : p ≠ 0}
    {r : AllocationRecord} : ¬ n.Performs t t' (.inl (.insert p hp r)) := by
  intro h
  have hn := performs_touches (p := p) h rfl
  generalize hx : (Sum.inl (.insert p hp r) : TrackerSection ⊕ TrackerAnswer) = x at h
  cases h with
  | insert p hp r => cases hx
  | erase p hp => cases hx
  | wipe i =>
    unfold afterWipe nextShard at hx
    split at hx <;> cases hx
  | _ => exact hn

/-- An event of another thread changes nothing about this one. -/
theorem PointTraced.append {j : ι} {x : Option (TrackerSection ⊕ TrackerAnswer)}
    (h : PointTraced es j x) {e : TrackerEvent ι}
    (he : openAfter j (openCall es j) e = openCall es j) : PointTraced (es ++ [e]) j x where
  inserting := fun p hp r hx => (h.inserting p hp r hx).append _
  touching := by
    intro n p hx hn
    rw [openCall_append, he]
    exact h.touching n p hx hn
  scanning := fun k result hx => (h.scanning k result hx).append _
  scanned := fun result hx => (h.scanned result hx).append _

theorem points_update {es' : List (TrackerEvent ι)} {x : Option (TrackerSection ⊕ TrackerAnswer)}
    (hi : PointTraced es' i x) (hothers : ∀ j, j ≠ i → PointTraced es' j (s.pool j)) (j : ι) :
    PointTraced es' j (update s.pool i x j) := by
  by_cases hj : j = i
  · rw [hj, update_self]
    exact hi
  · rw [update_of_ne hj]
    exact hothers j hj

theorem pointTraced_start (es : List (TrackerEvent ι)) (i : ι) (q : TrackerRequest) :
    PointTraced (es ++ [.call i q]) i (some q.start) where
  inserting := by
    intro p hp r hx
    rcases start_cases q with ⟨p', hp', r', rfl, hq⟩ | ⟨_, _, _, hq⟩ | ⟨_, _, hq⟩ | hq | hq |
      ⟨_, hq⟩ | ⟨_, hq, _⟩ <;> rw [hq] at hx <;> cases hx
    exact ⟨i, List.mem_append_right _ List.mem_cons_self⟩
  touching := by
    intro n p hx hn
    rw [openCall_append]
    refine ⟨q, if_pos rfl, ?_⟩
    rcases start_cases q with ⟨p', hp', r', rfl, hq⟩ | ⟨p', hp', rfl, hq⟩ | ⟨_, _, hq⟩ | hq |
      hq | ⟨rfl, hq⟩ | ⟨_, hq, _⟩ <;> rw [hq] at hx <;> cases hx
    · exact hn
    · exact hn
    · exact hn.elim
    · exact hn.elim
    · exact hn.elim
    · trivial
  scanning := by
    intro k result hx
    rcases start_cases q with ⟨_, _, _, _, hq⟩ | ⟨_, _, _, hq⟩ | ⟨_, _, hq⟩ | hq | hq |
      ⟨_, hq⟩ | ⟨_, hq, _⟩ <;> rw [hq] at hx <;> cases hx
    exact ⟨List.nodup_nil, fun _ hr => absurd hr List.not_mem_nil,
      fun _ hr => absurd hr List.not_mem_nil⟩
  scanned := by
    intro result hx
    rcases start_cases q with ⟨_, _, _, _, hq⟩ | ⟨_, _, _, hq⟩ | ⟨_, _, hq⟩ | hq | hq |
      ⟨_, hq⟩ | ⟨_, hq, hother⟩ <;> rw [hq] at hx <;> cases hx
    exact absurd rfl (hother result)

theorem traced_perform (h : Traced es s) (hkeyed : KeyedCalls es) {n : TrackerSection}
    {t : ShardedTracker} {x : TrackerSection ⊕ TrackerAnswer} (hi : s.pool i = some (.inl n))
    (hperforms : n.Performs s.tracker t x) :
    Traced es { tracker := t, pool := update s.pool i (some x) } := by
  have hpoint := h.points i
  rw [hi] at hpoint
  refine ⟨performs_wellPlaced hperforms h.wellPlaced, ?_, ?_⟩
  · intro p r hfind
    rcases performs_stored hperforms hfind with hold | ⟨hp, rfl⟩
    · exact h.stored p r hold
    · exact hpoint.inserting p hp r rfl
  · refine points_update ⟨?_, ?_, ?_, ?_⟩ fun j _ => h.points j
    · intro p hp r hx
      cases hx
      exact absurd hperforms performs_not_insert
    · intro n' p hx hn'
      cases hx
      exact hpoint.touching n p rfl (performs_touches hperforms hn')
    · intro k result hx
      cases hx
      obtain ⟨i', before, scanned, rfl, hk, rfl, hscan⟩ := performs_scan hperforms
      rw [hk]
      exact h.gathered hkeyed (hpoint.scanning i' before rfl) hscan
    · intro result hx
      cases hx
      obtain ⟨i', before, scanned, rfl, hlast, rfl, hscan⟩ := performs_records hperforms
      rw [← hlast]
      exact h.gathered hkeyed (hpoint.scanning i' before rfl) hscan

theorem traced_step {l : Option (TrackerEvent ι)} {s' : TrackerSystem ι} (h : Traced es s)
    (hkeyed : KeyedCalls es) (hstep : TrackerSystem.Step s l s') : Traced (es ++ l.toList) s' := by
  cases hstep with
  | call i q hidle =>
    refine ⟨h.wellPlaced, fun p r hfind => (h.stored p r hfind).append _, ?_⟩
    exact points_update (pointTraced_start es i q) fun j hj =>
      (h.points j).append (if_neg fun hij => hj hij.symm)
  | perform i n t x hi hperforms =>
    rw [Option.toList_none, List.append_nil]
    exact traced_perform h hkeyed hi hperforms
  | answer i r hi =>
    refine ⟨h.wellPlaced, fun p r hfind => (h.stored p r hfind).append _, ?_⟩
    exact points_update (pointTraced_idle _ i) fun j hj =>
      (h.points j).append (if_neg fun hij => hj hij.symm)

end Invariant

omit [DecidableEq ι] in
theorem KeyedCalls.left {es fs : List (TrackerEvent ι)} (h : KeyedCalls (es ++ fs)) :
    KeyedCalls es :=
  fun i p r hi => h i p r (List.mem_append_left _ hi)

theorem traced_run {es : List (TrackerEvent ι)} {s : TrackerSystem ι}
    (h : Run TrackerSystem.Step TrackerSystem.start es s) (hkeyed : KeyedCalls es) :
    Traced es s :=
  h.invariant_labels (I := fun es s => KeyedCalls es → Traced es s)
    (fun _ _ _ _ hs hstep hk => traced_step (hs hk.left) hk.left hstep) (fun _ => traced_start)
    hkeyed

/-! ## A settled pointer -/

/-- This is stored for the pointer, and no section is about to change it. -/
def Kept (p : Ptr) (o : Option AllocationRecord) (s : TrackerSystem ι) : Prop :=
  s.tracker.find p = o ∧ ∀ j n, s.pool j = some (.inl n) → ¬ n.Touches p

section Settling

variable {p : Ptr} {o : Option AllocationRecord} {s s' : TrackerSystem ι}
  {l : Option (TrackerEvent ι)} {i : ι}

theorem start_touches {q : TrackerRequest} {n : TrackerSection} (h : q.start = .inl n)
    (hn : n.Touches p) : q.Touches p := by
  rcases start_cases q with ⟨p', hp', r', rfl, hq⟩ | ⟨p', hp', rfl, hq⟩ | ⟨_, _, hq⟩ | hq | hq |
    ⟨rfl, hq⟩ | ⟨_, hq, _⟩ <;> rw [hq] at h <;> cases h
  · exact hn
  · exact hn
  · exact hn.elim
  · exact hn.elim
  · exact hn.elim
  · trivial

/-- No section of a thread other than `j` touches the pointer. -/
def ClearOf (p : Ptr) (s : TrackerSystem ι) (j : ι) : Prop :=
  ∀ k, k ≠ j → ∀ n, s.pool k = some (.inl n) → ¬ n.Touches p

theorem clearOf_update {j : ι} {t : ShardedTracker}
    {x : Option (TrackerSection ⊕ TrackerAnswer)} (h : ClearOf p s j)
    (hx : i ≠ j → ∀ n, x = some (.inl n) → ¬ n.Touches p) :
    ClearOf p { tracker := t, pool := update s.pool i x } j := by
  intro k hk n hn
  by_cases hki : k = i
  · subst k
    simp only [update_self] at hn
    exact hx hk n hn
  · simp only [update_of_ne hki] at hn
    exact h k hk n hn

theorem kept_step (h : Kept p o s) (hstep : TrackerSystem.Step s l s')
    (huntouched : Untouched p l.toList) : Kept p o s' := by
  have hupdate : ∀ (i : ι) (x : Option (TrackerSection ⊕ TrackerAnswer)),
      (∀ n, x = some (.inl n) → ¬ n.Touches p) →
      ∀ j n, update s.pool i x j = some (.inl n) → ¬ n.Touches p := by
    intro i x hx j n hn
    by_cases hj : j = i
    · rw [hj, update_self] at hn
      exact hx n hn
    · rw [update_of_ne hj] at hn
      exact h.2 j n hn
  cases hstep with
  | call i q hidle =>
    refine ⟨h.1, hupdate i _ fun n hn htouches => ?_⟩
    exact huntouched i q List.mem_cons_self (start_touches (Option.some.inj hn) htouches)
  | perform i n t x hi hperforms =>
    have hn := h.2 i n hi
    refine ⟨(performs_find hperforms hn).trans h.1, hupdate i _ fun n' hn' htouches => ?_⟩
    rw [Option.some.inj hn'] at hperforms
    exact hn (performs_touches hperforms htouches)
  | answer i r hi =>
    refine ⟨h.1, hupdate i none fun n hn => ?_⟩
    cases hn

omit [DecidableEq ι] in
theorem Untouched.append_iff {es fs : List (TrackerEvent ι)} :
    Untouched p (es ++ fs) ↔ Untouched p es ∧ Untouched p fs := by
  refine ⟨fun h => ⟨fun i q hq => h i q (List.mem_append_left _ hq),
    fun i q hq => h i q (List.mem_append_right _ hq)⟩, fun h i q hq => ?_⟩
  rcases List.mem_append.mp hq with hq | hq
  · exact h.1 i q hq
  · exact h.2 i q hq

theorem kept_run {es : List (TrackerEvent ι)} (hrun : Run TrackerSystem.Step s es s')
    (h : Kept p o s) (huntouched : Untouched p es) : Kept p o s' := by
  induction hrun with
  | nil s => exact h
  | cons hstep _ ih =>
    obtain ⟨hfirst, hrest⟩ := Untouched.append_iff.mp huntouched
    exact ih (kept_step h hstep hfirst) hrest

/-- The call of `j` that settles the pointer has yet to take effect, or has. -/
def Settling (p : Ptr) (o : Option AllocationRecord) (j : ι) (s : TrackerSystem ι) : Prop :=
  (∃ n, s.pool j = some (.inl n) ∧ ClearOf p s j ∧
    ∀ t t' x, n.Performs t t' x → t'.find p = o ∧ ∃ a, x = .inr a) ∨ Kept p o s

theorem settling_step {j : ι} (h : Settling p o j s) (hstep : TrackerSystem.Step s l s')
    (huntouched : Untouched p l.toList) : Settling p o j s' := by
  rcases h with ⟨n, hj, hclear, heffect⟩ | hkept
  · cases hstep with
    | call i q hidle =>
      have hij : j ≠ i := by
        rintro rfl
        rw [hj] at hidle
        cases hidle
      refine Or.inl ⟨n, (update_of_ne hij _ _).trans hj, clearOf_update hclear fun _ n' hn' => ?_,
        heffect⟩
      exact fun htouches => huntouched i q List.mem_cons_self
        (start_touches (Option.some.inj hn') htouches)
    | perform i n' t x hi hperforms =>
      by_cases hij : i = j
      · subst i
        rw [hj] at hi
        cases hi
        obtain ⟨hfind, a, rfl⟩ := heffect _ _ _ hperforms
        refine Or.inr ⟨hfind, fun k m hm => ?_⟩
        by_cases hk : k = j
        · subst k
          simp only [update_self] at hm
          cases hm
        · simp only [update_of_ne hk] at hm
          exact hclear k hk m hm
      · refine Or.inl ⟨n, (update_of_ne (fun h => hij h.symm) _ _).trans hj,
          clearOf_update hclear fun _ m hm => ?_, heffect⟩
        rw [Option.some.inj hm] at hperforms
        exact fun htouches => hclear i hij n' hi (performs_touches hperforms htouches)
    | answer i r hi =>
      have hij : j ≠ i := by
        rintro rfl
        rw [hj] at hi
        cases hi
      refine Or.inl ⟨n, (update_of_ne hij _ _).trans hj, clearOf_update hclear fun _ m hm => ?_,
        heffect⟩
      cases hm
  · exact Or.inr (kept_step hkept hstep huntouched)

theorem settling_run {j : ι} {es : List (TrackerEvent ι)}
    (hrun : Run TrackerSystem.Step s es s') (h : Settling p o j s) (huntouched : Untouched p es) :
    Settling p o j s' := by
  induction hrun with
  | nil s => exact h
  | cons hstep _ ih =>
    obtain ⟨hfirst, hrest⟩ := Untouched.append_iff.mp huntouched
    exact ih (settling_step h hstep hfirst) hrest

/-- What the call leaves is what its only section does. -/
theorem leaves_start {q : TrackerRequest} (hp : p ≠ 0) (h : q.leaves p o) :
    ∃ n, q.start = .inl n ∧
      ∀ t t' x, n.Performs t t' x → t'.find p = o ∧ ∃ a, x = .inr a := by
  cases q with
  | insert q r =>
    obtain ⟨rfl, rfl⟩ := h
    refine ⟨.insert q hp r, dif_neg hp, fun t t' x hperforms => ?_⟩
    cases hperforms
    exact ⟨find_insert_self hp, _, rfl⟩
  | erase q =>
    obtain ⟨rfl, rfl⟩ := h
    refine ⟨.erase q hp, dif_neg hp, fun t t' x hperforms => ?_⟩
    cases hperforms
    exact ⟨(find_afterErase t q q).trans (if_pos rfl), _, rfl⟩
  | _ => exact h.elim

/-- Between two calls on a settled pointer, this is stored for it. -/
theorem kept_of_settled {es : List (TrackerEvent ι)} (hkeyed : KeyedCalls es)
    (h : Settled p o es) (hrun : Run TrackerSystem.Step TrackerSystem.start es s) :
    Kept p o s := by
  obtain ⟨hp, before, during, after, j, q, a, rfl, hleaves, hquiet, hduring, hafter⟩ := h
  obtain ⟨m, hmid, hlast⟩ := hrun.split
  obtain ⟨m₁, hbefore, hmid⟩ := hmid.split
  obtain ⟨m₂, m₃, hsilent, hcall, hmid⟩ := hmid.split_cons
  obtain ⟨m₄, m₅, hsilent', hanswer, hlast⟩ := hlast.split_cons
  have htraced : Traced before m₂ := by
    have hrun' := hbefore.append hsilent
    rw [List.append_nil] at hrun'
    rw [List.append_assoc] at hkeyed
    exact traced_run hrun' hkeyed.left
  obtain ⟨n, hstart, heffect⟩ := leaves_start hp hleaves
  have hsettling : Settling p o j m₃ := by
    cases hcall with
    | call _ _ hidle =>
      refine Or.inl ⟨n, by simp only [update_self, hstart], ?_, heffect⟩
      intro k hk n' hn' htouches
      simp only [update_of_ne hk] at hn'
      obtain ⟨q', hopen, hq'⟩ := (htraced.points k).touching n' p hn' htouches
      exact hquiet k q' hopen hq'
  have hsettling' := settling_run hsilent' (settling_run hmid hsettling hduring)
    (fun _ _ hmem => absurd hmem List.not_mem_nil)
  have hkept : Kept p o m₄ := by
    rcases hsettling' with ⟨n', hj, _⟩ | hkept
    · cases hanswer with
      | answer _ _ hdone =>
        rw [hj] at hdone
        cases hdone
    · exact hkept
  have hkept' : Kept p o m₅ := by
    refine kept_step hkept hanswer fun i q hmem => ?_
    rw [Option.toList_some, List.mem_singleton] at hmem
    cases hmem
  exact kept_run hlast hkept' hafter

end Settling

/-! ## A snapshot in a history -/

def Event.thread : TrackerEvent ι → ι
  | .call i _ => i
  | .answer i _ => i

/-- The records of the pointer that a scan at this point has gathered: what is stored for
the pointer, once its shard is passed. -/
def Reads (p : Ptr) (o : Option AllocationRecord) :
    Option (TrackerSection ⊕ TrackerAnswer) → Prop
  | some (.inl (.scan k result)) =>
    ∀ r, r.userPtr = p → (r ∈ result ↔ (getShardIndex p).val < k.val ∧ o = some r)
  | some (.inr (.records result)) => ∀ r, r.userPtr = p → (r ∈ result ↔ o = some r)
  | _ => False

section Reading

variable {p : Ptr} {o : Option AllocationRecord} {es : List (TrackerEvent ι)}
  {s s' : TrackerSystem ι} {l : Option (TrackerEvent ι)} {i : ι}

theorem mem_scanned (htraced : Traced es s) (hkeyed : KeyedCalls es) (hkept : Kept p o s)
    {k : Fin shardCount} {before scanned : List AllocationRecord}
    (hbefore : ∀ r, r.userPtr = p → (r ∈ before ↔ (getShardIndex p).val < k.val ∧ o = some r))
    (hscan : (s.tracker.shards k).ScansTo scanned) (r : AllocationRecord) (hr : r.userPtr = p) :
    r ∈ before ++ scanned ↔ (getShardIndex p).val < k.val + 1 ∧ o = some r := by
  have hnew : r ∈ scanned ↔ o = some r ∧ getShardIndex p = k := by
    rw [← hkept.1, ← hr, ← mem_shard_values htraced.wellPlaced (htraced.keyed hkeyed), ← hscan,
      Multiset.mem_coe]
  rw [List.mem_append, hbefore r hr, hnew, Nat.lt_succ_iff_lt_or_eq, or_and_right, Fin.ext_iff,
    and_comm (a := o = some r)]

theorem reads_step (htraced : Traced es s) (hkeyed : KeyedCalls es) (hkept : Kept p o s)
    (hreads : Reads p o (s.pool i)) (hstep : TrackerSystem.Step s l s')
    (hi : ∀ e ∈ l.toList, Event.thread e ≠ i) : Reads p o (s'.pool i) := by
  cases hstep with
  | call j q hidle =>
    have hji : i ≠ j := fun hij => hi _ List.mem_cons_self hij.symm
    simp only [update_of_ne hji]
    exact hreads
  | answer j a hj =>
    have hji : i ≠ j := fun hij => hi _ List.mem_cons_self hij.symm
    simp only [update_of_ne hji]
    exact hreads
  | perform j n t x hj hperforms =>
    by_cases hji : i = j
    · subst j
      simp only [update_self]
      rw [hj] at hreads
      cases n with
      | scan k before =>
        obtain ⟨scanned, hscan, rfl⟩ : ∃ scanned, (s.tracker.shards k).ScansTo scanned ∧
            x = afterScan k (before ++ scanned) := by
          cases hperforms with
          | scan _ _ scanned hscan => exact ⟨scanned, hscan, rfl⟩
        have hmem := mem_scanned htraced hkeyed hkept hreads hscan
        unfold afterScan nextShard
        split
        · exact hmem
        · intro r hr
          rw [hmem r hr, and_iff_right_iff_imp]
          intro _
          have hindex := (getShardIndex p).isLt
          omega
      | _ => exact hreads.elim
    · simp only [update_of_ne hji]
      exact hreads

theorem reads_run {fs : List (TrackerEvent ι)} (hrun : Run TrackerSystem.Step s fs s')
    (htraced : Traced es s) (hkeyed : KeyedCalls (es ++ fs)) (hkept : Kept p o s)
    (huntouched : Untouched p fs) (hreads : Reads p o (s.pool i))
    (hi : ∀ e ∈ fs, Event.thread e ≠ i) : Reads p o (s'.pool i) := by
  induction hrun generalizing es with
  | nil s => exact hreads
  | cons hstep _ ih =>
    obtain ⟨hfirst, hrest⟩ := Untouched.append_iff.mp huntouched
    rw [← List.append_assoc] at hkeyed
    exact ih (traced_step htraced hkeyed.left.left hstep) hkeyed (kept_step hkept hstep hfirst)
      hrest (reads_step htraced hkeyed.left.left hkept hreads hstep
        fun e he => hi e (List.mem_append_left _ he)) fun e he => hi e (List.mem_append_right _ he)

end Reading

/-- A snapshot lists no pointer twice and only records that were handed to the tracker, and
for a settled pointer that no call touches meanwhile it lists just the record stored for
it, if there is one. -/
theorem snapshot_all_history {es₁ es₂ : List (TrackerEvent ι)} {s : LockedTracker ι} {i : ι}
    {result : List AllocationRecord}
    (h : Run (Locked.Step trackerCode) (Locked.start ShardedTracker.empty.shards)
      (es₁ ++ .call i .snapshotAll :: es₂ ++ [.answer i (.records result)]) s)
    (hi : ∀ e ∈ es₂, Event.thread e ≠ i) (hkeyed : KeyedCalls (es₁ ++ es₂)) :
    (result.map AllocationRecord.userPtr).Nodup ∧
      (∀ r ∈ result, Inserted r.userPtr r (es₁ ++ es₂)) ∧
      ∀ p o, Settled p o es₁ → Untouched p es₂ →
        ∀ r, r.userPtr = p → (r ∈ result ↔ o = some r) := by
  obtain ⟨a, hrun⟩ := system_of_locked h
  obtain ⟨m, hmid, hlast⟩ := hrun.split
  obtain ⟨m₁, hbefore, hmid⟩ := hmid.split
  obtain ⟨m₂, m₃, hsilent, hcall, hduring⟩ := hmid.split_cons
  obtain ⟨m₄, m₅, hsilent', hanswer, _⟩ := hlast.split_cons
  have hbefore' := hbefore.append hsilent
  have hduring' := hduring.append hsilent'
  rw [List.append_nil] at hbefore' hduring'
  have hkeyed' : KeyedCalls (es₁ ++ [.call i .snapshotAll] ++ es₂) := by
    intro j p r hj
    refine hkeyed j p r ?_
    rw [List.append_assoc] at hj
    rcases List.mem_append.mp hj with hj | hj
    · exact List.mem_append_left _ hj
    · rcases List.mem_cons.mp hj with hj | hj
      · cases hj
      · exact List.mem_append_right _ hj
  have htraced := traced_run hbefore' hkeyed.left
  have htraced₃ := traced_step htraced hkeyed.left hcall
  have htraced₄ : Traced (es₁ ++ [.call i .snapshotAll] ++ es₂) m₄ :=
    hduring'.invariant_labels (I := fun es s => KeyedCalls es → Traced es s)
      (fun _ _ _ _ hs hstep hk => traced_step (hs hk.left) hk.left hstep) (fun _ => htraced₃)
      hkeyed'
  have hdone : m₄.pool i = some (.inr (.records result)) := by
    cases hanswer with
    | answer _ _ hdone => exact hdone
  have hgathered := (htraced₄.points i).scanned result hdone
  refine ⟨hgathered.nodup, fun r hr => ?_, fun p o hsettled huntouched => ?_⟩
  · obtain ⟨j, hj⟩ := hgathered.inserted r hr
    rw [List.append_assoc] at hj
    rcases List.mem_append.mp hj with hj | hj
    · exact ⟨j, List.mem_append_left _ hj⟩
    · rcases List.mem_cons.mp hj with hj | hj
      · cases hj
      · exact ⟨j, List.mem_append_right _ hj⟩
  · have hkept := kept_of_settled hkeyed.left hsettled hbefore'
    have hkept₃ : Kept p o m₃ := by
      refine kept_step hkept hcall fun j q hmem => ?_
      rw [Option.toList_some, List.mem_singleton] at hmem
      cases hmem
      exact not_false
    have hstart : Reads p o (m₃.pool i) := by
      cases hcall with
      | call _ _ hidle =>
        simp only [update_self]
        exact fun r _ => ⟨fun hr => absurd hr List.not_mem_nil,
          fun hlt => absurd hlt.1 (Nat.not_lt_zero _)⟩
    have hreads := reads_run hduring' htraced₃ hkeyed' hkept₃ huntouched hstart hi
    rw [hdone] at hreads
    exact hreads

/-! ## Runs that are computed -/

/-- What a thread does next; a scan finds these records in its shard. -/
inductive TrackerMove (ι : Type)
  | call (i : ι) (q : TrackerRequest)
  | perform (i : ι) (scanned : List AllocationRecord)
  | answer (i : ι)

/-- `Performs`, as a function. -/
def TrackerSection.perform (t : ShardedTracker) (scanned : List AllocationRecord) :
    TrackerSection → Option (ShardedTracker × (TrackerSection ⊕ TrackerAnswer))
  | .insert p _ r => some (t.insert p r, .inr .done)
  | .erase p _ => some (t.afterErase p, .inr (.erased (t.erase p).1 (t.erase p).2.1))
  | .find p _ => some (t, .inr (.found (t.find p)))
  | .scan i result =>
    if (t.shards i).ScansTo scanned then some (t, afterScan i (result ++ scanned)) else none
  | .count i total =>
    some (t, afterCount i (total + BitVec.ofNat 64 (t.shards i).records.keys.card))
  | .wipe i => some (⟨update t.shards i Shard.empty⟩, afterWipe i)

theorem TrackerSection.performs_of_perform {t t' : ShardedTracker} {n : TrackerSection}
    {scanned : List AllocationRecord} {x : TrackerSection ⊕ TrackerAnswer}
    (h : n.perform t scanned = some (t', x)) : n.Performs t t' x := by
  cases n with
  | insert p hp r =>
    cases h
    exact .insert p hp r
  | erase p hp =>
    cases h
    exact .erase p hp
  | find p hp =>
    cases h
    exact .find p hp
  | scan i result =>
    obtain ⟨hscan, heq⟩ := Option.ite_none_right_eq_some.mp h
    cases heq
    exact .scan i result scanned hscan
  | count i total =>
    cases h
    exact .count i total
  | wipe i =>
    cases h
    exact .wipe i

def TrackerSystem.next (s : TrackerSystem ι) :
    TrackerMove ι → Option (Option (TrackerEvent ι) × TrackerSystem ι)
  | .call i q =>
    match s.pool i with
    | none => some (some (.call i q), { s with pool := update s.pool i (some q.start) })
    | some _ => none
  | .perform i scanned =>
    match s.pool i with
    | some (.inl n) =>
      (n.perform s.tracker scanned).map fun (t, x) => (none, ⟨t, update s.pool i (some x)⟩)
    | _ => none
  | .answer i =>
    match s.pool i with
    | some (.inr r) => some (some (.answer i r), { s with pool := update s.pool i none })
    | _ => none

theorem TrackerSystem.step_of_next (s : TrackerSystem ι) (m : TrackerMove ι)
    (l : Option (TrackerEvent ι)) (s' : TrackerSystem ι) (h : s.next m = some (l, s')) :
    TrackerSystem.Step s l s' := by
  cases m with
  | call i q =>
    unfold next at h
    dsimp only at h
    split at h
    · rename_i hidle
      cases h
      exact .call s i q hidle
    · cases h
  | perform i scanned =>
    unfold next at h
    dsimp only at h
    split at h
    · rename_i n hinside
      obtain ⟨⟨t, x⟩, hperform, heq⟩ := Option.map_eq_some_iff.mp h
      cases heq
      exact .perform s i n t x hinside (TrackerSection.performs_of_perform hperform)
    · cases h
  | answer i =>
    unfold next at h
    dsimp only at h
    split at h
    · rename_i r hdone
      cases h
      exact .answer s i r hdone
    · cases h

/-- The record of a pointer in shard 41, and of ones in the shards 62, 40 and 19. -/
def keptRecord : AllocationRecord := { allocationId := 1, userPtr := 0x10050 }

def droppedRecord : AllocationRecord := { allocationId := 2, userPtr := 0x10060 }

def recordInTime : AllocationRecord := { allocationId := 3, userPtr := 0x10080 }

def recordTooLate : AllocationRecord := { allocationId := 4, userPtr := 0x10070 }

/-- Two records are inserted and the second is erased. -/
def beforeScan : List (TrackerEvent Bool) :=
  [.call true (.insert 0x10050 keptRecord), .answer true .done,
    .call true (.insert 0x10060 droppedRecord), .answer true .done,
    .call true (.erase 0x10060), .answer true (.erased .success (some droppedRecord))]

/-- Two more are inserted during the scan. -/
def duringScan : List (TrackerEvent Bool) :=
  [.call true (.insert 0x10080 recordInTime), .answer true .done,
    .call true (.insert 0x10070 recordTooLate), .answer true .done]

/-- The scan is in shard 30 when they are. -/
def scanMoves : List (TrackerMove Bool) :=
  let call (q : TrackerRequest) : List (TrackerMove Bool) :=
    [.call true q, .perform true [], .answer true]
  call (.insert 0x10050 keptRecord) ++ call (.insert 0x10060 droppedRecord) ++
    call (.erase 0x10060) ++
    .call false .snapshotAll :: List.replicate 30 (.perform false []) ++
    call (.insert 0x10080 recordInTime) ++ call (.insert 0x10070 recordTooLate) ++
    List.replicate 10 (.perform false []) ++
    [.perform false [recordInTime], .perform false [keptRecord]] ++
    List.replicate 22 (.perform false []) ++ [.answer false]

instance (p : Ptr) (q : TrackerRequest) : Decidable (q.Touches p) :=
  match q with
  | .insert q _ | .erase q => inferInstanceAs (Decidable (q = p))
  | .clear => .isTrue trivial
  | .find _ | .snapshotAll | .size => .isFalse id

/-- An event that begins no call on the pointer. -/
def Spares (p : Ptr) : TrackerEvent ι → Prop
  | .call _ q => ¬ q.Touches p
  | .answer _ _ => True

instance (p : Ptr) (e : TrackerEvent ι) : Decidable (Spares p e) :=
  match e with
  | .call _ q => inferInstanceAs (Decidable (¬ q.Touches p))
  | .answer _ _ => .isTrue trivial

omit [DecidableEq ι] in
theorem untouched_of_spares {p : Ptr} {es : List (TrackerEvent ι)} (h : ∀ e ∈ es, Spares p e) :
    Untouched p es := fun _ _ hq => h _ hq

/-- An event that inserts no record under another pointer. -/
def Keyed : TrackerEvent ι → Prop
  | .call _ (.insert p r) => r.userPtr = p
  | _ => True

instance (e : TrackerEvent ι) : Decidable (Keyed e) :=
  match e with
  | .call _ (.insert p r) => inferInstanceAs (Decidable (r.userPtr = p))
  | .call _ (.erase _) | .call _ (.find _) | .call _ .snapshotAll | .call _ .size
  | .call _ .clear | .answer .. => .isTrue trivial

omit [DecidableEq ι] in
theorem keyedCalls_of_keyed {es : List (TrackerEvent ι)} (h : ∀ e ∈ es, Keyed e) :
    KeyedCalls es := fun _ _ _ hq => h _ hq

/-- The last call on either pointer stands alone. -/
theorem settled_beforeScan :
    Settled 0x10050 (some keptRecord) beforeScan ∧ Settled 0x10060 none beforeScan := by
  constructor
  · refine ⟨by decide, [], [], beforeScan.drop 2, true, _, .done, rfl, ⟨rfl, rfl⟩,
      fun i q hq => ?_, untouched_of_spares (by decide), untouched_of_spares (by decide)⟩
    cases hq
  · refine ⟨by decide, beforeScan.take 4, [], [], true, _, _, rfl, ⟨rfl, rfl⟩, fun i q hq => ?_,
      untouched_of_spares (by decide), untouched_of_spares (by decide)⟩
    cases i with
    | false => cases hq
    | true => cases hq

theorem snapshot_all_history_busy :
    ∃ s : LockedTracker Bool,
      Run (Locked.Step trackerCode) (Locked.start ShardedTracker.empty.shards)
        (beforeScan ++ .call false .snapshotAll :: duringScan ++
          [.answer false (.records [recordInTime, keptRecord])]) s ∧
      ([recordInTime, keptRecord].map AllocationRecord.userPtr).Nodup ∧
      (∀ r ∈ [recordInTime, keptRecord], Inserted r.userPtr r (beforeScan ++ duringScan)) ∧
      (∀ r, r.userPtr = 0x10050 → (r ∈ [recordInTime, keptRecord] ↔ some keptRecord = some r)) ∧
      ∀ r, r.userPtr = 0x10060 → (r ∈ [recordInTime, keptRecord] ↔ none = some r) := by
  have hreplay : (replay TrackerSystem.next TrackerSystem.start scanMoves).map Prod.fst =
      some (beforeScan ++ .call false .snapshotAll :: duringScan ++
        [.answer false (.records [recordInTime, keptRecord])]) := by decide +kernel
  obtain ⟨⟨labels, a⟩, hmoves, rfl⟩ := Option.map_eq_some_iff.mp hreplay
  have ha : Run TrackerSystem.Step TrackerSystem.start _ a :=
    .of_replay (f := id) (I := fun _ => True)
      (fun s m l t _ h => ⟨TrackerSystem.step_of_next s m l t h, trivial⟩) trivial hmoves
  obtain ⟨s, hs⟩ := locked_of_system ha
  obtain ⟨hnodup, hinserted, hsettled⟩ :=
    snapshot_all_history hs (by decide) (keyedCalls_of_keyed (by decide))
  exact ⟨s, hs, hnodup, hinserted,
    hsettled _ _ settled_beforeScan.1 (untouched_of_spares (by decide)),
    hsettled _ _ settled_beforeScan.2 (untouched_of_spares (by decide))⟩

end MemSentry.Core
