import MemSentry.Concurrent.SnapshotDiff

/-!
# Snapshots in a row

Three snapshots of one run. A record that is gone from the table never comes back
(`gone_of_run`), since an identifier is drawn once. So the diff of the first and the last
snapshot is what the two diffs in between make together (`diffs_compose`): a block that was
new in the first diff and freed in the second one is in neither list of the whole.
-/

namespace MemSentry

open MemSentry.Core Profiler Function Transition
open ThreadPool (Pair)

/-! ## The lists of a diff as sets -/

namespace Profiler

variable {a b c : HeapSnapshot}

theorem Consistent.mem_ids_iff {before after : List AllocationRecord} (h : Consistent before after)
    {r : AllocationRecord} (hr : r ∈ before) : r.allocationId ∈ idsOf after ↔ r ∈ after := by
  constructor
  · intro hid
    obtain ⟨r', hr', hsame⟩ := List.mem_map.mp hid
    rwa [h.same r hr r' hr' hsame.symm]
  · exact fun hafter => List.mem_map_of_mem hafter

theorem Consistent.symm {before after : List AllocationRecord} (h : Consistent before after) :
    Consistent after before :=
  ⟨h.nodup_after, h.nodup_before, fun r hr r' hr' hid => (h.same r' hr' r hr hid.symm).symm⟩

section Lists

variable (h : Consistent a.activeAllocations b.activeAllocations) {r : AllocationRecord}

include h in
theorem mem_newAllocations : r ∈ (compareSnapshots a b).newAllocations ↔
    r ∈ b.activeAllocations ∧ r ∉ a.activeAllocations := by
  rw [(compareSnapshots_lists a b).2.1, List.mem_filter, decide_eq_true_eq]
  exact and_congr_right fun hr => not_congr (h.symm.mem_ids_iff hr)

include h in
theorem mem_freedAllocations : r ∈ (compareSnapshots a b).freedAllocations ↔
    r ∈ a.activeAllocations ∧ r ∉ b.activeAllocations := by
  rw [(compareSnapshots_lists a b).2.2, List.mem_filter, decide_eq_true_eq]
  exact and_congr_right fun hr => not_congr (h.mem_ids_iff hr)

include h in
theorem mem_persistentAllocations : r ∈ (compareSnapshots a b).persistentAllocations ↔
    r ∈ b.activeAllocations ∧ r ∈ a.activeAllocations := by
  rw [(compareSnapshots_lists a b).1, List.mem_filter, decide_eq_true_eq]
  exact and_congr_right fun hr => h.symm.mem_ids_iff hr

include h in
theorem nodup_lists : (compareSnapshots a b).newAllocations.Nodup ∧
    (compareSnapshots a b).freedAllocations.Nodup ∧
    (compareSnapshots a b).persistentAllocations.Nodup := by
  obtain ⟨hpersistent, hnew, hfreed⟩ := compareSnapshots_lists a b
  rw [hpersistent, hnew, hfreed]
  exact ⟨h.nodup_after.filter _, h.nodup_before.filter _, h.nodup_after.filter _⟩

end Lists

/-- Snapshots in a row, in which what is gone stays away. -/
structure Series (a b c : HeapSnapshot) : Prop where
  first : Consistent a.activeAllocations b.activeAllocations
  second : Consistent b.activeAllocations c.activeAllocations
  whole : Consistent a.activeAllocations c.activeAllocations
  neverBack : ∀ r ∈ a.activeAllocations, r ∈ c.activeAllocations → r ∈ b.activeAllocations

theorem Series.new_perm (h : Series a b c) :
    (compareSnapshots a c).newAllocations.Perm
      ((compareSnapshots a b).newAllocations.filter
          (fun r => r ∉ (compareSnapshots b c).freedAllocations) ++
        (compareSnapshots b c).newAllocations) := by
  have hnodup : ((compareSnapshots a b).newAllocations.filter
      (fun r => r ∉ (compareSnapshots b c).freedAllocations) ++
        (compareSnapshots b c).newAllocations).Nodup := by
    refine ((nodup_lists h.first).1.filter _).append (nodup_lists h.second).1 fun r hr hr' => ?_
    have hold := ((mem_newAllocations h.first).mp (List.mem_of_mem_filter hr)).1
    exact ((mem_newAllocations h.second).mp hr').2 hold
  rw [List.perm_ext_iff_of_nodup (nodup_lists h.whole).1 hnodup]
  intro r
  have hback := h.neverBack r
  rw [List.mem_append, List.mem_filter, decide_eq_true_eq, mem_newAllocations h.whole,
    mem_newAllocations h.first, mem_newAllocations h.second, mem_freedAllocations h.second]
  tauto

theorem Series.freed_perm (h : Series a b c) :
    (compareSnapshots a c).freedAllocations.Perm
      ((compareSnapshots a b).freedAllocations ++
        (compareSnapshots b c).freedAllocations.filter
          (fun r => r ∉ (compareSnapshots a b).newAllocations)) := by
  have hnodup : ((compareSnapshots a b).freedAllocations ++
      (compareSnapshots b c).freedAllocations.filter
        (fun r => r ∉ (compareSnapshots a b).newAllocations)).Nodup := by
    refine (nodup_lists h.first).2.1.append ((nodup_lists h.second).2.1.filter _) fun r hr hr' => ?_
    have hgone := ((mem_freedAllocations h.second).mp (List.mem_of_mem_filter hr')).1
    exact ((mem_freedAllocations h.first).mp hr).2 hgone
  rw [List.perm_ext_iff_of_nodup (nodup_lists h.whole).2.1 hnodup]
  intro r
  have hback := h.neverBack r
  rw [List.mem_append, List.mem_filter, decide_eq_true_eq, mem_freedAllocations h.whole,
    mem_freedAllocations h.first, mem_freedAllocations h.second, mem_newAllocations h.first]
  tauto

theorem Series.persistent_perm (h : Series a b c) :
    (compareSnapshots a c).persistentAllocations.Perm
      ((compareSnapshots a b).persistentAllocations.filter
        (fun r => r ∉ (compareSnapshots b c).freedAllocations)) := by
  rw [List.perm_ext_iff_of_nodup (nodup_lists h.whole).2.2 ((nodup_lists h.first).2.2.filter _)]
  intro r
  have hback := h.neverBack r
  rw [List.mem_filter, decide_eq_true_eq, mem_persistentAllocations h.whole,
    mem_persistentAllocations h.first, mem_freedAllocations h.second]
  tauto

/-- The deltas add up, in 64 bits. -/
theorem deltas_add (a b c : HeapSnapshot) :
    (compareSnapshots a c).netBytesDelta =
        (compareSnapshots a b).netBytesDelta + (compareSnapshots b c).netBytesDelta ∧
      (compareSnapshots a c).netAllocationsDelta =
        (compareSnapshots a b).netAllocationsDelta + (compareSnapshots b c).netAllocationsDelta := by
  have hsplit : ∀ x y z : Word, z - x = (y - x) + (z - y) := fun x y z => by
    rw [add_comm, sub_add_sub_cancel]
  exact ⟨hsplit _ _ _, hsplit _ _ _⟩

end Profiler

/-! ## What is gone stays away -/

section Gone

variable {W : Prop} {a a' : Accounts} {h x y o : Holding} {r : AllocationRecord}

/-- A record that was inserted and is not stored any more. -/
def Gone (r : AllocationRecord) (a : Accounts) : Prop :=
  r ∈ a.inserted ∧ r ∉ a.tracker.records

/-- The record that an operation inserts has an identifier that no inserted one has. -/
theorem Balanced.gone (he : Entry W a x a' y) (hb : Balanced a (x + o)) (hr : Gone r a) :
    Gone r a' := by
  obtain ⟨hinserted, hgone⟩ := hr
  cases he with
  | insert s =>
    obtain ⟨hs, hfree⟩ := @Custody.find_of_held _ _ hb.custody s (by simp)
    have hdistinct := hb.numbered.distinct
    have hne : r ≠ s := by
      rintro rfl
      have hids : (drawnIds a.inserted (r.allocationId ::ₘ o.ids)).Nodup := by
        simpa using hdistinct
      rw [drawnIds_cons_ids, Multiset.nodup_cons] at hids
      refine hids.1 (Multiset.mem_add.mpr (Or.inl ?_))
      exact Multiset.mem_map_of_mem _ (Multiset.mem_coe.mpr hinserted)
    refine ⟨List.mem_cons_of_mem s hinserted, fun hstored => ?_⟩
    rw [ShardedTracker.records_insert hs hfree] at hstored
    exact hgone ((Multiset.mem_cons.mp hstored).resolve_left hne)
  | erase ptr s hfind =>
    refine ⟨hinserted, fun hstored => hgone ?_⟩
    rw [ShardedTracker.records_eq_cons_afterErase hfind]
    exact Multiset.mem_cons_of_mem hstored
  | _ => exact ⟨hinserted, hgone⟩

theorem Balanced.gone_motion {h' : Holding} (hm : Motion W a h a' h') (hW : W)
    (hr : Balanced a (h + o) ∧ Gone r a) : Balanced a' (h' + o) ∧ Gone r a' := by
  refine ⟨hr.1.motion hm hW, ?_⟩
  obtain ⟨x, y, rest, rfl, rfl, he⟩ := hm
  have hb := hr.1
  rw [add_assoc] at hb
  exact hb.gone he hr.2

end Gone

namespace Machine

variable {ι : Type} [Fintype ι] [DecidableEq ι] {tid : ι → ThreadId} {s s₁ s₂ s₃ : Machine ι}
  {r : AllocationRecord}

theorem Settled.gone_step (hs : s.Settled) {e : Event ι} (hlegal : s.Legal tid e)
    (hwrap : s.NoWrap e) (hr : Gone r s.world.accounts) : Gone r (s.step tid e).world.accounts :=
  (hs.tended.invariant_step (I := fun a h => Balanced a h ∧ Gone r a) (W := True) hlegal
    (fun _ => hwrap) hwrap.fits (fun _ _ _ hm hb => Balanced.gone_motion hm trivial hb)
    ⟨hs.balanced, hr⟩).2

theorem gone_of_run {es : List (Event ι)} (hs : s₁.Settled) (h : Run (accountable tid) s₁ es s₂)
    (hr : Gone r s₁.world.accounts) : Gone r s₂.world.accounts :=
  (h.invariant (I := fun s => s.Settled ∧ Gone r s.world.accounts)
    (fun _ _ hI hg => ⟨hI.1.step hg.1 hg.2, hI.1.gone_step hg.1 hg.2 hI.2⟩) ⟨hs, hr⟩).2

omit [Fintype ι] [DecidableEq ι] in
theorem mem_snapshot_iff_records {snap : HeapSnapshot} (h : s.world.TakesSnapshot snap) :
    r ∈ snap.activeAllocations ↔ r ∈ s.world.accounts.tracker.records := by
  change _ ↔ r ∈ s.world.tracker.records
  rw [← coe_of_snapshotAll h.records, Multiset.mem_coe]

/-- What is stored later and was inserted before is stored all the time in between. -/
theorem neverBack_of_run {es es' : List (Event ι)} (hs : s₁.Settled)
    (h : Run (accountable tid) s₁ es s₂) (h' : Run (accountable tid) s₂ es' s₃)
    (hinserted : r ∈ s₁.world.accounts.inserted) (hr : r ∈ s₃.world.accounts.tracker.records) :
    r ∈ s₂.world.accounts.tracker.records := by
  obtain ⟨hs₂, hgrown⟩ := inserted_of_run hs h
  by_contra hmissing
  exact (gone_of_run hs₂ h' ⟨hgrown r hinserted, hmissing⟩).2 hr

/-- For snapshots taken one after the other in a run, each while no operation is in progress,
the lists and the deltas of the whole diff are those of the two diffs together: what is new in
the whole was new in the first and not freed in the second, or new in the second, and so on. -/
theorem diffs_compose {c : Config} (hc : c.Plain) {mem : Memory} {es es' es'' : List (Event ι)}
    (h₁ : Run (accountable tid) (start c mem) es s₁) (h₂ : Run (accountable tid) s₁ es' s₂)
    (h₃ : Run (accountable tid) s₂ es'' s₃) (hq₁ : s₁.Quiescent) (hq₂ : s₂.Quiescent)
    (hq₃ : s₃.Quiescent) {x y z : HeapSnapshot} (hx : s₁.world.TakesSnapshot x)
    (hy : s₂.world.TakesSnapshot y) (hz : s₃.world.TakesSnapshot z) :
    let first := compareSnapshots x y
    let second := compareSnapshots y z
    let whole := compareSnapshots x z
    whole.newAllocations.Perm (first.newAllocations.filter (fun r => r ∉ second.freedAllocations) ++
        second.newAllocations) ∧
      whole.freedAllocations.Perm (first.freedAllocations ++
        second.freedAllocations.filter (fun r => r ∉ first.newAllocations)) ∧
      whole.persistentAllocations.Perm
        (first.persistentAllocations.filter fun r => r ∉ second.freedAllocations) ∧
      whole.netBytesDelta = first.netBytesDelta + second.netBytesDelta ∧
      whole.netAllocationsDelta = first.netAllocationsDelta + second.netAllocationsDelta := by
  intro first second whole
  have hs₁ := settled_of_run hc h₁
  obtain ⟨hs₂, hgrown₁⟩ := inserted_of_run hs₁ h₂
  obtain ⟨hs₃, hgrown₂⟩ := inserted_of_run hs₂ h₃
  have hexact₁ := hs₁.exact hq₁ hx
  have hexact₂ := hs₂.exact hq₂ hy
  have hexact₃ := hs₃.exact hq₃ hz
  -- every record of the three was inserted by the end of the run
  have hseen₁ : ∀ r ∈ x.activeAllocations, r ∈ s₃.world.accounts.inserted :=
    fun r hr => hgrown₂ r (hgrown₁ r (hexact₁.recorded r hr))
  have hseen₂ : ∀ r ∈ y.activeAllocations, r ∈ s₃.world.accounts.inserted :=
    fun r hr => hgrown₂ r (hexact₂.recorded r hr)
  have hseries : Series x y z := by
    refine ⟨⟨hexact₁.nodup, hexact₂.nodup, fun r hr r' hr' => ?_⟩,
      ⟨hexact₂.nodup, hexact₃.nodup, fun r hr r' hr' => ?_⟩,
      ⟨hexact₁.nodup, hexact₃.nodup, fun r hr r' hr' => ?_⟩, fun r hr hr' => ?_⟩
    · exact hs₃.record_unique (hseen₁ r hr) (hseen₂ r' hr')
    · exact hs₃.record_unique (hseen₂ r hr) (hexact₃.recorded r' hr')
    · exact hs₃.record_unique (hseen₁ r hr) (hexact₃.recorded r' hr')
    · rw [mem_snapshot_iff_records hz] at hr'
      rw [mem_snapshot_iff_records hy]
      exact neverBack_of_run hs₁ h₂ h₃ (hexact₁.recorded r hr) hr'
  exact ⟨hseries.new_perm, hseries.freed_perm, hseries.persistent_perm, deltas_add x y z⟩

/-- The first block is freed while the one at 0x30050 is allocated. -/
def secondPart : List (Event Pair) :=
  let a : Event Pair := .advance .first { malloc := 0x10000 }
  let b : Event Pair := .advance .second { malloc := 0x30000 }
  [.call .first (.free 0x10050), .call .second (.alloc 24 16 0)] ++
    (List.replicate 10 [a, b]).flatten ++ [b, b]

/-- That one is freed while the one at 0x40050 is allocated. -/
def thirdPart : List (Event Pair) :=
  let a : Event Pair := .advance .first { malloc := 0x40000 }
  let b : Event Pair := .advance .second { malloc := 0x30000 }
  [.call .second (.free 0x30050), .call .first (.alloc 8 16 0)] ++
    (List.replicate 10 [a, b]).flatten ++ [a, a]

/-- The states at the three snapshots. -/
def atFirst : Machine Pair := after pair {} (fun _ => 0) twoBlocks

def atSecond : Machine Pair := secondPart.foldl (step pair) atFirst

def atThird : Machine Pair := thirdPart.foldl (step pair) atSecond

/-- The snapshot with the records of these pointers. -/
def snapshotOf (w : World) (ps : List Ptr) : HeapSnapshot :=
  ⟨"", 0, w.stats, ps.filterMap w.tracker.find⟩

theorem takesSnapshot_of_pointers {w : World} {ps : List Ptr}
    (hscan : ∀ i, (w.tracker.shards i).ScansTo
      ((ps.filter (getShardIndex · = i)).filterMap w.tracker.find))
    (hall : ps.filterMap w.tracker.find = (List.finRange shardCount).flatMap fun i =>
      (ps.filter (getShardIndex · = i)).filterMap w.tracker.find) :
    w.TakesSnapshot (snapshotOf w ps) :=
  ⟨rfl, snapshotAll_of_pointers hscan hall⟩

theorem diffs_compose_three :
    Run (accountable pair) (start {} fun _ => 0) twoBlocks atFirst ∧
      Run (accountable pair) atFirst secondPart atSecond ∧
      Run (accountable pair) atSecond thirdPart atThird ∧
      ∃ x y z, atFirst.world.TakesSnapshot x ∧ atSecond.world.TakesSnapshot y ∧
        atThird.world.TakesSnapshot z ∧ idsOf x.activeAllocations = [2, 1] ∧
        idsOf y.activeAllocations = [2, 3] ∧ idsOf z.activeAllocations = [2, 4] ∧
        (compareSnapshots x z).newAllocations.Perm
          ((compareSnapshots x y).newAllocations.filter
            (fun r => r ∉ (compareSnapshots y z).freedAllocations) ++
              (compareSnapshots y z).newAllocations) ∧
        (compareSnapshots x z).freedAllocations.Perm
          ((compareSnapshots x y).freedAllocations ++
            (compareSnapshots y z).freedAllocations.filter
              fun r => r ∉ (compareSnapshots x y).newAllocations) ∧
        (compareSnapshots x z).persistentAllocations.Perm
          ((compareSnapshots x y).persistentAllocations.filter
            fun r => r ∉ (compareSnapshots y z).freedAllocations) ∧
        (compareSnapshots x z).netBytesDelta =
          (compareSnapshots x y).netBytesDelta + (compareSnapshots y z).netBytesDelta ∧
        (compareSnapshots x z).netAllocationsDelta =
          (compareSnapshots x y).netAllocationsDelta +
            (compareSnapshots y z).netAllocationsDelta := by
  have hrun : Run (accountable pair) (start {} fun _ => 0)
      (twoBlocks ++ (secondPart ++ thirdPart)) _ :=
    run_from_start pair (fun s e => s.NoWrap e) (by decide +kernel)
  rw [after, List.foldl_append, List.foldl_append] at hrun
  have hfirst : Run (accountable pair) (start {} fun _ => 0) twoBlocks atFirst := hrun.cut.1
  have hsecond : Run (accountable pair) atFirst secondPart atSecond := hrun.cut.2.cut.1
  have hthird : Run (accountable pair) atSecond thirdPart atThird := hrun.cut.2.cut.2
  have hx : atFirst.world.TakesSnapshot (snapshotOf atFirst.world [0x20080, 0x10050]) :=
    takesSnapshot_of_pointers (by decide +kernel) (by decide +kernel)
  have hy : atSecond.world.TakesSnapshot (snapshotOf atSecond.world [0x20080, 0x30050]) :=
    takesSnapshot_of_pointers (by decide +kernel) (by decide +kernel)
  have hz : atThird.world.TakesSnapshot (snapshotOf atThird.world [0x20080, 0x40050]) :=
    takesSnapshot_of_pointers (by decide +kernel) (by decide +kernel)
  have hidle₁ : ∀ i, atFirst.pool i = .idle := by decide +kernel
  have hidle₂ : ∀ i, atSecond.pool i = .idle := by decide +kernel
  have hidle₃ : ∀ i, atThird.pool i = .idle := by decide +kernel
  have hall := diffs_compose plain_default hfirst hsecond hthird hidle₁ hidle₂ hidle₃ hx hy hz
  exact ⟨hfirst, hsecond, hthird, _, _, _, hx, hy, hz, by decide +kernel, by decide +kernel,
    by decide +kernel, hall⟩

end Machine

end MemSentry
