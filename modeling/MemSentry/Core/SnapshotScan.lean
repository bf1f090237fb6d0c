import MemSentry.Core.TrackerContents
import MemSentry.Library.Transition

/-!
# Scanning the shards while other threads work

`snapshot_all` reads the shards one after the other, each under its own lock, and other
threads may insert and erase between two of these sections. `ScanStep` is any such
interleaving: a foreign call on the tracker or the next section of the scan. The state
keeps the trackers seen since the scan began, newest first, so that "during the whole
call" and "at some moment of the call" can be said.

A shard is scanned once and a pointer always hashes to the same shard, so `ScanInv`
speaks of the pointers whose shard index is below the scan position.
-/

namespace MemSentry.Core

open ShardedTracker FiniteTable

/-- A call of another thread. `Manager::allocate`, the only caller of `insert`, passes
the record's own `user_ptr` as the key. -/
inductive ForeignCall
  | insert (record : AllocationRecord)
  | erase (userPtr : Ptr)

def ForeignCall.perform (t : ShardedTracker) : ForeignCall → ShardedTracker
  | .insert r => t.insert r.userPtr r
  | .erase p => t.afterErase p

/-- The tracker after a sequence of calls, first to last. -/
def trackerAfter (calls : List ForeignCall) : ShardedTracker :=
  calls.foldl ForeignCall.perform ShardedTracker.empty

structure ScanState where
  tracker : ShardedTracker
  /-- The shard that the next section locks. -/
  next : Nat
  result : List AllocationRecord
  /-- The trackers since the call began, newest first. -/
  moments : List ShardedTracker

def ScanState.start (t : ShardedTracker) : ScanState := ⟨t, 0, [], [t]⟩

inductive ScanStep : ScanState → ScanState → Prop
  | foreign (s : ScanState) (c : ForeignCall) :
      ScanStep s { s with tracker := c.perform s.tracker
                          moments := c.perform s.tracker :: s.moments }
  | scan (s : ScanState) (h : s.next < shardCount) (scanned : List AllocationRecord)
      (hscan : (s.tracker.shards ⟨s.next, h⟩).ScansTo scanned) :
      ScanStep s { s with next := s.next + 1, result := s.result ++ scanned }

/-! ## The invariant of a scan -/

structure ScanInv (s : ScanState) : Prop where
  wellPlaced : s.tracker.WellPlaced
  keyed : s.tracker.Keyed
  current : s.tracker ∈ s.moments
  complete : ∀ r, (getShardIndex r.userPtr).val < s.next →
    (∀ m ∈ s.moments, m.find r.userPtr = some r) → r ∈ s.result
  sound : ∀ r ∈ s.result, (getShardIndex r.userPtr).val < s.next ∧
    ∃ m ∈ s.moments, m.find r.userPtr = some r
  nodup : (s.result.map AllocationRecord.userPtr).Nodup

theorem foreign_wellPlaced {t : ShardedTracker} (h : t.WellPlaced) (c : ForeignCall) :
    (c.perform t).WellPlaced := by
  cases c with
  | insert r => exact h.insert r.userPtr r
  | erase p => exact h.afterErase p

theorem foreign_keyed {t : ShardedTracker} (h : t.Keyed) (c : ForeignCall) :
    (c.perform t).Keyed := by
  cases c with
  | insert r => exact h.insert r
  | erase p => exact h.afterErase p

theorem trackerAfter_wellPlaced_keyed (calls : List ForeignCall) :
    (trackerAfter calls).WellPlaced ∧ (trackerAfter calls).Keyed := by
  have hfold : ∀ t : ShardedTracker, t.WellPlaced ∧ t.Keyed →
      (calls.foldl ForeignCall.perform t).WellPlaced ∧
        (calls.foldl ForeignCall.perform t).Keyed := by
    induction calls with
    | nil => exact fun t ht => ht
    | cons c calls ih =>
      exact fun t ht => ih _ ⟨foreign_wellPlaced ht.1 c, foreign_keyed ht.2 c⟩
  exact hfold _ ⟨wellPlaced_empty, keyed_empty⟩

theorem scanInv_start {t : ShardedTracker} (hw : t.WellPlaced) (hk : t.Keyed) :
    ScanInv (ScanState.start t) where
  wellPlaced := hw
  keyed := hk
  current := List.mem_cons_self
  complete := fun _ h _ => absurd h (Nat.not_lt_zero _)
  sound := fun _ h => by cases h
  nodup := List.nodup_nil

theorem ScanInv.foreign {s : ScanState} (h : ScanInv s) (c : ForeignCall) :
    ScanInv { s with tracker := c.perform s.tracker
                     moments := c.perform s.tracker :: s.moments } where
  wellPlaced := foreign_wellPlaced h.wellPlaced c
  keyed := foreign_keyed h.keyed c
  current := List.mem_cons_self
  complete := fun r hr hall =>
    h.complete r hr fun m hm => hall m (List.mem_cons_of_mem _ hm)
  sound := fun r hr => by
    obtain ⟨hlt, m, hm, hfind⟩ := h.sound r hr
    exact ⟨hlt, m, List.mem_cons_of_mem _ hm, hfind⟩
  nodup := h.nodup

/-- The pointers of one section are those of its shard, each once. -/
theorem mem_section {t : ShardedTracker} (hw : t.WellPlaced) (hk : t.Keyed)
    {i : Fin shardCount} {scanned : List AllocationRecord}
    (hscan : (t.shards i).ScansTo scanned) {r : AllocationRecord} :
    r ∈ scanned ↔ t.find r.userPtr = some r ∧ getShardIndex r.userPtr = i := by
  rw [← mem_shard_values hw hk, ← hscan, Multiset.mem_coe]

theorem nodup_section {t : ShardedTracker} (hw : t.WellPlaced) (hk : t.Keyed)
    {i : Fin shardCount} {scanned : List AllocationRecord}
    (hscan : (t.shards i).ScansTo scanned) :
    (scanned.map AllocationRecord.userPtr).Nodup := by
  have hkeys : ((scanned.map AllocationRecord.userPtr : List Ptr) : Multiset Ptr) =
      (t.shards i).records.keys.val := by
    rw [← Multiset.map_coe, hscan, map_userPtr_values hw hk]
  rw [← Multiset.coe_nodup, hkeys]
  exact (t.shards i).records.keys.nodup

theorem ScanInv.scan {s : ScanState} (h : ScanInv s) (hnext : s.next < shardCount)
    {scanned : List AllocationRecord}
    (hscan : (s.tracker.shards ⟨s.next, hnext⟩).ScansTo scanned) :
    ScanInv { s with next := s.next + 1, result := s.result ++ scanned } where
  wellPlaced := h.wellPlaced
  keyed := h.keyed
  current := h.current
  complete := fun r hr hall => by
    rcases Nat.lt_succ_iff_lt_or_eq.mp hr with hlt | heq
    · exact List.mem_append_left _ (h.complete r hlt hall)
    · refine List.mem_append_right _ ((mem_section h.wellPlaced h.keyed hscan).mpr ?_)
      exact ⟨hall _ h.current, Fin.ext heq⟩
  sound := fun r hr => by
    rcases List.mem_append.mp hr with hold | hnew
    · obtain ⟨hlt, hmoment⟩ := h.sound r hold
      exact ⟨Nat.lt_succ_of_lt hlt, hmoment⟩
    · obtain ⟨hfind, hidx⟩ := (mem_section h.wellPlaced h.keyed hscan).mp hnew
      exact ⟨by rw [hidx]; exact Nat.lt_succ_self _, s.tracker, h.current, hfind⟩
  nodup := by
    rw [List.map_append]
    refine h.nodup.append (nodup_section h.wellPlaced h.keyed hscan) ?_
    -- an earlier section was of a lower shard
    intro p hold hnew
    obtain ⟨r, hr, rfl⟩ := List.mem_map.mp hold
    obtain ⟨r', hr', hptr⟩ := List.mem_map.mp hnew
    have hlt := (h.sound r hr).1
    have hidx := ((mem_section h.wellPlaced h.keyed hscan).mp hr').2
    rw [← hptr, hidx] at hlt
    exact absurd hlt (Nat.lt_irrefl _)

theorem ScanInv.step {s s' : ScanState} (h : ScanInv s) (hstep : ScanStep s s') :
    ScanInv s' := by
  cases hstep with
  | foreign c => exact h.foreign c
  | scan hnext scanned hscan => exact h.scan hnext hscan

/-! ## What a finished scan returns -/

theorem result_of_no_foreign_call {s : ScanState} (h : ScanInv s) (hdone : s.next = shardCount)
    (hquiet : ∀ m ∈ s.moments, m = s.tracker) :
    (s.result : Multiset AllocationRecord) = s.tracker.records := by
  have hresult : (s.result : Multiset AllocationRecord).Nodup :=
    Multiset.coe_nodup.mpr h.nodup.of_map
  have hrecords : s.tracker.records.Nodup :=
    (nodup_map_userPtr_records h.wellPlaced h.keyed).of_map
  refine (Multiset.Nodup.ext hresult hrecords).mpr fun r => ?_
  rw [Multiset.mem_coe, mem_records_iff_find h.wellPlaced h.keyed]
  constructor
  · intro hr
    obtain ⟨_, m, hm, hfind⟩ := h.sound r hr
    rwa [hquiet m hm] at hfind
  · intro hfind
    refine h.complete r ?_ fun m hm => by rw [hquiet m hm, hfind]
    rw [hdone]
    exact (getShardIndex r.userPtr).isLt

/-! ## The scan with nobody else at work -/

theorem coe_flatMap_finRange (f : Fin shardCount → List AllocationRecord) :
    ((List.finRange shardCount).flatMap f : Multiset AllocationRecord) =
      ∑ i, (f i : Multiset AllocationRecord) := by
  have hall : ∀ is : List (Fin shardCount), (is.flatMap f : Multiset AllocationRecord) =
      (is.map fun i => (f i : Multiset AllocationRecord)).sum := by
    intro is
    induction is with
    | nil => rfl
    | cons i is ih =>
      rw [List.flatMap_cons, ← Multiset.coe_add, ih, List.map_cons, List.sum_cons]
  rw [hall, Fin.sum_univ_def]

theorem exists_snapshotAll (t : ShardedTracker) : ∃ result, t.SnapshotAll result := by
  let sections (i : Fin shardCount) := (FiniteTable.values (t.shards i).records).toList
  refine ⟨(List.finRange shardCount).flatMap sections, sections, fun i => ?_, rfl⟩
  exact Multiset.coe_toList _

/-- A snapshot that is computed: the records of these pointers, which come in the order of
their shards. -/
theorem snapshotAll_of_pointers {t : ShardedTracker} {ps : List Ptr}
    (hscan : ∀ i, (t.shards i).ScansTo ((ps.filter (getShardIndex · = i)).filterMap t.find))
    (hall : ps.filterMap t.find = (List.finRange shardCount).flatMap fun i =>
      (ps.filter (getShardIndex · = i)).filterMap t.find) : t.SnapshotAll (ps.filterMap t.find) :=
  ⟨_, hscan, hall⟩

theorem coe_of_snapshotAll {t : ShardedTracker} {result : List AllocationRecord}
    (h : t.SnapshotAll result) : (result : Multiset AllocationRecord) = t.records := by
  obtain ⟨sections, hscan, rfl⟩ := h
  rw [coe_flatMap_finRange, records]
  exact Finset.sum_congr rfl fun i _ => hscan i

/-- With nobody else at work the interleaved scan is `snapshot_all` run by itself. -/
theorem scan_of_snapshotAll {t : ShardedTracker} {result : List AllocationRecord}
    (h : t.SnapshotAll result) :
    Relation.ReflTransGen ScanStep (ScanState.start t) ⟨t, shardCount, result, [t]⟩ := by
  obtain ⟨sections, hscan, rfl⟩ := h
  have hsome : ∀ n ≤ shardCount, Relation.ReflTransGen ScanStep (ScanState.start t)
      ⟨t, n, ((List.finRange shardCount).take n).flatMap sections, [t]⟩ := by
    intro n
    induction n with
    | zero => exact fun _ => .refl
    | succ n ih =>
      intro hn
      refine .tail (ih (by omega)) ?_
      have htake : (List.finRange shardCount).take (n + 1) =
          (List.finRange shardCount).take n ++ [⟨n, hn⟩] := by
        rw [List.take_add_one, List.getElem?_eq_getElem (by rw [List.length_finRange]; exact hn),
          List.getElem_finRange]
        rfl
      rw [htake, List.flatMap_append, List.flatMap_singleton]
      exact .scan ⟨t, n, _, [t]⟩ hn _ (hscan _)
  have hall := hsome shardCount (Nat.le_refl _)
  rwa [List.take_of_length_le (by rw [List.length_finRange])] at hall

/-- **Snapshot under concurrency**: for every placement of foreign calls between the
sections, the result has every record stored throughout, only records stored at some
moment, and no pointer twice; without a foreign call it is the stored records. -/
theorem snapshot_all_interleaved (calls : List ForeignCall) (s : ScanState)
    (hrun : Relation.ReflTransGen ScanStep (ScanState.start (trackerAfter calls)) s)
    (hdone : s.next = shardCount) :
    (∀ p r, (∀ m ∈ s.moments, m.find p = some r) → r ∈ s.result) ∧
    (∀ r ∈ s.result, ∃ m ∈ s.moments, m.find r.userPtr = some r) ∧
    (s.result.map AllocationRecord.userPtr).Nodup ∧
    ((∀ m ∈ s.moments, m = s.tracker) →
      (s.result : Multiset AllocationRecord) = s.tracker.records) := by
  obtain ⟨hw, hk⟩ := trackerAfter_wellPlaced_keyed calls
  have h : ScanInv s :=
    Transition.invariant_of_steps (fun _ _ hinv hstep => hinv.step hstep) hrun (scanInv_start hw hk)
  refine ⟨?_, fun r hr => (h.sound r hr).2, h.nodup, result_of_no_foreign_call h hdone⟩
  intro p r hall
  have hp : r.userPtr = p := h.keyed p r (hall _ h.current)
  refine h.complete r ?_ (hp ▸ hall)
  rw [hdone]
  exact (getShardIndex r.userPtr).isLt

/-! ## Scans that are computed -/

inductive ScanEvent
  | foreign (c : ForeignCall)
  | scan (scanned : List AllocationRecord)

/-- The next section, or a call of another thread, as a function. -/
def scanning : Transition.System ScanState ScanEvent where
  step s
    | .foreign c =>
      { s with tracker := c.perform s.tracker, moments := c.perform s.tracker :: s.moments }
    | .scan scanned => { s with next := s.next + 1, result := s.result ++ scanned }
  guard s
    | .foreign _ => True
    | .scan scanned =>
      ∃ h : s.next < shardCount, (s.tracker.shards ⟨s.next, h⟩).ScansTo scanned

instance (s : ScanState) (e : ScanEvent) : Decidable (scanning.guard s e) :=
  match e with
  | .foreign _ => .isTrue trivial
  | .scan scanned => inferInstanceAs (Decidable (∃ h : s.next < shardCount,
      (s.tracker.shards ⟨s.next, h⟩).ScansTo scanned))

theorem steps_of_run {s s' : ScanState} {es : List ScanEvent}
    (h : Transition.Run scanning s es s') : Relation.ReflTransGen ScanStep s s' := by
  induction h with
  | nil s => exact .refl
  | @cons s t e es hguard _ ih =>
    refine .head ?_ ih
    cases e with
    | foreign c => exact .foreign s c
    | scan scanned =>
      obtain ⟨hnext, hscan⟩ := hguard
      exact .scan s hnext scanned hscan

/-- The record of a pointer. -/
def recordAt (userPtr : Ptr) : AllocationRecord := { userPtr := userPtr }

/-- Of the pointers stored at first, 0x10070 is in shard 19, 0x10050 in 41 and 0x10060 in 62. -/
def storedBefore : List ForeignCall :=
  [.insert (recordAt 0x10050), .insert (recordAt 0x10060), .insert (recordAt 0x10070)]

/-- After thirty sections 0x10070, which is listed, and 0x10060, which is not yet, are erased;
0x100a0 is inserted into shard 18 and 0x10080 into shard 40. -/
def scanWithOthers : List ScanEvent :=
  List.replicate 19 (.scan []) ++ .scan [recordAt 0x10070] :: List.replicate 10 (.scan []) ++
    [.foreign (.erase 0x10070), .foreign (.insert (recordAt 0x100a0)),
      .foreign (.insert (recordAt 0x10080)), .foreign (.erase 0x10060)] ++
    List.replicate 10 (.scan []) ++
    [.scan [recordAt 0x10080], .scan [recordAt 0x10050]] ++ List.replicate 22 (.scan [])

theorem snapshot_all_with_others :
    (∃ s : ScanState,
      Relation.ReflTransGen ScanStep (ScanState.start (trackerAfter storedBefore)) s ∧
      s.next = shardCount ∧ s.moments.length = 5 ∧
      s.result = [recordAt 0x10070, recordAt 0x10080, recordAt 0x10050] ∧
      (∀ m ∈ s.moments, m.find 0x10050 = some (recordAt 0x10050)) ∧
      recordAt 0x10050 ∈ s.result ∧
      (∀ r ∈ s.result, ∃ m ∈ s.moments, m.find r.userPtr = some r) ∧
      (s.result.map AllocationRecord.userPtr).Nodup) ∧
    ∃ s : ScanState,
      Relation.ReflTransGen ScanStep (ScanState.start (trackerAfter storedBefore)) s ∧
      s.next = shardCount ∧ s.moments = [s.tracker] ∧
      (s.result : Multiset AllocationRecord) = s.tracker.records := by
  constructor
  · have hrun : Transition.Run scanning (ScanState.start (trackerAfter storedBefore))
        scanWithOthers _ := .of_allows (by decide +kernel)
    obtain ⟨hcomplete, hsound, hnodup, _⟩ :=
      snapshot_all_interleaved storedBefore _ (steps_of_run hrun) (by decide +kernel)
    have hthroughout : ∀ m ∈ (scanWithOthers.foldl scanning.step
        (ScanState.start (trackerAfter storedBefore))).moments,
        m.find 0x10050 = some (recordAt 0x10050) := by decide +kernel
    exact ⟨_, steps_of_run hrun, by decide +kernel, by decide +kernel, by decide +kernel,
      hthroughout, hcomplete _ _ hthroughout, hsound, hnodup⟩
  · obtain ⟨result, hresult⟩ := exists_snapshotAll (trackerAfter storedBefore)
    have hrun := scan_of_snapshotAll hresult
    obtain ⟨_, _, _, hexact⟩ := snapshot_all_interleaved storedBefore _ hrun rfl
    exact ⟨_, hrun, rfl, rfl, hexact fun m hm => List.mem_singleton.mp hm⟩

end MemSentry.Core
