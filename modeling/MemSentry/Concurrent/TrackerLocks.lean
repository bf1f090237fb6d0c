import MemSentry.Core.ShardedTracker
import MemSentry.Library.CriticalSections

/-!
# The tracker under its locks

`core/sharded_tracker.hpp` once more, access by access. A call takes the mutex of a shard
and works on its table and on the slots of its quarantine one after the other;
`snapshot_all`, `size` and `clear` do that for the 64 shards in order. The accesses of any
number of threads interleave as the mutexes allow.

`TrackerSystem` is the tracker that the other modules speak of: `insert`, `erase` and
`find` are one step each, and the loops take one step for a shard. Every history of the
tracker with its locks is a history of it (`tracker_linearizable`).

The table of a shard is a container of the library; looking up, storing and removing an
entry are one access each.
-/

namespace MemSentry.Core

open CriticalSections Simulation Function EvictingRing

/-! ## The code -/

inductive TrackerRequest
  | insert (userPtr : Ptr) (record : AllocationRecord)
  | erase (userPtr : Ptr)
  | find (userPtr : Ptr)
  | snapshotAll
  | size
  | clear
  deriving DecidableEq

inductive TrackerAnswer
  | done
  /-- The status and what was moved to `out_record`. -/
  | erased (status : TrackerEraseStatus) (record : Option AllocationRecord)
  | found (record : Option AllocationRecord)
  | records (result : List AllocationRecord)
  | size (total : Word)
  deriving DecidableEq

/-- A critical section. The pointer of a call that takes a lock is not null; a loop over
the shards carries what it has gathered. -/
inductive TrackerSection
  | insert (userPtr : Ptr) (hp : userPtr ≠ 0) (record : AllocationRecord)
  | erase (userPtr : Ptr) (hp : userPtr ≠ 0)
  | find (userPtr : Ptr) (hp : userPtr ≠ 0)
  | scan (i : Fin shardCount) (result : List AllocationRecord)
  | count (i : Fin shardCount) (total : Word)
  | wipe (i : Fin shardCount)

/-- Where a thread is in its section. -/
inductive TrackerPoint
  -- `insert`
  | forget (slot : Nat)
  | store
  -- `erase`
  | lookup
  | moveOut
  | eraseEntry (record : AllocationRecord)
  | quarantine (record : AllocationRecord)
  | advanceHead (record : AllocationRecord)
  | search (slot : Nat)
  -- `find`
  | probe
  | copyOut
  -- `snapshot_all`
  | beginScan
  | push (keys : List Ptr) (result : List AllocationRecord)
  -- `size`
  | addSize
  -- `clear`
  | clearRecords
  | fill (slot : Nat)
  | resetHead

def firstShard : Fin shardCount := ⟨0, by decide⟩

def TrackerRequest.start : TrackerRequest → TrackerSection ⊕ TrackerAnswer
  | .insert p r => if hp : p = 0 then .inr .done else .inl (.insert p hp r)
  | .erase p => if hp : p = 0 then .inr (.erased .notFound none) else .inl (.erase p hp)
  | .find p => if hp : p = 0 then .inr (.found none) else .inl (.find p hp)
  | .snapshotAll => .inl (.scan firstShard [])
  | .size => .inl (.count firstShard 0)
  | .clear => .inl (.wipe firstShard)

def TrackerSection.cell : TrackerSection → Fin shardCount
  | .insert p _ _ | .erase p _ | .find p _ => getShardIndex p
  | .scan i _ | .count i _ | .wipe i => i

def TrackerSection.first : TrackerSection → TrackerPoint
  | .insert .. => .forget 0
  | .erase .. => .lookup
  | .find .. => .probe
  | .scan .. => .beginScan
  | .count .. => .addSize
  | .wipe .. => .clearRecords

/-- A loop over the shards goes on with the next one, or is through. -/
def nextShard (i : Fin shardCount) (go : Fin shardCount → TrackerSection)
    (answer : TrackerAnswer) : TrackerSection ⊕ TrackerAnswer :=
  if h : i.val + 1 < shardCount then .inl (go ⟨i.val + 1, h⟩) else .inr answer

def afterScan (i : Fin shardCount) (result : List AllocationRecord) :
    TrackerSection ⊕ TrackerAnswer :=
  nextShard i (.scan · result) (.records result)

def afterCount (i : Fin shardCount) (total : Word) : TrackerSection ⊕ TrackerAnswer :=
  nextShard i (.count · total) (.size total)

def afterWipe (i : Fin shardCount) : TrackerSection ⊕ TrackerAnswer := nextShard i .wipe .done

def Shard.setSlot (s : Shard) (slot : Fin quarantineSize) (ptr : Ptr) : Shard :=
  { s with quarantine := { s.quarantine with slots := update s.quarantine.slots slot ptr } }

/-- The accesses of the sections whose outcome is determined. -/
def TrackerPoint.next (s : Shard) :
    TrackerSection → TrackerPoint → Shard × (TrackerPoint ⊕ (TrackerSection ⊕ TrackerAnswer))
  | .insert p _ _, .forget slot =>
    if h : slot < quarantineSize then
      (if s.quarantine.slots ⟨slot, h⟩ = p then s.setSlot ⟨slot, h⟩ 0 else s,
        .inl (.forget (slot + 1)))
    else (s, .inl .store)
  | .insert p _ r, .store => ({ s with records := s.records.insert p r }, .inr (.inr .done))
  | .erase p _, .lookup =>
    (s, .inl (if (s.records.lookup p).isSome then .moveOut else .search 0))
  | .erase p _, .moveOut => (s, .inl (.eraseEntry ((s.records.lookup p).getD {})))
  | .erase p _, .eraseEntry r => ({ s with records := s.records.erase p }, .inl (.quarantine r))
  | .erase p _, .quarantine r =>
    (s.setSlot (s.quarantine.cursor quarantineSize_pos) p, .inl (.advanceHead r))
  | .erase _ _, .advanceHead r =>
    ({ s with quarantine := { s.quarantine with head := s.quarantine.head + 1 } },
      .inr (.inr (.erased .success (some r))))
  | .erase p _, .search slot =>
    if h : slot < quarantineSize then
      (s, if s.quarantine.slots ⟨slot, h⟩ = p then .inr (.inr (.erased .doubleFreeDetected none))
        else .inl (.search (slot + 1)))
    else (s, .inr (.inr (.erased .notFound none)))
  | .find p _, .probe =>
    (s, if (s.records.lookup p).isSome then .inl .copyOut else .inr (.inr (.found none)))
  | .find p _, .copyOut => (s, .inr (.inr (.found (s.records.lookup p))))
  | .scan i _, .push keys result =>
    (s, match keys with
      | [] => .inr (afterScan i result)
      | key :: keys => .inl (.push keys (result ++ (s.records.lookup key).toList)))
  | .count i total, .addSize =>
    (s, .inr (afterCount i (total + BitVec.ofNat 64 s.records.keys.card)))
  | .wipe _, .clearRecords => ({ s with records := ∅ }, .inl (.fill 0))
  | .wipe _, .fill slot =>
    if h : slot < quarantineSize then (s.setSlot ⟨slot, h⟩ 0, .inl (.fill (slot + 1)))
    else (s, .inl .resetHead)
  | .wipe i, .resetHead =>
    ({ s with quarantine := { s.quarantine with head := 0 } }, .inr (afterWipe i))
  | _, m => (s, .inl m)

attribute [local simp] TrackerPoint.next

/-- A scan may meet the entries of the table in any order. -/
def trackerAccess (n : TrackerSection) (m : TrackerPoint) (s s' : Shard)
    (x : TrackerPoint ⊕ (TrackerSection ⊕ TrackerAnswer)) : Prop :=
  match n, m with
  | .scan _ result, .beginScan =>
    s' = s ∧ ∃ keys : List Ptr, (keys : Multiset Ptr) = s.records.keys.val ∧
      x = .inl (.push keys result)
  | n, m => m.next s n = (s', x)

def trackerCode : Code (Fin shardCount) Shard TrackerRequest TrackerSection TrackerPoint
    TrackerAnswer where
  start := TrackerRequest.start
  cell := TrackerSection.cell
  first := TrackerSection.first
  access := trackerAccess

abbrev LockedTracker (ι : Type) :=
  Locked ι (Fin shardCount) Shard TrackerSection TrackerPoint TrackerAnswer

abbrev TrackerEvent (ι : Type) := CriticalSections.Event ι TrackerRequest TrackerAnswer

/-! ## The tracker with one step for a section -/

structure TrackerSystem (ι : Type) where
  tracker : ShardedTracker
  pool : ι → Option (TrackerSection ⊕ TrackerAnswer)

def TrackerSystem.start {ι : Type} : TrackerSystem ι := ⟨ShardedTracker.empty, fun _ => none⟩

/-- What a section does to the tracker and where the call goes on. -/
inductive TrackerSection.Performs (t : ShardedTracker) :
    TrackerSection → ShardedTracker → TrackerSection ⊕ TrackerAnswer → Prop
  | insert (p : Ptr) (hp : p ≠ 0) (r : AllocationRecord) :
      Performs t (.insert p hp r) (t.insert p r) (.inr .done)
  | erase (p : Ptr) (hp : p ≠ 0) :
      Performs t (.erase p hp) (t.afterErase p) (.inr (.erased (t.erase p).1 (t.erase p).2.1))
  | find (p : Ptr) (hp : p ≠ 0) : Performs t (.find p hp) t (.inr (.found (t.find p)))
  | scan (i : Fin shardCount) (result scanned : List AllocationRecord)
      (hscan : (t.shards i).ScansTo scanned) :
      Performs t (.scan i result) t (afterScan i (result ++ scanned))
  | count (i : Fin shardCount) (total : Word) :
      Performs t (.count i total) t
        (afterCount i (total + BitVec.ofNat 64 (t.shards i).records.keys.card))
  | wipe (i : Fin shardCount) :
      Performs t (.wipe i) ⟨update t.shards i Shard.empty⟩ (afterWipe i)

inductive TrackerSystem.Step {ι : Type} [DecidableEq ι] :
    TrackerSystem ι → Option (TrackerEvent ι) → TrackerSystem ι → Prop
  | call (s : TrackerSystem ι) (i : ι) (q : TrackerRequest) (h : s.pool i = none) :
      Step s (some (.call i q)) { s with pool := update s.pool i (some q.start) }
  | perform (s : TrackerSystem ι) (i : ι) (n : TrackerSection) (t : ShardedTracker)
      (x : TrackerSection ⊕ TrackerAnswer) (h : s.pool i = some (.inl n))
      (hperforms : n.Performs s.tracker t x) :
      Step s none { tracker := t, pool := update s.pool i (some x) }
  | answer (s : TrackerSystem ι) (i : ι) (r : TrackerAnswer) (h : s.pool i = some (.inr r)) :
      Step s (some (.answer i r)) { s with pool := update s.pool i none }

/-! ## What each section does -/

section Sections

variable {p : Ptr} {hp : p ≠ 0} {r : AllocationRecord} {c c' : Shard}
  {x : TrackerSection ⊕ TrackerAnswer}

/-- The quarantine in the middle of a loop that puts `value j` into each slot `j`. -/
def FilledBelow (value : Fin quarantineSize → Ptr) (c d : Shard) (slot : Nat) : Prop :=
  d.records = c.records ∧ d.quarantine.head = c.quarantine.head ∧
    ∀ j, d.quarantine.slots j = if j.val < slot then value j else c.quarantine.slots j

theorem filledBelow_zero (value : Fin quarantineSize → Ptr) (c : Shard) :
    FilledBelow value c c 0 :=
  ⟨rfl, rfl, fun _ => (if_neg (Nat.not_lt_zero _)).symm⟩

theorem FilledBelow.setSlot {value : Fin quarantineSize → Ptr} {d : Shard} {slot : Nat}
    (h : FilledBelow value c d slot) (hslot : slot < quarantineSize) :
    FilledBelow value c (d.setSlot ⟨slot, hslot⟩ (value ⟨slot, hslot⟩)) (slot + 1) := by
  refine ⟨h.1, h.2.1, fun j => ?_⟩
  by_cases hj : j = ⟨slot, hslot⟩
  · subst j
    rw [if_pos (Nat.lt_succ_self _)]
    exact update_self _ _ _
  · have hne : j.val ≠ slot := fun hval => hj (Fin.ext hval)
    have hstep : j.val < slot + 1 ↔ j.val < slot := by omega
    rw [if_congr hstep rfl rfl, ← h.2.2 j]
    exact update_of_ne hj _ _

/-- A slot that already has its value may be left alone. -/
theorem FilledBelow.skip {value : Fin quarantineSize → Ptr} {d : Shard} {slot : Nat}
    (h : FilledBelow value c d slot) (hslot : slot < quarantineSize)
    (hvalue : c.quarantine.slots ⟨slot, hslot⟩ = value ⟨slot, hslot⟩) :
    FilledBelow value c d (slot + 1) := by
  refine ⟨h.1, h.2.1, fun j => ?_⟩
  rw [h.2.2 j]
  by_cases hj : j.val < slot
  · rw [if_pos hj, if_pos (Nat.lt_succ_of_lt hj)]
  · by_cases hval : j.val = slot
    · have hj' : j = ⟨slot, hslot⟩ := Fin.ext hval
      rw [if_neg hj, if_pos (Nat.lt_succ_of_le (Nat.le_of_eq hval)), hj', hvalue]
    · rw [if_neg hj, if_neg (by omega)]

theorem FilledBelow.full {value : Fin quarantineSize → Ptr} {d : Shard} {slot : Nat}
    (h : FilledBelow value c d slot) (hslot : ¬ slot < quarantineSize) :
    d = ⟨c.records, ⟨value, c.quarantine.head⟩⟩ := by
  obtain ⟨records, slots, head⟩ := d
  obtain ⟨hrecords, hhead, hslots⟩ := h
  have hall : slots = value := by
    funext j
    have hj := j.isLt
    exact (hslots j).trans (if_pos (by omega))
  cases hrecords
  cases hhead
  rw [hall]

/-- The loop of `insert` and the store after it. -/
def InsertMidway (p : Ptr) (c : Shard) (m : TrackerPoint) (d : Shard) : Prop :=
  match m with
  | .forget slot =>
    FilledBelow (fun j => if c.quarantine.slots j = p then 0 else c.quarantine.slots j) c d slot
  | .store => d = { c with quarantine := c.quarantine.forget 0 p }
  | _ => False

theorem insert_section (h : trackerCode.Section (.insert p hp r) c c' x) :
    c' = c.insert p r ∧ x = .inr .done := by
  have hkeep : ∀ m d m' d', InsertMidway p c m d →
      trackerCode.access (.insert p hp r) m d d' (.inl m') → InsertMidway p c m' d' := by
    intro m d m' d' hmidway haccess
    cases m with
    | store => cases haccess
    | forget slot =>
      simp only [trackerCode, trackerAccess, TrackerPoint.next] at haccess
      split at haccess
      · rename_i hslot
        have hold : d.quarantine.slots ⟨slot, hslot⟩ = c.quarantine.slots ⟨slot, hslot⟩ := by
          rw [hmidway.2.2, if_neg (Nat.lt_irrefl _)]
        cases haccess
        rw [hold]
        split
        · rename_i hfound
          have hnext := FilledBelow.setSlot hmidway hslot
          rw [if_pos hfound] at hnext
          exact hnext
        · rename_i hother
          exact FilledBelow.skip hmidway hslot (if_neg hother).symm
      · rename_i hslot
        cases haccess
        exact FilledBelow.full hmidway hslot
    | _ => exact hmidway.elim
  obtain ⟨m, d, hmidway, hlast⟩ := h.invariant (I := InsertMidway p c) (filledBelow_zero _ c) hkeep
  cases m with
  | store =>
    cases (hmidway : d = _)
    cases hlast
    exact ⟨rfl, rfl⟩
  | forget slot =>
    simp only [trackerCode, trackerAccess, TrackerPoint.next] at hlast
    split at hlast <;> cases hlast
  | _ => exact hmidway.elim

/-- `erase` on its way through the success branch or the search of the quarantine. -/
def EraseMidway (p : Ptr) (c : Shard) (m : TrackerPoint) (d : Shard) : Prop :=
  match m with
  | .lookup => d = c
  | .moveOut => d = c ∧ (c.records.lookup p).isSome
  | .eraseEntry r => d = c ∧ c.records.lookup p = some r
  | .quarantine r => d = { c with records := c.records.erase p } ∧ c.records.lookup p = some r
  | .advanceHead r =>
    d = Shard.setSlot { c with records := c.records.erase p }
      (c.quarantine.cursor quarantineSize_pos) p ∧ c.records.lookup p = some r
  | .search slot =>
    d = c ∧ c.records.lookup p = none ∧ ∀ j : Fin quarantineSize, j.val < slot →
      c.quarantine.slots j ≠ p
  | _ => False

theorem erase_section (h : trackerCode.Section (.erase p hp) c c' x) :
    (∃ r, c.records.lookup p = some r ∧ c' = c.release p ∧
      x = .inr (.erased .success (some r))) ∨
    (c.records.lookup p = none ∧ c.quarantine.Holds p ∧ c' = c ∧
      x = .inr (.erased .doubleFreeDetected none)) ∨
    (c.records.lookup p = none ∧ ¬ c.quarantine.Holds p ∧ c' = c ∧
      x = .inr (.erased .notFound none)) := by
  have hkeep : ∀ m d m' d', EraseMidway p c m d →
      trackerCode.access (.erase p hp) m d d' (.inl m') → EraseMidway p c m' d' := by
    intro m d m' d' hmidway haccess
    cases m with
    | lookup =>
      cases (hmidway : d = c)
      cases haccess
      rcases hlookup : c.records.lookup p with _ | r
      · exact ⟨rfl, hlookup, fun j hj => absurd hj (Nat.not_lt_zero _)⟩
      · exact ⟨rfl, by rw [hlookup]; rfl⟩
    | moveOut =>
      obtain ⟨rfl, hsome⟩ := hmidway
      cases haccess
      obtain ⟨r, hr⟩ := Option.isSome_iff_exists.mp hsome
      exact ⟨rfl, by rw [hr]; rfl⟩
    | eraseEntry r =>
      obtain ⟨rfl, hlookup⟩ := hmidway
      cases haccess
      exact ⟨rfl, hlookup⟩
    | quarantine r =>
      obtain ⟨rfl, hlookup⟩ := hmidway
      cases haccess
      exact ⟨rfl, hlookup⟩
    | advanceHead r => cases haccess
    | search slot =>
      obtain ⟨rfl, hlookup, hbelow⟩ := hmidway
      simp only [trackerCode, trackerAccess, TrackerPoint.next] at haccess
      split at haccess
      · rename_i hslot
        split at haccess
        · cases haccess
        · rename_i hother
          cases haccess
          refine ⟨rfl, hlookup, fun j hj => ?_⟩
          rcases Nat.lt_succ_iff_lt_or_eq.mp hj with hlt | heq
          · exact hbelow j hlt
          · rw [show j = ⟨slot, hslot⟩ from Fin.ext heq]
            exact hother
      · cases haccess
    | _ => exact hmidway.elim
  obtain ⟨m, d, hmidway, hlast⟩ := h.invariant (I := EraseMidway p c) rfl hkeep
  cases m with
  | advanceHead r =>
    obtain ⟨rfl, hlookup⟩ := hmidway
    cases hlast
    exact Or.inl ⟨r, hlookup, rfl, rfl⟩
  | search slot =>
    obtain ⟨rfl, hlookup, hbelow⟩ := hmidway
    refine Or.inr ?_
    simp only [trackerCode, trackerAccess, TrackerPoint.next] at hlast
    split at hlast
    · rename_i hslot
      split at hlast
      · rename_i hfound
        cases hlast
        exact Or.inl ⟨hlookup, ⟨_, hfound⟩, rfl, rfl⟩
      · cases hlast
    · rename_i hslot
      have hmissing : ¬ d.quarantine.Holds p := by
        rintro ⟨j, hj⟩
        exact hbelow j (Nat.lt_of_lt_of_le j.isLt (Nat.le_of_not_lt hslot)) hj
      cases hlast
      exact Or.inr ⟨hlookup, hmissing, rfl, rfl⟩
  | lookup | moveOut | eraseEntry r | quarantine r => cases hlast
  | _ => exact hmidway.elim

theorem find_section (h : trackerCode.Section (.find p hp) c c' x) :
    c' = c ∧ x = .inr (.found (c.records.lookup p)) := by
  have hkeep : ∀ m d m' d', (m = .probe ∨ m = .copyOut) ∧ d = c →
      trackerCode.access (.find p hp) m d d' (.inl m') →
      (m' = .probe ∨ m' = .copyOut) ∧ d' = c := by
    intro m d m' d' hmidway haccess
    obtain ⟨rfl | rfl, rfl⟩ := hmidway
    · simp only [trackerCode, trackerAccess, TrackerPoint.next] at haccess
      split at haccess
      · cases haccess
        exact ⟨Or.inr rfl, rfl⟩
      · cases haccess
    · cases haccess
  obtain ⟨m, d, hmidway, hlast⟩ :=
    h.invariant (I := fun m d => (m = .probe ∨ m = .copyOut) ∧ d = c) ⟨Or.inl rfl, rfl⟩ hkeep
  obtain ⟨rfl | rfl, rfl⟩ := hmidway
  · simp only [trackerCode, trackerAccess, TrackerPoint.next] at hlast
    split at hlast
    · cases hlast
    · rename_i hmissing
      cases hlast
      exact ⟨rfl, by rw [Option.not_isSome_iff_eq_none.mp hmissing]⟩
  · cases hlast
    exact ⟨rfl, rfl⟩

/-- The loop over the entries of a shard, with some order of them. -/
def ScanMidway (result : List AllocationRecord) (c : Shard) (m : TrackerPoint) (d : Shard) :
    Prop :=
  d = c ∧ match m with
  | .beginScan => True
  | .push keys gathered => ∃ done : List Ptr, ((done ++ keys : List Ptr) : Multiset Ptr) =
      c.records.keys.val ∧ gathered = result ++ done.filterMap c.records.lookup
  | _ => False

/-- Looking every key up once gives every record once. -/
theorem scansTo_filterMap {keys : List Ptr} (h : (keys : Multiset Ptr) = c.records.keys.val) :
    c.ScansTo (keys.filterMap c.records.lookup) := by
  unfold Shard.ScansTo FiniteTable.values
  have hentries : ∀ e ∈ c.records.entries, c.records.lookup e.1 = some e.2 := fun e he =>
    Finmap.lookup_eq_some_iff.mpr he
  have hkeys : (keys : Multiset Ptr) = c.records.entries.map Sigma.fst := h
  rw [← Multiset.filterMap_coe, hkeys]
  obtain ⟨entries, hlist⟩ := Quot.exists_rep c.records.entries
  rw [← hlist] at hentries ⊢
  have hmap : (entries.map Sigma.fst).filterMap (fun p => c.records.lookup p) =
      entries.map Sigma.snd := by
    rw [List.filterMap_map, ← List.filterMap_eq_map]
    exact List.filterMap_congr fun e he => hentries e he
  exact congrArg Multiset.ofList hmap

theorem scan_section {i : Fin shardCount} {result : List AllocationRecord}
    (h : trackerCode.Section (.scan i result) c c' x) :
    c' = c ∧ ∃ scanned, c.ScansTo scanned ∧ x = afterScan i (result ++ scanned) := by
  have hkeep : ∀ m d m' d', ScanMidway result c m d →
      trackerCode.access (.scan i result) m d d' (.inl m') → ScanMidway result c m' d' := by
    rintro m d m' d' ⟨rfl, hmidway⟩ haccess
    cases m with
    | beginScan =>
      obtain ⟨rfl, keys, hkeys, hm'⟩ := haccess
      cases hm'
      exact ⟨rfl, [], hkeys, (List.append_nil _).symm⟩
    | push keys gathered =>
      obtain ⟨done, hdone, rfl⟩ := hmidway
      cases keys with
      | nil =>
        simp only [trackerCode, trackerAccess, TrackerPoint.next] at haccess
        cases haccess
      | cons key keys =>
        cases haccess
        refine ⟨rfl, done ++ [key], by rw [List.append_assoc]; exact hdone, ?_⟩
        rw [List.filterMap_append, List.append_assoc]
        congr 2
    | _ => exact hmidway.elim
  obtain ⟨m, d, ⟨rfl, hmidway⟩, hlast⟩ :=
    h.invariant (I := ScanMidway result c) ⟨rfl, trivial⟩ hkeep
  cases m with
  | beginScan =>
    obtain ⟨_, _, _, hm'⟩ := hlast
    cases hm'
  | push keys gathered =>
    obtain ⟨done, hdone, rfl⟩ := hmidway
    cases keys with
    | nil =>
      rw [List.append_nil] at hdone
      simp only [trackerCode, trackerAccess, TrackerPoint.next] at hlast
      cases hlast
      exact ⟨rfl, _, scansTo_filterMap hdone, rfl⟩
    | cons key keys => cases hlast
  | _ => exact hmidway.elim

theorem count_section {i : Fin shardCount} {total : Word}
    (h : trackerCode.Section (.count i total) c c' x) :
    c' = c ∧ x = afterCount i (total + BitVec.ofNat 64 c.records.keys.card) := by
  have hkeep : ∀ m d m' d', m = .addSize ∧ d = c →
      trackerCode.access (.count i total) m d d' (.inl m') → m' = .addSize ∧ d' = c := by
    rintro m d m' d' ⟨rfl, rfl⟩ haccess
    cases haccess
  obtain ⟨m, d, ⟨rfl, rfl⟩, hlast⟩ :=
    h.invariant (I := fun m d => m = .addSize ∧ d = c) ⟨rfl, rfl⟩ hkeep
  cases hlast
  exact ⟨rfl, rfl⟩

/-- `clear` on its way through a shard. -/
def WipeMidway (c : Shard) (m : TrackerPoint) (d : Shard) : Prop :=
  match m with
  | .clearRecords => d = c
  | .fill slot => FilledBelow (fun _ => 0) { c with records := ∅ } d slot
  | .resetHead => d = ⟨∅, ⟨fun _ => 0, c.quarantine.head⟩⟩
  | _ => False

theorem wipe_section {i : Fin shardCount} (h : trackerCode.Section (.wipe i) c c' x) :
    c' = Shard.empty ∧ x = afterWipe i := by
  have hkeep : ∀ m d m' d', WipeMidway c m d →
      trackerCode.access (.wipe i) m d d' (.inl m') → WipeMidway c m' d' := by
    intro m d m' d' hmidway haccess
    cases m with
    | clearRecords =>
      cases (hmidway : d = c)
      cases haccess
      exact filledBelow_zero _ _
    | fill slot =>
      simp only [trackerCode, trackerAccess, TrackerPoint.next] at haccess
      split at haccess
      · rename_i hslot
        cases haccess
        exact FilledBelow.setSlot hmidway hslot
      · rename_i hslot
        cases haccess
        exact FilledBelow.full hmidway hslot
    | resetHead => cases haccess
    | _ => exact hmidway.elim
  obtain ⟨m, d, hmidway, hlast⟩ := h.invariant (I := WipeMidway c) rfl hkeep
  cases m with
  | resetHead =>
    cases (hmidway : d = _)
    cases hlast
    exact ⟨rfl, rfl⟩
  | fill slot =>
    simp only [trackerCode, trackerAccess, TrackerPoint.next] at hlast
    split at hlast <;> cases hlast
  | clearRecords => cases hlast
  | _ => exact hmidway.elim

end Sections

/-! ## Every section is one step of the tracker -/

theorem section_performs {t : ShardedTracker} {n : TrackerSection} {c : Shard}
    {x : TrackerSection ⊕ TrackerAnswer} (h : trackerCode.Section n (t.shards n.cell) c x) :
    n.Performs t ⟨update t.shards n.cell c⟩ x := by
  cases n with
  | insert p hp r =>
    obtain ⟨rfl, rfl⟩ := insert_section h
    have hperforms := TrackerSection.Performs.insert (t := t) p hp r
    rw [ShardedTracker.insert_eq hp] at hperforms
    exact hperforms
  | erase p hp =>
    have hperforms := TrackerSection.Performs.erase (t := t) p hp
    rcases erase_section h with ⟨r, hlookup, rfl, rfl⟩ | ⟨hlookup, hholds, rfl, rfl⟩ |
      ⟨hlookup, hmissing, rfl, rfl⟩
    · have hfind : t.find p = some r := (ShardedTracker.find_eq_lookup hp).trans hlookup
      rw [ShardedTracker.afterErase_of_find hfind, ShardedTracker.erase_of_find hfind] at hperforms
      exact hperforms
    · have hfind : t.find p = none := (ShardedTracker.find_eq_lookup hp).trans hlookup
      rw [ShardedTracker.afterErase_of_find_none hfind,
        ShardedTracker.erase_of_quarantined hp hfind hholds] at hperforms
      simp only [TrackerSection.cell, update_eq_self]
      exact hperforms
    · have hfind : t.find p = none := (ShardedTracker.find_eq_lookup hp).trans hlookup
      rw [ShardedTracker.afterErase_of_find_none hfind,
        ShardedTracker.erase_of_not_quarantined hfind (Or.inr hmissing)] at hperforms
      simp only [TrackerSection.cell, update_eq_self]
      exact hperforms
  | find p hp =>
    obtain ⟨rfl, rfl⟩ := find_section h
    have hperforms := TrackerSection.Performs.find (t := t) p hp
    rw [ShardedTracker.find_eq_lookup hp] at hperforms
    simp only [TrackerSection.cell, update_eq_self]
    exact hperforms
  | scan i result =>
    obtain ⟨rfl, scanned, hscan, rfl⟩ := scan_section h
    simp only [TrackerSection.cell, update_eq_self]
    exact .scan i result scanned hscan
  | count i total =>
    obtain ⟨rfl, rfl⟩ := count_section h
    simp only [TrackerSection.cell, update_eq_self]
    exact .count i total
  | wipe i =>
    obtain ⟨rfl, rfl⟩ := wipe_section h
    exact .wipe i

/-! ## Every step of the tracker is a section

Each loop comes to its end, so the section can always be carried out; what it does was
said above. -/

section Reaching

variable {p : Ptr} {hp : p ≠ 0} {r : AllocationRecord} {c : Shard}

/-- A loop over the slots, each pass one access, reaches its end. -/
theorem reaches_end {n : TrackerSection} (point : Nat → TrackerPoint)
    (hpass : ∀ slot d, slot < quarantineSize → ∃ d', trackerCode.access n (point slot) d d'
      (.inl (point (slot + 1)))) (d : Shard) :
    ∃ d', trackerCode.Reaches n (point 0, d) (point quarantineSize, d') := by
  have hupTo : ∀ slot, slot ≤ quarantineSize →
      ∃ d', trackerCode.Reaches n (point 0, d) (point slot, d') := by
    intro slot
    induction slot with
    | zero => exact fun _ => ⟨d, .refl⟩
    | succ slot ih =>
      intro hslot
      obtain ⟨e, he⟩ := ih (Nat.le_of_succ_le hslot)
      obtain ⟨d', hd'⟩ := hpass slot e hslot
      exact ⟨d', he.tail hd'⟩
  exact hupTo quarantineSize (Nat.le_refl _)

theorem insert_section_exists : trackerCode.Section (.insert p hp r) c (c.insert p r)
    (.inr .done) := by
  obtain ⟨d, hloop⟩ := reaches_end (n := .insert p hp r) .forget
    (fun slot d hslot => ⟨if d.quarantine.slots ⟨slot, hslot⟩ = p then d.setSlot ⟨slot, hslot⟩ 0
      else d, by simp only [trackerCode, trackerAccess, TrackerPoint.next, dif_pos hslot]⟩) c
  have hsection : trackerCode.Section (.insert p hp r) c { d with records := d.records.insert p r }
      (.inr .done) := by
    refine ⟨.store, d, hloop.tail ?_, rfl⟩
    simp only [trackerCode, trackerAccess, TrackerPoint.next, dif_neg (Nat.lt_irrefl _)]
  have hresult := (insert_section hsection).1
  rwa [hresult] at hsection

theorem erase_section_success (hlookup : c.records.lookup p = some r) :
    trackerCode.Section (.erase p hp) c (c.release p) (.inr (.erased .success (some r))) := by
  have hfound : trackerCode.Reaches (.erase p hp) (.lookup, c) (.moveOut, c) := by
    refine .single ?_
    simp only [trackerCode, trackerAccess, TrackerPoint.next, hlookup]
    rfl
  have hmoved : trackerCode.Reaches (.erase p hp) (.lookup, c) (.eraseEntry r, c) := by
    refine hfound.tail ?_
    simp only [trackerCode, trackerAccess, TrackerPoint.next, hlookup]
    rfl
  have herased : trackerCode.Reaches (.erase p hp) (.lookup, c)
      (.quarantine r, { c with records := c.records.erase p }) := hmoved.tail rfl
  exact ⟨.advanceHead r, _, herased.tail rfl, rfl⟩

theorem erase_section_search (hlookup : c.records.lookup p = none) :
    trackerCode.Reaches (.erase p hp) (.lookup, c) (.search 0, c) := by
  refine .single ?_
  simp only [trackerCode, trackerAccess, TrackerPoint.next, hlookup]
  rfl

/-- The search meets the pointer, or comes to the end of the quarantine. -/
theorem erase_section_exists (hp : p ≠ 0) (hlookup : c.records.lookup p = none) :
    ∃ c' x, trackerCode.Section (.erase p hp) c c' x := by
  have hupTo : ∀ slot, slot ≤ quarantineSize →
      (∃ c' x, trackerCode.Section (.erase p hp) c c' x) ∨
        trackerCode.Reaches (.erase p hp) (.lookup, c) (.search slot, c) := by
    intro slot
    induction slot with
    | zero => exact fun _ => Or.inr (erase_section_search hlookup)
    | succ slot ih =>
      intro hslot
      have hlt : slot < quarantineSize := hslot
      rcases ih (Nat.le_of_succ_le hslot) with hdone | hreach
      · exact Or.inl hdone
      · by_cases hfound : c.quarantine.slots ⟨slot, hlt⟩ = p
        · refine Or.inl ⟨c, .inr (.erased .doubleFreeDetected none), _, c, hreach, ?_⟩
          simp only [trackerCode, trackerAccess, TrackerPoint.next]
          rw [dif_pos hlt, if_pos hfound]
        · refine Or.inr (hreach.tail ?_)
          simp only [trackerCode, trackerAccess, TrackerPoint.next]
          rw [dif_pos hlt, if_neg hfound]
  rcases hupTo quarantineSize (Nat.le_refl _) with hdone | hreach
  · exact hdone
  · refine ⟨c, .inr (.erased .notFound none), _, c, hreach, ?_⟩
    simp only [trackerCode, trackerAccess, TrackerPoint.next, dif_neg (Nat.lt_irrefl _)]

theorem find_section_exists (p : Ptr) (hp : p ≠ 0) (c : Shard) :
    ∃ c' x, trackerCode.Section (.find p hp) c c' x := by
  rcases hlookup : c.records.lookup p with _ | r
  · refine ⟨c, .inr (.found none), .probe, c, .refl, ?_⟩
    simp only [trackerCode, trackerAccess, TrackerPoint.next, hlookup]
    rfl
  · refine ⟨c, _, .copyOut, c, .single ?_, rfl⟩
    simp only [trackerCode, trackerAccess, TrackerPoint.next, TrackerSection.first, hlookup]
    rfl

/-- Records in some order come from their keys in some order. -/
theorem exists_keys {entries : Multiset ((_ : Ptr) × AllocationRecord)}
    {scanned : List AllocationRecord}
    (h : (scanned : Multiset AllocationRecord) = entries.map Sigma.snd) :
    ∃ order : List ((_ : Ptr) × AllocationRecord), (order : Multiset _) = entries ∧
      order.map Sigma.snd = scanned := by
  induction scanned generalizing entries with
  | nil =>
    rw [Multiset.coe_nil, eq_comm, Multiset.map_eq_zero] at h
    exact ⟨[], h.symm, rfl⟩
  | cons r scanned ih =>
    rw [← Multiset.cons_coe, eq_comm, ← Multiset.map_eq_cons] at h
    obtain ⟨e, he, hr, hrest⟩ := h
    obtain ⟨order, horder, hmap⟩ := ih hrest.symm
    refine ⟨e :: order, ?_, by rw [List.map_cons, hr, hmap]⟩
    rw [← Multiset.cons_coe, horder, Multiset.cons_erase he]

theorem scan_section_exists {i : Fin shardCount} {result scanned : List AllocationRecord}
    (hscan : c.ScansTo scanned) :
    trackerCode.Section (.scan i result) c c (afterScan i (result ++ scanned)) := by
  obtain ⟨order, horder, hmap⟩ := exists_keys hscan
  have hlookup : ∀ e ∈ order, c.records.lookup e.1 = some e.2 := by
    intro e he
    refine Finmap.lookup_eq_some_iff.mpr ?_
    rw [← horder]
    exact he
  have hpushes : ∀ (order : List ((_ : Ptr) × AllocationRecord)) (gathered : List AllocationRecord),
      (∀ e ∈ order, c.records.lookup e.1 = some e.2) →
      trackerCode.Reaches (.scan i result) (.push (order.map Sigma.fst) gathered, c)
        (.push [] (gathered ++ order.map Sigma.snd), c) := by
    intro order
    induction order with
    | nil =>
      intro gathered _
      rw [List.map_nil, List.map_nil, List.append_nil]
      exact .refl
    | cons e order ih =>
      intro gathered hall
      have hrest := ih (gathered ++ [e.2]) fun e' he' => hall e' (List.mem_cons_of_mem _ he')
      rw [List.append_assoc] at hrest
      refine .head ?_ hrest
      simp only [trackerCode, trackerAccess, TrackerPoint.next, List.map_cons,
        hall e List.mem_cons_self, Option.toList_some]
  refine ⟨.push [] (result ++ scanned), c, ?_, rfl⟩
  rw [← hmap]
  refine .head ?_ (hpushes order result hlookup)
  refine ⟨rfl, order.map Sigma.fst, ?_, rfl⟩
  rw [← Multiset.map_coe, horder]
  rfl

theorem wipe_section_exists {i : Fin shardCount} :
    ∃ c' x, trackerCode.Section (.wipe i) c c' x := by
  obtain ⟨d, hloop⟩ := reaches_end (n := .wipe i) .fill
    (fun slot d hslot => ⟨d.setSlot ⟨slot, hslot⟩ 0, by
      simp only [trackerCode, trackerAccess, TrackerPoint.next, dif_pos hslot]⟩)
    { c with records := ∅ }
  have hcleared : trackerCode.Reaches (.wipe i) (.clearRecords, c)
      (.fill 0, { c with records := ∅ }) := .single rfl
  refine ⟨_, _, .resetHead, d, hcleared.trans (hloop.tail ?_), rfl⟩
  simp only [trackerCode, trackerAccess, TrackerPoint.next, dif_neg (Nat.lt_irrefl _)]

end Reaching

theorem performs_section {t t' : ShardedTracker} {n : TrackerSection}
    {x : TrackerSection ⊕ TrackerAnswer} (h : n.Performs t t' x) :
    ∃ c, trackerCode.Section n (t.shards n.cell) c x ∧ t' = ⟨update t.shards n.cell c⟩ := by
  have hkeep : ∀ i, t = ⟨update t.shards i (t.shards i)⟩ := fun i => by rw [update_eq_self]
  cases h with
  | insert p hp r =>
    refine ⟨_, insert_section_exists, ?_⟩
    rw [ShardedTracker.insert_eq hp]
    rfl
  | erase p hp =>
    rcases hlookup : (t.shards (getShardIndex p)).records.lookup p with _ | r
    · have hfind : t.find p = none := (ShardedTracker.find_eq_lookup hp).trans hlookup
      obtain ⟨c', x, hsection⟩ := erase_section_exists hp hlookup
      have hperforms := section_performs (n := .erase p hp) hsection
      rw [ShardedTracker.afterErase_of_find_none hfind]
      rcases erase_section hsection with ⟨r, hr, _⟩ | ⟨_, hholds, rfl, rfl⟩ | ⟨_, hmissing, rfl, rfl⟩
      · rw [hlookup] at hr
        cases hr
      · rw [ShardedTracker.erase_of_quarantined hp hfind hholds]
        exact ⟨_, hsection, hkeep _⟩
      · rw [ShardedTracker.erase_of_not_quarantined hfind (Or.inr hmissing)]
        exact ⟨_, hsection, hkeep _⟩
    · have hfind : t.find p = some r := (ShardedTracker.find_eq_lookup hp).trans hlookup
      rw [ShardedTracker.afterErase_of_find hfind, ShardedTracker.erase_of_find hfind]
      exact ⟨_, erase_section_success hlookup, rfl⟩
  | find p hp =>
    obtain ⟨c', x, hsection⟩ := find_section_exists p hp (t.shards (getShardIndex p))
    obtain ⟨rfl, rfl⟩ := find_section hsection
    rw [ShardedTracker.find_eq_lookup hp]
    exact ⟨_, hsection, hkeep _⟩
  | scan i result scanned hscan => exact ⟨_, scan_section_exists hscan, hkeep i⟩
  | count i total => exact ⟨_, ⟨.addSize, _, .refl, rfl⟩, hkeep i⟩
  | wipe i =>
    obtain ⟨c', x, hsection⟩ := wipe_section_exists (i := i) (c := t.shards i)
    obtain ⟨rfl, rfl⟩ := wipe_section hsection
    exact ⟨_, hsection, rfl⟩

section Histories

variable {ι : Type} [DecidableEq ι]

/-- The cells of the atomic object are the shards of the tracker. -/
def SameShards (s : Atomic ι (Fin shardCount) Shard TrackerSection TrackerAnswer)
    (a : TrackerSystem ι) : Prop :=
  s = ⟨a.tracker.shards, a.pool⟩

theorem atomic_simulates : Simulates (Atomic.Step trackerCode) (TrackerSystem.Step (ι := ι))
    SameShards := by
  rintro _ l s' a rfl hstep
  cases hstep with
  | call i q h => exact matched_by_step (.call a i q h) rfl
  | perform i n c x h hsection =>
    exact matched_by_step (.perform a i n _ x h (section_performs hsection)) rfl
  | answer i r h => exact matched_by_step (.answer a i r h) rfl

theorem simulates_atomic : Simulates (TrackerSystem.Step (ι := ι)) (Atomic.Step trackerCode)
    fun a s => SameShards s a := by
  rintro a l a' _ rfl hstep
  refine ⟨_, ?_, rfl⟩
  cases hstep with
  | call i q h => exact .single (.call ⟨a.tracker.shards, a.pool⟩ i q h)
  | perform i n t x h hperforms =>
    obtain ⟨c, hsection, rfl⟩ := performs_section hperforms
    exact .single (.perform ⟨a.tracker.shards, a.pool⟩ i n c x h hsection)
  | answer i r h => exact .single (.answer ⟨a.tracker.shards, a.pool⟩ i r h)

variable {es : List (TrackerEvent ι)}

theorem system_of_locked {s : LockedTracker ι}
    (h : Run (Locked.Step trackerCode) (Locked.start ShardedTracker.empty.shards) es s) :
    ∃ a : TrackerSystem ι, Run TrackerSystem.Step TrackerSystem.start es a := by
  obtain ⟨b, hatomic, _⟩ := locked_refines_atomic trackerCode h
  obtain ⟨a, hrun, _⟩ := atomic_simulates.run hatomic (t := TrackerSystem.start) rfl
  exact ⟨a, hrun⟩

theorem locked_of_system {a : TrackerSystem ι}
    (h : Run TrackerSystem.Step TrackerSystem.start es a) : ∃ s : LockedTracker ι,
      Run (Locked.Step trackerCode) (Locked.start ShardedTracker.empty.shards) es s := by
  obtain ⟨b, hatomic, _⟩ := simulates_atomic.run h
    (t := Atomic.start ShardedTracker.empty.shards) rfl
  exact (locked_iff_atomic trackerCode).mpr ⟨b, hatomic⟩

/-- What any number of threads can see of the tracker with its locks is what they can see
of the tracker that does `insert`, `erase` and `find` in one step each and the loops one
shard at a time. -/
theorem tracker_linearizable (es : List (TrackerEvent ι)) :
    (∃ s : LockedTracker ι,
      Run (Locked.Step trackerCode) (Locked.start ShardedTracker.empty.shards) es s) ↔
    ∃ a : TrackerSystem ι, Run TrackerSystem.Step TrackerSystem.start es a := by
  constructor
  · rintro ⟨s, h⟩
    exact system_of_locked h
  · rintro ⟨a, h⟩
    exact locked_of_system h

end Histories

end MemSentry.Core
