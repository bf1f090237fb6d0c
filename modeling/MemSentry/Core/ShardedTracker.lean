import MemSentry.Types
import MemSentry.Library.EvictingRing
import MemSentry.Library.FiniteTable

/-!
# The sharded tracker

`core/sharded_tracker.hpp`. Sixty-four shards, each a table of records keyed by user
pointer and a ring of the last 256 released pointers. The order in which an
`unordered_map` is iterated is unspecified, so the table is a `Finmap` and reading a
shard out is a relation (`ScansTo`): any order of its records will do.

Every operation below takes the lock of the one shard it touches, except `size`, `clear`
and `snapshot_all`, which go through the shards one at a time.
-/

namespace MemSentry.Core

open EvictingRing

def shardCount : Nat := 64

/-- The slots of `quarantine`. -/
def quarantineSize : Nat := 256

inductive TrackerEraseStatus
  | success
  | notFound
  | doubleFreeDetected
  deriving DecidableEq, Repr

/-- The ring of released pointers: `quarantine` and `quarantine_head`. -/
abbrev Quarantine := Ring Ptr quarantineSize 64

structure Shard where
  records : Finmap fun _ : Ptr => AllocationRecord
  quarantine : Quarantine

structure ShardedTracker where
  shards : Fin shardCount → Shard

theorem quarantineSize_pos : 0 < quarantineSize := by decide

theorem quarantineSize_dvd : quarantineSize ∣ 2 ^ 64 := by decide

/-- An empty table, a quarantine of null pointers, the head at 0. -/
def Shard.empty : Shard := ⟨∅, ⟨fun _ => 0, 0⟩⟩

def ShardedTracker.empty : ShardedTracker := ⟨fun _ => Shard.empty⟩

def getShardIndex (ptr : Ptr) : Fin shardCount :=
  ⟨((ptr >>> 4) * 0x9E3779B97F4A7C15#64 &&& 63#64).toNat, by
    have h : ((ptr >>> 4) * 0x9E3779B97F4A7C15#64 &&& 63#64).toNat ≤ 63 := by
      rw [BitVec.toNat_and]
      exact Nat.and_le_right
    exact Nat.lt_succ_of_le h⟩

/-- The pointer is in some slot of the quarantine. -/
def Quarantine.Holds (q : Quarantine) (ptr : Ptr) : Prop := ∃ i, q.slots i = ptr

instance (q : Quarantine) (ptr : Ptr) : Decidable (q.Holds ptr) :=
  inferInstanceAs (Decidable (∃ i, q.slots i = ptr))

/-! ## One shard -/

def Shard.insert (s : Shard) (userPtr : Ptr) (record : AllocationRecord) : Shard where
  records := s.records.insert userPtr record
  quarantine := s.quarantine.forget 0 userPtr

/-- The success branch of `erase`. -/
def Shard.release (s : Shard) (userPtr : Ptr) : Shard where
  records := s.records.erase userPtr
  quarantine := s.quarantine.push quarantineSize_pos userPtr

/-! ## The tracker -/

namespace ShardedTracker

variable (t : ShardedTracker)

def shardOf (userPtr : Ptr) : Shard := t.shards (getShardIndex userPtr)

def setShard (userPtr : Ptr) (s : Shard) : ShardedTracker :=
  ⟨Function.update t.shards (getShardIndex userPtr) s⟩

def insert (userPtr : Ptr) (record : AllocationRecord) : ShardedTracker :=
  if userPtr = 0 then t
  else t.setShard userPtr ((t.shardOf userPtr).insert userPtr record)

/-- The record stored for a pointer. -/
def find (userPtr : Ptr) : Option AllocationRecord :=
  if userPtr = 0 then none else (t.shardOf userPtr).records.lookup userPtr

/-- `erase`: the status, the record moved out on success, the tracker. -/
def erase (userPtr : Ptr) : TrackerEraseStatus × Option AllocationRecord × ShardedTracker :=
  if userPtr = 0 then (.notFound, none, t)
  else
    match (t.shardOf userPtr).records.lookup userPtr with
    | some record =>
      (.success, some record, t.setShard userPtr ((t.shardOf userPtr).release userPtr))
    | none =>
      if (t.shardOf userPtr).quarantine.Holds userPtr then (.doubleFreeDetected, none, t)
      else (.notFound, none, t)

/-- `size`: the shard sizes added up in a `size_t`. -/
def size : Word :=
  (List.finRange shardCount).foldl
    (fun total i => total + BitVec.ofNat 64 (t.shards i).records.keys.card) 0

def clear : ShardedTracker :=
  ⟨fun i => { t.shards i with records := ∅, quarantine := ⟨fun _ => 0, 0⟩ }⟩

/-- The pointer is quarantined in its shard. -/
def Quarantined (userPtr : Ptr) : Prop := (t.shardOf userPtr).quarantine.Holds userPtr

instance (userPtr : Ptr) : Decidable (t.Quarantined userPtr) :=
  inferInstanceAs (Decidable (Quarantine.Holds _ _))

end ShardedTracker

/-- One critical section of `snapshot_all` appends the records of its shard, in the
order in which the table happens to be iterated. -/
def Shard.ScansTo (s : Shard) (scanned : List AllocationRecord) : Prop :=
  (scanned : Multiset AllocationRecord) = FiniteTable.values s.records

instance (s : Shard) (scanned : List AllocationRecord) : Decidable (s.ScansTo scanned) :=
  inferInstanceAs (Decidable (_ = _))

/-- `snapshot_all` with no concurrent call: the sections of the shards, in order. -/
def ShardedTracker.SnapshotAll (t : ShardedTracker) (result : List AllocationRecord) : Prop :=
  ∃ sections : Fin shardCount → List AllocationRecord,
    (∀ i, (t.shards i).ScansTo (sections i)) ∧
      result = (List.finRange shardCount).flatMap sections

/-! ## What one operation changes -/

namespace ShardedTracker

variable {t : ShardedTracker} {p q : Ptr} {r : AllocationRecord}

theorem shards_setShard_self (s : Shard) :
    (t.setShard p s).shards (getShardIndex p) = s :=
  Function.update_self _ _ _

theorem shards_setShard_of_ne {s : Shard} {i : Fin shardCount} (h : i ≠ getShardIndex p) :
    (t.setShard p s).shards i = t.shards i :=
  Function.update_of_ne h _ _

theorem find_eq_lookup (hp : p ≠ 0) : t.find p = (t.shardOf p).records.lookup p := if_neg hp

theorem find_null : t.find 0 = none := if_pos rfl

theorem ne_zero_of_find (h : t.find p = some r) : p ≠ 0 := by
  rintro rfl
  rw [find_null] at h
  cases h

theorem lookup_of_find (h : t.find p = some r) : (t.shardOf p).records.lookup p = some r := by
  rw [← find_eq_lookup (ne_zero_of_find h), h]

@[simp] theorem find_empty (p : Ptr) : empty.find p = none := by
  unfold find
  split
  · rfl
  · exact Finmap.lookup_empty p

theorem find_setShard_of_ne {s : Shard}
    (h : q ≠ 0 → getShardIndex q = getShardIndex p →
      s.records.lookup q = (t.shardOf p).records.lookup q) :
    (t.setShard p s).find q = t.find q := by
  by_cases hq : q = 0
  · subst q
    rw [find_null, find_null]
  rw [find_eq_lookup hq, find_eq_lookup hq]
  unfold shardOf at *
  by_cases hidx : getShardIndex q = getShardIndex p
  · rw [hidx, shards_setShard_self, h hq hidx]
  · rw [shards_setShard_of_ne hidx]

theorem insert_null (r : AllocationRecord) : t.insert 0 r = t := if_pos rfl

theorem insert_eq (hp : p ≠ 0) :
    t.insert p r = t.setShard p ((t.shardOf p).insert p r) := if_neg hp

theorem find_insert_self (hp : p ≠ 0) : (t.insert p r).find p = some r := by
  rw [insert_eq hp, find_eq_lookup hp, shardOf, shards_setShard_self]
  exact Finmap.lookup_insert _

theorem find_insert_of_ne (h : q ≠ p) : (t.insert p r).find q = t.find q := by
  by_cases hp : p = 0
  · rw [hp, insert_null]
  · rw [insert_eq hp]
    exact find_setShard_of_ne fun _ _ => Finmap.lookup_insert_of_ne _ h

theorem find_insert (hp : p ≠ 0) :
    (t.insert p r).find q = if q = p then some r else t.find q := by
  split
  · subst q
    exact find_insert_self hp
  · exact find_insert_of_ne ‹_›

/-- The three outcomes of `erase`. -/
theorem erase_cases (t : ShardedTracker) (p : Ptr) :
    (∃ r, t.find p = some r ∧
      t.erase p = (.success, some r, t.setShard p ((t.shardOf p).release p))) ∨
    (t.find p = none ∧ p ≠ 0 ∧ t.Quarantined p ∧ t.erase p = (.doubleFreeDetected, none, t)) ∨
    (t.find p = none ∧ (p = 0 ∨ ¬ t.Quarantined p) ∧ t.erase p = (.notFound, none, t)) := by
  by_cases hp : p = 0
  · refine Or.inr (Or.inr ⟨?_, Or.inl hp, if_pos hp⟩)
    rw [hp, find_null]
  rw [find_eq_lookup hp]
  unfold erase Quarantined
  rw [if_neg hp]
  rcases (t.shardOf p).records.lookup p with _ | r
  · by_cases hq : (t.shardOf p).quarantine.Holds p
    · exact Or.inr (Or.inl ⟨rfl, hp, hq, if_pos hq⟩)
    · exact Or.inr (Or.inr ⟨rfl, Or.inr hq, if_neg hq⟩)
  · exact Or.inl ⟨r, rfl, rfl⟩

theorem erase_of_find (h : t.find p = some r) :
    t.erase p = (.success, some r, t.setShard p ((t.shardOf p).release p)) := by
  rcases erase_cases t p with ⟨r', hr', he⟩ | ⟨hn, _⟩ | ⟨hn, _⟩
  · rw [he, Option.some.inj (hr'.symm.trans h)]
  · rw [h] at hn
    cases hn
  · rw [h] at hn
    cases hn

theorem erase_of_quarantined (hp : p ≠ 0) (h : t.find p = none) (hq : t.Quarantined p) :
    t.erase p = (.doubleFreeDetected, none, t) := by
  rcases erase_cases t p with ⟨r', hr', _⟩ | ⟨_, _, _, he⟩ | ⟨_, hne, _⟩
  · rw [h] at hr'
    cases hr'
  · exact he
  · rcases hne with h0 | hnq
    · exact absurd h0 hp
    · exact absurd hq hnq

theorem erase_of_not_quarantined (h : t.find p = none) (hq : p = 0 ∨ ¬ t.Quarantined p) :
    t.erase p = (.notFound, none, t) := by
  rcases erase_cases t p with ⟨r', hr', _⟩ | ⟨_, hp, hq', _⟩ | ⟨_, _, he⟩
  · rw [h] at hr'
    cases hr'
  · rcases hq with h0 | hnq
    · exact absurd h0 hp
    · exact absurd hq' hnq
  · exact he

/-- The tracker after an `erase`, successful or not. -/
def afterErase (t : ShardedTracker) (p : Ptr) : ShardedTracker := (t.erase p).2.2

theorem afterErase_of_find (h : t.find p = some r) :
    t.afterErase p = t.setShard p ((t.shardOf p).release p) := by
  rw [afterErase, erase_of_find h]

theorem afterErase_of_find_none (h : t.find p = none) : t.afterErase p = t := by
  unfold afterErase
  rcases erase_cases t p with ⟨r', hr', _⟩ | ⟨_, _, _, he⟩ | ⟨_, _, he⟩
  · rw [h] at hr'
    cases hr'
  · rw [he]
  · rw [he]

/-- A released pointer is in the quarantine right after. -/
theorem quarantined_afterErase (h : t.find p = some r) : (t.afterErase p).Quarantined p := by
  rw [afterErase_of_find h, Quarantined, shardOf, shards_setShard_self]
  exact ⟨_, Function.update_self _ _ _⟩

theorem find_afterErase (t : ShardedTracker) (p q : Ptr) :
    (t.afterErase p).find q = if q = p then none else t.find q := by
  rcases hp : t.find p with _ | r
  · rw [afterErase_of_find_none hp]
    split
    · subst q
      exact hp
    · rfl
  · rw [afterErase_of_find hp]
    have hp0 := ne_zero_of_find hp
    split
    · subst q
      rw [find_eq_lookup hp0, shardOf, shards_setShard_self]
      exact Finmap.lookup_erase p _
    · exact find_setShard_of_ne fun _ _ => Finmap.lookup_erase_ne ‹_›

end ShardedTracker

end MemSentry.Core
