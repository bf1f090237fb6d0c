import MemSentry.Core.ShardedTracker
import Mathlib.Algebra.BigOperators.Group.Finset.Basic
import Mathlib.Algebra.Order.BigOperators.Group.Finset
import Mathlib.Algebra.BigOperators.Fin

/-!
# What a tracker contains

The shards of a tracker share no pointer: a shard holds only pointers that hash to it
(`WellPlaced`). So the table as a whole is one map, its records are the multiset
`records`, and an insertion of an absent pointer or a successful `erase` changes that
multiset by exactly one record (`records_insert`, `records_eq_cons_afterErase`).
-/

namespace MemSentry.Core

open FiniteTable

namespace ShardedTracker

/-- Pointers sit in the shard they hash to, and null is never stored. -/
def WellPlaced (t : ShardedTracker) : Prop :=
  ∀ i p, p ∈ (t.shards i).records → p ≠ 0 ∧ getShardIndex p = i

/-- All stored records. -/
def records (t : ShardedTracker) : Multiset AllocationRecord :=
  ∑ i, values (t.shards i).records

/-- All stored pointers. -/
def pointers (t : ShardedTracker) : Finset Ptr :=
  Finset.univ.biUnion fun i => (t.shards i).records.keys

variable {t : ShardedTracker} {p : Ptr} {r : AllocationRecord}

/-! ## Placement -/

theorem wellPlaced_empty : WellPlaced empty := by
  intro i p hp
  exact absurd hp Finmap.notMem_empty

theorem WellPlaced.setShard (h : t.WellPlaced) {s : Shard}
    (hs : ∀ q ∈ s.records, q = p ∧ p ≠ 0 ∨ q ∈ (t.shardOf p).records) :
    (t.setShard p s).WellPlaced := by
  intro i q hq
  by_cases hi : i = getShardIndex p
  · subst i
    rw [shards_setShard_self] at hq
    rcases hs q hq with ⟨rfl, hp⟩ | hold
    · exact ⟨hp, rfl⟩
    · exact h _ q hold
  · rw [shards_setShard_of_ne hi] at hq
    exact h i q hq

theorem WellPlaced.insert (h : t.WellPlaced) (p : Ptr) (r : AllocationRecord) :
    (t.insert p r).WellPlaced := by
  by_cases hp : p = 0
  · rw [hp, insert_null]
    exact h
  rw [insert_eq hp]
  refine h.setShard fun q hq => ?_
  rcases Finmap.mem_insert.mp hq with rfl | hold
  · exact Or.inl ⟨rfl, hp⟩
  · exact Or.inr hold

theorem WellPlaced.afterErase (h : t.WellPlaced) (p : Ptr) : (t.afterErase p).WellPlaced := by
  rcases hp : t.find p with _ | r
  · rw [afterErase_of_find_none hp]
    exact h
  · rw [afterErase_of_find hp]
    exact h.setShard fun q hq => Or.inr (Finmap.mem_erase.mp hq).2

/-! ## The table as one map -/

theorem WellPlaced.find_iff (h : t.WellPlaced) {i : Fin shardCount} :
    (t.shards i).records.lookup p = some r ↔ t.find p = some r ∧ getShardIndex p = i := by
  constructor
  · intro hl
    obtain ⟨hp, rfl⟩ := h i p (Finmap.mem_of_lookup_eq_some hl)
    rw [find_eq_lookup hp]
    exact ⟨hl, rfl⟩
  · rintro ⟨hf, rfl⟩
    exact lookup_of_find hf

/-- What holds of the values of all shards holds of every stored record. -/
theorem holds_of_values {P : AllocationRecord → Prop}
    (h : ∀ i, ∀ r ∈ values (t.shards i).records, P r) {p : Ptr} (hfind : t.find p = some r) : P r :=
  h (getShardIndex p) r (mem_values.mpr ⟨p, lookup_of_find hfind⟩)

theorem mem_records (h : t.WellPlaced) : r ∈ t.records ↔ ∃ p, t.find p = some r := by
  unfold records
  rw [Multiset.mem_sum]
  constructor
  · rintro ⟨i, _, hr⟩
    obtain ⟨p, hp⟩ := mem_values.mp hr
    exact ⟨p, (h.find_iff.mp hp).1⟩
  · rintro ⟨p, hp⟩
    exact ⟨getShardIndex p, Finset.mem_univ _, mem_values.mpr ⟨p, lookup_of_find hp⟩⟩

theorem mem_pointers (h : t.WellPlaced) : p ∈ t.pointers ↔ ∃ r, t.find p = some r := by
  unfold pointers
  simp only [Finset.mem_biUnion, Finset.mem_univ, true_and, Finmap.mem_keys, Finmap.mem_iff]
  constructor
  · rintro ⟨i, r, hr⟩
    exact ⟨r, (h.find_iff.mp hr).1⟩
  · rintro ⟨r, hr⟩
    exact ⟨getShardIndex p, r, lookup_of_find hr⟩

/-- Replacing one shard replaces its share of the records. -/
theorem records_setShard {s : Shard} {a b : Multiset AllocationRecord}
    (hs : a + values s.records = b + values (t.shardOf p).records) :
    a + (t.setShard p s).records = b + t.records := by
  have hrest : ∑ i ∈ Finset.univ.erase (getShardIndex p), values ((t.setShard p s).shards i).records =
      ∑ i ∈ Finset.univ.erase (getShardIndex p), values (t.shards i).records := by
    refine Finset.sum_congr rfl fun i hi => ?_
    rw [shards_setShard_of_ne (Finset.ne_of_mem_erase hi)]
  unfold records
  rw [← Finset.add_sum_erase _ _ (Finset.mem_univ (getShardIndex p)), hrest,
    shards_setShard_self, ← add_assoc, hs, add_assoc, shardOf,
    Finset.add_sum_erase _ (fun i => values (t.shards i).records) (Finset.mem_univ _)]

theorem records_insert (hp : p ≠ 0) (h : t.find p = none) :
    (t.insert p r).records = r ::ₘ t.records := by
  rw [find_eq_lookup hp] at h
  have hshard : values ((t.shardOf p).insert p r).records =
      r ::ₘ values (t.shardOf p).records := values_insert h
  have hsum : 0 + (t.setShard p ((t.shardOf p).insert p r)).records = {r} + t.records :=
    records_setShard (by rw [hshard, zero_add, Multiset.singleton_add])
  rw [insert_eq hp, ← Multiset.singleton_add, ← hsum, zero_add]

theorem records_eq_cons_afterErase (h : t.find p = some r) :
    t.records = r ::ₘ (t.afterErase p).records := by
  have hshard : values (t.shardOf p).records =
      r ::ₘ values ((t.shardOf p).release p).records :=
    values_eq_cons_erase (lookup_of_find h)
  have hsum : {r} + (t.setShard p ((t.shardOf p).release p)).records = 0 + t.records :=
    records_setShard (by rw [hshard, zero_add, Multiset.singleton_add])
  rw [afterErase_of_find h, ← Multiset.singleton_add, hsum, zero_add]

@[simp] theorem records_empty : empty.records = 0 := Finset.sum_eq_zero fun _ _ => rfl

/-! ## Counting -/

theorem card_values_eq (s : Shard) : (values s.records).card = s.records.keys.card := by
  unfold values Finmap.keys
  simp [Multiset.keys]

theorem card_pointers (h : t.WellPlaced) :
    t.pointers.card = ∑ i, (t.shards i).records.keys.card := by
  refine Finset.card_biUnion fun i _ j _ hij => ?_
  refine Finset.disjoint_left.mpr fun p hi hj => hij ?_
  rw [← (h i p (Finmap.mem_keys.mp hi)).2, ← (h j p (Finmap.mem_keys.mp hj)).2]

theorem card_records (h : t.WellPlaced) : t.records.card = t.pointers.card := by
  rw [card_pointers h, records, Multiset.card_sum]
  exact Finset.sum_congr rfl fun i _ => card_values_eq _

/-- There are fewer than `2 ^ 64` non-null pointers to store. -/
theorem card_pointers_lt (h : t.WellPlaced) : t.pointers.card < 2 ^ 64 := by
  have hsub : t.pointers.image BitVec.toNat ⊆ (Finset.range (2 ^ 64)).erase 0 := by
    intro n hn
    obtain ⟨p, hp, rfl⟩ := Finset.mem_image.mp hn
    obtain ⟨r, hr⟩ := (mem_pointers h).mp hp
    refine Finset.mem_erase.mpr ⟨?_, Finset.mem_range.mpr p.isLt⟩
    intro h0
    exact ne_zero_of_find hr (BitVec.eq_of_toNat_eq h0)
  have hcard := Finset.card_le_card hsub
  rw [Finset.card_image_of_injective _ fun a b => BitVec.eq_of_toNat_eq,
    Finset.card_erase_of_mem (by simp), Finset.card_range] at hcard
  omega

theorem foldl_add_ofNat (f : Fin shardCount → Nat) (is : List (Fin shardCount)) (a : Nat) :
    is.foldl (fun total i => total + BitVec.ofNat 64 (f i)) (BitVec.ofNat 64 a) =
      BitVec.ofNat 64 (a + (is.map f).sum) := by
  induction is generalizing a with
  | nil => rfl
  | cons i is ih =>
    rw [List.foldl_cons, ← BitVec.ofNat_add, ih, List.map_cons, List.sum_cons, Nat.add_assoc]

/-- `size` counts the stored pointers, and its `size_t` does not wrap. -/
theorem size_toNat (h : t.WellPlaced) : t.size.toNat = t.pointers.card := by
  have hlt := card_pointers_lt h
  have hsum : ((List.finRange shardCount).map fun i => (t.shards i).records.keys.card).sum =
      t.pointers.card := by
    rw [card_pointers h, Fin.sum_univ_def]
  unfold size
  rw [show (0 : Word) = BitVec.ofNat 64 0 from rfl, foldl_add_ofNat, Nat.zero_add, hsum,
    BitVec.toNat_ofNat, Nat.mod_eq_of_lt hlt]

theorem size_eq_card_records (h : t.WellPlaced) : t.size.toNat = t.records.card := by
  rw [size_toNat h, card_records h]

/-! ## Records under their own pointer -/

/-- Every record is stored under its own `user_ptr`. -/
def Keyed (t : ShardedTracker) : Prop := ∀ p r, t.find p = some r → r.userPtr = p

theorem keyed_empty : Keyed empty := by
  intro p r hr
  rw [find_empty] at hr
  cases hr

theorem Keyed.insert (h : t.Keyed) (r : AllocationRecord) : (t.insert r.userPtr r).Keyed := by
  intro q r' hr'
  by_cases hq : q = r.userPtr
  · subst q
    rw [find_insert_self (fun h0 => ?_)] at hr'
    · rw [Option.some.inj hr']
    · rw [h0, find_null] at hr'
      cases hr'
  · rw [find_insert_of_ne hq] at hr'
    exact h q r' hr'

theorem Keyed.afterErase (h : t.Keyed) (p : Ptr) : (t.afterErase p).Keyed := by
  intro q r hr
  rw [find_afterErase] at hr
  split at hr
  · cases hr
  · exact h q r hr

/-- The pointers of one shard's records are its keys. -/
theorem map_userPtr_values (hw : t.WellPlaced) (hk : t.Keyed) (i : Fin shardCount) :
    (values (t.shards i).records).map AllocationRecord.userPtr =
      (t.shards i).records.keys.val := by
  unfold values Finmap.keys Multiset.keys
  rw [Multiset.map_map]
  refine Multiset.map_congr rfl fun e he => ?_
  obtain ⟨p, r⟩ := e
  have hl : (t.shards i).records.lookup p = some r := Finmap.lookup_eq_some_iff.mpr he
  exact hk p r (hw.find_iff.mp hl).1

theorem mem_shard_values (hw : t.WellPlaced) (hk : t.Keyed) {i : Fin shardCount} :
    r ∈ values (t.shards i).records ↔
      t.find r.userPtr = some r ∧ getShardIndex r.userPtr = i := by
  rw [mem_values]
  constructor
  · rintro ⟨p, hp⟩
    have hfind := hw.find_iff.mp hp
    rw [hk p r hfind.1]
    exact hfind
  · intro hfind
    exact ⟨r.userPtr, hw.find_iff.mpr hfind⟩

theorem mem_records_iff_find (hw : t.WellPlaced) (hk : t.Keyed) :
    r ∈ t.records ↔ t.find r.userPtr = some r := by
  rw [mem_records hw]
  constructor
  · rintro ⟨p, hp⟩
    rwa [hk p r hp]
  · exact fun h => ⟨r.userPtr, h⟩

/-- No two stored records have the same pointer. -/
theorem nodup_map_userPtr_records (hw : t.WellPlaced) (hk : t.Keyed) :
    (t.records.map AllocationRecord.userPtr).Nodup := by
  have hset : (t.records.map AllocationRecord.userPtr).toFinset = t.pointers := by
    ext p
    rw [Multiset.mem_toFinset, Multiset.mem_map, mem_pointers hw]
    constructor
    · rintro ⟨r, hr, rfl⟩
      exact ⟨r, (mem_records_iff_find hw hk).mp hr⟩
    · rintro ⟨r, hr⟩
      exact ⟨r, (mem_records hw).mpr ⟨p, hr⟩, hk p r hr⟩
  rw [← Multiset.toFinset_card_eq_card_iff_nodup, hset, Multiset.card_map, card_records hw]

end ShardedTracker

end MemSentry.Core
