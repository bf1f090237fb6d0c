import MemSentry.Core.TrackerContents
import Mathlib.Data.Set.Card

/-!
# The tracker refines one map with bounded histories

The abstract side of this file knows nothing of shards, rings and heads: it reads a
history of calls, newest first. `stored` is the record last inserted for a pointer and
not released since; `releasedAgo` says how many releases have fallen into the pointer's
shard since its own, when it was released and neither inserted again nor cleared.

The concrete side is `replay`, the tracker after the calls. Two invariants of `replay`,
each by induction on the history, connect them: `find_replay` (the tables together are
the map `stored`) and `replay_represents` (the ring of every shard shows `shardLog`, the
log of its releases). What `erase` answers follows from the two.
-/

namespace MemSentry.Core

open EvictingRing ShardedTracker

inductive TrackerCall
  | insert (userPtr : Ptr) (record : AllocationRecord)
  | erase (userPtr : Ptr)
  | find (userPtr : Ptr)
  | size
  | clear

/-- The tracker after one call. -/
def TrackerCall.perform (t : ShardedTracker) : TrackerCall → ShardedTracker
  | .insert p r => t.insert p r
  | .erase p => t.afterErase p
  | .find _ => t
  | .size => t
  | .clear => t.clear

/-- The tracker after a history of calls, the newest first. -/
def replay : List TrackerCall → ShardedTracker
  | [] => ShardedTracker.empty
  | c :: h => c.perform (replay h)

/-! ## The abstract map -/

/-- The record last inserted for the pointer and not released since. -/
def stored : List TrackerCall → Ptr → Option AllocationRecord
  | [], _ => none
  | .insert q r :: h, p => if q ≠ 0 ∧ p = q then some r else stored h p
  | .erase q :: h, p => if p = q then none else stored h p
  | .clear :: _, _ => none
  | .find _ :: h, p => stored h p
  | .size :: h, p => stored h p

/-- The number of successful releases in the pointer's shard after its own last one, if
it has been released since the last `clear` and not inserted since. -/
def releasedAgo : List TrackerCall → Ptr → Option Nat
  | [], _ => none
  | .insert q _ :: h, p => if q ≠ 0 ∧ p = q then none else releasedAgo h p
  | .erase q :: h, p =>
    if (stored h q).isSome then
      if p = q then some 0
      else if getShardIndex p = getShardIndex q then (releasedAgo h p).map (· + 1)
      else releasedAgo h p
    else releasedAgo h p
  | .clear :: _, _ => none
  | .find _ :: h, p => releasedAgo h p
  | .size :: h, p => releasedAgo h p

/-- Insertions of the pointer while it was absent. -/
def freshInsertions : List TrackerCall → Ptr → Nat
  | [], _ => 0
  | .insert q _ :: h, p =>
    freshInsertions h p + if p = q ∧ (replay h).find p = none then 1 else 0
  | _ :: h, p => freshInsertions h p

/-- `erase` calls on the pointer that answered `SUCCESS`. -/
def successfulErases : List TrackerCall → Ptr → Nat
  | [], _ => 0
  | .erase q :: h, p =>
    successfulErases h p + if p = q ∧ ((replay h).erase p).1 = .success then 1 else 0
  | _ :: h, p => successfulErases h p

/-! ## The tables are the map -/

theorem wellPlaced_replay (h : List TrackerCall) : (replay h).WellPlaced := by
  induction h with
  | nil => exact wellPlaced_empty
  | cons c h ih =>
    cases c with
    | insert p r => exact ih.insert p r
    | erase p => exact ih.afterErase p
    | find p => exact ih
    | size => exact ih
    | clear => exact wellPlaced_empty

theorem find_replay (h : List TrackerCall) (p : Ptr) : (replay h).find p = stored h p := by
  induction h with
  | nil => exact find_empty p
  | cons c h ih =>
    cases c with
    | insert q r =>
      change ((replay h).insert q r).find p = if q ≠ 0 ∧ p = q then some r else stored h p
      by_cases hq : q = 0
      · rw [hq, insert_null, ih, if_neg fun hc => hc.1 rfl]
      · rw [find_insert hq, ih]
        simp only [ne_eq, hq, not_false_eq_true, true_and]
    | erase q =>
      change ((replay h).afterErase q).find p = if p = q then none else stored h p
      rw [find_afterErase, ih]
    | find q => exact ih
    | size => exact ih
    | clear => exact find_empty p

theorem stored_null (h : List TrackerCall) : stored h 0 = none := by
  rw [← find_replay, find_null]

theorem releasedAgo_null (h : List TrackerCall) : releasedAgo h 0 = none := by
  induction h with
  | nil => rfl
  | cons c h ih =>
    cases c with
    | insert q r =>
      simp only [releasedAgo]
      rw [if_neg fun hc => hc.1 hc.2.symm, ih]
    | erase q =>
      simp only [releasedAgo]
      split
      · rename_i hq
        have hne : (0 : Ptr) ≠ q := by
          rintro rfl
          rw [stored_null] at hq
          cases hq
        rw [if_neg hne, ih]
        exact ite_self none
      · exact ih
    | find q => exact ih
    | size => exact ih
    | clear => rfl

/-! ## The rings are the logs of releases -/

/-- The releases of a shard since the last `clear`, newest first; a pointer inserted
again leaves holes. -/
def shardLog : List TrackerCall → Fin shardCount → List (Option Ptr)
  | [], _ => []
  | .insert q _ :: h, i =>
    if q ≠ 0 ∧ i = getShardIndex q then forgetLog q (shardLog h i) else shardLog h i
  | .erase q :: h, i =>
    if (stored h q).isSome ∧ i = getShardIndex q then some q :: shardLog h i
    else shardLog h i
  | .clear :: _, _ => []
  | .find _ :: h, i => shardLog h i
  | .size :: h, i => shardLog h i

theorem replay_represents (h : List TrackerCall) (i : Fin shardCount) :
    Represents quarantineSize_pos 0 ((replay h).shards i).quarantine (shardLog h i) := by
  induction h with
  | nil => exact Represents.empty _ _ _
  | cons c h ih =>
    cases c with
    | insert q r =>
      change Represents _ _ (((replay h).insert q r).shards i).quarantine
        (if q ≠ 0 ∧ i = getShardIndex q then forgetLog q (shardLog h i) else shardLog h i)
      by_cases hq : q = 0
      · rw [hq, insert_null, if_neg fun hc => hc.1 rfl]
        exact ih
      rw [insert_eq hq]
      by_cases hi : i = getShardIndex q
      · subst i
        rw [shards_setShard_self, if_pos ⟨hq, rfl⟩]
        exact ih.forget q
      · rw [shards_setShard_of_ne hi, if_neg fun hc => hi hc.2]
        exact ih
    | erase q =>
      change Represents _ _ (((replay h).afterErase q).shards i).quarantine
        (if (stored h q).isSome ∧ i = getShardIndex q then some q :: shardLog h i
          else shardLog h i)
      rw [← find_replay]
      rcases hq : (replay h).find q with _ | r
      · rw [afterErase_of_find_none hq, if_neg fun hc => Bool.false_ne_true hc.1]
        exact ih
      rw [afterErase_of_find hq]
      by_cases hi : i = getShardIndex q
      · subst i
        rw [shards_setShard_self, if_pos ⟨rfl, rfl⟩]
        exact ih.push quarantineSize_dvd q
      · rw [shards_setShard_of_ne hi, if_neg fun hc => hi hc.2]
        exact ih
    | find q => exact ih
    | size => exact ih
    | clear => exact Represents.empty _ _ _

theorem getElem?_forgetLog {q p : Ptr} {log : List (Option Ptr)} {k : Nat} :
    (forgetLog q log)[k]? = some (some p) ↔ p ≠ q ∧ log[k]? = some (some p) := by
  unfold forgetLog
  rw [List.getElem?_map]
  rcases log[k]? with _ | _ | y
  · simp
  · simp
  · by_cases hy : y = q
    · subst y
      simp only [if_true, Option.map_some, Option.some.injEq, reduceCtorEq, false_iff]
      rintro ⟨hne, hpq⟩
      exact hne hpq.symm
    · simp only [Option.some.injEq, hy, if_false, Option.map_some]
      constructor
      · rintro rfl
        exact ⟨hy, rfl⟩
      · exact fun hp => hp.2

/-- The newest release of a pointer in its shard's log is `releasedAgo` entries back. -/
theorem shardLog_of_releasedAgo {h : List TrackerCall} {p : Ptr} {n : Nat}
    (hn : releasedAgo h p = some n) : (shardLog h (getShardIndex p))[n]? = some (some p) := by
  induction h generalizing n with
  | nil => cases hn
  | cons c h ih =>
    cases c with
    | insert q r =>
      simp only [releasedAgo] at hn
      split at hn
      · cases hn
      · rename_i hne
        have hold := ih hn
        simp only [shardLog]
        split
        · rename_i hq
          exact getElem?_forgetLog.mpr ⟨fun hpq => hne ⟨hq.1, hpq⟩, hold⟩
        · exact hold
    | erase q =>
      simp only [releasedAgo] at hn
      simp only [shardLog]
      split at hn
      · rename_i hstored
        split at hn
        · rename_i hpq
          cases hn
          rw [if_pos ⟨hstored, by rw [hpq]⟩, hpq]
          rfl
        · rename_i hpq
          split at hn
          · rename_i hidx
            obtain ⟨k, hk, rfl⟩ := Option.map_eq_some_iff.mp hn
            rw [if_pos ⟨hstored, hidx⟩, List.getElem?_cons_succ]
            exact ih hk
          · rename_i hidx
            rw [if_neg fun hc => hidx hc.2]
            exact ih hn
      · rename_i hstored
        rw [if_neg fun hc => hstored hc.1]
        exact ih hn
    | find q => exact ih hn
    | size => exact ih hn
    | clear => cases hn

theorem releasedAgo_of_shardLog {h : List TrackerCall} {p : Ptr} {k : Nat}
    (hk : (shardLog h (getShardIndex p))[k]? = some (some p)) :
    ∃ n ≤ k, releasedAgo h p = some n := by
  induction h generalizing k with
  | nil => simp [shardLog] at hk
  | cons c h ih =>
    cases c with
    | insert q r =>
      simp only [shardLog] at hk
      simp only [releasedAgo]
      split at hk
      · obtain ⟨hpq, hold⟩ := getElem?_forgetLog.mp hk
        rw [if_neg fun hc => hpq hc.2]
        exact ih hold
      · rename_i hne
        have hpq : ¬ (q ≠ 0 ∧ p = q) := fun hc => hne ⟨hc.1, by rw [hc.2]⟩
        rw [if_neg hpq]
        exact ih hk
    | erase q =>
      simp only [shardLog] at hk
      simp only [releasedAgo]
      split at hk
      · rename_i hq
        rw [if_pos hq.1]
        by_cases hpq : p = q
        · rw [if_pos hpq]
          exact ⟨0, Nat.zero_le k, rfl⟩
        · rw [if_neg hpq, if_pos hq.2]
          cases k with
          | zero =>
            rw [List.getElem?_cons_zero] at hk
            exact absurd (Option.some.inj (Option.some.inj hk)).symm hpq
          | succ k =>
            rw [List.getElem?_cons_succ] at hk
            obtain ⟨n, hn, hr⟩ := ih hk
            exact ⟨n + 1, by omega, by rw [hr]; rfl⟩
      · rename_i hq
        obtain ⟨n, hn, hr⟩ := ih hk
        refine ⟨n, hn, ?_⟩
        split
        · rename_i hstored
          rw [if_neg fun hpq => hq ⟨hstored, by rw [hpq]⟩,
            if_neg fun hidx => hq ⟨hstored, hidx⟩, hr]
        · exact hr
    | find q => exact ih hk
    | size => exact ih hk
    | clear => simp [shardLog] at hk

theorem quarantined_replay_iff {h : List TrackerCall} {p : Ptr} (hp : p ≠ 0) :
    (replay h).Quarantined p ↔ ∃ n < quarantineSize, releasedAgo h p = some n := by
  unfold ShardedTracker.Quarantined Quarantine.Holds
  refine ((replay_represents h (getShardIndex p)).mem_iff hp).trans ⟨?_, ?_⟩
  · rintro ⟨k, hk, hlog⟩
    obtain ⟨n, hn, hr⟩ := releasedAgo_of_shardLog hlog
    exact ⟨n, by omega, hr⟩
  · rintro ⟨n, hn, hr⟩
    exact ⟨n, hn, shardLog_of_releasedAgo hr⟩

/-- A stored pointer has not been released since its insertion. -/
theorem releasedAgo_of_stored {h : List TrackerCall} {p : Ptr} {r : AllocationRecord}
    (hs : stored h p = some r) : releasedAgo h p = none := by
  induction h with
  | nil => rfl
  | cons c h ih =>
    cases c with
    | insert q r' =>
      simp only [stored] at hs
      simp only [releasedAgo]
      split at hs
      · rename_i hq
        rw [if_pos hq]
      · rename_i hq
        rw [if_neg hq]
        exact ih hs
    | erase q =>
      simp only [stored] at hs
      simp only [releasedAgo]
      split at hs
      · cases hs
      · rename_i hpq
        rw [if_neg hpq, ih hs]
        split
        · exact ite_self none
        · rfl
    | find q => exact ih hs
    | size => exact ih hs
    | clear => cases hs

/-- A stored pointer counts among the insertions that no success has matched yet. -/
theorem successfulErases_le (h : List TrackerCall) (p : Ptr) :
    successfulErases h p + (stored h p).elim 0 (fun _ => 1) ≤ freshInsertions h p := by
  induction h with
  | nil => exact Nat.le_refl 0
  | cons c h ih =>
    cases c with
    | insert q r =>
      simp only [successfulErases, freshInsertions, stored, find_replay]
      by_cases hq : q ≠ 0 ∧ p = q
      · rw [if_pos hq]
        obtain ⟨_, rfl⟩ := hq
        rcases hs : stored h p with _ | r'
        · rw [hs] at ih
          simpa using ih
        · rw [hs] at ih
          simpa using ih
      · rw [if_neg hq]
        omega
    | erase q =>
      simp only [successfulErases, freshInsertions, stored]
      by_cases hpq : p = q
      · subst q
        rw [if_pos rfl]
        rcases hs : stored h p with _ | r
        · have hfail : ((replay h).erase p).1 ≠ .success := by
            rcases erase_cases (replay h) p with ⟨r', hr', _⟩ | ⟨_, _, _, he⟩ | ⟨_, _, he⟩
            · rw [find_replay, hs] at hr'
              cases hr'
            · simp [he]
            · simp [he]
          rw [if_neg fun hc => hfail hc.2]
          exact Nat.le_of_add_right_le ih
        · have hok : ((replay h).erase p).1 = .success := by
            rw [erase_of_find ((find_replay h p).trans hs)]
          rw [if_pos ⟨rfl, hok⟩]
          rw [hs] at ih
          exact ih
      · rw [if_neg fun hc => hpq hc.1, if_neg hpq]
        exact ih
    | find q => exact ih
    | size => exact ih
    | clear => exact Nat.le_of_add_right_le ih

/-- What `erase` answers after a history: the stored record, or a double free when the
pointer is among the last 256 releases of its shard, or nothing known. -/
theorem erase_replay (h : List TrackerCall) (p : Ptr) :
    (∀ r, stored h p = some r → ((replay h).erase p).1 = .success ∧
      ((replay h).erase p).2.1 = some r) ∧
    (stored h p = none →
      (((replay h).erase p).1 = .doubleFreeDetected ↔ ∃ n < 256, releasedAgo h p = some n) ∧
      (((replay h).erase p).1 = .doubleFreeDetected ∨ ((replay h).erase p).1 = .notFound)) := by
  constructor
  · intro r hr
    rw [erase_of_find ((find_replay h p).trans hr)]
    exact ⟨rfl, rfl⟩
  · intro hn
    have hfind := (find_replay h p).trans hn
    by_cases hq : ∃ n < 256, releasedAgo h p = some n
    · have hp : p ≠ 0 := by
        rintro rfl
        obtain ⟨n, _, hr⟩ := hq
        rw [releasedAgo_null] at hr
        cases hr
      rw [erase_of_quarantined hp hfind ((quarantined_replay_iff hp).mpr hq)]
      exact ⟨iff_of_true rfl hq, Or.inl rfl⟩
    · have hout : p = 0 ∨ ¬ (replay h).Quarantined p := by
        by_cases hp : p = 0
        · exact Or.inl hp
        · exact Or.inr fun hc => hq ((quarantined_replay_iff hp).mp hc)
      rw [erase_of_not_quarantined hfind hout]
      refine ⟨iff_of_false ?_ hq, Or.inr rfl⟩
      intro hc
      cases hc

theorem not_quarantined_of_stored {h : List TrackerCall} {p : Ptr} {r : AllocationRecord}
    (hs : stored h p = some r) : ¬ (replay h).Quarantined p := by
  intro hq
  have hp : p ≠ 0 := by
    rintro rfl
    rw [stored_null] at hs
    cases hs
  obtain ⟨n, _, hn⟩ := (quarantined_replay_iff hp).mp hq
  rw [releasedAgo_of_stored hs] at hn
  cases hn

theorem size_replay (h : List TrackerCall) :
    (replay h).size.toNat = Set.ncard {p | (stored h p).isSome} := by
  have hset : {p | (stored h p).isSome} = ((replay h).pointers : Set Ptr) := by
    ext p
    rw [Finset.mem_coe, mem_pointers (wellPlaced_replay h), Set.mem_ofPred_eq, ← find_replay,
      Option.isSome_iff_exists]
  rw [size_toNat (wellPlaced_replay h), hset, Set.ncard_coe_finset]

/-! ## Counting the releases of a shard -/

/-- The successful releases in a shard. -/
def shardReleases : List TrackerCall → Fin shardCount → Nat
  | [], _ => 0
  | .erase q :: h, i =>
    shardReleases h i + if (stored h q).isSome ∧ getShardIndex q = i then 1 else 0
  | .insert _ _ :: h, i => shardReleases h i
  | .clear :: h, i => shardReleases h i
  | .find _ :: h, i => shardReleases h i
  | .size :: h, i => shardReleases h i

/-- The call neither inserts the pointer nor clears the tracker. -/
def TrackerCall.Leaves (p : Ptr) : TrackerCall → Prop
  | .insert q _ => q ≠ p
  | .clear => False
  | _ => True

/-- From the release of a pointer on, until it is inserted again, `releasedAgo` counts the
releases in its shard. -/
theorem releasedAgo_append {p : Ptr} {new old : List TrackerCall} {r : AllocationRecord}
    (hstored : stored old p = some r) (hnew : ∀ c ∈ new, c.Leaves p) :
    ∃ k, releasedAgo (new ++ .erase p :: old) p = some k ∧
      stored (new ++ .erase p :: old) p = none ∧
      shardReleases (new ++ .erase p :: old) (getShardIndex p) =
        shardReleases (.erase p :: old) (getShardIndex p) + k := by
  induction new with
  | nil =>
    refine ⟨0, ?_, ?_, rfl⟩
    · simp [releasedAgo, hstored]
    · simp [stored]
  | cons c new ih =>
    obtain ⟨k, hago, hnone, hcount⟩ := ih fun c hc => hnew c (List.mem_cons_of_mem _ hc)
    have hc := hnew c List.mem_cons_self
    cases c with
    | insert q r' =>
      have hpq : ¬ (q ≠ 0 ∧ p = q) := fun h => hc h.2.symm
      refine ⟨k, ?_, ?_, hcount⟩
      · simp only [List.cons_append, releasedAgo, if_neg hpq, hago]
      · simp only [List.cons_append, stored, if_neg hpq, hnone]
    | erase q =>
      have hstep : shardReleases (.erase q :: new ++ .erase p :: old) (getShardIndex p) =
          shardReleases (new ++ .erase p :: old) (getShardIndex p) +
            if (stored (new ++ .erase p :: old) q).isSome ∧ getShardIndex q = getShardIndex p
              then 1 else 0 := rfl
      rw [hstep, hcount]
      simp only [List.cons_append, releasedAgo, stored]
      by_cases hq : (stored (new ++ .erase p :: old) q).isSome
      · have hpq : p ≠ q := by
          intro heq
          rw [← heq, hnone] at hq
          cases hq
        rw [if_pos hq, if_neg hpq, if_neg hpq]
        by_cases hidx : getShardIndex p = getShardIndex q
        · refine ⟨k + 1, by rw [if_pos hidx, hago]; rfl, hnone, ?_⟩
          rw [if_pos ⟨hq, hidx.symm⟩, Nat.add_assoc]
        · refine ⟨k, by rw [if_neg hidx, hago], hnone, ?_⟩
          rw [if_neg fun h => hidx h.2.symm, Nat.add_zero]
      · refine ⟨k, by rw [if_neg hq, hago], by rw [hnone]; exact ite_self none, ?_⟩
        rw [if_neg fun h => hq h.1, Nat.add_zero]
    | find q => exact ⟨k, hago, hnone, hcount⟩
    | size => exact ⟨k, hago, hnone, hcount⟩
    | clear => exact absurd hc id

theorem replay_append (new old : List TrackerCall) :
    replay (new ++ old) = new.foldr (fun c t => c.perform t) (replay old) := by
  induction new with
  | nil => rfl
  | cons c new ih => rw [List.cons_append, replay, List.foldr_cons, ih]

/-- **The tracker refines one map with bounded histories**, after every sequence of
calls. -/
theorem tracker_refines_map (h : List TrackerCall) :
    (∀ p, (replay h).find p = stored h p) ∧
    (replay h).size.toNat = Set.ncard {p | (stored h p).isSome} ∧
    (∀ p r, stored h p = some r → ((replay h).erase p).1 = .success ∧
      ((replay h).erase p).2.1 = some r ∧ ¬ (replay h).Quarantined p) ∧
    (∀ p, stored h p = none →
      (((replay h).erase p).1 = .doubleFreeDetected ↔ ∃ n < 256, releasedAgo h p = some n) ∧
      (((replay h).erase p).1 = .doubleFreeDetected ∨ ((replay h).erase p).1 = .notFound)) ∧
    ∀ p, successfulErases h p ≤ freshInsertions h p := by
  refine ⟨find_replay h, size_replay h, ?_, fun p => (erase_replay h p).2, ?_⟩
  · intro p r hr
    obtain ⟨hstatus, hrecord⟩ := (erase_replay h p).1 r hr
    exact ⟨hstatus, hrecord, not_quarantined_of_stored hr⟩
  · intro p
    exact Nat.le_of_add_right_le (successfulErases_le h p)

end MemSentry.Core
