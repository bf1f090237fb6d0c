import MemSentry.Manager.Effects

/-!
# Who owns which block

`Owned` ties the live system blocks, the records of the tracker and the pointers that
clients hold together. It says nothing about the contents of the memory. A tracked
pointer lies in its block at the place where `init_block` put it; an untracked one is the
base of its block; no two pointers share a block.

The lemmas are about the three tables alone, one for each way in which an operation
changes them, so that a reallocation is an allocation followed by a release.
-/

namespace MemSentry

open ByteMemory MemSentry.Core Function World

/-- The footer size that a block was laid out with, from the sizes in its record. -/
def AllocationRecord.footerSize (r : AllocationRecord) : Word :=
  r.totalSize - (headerSize + backOffsetSize + r.alignment) - r.requestedSize

/-- The record describes a live block, with the user pointer at its place. -/
structure TrackedBlock (heap : Ptr → Option Nat) (p : Ptr) (r : AllocationRecord) : Prop where
  live : heap r.rawPtr = some r.totalSize.toNat
  placed : Placed r.rawPtr p r.requestedSize.toNat r.footerSize.toNat r.totalSize.toNat

/-- The live blocks are intervals of the address space that do not overlap. -/
structure SoundHeap (heap : Ptr → Option Nat) : Prop where
  space : ∀ b n, heap b = some n → b ≠ 0 ∧ 0 < n ∧ b.toNat + n ≤ 2 ^ 64
  apart : ∀ b n c k, heap b = some n → heap c = some k → b ≠ c →
    b.toNat + n ≤ c.toNat ∨ c.toNat + k ≤ b.toNat

structure Owned (heap : Ptr → Option Nat) (tracker : ShardedTracker)
    (leases : Ptr → Option Lease) : Prop extends SoundHeap heap where
  tracked : ∀ p r, tracker.find p = some r →
    TrackedBlock heap p r ∧ leases p = some ⟨r.rawPtr, r.requestedSize⟩
  untracked : ∀ p l, leases p = some l → tracker.find p = none →
    l.base = p ∧ heap p = some (extent l.size)
  separate : ∀ p q l k, leases p = some l → leases q = some k → l.base = k.base → p = q

variable {heap : Ptr → Option Nat} {tracker : ShardedTracker} {leases : Ptr → Option Lease}

/-! ## The heap -/

theorem soundHeap_empty : SoundHeap (fun _ => none) where
  space := fun _ _ h => by cases h
  apart := fun _ _ _ _ h => by cases h

theorem extent_pos (size : Word) : 0 < extent size :=
  Nat.lt_of_lt_of_le Nat.one_pos (Nat.le_max_right _ _)

theorem le_extent (size : Word) : size.toNat ≤ extent size := Nat.le_max_left _ _

theorem update_none_eq_some {α β : Type} [DecidableEq α] {f : α → Option β} {a b : α} {x : β}
    (h : update f a none b = some x) : b ≠ a ∧ f b = some x := by
  by_cases hba : b = a
  · rw [hba, update_self] at h
    cases h
  · rw [update_of_ne hba] at h
    exact ⟨hba, h⟩

theorem Fresh.not_live {b : Ptr} {size : Word} (hfresh : Fresh heap b size)
    (hheap : SoundHeap heap) : heap b = none := by
  rcases hb : heap b with _ | n
  · rfl
  · have hpos := (hheap.space b n hb).2.1
    have hext := extent_pos size
    rcases hfresh.2 b n hb with h | h
    · omega
    · omega

theorem SoundHeap.alloc (h : SoundHeap heap) {b : Ptr} {size : Word} (hb : b ≠ 0)
    (hfresh : Fresh heap b size) : SoundHeap (update heap b (some (extent size))) where
  space := by
    intro c k hc
    by_cases hcb : c = b
    · subst c
      rw [update_self] at hc
      cases hc
      exact ⟨hb, extent_pos size, hfresh.1⟩
    · rw [update_of_ne hcb] at hc
      exact h.space c k hc
  apart := by
    intro c k d j hc hd hne
    by_cases hcb : c = b
    · subst c
      rw [update_self] at hc
      cases hc
      rw [update_of_ne hne.symm] at hd
      exact hfresh.2 d j hd
    · rw [update_of_ne hcb] at hc
      by_cases hdb : d = b
      · subst d
        rw [update_self] at hd
        cases hd
        rcases hfresh.2 c k hc with hlt | hlt
        · exact Or.inr hlt
        · exact Or.inl hlt
      · rw [update_of_ne hdb] at hd
        exact h.apart c k d j hc hd hne

theorem SoundHeap.free (h : SoundHeap heap) (b : Ptr) : SoundHeap (update heap b none) where
  space := fun c k hc => h.space c k (update_none_eq_some hc).2
  apart := fun c k d j hc hd =>
    h.apart c k d j (update_none_eq_some hc).2 (update_none_eq_some hd).2

/-- Two live blocks that share an address are one block. -/
theorem SoundHeap.base_unique (h : SoundHeap heap) {b c : Ptr} {n k a : Nat}
    (hb : heap b = some n) (hc : heap c = some k) (hab : b.toNat ≤ a ∧ a < b.toNat + n)
    (hac : c.toNat ≤ a ∧ a < c.toNat + k) : b = c := by
  by_contra hne
  have hapart := h.apart b n c k hb hc hne
  omega

theorem owned_start : Owned (fun _ => none) ShardedTracker.empty (fun _ => none) where
  toSoundHeap := soundHeap_empty
  tracked := fun p r h => by
    rw [ShardedTracker.find_empty] at h
    cases h
  untracked := fun _ _ h => by cases h
  separate := fun _ _ _ _ h => by cases h

/-- A raw block of a tracked allocation is never empty. -/
theorem Core.Placed.extent_eq {raw user total : Word} {requested footer : Nat}
    (h : Placed raw user requested footer total.toNat) : extent total = total.toNat := by
  have hbelow := h.below
  have habove := h.above
  unfold extent
  omega

/-! ## Live blocks -/

/-- The block behind a held pointer is live and holds the payload. -/
theorem Owned.lease_live (h : Owned heap tracker leases) {p : Ptr} {l : Lease}
    (hl : leases p = some l) : ∃ n, heap l.base = some n ∧
      l.base.toNat ≤ p.toNat ∧ p.toNat + l.size.toNat ≤ l.base.toNat + n ∧
      p.toNat < l.base.toNat + n := by
  rcases hfind : tracker.find p with _ | r
  · obtain ⟨hbase, hlive⟩ := h.untracked p l hl hfind
    have hsize := le_extent l.size
    have hpos := extent_pos l.size
    exact ⟨_, by rw [hbase]; exact hlive, by rw [hbase], by rw [hbase]; omega,
      by rw [hbase]; omega⟩
  · obtain ⟨hblock, hlease⟩ := h.tracked p r hfind
    rw [hl] at hlease
    cases hlease
    have hbelow := hblock.placed.below
    have habove := hblock.placed.above
    exact ⟨_, hblock.live, by dsimp only; omega, by dsimp only; omega, by dsimp only; omega⟩

theorem Owned.held_ne_zero (h : Owned heap tracker leases) {p : Ptr} {l : Lease}
    (hl : leases p = some l) : p ≠ 0 := by
  obtain ⟨n, hlive, hbelow, _⟩ := h.lease_live hl
  have hbase := (h.space _ n hlive).1
  rintro rfl
  exact hbase (BitVec.eq_of_toNat_eq (Nat.le_zero.mp hbelow))

/-- No held pointer points into a fresh block. -/
theorem Owned.no_lease_inside (h : Owned heap tracker leases) {b p : Ptr} {size : Word}
    (hfresh : Fresh heap b size) (hlow : b.toNat ≤ p.toNat)
    (hhigh : p.toNat < b.toNat + extent size) : leases p = none := by
  rcases hl : leases p with _ | l
  · rfl
  · obtain ⟨n, hlive, hbase, _, hend⟩ := h.lease_live hl
    rcases hfresh.2 l.base n hlive with hd | hd
    · omega
    · omega

theorem Owned.base_ne_of_fresh (h : Owned heap tracker leases) {b p : Ptr} {size : Word} {l : Lease}
    (hfresh : Fresh heap b size) (hl : leases p = some l) : l.base ≠ b := by
  intro hb
  obtain ⟨n, hlive, _⟩ := h.lease_live hl
  rw [hb, hfresh.not_live h.toSoundHeap] at hlive
  cases hlive

theorem Owned.find_none_of_not_leased (h : Owned heap tracker leases) {p : Ptr}
    (hl : leases p = none) : tracker.find p = none := by
  rcases hfind : tracker.find p with _ | r
  · rfl
  · rw [(h.tracked p r hfind).2] at hl
    cases hl

/-! ## Allocation -/

section Allocation

variable {b : Ptr} {size : Word}

theorem Owned.separate_update (h : Owned heap tracker leases) (hfresh : Fresh heap b size)
    {user : Ptr} {sz : Word} (p q : Ptr) (l k : Lease)
    (hp : update leases user (some ⟨b, sz⟩) p = some l)
    (hq : update leases user (some ⟨b, sz⟩) q = some k) (hbase : l.base = k.base) : p = q := by
  by_cases hpu : p = user
  · by_cases hqu : q = user
    · rw [hpu, hqu]
    · rw [hpu, update_self] at hp
      rw [update_of_ne hqu] at hq
      cases hp
      exact absurd hbase.symm (h.base_ne_of_fresh hfresh hq)
  · rw [update_of_ne hpu] at hp
    by_cases hqu : q = user
    · rw [hqu, update_self] at hq
      cases hq
      exact absurd hbase (h.base_ne_of_fresh hfresh hp)
    · rw [update_of_ne hqu] at hq
      exact h.separate p q l k hp hq hbase

theorem Owned.alloc_raw (h : Owned heap tracker leases) (hb : b ≠ 0)
    (hfresh : Fresh heap b size) :
    Owned (update heap b (some (extent size))) tracker (update leases b (some ⟨b, size⟩)) where
  toSoundHeap := h.toSoundHeap.alloc hb hfresh
  tracked := by
    intro p r hfind
    obtain ⟨hblock, hlease⟩ := h.tracked p r hfind
    have hne := h.base_ne_of_fresh hfresh hlease
    have hpb : p ≠ b := by
      rintro rfl
      rw [h.no_lease_inside hfresh (Nat.le_refl _) (Nat.lt_add_of_pos_right (extent_pos size))]
        at hlease
      cases hlease
    exact ⟨⟨by rw [update_of_ne hne]; exact hblock.live, hblock.placed⟩,
      by rw [update_of_ne hpb]; exact hlease⟩
  untracked := by
    intro p l hl hfind
    by_cases hpb : p = b
    · subst p
      rw [update_self] at hl
      cases hl
      exact ⟨rfl, update_self _ _ _⟩
    · rw [update_of_ne hpb] at hl
      obtain ⟨hbase, hlive⟩ := h.untracked p l hl hfind
      exact ⟨hbase, by rw [update_of_ne hpb]; exact hlive⟩
  separate := h.separate_update hfresh

theorem Owned.alloc_tracked (h : Owned heap tracker leases) {p : Ptr} {r : AllocationRecord}
    (hfresh : Fresh heap r.rawPtr r.totalSize)
    (hplaced : Placed r.rawPtr p r.requestedSize.toNat r.footerSize.toNat r.totalSize.toNat) :
    Owned (update heap r.rawPtr (some (extent r.totalSize))) (tracker.insert p r)
      (update leases p (some ⟨r.rawPtr, r.requestedSize⟩)) where
  toSoundHeap := h.toSoundHeap.alloc hplaced.raw_ne_zero hfresh
  tracked := by
    intro q r' hfind
    by_cases hqp : q = p
    · subst q
      rw [ShardedTracker.find_insert_self hplaced.user_ne_zero] at hfind
      cases hfind
      exact ⟨⟨by rw [update_self, hplaced.extent_eq], hplaced⟩, update_self _ _ _⟩
    · rw [ShardedTracker.find_insert_of_ne hqp] at hfind
      obtain ⟨hblock, hlease⟩ := h.tracked q r' hfind
      have hne := h.base_ne_of_fresh hfresh hlease
      exact ⟨⟨by rw [update_of_ne hne]; exact hblock.live, hblock.placed⟩,
        by rw [update_of_ne hqp]; exact hlease⟩
  untracked := by
    intro q l hl hfind
    have hqp : q ≠ p := by
      rintro rfl
      rw [ShardedTracker.find_insert_self hplaced.user_ne_zero] at hfind
      cases hfind
    rw [update_of_ne hqp] at hl
    rw [ShardedTracker.find_insert_of_ne hqp] at hfind
    obtain ⟨hbase, hlive⟩ := h.untracked q l hl hfind
    have hne : q ≠ r.rawPtr := hbase ▸ h.base_ne_of_fresh hfresh hl
    exact ⟨hbase, by rw [update_of_ne hne]; exact hlive⟩
  separate := h.separate_update hfresh

end Allocation

/-! ## Release -/

section Release

variable {p : Ptr} {l : Lease}

/-- A pointer is given up and its block stays behind. -/
theorem Owned.leak (h : Owned heap tracker leases) (p : Ptr) :
    Owned heap (tracker.afterErase p) (update leases p none) where
  toSoundHeap := h.toSoundHeap
  tracked := by
    intro q r hfind
    rw [ShardedTracker.find_afterErase] at hfind
    split at hfind
    · cases hfind
    · rename_i hqp
      rw [update_of_ne hqp]
      exact h.tracked q r hfind
  untracked := by
    intro q k hk hfind
    obtain ⟨hqp, hk⟩ := update_none_eq_some hk
    rw [ShardedTracker.find_afterErase, if_neg hqp] at hfind
    exact h.untracked q k hk hfind
  separate := by
    intro q q' k k' hk hk' hbase
    exact h.separate q q' k k' (update_none_eq_some hk).2 (update_none_eq_some hk').2 hbase

/-- A pointer is given up together with its block. -/
theorem Owned.release (h : Owned heap tracker leases) (hl : leases p = some l) :
    Owned (update heap l.base none) (tracker.afterErase p) (update leases p none) := by
  have hleak := h.leak p
  refine ⟨h.toSoundHeap.free l.base, ?_, ?_, hleak.separate⟩
  · intro q r hfind
    obtain ⟨hblock, hlease⟩ := hleak.tracked q r hfind
    obtain ⟨hqp, hq⟩ := update_none_eq_some hlease
    have hne : r.rawPtr ≠ l.base := fun hb => hqp (h.separate q p _ l hq hl hb)
    exact ⟨⟨by rw [update_of_ne hne]; exact hblock.live, hblock.placed⟩, hlease⟩
  · intro q k hk hfind
    obtain ⟨hbase, hlive⟩ := hleak.untracked q k hk hfind
    obtain ⟨hqp, hq⟩ := update_none_eq_some hk
    have hne : q ≠ l.base := by
      intro hb
      exact hqp (h.separate q p k l hq hl (hbase.trans hb))
    exact ⟨hbase, by rw [update_of_ne hne]; exact hlive⟩

end Release

end MemSentry
