import MemSentry.Manager.Ownership
import MemSentry.Core.TrackerContents

/-!
# Double-entry accounts of the manager

What the counters, the table and the system heap say can disagree in the middle of an
operation. `Holding` says by how much: it is what the operations in progress have entered
on one side only. Holdings add up, so that the holding of many threads is one holding.

`Entry` lists the ways in which one atomic step changes the accounts, each with the part
of the holding that it moves. It knows nothing of threads, program points or memory.
`Balanced` is the invariant of the accounts: with the holding taken into account,
everything agrees. Every entry keeps it, whatever else is held (`Balanced.post`).
-/

namespace MemSentry

open MemSentry.Core Function World

/-! ## Holdings -/

@[ext] structure Holding where
  /-- Allocations that `active_allocation_count` counts and the table lacks. -/
  counted : Nat := 0
  /-- Bytes that `current_allocated_bytes` counts and the table lacks. -/
  booked : Nat := 0
  /-- Identifiers drawn for allocations that are not counted yet. -/
  tickets : Nat := 0
  /-- Bytes of `total_allocated_bytes` that are not in `current_allocated_bytes` yet. -/
  pending : Nat := 0
  /-- Identifiers drawn for records that are not in the table yet. -/
  ids : Multiset Word := 0
  /-- Records of blocks that belong to an operation in progress. -/
  blocks : Multiset AllocationRecord := 0
  /-- Pointers of stored records, in the hands of a client or of an operation. -/
  pointers : Multiset Ptr := 0

namespace Holding

instance : Zero Holding := ⟨{}⟩

instance : Add Holding where
  add h k :=
    { counted := h.counted + k.counted
      booked := h.booked + k.booked
      tickets := h.tickets + k.tickets
      pending := h.pending + k.pending
      ids := h.ids + k.ids
      blocks := h.blocks + k.blocks
      pointers := h.pointers + k.pointers }

variable (h k : Holding)

@[simp] theorem counted_add : (h + k).counted = h.counted + k.counted := rfl
@[simp] theorem booked_add : (h + k).booked = h.booked + k.booked := rfl
@[simp] theorem tickets_add : (h + k).tickets = h.tickets + k.tickets := rfl
@[simp] theorem pending_add : (h + k).pending = h.pending + k.pending := rfl
@[simp] theorem ids_add : (h + k).ids = h.ids + k.ids := rfl
@[simp] theorem blocks_add : (h + k).blocks = h.blocks + k.blocks := rfl
@[simp] theorem pointers_add : (h + k).pointers = h.pointers + k.pointers := rfl

theorem zero_eq : (0 : Holding) = {} := rfl

instance : AddCommMonoid Holding where
  add_assoc := by
    intro h k l
    ext1 <;> simp [add_assoc]
  zero_add := by
    intro h
    ext1 <;> simp [zero_eq]
  add_zero := by
    intro h
    ext1 <;> simp [zero_eq]
  add_comm := by
    intro h k
    ext1 <;> simp [add_comm]
  nsmul := nsmulRec

end Holding

/-! ## The accounts -/

/-- What the accounting sees of a state. -/
structure Accounts where
  heap : Ptr → Option Nat
  tracker : ShardedTracker
  /-- The records inserted so far, newest first. -/
  inserted : List AllocationRecord
  allocCounter : Word
  totalAllocatedBytes : Word
  activeAllocationCount : Word
  currentAllocatedBytes : Word
  fault : Bool

/-- A pointer in the hands of somebody, unless it is null. -/
def nonNull (ptr : Ptr) : Multiset Ptr := if ptr = 0 then 0 else {ptr}

@[simp] theorem nonNull_zero : nonNull 0#64 = 0 := if_pos rfl

theorem nonNull_of_ne {ptr : Ptr} (h : ptr ≠ 0) : nonNull ptr = {ptr} := if_neg h

/-- What one step enters in the accounts: from the part of the holding it takes, the new
accounts and the part of the holding it leaves. Where `W` holds, the entry wraps no total. -/
inductive Entry (W : Prop) (a : Accounts) : Holding → Accounts → Holding → Prop
  | none : Entry W a {} a {}
  | draw (hwrap : W → a.allocCounter.toNat + 1 < 2 ^ 64) :
    Entry W a {} { a with allocCounter := a.allocCounter + 1 }
      { tickets := 1, ids := {a.allocCounter} }
  | abandon (allocId : Word) : Entry W a { tickets := 1, ids := {allocId} } a {}
  | layOut (r : AllocationRecord) (hfresh : Fresh a.heap r.rawPtr r.totalSize)
      (hplaced : Placed r.rawPtr r.userPtr r.requestedSize.toNat r.footerSize.toNat
        r.totalSize.toNat) :
    Entry W a {} { a with heap := update a.heap r.rawPtr (some (extent r.totalSize)) }
      { blocks := {r} }
  | bill (n : Word) (hwrap : W → a.totalAllocatedBytes.toNat + n.toNat < 2 ^ 64) :
    Entry W a {} { a with totalAllocatedBytes := a.totalAllocatedBytes + n }
      { pending := n.toNat }
  | count :
    Entry W a { tickets := 1 } { a with activeAllocationCount := a.activeAllocationCount + 1 }
      { counted := 1 }
  | book (n : Word) :
    Entry W a { pending := n.toNat }
      { a with currentAllocatedBytes := a.currentAllocatedBytes + n } { booked := n.toNat }
  | insert (r : AllocationRecord) :
    Entry W a
      { counted := 1, booked := r.requestedSize.toNat, ids := {r.allocationId}, blocks := {r} }
      { a with tracker := a.tracker.insert r.userPtr r, inserted := r :: a.inserted }
      { pointers := nonNull r.userPtr }
  | erase (ptr : Ptr) (r : AllocationRecord) (hfind : a.tracker.find ptr = some r) :
    Entry W a { pointers := {ptr} } { a with tracker := a.tracker.afterErase ptr }
      { counted := 1, booked := r.requestedSize.toNat, blocks := {r} }
  | uncount :
    Entry W a { counted := 1 } { a with activeAllocationCount := a.activeAllocationCount - 1 } {}
  | unbook (n : Word) :
    Entry W a { booked := n.toNat }
      { a with currentAllocatedBytes := a.currentAllocatedBytes - n } {}
  | leak (r : AllocationRecord) : Entry W a { blocks := {r} } a {}
  | free (r : AllocationRecord) :
    Entry W a { blocks := {r} } { a with heap := update a.heap r.rawPtr none } {}

/-! ## Blocks

Storing and erasing a record moves its block between the table and the holding, so the
blocks of both together are what matters. -/

/-- The blocks are live, laid out as their records say, and no two are one. -/
structure Housed (heap : Ptr → Option Nat) (blocks : Multiset AllocationRecord) : Prop
    extends SoundHeap heap where
  housed : ∀ r ∈ blocks, TrackedBlock heap r.userPtr r
  separate : (blocks.map AllocationRecord.rawPtr).Nodup

namespace Housed

variable {heap : Ptr → Option Nat} {blocks : Multiset AllocationRecord} {r : AllocationRecord}

theorem alloc (h : Housed heap blocks) (hfresh : Fresh heap r.rawPtr r.totalSize)
    (hplaced : Placed r.rawPtr r.userPtr r.requestedSize.toNat r.footerSize.toNat
      r.totalSize.toNat) :
    Housed (update heap r.rawPtr (some (extent r.totalSize))) (r ::ₘ blocks) := by
  have hfree := hfresh.not_live h.toSoundHeap
  have hne : ∀ r' ∈ blocks, r'.rawPtr ≠ r.rawPtr := by
    intro r' hr' heq
    have hlive := (h.housed r' hr').live
    rw [heq, hfree] at hlive
    cases hlive
  refine ⟨h.toSoundHeap.alloc hplaced.raw_ne_zero hfresh, ?_, ?_⟩
  · intro r' hr'
    rcases Multiset.mem_cons.mp hr' with rfl | hold
    · exact ⟨by rw [update_self, hplaced.extent_eq], hplaced⟩
    · obtain ⟨hlive, hplaced'⟩ := h.housed r' hold
      exact ⟨by rw [update_of_ne (hne r' hold)]; exact hlive, hplaced'⟩
  · rw [Multiset.map_cons, Multiset.nodup_cons]
    refine ⟨fun hmem => ?_, h.separate⟩
    obtain ⟨r', hr', heq⟩ := Multiset.mem_map.mp hmem
    exact hne r' hr' heq

theorem leak (h : Housed heap (r ::ₘ blocks)) : Housed heap blocks where
  toSoundHeap := h.toSoundHeap
  housed := fun r' hr' => h.housed r' (Multiset.mem_cons_of_mem hr')
  separate := by
    have hnodup := h.separate
    rw [Multiset.map_cons, Multiset.nodup_cons] at hnodup
    exact hnodup.2

theorem free (h : Housed heap (r ::ₘ blocks)) :
    Housed (update heap r.rawPtr none) blocks where
  toSoundHeap := h.toSoundHeap.free r.rawPtr
  housed := by
    intro r' hr'
    have hnodup := h.separate
    rw [Multiset.map_cons, Multiset.nodup_cons] at hnodup
    have hne : r'.rawPtr ≠ r.rawPtr := fun heq => hnodup.1 (Multiset.mem_map.mpr ⟨r', hr', heq⟩)
    obtain ⟨hlive, hplaced⟩ := h.leak.housed r' hr'
    exact ⟨by rw [update_of_ne hne]; exact hlive, hplaced⟩
  separate := h.leak.separate

/-- The user pointer lies in its block. -/
theorem inside (h : Housed heap blocks) (hr : r ∈ blocks) :
    r.rawPtr.toNat ≤ r.userPtr.toNat ∧
      r.userPtr.toNat < r.rawPtr.toNat + r.totalSize.toNat := by
  have hplaced := (h.housed r hr).placed
  have hbelow := hplaced.below
  have habove := hplaced.above
  omega

/-- Different blocks have different user pointers, whatever was asked for. -/
theorem rawPtr_eq (h : Housed heap blocks) {r r' : AllocationRecord} (hr : r ∈ blocks)
    (hr' : r' ∈ blocks) (heq : r.userPtr = r'.userPtr) : r.rawPtr = r'.rawPtr := by
  have hin := h.inside hr
  have hin' := h.inside hr'
  rw [← heq] at hin'
  exact h.base_unique (h.housed r hr).live (h.housed r' hr').live hin hin'

/-- A block takes up 64 bytes or more, so there are at most `2 ^ 58` of them. -/
theorem card_le (h : Housed heap blocks) : blocks.card ≤ 2 ^ 58 := by
  have hinj : ∀ p ∈ blocks.map AllocationRecord.rawPtr, ∀ q ∈ blocks.map AllocationRecord.rawPtr,
      p.toNat / 64 = q.toNat / 64 → p = q := by
    intro p hp q hq hpq
    obtain ⟨r, hr, rfl⟩ := Multiset.mem_map.mp hp
    obtain ⟨r', hr', rfl⟩ := Multiset.mem_map.mp hq
    by_contra hne
    have hbelow := (h.housed r hr).placed.below
    have habove := (h.housed r hr).placed.above
    have hbelow' := (h.housed r' hr').placed.below
    have habove' := (h.housed r' hr').placed.above
    have hapart := h.apart _ _ _ _ (h.housed r hr).live (h.housed r' hr').live hne
    omega
  have hnodup := Multiset.Nodup.map_on hinj h.separate
  have hle : (blocks.map AllocationRecord.rawPtr).map (fun p => p.toNat / 64) ≤
      Multiset.range (2 ^ 58) := by
    rw [Multiset.le_iff_subset hnodup]
    intro n hn
    obtain ⟨p, _, rfl⟩ := Multiset.mem_map.mp hn
    have hp := p.isLt
    rw [Multiset.mem_range]
    omega
  have hcard := Multiset.card_le_card hle
  rwa [Multiset.card_map, Multiset.card_map, Multiset.card_range] at hcard

end Housed

/-! ## The table -/

/-- The stored records are those of the pointers in somebody's hands. -/
structure Listed (tracker : ShardedTracker) (pointers : Multiset Ptr) : Prop where
  wellPlaced : tracker.WellPlaced
  keyed : tracker.Keyed
  pointers : tracker.records.map AllocationRecord.userPtr = pointers

namespace Listed

variable {tracker : ShardedTracker} {pointers : Multiset Ptr} {p : Ptr} {r : AllocationRecord}

/-- A pointer in somebody's hands is stored. -/
theorem find_of_mem (h : Listed tracker pointers) (hp : p ∈ pointers) :
    ∃ r, tracker.find p = some r := by
  rw [← h.pointers, Multiset.mem_map] at hp
  obtain ⟨r, hr, rfl⟩ := hp
  exact ⟨r, (ShardedTracker.mem_records_iff_find h.wellPlaced h.keyed).mp hr⟩

theorem mem_of_find (h : Listed tracker pointers) (hfind : tracker.find p = some r) :
    r ∈ tracker.records :=
  (ShardedTracker.mem_records h.wellPlaced).mpr ⟨p, hfind⟩

theorem insert (h : Listed tracker pointers) (hr : r.userPtr ≠ 0)
    (hfree : tracker.find r.userPtr = none) :
    Listed (tracker.insert r.userPtr r) (r.userPtr ::ₘ pointers) where
  wellPlaced := h.wellPlaced.insert _ _
  keyed := h.keyed.insert r
  pointers := by rw [ShardedTracker.records_insert hr hfree, Multiset.map_cons, h.pointers]

theorem erase (h : Listed tracker (p ::ₘ pointers)) (hfind : tracker.find p = some r) :
    Listed (tracker.afterErase p) pointers where
  wellPlaced := h.wellPlaced.afterErase p
  keyed := h.keyed.afterErase p
  pointers := by
    have hall := h.pointers
    rw [ShardedTracker.records_eq_cons_afterErase hfind, Multiset.map_cons,
      h.keyed p r hfind] at hall
    exact (Multiset.cons_inj_right p).mp hall

end Listed

/-- Every block of the table and of the holding is live and its own, and every stored record
has its pointer in somebody's hands. -/
structure Custody (a : Accounts) (h : Holding) : Prop where
  housed : Housed a.heap (a.tracker.records + h.blocks)
  listed : Listed a.tracker h.pointers

section Custody

variable {W : Prop} {a a' : Accounts} {h x y o : Holding}

/-- A block that an operation holds is not stored, so inserting its record finds the key
absent. -/
theorem Custody.find_of_held (hc : Custody a h) {r : AllocationRecord} (hr : r ∈ h.blocks) :
    r.userPtr ≠ 0 ∧ a.tracker.find r.userPtr = none := by
  have hall : r ∈ a.tracker.records + h.blocks := Multiset.mem_add.mpr (Or.inr hr)
  refine ⟨(hc.housed.housed r hall).placed.user_ne_zero, ?_⟩
  rcases hfind : a.tracker.find r.userPtr with _ | r'
  · rfl
  · have hr' := hc.listed.mem_of_find hfind
    have hraw := hc.housed.rawPtr_eq hall (Multiset.mem_add.mpr (Or.inl hr'))
      (hc.listed.keyed _ _ hfind).symm
    have hnodup := hc.housed.separate
    rw [Multiset.map_add, Multiset.nodup_add] at hnodup
    have hstored : r'.rawPtr ∈ a.tracker.records.map AllocationRecord.rawPtr :=
      Multiset.mem_map_of_mem _ hr'
    have hheld : r'.rawPtr ∈ h.blocks.map AllocationRecord.rawPtr :=
      Multiset.mem_map.mpr ⟨r, hr, hraw⟩
    exact absurd hheld (Multiset.disjoint_left.mp hnodup.2.2 hstored)

theorem Custody.post_housed (he : Entry W a x a' y) (hc : Custody a (x + o)) :
    Housed a'.heap (a'.tracker.records + (y + o).blocks) := by
  have h := hc.housed
  cases he with
  | layOut r hfresh hplaced =>
    have hold : Housed a.heap (a.tracker.records + o.blocks) := by simpa using h
    simpa using hold.alloc hfresh hplaced
  | insert r =>
    obtain ⟨hr, hfree⟩ := @Custody.find_of_held _ _ hc r (by simp)
    simpa [ShardedTracker.records_insert hr hfree] using h
  | erase ptr r hfind =>
    simpa [ShardedTracker.records_eq_cons_afterErase hfind] using h
  | leak r =>
    have hold : Housed a.heap (r ::ₘ (a.tracker.records + o.blocks)) := by simpa using h
    simpa using hold.leak
  | free r =>
    have hold : Housed a.heap (r ::ₘ (a.tracker.records + o.blocks)) := by simpa using h
    simpa using hold.free
  | _ => simpa using h

theorem Custody.post_listed (he : Entry W a x a' y) (hc : Custody a (x + o)) :
    Listed a'.tracker (y + o).pointers := by
  have h := hc.listed
  cases he with
  | insert r =>
    obtain ⟨hr, hfree⟩ := @Custody.find_of_held _ _ hc r (by simp)
    have hold : Listed a.tracker o.pointers := by simpa using h
    simpa [nonNull_of_ne hr] using hold.insert hr hfree
  | erase ptr r hfind =>
    have hold : Listed a.tracker (ptr ::ₘ o.pointers) := by simpa using h
    simpa using hold.erase hfind
  | _ => simpa using h

/-- Every entry keeps custody, whatever else is held. -/
theorem Custody.post (he : Entry W a x a' y) (hc : Custody a (x + o)) : Custody a' (y + o) :=
  ⟨hc.post_housed he, hc.post_listed he⟩

end Custody

/-! ## Counters and identifiers -/

/-- The bytes that the stored records were asked for. -/
def Core.ShardedTracker.storedBytes (t : ShardedTracker) : Nat :=
  (t.records.map fun r => r.requestedSize.toNat).sum

/-- The counters agree with the table and the holding, and have room for what the
operations in progress still add. -/
structure Agrees (a : Accounts) (h : Holding) : Prop where
  active : a.activeAllocationCount.toNat = a.tracker.records.card + h.counted
  current : a.currentAllocatedBytes.toNat = a.tracker.storedBytes + h.booked
  issued : a.activeAllocationCount.toNat + h.tickets < a.allocCounter.toNat
  covered : a.currentAllocatedBytes.toNat + h.pending ≤ a.totalAllocatedBytes.toNat

/-- The identifiers of the records inserted so far, and of those to come. -/
def drawnIds (inserted : List AllocationRecord) (ids : Multiset Word) : Multiset Word :=
  (inserted : Multiset AllocationRecord).map AllocationRecord.allocationId + ids

@[simp] theorem drawnIds_cons (r : AllocationRecord) (inserted : List AllocationRecord)
    (ids : Multiset Word) :
    drawnIds (r :: inserted) ids = r.allocationId ::ₘ drawnIds inserted ids := by
  simp [drawnIds, ← Multiset.cons_coe]

@[simp] theorem drawnIds_cons_ids (id : Word) (inserted : List AllocationRecord)
    (ids : Multiset Word) :
    drawnIds inserted (id ::ₘ ids) = id ::ₘ drawnIds inserted ids := by
  simp [drawnIds]

/-- No identifier is used twice, and a stored record was inserted. -/
structure Numbered (a : Accounts) (ids : Multiset Word) : Prop where
  distinct : (drawnIds a.inserted ids).Nodup
  issued : ∀ id ∈ drawnIds a.inserted ids, id.toNat < a.allocCounter.toNat
  recorded : ∀ r ∈ a.tracker.records, r ∈ a.inserted

/-- The accounts agree with each other once the holding is taken into account. -/
structure Balanced (a : Accounts) (h : Holding) : Prop where
  housed : Housed a.heap (a.tracker.records + h.blocks)
  listed : Listed a.tracker h.pointers
  agrees : Agrees a h
  numbered : Numbered a h.ids

theorem Balanced.custody {a : Accounts} {h : Holding} (hb : Balanced a h) : Custody a h :=
  ⟨hb.housed, hb.listed⟩

/-- Nothing has happened yet; identifiers start at 1. -/
def Accounts.start : Accounts where
  heap := fun _ => none
  tracker := ShardedTracker.empty
  inserted := []
  allocCounter := 1
  totalAllocatedBytes := 0
  activeAllocationCount := 0
  currentAllocatedBytes := 0
  fault := false

theorem balanced_start : Balanced Accounts.start {} := by
  have hrecords : Accounts.start.tracker.records = 0 := ShardedTracker.records_empty
  refine ⟨?_, ⟨ShardedTracker.wellPlaced_empty, ShardedTracker.keyed_empty, ?_⟩, ?_, ?_⟩
  · rw [hrecords]
    exact ⟨soundHeap_empty, fun r hr => absurd hr (Multiset.notMem_zero r), Multiset.nodup_zero⟩
  · rw [hrecords]
    rfl
  · refine ⟨?_, ?_, Nat.one_pos, Nat.le_refl 0⟩
    · rw [hrecords]
      rfl
    · rw [ShardedTracker.storedBytes, hrecords]
      rfl
  · refine ⟨Multiset.nodup_zero, fun id hid => absurd hid (Multiset.notMem_zero id), ?_⟩
    rw [hrecords]
    exact fun r hr => absurd hr (Multiset.notMem_zero r)

section Post

variable {W : Prop} {a a' : Accounts} {h x y o : Holding}

theorem storedBytes_insert {t : ShardedTracker} {p : Ptr} {r : AllocationRecord} (hp : p ≠ 0)
    (h : t.find p = none) :
    (t.insert p r).storedBytes = r.requestedSize.toNat + t.storedBytes := by
  simp [ShardedTracker.storedBytes, ShardedTracker.records_insert hp h]

theorem storedBytes_erase {t : ShardedTracker} {p : Ptr} {r : AllocationRecord}
    (h : t.find p = some r) :
    t.storedBytes = r.requestedSize.toNat + (t.afterErase p).storedBytes := by
  simp [ShardedTracker.storedBytes, ShardedTracker.records_eq_cons_afterErase h]

theorem Balanced.post_agrees (he : Entry W a x a' y) (hW : W)
    (hb : Balanced a (x + o)) : Agrees a' (y + o) := by
  obtain ⟨hactive, hcurrent, hissued, hcovered⟩ := hb.agrees
  have hcounter := a.allocCounter.isLt
  have htotal := a.totalAllocatedBytes.isLt
  cases he with
  | draw hwrap =>
    have hnext := hwrap hW
    refine ⟨by simpa using hactive, by simpa using hcurrent, ?_, by simpa using hcovered⟩
    simp at hissued hnext ⊢
    omega
  | abandon allocId =>
    refine ⟨by simpa using hactive, by simpa using hcurrent, ?_, by simpa using hcovered⟩
    simp at hissued ⊢
    omega
  | bill n hwrap =>
    have hnext := hwrap hW
    refine ⟨by simpa using hactive, by simpa using hcurrent, by simpa using hissued, ?_⟩
    simp at hcovered hnext ⊢
    omega
  | count =>
    -- the ticket bounds the counter by the identifiers drawn so far
    refine ⟨?_, by simpa using hcurrent, ?_, by simpa using hcovered⟩
    · simp at hactive hissued ⊢
      omega
    · simp at hissued ⊢
      omega
  | book n =>
    refine ⟨by simpa using hactive, ?_, by simpa using hissued, ?_⟩
    · simp at hcurrent hcovered ⊢
      omega
    · simp at hcovered ⊢
      omega
  | insert r =>
    obtain ⟨hr, hfree⟩ := @Custody.find_of_held _ _ hb.custody r (by simp)
    refine ⟨?_, ?_, by simpa using hissued, by simpa using hcovered⟩
    · simp [ShardedTracker.records_insert hr hfree] at hactive ⊢
      omega
    · simp [storedBytes_insert hr hfree] at hcurrent ⊢
      omega
  | erase ptr r hfind =>
    refine ⟨?_, ?_, by simpa using hissued, by simpa using hcovered⟩
    · simp [ShardedTracker.records_eq_cons_afterErase hfind] at hactive ⊢
      omega
    · simp [storedBytes_erase hfind] at hcurrent ⊢
      omega
  | uncount =>
    have hpos : 1 ≤ a.activeAllocationCount.toNat := by
      simp at hactive
      omega
    have hsub := @BitVec.toNat_sub_of_le 64 a.activeAllocationCount 1 hpos
    refine ⟨?_, by simpa using hcurrent, ?_, by simpa using hcovered⟩
    · simp at hactive hsub ⊢
      omega
    · simp at hissued hsub ⊢
      omega
  | unbook n =>
    have hle : n.toNat ≤ a.currentAllocatedBytes.toNat := by
      simp at hcurrent
      omega
    have hsub := BitVec.toNat_sub_of_le (BitVec.le_def.mpr hle)
    refine ⟨by simpa using hactive, ?_, by simpa using hissued, ?_⟩
    · simp at hcurrent hsub ⊢
      omega
    · simp at hcovered hsub ⊢
      omega
  | _ => exact ⟨by simpa using hactive, by simpa using hcurrent, by simpa using hissued,
      by simpa using hcovered⟩

theorem Numbered.draw {ids : Multiset Word} (h : Numbered a ids)
    (hwrap : a.allocCounter.toNat + 1 < 2 ^ 64) :
    Numbered { a with allocCounter := a.allocCounter + 1 } (a.allocCounter ::ₘ ids) := by
  obtain ⟨hdistinct, hissued, hrecorded⟩ := h
  have hnext : (a.allocCounter + 1).toNat = a.allocCounter.toNat + 1 := by
    simp
    omega
  refine ⟨?_, ?_, hrecorded⟩
  · rw [drawnIds_cons_ids, Multiset.nodup_cons]
    exact ⟨fun hmem => Nat.lt_irrefl _ (hissued _ hmem), hdistinct⟩
  · intro id hid
    rw [hnext]
    rw [drawnIds_cons_ids] at hid
    rcases Multiset.mem_cons.mp hid with rfl | hold
    · exact Nat.lt_succ_self _
    · exact Nat.lt_succ_of_lt (hissued id hold)

theorem Balanced.post_numbered (he : Entry W a x a' y) (hW : W)
    (hb : Balanced a (x + o)) : Numbered a' (y + o).ids := by
  obtain ⟨hdistinct, hissued, hrecorded⟩ := hb.numbered
  cases he with
  | draw hwrap =>
    have hold : Numbered a o.ids := ⟨by simpa using hdistinct, by simpa using hissued, hrecorded⟩
    simpa using hold.draw (hwrap hW)
  | abandon allocId =>
    have hnodup : (allocId ::ₘ drawnIds a.inserted o.ids).Nodup := by simpa using hdistinct
    refine ⟨by simpa using (Multiset.nodup_cons.mp hnodup).2, ?_, hrecorded⟩
    intro id hid
    apply hissued
    simp at hid ⊢
    exact Or.inr hid
  | insert r =>
    obtain ⟨hr, hfree⟩ := @Custody.find_of_held _ _ hb.custody r (by simp)
    refine ⟨by simpa using hdistinct, by simpa using hissued, ?_⟩
    intro r' hr'
    rw [ShardedTracker.records_insert hr hfree] at hr'
    rcases Multiset.mem_cons.mp hr' with rfl | hold
    · exact List.mem_cons_self
    · exact List.mem_cons_of_mem r (hrecorded r' hold)
  | erase ptr r hfind =>
    refine ⟨by simpa using hdistinct, by simpa using hissued, ?_⟩
    intro r' hr'
    apply hrecorded
    rw [ShardedTracker.records_eq_cons_afterErase hfind]
    exact Multiset.mem_cons_of_mem hr'
  | _ => exact ⟨by simpa using hdistinct, by simpa using hissued, hrecorded⟩

/-- Every entry keeps the accounts balanced, whatever else is held. -/
theorem Balanced.post (he : Entry W a x a' y) (hW : W) (hb : Balanced a (x + o)) :
    Balanced a' (y + o) :=
  ⟨hb.custody.post_housed he, hb.custody.post_listed he, hb.post_agrees he hW,
    hb.post_numbered he hW⟩

/-! ## Motions -/

/-- One step enters something in the accounts, next to what else is held. -/
def Motion (W : Prop) (a : Accounts) (h : Holding) (a' : Accounts) (h' : Holding) : Prop :=
  ∃ x y o, h = x + o ∧ h' = y + o ∧ Entry W a x a' y

theorem Motion.still (ha : a' = a) (hh : h' = h) : Motion W a h a' h' := by
  subst a' h'
  exact ⟨{}, {}, h, (zero_add h).symm, (zero_add h).symm, .none⟩

theorem Motion.fault {h' : Holding} (hm : Motion W a h a' h') : a'.fault = a.fault := by
  obtain ⟨x, y, o, _, _, he⟩ := hm
  cases he <;> rfl

/-- What was inserted once stays in the history. -/
theorem Motion.inserted {h' : Holding} (hm : Motion W a h a' h') {r : AllocationRecord}
    (hr : r ∈ a.inserted) : r ∈ a'.inserted := by
  obtain ⟨x, y, o, _, _, he⟩ := hm
  cases he with
  | insert r' => exact List.mem_cons_of_mem r' hr
  | _ => exact hr

theorem Custody.motion {h' : Holding} (hm : Motion W a h a' h') (hc : Custody a (h + o)) :
    Custody a' (h' + o) := by
  obtain ⟨x, y, rest, rfl, rfl, he⟩ := hm
  rw [add_assoc] at hc ⊢
  exact hc.post he

theorem Balanced.motion {h' : Holding} (hm : Motion W a h a' h') (hW : W)
    (hb : Balanced a (h + o)) : Balanced a' (h' + o) := by
  obtain ⟨x, y, rest, rfl, rfl, he⟩ := hm
  rw [add_assoc] at hb ⊢
  exact hb.post he hW

end Post

end MemSentry
