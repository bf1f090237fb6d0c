import MemSentry.Manager.SafeRuns

/-!
# What the tracked blocks contain

A `BlockProperty` is a property of the bytes of a tracked block outside its payload that
`init_block` establishes. No sound step destroys it: the manager writes into blocks it
has just got, into the payload of a new block and into a block it is about to give back,
and the clients write into payloads. So such a property holds of every tracked block in
every run (`run_contents`).

Giving a block back writes over its footer, and the length used is the one now in force.
`NotGrown` is the condition that this does not reach beyond the red zone that the block
was laid out with.
-/

namespace MemSentry

open ByteMemory MemSentry.Core Function World Transition

/-- The length of the red zone that the block was laid out with. -/
def laidOutLength (m : Memory) (r : AllocationRecord) : Nat :=
  canaryLength (hasCanaryOf m r.rawPtr) r.footerSize

/-- The length of the red zone that is checked when the block is released now. -/
def checkedLength (w : World) (r : AllocationRecord) : Nat :=
  canaryLength (hasCanaryOf w.mem r.rawPtr) w.config.footerSize

structure BlockProperty where
  holds : Memory → Ptr → AllocationRecord → Prop
  congr : ∀ {m m' : Memory} {p : Ptr} {r : AllocationRecord},
    Placed r.rawPtr p r.requestedSize.toNat r.footerSize.toNat r.totalSize.toNat →
    (∀ a, InSpan r.rawPtr r.totalSize.toNat a → ¬ InSpan p r.requestedSize.toNat a → m' a = m a) →
    holds m p r → holds m' p r
  init : ∀ {m : Memory} {r : AllocationRecord} {alignment allocId : Word} {tag : Ptr}
    {canary : Bool} {tid : BitVec 32},
    Placed r.rawPtr (userAddress r.rawPtr alignment) r.requestedSize.toNat r.footerSize.toNat
      r.totalSize.toNat →
    holds (initBlock m r.rawPtr r.requestedSize alignment r.footerSize allocId tag canary tid).2.1
      (userAddress r.rawPtr alignment) r
  header : ∀ {m : Memory} {p : Ptr} {r : AllocationRecord}, holds m p r →
    HeaderIntact m r.rawPtr p r.requestedSize (hasCanaryOf m r.rawPtr)

/-! ## The two properties in use -/

section Properties

variable {m m' : Memory} {p : Ptr} {r : AllocationRecord}

/-- Bytes of the header lie below the payload. -/
theorem header_bytes_congr
    (hplaced : Placed r.rawPtr p r.requestedSize.toNat r.footerSize.toNat r.totalSize.toNat)
    (h : ∀ a, InSpan r.rawPtr r.totalSize.toNat a → ¬ InSpan p r.requestedSize.toNat a →
      m' a = m a) (i : Nat) (hi : i < 64) :
    m' (r.rawPtr + BitVec.ofNat 64 i) = m (r.rawPtr + BitVec.ofNat 64 i) :=
  h _ (hplaced.header_inSpan hi) (hplaced.header_not_payload hi)

/-- Bytes of the footer lie above the payload. -/
theorem footer_bytes_congr
    (hplaced : Placed r.rawPtr p r.requestedSize.toNat r.footerSize.toNat r.totalSize.toNat)
    (h : ∀ a, InSpan r.rawPtr r.totalSize.toNat a → ¬ InSpan p r.requestedSize.toNat a →
      m' a = m a) (i : Nat) (hi : i < r.footerSize.toNat) :
    m' (p + r.requestedSize + BitVec.ofNat 64 i) = m (p + r.requestedSize + BitVec.ofNat 64 i) :=
  h _ (hplaced.footer_inSpan hi) (hplaced.footer_not_payload hi)

theorem hasCanaryOf_congr
    (h : ∀ i < 64, m' (r.rawPtr + BitVec.ofNat 64 i) = m (r.rawPtr + BitVec.ofNat 64 i)) :
    hasCanaryOf m' r.rawPtr = hasCanaryOf m r.rawPtr :=
  (fields_congr fun i _ hi => h i hi).2.2

theorem Core.HeaderIntact.congr_self
    (hi : HeaderIntact m r.rawPtr p r.requestedSize (hasCanaryOf m r.rawPtr))
    (h : ∀ i < 64, m' (r.rawPtr + BitVec.ofNat 64 i) = m (r.rawPtr + BitVec.ofNat 64 i)) :
    HeaderIntact m' r.rawPtr p r.requestedSize (hasCanaryOf m' r.rawPtr) := by
  rw [hasCanaryOf_congr h]
  exact hi.congr h

theorem laidOutLength_le (m : Memory) (r : AllocationRecord) :
    laidOutLength m r ≤ r.footerSize.toNat := canaryLength_le _ _

/-- The header of the block is intact. -/
def intactHeader : BlockProperty where
  holds := fun m p r => HeaderIntact m r.rawPtr p r.requestedSize (hasCanaryOf m r.rawPtr)
  congr := fun hplaced h hi => hi.congr_self (header_bytes_congr hplaced h)
  init := by
    intro m r alignment allocId tag canary tid hplaced
    have hheader := @initBlock_header m _ _ _ _ allocId tag canary tid _ hplaced
    rw [hheader.hasCanary]
    exact hheader
  header := id

/-- The header and the red zone of the block are intact. -/
def intactBlock : BlockProperty where
  holds := fun m p r => HeaderIntact m r.rawPtr p r.requestedSize (hasCanaryOf m r.rawPtr) ∧
    FooterIntact m p r.requestedSize (laidOutLength m r)
  congr := fun {m m' p r} hplaced h hi => by
    have hheader := header_bytes_congr hplaced h
    have hlength : laidOutLength m' r = laidOutLength m r := by
      unfold laidOutLength
      rw [hasCanaryOf_congr hheader]
    refine ⟨hi.1.congr_self hheader, ?_⟩
    rw [hlength]
    exact hi.2.congr fun i hlt =>
      footer_bytes_congr hplaced h i (Nat.lt_of_lt_of_le hlt (laidOutLength_le m r))
  init := by
    intro m r alignment allocId tag canary tid hplaced
    have hheader := @initBlock_header m _ _ _ _ allocId tag canary tid _ hplaced
    unfold laidOutLength
    rw [hheader.hasCanary]
    exact ⟨hheader, initBlock_footer hplaced⟩
  header := And.left

end Properties

/-! ## Writes that leave the property alone -/

/-- Every changed byte lies in a payload or outside all live blocks. -/
def SafeWrites (heap : Ptr → Option Nat) (leases : Ptr → Option Lease) (m m' : Memory) : Prop :=
  ∀ a, m' a ≠ m a →
    (∃ p l, leases p = some l ∧ InSpan p l.size.toNat a) ∨
      ∀ b n, heap b = some n → ¬ InSpan b n a

theorem SafeWrites.refl (heap : Ptr → Option Nat) (leases : Ptr → Option Lease) (m : Memory) :
    SafeWrites heap leases m m :=
  fun _ ha => absurd rfl ha

section Writes

variable {Φ : BlockProperty} {heap : Ptr → Option Nat} {tracker : ShardedTracker}
  {ls : Ptr → Option Lease} {m m' : Memory}

/-- The property holds of every block that the tracker knows. -/
def HoldsOfAll (Φ : BlockProperty) (tracker : ShardedTracker) (m : Memory) : Prop :=
  ∀ p r, tracker.find p = some r → Φ.holds m p r

/-- Two live blocks that share a byte are one block. -/
theorem Owned.base_eq_of_inSpan (h : Owned heap tracker ls) {b c a : Ptr} {n k : Nat}
    (hb : heap b = some n) (hc : heap c = some k) (hba : InSpan b n a) (hca : InSpan c k a) :
    b = c := by
  by_contra hne
  rw [inSpan_iff (h.space b n hb).2.2] at hba
  rw [inSpan_iff (h.space c k hc).2.2] at hca
  rcases h.apart b n c k hb hc hne with hd | hd
  · omega
  · omega

/-- A payload lies in the block of its pointer. -/
theorem Owned.payload_inSpan (h : Owned heap tracker ls) {p a : Ptr} {l : Lease}
    (hl : ls p = some l) (ha : InSpan p l.size.toNat a) :
    ∃ n, heap l.base = some n ∧ InSpan l.base n a := by
  obtain ⟨n, hlive, hlow, hhigh, _⟩ := h.lease_live hl
  have hspace := (h.space l.base n hlive).2.2
  refine ⟨n, hlive, ?_⟩
  rw [inSpan_iff (by omega)] at ha
  rw [inSpan_iff hspace]
  omega

/-- Such writes leave a tracked block alone outside its payload. -/
theorem Owned.block_congr (h : Owned heap tracker ls) (hw : SafeWrites heap ls m m') {p : Ptr}
    {r : AllocationRecord} (hfind : tracker.find p = some r) (a : Ptr)
    (hin : InSpan r.rawPtr r.totalSize.toNat a) (hout : ¬ InSpan p r.requestedSize.toNat a) :
    m' a = m a := by
  obtain ⟨hblock, hlease⟩ := h.tracked p r hfind
  by_contra hchanged
  rcases hw a hchanged with ⟨q, l, hl, hq⟩ | houtside
  · obtain ⟨n, hlive, hspan⟩ := h.payload_inSpan hl hq
    have hbase := h.base_eq_of_inSpan hlive hblock.live hspan hin
    have hqp := h.separate q p l _ hl hlease hbase
    rw [hqp, hlease] at hl
    cases hl
    exact hout (hqp ▸ hq)
  · exact houtside _ _ hblock.live hin

theorem Owned.holdsOfAll (h : Owned heap tracker ls) (hw : SafeWrites heap ls m m')
    (hall : HoldsOfAll Φ tracker m) : HoldsOfAll Φ tracker m' :=
  fun p r hfind => Φ.congr (h.tracked p r hfind).1.placed (h.block_congr hw hfind) (hall p r hfind)

/-- Writing into a fresh block. -/
theorem safeWrites_of_fresh {b : Ptr} {size : Word} (hfresh : Fresh heap b size)
    (hspace : ∀ c n, heap c = some n → c.toNat + n ≤ 2 ^ 64)
    (hw : ∀ a, ¬ InSpan b (extent size) a → m' a = m a) : SafeWrites heap ls m m' := by
  intro a hchanged
  right
  intro c n hc hin
  apply hchanged
  apply hw
  rw [inSpan_iff (hspace c n hc)] at hin
  rw [inSpan_iff hfresh.1]
  rcases hfresh.2 c n hc with hd | hd
  · omega
  · omega

theorem writeBytes_frame {b : Ptr} {bs : List Byte} {n : Nat} (hspace : b.toNat + n ≤ 2 ^ 64)
    (hlen : bs.length ≤ n) {a : Ptr} (ha : ¬ InSpan b n a) : writeBytes m b bs a = m a := by
  apply writeBytes_of_not_inSpan
  rw [inSpan_iff hspace] at ha
  rw [inSpan_iff (by omega)]
  omega

end Writes

/-! ## Operations -/

namespace World

variable {Φ : BlockProperty} {w : World} {o : Oracle} {tid : ThreadId}
  {size alignment tag newSize : Word} {ptr : Ptr} {ls : Ptr → Option Lease} {l : Lease}

/-- An allocation writes into its own block only, if at all. -/
theorem allocate_writes (hspace : ∀ c n, w.heap c = some n → c.toNat + n ≤ 2 ^ 64)
    (hfresh : ∀ a ∈ (w.allocate o tid size alignment tag).1.log, a.Fresh w.heap) :
    SafeWrites w.heap ls w.mem (w.allocate o tid size alignment tag).1.mem := by
  cases (allocate_effect w o tid size alignment tag).2 with
  | failed hp hwhy hblocks hfault hlog =>
    rw [hblocks.mem]
    exact .refl _ _ _
  | faulted hp hfit hfault htracker hmem hcalls hlog =>
    rw [hmem]
    exact .refl _ _ _
  | raw hp hne htracks hheap htracker hmem hcalls hlog hfault =>
    rw [hmem]
    exact .refl _ _ _
  | tracked allocId tag' htracks hraw hfit hp hheap htracker hcalls hmem hlog hfault =>
    obtain ⟨rest, hlog, _⟩ := hlog
    have hf : Fresh w.heap o.malloc (calculateTotalSize size (effectiveAlignment alignment)
        w.config.footerSize) := hfresh (.systemAlloc _ o.malloc)
      (by rw [hlog]; exact List.mem_append_right _ List.mem_cons_self) hraw
    have hplaced := placed_userAddress hraw hfit
      (Nat.le_trans (Nat.add_le_add_left (le_extent _) _) hf.1)
    refine safeWrites_of_fresh hf hspace fun a ha => ?_
    rw [hplaced.extent_eq] at ha
    rw [hmem]
    exact initBlock_frame hplaced ha

theorem allocate_holdsOfAll (h : w.OwnedBy ls) (hall : HoldsOfAll Φ w.tracker w.mem)
    (hfresh : ∀ a ∈ (w.allocate o tid size alignment tag).1.log, a.Fresh w.heap) :
    HoldsOfAll Φ (w.allocate o tid size alignment tag).1.tracker
      (w.allocate o tid size alignment tag).1.mem := by
  have hold := h.holdsOfAll (allocate_writes (fun c k hc => (h.space c k hc).2.2) hfresh) hall
  cases (allocate_effect w o tid size alignment tag).2 with
  | failed hp hwhy hblocks hfault hlog =>
    rw [hblocks.tracker]
    exact hold
  | faulted hp hfit hfault htracker hmem hcalls hlog =>
    rw [htracker]
    exact hold
  | raw hp hne htracks hheap htracker hmem hcalls hlog hfault =>
    rw [htracker]
    exact hold
  | tracked allocId tag' htracks hraw hfit hp hheap htracker hcalls hmem hlog hfault =>
    obtain ⟨rest, hlog, _⟩ := hlog
    have hspace := (hfresh (.systemAlloc _ o.malloc)
      (by rw [hlog]; exact List.mem_append_right _ List.mem_cons_self) hraw).1
    have hplaced := @recordOf_placed w o tid size alignment tag' allocId hraw hfit
      (Nat.le_trans (Nat.add_le_add_left (le_extent _) _) hspace)
    have hfooter := @recordOf_footerSize w o tid size alignment tag' allocId
      (userAddress o.malloc (effectiveAlignment alignment)) hfit
    rw [htracker]
    intro q r hfind
    by_cases hq : q = (w.allocate o tid size alignment tag).2
    · rw [hq, hp, ShardedTracker.find_insert_self hplaced.user_ne_zero] at hfind
      cases hfind
      have hinit := @BlockProperty.init Φ w.mem (w.recordOf o tid allocId size alignment tag'
        (userAddress o.malloc (effectiveAlignment alignment))) (effectiveAlignment alignment)
        allocId (w.finalTag tid tag') w.config.enableCanary tid hplaced
      rw [hfooter] at hinit
      rw [hmem, hq, hp]
      exact hinit
    · rw [ShardedTracker.find_insert_of_ne hq] at hfind
      exact hold q r hfind

theorem deallocate_holdsOfAll (h : w.OwnedBy ls) (hl : ls ptr = some l)
    (hguard : w.guardActive tid = false) (hsound : NotMisread w ptr)
    (hgrown : ∀ r, w.tracker.find ptr = some r → checkedLength w r ≤ laidOutLength w.mem r)
    (hall : HoldsOfAll Φ w.tracker w.mem) :
    HoldsOfAll Φ (w.deallocate tid ptr).tracker (w.deallocate tid ptr).mem := by
  have hp := h.held_ne_zero hl
  have herased : HoldsOfAll Φ (w.tracker.afterErase ptr) w.mem := by
    intro q r hfind
    rw [ShardedTracker.find_afterErase] at hfind
    split at hfind
    · cases hfind
    · exact hall q r hfind
  obtain ⟨_, ⟨_, htracker⟩, heffect⟩ := deallocate_effect w tid ptr hguard hp
  rw [htracker]
  cases heffect with
  | released r hfind hraw hverdict hheap _ hmem hlog hfault =>
    obtain ⟨hblock, hlease⟩ := h.tracked ptr r hfind
    rw [hl] at hlease
    cases hlease
    rw [hmem]
    refine (h.release hl).holdsOfAll (fun a hchanged => Or.inr fun c n hc hin => ?_) herased
    obtain ⟨hne, hlive⟩ := update_none_eq_some hc
    have hown : ¬ InSpan r.rawPtr r.totalSize.toNat a := fun hown =>
      hne (h.base_eq_of_inSpan hlive hblock.live hin hown)
    exact hchanged (poisonBlock_frame (Φ.header (hall ptr r hfind)) hblock.placed
      (Nat.le_trans (hgrown r hfind) (laidOutLength_le _ _)) hown)
  | leaked r hfind hverdict hheap _ hmem hlog hfault =>
    rw [hmem]
    exact herased
  | alarm hfind hq hheap _ hmem hlog hfault =>
    rw [hmem]
    exact herased
  | untracked hfind hq hheader hheap _ hmem hlog hfault =>
    rw [hmem]
    exact herased
  | misread hfind hq hheader hlog =>
    have hstatus : (w.tracker.erase ptr).1 = .notFound := by
      rw [ShardedTracker.erase_of_not_quarantined hfind (Or.inr hq)]
    exact absurd (hsound hstatus) hheader

theorem rawSystemRealloc_holdsOfAll (h : w.OwnedBy ls) (hl : ls ptr = some l)
    (hfind : w.tracker.find ptr = none) (hn : newSize ≠ 0)
    (hfresh : ∀ a ∈ (w.rawSystemRealloc o ptr newSize).1.log, a.Fresh w.heap)
    (hall : HoldsOfAll Φ w.tracker w.mem) :
    HoldsOfAll Φ (w.rawSystemRealloc o ptr newSize).1.tracker
      (w.rawSystemRealloc o ptr newSize).1.mem := by
  obtain ⟨hbase, hlive⟩ := h.untracked ptr l hl hfind
  have hp : ptr ≠ 0 := (h.space ptr _ hlive).1
  by_cases hraw : o.malloc = 0
  · rw [rawSystemRealloc_failed hp hn hraw]
    exact hall
  · rw [rawSystemRealloc_moved hp hn hraw] at hfresh ⊢
    have hf : Fresh (update w.heap ptr none) o.malloc newSize :=
      hfresh (.systemRealloc ptr newSize o.malloc (w.heap ptr).isSome)
        (List.mem_append_right _ List.mem_cons_self) hraw
    have hrelease := h.release hl
    rw [hbase, ShardedTracker.afterErase_of_find_none hfind] at hrelease
    refine hrelease.holdsOfAll (safeWrites_of_fresh hf
      (fun c k hc => (hrelease.space c k hc).2.2) fun a ha => ?_) hall
    refine writeBytes_frame hf.1 ?_ ha
    rw [length_readBytes]
    exact Nat.le_trans (Nat.min_le_right _ _) (le_extent _)

/-- The copied bytes go into the payload of the new pointer. -/
theorem copyPayload_writes {r : AllocationRecord} {q : Ptr} (h : w.OwnedBy ls)
    (hq : ls q = some ⟨o.malloc, newSize⟩) :
    SafeWrites w.heap ls w.mem (w.copyPayload q ptr (copyBytes r newSize)).mem := by
  obtain ⟨n, hlive, _, hhigh, _⟩ := h.lease_live hq
  have hspace := (h.space _ n hlive).2.2
  intro a hchanged
  refine Or.inl ⟨q, _, hq, ?_⟩
  by_contra hout
  refine hchanged (writeBytes_frame (Nat.le_trans hhigh hspace) ?_ hout)
  rw [length_readBytes]
  unfold copyBytes
  split
  · exact Nat.le_of_lt (BitVec.lt_def.mp ‹_›)
  · exact Nat.le_refl _

section Reallocation

variable {r : AllocationRecord}

theorem reallocated_holdsOfAll (h : w.OwnedBy ls) (hall : HoldsOfAll Φ w.tracker w.mem)
    (hfresh : ∀ a ∈ (w.reallocated o tid ptr r newSize).1.log, a.Fresh w.heap) :
    HoldsOfAll Φ (w.reallocated o tid ptr r newSize).1.tracker
      (w.reallocated o tid ptr r newSize).1.mem := by
  obtain ⟨as, hcheck, _⟩ := checkOldBlock_log { w with calls := .find ptr :: w.calls } ptr r
  unfold reallocated at hfresh ⊢
  rw [hcheck] at hfresh ⊢
  exact allocate_holdsOfAll (w := { w with calls := .find ptr :: w.calls, log := w.log ++ as })
    h hall hfresh

theorem reallocated_writes (h : w.OwnedBy ls)
    (hfresh : ∀ a ∈ (w.reallocated o tid ptr r newSize).1.log, a.Fresh w.heap) :
    SafeWrites w.heap ls w.mem (w.reallocated o tid ptr r newSize).1.mem := by
  obtain ⟨as, hcheck, _⟩ := checkOldBlock_log { w with calls := .find ptr :: w.calls } ptr r
  unfold reallocated at hfresh ⊢
  rw [hcheck] at hfresh ⊢
  exact allocate_writes (w := { w with calls := .find ptr :: w.calls, log := w.log ++ as })
    (fun c k hc => (h.space c k hc).2.2) hfresh

/-- What the release inside a reallocation finds: the old block as it was, outside its
payload. -/
structure Recopied (w : World) (ls : Ptr → Option Lease) (o : Oracle) (ptr : Ptr)
    (r : AllocationRecord) (newSize : Word) (w₂ : World) (q : Ptr) : Prop where
  control : SameControl w w₂
  fault : w₂.fault = w.fault
  owned : w₂.OwnedBy (update ls q (some ⟨o.malloc, newSize⟩))
  ne : ptr ≠ q
  find : w₂.tracker.find ptr = some r
  bytes : ∀ a, InSpan r.rawPtr r.totalSize.toNat a → ¬ InSpan ptr r.requestedSize.toNat a →
    w₂.mem a = w.mem a

theorem recopied_spec (h : w.OwnedBy ls) (hfind : w.tracker.find ptr = some r)
    (hfresh : ∀ a ∈ (w.reallocated o tid ptr r newSize).1.log, a.Fresh w.heap)
    (hq : (w.reallocated o tid ptr r newSize).2 ≠ 0) :
    Recopied w ls o ptr r newSize (w.recopied o tid ptr r newSize)
      (w.reallocated o tid ptr r newSize).2 := by
  obtain ⟨howned, hnone, hfault, hkeep⟩ := (reallocated_owned h hfresh).got hq
  have hlease := (h.tracked ptr r hfind).2
  have hne : ptr ≠ (w.reallocated o tid ptr r newSize).2 := by
    intro heq
    rw [← heq, hlease] at hnone
    cases hnone
  have hfind' := (hkeep ptr hne).trans hfind
  have hcopy := @copyPayload_writes _ o newSize ptr _ r _ howned (update_self _ _ _)
  have hcontrol := reallocated_control w o tid ptr r newSize
  refine ⟨⟨hcontrol.config, hcontrol.initialized, hcontrol.leases, hcontrol.guardActive⟩,
    hfault, howned, hne, hfind', ?_⟩
  intro a hin hout
  exact (howned.block_congr hcopy hfind' a hin hout).trans
    (h.block_congr (reallocated_writes h hfresh) hfind a hin hout)

theorem checkedLength_recopied {w₂ : World} {q : Ptr} (h : w.OwnedBy ls)
    (hfind : w.tracker.find ptr = some r) (hspec : Recopied w ls o ptr r newSize w₂ q) :
    checkedLength w₂ r = checkedLength w r ∧ laidOutLength w₂.mem r = laidOutLength w.mem r := by
  have hheader := header_bytes_congr (h.tracked ptr r hfind).1.placed hspec.bytes
  unfold checkedLength laidOutLength
  rw [hasCanaryOf_congr hheader, hspec.control.config]
  exact ⟨rfl, rfl⟩

theorem reallocate_holdsOfAll (h : w.OwnedBy ls) (hn : newSize ≠ 0)
    (hguard : w.guardActive tid = false) (hinit : w.initialized = true)
    (hfind : w.tracker.find ptr = some r)
    (hgrown : checkedLength w r ≤ laidOutLength w.mem r) (hall : HoldsOfAll Φ w.tracker w.mem)
    (hfresh : ∀ a ∈ (w.reallocate o tid ptr newSize).1.log, a.Fresh w.heap) :
    HoldsOfAll Φ (w.reallocate o tid ptr newSize).1.tracker
      (w.reallocate o tid ptr newSize).1.mem := by
  have hinner : ∀ a ∈ (w.reallocated o tid ptr r newSize).1.log, a.Fresh w.heap :=
    fun a ha => hfresh a (reallocated_log hn hguard hinit hfind a ha)
  have halloc := reallocated_holdsOfAll h hall hinner
  rw [reallocate_of_find hn hguard hinit hfind]
  split
  · exact halloc
  · rename_i hq
    have hspec := recopied_spec h hfind hinner hq
    obtain ⟨hchecked, hlaid⟩ := checkedLength_recopied h hfind hspec
    obtain ⟨howned, _⟩ := (reallocated_owned h hinner).got hq
    have hcopied : HoldsOfAll Φ (w.recopied o tid ptr r newSize).tracker
        (w.recopied o tid ptr r newSize).mem :=
      howned.holdsOfAll (copyPayload_writes howned (update_self _ _ _)) halloc
    have hlease : update ls (w.reallocated o tid ptr r newSize).2 (some ⟨o.malloc, newSize⟩) ptr =
        some ⟨r.rawPtr, r.requestedSize⟩ := by
      rw [update_of_ne hspec.ne]
      exact (h.tracked ptr r hfind).2
    refine deallocate_holdsOfAll hspec.owned hlease
      ((hspec.control.guardActive tid).trans hguard) ?_ ?_ hcopied
    · intro hstatus
      rw [ShardedTracker.erase_of_find hspec.find] at hstatus
      cases hstatus
    · intro r' hr'
      rw [hspec.find] at hr'
      cases hr'
      rw [hchecked, hlaid]
      exact hgrown

end Reallocation

end World

/-! ## Steps and runs -/

/-- The footer in force is no longer than the one that the released block was laid out
with. -/
def NotGrown (w : World) : Call → Prop
  | .trackFree _ ptr =>
    ∀ r, w.tracker.find ptr = some r → checkedLength w r ≤ laidOutLength w.mem r
  | .trackRealloc _ _ ptr _ =>
    ∀ r, w.tracker.find ptr = some r → checkedLength w r ≤ laidOutLength w.mem r
  | _ => True

instance (w : World) (c : Call) : Decidable (NotGrown w c) :=
  match c with
  | .trackFree .. | .trackRealloc .. => inferInstanceAs (Decidable (∀ r, _ = some r → _ ≤ _))
  | .init _ | .shutdown | .enterGuard _ | .exitGuard _ | .setCurrentTag .. | .trackAlloc ..
  | .store _ => isTrue trivial

/-- The condition on a call under which the contents of the blocks stay in order too. -/
def ReleaseSound (w : World) (c : Call) : Prop := CallSound w c ∧ NotGrown w c

instance (w : World) (c : Call) : Decidable (ReleaseSound w c) :=
  inferInstanceAs (Decidable (_ ∧ _))

section Steps

variable {Φ : BlockProperty} {mayWrite : World → Memory → Prop} {w : World} {c : Call}

theorem lease_eq (w : World) (q : Ptr) (l : Lease) :
    ∃ ls, w.lease q l = { w with leases := ls } := by
  by_cases hq : q = 0
  · rw [hq, lease_null]
    exact ⟨w.leases, rfl⟩
  · rw [lease_of_ne hq]
    exact ⟨_, rfl⟩

theorem rawSystemAlloc_holdsOfAll {o : Oracle} {size : Word} (hall : HoldsOfAll Φ w.tracker w.mem) :
    HoldsOfAll Φ (w.rawSystemAlloc o size).1.tracker (w.rawSystemAlloc o size).1.mem := by
  by_cases hraw : o.malloc = 0
  · rw [rawSystemAlloc_of_null hraw]
    exact hall
  · rw [rawSystemAlloc_of_ne hraw]
    exact hall

theorem rawSystemFree_holdsOfAll {p : Ptr} (hall : HoldsOfAll Φ w.tracker w.mem) :
    HoldsOfAll Φ (w.rawSystemFree p).tracker (w.rawSystemFree p).mem := by
  by_cases hp : p = 0
  · rw [hp]
    exact hall
  · rw [rawSystemFree_of_ne hp]
    exact hall

theorem step_trackFree_holdsOfAll {tid : ThreadId} {p : Ptr} (h : InOrder w)
    (hall : HoldsOfAll Φ w.tracker w.mem) (hperm : Permitted mayWrite w (.trackFree tid p))
    (hsound : ReleaseSound w (.trackFree tid p)) :
    HoldsOfAll Φ (w.step (.trackFree tid p)).tracker (w.step (.trackFree tid p)).mem := by
  by_cases hp : p = 0
  · subst hp
    exact hall
  obtain ⟨l, hl⟩ := hperm.disciplined.resolve_left hp
  have hcond := hsound.1.resolve_left hp
  by_cases hguard : w.guardActive tid
  · rw [step_trackFree_of_guard hp hguard]
    exact @rawSystemFree_holdsOfAll Φ (w.clearLog.unlease p) p hall
  · rw [if_neg hguard] at hcond
    rw [Bool.not_eq_true] at hguard
    rw [step_trackFree hp hguard]
    exact @deallocate_holdsOfAll Φ (w.clearLog.unlease p) tid p w.leases l h hl hguard hcond
      hsound.2 hall

theorem step_trackRealloc_holdsOfAll {tid : ThreadId} {o : Oracle} {p : Ptr} {n : Word}
    (h : InOrder w) (hall : HoldsOfAll Φ w.tracker w.mem)
    (hperm : Permitted mayWrite w (.trackRealloc tid o p n))
    (hsound : ReleaseSound w (.trackRealloc tid o p n)) :
    HoldsOfAll Φ (w.step (.trackRealloc tid o p n)).tracker
      (w.step (.trackRealloc tid o p n)).mem := by
  have hfresh := hperm.fresh
  obtain ⟨ls, hls⟩ := moveLease_eq (w.clearLog.trackRealloc o tid p n).1 p
    (w.clearLog.trackRealloc o tid p n).2 n ⟨o.malloc, n⟩
  unfold World.step at hfresh ⊢
  dsimp only at hfresh ⊢
  rw [hls] at hfresh ⊢
  dsimp only at hfresh ⊢
  by_cases hbypass : w.guardActive tid = true ∨ w.initialized = false
  · rw [@trackRealloc_of_bypass w.clearLog o tid p n hbypass] at hfresh ⊢
    by_cases hp : p = 0
    · subst hp
      rw [rawSystemRealloc_null]
      exact @rawSystemAlloc_holdsOfAll Φ w.clearLog o n hall
    obtain ⟨l, hl⟩ := hperm.disciplined.resolve_left hp
    have hfind := hsound.1.resolve_left hp
    rw [if_pos hbypass] at hfind
    by_cases hn : n = 0
    · subst hn
      rw [rawSystemRealloc_zero hp]
      exact @rawSystemFree_holdsOfAll Φ w.clearLog p hall
    · exact @rawSystemRealloc_holdsOfAll Φ w.clearLog o n p w.leases l h hl hfind hn hfresh hall
  · have hguard : w.guardActive tid = false := by
      cases hg : w.guardActive tid
      · rfl
      · exact absurd (Or.inl hg) hbypass
    have hinit : w.initialized = true := by
      cases hi : w.initialized
      · exact absurd (Or.inr hi) hbypass
      · rfl
    rw [@trackRealloc_of_open w.clearLog o tid p n hguard hinit] at hfresh ⊢
    by_cases hp : p = 0
    · subst hp
      rw [reallocate_null] at hfresh ⊢
      exact @allocate_holdsOfAll Φ w.clearLog o tid n _ 0 w.leases h hall hfresh
    obtain ⟨l, hl⟩ := hperm.disciplined.resolve_left hp
    have hcond := hsound.1.resolve_left hp
    rw [if_neg hbypass] at hcond
    by_cases hn : n = 0
    · subst hn
      rw [reallocate_zero hp]
      exact @deallocate_holdsOfAll Φ w.clearLog tid p w.leases l h hl hguard (hcond rfl)
        hsound.2 hall
    rcases hfind : w.tracker.find p with _ | r
    · rw [@reallocate_of_find_none w.clearLog o tid n p hp hn hguard hinit hfind] at hfresh ⊢
      exact rawSystemRealloc_holdsOfAll (w := { w.clearLog with calls := .find p :: w.calls })
        h hl hfind hn hfresh hall
    · exact @reallocate_holdsOfAll Φ w.clearLog o tid n p w.leases r h hn hguard hinit hfind
        (hsound.2 r hfind) hall hfresh

theorem step_holdsOfAll (h : InOrder w) (hall : HoldsOfAll Φ w.tracker w.mem)
    (hperm : Permitted mayWrite w c) (hsound : ReleaseSound w c)
    (hstore : ∀ mem, mayWrite w mem → HoldsOfAll Φ w.tracker mem) :
    HoldsOfAll Φ (w.step c).tracker (w.step c).mem := by
  cases c with
  | init config => exact hall
  | shutdown => exact hall
  | enterGuard tid => exact hall
  | exitGuard tid => exact hall
  | setCurrentTag tid tag => exact hall
  | trackAlloc tid o size alignment tag =>
    have hfresh := hperm.fresh
    obtain ⟨ls, hls⟩ := lease_eq (w.clearLog.allocate o tid size alignment tag).1
      (w.clearLog.allocate o tid size alignment tag).2 ⟨o.malloc, size⟩
    unfold World.step at hfresh ⊢
    dsimp only at hfresh ⊢
    rw [trackAlloc_eq, hls] at hfresh ⊢
    exact @allocate_holdsOfAll Φ w.clearLog o tid size alignment tag w.leases h hall hfresh
  | trackFree tid p => exact step_trackFree_holdsOfAll h hall hperm hsound
  | trackRealloc tid o p n => exact step_trackRealloc_holdsOfAll h hall hperm hsound
  | store mem => exact hstore mem hperm.disciplined

/-- The tables are in order and the property holds of every tracked block, unless the
behaviour is undefined. -/
def ContentsOk (Φ : BlockProperty) (w : World) : Prop :=
  w.fault = true ∨ InOrder w ∧ HoldsOfAll Φ w.tracker w.mem

theorem ContentsOk.of_defined (h : ContentsOk Φ w) (hdefined : w.fault = false) :
    InOrder w ∧ HoldsOfAll Φ w.tracker w.mem := by
  rcases h with hfault | h
  · rw [hdefined] at hfault
    cases hfault
  · exact h

theorem run_contents {w' : World} {cs : List Call}
    (hstore : ∀ w mem, InOrder w → HoldsOfAll Φ w.tracker w.mem → mayWrite w mem →
      HoldsOfAll Φ w.tracker mem)
    (hrun : Run (managerSystem mayWrite ReleaseSound) w cs w') (h : ContentsOk Φ w) :
    ContentsOk Φ w' := by
  refine hrun.invariant (I := ContentsOk Φ) (fun w c hw hguard => ?_) h
  rcases hw with hfault | ⟨horder, hall⟩
  · rw [hguard.1.defined] at hfault
    cases hfault
  · rcases (step_ok horder hguard.1 hguard.2.1).1 with hfault | horder'
    · exact Or.inl hfault
    · exact Or.inr ⟨horder', step_holdsOfAll horder hall hguard.1 hguard.2
        fun mem hmem => hstore w mem horder hall hmem⟩

theorem contentsOk_start (mem : Memory) : ContentsOk Φ (World.start mem) :=
  Or.inr ⟨owned_start, fun p r hfind => by
    rw [show (World.start mem).tracker = ShardedTracker.empty from rfl,
      ShardedTracker.find_empty] at hfind
    cases hfind⟩

/-- Clients that write into their payloads only keep every such property. -/
theorem payloadWrites_keep (w : World) (mem : Memory) (h : InOrder w)
    (hall : HoldsOfAll Φ w.tracker w.mem) (hwrites : PayloadWrites w mem) :
    HoldsOfAll Φ w.tracker mem := h.holdsOfAll hwrites hall

end Steps

end MemSentry
