import MemSentry.Library.Allocator
import MemSentry.Manager.BlockContents
import MemSentry.Manager.Hooks
import MemSentry.Manager.Reallocation

/-!
# What the clients see

Clients call the C functions and the operators of `allocator_hooks.cpp`, and read and
write their blocks. `World.perform` is one such call together with the event that the
client sees. Between the calls the manager is initialised and shut down, guards and tags
come and go, and the system uses the rest of the memory; of that the clients see nothing.

The manager refines an allocator: whatever they see in a run, some allocator of
`Library/Allocator` may show too (`manager_refines_allocator`). The condition is the one
under which the manager recovers the right block at every release (`ReleaseSound`).
-/

namespace MemSentry

open ByteMemory MemSentry.Core Function World Simulation Allocator

inductive ClientCall
  | malloc (size : Word)
  | calloc (num size : Word)
  | realloc (ptr : Ptr) (newSize : Word)
  | free (ptr : Ptr)
  | alignedAlloc (alignment size : Word)
  | posixMemalign (memptr alignment size : Word)
  | new (size : Word)
  | newAligned (size alignment : Word)
  | newNothrow (size : Word)
  | newAlignedNothrow (size alignment : Word)
  | delete (ptr : Ptr)
  | write (ptr : Ptr) (offset : Nat) (bytes : List Byte)
  | read (ptr : Ptr) (offset length : Nat)

namespace World

variable (w : World)

/-- The client gets the pointer, unless it is null. -/
def handOut (o : Oracle) (size : Word) (r : World × Ptr) : World × Allocator.Event 64 Byte :=
  (r.1.lease r.2 ⟨o.malloc, size⟩, .obtain size.toNat r.2)

/-- One call, and what the client sees of it. A thrown `bad_alloc` and an error code count
as a refusal. -/
def perform (tid : ThreadId) (o : Oracle) : ClientCall → World × Allocator.Event 64 Byte
  | .malloc size => handOut o size (w.clearLog.memsentryMalloc o tid size)
  | .calloc num size =>
    let r := w.clearLog.memsentryCalloc o tid num size
    (r.1.lease r.2 ⟨o.malloc, num * size⟩,
      .obtainFilled (List.replicate (num * size).toNat 0) r.2)
  | .realloc ptr newSize =>
    let r := w.clearLog.memsentryRealloc o tid ptr newSize
    (r.1.moveLease ptr r.2 newSize ⟨o.malloc, newSize⟩, .resize ptr newSize.toNat r.2)
  | .free ptr => ((w.clearLog.unlease ptr).memsentryFree tid ptr, .release ptr)
  | .alignedAlloc alignment size =>
    handOut o size (w.clearLog.memsentryAlignedAlloc o tid alignment size)
  | .posixMemalign memptr alignment size =>
    let r := w.clearLog.memsentryPosixMemalign o tid memptr alignment size
    handOut o size (r.1, r.2.2.getD 0)
  | .new size =>
    let r := w.clearLog.operatorNew o tid size
    handOut o size (r.1, r.2.getD 0)
  | .newAligned size alignment =>
    let r := w.clearLog.operatorNewAligned o tid size alignment
    handOut o size (r.1, r.2.getD 0)
  | .newNothrow size => handOut o size (w.clearLog.operatorNewNothrow o tid size)
  | .newAlignedNothrow size alignment =>
    handOut o size (w.clearLog.operatorNewAlignedNothrow o tid size alignment)
  | .delete ptr => ((w.clearLog.unlease ptr).operatorDelete tid ptr, .release ptr)
  | .write ptr offset bytes =>
    ({ w.clearLog with mem := writeBytes w.mem (ptr + BitVec.ofNat 64 offset) bytes },
      .write ptr offset bytes)
  | .read ptr offset length =>
    (w.clearLog, .read ptr offset (readBytes w.mem (ptr + BitVec.ofNat 64 offset) length))

end World

/-! ## What a client may do -/

/-- A client gives back what it holds, and stays in its blocks. -/
def ClientCall.Disciplined (w : World) : ClientCall → Prop
  | .realloc ptr _ => Held w ptr
  | .free ptr => Held w ptr
  | .delete ptr => Held w ptr
  | .write ptr offset bytes =>
    ∃ l, w.leases ptr = some l ∧ offset + bytes.length ≤ l.size.toNat
  | .read ptr offset length => ∃ l, w.leases ptr = some l ∧ offset + length ≤ l.size.toNat
  | _ => True

def ClientCall.ReleaseSound (w : World) (tid : ThreadId) (o : Oracle) : ClientCall → Prop
  | .realloc ptr newSize => MemSentry.ReleaseSound w (.trackRealloc tid o ptr newSize)
  | .free ptr => MemSentry.ReleaseSound w (.trackFree tid ptr)
  | .delete ptr => MemSentry.ReleaseSound w (.trackFree tid ptr)
  | _ => True

structure ClientCall.Allowed (w : World) (tid : ThreadId) (o : Oracle) (c : ClientCall) :
    Prop where
  defined : w.fault = false
  disciplined : c.Disciplined w
  sound : c.ReleaseSound w tid o
  fresh : ∀ a ∈ (w.perform tid o c).1.log, a.Fresh w.heap

/-- The calls that are not for a block. -/
def Call.Background : Call → Prop
  | .trackAlloc .. => False
  | .trackFree .. => False
  | .trackRealloc .. => False
  | _ => True

/-- The system uses the memory outside all live blocks. -/
def OutsideWrites (w : World) (mem : Memory) : Prop :=
  ∀ a, mem a ≠ w.mem a → ∀ b n, w.heap b = some n → ¬ InSpan b n a

inductive ClientStep : Steps World (Allocator.Event 64 Byte)
  | client (w : World) (tid : ThreadId) (o : Oracle) (c : ClientCall) (h : c.Allowed w tid o) :
      ClientStep w (some (w.perform tid o c).2) (w.perform tid o c).1
  | background (w : World) (c : Call) (hc : c.Background) (h : Permitted OutsideWrites w c) :
      ClientStep w none (w.step c)

/-! ## Contents of the blocks -/

/-- The payloads of the pointers held. -/
def payloadsOf (m : Memory) (ls : Ptr → Option Lease) : Store 64 Byte :=
  fun p => (ls p).map fun l => readBytes m p l.size.toNat

def World.payloads (w : World) : Store 64 Byte := payloadsOf w.mem w.leases

section Payloads

variable {m m' : Memory} {heap : Ptr → Option Nat} {tracker : ShardedTracker}
  {ls : Ptr → Option Lease} {p q : Ptr} {l k : Lease}

theorem payloadsOf_some (h : ls p = some l) :
    payloadsOf m ls p = some (readBytes m p l.size.toNat) := by
  unfold payloadsOf
  rw [h]
  rfl

theorem payloadsOf_none (h : ls p = none) : payloadsOf m ls p = none := by
  unfold payloadsOf
  rw [h]
  rfl

theorem payloadsOf_eq_some {bs : List Byte} (h : payloadsOf m ls p = some bs) :
    ∃ l, ls p = some l ∧ bs = readBytes m p l.size.toNat := by
  unfold payloadsOf at h
  obtain ⟨l, hl, hbs⟩ := Option.map_eq_some_iff.mp h
  exact ⟨l, hl, hbs.symm⟩

theorem payloadsOf_congr (h : ∀ p l, ls p = some l →
    readBytes m' p l.size.toNat = readBytes m p l.size.toNat) :
    payloadsOf m' ls = payloadsOf m ls := by
  funext p
  rcases hl : ls p with _ | l
  · rw [payloadsOf_none hl, payloadsOf_none hl]
  · rw [payloadsOf_some hl, payloadsOf_some hl, h p l hl]

theorem payloadsOf_add (h : ∀ p l, ls p = some l → p ≠ q →
    readBytes m' p l.size.toNat = readBytes m p l.size.toNat) :
    payloadsOf m' (update ls q (some k)) =
      update (payloadsOf m ls) q (some (readBytes m' q k.size.toNat)) := by
  funext p
  by_cases hpq : p = q
  · subst p
    rw [update_self, payloadsOf_some (update_self _ _ _)]
  · rw [update_of_ne hpq]
    rcases hl : ls p with _ | l
    · rw [payloadsOf_none hl, payloadsOf_none (by rwa [update_of_ne hpq])]
    · rw [payloadsOf_some hl, payloadsOf_some (l := l) (by rwa [update_of_ne hpq]), h p l hl hpq]

theorem payloadsOf_remove (h : ∀ p l, ls p = some l → p ≠ q →
    readBytes m' p l.size.toNat = readBytes m p l.size.toNat) :
    payloadsOf m' (update ls q none) = update (payloadsOf m ls) q none := by
  funext p
  by_cases hpq : p = q
  · subst p
    rw [update_self, payloadsOf_none (update_self _ _ _)]
  · rw [update_of_ne hpq]
    rcases hl : ls p with _ | l
    · rw [payloadsOf_none hl, payloadsOf_none (by rwa [update_of_ne hpq])]
    · rw [payloadsOf_some hl, payloadsOf_some (l := l) (by rwa [update_of_ne hpq]), h p l hl hpq]

theorem Owned.payloads_apart (h : Owned heap tracker ls) (hp : ls p = some l)
    (hq : ls q = some k) (hne : p ≠ q) :
    p.toNat + l.size.toNat ≤ q.toNat ∨ q.toNat + k.size.toNat ≤ p.toNat := by
  have hbase : l.base ≠ k.base := fun hb => hne (h.separate p q l k hp hq hb)
  obtain ⟨n, hn, hplow, hphigh, hpend⟩ := h.lease_live hp
  obtain ⟨j, hj, hqlow, hqhigh, hqend⟩ := h.lease_live hq
  rcases h.apart _ _ _ _ hn hj hbase with hd | hd
  · left
    omega
  · right
    omega

/-- A pointer that has been added to the tables names a block apart from the others. -/
theorem Owned.apart_payloads (h : Owned heap tracker (update ls q (some k))) (hq : ls q = none) :
    Apart (payloadsOf m ls) q k.size.toNat where
  not_null := h.held_ne_zero (update_self _ _ _)
  space := by
    obtain ⟨n, hn, _, hhigh, _⟩ := h.lease_live (update_self q (some k) ls)
    exact Nat.le_trans hhigh (h.space _ _ hn).2.2
  unused := payloadsOf_none hq
  apart := by
    intro p bs hp
    obtain ⟨l, hl, rfl⟩ := payloadsOf_eq_some hp
    have hne : q ≠ p := by
      rintro rfl
      rw [hq] at hl
      cases hl
    rw [length_readBytes]
    exact h.payloads_apart (update_self _ _ _) (by rwa [update_of_ne hne.symm]) hne

/-- Writes outside the live blocks change no payload. -/
theorem Owned.payload_congr (h : Owned heap tracker ls)
    (hw : SafeWrites heap (fun _ => none) m m') (hl : ls p = some l) :
    readBytes m' p l.size.toNat = readBytes m p l.size.toNat := by
  obtain ⟨n, hn, hlow, hhigh, _⟩ := h.lease_live hl
  have hspace := (h.space _ _ hn).2.2
  refine readBytes_congr fun i hi => ?_
  by_contra hchanged
  rcases hw _ hchanged with ⟨_, _, hnone, _⟩ | houtside
  · cases hnone
  · apply houtside _ _ hn
    rw [inSpan_iff hspace, toNat_add_ofNat (by omega)]
    omega

/-- A write into one payload changes no other. -/
theorem Owned.payload_write (h : Owned heap tracker ls) {offset : Nat} {bs : List Byte}
    (hq : ls q = some k) (hin : offset + bs.length ≤ k.size.toNat) (hp : ls p = some l)
    (hne : p ≠ q) : readBytes (writeBytes m (q + BitVec.ofNat 64 offset) bs) p l.size.toNat =
      readBytes m p l.size.toNat := by
  obtain ⟨n, hn, _, hphigh, _⟩ := h.lease_live hp
  obtain ⟨j, hj, _, hqhigh, _⟩ := h.lease_live hq
  have hpspace := (h.space _ _ hn).2.2
  have hqspace := (h.space _ _ hj).2.2
  refine readBytes_congr fun i hi => ?_
  apply writeBytes_of_not_inSpan
  rcases Nat.eq_zero_or_pos bs.length with hbs | hbs
  · rw [hbs]
    exact Nat.not_lt_zero _
  have hstart : (q + BitVec.ofNat 64 offset).toNat = q.toNat + offset :=
    toNat_add_ofNat (by omega)
  rw [inSpan_iff (by omega), hstart, toNat_add_ofNat (by omega)]
  have hapart := h.payloads_apart hp hq hne
  omega

end Payloads

theorem take_readBytes (m : Memory) (p : Ptr) {n k : Nat} (h : k ≤ n) :
    (readBytes m p n).take k = readBytes m p k := by
  obtain ⟨j, rfl⟩ := Nat.exists_eq_add_of_le h
  rw [readBytes_add, List.take_append_of_le_length (by rw [length_readBytes]),
    List.take_of_length_le (by rw [length_readBytes])]

theorem drop_readBytes (m : Memory) (p : Ptr) (k j : Nat) :
    (readBytes m p (k + j)).drop k = readBytes m (p + BitVec.ofNat 64 k) j := by
  rw [readBytes_add, List.drop_append_of_le_length (by rw [length_readBytes]),
    List.drop_of_length_le (by rw [length_readBytes]), List.nil_append]

/-- Offsets of one span from another, both counted from `p`. -/
theorem not_inSpan_offset (p : Ptr) {offset len i : Nat} (hlen : offset + len ≤ 2 ^ 64)
    (hi : i < 2 ^ 64) (hout : i < offset ∨ offset + len ≤ i) :
    ¬ InSpan (p + BitVec.ofNat 64 offset) len (p + BitVec.ofNat 64 i) := by
  unfold InSpan
  rw [add_sub_add_left_eq_sub, BitVec.toNat_sub, BitVec.toNat_ofNat, BitVec.toNat_ofNat,
    Nat.mod_eq_of_lt hi]
  rcases Nat.lt_or_ge offset (2 ^ 64) with hoffset | hoffset
  · rw [Nat.mod_eq_of_lt hoffset]
    omega
  · omega

/-- A part of a span lies in it. -/
theorem inSpan_of_offset {p a : Ptr} {offset len n : Nat} (hin : offset + len ≤ n)
    (h : InSpan (p + BitVec.ofNat 64 offset) len a) : InSpan p n a := by
  unfold InSpan at h ⊢
  have hshift : a - p = a - (p + BitVec.ofNat 64 offset) + BitVec.ofNat 64 offset := by
    rw [← sub_sub, sub_add_cancel]
  rw [hshift, BitVec.toNat_add, BitVec.toNat_ofNat]
  have hmod := Nat.mod_le ((a - (p + BitVec.ofNat 64 offset)).toNat + offset % 2 ^ 64) (2 ^ 64)
  have hmod' := Nat.mod_le offset (2 ^ 64)
  omega

/-- What is written at an offset replaces that part of the payload. -/
theorem readBytes_overwritten (m : Memory) (p : Ptr) {offset n : Nat} {bs : List Byte}
    (hin : offset + bs.length ≤ n) (hn : n ≤ 2 ^ 64) :
    readBytes (writeBytes m (p + BitVec.ofNat 64 offset) bs) p n =
      (readBytes m p n).take offset ++ bs ++ (readBytes m p n).drop (offset + bs.length) := by
  obtain ⟨k, rfl⟩ := Nat.exists_eq_add_of_le hin
  have hread : readBytes (writeBytes m (p + BitVec.ofNat 64 offset) bs)
      (p + BitVec.ofNat 64 offset) bs.length = bs := readBytes_writeBytes_self (by omega)
  have hbelow : readBytes (writeBytes m (p + BitVec.ofNat 64 offset) bs) p offset =
      readBytes m p offset := readBytes_congr fun i hi => writeBytes_of_not_inSpan
    (not_inSpan_offset p (by omega) (by omega) (Or.inl hi))
  have habove : readBytes (writeBytes m (p + BitVec.ofNat 64 offset) bs)
      (p + BitVec.ofNat 64 (offset + bs.length)) k =
      readBytes m (p + BitVec.ofNat 64 (offset + bs.length)) k := by
    refine readBytes_congr fun i hi => writeBytes_of_not_inSpan ?_
    rw [← add_ofNat_add]
    exact not_inSpan_offset p (by omega) (by omega) (Or.inr (by omega))
  rw [drop_readBytes, take_readBytes _ _ (by omega), readBytes_add, readBytes_add, hread, hbelow,
    habove]

/-! ## Operations -/

namespace World

variable {w : World} {o : Oracle} {tid : ThreadId} {size alignment tag n : Word} {p : Ptr}
  {l : Lease} {ls : Ptr → Option Lease}

/-- The payloads before an allocation are there after it. -/
theorem allocate_payload (h : w.OwnedBy ls)
    (hfresh : ∀ a ∈ (w.allocate o tid size alignment tag).1.log, a.Fresh w.heap)
    (hl : ls p = some l) :
    readBytes (w.allocate o tid size alignment tag).1.mem p l.size.toNat =
      readBytes w.mem p l.size.toNat :=
  h.payload_congr (allocate_writes (fun c k hc => (h.space c k hc).2.2) hfresh) hl

/-- A release writes into its own block only. -/
theorem deallocate_payload (h : w.OwnedBy ls) (hheaders : HoldsOfAll intactHeader w.tracker w.mem)
    (hl : ls p = some l) (hguard : w.guardActive tid = false) (hsound : NotMisread w p)
    (hgrown : ∀ r, w.tracker.find p = some r → checkedLength w r ≤ laidOutLength w.mem r)
    {q : Ptr} {k : Lease} (hq : ls q = some k) (hne : q ≠ p) :
    readBytes (w.deallocate tid p).mem q k.size.toNat = readBytes w.mem q k.size.toNat := by
  have hp := h.held_ne_zero hl
  have hkept : update ls p none q = some k := by rwa [update_of_ne hne]
  obtain ⟨_, _, heffect⟩ := deallocate_effect w tid p hguard hp
  cases heffect with
  | released r hfind hraw hverdict hheap htracker hmem hlog hfault =>
    obtain ⟨hblock, hlease⟩ := h.tracked p r hfind
    rw [hl] at hlease
    cases hlease
    rw [hmem]
    refine (h.release hl).payload_congr (fun a hchanged => Or.inr fun c j hc hin => ?_) hkept
    obtain ⟨hother, hlive⟩ := update_none_eq_some hc
    have hown : ¬ InSpan r.rawPtr r.totalSize.toNat a := fun hown =>
      hother (h.base_eq_of_inSpan hlive hblock.live hin hown)
    exact hchanged (poisonBlock_frame (hheaders p r hfind) hblock.placed
      (Nat.le_trans (hgrown r hfind) (laidOutLength_le _ _)) hown)
  | leaked r hfind hverdict hheap htracker hmem hlog hfault => rw [hmem]
  | alarm hfind hquarantined hheap htracker hmem hlog hfault => rw [hmem]
  | untracked hfind hquarantined hheader hheap htracker hmem hlog hfault => rw [hmem]
  | misread hfind hquarantined hheader hlog =>
    have hstatus : (w.tracker.erase p).1 = .notFound := by
      rw [ShardedTracker.erase_of_not_quarantined hfind (Or.inr hquarantined)]
    exact absurd (hsound hstatus) hheader

/-- A reallocation that moved the contents of `p` to `q`. -/
structure Resized (w : World) (ls : Ptr → Option Lease) (p : Ptr) (l : Lease) (n : Word)
    (w' : World) (q : Ptr) : Prop where
  unused : update ls p none q = none
  others : ∀ x k, ls x = some k → x ≠ p → x ≠ q →
    readBytes w'.mem x k.size.toNat = readBytes w.mem x k.size.toNat
  kept : readBytes w'.mem q (min l.size.toNat n.toNat) =
    readBytes w.mem p (min l.size.toNat n.toNat)

theorem rawSystemRealloc_resized (h : w.OwnedBy ls) (hl : ls p = some l)
    (hfind : w.tracker.find p = none) (hn : n ≠ 0)
    (hfresh : ∀ a ∈ (w.rawSystemRealloc o p n).1.log, a.Fresh w.heap) :
    if (w.rawSystemRealloc o p n).2 = 0 then (w.rawSystemRealloc o p n).1.mem = w.mem
    else Resized w ls p l n (w.rawSystemRealloc o p n).1 (w.rawSystemRealloc o p n).2 := by
  obtain ⟨hbase, hlive⟩ := h.untracked p l hl hfind
  have hp : p ≠ 0 := (h.space p _ hlive).1
  by_cases hraw : o.malloc = 0
  · rw [rawSystemRealloc_failed hp hn hraw]
    rfl
  rw [rawSystemRealloc_moved hp hn hraw] at hfresh ⊢
  rw [if_neg hraw]
  have hf : Fresh (update w.heap p none) o.malloc n :=
    hfresh (.systemRealloc p n o.malloc (w.heap p).isSome)
      (List.mem_append_right _ List.mem_cons_self) hraw
  have hrelease := h.release hl
  rw [hbase, ShardedTracker.afterErase_of_find_none hfind] at hrelease
  have hlow : l.size.toNat ≤ extent l.size := le_extent _
  refine ⟨hrelease.no_lease_inside hf (Nat.le_refl _) (Nat.lt_add_of_pos_right (extent_pos n)),
    fun x k hx hxp hxq => ?_, ?_⟩
  · refine hrelease.payload_congr (safeWrites_of_fresh hf
      (fun c j hc => (hrelease.space c j hc).2.2) fun a ha => ?_) (by rwa [update_of_ne hxp])
    refine writeBytes_frame hf.1 ?_ ha
    rw [length_readBytes]
    exact Nat.le_trans (Nat.min_le_right _ _) (le_extent _)
  · have hcopied := @readBytes_writeBytes_inside 64 w.mem o.malloc
      (readBytes w.mem p (min ((w.heap p).getD 0) n.toNat)) 0 (min l.size.toNat n.toNat)
    rw [hlive] at hcopied ⊢
    rw [BitVec.add_zero, List.drop_zero, length_readBytes, Option.getD_some] at hcopied
    have hspace := hf.1
    have hext := le_extent n
    rw [Option.getD_some, hcopied (by omega) (by omega), take_readBytes _ _ (by omega)]

/-- The allocation inside a reallocation changes no payload. -/
theorem reallocated_payload {r : AllocationRecord} (h : w.OwnedBy ls)
    (hfresh : ∀ a ∈ (w.reallocated o tid p r n).1.log, a.Fresh w.heap) {x : Ptr} {k : Lease}
    (hx : ls x = some k) :
    readBytes (w.reallocated o tid p r n).1.mem x k.size.toNat =
      readBytes w.mem x k.size.toNat := by
  obtain ⟨as, hcheck, _⟩ := checkOldBlock_log { w with calls := .find p :: w.calls } p r
  unfold reallocated at hfresh ⊢
  rw [hcheck] at hfresh ⊢
  exact @allocate_payload { w with calls := .find p :: w.calls, log := w.log ++ as } o tid n
    r.alignment r.tag x k ls h hfresh hx

theorem reallocate_resized {r : AllocationRecord} (h : w.OwnedBy ls)
    (hheaders : HoldsOfAll intactHeader w.tracker w.mem) (hn : n ≠ 0)
    (hguard : w.guardActive tid = false) (hinit : w.initialized = true)
    (hfind : w.tracker.find p = some r)
    (hgrown : checkedLength w r ≤ laidOutLength w.mem r)
    (hfresh : ∀ a ∈ (w.reallocate o tid p n).1.log, a.Fresh w.heap) :
    if (w.reallocate o tid p n).2 = 0 then
      ∀ x k, ls x = some k → readBytes (w.reallocate o tid p n).1.mem x k.size.toNat =
        readBytes w.mem x k.size.toNat
    else Resized w ls p ⟨r.rawPtr, r.requestedSize⟩ n (w.reallocate o tid p n).1
      (w.reallocate o tid p n).2 := by
  have hlease := (h.tracked p r hfind).2
  have hinner : ∀ a ∈ (w.reallocated o tid p r n).1.log, a.Fresh w.heap :=
    fun a ha => hfresh a (reallocated_log hn hguard hinit hfind a ha)
  rw [reallocate_of_find hn hguard hinit hfind]
  by_cases hq : (w.reallocated o tid p r n).2 = 0
  · rw [if_pos hq, if_pos rfl]
    exact fun x k hx => reallocated_payload h hinner hx
  rw [if_neg hq, if_neg hq]
  obtain ⟨howned, hnone, _, _⟩ := (reallocated_owned h hinner).got hq
  have hspec := recopied_spec h hfind hinner hq
  obtain ⟨hchecked, hlaid⟩ := checkedLength_recopied h hfind hspec
  have hrecopied : HoldsOfAll intactHeader (w.recopied o tid p r n).tracker
      (w.recopied o tid p r n).mem := howned.holdsOfAll
    (copyPayload_writes howned (update_self _ _ _)) (reallocated_holdsOfAll h hheaders hinner)
  have hlease' : update ls (w.reallocated o tid p r n).2 (some ⟨o.malloc, n⟩) p =
      some ⟨r.rawPtr, r.requestedSize⟩ := by rwa [update_of_ne hspec.ne]
  have hreleased : ∀ x k, update ls (w.reallocated o tid p r n).2 (some ⟨o.malloc, n⟩) x = some k →
      x ≠ p → readBytes ((w.recopied o tid p r n).deallocate tid p).mem x k.size.toNat =
        readBytes (w.recopied o tid p r n).mem x k.size.toNat := by
    intro x k hx hxp
    refine deallocate_payload hspec.owned hrecopied hlease'
      ((hspec.control.guardActive tid).trans hguard) ?_ ?_ hx hxp
    · intro hstatus
      rw [ShardedTracker.erase_of_find hspec.find] at hstatus
      cases hstatus
    · intro r' hr'
      rw [hspec.find] at hr'
      cases hr'
      rw [hchecked, hlaid]
      exact hgrown
  have hcopy : (copyBytes r n).toNat = min r.requestedSize.toNat n.toNat := by
    unfold copyBytes
    split
    · rename_i hlt
      rw [BitVec.lt_def] at hlt
      omega
    · rename_i hlt
      rw [BitVec.lt_def] at hlt
      omega
  refine ⟨by rw [update_of_ne (Ne.symm hspec.ne), hnone], fun x k hx hxp hxq => ?_, ?_⟩
  · have hx' : update ls (w.reallocated o tid p r n).2 (some ⟨o.malloc, n⟩) x = some k := by
      rwa [update_of_ne hxq]
    have hcopied := @Owned.payload_write (w.reallocated o tid p r n).1.mem _ _ _ x _ k _ howned 0
      (readBytes (w.reallocated o tid p r n).1.mem p (copyBytes r n).toNat)
      (update_self _ _ _) (by rw [length_readBytes]; dsimp only; omega) hx' hxq
    rw [BitVec.add_zero] at hcopied
    exact (hreleased x k hx' hxp).trans (hcopied.trans (reallocated_payload h hinner hx))
  · have hnew := hreleased _ _ (update_self _ _ _) (Ne.symm hspec.ne)
    have hold := reallocated_payload h hinner hlease
    have hself := @readBytes_writeBytes_self 64 (w.reallocated o tid p r n).1.mem
      (w.reallocated o tid p r n).2
      (readBytes (w.reallocated o tid p r n).1.mem p (copyBytes r n).toNat)
    rw [length_readBytes, hcopy] at hself
    dsimp only at hnew hold ⊢
    rw [← take_readBytes _ _ (Nat.min_le_right _ _), hnew, take_readBytes _ _ (Nat.min_le_right _ _)]
    have hleft : min r.requestedSize.toNat n.toNat ≤ r.requestedSize.toNat := Nat.min_le_left _ _
    rw [← take_readBytes w.mem p hleft, ← hold, take_readBytes _ _ hleft]
    refine Eq.trans ?_ (hself (by omega))
    rw [← hcopy]
    rfl

end World

/-! ## Steps -/

section Steps

variable {mayWrite : World → Memory → Prop} {w w' : World} {o : Oracle} {tid : ThreadId}
  {size alignment tag n : Word} {p q : Ptr} {l : Lease} {Φ : BlockProperty}

theorem contentsOk_step {c : Call} (h : InOrder w) (hall : HoldsOfAll Φ w.tracker w.mem)
    (hperm : Permitted mayWrite w c) (hsound : ReleaseSound w c)
    (hstore : ∀ mem, mayWrite w mem → HoldsOfAll Φ w.tracker mem) :
    ContentsOk Φ (w.step c) := by
  rcases (step_ok h hperm hsound.1).1 with hfault | horder
  · exact Or.inl hfault
  · exact Or.inr ⟨horder, step_holdsOfAll h hall hperm hsound hstore⟩

/-- What an allocation leaves behind, before the client has the pointer. -/
structure Obtained (w : World) (size : Word) (w' : World) (q : Ptr) : Prop where
  leases : w'.leases = w.leases
  payload : ∀ p l, w.leases p = some l →
    readBytes w'.mem p l.size.toNat = readBytes w.mem p l.size.toNat
  apart : q ≠ 0 → Apart w.payloads q size.toNat

theorem obtained_of_owned (halloc : AllocOwned w w.leases o size w' q)
    (hleases : w'.leases = w.leases) (hpayload : ∀ p l, w.leases p = some l →
      readBytes w'.mem p l.size.toNat = readBytes w.mem p l.size.toNat) :
    Obtained w size w' q := by
  refine ⟨hleases, hpayload, fun hq => ?_⟩
  obtain ⟨howned, hnone, _⟩ := halloc.got hq
  exact Owned.apart_payloads howned hnone

theorem allocate_obtained (h : InOrder w)
    (hfresh : ∀ a ∈ (w.allocate o tid size alignment tag).1.log, a.Fresh w.heap) :
    Obtained w size (w.allocate o tid size alignment tag).1
      (w.allocate o tid size alignment tag).2 :=
  obtained_of_owned (allocate_owned h hfresh) (allocate_effect w o tid size alignment tag).1.leases
    fun _ _ hl => allocate_payload h hfresh hl

theorem rawSystemAlloc_obtained (h : InOrder w)
    (hfresh : ∀ a ∈ (w.rawSystemAlloc o size).1.log, a.Fresh w.heap) :
    Obtained w size (w.rawSystemAlloc o size).1 (w.rawSystemAlloc o size).2 := by
  refine obtained_of_owned (rawSystemAlloc_owned h fun hraw => ?_) rawSystemAlloc_system.leases ?_
  · refine hfresh (.systemAlloc size o.malloc) ?_ hraw
    rw [rawSystemAlloc_of_ne hraw]
    exact List.mem_append_right _ List.mem_cons_self
  · intro p l _
    by_cases hraw : o.malloc = 0
    · rw [rawSystemAlloc_of_null hraw]
      rfl
    · rw [rawSystemAlloc_of_ne hraw]
      rfl

theorem Obtained.refused (h : Obtained w size w' q) : w'.payloads = w.payloads := by
  unfold World.payloads
  rw [h.leases]
  exact payloadsOf_congr h.payload

theorem Obtained.served (h : Obtained w size w' q) :
    World.payloads { w' with leases := update w'.leases q (some l) } =
      update w.payloads q (some (readBytes w'.mem q l.size.toNat)) := by
  unfold World.payloads
  dsimp only
  rw [h.leases]
  exact payloadsOf_add fun p k hp _ => h.payload p k hp

/-- A request is refused or served. -/
theorem Obtained.step (h : Obtained w size w' q) (hl : l.size = size) :
    Step w.payloads (.obtain size.toNat q) (w'.lease q l).payloads := by
  by_cases hq : q = 0
  · subst hq
    rw [lease_null, h.refused]
    exact .refuse _
  · rw [lease_of_ne hq, h.served]
    exact .obtain _ _ _ (by rw [length_readBytes, hl]) (h.apart hq)

theorem leases_zero (h : InOrder w) : update w.leases 0 none = w.leases := by
  rw [update_eq_self_iff]
  rcases hl : w.leases 0 with _ | l
  · rfl
  · exact absurd rfl (h.held_ne_zero hl)

/-- `realloc` of the null pointer. -/
theorem Obtained.step_resize (h : InOrder w) (hnew : Obtained w n w' q) (hl : l.size = n) :
    Step w.payloads (.resize 0 n.toNat q) (w'.moveLease 0 q n l).payloads := by
  have hsame : w'.unlease 0 = w' := by
    unfold World.unlease
    rw [hnew.leases, leases_zero h, ← hnew.leases]
  refine .resizeNull _ _ _ ?_
  have hmoved : w'.moveLease 0 q n l = w'.lease q l := by
    unfold World.moveLease
    by_cases hq : q = 0
    · rw [if_neg (not_not_intro hq), hsame, ite_self, hq, lease_null]
    · rw [if_pos hq, hsame]
  rw [hmoved]
  exact hnew.step hl

/-- A reallocation that moved the contents. -/
theorem resized_step (hl : w.leases p = some l) (hleases : w'.leases = w.leases)
    (hq : q ≠ 0) (hnew : Resized w w.leases p l n w' q)
    (howned : w'.OwnedBy (update (update w.leases p none) q (some ⟨o.malloc, n⟩))) :
    Step w.payloads (.resize p n.toNat q) (w'.moveLease p q n ⟨o.malloc, n⟩).payloads := by
  have hmoved : (w'.moveLease p q n ⟨o.malloc, n⟩).payloads =
      update (update w.payloads p none) q (some (readBytes w'.mem q n.toNat)) := by
    unfold World.moveLease World.payloads
    rw [if_pos hq, lease_of_ne hq]
    change payloadsOf w'.mem (update (update w'.leases p none) q _) = _
    rw [hleases]
    have hothers : ∀ x k, update w.leases p none x = some k → x ≠ q →
        readBytes w'.mem x k.size.toNat = readBytes w.mem x k.size.toNat := by
      intro x k hx hxq
      obtain ⟨hxp, hx⟩ := update_none_eq_some hx
      exact hnew.others x k hx hxp hxq
    rw [payloadsOf_add hothers, payloadsOf_remove fun _ _ _ _ => rfl]
  have happ := @Owned.apart_payloads w.mem _ _ _ q ⟨o.malloc, n⟩ howned hnew.unused
  rw [payloadsOf_remove fun _ _ _ _ => rfl] at happ
  rw [hmoved]
  refine .resize _ _ _ _ _ (payloadsOf_some hl) (length_readBytes _ _ _) happ ?_
  rw [length_readBytes, take_readBytes _ _ (Nat.min_le_right _ _),
    take_readBytes _ _ (Nat.min_le_left _ _)]
  exact hnew.kept

/-- A reallocation that was refused. -/
theorem resizeRefused_step (hl : w.leases p = some l) (hn : n ≠ 0)
    (hleases : w'.leases = w.leases) (hpayload : ∀ x k, w.leases x = some k →
      readBytes w'.mem x k.size.toNat = readBytes w.mem x k.size.toNat) {k : Lease} :
    Step w.payloads (.resize p n.toNat 0) (w'.moveLease p 0 n k).payloads := by
  have hsame : (w'.moveLease p 0 n k).payloads = w.payloads := by
    unfold World.moveLease World.payloads
    rw [if_neg (not_not_intro rfl), if_neg hn, hleases]
    exact payloadsOf_congr hpayload
  rw [hsame]
  refine .resizeRefused _ _ _ (payloadsOf_some hl) (Nat.pos_of_ne_zero fun h0 => hn ?_)
  exact BitVec.eq_of_toNat_eq h0

/-- `realloc` to 0. -/
theorem resizeZero_step (hl : w.leases p = some l) (hleases : w'.leases = w.leases)
    (hpayload : ∀ x k, w.leases x = some k → x ≠ p →
      readBytes w'.mem x k.size.toNat = readBytes w.mem x k.size.toNat) {k : Lease} :
    Step w.payloads (.resize p (0 : Word).toNat 0) (w'.moveLease p 0 0 k).payloads := by
  have hremoved : (w'.moveLease p 0 0 k).payloads = update w.payloads p none := by
    unfold World.moveLease World.payloads
    rw [if_neg (not_not_intro rfl), if_pos rfl]
    change payloadsOf w'.mem (update w'.leases p none) = _
    rw [hleases]
    exact payloadsOf_remove hpayload
  rw [hremoved]
  exact .resizeZero _ _ (payloadsOf_some hl)

/-- Reallocating a pointer that is not tracked. -/
theorem rawSystemRealloc_step (h : InOrder w) (hl : w.leases p = some l)
    (hfind : w.tracker.find p = none) (hn : n ≠ 0)
    (hfresh : ∀ a ∈ (w.rawSystemRealloc o p n).1.log, a.Fresh w.heap) :
    Step w.payloads (.resize p n.toNat (w.rawSystemRealloc o p n).2)
      ((w.rawSystemRealloc o p n).1.moveLease p (w.rawSystemRealloc o p n).2 n
        ⟨o.malloc, n⟩).payloads := by
  have hleases := (@rawSystemRealloc_system w o p n).leases
  have hresized := rawSystemRealloc_resized h hl hfind hn hfresh
  obtain ⟨_, howned, _⟩ := rawSystemRealloc_owned h hl hfind hn hfresh
  split at hresized
  · rename_i hq
    rw [hq]
    exact resizeRefused_step hl hn hleases fun _ _ _ => by rw [hresized]
  · rename_i hq
    exact resized_step hl hleases hq hresized (howned hq)

/-- Every reallocation that is sound is one of the abstract allocator. -/
theorem trackRealloc_step (h : InOrder w) (hheaders : HoldsOfAll intactHeader w.tracker w.mem)
    (hperm : Permitted mayWrite w (.trackRealloc tid o p n))
    (hsound : ReleaseSound w (.trackRealloc tid o p n)) :
    Step w.payloads (.resize p n.toNat (w.clearLog.trackRealloc o tid p n).2)
      (w.step (.trackRealloc tid o p n)).payloads := by
  have hfresh := hperm.fresh
  unfold World.step at hfresh ⊢
  dsimp only at hfresh ⊢
  rw [log_moveLease] at hfresh
  by_cases hbypass : w.guardActive tid = true ∨ w.initialized = false
  · rw [@trackRealloc_of_bypass w.clearLog o tid p n hbypass] at hfresh ⊢
    by_cases hp : p = 0
    · subst hp
      rw [rawSystemRealloc_null] at hfresh ⊢
      exact Obtained.step_resize (w := w.clearLog) h (rawSystemAlloc_obtained h hfresh) rfl
    obtain ⟨l, hl⟩ := hperm.disciplined.resolve_left hp
    have hfind := hsound.1.resolve_left hp
    rw [if_pos hbypass] at hfind
    by_cases hn : n = 0
    · subst hn
      rw [rawSystemRealloc_zero hp, rawSystemFree_of_ne hp]
      exact resizeZero_step (w := w.clearLog) (k := ⟨o.malloc, 0⟩) hl rfl fun _ _ _ _ => rfl
    exact rawSystemRealloc_step (w := w.clearLog) h hl hfind hn hfresh
  · have hguard : w.guardActive tid = false := by
      cases hg : w.guardActive tid
      · rfl
      · exact absurd (Or.inl hg) hbypass
    have hinit : w.initialized = true := by
      cases hi : w.initialized
      · exact absurd (Or.inr hi) hbypass
      · rfl
    rw [@trackRealloc_of_open w.clearLog o tid p n hguard hinit] at hfresh ⊢
    by_cases hp : p = 0
    · subst hp
      rw [reallocate_null] at hfresh ⊢
      exact Obtained.step_resize (w := w.clearLog) h (allocate_obtained h hfresh) rfl
    obtain ⟨l, hl⟩ := hperm.disciplined.resolve_left hp
    have hcond := hsound.1.resolve_left hp
    rw [if_neg hbypass] at hcond
    by_cases hn : n = 0
    · subst hn
      rw [reallocate_zero hp]
      exact resizeZero_step (w := w.clearLog) hl
        (deallocate_effect w.clearLog tid p hguard hp).1.leases fun x k hx hxp =>
        deallocate_payload (w := w.clearLog) h hheaders hl hguard (hcond rfl) hsound.2 hx hxp
    rcases hfind : w.tracker.find p with _ | r
    · rw [@reallocate_of_find_none w.clearLog o tid n p hp hn hguard hinit hfind] at hfresh ⊢
      exact rawSystemRealloc_step (w := { w.clearLog with calls := .find p :: w.calls }) h hl
        hfind hn hfresh
    · have hlease := (h.tracked p r hfind).2
      have hleases := (@reallocate_tracked_control w.clearLog o tid n p r hn hguard hinit
        hfind).leases
      have hresized := @reallocate_resized w.clearLog o tid n p w.leases r h hheaders hn hguard
        hinit hfind (hsound.2 r hfind) hfresh
      obtain ⟨_, howned, _⟩ := reallocate_tracked_owned (w := w.clearLog) h hn hguard hinit hfind
        hfresh
      split at hresized
      · rename_i hq
        rw [hq]
        exact resizeRefused_step (w := w.clearLog) hlease hn hleases hresized
      · rename_i hq
        exact resized_step (w := w.clearLog) hlease hleases hq hresized (howned hq)

theorem trackFree_step (h : InOrder w) (hheaders : HoldsOfAll intactHeader w.tracker w.mem)
    (hperm : Permitted mayWrite w (.trackFree tid p)) (hsound : ReleaseSound w (.trackFree tid p)) :
    Step w.payloads (.release p) (w.step (.trackFree tid p)).payloads := by
  by_cases hp : p = 0
  · subst hp
    have hsame : (w.step (.trackFree tid 0)).payloads = w.payloads := by
      change payloadsOf w.mem (update w.leases 0 none) = _
      rw [leases_zero h]
      rfl
    rw [hsame]
    exact .releaseNull
  obtain ⟨l, hl⟩ := hperm.disciplined.resolve_left hp
  have hcond := hsound.1.resolve_left hp
  have hremoved : (w.step (.trackFree tid p)).payloads = update w.payloads p none := by
    by_cases hguard : w.guardActive tid
    · rw [step_trackFree_of_guard hp hguard, rawSystemFree_of_ne hp]
      exact payloadsOf_remove fun _ _ _ _ => rfl
    · rw [if_neg hguard] at hcond
      rw [Bool.not_eq_true] at hguard
      have howned : (w.clearLog.unlease p).OwnedBy w.leases := h
      rw [step_trackFree hp hguard]
      unfold World.payloads
      rw [(deallocate_effect (w.clearLog.unlease p) tid p hguard hp).1.leases]
      exact payloadsOf_remove fun x k hx hxp =>
        deallocate_payload howned hheaders hl hguard hcond hsound.2 hx hxp
  rw [hremoved]
  exact .release _ _ (payloadsOf_some hl)

/-! ## The calls of a client -/

/-- A call that asks for a block. -/
theorem handOut_step (h : InOrder w) (hheaders : HoldsOfAll intactHeader w.tracker w.mem)
    (hdefined : w.fault = false) (hfresh : ∀ a ∈ (handOut o size
      (w.clearLog.trackAlloc o tid size alignment tag)).1.log, a.Fresh w.heap) :
    Step w.payloads (handOut o size (w.clearLog.trackAlloc o tid size alignment tag)).2
        (handOut o size (w.clearLog.trackAlloc o tid size alignment tag)).1.payloads ∧
      ContentsOk intactHeader
        (handOut o size (w.clearLog.trackAlloc o tid size alignment tag)).1 := by
  have hperm : Permitted PayloadWrites w (.trackAlloc tid o size alignment tag) :=
    ⟨hdefined, trivial, hfresh⟩
  refine ⟨?_, contentsOk_step h hheaders hperm ⟨trivial, trivial⟩
    fun mem => payloadWrites_keep w mem h hheaders⟩
  unfold handOut at hfresh ⊢
  dsimp only at hfresh ⊢
  rw [log_lease, trackAlloc_eq] at hfresh
  rw [trackAlloc_eq]
  exact Obtained.step (w := w.clearLog) (allocate_obtained h hfresh) rfl

/-- A request that is rejected before it reaches `track_alloc`. -/
theorem handOut_null (h : ContentsOk intactHeader w) :
    Step w.payloads (handOut o size (w.clearLog, 0)).2 (handOut o size (w.clearLog, 0)).1.payloads ∧
      ContentsOk intactHeader (handOut o size (w.clearLog, 0)).1 := by
  unfold handOut
  dsimp only
  rw [lease_null]
  exact ⟨.refuse _, h⟩

theorem getD_operatorNew (r : World × Ptr) :
    ((if r.2 = 0 then (r.1, none) else (r.1, some r.2)).1,
      (if r.2 = 0 then (r.1, none) else (r.1, some r.2)).2.getD 0) = r := by
  split
  · rename_i h
    exact Prod.ext rfl h.symm
  · rfl

/-- A client that writes into its block. -/
theorem write_step (h : InOrder w) (hheaders : HoldsOfAll intactHeader w.tracker w.mem)
    (hl : w.leases p = some l) (offset : Nat) (bs : List Byte) (log : List Action)
    (hin : offset + bs.length ≤ l.size.toNat) :
    World.payloads { w with
        mem := writeBytes w.mem (p + BitVec.ofNat 64 offset) bs, log := log } =
        update w.payloads p (some ((readBytes w.mem p l.size.toNat).take offset ++ bs ++
          (readBytes w.mem p l.size.toNat).drop (offset + bs.length))) ∧
      ContentsOk intactHeader { w with
        mem := writeBytes w.mem (p + BitVec.ofNat 64 offset) bs, log := log } := by
  have hsize := Nat.le_of_lt l.size.isLt
  refine ⟨?_, Or.inr ⟨h, h.holdsOfAll (fun a hchanged => Or.inl ⟨p, l, hl, ?_⟩) hheaders⟩⟩
  · have hsame : update w.leases p (some l) = w.leases := by
      rw [update_eq_self_iff]
      exact hl.symm
    have hadd := @payloadsOf_add w.mem (writeBytes w.mem (p + BitVec.ofNat 64 offset) bs) w.leases p
      l fun x k hx hxp => h.payload_write hl hin hx hxp
    rw [hsame, readBytes_overwritten _ _ hin hsize] at hadd
    exact hadd
  · by_contra hout
    exact hchanged (writeBytes_of_not_inSpan fun hspan => hout (inSpan_of_offset hin hspan))

theorem write_allowed_step (h : InOrder w) (hheaders : HoldsOfAll intactHeader w.tracker w.mem)
    (hl : w.leases p = some l) {offset : Nat} {bs : List Byte}
    (hin : offset + bs.length ≤ l.size.toNat) :
    Step w.payloads (w.perform tid o (.write p offset bs)).2
        (w.perform tid o (.write p offset bs)).1.payloads ∧
      ContentsOk intactHeader (w.perform tid o (.write p offset bs)).1 := by
  obtain ⟨hpayloads, hcontents⟩ := write_step h hheaders hl offset bs [] hin
  refine ⟨?_, hcontents⟩
  unfold World.perform
  dsimp only
  unfold World.clearLog
  rw [hpayloads]
  exact .write _ _ _ _ (payloadsOf_some hl) (by rwa [length_readBytes])

theorem read_step (hl : w.leases p = some l) {offset k : Nat}
    (hin : offset + k ≤ l.size.toNat) :
    Step w.payloads (w.perform tid o (.read p offset k)).2
      (w.perform tid o (.read p offset k)).1.payloads := by
  refine .read _ _ _ _ (payloadsOf_some hl) ?_ ?_
  · rwa [length_readBytes, length_readBytes]
  · rw [length_readBytes]
    obtain ⟨j, hj⟩ := Nat.exists_eq_add_of_le hin
    rw [hj, Nat.add_assoc, drop_readBytes, take_readBytes _ _ (Nat.le_add_right _ _)]

/-- `calloc` fills the new block with zeros. -/
theorem calloc_step (h : InOrder w) (hheaders : HoldsOfAll intactHeader w.tracker w.mem)
    (hdefined : w.fault = false) {num : Word}
    (hfresh : ∀ a ∈ (w.perform tid o (.calloc num size)).1.log, a.Fresh w.heap) :
    Step w.payloads (w.perform tid o (.calloc num size)).2
        (w.perform tid o (.calloc num size)).1.payloads ∧
      ContentsOk intactHeader (w.perform tid o (.calloc num size)).1 := by
  unfold World.perform World.memsentryCalloc at hfresh ⊢
  dsimp only at hfresh ⊢
  generalize hr : w.clearLog.trackAlloc o tid (num * size) 16 callocTag = r at hfresh ⊢
  obtain ⟨w₁, q⟩ := r
  dsimp only at hfresh ⊢
  have hinner : ∀ a ∈ (handOut o (num * size) (w.clearLog.trackAlloc o tid (num * size) 16
      callocTag)).1.log, a.Fresh w.heap := by
    intro a ha
    refine hfresh a ?_
    unfold handOut at ha
    rw [log_lease, hr] at ha
    rw [log_lease]
    split
    · exact ha
    · exact ha
  have hcontents := (handOut_step h hheaders hdefined hinner).2
  have hallocated : w.clearLog.allocate o tid (num * size) 16 callocTag = (w₁, q) := by
    rw [← trackAlloc_eq, hr]
  unfold handOut at hinner hcontents
  dsimp only at hinner hcontents
  rw [log_lease, trackAlloc_eq] at hinner
  have hobtained := allocate_obtained (w := w.clearLog) h hinner
  have hdefined₁ := ((allocate_owned (w := w.clearLog) h hinner).got)
  rw [hallocated] at hobtained hdefined₁
  rw [hr] at hcontents
  dsimp only at hobtained hdefined₁ hcontents
  by_cases hq : q = 0
  · subst hq
    rw [if_neg (not_not_intro rfl)]
    rw [lease_null] at hcontents ⊢
    refine ⟨?_, hcontents⟩
    rw [show w₁.payloads = w.payloads from hobtained.refused]
    exact .refuseFilled _
  · rw [if_pos hq]
    rw [lease_of_ne hq] at hcontents ⊢
    obtain ⟨_, _, hfault, _⟩ := hdefined₁ hq
    obtain ⟨horder₁, hheaders₁⟩ := hcontents.of_defined (hfault.trans hdefined)
    obtain ⟨hpayloads, hfilled⟩ := write_step horder₁ hheaders₁ (update_self q _ _) 0
      (List.replicate (num * size).toNat 0) w₁.log (by rw [List.length_replicate, Nat.zero_add])
    rw [BitVec.add_zero] at hpayloads hfilled
    have hserved := @Obtained.served w.clearLog w₁ (num * size) q ⟨o.malloc, num * size⟩ hobtained
    have hlast : (readBytes w₁.mem q (num * size).toNat).drop
        (0 + (List.replicate (num * size).toNat (0 : Byte)).length) = [] := by
      apply List.drop_of_length_le
      rw [length_readBytes, List.length_replicate, Nat.zero_add]
    refine ⟨?_, hfilled⟩
    dsimp only at hpayloads
    rw [hserved, update_idem, List.take_zero, List.nil_append, hlast, List.append_nil] at hpayloads
    have happ := hobtained.apart hq
    rw [← @List.length_replicate Byte (num * size).toNat 0] at happ
    have hstep := Step.obtainFilled _ q happ
    rw [← hpayloads] at hstep
    exact hstep

theorem getD_posixMemalign (r : World × Ptr) :
    ((if r.2 = 0 then (r.1, enomem, none) else (r.1, 0, some r.2)).1,
      (if r.2 = 0 then (r.1, enomem, none) else (r.1, 0, some r.2)).2.2.getD 0) = r := by
  split
  · rename_i h
    exact Prod.ext rfl h.symm
  · rfl

/-- Every allowed call is one of the abstract allocator. -/
theorem perform_step (h : InOrder w) (hheaders : HoldsOfAll intactHeader w.tracker w.mem)
    {c : ClientCall} (hc : c.Allowed w tid o) :
    Step w.payloads (w.perform tid o c).2 (w.perform tid o c).1.payloads ∧
      ContentsOk intactHeader (w.perform tid o c).1 := by
  have hold : ContentsOk intactHeader w := Or.inr ⟨h, hheaders⟩
  obtain ⟨hdefined, hdisciplined, hsound, hfresh⟩ := hc
  cases c with
  | malloc size => exact handOut_step h hheaders hdefined hfresh
  | calloc num size => exact calloc_step h hheaders hdefined hfresh
  | realloc p n =>
    have hperm : Permitted PayloadWrites w (.trackRealloc tid o p n) :=
      ⟨hdefined, hdisciplined, hfresh⟩
    exact ⟨trackRealloc_step h hheaders hperm hsound, contentsOk_step h hheaders hperm hsound
      fun mem => payloadWrites_keep w mem h hheaders⟩
  | free p =>
    have hperm : Permitted PayloadWrites w (.trackFree tid p) := ⟨hdefined, hdisciplined, hfresh⟩
    exact ⟨trackFree_step h hheaders hperm hsound, contentsOk_step h hheaders hperm hsound
      fun mem => payloadWrites_keep w mem h hheaders⟩
  | alignedAlloc alignment size => exact handOut_step h hheaders hdefined hfresh
  | posixMemalign memptr alignment size =>
    unfold World.perform World.memsentryPosixMemalign at hfresh ⊢
    dsimp only at hfresh ⊢
    by_cases hnull : memptr = 0
    · rw [if_pos hnull]
      exact handOut_null hold
    by_cases hpower : alignment &&& (alignment - 1) ≠ 0 ∨ alignment % 8 ≠ 0
    · rw [if_neg hnull, if_pos hpower]
      exact handOut_null hold
    · rw [if_neg hnull, if_neg hpower, getD_posixMemalign] at hfresh ⊢
      exact handOut_step h hheaders hdefined hfresh
  | new size =>
    unfold World.perform World.operatorNew at hfresh ⊢
    dsimp only at hfresh ⊢
    rw [getD_operatorNew] at hfresh ⊢
    exact handOut_step h hheaders hdefined hfresh
  | newAligned size alignment =>
    unfold World.perform World.operatorNewAligned at hfresh ⊢
    dsimp only at hfresh ⊢
    rw [getD_operatorNew] at hfresh ⊢
    exact handOut_step h hheaders hdefined hfresh
  | newNothrow size => exact handOut_step h hheaders hdefined hfresh
  | newAlignedNothrow size alignment => exact handOut_step h hheaders hdefined hfresh
  | delete p =>
    have hperm : Permitted PayloadWrites w (.trackFree tid p) := ⟨hdefined, hdisciplined, hfresh⟩
    exact ⟨trackFree_step h hheaders hperm hsound, contentsOk_step h hheaders hperm hsound
      fun mem => payloadWrites_keep w mem h hheaders⟩
  | write p offset bytes =>
    obtain ⟨l, hl, hin⟩ := hdisciplined
    exact write_allowed_step h hheaders hl hin
  | read p offset k =>
    obtain ⟨l, hl, hin⟩ := hdisciplined
    exact ⟨read_step hl hin, hold⟩

/-- Between the calls the payloads stay as they are. -/
theorem background_step (h : InOrder w) (hheaders : HoldsOfAll intactHeader w.tracker w.mem)
    {c : Call} (hc : c.Background) (hperm : Permitted OutsideWrites w c) :
    (w.step c).payloads = w.payloads ∧ ContentsOk intactHeader (w.step c) := by
  have hwrites : ∀ mem, OutsideWrites w mem → SafeWrites w.heap (fun _ => none) w.mem mem :=
    fun mem hmem a ha => Or.inr (hmem a ha)
  have hkept : ∀ mem, OutsideWrites w mem → HoldsOfAll intactHeader w.tracker mem := by
    intro mem hmem
    exact h.holdsOfAll (fun a ha => Or.inr (hmem a ha)) hheaders
  have hsound : ReleaseSound w c := by
    cases c with
    | trackAlloc tid o size alignment tag => exact hc.elim
    | trackFree tid p => exact hc.elim
    | trackRealloc tid o p n => exact hc.elim
    | _ => exact ⟨trivial, trivial⟩
  refine ⟨?_, contentsOk_step h hheaders hperm hsound hkept⟩
  cases c with
  | trackAlloc tid o size alignment tag => exact hc.elim
  | trackFree tid p => exact hc.elim
  | trackRealloc tid o p n => exact hc.elim
  | store mem => exact payloadsOf_congr fun p l hl =>
      h.payload_congr (hwrites mem hperm.disciplined) hl
  | _ => rfl

end Steps

/-! ## Runs -/

/-- The abstract allocator that the state shows. -/
def Shows (w : World) (s : Store 64 Byte) : Prop :=
  ContentsOk intactHeader w ∧ s = w.payloads

theorem clientStep_simulates : Simulates ClientStep Allocator.steps Shows := by
  rintro w l w' s ⟨hcontents, rfl⟩ hstep
  cases hstep with
  | client _ tid o c hallowed =>
    obtain ⟨h, hheaders⟩ := hcontents.of_defined hallowed.defined
    obtain ⟨hstep, hcontents'⟩ := perform_step h hheaders hallowed
    exact matched_by_step (steps_some hstep) ⟨hcontents', rfl⟩
  | background _ c hc hperm =>
    obtain ⟨h, hheaders⟩ := hcontents.of_defined hperm.defined
    obtain ⟨hpayloads, hcontents'⟩ := background_step h hheaders hc hperm
    exact matched_by_nothing ⟨hcontents', hpayloads.symm⟩

theorem run_shows {mem : Memory} {es : List (Allocator.Event 64 Byte)} {w : World}
    (h : Simulation.Run ClientStep (World.start mem) es w) :
    Simulation.Run Allocator.steps Allocator.empty es w.payloads := by
  obtain ⟨s, hrun, _, rfl⟩ := clientStep_simulates.run h
    (⟨contentsOk_start mem, rfl⟩ : Shows (World.start mem) Allocator.empty)
  exact hrun

/-! ### A session -/

/-- A block of 16 bytes, two bytes written, the block grown to 32, the bytes read. -/
def served : World := (initialized.perform 1 { malloc := 0x10000 } (.malloc 16)).1
def filled : World := (served.perform 1 { malloc := 0 } (.write 0x10050 0 [7, 8])).1
def regrown : World := (filled.perform 1 { malloc := 0x20000 } (.realloc 0x10050 32)).1
def inspected : World := (regrown.perform 1 { malloc := 0 } (.read 0x20050 0 2)).1

theorem served_allowed : ClientCall.Allowed initialized 1 { malloc := 0x10000 } (.malloc 16) where
  defined := rfl
  disciplined := trivial
  sound := trivial
  fresh := by
    have hfresh : Fresh initialized.heap 0x10000 116 := fresh_empty (by decide)
    exact fresh_of_asks hfresh (by decide +kernel)

theorem filled_allowed : ClientCall.Allowed served 1 { malloc := 0 } (.write 0x10050 0 [7, 8]) where
  defined := rfl
  disciplined := ⟨⟨0x10000, 16⟩, rfl, by decide⟩
  sound := trivial
  fresh := fun a ha => absurd ha List.not_mem_nil

theorem filled_fresh : Fresh filled.heap 0x20000 132 := by
  have hheap : filled.heap = update (fun _ => none) 0x10000 (some 116) := rfl
  rw [hheap]
  exact (fresh_empty (by decide)).update_some (by decide)

theorem regrown_allowed : ClientCall.Allowed filled 1 { malloc := 0x20000 } (.realloc 0x10050 32) where
  defined := rfl
  disciplined := Or.inr ⟨⟨0x10000, 16⟩, rfl⟩
  sound := by
    refine ⟨Or.inr ?_, ?_⟩
    · exact fun h => absurd h (by decide)
    · intro r hfind
      have hkept : checkedLength filled ((filled.tracker.find 0x10050).getD {}) ≤
          laidOutLength filled.mem ((filled.tracker.find 0x10050).getD {}) := by decide +kernel
      rwa [hfind] at hkept
  fresh := fresh_of_asks filled_fresh (by decide +kernel)

theorem inspected_allowed : ClientCall.Allowed regrown 1 { malloc := 0 } (.read 0x20050 0 2) where
  defined := by decide +kernel
  disciplined := ⟨⟨0x20000, 32⟩, rfl, by decide⟩
  sound := trivial
  fresh := fun a ha => absurd ha List.not_mem_nil

theorem session_run : Simulation.Run ClientStep (World.start fun _ => 0)
    ([.obtain 16 0x10050] ++ .write 0x10050 0 [7, 8] :: [.resize 0x10050 32 0x20050] ++
      [.read 0x20050 0 (readBytes regrown.mem 0x20050 2)]) inspected := by
  have hinit : ClientStep (World.start fun _ => 0) none initialized :=
    .background _ (.init {}) trivial
      (permitted_of_log rfl trivial rfl fun _ ha => absurd ha List.not_mem_nil)
  have hserved : ClientStep initialized (some (.obtain 16 0x10050)) served :=
    .client _ _ _ _ served_allowed
  have hfilled : ClientStep served (some (.write 0x10050 0 [7, 8])) filled :=
    .client _ _ _ _ filled_allowed
  have hq : (filled.perform 1 { malloc := 0x20000 } (.realloc 0x10050 32)).2 =
      .resize 0x10050 32 0x20050 := congrArg (Allocator.Event.resize 0x10050 32) (by decide +kernel)
  have hregrown := ClientStep.client _ _ _ _ regrown_allowed
  rw [hq] at hregrown
  have hinspected : ClientStep regrown (some (.read 0x20050 0 (readBytes regrown.mem 0x20050 2)))
      inspected := .client _ _ _ _ inspected_allowed
  exact .cons hinit (.cons hserved (.cons hfilled (.cons hregrown (.single hinspected))))

/-- Whatever the clients see in a run, an allocator may show, and at the end the payloads are
what that allocator holds; no two of them overlap. -/
theorem manager_refines_allocator {mem : Memory} {es : List (Allocator.Event 64 Byte)} {w : World}
    (h : Simulation.Run ClientStep (World.start mem) es w) :
    Simulation.Run Allocator.steps Allocator.empty es w.payloads ∧
      Allocator.Disjoint w.payloads := by
  have hrun := run_shows h
  exact ⟨hrun, run_disjoint hrun⟩

theorem manager_refines_allocator_session :
    Allocator.Disjoint inspected.payloads ∧ inspected.payloads 0x20050 ≠ none :=
  ⟨(manager_refines_allocator session_run).2, by decide +kernel⟩

/-- A byte that a client has written is read again as it was written, whatever happens in
between, as long as it is neither overwritten nor given up; a reallocation takes it along. -/
theorem written_byte_read {mem : Memory} {w : World} {p q : Ptr} {offset offset' i : Nat}
    {bytes bytes' : List Byte} {before between : List (Allocator.Event 64 Byte)}
    (h : Simulation.Run ClientStep (World.start mem)
      (before ++ .write p offset bytes :: between ++ [.read q offset' bytes']) w)
    (hcarried : carried (offset + i) p between = some q) (hi : i < bytes.length)
    (hlow : offset' ≤ offset + i) (hhigh : offset + i < offset' + bytes'.length) :
    bytes'[offset + i - offset']? = bytes[i]? :=
  read_of_written (run_shows h) hcarried hi hlow hhigh

theorem written_byte_read_session : (readBytes regrown.mem 0x20050 2)[1]? = some 8 :=
  written_byte_read session_run (i := 1) rfl (by decide) (by decide) (by decide)

end MemSentry
