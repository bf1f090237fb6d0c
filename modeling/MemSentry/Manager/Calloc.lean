import MemSentry.Manager.TotalSize

/-!
# The capacity of a calloc

`memsentry_calloc` multiplies before it asks, in a `size_t`. When the product wraps, what
is asked for, tracked and cleared is the remainder, and the caller gets a block that is
too small by a multiple of `2 ^ 64`. The overflow check of `calculate_total_size` comes
too late for that: it sees the remainder, and for an allocation that is not tracked it
does not run. `calloc_iff` says when the block is what the caller asked for.
-/

namespace MemSentry

open ByteMemory MemSentry.Core Function World

/-- The bytes that the caller may use: the requested size in the record, or the size of
the system block. -/
def usableCapacity (w : World) (o : Oracle) (tid : ThreadId) (num size : Word) : Nat :=
  let r := w.memsentryCalloc o tid num size
  if w.Tracks o tid (num * size) then
    match r.1.tracker.find r.2 with
    | some record => record.requestedSize.toNat
    | none => 0
  else (r.1.heap o.malloc).getD 0

/-- Null, or room for the true product, all of it zero. Either way only the block obtained
is written to, and no block is laid out in less memory than it takes. -/
structure CallocServes (w : World) (o : Oracle) (tid : ThreadId) (num size : Word) : Prop where
  served : (w.memsentryCalloc o tid num size).2 = 0 ∨
    num.toNat * size.toNat ≤ usableCapacity w o tid num size ∧
      ∀ i < num.toNat * size.toNat, (w.memsentryCalloc o tid num size).1.mem
        ((w.memsentryCalloc o tid num size).2 + BitVec.ofNat 64 i) = 0
  confined : ∀ a, (w.memsentryCalloc o tid num size).1.mem a ≠ w.mem a →
    ∃ n, (w.memsentryCalloc o tid num size).1.heap o.malloc = some n ∧ InSpan o.malloc n a
  defined : (w.memsentryCalloc o tid num size).1.fault = w.fault

/-- The size of the raw block of a tracked calloc. -/
def callocTotal (w : World) (num size : Word) : Word :=
  calculateTotalSize (num * size) (effectiveAlignment 16) w.config.footerSize

/-- The system gives nothing; or the product does not wrap and the block is not tracked;
or it is tracked, and either its size is refused or neither product nor sum wraps. -/
def CallocExact (w : World) (o : Oracle) (tid : ThreadId) (num size : Word) : Prop :=
  o.malloc = 0 ∨
    (¬ w.Tracks o tid (num * size) ∧ num.toNat * size.toNat < 2 ^ 64) ∨
    (w.Tracks o tid (num * size) ∧ (callocTotal w num size = 0 ∨
      SizesFit (num * size) (effectiveAlignment 16) w.config.footerSize ∧
        num.toNat * size.toNat < 2 ^ 64))

section Calloc

variable {w : World} {o : Oracle} {tid : ThreadId} {num size : Word}

theorem memsentryCalloc_of_null
    (h : (w.allocate o tid (num * size) 16 callocTag).2 = 0) :
    w.memsentryCalloc o tid num size = w.allocate o tid (num * size) 16 callocTag := by
  unfold memsentryCalloc
  dsimp only
  rw [trackAlloc_eq]
  exact if_neg (not_not_intro h)

theorem memsentryCalloc_of_ne {p : Ptr}
    (h : (w.allocate o tid (num * size) 16 callocTag).2 = p) (hp : p ≠ 0) :
    w.memsentryCalloc o tid num size =
      ({ (w.allocate o tid (num * size) 16 callocTag).1 with
        mem := writeBytes (w.allocate o tid (num * size) 16 callocTag).1.mem p
          (List.replicate (num * size).toNat 0) }, p) := by
  subst h
  unfold memsentryCalloc
  dsimp only
  rw [trackAlloc_eq]
  exact if_pos hp

/-- The cleared bytes. -/
theorem cleared {m : Memory} {p : Ptr} {n : Word} {i : Nat} (hi : i < n.toNat) :
    writeBytes m p (List.replicate n.toNat 0) (p + BitVec.ofNat 64 i) = 0 := by
  have hn := n.isLt
  rw [writeBytes_at (by rwa [List.length_replicate]) (by rw [List.length_replicate]; omega)]
  exact List.getElem_replicate _

theorem toNat_product :
    (num * size).toNat = num.toNat * size.toNat ↔ num.toNat * size.toNat < 2 ^ 64 := by
  rw [BitVec.toNat_mul]
  constructor
  · intro h
    rw [← h]
    exact Nat.mod_lt _ (by decide)
  · exact Nat.mod_eq_of_lt

/-- What a wrapped product leaves is no room for it. -/
theorem product_le_iff :
    num.toNat * size.toNat ≤ max (num * size).toNat 1 ↔ num.toNat * size.toNat < 2 ^ 64 := by
  have hlt := (num * size).isLt
  constructor
  · intro h
    omega
  · intro h
    rw [toNat_product.mpr h]
    exact Nat.le_max_left _ _

theorem serves_of_unchanged
    (h : (w.allocate o tid (num * size) 16 callocTag).2 = 0)
    (hmem : (w.allocate o tid (num * size) 16 callocTag).1.mem = w.mem)
    (hfault : (w.allocate o tid (num * size) 16 callocTag).1.fault = w.fault) :
    CallocServes w o tid num size := by
  have heq := memsentryCalloc_of_null h
  refine ⟨Or.inl (by rw [heq, h]), fun a ha => ?_, by rw [heq, hfault]⟩
  rw [heq, hmem] at ha
  exact absurd rfl ha

/-- What decides, once a block of `n` bytes at `p` has been obtained. -/
theorem serves_iff_of_block {p : Ptr} {n : Nat}
    (h : (w.allocate o tid (num * size) 16 callocTag).2 = p) (hp : p ≠ 0)
    (hheap : (w.allocate o tid (num * size) 16 callocTag).1.heap o.malloc = some n)
    (hwrites : ∀ a, (w.allocate o tid (num * size) 16 callocTag).1.mem a ≠ w.mem a →
      InSpan o.malloc n a)
    (hpayload : ∀ a, InSpan p (num * size).toNat a → InSpan o.malloc n a)
    (hfault : (w.allocate o tid (num * size) 16 callocTag).1.fault = w.fault)
    (hcapacity : usableCapacity w o tid num size = (num * size).toNat ∨
      usableCapacity w o tid num size = max (num * size).toNat 1) :
    CallocServes w o tid num size ↔ num.toNat * size.toNat < 2 ^ 64 := by
  have heq := memsentryCalloc_of_ne h hp
  have hlt := (num * size).isLt
  constructor
  · intro hserves
    rcases hserves.served with hnull | ⟨hroom, _⟩
    · rw [heq] at hnull
      exact absurd hnull hp
    · rw [← product_le_iff]
      rcases hcapacity with hc | hc
      · exact Nat.le_trans (hc ▸ hroom) (Nat.le_max_left _ _)
      · exact hc ▸ hroom
  · intro hproduct
    have htotal := toNat_product.mpr hproduct
    refine ⟨Or.inr ⟨?_, fun i hi => ?_⟩, fun a ha => ?_, ?_⟩
    · rcases hcapacity with hc | hc
      · rw [hc, htotal]
      · rw [hc, htotal]
        exact Nat.le_max_left _ _
    · rw [heq]
      exact cleared (by rwa [htotal])
    · rw [heq] at ha ⊢
      refine ⟨n, hheap, ?_⟩
      by_cases hin : InSpan p (num * size).toNat a
      · exact hpayload a hin
      · have hkept := @writeBytes_of_not_inSpan 64
          (w.allocate o tid (num * size) 16 callocTag).1.mem p a
          (List.replicate (num * size).toNat 0) (by rwa [List.length_replicate])
        dsimp only at ha
        rw [hkept] at ha
        exact hwrites a ha
    · rw [heq]
      exact hfault

/-! ## The four ways of an allocation -/

theorem not_tracks_iff (hraw : o.malloc ≠ 0) (htracks : ¬ w.Tracks o tid (num * size)) :
    CallocServes w o tid num size ↔ num.toNat * size.toNat < 2 ^ 64 := by
  obtain ⟨hp, hheap, htracker, hmem, hfault⟩ :=
    @allocate_untracked w o tid (num * size) 16 callocTag hraw htracks
  have hblock : (w.allocate o tid (num * size) 16 callocTag).1.heap o.malloc =
      some (extent (num * size)) := by
    rw [hheap, update_self]
  refine serves_iff_of_block hp hraw hblock (fun a ha => absurd (by rw [hmem]) ha)
    (fun a ha => Nat.lt_of_lt_of_le ha (Nat.le_max_left _ _)) hfault (Or.inr ?_)
  unfold usableCapacity
  dsimp only
  rw [if_neg htracks, memsentryCalloc_of_ne hp hraw]
  dsimp only
  rw [hblock]
  rfl

theorem tracks_fit_iff (hraw : o.malloc ≠ 0) (htracks : w.Tracks o tid (num * size))
    (hfresh : Fresh w.heap o.malloc (callocTotal w num size))
    (hfit : SizesFit (num * size) (effectiveAlignment 16) w.config.footerSize) :
    CallocServes w o tid num size ↔ num.toNat * size.toNat < 2 ^ 64 := by
  have hspace := hfresh.1
  unfold extent callocTotal at hspace
  obtain ⟨_, hi⟩ := @allocate_installed w o tid (num * size) 16 callocTag htracks hraw hfit
  have hplaced := placed_userAddress hraw hfit (by omega)
  have hblock : (w.allocate o tid (num * size) 16 callocTag).1.heap o.malloc =
      some (extent (callocTotal w num size)) := by
    rw [hi.heap, update_self]
    rfl
  have huser := hplaced.user_ne_zero
  rw [← hi.pointer] at hplaced huser
  have hle : (callocTotal w num size).toNat ≤ extent (callocTotal w num size) :=
    Nat.le_max_left _ _
  refine serves_iff_of_block rfl huser hblock (fun a ha => ?_) (fun a ha => ?_) hi.fault
    (Or.inl ?_)
  · by_contra hout
    rw [hi.mem] at ha
    rw [hi.pointer] at hplaced
    exact ha (initBlock_frame hplaced fun hin => hout (Nat.lt_of_lt_of_le hin hle))
  · exact Nat.lt_of_lt_of_le (hplaced.payload_inSpan ha) hle
  · unfold usableCapacity
    dsimp only
    rw [if_pos htracks, memsentryCalloc_of_ne rfl huser]
    dsimp only
    rw [hi.tracker, ShardedTracker.find_insert_self huser]
    rfl

/-- Without an answer, or with a size that is refused, nothing happens. -/
theorem serves_of_refused
    (h : o.malloc = 0 ∨ w.Tracks o tid (num * size) ∧ callocTotal w num size = 0) :
    CallocServes w o tid num size := by
  obtain ⟨hnull, hblocks, hfault⟩ := @allocate_refused w o tid (num * size) 16 callocTag h
  exact serves_of_unchanged hnull hblocks.mem hfault

/-- Where the sum of the parts wraps, the block is too small for what is laid out in it. -/
theorem not_serves_of_not_fit (hdefined : w.fault = false) (hraw : o.malloc ≠ 0)
    (htracks : w.Tracks o tid (num * size)) (hzero : callocTotal w num size ≠ 0)
    (hfit : ¬ SizesFit (num * size) (effectiveAlignment 16) w.config.footerSize) :
    ¬ CallocServes w o tid num size := by
  have heq := @allocate_of_tracks w o tid (num * size) 16 callocTag htracks
  rw [@allocateTracked_of_not_fit (w.passGate o tid (num * size)) o tid (num * size) 16 callocTag
    w.allocCounter hzero hraw hfit] at heq
  intro hserves
  have hfault := hserves.defined
  rw [memsentryCalloc_of_null (by rw [heq]), heq, hdefined] at hfault
  cases hfault

/-- **When calloc gives what was asked for**, in every state of the manager whose
behaviour is defined. -/
theorem calloc_iff (hdefined : w.fault = false)
    (hfresh : o.malloc ≠ 0 → w.Tracks o tid (num * size) →
      Fresh w.heap o.malloc (callocTotal w num size)) :
    CallocServes w o tid num size ↔ CallocExact w o tid num size := by
  unfold CallocExact
  by_cases hraw : o.malloc = 0
  · exact iff_of_true (serves_of_refused (Or.inl hraw)) (Or.inl hraw)
  by_cases htracks : w.Tracks o tid (num * size)
  · by_cases hzero : callocTotal w num size = 0
    · exact iff_of_true (serves_of_refused (Or.inr ⟨htracks, hzero⟩))
        (Or.inr (Or.inr ⟨htracks, Or.inl hzero⟩))
    by_cases hfit : SizesFit (num * size) (effectiveAlignment 16) w.config.footerSize
    · rw [tracks_fit_iff hraw htracks (hfresh hraw htracks) hfit]
      simp only [hraw, htracks, hzero, hfit, true_and, not_true, false_and, false_or]
    · refine iff_of_false (not_serves_of_not_fit hdefined hraw htracks hzero hfit) ?_
      simp only [hraw, htracks, hzero, hfit, true_and, not_true, false_and, false_or,
        not_false_eq_true]
  · rw [not_tracks_iff hraw htracks]
    simp only [hraw, htracks, not_false_eq_true, true_and, false_and, or_false, false_or]

end Calloc

/-! ## Two requests -/

/-- Sixteen times eight bytes. -/
theorem calloc_of_128 :
    CallocServes ((World.start fun _ => 0).init {}) { malloc := 0x10000 } 1 16 8 ↔
      CallocExact ((World.start fun _ => 0).init {}) { malloc := 0x10000 } 1 16 8 :=
  calloc_iff rfl fun _ _ => fresh_empty (by decide)

/-- `2 ^ 32` times `2 ^ 32` bytes: a block for no bytes at all. -/
theorem calloc_wraps :
    ¬ CallocServes ((World.start fun _ => 0).init {}) { malloc := 0x10000 } 1 (2 ^ 32) (2 ^ 32) := by
  intro h
  have hnull : ¬ (((World.start fun _ => 0).init {}).memsentryCalloc { malloc := 0x10000 } 1
      (2 ^ 32) (2 ^ 32)).2 = 0 := by decide +kernel
  have hcapacity : usableCapacity ((World.start fun _ => 0).init {}) { malloc := 0x10000 } 1
      (2 ^ 32) (2 ^ 32) = 0 := by decide +kernel
  rcases h.served with hzero | ⟨hroom, _⟩
  · exact hnull hzero
  · rw [hcapacity] at hroom
    exact absurd hroom (by decide)

end MemSentry
