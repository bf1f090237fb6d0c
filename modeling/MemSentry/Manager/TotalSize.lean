import MemSentry.Core.BlockContainment
import MemSentry.Manager.Hooks
import MemSentry.Manager.Effects

/-!
# The sum of the parts

`calculate_total_size` tests the requested size against what the other parts leave of a
`size_t`. The other parts are added up unchecked, so the test is about their sum modulo
`2 ^ 64` (`overhead`). As long as header, back offset, alignment and footer fit, the
result is 0 or the true sum. Once they wrap, every request that passes the test gets a
result that is too small by a multiple of `2 ^ 64` (`totalSize_exact_iff`).
-/

namespace MemSentry

open MemSentry.Core World

/-- What `calculate_total_size` adds to the requested size, as the code adds it up. -/
def overhead (alignment footerSize : Word) : Nat :=
  (64 + 4 + max alignment.toNat 16 + footerSize.toNat) % 2 ^ 64

/-- 64 + 4 + max(alignment, 16) + requested_size + footer_size. -/
def trueTotal (requestedSize alignment footerSize : Word) : Nat :=
  64 + 4 + max alignment.toNat 16 + requestedSize.toNat + footerSize.toNat

/-- The other parts fit, or the test refuses the request, or it happens to return 0. -/
def NeverWraps (requestedSize alignment footerSize : Word) : Prop :=
  64 + 4 + max alignment.toNat 16 + footerSize.toNat < 2 ^ 64 ∨
    2 ^ 64 ≤ overhead alignment footerSize + requestedSize.toNat ∨
    overhead alignment footerSize + requestedSize.toNat = 0

section Sizes

variable {requestedSize alignment footerSize : Word}

theorem sizesFit_iff :
    SizesFit requestedSize alignment footerSize ↔
      trueTotal requestedSize alignment footerSize < 2 ^ 64 := by
  rw [SizesFit, trueTotal, toNat_effectiveAlignment]

theorem toNat_overhead :
    (68#64 + effectiveAlignment alignment + footerSize).toNat = overhead alignment footerSize := by
  have heff := toNat_effectiveAlignment alignment
  have h68 : (68#64 : Word).toNat = 68 := rfl
  rw [BitVec.toNat_add, BitVec.toNat_add, h68, heff, overhead]
  omega

/-- `calculate_total_size` in full, wrapping included. -/
theorem toNat_calculateTotalSize_all :
    (calculateTotalSize requestedSize alignment footerSize).toNat =
      if 2 ^ 64 ≤ overhead alignment footerSize + requestedSize.toNat then 0
      else overhead alignment footerSize + requestedSize.toNat := by
  have hmax : sizeMax.toNat = 2 ^ 64 - 1 := rfl
  have hoverhead := @toNat_overhead alignment footerSize
  have hlt : overhead alignment footerSize < 2 ^ 64 := Nat.mod_lt _ (by decide)
  have hroom : (sizeMax - (68#64 + effectiveAlignment alignment) - footerSize).toNat =
      2 ^ 64 - 1 - overhead alignment footerSize := by
    rw [sub_sub, BitVec.toNat_sub_of_le, hoverhead, hmax]
    rw [BitVec.le_def, hoverhead, hmax]
    omega
  have hsum : 68#64 + effectiveAlignment alignment + requestedSize + footerSize =
      68#64 + effectiveAlignment alignment + footerSize + requestedSize := add_right_comm _ _ _
  unfold calculateTotalSize
  rw [headerSize_add_backOffsetSize]
  dsimp only
  by_cases hbig : 2 ^ 64 ≤ overhead alignment footerSize + requestedSize.toNat
  · rw [if_pos (by rw [gt_iff_lt, BitVec.lt_def, hroom]; omega), if_pos hbig]
    rfl
  · rw [if_neg (by rw [gt_iff_lt, BitVec.lt_def, hroom]; omega), if_neg hbig, hsum,
      BitVec.toNat_add_of_lt (by rw [hoverhead]; omega), hoverhead]

theorem exact_iff_neverWraps :
    calculateTotalSize requestedSize alignment footerSize = 0 ∨
        (calculateTotalSize requestedSize alignment footerSize).toNat =
          trueTotal requestedSize alignment footerSize ↔
      NeverWraps requestedSize alignment footerSize := by
  have hall := @toNat_calculateTotalSize_all requestedSize alignment footerSize
  have hzero : calculateTotalSize requestedSize alignment footerSize = 0 ↔
      (calculateTotalSize requestedSize alignment footerSize).toNat = 0 :=
    ⟨fun h => by rw [h]; rfl, fun h => BitVec.eq_of_toNat_eq h⟩
  rw [hzero, hall]
  unfold NeverWraps
  by_cases hbig : 2 ^ 64 ≤ overhead alignment footerSize + requestedSize.toNat
  · rw [if_pos hbig]
    exact iff_of_true (Or.inl rfl) (Or.inr (Or.inl hbig))
  · rw [if_neg hbig]
    unfold overhead trueTotal at *
    omega

/-- Where the sum does not wrap, a block that is asked for has its true size. -/
theorem sizesFit_of_neverWraps (h : NeverWraps requestedSize alignment footerSize)
    (hne : calculateTotalSize requestedSize alignment footerSize ≠ 0) :
    SizesFit requestedSize alignment footerSize := by
  rw [sizesFit_iff]
  rcases exact_iff_neverWraps.mpr h with hzero | hexact
  · exact absurd hzero hne
  · rw [← hexact]
    exact BitVec.isLt _

end Sizes

/-- `allocate` goes on to lay out a block. -/
structure LaysOut (w : World) (o : Oracle) (tid : ThreadId) (size alignment : Word) : Prop where
  tracks : w.Tracks o tid size
  asked : calculateTotalSize size (effectiveAlignment alignment) w.config.footerSize ≠ 0
  answered : o.malloc ≠ 0
  fresh : Fresh w.heap o.malloc
    (calculateTotalSize size (effectiveAlignment alignment) w.config.footerSize)

/-- The raw block that `allocate` asks for has room for every write of `init_block`. -/
def RoomForBlock (w : World) (o : Oracle) (tid : ThreadId) (size alignment tag : Word) : Prop :=
  let total := calculateTotalSize size (effectiveAlignment alignment) w.config.footerSize
  .systemAlloc total o.malloc ∈ (w.allocate o tid size alignment tag).1.log ∧
    (w.allocate o tid size alignment tag).1.fault = w.fault ∧
    ∀ allocId, ∀ a ∈ (initBlock w.mem o.malloc size (effectiveAlignment alignment)
      w.config.footerSize allocId (w.finalTag tid tag) w.config.enableCanary tid).2.2,
      a.Inside o.malloc total.toNat

section Manager

variable {w : World} {o : Oracle} {tid : ThreadId} {size alignment tag : Word}

theorem roomForBlock_of_fit (h : LaysOut w o tid size alignment)
    (hfit : SizesFit size (effectiveAlignment alignment) w.config.footerSize) :
    RoomForBlock w o tid size alignment tag := by
  have hspace := h.fresh.1
  unfold extent at hspace
  have hplaced := placed_userAddress h.answered hfit (by omega)
  have hinside : ∀ allocId, ∀ a ∈ (initBlock w.mem o.malloc size (effectiveAlignment alignment)
      w.config.footerSize allocId (w.finalTag tid tag) w.config.enableCanary tid).2.2,
      a.Inside o.malloc
        (calculateTotalSize size (effectiveAlignment alignment) w.config.footerSize).toNat :=
    fun allocId a ha => initBlock_inside hplaced ha
  obtain ⟨_, hi⟩ := @allocate_installed w o tid size alignment tag h.tracks h.answered hfit
  obtain ⟨rest, hlog, _⟩ := hi.log
  refine ⟨?_, hi.fault, hinside⟩
  rw [hlog]
  exact List.mem_append_right _ List.mem_cons_self

/-- **When the size computation is exact**: the result is 0 or the true sum, and every
block that `allocate` lays out on the strength of it has the room, exactly when the parts
other than the payload fit a `size_t`, or the test refuses the request anyway. -/
theorem totalSize_exact_iff (requestedSize alignment footerSize : Word) :
    ((calculateTotalSize requestedSize alignment footerSize = 0 ∨
        (calculateTotalSize requestedSize alignment footerSize).toNat =
          trueTotal requestedSize alignment footerSize) ∧
      ∀ (w : World) (o : Oracle) (tid : ThreadId) (tag : Ptr),
        w.config.footerSize = footerSize → LaysOut w o tid requestedSize alignment →
          RoomForBlock w o tid requestedSize alignment tag) ↔
    NeverWraps requestedSize alignment footerSize := by
  rw [exact_iff_neverWraps]
  refine ⟨fun h => h.1, fun h => ⟨h, fun w o tid tag hfooter hlays => ?_⟩⟩
  have heff : NeverWraps requestedSize (effectiveAlignment alignment) footerSize := by
    unfold NeverWraps overhead at *
    rw [toNat_effectiveAlignment, max_assoc, max_self]
    exact h
  have hasked := hlays.asked
  rw [hfooter] at hasked
  have hfit := sizesFit_of_neverWraps heff hasked
  rw [← hfooter] at hfit
  exact roomForBlock_of_fit hlays hfit

end Manager

/-- With the alignment `2 ^ 64 - 64` and the default footer the sum wraps: the block asked
for has 120 bytes, its payload alone takes 100, and where `init_block` would put that is
no part of the block. -/
theorem totalSize_wraps :
    let w := (World.start fun _ => 0).init {}
    (calculateTotalSize 100 (2 ^ 64 - 64) 16).toNat = 120 ∧
      trueTotal 100 (2 ^ 64 - 64) 16 = 2 ^ 64 + 120 ∧
      (w.memsentryAlignedAlloc { malloc := 0x10000 } 1 (2 ^ 64 - 64) 100).1.log =
        [.systemAlloc 120 0x10000] ∧
      (w.memsentryAlignedAlloc { malloc := 0x10000 } 1 (2 ^ 64 - 64) 100).1.fault = true ∧
      ¬ Access.Inside 0x10000 120 ⟨userAddress 0x10000 (2 ^ 64 - 64) - backOffsetSize, 4⟩ := by
  decide +kernel

end MemSentry
