import MemSentry.Core.CanaryExactness

/-!
# Headers that cannot be trusted

`verify_canary` and `poison_block` on a block whose header may hold anything. Both find
the footer through `user_offset` and `requested_size` of the header itself
(`footerOf`), and only the magic number is checked before these fields are used.
`verifyCanary_none_iff` says which contents pass, and `headerKeepsInside_iff` which
contents keep every access in the block.
-/

namespace MemSentry.Core

open ByteMemory

/-- Where the footer is, by the fields of the header. -/
def footerOf (m : Memory) (raw : Ptr) : Ptr := raw + userOffsetOf m raw + requestedSizeOf m raw

/-- The header says that there is a footer, and it is long enough to be compared. -/
def ComparesFooter (m : Memory) (raw : Ptr) (footerSize : Word) : Prop :=
  hasCanaryOf m raw = true ∧ footerSize ≥ 8

/-- The bytes where the footer should be are the red zone. -/
def FooterMatches (m : Memory) (raw : Ptr) (n : Nat) : Prop :=
  readBytes m (footerOf m raw) n = redZone canaryFooterMagic n

instance (m : Memory) (raw : Ptr) (footerSize : Word) : Decidable (ComparesFooter m raw footerSize) :=
  inferInstanceAs (Decidable (_ ∧ _))

instance (m : Memory) (raw : Ptr) (n : Nat) : Decidable (FooterMatches m raw n) :=
  inferInstanceAs (Decidable (_ = _))

/-- One round of a footer loop, as an access. -/
def piece (footerPtr : Ptr) (c : Nat × Nat) : Access := ⟨footerPtr + BitVec.ofNat 64 c.1, c.2⟩

variable {m : Memory} {raw : Ptr} {footerSize : Word}

/-! ## The verdict -/

theorem verifyCanary_of_magic_ne (hraw : raw ≠ 0) (hmagic : magicOf m raw ≠ canaryHeaderMagic) :
    (verifyCanary m raw footerSize).1 ≠ .none ∧
      (verifyCanary m raw footerSize).2 = [magicField raw] := by
  unfold verifyCanary
  rw [if_neg hraw]
  by_cases hfreed : magicOf m raw = canaryFreedMagic
  · rw [if_pos hfreed]
    exact ⟨by simp, rfl⟩
  · rw [if_neg hfreed, if_pos hmagic]
    exact ⟨by simp, rfl⟩

theorem verifyCanary_of_magic (hraw : raw ≠ 0) (hmagic : magicOf m raw = canaryHeaderMagic) :
    verifyCanary m raw footerSize =
      if ComparesFooter m raw footerSize then
        ((verifyFooter m (footerOf m raw) (footerChunks footerSize.toNat)).1,
          [magicField raw, hasCanaryField raw, userOffsetField raw, requestedSizeField raw] ++
            (verifyFooter m (footerOf m raw) (footerChunks footerSize.toNat)).2)
      else (.none, [magicField raw, hasCanaryField raw]) := by
  unfold verifyCanary
  rw [if_neg hraw, hmagic, if_neg magic_ne_freed, if_neg (not_not_intro rfl)]
  rfl

/-- The verdict is `NONE` for a live magic number and a footer that matches or is not
compared. -/
theorem verifyCanary_none_iff (hraw : raw ≠ 0) :
    (verifyCanary m raw footerSize).1 = .none ↔
      magicOf m raw = canaryHeaderMagic ∧
        (ComparesFooter m raw footerSize → FooterMatches m raw footerSize.toNat) := by
  by_cases hmagic : magicOf m raw = canaryHeaderMagic
  · have hverdict := verifyFooter_footerChunks m (footerOf m raw) footerSize.toNat
    rw [verifyCanary_of_magic hraw hmagic]
    by_cases hcompares : ComparesFooter m raw footerSize
    · rw [if_pos hcompares]
      unfold FooterMatches
      dsimp only
      rw [hverdict]
      split <;> simp_all
    · rw [if_neg hcompares]
      simp [hmagic, hcompares]
  · have hbad := (@verifyCanary_of_magic_ne m raw footerSize hraw hmagic).1
    exact iff_of_false hbad fun h => hmagic h.1

/-! ## What the comparison reads -/

/-- The positions of the rounds from `i` on. -/
theorem footerChunksFrom_bounds {n count i : Nat} {c : Nat × Nat} (hcount : count = (n - i + 7) / 8)
    (hc : c ∈ footerChunksFrom n count i) : i ≤ c.1 ∧ c.1 < n := by
  induction count generalizing i with
  | zero => cases hc
  | succ count ih =>
    rcases List.mem_cons.mp hc with rfl | hc
    · exact ⟨Nat.le_refl _, by dsimp only; omega⟩
    · obtain ⟨hlow, hhigh⟩ := ih (by omega) hc
      exact ⟨by omega, hhigh⟩

/-- From `i` on, a round is reached when the bytes between agree with the red zone. -/
theorem mem_verifyFooter_chunksFrom {footerPtr : Ptr} {n count i : Nat} {a : Access}
    (hcount : count = (n - i + 7) / 8) :
    a ∈ (verifyFooter m footerPtr (footerChunksFrom n count i)).2 ↔
      ∃ c ∈ footerChunksFrom n count i,
        readBytes m (footerPtr + BitVec.ofNat 64 i) (c.1 - i) =
          redZone canaryFooterMagic (c.1 - i) ∧ a = piece footerPtr c := by
  induction count generalizing i with
  | zero => simp [footerChunksFrom, verifyFooter]
  | succ count ih =>
    have hrest := ih (i := i + 8) (by omega)
    rw [footerChunksFrom, verifyFooter]
    dsimp only
    have hfirst : readBytes m (footerPtr + BitVec.ofNat 64 i) (i - i) =
        redZone canaryFooterMagic (i - i) := by
      rw [Nat.sub_self]
      rfl
    -- a later round is reached through the first one, which then covers eight bytes
    have hlater : ∀ c ∈ footerChunksFrom n count (i + 8),
        (readBytes m (footerPtr + BitVec.ofNat 64 i) (c.1 - i) =
          redZone canaryFooterMagic (c.1 - i) ↔
        readBytes m (footerPtr + BitVec.ofNat 64 i) (min 8 (n - i)) =
          (leBytes 8 canaryFooterMagic.toNat).take (min 8 (n - i)) ∧
        readBytes m (footerPtr + BitVec.ofNat 64 (i + 8)) (c.1 - (i + 8)) =
          redZone canaryFooterMagic (c.1 - (i + 8))) := by
      intro c hc
      obtain ⟨hlow, hhigh⟩ := footerChunksFrom_bounds (by omega) hc
      have hlen : (readBytes m (footerPtr + BitVec.ofNat 64 i) 8).length =
          (redZone canaryFooterMagic 8).length := by
        rw [length_readBytes, length_redZone]
      rw [Nat.min_eq_left (by omega), ← redZone_of_le (Nat.le_refl 8),
        show c.1 - i = 8 + (c.1 - (i + 8)) by omega, readBytes_add, redZone_add,
        ← add_ofNat_add]
      exact List.append_eq_append_iff_of_size_eq_left hlen
    split
    · rename_i hdiffer
      rw [List.mem_singleton]
      constructor
      · rintro rfl
        exact ⟨_, List.mem_cons_self, hfirst, rfl⟩
      · rintro ⟨c, hc, hprefix, rfl⟩
        rcases List.mem_cons.mp hc with rfl | hc
        · rfl
        · exact absurd ((hlater c hc).mp hprefix).1 hdiffer
    · rename_i hsame
      have hmatch := not_not.mp hsame
      rw [List.mem_cons, hrest]
      constructor
      · rintro (rfl | ⟨c, hc, hprefix, rfl⟩)
        · exact ⟨_, List.mem_cons_self, hfirst, rfl⟩
        · exact ⟨c, List.mem_cons_of_mem _ hc, (hlater c hc).mpr ⟨hmatch, hprefix⟩, rfl⟩
      · rintro ⟨c, hc, hprefix, rfl⟩
        rcases List.mem_cons.mp hc with rfl | hc
        · exact Or.inl rfl
        · exact Or.inr ⟨c, hc, ((hlater c hc).mp hprefix).2, rfl⟩

/-- The comparison reads a piece of the footer when all pieces before it match. -/
theorem mem_verifyFooter {n : Nat} {a : Access} :
    a ∈ (verifyFooter m (footerOf m raw) (footerChunks n)).2 ↔
      ∃ c ∈ footerChunks n, FooterMatches m raw c.1 ∧ a = piece (footerOf m raw) c := by
  have h := @mem_verifyFooter_chunksFrom m (footerOf m raw) n ((n + 7) / 8) 0 a rfl
  rw [show footerOf m raw + BitVec.ofNat 64 0 = footerOf m raw from BitVec.add_zero _] at h
  exact h

/-! ## What the poisoning writes -/

/-- An address `n` bytes above the header is not among its bytes. -/
theorem header_not_inSpan_above {n : Word} {i k : Nat} (hlow : 64 ≤ n.toNat)
    (hhigh : n.toNat + k ≤ 2 ^ 64) (hi : i < 64) :
    ¬ InSpan (raw + n) k (raw + BitVec.ofNat 64 i) := by
  have hdiff : raw + BitVec.ofNat 64 i - (raw + n) = BitVec.ofNat 64 i - n := by
    rw [BitVec.add_comm raw, BitVec.add_comm raw]
    exact add_sub_add_right_eq_sub _ _ _
  have hofNat : (BitVec.ofNat 64 i).toNat = i := by
    rw [BitVec.toNat_ofNat, Nat.mod_eq_of_lt (by omega)]
  unfold InSpan
  rw [hdiff, toNat_sub_of_lt (by omega), hofNat]
  omega

theorem toNat_sub_backOffsetSize {n : Word} (h : n ≥ headerSize + backOffsetSize) :
    (n - backOffsetSize).toNat = n.toNat - 4 ∧ 68 ≤ n.toNat := by
  rw [ge_iff_le, headerSize_add_backOffsetSize, BitVec.le_def] at h
  have h68 : 68 ≤ n.toNat := h
  have hfour : backOffsetSize.toNat = 4 := rfl
  exact ⟨by rw [toNat_sub_of_le (by omega), hfour], h68⟩

/-- Clearing the back offset changes no field of the header, wherever it is. -/
theorem poisonPayloadEnds_accesses (hlong : userOffsetOf m raw ≥ headerSize + backOffsetSize) :
    (poisonPayloadEnds m raw footerSize).2 =
      [⟨raw + userOffsetOf m raw - backOffsetSize, 4⟩, hasCanaryField raw] ++
        (if ComparesFooter m raw footerSize then
          requestedSizeField raw :: (footerChunks footerSize.toNat).map (piece (footerOf m raw))
        else []) := by
  obtain ⟨hback, h68⟩ := toNat_sub_backOffsetSize hlong
  have hbyte : ∀ i, 8 ≤ i → i < 64 → writeBytes m
      (raw + userOffsetOf m raw - backOffsetSize) (leBytes 4 0) (raw + BitVec.ofNat 64 i) =
      m (raw + BitVec.ofNat 64 i) := by
    intro i _ hi
    have hlt := (userOffsetOf m raw).isLt
    apply writeBytes_of_not_inSpan
    rw [length_leBytes, add_sub_assoc]
    exact header_not_inSpan_above (by omega) (by omega) hi
  obtain ⟨_, hsize, hcanary⟩ := fields_congr hbyte
  unfold poisonPayloadEnds
  dsimp only
  rw [hcanary, hsize]
  by_cases hcompares : ComparesFooter m raw footerSize
  · have hpieces : (footerStores (raw + userOffsetOf m raw + requestedSizeOf m raw)
        canaryFreedMagic footerSize.toNat).map storeAccess =
        (footerChunks footerSize.toNat).map (piece (footerOf m raw)) := by
      unfold footerStores
      rw [List.map_map]
      exact List.map_congr_left fun c hc => storeAccess_chunkStore hc
    rw [if_pos hcompares]
    unfold ComparesFooter at hcompares
    rw [if_pos hcompares]
    dsimp only
    rw [hpieces]
    rfl
  · rw [if_neg hcompares]
    unfold ComparesFooter at hcompares
    rw [if_neg hcompares]
    rfl

/-- The accesses of `poison_block`, whatever the header holds. -/
theorem poisonBlock_accesses (hraw : raw ≠ 0) :
    (poisonBlock m raw footerSize).2 =
      [magicField raw, userOffsetField raw] ++
      (if userOffsetOf m raw ≥ headerSize + backOffsetSize then
        [⟨raw + userOffsetOf m raw - backOffsetSize, 4⟩, hasCanaryField raw] ++
        (if ComparesFooter m raw footerSize then
          requestedSizeField raw :: (footerChunks footerSize.toNat).map (piece (footerOf m raw))
        else [])
      else []) ++ [userOffsetField raw] := by
  obtain ⟨hoffset, hsize, hcanary⟩ := poison_fields m raw
  unfold poisonBlock
  rw [if_neg hraw]
  dsimp only
  rw [hoffset]
  by_cases hlong : userOffsetOf m raw ≥ headerSize + backOffsetSize
  · have hends := @poisonPayloadEnds_accesses
      (writeBytes m raw (leBytes 8 canaryFreedMagic.toNat)) raw footerSize (by rw [hoffset]; exact hlong)
    simp only [ComparesFooter, footerOf, hoffset, hsize, hcanary] at hends
    rw [if_pos hlong, if_pos hlong, hends]
    rfl
  · rw [if_neg hlong, if_neg hlong]

/-! ## Staying in the block -/

/-- How many bytes of a footer of `n` bytes the comparison reads: all up to the end of the
first eight that are not the red zone. -/
def comparedBytes (m : Memory) (raw : Ptr) (n : Nat) : Nat :=
  min n (8 * (Nat.findGreatest (FooterMatches m raw) n / 8 + 1))

/-- The contents of the header, and of the bytes where it says the footer is, keep the
inspection inside the `total` bytes of the block. Without the live magic number nothing
else is used. With it, what is compared of the footer must end in the block, and so must the
back offset when the block passes and is poisoned. -/
def HeaderKeepsInside (m : Memory) (raw : Ptr) (total : Nat) (footerSize : Word) : Prop :=
  magicOf m raw = canaryHeaderMagic →
    (ComparesFooter m raw footerSize → (userOffsetOf m raw + requestedSizeOf m raw).toNat +
      comparedBytes m raw footerSize.toNat ≤ total) ∧
    ((ComparesFooter m raw footerSize → FooterMatches m raw footerSize.toNat) →
      userOffsetOf m raw ≥ headerSize + backOffsetSize → (userOffsetOf m raw).toNat ≤ total)

variable {total : Nat}

/-- A footer that matches matches from the front. -/
theorem FooterMatches.of_le {n k : Nat} (h : FooterMatches m raw n) (hk : k ≤ n) :
    FooterMatches m raw k :=
  @FooterIntact.of_le m (raw + userOffsetOf m raw) (requestedSizeOf m raw) n k h hk

theorem footerMatches_iff {n k : Nat} (hk : k ≤ n) :
    FooterMatches m raw k ↔ k ≤ Nat.findGreatest (FooterMatches m raw) n := by
  constructor
  · exact Nat.le_findGreatest hk
  · intro hle
    have hnothing : FooterMatches m raw 0 := rfl
    exact (Nat.findGreatest_spec (Nat.zero_le n) hnothing).of_le hle

theorem mem_footerChunksFrom_iff {n count i : Nat} {c : Nat × Nat}
    (hcount : count = (n - i + 7) / 8) : c ∈ footerChunksFrom n count i ↔
      ∃ j, i + 8 * j < n ∧ c = (i + 8 * j, min 8 (n - (i + 8 * j))) := by
  induction count generalizing i with
  | zero =>
    refine iff_of_false List.not_mem_nil ?_
    rintro ⟨j, hj, _⟩
    omega
  | succ count ih =>
    rw [footerChunksFrom, List.mem_cons, ih (by omega)]
    constructor
    · rintro (rfl | ⟨j, hj, rfl⟩)
      · exact ⟨0, by omega, rfl⟩
      · exact ⟨j + 1, by omega, by rw [show i + 8 * (j + 1) = i + 8 + 8 * j by omega]⟩
    · rintro ⟨j, hj, rfl⟩
      cases j with
      | zero => exact Or.inl rfl
      | succ j =>
        exact Or.inr ⟨j, by omega, by rw [show i + 8 * (j + 1) = i + 8 + 8 * j by omega]⟩

/-- A byte of the footer lies in the block when its distance from the header says so. -/
theorem inSpan_footer_iff (k : Nat) : InSpan raw total (footerOf m raw + BitVec.ofNat 64 k) ↔
    ((userOffsetOf m raw + requestedSizeOf m raw).toNat + k) % 2 ^ 64 < total := by
  have hdistance : footerOf m raw + BitVec.ofNat 64 k - raw =
      userOffsetOf m raw + requestedSizeOf m raw + BitVec.ofNat 64 k := by
    rw [footerOf, BitVec.add_assoc, BitVec.add_assoc, BitVec.add_comm raw, BitVec.add_sub_cancel,
      BitVec.add_assoc]
  rw [InSpan, hdistance, BitVec.toNat_add, BitVec.toNat_ofNat, Nat.add_mod_mod]

/-- The pieces that are compared lie in the block when the last byte of them does. -/
theorem pieces_inside_iff {n : Nat} (hn : 0 < n) (htotal : total < 2 ^ 64) :
    (∀ c ∈ footerChunks n, FooterMatches m raw c.1 → (piece (footerOf m raw) c).Inside raw total) ↔
      (userOffsetOf m raw + requestedSizeOf m raw).toNat + comparedBytes m raw n ≤ total := by
  have hmem (c : Nat × Nat) : c ∈ footerChunks n ↔
      ∃ j, 0 + 8 * j < n ∧ c = (0 + 8 * j, min 8 (n - (0 + 8 * j))) :=
    mem_footerChunksFrom_iff rfl
  have hbyte (j i : Nat) : InSpan raw total
      (footerOf m raw + BitVec.ofNat 64 (0 + 8 * j) + BitVec.ofNat 64 i) ↔
        ((userOffsetOf m raw + requestedSizeOf m raw).toNat + (8 * j + i)) % 2 ^ 64 < total := by
    rw [← add_ofNat_add, inSpan_footer_iff, Nat.zero_add]
  have hstart := (userOffsetOf m raw + requestedSizeOf m raw).isLt
  unfold comparedBytes
  constructor
  · intro hinside
    -- otherwise the first address behind the block is compared
    by_contra hout
    have hall : ∀ i < min n (8 * (Nat.findGreatest (FooterMatches m raw) n / 8 + 1)),
        ((userOffsetOf m raw + requestedSizeOf m raw).toNat + i) % 2 ^ 64 < total := by
      intro i hi
      have hpiece := hinside (0 + 8 * (i / 8), min 8 (n - (0 + 8 * (i / 8))))
        ((hmem _).mpr ⟨i / 8, by omega, rfl⟩) ((footerMatches_iff (n := n) (by dsimp only; omega)).mpr
          (by dsimp only; omega)) (i % 8) (by dsimp only [piece]; omega)
      rwa [piece, hbyte, Nat.div_add_mod] at hpiece
    have hfirst := hall 0 (by omega)
    have hbehind := hall (total - (userOffsetOf m raw + requestedSizeOf m raw).toNat) (by omega)
    omega
  · rintro hend c hc hprefix i hi
    obtain ⟨j, hj, rfl⟩ := (hmem c).mp hc
    have hreached := (footerMatches_iff (n := n) (by dsimp only; omega)).mp hprefix
    dsimp only [piece] at hi hreached ⊢
    rw [hbyte]
    omega

theorem backOffset_inside_iff
    (h : userOffsetOf m raw ≥ headerSize + backOffsetSize) :
    Access.Inside raw total ⟨raw + userOffsetOf m raw - backOffsetSize, 4⟩ ↔
      (userOffsetOf m raw).toNat ≤ total := by
  obtain ⟨hback, h68⟩ := toNat_sub_backOffsetSize h
  have hlt := (userOffsetOf m raw).isLt
  have hbyte : ∀ i < 4, (raw + userOffsetOf m raw - backOffsetSize + BitVec.ofNat 64 i - raw).toNat =
      (userOffsetOf m raw).toNat - 4 + i := by
    intro i hi
    have hdiff : raw + userOffsetOf m raw - backOffsetSize + BitVec.ofNat 64 i - raw =
        userOffsetOf m raw - backOffsetSize + BitVec.ofNat 64 i := by
      rw [add_sub_assoc raw, add_assoc, add_sub_cancel_left]
    rw [hdiff, toNat_add_ofNat (by omega), hback]
  constructor
  · intro hinside
    have hlast := hinside 3 (Nat.lt_succ_self 3)
    unfold InSpan at hlast
    rw [hbyte 3 (by decide)] at hlast
    omega
  · intro hle i hi
    have hi' : i < 4 := hi
    unfold InSpan
    rw [hbyte i hi']
    omega

/-- All pieces of a footer that matches are reached by the comparison. -/
theorem FooterMatches.piece {n : Nat} (h : FooterMatches m raw n) {c : Nat × Nat}
    (hc : c ∈ footerChunks n) : FooterMatches m raw c.1 := by
  have hle := (mem_footerChunks hc).2
  exact h.of_le (by omega)

theorem headerField_inside (hspace : raw.toNat + total ≤ 2 ^ 64) (htotal : 64 ≤ total) {k len : Nat}
    (hk : k + len ≤ 64) : Access.Inside raw total ⟨raw + BitVec.ofNat 64 k, len⟩ := by
  intro i hi
  have hi' : i < len := hi
  have haddr : (raw + BitVec.ofNat 64 k).toNat = raw.toNat + k := toNat_add_ofNat (by omega)
  rw [← add_ofNat_add, inSpan_iff hspace, toNat_add_ofNat (by omega)]
  omega

/-- The fields that the inspection reads. -/
theorem headerFields_inside (hspace : raw.toNat + total ≤ 2 ^ 64) (htotal : 64 ≤ total) :
    (magicField raw).Inside raw total ∧ (hasCanaryField raw).Inside raw total ∧
      (userOffsetField raw).Inside raw total ∧ (requestedSizeField raw).Inside raw total := by
  have hmagic := @headerField_inside raw total hspace htotal 0 8 (by decide)
  rw [show raw + BitVec.ofNat 64 0 = raw from BitVec.add_zero raw] at hmagic
  exact ⟨hmagic, headerField_inside hspace htotal (by decide : 56 + 1 ≤ 64),
    headerField_inside hspace htotal (by decide : 32 + 8 ≤ 64),
    headerField_inside hspace htotal (by decide : 16 + 8 ≤ 64)⟩

/-- With the live magic number the check stays inside when the pieces it compares do. -/
theorem verifyCanary_inside_iff (hraw : raw ≠ 0) (hspace : raw.toNat + total ≤ 2 ^ 64)
    (htotal : 64 ≤ total) (hmagic : magicOf m raw = canaryHeaderMagic) :
    (∀ a ∈ (verifyCanary m raw footerSize).2, a.Inside raw total) ↔
      (ComparesFooter m raw footerSize → ∀ c ∈ footerChunks footerSize.toNat,
        FooterMatches m raw c.1 → (piece (footerOf m raw) c).Inside raw total) := by
  obtain ⟨hmagicField, hcanaryField, hoffsetField, hsizeField⟩ :=
    @headerFields_inside raw total hspace htotal
  rw [verifyCanary_of_magic hraw hmagic]
  by_cases hcompares : ComparesFooter m raw footerSize
  · rw [if_pos hcompares]
    constructor
    · intro hinside _ c hc hprefix
      exact hinside _ (List.mem_append_right _ (mem_verifyFooter.mpr ⟨c, hc, hprefix, rfl⟩))
    · intro hpieces a ha
      rcases List.mem_append.mp ha with hf | hf
      · simp only [List.mem_cons, List.not_mem_nil, or_false] at hf
        rcases hf with rfl | rfl | rfl | rfl <;> assumption
      · obtain ⟨c, hc, hprefix, rfl⟩ := mem_verifyFooter.mp hf
        exact hpieces hcompares c hc hprefix
  · rw [if_neg hcompares]
    refine iff_of_true (fun a ha => ?_) fun h => absurd h hcompares
    simp only [List.mem_cons, List.not_mem_nil, or_false] at ha
    rcases ha with rfl | rfl <;> assumption

/-- The poisoning of a block whose footer lies inside stays inside when the back offset
does. -/
theorem poisonBlock_inside_iff (hraw : raw ≠ 0) (hspace : raw.toNat + total ≤ 2 ^ 64)
    (htotal : 64 ≤ total)
    (hpieces : ComparesFooter m raw footerSize → ∀ c ∈ footerChunks footerSize.toNat,
      (piece (footerOf m raw) c).Inside raw total) :
    (∀ a ∈ (poisonBlock m raw footerSize).2, a.Inside raw total) ↔
      (userOffsetOf m raw ≥ headerSize + backOffsetSize → (userOffsetOf m raw).toNat ≤ total) := by
  obtain ⟨hmagicField, hcanaryField, hoffsetField, hsizeField⟩ :=
    @headerFields_inside raw total hspace htotal
  rw [poisonBlock_accesses hraw]
  by_cases hlong : userOffsetOf m raw ≥ headerSize + backOffsetSize
  · rw [if_pos hlong]
    constructor
    · intro hinside _
      rw [← backOffset_inside_iff hlong]
      exact hinside _ (by simp)
    · intro hback a ha
      simp only [List.mem_append, List.mem_cons, List.not_mem_nil, or_false] at ha
      rcases ha with (hfirst | hends) | rfl
      · rcases hfirst with rfl | rfl <;> assumption
      · rcases hends with (rfl | rfl) | hfooter
        · exact (backOffset_inside_iff hlong).mpr (hback hlong)
        · exact hcanaryField
        · by_cases hcompares : ComparesFooter m raw footerSize
          · rw [if_pos hcompares] at hfooter
            rcases List.mem_cons.mp hfooter with rfl | hfooter
            · exact hsizeField
            · obtain ⟨c, hc, rfl⟩ := List.mem_map.mp hfooter
              exact hpieces hcompares c hc
          · rw [if_neg hcompares] at hfooter
            cases hfooter
      · exact hoffsetField
  · rw [if_neg hlong]
    refine iff_of_true (fun a ha => ?_) fun h => absurd h hlong
    simp only [List.mem_append, List.mem_cons, List.not_mem_nil, or_false] at ha
    rcases ha with (rfl | rfl) | rfl <;> assumption

theorem headerKeepsInside_iff (hraw : raw ≠ 0) (hspace : raw.toNat + total ≤ 2 ^ 64)
    (htotal : 64 ≤ total) :
    ((∀ a ∈ (verifyCanary m raw footerSize).2, a.Inside raw total) ∧
      ((verifyCanary m raw footerSize).1 = .none →
        ∀ a ∈ (poisonBlock m raw footerSize).2, a.Inside raw total)) ↔
      HeaderKeepsInside m raw total footerSize := by
  unfold HeaderKeepsInside
  have hfits : total < 2 ^ 64 := by
    have hpos : raw.toNat ≠ 0 := fun h => hraw (BitVec.eq_of_toNat_eq h)
    omega
  by_cases hmagic : magicOf m raw = canaryHeaderMagic
  · have hend (hcompares : ComparesFooter m raw footerSize) :=
      @pieces_inside_iff m raw total footerSize.toNat
        (Nat.lt_of_lt_of_le (by decide) hcompares.2) hfits
    rw [verifyCanary_none_iff hraw, verifyCanary_inside_iff hraw hspace htotal hmagic,
      ← forall_congr' hend]
    simp only [hmagic, true_and, true_imp_iff]
    refine and_congr_right fun hpieces => imp_congr_right fun hpass => ?_
    -- a block that passes has compared all of its footer
    apply poisonBlock_inside_iff hraw hspace htotal
    exact fun hcompares c hc => hpieces hcompares c hc ((hpass hcompares).piece hc)
  · obtain ⟨hbad, haccesses⟩ := @verifyCanary_of_magic_ne m raw footerSize hraw hmagic
    refine iff_of_true ⟨fun a ha => ?_, fun h => absurd h hbad⟩ fun h => absurd h hmagic
    rw [haccesses, List.mem_singleton] at ha
    rw [ha]
    exact (headerFields_inside hspace htotal).1

end MemSentry.Core
