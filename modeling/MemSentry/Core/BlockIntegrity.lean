import MemSentry.Core.RedZone
import MemSentry.Core.BlockLayout

/-!
# Intact blocks

What `init_block` leaves in a block and what `verify_canary` and `poison_block` make of
it. `HeaderIntact` is about the four header fields that are read again, `FooterIntact`
about the bytes of the red zone. Both speak of bytes of the block only, so they survive
every change of the memory that leaves those bytes alone (`HeaderIntact.congr`,
`FooterIntact.congr`).

`canaryLength` is the length of the red zone that a footer size stands for: footers
shorter than one magic number are neither written nor compared.
-/

namespace MemSentry.Core

open ByteMemory

def canaryLength (hasCanary : Bool) (footerSize : Word) : Nat :=
  if hasCanary ∧ footerSize ≥ 8 then footerSize.toNat else 0

structure HeaderIntact (m : Memory) (raw user : Ptr) (requested : Word) (canary : Bool) : Prop where
  magic : magicOf m raw = canaryHeaderMagic
  userOffset : userOffsetOf m raw = user - raw
  requestedSize : requestedSizeOf m raw = requested
  hasCanary : hasCanaryOf m raw = canary

/-- The `n` bytes behind the payload are the red zone that `init_block` writes. -/
def FooterIntact (m : Memory) (user : Ptr) (requested : Word) (n : Nat) : Prop :=
  readBytes m (user + requested) n = redZone canaryFooterMagic n

instance (m : Memory) (user : Ptr) (requested : Word) (n : Nat) :
    Decidable (FooterIntact m user requested n) :=
  inferInstanceAs (Decidable (_ = _))

theorem canaryLength_le (canary : Bool) (footerSize : Word) :
    canaryLength canary footerSize ≤ footerSize.toNat := by
  unfold canaryLength
  split
  · exact Nat.le_refl _
  · exact Nat.zero_le _

/-! ## Changes elsewhere -/

theorem loadWord_congr {m m' : Memory} {p : Ptr}
    (h : ∀ i < 8, m' (p + BitVec.ofNat 64 i) = m (p + BitVec.ofNat 64 i)) :
    loadWord m' p = loadWord m p := by
  rw [loadWord, loadWord, load_congr (readBytes_congr h)]

/-- The header fields behind the magic number. -/
theorem fields_congr {m m' : Memory} {raw : Ptr}
    (h : ∀ i, 8 ≤ i → i < 64 → m' (raw + BitVec.ofNat 64 i) = m (raw + BitVec.ofNat 64 i)) :
    userOffsetOf m' raw = userOffsetOf m raw ∧ requestedSizeOf m' raw = requestedSizeOf m raw ∧
      hasCanaryOf m' raw = hasCanaryOf m raw := by
  have hword : ∀ k, 8 ≤ k → k + 8 ≤ 64 → loadWord m' (raw + BitVec.ofNat 64 k) =
      loadWord m (raw + BitVec.ofNat 64 k) := by
    intro k h8 h64
    apply loadWord_congr
    intro i hi
    rw [← add_ofNat_add]
    exact h (k + i) (by omega) (by omega)
  have hbyte : m' (raw + 56) = m (raw + 56) := h 56 (by decide) (by decide)
  refine ⟨hword 32 (by decide) (by decide), hword 16 (by decide) (by decide), ?_⟩
  rw [hasCanaryOf, hasCanaryOf, hbyte]

theorem HeaderIntact.congr {m m' : Memory} {raw user : Ptr} {requested : Word} {canary : Bool}
    (hi : HeaderIntact m raw user requested canary)
    (h : ∀ i < 64, m' (raw + BitVec.ofNat 64 i) = m (raw + BitVec.ofNat 64 i)) :
    HeaderIntact m' raw user requested canary := by
  have hmagic : magicOf m' raw = magicOf m raw := loadWord_congr fun i hi => h i (by omega)
  obtain ⟨hoffset, hsize, hcanary⟩ := fields_congr fun i _ h64 => h i h64
  exact ⟨hmagic.trans hi.magic, hoffset.trans hi.userOffset, hsize.trans hi.requestedSize,
    hcanary.trans hi.hasCanary⟩

theorem FooterIntact.congr {m m' : Memory} {user : Ptr} {requested : Word} {n : Nat}
    (hf : FooterIntact m user requested n)
    (h : ∀ i < n, m' (user + requested + BitVec.ofNat 64 i) =
      m (user + requested + BitVec.ofNat 64 i)) : FooterIntact m' user requested n := by
  unfold FooterIntact
  rw [readBytes_congr h]
  exact hf

/-- A shorter piece of an intact red zone is an intact red zone. -/
theorem FooterIntact.of_le {m : Memory} {user : Ptr} {requested : Word} {n k : Nat}
    (hf : FooterIntact m user requested n) (hk : k ≤ n) : FooterIntact m user requested k := by
  obtain ⟨j, rfl⟩ := Nat.exists_eq_add_of_le hk
  unfold FooterIntact at *
  have hzone : redZone canaryFooterMagic (k + j) = redZone canaryFooterMagic k ++
      ((List.range j).map (k + ·)).map (redZoneByte canaryFooterMagic) := by
    rw [redZone, List.range_add, List.map_append]
    rfl
  rw [readBytes_add, hzone] at hf
  exact List.append_inj_left hf (by simp)

/-! ## Addresses of the parts -/

section Parts

variable {raw user : Ptr} {requested : Word} {footer total : Nat}

theorem Placed.toNat_header (h : Placed raw user requested.toNat footer total) {i : Nat}
    (hi : i < 64) : (raw + BitVec.ofNat 64 i).toNat = raw.toNat + i := by
  have hbelow := h.below
  have habove := h.above
  have hspace := h.space
  exact toNat_add_ofNat (by omega)

theorem Placed.header_inSpan (h : Placed raw user requested.toNat footer total) {i : Nat}
    (hi : i < 64) : InSpan raw total (raw + BitVec.ofNat 64 i) := by
  have hbelow := h.below
  have habove := h.above
  rw [inSpan_iff h.space, h.toNat_header hi]
  omega

/-- The header ends below the payload. -/
theorem Placed.header_not_payload (h : Placed raw user requested.toNat footer total) {i : Nat}
    (hi : i < 64) : ¬ InSpan user requested.toNat (raw + BitVec.ofNat 64 i) := by
  have hbelow := h.below
  have habove := h.above
  have hspace := h.space
  rw [inSpan_iff (by omega), h.toNat_header hi]
  omega

theorem Placed.toNat_footer (h : Placed raw user requested.toNat footer total) :
    (user + requested).toNat = user.toNat + requested.toNat := by
  have habove := h.above
  have hspace := h.space
  rw [BitVec.toNat_add_of_lt (by omega)]

theorem Placed.toNat_footer_add (h : Placed raw user requested.toNat footer total) {i : Nat}
    (hi : i < footer) :
    (user + requested + BitVec.ofNat 64 i).toNat = user.toNat + requested.toNat + i := by
  have habove := h.above
  have hspace := h.space
  have hfooter := h.toNat_footer
  rw [toNat_add_ofNat (by omega), hfooter]

theorem Placed.footer_inSpan (h : Placed raw user requested.toNat footer total) {i : Nat}
    (hi : i < footer) : InSpan raw total (user + requested + BitVec.ofNat 64 i) := by
  have hbelow := h.below
  have habove := h.above
  rw [inSpan_iff h.space, h.toNat_footer_add hi]
  omega

/-- The footer begins behind the payload. -/
theorem Placed.footer_not_payload (h : Placed raw user requested.toNat footer total) {i : Nat}
    (hi : i < footer) : ¬ InSpan user requested.toNat (user + requested + BitVec.ofNat 64 i) := by
  have habove := h.above
  have hspace := h.space
  rw [inSpan_iff (by omega), h.toNat_footer_add hi]
  omega

theorem Placed.payload_inSpan (h : Placed raw user requested.toNat footer total) {a : Ptr}
    (ha : InSpan user requested.toNat a) : InSpan raw total a := by
  have hbelow := h.below
  have habove := h.above
  have hspace := h.space
  rw [inSpan_iff (by omega)] at ha
  rw [inSpan_iff hspace]
  omega

theorem Placed.toNat_backOffset (h : Placed raw user requested.toNat footer total) :
    (user - backOffsetSize).toNat = user.toNat - 4 := by
  have hbelow := h.below
  have hfour : backOffsetSize.toNat = 4 := rfl
  rw [BitVec.toNat_sub_of_le (by rw [BitVec.le_def, hfour]; omega), hfour]

/-- A header field lies in the block. -/
theorem Placed.field_inside (h : Placed raw user requested.toNat footer total) {k len : Nat}
    (hk : k + len ≤ 64) : Access.Inside raw total ⟨raw + BitVec.ofNat 64 k, len⟩ := by
  have hbelow := h.below
  have habove := h.above
  have hspace := h.space
  have haddr : (raw + BitVec.ofNat 64 k).toNat = raw.toNat + k := toNat_add_ofNat (by omega)
  exact Access.inside_of_le hspace (by omega) (by omega)

theorem Placed.magic_inside (h : Placed raw user requested.toNat footer total) :
    Access.Inside raw total (magicField raw) := by
  have hfield := @Placed.field_inside _ _ _ _ _ h 0 8 (by decide)
  rwa [show raw + BitVec.ofNat 64 0 = raw from BitVec.add_zero raw] at hfield

theorem Placed.backOffset_inside (h : Placed raw user requested.toNat footer total) :
    Access.Inside raw total ⟨user - backOffsetSize, 4⟩ := by
  have hback := h.toNat_backOffset
  have hbelow := h.below
  have habove := h.above
  exact Access.inside_of_le h.space (by omega) (by omega)

theorem Placed.footer_inside (h : Placed raw user requested.toNat footer total) {n : Nat}
    (hn : n ≤ footer) {c : Nat × Nat} (hc : c ∈ footerChunks n) :
    Access.Inside raw total ⟨user + requested + BitVec.ofNat 64 c.1, c.2⟩ := by
  have hfooter := h.toNat_footer
  have hbelow := h.below
  have habove := h.above
  obtain ⟨_, hend⟩ := mem_footerChunks hc
  exact chunk_inside h.space (by omega) (by omega) hend

end Parts

/-! ## A block after `init_block` -/

theorem length_encode (h : BlockHeader) : h.encode.length = 64 := by
  simp [BlockHeader.encode]

/-- The fields that are read again, where `encode` puts them. -/
theorem encode_fields (h : BlockHeader) :
    (h.encode.drop 0).take 8 = leBytes 8 h.magic.toNat ∧
    (h.encode.drop 16).take 8 = leBytes 8 h.requestedSize.toNat ∧
    (h.encode.drop 32).take 8 = leBytes 8 h.userOffset.toNat ∧
    (h.encode.drop 56).take 1 = [if h.hasCanary then 1 else 0] := by
  unfold BlockHeader.encode
  simp only [List.append_assoc]
  simp [List.drop_append, List.drop_eq_nil_of_le]

/-- A field of a header that was written from `raw` up. -/
theorem readBytes_header {m : Memory} {raw : Ptr} (h : BlockHeader) {k n : Nat} (hk : k + n ≤ 64) :
    readBytes (writeBytes m raw h.encode) (raw + BitVec.ofNat 64 k) n =
      (h.encode.drop k).take n := by
  have hlen := length_encode h
  exact readBytes_writeBytes_inside (by omega) (by omega)

theorem loadWord_of_readBytes {m : Memory} {p : Ptr} {v : Word}
    (h : readBytes m p 8 = leBytes 8 v.toNat) : loadWord m p = v := by
  rw [loadWord, load_of_readBytes v.isLt h, BitVec.ofNat_toNat, BitVec.setWidth_eq]

theorem headerIntact_encode (m : Memory) (raw : Ptr) (h : BlockHeader)
    (hmagic : h.magic = canaryHeaderMagic) :
    HeaderIntact (writeBytes m raw h.encode) raw (raw + h.userOffset) h.requestedSize
      h.hasCanary := by
  obtain ⟨hm, hr, hu, hc⟩ := encode_fields h
  have hm' : readBytes (writeBytes m raw h.encode) (raw + BitVec.ofNat 64 0) 8 =
      leBytes 8 h.magic.toNat := (readBytes_header h (by decide)).trans hm
  rw [show raw + BitVec.ofNat 64 0 = raw from BitVec.add_zero raw] at hm'
  have hc' : readBytes (writeBytes m raw h.encode) (raw + BitVec.ofNat 64 56) 1 =
      [if h.hasCanary then 1 else 0] := (readBytes_header h (by decide)).trans hc
  have hbyte : writeBytes m raw h.encode (raw + 56) = if h.hasCanary then 1 else 0 := by
    have hhead := congrArg List.head? hc'
    rw [readBytes, List.range_one, List.map_singleton, List.head?_cons, List.head?_cons,
      show raw + BitVec.ofNat 64 56 + BitVec.ofNat 64 0 = raw + 56 from BitVec.add_zero _] at hhead
    exact Option.some.inj hhead
  refine ⟨?_, ?_, ?_, ?_⟩
  · rw [magicOf, loadWord_of_readBytes hm', hmagic]
  · have hoff : raw + h.userOffset - raw = h.userOffset := by
      rw [BitVec.add_comm, BitVec.add_sub_cancel]
    rw [userOffsetOf, hoff]
    exact loadWord_of_readBytes ((readBytes_header h (by decide)).trans hu)
  · exact loadWord_of_readBytes ((readBytes_header h (by decide)).trans hr)
  · rw [hasCanaryOf, hbyte]
    cases h.hasCanary <;> rfl

section Init

variable {m : Memory} {raw requested alignment footer allocId : Word} {tag : Ptr} {canary : Bool}
  {tid : BitVec 32}

/-- The memory that `init_block` leaves: header, back offset and red zone. -/
theorem initBlock_memory (hraw : raw ≠ 0) :
    (initBlock m raw requested alignment footer allocId tag canary tid).2.1 =
      writeBytes (writeBytes
        (writeBytes m raw (initHeader raw requested alignment footer allocId tag canary tid).encode)
        (userAddress raw alignment - backOffsetSize)
        (leBytes 4 (userAddress raw alignment - raw).toNat))
        (userAddress raw alignment + requested)
        (redZone canaryFooterMagic (canaryLength canary footer)) := by
  unfold initBlock
  rw [if_neg hraw]
  dsimp only
  unfold initStores canaryLength
  dsimp only
  rw [applyStores_append]
  split
  · rw [applyStores_footerStores]
    rfl
  · exact (writeBytes_nil _ _).symm

theorem initBlock_user (hraw : raw ≠ 0) :
    (initBlock m raw requested alignment footer allocId tag canary tid).1 =
      userAddress raw alignment := by
  unfold initBlock
  rw [if_neg hraw]

variable {total : Nat}

/-- `init_block` changes no byte outside the block. -/
theorem initBlock_frame
    (h : Placed raw (userAddress raw alignment) requested.toNat footer.toNat total) {a : Ptr}
    (ha : ¬ InSpan raw total a) :
    (initBlock m raw requested alignment footer allocId tag canary tid).2.1 a = m a := by
  have hlen := canaryLength_le canary footer
  have hbelow := h.below
  have habove := h.above
  have hspace := h.space
  have hfooter := h.toNat_footer
  have hback := h.toNat_backOffset
  rw [inSpan_iff hspace] at ha
  rw [initBlock_memory h.raw_ne_zero, writeBytes_of_not_inSpan, writeBytes_of_not_inSpan,
    writeBytes_of_not_inSpan]
  · rw [length_encode, inSpan_iff (by omega)]
    omega
  · rw [length_leBytes, inSpan_iff (by omega)]
    omega
  · rw [length_redZone, inSpan_iff (by omega)]
    omega

theorem initBlock_header
    (h : Placed raw (userAddress raw alignment) requested.toNat footer.toNat total) :
    HeaderIntact (initBlock m raw requested alignment footer allocId tag canary tid).2.1 raw
      (userAddress raw alignment) requested canary := by
  have hlen := canaryLength_le canary footer
  have hbelow := h.below
  have habove := h.above
  have hspace := h.space
  have hfooter := h.toNat_footer
  have hback := h.toNat_backOffset
  have hheader := headerIntact_encode m raw
    (initHeader raw requested alignment footer allocId tag canary tid) rfl
  have huser : raw + (initHeader raw requested alignment footer allocId tag canary tid).userOffset =
      userAddress raw alignment := add_sub_cancel raw _
  rw [huser] at hheader
  rw [initBlock_memory h.raw_ne_zero]
  refine hheader.congr fun i hi => ?_
  have haddr := h.toNat_header hi
  rw [writeBytes_of_not_inSpan, writeBytes_of_not_inSpan]
  · rw [length_leBytes, inSpan_iff (by omega)]
    omega
  · rw [length_redZone, inSpan_iff (by omega)]
    omega

theorem initBlock_footer
    (h : Placed raw (userAddress raw alignment) requested.toNat footer.toNat total) :
    FooterIntact (initBlock m raw requested alignment footer allocId tag canary tid).2.1
      (userAddress raw alignment) requested (canaryLength canary footer) := by
  have hlen := canaryLength_le canary footer
  have habove := h.above
  have hspace := h.space
  have hfooter := h.toNat_footer
  have hread := @readBytes_writeBytes_inside 64
    (writeBytes (writeBytes m raw
      (initHeader raw requested alignment footer allocId tag canary tid).encode)
      (userAddress raw alignment - backOffsetSize)
      (leBytes 4 (userAddress raw alignment - raw).toNat))
    (userAddress raw alignment + requested) (redZone canaryFooterMagic (canaryLength canary footer))
    0 (canaryLength canary footer) (by rw [length_redZone]; omega) (by rw [length_redZone]; omega)
  rw [show userAddress raw alignment + requested + BitVec.ofNat 64 0 =
    userAddress raw alignment + requested from BitVec.add_zero _, List.drop_zero,
    List.take_of_length_le (by rw [length_redZone])] at hread
  rw [FooterIntact, initBlock_memory h.raw_ne_zero]
  exact hread

end Init

/-! ## `verify_canary` on an intact header -/

section Release

variable {m : Memory} {raw user : Ptr} {requested footerSize : Word} {canary : Bool}
  {footer total : Nat}

theorem HeaderIntact.user_eq (h : HeaderIntact m raw user requested canary) :
    raw + userOffsetOf m raw = user := by
  rw [h.userOffset]
  exact add_sub_cancel raw user

theorem magic_ne_freed : canaryHeaderMagic ≠ canaryFreedMagic := by decide

/-- With an intact header the verdict is about the red zone alone. -/
theorem verifyCanary_verdict (h : HeaderIntact m raw user requested canary) (hraw : raw ≠ 0) :
    (verifyCanary m raw footerSize).1 =
      if FooterIntact m user requested (canaryLength canary footerSize) then .none
      else .footerCorrupted := by
  unfold verifyCanary
  rw [if_neg hraw, h.magic, if_neg magic_ne_freed, if_neg (not_not_intro rfl), h.hasCanary,
    h.user_eq, h.requestedSize]
  unfold canaryLength
  split
  · exact verifyFooter_footerChunks m (user + requested) footerSize.toNat
  · rfl

theorem verifyCanary_inside (h : HeaderIntact m raw user requested canary)
    (hp : Placed raw user requested.toNat footer total)
    (hfooter : canaryLength canary footerSize ≤ footer) {a : Access}
    (ha : a ∈ (verifyCanary m raw footerSize).2) : a.Inside raw total := by
  have hmagic := hp.magic_inside
  have hcanary : Access.Inside raw total (hasCanaryField raw) :=
    @Placed.field_inside _ _ _ _ _ hp 56 1 (by decide)
  have hoffset : Access.Inside raw total (userOffsetField raw) :=
    @Placed.field_inside _ _ _ _ _ hp 32 8 (by decide)
  have hsize : Access.Inside raw total (requestedSizeField raw) :=
    @Placed.field_inside _ _ _ _ _ hp 16 8 (by decide)
  unfold verifyCanary at ha
  rw [if_neg hp.raw_ne_zero, h.magic, if_neg magic_ne_freed, if_neg (not_not_intro rfl),
    h.hasCanary, h.user_eq, h.requestedSize] at ha
  unfold canaryLength at hfooter
  split at ha
  · rename_i hlong
    rw [if_pos hlong] at hfooter
    rcases List.mem_append.mp ha with hfield | hpiece
    · simp only [List.mem_cons, List.not_mem_nil, or_false] at hfield
      rcases hfield with rfl | rfl | rfl | rfl <;> assumption
    · obtain ⟨c, hc, rfl⟩ := verifyFooter_reads hpiece
      exact hp.footer_inside hfooter hc
  · simp only [List.mem_cons, List.not_mem_nil, or_false] at ha
    rcases ha with rfl | rfl <;> assumption

/-- A recognised header has the live magic number and starts below its user pointer. -/
theorem getHeaderFromUserPtr_spec (h : getHeaderFromUserPtr m user ≠ 0) :
    magicOf m (getHeaderFromUserPtr m user) = canaryHeaderMagic ∧
      getHeaderFromUserPtr m user ≠ user := by
  unfold getHeaderFromUserPtr at *
  dsimp only at *
  split at h
  · exact absurd rfl h
  rename_i hnull
  split at h
  · exact absurd rfl h
  rename_i hlow
  split at h
  · exact absurd rfl h
  rename_i hrange
  split at h
  · rename_i hmagic
    split at h
    · rename_i hoffset
      rw [if_neg hnull, if_neg hlow, if_neg hrange, if_pos hmagic, if_pos hoffset]
      refine ⟨hmagic, fun heq => hrange (Or.inl ?_)⟩
      rw [sub_eq_self.mp heq]
      decide
    · exact absurd rfl h
  · exact absurd rfl h

/-! ## `poison_block` on an intact header -/

/-- The header fields after the magic number has been overwritten. -/
theorem poison_fields (m : Memory) (raw : Ptr) :
    userOffsetOf (writeBytes m raw (leBytes 8 canaryFreedMagic.toNat)) raw = userOffsetOf m raw ∧
    requestedSizeOf (writeBytes m raw (leBytes 8 canaryFreedMagic.toNat)) raw =
      requestedSizeOf m raw ∧
    hasCanaryOf (writeBytes m raw (leBytes 8 canaryFreedMagic.toNat)) raw = hasCanaryOf m raw := by
  apply fields_congr
  intro i h8 h64
  apply writeBytes_of_not_inSpan
  rw [InSpan, add_ofNat_sub_toNat raw (by omega), length_leBytes]
  omega

/-- The header fields after the back offset has been cleared. -/
theorem poison_fields_back (m : Memory) (hp : Placed raw user requested.toNat footer total) :
    userOffsetOf (writeBytes m (user - backOffsetSize) (leBytes 4 0)) raw = userOffsetOf m raw ∧
    requestedSizeOf (writeBytes m (user - backOffsetSize) (leBytes 4 0)) raw =
      requestedSizeOf m raw ∧
    hasCanaryOf (writeBytes m (user - backOffsetSize) (leBytes 4 0)) raw = hasCanaryOf m raw := by
  have hbelow := hp.below
  have habove := hp.above
  have hspace := hp.space
  have hback := hp.toNat_backOffset
  apply fields_congr
  intro i _ h64
  have haddr := hp.toNat_header h64
  apply writeBytes_of_not_inSpan
  rw [length_leBytes, inSpan_iff (by omega)]
  omega

/-- The memory that `poison_block` leaves. -/
theorem poisonBlock_memory (h : HeaderIntact m raw user requested canary)
    (hp : Placed raw user requested.toNat footer total) :
    (poisonBlock m raw footerSize).1 =
      writeBytes (writeBytes (writeBytes (writeBytes m raw (leBytes 8 canaryFreedMagic.toNat))
        (user - backOffsetSize) (leBytes 4 0)) (user + requested)
        (redZone canaryFreedMagic (canaryLength canary footerSize))) (raw + 32) (leBytes 8 0) := by
  have hbelow := hp.below
  have habove := hp.above
  have hspace := hp.space
  have hback := hp.toNat_backOffset
  obtain ⟨hoffset, hsize, hcanary⟩ := poison_fields m raw
  have hoffset' : userOffsetOf (writeBytes m raw (leBytes 8 canaryFreedMagic.toNat)) raw ≥
      headerSize + backOffsetSize := by
    rw [hoffset, h.userOffset, ge_iff_le, headerSize_add_backOffsetSize, BitVec.le_def,
      toNat_sub_of_le (by omega)]
    change 68 ≤ _
    omega
  have huser : raw + userOffsetOf (writeBytes m raw (leBytes 8 canaryFreedMagic.toNat)) raw =
      user := by rw [hoffset, h.user_eq]
  obtain ⟨_, hsize', hcanary'⟩ :=
    poison_fields_back (writeBytes m raw (leBytes 8 canaryFreedMagic.toNat)) hp
  unfold poisonBlock
  rw [if_neg hp.raw_ne_zero]
  dsimp only
  rw [if_pos hoffset']
  unfold poisonPayloadEnds
  rw [huser]
  dsimp only
  rw [hcanary', hcanary, h.hasCanary, hsize', hsize, h.requestedSize]
  unfold canaryLength
  split
  · rw [applyStores_footerStores]
  · rw [show redZone canaryFreedMagic 0 = [] from rfl, writeBytes_nil]

/-- `poison_block` changes no byte outside the block. -/
theorem poisonBlock_frame (h : HeaderIntact m raw user requested canary)
    (hp : Placed raw user requested.toNat footer total)
    (hfooter : canaryLength canary footerSize ≤ footer) {a : Ptr} (ha : ¬ InSpan raw total a) :
    (poisonBlock m raw footerSize).1 a = m a := by
  have hbelow := hp.below
  have habove := hp.above
  have hspace := hp.space
  have hback := hp.toNat_backOffset
  have hend := hp.toNat_footer
  have hoffset : (raw + 32).toNat = raw.toNat + 32 := toNat_add_ofNat (i := 32) (by omega)
  rw [inSpan_iff hspace] at ha
  rw [poisonBlock_memory h hp, writeBytes_of_not_inSpan, writeBytes_of_not_inSpan,
    writeBytes_of_not_inSpan, writeBytes_of_not_inSpan]
  · rw [length_leBytes, inSpan_iff (by omega)]
    omega
  · rw [length_leBytes, inSpan_iff (by omega)]
    omega
  · rw [length_redZone, inSpan_iff (by omega)]
    omega
  · rw [length_leBytes, inSpan_iff (by omega)]
    omega

theorem poisonBlock_inside (h : HeaderIntact m raw user requested canary)
    (hp : Placed raw user requested.toNat footer total)
    (hfooter : canaryLength canary footerSize ≤ footer) {a : Access}
    (ha : a ∈ (poisonBlock m raw footerSize).2) : a.Inside raw total := by
  have hmagic := hp.magic_inside
  have hcanaryField : Access.Inside raw total (hasCanaryField raw) :=
    @Placed.field_inside _ _ _ _ _ hp 56 1 (by decide)
  have hoffsetField : Access.Inside raw total (userOffsetField raw) :=
    @Placed.field_inside _ _ _ _ _ hp 32 8 (by decide)
  have hsizeField : Access.Inside raw total (requestedSizeField raw) :=
    @Placed.field_inside _ _ _ _ _ hp 16 8 (by decide)
  have hbackField : Access.Inside raw total (storeAccess ⟨user - backOffsetSize, leBytes 4 0⟩) :=
    hp.backOffset_inside
  obtain ⟨hoffset, hsize, hcanary⟩ := poison_fields m raw
  obtain ⟨_, hsize', hcanary'⟩ :=
    poison_fields_back (writeBytes m raw (leBytes 8 canaryFreedMagic.toNat)) hp
  have huser : raw + userOffsetOf (writeBytes m raw (leBytes 8 canaryFreedMagic.toNat)) raw =
      user := by rw [hoffset, h.user_eq]
  unfold poisonBlock at ha
  rw [if_neg hp.raw_ne_zero] at ha
  dsimp only at ha
  rcases List.mem_append.mp ha with hrest | hlast
  · rcases List.mem_append.mp hrest with hfirst | hends
    · simp only [List.mem_cons, List.not_mem_nil, or_false] at hfirst
      rcases hfirst with rfl | rfl <;> assumption
    · split at hends
      · unfold poisonPayloadEnds at hends
        rw [huser] at hends
        dsimp only at hends
        rw [hcanary', hcanary, h.hasCanary, hsize', hsize, h.requestedSize] at hends
        unfold canaryLength at hfooter
        split at hends
        · rename_i hlong
          rw [if_pos hlong] at hfooter
          rcases List.mem_append.mp hends with hfield | hpiece
          · simp only [List.mem_cons, List.not_mem_nil, or_false] at hfield
            rcases hfield with rfl | rfl | rfl <;> assumption
          · obtain ⟨s, hs, rfl⟩ := List.mem_map.mp hpiece
            obtain ⟨c, hc, rfl⟩ := List.mem_map.mp hs
            rw [storeAccess_chunkStore hc]
            exact hp.footer_inside hfooter hc
        · simp only [List.mem_cons, List.not_mem_nil, or_false] at hends
          rcases hends with rfl | rfl <;> assumption
      · cases hends
  · rw [List.mem_singleton] at hlast
    rw [hlast]
    exact hoffsetField

end Release

end MemSentry.Core
