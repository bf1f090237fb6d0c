import MemSentry.Core.CorruptedHeaders
import MemSentry.Manager.FalseAlarm

/-!
# Releasing a block that has been overwritten

A tracked block is released through its record, and the record is right whatever the
client has done to the block. But `verify_canary` and `poison_block` read the sizes and
the offset from the header. `underrun_reported_iff` says which writes below the payload
are noticed: those that reach the magic number, at the far end of the header, and those
that move the footer. `inspection_inside_iff` says when the inspection of an overwritten
block stays in the block.
-/

namespace MemSentry

open ByteMemory MemSentry.Core Function World Transition

/-- The call has reported a corruption at the pointer. -/
def ReportsCorruption (w : World) (p : Ptr) : Prop :=
  ∃ kind, kind ≠ .none ∧ .alert p kind ∈ w.log

section Release

variable {w : World} {tid : ThreadId} {p : Ptr} {r : AllocationRecord}

theorem reportsCorruption_iff (hguard : w.guardActive tid = false)
    (hfind : w.tracker.find p = some r) :
    ReportsCorruption (w.step (.trackFree tid p)) p ↔
      (verifyCanary w.mem r.rawPtr w.config.footerSize).1 ≠ .none := by
  unfold ReportsCorruption
  rw [trackFree_log hguard hfind]
  by_cases hverdict : (verifyCanary w.mem r.rawPtr w.config.footerSize).1 = .none
  · rw [if_pos hverdict]
    simp [hverdict]
  · rw [if_neg hverdict]
    refine iff_of_true ⟨_, hverdict, ?_⟩ hverdict
    simp

/-- The two inspections of a release. -/
theorem inspections_iff (hguard : w.guardActive tid = false) (hfind : w.tracker.find p = some r)
    (P : Access → Prop) :
    (∀ accesses, .inspect accesses ∈ (w.step (.trackFree tid p)).log → ∀ a ∈ accesses, P a) ↔
      (∀ a ∈ (verifyCanary w.mem r.rawPtr w.config.footerSize).2, P a) ∧
        ((verifyCanary w.mem r.rawPtr w.config.footerSize).1 = .none →
          ∀ a ∈ (poisonBlock w.mem r.rawPtr w.config.footerSize).2, P a) := by
  rw [trackFree_log hguard hfind]
  by_cases hverdict : (verifyCanary w.mem r.rawPtr w.config.footerSize).1 = .none
  · rw [if_pos hverdict]
    simp [hverdict]
  · rw [if_neg hverdict]
    simp [hverdict]

end Release

/-! ## Underruns -/

/-- The memory after a client has written `bytes` just below `p`. -/
def underrun (m : Memory) (p : Ptr) (bytes : List Byte) : Memory :=
  writeBytes m (p - BitVec.ofNat 64 bytes.length) bytes

/-- The write stays in the block and changes a byte of the header or of the back offset. -/
structure Underrun (m : Memory) (p : Ptr) (r : AllocationRecord) (bytes : List Byte) : Prop where
  inside : bytes.length ≤ (p - r.rawPtr).toNat
  changes : ∃ a, (InSpan r.rawPtr 64 a ∨ InSpan (p - backOffsetSize) 4 a) ∧
    underrun m p bytes a ≠ m a

/-- After the write the magic number is no longer the live one, or the header says that
there is a footer where the bytes are not the red zone of the length in force. -/
def UnderrunNoticed (after : Memory) (r : AllocationRecord) (footerSize : Word) : Prop :=
  magicOf after r.rawPtr ≠ canaryHeaderMagic ∨
    (ComparesFooter after r.rawPtr footerSize ∧ ¬ FooterMatches after r.rawPtr footerSize.toNat)

/-- The write has changed the magic number, or it has changed whether a footer is compared or
where it is looked for, and what is compared now is not the red zone. -/
def UnderrunBreaks (before after : Memory) (r : AllocationRecord) (footerSize : Word) : Prop :=
  magicOf after r.rawPtr ≠ magicOf before r.rawPtr ∨
    (hasCanaryOf after r.rawPtr ≠ hasCanaryOf before r.rawPtr ∨
      footerOf after r.rawPtr ≠ footerOf before r.rawPtr) ∧
    ComparesFooter after r.rawPtr footerSize ∧ ¬ FooterMatches after r.rawPtr footerSize.toNat

section Underruns

variable {m : Memory} {p : Ptr} {r : AllocationRecord} {footerSize : Word}

theorem underrunNoticed_iff (hraw : r.rawPtr ≠ 0) :
    (verifyCanary m r.rawPtr footerSize).1 ≠ .none ↔ UnderrunNoticed m r footerSize := by
  have hnone := @verifyCanary_none_iff m r.rawPtr footerSize hraw
  unfold UnderrunNoticed
  rw [Ne, hnone, not_and_or, Classical.not_imp]

/-- Where a write that stays in the block begins. -/
theorem underrun_start {bytes : List Byte}
    (hp : Placed r.rawPtr p r.requestedSize.toNat r.footerSize.toNat r.totalSize.toNat)
    (hin : bytes.length ≤ (p - r.rawPtr).toNat) :
    (p - BitVec.ofNat 64 bytes.length).toNat = p.toNat - bytes.length ∧
      bytes.length + r.rawPtr.toNat ≤ p.toNat := by
  have hbelow := hp.below
  have hspace := p.isLt
  rw [toNat_sub_of_le (by omega)] at hin
  have hlen : (BitVec.ofNat 64 bytes.length).toNat = bytes.length := by
    rw [BitVec.toNat_ofNat, Nat.mod_eq_of_lt (by omega)]
  exact ⟨by rw [toNat_sub_of_le (by omega), hlen], by omega⟩

/-- It leaves the footer alone. -/
theorem underrun_below_footer {bytes : List Byte}
    (hp : Placed r.rawPtr p r.requestedSize.toNat r.footerSize.toNat r.totalSize.toNat)
    (hin : bytes.length ≤ (p - r.rawPtr).toNat) :
    ∀ i < r.footerSize.toNat, underrun m p bytes (p + r.requestedSize + BitVec.ofNat 64 i) =
      m (p + r.requestedSize + BitVec.ofNat 64 i) := by
  obtain ⟨hstart, hinside⟩ := underrun_start hp hin
  have hspace := p.isLt
  intro i hi
  apply writeBytes_of_not_inSpan
  rw [inSpan_iff (by omega), hp.toNat_footer_add hi]
  omega

/-- A write that stops above the header leaves it alone. -/
theorem underrun_above_header {bytes : List Byte}
    (hp : Placed r.rawPtr p r.requestedSize.toNat r.footerSize.toNat r.totalSize.toNat)
    (hshort : bytes.length + 64 ≤ (p - r.rawPtr).toNat) :
    ∀ i < 64, underrun m p bytes (r.rawPtr + BitVec.ofNat 64 i) =
      m (r.rawPtr + BitVec.ofNat 64 i) := by
  obtain ⟨hstart, hinside⟩ := underrun_start hp (Nat.le_of_add_right_le hshort)
  have hbelow := hp.below
  have hspace := p.isLt
  rw [toNat_sub_of_le (by omega)] at hshort
  intro i hi
  apply writeBytes_of_not_inSpan
  rw [inSpan_iff (by omega), hp.toNat_header hi]
  omega

/-- Such a write is not noticed: the back offset is compared with nothing. -/
theorem underrun_unnoticed {bytes : List Byte}
    (hp : Placed r.rawPtr p r.requestedSize.toNat r.footerSize.toNat r.totalSize.toNat)
    (hintact : intactBlock.holds m p r)
    (hfooter : canaryLength (hasCanaryOf m r.rawPtr) footerSize ≤ laidOutLength m r)
    (hshort : bytes.length + 64 ≤ (p - r.rawPtr).toNat) :
    (verifyCanary (underrun m p bytes) r.rawPtr footerSize).1 = .none := by
  have hheader := underrun_above_header (m := m) hp hshort
  have hzone := underrun_below_footer (m := m) hp (Nat.le_of_add_right_le hshort)
  have hlaid := laidOutLength_le m r
  have hheader' := hintact.1.congr hheader
  have hzone' : FooterIntact (underrun m p bytes) p r.requestedSize
      (canaryLength (hasCanaryOf m r.rawPtr) footerSize) :=
    (hintact.2.of_le hfooter).congr fun i hi => hzone i (by omega)
  rw [verifyCanary_verdict hheader' hp.raw_ne_zero, if_pos hzone']

/-- On an intact block a write is noticed by what it has changed. -/
theorem underrunNoticed_iff_breaks {bytes : List Byte}
    (hp : Placed r.rawPtr p r.requestedSize.toNat r.footerSize.toNat r.totalSize.toNat)
    (hintact : intactBlock.holds m p r)
    (hfooter : canaryLength (hasCanaryOf m r.rawPtr) footerSize ≤ laidOutLength m r)
    (hin : bytes.length ≤ (p - r.rawPtr).toNat) :
    UnderrunNoticed (underrun m p bytes) r footerSize ↔
      UnderrunBreaks m (underrun m p bytes) r footerSize := by
  unfold UnderrunNoticed UnderrunBreaks
  rw [hintact.1.magic]
  refine or_congr_right ⟨fun ⟨hcompares, hdiffers⟩ => ⟨?_, hcompares, hdiffers⟩, And.right⟩
  by_contra hsame
  obtain ⟨hcanary, hplace⟩ := not_or.mp hsame
  rw [not_not] at hcanary hplace
  -- the footer is where it was, and all of it that is compared was laid out
  have hlength : canaryLength (hasCanaryOf m r.rawPtr) footerSize = footerSize.toNat :=
    if_pos (hcanary ▸ hcompares)
  have hlaid := laidOutLength_le m r
  have hzone := (hintact.2.of_le (hlength ▸ hfooter)).congr fun i hi =>
    underrun_below_footer (m := m) hp hin i (by omega)
  apply hdiffers
  unfold FooterMatches
  rw [hplace, footerOf, hintact.1.user_eq, hintact.1.requestedSize]
  exact hzone

end Underruns

/-- Whatever is written anywhere: the release of a tracked block reports a corruption exactly
when what is then in the memory is noticed. -/
theorem overwritten_reported_iff {w : World} {tid : ThreadId} {p : Ptr} {r : AllocationRecord}
    {mem : Memory} (hfind : w.tracker.find p = some r) (hraw : r.rawPtr ≠ 0)
    (hguard : w.guardActive tid = false) :
    ReportsCorruption ((w.step (.store mem)).step (.trackFree tid p)) p ↔
      UnderrunNoticed mem r w.config.footerSize :=
  (@reportsCorruption_iff (w.step (.store mem)) tid p r hguard hfind).trans
    (underrunNoticed_iff hraw)

/-- For every tracked block and every write that ends just below the payload, stays in the
block and changes the header or the back offset: the release reports a corruption exactly
when the write leaves no live magic number or a header that points to a footer that does
not match. On an intact block, unless the footer in force is longer than the one laid out,
that is so exactly when the write has changed the magic number or the fields that lead to the
footer, and a write that stops above the header is never reported. -/
theorem underrun_reported_iff {w : World} {tid : ThreadId} {p : Ptr} {r : AllocationRecord}
    {bytes : List Byte} (hfind : w.tracker.find p = some r) (hblock : TrackedBlock w.heap p r)
    (hguard : w.guardActive tid = false) (hunder : Underrun w.mem p r bytes) :
    (ReportsCorruption ((w.step (.store (underrun w.mem p bytes))).step (.trackFree tid p)) p ↔
      UnderrunNoticed (underrun w.mem p bytes) r w.config.footerSize) ∧
    (intactBlock.holds w.mem p r → checkedLength w r ≤ laidOutLength w.mem r →
      (ReportsCorruption ((w.step (.store (underrun w.mem p bytes))).step (.trackFree tid p)) p ↔
        UnderrunBreaks w.mem (underrun w.mem p bytes) r w.config.footerSize) ∧
      (bytes.length + 64 ≤ (p - r.rawPtr).toNat → 0 < bytes.length ∧ ¬ ReportsCorruption
        ((w.step (.store (underrun w.mem p bytes))).step (.trackFree tid p)) p)) := by
  have hraw := hblock.placed.raw_ne_zero
  have hreports := @overwritten_reported_iff w tid p r (underrun w.mem p bytes) hfind hraw hguard
  refine ⟨hreports, fun hintact hfooter => ⟨?_, fun hshort => ⟨?_, ?_⟩⟩⟩
  · exact hreports.trans (underrunNoticed_iff_breaks hblock.placed hintact hfooter hunder.inside)
  · by_contra hzero
    obtain ⟨a, _, hchanged⟩ := hunder.changes
    have hnil : bytes = [] := List.eq_nil_of_length_eq_zero (Nat.eq_zero_of_not_pos hzero)
    rw [hnil, underrun, writeBytes_nil] at hchanged
    exact hchanged rfl
  · intro hreport
    exact (underrunNoticed_iff hraw).mpr (hreports.mp hreport)
      (underrun_unnoticed hblock.placed hintact hfooter hshort)

/-- A write over the whole header and the back offset. -/
theorem underrun_whole_header :
    ∃ (w : World) (p : Ptr) (r : AllocationRecord), w.tracker.find p = some r ∧
      ReportsCorruption ((w.step (.store (underrun w.mem p (List.replicate 80 0)))).step
        (.trackFree 1 p)) p := by
  obtain ⟨w, r, _, hhalf, hblock, hintact⟩ := first_block_intact
  have hread := @readBytes_writeBytes_inside 64 w.mem 0x10000 (List.replicate 80 0) 0 8
    (by decide) (by decide)
  have hzero : magicOf (underrun w.mem (userAddress 0x10000 16) (List.replicate 80 0)) r.rawPtr =
      0 := by
    rw [hhalf.rawPtr]
    exact loadWord_of_readBytes hread
  have hcleared : magicOf (underrun w.mem (userAddress 0x10000 16) (List.replicate 80 0))
      r.rawPtr ≠ canaryHeaderMagic := by
    rw [hzero]
    decide
  have hunder : Underrun w.mem (userAddress 0x10000 16) r (List.replicate 80 0) := by
    refine ⟨by rw [hhalf.rawPtr]; decide, ?_⟩
    by_contra hsame
    apply hcleared
    rw [← hintact.1.magic]
    apply loadWord_congr
    intro i hi
    by_contra hchanged
    refine hsame ⟨_, Or.inl ?_, hchanged⟩
    rw [InSpan, add_ofNat_sub_toNat _ (by omega)]
    omega
  exact ⟨w, _, r, hhalf.find, (underrun_reported_iff hhalf.find hblock hhalf.ready.guard
    hunder).1.mpr (Or.inl hcleared)⟩

/-- One byte written just below a payload of 16 bytes: the back offset is changed and
nothing is reported. -/
theorem underrun_of_one_byte :
    ∃ (cs : List Call) (w : World) (p : Ptr) (r : AllocationRecord) (bytes : List Byte),
      Run (managerSystem PayloadWrites ReleaseSound) (World.start fun _ => 0) cs w ∧
        w.fault = false ∧ w.tracker.find p = some r ∧ w.guardActive 1 = false ∧
        Underrun w.mem p r bytes ∧ bytes.length = 1 ∧
        ¬ ReportsCorruption
          ((w.step (.store (underrun w.mem p bytes))).step (.trackFree 1 p)) p := by
  obtain ⟨w, r, hrun, hhalf, hblock, hintact⟩ := first_block_intact
  have hoffset : (userAddress 0x10000 16 - r.rawPtr).toNat = 80 := by
    rw [hhalf.rawPtr]
    decide
  refine ⟨_, _, userAddress 0x10000 16, r,
    [w.mem (userAddress 0x10000 16 - 1) + 1], hrun,
    hhalf.ready.defined, hhalf.find, hhalf.ready.guard,
    ⟨?_, userAddress 0x10000 16 - 1, Or.inr (by decide), ?_⟩, rfl, fun hreport => ?_⟩
  · rw [hoffset, List.length_singleton]
    decide
  · have hwritten := @writeBytes_at 64 w.mem
      (userAddress 0x10000 16 - 1)
      [w.mem (userAddress 0x10000 16 - 1) + 1] 0
      (Nat.lt_succ_self 0) (by rw [List.length_singleton]; decide)
    rw [show userAddress 0x10000 16 - 1 + BitVec.ofNat 64 0 = userAddress 0x10000 16 - 1 from
      BitVec.add_zero _] at hwritten
    rw [underrun, List.length_singleton]
    intro hsame
    have hbyte := hwritten.symm.trans hsame
    simp at hbyte
  · have hlaid : checkedLength w r ≤
        laidOutLength w.mem r := by
      unfold checkedLength laidOutLength
      rw [hhalf.ready.config, hhalf.footerSize]
      exact Nat.le_refl _
    refine (@reportsCorruption_iff (w.step (.store _)) 1 _ r hhalf.ready.guard hhalf.find).mp
      hreport (underrun_unnoticed hblock.placed hintact hlaid ?_)
    rw [hoffset, List.length_singleton]
    decide

/-! ## Inspections -/

/-- For every tracked block and all contents of the memory: the release inspects only
addresses of the block exactly when the header keeps it inside. -/
theorem inspection_inside_iff {w : World} {tid : ThreadId} {p : Ptr} {r : AllocationRecord}
    (hfind : w.tracker.find p = some r) (hblock : TrackedBlock w.heap p r)
    (hguard : w.guardActive tid = false) (mem : Memory) :
    (∀ accesses, .inspect accesses ∈ ((w.step (.store mem)).step (.trackFree tid p)).log →
      ∀ a ∈ accesses, a.Inside r.rawPtr r.totalSize.toNat) ↔
      HeaderKeepsInside mem r.rawPtr r.totalSize.toNat w.config.footerSize := by
  have hbelow := hblock.placed.below
  have habove := hblock.placed.above
  have hinspections := @inspections_iff (w.step (.store mem)) tid p r hguard hfind
    (Access.Inside r.rawPtr r.totalSize.toNat)
  rw [hinspections]
  exact headerKeepsInside_iff hblock.placed.raw_ne_zero hblock.placed.space (by omega)

/-- The magic number overwritten with zeros, and arbitrary bytes behind it. -/
theorem inspection_without_magic :
    ∃ (w : World) (p : Ptr) (r : AllocationRecord) (mem : Memory), w.tracker.find p = some r ∧
      ∀ accesses, .inspect accesses ∈ ((w.step (.store mem)).step (.trackFree 1 p)).log →
        ∀ a ∈ accesses, a.Inside r.rawPtr r.totalSize.toNat := by
  obtain ⟨w, r, _, hhalf, hblock, _⟩ := first_block_intact
  refine ⟨_, _, r, fun _ => 0, hhalf.find, (inspection_inside_iff hhalf.find hblock
    hhalf.ready.guard fun _ => 0).mpr fun hmagic => ?_⟩
  have hzero : magicOf (fun _ => 0) r.rawPtr = 0 := loadWord_of_readBytes rfl
  rw [hzero] at hmagic
  exact absurd hmagic (by decide)

/-- The header of a block of 116 bytes, with a payload size of 4096 written over the true
one. -/
def stretchedHeader : BlockHeader :=
  { initHeader 0x10000 16 16 16 1 0 true 1 with requestedSize := 0x1000 }

/-- With that header the comparison reads behind the block. -/
theorem inspection_leaves_block :
    ∃ (cs : List Call) (w : World) (p : Ptr) (r : AllocationRecord) (mem : Memory),
      Run (managerSystem PayloadWrites ReleaseSound) (World.start fun _ => 0) cs w ∧
        w.fault = false ∧ w.tracker.find p = some r ∧ w.guardActive 1 = false ∧
        r.footerSize = w.config.footerSize ∧
        (∀ a, ¬ InSpan r.rawPtr r.totalSize.toNat a → mem a = w.mem a) ∧
        ¬ ∀ accesses, .inspect accesses ∈ ((w.step (.store mem)).step (.trackFree 1 p)).log →
          ∀ a ∈ accesses, a.Inside r.rawPtr r.totalSize.toNat := by
  obtain ⟨w, r, hrun, hhalf, hblock, _⟩ := first_block_intact
  refine ⟨_, _, userAddress 0x10000 16, r,
    writeBytes w.mem r.rawPtr stretchedHeader.encode, hrun,
    hhalf.ready.defined, hhalf.find, hhalf.ready.guard, ?_, fun a ha => ?_, fun hinside => ?_⟩
  · rw [hhalf.footerSize, hhalf.ready.config]
    rfl
  · apply writeBytes_of_not_inSpan
    rw [length_encode]
    intro hin
    apply ha
    rw [hhalf.totalSize]
    exact Nat.lt_trans hin (by decide)
  · have hheader := headerIntact_encode w.mem r.rawPtr
      stretchedHeader rfl
    obtain ⟨hverify, _⟩ := (@inspections_iff (w.step (.store _)) 1 _ r hhalf.ready.guard
      hhalf.find _).mp hinside
    have hsize : w.config.footerSize = 16 := by
      rw [hhalf.ready.config]
      rfl
    have hcompares : ComparesFooter (writeBytes w.mem r.rawPtr stretchedHeader.encode) r.rawPtr 16 :=
      ⟨hheader.hasCanary, by decide⟩
    have hfooter : footerOf (writeBytes w.mem r.rawPtr stretchedHeader.encode) r.rawPtr =
        r.rawPtr + 80 + 0x1000 := by
      rw [footerOf, hheader.user_eq, hheader.requestedSize]
      rfl
    have hread := (@mem_verifyFooter (writeBytes w.mem r.rawPtr stretchedHeader.encode) r.rawPtr 16
      _).mpr ⟨(0, 8), by decide, rfl, rfl⟩
    have hpiece : (piece (footerOf (writeBytes w.mem r.rawPtr stretchedHeader.encode) r.rawPtr)
        (0, 8)).Inside r.rawPtr r.totalSize.toNat := by
      apply hverify
      change _ ∈ (verifyCanary (writeBytes w.mem r.rawPtr stretchedHeader.encode) r.rawPtr
        w.config.footerSize).2
      rw [hsize, verifyCanary_of_magic hblock.placed.raw_ne_zero hheader.magic, if_pos hcompares]
      exact List.mem_append_right _ hread
    rw [hfooter, hhalf.rawPtr, hhalf.totalSize] at hpiece
    exact absurd (hpiece 0 (Nat.lt_of_sub_eq_succ rfl)) (by decide)

end MemSentry
