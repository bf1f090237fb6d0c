import MemSentry.Core.Header

/-!
# The footer red zone

The footer loops of `init_block`, `verify_canary` and `poison_block` work in pieces of
eight bytes. Here they are shown to be about one stretch of bytes: `redZone magic n`
repeats the eight bytes of the magic number for `n` bytes. Each loop is followed round by
round from a position `i`, with `r = footer_size - i` bytes to go.
-/

namespace MemSentry.Core

open ByteMemory

/-- Byte `j` of a red zone. -/
def redZoneByte (magic : Word) (j : Nat) : Byte := BitVec.ofNat 8 (magic.toNat / 256 ^ (j % 8))

/-- The first `n` bytes of a red zone. -/
def redZone (magic : Word) (n : Nat) : List Byte := (List.range n).map (redZoneByte magic)

@[simp] theorem length_redZone (magic : Word) (n : Nat) : (redZone magic n).length = n := by
  simp [redZone]

theorem leBytes_eq_map (n v : Nat) :
    leBytes n v = (List.range n).map fun j => BitVec.ofNat 8 (v / 256 ^ j) := by
  induction n generalizing v with
  | zero => rfl
  | succ n ih =>
    rw [leBytes, ih, List.range_succ_eq_map, List.map_cons, List.map_map, Nat.pow_zero,
      Nat.div_one]
    congr 1
    refine List.map_congr_left fun j _ => ?_
    rw [Function.comp_apply, Nat.div_div_eq_div_mul, Nat.pow_succ, Nat.mul_comm (256 ^ j) 256]

/-- A piece of at most eight bytes. -/
theorem redZone_of_le {magic : Word} {n : Nat} (h : n ≤ 8) :
    redZone magic n = (leBytes 8 magic.toNat).take n := by
  rw [leBytes_eq_map, ← List.map_take, List.take_range, Nat.min_eq_left h, redZone]
  refine List.map_congr_left fun j hj => ?_
  rw [redZoneByte, Nat.mod_eq_of_lt (by have := List.mem_range.mp hj; omega)]

/-- Eight bytes further the red zone starts over. -/
theorem redZone_add (magic : Word) (n : Nat) :
    redZone magic (8 + n) = redZone magic 8 ++ redZone magic n := by
  unfold redZone
  rw [List.range_add, List.map_append, List.map_map]
  congr 1
  refine List.map_congr_left fun j _ => ?_
  rw [Function.comp_apply, redZoneByte, redZoneByte, Nat.add_mod_left]

/-! ## One round of a footer loop -/

/-- The first round from `i` covers `min 8 r` bytes and leaves the rest to the others. -/
theorem redZone_round (magic : Word) (r : Nat) :
    redZone magic r = (leBytes 8 magic.toNat).take (min 8 r) ++ redZone magic (r - 8) := by
  rw [← redZone_of_le (Nat.min_le_left 8 r)]
  rcases Nat.le_total r 8 with h | h
  · rw [Nat.min_eq_right h, Nat.sub_eq_zero_of_le h]
    exact (List.append_nil _).symm
  · rw [Nat.min_eq_left h, ← redZone_add, Nat.add_sub_cancel' h]

theorem length_chunkStore (footerPtr : Ptr) (magic : Word) (i r : Nat) :
    (chunkStore footerPtr magic (i, min 8 r)).bytes.length = min 8 r := by
  simp only [chunkStore, List.length_take, length_leBytes]
  omega

/-! ## Writing the footer -/

theorem applyStores_chunksFrom (m : Memory) (footerPtr : Ptr) (magic : Word) {n count i : Nat}
    (hn : n ≤ 2 ^ 64) (hcount : count = (n - i + 7) / 8) :
    applyStores m ((footerChunksFrom n count i).map (chunkStore footerPtr magic)) =
      writeBytes m (footerPtr + BitVec.ofNat 64 i) (redZone magic (n - i)) := by
  induction count generalizing m i with
  | zero =>
    rw [show n - i = 0 by omega]
    exact (writeBytes_nil m _).symm
  | succ count ih =>
    have hlen := length_chunkStore footerPtr magic i (n - i)
    rw [footerChunksFrom, List.map_cons, applyStores_cons, ih _ (by omega),
      redZone_round magic (n - i), show n - (i + 8) = n - i - 8 by omega]
    rcases Nat.lt_or_ge (n - i) 8 with hlast | hfull
    · rw [show n - i - 8 = 0 by omega]
      simp only [redZone, List.range_zero, List.map_nil, writeBytes_nil, List.append_nil]
      rfl
    · have hfirst : (chunkStore footerPtr magic (i, min 8 (n - i))).bytes.length = 8 := by
        omega
      have hnext : footerPtr + BitVec.ofNat 64 (i + 8) = footerPtr + BitVec.ofNat 64 i +
          BitVec.ofNat 64 (chunkStore footerPtr magic (i, min 8 (n - i))).bytes.length := by
        rw [add_ofNat_add, hfirst]
      rw [hnext]
      refine writeBytes_writeBytes_adjacent ?_
      rw [hfirst, length_redZone]
      omega

/-- The footer loop writes a red zone. -/
theorem applyStores_footerStores (m : Memory) (footerPtr : Ptr) (magic footerSize : Word) :
    applyStores m (footerStores footerPtr magic footerSize.toNat) =
      writeBytes m footerPtr (redZone magic footerSize.toNat) := by
  have h := applyStores_chunksFrom m footerPtr magic (i := 0) (n := footerSize.toNat)
    (Nat.le_of_lt footerSize.isLt) rfl
  rwa [show footerPtr + BitVec.ofNat 64 0 = footerPtr from BitVec.add_zero footerPtr] at h

/-! ## Comparing the footer -/

theorem verifyFooter_chunksFrom (m : Memory) (footerPtr : Ptr) {n count i : Nat}
    (hcount : count = (n - i + 7) / 8) :
    (verifyFooter m footerPtr (footerChunksFrom n count i)).1 =
      if readBytes m (footerPtr + BitVec.ofNat 64 i) (n - i) =
        redZone canaryFooterMagic (n - i) then .none else .footerCorrupted := by
  induction count generalizing i with
  | zero =>
    rw [show n - i = 0 by omega]
    rfl
  | succ count ih =>
    have hround := redZone_round canaryFooterMagic (n - i)
    have hsplit : readBytes m (footerPtr + BitVec.ofNat 64 i) (n - i) =
        readBytes m (footerPtr + BitVec.ofNat 64 i) (min 8 (n - i)) ++
          readBytes m (footerPtr + BitVec.ofNat 64 (i + 8)) (n - i - 8) := by
      rcases Nat.lt_or_ge (n - i) 8 with hlast | hfull
      · rw [Nat.min_eq_right (by omega), show n - i - 8 = 0 by omega]
        exact (List.append_nil _).symm
      · rw [Nat.min_eq_left hfull, add_ofNat_add, ← readBytes_add,
          show 8 + (n - i - 8) = n - i by omega]
    have hlen : (readBytes m (footerPtr + BitVec.ofNat 64 i) (min 8 (n - i))).length =
        ((leBytes 8 canaryFooterMagic.toNat).take (min 8 (n - i))).length := by
      simp only [length_readBytes, List.length_take, length_leBytes]
      omega
    rw [hsplit, hround, footerChunksFrom, verifyFooter]
    by_cases hpiece : readBytes m (footerPtr + BitVec.ofNat 64 i) (min 8 (n - i)) =
        (leBytes 8 canaryFooterMagic.toNat).take (min 8 (n - i))
    · rw [if_neg (not_not_intro hpiece), ih (by omega), show n - (i + 8) = n - i - 8 by omega,
        hpiece]
      simp only [List.append_cancel_left_eq]
    · rw [if_pos hpiece, if_neg]
      intro happ
      exact hpiece (List.append_inj_left happ hlen)

/-- The comparison loop finds a corruption exactly when the footer is not a red zone. -/
theorem verifyFooter_footerChunks (m : Memory) (footerPtr : Ptr) (n : Nat) :
    (verifyFooter m footerPtr (footerChunks n)).1 =
      if readBytes m footerPtr n = redZone canaryFooterMagic n then .none
      else .footerCorrupted := by
  have h := verifyFooter_chunksFrom m footerPtr (n := n) (i := 0) rfl
  rwa [show footerPtr + BitVec.ofNat 64 0 = footerPtr from BitVec.add_zero footerPtr] at h

/-! ## The bytes a footer loop touches -/

/-- The rounds stay within the footer. -/
theorem mem_footerChunksFrom {n count i : Nat} {c : Nat × Nat} (hcount : count = (n - i + 7) / 8)
    (hc : c ∈ footerChunksFrom n count i) : c.2 ≤ 8 ∧ c.1 + c.2 ≤ n := by
  induction count generalizing i with
  | zero => cases hc
  | succ count ih =>
    rcases List.mem_cons.mp hc with rfl | hc
    · exact ⟨Nat.min_le_left _ _, by dsimp only; omega⟩
    · exact ih (by omega) hc

theorem mem_footerChunks {n : Nat} {c : Nat × Nat} (hc : c ∈ footerChunks n) :
    c.2 ≤ 8 ∧ c.1 + c.2 ≤ n :=
  mem_footerChunksFrom (show (n + 7) / 8 = (n - 0 + 7) / 8 from rfl) hc

theorem storeAccess_chunkStore {footerPtr : Ptr} {magic : Word} {n : Nat} {c : Nat × Nat}
    (hc : c ∈ footerChunks n) :
    storeAccess (chunkStore footerPtr magic c) = ⟨footerPtr + BitVec.ofNat 64 c.1, c.2⟩ := by
  have h8 := (mem_footerChunks hc).1
  have hlen : (chunkStore footerPtr magic c).bytes.length = c.2 := by
    rw [chunkStore, List.length_take, length_leBytes]
    omega
  rw [storeAccess, hlen]
  rfl

theorem verifyFooter_reads {m : Memory} {footerPtr : Ptr} {cs : List (Nat × Nat)} {a : Access}
    (ha : a ∈ (verifyFooter m footerPtr cs).2) :
    ∃ c ∈ cs, a = ⟨footerPtr + BitVec.ofNat 64 c.1, c.2⟩ := by
  induction cs with
  | nil => cases ha
  | cons c cs ih =>
    rw [verifyFooter] at ha
    dsimp only at ha
    split at ha
    · exact ⟨c, List.mem_cons_self, List.mem_singleton.mp ha⟩
    · rcases List.mem_cons.mp ha with rfl | ha
      · exact ⟨c, List.mem_cons_self, rfl⟩
      · obtain ⟨c', hc', rfl⟩ := ih ha
        exact ⟨c', List.mem_cons_of_mem _ hc', rfl⟩

/-- A piece of a footer that lies in a block lies in the block. -/
theorem chunk_inside {base footerPtr : Ptr} {size n : Nat} {c : Nat × Nat}
    (hspace : base.toNat + size ≤ 2 ^ 64) (hlow : base.toNat ≤ footerPtr.toNat)
    (hhigh : footerPtr.toNat + n ≤ base.toNat + size) (hc : c.1 + c.2 ≤ n) :
    Access.Inside base size ⟨footerPtr + BitVec.ofNat 64 c.1, c.2⟩ := by
  intro i hi
  have hi' : i < c.2 := hi
  have haddr : (footerPtr + BitVec.ofNat 64 (c.1 + i)).toNat = footerPtr.toNat + (c.1 + i) :=
    toNat_add_ofNat (by omega)
  rw [← add_ofNat_add, inSpan_iff hspace, haddr]
  omega

end MemSentry.Core
