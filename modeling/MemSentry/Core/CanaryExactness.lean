import MemSentry.Core.BlockContainment

/-!
# What the canary detects

`init_block` writes a footer, `verify_canary` compares it and `poison_block` overwrites
it, each with its own loop. `canaryExactness` puts the three together on one block: no
writes to the payload change the verdict, with an untouched header the verdict is about
every byte of the footer, and a poisoned block is recognised whatever the payload holds.
-/

namespace MemSentry.Core

open ByteMemory

/-- Every byte of every store lies among the `n` bytes from `p` up. -/
def ConfinedTo (p : Ptr) (n : Nat) (stores : List (Store 64)) : Prop :=
  ∀ s ∈ stores, Access.Inside p n (storeAccess s)

theorem ConfinedTo.frame {p a : Ptr} {n : Nat} {stores : List (Store 64)} {m : Memory}
    (h : ConfinedTo p n stores) (ha : ¬ InSpan p n a) : applyStores m stores a = m a := by
  apply applyStores_of_not_inSpan
  intro s hs hin
  have hbyte : InSpan p n (s.addr + BitVec.ofNat 64 (a - s.addr).toNat) := h s hs _ hin
  rw [BitVec.ofNat_toNat, BitVec.setWidth_eq, add_sub_cancel] at hbyte
  exact ha hbyte

section Verdicts

variable {m : Memory} {raw user : Ptr} {requested footerSize : Word} {canary : Bool}
  {footer total : Nat}

/-- Writes to the payload leave an intact block intact. -/
theorem verifyCanary_payload {stores : List (Store 64)}
    (hp : Placed raw user requested.toNat footer total)
    (hh : HeaderIntact m raw user requested canary)
    (hf : FooterIntact m user requested (canaryLength canary footerSize))
    (hfooter : canaryLength canary footerSize ≤ footer)
    (hs : ConfinedTo user requested.toNat stores) :
    (verifyCanary (applyStores m stores) raw footerSize).1 = .none := by
  have hheader : HeaderIntact (applyStores m stores) raw user requested canary :=
    hh.congr fun i hi => hs.frame (hp.header_not_payload hi)
  have hzone : FooterIntact (applyStores m stores) user requested
      (canaryLength canary footerSize) :=
    hf.congr fun i hi => hs.frame (hp.footer_not_payload (by omega))
  rw [verifyCanary_verdict hheader hp.raw_ne_zero, if_pos hzone]

/-- Next to an intact footer, a footer is intact exactly when all its bytes are the same. -/
theorem FooterIntact.iff_bytes {m' : Memory} {n : Nat} (hf : FooterIntact m user requested n) :
    FooterIntact m' user requested n ↔
      ∀ i < n, m' (user + requested + BitVec.ofNat 64 i) =
        m (user + requested + BitVec.ofNat 64 i) := by
  constructor
  · intro hf' i hi
    exact readBytes_inj (hf'.trans hf.symm) hi
  · exact hf.congr

/-- With the header of `m`, the verdict compares the footer with that of `m`. -/
theorem verifyCanary_footer_iff {m' : Memory} (hraw : raw ≠ 0)
    (hh : HeaderIntact m raw user requested true)
    (hf : FooterIntact m user requested (canaryLength true footerSize)) (hlong : footerSize ≥ 8)
    (hsame : ∀ i < 64, m' (raw + BitVec.ofNat 64 i) = m (raw + BitVec.ofNat 64 i)) :
    (verifyCanary m' raw footerSize).1 = .footerCorrupted ↔
      ∃ i < footerSize.toNat, m' (user + requested + BitVec.ofNat 64 i) ≠
        m (user + requested + BitVec.ofNat 64 i) := by
  have hlen : canaryLength true footerSize = footerSize.toNat := if_pos ⟨rfl, hlong⟩
  have hbytes := @FooterIntact.iff_bytes m user requested m' _ hf
  rw [hlen] at hbytes
  rw [verifyCanary_verdict (hh.congr hsame) hraw, hlen]
  by_cases hintact : FooterIntact m' user requested footerSize.toNat
  · rw [if_pos hintact]
    have hsameFooter := hbytes.mp hintact
    constructor
    · intro hverdict
      cases hverdict
    · rintro ⟨i, hi, hne⟩
      exact absurd (hsameFooter i hi) hne
  · rw [if_neg hintact]
    have hdiffer : ¬ ∀ i < footerSize.toNat, _ := fun hall => hintact (hbytes.mpr hall)
    simp only [not_forall] at hdiffer
    obtain ⟨i, hi, hne⟩ := hdiffer
    exact ⟨fun _ => ⟨i, hi, hne⟩, fun _ => rfl⟩

/-- The magic number of a poisoned block: the other stores of `poison_block` lie above it. -/
theorem poisonBlock_magic (h : HeaderIntact m raw user requested canary)
    (hp : Placed raw user requested.toNat footer total)
    (hfooter : canaryLength canary footerSize ≤ footer) {i : Nat} (hi : i < 8) :
    (poisonBlock m raw footerSize).1 (raw + BitVec.ofNat 64 i) =
      writeBytes m raw (leBytes 8 canaryFreedMagic.toNat) (raw + BitVec.ofNat 64 i) := by
  have hbelow := hp.below
  have habove := hp.above
  have hspace := hp.space
  have hback := hp.toNat_backOffset
  have hend := hp.toNat_footer
  have hoffset : (raw + 32).toNat = raw.toNat + 32 := toNat_add_ofNat (i := 32) (by omega)
  have haddr : (raw + BitVec.ofNat 64 i).toNat = raw.toNat + i := toNat_add_ofNat (by omega)
  rw [poisonBlock_memory h hp, writeBytes_of_not_inSpan, writeBytes_of_not_inSpan,
    writeBytes_of_not_inSpan]
  · rw [length_leBytes, inSpan_iff (by omega)]
    omega
  · rw [length_redZone, inSpan_iff (by omega)]
    omega
  · rw [length_leBytes, inSpan_iff (by omega)]
    omega

/-- A poisoned block is recognised, whatever is written to its payload afterwards. -/
theorem verifyCanary_poisoned {stores : List (Store 64)} {footerSize' : Word}
    (h : HeaderIntact m raw user requested canary)
    (hp : Placed raw user requested.toNat footer total)
    (hfooter : canaryLength canary footerSize ≤ footer)
    (hs : ConfinedTo user requested.toNat stores) :
    (verifyCanary (applyStores (poisonBlock m raw footerSize).1 stores) raw footerSize').1 =
      .doubleFree := by
  have hmagic : magicOf (applyStores (poisonBlock m raw footerSize).1 stores) raw =
      canaryFreedMagic := by
    have hbytes : readBytes (applyStores (poisonBlock m raw footerSize).1 stores) raw 8 =
        readBytes (writeBytes m raw (leBytes 8 canaryFreedMagic.toNat)) raw 8 := by
      apply readBytes_congr
      intro i hi
      rw [hs.frame (hp.header_not_payload (by omega)), poisonBlock_magic h hp hfooter hi]
    have hinside := @readBytes_writeBytes_inside 64 m raw (leBytes 8 canaryFreedMagic.toNat) 0 8
      (by decide) (by decide)
    rw [show raw + BitVec.ofNat 64 0 = raw from BitVec.add_zero raw] at hinside
    exact loadWord_of_readBytes (hbytes.trans hinside)
  unfold verifyCanary
  rw [if_neg hp.raw_ne_zero, if_pos hmagic]

end Verdicts

/-- On a block that `init_block` has laid out in `calculate_total_size` bytes: writes to
the payload leave the verdict `NONE`; with the header untouched, the verdict is
`FOOTER_CORRUPTED` exactly when a byte of the footer differs from the one written; and
after `poison_block` it is `DOUBLE_FREE`, for payload writes before and after. -/
theorem canaryExactness (m : Memory) (raw requested alignment footerSize allocId : Word)
    (tag : Ptr) (enableCanary : Bool) (tid : BitVec 32) (hraw : raw ≠ 0)
    (hfit : SizesFit requested alignment footerSize)
    (hspace : raw.toNat + (calculateTotalSize requested alignment footerSize).toNat ≤ 2 ^ 64) :
    let block := initBlock m raw requested alignment footerSize allocId tag enableCanary tid
    let user := block.1
    let after := block.2.1
    (∀ writes, ConfinedTo user requested.toNat writes →
      (verifyCanary (applyStores after writes) raw footerSize).1 = .none) ∧
    (enableCanary = true → footerSize ≥ 8 → ∀ m' : Memory,
      (∀ i < 64, m' (raw + BitVec.ofNat 64 i) = after (raw + BitVec.ofNat 64 i)) →
      ((verifyCanary m' raw footerSize).1 = .footerCorrupted ↔
        ∃ i < footerSize.toNat, m' (user + requested + BitVec.ofNat 64 i) ≠
          after (user + requested + BitVec.ofNat 64 i))) ∧
    (∀ writes writes', ConfinedTo user requested.toNat writes →
      ConfinedTo user requested.toNat writes' →
      (verifyCanary (applyStores (poisonBlock (applyStores after writes) raw footerSize).1 writes')
        raw footerSize).1 = .doubleFree) := by
  dsimp only
  have hp := placed_userAddress hraw hfit hspace
  have hheader := @initBlock_header m raw requested alignment footerSize allocId tag enableCanary
    tid _ hp
  have hzone := @initBlock_footer m raw requested alignment footerSize allocId tag enableCanary
    tid _ hp
  have hlen := canaryLength_le enableCanary footerSize
  rw [initBlock_user hraw]
  refine ⟨?_, ?_, ?_⟩
  · intro writes hw
    exact verifyCanary_payload hp hheader hzone hlen hw
  · rintro rfl hlong m' hsame
    exact verifyCanary_footer_iff hraw hheader hzone hlong hsame
  · intro writes writes' hw hw'
    have hkept := hheader.congr fun i hi => hw.frame (hp.header_not_payload hi)
    exact verifyCanary_poisoned hkept hp hlen hw'

/-- A footer of 13 bytes, one piece of eight and one of five: its last byte counts. -/
theorem canaryExactness_odd_footer :
    let block := initBlock (fun _ => 0) 0x1000 3 16 13 7 0 true 1
    (verifyCanary (applyStores block.2.1 [⟨block.1, [1, 2, 3]⟩]) 0x1000 13).1 = .none ∧
      (verifyCanary (applyStores block.2.1 [⟨block.1 + 15, [0]⟩]) 0x1000 13).1 =
        .footerCorrupted := by
  have h := canaryExactness (fun _ => 0) 0x1000 3 16 13 7 0 true 1 (by decide) (by decide)
    (by decide)
  obtain ⟨hpayload, hfooter, _⟩ := h
  refine ⟨hpayload _ ?_, (hfooter rfl (by decide) _ ?_).mpr ⟨12, by decide, ?_⟩⟩
  · unfold ConfinedTo
    decide
  · decide
  · decide

end MemSentry.Core
