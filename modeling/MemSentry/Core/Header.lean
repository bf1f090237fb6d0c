import MemSentry.Types

/-!
# Block headers

`core/header.hpp`. A block starts with a 64-byte header; the 32-bit back offset sits
right below the user pointer and the footer right above the payload.

The routines that touch memory return the memory they leave and the list of their
accesses, in program order. The loops over the footer are lists of their rounds
(`footerChunks`), so that the bytes a loop writes or compares can be read off.
-/

namespace MemSentry

open ByteMemory

/-- One read or write: `len` bytes from `addr` up. -/
structure Access where
  addr : Ptr
  len : Nat
  deriving DecidableEq, Repr

/-- Every byte of the access lies in the `size` bytes from `base` up. -/
def Access.Inside (base : Ptr) (size : Nat) (a : Access) : Prop :=
  ∀ i < a.len, InSpan base size (a.addr + BitVec.ofNat 64 i)

instance (base : Ptr) (size : Nat) (a : Access) : Decidable (a.Inside base size) :=
  inferInstanceAs (Decidable (∀ i < a.len, _))

theorem Access.inside_of_le {base addr : Ptr} {size len : Nat}
    (hspace : base.toNat + size ≤ 2 ^ 64) (hlow : base.toNat ≤ addr.toNat)
    (hhigh : addr.toNat + len ≤ base.toNat + size) : Access.Inside base size ⟨addr, len⟩ := by
  intro i hi
  have hlen : i < len := hi
  have haddr : (addr + BitVec.ofNat 64 i).toNat = addr.toNat + i :=
    toNat_add_ofNat (by omega)
  rw [inSpan_iff hspace, haddr]
  omega

namespace Core

/-- `sizeof(BlockHeader)`. -/
def headerSize : Word := 64#64

/-- `sizeof(uint32_t)`, the size of the back offset. -/
def backOffsetSize : Word := 4#64

structure BlockHeader where
  magic : Word
  allocationId : Word
  requestedSize : Word
  totalSize : Word
  userOffset : Word
  alignment : Word
  tag : Ptr
  hasCanary : Bool
  threadId : BitVec 32
  deriving DecidableEq, Repr

/-- The 64 bytes of a header: `magic` at offset 0, `allocation_id` at 8,
`requested_size` at 16, `total_size` at 24, `user_offset` at 32, `alignment` at 40,
`tag` at 48, `has_canary` at 56, three zero bytes of padding and `thread_id` at 60. -/
def BlockHeader.encode (h : BlockHeader) : List Byte :=
  leBytes 8 h.magic.toNat ++ leBytes 8 h.allocationId.toNat ++ leBytes 8 h.requestedSize.toNat ++
    leBytes 8 h.totalSize.toNat ++ leBytes 8 h.userOffset.toNat ++ leBytes 8 h.alignment.toNat ++
    leBytes 8 h.tag.toNat ++ [if h.hasCanary then 1 else 0, 0, 0, 0] ++
    leBytes 4 h.threadId.toNat

/-! ## Reading the fields -/

def loadWord (m : Memory) (p : Ptr) : Word := BitVec.ofNat 64 (load m p 8)

/-- A 32-bit load, widened. -/
def loadHalf (m : Memory) (p : Ptr) : Word := BitVec.ofNat 64 (load m p 4)

def magicOf (m : Memory) (header : Ptr) : Word := loadWord m header
def requestedSizeOf (m : Memory) (header : Ptr) : Word := loadWord m (header + 16)
def userOffsetOf (m : Memory) (header : Ptr) : Word := loadWord m (header + 32)
def hasCanaryOf (m : Memory) (header : Ptr) : Bool := m (header + 56) != 0

def magicField (header : Ptr) : Access := ⟨header, 8⟩
def requestedSizeField (header : Ptr) : Access := ⟨header + 16, 8⟩
def userOffsetField (header : Ptr) : Access := ⟨header + 32, 8⟩
def hasCanaryField (header : Ptr) : Access := ⟨header + 56, 1⟩

/-! ## The footer loop -/

/-- The next `count` rounds of `for (; i < footer_size; i += 8)`: `i` and `copy_len`. -/
def footerChunksFrom (footerSize : Nat) : (count i : Nat) → List (Nat × Nat)
  | 0, _ => []
  | count + 1, i => (i, min 8 (footerSize - i)) :: footerChunksFrom footerSize count (i + 8)

/-- The whole loop: eight bytes a round, the last round possibly shorter. -/
def footerChunks (footerSize : Nat) : List (Nat × Nat) :=
  footerChunksFrom footerSize ((footerSize + 7) / 8) 0

def chunkStore (footerPtr : Ptr) (magic : Word) (c : Nat × Nat) : Store 64 :=
  ⟨footerPtr + BitVec.ofNat 64 c.1, (leBytes 8 magic.toNat).take c.2⟩

/-- `memcpy(footer_ptr + i, &magic, copy_len)` for every piece. -/
def footerStores (footerPtr : Ptr) (magic : Word) (footerSize : Nat) : List (Store 64) :=
  (footerChunks footerSize).map (chunkStore footerPtr magic)

def storeAccess (s : Store 64) : Access := ⟨s.addr, s.bytes.length⟩

/-- The comparison loop of `verify_canary`: it stops at the first piece that differs. -/
def verifyFooter (m : Memory) (footerPtr : Ptr) :
    List (Nat × Nat) → CorruptionType × List Access
  | [] => (.none, [])
  | c :: cs =>
    let piece : Access := ⟨footerPtr + BitVec.ofNat 64 c.1, c.2⟩
    if readBytes m piece.addr c.2 ≠ (leBytes 8 canaryFooterMagic.toNat).take c.2 then
      (.footerCorrupted, [piece])
    else
      let rest := verifyFooter m footerPtr cs
      (rest.1, piece :: rest.2)

/-! ## Layout of a block -/

/-- `eff_align`. -/
def effectiveAlignment (alignment : Word) : Word :=
  if alignment > maxAlign then alignment else maxAlign

def calculateTotalSize (requestedSize alignment footerSize : Word) : Word :=
  let maxOffset := headerSize + backOffsetSize + effectiveAlignment alignment
  if requestedSize > sizeMax - maxOffset - footerSize then 0
  else maxOffset + requestedSize + footerSize

/-- `user_addr` of `init_block`. -/
def userAddress (rawAddr alignment : Word) : Word :=
  let effAlign := effectiveAlignment alignment
  let minUserAddr := rawAddr + headerSize + backOffsetSize
  (minUserAddr + (effAlign - 1)) &&& ~~~(effAlign - 1)

/-- The header that `init_block` writes. -/
def initHeader (rawAddr requestedSize alignment footerSize allocId : Word) (tag : Ptr)
    (enableCanary : Bool) (threadId : BitVec 32) : BlockHeader where
  magic := canaryHeaderMagic
  allocationId := allocId
  requestedSize := requestedSize
  totalSize := userAddress rawAddr alignment - rawAddr + requestedSize +
    (if enableCanary then footerSize else 0)
  userOffset := userAddress rawAddr alignment - rawAddr
  alignment := effectiveAlignment alignment
  tag := if tag ≠ 0 then tag else generalTag
  hasCanary := enableCanary
  threadId := threadId

/-- The writes of `init_block`: header, back offset, footer. -/
def initStores (rawAddr requestedSize alignment footerSize allocId : Word) (tag : Ptr)
    (enableCanary : Bool) (threadId : BitVec 32) : List (Store 64) :=
  let userAddr := userAddress rawAddr alignment
  let header := initHeader rawAddr requestedSize alignment footerSize allocId tag enableCanary
    threadId
  [⟨rawAddr, header.encode⟩, ⟨userAddr - backOffsetSize, leBytes 4 header.userOffset.toNat⟩] ++
    (if enableCanary ∧ footerSize ≥ 8 then
      footerStores (userAddr + requestedSize) canaryFooterMagic footerSize.toNat
    else [])

/-- `init_block`: the user pointer, the memory and the accesses. -/
def initBlock (m : Memory) (rawMemory requestedSize alignment footerSize allocId : Word)
    (tag : Ptr) (enableCanary : Bool) (threadId : BitVec 32) : Ptr × Memory × List Access :=
  if rawMemory = 0 then (0, m, [])
  else
    let stores := initStores rawMemory requestedSize alignment footerSize allocId tag
      enableCanary threadId
    (userAddress rawMemory alignment, applyStores m stores, stores.map storeAccess)

/-- `get_header_from_user_ptr`; null when no header is recognised. -/
def getHeaderFromUserPtr (m : Memory) (userPtr : Ptr) : Ptr :=
  if userPtr = 0 then 0
  else if userPtr < headerSize + backOffsetSize then 0
  else
    let offset := loadHalf m (userPtr - backOffsetSize)
    if offset < headerSize + backOffsetSize ∨ offset > 4096 + headerSize then 0
    else
      let candidate := userPtr - offset
      if magicOf m candidate = canaryHeaderMagic then
        if userOffsetOf m candidate = offset then candidate else 0
      else 0

/-! ## Verification and poisoning -/

def verifyCanary (m : Memory) (header : Ptr) (footerSize : Word) :
    CorruptionType × List Access :=
  if header = 0 then (.untrackedPointer, [])
  else if magicOf m header = canaryFreedMagic then (.doubleFree, [magicField header])
  else if magicOf m header ≠ canaryHeaderMagic then (.headerCorrupted, [magicField header])
  else if hasCanaryOf m header ∧ footerSize ≥ 8 then
    let userPtr := header + userOffsetOf m header
    let footerPtr := userPtr + requestedSizeOf m header
    let footer := verifyFooter m footerPtr (footerChunks footerSize.toNat)
    (footer.1, [magicField header, hasCanaryField header, userOffsetField header,
      requestedSizeField header] ++ footer.2)
  else (.none, [magicField header, hasCanaryField header])

/-- The part of `poison_block` under `user_offset >= 68`: the back offset is cleared and
the footer overwritten. -/
def poisonPayloadEnds (m : Memory) (header : Ptr) (footerSize : Word) :
    Memory × List Access :=
  let userPtr := header + userOffsetOf m header
  let back : Store 64 := ⟨userPtr - backOffsetSize, leBytes 4 0⟩
  let m := writeBytes m back.addr back.bytes
  if hasCanaryOf m header ∧ footerSize ≥ 8 then
    let footerPtr := userPtr + requestedSizeOf m header
    let stores := footerStores footerPtr canaryFreedMagic footerSize.toNat
    (applyStores m stores, [storeAccess back, hasCanaryField header, requestedSizeField header] ++
      stores.map storeAccess)
  else (m, [storeAccess back, hasCanaryField header])

def poisonBlock (m : Memory) (header : Ptr) (footerSize : Word) : Memory × List Access :=
  if header = 0 then (m, [])
  else
    let m := writeBytes m header (leBytes 8 canaryFreedMagic.toNat)
    let ends := if userOffsetOf m header ≥ headerSize + backOffsetSize then
      poisonPayloadEnds m header footerSize else (m, [])
    (writeBytes ends.1 (header + 32) (leBytes 8 0),
      [magicField header, userOffsetField header] ++ ends.2 ++ [userOffsetField header])

end Core

end MemSentry
