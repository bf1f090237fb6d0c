import MemSentry.Core.BlockIntegrity
import MemSentry.Manager.World

/-!
# The manager

`Manager::allocate`, `deallocate` and `reallocate`, the entry points `track_alloc`,
`track_free` and `track_realloc` above them, and the hooks of `allocator_hooks.cpp`.
Here each call runs without interference; the same steps taken apart, for threads that
interleave, are in `Concurrent/Machine`.

The recursion guard that a call holds while it runs is given back when it returns, so it
shows in no state between calls. The calls a watchdog callback makes are calls like any
other, between an `enterGuard` and an `exitGuard`.
-/

namespace MemSentry

open ByteMemory MemSentry.Core Profiler Function

namespace World

variable (w : World)

/-! ## Allocation -/

/-- The sampling gate of `allocate`: whether the allocation is tracked, and the new
`tl_bytes_until_sample`. -/
def samplingGate (c : Config) (o : Oracle) (allocId size bytesUntil : Word) : Bool × Word :=
  if c.samplingRateBytes > 0 then
    let bytesUntil := if bytesUntil.toInt ≤ 0 then o.firstInterval else bytesUntil
    if size.toInt < bytesUntil.toInt then (false, bytesUntil - size)
    else (true, o.nextInterval)
  else if c.sampleEveryN > 1 then
    (decide (allocId % c.sampleEveryN.setWidth 64 = 0), bytesUntil)
  else if c.samplingPercentage < 100 then
    (decide (allocId % 100 < c.samplingPercentage.setWidth 64), bytesUntil)
  else (true, bytesUntil)

/-- The gate that the next allocation of the thread goes through. -/
def gate (o : Oracle) (tid : ThreadId) (size : Word) : Bool × Word :=
  samplingGate w.config o w.allocCounter size (w.locals tid).bytesUntilSample

/-- `alloc_counter_.fetch_add` and the update of the thread's sampling interval. -/
def passGate (o : Oracle) (tid : ThreadId) (size : Word) : World :=
  { w with
    allocCounter := w.allocCounter + 1
    locals := update w.locals tid
      { w.locals tid with bytesUntilSample := (w.gate o tid size).2 } }

/-- `ScopedTag::current()`. -/
def currentScopeTag (tid : ThreadId) : Ptr :=
  if (w.locals tid).activeScopeTag ≠ 0 then (w.locals tid).activeScopeTag else generalTag

def finalTag (tid : ThreadId) (tag : Ptr) : Ptr :=
  if tag ≠ 0 then tag
  else if w.currentScopeTag tid ≠ 0 then w.currentScopeTag tid
  else w.config.defaultTag

/-- The record that `allocate` stores. -/
def recordOf (o : Oracle) (tid : ThreadId) (allocId size alignment tag userPtr : Word) :
    AllocationRecord where
  allocationId := allocId
  userPtr := userPtr
  rawPtr := o.malloc
  requestedSize := size
  totalSize := calculateTotalSize size (effectiveAlignment alignment) w.config.footerSize
  alignment := effectiveAlignment alignment
  threadId := tid
  tag := w.finalTag tid tag
  timestamp := o.now
  callstack := if w.config.enableStacktrace then
    o.frames.take (min w.config.maxStackDepth.toNat 32) else []
  frameCount := if w.config.enableStacktrace then
    BitVec.ofNat 16 (o.frames.take (min w.config.maxStackDepth.toNat 32)).length else 0

/-- The memory limit watchdog. -/
def checkLimit : World :=
  if w.config.maxHeapBytes > 0 ∧ w.config.onLimitExceeded ∧
      w.stats.currentAllocatedBytes > w.config.maxHeapBytes then
    w.emit (.limitExceeded w.stats.currentAllocatedBytes w.config.maxHeapBytes)
  else w

/-- `allocate` once the raw block is there: layout, statistics, record, watchdog. -/
def installBlock (o : Oracle) (tid : ThreadId) (allocId size alignment tag : Word) :
    World × Ptr :=
  let effAlign := effectiveAlignment alignment
  let block := initBlock w.mem o.malloc size effAlign w.config.footerSize allocId
    (w.finalTag tid tag) w.config.enableCanary tid
  let record := w.recordOf o tid allocId size alignment tag block.1
  let w := { w with mem := block.2.1, stats := w.stats.updateOnAlloc size }
  let w := w.trackerInsert block.1 record
  (w.checkLimit, block.1)

/-- `allocate` past the sampling gate. Where the sum of the parts wraps around, the block
is too small for what `init_block` writes, and the behaviour is undefined. -/
def allocateTracked (o : Oracle) (tid : ThreadId) (allocId size alignment tag : Word) :
    World × Ptr :=
  let effAlign := effectiveAlignment alignment
  let totalSize := calculateTotalSize size effAlign w.config.footerSize
  if totalSize = 0 then (w, 0)
  else
    let raw := w.rawSystemAlloc o totalSize
    if raw.2 = 0 then (raw.1, 0)
    else if SizesFit size effAlign w.config.footerSize then
      raw.1.installBlock o tid allocId size alignment tag
    else ({ raw.1 with fault := true }, 0)

def allocate (o : Oracle) (tid : ThreadId) (size alignment tag : Word) : World × Ptr :=
  if w.guardActive tid ∨ ¬ w.initialized then w.rawSystemAlloc o size
  else if (w.gate o tid size).1 then
    (w.passGate o tid size).allocateTracked o tid w.allocCounter size alignment tag
  else (w.passGate o tid size).rawSystemAlloc o size

/-! ## Release -/

/-- `deallocate` after a successful `erase`. -/
def releaseTracked (userPtr : Ptr) (record : AllocationRecord) : World :=
  let footerSize := w.config.footerSize
  let header := record.rawPtr
  let verdict := verifyCanary w.mem header footerSize
  let w := w.emit (.inspect verdict.2)
  let w := if verdict.1 ≠ .none then w.alert userPtr verdict.1 else w
  let w := { w with
    stats := w.stats.updateOnFree record.requestedSize
    freeHist := w.freeHist.record record.requestedSize }
  if verdict.1 = .none then
    let poisoned := poisonBlock w.mem header footerSize
    let w := { w with mem := poisoned.1 }
    (w.emit (.inspect poisoned.2)).rawSystemFree record.rawPtr
  else w

/-- `deallocate` of a pointer that the tracker does not know. -/
def releaseUntracked (userPtr : Ptr) : World :=
  let candidate := getHeaderFromUserPtr w.mem userPtr
  if candidate ≠ 0 then
    if magicOf w.mem candidate = canaryFreedMagic then w.alert userPtr .doubleFree
    else if magicOf w.mem candidate = canaryHeaderMagic then
      let poisoned := poisonBlock w.mem candidate w.config.canaryFooterSize
      let w := { w with mem := poisoned.1 }
      (w.emit (.inspect poisoned.2)).rawSystemFree candidate
    else w.rawSystemFree userPtr
  else w.rawSystemFree userPtr

def deallocate (tid : ThreadId) (userPtr : Ptr) : World :=
  if userPtr = 0 then w
  else if w.guardActive tid then
    let candidate := getHeaderFromUserPtr w.mem userPtr
    if candidate ≠ 0 then
      if magicOf w.mem candidate = canaryFreedMagic then w
      else w.rawSystemFree candidate
    else w.rawSystemFree userPtr
  else
    let erased := w.tracker.erase userPtr
    let w := w.trackerErase userPtr
    match erased.1 with
    | .success => w.releaseTracked userPtr (erased.2.1.getD {})
    | .doubleFreeDetected => w.alert userPtr .doubleFree
    | .notFound => w.releaseUntracked userPtr

/-! ## Reallocation -/

/-- The canary check of `reallocate`. -/
def checkOldBlock (ptr : Ptr) (record : AllocationRecord) : World :=
  if w.config.enableCanary then
    let verdict := verifyCanary w.mem record.rawPtr w.config.canaryFooterSize
    let w := w.emit (.inspect verdict.2)
    if verdict.1 ≠ .none then w.alert ptr verdict.1 else w
  else w

/-- The bytes that `reallocate` copies. -/
def copyBytes (r : AllocationRecord) (newSize : Word) : Word :=
  if r.requestedSize < newSize then r.requestedSize else newSize

/-- The `memcpy` of `reallocate`. -/
def copyPayload (newPtr ptr : Ptr) (copyBytes : Word) : World :=
  { w with mem := writeBytes w.mem newPtr (readBytes w.mem ptr copyBytes.toNat) }

def reallocate (o : Oracle) (tid : ThreadId) (ptr : Ptr) (newSize : Word) : World × Ptr :=
  if ptr = 0 then w.allocate o tid newSize w.config.alignment 0
  else if newSize = 0 then (w.deallocate tid ptr, 0)
  else if w.guardActive tid ∨ ¬ w.initialized then w.rawSystemRealloc o ptr newSize
  else
    let oldRecord := w.tracker.find ptr
    let w := { w with calls := .find ptr :: w.calls }
    match oldRecord with
    | none => w.rawSystemRealloc o ptr newSize
    | some oldRecord =>
      let allocated : World × Ptr := (w.checkOldBlock ptr oldRecord).allocate o tid newSize
        oldRecord.alignment oldRecord.tag
      if allocated.2 = 0 then (allocated.1, 0)
      else
        ((allocated.1.copyPayload allocated.2 ptr (copyBytes oldRecord newSize)).deallocate tid ptr,
          allocated.2)

/-! ## Entry points -/

def trackAlloc (o : Oracle) (tid : ThreadId) (size alignment tag : Word) : World × Ptr :=
  if w.guardActive tid ∨ ¬ w.initialized then w.rawSystemAlloc o size
  else w.allocate o tid size alignment tag

def trackFree (tid : ThreadId) (ptr : Ptr) : World :=
  if ptr = 0 then w
  else if w.guardActive tid then w.rawSystemFree ptr
  else w.deallocate tid ptr

def trackRealloc (o : Oracle) (tid : ThreadId) (ptr : Ptr) (newSize : Word) : World × Ptr :=
  if w.guardActive tid ∨ ¬ w.initialized then w.rawSystemRealloc o ptr newSize
  else w.reallocate o tid ptr newSize

/-- `Manager::initialize`, called by `memsentry::init`. -/
def init (config : Config) : World := { w with config := config, initialized := true }

/-- `Manager::shutdown`. -/
def shutdown : World := { w with initialized := false }

def enterGuard (tid : ThreadId) : World :=
  { w with
    locals := update w.locals tid
      { w.locals tid with recursionDepth := (w.locals tid).recursionDepth + 1 } }

def exitGuard (tid : ThreadId) : World :=
  { w with
    locals := update w.locals tid
      { w.locals tid with recursionDepth := (w.locals tid).recursionDepth - 1 } }

/-- `set_current_tag`, as a `ScopedTag` calls it at both ends of its scope. -/
def setCurrentTag (tid : ThreadId) (tag : Ptr) : World :=
  { w with locals := update w.locals tid { w.locals tid with activeScopeTag := tag } }

end World

end MemSentry
