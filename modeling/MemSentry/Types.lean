import MemSentry.Library.ByteMemory

/-!
# Types and constants

`types.hpp` and `config.hpp`. Machine words are bit vectors, so `size_t`, `uint64_t`
and pointers wrap exactly as they do in the source. A pointer is its address and the
null pointer is `0`; a C string (`const char*`, the tags) is a pointer too.
-/

namespace MemSentry

abbrev Byte := BitVec 8

/-- `size_t`, `uint64_t`, `uintptr_t`. -/
abbrev Word := BitVec 64

/-- `void*`, `const char*`. -/
abbrev Ptr := BitVec 64

abbrev Memory := ByteMemory.Mem 64

/-- `std::string` and the characters behind a `const char*`. -/
abbrev Text := List Byte

/-- A string literal; its characters are ASCII. -/
def ascii (s : String) : Text := s.toList.map fun c => BitVec.ofNat 8 c.toNat

def canaryHeaderMagic : Word := 0xDEADBEEFCAFEBABE#64
def canaryFooterMagic : Word := 0xBAADF00D5EADC0DE#64
def canaryFreedMagic : Word := 0xDEADDEADDEADDEAD#64
def sizeMax : Word := 0xFFFFFFFFFFFFFFFF#64

/-- `alignof(std::max_align_t)`. -/
def maxAlign : Word := 16#64

/-- The address of the string literal `"General"`; all that matters is that it is not
null. -/
def generalTag : Ptr := 0x402010#64

inductive CorruptionType
  | none
  | headerCorrupted
  | footerCorrupted
  | doubleFree
  | useAfterFree
  | untrackedPointer
  deriving DecidableEq, Repr

structure AllocationRecord where
  allocationId : Word := 0
  userPtr : Ptr := 0
  rawPtr : Ptr := 0
  requestedSize : Word := 0
  totalSize : Word := 0
  alignment : Word := 0
  threadId : BitVec 32 := 0
  tag : Ptr := generalTag
  timestamp : Int := 0
  callstack : List Ptr := []
  frameCount : BitVec 16 := 0
  deriving DecidableEq, Repr

structure StackFrame where
  address : Ptr := 0
  symbolName : Text := []
  fileName : Text := []
  lineNumber : BitVec 32 := 0
  deriving DecidableEq, Repr

/-! ## Statistics -/

structure MemoryStats where
  totalAllocatedBytes : Word := 0
  totalFreedBytes : Word := 0
  currentAllocatedBytes : Word := 0
  peakAllocatedBytes : Word := 0
  totalAllocationCount : Word := 0
  totalFreeCount : Word := 0
  activeAllocationCount : Word := 0
  deriving DecidableEq, Repr

/-- `MemoryStatsSnapshot`: the counters as plain numbers. -/
abbrev MemoryStatsSnapshot := MemoryStats

namespace MemoryStats

/-! The atomic steps of `update_on_alloc` and `update_on_free`, in the order of the
source. -/

def addTotalAllocatedBytes (s : MemoryStats) (bytes : Word) : MemoryStats :=
  { s with totalAllocatedBytes := s.totalAllocatedBytes + bytes }

def addTotalAllocationCount (s : MemoryStats) : MemoryStats :=
  { s with totalAllocationCount := s.totalAllocationCount + 1 }

def addActiveAllocationCount (s : MemoryStats) : MemoryStats :=
  { s with activeAllocationCount := s.activeAllocationCount + 1 }

def addCurrentAllocatedBytes (s : MemoryStats) (bytes : Word) : MemoryStats :=
  { s with currentAllocatedBytes := s.currentAllocatedBytes + bytes }

/-- The store of a successful `compare_exchange_weak` on the peak. -/
def storePeak (s : MemoryStats) (current : Word) : MemoryStats :=
  { s with peakAllocatedBytes := current }

def addTotalFreedBytes (s : MemoryStats) (bytes : Word) : MemoryStats :=
  { s with totalFreedBytes := s.totalFreedBytes + bytes }

def addTotalFreeCount (s : MemoryStats) : MemoryStats :=
  { s with totalFreeCount := s.totalFreeCount + 1 }

def subActiveAllocationCount (s : MemoryStats) : MemoryStats :=
  { s with activeAllocationCount := s.activeAllocationCount - 1 }

def subCurrentAllocatedBytes (s : MemoryStats) (bytes : Word) : MemoryStats :=
  { s with currentAllocatedBytes := s.currentAllocatedBytes - bytes }

/-- `update_on_alloc` run without interference: the exchange loop on the peak ends after
its first success, since nobody else moves the peak. -/
def updateOnAlloc (s : MemoryStats) (bytes : Word) : MemoryStats :=
  let s := s.addTotalAllocatedBytes bytes
  let s := s.addTotalAllocationCount
  let s := s.addActiveAllocationCount
  let s := s.addCurrentAllocatedBytes bytes
  let current := s.currentAllocatedBytes
  if current > s.peakAllocatedBytes then s.storePeak current else s

/-- `update_on_free` run without interference. -/
def updateOnFree (s : MemoryStats) (bytes : Word) : MemoryStats :=
  let s := s.addTotalFreedBytes bytes
  let s := s.addTotalFreeCount
  let s := s.subActiveAllocationCount
  s.subCurrentAllocatedBytes bytes

end MemoryStats

/-! ## Configuration -/

/-- The fields of `Config` that the tracking code reads; `onLimitExceeded` says whether
the callback pointer is non-null. -/
structure Config where
  enableStacktrace : Bool := true
  maxStackDepth : BitVec 32 := 32
  stackSkipFrames : BitVec 32 := 3
  enableCanary : Bool := true
  canaryFooterSize : Word := 16
  alignment : Word := 16
  defaultTag : Ptr := generalTag
  samplingRateBytes : Word := 0
  samplingPercentage : BitVec 32 := 100
  sampleEveryN : BitVec 32 := 1
  maxHeapBytes : Word := 0
  onLimitExceeded : Bool := false
  deriving DecidableEq, Repr

/-- The footer length in force: `enable_canary ? canary_footer_size : 0`. -/
def Config.footerSize (c : Config) : Word := if c.enableCanary then c.canaryFooterSize else 0

end MemSentry
