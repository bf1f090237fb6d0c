import MemSentry.Core.Header
import MemSentry.Core.TrackerHistory
import MemSentry.Profiler.Histogram

/-!
# The state the manager works on

`World` is the state of the process as far as the manager can see and change it: the
members of `Manager`, the thread-local variables, the memory and the system heap. The
last five fields belong to nobody in the source. They record what has happened, so that
it can be spoken about: which blocks the system allocator has handed out, which pointers
the clients hold, the calls on the tracker, the log of the current call, and whether
the behaviour is still defined.

What the source takes from outside (the answer of `malloc`, the drawn sampling intervals,
the clock, the captured frames) comes in an `Oracle`. What the containers of the library
itself allocate is not modelled: those allocations are made under a recursion guard and
end in the system allocator.
-/

namespace MemSentry

open ByteMemory MemSentry.Core Profiler Function

/-- The value of `current_thread_id`. -/
abbrev ThreadId := BitVec 32

/-! ## State -/

/-- The `thread_local` variables; the random state is behind the draws of the oracle. -/
structure ThreadLocals where
  recursionDepth : Nat := 0
  bytesUntilSample : Word := 0
  activeScopeTag : Ptr := 0
  deriving DecidableEq, Repr

/-- A pointer in the hands of a client: the system block behind it and the size asked
for. -/
structure Lease where
  base : Ptr
  size : Word
  deriving DecidableEq, Repr

inductive Action
  | systemAlloc (size : Word) (answer : Ptr)
  /-- `live` says whether the pointer was the base of a block not released before. -/
  | systemFree (ptr : Ptr) (live : Bool)
  | systemRealloc (ptr : Ptr) (size : Word) (answer : Ptr) (live : Bool)
  | alert (ptr : Ptr) (kind : CorruptionType)
  /-- The accesses of one run of `verify_canary` or `poison_block`. -/
  | inspect (accesses : List Access)
  | limitExceeded (current limit : Word)
  deriving DecidableEq, Repr

structure World where
  mem : Memory
  config : Config
  initialized : Bool
  allocCounter : Word
  stats : MemoryStats
  tracker : ShardedTracker
  freeHist : AllocationHistogram
  locals : ThreadId → ThreadLocals
  /-- The sizes of the live system blocks, by base address. -/
  heap : Ptr → Option Nat
  leases : Ptr → Option Lease
  /-- The calls on the tracker, newest first. -/
  calls : List TrackerCall
  /-- What the current call has done, in order. -/
  log : List Action
  /-- The behaviour is undefined: an address that is no live block was freed, or a block
  was laid out in less memory than it takes. -/
  fault : Bool

/-- The process before any call, with nothing allocated. -/
def World.start (mem : Memory) : World where
  mem := mem
  config := {}
  initialized := false
  allocCounter := 1
  stats := {}
  tracker := ShardedTracker.empty
  freeHist := emptyHistogram
  locals := fun _ => {}
  heap := fun _ => none
  leases := fun _ => none
  calls := []
  log := []
  fault := false

structure Oracle where
  malloc : Ptr
  /-- What `next_geometric_interval` returns, first and second call. -/
  firstInterval : Word := 0
  nextInterval : Word := 0
  now : Int := 0
  frames : List Ptr := []
  /-- Whether a weak exchange fails for no reason. -/
  spurious : Bool := false

namespace World

variable (w : World)

def guardActive (tid : ThreadId) : Bool := (w.locals tid).recursionDepth > 0

def emit (a : Action) : World := { w with log := w.log ++ [a] }

/-- `print_corruption_alert`. -/
def alert (ptr : Ptr) (kind : CorruptionType) : World := w.emit (.alert ptr kind)

/-! ## The system allocator

A request for 0 bytes gets a block of its own, which the model gives one byte. -/

def extent (size : Word) : Nat := max size.toNat 1

def rawSystemAlloc (o : Oracle) (size : Word) : World × Ptr :=
  let w := w.emit (.systemAlloc size o.malloc)
  if o.malloc = 0 then (w, 0)
  else ({ w with heap := update w.heap o.malloc (some (extent size)) }, o.malloc)

def rawSystemFree (ptr : Ptr) : World :=
  if ptr = 0 then w
  else
    let live := (w.heap ptr).isSome
    let w := w.emit (.systemFree ptr live)
    { w with heap := update w.heap ptr none, fault := w.fault || !live }

/-- `realloc` keeps the contents up to the smaller size. -/
def rawSystemRealloc (o : Oracle) (ptr : Ptr) (newSize : Word) : World × Ptr :=
  if ptr = 0 then w.rawSystemAlloc o newSize
  else if newSize = 0 then (w.rawSystemFree ptr, 0)
  else
    let old := w.heap ptr
    let w := w.emit (.systemRealloc ptr newSize o.malloc old.isSome)
    if o.malloc = 0 then ({ w with fault := w.fault || !old.isSome }, 0)
    else
      ({ w with
        mem := writeBytes w.mem o.malloc (readBytes w.mem ptr (min (old.getD 0) newSize.toNat))
        heap := update (update w.heap ptr none) o.malloc (some (extent newSize))
        fault := w.fault || !old.isSome }, o.malloc)

/-! ## The tracker -/

def trackerInsert (userPtr : Ptr) (record : AllocationRecord) : World :=
  { w with tracker := w.tracker.insert userPtr record, calls := .insert userPtr record :: w.calls }

/-- The tracker after `erase`; status and record are read off before. -/
def trackerErase (userPtr : Ptr) : World :=
  { w with tracker := w.tracker.afterErase userPtr, calls := .erase userPtr :: w.calls }

/-! ## Leases -/

/-- A client gets a pointer, unless it is null. -/
def lease (ptr : Ptr) (l : Lease) : World :=
  if ptr = 0 then w else { w with leases := update w.leases ptr (some l) }

def unlease (ptr : Ptr) : World := { w with leases := update w.leases ptr none }

end World

end MemSentry
