import MemSentry.Concurrent.Accounts
import Mathlib.Data.Multiset.AddSub

/-!
# The manager used by many threads

Each thread of a pool is at a point of a call to `track_alloc`, `track_free` or
`track_realloc`; `advance` is one atomic step of it. What a thread does to memory that
nobody else has, such as the layout of a block it has just got, goes with the step before
or after. The entry checks, the sampling gate and the ways out of the tracker are all
there, so that the machine runs under every configuration.

`held` counts the pointers in the hands of the clients: a call takes its pointer from
there when it starts and puts the one it returns there when it ends.
-/

namespace MemSentry

open ByteMemory MemSentry.Core Function Transition

/-! ## Points of a call -/

/-- The arguments of `allocate`. -/
structure AllocArgs where
  size : Word
  alignment : Word
  tag : Ptr
  deriving DecidableEq, Repr

/-- What is left to do when `allocate` returns: nothing, or the rest of `reallocate`. -/
inductive After
  | done
  | moveFrom (ptr : Ptr) (record : AllocationRecord) (newSize : Word)
  deriving DecidableEq, Repr

inductive Point
  | idle
  -- `allocate`
  | drawId (args : AllocArgs) (k : After)
  | systemAlloc (size : Word) (k : After)
  | layOut (args : AllocArgs) (allocId : Word) (k : After)
  | addTotalBytes (r : AllocationRecord) (k : After)
  | addTotalCount (r : AllocationRecord) (k : After)
  | addActive (r : AllocationRecord) (k : After)
  | addCurrent (r : AllocationRecord) (k : After)
  | loadPeak (r : AllocationRecord) (current : Word) (k : After)
  | raisePeak (r : AllocationRecord) (current peak : Word) (k : After)
  | insert (r : AllocationRecord) (k : After)
  | checkLimit (ptr : Ptr) (k : After)
  -- `deallocate`; `result` is what the whole call returns
  | erase (ptr result : Ptr)
  | verify (r : AllocationRecord) (ptr result : Ptr)
  | addFreedBytes (r : AllocationRecord) (verdict : CorruptionType) (result : Ptr)
  | addFreeCount (r : AllocationRecord) (verdict : CorruptionType) (result : Ptr)
  | subActive (r : AllocationRecord) (verdict : CorruptionType) (result : Ptr)
  | subCurrent (r : AllocationRecord) (verdict : CorruptionType) (result : Ptr)
  | recordSize (r : AllocationRecord) (verdict : CorruptionType) (result : Ptr)
  | poison (r : AllocationRecord) (result : Ptr)
  | freeBlock (r : AllocationRecord) (result : Ptr)
  | systemFree (ptr : Ptr)
  -- `reallocate`
  | find (ptr : Ptr) (newSize : Word)
  | checkOld (ptr : Ptr) (r : AllocationRecord) (newSize : Word)
  | copy (newPtr ptr : Ptr) (bytes : Word)
  | systemRealloc (ptr : Ptr) (newSize : Word)
  /-- The call returns, and the client holds this pointer, unless it is null. -/
  | finish (ptr : Ptr)
  deriving DecidableEq, Repr

/-- Where the call goes on when `allocate` returns `newPtr`; a failed reallocation leaves
the client its old pointer. -/
def After.next (newPtr : Ptr) : After → Point
  | .done => .finish newPtr
  | .moveFrom ptr record newSize =>
    if newPtr = 0 then .finish ptr else .copy newPtr ptr (World.copyBytes record newSize)

/-! ## One atomic step -/

namespace World

variable (w : World)

def enterAllocate (tid : ThreadId) (args : AllocArgs) (k : After) : Point :=
  if w.guardActive tid ∨ ¬ w.initialized then .systemAlloc args.size k else .drawId args k

/-- `allocate` from `calculate_total_size` to the finished record. -/
def layOut (tid : ThreadId) (o : Oracle) (args : AllocArgs) (allocId : Word) (k : After) :
    World × Point :=
  let effAlign := effectiveAlignment args.alignment
  let totalSize := calculateTotalSize args.size effAlign w.config.footerSize
  if totalSize = 0 then (w, k.next 0)
  else
    let raw := w.rawSystemAlloc o totalSize
    if raw.2 = 0 then (raw.1, k.next 0)
    else if SizesFit args.size effAlign w.config.footerSize then
      let block := initBlock w.mem o.malloc args.size effAlign w.config.footerSize allocId
        (w.finalTag tid args.tag) w.config.enableCanary tid
      ({ raw.1 with mem := block.2.1 },
        .addTotalBytes (w.recordOf o tid allocId args.size args.alignment args.tag block.1) k)
    else ({ raw.1 with fault := true }, k.next 0)

/-- The steps of `update_on_alloc` and `insert`. -/
def advanceAllocate (tid : ThreadId) (o : Oracle) : Point → World × Point
  | .drawId args k =>
    (w.passGate o tid args.size,
      if (w.gate o tid args.size).1 then .layOut args w.allocCounter k
      else .systemAlloc args.size k)
  | .systemAlloc size k => ((w.rawSystemAlloc o size).1, k.next (w.rawSystemAlloc o size).2)
  | .layOut args allocId k => w.layOut tid o args allocId k
  | .addTotalBytes r k =>
    ({ w with stats := w.stats.addTotalAllocatedBytes r.requestedSize }, .addTotalCount r k)
  | .addTotalCount r k => ({ w with stats := w.stats.addTotalAllocationCount }, .addActive r k)
  | .addActive r k => ({ w with stats := w.stats.addActiveAllocationCount }, .addCurrent r k)
  | .addCurrent r k =>
    let stats := w.stats.addCurrentAllocatedBytes r.requestedSize
    ({ w with stats := stats }, .loadPeak r stats.currentAllocatedBytes k)
  | .loadPeak r current k => (w, .raisePeak r current w.stats.peakAllocatedBytes k)
  | .raisePeak r current peak k =>
    if current > peak then
      if w.stats.peakAllocatedBytes = peak ∧ ¬ o.spurious then
        ({ w with stats := w.stats.storePeak current }, .insert r k)
      else (w, .raisePeak r current w.stats.peakAllocatedBytes k)
    else (w, .insert r k)
  | .insert r k => (w.trackerInsert r.userPtr r, .checkLimit r.userPtr k)
  | .checkLimit ptr k => (w.checkLimit, k.next ptr)
  | p => (w, p)

/-- The steps of `deallocate`. -/
def advanceDeallocate : Point → World × Point
  | .erase ptr result =>
    if ptr = 0 then (w, .finish result)
    else
      let erased := w.tracker.erase ptr
      match erased.1 with
      | .success => (w.trackerErase ptr, .verify (erased.2.1.getD {}) ptr result)
      | .doubleFreeDetected => ((w.trackerErase ptr).alert ptr .doubleFree, .finish result)
      | .notFound => ((w.trackerErase ptr).releaseUntracked ptr, .finish result)
  | .verify r ptr result =>
    let verdict := verifyCanary w.mem r.rawPtr w.config.footerSize
    let w := w.emit (.inspect verdict.2)
    (if verdict.1 ≠ .none then w.alert ptr verdict.1 else w, .addFreedBytes r verdict.1 result)
  | .addFreedBytes r verdict result =>
    ({ w with stats := w.stats.addTotalFreedBytes r.requestedSize },
      .addFreeCount r verdict result)
  | .addFreeCount r verdict result =>
    ({ w with stats := w.stats.addTotalFreeCount }, .subActive r verdict result)
  | .subActive r verdict result =>
    ({ w with stats := w.stats.subActiveAllocationCount }, .subCurrent r verdict result)
  | .subCurrent r verdict result =>
    ({ w with stats := w.stats.subCurrentAllocatedBytes r.requestedSize },
      .recordSize r verdict result)
  | .recordSize r verdict result =>
    ({ w with freeHist := w.freeHist.record r.requestedSize },
      if verdict = .none then .poison r result else .finish result)
  | .poison r result =>
    let poisoned := poisonBlock w.mem r.rawPtr w.config.footerSize
    (World.emit { w with mem := poisoned.1 } (.inspect poisoned.2), .freeBlock r result)
  | .freeBlock r result => (w.rawSystemFree r.rawPtr, .finish result)
  | .systemFree ptr => (w.rawSystemFree ptr, .finish 0)
  | p => (w, p)

/-- The steps of `reallocate` outside `allocate` and `deallocate`. -/
def advanceReallocate (tid : ThreadId) (o : Oracle) : Point → World × Point
  | .find ptr newSize =>
    ({ w with calls := .find ptr :: w.calls },
      match w.tracker.find ptr with
      | none => .systemRealloc ptr newSize
      | some r => .checkOld ptr r newSize)
  | .checkOld ptr r newSize =>
    (w.checkOldBlock ptr r,
      w.enterAllocate tid ⟨newSize, r.alignment, r.tag⟩ (.moveFrom ptr r newSize))
  | .copy newPtr ptr bytes => (w.copyPayload newPtr ptr bytes, .erase ptr newPtr)
  | .systemRealloc ptr newSize =>
    let moved := w.rawSystemRealloc o ptr newSize
    (moved.1, .finish (if moved.2 ≠ 0 then moved.2 else if newSize = 0 then 0 else ptr))
  | p => (w, p)

def advance (tid : ThreadId) (o : Oracle) : Point → World × Point
  | .idle => (w, .idle)
  | .finish _ => (w, .idle)
  | p@(.erase ..) | p@(.verify ..) | p@(.addFreedBytes ..) | p@(.addFreeCount ..)
  | p@(.subActive ..) | p@(.subCurrent ..) | p@(.recordSize ..) | p@(.poison ..)
  | p@(.freeBlock ..) | p@(.systemFree ..) => w.advanceDeallocate p
  | p@(.find ..) | p@(.checkOld ..) | p@(.copy ..) | p@(.systemRealloc ..) =>
    w.advanceReallocate tid o p
  | p => w.advanceAllocate tid o p

/-! ## Calls -/

end World

inductive Request
  | alloc (size alignment : Word) (tag : Ptr)
  | free (ptr : Ptr)
  | realloc (ptr : Ptr) (newSize : Word)
  deriving DecidableEq, Repr

/-- The pointer that a client gives up with its call. -/
def Request.pointers : Request → Multiset Ptr
  | .alloc .. => 0
  | .free ptr => nonNull ptr
  | .realloc ptr _ => nonNull ptr

/-- The pointer that a client gets when the call returns. -/
def Point.given : Point → Multiset Ptr
  | .finish ptr => nonNull ptr
  | _ => 0

/-- Where `track_alloc`, `track_free` and `track_realloc` start. -/
def World.enter (w : World) (tid : ThreadId) : Request → Point
  | .alloc size alignment tag => w.enterAllocate tid ⟨size, alignment, tag⟩ .done
  | .free ptr =>
    if ptr = 0 then .finish 0
    else if w.guardActive tid then .systemFree ptr
    else .erase ptr 0
  | .realloc ptr newSize =>
    if w.guardActive tid ∨ ¬ w.initialized then .systemRealloc ptr newSize
    else if ptr = 0 then w.enterAllocate tid ⟨newSize, w.config.alignment, 0⟩ .done
    else if newSize = 0 then .erase ptr 0
    else .find ptr newSize

/-! ## The machine -/

structure Machine (ι : Type) where
  world : World
  held : Multiset Ptr
  pool : ι → Point

inductive Event (ι : Type)
  | call (i : ι) (q : Request)
  | advance (i : ι) (o : Oracle)
  | setCurrentTag (i : ι) (tag : Ptr)
  | store (mem : Memory)

namespace Machine

variable {ι : Type} [DecidableEq ι]

/-- All threads idle, right after `init`. -/
def start (config : Config) (mem : Memory) : Machine ι where
  world := (World.start mem).init config
  held := 0
  pool := fun _ => .idle

/-- No operation is in progress. -/
def Quiescent (s : Machine ι) : Prop := ∀ i, s.pool i = .idle

variable (tid : ι → ThreadId) (s : Machine ι)

def step : Event ι → Machine ι
  | .call i q =>
    { world := s.world.clearLog
      held := s.held - q.pointers
      pool := update s.pool i (s.world.enter (tid i) q) }
  | .advance i o =>
    let next := s.world.clearLog.advance (tid i) o (s.pool i)
    { world := next.1
      held := s.held + (s.pool i).given
      pool := update s.pool i next.2 }
  | .setCurrentTag i tag => { s with world := s.world.clearLog.setCurrentTag (tid i) tag }
  | .store mem => { s with world := { s.world.clearLog with mem := mem } }

/-- What an event may rely on: a thread calls when it is idle and with a pointer that a
client holds, and the system allocator answers with memory that overlaps no live block. -/
structure Legal (e : Event ι) : Prop where
  defined : s.world.fault = false
  idle : ∀ i q, e = .call i q → s.pool i = .idle
  holding : ∀ i q, e = .call i q → q.pointers ≤ s.held
  fresh : ∀ a ∈ (s.step tid e).world.log, a.Fresh s.world.heap

/-- The legal runs in which every event meets a further condition. -/
def system (cond : Machine ι → Event ι → Prop) : System (Machine ι) (Event ι) where
  step := fun s e => s.step tid e
  guard := fun s e => s.Legal tid e ∧ cond s e

end Machine

/-! ## Totals that do not wrap -/

/-- The identifiers, the byte total and the size of the block do not wrap in the next
step of a thread. -/
def World.NoWrap (w : World) : Point → Prop
  | .drawId _ _ => w.allocCounter.toNat + 1 < 2 ^ 64
  | .layOut args _ _ =>
    calculateTotalSize args.size (effectiveAlignment args.alignment) w.config.footerSize = 0 ∨
      SizesFit args.size (effectiveAlignment args.alignment) w.config.footerSize
  | .addTotalBytes r _ => w.stats.totalAllocatedBytes.toNat + r.requestedSize.toNat < 2 ^ 64
  | _ => True

instance (w : World) (p : Point) : Decidable (w.NoWrap p) :=
  match p with
  | .drawId .. | .addTotalBytes .. => inferInstanceAs (Decidable (_ < _))
  | .layOut .. => inferInstanceAs (Decidable (_ ∨ _))
  | .idle | .systemAlloc .. | .addTotalCount .. | .addActive .. | .addCurrent .. | .loadPeak ..
  | .raisePeak .. | .insert .. | .checkLimit .. | .erase .. | .verify .. | .addFreedBytes ..
  | .addFreeCount .. | .subActive .. | .subCurrent .. | .recordSize .. | .poison ..
  | .freeBlock .. | .systemFree .. | .find .. | .checkOld .. | .copy .. | .systemRealloc ..
  | .finish .. => isTrue trivial

/-- No step of the event wraps a total. -/
def Machine.NoWrap {ι : Type} (s : Machine ι) (e : Event ι) : Prop :=
  ∀ i o, e = .advance i o → s.world.NoWrap (s.pool i)

instance {ι : Type} (s : Machine ι) (e : Event ι) : Decidable (s.NoWrap e) :=
  match e with
  | .advance i o => decidable_of_iff (s.world.NoWrap (s.pool i))
    ⟨fun h _ _ he => by cases he; exact h, fun h => h i o rfl⟩
  | .call .. | .setCurrentTag .. | .store _ => isTrue fun _ _ he => by cases he

/-- The machine in which no total wraps. -/
def Machine.accountable {ι : Type} [DecidableEq ι] (tid : ι → ThreadId) :
    System (Machine ι) (Event ι) :=
  system tid fun s e => s.NoWrap e

/-- Every allocation is tracked, and there is no watchdog. -/
structure Config.Plain (c : Config) : Prop where
  rate : c.samplingRateBytes = 0
  everyN : ¬ c.sampleEveryN > 1
  percentage : ¬ c.samplingPercentage < 100
  watchdog : c.onLimitExceeded = false

end MemSentry
