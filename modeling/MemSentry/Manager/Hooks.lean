import MemSentry.Manager.Operations

/-!
# The allocator hooks

The C functions and operators of `allocator_hooks.cpp`, all of them calls of
`track_alloc`, `track_free` or `track_realloc`. A string literal that serves as a tag is
an address; nothing but its not being null matters.
-/

namespace MemSentry

open ByteMemory MemSentry.Core

def mallocTag : Ptr := 0x402018#64
def callocTag : Ptr := 0x402020#64
def alignedAllocTag : Ptr := 0x402028#64

def einval : Nat := 22
def enomem : Nat := 12

namespace World

variable (w : World)

def memsentryMalloc (o : Oracle) (tid : ThreadId) (size : Word) : World × Ptr :=
  w.trackAlloc o tid size 16 mallocTag

/-- `total = num * size` wraps like any `size_t`. -/
def memsentryCalloc (o : Oracle) (tid : ThreadId) (num size : Word) : World × Ptr :=
  let total := num * size
  let r := w.trackAlloc o tid total 16 callocTag
  if r.2 ≠ 0 then
    ({ r.1 with mem := writeBytes r.1.mem r.2 (List.replicate total.toNat 0) }, r.2)
  else r

def memsentryRealloc (o : Oracle) (tid : ThreadId) (ptr : Ptr) (newSize : Word) : World × Ptr :=
  w.trackRealloc o tid ptr newSize

def memsentryFree (tid : ThreadId) (ptr : Ptr) : World := w.trackFree tid ptr

def memsentryAlignedAlloc (o : Oracle) (tid : ThreadId) (alignment size : Word) : World × Ptr :=
  w.trackAlloc o tid size alignment alignedAllocTag

/-- The return value and, on success, what is stored through `memptr`. -/
def memsentryPosixMemalign (o : Oracle) (tid : ThreadId) (memptr alignment size : Word) :
    World × Nat × Option Ptr :=
  if memptr = 0 then (w, einval, none)
  else if alignment &&& (alignment - 1) ≠ 0 ∨ alignment % 8 ≠ 0 then (w, einval, none)
  else
    let r := w.memsentryAlignedAlloc o tid alignment size
    if r.2 = 0 then (r.1, enomem, none) else (r.1, 0, some r.2)

/-- `operator new(size)` and `operator new[](size)`; `none` is the `bad_alloc` thrown. -/
def operatorNew (o : Oracle) (tid : ThreadId) (size : Word) : World × Option Ptr :=
  let r := w.trackAlloc o tid size 16 0
  if r.2 = 0 then (r.1, none) else (r.1, some r.2)

/-- `operator new(size, align_val_t)` and its array form. -/
def operatorNewAligned (o : Oracle) (tid : ThreadId) (size alignment : Word) :
    World × Option Ptr :=
  let r := w.trackAlloc o tid size alignment 0
  if r.2 = 0 then (r.1, none) else (r.1, some r.2)

/-- The `nothrow` forms of the two. -/
def operatorNewNothrow (o : Oracle) (tid : ThreadId) (size : Word) : World × Ptr :=
  w.trackAlloc o tid size 16 0

def operatorNewAlignedNothrow (o : Oracle) (tid : ThreadId) (size alignment : Word) :
    World × Ptr :=
  w.trackAlloc o tid size alignment 0

/-- Every form of `operator delete`. -/
def operatorDelete (tid : ThreadId) (ptr : Ptr) : World := w.trackFree tid ptr

end World

end MemSentry
