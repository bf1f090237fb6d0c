import MemSentry.Manager.Operations
import MemSentry.Library.Transition

/-!
# Runs of the manager

A run is a sequence of calls by any threads, one after the other, with writes to the
memory in between. `step` performs one of them with an empty log, so that the log of
the state after a step is what that step has done.

`Permitted` says what a call may rely on, and nothing about the manager: the client
releases or reallocates only pointers it holds, the system allocator answers with memory
that overlaps no live block, and nothing runs once the behaviour is undefined. What the
writes in between may touch is a parameter (`mayWrite`).
-/

namespace MemSentry

open ByteMemory MemSentry.Core Function Transition

inductive Call
  | init (config : Config)
  | shutdown
  | enterGuard (tid : ThreadId)
  | exitGuard (tid : ThreadId)
  | setCurrentTag (tid : ThreadId) (tag : Ptr)
  | trackAlloc (tid : ThreadId) (o : Oracle) (size alignment tag : Word)
  | trackFree (tid : ThreadId) (ptr : Ptr)
  | trackRealloc (tid : ThreadId) (o : Oracle) (ptr : Ptr) (newSize : Word)
  /-- Writes by the clients, and by the system to memory that is not in use. -/
  | store (mem : Memory)

namespace World

variable (w : World)

def clearLog : World := { w with log := [] }

/-- The lease of a reallocated pointer moves to the new one; a failed reallocation leaves
it where it is. -/
def moveLease (ptr newPtr : Ptr) (newSize : Word) (l : Lease) : World :=
  if newPtr ≠ 0 then (w.unlease ptr).lease newPtr l
  else if newSize = 0 then w.unlease ptr
  else w

def step : Call → World
  | .init config => w.clearLog.init config
  | .shutdown => w.clearLog.shutdown
  | .enterGuard tid => w.clearLog.enterGuard tid
  | .exitGuard tid => w.clearLog.exitGuard tid
  | .setCurrentTag tid tag => w.clearLog.setCurrentTag tid tag
  | .trackAlloc tid o size alignment tag =>
    let r := w.clearLog.trackAlloc o tid size alignment tag
    r.1.lease r.2 ⟨o.malloc, size⟩
  | .trackFree tid ptr => (w.clearLog.unlease ptr).trackFree tid ptr
  | .trackRealloc tid o ptr newSize =>
    let r := w.clearLog.trackRealloc o tid ptr newSize
    r.1.moveLease ptr r.2 newSize ⟨o.malloc, newSize⟩
  | .store mem => { w.clearLog with mem := mem }

end World

/-! ## What a call may rely on -/

/-- The block overlaps no live block and lies in the address space. -/
def Fresh (heap : Ptr → Option Nat) (base : Ptr) (size : Word) : Prop :=
  base.toNat + World.extent size ≤ 2 ^ 64 ∧
    ∀ b n, heap b = some n →
      base.toNat + World.extent size ≤ b.toNat ∨ b.toNat + n ≤ base.toNat

theorem fresh_empty {base : Ptr} {size : Word} (h : base.toNat + World.extent size ≤ 2 ^ 64) :
    Fresh (fun _ => none) base size :=
  ⟨h, fun _ _ hb => by cases hb⟩

theorem Fresh.update_some {heap : Ptr → Option Nat} {base b : Ptr} {size : Word} {n : Nat}
    (h : Fresh heap base size)
    (hb : base.toNat + World.extent size ≤ b.toNat ∨ b.toNat + n ≤ base.toNat) :
    Fresh (update heap b (some n)) base size := by
  refine ⟨h.1, fun c k hc => ?_⟩
  by_cases hcb : c = b
  · rw [hcb, update_self] at hc
    cases hc
    rw [hcb]
    exact hb
  · rw [update_of_ne hcb] at hc
    exact h.2 c k hc

theorem Fresh.update_none {heap : Ptr → Option Nat} {base b : Ptr} {size : Word}
    (h : Fresh heap base size) : Fresh (update heap b none) base size := by
  refine ⟨h.1, fun c k hc => ?_⟩
  by_cases hcb : c = b
  · rw [hcb, update_self] at hc
    cases hc
  · rw [update_of_ne hcb] at hc
    exact h.2 c k hc

/-- The answer of the system allocator, if it gave one, is fresh. -/
def Action.Fresh (heap : Ptr → Option Nat) : Action → Prop
  | .systemAlloc size answer => answer ≠ 0 → MemSentry.Fresh heap answer size
  | .systemRealloc ptr size answer _ =>
    answer ≠ 0 → MemSentry.Fresh (update heap ptr none) answer size
  | _ => True

def Held (w : World) (ptr : Ptr) : Prop := ptr = 0 ∨ ∃ l, w.leases ptr = some l

def Disciplined (mayWrite : World → Memory → Prop) (w : World) : Call → Prop
  | .exitGuard tid => w.guardActive tid
  | .trackFree _ ptr => Held w ptr
  | .trackRealloc _ _ ptr _ => Held w ptr
  | .store mem => mayWrite w mem
  | _ => True

structure Permitted (mayWrite : World → Memory → Prop) (w : World) (c : Call) : Prop where
  defined : w.fault = false
  disciplined : Disciplined mayWrite w c
  fresh : ∀ a ∈ (w.step c).log, a.Fresh w.heap

theorem permitted_of_log {mayWrite : World → Memory → Prop} {w : World} {c : Call}
    {as : List Action} (hfault : w.fault = false) (hdisciplined : Disciplined mayWrite w c)
    (hlog : (w.step c).log = as) (hfresh : ∀ a ∈ as, a.Fresh w.heap) : Permitted mayWrite w c :=
  ⟨hfault, hdisciplined, fun a ha => hfresh a (hlog ▸ ha)⟩

/-- The runs in which every step is permitted and meets a further condition. -/
def managerSystem (mayWrite : World → Memory → Prop) (cond : World → Call → Prop) :
    System World Call where
  step := World.step
  guard := fun w c => Permitted mayWrite w c ∧ cond w c

/-- Writes of clients inside their payloads, and of the system outside every live
block. -/
def PayloadWrites (w : World) (mem : Memory) : Prop :=
  ∀ a, mem a ≠ w.mem a →
    (∃ p l, w.leases p = some l ∧ InSpan p l.size.toNat a) ∨
      ∀ b n, w.heap b = some n → ¬ InSpan b n a

end MemSentry
