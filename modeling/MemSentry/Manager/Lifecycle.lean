import MemSentry.Manager.ComputedRuns
import MemSentry.Manager.SafeRuns

/-!
# Pointers across init and shutdown

A pointer may be obtained before `init`, while initialised, after `shutdown` or after a
second `init`, and released in any of these states. `deallocate` looks the pointer up
whatever the lifecycle state, so it finds the base of a tracked block after a shutdown
too. `track_realloc` does not: outside the initialised state it hands the pointer to the
system as it is, which for a tracked block is an address in the middle of the block
(`realloc_after_shutdown`).
-/

namespace MemSentry

open MemSentry.Core Function World Transition

/-- The calls are made with the guard inactive. -/
def Unguarded (w : World) : Call → Prop
  | .trackAlloc tid _ _ _ _ => w.guardActive tid = false
  | .trackFree tid _ => w.guardActive tid = false
  | .trackRealloc tid _ _ _ => w.guardActive tid = false
  | _ => True

/-- A tracked pointer is reallocated only while initialised, and the bytes below a
pointer that the tracker does not know are not taken for the back offset of a header. -/
def LifecycleSound (w : World) : Call → Prop
  | .trackFree _ ptr => NotMisread w ptr
  | .trackRealloc _ _ ptr newSize =>
    (w.initialized = false → w.tracker.find ptr = none) ∧
      (w.initialized = true → newSize = 0 → NotMisread w ptr)
  | _ => True

instance (w : World) (c : Call) : Decidable (Unguarded w c) :=
  match c with
  | .trackAlloc .. | .trackFree .. | .trackRealloc .. => inferInstanceAs (Decidable (_ = false))
  | .init _ | .shutdown | .enterGuard _ | .exitGuard _ | .setCurrentTag .. | .store _ =>
    isTrue trivial

instance (w : World) (c : Call) : Decidable (LifecycleSound w c) :=
  match c with
  | .trackFree .. => inferInstanceAs (Decidable (NotMisread _ _))
  | .trackRealloc .. => inferInstanceAs (Decidable ((_ → _) ∧ (_ → _ → NotMisread _ _)))
  | .init _ | .shutdown | .enterGuard _ | .exitGuard _ | .setCurrentTag .. | .trackAlloc ..
  | .store _ => isTrue trivial

theorem callSound_of_lifecycle {w : World} {c : Call} (hguard : Unguarded w c)
    (hsound : LifecycleSound w c) : CallSound w c := by
  cases c with
  | init config => trivial
  | shutdown => trivial
  | enterGuard tid => trivial
  | exitGuard tid => trivial
  | setCurrentTag tid tag => trivial
  | trackAlloc tid o size alignment tag => trivial
  | trackFree tid ptr =>
    have hg : w.guardActive tid = false := hguard
    right
    simp only [hg, Bool.false_eq_true, if_false]
    exact hsound
  | trackRealloc tid o ptr newSize =>
    have hg : w.guardActive tid = false := hguard
    right
    cases hi : w.initialized with
    | false => simpa only [hg, hi, or_true, if_true] using hsound.1 hi
    | true =>
      simp only [hg, Bool.false_eq_true, Bool.true_eq_false, or_self, if_false]
      exact hsound.2 hi
  | store mem => trivial

/-- **Pointers survive lifecycle changes**, as far as `LifecycleSound` goes: in every run
of such calls every pointer handed to `free` or `realloc` of the system is the base of a
block that it returned and that has not been released since. -/
theorem lifecycle_releases_bases {mem : Memory} {cs : List Call} {w : World}
    (hrun : Run (managerSystem PayloadWrites fun w c => Unguarded w c ∧ LifecycleSound w c)
      (World.start mem) cs w) : ∀ a ∈ w.log, a.OnLiveBlock :=
  (run_ok (fun _ _ h => callSound_of_lifecycle h.1 h.2) hrun (stepOk_start mem)).2

/-- A pointer from before `init` is moved by `realloc` while initialised; of two tracked ones
the first is freed after the shutdown and the second after another `init`, which then gets
back a pointer from between the two and the moved one. -/
def acrossLifecycles : List Call :=
  [.trackAlloc 1 { malloc := 0x10000 } 16 16 0, .init {},
    .trackAlloc 1 { malloc := 0x20000 } 16 16 0, .trackAlloc 2 { malloc := 0x30000 } 40 64 0,
    .trackRealloc 1 { malloc := 0x40000 } 0x10000 32, .shutdown, .trackFree 1 0x20050,
    .trackAlloc 2 { malloc := 0x50000 } 8 16 0, .init {}, .trackFree 2 0x30080,
    .trackFree 1 0x50000, .trackFree 2 0x40000]

/-- What the first calls lead to. -/
def acrossAfter (n : Nat) : World := World.after (fun _ => 0) (acrossLifecycles.take n)

theorem lifecycle_releases_bases_across :
    Run (managerSystem PayloadWrites fun w c => Unguarded w c ∧ LifecycleSound w c)
        (World.start fun _ => 0) acrossLifecycles (acrossAfter 12) ∧
      .systemRealloc 0x10000 32 0x40000 true ∈ (acrossAfter 5).log ∧
      (acrossAfter 7).initialized = false ∧ .systemFree 0x20000 true ∈ (acrossAfter 7).log ∧
      (acrossAfter 10).initialized = true ∧ .systemFree 0x30000 true ∈ (acrossAfter 10).log ∧
      ∀ n ≤ 12, ∀ a ∈ (acrossAfter n).log, a.OnLiveBlock := by
  have hruns : ∀ n ≤ 12, Run
      (managerSystem PayloadWrites fun w c => Unguarded w c ∧ LifecycleSound w c)
      (World.start fun _ => 0) (acrossLifecycles.take n) (acrossAfter n) := by
    intro n hn
    apply run_from_start
    revert n
    decide +kernel
  exact ⟨hruns 12 (Nat.le_refl _), by decide +kernel, by decide +kernel, by decide +kernel,
    by decide +kernel, by decide +kernel, fun n hn => lifecycle_releases_bases (hruns n hn)⟩

/-- A tracked pointer, reallocated after a shutdown: the system gets the user pointer, an
address 80 bytes above the base of the block. -/
theorem realloc_after_shutdown :
    ∃ (cs : List Call) (w : World),
      Run (managerSystem PayloadWrites Unguarded) (World.start fun _ => 0) cs w ∧
        ∃ a ∈ w.log, ¬ a.OnLiveBlock := by
  have hfirst : Fresh (fun _ => none) 0x10000 116 := fresh_empty (by decide)
  have hsecond : Fresh (fun _ => none) 0x20000 32 := fresh_empty (by decide)
  refine ⟨[.init {}, .trackAlloc 1 { malloc := 0x10000 } 16 16 0, .shutdown,
    .trackRealloc 1 { malloc := 0x20000 } 0x10050 32], _,
    .cons ⟨?_, trivial⟩ (.cons ⟨?_, rfl⟩ (.cons ⟨?_, trivial⟩ (.cons ⟨?_, rfl⟩ (.nil _)))),
    .systemRealloc 0x10050 32 0x20000 false, List.mem_cons_self, Bool.false_ne_true⟩
  · exact permitted_of_log rfl trivial rfl fun a ha => absurd ha List.not_mem_nil
  · refine permitted_of_log rfl trivial rfl fun a ha => ?_
    rw [List.mem_singleton.mp ha]
    exact fun _ => hfirst
  · exact permitted_of_log rfl trivial rfl fun a ha => absurd ha List.not_mem_nil
  · refine permitted_of_log rfl (Or.inr ⟨⟨0x10000, 16⟩, rfl⟩) rfl fun a ha => ?_
    rw [List.mem_singleton.mp ha]
    exact fun _ => (hsecond.update_some (Or.inr (by decide))).update_none

end MemSentry
