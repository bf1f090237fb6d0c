import MemSentry.Library.Simulation
import Mathlib.Logic.Function.Basic

/-!
# Objects whose operations take effect at one moment

Threads call the operations of an object. An operation takes effect at one moment between
its call and its answer, unseen, and what it answers is settled then. Besides, the threads
may access the object directly, in one step that everybody sees. An implementation whose
every history of calls, answers and accesses is a history of such an object is linearizable.

What the operations and the accesses keep is kept by every run (`run_object`).
-/

namespace AtomicObject

open Simulation Function

variable {ι σ ο ρ α : Type}

/-- What the operations `ο` with the answers `ρ`, and the accesses `α`, may do to a state. -/
structure Object (σ ο ρ α : Type) where
  perform : σ → ο → ρ → σ → Prop
  access : σ → α → σ → Prop

/-- What can be seen of the object. -/
inductive Event (ι ο ρ α : Type)
  | call (i : ι) (o : ο)
  | answer (i : ι) (r : ρ)
  | access (a : α)
  deriving DecidableEq

/-- A thread that has called has its request until this takes effect, and then its answer. -/
structure State (ι σ ο ρ : Type) where
  object : σ
  pool : ι → Option (ο ⊕ ρ)

def State.start (x : σ) : State ι σ ο ρ := ⟨x, fun _ => none⟩

variable [DecidableEq ι] (X : Object σ ο ρ α)

inductive Step : State ι σ ο ρ → Option (Event ι ο ρ α) → State ι σ ο ρ → Prop
  | call (s : State ι σ ο ρ) (i : ι) (o : ο) (h : s.pool i = none) :
      Step s (some (.call i o)) ⟨s.object, update s.pool i (some (.inl o))⟩
  | perform (s : State ι σ ο ρ) (i : ι) (o : ο) (r : ρ) (x : σ) (h : s.pool i = some (.inl o))
      (hx : X.perform s.object o r x) : Step s none ⟨x, update s.pool i (some (.inr r))⟩
  | answer (s : State ι σ ο ρ) (i : ι) (r : ρ) (h : s.pool i = some (.inr r)) :
      Step s (some (.answer i r)) ⟨s.object, update s.pool i none⟩
  | access (s : State ι σ ο ρ) (a : α) (x : σ) (hx : X.access s.object a x) :
      Step s (some (.access a)) ⟨x, s.pool⟩

variable {X} {s t : State ι σ ο ρ}

/-- What no operation and no access breaks holds of the object all the time. -/
theorem run_object {I : σ → Prop} (hperform : ∀ x o r y, I x → X.perform x o r y → I y)
    (haccess : ∀ x a y, I x → X.access x a y → I y) {es : List (Event ι ο ρ α)}
    (h : Run (Step X) s es t) (hs : I s.object) : I t.object := by
  refine h.invariant (I := fun s => I s.object) (fun s l t hs hstep => ?_) hs
  cases hstep with
  | call i o h => exact hs
  | perform i o r x h hx => exact hperform _ _ _ _ hs hx
  | answer i r h => exact hs
  | access a x hx => exact haccess _ _ _ hs hx

/-- A call that takes effect at once. -/
theorem run_call_perform {i : ι} {o : ο} {r : ρ} {x : σ} (h : s.pool i = none)
    (hx : X.perform s.object o r x) :
    Run (Step X) s [.call i o] ⟨x, update s.pool i (some (.inr r))⟩ := by
  have hcall : Step X s (some (.call i o)) ⟨s.object, update s.pool i (some (.inl o))⟩ :=
    .call s i o h
  have hperform := Step.perform (X := X) ⟨s.object, update s.pool i (some (.inl o))⟩ i o r x
    (update_self _ _ _) hx
  rw [update_idem] at hperform
  exact .cons hcall (.single hperform)

end AtomicObject
