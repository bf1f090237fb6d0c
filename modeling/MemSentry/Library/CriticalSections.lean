import MemSentry.Library.Simulation
import Mathlib.Logic.Function.Basic

/-!
# Critical sections are atomic

An object is a family of cells, each with a lock of its own. A call on it goes through
critical sections one after the other. In a section the thread holds the lock of one cell
and works on that cell, one access at a time; between two sections it holds no lock.
`Code` is such an object, and in `Locked.Step` any number of threads run calls on it, their
accesses interleaved in any way that the locks allow.

`Atomic.Step` is the same object with every section done in one step. A section takes
effect there when its lock is released. The relation that carries the simulation
(`Related`) says that the atomic cell is the cell as the section found it, and that the
accesses done so far lead from there to the cell as it is now. So whatever the threads see
of the locked object, they may see of the atomic one (`locked_refines_atomic`), and the
other way round (`locked_iff_atomic`).
-/

namespace CriticalSections

open Simulation Function

variable {ι κ σ ο ν μ ρ : Type}

/-- The code of the calls `ο`. A call is at the point before a section (`ν`) or has its
answer (`ρ`); in a section it is at a point `μ`. -/
structure Code (κ σ ο ν μ ρ : Type) where
  start : ο → ν ⊕ ρ
  /-- The cell whose lock the section takes. -/
  cell : ν → κ
  first : ν → μ
  /-- One access to the cell: the cell after it, and where the call goes on, in the section
  or out of it. -/
  access : ν → μ → σ → σ → μ ⊕ (ν ⊕ ρ) → Prop

/-- The accesses of a section lead from one point and cell to another. -/
def Code.Reaches (code : Code κ σ ο ν μ ρ) (n : ν) : μ × σ → μ × σ → Prop :=
  Relation.ReflTransGen fun a b => code.access n a.1 a.2 b.2 (.inl b.1)

/-- The whole section, from its first access to its last. -/
def Code.Section (code : Code κ σ ο ν μ ρ) (n : ν) (c c' : σ) (x : ν ⊕ ρ) : Prop :=
  ∃ m d, code.Reaches n (code.first n, c) (m, d) ∧ code.access n m d c' (.inr x)

/-- What holds of the cell when the section begins and is kept by its accesses holds when
the last one is made. -/
theorem Code.Section.invariant {code : Code κ σ ο ν μ ρ} {I : μ → σ → Prop} {n : ν} {c c' : σ}
    {x : ν ⊕ ρ}
    (h : code.Section n c c' x) (hfirst : I (code.first n) c)
    (hkeep : ∀ m d m' d', I m d → code.access n m d d' (.inl m') → I m' d') :
    ∃ m d, I m d ∧ code.access n m d c' (.inr x) := by
  obtain ⟨m, d, hreach, hlast⟩ := h
  have hall : ∀ b, code.Reaches n (code.first n, c) b → I b.1 b.2 := by
    intro b hb
    induction hb with
    | refl => exact hfirst
    | tail _ haccess ih => exact hkeep _ _ _ _ ih haccess
  exact ⟨m, d, hall _ hreach, hlast⟩

/-- What a client sees. -/
inductive Event (ι ο ρ : Type)
  | call (i : ι) (o : ο)
  | answer (i : ι) (r : ρ)
  deriving DecidableEq

/-! ## The object with its locks -/

inductive Point (ν μ ρ : Type)
  | idle
  /-- No lock is held: before a section, or with the answer. -/
  | outside (x : ν ⊕ ρ)
  | inside (n : ν) (m : μ)
  /-- The accesses of the section are done and the lock is still held. -/
  | leaving (n : ν) (x : ν ⊕ ρ)

structure Locked (ι κ σ ν μ ρ : Type) where
  cells : κ → σ
  owner : κ → Option ι
  pool : ι → Point ν μ ρ

def Locked.start (cells : κ → σ) : Locked ι κ σ ν μ ρ := ⟨cells, fun _ => none, fun _ => .idle⟩

variable [DecidableEq ι] [DecidableEq κ] (code : Code κ σ ο ν μ ρ)

inductive Locked.Step :
    Locked ι κ σ ν μ ρ → Option (Event ι ο ρ) → Locked ι κ σ ν μ ρ → Prop
  | call (s : Locked ι κ σ ν μ ρ) (i : ι) (o : ο) (h : s.pool i = .idle) :
      Step s (some (.call i o)) { s with pool := update s.pool i (.outside (code.start o)) }
  | lock (s : Locked ι κ σ ν μ ρ) (i : ι) (n : ν) (h : s.pool i = .outside (.inl n))
      (hfree : s.owner (code.cell n) = none) :
      Step s none { s with
        owner := update s.owner (code.cell n) (some i)
        pool := update s.pool i (.inside n (code.first n)) }
  | access (s : Locked ι κ σ ν μ ρ) (i : ι) (n : ν) (m m' : μ) (c : σ)
      (h : s.pool i = .inside n m)
      (haccess : code.access n m (s.cells (code.cell n)) c (.inl m')) :
      Step s none { s with
        cells := update s.cells (code.cell n) c
        pool := update s.pool i (.inside n m') }
  | last (s : Locked ι κ σ ν μ ρ) (i : ι) (n : ν) (m : μ) (c : σ) (x : ν ⊕ ρ)
      (h : s.pool i = .inside n m)
      (haccess : code.access n m (s.cells (code.cell n)) c (.inr x)) :
      Step s none { s with
        cells := update s.cells (code.cell n) c
        pool := update s.pool i (.leaving n x) }
  | unlock (s : Locked ι κ σ ν μ ρ) (i : ι) (n : ν) (x : ν ⊕ ρ)
      (h : s.pool i = .leaving n x) :
      Step s none { s with
        owner := update s.owner (code.cell n) none
        pool := update s.pool i (.outside x) }
  | answer (s : Locked ι κ σ ν μ ρ) (i : ι) (r : ρ) (h : s.pool i = .outside (.inr r)) :
      Step s (some (.answer i r)) { s with pool := update s.pool i .idle }

/-! ## The object with atomic sections -/

/-- An idle thread has no place in the pool. -/
structure Atomic (ι κ σ ν ρ : Type) where
  cells : κ → σ
  pool : ι → Option (ν ⊕ ρ)

def Atomic.start (cells : κ → σ) : Atomic ι κ σ ν ρ := ⟨cells, fun _ => none⟩

inductive Atomic.Step :
    Atomic ι κ σ ν ρ → Option (Event ι ο ρ) → Atomic ι κ σ ν ρ → Prop
  | call (s : Atomic ι κ σ ν ρ) (i : ι) (o : ο) (h : s.pool i = none) :
      Step s (some (.call i o)) { s with pool := update s.pool i (some (code.start o)) }
  | perform (s : Atomic ι κ σ ν ρ) (i : ι) (n : ν) (c : σ) (x : ν ⊕ ρ)
      (h : s.pool i = some (.inl n)) (hsection : code.Section n (s.cells (code.cell n)) c x) :
      Step s none { s with
        cells := update s.cells (code.cell n) c
        pool := update s.pool i (some x) }
  | answer (s : Atomic ι κ σ ν ρ) (i : ι) (r : ρ) (h : s.pool i = some (.inr r)) :
      Step s (some (.answer i r)) { s with pool := update s.pool i none }

/-! ## The simulation -/

/-- The point without what happens inside a section: there, the section is still to come. -/
def Point.outline : Point ν μ ρ → Option (ν ⊕ ρ)
  | .idle => none
  | .outside x => some x
  | .inside n _ => some (.inl n)
  | .leaving n _ => some (.inl n)

/-- The thread is in a section of the cell. -/
def Point.Holds (code : Code κ σ ο ν μ ρ) (k : κ) : Point ν μ ρ → Prop
  | .inside n _ => code.cell n = k
  | .leaving n _ => code.cell n = k
  | _ => False

/-- What the accesses that a thread has done make of the cell as it found it. -/
def Point.Progress (code : Code κ σ ο ν μ ρ) (found now : κ → σ) : Point ν μ ρ → Prop
  | .inside n m => code.Reaches n (code.first n, found (code.cell n)) (m, now (code.cell n))
  | .leaving n x => code.Section n (found (code.cell n)) (now (code.cell n)) x
  | _ => True

structure Related (s : Locked ι κ σ ν μ ρ) (a : Atomic ι κ σ ν ρ) : Prop where
  pool : ∀ i, a.pool i = (s.pool i).outline
  free : ∀ k, s.owner k = none → a.cells k = s.cells k
  owns : ∀ i k, s.owner k = some i ↔ (s.pool i).Holds code k
  progress : ∀ i, (s.pool i).Progress code a.cells s.cells

omit [DecidableEq ι] [DecidableEq κ] in
theorem related_start (cells : κ → σ) :
    Related code (Locked.start cells : Locked ι κ σ ν μ ρ) (Atomic.start cells) where
  pool := fun _ => rfl
  free := fun _ _ => rfl
  owns := fun _ _ => ⟨fun h => (Option.some_ne_none _ h.symm).elim, fun h => h.elim⟩
  progress := fun _ => trivial

section Steps

variable {code} {s : Locked ι κ σ ν μ ρ} {a : Atomic ι κ σ ν ρ} {i : ι}

omit [DecidableEq ι] [DecidableEq κ] in
/-- A cell is in the hands of one thread at most. -/
theorem Related.holder_unique (h : Related code s a) {j : ι} {k : κ}
    (hi : (s.pool i).Holds code k) (hj : (s.pool j).Holds code k) : i = j := by
  have howner := (h.owns i k).mpr hi
  rw [(h.owns j k).mpr hj] at howner
  exact (Option.some.inj howner).symm

omit [DecidableEq κ] in
theorem pool_update (h : Related code s a) {p : Point ν μ ρ} {x : Option (ν ⊕ ρ)}
    (hp : p.outline = x) (j : ι) : update a.pool i x j = (update s.pool i p j).outline := by
  by_cases hj : j = i
  · rw [hj, update_self, update_self, hp]
  · rw [update_of_ne hj, update_of_ne hj]
    exact h.pool j

omit [DecidableEq κ] in
/-- A step of a thread that neither takes nor gives back a lock. -/
theorem owns_update (h : Related code s a) {p : Point ν μ ρ}
    (hp : ∀ k, p.Holds code k ↔ (s.pool i).Holds code k) (j : ι) (k : κ) :
    s.owner k = some j ↔ (update s.pool i p j).Holds code k := by
  by_cases hj : j = i
  · rw [hj, update_self, hp]
    exact h.owns i k
  · rw [update_of_ne hj]
    exact h.owns j k

omit [DecidableEq κ] in
/-- Writing to a cell that another thread holds does not touch the progress of a thread. -/
theorem progress_of_other {found found' now now' : κ → σ} {p : Point ν μ ρ}
    (hprogress : p.Progress code found now)
    (hkeep : ∀ k, p.Holds code k → found' k = found k ∧ now' k = now k) :
    p.Progress code found' now' := by
  cases p with
  | idle => trivial
  | outside x => trivial
  | inside n m =>
    obtain ⟨hfound, hnow⟩ := hkeep _ rfl
    simp only [Point.Progress, hfound, hnow]
    exact hprogress
  | leaving n x =>
    obtain ⟨hfound, hnow⟩ := hkeep _ rfl
    simp only [Point.Progress, hfound, hnow]
    exact hprogress

omit [DecidableEq κ] in
/-- A step outside all sections. -/
theorem Related.outside_step (h : Related code s a) {p : Point ν μ ρ} {x : Option (ν ⊕ ρ)}
    (hp : p.outline = x) (hnow : ∀ k, ¬ (s.pool i).Holds code k) (hthen : ∀ k, ¬ p.Holds code k)
    (hprogress : p.Progress code a.cells s.cells) :
    Related code { s with pool := update s.pool i p } { a with pool := update a.pool i x } where
  pool := pool_update h hp
  free := h.free
  owns := owns_update h fun k => ⟨fun hk => absurd hk (hthen k), fun hk => absurd hk (hnow k)⟩
  progress := by
    intro j
    by_cases hj : j = i
    · rw [hj]
      simp only [update_self]
      exact hprogress
    · simp only [update_of_ne hj]
      exact h.progress j

theorem Related.lock_step (h : Related code s a) {n : ν} (hi : s.pool i = .outside (.inl n))
    (hfree : s.owner (code.cell n) = none) :
    Related code { s with
      owner := update s.owner (code.cell n) (some i)
      pool := update s.pool i (.inside n (code.first n)) } a where
  pool := by
    intro j
    by_cases hj : j = i
    · rw [hj]
      simp only [update_self]
      rw [h.pool i, hi]
      rfl
    · simp only [update_of_ne hj]
      exact h.pool j
  free := by
    intro k hk
    by_cases hkn : k = code.cell n
    · rw [hkn] at hk
      simp only [update_self] at hk
      cases hk
    · simp only [update_of_ne hkn] at hk
      exact h.free k hk
  owns := by
    intro j k
    by_cases hkn : k = code.cell n
    · subst k
      by_cases hj : j = i
      · subst j
        simp only [update_self]
        exact ⟨fun _ => rfl, fun _ => trivial⟩
      · simp only [update_self, update_of_ne hj]
        refine ⟨fun hji => absurd (Option.some.inj hji).symm hj, fun hold => ?_⟩
        rw [← h.owns j, hfree] at hold
        cases hold
    · by_cases hj : j = i
      · subst j
        simp only [update_of_ne hkn, update_self]
        rw [h.owns i k, hi]
        exact ⟨fun hk => hk.elim, fun hk => absurd hk.symm hkn⟩
      · simp only [update_of_ne hkn, update_of_ne hj]
        exact h.owns j k
  progress := by
    intro j
    by_cases hj : j = i
    · subst j
      simp only [update_self, Point.Progress]
      rw [h.free _ hfree]
      exact .refl
    · simp only [update_of_ne hj]
      exact h.progress j

/-- An access of the thread that holds the cell. -/
theorem Related.access_step (h : Related code s a) {n : ν} {c : σ} {p : Point ν μ ρ}
    (hi : (s.pool i).Holds code (code.cell n)) (hp : p.outline = some (.inl n))
    (houtline : (s.pool i).outline = some (.inl n))
    (hholds : ∀ k, p.Holds code k ↔ (s.pool i).Holds code k)
    (hprogress : p.Progress code a.cells (update s.cells (code.cell n) c)) :
    Related code { s with
      cells := update s.cells (code.cell n) c
      pool := update s.pool i p } a where
  pool := by
    intro j
    by_cases hj : j = i
    · rw [hj]
      simp only [update_self]
      rw [h.pool i, houtline, hp]
    · simp only [update_of_ne hj]
      exact h.pool j
  free := by
    intro k hk
    have hkn : k ≠ code.cell n := by
      rintro rfl
      rw [(h.owns i _).mpr hi] at hk
      cases hk
    simp only [update_of_ne hkn]
    exact h.free k hk
  owns := owns_update h hholds
  progress := by
    intro j
    by_cases hj : j = i
    · rw [hj]
      simp only [update_self]
      exact hprogress
    · simp only [update_of_ne hj]
      refine progress_of_other (h.progress j) fun k hk => ⟨rfl, ?_⟩
      have hkn : k ≠ code.cell n := by
        rintro rfl
        exact hj (h.holder_unique hk hi)
      rw [update_of_ne hkn]

/-- The section takes effect when its lock is released. -/
theorem Related.unlock_step (h : Related code s a) {n : ν} {x : ν ⊕ ρ}
    (hi : s.pool i = .leaving n x) :
    Related code { s with
      owner := update s.owner (code.cell n) none
      pool := update s.pool i (.outside x) }
      { a with
        cells := update a.cells (code.cell n) (s.cells (code.cell n))
        pool := update a.pool i (some x) } where
  pool := pool_update h rfl
  free := by
    intro k hk
    by_cases hkn : k = code.cell n
    · subst k
      simp only [update_self]
    · simp only [update_of_ne hkn] at hk ⊢
      exact h.free k hk
  owns := by
    intro j k
    have hown : (s.pool i).Holds code (code.cell n) := by
      rw [hi]
      rfl
    by_cases hj : j = i
    · subst j
      simp only [update_self]
      refine ⟨fun hk => ?_, fun hk => hk.elim⟩
      by_cases hkn : k = code.cell n
      · subst k
        simp only [update_self] at hk
        cases hk
      · simp only [update_of_ne hkn] at hk
        rw [h.owns i k, hi] at hk
        exact absurd hk.symm hkn
    · simp only [update_of_ne hj]
      by_cases hkn : k = code.cell n
      · subst k
        simp only [update_self]
        exact ⟨fun hk => absurd hk.symm (Option.some_ne_none j),
          fun hk => absurd (h.holder_unique hk hown) hj⟩
      · simp only [update_of_ne hkn]
        exact h.owns j k
  progress := by
    intro j
    have hown : (s.pool i).Holds code (code.cell n) := by
      rw [hi]
      rfl
    by_cases hj : j = i
    · rw [hj]
      simp only [update_self]
      trivial
    · simp only [update_of_ne hj]
      refine progress_of_other (h.progress j) fun k hk => ⟨?_, rfl⟩
      have hkn : k ≠ code.cell n := by
        rintro rfl
        exact hj (h.holder_unique hk hown)
      rw [update_of_ne hkn]

end Steps

theorem simulates : Simulates (Locked.Step code : Steps (Locked ι κ σ ν μ ρ) _)
    (Atomic.Step code) (Related code) := by
  intro s l s' a h hstep
  cases hstep with
  | call i o hi =>
    refine matched_by_step (.call a i o (by rw [h.pool i, hi]; rfl)) ?_
    refine h.outside_step rfl (fun k hk => ?_) (fun _ hk => hk) trivial
    rw [hi] at hk
    exact hk
  | lock i n hi hfree => exact matched_by_nothing (h.lock_step hi hfree)
  | access i n m m' c hi haccess =>
    have hprogress := h.progress i
    rw [hi] at hprogress
    refine matched_by_nothing (h.access_step (n := n) (by rw [hi]; rfl) rfl (by rw [hi]; rfl)
      (fun k => by rw [hi]; rfl) ?_)
    simp only [Point.Progress, update_self]
    exact hprogress.tail haccess
  | last i n m c x hi haccess =>
    have hprogress := h.progress i
    rw [hi] at hprogress
    refine matched_by_nothing (h.access_step (n := n) (by rw [hi]; rfl) rfl (by rw [hi]; rfl)
      (fun k => by rw [hi]; rfl) ?_)
    simp only [Point.Progress, update_self]
    exact ⟨m, _, hprogress, haccess⟩
  | unlock i n x hi =>
    have hsection := h.progress i
    rw [hi] at hsection
    exact matched_by_step (.perform a i n _ x (by rw [h.pool i, hi]; rfl) hsection)
      (h.unlock_step hi)
  | answer i r hi =>
    refine matched_by_step (.answer a i r (by rw [h.pool i, hi]; rfl)) ?_
    refine h.outside_step rfl (fun k hk => ?_) (fun _ hk => hk) trivial
    rw [hi] at hk
    exact hk

/-- Every history of the locked object is a history of the one with atomic sections, which
has the same cells once no thread is in a section. -/
theorem locked_refines_atomic {cells : κ → σ} {s : Locked ι κ σ ν μ ρ}
    {es : List (Event ι ο ρ)} (h : Run (Locked.Step code) (Locked.start cells) es s) :
    ∃ a : Atomic ι κ σ ν ρ, Run (Atomic.Step code) (Atomic.start cells) es a ∧
      (∀ i, a.pool i = (s.pool i).outline) ∧
      ((∀ i k, ¬ (s.pool i).Holds code k) → a.cells = s.cells) := by
  obtain ⟨a, hrun, hrelated⟩ := (simulates code).run h (related_start code cells)
  refine ⟨a, hrun, hrelated.pool, fun hnobody => ?_⟩
  funext k
  refine hrelated.free k ?_
  rcases howner : s.owner k with _ | i
  · rfl
  · exact absurd ((hrelated.owns i k).mp howner) (hnobody i k)

/-! ## Nothing is lost

A section that meets no other thread on its way is a run of the locked object, so the
histories of the two objects are the same. -/

section Converse

variable {code} {s : Locked ι κ σ ν μ ρ} {i : ι} {n : ν}

theorem accesses_run {a b : μ × σ} (h : code.Reaches n a b) (hi : s.pool i = .inside n a.1)
    (hcell : s.cells (code.cell n) = a.2) :
    Run (Locked.Step code) s [] { s with
      cells := update s.cells (code.cell n) b.2
      pool := update s.pool i (.inside n b.1) } := by
  induction h with
  | refl =>
    rw [← hcell, ← hi, update_eq_self, update_eq_self]
    exact .nil s
  | @tail b c _ haccess ih =>
    have hstep : Locked.Step code _ none _ := .access { s with
      cells := update s.cells (code.cell n) b.2
      pool := update s.pool i (.inside n b.1) } i n b.1 c.1 c.2
      (by simp only [update_self]) (by simp only [update_self]; exact haccess)
    simp only [update_idem] at hstep
    exact ih.append (.single hstep)

/-- A section that finds its lock free may run to its end without interruption. -/
theorem section_run {c : σ} {x : ν ⊕ ρ} (hi : s.pool i = .outside (.inl n))
    (hfree : s.owner (code.cell n) = none)
    (hsection : code.Section n (s.cells (code.cell n)) c x) :
    Run (Locked.Step code) s [] { s with
      cells := update s.cells (code.cell n) c
      pool := update s.pool i (.outside x) } := by
  obtain ⟨m, d, hreach, hlast⟩ := hsection
  have hlock := Locked.Step.lock s i n hi hfree
  have haccesses := accesses_run hreach (i := i) (s := { s with
    owner := update s.owner (code.cell n) (some i)
    pool := update s.pool i (.inside n (code.first n)) }) (by simp only [update_self]) rfl
  simp only [update_idem] at haccesses
  have hlast' : Locked.Step code _ none _ := .last { s with
    cells := update s.cells (code.cell n) d
    owner := update s.owner (code.cell n) (some i)
    pool := update s.pool i (.inside n m) } i n m c x (by simp only [update_self])
    (by simp only [update_self]; exact hlast)
  simp only [update_idem] at hlast'
  have hunlock : Locked.Step code _ none _ := .unlock { s with
    cells := update s.cells (code.cell n) c
    owner := update s.owner (code.cell n) (some i)
    pool := update s.pool i (.leaving n x) } i n x (by simp only [update_self])
  simp only [update_idem] at hunlock
  rw [← hfree, update_eq_self] at hunlock
  exact (Run.single hlock).append (haccesses.append ((Run.single hlast').append
    (Run.single hunlock)))

end Converse

/-- The object in the same state, with every lock free. -/
def Atomic.unlocked (a : Atomic ι κ σ ν ρ) : Locked ι κ σ ν μ ρ :=
  ⟨a.cells, fun _ => none, fun i => (a.pool i).elim .idle .outside⟩

omit [DecidableEq κ] in
theorem unlocked_update (a : Atomic ι κ σ ν ρ) (i : ι) (x : Option (ν ⊕ ρ)) (cells : κ → σ) :
    (Atomic.unlocked ⟨cells, update a.pool i x⟩ : Locked ι κ σ ν μ ρ) =
      ⟨cells, fun _ => none, update a.unlocked.pool i (x.elim .idle .outside)⟩ := by
  unfold Atomic.unlocked
  congr 1
  funext j
  by_cases hj : j = i
  · simp only [hj, update_self]
  · simp only [update_of_ne hj]

theorem atomic_simulated : Simulates (Atomic.Step code)
    (Locked.Step code : Steps (Locked ι κ σ ν μ ρ) _) fun a s => s = a.unlocked := by
  rintro a l a' s rfl hstep
  refine ⟨_, ?_, rfl⟩
  cases hstep with
  | call i o hi =>
    rw [unlocked_update]
    exact .single (.call a.unlocked i o (by simp only [Atomic.unlocked, hi, Option.elim]))
  | perform i n c x hi hsection =>
    rw [unlocked_update]
    exact section_run (s := a.unlocked) (by simp only [Atomic.unlocked, hi, Option.elim]) rfl
      hsection
  | answer i r hi =>
    rw [unlocked_update]
    exact .single (.answer a.unlocked i r (by simp only [Atomic.unlocked, hi, Option.elim]))

/-- The two objects have the same histories. -/
theorem locked_iff_atomic {cells : κ → σ} {es : List (Event ι ο ρ)} :
    (∃ s : Locked ι κ σ ν μ ρ, Run (Locked.Step code) (Locked.start cells) es s) ↔
      ∃ a : Atomic ι κ σ ν ρ, Run (Atomic.Step code) (Atomic.start cells) es a := by
  constructor
  · rintro ⟨s, h⟩
    obtain ⟨a, hrun, _⟩ := locked_refines_atomic code h
    exact ⟨a, hrun⟩
  · rintro ⟨a, h⟩
    obtain ⟨s, hrun, _⟩ := (atomic_simulated code).run h (t := Locked.start cells) rfl
    exact ⟨s, hrun⟩

/-! ## What the answers say

`ω` stands for something that only shows in the course of a run, such as what the sections
to come will find. With it, the answer of a call is known where the call begins; what a
section finds out about `ω` narrows it down and does not change that answer. -/

section Histories

omit [DecidableEq κ]

/-- The call of the thread that has no answer yet, given the one before the event. -/
def openAfter (i : ι) (before : Option ο) : Event ι ο ρ → Option ο
  | .call j o => if j = i then some o else before
  | .answer j _ => if j = i then none else before

/-- The call of the thread that the history leaves without an answer. -/
def openCall (es : List (Event ι ο ρ)) (i : ι) : Option ο := es.foldl (openAfter i) none

theorem openCall_append (es : List (Event ι ο ρ)) (e : Event ι ο ρ) (i : ι) :
    openCall (es ++ [e]) i = openAfter i (openCall es i) e := by
  unfold openCall
  rw [List.foldl_append]
  rfl

/-- Every answer in the history is the one that was due to its call. -/
def Answered (due : ο → ρ) (es : List (Event ι ο ρ)) : Prop :=
  ∀ before after i o r, es = before ++ .answer i r :: after → openCall before i = some o → r = due o

theorem Answered.append {due : ο → ρ} {es : List (Event ι ο ρ)} {e : Event ι ο ρ}
    (h : Answered due es)
    (hlast : ∀ i o r, e = .answer i r → openCall es i = some o → r = due o) :
    Answered due (es ++ [e]) := by
  intro before after j o r hes hopen
  rcases List.eq_nil_or_concat after with rfl | ⟨after, last, rfl⟩
  · obtain ⟨rfl, hsame⟩ := List.append_inj' hes rfl
    exact hlast j o r (List.cons_eq_cons.mp hsame).1 hopen
  · rw [List.concat_eq_append, ← List.cons_append, ← List.append_assoc] at hes
    exact h before after j o r (List.append_inj' hes rfl).1 hopen

end Histories

/-- The cells, the calls under way and the answers so far agree with `ω`. -/
structure Foreseen {Ω : Type} (fits : (κ → σ) → Ω → Prop) (outcome : Ω → ν ⊕ ρ → ρ)
    (es : List (Event ι ο ρ)) (a : Atomic ι κ σ ν ρ) : Prop where
  pending : ∀ ω, fits a.cells ω → ∀ i x, a.pool i = some x →
    ∃ o, openCall es i = some o ∧ outcome ω x = outcome ω (code.start o)
  answered : ∀ ω, fits a.cells ω → Answered (fun o => outcome ω (code.start o)) es

section Foresight

variable {code} {Ω : Type} {I : (κ → σ) → Prop} {fits : (κ → σ) → Ω → Prop}
  {outcome : Ω → ν ⊕ ρ → ρ}

/-- If a section narrows `ω` down and keeps the answer that `ω` foretells, then every answer
is the one that was foretold when its call began. -/
theorem answers_foretold {cells : κ → σ} {a : Atomic ι κ σ ν ρ} {es : List (Event ι ο ρ)}
    (h : Run (Atomic.Step code) (Atomic.start cells) es a) (hstart : I cells)
    (hanswer : ∀ ω r, outcome ω (.inr r) = r)
    (hsection : ∀ cells n c x, I cells → code.Section n (cells (code.cell n)) c x →
      I (update cells (code.cell n) c) ∧ ∀ ω, fits (update cells (code.cell n) c) ω →
        fits cells ω ∧ outcome ω x = outcome ω (.inl n)) :
    I a.cells ∧ ∀ ω, fits a.cells ω → Answered (fun o => outcome ω (code.start o)) es := by
  have hstep : ∀ fs (s : Atomic ι κ σ ν ρ) l t, (I s.cells ∧ Foreseen code fits outcome fs s) →
      Atomic.Step code s l t → I t.cells ∧ Foreseen code fits outcome (fs ++ l.toList) t := by
    rintro fs s l t ⟨hs, hforeseen⟩ hstep
    cases hstep with
    | call i o hi =>
      refine ⟨hs, fun ω hω j x hj => ?_, fun ω hω => (hforeseen.answered ω hω).append
        fun _ _ _ he => by cases he⟩
      rw [Option.toList_some, openCall_append]
      by_cases hij : j = i
      · subst j
        simp only [update_self, Option.some.injEq] at hj
        exact ⟨o, if_pos rfl, by rw [← hj]⟩
      · simp only [update_of_ne hij] at hj
        obtain ⟨q, hopen, houtcome⟩ := hforeseen.pending ω hω j x hj
        exact ⟨q, by rw [openAfter, if_neg (Ne.symm hij), hopen], houtcome⟩
    | perform i n c x hi hperform =>
      obtain ⟨ht, hnarrow⟩ := hsection s.cells n c x hs hperform
      rw [Option.toList_none, List.append_nil]
      refine ⟨ht, fun ω hω j y hj => ?_, fun ω hω => hforeseen.answered ω (hnarrow ω hω).1⟩
      obtain ⟨hfits, hkept⟩ := hnarrow ω hω
      by_cases hij : j = i
      · subst j
        simp only [update_self, Option.some.injEq] at hj
        obtain ⟨q, hopen, houtcome⟩ := hforeseen.pending ω hfits i _ hi
        exact ⟨q, hopen, by rw [← hj, hkept, houtcome]⟩
      · simp only [update_of_ne hij] at hj
        exact hforeseen.pending ω hfits j y hj
    | answer i r hi =>
      refine ⟨hs, fun ω hω j x hj => ?_, fun ω hω =>
        (hforeseen.answered ω hω).append ?_⟩
      · rw [Option.toList_some, openCall_append]
        have hij : j ≠ i := by
          rintro rfl
          simp only [update_self, reduceCtorEq] at hj
        simp only [update_of_ne hij] at hj
        obtain ⟨q, hopen, houtcome⟩ := hforeseen.pending ω hω j x hj
        exact ⟨q, by rw [openAfter, if_neg (Ne.symm hij), hopen], houtcome⟩
      · intro j o r' he hopen
        cases he
        obtain ⟨q, hopen', houtcome⟩ := hforeseen.pending ω hω i _ hi
        rw [hopen] at hopen'
        cases hopen'
        rw [hanswer] at houtcome
        exact houtcome
  have hnothing : Foreseen code fits outcome ([] : List (Event ι ο ρ)) (Atomic.start cells) := by
    refine ⟨fun _ _ _ _ hi => ?_, fun _ _ before _ _ _ _ hes _ => ?_⟩
    · cases hi
    · cases before <;> cases hes
  have hall := h.invariant_labels
    (I := fun fs s => I s.cells ∧ Foreseen code fits outcome fs s) hstep ⟨hstart, hnothing⟩
  exact ⟨hall.1, hall.2.answered⟩

end Foresight

end CriticalSections
