import Mathlib.Computability.Language
import Mathlib.Logic.Relation
import Mathlib.Logic.Function.Basic

/-!
# Locks taken in order, and hooks that a guard switches off

Threads run programs that take and give back locks. A program may also reach a hook, and
what the hook does depends on a counter that every thread has for itself: while the counter
is positive the hook passes, and when it is zero the thread goes through another program
first, the body of the hook. So a hook may run in the middle of any program, and again
inside its own body.

Two disciplines make this safe. The locks have ranks, and a thread takes a lock only above
all those it holds; and a hook is reached with a lock held only while the counter is
positive. `Op.check` tests both on a program, one operation after the other, and the test
of a set of programs follows its shape (`Keeps`). When it succeeds for all programs and all
bodies, then in every reachable state a thread with work left can go on, or one that it
waits for can (`some_thread_moves`).
-/

namespace LockOrder

open Function Relation
open scoped Computability

variable {ι κ : Type}

inductive Op (κ : Type)
  | acquire (k : κ)
  | release (k : κ)
  /-- The counter of the thread goes up or down. -/
  | enter
  | leave
  | hook
  deriving DecidableEq

/-- `held` lists the locks of the thread, the last one taken first. -/
structure Thread (κ : Type) where
  todo : List (Op κ)
  held : List κ
  depth : Nat

structure Pool (ι κ : Type) where
  owner : κ → Option ι
  threads : ι → Thread κ

def Pool.start : Pool ι κ := ⟨fun _ => none, fun _ => ⟨[], [], 0⟩⟩

section Steps

variable [DecidableEq ι] [DecidableEq κ]

def Pool.set (s : Pool ι κ) (i : ι) (t : Thread κ) : Pool ι κ :=
  { s with threads := update s.threads i t }

def Pool.own (s : Pool ι κ) (k : κ) (o : Option ι) : Pool ι κ :=
  { s with owner := update s.owner k o }

/-- A thread without work starts a program of `calls`; a thread with work does its next
operation. A lock is given back by the thread that took it last. -/
inductive Step (calls bodies : Language (Op κ)) : Pool ι κ → ι → Pool ι κ → Prop
  | call (s : Pool ι κ) (i : ι) (p : List (Op κ)) (held : List κ) (depth : Nat)
      (h : s.threads i = ⟨[], held, depth⟩) (hp : p ∈ calls) :
      Step calls bodies s i (s.set i ⟨p, held, depth⟩)
  | acquire (s : Pool ι κ) (i : ι) (k : κ) (p : List (Op κ)) (held : List κ) (depth : Nat)
      (h : s.threads i = ⟨.acquire k :: p, held, depth⟩) (hfree : s.owner k = none) :
      Step calls bodies s i ((s.own k (some i)).set i ⟨p, k :: held, depth⟩)
  | release (s : Pool ι κ) (i : ι) (k : κ) (p : List (Op κ)) (held : List κ) (depth : Nat)
      (h : s.threads i = ⟨.release k :: p, k :: held, depth⟩) :
      Step calls bodies s i ((s.own k none).set i ⟨p, held, depth⟩)
  | enter (s : Pool ι κ) (i : ι) (p : List (Op κ)) (held : List κ) (depth : Nat)
      (h : s.threads i = ⟨.enter :: p, held, depth⟩) :
      Step calls bodies s i (s.set i ⟨p, held, depth + 1⟩)
  | leave (s : Pool ι κ) (i : ι) (p : List (Op κ)) (held : List κ) (depth : Nat)
      (h : s.threads i = ⟨.leave :: p, held, depth + 1⟩) :
      Step calls bodies s i (s.set i ⟨p, held, depth⟩)
  | pass (s : Pool ι κ) (i : ι) (p : List (Op κ)) (held : List κ) (depth : Nat)
      (h : s.threads i = ⟨.hook :: p, held, depth + 1⟩) :
      Step calls bodies s i (s.set i ⟨p, held, depth + 1⟩)
  | intercept (s : Pool ι κ) (i : ι) (p body : List (Op κ)) (held : List κ)
      (h : s.threads i = ⟨.hook :: p, held, 0⟩) (hbody : body ∈ bodies) :
      Step calls bodies s i (s.set i ⟨body ++ p, held, 0⟩)

/-- The states that some interleaving of the threads leads to. -/
def Reachable (calls bodies : Language (Op κ)) : Pool ι κ → Prop :=
  ReflTransGen (fun s s' => ∃ i, Step calls bodies s i s') Pool.start

end Steps

/-! ## Testing a program -/

section Check

variable [DecidableEq κ] (rank : κ → Nat)

/-- The locks held and the counter after the operation, if it keeps the disciplines. -/
def Op.check : List κ × Nat → Op κ → Option (List κ × Nat)
  | (held, depth), .acquire k =>
    if ∀ k' ∈ held, rank k' < rank k then some (k :: held, depth) else none
  | (k' :: held, depth), .release k => if k' = k then some (held, depth) else none
  | ([], _), .release _ => none
  | (held, depth), .enter => some (held, depth + 1)
  | (held, depth + 1), .leave => some (held, depth)
  | (_, 0), .leave => none
  | (held, depth), .hook => if held = [] ∨ 0 < depth then some (held, depth) else none

def check (p : List (Op κ)) (s : List κ × Nat) : Option (List κ × Nat) :=
  p.foldlM (Op.check rank) s

/-- The program passes the test and ends with the locks and the counter it began with. -/
def Balanced (held : List κ) (depth : Nat) (p : List (Op κ)) : Prop :=
  check rank p (held, depth) = some (held, depth)

/-- All programs of the set are balanced. -/
def Keeps (held : List κ) (depth : Nat) (l : Language (Op κ)) : Prop :=
  ∀ p ∈ l, Balanced rank held depth p

variable {rank}

theorem check_append {p q : List (Op κ)} {s : List κ × Nat} :
    check rank (p ++ q) s = (check rank p s).bind (check rank q) := by
  unfold check
  rw [List.foldlM_append]
  rfl

theorem check_cons {o : Op κ} {p : List (Op κ)} {s : List κ × Nat} :
    check rank (o :: p) s = (o.check rank s).bind (check rank p) := rfl

theorem Balanced.append {held : List κ} {depth : Nat} {p q : List (Op κ)}
    (hp : Balanced rank held depth p) (hq : Balanced rank held depth q) :
    Balanced rank held depth (p ++ q) := by
  unfold Balanced at *
  rw [check_append, hp]
  exact hq

theorem check_acquire {held : List κ} {depth : Nat} {k : κ} {s : List κ × Nat}
    (h : Op.check rank (held, depth) (.acquire k) = some s) :
    (∀ k' ∈ held, rank k' < rank k) ∧ s = (k :: held, depth) := by
  change (if ∀ k' ∈ held, rank k' < rank k then some (k :: held, depth) else none) = some s at h
  split at h
  · rename_i hrank
    exact ⟨hrank, (Option.some.inj h).symm⟩
  · cases h

theorem check_release {held : List κ} {depth : Nat} {k : κ} {s : List κ × Nat}
    (h : Op.check rank (held, depth) (.release k) = some s) : held = k :: s.1 ∧ s.2 = depth := by
  cases held with
  | nil => cases h
  | cons k' held =>
    change (if k' = k then some (held, depth) else none) = some s at h
    split at h
    · rename_i hk
      cases h
      exact ⟨by rw [hk], rfl⟩
    · cases h

theorem check_leave {held : List κ} {depth : Nat} {s : List κ × Nat}
    (h : Op.check rank (held, depth) .leave = some s) : s.1 = held ∧ depth = s.2 + 1 := by
  cases depth with
  | zero => cases h
  | succ depth =>
    cases h
    exact ⟨rfl, rfl⟩

theorem check_hook {held : List κ} {depth : Nat} {s : List κ × Nat}
    (h : Op.check rank (held, depth) .hook = some s) :
    (held = [] ∨ 0 < depth) ∧ s = (held, depth) := by
  change (if held = [] ∨ 0 < depth then some (held, depth) else none) = some s at h
  split at h
  · rename_i hopen
    exact ⟨hopen, (Option.some.inj h).symm⟩
  · cases h

/-! ### The shapes of programs -/

section Shapes

variable {held : List κ} {depth : Nat} {l m : Language (Op κ)}

/-- Taking the lock, and giving it back at the end. -/
def locked (k : κ) (l : Language (Op κ)) : Language (Op κ) := {[.acquire k]} * l * {[.release k]}

/-- The counter is up meanwhile. -/
def guarded (l : Language (Op κ)) : Language (Op κ) := {[.enter]} * l * {[.leave]}

/-- One program of one of the sets. -/
def oneOf {α : Type} (f : α → Language (Op κ)) : Language (Op κ) := {p | ∃ a, p ∈ f a}

/-- Any number of hooks. -/
def hooks : Language (Op κ) := KStar.kstar {[.hook]}

theorem keeps_one : Keeps rank held depth 1 := by
  intro p hp
  rw [Language.mem_one] at hp
  rw [hp]
  rfl

theorem Keeps.mul (hl : Keeps rank held depth l) (hm : Keeps rank held depth m) :
    Keeps rank held depth (l * m) := by
  intro p hp
  obtain ⟨a, ha, b, hb, rfl⟩ := Language.mem_mul.mp hp
  exact (hl a ha).append (hm b hb)

theorem Keeps.add (hl : Keeps rank held depth l) (hm : Keeps rank held depth m) :
    Keeps rank held depth (l + m) := by
  intro p hp
  rcases (Language.mem_add l m p).mp hp with hp | hp
  · exact hl p hp
  · exact hm p hp

theorem Keeps.kstar (hl : Keeps rank held depth l) : Keeps rank held depth (KStar.kstar l) := by
  intro p hp
  obtain ⟨ps, rfl, hall⟩ := Language.mem_kstar.mp hp
  clear hp
  induction ps with
  | nil => rfl
  | cons q ps ih =>
    rw [List.flatten_cons]
    exact (hl q (hall q List.mem_cons_self)).append
      (ih fun y hy => hall y (List.mem_cons_of_mem _ hy))

/-- One program for each element of a list, in order. -/
theorem Keeps.prod {α : Type} {as : List α} {f : α → Language (Op κ)}
    (h : ∀ a ∈ as, Keeps rank held depth (f a)) : Keeps rank held depth (as.map f).prod := by
  induction as with
  | nil => exact keeps_one
  | cons a as ih =>
    rw [List.map_cons, List.prod_cons]
    exact (h a List.mem_cons_self).mul (ih fun b hb => h b (List.mem_cons_of_mem _ hb))

theorem Keeps.oneOf {α : Type} {f : α → Language (Op κ)}
    (h : ∀ a, Keeps rank held depth (f a)) : Keeps rank held depth (oneOf f) := by
  rintro p ⟨a, ha⟩
  exact h a p ha

theorem Keeps.locked {k : κ} (hrank : ∀ k' ∈ held, rank k' < rank k)
    (hl : Keeps rank (k :: held) depth l) : Keeps rank held depth (locked k l) := by
  intro p hp
  obtain ⟨q, hq, _, rfl, rfl⟩ := Language.mem_mul.mp hp
  obtain ⟨_, rfl, r, hr, rfl⟩ := Language.mem_mul.mp hq
  unfold Balanced
  rw [check_append, check_append, check_cons, Op.check, if_pos hrank]
  change ((check rank r (k :: held, depth)).bind (check rank [.release k])) = _
  rw [hl r hr]
  change Option.bind (if k = k then some (held, depth) else none) _ = _
  rw [if_pos rfl]
  rfl

theorem Keeps.guarded (hl : Keeps rank held (depth + 1) l) :
    Keeps rank held depth (guarded l) := by
  intro p hp
  obtain ⟨q, hq, _, rfl, rfl⟩ := Language.mem_mul.mp hp
  obtain ⟨_, rfl, r, hr, rfl⟩ := Language.mem_mul.mp hq
  unfold Balanced
  rw [check_append, check_append]
  change ((check rank r (held, depth + 1)).bind (check rank [.leave])) = _
  rw [hl r hr]
  rfl

theorem keeps_hooks (h : held = [] ∨ 0 < depth) : Keeps rank held depth hooks := by
  refine Keeps.kstar fun p hp => ?_
  cases hp
  unfold Balanced
  rw [check_cons, Op.check, if_pos h]
  rfl

end Shapes

end Check

/-! ## The invariant -/

section Invariant

variable [DecidableEq ι] [DecidableEq κ] (rank : κ → Nat)

/-- What is left of the program passes the test and ends with no lock and the counter at 0;
the locks held were taken in order. -/
structure Thread.Sound (t : Thread κ) : Prop where
  check : check rank t.todo (t.held, t.depth) = some ([], 0)
  ordered : t.held.Pairwise fun k k' => rank k' < rank k

structure Pool.Sound (s : Pool ι κ) : Prop where
  threads : ∀ i, (s.threads i).Sound rank
  owner : ∀ k i, s.owner k = some i ↔ k ∈ (s.threads i).held

variable {rank} {calls bodies : Language (Op κ)} {s s' : Pool ι κ} {i : ι}

omit [DecidableEq ι] in
theorem sound_start : (Pool.start : Pool ι κ).Sound rank where
  threads := fun _ => ⟨rfl, List.Pairwise.nil⟩
  owner := fun _ _ => ⟨fun h => absurd h.symm (Option.some_ne_none _), fun h =>
    absurd h List.not_mem_nil⟩

/-- What a passed test says about the first operation. -/
theorem Thread.Sound.next {o : Op κ} {p : List (Op κ)} {held : List κ} {depth : Nat}
    (h : Thread.Sound rank ⟨o :: p, held, depth⟩) :
    ∃ held' depth', o.check rank (held, depth) = some (held', depth') ∧
      LockOrder.check rank p (held', depth') = some ([], 0) := by
  have hcheck := h.check
  rw [check_cons] at hcheck
  obtain ⟨⟨held', depth'⟩, hfirst, hrest⟩ := Option.bind_eq_some_iff.mp hcheck
  exact ⟨held', depth', hfirst, hrest⟩

/-- A step that moves no lock. -/
theorem Pool.Sound.set (h : s.Sound rank) {t : Thread κ} (ht : t.Sound rank)
    (hheld : t.held = (s.threads i).held) : (s.set i t).Sound rank where
  threads := by
    intro j
    by_cases hj : j = i
    · rw [hj]
      simp only [Pool.set, update_self]
      exact ht
    · simp only [Pool.set, update_of_ne hj]
      exact h.threads j
  owner := by
    intro k j
    by_cases hj : j = i
    · rw [hj]
      simp only [Pool.set, update_self, hheld]
      exact h.owner k i
    · simp only [Pool.set, update_of_ne hj]
      exact h.owner k j

theorem Pool.Sound.step (h : s.Sound rank) (hcalls : Keeps rank [] 0 calls)
    (hbodies : Keeps rank [] 0 bodies) (hstep : Step calls bodies s i s') : s'.Sound rank := by
  have hi := h.threads i
  cases hstep with
  | call p held depth hthread hp =>
    rw [hthread] at hi
    have hdone : (held, depth) = (([] : List κ), 0) := Option.some.inj hi.check
    cases hdone
    exact h.set ⟨hcalls p hp, List.Pairwise.nil⟩ (by rw [hthread])
  | acquire k p held depth hthread hfree =>
    rw [hthread] at hi
    obtain ⟨held', depth', hfirst, hrest⟩ := hi.next
    obtain ⟨hrank, hthen⟩ := check_acquire hfirst
    cases hthen
    refine ⟨fun j => ?_, fun k' j => ?_⟩
    · by_cases hj : j = i
      · rw [hj]
        simp only [Pool.set, update_self]
        exact ⟨hrest, List.Pairwise.cons hrank hi.ordered⟩
      · simp only [Pool.set, Pool.own, update_of_ne hj]
        exact h.threads j
    · by_cases hk : k' = k
      · subst k'
        by_cases hj : j = i
        · rw [hj]
          simp only [Pool.set, Pool.own, update_self, List.mem_cons, true_or]
        · have hnot : k ∉ (s.threads j).held := by
            rw [← h.owner k j, hfree]
            exact Option.some_ne_none j ∘ Eq.symm
          simp only [Pool.set, Pool.own, update_self, update_of_ne hj]
          exact ⟨fun hij => absurd (Option.some.inj hij).symm hj, fun hmem => absurd hmem hnot⟩
      · by_cases hj : j = i
        · rw [hj]
          have hold := h.owner k' i
          rw [hthread] at hold
          simp only [Pool.set, Pool.own, update_self, update_of_ne hk, List.mem_cons, hk,
            false_or]
          exact hold
        · simp only [Pool.set, Pool.own, update_of_ne hk, update_of_ne hj]
          exact h.owner k' j
  | release k p held depth hthread =>
    rw [hthread] at hi
    obtain ⟨held', depth', hfirst, hrest⟩ := hi.next
    obtain ⟨hlast, rfl⟩ := check_release hfirst
    have hheld : held = held' := (List.cons.inj hlast).2
    subst hheld
    obtain ⟨hbelow, hordered⟩ := List.pairwise_cons.mp hi.ordered
    -- the locks left are of lower rank, so the one given back is not among them
    have hgone : k ∉ held := fun hmem => Nat.lt_irrefl _ (hbelow k hmem)
    have howner : s.owner k = some i := by
      rw [h.owner k i, hthread]
      exact List.mem_cons_self
    refine ⟨fun j => ?_, fun k' j => ?_⟩
    · by_cases hj : j = i
      · rw [hj]
        simp only [Pool.set, update_self]
        exact ⟨hrest, hordered⟩
      · simp only [Pool.set, Pool.own, update_of_ne hj]
        exact h.threads j
    · by_cases hk : k' = k
      · subst k'
        by_cases hj : j = i
        · rw [hj]
          simp only [Pool.set, Pool.own, update_self]
          exact ⟨fun hnone => absurd hnone.symm (Option.some_ne_none i), fun hmem =>
            absurd hmem hgone⟩
        · have hnot : k ∉ (s.threads j).held := by
            rw [← h.owner k j, howner]
            exact fun hij => hj (Option.some.inj hij).symm
          simp only [Pool.set, Pool.own, update_self, update_of_ne hj]
          exact ⟨fun hnone => absurd hnone.symm (Option.some_ne_none j), fun hmem =>
            absurd hmem hnot⟩
      · by_cases hj : j = i
        · rw [hj]
          have hold := h.owner k' i
          rw [hthread, List.mem_cons, or_iff_right hk] at hold
          simp only [Pool.set, Pool.own, update_self, update_of_ne hk]
          exact hold
        · simp only [Pool.set, Pool.own, update_of_ne hk, update_of_ne hj]
          exact h.owner k' j
  | enter p held depth hthread =>
    rw [hthread] at hi
    obtain ⟨held', depth', hfirst, hrest⟩ := hi.next
    cases hfirst
    exact h.set ⟨hrest, hi.ordered⟩ (by rw [hthread])
  | leave p held depth hthread =>
    rw [hthread] at hi
    obtain ⟨held', depth', hfirst, hrest⟩ := hi.next
    cases hfirst
    exact h.set ⟨hrest, hi.ordered⟩ (by rw [hthread])
  | pass p held depth hthread =>
    rw [hthread] at hi
    obtain ⟨held', depth', hfirst, hrest⟩ := hi.next
    obtain ⟨_, hthen⟩ := check_hook hfirst
    cases hthen
    exact h.set ⟨hrest, hi.ordered⟩ (by rw [hthread])
  | intercept p body held hthread hbody =>
    rw [hthread] at hi
    obtain ⟨held', depth', hfirst, hrest⟩ := hi.next
    obtain ⟨hopen, hthen⟩ := check_hook hfirst
    cases hthen
    have hnone : held = [] := hopen.resolve_right (Nat.lt_irrefl 0)
    subst hnone
    refine h.set ⟨?_, List.Pairwise.nil⟩ (by rw [hthread])
    rw [check_append, hbodies body hbody]
    exact hrest

theorem reachable_sound (hcalls : Keeps rank [] 0 calls) (hbodies : Keeps rank [] 0 bodies)
    (h : Reachable calls bodies s) : s.Sound rank := by
  induction h with
  | refl => exact sound_start
  | tail _ hstep ih =>
    obtain ⟨i, hi⟩ := hstep
    exact ih.step hcalls hbodies hi

/-! ## Somebody can always go on -/

omit [DecidableEq ι] [DecidableEq κ] in
/-- Following a chain of threads, each waiting for a lock of the next, one comes to a
thread that waits for none: the locks on the way have higher and higher rank. -/
theorem exists_unblocked (wants : ι → Option κ) {owner : κ → Option ι} {bound : Nat}
    (hbound : ∀ k, rank k < bound)
    (horder : ∀ i k k', owner k' = some i → wants i = some k → rank k' < rank k) (i : ι) :
    ∃ j, (j = i ∨ ∃ k, owner k = some j) ∧ ∀ k, wants j = some k → owner k = none := by
  have hchain : ∀ left i, (∀ k, wants i = some k → bound ≤ rank k + left) →
      ∃ j, (j = i ∨ ∃ k, owner k = some j) ∧ ∀ k, wants j = some k → owner k = none := by
    intro left
    induction left with
    | zero =>
      intro i hleft
      refine ⟨i, Or.inl rfl, fun k hk => ?_⟩
      exact absurd (hbound k) (Nat.not_lt_of_le (hleft k hk))
    | succ left ih =>
      intro i hleft
      by_cases hfree : ∀ k, wants i = some k → owner k = none
      · exact ⟨i, Or.inl rfl, hfree⟩
      · push Not at hfree
        obtain ⟨k, hk, howner⟩ := hfree
        obtain ⟨j, hj⟩ := Option.ne_none_iff_exists'.mp howner
        have hleft' : ∀ k', wants j = some k' → bound ≤ rank k' + left := by
          intro k' hk'
          have hup := horder j k' k hj hk'
          have hnow := hleft k hk
          omega
        obtain ⟨j', hj', hnone⟩ := ih j hleft'
        refine ⟨j', Or.inr ?_, hnone⟩
        rcases hj' with rfl | howns
        · exact ⟨k, hj⟩
        · exact howns
  exact hchain bound i fun k _ => Nat.le_add_left _ _

/-- The lock that the thread takes next. -/
def Thread.wants (t : Thread κ) : Option κ :=
  match t.todo with
  | .acquire k :: _ => some k
  | _ => none

/-- A thread with work left that waits for no lock can go on. -/
theorem Pool.Sound.moves (h : s.Sound rank) {body : List (Op κ)} (hbody : body ∈ bodies)
    (hwork : (s.threads i).todo ≠ [])
    (hfree : ∀ k, (s.threads i).wants = some k → s.owner k = none) :
    ∃ s', Step calls bodies s i s' := by
  have hi := h.threads i
  generalize hthread : s.threads i = t at hi hwork hfree
  obtain ⟨todo, held, depth⟩ := t
  cases todo with
  | nil => exact absurd rfl hwork
  | cons o p =>
    obtain ⟨held', depth', hfirst, _⟩ := hi.next
    cases o with
    | acquire k => exact ⟨_, .acquire s i k p held depth hthread (hfree k rfl)⟩
    | release k =>
      obtain ⟨rfl, _⟩ := check_release hfirst
      exact ⟨_, .release s i k p held' depth hthread⟩
    | enter => exact ⟨_, .enter s i p held depth hthread⟩
    | leave =>
      obtain ⟨_, rfl⟩ := check_leave hfirst
      exact ⟨_, .leave s i p held depth' hthread⟩
    | hook =>
      cases depth with
      | zero => exact ⟨_, .intercept s i p body held hthread hbody⟩
      | succ depth => exact ⟨_, .pass s i p held depth hthread⟩

omit [DecidableEq ι] in
/-- The next lock of a thread is above all those it holds. -/
theorem Pool.Sound.wants_above (h : s.Sound rank) {k k' : κ}
    (hwants : (s.threads i).wants = some k) (hheld : k' ∈ (s.threads i).held) :
    rank k' < rank k := by
  have hi := h.threads i
  generalize s.threads i = t at hi hwants hheld
  obtain ⟨todo, held, depth⟩ := t
  unfold Thread.wants at hwants
  split at hwants
  · rename_i p htodo
    cases hwants
    change todo = _ at htodo
    subst htodo
    obtain ⟨_, _, hfirst, _⟩ := hi.next
    exact (check_acquire hfirst).1 k' hheld
  · cases hwants

omit [DecidableEq ι] in
/-- No thread waits for itself. -/
theorem Pool.Sound.not_own (h : s.Sound rank) {k : κ} (hwants : (s.threads i).wants = some k) :
    s.owner k ≠ some i := by
  intro howner
  exact Nat.lt_irrefl _ (h.wants_above hwants ((h.owner k i).mp howner))

omit [DecidableEq ι] in
/-- A thread without work holds no lock, and its counter is at 0. -/
theorem Pool.Sound.done (h : s.Sound rank) (hdone : (s.threads i).todo = []) :
    (s.threads i).held = [] ∧ (s.threads i).depth = 0 := by
  have hcheck := (h.threads i).check
  rw [hdone] at hcheck
  exact ⟨congrArg Prod.fst (Option.some.inj hcheck), congrArg Prod.snd (Option.some.inj hcheck)⟩

/-- Where a thread has work left, one that holds a lock or that thread can go on. -/
theorem Pool.Sound.some_thread_moves (h : s.Sound rank) {bound : Nat}
    (hbound : ∀ k, rank k < bound) {body : List (Op κ)} (hbody : body ∈ bodies)
    (hwork : (s.threads i).todo ≠ []) :
    ∃ j s', (s.threads j).todo ≠ [] ∧ Step calls bodies s j s' := by
  obtain ⟨j, hj, hfree⟩ := exists_unblocked (fun i => (s.threads i).wants) hbound
    (fun i k k' howner hwants => h.wants_above hwants ((h.owner k' i).mp howner)) i
  have hwork' : (s.threads j).todo ≠ [] := by
    rcases hj with rfl | ⟨k, howner⟩
    · exact hwork
    · intro hdone
      have hheld := (h.owner k j).mp howner
      rw [(h.done hdone).1] at hheld
      cases hheld
  obtain ⟨s', hstep⟩ : ∃ s', Step calls bodies s j s' := h.moves hbody hwork' hfree
  exact ⟨j, s', hwork', hstep⟩

omit [DecidableEq ι] in
/-- A hook that is reached with a lock held passes. -/
theorem Pool.Sound.hook_guarded (h : s.Sound rank) {p : List (Op κ)}
    (hhook : (s.threads i).todo = .hook :: p) (hheld : (s.threads i).held ≠ []) :
    0 < (s.threads i).depth := by
  have hi := h.threads i
  generalize s.threads i = t at hi hhook hheld
  obtain ⟨todo, held, depth⟩ := t
  change todo = _ at hhook
  subst hhook
  obtain ⟨_, _, hfirst, _⟩ := hi.next
  exact (check_hook hfirst).1.resolve_left hheld

end Invariant

end LockOrder
