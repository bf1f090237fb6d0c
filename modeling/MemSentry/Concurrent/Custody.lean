import MemSentry.Concurrent.Entries
import MemSentry.Library.ThreadPool

/-!
# Who holds what in the machine

The holdings of all threads and the pointers of the clients add up to one holding. Every
event of a run is one motion of it (`Tended.invariant_step`), whatever wraps, so that what
motions keep, runs keep. Custody of the blocks is such a thing (`Tended.step`).
-/

namespace MemSentry

open ByteMemory MemSentry.Core Function Transition World

namespace Machine

variable {ι : Type} [Fintype ι] [DecidableEq ι]

/-- What the threads and the clients hold together. -/
def holding (s : Machine ι) : Holding :=
  ThreadPool.total Point.holds s.pool + { pointers := s.held }

/-- No step of the event lays out a block in less memory than it takes. -/
def Fits (s : Machine ι) (e : Event ι) : Prop :=
  ∀ i o, e = .advance i o → s.world.Fits o (s.pool i)

/-- Every thread is on the tracked path, and every block has its holder. -/
structure Tended (s : Machine ι) : Prop where
  opened : s.world.Open
  inside : ∀ i, ¬ (s.pool i).Stray
  custody : Custody s.world.accounts s.holding

variable {tid : ι → ThreadId} {s : Machine ι} {W : Prop} {e : Event ι}

omit [Fintype ι] [DecidableEq ι] in
theorem NoWrap.fits {s : Machine ι} (h : s.NoWrap e) : s.Fits e :=
  fun i o he => (h i o he).fits o

theorem Tended.ready (ht : s.Tended) (i : ι) : s.world.Ready (s.pool i) := by
  have hc := ht.custody
  rw [holding, ThreadPool.total_eq _ _ i, add_assoc] at hc
  exact ready_of_custody hc

/-- A thread moves: it takes pointers from the clients or gives them some. -/
theorem invariant_update {I : Accounts → Holding → Prop} {i : ι} {p : Point} {w' : World}
    {rest taken given : Multiset Ptr} (hheld : s.held = rest + taken)
    (hmove : ∀ others, I s.world.accounts ((s.pool i).holds + { pointers := taken } + others) →
      I w'.accounts (p.holds + { pointers := given } + others))
    (h : I s.world.accounts s.holding) :
    I w'.accounts (Machine.holding ⟨w', rest + given, update s.pool i p⟩) := by
  have hsplit : ∀ a b : Multiset Ptr,
      ({ pointers := a + b } : Holding) = { pointers := b } + { pointers := a } := by
    intro a b
    ext1 <;> simp [add_comm]
  refine @ThreadPool.invariant_step ι Point Holding (World × Multiset Ptr) _ _ _ Point.holds
    (fun x h => I x.1.accounts (h + { pointers := x.2 })) (s.world, s.held)
    (w', rest + given) s.pool i p (fun others hb => ?_) h
  have hb' : I s.world.accounts
      ((s.pool i).holds + { pointers := taken } + (others + { pointers := rest })) := by
    rw [show s.held = rest + taken from hheld, hsplit] at hb
    rwa [add_add_add_comm]
  have hnext := hmove _ hb'
  rwa [add_add_add_comm, ← hsplit] at hnext

theorem Tended.inside_update (ht : s.Tended) {i : ι} {p : Point} (hp : ¬ p.Stray) (j : ι) :
    ¬ (update s.pool i p j).Stray := by
  by_cases hj : j = i
  · subst j
    rwa [update_self]
  · rw [update_of_ne hj]
    exact ht.inside j

omit [DecidableEq ι] in
/-- When nobody is in the middle of a call, only the clients hold anything. -/
theorem holding_of_quiescent (hq : s.Quiescent) : s.holding = { pointers := s.held } := by
  unfold holding
  rw [ThreadPool.total_eq_zero fun i => ?_]
  · exact zero_add _
  · rw [hq i]
    rfl

omit [DecidableEq ι] in
theorem tended_start {c : Config} (hc : c.Exhaustive) (mem : Memory) :
    (start c mem : Machine ι).Tended := by
  refine ⟨⟨hc, rfl, fun _ => rfl⟩, fun _ => id, ?_⟩
  rw [holding_of_quiescent fun _ => rfl]
  exact balanced_start.custody

theorem Tended.advance_motion (ht : s.Tended) {i : ι} {o : Oracle}
    (hlegal : s.Legal tid (.advance i o)) (hwrap : W → s.NoWrap (.advance i o))
    (hfits : s.Fits (.advance i o)) :
    Motion W s.world.accounts (s.pool i).holds (s.step tid (.advance i o)).world.accounts
      ((s.world.clearLog.advance (tid i) o (s.pool i)).2.holds +
        { pointers := (s.pool i).given }) :=
  MemSentry.advance_motion ht.opened (ht.inside i) (ht.ready i) (fun hW => hwrap hW i o rfl)
    (hfits i o rfl) hlegal.fresh

/-- What every motion keeps, every event keeps. -/
theorem Tended.invariant_step {I : Accounts → Holding → Prop} (ht : s.Tended)
    (hlegal : s.Legal tid e) (hwrap : W → s.NoWrap e) (hfits : s.Fits e)
    (hI : ∀ h h' others, Motion W s.world.accounts h (s.step tid e).world.accounts h' →
      I s.world.accounts (h + others) → I (s.step tid e).world.accounts (h' + others))
    (h : I s.world.accounts s.holding) :
    I (s.step tid e).world.accounts (s.step tid e).holding := by
  cases e with
  | call i q =>
    have hspec := @enter_spec s.world (tid i) ht.opened q
    have hheld := (Multiset.sub_add_cancel (hlegal.holding i q rfl)).symm
    have hm : Motion W s.world.accounts ((s.pool i).holds + { pointers := q.pointers })
        s.world.clearLog.accounts ((s.world.enter (tid i) q).holds + { pointers := 0 }) := by
      rw [hlegal.idle i q rfl, hspec.1]
      refine .still rfl ?_
      ext1 <;> simp [Point.holds]
    have hnext := invariant_update hheld (hI _ _ · hm) h
    rwa [add_zero] at hnext
  | advance i o =>
    have hm := ht.advance_motion hlegal hwrap hfits
    apply invariant_update (add_zero s.held).symm _ h
    intro others hb
    rw [show ({ pointers := 0 } : Holding) = 0 from rfl, add_zero] at hb
    exact hI _ _ _ hm hb
  | setCurrentTag i tag => exact h
  | store mem => exact h

theorem Tended.step (ht : s.Tended) (hlegal : s.Legal tid e) (hfits : s.Fits e) :
    (s.step tid e).Tended := by
  have hopen := ht.opened
  have hcustody : Custody (s.step tid e).world.accounts (s.step tid e).holding :=
    ht.invariant_step hlegal False.elim hfits (fun _ _ _ hm hc => hc.motion hm) ht.custody
  cases e with
  | call i q =>
    have hspec := @enter_spec s.world (tid i) hopen q
    exact ⟨⟨hopen.1, hopen.2, hopen.3⟩, ht.inside_update hspec.2, hcustody⟩
  | advance i o =>
    have hcontrol := @advance_control s.world.clearLog (tid i) o (s.pool i)
    have hinside : ¬ (s.world.clearLog.advance (tid i) o (s.pool i)).2.Stray :=
      advance_inside ⟨hopen.1, hopen.2, hopen.3⟩ (ht.inside i) (ht.ready i)
    refine ⟨⟨?_, ?_, ?_⟩, ht.inside_update hinside, hcustody⟩
    · exact hcontrol.config ▸ hopen.exhaustive
    · exact hcontrol.initialized.trans hopen.initialized
    · exact fun t => (hcontrol.guardActive t).trans (hopen.unguarded t)
  | setCurrentTag i tag =>
    have hunguarded : ∀ t, (s.world.clearLog.setCurrentTag (tid i) tag).guardActive t = false := by
      intro t
      rw [← hopen.unguarded t]
      exact guardActive_setCurrentTag (tid i) t
    exact ⟨⟨hopen.1, hopen.2, hunguarded⟩, ht.inside, hcustody⟩
  | store mem => exact ⟨⟨hopen.1, hopen.2, hopen.3⟩, ht.inside, hcustody⟩

end Machine

end MemSentry
