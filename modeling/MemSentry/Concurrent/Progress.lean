import MemSentry.Concurrent.Watchdog
import MemSentry.Library.Amortized

/-!
# Every call comes to its end

The only loop of a call is the exchange on the peak. It fails when another thread has
raised the peak since the load, and it may fail for no reason. A thread whose expected
value is not the peak any more is `stale`. A failure makes it fresh again, and only a raise
makes the others stale; an allocation raises the peak at most once. So a call pays for its
own steps (`Point.left`) and for one failure of every other thread, and what all threads do
together is bounded by the calls and the exchanges that failed for no reason
(`steps_bounded`): no schedule keeps the threads in the loop.
-/

namespace MemSentry

open MemSentry.Core Function Transition World
open ThreadPool (Pair)

/-! ## What is left of a call -/

/-- The steps of a call after `allocate` has returned. -/
def After.left : After → ℕ
  | .done => 1
  | .moveFrom .. => 11

/-- The steps up to the end of the call, if no exchange fails. -/
def Point.left : Point → ℕ
  | .idle => 0
  | .finish _ => 1
  | .systemFree _ | .systemRealloc .. | .freeBlock .. => 2
  | .poison .. => 3
  | .recordSize .. => 4
  | .subCurrent .. => 5
  | .subActive .. => 6
  | .addFreeCount .. => 7
  | .addFreedBytes .. => 8
  | .verify .. => 9
  | .erase .. => 10
  | .copy .. => 11
  | .systemAlloc _ k | .checkLimit _ k => k.left + 1
  | .insert _ k => k.left + 2
  | .raisePeak _ _ _ k => k.left + 3
  | .loadPeak _ _ k => k.left + 4
  | .addCurrent _ k => k.left + 5
  | .addActive _ k => k.left + 6
  | .addTotalCount _ k => k.left + 7
  | .addTotalBytes _ k => k.left + 8
  | .layOut _ _ k => k.left + 9
  | .drawId _ k => k.left + 10
  | .checkOld .. => 22
  | .find .. => 23

/-- The call may still raise the peak. -/
def Point.mayRaise : Point → Bool
  | .drawId .. | .layOut .. | .addTotalBytes .. | .addTotalCount .. | .addActive ..
  | .addCurrent .. | .loadPeak .. | .raisePeak .. | .find .. | .checkOld .. => true
  | _ => false

/-- The exchange that the thread is about to try fails: the peak is not what it loaded. -/
def Point.stale (peak : Word) : Point → ℕ
  | .raisePeak _ _ loaded _ => if loaded = peak then 0 else 1
  | _ => 0

/-- The exchange that the thread is about to try fails for no reason. -/
def Point.wasted (peak : Word) (o : Oracle) : Point → ℕ
  | .raisePeak _ current loaded _ =>
    if current > loaded ∧ loaded = peak ∧ o.spurious then 1 else 0
  | _ => 0

/-- What the calls pay for: their steps, and a failure of each of the `others`. -/
def Point.due (others : ℕ) (p : Point) : ℕ := p.left + if p.mayRaise then others else 0

/-- What a point is worth beside a peak. -/
def Point.worth (others : ℕ) (peak : Word) (p : Point) : ℕ := p.due others + p.stale peak

/-- What a call is granted. -/
def Request.due (others : ℕ) : Request → ℕ
  | .alloc .. => 11 + others
  | .free _ => 10
  | .realloc .. => 23 + others

theorem Point.stale_le (peak : Word) (p : Point) : p.stale peak ≤ 1 := by
  cases p with
  | raisePeak r current loaded k =>
    unfold Point.stale
    dsimp only
    split
    · exact Nat.zero_le 1
    · exact Nat.le_refl 1
  | _ => exact Nat.zero_le 1

theorem Point.stale_of_not_raising {p : Point} (h : p.mayRaise = false) (peak : Word) :
    p.stale peak = 0 := by
  cases p with
  | raisePeak r current loaded k => cases h
  | _ => rfl

/-- Going on after `allocate` raises nothing. -/
theorem After.next_left (k : After) (ptr : Ptr) :
    (k.next ptr).left ≤ k.left ∧ (k.next ptr).mayRaise = false := by
  cases k with
  | done => exact ⟨Nat.le_refl 1, rfl⟩
  | moveFrom old record newSize =>
    rcases eq_or_ne ptr 0 with rfl | hne
    · rw [After.next_failed]
      exact ⟨Nat.le_add_left 1 10, rfl⟩
    · rw [After.next_moved hne]
      exact ⟨Nat.le_refl 11, rfl⟩

theorem Point.due_le {others n : ℕ} {p : Point} (hleft : p.left ≤ n) :
    p.due others ≤ n + others := by
  unfold Point.due
  split
  · exact Nat.add_le_add_right hleft others
  · exact Nat.le_add_right_of_le hleft

/-! ## Single steps -/

/-- A step of a call pays for itself, unless its exchange fails; either way the thread has
the peak that was there. -/
inductive PaidStep (others : ℕ) (o : Oracle) (w : World) (p p' : Point) : Prop
  | moved (hpaid : p'.due others + 1 ≤ p.due others)
      (hfresh : p'.stale w.stats.peakAllocatedBytes = 0)
  | failed (r : AllocationRecord) (current loaded : Word) (k : After)
      (hp : p = .raisePeak r current loaded k)
      (hp' : p' = .raisePeak r current w.stats.peakAllocatedBytes k)
      (habove : current > loaded) (hwhy : loaded = w.stats.peakAllocatedBytes → o.spurious = true)

section Steps

variable {w : World} {tid : ThreadId} {o : Oracle} {others : ℕ}

theorem enterAllocate_left (args : AllocArgs) (k : After) :
    (w.enterAllocate tid args k).left ≤ k.left + 10 := by
  unfold enterAllocate
  split
  · exact Nat.add_le_add_left (Nat.le_add_left 1 9) k.left
  · exact Nat.le_refl _

theorem enter_due (q : Request) : (w.enter tid q).due others ≤ q.due others := by
  cases q with
  | alloc size alignment tag => exact Point.due_le (enterAllocate_left _ .done)
  | free ptr =>
    unfold enter
    dsimp only
    split
    · exact Nat.le_add_left 1 9
    · split
      · exact Nat.le_add_left 2 8
      · exact Nat.le_refl 10
  | realloc ptr newSize =>
    apply Point.due_le
    unfold enter
    dsimp only
    split
    · exact Nat.le_add_left 2 21
    · split
      · exact le_trans (enterAllocate_left _ .done) (Nat.le_add_left 11 12)
      · split
        · exact Nat.le_add_left 10 13
        · exact Nat.le_refl 23

theorem enter_stale (peak : Word) (q : Request) : (w.enter tid q).stale peak = 0 := by
  refine enter_induction (P := fun p => p.stale peak = 0) q rfl (fun p hp => ?_) (fun _ => rfl)
    (fun _ => rfl) fun _ _ _ => rfl
  cases p with
  | raisePeak r current loaded k => exact hp.elim
  | _ => rfl

/-- On the way to the loop. -/
theorem PaidStep.toward {p p' : Point} (hleft : p'.left + 1 ≤ p.left) (hraise : p.mayRaise = true)
    (hfresh : p'.stale w.stats.peakAllocatedBytes = 0) : PaidStep others o w p p' := by
  refine .moved ?_ hfresh
  have hdue : p.due others = p.left + others := by rw [Point.due, if_pos hraise]
  have hdue' := @Point.due_le others p'.left p' (Nat.le_refl _)
  omega

/-- Past the loop, or on a way that does not lead to it. -/
theorem PaidStep.past {p p' : Point} (hleft : p'.left + 1 ≤ p.left)
    (hraise : p'.mayRaise = false) : PaidStep others o w p p' := by
  refine .moved ?_ (Point.stale_of_not_raising hraise _)
  rw [Point.due, Point.due, hraise, if_neg Bool.false_ne_true]
  omega

theorem PaidStep.returned {p : Point} {k : After} {ptr : Ptr} (hp : k.left + 1 ≤ p.left) :
    PaidStep others o w p (k.next ptr) := by
  obtain ⟨hleft, hraise⟩ := k.next_left ptr
  exact .past (by omega) hraise

theorem raisePeak_paid (r : AllocationRecord) (current loaded : Word) (k : After) :
    PaidStep others o w (.raisePeak r current loaded k)
      (w.advanceAllocate tid o (.raisePeak r current loaded k)).2 := by
  have hleave : PaidStep others o w (.raisePeak r current loaded k) (.insert r k) :=
    .past (Nat.le_refl _) rfl
  unfold advanceAllocate
  dsimp only
  split
  case isTrue habove =>
    split
    case isTrue => exact hleave
    case isFalse hfailed =>
      refine .failed r current loaded k rfl rfl habove fun heq => ?_
      by_contra hspurious
      exact hfailed ⟨heq.symm, hspurious⟩
  case isFalse => exact hleave

theorem advance_paid {p : Point} (hidle : p ≠ .idle) :
    PaidStep others o w p (w.advance tid o p).2 := by
  cases p with
  | idle => exact absurd rfl hidle
  | drawId args k =>
    change PaidStep others o w _ (w.advanceAllocate tid o (.drawId args k)).2
    unfold advanceAllocate
    dsimp only
    split
    · exact .toward (Nat.le_refl _) rfl rfl
    · exact .past (Nat.add_le_add_left (Nat.le_add_left 2 8) k.left) rfl
  | systemAlloc size k => exact .returned (Nat.le_refl _)
  | layOut args allocId k =>
    change PaidStep others o w _ (w.layOut tid o args allocId k).2
    rcases @layOut_point w tid o args allocId k with h | ⟨userPtr, h⟩
    · rw [h]
      exact .returned (Nat.add_le_add_left (Nat.le_add_left 1 8) k.left)
    · rw [h]
      exact .toward (Nat.le_refl _) rfl rfl
  | loadPeak r current k => exact .toward (Nat.le_refl _) rfl (if_pos rfl)
  | raisePeak r current loaded k => exact @raisePeak_paid w tid o others r current loaded k
  | checkLimit ptr k => exact .returned (Nat.le_refl _)
  | erase ptr result =>
    change PaidStep others o w _ (w.advanceDeallocate (.erase ptr result)).2
    unfold advanceDeallocate
    dsimp only
    split
    · exact .past (Nat.le_add_left 2 8) rfl
    · split
      · exact .past (Nat.le_refl _) rfl
      · exact .past (Nat.le_add_left 2 8) rfl
      · exact .past (Nat.le_add_left 2 8) rfl
  | recordSize r verdict result =>
    change PaidStep others o w _ (w.advanceDeallocate (.recordSize r verdict result)).2
    unfold advanceDeallocate
    dsimp only
    split
    · exact .past (Nat.le_refl _) rfl
    · exact .past (Nat.le_add_left 2 2) rfl
  | find ptr newSize =>
    change PaidStep others o w _ (w.advanceReallocate tid o (.find ptr newSize)).2
    unfold advanceReallocate
    dsimp only
    split
    · exact .past (Nat.le_add_left 3 20) rfl
    · exact .toward (Nat.le_refl _) rfl rfl
  | checkOld ptr r newSize =>
    have hleft := @enterAllocate_left w tid ⟨newSize, r.alignment, r.tag⟩ (.moveFrom ptr r newSize)
    refine .toward (Nat.succ_le_succ hleft) rfl ?_
    change (w.enterAllocate tid _ _).stale _ = 0
    unfold enterAllocate
    split
    · rfl
    · rfl
  | addTotalBytes | addTotalCount | addActive | addCurrent =>
    exact .toward (Nat.le_refl _) rfl rfl
  | _ => exact .past (Nat.le_refl _) rfl

/-- A thread that loses its exchange has been made stale by another, or loses it for no
reason. -/
theorem advance_worth {p : Point} (hidle : p ≠ .idle) :
    1 + (w.advance tid o p).2.worth others w.stats.peakAllocatedBytes ≤
      p.worth others w.stats.peakAllocatedBytes + p.wasted w.stats.peakAllocatedBytes o := by
  unfold Point.worth
  cases @advance_paid w tid o others p hidle with
  | moved hpaid hfresh =>
    rw [hfresh]
    omega
  | failed r current loaded k hp hp' habove hwhy =>
    have hfresh : (w.advance tid o p).2.stale w.stats.peakAllocatedBytes = 0 := by
      rw [hp']
      exact if_pos rfl
    have hdue : (w.advance tid o p).2.due others = p.due others := by
      rw [hp', hp]
      rfl
    have hlost :
        1 ≤ p.stale w.stats.peakAllocatedBytes + p.wasted w.stats.peakAllocatedBytes o := by
      rw [hp]
      by_cases hsame : loaded = w.stats.peakAllocatedBytes
      · have hwasted :
            Point.wasted w.stats.peakAllocatedBytes o (.raisePeak r current loaded k) = 1 :=
          if_pos ⟨habove, hsame, hwhy hsame⟩
        rw [hwasted]
        exact Nat.le_add_left 1 _
      · have hstale : Point.stale w.stats.peakAllocatedBytes (.raisePeak r current loaded k) = 1 :=
          if_neg hsame
        rw [hstale]
        exact Nat.le_add_right 1 _
    rw [hfresh, hdue]
    omega

/-- Out of the loop a thread is worth the same beside any peak; the failures that it has
paid for are left over. -/
theorem insert_worth (r : AllocationRecord) (current loaded peak peak' : Word) (k : After) :
    1 + (Point.insert r k).worth others peak' + others ≤
      (Point.raisePeak r current loaded k).worth others peak := by
  have hinsert : (Point.insert r k).worth others peak' = k.left + 2 := rfl
  have hraise : (Point.raisePeak r current loaded k).due others = k.left + 3 + others := rfl
  rw [hinsert, Point.worth, hraise]
  omega

theorem worth_le_succ (peak peak' : Word) (p : Point) :
    p.worth others peak' ≤ p.worth others peak + 1 := by
  have hstale := p.stale_le peak'
  unfold Point.worth
  omega

theorem peak_checkLimit : w.checkLimit.stats = w.stats := by
  unfold checkLimit
  split
  · rfl
  · rfl

/-- Only the exchange changes the peak, and then the thread leaves the loop. -/
theorem peak_advance (p : Point) :
    (w.clearLog.advance tid o p).1.stats.peakAllocatedBytes = w.stats.peakAllocatedBytes ∨
      ∃ r current loaded k, p = .raisePeak r current loaded k ∧
        (w.clearLog.advance tid o p).2 = .insert r k := by
  cases @advance_watch 0 w tid o p with
  | quiet hpeak => exact Or.inl hpeak
  | booked r k hp' hpeak => exact Or.inl hpeak
  | raised r current peak k hp hp' => exact Or.inr ⟨r, current, peak, k, hp, hp'⟩
  | checked ptr k hp hp' hw =>
    rw [hw, peak_checkLimit]
    exact Or.inl rfl

end Steps

/-! ## Runs -/

namespace Machine

variable {ι : Type} [DecidableEq ι]

/-- A step inside a call. -/
def worked (s : Machine ι) : Event ι → ℕ
  | .advance i _ => if s.pool i = .idle then 0 else 1
  | _ => 0

/-- What a call is granted when it starts, and an exchange that fails for no reason. -/
def granted (others : ℕ) (s : Machine ι) : Event ι → ℕ
  | .call _ q => q.due others
  | .advance i o => (s.pool i).wasted s.world.stats.peakAllocatedBytes o
  | _ => 0

variable [Fintype ι]

/-- What the calls in progress still have. -/
def pending (s : Machine ι) : ℕ :=
  ThreadPool.total (Point.worth (Fintype.card ι - 1) s.world.stats.peakAllocatedBytes) s.pool

variable {tid : ι → ThreadId} {s t : Machine ι} {es : List (Event ι)}

theorem pending_eq (s : Machine ι) (i : ι) :
    s.pending = (s.pool i).worth (Fintype.card ι - 1) s.world.stats.peakAllocatedBytes +
      ThreadPool.others (Point.worth (Fintype.card ι - 1) s.world.stats.peakAllocatedBytes)
        s.pool i :=
  ThreadPool.total_eq _ s.pool i

theorem pending_advance (i : ι) (o : Oracle) :
    s.worked (.advance i o) + (s.step tid (.advance i o)).pending ≤
      s.pending + s.granted (Fintype.card ι - 1) (.advance i o) := by
  let n := Fintype.card ι - 1
  let peak := s.world.stats.peakAllocatedBytes
  let next := s.world.clearLog.advance (tid i) o (s.pool i)
  have hafter : (s.step tid (.advance i o)).pending =
      next.2.worth n next.1.stats.peakAllocatedBytes +
        ThreadPool.others (Point.worth n next.1.stats.peakAllocatedBytes) s.pool i :=
    ThreadPool.total_update _ s.pool i next.2
  have hbefore : s.pending =
      (s.pool i).worth n peak + ThreadPool.others (Point.worth n peak) s.pool i := s.pending_eq i
  rw [hafter, hbefore]
  by_cases hidle : s.pool i = .idle
  · have hnext : next = (s.world.clearLog, .idle) := by
      change s.world.clearLog.advance (tid i) o (s.pool i) = _
      rw [hidle]
      rfl
    have hworked : s.worked (.advance i o) = 0 := if_pos hidle
    rw [hnext, hidle, hworked, Nat.zero_add]
    exact Nat.le_add_right _ _
  have hworked : s.worked (.advance i o) = 1 := if_neg hidle
  rw [hworked]
  rcases @peak_advance s.world (tid i) o (s.pool i) with hpeak | ⟨r, current, loaded, k, hp, hp'⟩
  · have hworth := @advance_worth s.world.clearLog (tid i) o n (s.pool i) hidle
    have hpeak' : next.1.stats.peakAllocatedBytes = peak := hpeak
    rw [hpeak']
    change 1 + next.2.worth n peak ≤ (s.pool i).worth n peak + (s.pool i).wasted peak o at hworth
    change _ ≤ _ + (s.pool i).wasted peak o
    omega
  · have hworth := @insert_worth n r current loaded peak next.1.stats.peakAllocatedBytes k
    have hothers := @ThreadPool.others_le_add ι Point _ _ (Point.worth n peak)
      (Point.worth n next.1.stats.peakAllocatedBytes) s.pool (worth_le_succ peak _) i
    have hnext : next.2 = .insert r k := hp'
    rw [hnext, hp]
    omega

theorem pending_call (i : ι) (q : Request) (hidle : s.pool i = .idle) :
    (s.step tid (.call i q)).pending ≤ s.pending + q.due (Fintype.card ι - 1) := by
  have hafter : (s.step tid (.call i q)).pending =
      (s.world.enter (tid i) q).worth (Fintype.card ι - 1) s.world.stats.peakAllocatedBytes +
        ThreadPool.others (Point.worth (Fintype.card ι - 1) s.world.stats.peakAllocatedBytes)
          s.pool i :=
    ThreadPool.total_update _ s.pool i _
  have hdue := @enter_due s.world (tid i) (Fintype.card ι - 1) q
  have hstale := @enter_stale s.world (tid i) s.world.stats.peakAllocatedBytes q
  have hbefore := s.pending_eq i
  rw [hidle] at hbefore
  rw [hafter, hbefore, Point.worth, hstale]
  change _ ≤ 0 + _ + _
  omega

theorem pending_step {e : Event ι} (hlegal : s.Legal tid e) :
    s.worked e + (s.step tid e).pending ≤ s.pending + s.granted (Fintype.card ι - 1) e := by
  cases e with
  | call i q =>
    change 0 + _ ≤ _
    rw [Nat.zero_add]
    exact pending_call i q (hlegal.idle i q rfl)
  | advance i o => exact pending_advance i o
  | setCurrentTag i tag => exact Nat.le_of_eq (Nat.add_comm 0 s.pending)
  | store mem => exact Nat.le_of_eq (Nat.add_comm 0 s.pending)

/-- A thread inside a call has a step left. -/
theorem left_pos {p : Point} (h : p ≠ .idle) : 0 < p.left := by
  cases p with
  | idle => exact absurd rfl h
  | _ => exact Nat.succ_pos _

theorem pending_eq_zero_iff : s.pending = 0 ↔ s.Quiescent := by
  constructor
  · intro hzero i
    by_contra hbusy
    have hleft := left_pos hbusy
    have heq := s.pending_eq i
    rw [Point.worth, Point.due] at heq
    omega
  · intro hidle
    refine ThreadPool.total_eq_zero fun i => ?_
    rw [hidle i]
    rfl

/-- **Every schedule lets the calls end.** The steps inside calls are at most those that
the calls may take without contention, one failed exchange of each other thread for each
call that allocates, and the exchanges that failed for no reason. -/
theorem steps_bounded (h : Run (system tid fun _ _ => True) s es t) :
    along (fun s e => Machine.step tid s e) worked s es + t.pending ≤
        s.pending + along (fun s e => Machine.step tid s e) (granted (Fintype.card ι - 1)) s es ∧
      (t.pending = 0 ↔ t.Quiescent) := by
  have hstep : ∀ s e, (system tid fun _ _ => True).guard s e →
      worked s e + pending ((system tid fun _ _ => True).step s e) ≤
        pending s + granted (Fintype.card ι - 1) s e := fun s e hguard => pending_step hguard.1
  exact ⟨h.amortized hstep, pending_eq_zero_iff⟩

/-- The first thread's exchange on the peak fails for no reason, and again when the second has
raised the peak in between. Both allocations end, and the first block is freed. -/
def contending : List (Event Pair) :=
  let a : Event Pair := .advance .first { malloc := 0x10000 }
  let b : Event Pair := .advance .second { malloc := 0x20000 }
  [.call .first (.alloc 16 16 0), .call .second (.alloc 40 64 0)] ++ List.replicate 7 a ++
    [.advance .first { malloc := 0, spurious := true }] ++ List.replicate 9 b ++
    List.replicate 5 a ++ List.replicate 2 b ++ [.call .first (.free 0x10050)] ++
    List.replicate 10 a

theorem steps_bounded_contending :
    let s := after pair {} (fun _ => 0) contending
    let all (f : Machine Pair → Event Pair → ℕ) :=
      along (fun s e => Machine.step pair s e) f (start {} fun _ => 0) contending
    Run (system pair fun _ _ => True) (start {} fun _ => 0) contending s ∧ s.Quiescent ∧
      s.pending = 0 ∧ all worked = 34 ∧ all (granted 1) = 35 ∧ all worked ≤ all (granted 1) := by
  intro s all
  have hrun : Run (system pair fun _ _ => True) (start {} fun _ => 0) contending s :=
    run_from_start pair (fun _ _ => True) (by decide +kernel)
  have hidle : ∀ i, s.pool i = .idle := by decide +kernel
  obtain ⟨hbound, hended⟩ := steps_bounded hrun
  have hstart : (start {} fun _ => 0 : Machine Pair).pending = 0 :=
    pending_eq_zero_iff.mpr fun _ => rfl
  have hnone : s.pending = 0 := hended.mpr hidle
  rw [hstart, hnone, Nat.zero_add, Nat.add_zero] at hbound
  exact ⟨hrun, hidle, hnone, by decide +kernel, by decide +kernel, hbound⟩

end Machine

end MemSentry
