import MemSentry.Concurrent.ComputedRuns
import MemSentry.Library.Windows
import Mathlib.Data.Rat.Floor
import Mathlib.Algebra.Order.Field.Basic

/-!
# How many allocations the deterministic modes track

Every allocation that gets past the entry checks draws an identifier from the shared
counter in one atomic step, and goes on to lay out its block or to the system allocator. In
the deterministic modes the identifier alone decides which. So the identifiers that any threads
draw in any order are consecutive (`paths_of_events`), and those on the tracking path are those
of a window of numbers with low residues: `sampling_rates`.
-/

namespace MemSentry

open MemSentry.Core Function Transition World Windows
open ThreadPool (Pair)

/-- Whether the allocation with this identifier is tracked, without sampling by bytes. -/
def Config.tracksId (c : Config) (id : Nat) : Bool :=
  if c.sampleEveryN.toNat > 1 then decide (id % c.sampleEveryN.toNat < 1)
  else if c.samplingPercentage.toNat < 100 then decide (id % 100 < c.samplingPercentage.toNat)
  else true

section Steps

variable {w : World} {tid : ThreadId} {o : Oracle} {size : Word} {ptr : Ptr}

theorem gate_of_rate (h : w.config.samplingRateBytes = 0) :
    (w.gate o tid size).1 = w.config.tracksId w.allocCounter.toNat := by
  have hn : (w.config.sampleEveryN.setWidth 64).toNat = w.config.sampleEveryN.toNat :=
    BitVec.toNat_setWidth_of_le (by decide)
  have hp : (w.config.samplingPercentage.setWidth 64).toNat = w.config.samplingPercentage.toNat :=
    BitVec.toNat_setWidth_of_le (by decide)
  unfold gate samplingGate Config.tracksId
  rw [if_neg (by rw [h]; decide)]
  by_cases hevery : w.config.sampleEveryN > 1
  · rw [if_pos hevery, if_pos (show w.config.sampleEveryN.toNat > 1 from hevery)]
    rw [decide_eq_decide, ← BitVec.toNat_inj, BitVec.toNat_umod, hn, Nat.lt_one_iff]
    rfl
  · rw [if_neg hevery, if_neg (show ¬ w.config.sampleEveryN.toNat > 1 from hevery)]
    by_cases hpercent : w.config.samplingPercentage < 100
    · rw [if_pos hpercent, if_pos (show w.config.samplingPercentage.toNat < 100 from hpercent)]
      rw [decide_eq_decide, BitVec.lt_def, BitVec.toNat_umod, hp]
      rfl
    · rw [if_neg hpercent,
        if_neg (show ¬ w.config.samplingPercentage.toNat < 100 from hpercent)]

/-! ## Who moves the counter -/

/-- Nothing but the draw of an identifier moves the counter. -/
theorem advance_counter {p : Point} (hp : ∀ args k, p ≠ .drawId args k) :
    (w.advance tid o p).1.allocCounter = w.allocCounter := by
  cases p with
  | drawId args k => exact absurd rfl (hp args k)
  | systemAlloc size k => exact rawSystemAlloc_system.allocCounter
  | layOut args allocId k => exact (layOut_frame args allocId k).allocCounter
  | raisePeak r current peak k =>
    unfold advance advanceAllocate
    dsimp only
    split
    · split
      · rfl
      · rfl
    · rfl
  | checkLimit ptr k => exact checkLimit_system.allocCounter
  | erase ptr result =>
    unfold advance advanceDeallocate
    dsimp only
    split
    · rfl
    · split
      · rfl
      · rfl
      · exact releaseUntracked_system.allocCounter
  | verify r ptr result =>
    unfold advance advanceDeallocate
    dsimp only
    split
    · rfl
    · rfl
  | freeBlock r result => exact rawSystemFree_system.allocCounter
  | systemFree ptr => exact rawSystemFree_system.allocCounter
  | checkOld ptr r newSize => exact checkOldBlock_system.allocCounter
  | systemRealloc ptr newSize => exact rawSystemRealloc_system.allocCounter
  | _ => rfl

end Steps

/-! ## Runs -/

/-- The allocation has an identifier and is about to get a block of its own layout. -/
def Point.Tracking : Point → Bool
  | .layOut .. => true
  | _ => false

/-- The draw of an identifier leads to the layout of a block or to the system allocator. -/
theorem tracking_drawn (w : World) (tid : ThreadId) (o : Oracle) (args : AllocArgs) (k : After) :
    (w.advance tid o (.drawId args k)).2.Tracking = (w.gate o tid args.size).1 := by
  change (if (w.gate o tid args.size).1 then Point.layOut args w.allocCounter k
    else .systemAlloc args.size k).Tracking = _
  by_cases hgate : (w.gate o tid args.size).1 = true
  · rw [if_pos hgate, hgate]
    rfl
  · rw [if_neg hgate, Bool.eq_false_iff.mpr hgate]
    rfl

namespace Machine

variable {ι : Type} [DecidableEq ι]

/-- If the event is the draw of an identifier: whether the allocation is on the tracking path
after it. -/
def paths (tid : ι → ThreadId) (s : Machine ι) : Event ι → List Bool
  | .advance i o =>
    match s.pool i with
    | .drawId .. => [((s.step tid (.advance i o)).pool i).Tracking]
    | _ => []
  | _ => []

variable {tid : ι → ThreadId} {s : Machine ι}

theorem step_config (e : Event ι) : (s.step tid e).world.config = s.world.config := by
  cases e with
  | call i q => rfl
  | advance i o => exact (advance_control (w := s.world.clearLog)).config
  | setCurrentTag i tag => rfl
  | store mem => rfl

/-- An event draws the next identifier, or none. -/
theorem paths_step (hrate : s.world.config.samplingRateBytes = 0) (e : Event ι) :
    (s.paths tid e = [] ∧ (s.step tid e).world.allocCounter = s.world.allocCounter) ∨
      (s.paths tid e = [s.world.config.tracksId s.world.allocCounter.toNat] ∧
        (s.step tid e).world.allocCounter = s.world.allocCounter + 1) := by
  cases e with
  | call i q => exact Or.inl ⟨rfl, rfl⟩
  | setCurrentTag i tag => exact Or.inl ⟨rfl, rfl⟩
  | store mem => exact Or.inl ⟨rfl, rfl⟩
  | advance i o =>
    by_cases hdraw : ∃ args k, s.pool i = .drawId args k
    · obtain ⟨args, k, hpoint⟩ := hdraw
      refine Or.inr ⟨?_, ?_⟩
      · have hnext : (s.step tid (.advance i o)).pool i =
            (s.world.clearLog.advance (tid i) o (.drawId args k)).2 := by
          rw [← hpoint]
          exact update_self _ _ _
        unfold paths
        dsimp only
        rw [hpoint]
        dsimp only
        rw [hnext, tracking_drawn, gate_of_rate (w := s.world.clearLog) hrate]
        rfl
      · change (s.world.clearLog.advance (tid i) o (s.pool i)).1.allocCounter = _
        rw [hpoint]
        rfl
    · rw [not_exists] at hdraw
      have hother : ∀ args k, s.pool i ≠ .drawId args k := fun args k h => hdraw args ⟨k, h⟩
      refine Or.inl ⟨?_, advance_counter (w := s.world.clearLog) hother⟩
      unfold paths
      dsimp only
      split
      · rename_i args k hpoint
        exact absurd hpoint (hother args k)
      · rfl

/-- **The identifiers drawn are consecutive**, whoever draws them. -/
theorem paths_of_events (es : List (Event ι)) (hrate : s.world.config.samplingRateBytes = 0)
    (hwrap : s.world.allocCounter.toNat +
      (outputs (fun s e => s.step tid e) (paths tid) s es).length ≤ 2 ^ 64) :
    outputs (fun s e => s.step tid e) (paths tid) s es =
      (List.range (outputs (fun s e => s.step tid e) (paths tid) s es).length).map
        fun j => s.world.config.tracksId (s.world.allocCounter.toNat + j) := by
  induction es generalizing s with
  | nil => rfl
  | cons e es ih =>
    have hconfig := @step_config ι _ tid s e
    have hrate' : (s.step tid e).world.config.samplingRateBytes = 0 := by rw [hconfig, hrate]
    rw [outputs] at hwrap ⊢
    rcases @paths_step ι _ tid s hrate e with ⟨hnone, hcounter⟩ | ⟨hone, hcounter⟩
    · rw [hnone, List.nil_append] at hwrap ⊢
      rw [← hcounter] at hwrap
      have hrest := ih hrate' hwrap
      rw [hconfig, hcounter] at hrest
      exact hrest
    · rw [hone] at hwrap ⊢
      rw [List.singleton_append, List.length_cons] at hwrap ⊢
      rcases Nat.eq_zero_or_pos
        (outputs (fun s e => s.step tid e) (paths tid) (s.step tid e) es).length with hlast | hmore
      · rw [List.length_eq_zero_iff.mp hlast]
        rfl
      · have hnext : (s.step tid e).world.allocCounter.toNat =
            s.world.allocCounter.toNat + 1 := by
          rw [hcounter]
          exact BitVec.toNat_add_of_lt (by change _ + 1 < 2 ^ 64; omega)
        have hrest := ih hrate' (by rw [hnext]; omega)
        rw [hconfig, hnext] at hrest
        rw [List.range_succ_eq_map, List.map_cons, List.map_map, Nat.add_zero]
        refine congrArg _ (hrest.trans (List.map_congr_left fun j _ => ?_))
        rw [Function.comp_apply, Nat.succ_eq_add_one, Nat.add_assoc, Nat.add_comm 1 j]

/-- The tracked identifiers of a window, in both modes. -/
theorem count_tracksId {c : Config} {q p : Nat} (hmode : ∀ id, c.tracksId id = decide (id % q < p))
    (start m : Nat) :
    ((List.range m).map fun j => c.tracksId (start + j)).count true = hits q p start m := by
  rw [List.count, List.countP_map, hits]
  refine List.countP_congr fun j _ => ?_
  rw [Function.comp_apply, hmode, beq_true]

/-! ## The two rates -/

theorem rat_deviation {q p h m : Nat} (hq : 0 < q)
    (hdev : |(q : Int) * h - p * m| ≤ p * (q - p)) :
    |(h : ℚ) - m * p / q| ≤ p * (q - p) / q := by
  have hq' : (0 : ℚ) < q := by exact_mod_cast hq
  have hcast : |(q : ℚ) * h - p * m| ≤ p * (q - p) := by exact_mod_cast hdev
  have hscaled : (h : ℚ) - m * p / q = (q * h - p * m) / q := by
    field_simp
  rw [hscaled, abs_div, abs_of_pos hq']
  exact div_le_div_of_nonneg_right hcast hq'.le

/-- One in `n`: between the two roundings of `m / n`. -/
theorem floor_le_hits_le_ceil {n : Nat} (hn : 1 < n) (start m : Nat) :
    ⌊(m : ℚ) / n⌋₊ ≤ hits n 1 start m ∧ hits n 1 start m ≤ ⌈(m : ℚ) / n⌉₊ := by
  have hpos : (0 : ℚ) < n := by exact_mod_cast Nat.lt_of_succ_lt hn
  have hdev := rat_deviation (Nat.lt_of_succ_lt hn)
    (hits_deviation (Nat.lt_of_succ_lt hn) (Nat.le_of_lt hn) start m)
  rw [abs_le, Nat.cast_one, mul_one, one_mul, sub_div, div_self hpos.ne'] at hdev
  have hunit : (0 : ℚ) < 1 / n := by positivity
  obtain ⟨hlow, hhigh⟩ := hdev
  constructor
  · have hlt : ⌊(m : ℚ) / n⌋₊ < hits n 1 start m + 1 := by
      rw [Nat.floor_lt (by positivity)]
      push_cast
      linarith
    omega
  · have hlt : hits n 1 start m < ⌈(m : ℚ) / n⌉₊ + 1 := by
      have hceil := Nat.le_ceil ((m : ℚ) / n)
      have : (hits n 1 start m : ℚ) < (⌈(m : ℚ) / n⌉₊ : ℚ) + 1 := by linarith
      exact_mod_cast this
    omega

/-- **The deterministic sampling rates are exact.** Of the `m` identifiers that any threads
draw in any order, starting anywhere below the end of the counter, one in `n` is tracked up
to rounding, or `p` percent up to `p * (100 - p) / 100`. -/
theorem sampling_rates (tid : ι → ThreadId) (s : Machine ι) (es : List (Event ι))
    (flags : List Bool) (hflags : flags = outputs (fun s e => s.step tid e) (paths tid) s es)
    (hrate : s.world.config.samplingRateBytes = 0)
    (hwrap : s.world.allocCounter.toNat + flags.length ≤ 2 ^ 64) :
    (∀ n, s.world.config.sampleEveryN.toNat = n → 1 < n →
      (⌊(flags.length : ℚ) / n⌋₊ ≤ flags.count true ∧
        flags.count true ≤ ⌈(flags.length : ℚ) / n⌉₊) ∧
      ∀ k, flags.length = k * n → flags.count true = k) ∧
    (∀ p, s.world.config.sampleEveryN.toNat ≤ 1 → s.world.config.samplingPercentage.toNat = p →
      p < 100 →
      (∀ k, flags.length = 100 * k → flags.count true = k * p) ∧
      |(flags.count true : ℚ) - flags.length * p / 100| ≤ p * (100 - p) / 100) := by
  have hlength := congrArg List.length hflags
  rw [hlength] at hwrap
  have hids := paths_of_events es hrate hwrap
  rw [← hflags] at hids
  constructor
  · intro n hn hone
    have hmode : ∀ id, s.world.config.tracksId id = decide (id % n < 1) := by
      intro id
      unfold Config.tracksId
      rw [hn, if_pos hone]
    have hcount : flags.count true = hits n 1 s.world.allocCounter.toNat flags.length := by
      rw [← count_tracksId hmode, ← hids]
    rw [hcount]
    refine ⟨floor_le_hits_le_ceil hone _ _, fun k hk => ?_⟩
    rw [hk, Nat.mul_comm k n, hits_mul (by omega) (by omega), Nat.one_mul]
  · intro p hn hp hbelow
    have hmode : ∀ id, s.world.config.tracksId id = decide (id % 100 < p) := by
      intro id
      unfold Config.tracksId
      rw [if_neg (by omega), hp, if_pos hbelow]
    have hcount : flags.count true = hits 100 p s.world.allocCounter.toNat flags.length := by
      rw [← count_tracksId hmode, ← hids]
    rw [hcount]
    refine ⟨fun k hk => ?_, ?_⟩
    · rw [hk, hits_mul (by decide) (by omega), Nat.mul_comm]
    · have hdev := rat_deviation (by decide)
        (hits_deviation (by decide) (Nat.le_of_lt hbelow) s.world.allocCounter.toNat flags.length)
      exact_mod_cast hdev

/-- An allocation up to the draw of its identifier, and one that goes to the system as a
whole. -/
def drawing (i : Pair) : List (Event Pair) :=
  [.call i (.alloc 8 16 0), .advance i { malloc := 0x10000 }]

def passing (i : Pair) : List (Event Pair) :=
  drawing i ++ [.advance i { malloc := 0x10000 }, .advance i { malloc := 0x10000 }]

/-- The paths of six allocations of two threads, with every third tracked. -/
def sixPaths : List Bool :=
  outputs (fun s e => Machine.step pair s e) (paths pair)
    (Machine.start { sampleEveryN := 3 } fun _ => 0)
    (passing .first ++ passing .second ++ drawing .first ++ passing .second ++ passing .second ++
      drawing .second)

theorem sampling_rates_six :
    sixPaths = [false, false, true, false, false, true] ∧ sixPaths.count true = 2 := by
  have hsix : sixPaths = [false, false, true, false, false, true] := by decide +kernel
  have hlength : sixPaths.length = 2 * 3 := congrArg List.length hsix
  have hrates := sampling_rates pair (Machine.start { sampleEveryN := 3 } fun _ => 0) _ sixPaths
    rfl rfl (by rw [hlength]; decide)
  exact ⟨hsix, (hrates.1 3 rfl (by decide)).2 2 hlength⟩

end Machine

end MemSentry
