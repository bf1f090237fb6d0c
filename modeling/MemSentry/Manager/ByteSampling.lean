import MemSentry.Manager.ThreadVariables

/-!
# Sampling by bytes

With a positive `sampling_rate_bytes` a thread counts the bytes it requests down from a
drawn interval and tracks the request that uses the interval up. `Sampler` follows one
thread through a sequence of requests and keeps beside the state of the manager what the
requests and the drawn intervals were. The law (`ObeysLaw`) is about these alone: exact
sums of sizes against the interval in force.

The countdown is a signed number and the size is cast to one. From `2 ^ 63` on the cast is
negative: the request is skipped, however large, and the countdown grows by it. Such a
request breaks the law, and nothing else does (`law_along_iff`).
-/

namespace MemSentry

open MemSentry.Core World Function

/-- A call of `allocate`, with what it meets outside. -/
structure SampleRequest where
  oracle : Oracle
  size : Word
  alignment : Word
  tag : Ptr

structure Sampler where
  world : World
  /-- The requests so far, newest first: their sizes, and whether they were tracked. -/
  requests : List (Word × Bool)
  /-- The intervals drawn so far, newest first. -/
  drawn : List Word

/-- The sum of the sizes since the last request that was tracked. -/
def skippedBytes : List (Word × Bool) → Nat
  | [] => 0
  | (_, true) :: _ => 0
  | (size, false) :: rs => size.toNat + skippedBytes rs

namespace Sampler

variable (tid : ThreadId) (s : Sampler) (e : SampleRequest)

/-- `tl_bytes_until_sample`. -/
def countdown : Int := (s.world.locals tid).bytesUntilSample.toInt

/-- The intervals that the request draws, newest first: one when the countdown is used
up, one when the request is tracked. -/
def draws : List Word :=
  (if (s.world.gate e.oracle tid e.size).1 then [e.oracle.nextInterval] else []) ++
    (if s.countdown tid ≤ 0 then [e.oracle.firstInterval] else [])

def step : Sampler where
  world := (s.world.allocate e.oracle tid e.size e.alignment e.tag).1
  requests := (e.size, decide (s.world.Tracks e.oracle tid e.size)) :: s.requests
  drawn := s.draws tid e ++ s.drawn

/-- The interval that the request is measured against: the newest one, or the one that the
first request draws. -/
def inForce : Nat := ((s.drawn ++ [e.oracle.firstInterval]).headD 0).toNat

/-- The law for one request. -/
structure ObeysLaw : Prop where
  tracked : s.world.Tracks e.oracle tid e.size ↔
    s.inForce e ≤ skippedBytes s.requests + e.size.toNat
  drawn : s.draws tid e =
    (if s.world.Tracks e.oracle tid e.size then [e.oracle.nextInterval] else []) ++
      (if s.requests = [] then [e.oracle.firstInterval] else [])
  countdown : (s.step tid e).countdown tid =
    (((s.step tid e).drawn.headD 0).toNat : Int) - skippedBytes (s.step tid e).requests
  positive : 0 < (s.step tid e).countdown tid

/-- The law for every request of a sequence. -/
def LawAlong : Sampler → List SampleRequest → Prop
  | _, [] => True
  | s, e :: es => s.ObeysLaw tid e ∧ LawAlong (s.step tid e) es

end Sampler

/-- The draws are integers in [1, 2^62]. -/
def SampleRequest.Draws (e : SampleRequest) : Prop :=
  (1 ≤ e.oracle.firstInterval.toNat ∧ e.oracle.firstInterval.toNat ≤ 2 ^ 62) ∧
    1 ≤ e.oracle.nextInterval.toNat ∧ e.oracle.nextInterval.toNat ≤ 2 ^ 62

/-! ## The invariant -/

theorem tracks_iff_gate {w : World} {o : Oracle} {tid : ThreadId} {size : Word}
    (hguard : w.guardActive tid = false) (hinit : w.initialized = true) :
    w.Tracks o tid size ↔ (w.gate o tid size).1 = true :=
  ⟨fun h => h.2.2, fun h => ⟨hguard, hinit, h⟩⟩

namespace Sampler

variable {tid : ThreadId} {s : Sampler} {e : SampleRequest}

/-- The thread samples by bytes. -/
structure Sampling (tid : ThreadId) (w : World) : Prop where
  rate : w.config.samplingRateBytes > 0
  initialized : w.initialized = true
  guard : w.guardActive tid = false

/-- Before the first request nothing has been drawn and the countdown is 0; from then on
it is what the skipped bytes have left of the newest interval. -/
inductive Phase (tid : ThreadId) (s : Sampler) : Prop
  | fresh (hrequests : s.requests = []) (hdrawn : s.drawn = [])
      (hcountdown : (s.world.locals tid).bytesUntilSample = 0)
  | running (d : Word) (ds : List Word) (hrequests : s.requests ≠ [])
      (hdrawn : s.drawn = d :: ds) (hrange : d.toNat ≤ 2 ^ 62)
      (hcountdown : (s.world.locals tid).bytesUntilSample.toNat + skippedBytes s.requests = d.toNat)
      (hpositive : 0 < (s.world.locals tid).bytesUntilSample.toNat)

/-- The countdown that the size is compared with. -/
def left (tid : ThreadId) (s : Sampler) (e : SampleRequest) : Word :=
  if s.countdown tid ≤ 0 then e.oracle.firstInterval else (s.world.locals tid).bytesUntilSample

theorem gate_eq (h : Sampling tid s.world) :
    s.world.gate e.oracle tid e.size =
      if e.size.toInt < (s.left tid e).toInt then (false, s.left tid e - e.size)
      else (true, e.oracle.nextInterval) := by
  unfold gate samplingGate
  rw [if_pos h.rate]
  rfl

theorem toInt_of_small {x : Word} (h : x.toNat < 2 ^ 63) : x.toInt = x.toNat :=
  BitVec.toInt_eq_toNat_of_lt (by omega)

/-- What the request is measured against, in both phases. -/
theorem left_spec (h : Phase tid s) (hdraws : e.Draws) :
    (s.left tid e).toNat + skippedBytes s.requests = s.inForce e ∧
      0 < (s.left tid e).toNat ∧ s.inForce e ≤ 2 ^ 62 ∧
      (s.countdown tid ≤ 0 ↔ s.requests = []) := by
  obtain ⟨⟨hlow, hhigh⟩, _⟩ := hdraws
  unfold left inForce
  cases h with
  | fresh hrequests hdrawn hcountdown =>
    have hzero : s.countdown tid ≤ 0 := by
      unfold countdown
      rw [hcountdown]
      decide
    rw [if_pos hzero, hrequests, hdrawn]
    exact ⟨rfl, hlow, hhigh, iff_of_true hzero rfl⟩
  | running d ds hrequests hdrawn hrange hcountdown hpositive =>
    have hgreat : ¬ s.countdown tid ≤ 0 := by
      unfold countdown
      rw [toInt_of_small (by omega)]
      omega
    rw [if_neg hgreat, hdrawn]
    exact ⟨hcountdown, hpositive, hrange, iff_of_false hgreat hrequests⟩

theorem sampling_step (h : Sampling tid s.world) : Sampling tid (s.step tid e).world := by
  obtain ⟨hcontrol, _⟩ := allocate_effect s.world e.oracle tid e.size e.alignment e.tag
  refine ⟨?_, hcontrol.initialized.trans h.initialized, (hcontrol.guardActive tid).trans h.guard⟩
  change (s.world.allocate e.oracle tid e.size e.alignment e.tag).1.config.samplingRateBytes > 0
  rw [hcontrol.config]
  exact h.rate

theorem bytesUntilSample_step (h : Sampling tid s.world) :
    ((s.step tid e).world.locals tid).bytesUntilSample = (s.world.gate e.oracle tid e.size).2 := by
  change ((s.world.allocate e.oracle tid e.size e.alignment e.tag).1.locals tid).bytesUntilSample = _
  rw [allocate_locals h.guard h.initialized]
  unfold passGate
  dsimp only
  rw [update_self]

/-- The countdown is used up before the first request only. -/
theorem draws_eq (h : Sampling tid s.world) (hp : Phase tid s) (hdraws : e.Draws) :
    s.draws tid e =
      (if s.world.Tracks e.oracle tid e.size then [e.oracle.nextInterval] else []) ++
        (if s.requests = [] then [e.oracle.firstInterval] else []) := by
  obtain ⟨_, _, _, hfirst⟩ := left_spec hp hdraws
  unfold draws
  simp only [hfirst, tracks_iff_gate h.guard h.initialized]

/-- A request obeys the law if it is tracked when it should be and leaves the countdown at
what is left of the newest interval. -/
theorem obeysLaw_of_running (h : Sampling tid s.world) (hp : Phase tid s) (hdraws : e.Draws)
    {d : Word} {ds : List Word}
    (htracked : s.world.Tracks e.oracle tid e.size ↔
      s.inForce e ≤ skippedBytes s.requests + e.size.toNat)
    (hnew : (s.step tid e).drawn = d :: ds) (hrange : d.toNat ≤ 2 ^ 62)
    (hleft : (((s.step tid e).world.locals tid).bytesUntilSample).toNat +
      skippedBytes (s.step tid e).requests = d.toNat)
    (hpositive : 0 < (((s.step tid e).world.locals tid).bytesUntilSample).toNat) :
    s.ObeysLaw tid e ∧ Phase tid (s.step tid e) := by
  have hcountdown : (s.step tid e).countdown tid =
      (((s.step tid e).world.locals tid).bytesUntilSample).toNat := by
    unfold countdown
    rw [toInt_of_small (by omega)]
  refine ⟨⟨htracked, draws_eq h hp hdraws, ?_, ?_⟩, ?_⟩
  · rw [hcountdown, hnew, List.headD_cons]
    omega
  · rw [hcountdown]
    omega
  · exact .running d ds (List.cons_ne_nil _ _) hnew hrange hleft hpositive

/-- A request that leaves something of the interval is skipped. -/
theorem step_of_skipped (h : Sampling tid s.world) (hp : Phase tid s) (hdraws : e.Draws)
    (hsize : e.size.toNat < 2 ^ 63)
    (hless : skippedBytes s.requests + e.size.toNat < s.inForce e) :
    s.ObeysLaw tid e ∧ Phase tid (s.step tid e) := by
  obtain ⟨hleft, hpositive, hrange, _⟩ := left_spec hp hdraws
  have hgate := @gate_eq tid s e h
  rw [toInt_of_small hsize, toInt_of_small (by omega), if_pos (by omega)] at hgate
  have hnot : ¬ s.world.Tracks e.oracle tid e.size := by
    rw [tracks_iff_gate h.guard h.initialized, hgate]
    exact Bool.false_ne_true
  have hrest : (s.left tid e - e.size).toNat = (s.left tid e).toNat - e.size.toNat :=
    BitVec.toNat_sub_of_le (by rw [BitVec.le_def]; omega)
  have hskipped : skippedBytes (s.step tid e).requests =
      e.size.toNat + skippedBytes s.requests := by
    unfold step
    rw [decide_eq_false hnot]
    rfl
  obtain ⟨d, ds, hnew, hd⟩ : ∃ d ds, (s.step tid e).drawn = d :: ds ∧ d.toNat = s.inForce e := by
    unfold step inForce
    rw [draws_eq h hp hdraws, if_neg hnot, List.nil_append]
    cases hp with
    | fresh hr hd' hc =>
      rw [hr, hd', if_pos rfl]
      exact ⟨_, _, rfl, rfl⟩
    | running d ds hr hd' _ _ _ =>
      rw [if_neg hr, hd']
      exact ⟨_, _, rfl, rfl⟩
  refine obeysLaw_of_running h hp hdraws (iff_of_false hnot (by omega)) hnew (by omega) ?_ ?_
  · rw [bytesUntilSample_step h, hgate, hskipped]
    dsimp only
    omega
  · rw [bytesUntilSample_step h, hgate]
    dsimp only
    omega

/-- A request that uses the interval up is tracked, and draws the next one. -/
theorem step_of_tracked (h : Sampling tid s.world) (hp : Phase tid s) (hdraws : e.Draws)
    (hsize : e.size.toNat < 2 ^ 63)
    (hreach : s.inForce e ≤ skippedBytes s.requests + e.size.toNat) :
    s.ObeysLaw tid e ∧ Phase tid (s.step tid e) := by
  obtain ⟨hleft, hpositive, hrange, _⟩ := left_spec hp hdraws
  obtain ⟨hlow, hhigh⟩ := hdraws.2
  have hgate := @gate_eq tid s e h
  rw [toInt_of_small hsize, toInt_of_small (by omega), if_neg (by omega)] at hgate
  have htracks : s.world.Tracks e.oracle tid e.size := by
    rw [tracks_iff_gate h.guard h.initialized, hgate]
  have hskipped : skippedBytes (s.step tid e).requests = 0 := by
    unfold step
    rw [decide_eq_true htracks]
    rfl
  have hnew : (s.step tid e).drawn = e.oracle.nextInterval ::
      ((if s.requests = [] then [e.oracle.firstInterval] else []) ++ s.drawn) := by
    unfold step
    rw [draws_eq h hp hdraws, if_pos htracks]
    rfl
  refine obeysLaw_of_running h hp hdraws (iff_of_true htracks hreach) hnew hhigh ?_ ?_
  · rw [bytesUntilSample_step h, hgate, hskipped]
    rfl
  · rw [bytesUntilSample_step h, hgate]
    exact hlow

/-- A size of `2 ^ 63` or more is negative to the gate, which skips it. -/
theorem not_obeysLaw_of_huge (h : Sampling tid s.world) (hp : Phase tid s) (hdraws : e.Draws)
    (hsize : ¬ e.size.toNat < 2 ^ 63) : ¬ s.ObeysLaw tid e := by
  obtain ⟨hleft, hpositive, hrange, _⟩ := left_spec hp hdraws
  have hnegative : e.size.toInt < 0 := by
    rw [BitVec.toInt_neg_iff]
    omega
  have hgate := @gate_eq tid s e h
  rw [toInt_of_small (x := s.left tid e) (by omega), if_pos (by omega)] at hgate
  intro hlaw
  have htracks := hlaw.tracked.mpr (by omega)
  rw [tracks_iff_gate h.guard h.initialized, hgate] at htracks
  cases htracks

theorem lawAlong_of_phase {es : List SampleRequest} (h : Sampling tid s.world) (hp : Phase tid s)
    (hdraws : ∀ e ∈ es, e.Draws) :
    LawAlong tid s es ↔ ∀ e ∈ es, e.size.toNat < 2 ^ 63 := by
  induction es generalizing s with
  | nil => exact iff_of_true trivial fun _ he => absurd he List.not_mem_nil
  | cons e es ih =>
    have hrest : ∀ e' ∈ es, e'.Draws := fun e' he' => hdraws e' (List.mem_cons_of_mem _ he')
    have hfirst := hdraws e List.mem_cons_self
    rw [List.forall_mem_cons]
    by_cases hsize : e.size.toNat < 2 ^ 63
    · have hstep : s.ObeysLaw tid e ∧ Phase tid (s.step tid e) := by
        rcases Nat.lt_or_ge (skippedBytes s.requests + e.size.toNat) (s.inForce e) with hless | hreach
        · exact step_of_skipped h hp hfirst hsize hless
        · exact step_of_tracked h hp hfirst hsize hreach
      have hlater := ih (sampling_step h) hstep.2 hrest
      exact ⟨fun hlaw => ⟨hsize, hlater.mp hlaw.2⟩, fun hall => ⟨hstep.1, hlater.mpr hall.2⟩⟩
    · exact iff_of_false (fun hlaw => not_obeysLaw_of_huge h hp hfirst hsize hlaw.1)
        fun hall => hsize hall.1

/-- A thread that has requested nothing yet. -/
def start (w : World) : Sampler := ⟨w, [], []⟩

/-- **The byte-interval sampling law** holds along a sequence of requests exactly when none
of them asks for `2 ^ 63` bytes or more. -/
theorem law_along_iff {w : World} {es : List SampleRequest} (h : Sampling tid w)
    (hfresh : (w.locals tid).bytesUntilSample = 0) (hdraws : ∀ e ∈ es, e.Draws) :
    LawAlong tid (start w) es ↔ ∀ e ∈ es, e.size.toNat < 2 ^ 63 :=
  lawAlong_of_phase h (.fresh rfl rfl hfresh) hdraws

/-! ## Two sequences -/

/-- A manager that samples every 4096 bytes. -/
def byteSampling : World := (World.start fun _ => 0).init { samplingRateBytes := 4096 }

/-- A request while every draw is 4096 bytes. -/
def requestOf (size : Word) : SampleRequest :=
  ⟨{ malloc := 0x10000, firstInterval := 4096, nextInterval := 4096 }, size, 16, 0⟩

theorem requestOf_draws (size : Word) : (requestOf size).Draws := by
  have hrange : 1 ≤ (4096 : Word).toNat ∧ (4096 : Word).toNat ≤ 2 ^ 62 := by
    rw [show (4096 : Word).toNat = 4096 from rfl]
    omega
  exact ⟨hrange, hrange⟩

/-- Three requests: the second uses the interval up. -/
theorem law_along_three :
    LawAlong 1 (start byteSampling) [requestOf 4000, requestOf 96, requestOf 50] ↔
      ∀ e ∈ [requestOf 4000, requestOf 96, requestOf 50], e.size.toNat < 2 ^ 63 := by
  apply law_along_iff ⟨by decide, rfl, by decide⟩ rfl
  intro e he
  simp only [List.mem_cons, List.not_mem_nil, or_false] at he
  rcases he with rfl | rfl | rfl
  · exact requestOf_draws 4000
  · exact requestOf_draws 96
  · exact requestOf_draws 50

/-- A request for `2 ^ 64 - 1000` bytes is not tracked, and leaves a countdown that is
1000 bytes longer than the interval in force. -/
theorem huge_request_skipped :
    ¬ LawAlong 1 (start byteSampling) [requestOf (2 ^ 64 - 1000)] ∧
      ¬ byteSampling.Tracks (requestOf (2 ^ 64 - 1000)).oracle 1 (2 ^ 64 - 1000) ∧
      (start byteSampling).inForce (requestOf (2 ^ 64 - 1000)) = 4096 ∧
      ((start byteSampling).step 1 (requestOf (2 ^ 64 - 1000))).countdown 1 = 5096 := by
  have hnot : ¬ byteSampling.Tracks (requestOf (2 ^ 64 - 1000)).oracle 1 (2 ^ 64 - 1000) := by
    decide +kernel
  refine ⟨fun h => ?_, hnot, by decide +kernel, by decide +kernel⟩
  exact hnot (h.1.tracked.mpr (by decide +kernel))

end Sampler

end MemSentry
