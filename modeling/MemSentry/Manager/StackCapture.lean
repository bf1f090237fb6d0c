import MemSentry.Manager.Operations
import MemSentry.Stacktrace

/-!
# The captured stack

`allocate` captures the stack into the 32 entries of a record. `capture` takes the number
of frames to skip for an `int`, so from `2 ^ 31` on it is negative. A negative number is below
every count, and the copying loop starts as far below the buffer. Nothing else goes wrong:
what is asked for and what is written stay in bounds for every configuration
(`capture_writes`), and `capture_in_bounds_iff` has the exact law.
-/

namespace MemSentry

/-- The depth that `allocate` passes: `std::min(max_stack_depth, callstack.size())`. -/
def stackDepth (maxStackDepth : BitVec 32) : BitVec 32 :=
  if 32 < maxStackDepth then 32 else maxStackDepth

/-- At most 64 frames are asked for, entries of the buffer that `backtrace` has filled in are
read, at most `maxDepth` entries are written, and they are the frames behind the skipped
ones. -/
structure CaptureInBounds (backtrace : Int → List Ptr) (maxDepth skipFrames : BitVec 32)
    (run : Capture) : Prop where
  requested : ∀ d ∈ run.requested, d ≤ 64
  reads : ∀ i ∈ run.reads, 0 ≤ i ∧ i < maxCapture ∧
    ∃ d ∈ run.requested, i < (backtrace d).length
  writes : run.writes.length ≤ maxDepth.toNat ∧ ∀ e ∈ run.writes, e.2 < maxDepth.toNat
  frames : run.writes = (((backtrace (captureDepth maxDepth skipFrames)).drop
    skipFrames.toNat).take maxDepth.toNat).zipIdx
  captured : run.captured.toNat = run.writes.length

section Capture

variable {backtrace : Int → List Ptr} {stale : Int → Ptr} {callstack : Ptr}
  {maxStackDepth skipFrames maxDepth : BitVec 32}

theorem stackDepth_le (maxStackDepth : BitVec 32) : (stackDepth maxStackDepth).toNat ≤ 32 := by
  unfold stackDepth
  split
  · exact Nat.le_refl 32
  · rename_i h
    rw [BitVec.lt_def] at h
    exact Nat.le_of_not_lt h

theorem stackDepth_eq_zero_iff : stackDepth maxStackDepth = 0 ↔ maxStackDepth = 0 := by
  unfold stackDepth
  split
  · rename_i h
    refine iff_of_false (by decide) ?_
    rintro rfl
    exact absurd h (by decide)
  · exact Iff.rfl

theorem captureDepth_le (maxDepth skipFrames : BitVec 32) :
    captureDepth maxDepth skipFrames ≤ 64 := by
  unfold captureDepth maxCapture
  dsimp only
  split
  · exact Int.le_refl 64
  · omega

/-- The run, once the checks of the arguments have passed. -/
theorem capture_eq (hout : callstack ≠ 0) (hdepth : maxDepth ≠ 0) :
    capture backtrace stale callstack maxDepth skipFrames =
      if ((backtrace (captureDepth maxDepth skipFrames)).length : Int) ≤ skipFrames.toInt then
        { requested := some (captureDepth maxDepth skipFrames) }
      else
        { copyFrames (bufferAt stale (backtrace (captureDepth maxDepth skipFrames)))
            (backtrace (captureDepth maxDepth skipFrames)).length maxDepth
            ((backtrace (captureDepth maxDepth skipFrames)).length - skipFrames.toInt).toNat
            skipFrames.toInt 0 with
          requested := some (captureDepth maxDepth skipFrames) } := by
  unfold capture
  exact if_neg (not_or.mpr ⟨hout, hdepth⟩)

/-- What is asked for and what is written is in bounds in any case. -/
theorem capture_writes (backtrace : Int → List Ptr) (stale : Int → Ptr) (callstack : Ptr)
    (skipFrames : BitVec 32) (hmax : maxDepth.toNat < 2 ^ 16) :
    (∀ d ∈ (capture backtrace stale callstack maxDepth skipFrames).requested, d ≤ 64) ∧
    ∃ values : List Ptr, values.length ≤ maxDepth.toNat ∧
      (capture backtrace stale callstack maxDepth skipFrames).writes = values.zipIdx ∧
      (capture backtrace stale callstack maxDepth skipFrames).captured =
        BitVec.ofNat 16 values.length := by
  by_cases hnone : callstack = 0 ∨ maxDepth = 0
  · have hrun : capture backtrace stale callstack maxDepth skipFrames = {} := if_pos hnone
    rw [hrun]
    exact ⟨nofun, [], Nat.zero_le _, rfl, rfl⟩
  rw [not_or] at hnone
  rw [capture_eq hnone.1 hnone.2]
  have hle := captureDepth_le maxDepth skipFrames
  split
  · exact ⟨fun d hd => Option.some.inj hd ▸ hle, [], Nat.zero_le _, rfl, rfl⟩
  · rw [copyFrames_eq hmax]
    refine ⟨fun d hd => Option.some.inj hd ▸ hle, _, ?_, rfl, ?_⟩
    · rw [List.length_map, List.length_range]
      exact Nat.min_le_right _ _
    · rw [List.length_map, List.length_range]
      exact BitVec.zero_add _

theorem toInt_of_small (hskip : skipFrames.toNat < 2 ^ 31) :
    skipFrames.toInt = skipFrames.toNat :=
  BitVec.toInt_eq_toNat_of_lt (by omega)

theorem capture_frames (hout : callstack ≠ 0) (hdepth : maxDepth ≠ 0)
    (hmax : maxDepth.toNat < 2 ^ 16) (hskip : skipFrames.toNat < 2 ^ 31) :
    (capture backtrace stale callstack maxDepth skipFrames).writes =
      (((backtrace (captureDepth maxDepth skipFrames)).drop skipFrames.toNat).take
        maxDepth.toNat).zipIdx := by
  rw [capture_eq hout hdepth, toInt_of_small hskip]
  split
  · rename_i hfew
    rw [List.drop_eq_nil_of_le (by omega), List.take_nil]
    rfl
  · rw [copyFrames_eq hmax]
    exact congrArg (fun l : List Ptr => l.zipIdx) (copied_eq skipFrames.toNat)

theorem capture_reads (hbacktrace : ∀ d, ((backtrace d).length : Int) ≤ max d 0)
    (hout : callstack ≠ 0) (hdepth : maxDepth ≠ 0) (hmax : maxDepth.toNat < 2 ^ 16)
    (hskip : skipFrames.toNat < 2 ^ 31) :
    ∀ i ∈ (capture backtrace stale callstack maxDepth skipFrames).reads,
      0 ≤ i ∧ i < maxCapture ∧
        ∃ d ∈ (capture backtrace stale callstack maxDepth skipFrames).requested,
          i < (backtrace d).length := by
  have hfilled := hbacktrace (captureDepth maxDepth skipFrames)
  have hle := captureDepth_le maxDepth skipFrames
  have hbuffer : maxCapture = 64 := rfl
  rw [capture_eq hout hdepth, toInt_of_small hskip]
  split
  · exact fun i hi => absurd hi List.not_mem_nil
  · rw [copyFrames_eq hmax]
    intro i hi
    obtain ⟨j, hj, rfl⟩ := List.mem_map.mp hi
    have hlt := List.mem_range.mp hj
    unfold copyRounds at hlt
    exact ⟨by omega, by omega, _, rfl, by omega⟩

/-- The first entry that is read lies below the buffer. -/
theorem capture_reads_below (hout : callstack ≠ 0) (hdepth : maxDepth ≠ 0)
    (hmax : maxDepth.toNat < 2 ^ 16) (hskip : 2 ^ 31 ≤ skipFrames.toNat) :
    skipFrames.toInt ∈ (capture backtrace stale callstack maxDepth skipFrames).reads ∧
      skipFrames.toInt < 0 := by
  have hneg : skipFrames.toInt < 0 := by
    rw [BitVec.toInt_neg_iff]
    omega
  have hpos : 0 < maxDepth.toNat := by
    refine Nat.pos_of_ne_zero fun h => hdepth (BitVec.eq_of_toNat_eq ?_)
    rw [h]
    rfl
  refine ⟨?_, hneg⟩
  rw [capture_eq hout hdepth, if_neg (by omega), copyFrames_eq hmax]
  refine List.mem_map.mpr ⟨0, List.mem_range.mpr ?_, Int.add_zero _⟩
  have hzero : (0 : BitVec 16).toNat = 0 := rfl
  unfold copyRounds
  omega

/-- **When the captured stack is what was asked for**: unless the number of frames to skip is
negative as an `int`, or no frames are wanted. -/
theorem capture_in_bounds_iff
    (hbacktrace : ∀ d, ((backtrace d).length : Int) ≤ max d 0) (hout : callstack ≠ 0) :
    CaptureInBounds backtrace (stackDepth maxStackDepth) skipFrames
        (capture backtrace stale callstack (stackDepth maxStackDepth) skipFrames) ↔
      maxStackDepth = 0 ∨ skipFrames.toNat < 2 ^ 31 := by
  have hle := stackDepth_le maxStackDepth
  have hmax : (stackDepth maxStackDepth).toNat < 2 ^ 16 := by omega
  obtain ⟨hrequested, values, hlength, hwrites, hcaptured⟩ :=
    capture_writes backtrace stale callstack skipFrames hmax
  have hcount : (BitVec.ofNat 16 values.length).toNat = values.zipIdx.length := by
    rw [BitVec.toNat_ofNat, List.length_zipIdx]
    exact Nat.mod_eq_of_lt (by omega)
  have hentries : ∀ e ∈ values.zipIdx, e.2 < (stackDepth maxStackDepth).toNat := by
    intro e he
    have hlt := (List.mem_zipIdx' he).1
    omega
  by_cases hdepth : stackDepth maxStackDepth = 0
  · have hrun : capture backtrace stale callstack (stackDepth maxStackDepth) skipFrames = {} :=
      if_pos (Or.inr hdepth)
    refine iff_of_true ?_ (Or.inl (stackDepth_eq_zero_iff.mp hdepth))
    rw [hrun, hdepth]
    exact ⟨nofun, nofun, ⟨Nat.le_refl 0, nofun⟩, rfl, rfl⟩
  by_cases hskip : skipFrames.toNat < 2 ^ 31
  · refine iff_of_true ⟨hrequested, capture_reads hbacktrace hout hdepth hmax hskip, ?_,
      capture_frames hout hdepth hmax hskip, ?_⟩ (Or.inr hskip)
    · rw [hwrites, List.length_zipIdx]
      exact ⟨hlength, hentries⟩
    · rw [hwrites, hcaptured, hcount]
  · refine iff_of_false (fun h => ?_) ?_
    · obtain ⟨hread, hneg⟩ := @capture_reads_below backtrace stale callstack skipFrames
        (stackDepth maxStackDepth) hout hdepth hmax (by omega)
      exact absurd (h.reads _ hread).1 (Int.not_le.mpr hneg)
    · rw [← stackDepth_eq_zero_iff]
      exact not_or.mpr ⟨hdepth, hskip⟩

/-- The record takes what a run has written for the stack, and counts it. -/
theorem recordOf_capture {w : World} {o : Oracle} {tid : ThreadId}
    {allocId size alignment tag userPtr : Word} (henabled : w.config.enableStacktrace = true)
    (hframes : o.frames = (capture backtrace stale callstack (stackDepth w.config.maxStackDepth)
      w.config.stackSkipFrames).writes.map Prod.fst) :
    (w.recordOf o tid allocId size alignment tag userPtr).callstack = o.frames ∧
      (w.recordOf o tid allocId size alignment tag userPtr).frameCount =
        (capture backtrace stale callstack (stackDepth w.config.maxStackDepth)
          w.config.stackSkipFrames).captured := by
  have hle := stackDepth_le w.config.maxStackDepth
  have hmin : (stackDepth w.config.maxStackDepth).toNat =
      min w.config.maxStackDepth.toNat 32 := by
    unfold stackDepth
    split
    all_goals
      rename_i h
      rw [BitVec.lt_def] at h
      have h32 : (32 : BitVec 32).toNat = 32 := rfl
      omega
  obtain ⟨_, values, hlength, hwrites, hcaptured⟩ := capture_writes backtrace stale callstack
    w.config.stackSkipFrames (show (stackDepth w.config.maxStackDepth).toNat < 2 ^ 16 by omega)
  rw [hwrites, List.zipIdx_map_fst] at hframes
  unfold World.recordOf
  dsimp only
  rw [if_pos henabled, if_pos henabled, hcaptured, hframes, ← hmin, List.take_of_length_le hlength]
  exact ⟨rfl, rfl⟩

end Capture

/-- A stack of ten frames. -/
def tenFrames (d : Int) : List Ptr :=
  (List.range (min d.toNat 10)).map fun i => BitVec.ofNat 64 (0x401000 + i)

theorem capture_in_bounds_three :
    CaptureInBounds tenFrames (stackDepth 32) 3
      (capture tenFrames (fun _ => 0) 0x7FFF0000#64 (stackDepth 32) 3) := by
  refine (capture_in_bounds_iff (fun d => ?_) (by decide)).mpr (Or.inr (by decide))
  rw [tenFrames, List.length_map, List.length_range]
  omega

/-- To skip `2 ^ 32 - 1` frames is to start one entry below the buffer. -/
theorem capture_below_buffer :
    ¬ CaptureInBounds tenFrames (stackDepth 32) 0xFFFFFFFF#32
      (capture tenFrames (fun _ => 0) 0x7FFF0000#64 (stackDepth 32) 0xFFFFFFFF#32) := by
  intro h
  have hread : (-1 : Int) ∈ (capture tenFrames (fun _ => 0) 0x7FFF0000#64 (stackDepth 32)
      0xFFFFFFFF#32).reads := by decide +kernel
  exact absurd (h.reads _ hread).1 (by decide)

end MemSentry
