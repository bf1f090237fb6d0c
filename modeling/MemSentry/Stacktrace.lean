import MemSentry.Types

/-!
# Stack traces

`StackTraceProvider::capture`, in its variant for Linux and macOS, and
`StackTraceProvider::resolve`. What `backtrace` finds on the stack and what `resolve_frame`
finds out about an address (symbol tables, demangling, its cache) are parameters.
-/

namespace MemSentry

/-! ## Capturing -/

/-- What a run of `capture` asks `backtrace` for, which entries of the buffer it reads, which
value it writes to which entry of `out_frames`, and what it returns. -/
structure Capture where
  requested : Option Int := none
  reads : List Int := []
  writes : List (Ptr × Nat) := []
  captured : BitVec 16 := 0
  deriving DecidableEq, Repr

/-- `MAX_CAPTURE`. -/
def maxCapture : Int := 64

/-- `buffer[i]`: one of the frames filled in, or whatever else lies there. -/
def bufferAt (stale : Int → Ptr) (filled : List Ptr) (i : Int) : Ptr :=
  if 0 ≤ i then filled[i.toNat]?.getD (stale i) else stale i

/-- The copying loop from index `i` on; the fuel is the number of indices below `count`. -/
def copyFrames (buffer : Int → Ptr) (count : Int) (maxDepth : BitVec 32) :
    Nat → Int → BitVec 16 → Capture
  | 0, _, captured => { captured := captured }
  | fuel + 1, i, captured =>
    if i < count ∧ captured.setWidth 32 < maxDepth then
      let rest := copyFrames buffer count maxDepth fuel (i + 1) (captured + 1)
      { rest with
        reads := i :: rest.reads
        writes := (buffer i, captured.toNat) :: rest.writes }
    else { captured := captured }

/-- The sum is unsigned and 32 bits wide; as an `int` it may be negative. -/
def captureDepth (maxDepth skipFrames : BitVec 32) : Int :=
  let depth := (maxDepth + skipFrames).toInt
  if depth > maxCapture then maxCapture else depth

/-- `backtrace` is given by the frames that it fills in for a depth. -/
def capture (backtrace : Int → List Ptr) (stale : Int → Ptr) (outFrames : Ptr)
    (maxDepth skipFrames : BitVec 32) : Capture :=
  if outFrames = 0 ∨ maxDepth = 0 then {}
  else
    let depth := captureDepth maxDepth skipFrames
    let filled := backtrace depth
    let count : Int := filled.length
    if count ≤ skipFrames.toInt then { requested := some depth }
    else
      { copyFrames (bufferAt stale filled) count maxDepth (count - skipFrames.toInt).toNat
          skipFrames.toInt 0 with
        requested := some depth }

/-- The number of rounds of the copying loop. -/
def copyRounds (count : Int) (maxDepth : BitVec 32) (i : Int) (captured : BitVec 16) : Nat :=
  min (count - i).toNat (maxDepth.toNat - captured.toNat)

/-- One read and one write for each round. -/
theorem copyFrames_eq {buffer : Int → Ptr} {count : Int} {maxDepth : BitVec 32}
    (hmax : maxDepth.toNat < 2 ^ 16) (i : Int) (captured : BitVec 16) :
    copyFrames buffer count maxDepth (count - i).toNat i captured =
      { reads := (List.range (copyRounds count maxDepth i captured)).map fun j : Nat => i + j
        writes := ((List.range (copyRounds count maxDepth i captured)).map
          fun j : Nat => buffer (i + j)).zipIdx captured.toNat
        captured := captured + BitVec.ofNat 16 (copyRounds count maxDepth i captured) } := by
  generalize hfuel : (count - i).toNat = fuel
  induction fuel generalizing i captured with
  | zero =>
    have hrounds : copyRounds count maxDepth i captured = 0 := by
      rw [copyRounds, hfuel, Nat.zero_min]
    rw [hrounds]
    simp [copyFrames]
  | succ fuel ih =>
    have hwide : (captured.setWidth 32).toNat = captured.toNat := by
      rw [BitVec.toNat_setWidth]
      omega
    have hone : (1 : BitVec 16).toNat = 1 := rfl
    rw [copyFrames]
    by_cases hdepth : captured.toNat < maxDepth.toNat
    · have hnext : (captured + 1).toNat = captured.toNat + 1 := by
        rw [BitVec.toNat_add, hone]
        exact Nat.mod_eq_of_lt (by omega)
      have hrounds : copyRounds count maxDepth i captured =
          copyRounds count maxDepth (i + 1) (captured + 1) + 1 := by
        unfold copyRounds
        omega
      have hshift : ∀ j : Nat, i + ((j + 1 : Nat) : Int) = i + 1 + j := by omega
      rw [if_pos ⟨by omega, by rwa [BitVec.lt_def, hwide]⟩, ih (i + 1) (captured + 1) (by omega),
        hrounds, List.range_succ_eq_map]
      simp only [List.map_cons, List.map_map, List.zipIdx_cons, Function.comp_def, Nat.succ_eq_add_one,
        hshift, hnext, Nat.cast_zero, Int.add_zero]
      congr 1
      rw [BitVec.ofNat_add, BitVec.add_assoc, BitVec.add_comm (1 : BitVec 16)]
      rfl
    · have hrounds : copyRounds count maxDepth i captured = 0 := by
        unfold copyRounds
        omega
      rw [if_neg fun h => hdepth (by rw [← hwide]; exact h.2), hrounds]
      simp

/-- From an index in the buffer on, the loop copies the frames from there. -/
theorem copied_eq {stale : Int → Ptr} {filled : List Ptr} {maxDepth : BitVec 32} (n : Nat) :
    ((List.range (copyRounds filled.length maxDepth n 0)).map
      fun j : Nat => bufferAt stale filled ((n : Int) + j)) =
        (filled.drop n).take maxDepth.toNat := by
  have hrounds : copyRounds filled.length maxDepth n 0 =
      ((filled.drop n).take maxDepth.toNat).length := by
    rw [copyRounds, List.length_take, List.length_drop, Nat.min_comm]
    have hzero : (0 : BitVec 16).toNat = 0 := rfl
    omega
  refine List.ext_getElem (by rw [List.length_map, List.length_range, hrounds]) fun j hj hj' => ?_
  rw [List.length_take, List.length_drop] at hj'
  have hlt : n + j < filled.length := by omega
  rw [List.getElem_map, List.getElem_range, List.getElem_take, List.getElem_drop, bufferAt,
    if_pos (by omega), show ((n : Int) + j).toNat = n + j by omega,
    List.getElem?_eq_getElem hlt, Option.getD_some]

/-! ## Resolving -/

/-- The frames that are not null, resolved, innermost first. -/
def resolve (resolveFrame : Ptr → StackFrame) (frames : List Ptr) (count : BitVec 16) :
    List StackFrame :=
  ((frames.take count.toNat).filter fun frame => frame ≠ 0).map resolveFrame

theorem resolve_eq_nil {resolveFrame : Ptr → StackFrame} {frames : List Ptr} {count : BitVec 16}
    (h : ¬0 < count) : resolve resolveFrame frames count = [] := by
  have hzero : count = 0 := by bv_omega
  simp [resolve, hzero]

end MemSentry
