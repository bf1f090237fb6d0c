import MemSentry.Concurrent.Steps
import MemSentry.Library.ThreadPool
import MemSentry.Manager.ComputedRuns

/-!
# Runs of many threads that are computed

`checks` decides whether events are legal one after the other, as in `Manager/ComputedRuns`,
and then they are a run of the machine (`run_of_checks`).
-/

namespace MemSentry

open MemSentry.Core Function Transition World
open ThreadPool (Pair)

section Steps

variable {w : World} {tid : ThreadId} {o : Oracle}

theorem grows_layOut (w : World) (tid : ThreadId) (o : Oracle) (args : AllocArgs) (allocId : Word)
    (k : After) : w.Grows (w.layOut tid o args allocId k).1 [o.malloc] := by
  by_cases h0 : calculateTotalSize args.size (effectiveAlignment args.alignment)
      w.config.footerSize = 0
  · rw [layOut_of_zero h0]
    exact .of_heap rfl
  by_cases hraw : o.malloc = 0
  · rw [layOut_of_null h0 hraw]
    exact .of_heap rfl
  by_cases hfit : SizesFit args.size (effectiveAlignment args.alignment) w.config.footerSize
  · rw [layOut_of_fit h0 hraw hfit]
    exact .of_update rfl
  · rw [layOut_of_not_fit h0 hraw hfit]
    exact .of_update rfl

theorem grows_advance (w : World) (tid : ThreadId) (o : Oracle) (p : Point) :
    w.Grows (w.advance tid o p).1 [o.malloc] := by
  cases p with
  | systemAlloc size k => exact grows_rawSystemAlloc w o size
  | layOut args allocId k => exact grows_layOut w tid o args allocId k
  | raisePeak r current peak k =>
    unfold advance advanceAllocate
    dsimp only
    split
    · split
      · exact .of_heap rfl
      · exact .of_heap rfl
    · exact .of_heap rfl
  | checkLimit ptr k => exact .of_heap (heap_checkLimit w)
  | erase ptr result =>
    have herase : w.Grows (w.trackerErase ptr) [o.malloc] := .of_heap rfl
    unfold advance advanceDeallocate
    dsimp only
    split
    · exact .of_heap rfl
    split
    · exact herase
    · exact herase
    · exact herase.trans (grows_releaseUntracked _ ptr)
  | verify r ptr result =>
    unfold advance advanceDeallocate
    dsimp only
    generalize verifyCanary w.mem r.rawPtr w.config.footerSize = verdict
    by_cases hverdict : verdict.1 = .none
    · rw [if_neg (not_not_intro hverdict)]
      exact .of_heap rfl
    · rw [if_pos hverdict]
      exact .of_heap rfl
  | freeBlock r result => exact grows_rawSystemFree w r.rawPtr
  | systemFree ptr => exact grows_rawSystemFree w ptr
  | checkOld ptr r newSize => exact .of_heap (heap_checkOldBlock w ptr r)
  | systemRealloc ptr newSize => exact grows_rawSystemRealloc w o ptr newSize
  | _ => exact .of_heap rfl

end Steps

/-- What the system answers with. -/
def Event.bases {ι : Type} : Event ι → List Ptr
  | .advance _ o => [o.malloc]
  | _ => []

namespace Machine

variable {ι : Type} [DecidableEq ι] (tid : ι → ThreadId)

theorem grows_step (s : Machine ι) (e : Event ι) : s.world.Grows (s.step tid e).world e.bases := by
  cases e with
  | advance i o =>
    have hclear : s.world.Grows s.world.clearLog [o.malloc] := .of_heap rfl
    exact hclear.trans (grows_advance _ (tid i) o (s.pool i))
  | _ => exact .of_heap rfl

/-- `Legal`, when every live block is at one of the addresses. -/
def check (s : Machine ι) (bases : List Ptr) (e : Event ι) : Bool :=
  !s.world.fault && (s.step tid e).world.log.all (Action.check s.world.heap bases) &&
    match e with
    | .call i q => decide (s.pool i = .idle) && decide (q.pointers ≤ s.held)
    | _ => true

theorem legal_of_check {s : Machine ι} {bases : List Ptr} {e : Event ι}
    (hlive : LiveAmong s.world.heap bases) (h : s.check tid bases e = true) : s.Legal tid e := by
  obtain ⟨hlog, hcall⟩ := (Bool.and_eq_true _ _).mp h
  obtain ⟨hfault, hlog⟩ := (Bool.and_eq_true _ _).mp hlog
  refine ⟨Bool.not_eq_true' _ ▸ hfault, ?_, ?_, fun a ha =>
    Action.fresh_of_check hlive (List.all_eq_true.mp hlog a ha)⟩
  · rintro i q rfl
    exact of_decide_eq_true ((Bool.and_eq_true _ _).mp hcall).1
  · rintro i q rfl
    exact of_decide_eq_true ((Bool.and_eq_true _ _).mp hcall).2

/-- Every event of the list is legal and meets the condition when it comes. -/
def checks (cond : Machine ι → Event ι → Prop) [∀ s e, Decidable (cond s e)] (s : Machine ι)
    (bases : List Ptr) (es : List (Event ι)) : Bool :=
  passes (step tid) (fun s bases e => s.check tid bases e && decide (cond s e))
    (fun bases e => e.bases ++ bases) s bases es

theorem run_of_checks {cond : Machine ι → Event ι → Prop} [∀ s e, Decidable (cond s e)]
    {es : List (Event ι)} {s : Machine ι} {bases : List Ptr}
    (hlive : LiveAmong s.world.heap bases) (h : s.checks tid cond bases es = true) :
    Run (system tid cond) s es (es.foldl (step tid) s) := by
  refine .of_passes (I := fun s bases => LiveAmong s.world.heap bases)
    (fun s bases e hlive hpass => ?_)
    (fun s bases e hlive => (grows_step tid s e).liveAmong hlive) hlive h
  obtain ⟨hcheck, hcond⟩ := (Bool.and_eq_true _ _).mp hpass
  exact ⟨legal_of_check tid hlive hcheck, of_decide_eq_true hcond⟩

/-- Only addresses that the system has answered with can be new. -/
theorem grows_foldl (s : Machine ι) (es : List (Event ι)) :
    s.world.Grows (es.foldl (step tid) s).world (es.flatMap Event.bases) := by
  induction es generalizing s with
  | nil => exact .of_heap rfl
  | cons e es ih =>
    intro b n hb
    rw [List.flatMap_cons]
    rcases ih (s.step tid e) b n hb with hlater | hb
    · exact Or.inl (List.mem_append_right _ hlater)
    · exact (grows_step tid s e b n hb).imp_left (List.mem_append_left _)

/-- The state that the events lead to from the start. -/
def after (c : Config) (mem : Memory) (es : List (Event ι)) : Machine ι :=
  es.foldl (step tid) (start c mem)

theorem run_from_start (cond : Machine ι → Event ι → Prop) [∀ s e, Decidable (cond s e)]
    {c : Config} {mem : Memory} {es : List (Event ι)}
    (h : (start c mem).checks tid cond [] es = true) :
    Run (system tid cond) (start c mem) es (after tid c mem es) :=
  run_of_checks tid (fun _ _ hb => by cases hb) h

theorem liveAmong_after (c : Config) (mem : Memory) (es : List (Event ι)) :
    LiveAmong (after tid c mem es).world.heap (es.flatMap Event.bases) :=
  fun b n hb => (grows_foldl tid (start c mem) es b n hb).resolve_right fun h => by cases h

/-- The identifiers of two threads. -/
def pair : Pair → ThreadId
  | .first => 0
  | .second => 1

/-- Two threads allocate the blocks of 16 and 40 bytes at 0x10050 and 0x20080. -/
def twoBlocks : List (Event Pair) :=
  let a : Event Pair := .advance .first { malloc := 0x10000 }
  let b : Event Pair := .advance .second { malloc := 0x20000 }
  [.call .first (.alloc 16 16 0), .call .second (.alloc 40 64 0), a, b, b, a] ++
    List.replicate 9 b ++ List.replicate 9 a ++ [a, b]

end Machine

end MemSentry
