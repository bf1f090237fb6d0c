import MemSentry.Stacktrace
import MemSentry.Library.CriticalSections
import MemSentry.Library.Numeral

/-!
# Resolving frames

`StackTraceProvider::resolve_frame`, `resolve` and `cleanup`, in their variant for Linux and
macOS, access by access under `symbol_mutex_`. What the loader says about an address is not
determined: objects come and go, and two questions about one address may have different
answers.

The cache asks once. So in every history, whatever the threads do, there is one function
that says what each address stands for, and all the answers are in its terms
(`resolved_history`). It is the `resolveFrame` that the reports are about.
-/

namespace MemSentry

open CriticalSections Simulation Function

/-! ## The code -/

/-- What `dladdr` finds, and what `__cxa_demangle` makes of the name. -/
structure DlInfo where
  sname : Option Text
  demangled : Option Text
  fname : Option Text

/-- The address with all its digits. -/
def hexAddress (address : Ptr) : Text :=
  ascii "0x" ++ (Numeral.write 16 address.toNat).leftpad 16 0x30#8

/-- The frame for an address; nothing is found when `dladdr` fails. -/
def describe (dlinfo : Option DlInfo) (address : Ptr) : StackFrame :=
  match dlinfo with
  | some ⟨some sname, demangled, fname⟩ =>
    { address := address, symbolName := demangled.getD sname, fileName := fname.getD [] }
  | _ => { address := address, symbolName := hexAddress address }

structure SymbolProvider where
  initialized : Bool := false
  symbolCache : Ptr → Option StackFrame := fun _ => none

inductive SymbolRequest
  | resolveFrame (address : Ptr)
  | resolve (frames : List Ptr) (count : BitVec 16)
  | cleanup

inductive SymbolAnswer
  | done
  | frame (frame : StackFrame)
  | frames (resolved : List StackFrame)

/-- A run of `resolve_frame`, with the loop of `resolve` that it belongs to: the frames after
this one and those resolved before; and a run of `cleanup`. -/
inductive SymbolSection
  | frame (address : Ptr) (loop : Option (List Ptr × List StackFrame))
  | cleanup

inductive SymbolPoint
  -- `resolve_frame`
  | lookup
  | describe
  | store (frame : StackFrame)
  -- `cleanup`
  | check
  | reset
  | clear

/-- The loop of `resolve` up to the next frame that is not null. -/
def nextFrame (resolved : List StackFrame) : List Ptr → SymbolSection ⊕ SymbolAnswer
  | [] => .inr (.frames resolved)
  | frame :: frames =>
    if frame = 0 then nextFrame resolved frames else .inl (.frame frame (some (frames, resolved)))

def SymbolRequest.start : SymbolRequest → SymbolSection ⊕ SymbolAnswer
  | .resolveFrame address => .inl (.frame address none)
  | .resolve frames count => nextFrame [] (frames.take count.toNat)
  | .cleanup => .inl .cleanup

def SymbolSection.first : SymbolSection → SymbolPoint
  | .frame .. => .lookup
  | .cleanup => .check

/-- What the caller of `resolve_frame` does with the frame. -/
def afterFrame (frame : StackFrame) :
    Option (List Ptr × List StackFrame) → SymbolSection ⊕ SymbolAnswer
  | none => .inr (.frame frame)
  | some (frames, resolved) => nextFrame (resolved ++ [frame]) frames

/-- The accesses; the answer of the loader may be any. -/
inductive SymbolAccess : SymbolSection → SymbolPoint → SymbolProvider → SymbolProvider →
    SymbolPoint ⊕ (SymbolSection ⊕ SymbolAnswer) → Prop
  | hit {a loop} {s : SymbolProvider} {frame} (h : s.symbolCache a = some frame) :
      SymbolAccess (.frame a loop) .lookup s s (.inr (afterFrame frame loop))
  | miss {a loop} {s : SymbolProvider} (h : s.symbolCache a = none) :
      SymbolAccess (.frame a loop) .lookup s s (.inl .describe)
  | describe {a loop} {s : SymbolProvider} (dlinfo : Option DlInfo) :
      SymbolAccess (.frame a loop) .describe s s (.inl (.store (MemSentry.describe dlinfo a)))
  | store {a loop} {s : SymbolProvider} {frame} :
      SymbolAccess (.frame a loop) (.store frame) s
        { s with symbolCache := update s.symbolCache a (some frame) }
        (.inr (afterFrame frame loop))
  | down {s : SymbolProvider} (h : s.initialized = false) :
      SymbolAccess .cleanup .check s s (.inr (.inr .done))
  | up {s : SymbolProvider} (h : s.initialized = true) :
      SymbolAccess .cleanup .check s s (.inl .reset)
  | reset {s : SymbolProvider} :
      SymbolAccess .cleanup .reset s { s with initialized := false } (.inl .clear)
  | clear {s : SymbolProvider} :
      SymbolAccess .cleanup .clear s { s with symbolCache := fun _ => none } (.inr (.inr .done))

/-- There is one mutex, and it guards all of the provider. -/
def symbolCode :
    Code Unit SymbolProvider SymbolRequest SymbolSection SymbolPoint SymbolAnswer where
  start := SymbolRequest.start
  cell := fun _ => ()
  first := SymbolSection.first
  access := SymbolAccess

abbrev LockedSymbols (ι : Type) :=
  Locked ι Unit SymbolProvider SymbolSection SymbolPoint SymbolAnswer

abbrev SymbolEvent (ι : Type) := CriticalSections.Event ι SymbolRequest SymbolAnswer

/-! ## What a section does -/

section Sections

variable {a : Ptr} {loop : Option (List Ptr × List StackFrame)} {c c' : SymbolProvider}
  {x : SymbolSection ⊕ SymbolAnswer}

/-- `resolve_frame` up to the access that is next. -/
def FrameMidway (a : Ptr) (c : SymbolProvider) (m : SymbolPoint) (d : SymbolProvider) : Prop :=
  d = c ∧ match m with
  | .lookup => True
  | .describe => c.symbolCache a = none
  | .store frame => c.symbolCache a = none ∧ ∃ dlinfo, frame = describe dlinfo a
  | _ => False

/-- A frame comes from the cache, or from the loader and is in the cache from then on. -/
theorem frame_section (h : symbolCode.Section (.frame a loop) c c' x) :
    ∃ frame, x = afterFrame frame loop ∧ ((c.symbolCache a = some frame ∧ c' = c) ∨
      (c.symbolCache a = none ∧ (∃ dlinfo, frame = describe dlinfo a) ∧
        c' = { c with symbolCache := update c.symbolCache a (some frame) })) := by
  have hkeep : ∀ m d m' d', FrameMidway a c m d →
      symbolCode.access (.frame a loop) m d d' (.inl m') → FrameMidway a c m' d' := by
    rintro m d m' d' ⟨rfl, hmidway⟩ haccess
    cases haccess with
    | miss hmissing => exact ⟨rfl, hmissing⟩
    | describe dlinfo => exact ⟨rfl, hmidway, dlinfo, rfl⟩
  obtain ⟨m, d, ⟨rfl, hmidway⟩, hlast⟩ := h.invariant (I := FrameMidway a c) ⟨rfl, trivial⟩ hkeep
  cases hlast with
  | hit hfound => exact ⟨_, rfl, Or.inl ⟨hfound, rfl⟩⟩
  | store => exact ⟨_, rfl, Or.inr ⟨hmidway.1, hmidway.2, rfl⟩⟩

/-- Nothing sets `initialized_`, and without it `cleanup` does nothing. -/
theorem cleanup_section (hdown : c.initialized = false)
    (h : symbolCode.Section .cleanup c c' x) : c' = c ∧ x = .inr .done := by
  have hkeep : ∀ m d m' d', (m = .check ∧ d = c) →
      symbolCode.access .cleanup m d d' (.inl m') → m' = .check ∧ d' = c := by
    rintro m d m' d' ⟨rfl, rfl⟩ haccess
    cases haccess with
    | up hup =>
      rw [hdown] at hup
      cases hup
  obtain ⟨m, d, ⟨rfl, rfl⟩, hlast⟩ :=
    h.invariant (I := fun m d => m = .check ∧ d = c) ⟨rfl, rfl⟩ hkeep
  cases hlast with
  | down _ => exact ⟨rfl, rfl⟩

/-- An address that is not in the cache may be whatever the loader says. -/
theorem asked_section (h : c.symbolCache a = none) (dlinfo : Option DlInfo) :
    symbolCode.Section (.frame a loop) c
      { c with symbolCache := update c.symbolCache a (some (describe dlinfo a)) }
      (afterFrame (describe dlinfo a) loop) := by
  have hreach : symbolCode.Reaches (.frame a loop) (.lookup, c)
      (.store (describe dlinfo a), c) := by
    refine (Relation.ReflTransGen.single (b := (SymbolPoint.describe, c)) ?_).tail ?_
    · exact SymbolAccess.miss h
    · exact SymbolAccess.describe dlinfo
  exact ⟨_, c, hreach, .store⟩

theorem cached_section {frame : StackFrame} (h : c.symbolCache a = some frame) :
    symbolCode.Section (.frame a loop) c c (afterFrame frame loop) :=
  ⟨_, c, .refl, .hit h⟩

end Sections

/-! ## Every answer in the same terms -/

/-- The frames that are not null, resolved. -/
def resolveAll (resolveFrame : Ptr → StackFrame) (frames : List Ptr) : List StackFrame :=
  (frames.filter fun frame => frame ≠ 0).map resolveFrame

/-- The answer that is to come if the frames stand for this. -/
def outcome (resolveFrame : Ptr → StackFrame) : SymbolSection ⊕ SymbolAnswer → SymbolAnswer
  | .inr r => r
  | .inl .cleanup => .done
  | .inl (.frame a none) => .frame (resolveFrame a)
  | .inl (.frame a (some (frames, resolved))) =>
    .frames (resolved ++ resolveFrame a :: resolveAll resolveFrame frames)

/-- The answer to a call. -/
def SymbolRequest.answer (resolveFrame : Ptr → StackFrame) : SymbolRequest → SymbolAnswer
  | .resolveFrame address => .frame (resolveFrame address)
  | .resolve frames count => .frames (MemSentry.resolve resolveFrame frames count)
  | .cleanup => .done

section Outcomes

variable {resolveFrame : Ptr → StackFrame}

theorem outcome_nextFrame (frames : List Ptr) (resolved : List StackFrame) :
    outcome resolveFrame (nextFrame resolved frames) =
      .frames (resolved ++ resolveAll resolveFrame frames) := by
  induction frames with
  | nil => exact congrArg SymbolAnswer.frames (List.append_nil resolved).symm
  | cons frame frames ih =>
    unfold nextFrame resolveAll
    by_cases hnull : frame = 0
    · rw [if_pos hnull, ih, List.filter_cons_of_neg (by simpa using hnull)]
      rfl
    · rw [if_neg hnull, List.filter_cons_of_pos (by simpa using hnull)]
      rfl

theorem outcome_start (q : SymbolRequest) :
    outcome resolveFrame q.start = q.answer resolveFrame := by
  cases q with
  | resolveFrame address => rfl
  | resolve frames count => exact outcome_nextFrame _ _
  | cleanup => rfl

theorem outcome_afterFrame (a : Ptr) (loop : Option (List Ptr × List StackFrame)) :
    outcome resolveFrame (afterFrame (resolveFrame a) loop) =
      outcome resolveFrame (.inl (.frame a loop)) := by
  rcases loop with _ | ⟨frames, resolved⟩
  · rfl
  · rw [afterFrame, outcome_nextFrame, List.append_assoc]
    rfl

end Outcomes

/-- The cache never holds anything but what the loader said. -/
def CacheSound (cells : Unit → SymbolProvider) : Prop :=
  (cells ()).initialized = false ∧
    ∀ a frame, (cells ()).symbolCache a = some frame → ∃ dlinfo, frame = describe dlinfo a

/-- The function agrees with the cache. -/
def AgreesWithCache (cells : Unit → SymbolProvider) (resolveFrame : Ptr → StackFrame) : Prop :=
  ∀ a frame, (cells ()).symbolCache a = some frame → resolveFrame a = frame

theorem section_agrees (cells : Unit → SymbolProvider) (n : SymbolSection) (c : SymbolProvider)
    (x : SymbolSection ⊕ SymbolAnswer) (hsound : CacheSound cells)
    (h : symbolCode.Section n (cells ()) c x) :
    CacheSound (update cells () c) ∧ ∀ resolveFrame, AgreesWithCache (update cells () c) resolveFrame →
      AgreesWithCache cells resolveFrame ∧
        outcome resolveFrame x = outcome resolveFrame (.inl n) := by
  have hcells : ∀ c, update cells () c = fun _ => c := fun c => funext fun u => by cases u; rfl
  cases n with
  | cleanup =>
    obtain ⟨rfl, rfl⟩ := cleanup_section hsound.1 h
    rw [update_eq_self]
    exact ⟨hsound, fun resolveFrame hagrees => ⟨hagrees, rfl⟩⟩
  | frame a loop =>
    obtain ⟨frame, rfl, ⟨hfound, rfl⟩ | ⟨hmissing, ⟨dlinfo, hframe⟩, rfl⟩⟩ := frame_section h
    · rw [update_eq_self]
      refine ⟨hsound, fun resolveFrame hagrees => ⟨hagrees, ?_⟩⟩
      rw [← hagrees a frame hfound]
      exact outcome_afterFrame a loop
    · rw [hcells]
      refine ⟨⟨hsound.1, fun b other hb => ?_⟩, fun resolveFrame hagrees => ⟨fun b other hb => ?_, ?_⟩⟩
      · by_cases hba : b = a
        · subst b
          simp only [update_self, Option.some.injEq] at hb
          exact ⟨dlinfo, hb.symm.trans hframe⟩
        · simp only [update_of_ne hba] at hb
          exact hsound.2 b other hb
      · have hba : b ≠ a := by
          rintro rfl
          rw [hmissing] at hb
          cases hb
        exact hagrees b other ((update_of_ne hba _ _).trans hb)
      · rw [← hagrees a frame (update_self _ _ _)]
        exact outcome_afterFrame a loop

variable {ι : Type} [DecidableEq ι]

/-- In every history there is one function that says what the addresses stand for, each as
the loader did at some time, and that all the answers are taken from. -/
theorem resolved_history {es : List (SymbolEvent ι)} {s : LockedSymbols ι}
    (h : Run (Locked.Step symbolCode) (Locked.start fun _ => {}) es s) :
    ∃ resolveFrame : Ptr → StackFrame, (∀ a, ∃ dlinfo, resolveFrame a = describe dlinfo a) ∧
      Answered (SymbolRequest.answer resolveFrame) es := by
  obtain ⟨a, hrun, _⟩ := locked_refines_atomic symbolCode h
  have hstart : CacheSound fun _ => {} := ⟨rfl, fun _ _ hb => by cases hb⟩
  obtain ⟨⟨_, hsound⟩, hanswered⟩ : CacheSound a.cells ∧ ∀ resolveFrame,
      AgreesWithCache a.cells resolveFrame →
        Answered (fun q => outcome resolveFrame (symbolCode.start q)) es :=
    answers_foretold hrun hstart (fun _ _ => rfl) section_agrees
  let resolveFrame : Ptr → StackFrame := fun p =>
    ((a.cells ()).symbolCache p).getD (describe none p)
  have hagrees : AgreesWithCache a.cells resolveFrame := by
    intro p frame hp
    simp only [resolveFrame, hp, Option.getD_some]
  refine ⟨resolveFrame, fun p => ?_, ?_⟩
  · rcases hp : (a.cells ()).symbolCache p with _ | frame
    · exact ⟨none, by simp only [resolveFrame, hp, Option.getD_none]⟩
    · obtain ⟨dlinfo, hframe⟩ := hsound p frame hp
      exact ⟨dlinfo, by simp only [resolveFrame, hp, Option.getD_some, hframe]⟩
  · have hall := hanswered resolveFrame hagrees
    have hdue : (fun q => outcome resolveFrame (symbolCode.start q)) =
        SymbolRequest.answer resolveFrame := funext outcome_start
    rw [hdue] at hall
    exact hall

def mainFrame : StackFrame := describe (some ⟨some (ascii "main"), none, some (ascii "a.out")⟩) 0x400

/-- One thread resolves an address, and then another one a stack with that address in it. -/
theorem resolvedTwice_run : ∃ s : LockedSymbols Bool,
    Run (Locked.Step symbolCode) (Locked.start fun _ => {})
      [.call true (.resolveFrame 0x400), .answer true (.frame mainFrame),
        .call false (.resolve [0, 0x400] 2), .answer false (.frames [mainFrame])] s := by
  let cells : Unit → SymbolProvider := update (fun _ => {}) ()
    { symbolCache := update (fun _ => none) 0x400 (some mainFrame) }
  let pool₁ : Bool → Option (SymbolSection ⊕ SymbolAnswer) :=
    update (fun _ => none) true (some (.inl (.frame 0x400 none)))
  let pool₂ := update pool₁ true (some (.inr (.frame mainFrame)))
  let pool₃ := update pool₂ true none
  let pool₄ := update pool₃ false (some (.inl (.frame 0x400 (some ([], [])))))
  let pool₅ := update pool₄ false (some (.inr (.frames [mainFrame])))
  have hcall : Atomic.Step symbolCode (Atomic.start fun _ => {}) _ ⟨fun _ => {}, pool₁⟩ :=
    .call _ true (SymbolRequest.resolveFrame 0x400) rfl
  have hask : Atomic.Step symbolCode ⟨fun _ => {}, pool₁⟩ none ⟨cells, pool₂⟩ :=
    .perform _ true _ _ _ rfl (asked_section rfl _)
  have hanswer : Atomic.Step symbolCode ⟨cells, pool₂⟩ _ ⟨_, pool₃⟩ :=
    .answer _ true (.frame mainFrame) rfl
  have hcall' : Atomic.Step symbolCode ⟨cells, pool₃⟩ _ ⟨_, pool₄⟩ :=
    .call _ false (SymbolRequest.resolve [0, 0x400] 2) rfl
  have hfind : Atomic.Step symbolCode ⟨cells, pool₄⟩ none ⟨cells, pool₅⟩ :=
    .perform _ false _ _ _ rfl (cached_section rfl)
  have hanswer' : Atomic.Step symbolCode ⟨cells, pool₅⟩ _ ⟨_, update pool₅ false none⟩ :=
    .answer _ false (.frames [mainFrame]) rfl
  have hrun := Run.cons hcall (.cons hask (.cons hanswer (.cons hcall' (.cons hfind
    (.single hanswer')))))
  exact (locked_iff_atomic symbolCode).mpr ⟨_, hrun⟩

theorem resolved_history_twice : ∃ resolveFrame : Ptr → StackFrame,
    mainFrame = resolveFrame 0x400 ∧ [mainFrame] = resolve resolveFrame [0, 0x400] 2 := by
  obtain ⟨s, hs⟩ := resolvedTwice_run
  obtain ⟨resolveFrame, _, hanswered⟩ := resolved_history hs
  have hfirst := hanswered [_] _ true (.resolveFrame 0x400) _ rfl rfl
  have hsecond := hanswered [_, _, _] _ false (.resolve [0, 0x400] 2) _ rfl rfl
  simp only [SymbolRequest.answer, SymbolAnswer.frame.injEq] at hfirst
  simp only [SymbolRequest.answer, SymbolAnswer.frames.injEq] at hsecond
  exact ⟨resolveFrame, hfirst, hsecond⟩

end MemSentry
