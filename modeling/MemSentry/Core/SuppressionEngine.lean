import MemSentry.Stacktrace

/-!
# The suppression engine

`core/suppression_engine.hpp`. A record is suppressed when a rule occurs in its tag or in
the symbol or file name of one of its frames. What stands behind a tag pointer and what an
address resolves to are parameters.

Every function below holds the lock of the engine from its first step to its last, so a
call is one step; `SuppressionCall` are the two calls that change the rules.
-/

namespace MemSentry.Core

/-- `text.find(pattern)`: the first occurrence, `none` for `npos`. -/
def findText (pattern : Text) : Text → Option ℕ
  | [] => if pattern = [] then some 0 else none
  | c :: text =>
    if pattern.isPrefixOf (c :: text) then some 0 else (findText pattern text).map (· + 1)

theorem findText_isSome_iff {pattern text : Text} :
    (findText pattern text).isSome ↔ pattern <:+: text := by
  induction text with
  | nil => by_cases h : pattern = [] <;> simp [findText, h]
  | cons c text ih =>
    rw [List.infix_cons_iff, ← ih, findText, ← List.isPrefixOf_iff_prefix]
    by_cases h : pattern.isPrefixOf (c :: text) <;> simp [h]

/-- `add_rule` never stores an empty pattern. -/
structure SuppressionEngine where
  rules : List Text
  rules_ne : ∀ rule ∈ rules, rule ≠ []

namespace SuppressionEngine

def empty : SuppressionEngine := ⟨[], fun _ h => absurd h List.not_mem_nil⟩

def addRule (e : SuppressionEngine) (pattern : Text) : SuppressionEngine :=
  if h : pattern = [] then e
  else
    { rules := e.rules ++ [pattern]
      rules_ne := fun rule hrule => by
        rcases List.mem_append.mp hrule with hold | hnew
        · exact e.rules_ne rule hold
        · rwa [List.mem_singleton.mp hnew] }

def clear (_ : SuppressionEngine) : SuppressionEngine := empty

section IsSuppressed

variable (resolveFrame : Ptr → StackFrame) (tagText : Ptr → Text)

/-- The two tests on a frame, for one rule. -/
def matchesFrame (rule : Text) (frame : StackFrame) : Bool :=
  (!frame.symbolName.isEmpty && (findText rule frame.symbolName).isSome) ||
    (!frame.fileName.isEmpty && (findText rule frame.fileName).isSome)

def isSuppressed (e : SuppressionEngine) (record : AllocationRecord) : Bool :=
  if e.rules.isEmpty then false
  else if record.tag ≠ 0 ∧ e.rules.any fun rule => (findText rule (tagText record.tag)).isSome then
    true
  else if 0 < record.frameCount then
    let frames := resolve resolveFrame record.callstack record.frameCount
    frames.any fun frame => e.rules.any fun rule => matchesFrame rule frame
  else false

/-- The texts of a record in which the rules are looked for. -/
inductive MatchSource (record : AllocationRecord) : Text → Prop
  | tag (h : record.tag ≠ 0) : MatchSource record (tagText record.tag)
  | symbol {frame : StackFrame}
      (h : frame ∈ resolve resolveFrame record.callstack record.frameCount) :
      MatchSource record frame.symbolName
  | file {frame : StackFrame}
      (h : frame ∈ resolve resolveFrame record.callstack record.frameCount) :
      MatchSource record frame.fileName

variable {resolveFrame tagText}

/-- A rule is not empty, so the tests for an empty name change nothing. -/
theorem matchesFrame_iff {rule : Text} (hrule : rule ≠ []) {frame : StackFrame} :
    matchesFrame rule frame ↔ rule <:+: frame.symbolName ∨ rule <:+: frame.fileName := by
  have hname : ∀ name : Text,
      (!name.isEmpty && (findText rule name).isSome) = true ↔ rule <:+: name := by
    intro name
    rw [Bool.and_eq_true, findText_isSome_iff]
    constructor
    · exact fun h => h.2
    · intro h
      refine ⟨?_, h⟩
      cases name with
      | nil => exact absurd (List.infix_nil.mp h) hrule
      | cons c name => rfl
  rw [matchesFrame, Bool.or_eq_true, hname, hname]

/-- The early returns are shortcuts. -/
theorem isSuppressed_eq (e : SuppressionEngine) (record : AllocationRecord) :
    e.isSuppressed resolveFrame tagText record =
      ((record.tag ≠ 0 ∧ e.rules.any fun rule => (findText rule (tagText record.tag)).isSome) ||
        (resolve resolveFrame record.callstack record.frameCount).any fun frame =>
          e.rules.any fun rule => matchesFrame rule frame) := by
  unfold isSuppressed
  split
  next hempty =>
    rw [List.isEmpty_iff.mp hempty]
    simp
  split
  next htag => rw [decide_eq_true htag, Bool.true_or]
  next htag =>
    rw [decide_eq_false htag, Bool.false_or]
    split
    · rfl
    next hcount => rw [resolve_eq_nil hcount, List.any_nil]

theorem any_frame_iff (e : SuppressionEngine) (frames : List StackFrame) :
    (frames.any fun frame => e.rules.any fun rule => matchesFrame rule frame) ↔
      ∃ rule ∈ e.rules, ∃ frame ∈ frames, rule <:+: frame.symbolName ∨ rule <:+: frame.fileName := by
  rw [List.any_eq_true]
  constructor
  · rintro ⟨frame, hframe, hany⟩
    obtain ⟨rule, hrule, hmatch⟩ := List.any_eq_true.mp hany
    exact ⟨rule, hrule, frame, hframe, (matchesFrame_iff (e.rules_ne rule hrule)).mp hmatch⟩
  · rintro ⟨rule, hrule, frame, hframe, hinfix⟩
    refine ⟨frame, hframe, List.any_eq_true.mpr ⟨rule, hrule, ?_⟩⟩
    exact (matchesFrame_iff (e.rules_ne rule hrule)).mpr hinfix

theorem isSuppressed_iff {e : SuppressionEngine} {record : AllocationRecord} :
    e.isSuppressed resolveFrame tagText record ↔
      ∃ rule ∈ e.rules, ∃ text, MatchSource resolveFrame tagText record text ∧ rule <:+: text := by
  rw [isSuppressed_eq, Bool.or_eq_true, any_frame_iff, decide_eq_true_eq, List.any_eq_true]
  constructor
  · rintro (⟨htag, rule, hrule, hfind⟩ | ⟨rule, hrule, frame, hframe, hsymbol | hfile⟩)
    · exact ⟨rule, hrule, _, .tag htag, findText_isSome_iff.mp hfind⟩
    · exact ⟨rule, hrule, _, .symbol hframe, hsymbol⟩
    · exact ⟨rule, hrule, _, .file hframe, hfile⟩
  · rintro ⟨rule, hrule, text, hsource, hinfix⟩
    cases hsource with
    | tag htag => exact .inl ⟨htag, rule, hrule, findText_isSome_iff.mpr hinfix⟩
    | symbol hframe => exact .inr ⟨rule, hrule, _, hframe, .inl hinfix⟩
    | file hframe => exact .inr ⟨rule, hrule, _, hframe, .inr hinfix⟩

end IsSuppressed

end SuppressionEngine

/-! ## A history of calls -/

/-- `memsentry::suppress` and `memsentry::clear_suppressions`. -/
inductive SuppressionCall
  | suppress (pattern : Text)
  | clearSuppressions

namespace SuppressionEngine

def perform (e : SuppressionEngine) : SuppressionCall → SuppressionEngine
  | .suppress pattern => e.addRule pattern
  | .clearSuppressions => e.clear

/-- The engine after a sequence of calls, first to last. -/
def afterCalls (history : List SuppressionCall) : SuppressionEngine :=
  history.foldl perform empty

theorem afterCalls_concat (history : List SuppressionCall) (c : SuppressionCall) :
    afterCalls (history ++ [c]) = (afterCalls history).perform c := by
  simp [afterCalls]

end SuppressionEngine

/-- The pattern was added, and the rules have not been cleared since. -/
def AddedSinceClear (history : List SuppressionCall) (pattern : Text) : Prop :=
  ∃ before after, history = before ++ .suppress pattern :: after ∧ .clearSuppressions ∉ after

theorem addedSinceClear_concat {history : List SuppressionCall} {c : SuppressionCall}
    {pattern : Text} :
    AddedSinceClear (history ++ [c]) pattern ↔
      c = .suppress pattern ∨ c ≠ .clearSuppressions ∧ AddedSinceClear history pattern := by
  constructor
  · rintro ⟨before, after, heq, hkept⟩
    rcases List.eq_nil_or_concat' after with rfl | ⟨after, last, rfl⟩
    · obtain ⟨_, hlast⟩ := List.append_inj' heq rfl
      exact .inl (List.singleton_inj.mp hlast)
    · rw [← List.cons_append, ← List.append_assoc] at heq
      obtain ⟨hhistory, hlast⟩ := List.append_inj' heq rfl
      rw [List.singleton_inj.mp hlast]
      rw [List.mem_append, not_or, List.mem_singleton] at hkept
      exact .inr ⟨Ne.symm hkept.2, before, after, hhistory, hkept.1⟩
  · rintro (rfl | ⟨hc, before, after, rfl, hkept⟩)
    · exact ⟨history, [], rfl, List.not_mem_nil⟩
    · refine ⟨before, after ++ [c], by simp, ?_⟩
      simp [hkept, Ne.symm hc]

theorem addedSinceClear_append {history : List SuppressionCall} {patterns : List Text}
    {pattern : Text} :
    AddedSinceClear (history ++ patterns.map .suppress) pattern ↔
      pattern ∈ patterns ∨ AddedSinceClear history pattern := by
  induction patterns using List.reverseRecOn with
  | nil => simp
  | append_singleton patterns last ih =>
    rw [List.map_append, List.map_singleton, ← List.append_assoc, addedSinceClear_concat, ih]
    simp only [List.mem_append, List.mem_singleton, SuppressionCall.suppress.injEq]
    grind

namespace SuppressionEngine

/-- The rules in force are the non-empty patterns added since the last clear. -/
theorem mem_rules_afterCalls {history : List SuppressionCall} {pattern : Text} :
    pattern ∈ (afterCalls history).rules ↔ pattern ≠ [] ∧ AddedSinceClear history pattern := by
  induction history using List.reverseRecOn with
  | nil => simp [afterCalls, empty, AddedSinceClear]
  | append_singleton history c ih =>
    rw [afterCalls_concat, addedSinceClear_concat]
    cases c with
    | clearSuppressions => simp [perform, clear, empty]
    | suppress added =>
      by_cases hadded : added = []
      · simp only [perform, addRule, dif_pos hadded, ih]
        grind
      · simp only [perform, addRule, dif_neg hadded, List.mem_append, List.mem_singleton, ih]
        grind

section Consequences

variable {resolveFrame : Ptr → StackFrame} {tagText : Ptr → Text}

theorem isSuppressed_mono {e e' : SuppressionEngine} (h : e.rules ⊆ e'.rules)
    {record : AllocationRecord} (hsuppressed : e.isSuppressed resolveFrame tagText record) :
    e'.isSuppressed resolveFrame tagText record := by
  rw [isSuppressed_iff] at hsuppressed ⊢
  obtain ⟨rule, hrule, hmatch⟩ := hsuppressed
  exact ⟨rule, h hrule, hmatch⟩

theorem isSuppressed_afterCalls {history : List SuppressionCall} {record : AllocationRecord} :
    (afterCalls history).isSuppressed resolveFrame tagText record ↔
      ∃ pattern, pattern ≠ [] ∧ AddedSinceClear history pattern ∧
        ∃ text, MatchSource resolveFrame tagText record text ∧ pattern <:+: text := by
  rw [isSuppressed_iff]
  simp only [mem_rules_afterCalls, and_assoc]

/-- Neither the order of the added patterns nor their number counts, and more of them
suppress more. -/
theorem rules_afterCalls_subset {history : List SuppressionCall} {patterns more : List Text}
    (h : patterns ⊆ more) :
    (afterCalls (history ++ patterns.map .suppress)).rules ⊆
      (afterCalls (history ++ more.map .suppress)).rules := by
  intro pattern hpattern
  rw [mem_rules_afterCalls, addedSinceClear_append] at hpattern ⊢
  exact ⟨hpattern.1, hpattern.2.imp_left fun hmem => h hmem⟩

end Consequences

end SuppressionEngine

end MemSentry.Core
