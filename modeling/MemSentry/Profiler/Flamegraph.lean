import MemSentry.Library.WeightedPaths
import MemSentry.Stacktrace
import Mathlib.Algebra.Group.Prod
import Mathlib.Data.BitVec

/-!
# The flamegraph

`FlamegraphGenerator::build_tree` descends from the root along the frames of each record,
outermost first, and makes the nodes that are missing. The tree is a function of the
records' paths and sizes: `Represents` says which weighted paths a node stands for, and
one descent adds one path (`Represents.credit`).
-/

namespace MemSentry.Profiler

open WeightedPaths

structure FlameNode where
  name : Text := ascii "root"
  file : Text := []
  line : BitVec 32 := 0
  selfBytes : Word := 0
  totalBytes : Word := 0
  selfCount : Word := 0
  totalCount : Word := 0
  children : List FlameNode := []

/-- The name of frames without a symbol. -/
def unknownName : Text := ascii "[unknown]"

/-- `frame.symbol_name.empty() ? "[unknown]" : frame.symbol_name`. -/
def symbolOf (frame : StackFrame) : Text :=
  if frame.symbolName.isEmpty then unknownName else frame.symbolName

namespace FlameNode

def addTotal (bytes : Word) (n : FlameNode) : FlameNode :=
  { n with totalBytes := n.totalBytes + bytes, totalCount := n.totalCount + 1 }

def addSelf (bytes : Word) (n : FlameNode) : FlameNode :=
  { n with selfBytes := n.selfBytes + bytes, selfCount := n.selfCount + 1 }

/-- `get_or_create_child`, and what the caller does with the node that it returns: the first
child of that name, or a new one at the end. -/
def getOrCreateChild (childName file : Text) (line : BitVec 32) (use : FlameNode → FlameNode) :
    List FlameNode → List FlameNode
  | [] => [use { name := childName, file := file, line := line }]
  | c :: cs =>
    if c.name = childName then use c :: cs else c :: getOrCreateChild childName file line use cs

/-- The descent along the frames, outermost first. -/
def credit (bytes : Word) : List StackFrame → FlameNode → FlameNode
  | [], curr => curr.addSelf bytes
  | frame :: frames, curr =>
    { curr with
      children := getOrCreateChild (symbolOf frame) frame.fileName frame.lineNumber
        (fun child => credit bytes frames (child.addTotal bytes)) curr.children }

end FlameNode

section BuildTree

variable (resolveFrame : Ptr → StackFrame)

/-- One round of the loop over the records. -/
def addRecord (root : FlameNode) (rec : AllocationRecord) : FlameNode :=
  let root := root.addTotal rec.requestedSize
  if rec.frameCount = 0 then
    { root with
      children := FlameNode.getOrCreateChild unknownName [] 0
        (fun unknown => (unknown.addSelf rec.requestedSize).addTotal rec.requestedSize)
        root.children }
  else root.credit rec.requestedSize (resolve resolveFrame rec.callstack rec.frameCount).reverse

def buildTree (records : List AllocationRecord) : FlameNode :=
  records.foldl (addRecord resolveFrame) { name := ascii "all" }

/-! ## What the tree stands for -/

/-- The path of a record, outermost frame first. -/
def pathOf (rec : AllocationRecord) : List Text :=
  if rec.frameCount = 0 then [unknownName]
  else (resolve resolveFrame rec.callstack rec.frameCount).reverse.map symbolOf

end BuildTree

/-- Bytes and count of a record. -/
def weightOf (rec : AllocationRecord) : Word × Word := (rec.requestedSize, 1)

namespace FlameNode

def self (n : FlameNode) : Word × Word := (n.selfBytes, n.selfCount)

def total (n : FlameNode) : Word × Word := (n.totalBytes, n.totalCount)

def names (n : FlameNode) : List Text := n.children.map name

/-- The nodes of a tree and their paths. -/
inductive At : FlameNode → List Text → FlameNode → Prop
  | here (n : FlameNode) : At n [] n
  | child {n c m : FlameNode} {p : List Text} (hc : c ∈ n.children) (h : At c p m) :
    At n (c.name :: p) m

/-- The tree below the node is the one of these weighted paths. -/
inductive Represents : FlameNode → List (List Text × (Word × Word)) → Prop
  | intro {n : FlameNode} {es : List (List Text × (Word × Word))} (self : n.self = ending es)
    (total : n.total = weight es) (distinct : n.names.Nodup)
    (labels : ∀ k, k ∈ n.names ↔ ∃ path w, (k :: path, w) ∈ es)
    (children : ∀ c ∈ n.children, Represents c (step c.name es)) : Represents n es

/-! ## One descent -/

section Children

variable {k file : Text} {line : BitVec 32} {use : FlameNode → FlameNode} {cs : List FlameNode}

theorem names_getOrCreateChild (huse : ∀ c, (use c).name = c.name) :
    (getOrCreateChild k file line use cs).map name =
      if k ∈ cs.map name then cs.map name else cs.map name ++ [k] := by
  induction cs with
  | nil => simp [getOrCreateChild, huse]
  | cons c cs ih =>
    unfold getOrCreateChild
    by_cases hk : c.name = k
    · simp [hk, huse]
    · rw [if_neg hk, List.map_cons, ih]
      by_cases hrest : k ∈ cs.map name
      · simp [hrest]
      · simp [hrest, Ne.symm hk]

/-- A child is either another one, untouched, or the one of that name. -/
theorem mem_getOrCreateChild (hdistinct : (cs.map name).Nodup) {c' : FlameNode}
    (hc : c' ∈ getOrCreateChild k file line use cs) :
    (c' ∈ cs ∧ c'.name ≠ k) ∨ (∃ c ∈ cs, c.name = k ∧ c' = use c) ∨
      k ∉ cs.map name ∧ c' = use { name := k, file := file, line := line } := by
  induction cs with
  | nil => exact Or.inr (Or.inr ⟨List.not_mem_nil, List.mem_singleton.mp hc⟩)
  | cons c cs ih =>
    rw [List.map_cons, List.nodup_cons] at hdistinct
    unfold getOrCreateChild at hc
    by_cases hk : c.name = k
    · rw [if_pos hk] at hc
      rcases List.mem_cons.mp hc with hfirst | hrest
      · exact Or.inr (Or.inl ⟨c, List.mem_cons_self, hk, hfirst⟩)
      · refine Or.inl ⟨List.mem_cons_of_mem _ hrest, fun hname => hdistinct.1 ?_⟩
        rw [hk, ← hname]
        exact List.mem_map_of_mem hrest
    · rw [if_neg hk] at hc
      rcases List.mem_cons.mp hc with rfl | hrest
      · exact Or.inl ⟨List.mem_cons_self, hk⟩
      · rcases ih hdistinct.2 hrest with ⟨hmem, hne⟩ | ⟨d, hd, hname, heq⟩ | ⟨hnone, heq⟩
        · exact Or.inl ⟨List.mem_cons_of_mem _ hmem, hne⟩
        · exact Or.inr (Or.inl ⟨d, List.mem_cons_of_mem _ hd, hname, heq⟩)
        · refine Or.inr (Or.inr ⟨?_, heq⟩)
          rw [List.map_cons, List.mem_cons, not_or]
          exact ⟨Ne.symm hk, hnone⟩

end Children

theorem name_credit (bytes : Word) (frames : List StackFrame) (n : FlameNode) :
    (n.credit bytes frames).name = n.name := by
  cases frames with
  | nil => rfl
  | cons frame frames => rfl

theorem represents_new (k file : Text) (line : BitVec 32) :
    Represents { name := k, file := file, line := line } [] := by
  refine .intro rfl rfl List.nodup_nil (fun j => ?_) fun c hc => absurd hc List.not_mem_nil
  simp [names]

/-- The descent along the frames of one record adds its path. -/
theorem Represents.credit {n : FlameNode} {es : List (List Text × (Word × Word))} (bytes : Word)
    (frames : List StackFrame) (h : Represents n es) :
    Represents ((n.addTotal bytes).credit bytes frames)
      (es ++ [(frames.map symbolOf, (bytes, 1))]) := by
  induction frames generalizing n es with
  | nil =>
    obtain ⟨hself, htotal, hdistinct, hlabels, hchildren⟩ := h
    refine .intro ?_ ?_ hdistinct (fun k => ?_) fun c hc => ?_
    · simp [← hself, FlameNode.credit, addSelf, addTotal, self]
    · simp [← htotal, FlameNode.credit, addSelf, addTotal, total]
    · refine (hlabels k).trans ?_
      simp
    · rw [step_append]
      simpa using hchildren c hc
  | cons frame frames ih =>
    obtain ⟨hself, htotal, hdistinct, hlabels, hchildren⟩ := h
    have hnames : ((n.addTotal bytes).credit bytes (frame :: frames)).names =
        if symbolOf frame ∈ n.names then n.names else n.names ++ [symbolOf frame] :=
      names_getOrCreateChild fun c => name_credit bytes frames _
    refine .intro ?_ ?_ ?_ (fun k => ?_) fun c hc => ?_
    · simp [← hself, FlameNode.credit, addTotal, self]
    · simp [← htotal, FlameNode.credit, addTotal, total]
    · rw [hnames]
      split
      · exact hdistinct
      · rename_i hnew
        rw [← List.concat_eq_append]
        exact List.Nodup.concat hnew hdistinct
    · have hmem : k ∈ ((n.addTotal bytes).credit bytes (frame :: frames)).names ↔
          k ∈ n.names ∨ k = symbolOf frame := by
        rw [hnames]
        split
        · rename_i hold
          exact ⟨Or.inl, fun h => h.elim id fun heq => heq ▸ hold⟩
        · simp
      rw [hmem, hlabels]
      constructor
      · rintro (⟨path, w, he⟩ | rfl)
        · exact ⟨path, w, List.mem_append_left _ he⟩
        · exact ⟨_, _, List.mem_append_right _ List.mem_cons_self⟩
      · rintro ⟨path, w, he⟩
        rcases List.mem_append.mp he with hold | hlast
        · exact Or.inl ⟨path, w, hold⟩
        · rw [List.mem_singleton, List.map_cons] at hlast
          cases hlast
          exact Or.inr rfl
    · rw [step_append]
      rcases mem_getOrCreateChild hdistinct hc with ⟨hold, hne⟩ | ⟨d, hd, hname, rfl⟩ |
          ⟨hnew, rfl⟩
      · rw [List.map_cons, step_through, if_neg hne.symm, step_nil, List.append_nil]
        exact hchildren c hold
      · have hk : ((d.addTotal bytes).credit bytes frames).name = symbolOf frame :=
          (name_credit bytes frames _).trans hname
        have hbelow := hchildren d hd
        rw [hk, List.map_cons, step_through, if_pos rfl]
        rw [hname] at hbelow
        exact ih hbelow
      · have hnone : step (symbolOf frame) es = [] := by
          rw [List.eq_nil_iff_forall_not_mem]
          rintro ⟨path, w⟩ he
          exact hnew ((hlabels _).mpr ⟨path, w, mem_step.mp he⟩)
        have hfresh := ih (represents_new (symbolOf frame) frame.fileName frame.lineNumber)
        rw [name_credit, List.map_cons, step_through]
        change Represents _ (step (symbolOf frame) es ++ if symbolOf frame = symbolOf frame then _ else _)
        rw [if_pos rfl, hnone]
        exact hfresh

/-! ## Reading the tree -/

variable {n m : FlameNode} {es : List (List Text × (Word × Word))} {p : List Text}

/-- The node at a path stands for what lies below the path. -/
theorem Represents.at_path (h : Represents n es) (hat : At n p m) : Represents m (WeightedPaths.below p es) := by
  induction hat generalizing es with
  | here n => exact h
  | child hc _ ih =>
    obtain ⟨_, _, _, _, hchildren⟩ := h
    exact ih (hchildren _ hc)

/-- There is a node for every prefix of a path and for no other path. -/
theorem Represents.exists_at_iff (h : Represents n es) :
    (∃ m, At n p m) ↔ p = [] ∨ ∃ path w, (p ++ path, w) ∈ es := by
  induction p generalizing n es with
  | nil => exact ⟨fun _ => Or.inl rfl, fun _ => ⟨n, .here n⟩⟩
  | cons k p ih =>
    obtain ⟨_, _, _, hlabels, hchildren⟩ := h
    constructor
    · rintro ⟨m, hat⟩
      cases hat with
      | child hc hat =>
        rename_i c
        right
        rcases (ih (hchildren c hc)).mp ⟨m, hat⟩ with rfl | ⟨path, w, he⟩
        · exact (hlabels c.name).mp (List.mem_map_of_mem hc)
        · exact ⟨path, w, mem_step.mp he⟩
    · rintro (hnil | ⟨path, w, he⟩)
      · cases hnil
      · obtain ⟨c, hc, rfl⟩ := List.mem_map.mp ((hlabels k).mpr ⟨p ++ path, w, he⟩)
        obtain ⟨m, hat⟩ := (ih (hchildren c hc)).mpr (Or.inr ⟨path, w, mem_step.mpr he⟩)
        exact ⟨m, .child hc hat⟩

/-- The children of a node are told apart by their names. -/
theorem child_unique (hdistinct : n.names.Nodup) {c d : FlameNode} (hc : c ∈ n.children)
    (hd : d ∈ n.children) (hname : c.name = d.name) : c = d :=
  List.inj_on_of_nodup_map hdistinct hc hd hname

theorem Represents.at_unique (h : Represents n es) (hat : At n p m) {m' : FlameNode}
    (hat' : At n p m') : m = m' := by
  induction hat generalizing es m' with
  | here n =>
    cases hat' with
    | here => rfl
  | child hc _ ih =>
    obtain ⟨_, _, hdistinct, _, hchildren⟩ := h
    generalize hp : (_ :: _ : List Text) = path at hat'
    cases hat' with
    | here => cases hp
    | child hc' hrest =>
      rw [List.cons.injEq] at hp
      obtain ⟨hname, rfl⟩ := hp
      obtain rfl := child_unique hdistinct hc hc' hname
      exact ih (hchildren _ hc) hrest

/-- Every node accounts for what ends at it and for its children. -/
theorem Represents.total_eq (h : Represents n es) :
    n.total = n.self + (n.children.map total).sum := by
  obtain ⟨hself, htotal, hdistinct, hlabels, hchildren⟩ := h
  have hsum := weight_eq_ending_add hdistinct fun k path w he => (hlabels k).mpr ⟨path, w, he⟩
  have hparts : n.children.map total = n.names.map fun k => weight (step k es) := by
    rw [names, List.map_map]
    apply List.map_congr_left
    intro c hc
    obtain ⟨_, hc, _, _, _⟩ := hchildren c hc
    exact hc
  rw [htotal, hself, hparts]
  exact hsum

theorem Represents.distinct_names (h : Represents n es) : n.names.Nodup := by
  obtain ⟨_, _, hdistinct, _, _⟩ := h
  exact hdistinct

theorem Represents.self_eq (h : Represents n es) : n.self = ending es := by
  obtain ⟨hself, _, _, _, _⟩ := h
  exact hself

theorem Represents.weight_eq (h : Represents n es) : n.total = weight es := by
  obtain ⟨_, htotal, _, _, _⟩ := h
  exact htotal

end FlameNode

/-! ## The whole tree -/

section Whole

variable (resolveFrame : Ptr → StackFrame) (records : List AllocationRecord)

/-- A record without frames goes the way of one frame without a symbol. -/
def framesOf (rec : AllocationRecord) : List StackFrame :=
  if rec.frameCount = 0 then [{}]
  else (resolve resolveFrame rec.callstack rec.frameCount).reverse

theorem addRecord_eq (root : FlameNode) (rec : AllocationRecord) :
    addRecord resolveFrame root rec =
      (root.addTotal rec.requestedSize).credit rec.requestedSize (framesOf resolveFrame rec) := by
  unfold addRecord framesOf
  split
  · rfl
  · rfl

theorem pathOf_eq (rec : AllocationRecord) :
    pathOf resolveFrame rec = (framesOf resolveFrame rec).map symbolOf := by
  unfold pathOf framesOf
  split
  · rfl
  · rfl

/-- The weighted paths of the records. -/
def weightedPaths : List (List Text × (Word × Word)) :=
  records.map fun rec => (pathOf resolveFrame rec, weightOf rec)

theorem represents_buildTree :
    (buildTree resolveFrame records).Represents (weightedPaths resolveFrame records) := by
  have hall : ∀ (root : FlameNode) es, root.Represents es →
      (records.foldl (addRecord resolveFrame) root).Represents
        (es ++ weightedPaths resolveFrame records) := by
    induction records with
    | nil =>
      intro root es h
      rw [weightedPaths, List.map_nil, List.append_nil]
      exact h
    | cons rec records ih =>
      intro root es h
      have hstep := ih _ _ (h.credit rec.requestedSize (framesOf resolveFrame rec))
      rw [← addRecord_eq, ← pathOf_eq, List.append_assoc] at hstep
      exact hstep
  exact hall _ [] (FlameNode.represents_new _ _ _)

/-- The records whose path goes through `p`, in bytes and count. -/
def through (p : List Text) : Word × Word :=
  ((records.filter fun rec => p <+: pathOf resolveFrame rec).map weightOf).sum

/-- The records whose path is `p`. -/
def endingAt (p : List Text) : Word × Word :=
  ((records.filter fun rec => pathOf resolveFrame rec = p).map weightOf).sum

variable {resolveFrame records} {n : FlameNode} {p : List Text}

theorem total_at (hat : (buildTree resolveFrame records).At p n) :
    n.total = through resolveFrame records p := by
  rw [((represents_buildTree resolveFrame records).at_path hat).weight_eq, weight_below, weightedPaths,
    List.filter_map, List.map_map]
  rfl

theorem self_at (hat : (buildTree resolveFrame records).At p n) :
    n.self = endingAt resolveFrame records p := by
  rw [((represents_buildTree resolveFrame records).at_path hat).self_eq, ending_below, weightedPaths,
    List.filter_map, List.map_map]
  rfl

theorem exists_at_iff : (∃ n, (buildTree resolveFrame records).At p n) ↔
    p = [] ∨ ∃ rec ∈ records, p <+: pathOf resolveFrame rec := by
  rw [(represents_buildTree resolveFrame records).exists_at_iff]
  refine or_congr_right ?_
  constructor
  · rintro ⟨path, w, he⟩
    obtain ⟨rec, hrec, heq⟩ := List.mem_map.mp he
    rw [Prod.mk.injEq] at heq
    exact ⟨rec, hrec, path, heq.1.symm⟩
  · rintro ⟨rec, hrec, path, hpath⟩
    exact ⟨path, weightOf rec, List.mem_map.mpr ⟨rec, hrec, by rw [hpath]⟩⟩

end Whole

end MemSentry.Profiler
