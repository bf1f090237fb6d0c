import MemSentry.Reporter.HtmlReporter

/-!
# The leak table as a parser reads it

The table is read as it is meant (`tableView`) exactly when every tag, symbol and file name
in it is inert and no record has captured frames that are all null. The elements of
`tableView` are determined by the shape of the input.
-/

namespace MemSentry.Reporter

open Html (References Inert isPlain tokens render intended markups)

/-! ## Inert fields -/

theorem plain_write {b : ℕ} (hb : 1 < b) (hb' : b ≤ 16) (n : ℕ) :
    (Numeral.write b n).all isPlain = true := by
  have hall : ∀ d : Fin 16, isPlain (Numeral.ofChar (Nat.digitChar d)) = true := by decide
  apply List.all_eq_true.mpr
  intro c hc
  obtain ⟨d, hd, rfl⟩ := Numeral.mem_write hb hc
  exact hall ⟨d, by omega⟩

theorem plain_decimal (n : ℕ) : (decimal n).all isPlain = true := plain_write (by omega) (by omega) n

/-- The texts of these segments are those of the template. -/
def isTemplate (segments : List Html.Segment) : Bool := segments.all fun s => s.text.all isPlain

theorem inert_of_template {refs : References} {segments : List Html.Segment}
    (h : isTemplate segments = true) : ∀ s ∈ segments, Inert refs s.text := by
  intro s hs
  apply Html.inert_of_plain
  exact List.all_eq_true.mp h s hs

section Fields

variable {refs : References} {resolveFrame : Ptr → StackFrame} {tagText : Ptr → Text}

theorem template_leadingSegments (i : ℕ) (rec : AllocationRecord) :
    isTemplate (leadingSegments i rec) = true := by
  have haddress := @plain_write 16 (by omega) (by omega) rec.userPtr.toNat
  simp only [isTemplate, leadingSegments, List.all_cons, List.all_append, plain_decimal, haddress,
    List.all_nil, Bool.and_true, Bool.true_and]
  decide

theorem template_trailingSegments (i : ℕ) (rec : AllocationRecord) :
    isTemplate (trailingSegments i rec) = true := by
  simp only [isTemplate, trailingSegments, List.all_cons, List.all_append, plain_decimal,
    List.all_nil, Bool.and_true, Bool.true_and]
  decide

theorem inert_cellSegments (i : ℕ) (rec : AllocationRecord) :
    (∀ s ∈ cellSegments tagText i rec, Inert refs s.text) ↔
      Inert refs (tagOrGeneral tagText rec.tag) := by
  rw [cellSegments, List.forall_mem_append, List.forall_mem_cons]
  constructor
  · exact fun h => h.2.1
  · intro htag
    exact ⟨inert_of_template (template_leadingSegments i rec), htag,
      inert_of_template (template_trailingSegments i rec)⟩

theorem inert_lineSegments (f : ℕ) (frame : StackFrame) :
    (∀ s ∈ lineSegments f frame, Inert refs s.text) ↔
      Inert refs frame.symbolName ∧ Inert refs frame.fileName := by
  have hnumber : Inert refs (ascii "#" ++ decimal f ++ ascii " ") := by
    apply Html.inert_of_plain
    simp only [List.all_append, plain_decimal, Bool.and_true]
    decide
  have hlocation : Inert refs (frame.fileName ++ ascii ":" ++ decimal frame.lineNumber.toNat) ↔
      Inert refs frame.fileName := by
    have hline : Inert refs (0x3A#8 :: decimal frame.lineNumber.toNat) := by
      apply Html.inert_of_plain
      rw [List.all_cons, plain_decimal]
      rfl
    rw [List.append_assoc]
    exact (Html.inert_append rfl rfl _).trans (and_iff_left hline)
  have hopen : Inert refs (ascii "\n      ") := Html.inert_of_plain (by decide)
  have hat : Inert refs (ascii " at ") := Html.inert_of_plain (by decide)
  have hclose : Inert refs [] := trivial
  unfold lineSegments locationSegments
  split
  next hempty =>
    simp only [List.forall_mem_append, List.forall_mem_cons, List.not_mem_nil, false_imp_iff,
      implies_true, hopen, hnumber, hempty, hclose, true_and, and_true]
  · simp only [List.forall_mem_append, List.forall_mem_cons, List.not_mem_nil, false_imp_iff,
      implies_true, hopen, hnumber, hat, hlocation, hclose, true_and, and_true]

theorem forall_mem_zipIdx {α : Type} (P : α → Prop) (xs : List α) :
    (∀ p ∈ xs.zipIdx, P p.1) ↔ ∀ x ∈ xs, P x := by
  conv_rhs => rw [← List.zipIdx_map_fst 0 xs]
  exact List.forall_mem_map.symm

/-- The texts of a record are inert, and where frames were captured one of them is
resolved. -/
structure ReadAsText (refs : References) (resolveFrame : Ptr → StackFrame) (tagText : Ptr → Text)
    (rec : AllocationRecord) : Prop where
  tag : Inert refs (tagOrGeneral tagText rec.tag)
  frames : ∀ frame ∈ resolvedFrames resolveFrame rec,
    Inert refs frame.symbolName ∧ Inert refs frame.fileName
  resolved : 0 < rec.frameCount → resolvedFrames resolveFrame rec ≠ []

theorem inert_stackView (rec : AllocationRecord) :
    (∀ s ∈ stackView resolveFrame rec, Inert refs s.text) ↔
      ∀ frame ∈ resolvedFrames resolveFrame rec,
        Inert refs frame.symbolName ∧ Inert refs frame.fileName := by
  unfold stackView
  split
  next hnone =>
    rw [hnone]
    exact iff_of_true (inert_of_template (by decide)) nofun
  · simp only [List.forall_mem_flatMap, inert_lineSegments]
    exact forall_mem_zipIdx (fun frame : StackFrame =>
      Inert refs frame.symbolName ∧ Inert refs frame.fileName) _

theorem inert_rowView (i : ℕ) (rec : AllocationRecord) :
    (∀ s ∈ rowView resolveFrame tagText i rec, Inert refs s.text) ↔
      Inert refs (tagOrGeneral tagText rec.tag) ∧ ∀ frame ∈ resolvedFrames resolveFrame rec,
        Inert refs frame.symbolName ∧ Inert refs frame.fileName := by
  have hend : ∀ s ∈ rowEnd, Inert refs s.text := inert_of_template (by decide)
  rw [rowView, List.forall_mem_append, List.forall_mem_append, inert_cellSegments,
    inert_stackView, and_iff_left hend]

/-! ## Rows -/

theorem stackSegments_eq {rec : AllocationRecord}
    (h : 0 < rec.frameCount → resolvedFrames resolveFrame rec ≠ []) :
    stackSegments resolveFrame rec = stackView resolveFrame rec := by
  unfold stackSegments stackView
  by_cases hcount : 0 < rec.frameCount
  · rw [if_pos hcount, if_neg (h hcount)]
  · rw [if_neg hcount, if_pos (show resolvedFrames resolveFrame rec = [] from resolve_eq_nil hcount)]

theorem tokens_row_iff (i : ℕ) (rec : AllocationRecord) (rest : Text) (ts : List Html.Token) :
    tokens refs (render (rowSegments resolveFrame tagText i rec) ++ rest) =
        intended (rowView resolveFrame tagText i rec) ++ ts ↔
      ReadAsText refs resolveFrame tagText rec ∧ tokens refs rest = ts := by
  by_cases hresolved : 0 < rec.frameCount → resolvedFrames resolveFrame rec ≠ []
  · rw [rowSegments, stackSegments_eq hresolved, ← rowView, Html.tokens_render_iff, inert_rowView]
    constructor
    · exact fun h => ⟨⟨h.1.1, h.1.2, hresolved⟩, h.2⟩
    · exact fun h => ⟨⟨h.1.tag, h.1.frames⟩, h.2⟩
  · refine iff_of_false (fun heq => ?_) (fun h => hresolved h.1.resolved)
    -- the source shows no note, and the cell ends where the note is meant to be
    obtain ⟨hcount, hnone⟩ := Classical.not_imp.mp hresolved
    rw [not_not] at hnone
    have hstack : stackSegments resolveFrame rec = [] := by
      rw [stackSegments, if_pos hcount, hnone]
      rfl
    have hview : stackView resolveFrame rec = noteSegments := if_pos hnone
    have hend : tokens refs (render rowEnd ++ rest) = intended rowEnd ++ tokens refs rest :=
      (Html.tokens_render_iff rowEnd rest _).mpr ⟨inert_of_template (by decide), rfl⟩
    rw [rowSegments, rowView, Html.render_append, Html.intended_append, List.append_assoc,
      List.append_assoc, Html.tokens_render_iff, hstack, hview, List.nil_append, hend,
      Html.intended_append] at heq
    simp [intended, rowEnd, noteSegments, ascii] at heq

theorem tokens_rows_iff (rows : List (AllocationRecord × ℕ)) (rest : Text)
    (ts : List Html.Token) :
    tokens refs (render (rows.flatMap fun p => rowSegments resolveFrame tagText p.2 p.1) ++ rest) =
        intended (rows.flatMap fun p => rowView resolveFrame tagText p.2 p.1) ++ ts ↔
      (∀ p ∈ rows, ReadAsText refs resolveFrame tagText p.1) ∧ tokens refs rest = ts := by
  induction rows with
  | nil => simp [render, intended]
  | cons p rows ih =>
    rw [List.flatMap_cons, List.flatMap_cons, Html.render_append, Html.intended_append,
      List.append_assoc, List.append_assoc, tokens_row_iff, ih, List.forall_mem_cons, and_assoc]

theorem tokens_table_iff (records : List AllocationRecord) (rest : Text) :
    tokens refs (leakTable resolveFrame tagText records ++ rest) =
        intended (tableView resolveFrame tagText records) ++ tokens refs rest ↔
      ∀ rec ∈ records, ReadAsText refs resolveFrame tagText rec := by
  have hhead : ∀ s ∈ headSegments, Inert refs s.text := inert_of_template (by decide)
  have hfoot : tokens refs (render footSegments ++ rest) =
      intended footSegments ++ tokens refs rest :=
    (Html.tokens_render_iff footSegments rest _).mpr ⟨inert_of_template (by decide), rfl⟩
  rw [leakTable_eq, tableSegments, tableView]
  simp only [Html.render_append, Html.intended_append, List.append_assoc]
  rw [Html.tokens_render_iff, tokens_rows_iff, hfoot, and_iff_right hhead, and_iff_left rfl]
  exact forall_mem_zipIdx (ReadAsText refs resolveFrame tagText) records

end Fields

/-! ## The elements of the table -/

/-- What the element structure may depend on: for every record its resolved frames, of each
whether its file name is empty. -/
def tableShape (resolveFrame : Ptr → StackFrame) (records : List AllocationRecord) :
    List (List Bool) :=
  records.map fun rec => (resolvedFrames resolveFrame rec).map fun frame => frame.fileName = []

def tagsOf (segments : List Html.Segment) : List Text := segments.map fun s => s.tag.source

def lineTags (fileEmpty : Bool) : List Text :=
  [openLine.source, openSymbol.source, closeSpan.source] ++
    (if fileEmpty then [] else [openLocation.source, closeSpan.source]) ++ [closeLine.source]

def rowTags (i : ℕ) (frames : List Bool) : List Text :=
  tagsOf (cellSegments (fun _ => []) i {}) ++
    ((if frames = [] then tagsOf noteSegments else frames.flatMap lineTags) ++ tagsOf rowEnd)

def tableTags (shape : List (List Bool)) : List Text :=
  tagsOf headSegments ++ ((shape.zipIdx.flatMap fun p => rowTags p.2 p.1) ++ tagsOf footSegments)

section Structure

variable (resolveFrame : Ptr → StackFrame) (tagText : Ptr → Text)

theorem tagsOf_append (a b : List Html.Segment) : tagsOf (a ++ b) = tagsOf a ++ tagsOf b :=
  List.map_append

theorem tagsOf_flatMap {α : Type} (f : α → List Html.Segment) (xs : List α) :
    tagsOf (xs.flatMap f) = xs.flatMap fun x => tagsOf (f x) :=
  List.map_flatMap

theorem tagsOf_lineSegments (f : ℕ) (frame : StackFrame) :
    tagsOf (lineSegments f frame) = lineTags (frame.fileName = []) := by
  unfold lineSegments locationSegments lineTags
  by_cases h : frame.fileName = [] <;> simp [tagsOf, h]

theorem tagsOf_rowView (i : ℕ) (rec : AllocationRecord) :
    tagsOf (rowView resolveFrame tagText i rec) =
      rowTags i ((resolvedFrames resolveFrame rec).map fun frame => frame.fileName = []) := by
  have hcells : tagsOf (cellSegments tagText i rec) =
      tagsOf (cellSegments (fun _ => []) i {}) := rfl
  have hlines : ∀ frames : List (StackFrame × ℕ),
      (frames.flatMap fun p => tagsOf (lineSegments p.2 p.1)) =
        (frames.map fun p => decide (p.1.fileName = [])).flatMap lineTags := by
    intro frames
    simp only [List.flatMap_map, tagsOf_lineSegments]
  have hfst : ((resolvedFrames resolveFrame rec).zipIdx.map fun p => decide (p.1.fileName = [])) =
      (resolvedFrames resolveFrame rec).map fun frame => decide (frame.fileName = []) := by
    conv_rhs => rw [← List.zipIdx_map_fst 0 (resolvedFrames resolveFrame rec), List.map_map]
    rfl
  rw [rowView, tagsOf_append, tagsOf_append, hcells, rowTags, stackView]
  by_cases hnone : resolvedFrames resolveFrame rec = []
  · rw [if_pos hnone, if_pos (by rw [hnone]; rfl)]
  · rw [if_neg hnone, if_neg (by rwa [List.map_eq_nil_iff]), tagsOf_flatMap, hlines, hfst]

/-- The elements are those of the shape. -/
theorem tagsOf_tableView (records : List AllocationRecord) :
    tagsOf (tableView resolveFrame tagText records) =
      tableTags (tableShape resolveFrame records) := by
  rw [tableView, tagsOf_append, tagsOf_append, tagsOf_flatMap, tableTags, tableShape,
    List.zipIdx_map, List.flatMap_map]
  simp only [tagsOf_rowView]
  rfl

end Structure

theorem markups_table {refs : References} {resolveFrame : Ptr → StackFrame} {tagText : Ptr → Text}
    {records : List AllocationRecord}
    (h : ∀ rec ∈ records, ReadAsText refs resolveFrame tagText rec) :
    markups (tokens refs (leakTable resolveFrame tagText records)) =
      tableTags (tableShape resolveFrame records) := by
  have htokens := (tokens_table_iff records []).mpr h
  rw [List.append_nil, Html.tokens_nil, List.append_nil] at htokens
  rw [htokens, Html.markups_intended, ← tagsOf_tableView resolveFrame tagText]
  rfl

/-- **The leak table is free of injections exactly on inert texts**: it is read as meant, with
every tag, symbol and file name as the text it is, if and only if these are inert and no
record has captured frames that are all null. Two such inputs of one shape have the same
elements. -/
theorem leak_table_read_as_text_iff (refs : References) (resolveFrame : Ptr → StackFrame)
    (tagText : Ptr → Text) (records : List AllocationRecord) :
    (∀ rest, tokens refs (leakTable resolveFrame tagText records ++ rest) =
        intended (tableView resolveFrame tagText records) ++ tokens refs rest ↔
      ∀ rec ∈ records, ReadAsText refs resolveFrame tagText rec) ∧
    ∀ (resolveFrame' : Ptr → StackFrame) (tagText' : Ptr → Text)
      (records' : List AllocationRecord),
      tableShape resolveFrame records = tableShape resolveFrame' records' →
      (∀ rec ∈ records, ReadAsText refs resolveFrame tagText rec) →
      (∀ rec ∈ records', ReadAsText refs resolveFrame' tagText' rec) →
      markups (tokens refs (leakTable resolveFrame tagText records)) =
        markups (tokens refs (leakTable resolveFrame' tagText' records')) := by
  refine ⟨tokens_table_iff records, ?_⟩
  intro resolveFrame' tagText' records' hshape h h'
  rw [markups_table h, markups_table h', hshape]

/-- The references that every HTML parser knows by these names. -/
def predefinedReferences : References :=
  References.ofNames [(ascii "amp;", ascii "&"), (ascii "lt;", ascii "<"), (ascii "gt;", ascii ">"),
    (ascii "quot;", ascii "\"")] (by decide)

def sampleRecord : AllocationRecord := { callstack := [0x401000#64], frameCount := 1 }

/-- Every address resolves to the one symbol. -/
def frameNamed (symbol : String) (a : Ptr) : StackFrame :=
  { address := a, symbolName := ascii symbol }

/-- The symbol of a template instance makes an element of its own in the table. A record
whose only frame is null lacks the note that a record without frames has. -/
theorem leak_table_injection :
    (tableShape (frameNamed "vector<int>::grow") [sampleRecord] =
        tableShape (frameNamed "grow") [sampleRecord] ∧
      markups (tokens predefinedReferences
          (leakTable (frameNamed "vector<int>::grow") (fun _ => ascii "net") [sampleRecord])) ≠
        markups (tokens predefinedReferences
          (leakTable (frameNamed "grow") (fun _ => ascii "net") [sampleRecord]))) ∧
    (tableShape (frameNamed "grow") [{ callstack := [0], frameCount := 1 }] =
        tableShape (frameNamed "grow") [{}] ∧
      markups (tokens predefinedReferences
          (leakTable (frameNamed "grow") (fun _ => ascii "net")
            [{ callstack := [0], frameCount := 1 }])) ≠
        markups (tokens predefinedReferences
          (leakTable (frameNamed "grow") (fun _ => ascii "net") [{}]))) := by
  decide +kernel

/-- A tag that needs no escapes in spite of its `<` and `&`. -/
theorem leak_table_read_as_text_sample :
    tokens predefinedReferences
        (leakTable (frameNamed "grow") (fun _ => ascii "a < b & c") [sampleRecord]) =
      intended (tableView (frameNamed "grow") (fun _ => ascii "a < b & c") [sampleRecord]) ∧
    markups (tokens predefinedReferences
        (leakTable (frameNamed "grow") (fun _ => ascii "a < b & c") [sampleRecord])) =
      markups (tokens predefinedReferences
        (leakTable (frameNamed "main") (fun _ => ascii "net") [sampleRecord])) := by
  have hframes : ∀ symbol : String, Inert predefinedReferences (ascii symbol) →
      ∀ frame ∈ resolvedFrames (frameNamed symbol) sampleRecord,
        Inert predefinedReferences frame.symbolName ∧
          Inert predefinedReferences frame.fileName := by
    intro symbol hsymbol frame hframe
    rw [List.mem_singleton.mp hframe]
    exact ⟨hsymbol, trivial⟩
  have hread : ∀ (symbol tag : String), Inert predefinedReferences (ascii symbol) →
      Inert predefinedReferences (ascii tag) → ∀ rec ∈ [sampleRecord],
        ReadAsText predefinedReferences (frameNamed symbol) (fun _ => ascii tag) rec := by
    intro symbol tag hsymbol htag rec hrec
    rw [List.mem_singleton.mp hrec]
    exact ⟨htag, hframes symbol hsymbol, fun _ => List.cons_ne_nil _ _⟩
  have hgrow := hread "grow" "a < b & c" (by decide) (by decide)
  have hmain := hread "main" "net" (by decide) (by decide)
  obtain ⟨hiff, htwo⟩ := leak_table_read_as_text_iff predefinedReferences (frameNamed "grow")
    (fun _ => ascii "a < b & c") [sampleRecord]
  have htokens := (hiff []).mpr hgrow
  rw [List.append_nil, Html.tokens_nil, List.append_nil] at htokens
  exact ⟨htokens, htwo (frameNamed "main") (fun _ => ascii "net") [sampleRecord] rfl hgrow hmain⟩

end MemSentry.Reporter
