import MemSentry.Library.Html
import MemSentry.Reporter.JsonReporter

/-!
# The leak table of the HTML report

The table of `HtmlReporter::generate`, from its tag on, as the source streams it. What
stands before and behind the table is not modelled. Tags, symbols and file names are
streamed as they are, where `serialize` and the flamegraph escape theirs.
-/

namespace MemSentry.Reporter

open Html (Tag Segment)

def leakTableHead : Text :=
  ascii "<table id=\"leaksTable\">\n" ++
    ascii "    <thead><tr><th>ID</th><th>Address</th><th>Size</th><th>Align</th><th>Tag</th>" ++
    ascii "<th>Thread</th><th>Frames</th></tr></thead>\n" ++
    ascii "    <tbody>\n"

def stackLine (f : ℕ) (frame : StackFrame) : Text :=
  ascii "      <div class=\"stack-line\">#" ++ decimal f ++
    ascii " <span class=\"stack-sym\">" ++ frame.symbolName ++ ascii "</span>" ++
    (if frame.fileName = [] then []
    else
      ascii " at <span class=\"stack-loc\">" ++ frame.fileName ++ ascii ":" ++
        decimal frame.lineNumber.toNat ++ ascii "</span>") ++
    ascii "</div>\n"

section LeakTable

variable (resolveFrame : Ptr → StackFrame) (tagText : Ptr → Text)

def resolvedFrames (rec : AllocationRecord) : List StackFrame :=
  resolve resolveFrame rec.callstack rec.frameCount

def leakStack (rec : AllocationRecord) : Text :=
  if 0 < rec.frameCount then
    (resolvedFrames resolveFrame rec).zipIdx.flatMap fun p => stackLine p.2 p.1
  else ascii "      <div>(No stack frames captured)</div>\n"

/-- A row and the start of the row that holds its stack. -/
def leakCells (i : ℕ) (rec : AllocationRecord) : Text :=
  ascii "    <tr onclick=\"toggleTrace(" ++ decimal i ++ ascii ")\">\n" ++
    ascii "      <td>#" ++ decimal rec.allocationId.toNat ++ ascii "</td>\n" ++
    ascii "      <td><code>0x" ++ Numeral.write 16 rec.userPtr.toNat ++
      ascii "</code></td>\n" ++
    ascii "      <td><strong>" ++ decimal rec.requestedSize.toNat ++
      ascii " B</strong></td>\n" ++
    ascii "      <td>" ++ decimal rec.alignment.toNat ++ ascii " B</td>\n" ++
    ascii "      <td><span class=\"tag-pill\">" ++ tagOrGeneral tagText rec.tag ++
      ascii "</span></td>\n" ++
    ascii "      <td>" ++ decimal rec.threadId.toNat ++ ascii "</td>\n" ++
    ascii "      <td>" ++ decimal rec.frameCount.toNat ++
      ascii " frames (click to expand)</td>\n" ++
    ascii "    </tr>\n" ++
    ascii "    <tr id=\"trace-" ++ decimal i ++
      ascii "\" class=\"stacktrace\"><td colspan=\"7\">\n"

def leakRow (i : ℕ) (rec : AllocationRecord) : Text :=
  leakCells tagText i rec ++ leakStack resolveFrame rec ++ ascii "    </td></tr>\n"

def leakTable (records : List AllocationRecord) : Text :=
  leakTableHead ++
    (records.zipIdx.flatMap fun p => leakRow resolveFrame tagText p.2 p.1) ++
    ascii "    </tbody>\n  </table>"

end LeakTable

/-! ## The table as fields and tags

A line ends behind its last tag, so its newline belongs to the field in front of the next
line. -/

def numberTag (start : Text) (hstart : Html.opensValue start = true) (n : ℕ) (last : Text)
    (hlast : Html.scanTag .doubleQuoted last = some (last, [])) : Tag where
  source := start ++ (decimal n ++ last)
  isTag := by
    apply Html.isTag_of_value hstart _ hlast
    intro hmem
    obtain ⟨d, hd, hc⟩ := Numeral.mem_write (by omega) hmem
    have hall : ∀ d : Fin 10, Html.doubleQuote ≠ Numeral.ofChar (Nat.digitChar d) := by decide
    exact hall ⟨d, hd⟩ hc

def rowTag (i : ℕ) : Tag :=
  numberTag (ascii "tr onclick=\"toggleTrace(") (by decide) i (ascii ")\">") (by decide)

def traceTag (i : ℕ) : Tag :=
  numberTag (ascii "tr id=\"trace-") (by decide) i (ascii "\" class=\"stacktrace\">") (by decide)

def openHeading : Tag := { source := ascii "th>" }
def closeHeading : Tag := { source := ascii "/th>" }
def openCell : Tag := { source := ascii "td>" }
def closeCell : Tag := { source := ascii "/td>" }
def openCode : Tag := { source := ascii "code>" }
def closeCode : Tag := { source := ascii "/code>" }
def openStrong : Tag := { source := ascii "strong>" }
def closeStrong : Tag := { source := ascii "/strong>" }
def openPill : Tag := { source := ascii "span class=\"tag-pill\">" }
def openSymbol : Tag := { source := ascii "span class=\"stack-sym\">" }
def openLocation : Tag := { source := ascii "span class=\"stack-loc\">" }
def closeSpan : Tag := { source := ascii "/span>" }
def openRow : Tag := { source := ascii "tr>" }
def closeRow : Tag := { source := ascii "/tr>" }
def openLine : Tag := { source := ascii "div class=\"stack-line\">" }
def openNote : Tag := { source := ascii "div>" }
def closeLine : Tag := { source := ascii "/div>" }

def headSegments : List Segment :=
  [⟨[], { source := ascii "table id=\"leaksTable\">" }⟩,
    ⟨ascii "\n    ", { source := ascii "thead>" }⟩, ⟨[], openRow⟩] ++
  (["ID", "Address", "Size", "Align", "Tag", "Thread", "Frames"].flatMap fun name =>
    [⟨[], openHeading⟩, ⟨ascii name, closeHeading⟩]) ++
  [⟨[], closeRow⟩, ⟨[], { source := ascii "/thead>" }⟩,
    ⟨ascii "\n    ", { source := ascii "tbody>" }⟩]

def footSegments : List Segment :=
  [⟨ascii "\n    ", { source := ascii "/tbody>" }⟩, ⟨ascii "\n  ", { source := ascii "/table>" }⟩]

def locationSegments (frame : StackFrame) : List Segment :=
  if frame.fileName = [] then []
  else
    [⟨ascii " at ", openLocation⟩,
      ⟨frame.fileName ++ ascii ":" ++ decimal frame.lineNumber.toNat, closeSpan⟩]

def lineSegments (f : ℕ) (frame : StackFrame) : List Segment :=
  [⟨ascii "\n      ", openLine⟩, ⟨ascii "#" ++ decimal f ++ ascii " ", openSymbol⟩,
    ⟨frame.symbolName, closeSpan⟩] ++
  locationSegments frame ++ [⟨[], closeLine⟩]

def noteSegments : List Segment :=
  [⟨ascii "\n      ", openNote⟩, ⟨ascii "(No stack frames captured)", closeLine⟩]

section Segments

variable (resolveFrame : Ptr → StackFrame) (tagText : Ptr → Text)

/-- The stack of a record as the source writes it. -/
def stackSegments (rec : AllocationRecord) : List Segment :=
  if 0 < rec.frameCount then
    (resolvedFrames resolveFrame rec).zipIdx.flatMap fun p => lineSegments p.2 p.1
  else noteSegments

/-- The stack of a record as it is meant to be shown: a line for every resolved frame, the
note where there is none. -/
def stackView (rec : AllocationRecord) : List Segment :=
  if resolvedFrames resolveFrame rec = [] then noteSegments
  else (resolvedFrames resolveFrame rec).zipIdx.flatMap fun p => lineSegments p.2 p.1

/-- The cells in front of the tag. -/
def leadingSegments (i : ℕ) (rec : AllocationRecord) : List Segment :=
  [⟨ascii "\n    ", rowTag i⟩,
    ⟨ascii "\n      ", openCell⟩, ⟨ascii "#" ++ decimal rec.allocationId.toNat, closeCell⟩,
    ⟨ascii "\n      ", openCell⟩, ⟨[], openCode⟩,
    ⟨ascii "0x" ++ Numeral.write 16 rec.userPtr.toNat, closeCode⟩, ⟨[], closeCell⟩,
    ⟨ascii "\n      ", openCell⟩, ⟨[], openStrong⟩,
    ⟨decimal rec.requestedSize.toNat ++ ascii " B", closeStrong⟩, ⟨[], closeCell⟩,
    ⟨ascii "\n      ", openCell⟩, ⟨decimal rec.alignment.toNat ++ ascii " B", closeCell⟩,
    ⟨ascii "\n      ", openCell⟩, ⟨[], openPill⟩]

/-- The cells behind the tag, and the start of the row that holds the stack. -/
def trailingSegments (i : ℕ) (rec : AllocationRecord) : List Segment :=
  [⟨[], closeCell⟩,
    ⟨ascii "\n      ", openCell⟩, ⟨decimal rec.threadId.toNat, closeCell⟩,
    ⟨ascii "\n      ", openCell⟩,
    ⟨decimal rec.frameCount.toNat ++ ascii " frames (click to expand)", closeCell⟩,
    ⟨ascii "\n    ", closeRow⟩,
    ⟨ascii "\n    ", traceTag i⟩, ⟨[], { source := ascii "td colspan=\"7\">" }⟩]

def cellSegments (i : ℕ) (rec : AllocationRecord) : List Segment :=
  leadingSegments i rec ++ ⟨tagOrGeneral tagText rec.tag, closeSpan⟩ :: trailingSegments i rec

def rowEnd : List Segment := [⟨ascii "\n    ", closeCell⟩, ⟨[], closeRow⟩]

def rowSegments (i : ℕ) (rec : AllocationRecord) : List Segment :=
  cellSegments tagText i rec ++ (stackSegments resolveFrame rec ++ rowEnd)

/-- The row with its stack as it is meant to be shown. -/
def rowView (i : ℕ) (rec : AllocationRecord) : List Segment :=
  cellSegments tagText i rec ++ (stackView resolveFrame rec ++ rowEnd)

def tableSegments (records : List AllocationRecord) : List Segment :=
  headSegments ++
    ((records.zipIdx.flatMap fun p => rowSegments resolveFrame tagText p.2 p.1) ++ footSegments)

/-- The table as it is meant to be read, with the texts themselves in their places. -/
def tableView (records : List AllocationRecord) : List Segment :=
  headSegments ++
    ((records.zipIdx.flatMap fun p => rowView resolveFrame tagText p.2 p.1) ++ footSegments)

end Segments

/-! ## The source writes these segments -/

theorem render_lineSegments (f : ℕ) (frame : StackFrame) :
    Html.newline :: stackLine f frame = Html.render (lineSegments f frame) ++ [Html.newline] := by
  unfold stackLine lineSegments locationSegments
  split
  · simp only [Html.render, List.flatMap_cons, List.flatMap_nil, List.append_assoc,
      List.cons_append, List.nil_append, List.append_nil]
    rfl
  · simp only [Html.render, List.flatMap_cons, List.flatMap_nil, List.append_assoc,
      List.cons_append, List.nil_append, List.append_nil]
    rfl

/-- Entries that each end in a newline, the newlines moved to the front. -/
theorem render_entries {α : Type} {entry : α → Text} {segments : α → List Segment}
    (h : ∀ x, Html.newline :: entry x = Html.render (segments x) ++ [Html.newline])
    (xs : List α) :
    Html.newline :: xs.flatMap entry = Html.render (xs.flatMap segments) ++ [Html.newline] := by
  induction xs with
  | nil => rfl
  | cons x xs ih =>
    rw [List.flatMap_cons, List.flatMap_cons, Html.render_append, List.append_assoc, ← ih,
      ← List.cons_append, h, List.append_assoc, List.singleton_append]

section Render

variable {resolveFrame : Ptr → StackFrame} {tagText : Ptr → Text}

theorem render_stackSegments (rec : AllocationRecord) :
    Html.newline :: leakStack resolveFrame rec =
      Html.render (stackSegments resolveFrame rec) ++ [Html.newline] := by
  unfold leakStack stackSegments
  split
  · apply render_entries
    intro p
    apply render_lineSegments
  · decide +kernel

set_option maxRecDepth 4000 in
theorem render_cellSegments (i : ℕ) (rec : AllocationRecord) :
    Html.newline :: leakCells tagText i rec =
      Html.render (cellSegments tagText i rec) ++ [Html.newline] := by
  unfold leakCells cellSegments leadingSegments trailingSegments
  simp [Html.render, ascii, Html.newline, Html.lessThan, rowTag, traceTag, numberTag, openCell,
    closeCell, openCode, closeCode, openStrong, closeStrong, openPill, closeSpan, closeRow]

theorem render_rowSegments (i : ℕ) (rec : AllocationRecord) :
    Html.newline :: leakRow resolveFrame tagText i rec =
      Html.render (rowSegments resolveFrame tagText i rec) ++ [Html.newline] := by
  have hend : Html.newline :: ascii "    </td></tr>\n" = Html.render rowEnd ++ [Html.newline] := by
    decide +kernel
  calc Html.newline :: leakRow resolveFrame tagText i rec
      = (Html.newline :: leakCells tagText i rec) ++
          (leakStack resolveFrame rec ++ ascii "    </td></tr>\n") := by simp [leakRow]
    _ = Html.render (cellSegments tagText i rec) ++
          ((Html.newline :: leakStack resolveFrame rec) ++ ascii "    </td></tr>\n") := by
        rw [render_cellSegments]
        simp
    _ = Html.render (cellSegments tagText i rec) ++
          (Html.render (stackSegments resolveFrame rec) ++
            (Html.newline :: ascii "    </td></tr>\n")) := by
        rw [render_stackSegments]
        simp
    _ = Html.render (rowSegments resolveFrame tagText i rec) ++ [Html.newline] := by
        rw [hend, rowSegments]
        simp

theorem leakTable_eq (records : List AllocationRecord) :
    leakTable resolveFrame tagText records =
      Html.render (tableSegments resolveFrame tagText records) := by
  have hrows := render_entries (fun p : AllocationRecord × ℕ =>
    @render_rowSegments resolveFrame tagText p.2 p.1) records.zipIdx
  have hhead : leakTableHead = Html.render headSegments ++ [Html.newline] := by decide +kernel
  have hfoot : Html.newline :: ascii "    </tbody>\n  </table>" = Html.render footSegments := by
    decide +kernel
  rw [leakTable, tableSegments, Html.render_append, Html.render_append, hhead, ← hfoot,
    List.append_assoc, List.append_assoc, List.singleton_append, ← List.cons_append, hrows,
    List.append_assoc, List.singleton_append]

end Render

end MemSentry.Reporter
