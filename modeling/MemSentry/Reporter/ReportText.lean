import MemSentry.Library.Json
import MemSentry.Reporter.JsonReporter

/-!
# The report is JSON

The text of `serialize` belongs to the grammar, and its value is `reportValue`: objects
whose members are written line by line, and arrays of entries with commas between them.
-/

namespace MemSentry.Reporter

open Json (Value Element Elements Members Chars Blank)

/-! ## Strings -/

/-- The code units of a text. -/
def units (t : Text) : List ℕ := t.map BitVec.toNat

/-- The number of a control character, in four digits. -/
theorem chars_control {c : Byte} (hc : c.toNat < 0x20) {t : Text} {us : List ℕ}
    (h : Chars t us) :
    Chars (ascii "\\u" ++ (Numeral.write 16 c.toNat).leftpad 4 0x30#8 ++ t) (c.toNat :: us) := by
  have hall : ∀ n : Fin 32, (Numeral.write 16 n.val).leftpad 4 0x30#8 =
        [0x30#8, 0x30#8, Numeral.ofChar (Nat.digitChar (n.val / 16)),
          Numeral.ofChar (Nat.digitChar (n.val % 16))] ∧
      Numeral.read 16 [0x30#8, 0x30#8, Numeral.ofChar (Nat.digitChar (n.val / 16)),
        Numeral.ofChar (Nat.digitChar (n.val % 16))] = some n.val := by decide +kernel
  obtain ⟨hpad, hread⟩ := hall ⟨c.toNat, hc⟩
  simp only at hpad hread
  rw [hpad]
  exact .unicode hread h

/-- Every byte is written so that it is read back. -/
theorem chars_escapeByte (c : Byte) {t : Text} {us : List ℕ} (h : Chars t us) :
    Chars (escapeByte c ++ t) (c.toNat :: us) := by
  unfold escapeByte
  split
  · rename_i hquote
    subst hquote
    exact .short rfl h
  split
  · rename_i hbackslash
    subst hbackslash
    exact .short rfl h
  split
  · rename_i hc
    subst hc
    exact .short rfl h
  split
  · rename_i hc
    subst hc
    exact .short rfl h
  split
  · rename_i hc
    subst hc
    exact .short rfl h
  split
  · rename_i hc
    subst hc
    exact .short rfl h
  split
  · rename_i hc
    subst hc
    exact .short rfl h
  split
  · rename_i hcontrol
    exact chars_control hcontrol h
  · rename_i hquote hbackslash _ _ _ _ _ hcontrol
    exact .plain (Nat.le_of_not_lt hcontrol) hquote hbackslash h

theorem chars_jsonEscape (t : Text) : Chars (jsonEscape t) (units t) := by
  induction t with
  | nil => exact .nil
  | cons c t ih => exact chars_escapeByte c ih

/-- A text in quotes. -/
def quoted (t : Text) : Text := Json.quote :: (t ++ [Json.quote])

theorem element_jsonEscape (t : Text) : Element (quoted (jsonEscape t)) (.string (units t)) :=
  .string (chars_jsonEscape t)

theorem element_decimal (n : ℕ) : Element (decimal n) (.number (decimal n)) :=
  .number (Json.isNumber_write n)

/-- An address needs no escapes. -/
theorem element_address (n : ℕ) :
    Element (quoted (ascii "0x" ++ Numeral.write 16 n))
      (.string (units (ascii "0x" ++ Numeral.write 16 n))) := by
  have hdigit : ∀ d : Fin 16, Json.isPlain (Numeral.ofChar (Nat.digitChar d)) = true := by decide
  refine .string (Chars.of_plain fun c hc => ?_)
  rcases List.mem_append.mp hc with hmark | hdigits
  · have hplain : (ascii "0x").all Json.isPlain = true := by decide
    exact List.all_eq_true.mp hplain c hmark
  · obtain ⟨d, hd, rfl⟩ := Numeral.mem_write (by omega) hdigits
    exact hdigit ⟨d, hd⟩

/-! ## Objects, line by line -/

theorem blank_spaces (n : ℕ) : Blank (spaces n) := by
  intro c hc
  rw [List.eq_of_mem_replicate hc]
  rfl

theorem blank_newline (n : ℕ) : Blank (Json.newline :: spaces n) := by
  rintro c (_ | ⟨_, hc⟩)
  · rfl
  · exact blank_spaces n c hc

/-- A name that needs no escapes. -/
abbrev PlainName (name : String) : Prop := (ascii name).all Json.isPlain = true

/-- A member: its name, its text, and the value of the text. -/
structure Line where
  name : String
  plain : PlainName name
  text : Text
  value : Value
  element : Element text value

def Line.pair (line : Line) : List ℕ × Value := (units (ascii line.name), line.value)

/-- Each member on a line of its own. -/
def memberLines (indent : ℕ) : Line → List Line → Text
  | line, [] => Json.newline :: (memberName indent line.name ++ line.text)
  | line, line' :: lines =>
    Json.newline :: (memberName indent line.name ++ line.text) ++
      Json.comma :: memberLines indent line' lines

def objectText (indent : ℕ) (line : Line) (lines : List Line) : Text :=
  Json.openBrace :: (memberLines (indent + 2) line lines ++ (Json.newline :: spaces indent)) ++
    [Json.closeBrace]

theorem key_memberName (indent : ℕ) {name : String} (hname : PlainName name) :
    Json.Key (Json.newline :: (spaces indent ++ Json.quote :: (ascii name ++ [Json.quote, Json.colon])))
      (units (ascii name)) :=
  .intro (blank_newline indent) (Chars.of_plain (List.all_eq_true.mp hname)) fun _ hc => absurd hc List.not_mem_nil

theorem memberName_eq (indent : ℕ) (name : String) (t : Text) :
    Json.newline :: (memberName indent name ++ t) =
      Json.newline :: (spaces indent ++ Json.quote :: (ascii name ++ [Json.quote, Json.colon])) ++
        ([Json.blank] ++ t) := by
  have hmark : ascii "\": " = [Json.quote, Json.colon, Json.blank] := rfl
  have hquote : ascii "\"" = [Json.quote] := rfl
  simp [memberName, hmark, hquote]

theorem members_memberLines (indent : ℕ) (line : Line) (lines : List Line) :
    Members (memberLines indent line lines) ((line :: lines).map Line.pair) := by
  have hblank : Blank [Json.blank] := blank_spaces 1
  induction lines generalizing line with
  | nil =>
    rw [memberLines, memberName_eq]
    exact .last (key_memberName indent line.plain) (line.element.before hblank)
  | cons line' lines ih =>
    rw [memberLines, memberName_eq, List.append_assoc]
    exact .cons (key_memberName indent line.plain) (line.element.before hblank) (ih line')

theorem element_objectText (indent : ℕ) (line : Line) (lines : List Line) :
    Element (objectText indent line lines) (.object ((line :: lines).map Line.pair)) :=
  ((members_memberLines _ line lines).after (blank_newline indent)).element

/-! ## Arrays of entries -/

section Entries

variable {α : Type} {entry : ℕ → α → Text} {val : ℕ → α → Value} {xs : List α}

theorem elements_streamEntries {size i : ℕ} (hne : xs ≠ []) (hsize : i + xs.length = size)
    (h : ∀ i, ∀ x ∈ xs, Element (entry i x) (val i x)) :
    Elements (Json.newline :: streamEntries entry size i xs)
      ((xs.zipIdx i).map fun p => val p.2 p.1) := by
  have hblank : Blank [Json.newline] := blank_newline 0
  have hcomma : ascii "," = [Json.comma] := rfl
  have hnewline : ascii "\n" = [Json.newline] := rfl
  induction xs generalizing i with
  | nil => exact absurd rfl hne
  | cons x xs ih =>
    have hx := (h i x List.mem_cons_self).before hblank
    rw [List.length_cons] at hsize
    cases xs with
    | nil =>
      rw [streamEntries, if_neg (by simp at hsize; omega)]
      simpa [streamEntries, hnewline] using Elements.last (hx.after hblank)
    | cons y xs =>
      have hrest := @ih (i + 1) (List.cons_ne_nil _ _) (by omega)
        fun j z hz => h j z (List.mem_cons_of_mem _ hz)
      have hall := Elements.cons hx hrest
      rw [streamEntries, if_pos (by simp at hsize; omega)]
      simpa [hcomma, hnewline] using hall

/-- The entries in their brackets, with commas between them; without entries a blank array. -/
theorem element_streamEntries (indent : ℕ) (h : ∀ i, ∀ x ∈ xs, Element (entry i x) (val i x)) :
    Element (Json.openBracket :: ((Json.newline :: streamEntries entry xs.length 0 xs) ++
        spaces indent ++ [Json.closeBracket]))
      (.array (xs.zipIdx.map fun p => val p.2 p.1)) := by
  by_cases hne : xs = []
  · subst hne
    exact .emptyArray (blank_newline indent)
  · exact ((elements_streamEntries hne (Nat.zero_add _) h).after (blank_spaces indent)).element

end Entries

/-! ## The report -/

/-- The literals between the values. -/
theorem literals :
    ascii "\"" = [Json.quote] ∧ ascii "\n" = [Json.newline] ∧
      ascii ",\n" = [Json.comma, Json.newline] ∧
      ascii "\",\n" = [Json.quote, Json.comma, Json.newline] ∧
      ascii "\x7b\n" = [Json.openBrace, Json.newline] ∧ ascii "\x7d" = [Json.closeBrace] ∧
      ascii "\x7d,\n" = [Json.closeBrace, Json.comma, Json.newline] ∧
      ascii "\x7d\n" = [Json.closeBrace, Json.newline] ∧
      ascii "[\n" = [Json.openBracket, Json.newline] ∧
      ascii "]\n" = [Json.closeBracket, Json.newline] := by decide

def decimalLine (name : String) (plain : PlainName name) (n : ℕ) : Line :=
  ⟨name, plain, decimal n, .number (decimal n), element_decimal n⟩

def textLine (name : String) (plain : PlainName name) (t : Text) : Line :=
  ⟨name, plain, quoted (jsonEscape t), .string (units t), element_jsonEscape t⟩

def addressLine (name : String) (plain : PlainName name) (n : ℕ) : Line :=
  ⟨name, plain, quoted (ascii "0x" ++ Numeral.write 16 n),
    .string (units (ascii "0x" ++ Numeral.write 16 n)), element_address n⟩

def arrayLine {α : Type} (name : String) (plain : PlainName name) (indent : ℕ)
    (entry : ℕ → α → Text) (val : ℕ → α → Value) (h : ∀ i x, Element (entry i x) (val i x))
    (xs : List α) : Line :=
  ⟨name, plain, Json.openBracket :: ((Json.newline :: streamEntries entry xs.length 0 xs) ++
      spaces indent ++ [Json.closeBracket]),
    .array (xs.zipIdx.map fun p => val p.2 p.1), element_streamEntries indent fun i x _ => h i x⟩

def objectLine (name : String) (plain : PlainName name) (indent : ℕ) (line : Line)
    (lines : List Line) : Line :=
  ⟨name, plain, objectText indent line lines, .object ((line :: lines).map Line.pair),
    element_objectText indent line lines⟩

def frameLines (frame : StackFrame) : List Line :=
  [textLine "symbol" (by decide) frame.symbolName, textLine "file" (by decide) frame.fileName,
    decimalLine "line" (by decide) frame.lineNumber.toNat]

def frameValue (f : ℕ) (frame : StackFrame) : Value :=
  .object ((decimalLine "frame" (by decide) f :: frameLines frame).map Line.pair)

theorem serializeFrame_eq (f : ℕ) (frame : StackFrame) :
    serializeFrame f frame =
      spaces 8 ++ objectText 8 (decimalLine "frame" (by decide) f) (frameLines frame) := by
  unfold serializeFrame
  simp only [objectText, frameLines, memberLines, decimalLine, textLine, quoted,
    literals, memberName, List.append_assoc, List.cons_append, List.nil_append, Nat.reduceAdd]

theorem element_serializeFrame (f : ℕ) (frame : StackFrame) :
    Element (serializeFrame f frame) (frameValue f frame) := by
  rw [serializeFrame_eq]
  apply Element.before _ (blank_spaces 8)
  exact element_objectText 8 _ _

section Report

variable (resolveFrame : Ptr → StackFrame) (tagText : Ptr → Text)

/-- The frames of a record; without a stack there are none. -/
def framesIn (rec : AllocationRecord) : List StackFrame :=
  resolve resolveFrame rec.callstack rec.frameCount

theorem serializeFrames_eq (rec : AllocationRecord) :
    serializeFrames resolveFrame rec =
      streamEntries serializeFrame (framesIn resolveFrame rec).length 0
        (framesIn resolveFrame rec) := by
  unfold serializeFrames framesIn
  split
  · rfl
  · rename_i hcount
    have hzero : rec.frameCount.toNat = 0 := by
      have hlt : ¬0 < rec.frameCount.toNat := fun h => hcount (BitVec.lt_def.mpr h)
      omega
    rw [resolve, hzero, List.take_zero]
    rfl

def idLine (rec : AllocationRecord) : Line := decimalLine "id" (by decide) rec.allocationId.toNat

def recordLines (rec : AllocationRecord) : List Line :=
  [addressLine "address" (by decide) rec.userPtr.toNat,
    decimalLine "requested_size" (by decide) rec.requestedSize.toNat,
    decimalLine "total_size" (by decide) rec.totalSize.toNat,
    decimalLine "alignment" (by decide) rec.alignment.toNat,
    decimalLine "thread_id" (by decide) rec.threadId.toNat,
    textLine "tag" (by decide) (tagOrGeneral tagText rec.tag),
    arrayLine "stacktrace" (by decide) 6 serializeFrame frameValue element_serializeFrame
      (framesIn resolveFrame rec)]

def recordValue (rec : AllocationRecord) : Value :=
  .object ((idLine rec :: recordLines resolveFrame tagText rec).map Line.pair)

theorem serializeRecord_eq (rec : AllocationRecord) :
    serializeRecord resolveFrame tagText rec =
      spaces 4 ++ objectText 4 (idLine rec) (recordLines resolveFrame tagText rec) := by
  unfold serializeRecord
  simp only [serializeFrames_eq, objectText, idLine, recordLines, memberLines,
    decimalLine, textLine, addressLine, arrayLine, quoted, literals, memberName, List.append_assoc,
    List.cons_append, List.nil_append, Nat.reduceAdd]

theorem element_serializeRecord (rec : AllocationRecord) :
    Element (serializeRecord resolveFrame tagText rec) (recordValue resolveFrame tagText rec) := by
  rw [serializeRecord_eq]
  apply Element.before _ (blank_spaces 4)
  exact element_objectText 4 _ _

/-! ## The whole text -/

variable {ratioText : Word → Word → Text}
  (hratio : ∀ current peak, Json.isNumber (ratioText current peak) = true)
  (stats : MemoryStatsSnapshot) (records : List AllocationRecord)

/-- The lines of the summary after the first one. -/
def summaryLines : List Line :=
  [decimalLine "total_freed_bytes" (by decide) stats.totalFreedBytes.toNat,
    decimalLine "current_allocated_bytes" (by decide) stats.currentAllocatedBytes.toNat,
    decimalLine "peak_allocated_bytes" (by decide) stats.peakAllocatedBytes.toNat,
    ⟨"external_fragmentation_ratio", by decide,
      ratioText stats.currentAllocatedBytes stats.peakAllocatedBytes,
      .number (ratioText stats.currentAllocatedBytes stats.peakAllocatedBytes),
      .number (hratio _ _)⟩,
    decimalLine "total_allocations" (by decide) stats.totalAllocationCount.toNat,
    decimalLine "total_frees" (by decide) stats.totalFreeCount.toNat,
    decimalLine "leak_count" (by decide) records.length,
    decimalLine "leak_bytes" (by decide) (totalLeakBytes records).toNat]

def summaryLine : Line :=
  objectLine "summary" (by decide) 2
    (decimalLine "total_allocated_bytes" (by decide) stats.totalAllocatedBytes.toNat)
    (summaryLines hratio stats records)

def leaksLine : Line :=
  arrayLine "leaks" (by decide) 2 (fun _ => serializeRecord resolveFrame tagText)
    (fun _ => recordValue resolveFrame tagText)
    (fun _ => element_serializeRecord resolveFrame tagText) records

def reportValue : Value :=
  .object [(summaryLine hratio stats records).pair,
    (leaksLine resolveFrame tagText records).pair]

theorem serialize_eq :
    serialize resolveFrame tagText ratioText stats records =
      objectText 0 (summaryLine hratio stats records) [leaksLine resolveFrame tagText records] ++
        [Json.newline] := by
  unfold serialize serializeSummary
  simp only [objectText, summaryLine, summaryLines, leaksLine, memberLines, decimalLine, objectLine,
    arrayLine, literals, memberName, List.append_assoc, List.cons_append, List.nil_append,
    Nat.reduceAdd]
  rfl

/-- The report is JSON. -/
theorem element_serialize :
    Element (serialize resolveFrame tagText ratioText stats records)
      (reportValue resolveFrame tagText hratio stats records) := by
  rw [serialize_eq resolveFrame tagText hratio]
  apply Element.after _ (blank_newline 0)
  exact element_objectText 0 _ _

end Report

end MemSentry.Reporter
