import MemSentry.Library.Numeral
import MemSentry.Stacktrace

/-!
# The JSON report

`json_escape` and `JsonReporter::serialize`, piece by piece as the source streams them into
its `ostringstream`. Numbers are streamed in decimal (classic locale). What stands behind a
tag pointer, what an address resolves to and the text of the fragmentation ratio, a
`double`, are parameters.
-/

namespace MemSentry.Reporter

/-- The `switch` of `json_escape`; `%04x` pads with zeros on the left. -/
def escapeByte (c : Byte) : Text :=
  if c = 0x22#8 then ascii "\\\""
  else if c = 0x5C#8 then ascii "\\\\"
  else if c = 0x08#8 then ascii "\\b"
  else if c = 0x0C#8 then ascii "\\f"
  else if c = 0x0A#8 then ascii "\\n"
  else if c = 0x0D#8 then ascii "\\r"
  else if c = 0x09#8 then ascii "\\t"
  else if c.toNat < 0x20 then ascii "\\u" ++ (Numeral.write 16 c.toNat).leftpad 4 0x30#8
  else [c]

def jsonEscape (input : Text) : Text := input.flatMap escapeByte

def decimal (n : ℕ) : Text := Numeral.write 10 n

def spaces (n : ℕ) : Text := List.replicate n 0x20#8

/-- The literal that opens a line: the indentation, the name in quotes, a colon, a blank. -/
def memberName (indent : ℕ) (name : String) : Text :=
  spaces indent ++ ascii "\"" ++ ascii name ++ ascii "\": "

/-- The loops over records and frames: `i + 1 < size ? "," : ""` behind every entry. -/
def streamEntries {α : Type} (entry : ℕ → α → Text) (size : ℕ) : ℕ → List α → Text
  | _, [] => []
  | i, x :: xs =>
    entry i x ++ (if i + 1 < size then ascii "," else []) ++ ascii "\n" ++
      streamEntries entry size (i + 1) xs

def serializeFrame (f : ℕ) (frame : StackFrame) : Text :=
  spaces 8 ++ ascii "\x7b\n" ++
    memberName 10 "frame" ++ decimal f ++ ascii ",\n" ++
    memberName 10 "symbol" ++ ascii "\"" ++ jsonEscape frame.symbolName ++ ascii "\",\n" ++
    memberName 10 "file" ++ ascii "\"" ++ jsonEscape frame.fileName ++ ascii "\",\n" ++
    memberName 10 "line" ++ decimal frame.lineNumber.toNat ++ ascii "\n" ++
    spaces 8 ++ ascii "\x7d"

section Serialize

variable (resolveFrame : Ptr → StackFrame) (tagText : Ptr → Text)

/-- `rec.tag ? rec.tag : "General"`. -/
def tagOrGeneral (tag : Ptr) : Text := if tag ≠ 0 then tagText tag else ascii "General"

def serializeFrames (rec : AllocationRecord) : Text :=
  if 0 < rec.frameCount then
    let frames := resolve resolveFrame rec.callstack rec.frameCount
    streamEntries serializeFrame frames.length 0 frames
  else []

def serializeRecord (rec : AllocationRecord) : Text :=
  spaces 4 ++ ascii "\x7b\n" ++
    memberName 6 "id" ++ decimal rec.allocationId.toNat ++ ascii ",\n" ++
    memberName 6 "address" ++ ascii "\"" ++
      (ascii "0x" ++ Numeral.write 16 rec.userPtr.toNat) ++ ascii "\",\n" ++
    memberName 6 "requested_size" ++ decimal rec.requestedSize.toNat ++ ascii ",\n" ++
    memberName 6 "total_size" ++ decimal rec.totalSize.toNat ++ ascii ",\n" ++
    memberName 6 "alignment" ++ decimal rec.alignment.toNat ++ ascii ",\n" ++
    memberName 6 "thread_id" ++ decimal rec.threadId.toNat ++ ascii ",\n" ++
    memberName 6 "tag" ++ ascii "\"" ++ jsonEscape (tagOrGeneral tagText rec.tag) ++
      ascii "\",\n" ++
    memberName 6 "stacktrace" ++ ascii "[\n" ++
    serializeFrames resolveFrame rec ++
    spaces 6 ++ ascii "]\n" ++
    spaces 4 ++ ascii "\x7d"

/-- `total_leak_bytes`. -/
def totalLeakBytes (records : List AllocationRecord) : Word :=
  records.foldl (fun sum rec => sum + rec.requestedSize) 0

variable (ratioText : Word → Word → Text)

def serializeSummary (stats : MemoryStatsSnapshot) (records : List AllocationRecord) : Text :=
  memberName 2 "summary" ++ ascii "\x7b\n" ++
    memberName 4 "total_allocated_bytes" ++ decimal stats.totalAllocatedBytes.toNat ++
      ascii ",\n" ++
    memberName 4 "total_freed_bytes" ++ decimal stats.totalFreedBytes.toNat ++ ascii ",\n" ++
    memberName 4 "current_allocated_bytes" ++ decimal stats.currentAllocatedBytes.toNat ++
      ascii ",\n" ++
    memberName 4 "peak_allocated_bytes" ++ decimal stats.peakAllocatedBytes.toNat ++
      ascii ",\n" ++
    memberName 4 "external_fragmentation_ratio" ++
      ratioText stats.currentAllocatedBytes stats.peakAllocatedBytes ++ ascii ",\n" ++
    memberName 4 "total_allocations" ++ decimal stats.totalAllocationCount.toNat ++
      ascii ",\n" ++
    memberName 4 "total_frees" ++ decimal stats.totalFreeCount.toNat ++ ascii ",\n" ++
    memberName 4 "leak_count" ++ decimal records.length ++ ascii ",\n" ++
    memberName 4 "leak_bytes" ++ decimal (totalLeakBytes records).toNat ++ ascii "\n" ++
    spaces 2 ++ ascii "\x7d,\n"

def serialize (stats : MemoryStatsSnapshot) (records : List AllocationRecord) : Text :=
  ascii "\x7b\n" ++
    serializeSummary ratioText stats records ++
    memberName 2 "leaks" ++ ascii "[\n" ++
    streamEntries (fun _ => serializeRecord resolveFrame tagText) records.length 0 records ++
    spaces 2 ++ ascii "]\n" ++
    ascii "\x7d\n"

end Serialize

end MemSentry.Reporter
