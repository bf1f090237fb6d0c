import MemSentry.Reporter.ReportText

/-!
# Reading the report

A reader of JSON values that looks the members up by their names. Applied to what the
parser makes of the text of `serialize` it gives back what went in: the counters, the
number and the bytes of the leaks, and every leak with its frames (`serialize_round_trip`).
-/

namespace MemSentry.Reporter

open Json (Value)

structure ReportedFrame where
  frame : ℕ
  symbol : Text
  file : Text
  line : ℕ
  deriving DecidableEq

structure ReportedLeak where
  id : ℕ
  address : ℕ
  requestedSize : ℕ
  totalSize : ℕ
  alignment : ℕ
  threadId : ℕ
  tag : Text
  stacktrace : List ReportedFrame
  deriving DecidableEq

structure Report where
  totalAllocatedBytes : ℕ
  totalFreedBytes : ℕ
  currentAllocatedBytes : ℕ
  peakAllocatedBytes : ℕ
  totalAllocations : ℕ
  totalFrees : ℕ
  leakCount : ℕ
  leakBytes : ℕ
  leaks : List ReportedLeak
  deriving DecidableEq

/-! ## The reader -/

def field (name : String) : Value → Option Value
  | .object members => members.lookup (units (ascii name))
  | _ => none

def readNatural : Value → Option ℕ
  | .number token => Numeral.read 10 token
  | _ => none

/-- A string of bytes. -/
def readText : Value → Option Text
  | .string us => if us.all (fun u => u < 256) then some (us.map (BitVec.ofNat 8)) else none
  | _ => none

def readArray {α : Type} (read : Value → Option α) : Value → Option (List α)
  | .array items => items.mapM read
  | _ => none

/-- `0x` and hexadecimal digits. -/
def readAddress (v : Value) : Option ℕ :=
  (readText v).bind fun t => if t.take 2 = ascii "0x" then Numeral.read 16 (t.drop 2) else none

def readFrame (v : Value) : Option ReportedFrame := do
  return {
    frame := ← (field "frame" v).bind readNatural
    symbol := ← (field "symbol" v).bind readText
    file := ← (field "file" v).bind readText
    line := ← (field "line" v).bind readNatural }

def readLeak (v : Value) : Option ReportedLeak := do
  return {
    id := ← (field "id" v).bind readNatural
    address := ← (field "address" v).bind readAddress
    requestedSize := ← (field "requested_size" v).bind readNatural
    totalSize := ← (field "total_size" v).bind readNatural
    alignment := ← (field "alignment" v).bind readNatural
    threadId := ← (field "thread_id" v).bind readNatural
    tag := ← (field "tag" v).bind readText
    stacktrace := ← (field "stacktrace" v).bind (readArray readFrame) }

def readReport (v : Value) : Option Report := do
  let summary ← field "summary" v
  return {
    totalAllocatedBytes := ← (field "total_allocated_bytes" summary).bind readNatural
    totalFreedBytes := ← (field "total_freed_bytes" summary).bind readNatural
    currentAllocatedBytes := ← (field "current_allocated_bytes" summary).bind readNatural
    peakAllocatedBytes := ← (field "peak_allocated_bytes" summary).bind readNatural
    totalAllocations := ← (field "total_allocations" summary).bind readNatural
    totalFrees := ← (field "total_frees" summary).bind readNatural
    leakCount := ← (field "leak_count" summary).bind readNatural
    leakBytes := ← (field "leak_bytes" summary).bind readNatural
    leaks := ← (field "leaks" v).bind (readArray readLeak) }

/-! ## What is read -/

section Field

variable {name key : String} {plain : PlainName key} {text : Text} {value : Value}
  {element : Json.Element text value} (lines : List Line)

theorem units_inj {t u : Text} (h : units t = units u) : t = u :=
  List.map_injective_iff.mpr (fun _ _ => BitVec.eq_of_toNat_eq) h

/-- A member is found under its name. -/
theorem field_first (h : ascii key = ascii name) :
    field name (.object ((⟨key, plain, text, value, element⟩ :: lines : List Line).map Line.pair)) =
      some value := by
  simp [field, Line.pair, h]

theorem field_next (h : ascii key ≠ ascii name) :
    field name (.object ((⟨key, plain, text, value, element⟩ :: lines : List Line).map Line.pair)) =
      field name (.object (lines.map Line.pair)) := by
  have hne : (units (ascii name) == units (ascii key)) = false :=
    beq_eq_false_iff_ne.mpr fun heq => h (units_inj heq).symm
  simp [field, Line.pair, List.lookup_cons, hne]

end Field

theorem readNatural_decimal (n : ℕ) : readNatural (.number (decimal n)) = some n :=
  Numeral.read_write (by omega) (by omega) n

theorem readText_units (t : Text) : readText (.string (units t)) = some t := by
  have hall : (units t).all (fun u => u < 256) = true := by
    simp only [units, List.all_map, List.all_eq_true, Function.comp_apply, decide_eq_true_eq]
    exact fun c _ => c.isLt
  have hback : (units t).map (BitVec.ofNat 8) = t := by
    simp [units, Function.comp_def]
  rw [readText, hback]
  exact if_pos hall

theorem readAddress_units (n : ℕ) :
    readAddress (.string (units (ascii "0x" ++ Numeral.write 16 n))) = some n := by
  rw [readAddress, readText_units, Option.bind_some]
  exact Numeral.read_write (by omega) (by omega) n

theorem readArray_map {α β : Type} {read : Value → Option α} {val : β → Value} {f : β → α}
    (h : ∀ x, read (val x) = some (f x)) (xs : List β) :
    readArray read (.array (xs.map val)) = some (xs.map f) := by
  simp only [readArray, List.mapM_map, Function.comp_def, h]
  exact List.mapM_pure

/-! ## Round trip -/

/-- Frame `f` of a stack as it is reported. -/
def reportedFrame (f : ℕ) (frame : StackFrame) : ReportedFrame :=
  { frame := f, symbol := frame.symbolName, file := frame.fileName,
    line := frame.lineNumber.toNat }

theorem readFrame_frameValue (f : ℕ) (frame : StackFrame) :
    readFrame (frameValue f frame) = some (reportedFrame f frame) := by
  simp (disch := decide) only [readFrame, frameValue, frameLines, field_first, field_next,
    decimalLine, textLine, Option.bind_some, readNatural_decimal, readText_units]
  rfl

/-- The bytes of all records, modulo 2^64. -/
theorem totalLeakBytes_toNat (records : List AllocationRecord) :
    (totalLeakBytes records).toNat =
      (records.map fun rec => rec.requestedSize.toNat).sum % 2 ^ 64 := by
  have hfrom : ∀ start : Word,
      (records.foldl (fun sum rec => sum + rec.requestedSize) start).toNat =
        (start.toNat + (records.map fun rec => rec.requestedSize.toNat).sum) % 2 ^ 64 := by
    induction records with
    | nil =>
      intro start
      simp [Nat.mod_eq_of_lt start.isLt]
    | cons rec records ih =>
      intro start
      rw [List.foldl_cons, ih, BitVec.toNat_add, List.map_cons, List.sum_cons, Nat.mod_add_mod,
        Nat.add_assoc]
  have hzero : (0 : Word).toNat = 0 := rfl
  rw [totalLeakBytes, hfrom, hzero, Nat.zero_add]

section RoundTrip

variable (resolveFrame : Ptr → StackFrame) (tagText : Ptr → Text)

def reportedLeak (rec : AllocationRecord) : ReportedLeak :=
  { id := rec.allocationId.toNat, address := rec.userPtr.toNat,
    requestedSize := rec.requestedSize.toNat, totalSize := rec.totalSize.toNat,
    alignment := rec.alignment.toNat, threadId := rec.threadId.toNat,
    tag := if rec.tag = 0 then ascii "General" else tagText rec.tag,
    stacktrace := (resolve resolveFrame rec.callstack rec.frameCount).mapIdx reportedFrame }

/-- What went into the report. -/
def reportOf (stats : MemoryStatsSnapshot) (records : List AllocationRecord) : Report :=
  { totalAllocatedBytes := stats.totalAllocatedBytes.toNat
    totalFreedBytes := stats.totalFreedBytes.toNat
    currentAllocatedBytes := stats.currentAllocatedBytes.toNat
    peakAllocatedBytes := stats.peakAllocatedBytes.toNat
    totalAllocations := stats.totalAllocationCount.toNat
    totalFrees := stats.totalFreeCount.toNat
    leakCount := records.length
    leakBytes := (records.map fun rec => rec.requestedSize.toNat).sum % 2 ^ 64
    leaks := records.map (reportedLeak resolveFrame tagText) }

theorem readLeak_recordValue (rec : AllocationRecord) :
    readLeak (recordValue resolveFrame tagText rec) =
      some (reportedLeak resolveFrame tagText rec) := by
  have hframes : readArray readFrame (.array ((framesIn resolveFrame rec).zipIdx.map
      fun p => frameValue p.2 p.1)) =
        some ((framesIn resolveFrame rec).mapIdx reportedFrame) := by
    rw [List.mapIdx_eq_zipIdx_map]
    exact @readArray_map _ _ readFrame (fun p : StackFrame × ℕ => frameValue p.2 p.1) _
      (fun p => readFrame_frameValue p.2 p.1) _
  have htag : tagOrGeneral tagText rec.tag =
      if rec.tag = 0 then ascii "General" else tagText rec.tag := ite_not _ _ _
  simp (disch := decide) only [readLeak, recordValue, idLine, recordLines, field_first, field_next,
    decimalLine, textLine, addressLine, arrayLine, Option.bind_some, readNatural_decimal,
    readText_units, readAddress_units, hframes, htag]
  rfl

variable {ratioText : Word → Word → Text}
  (hratio : ∀ current peak, Json.isNumber (ratioText current peak) = true)
  (stats : MemoryStatsSnapshot) (records : List AllocationRecord)

theorem readReport_reportValue :
    readReport (reportValue resolveFrame tagText hratio stats records) =
      some (reportOf resolveFrame tagText stats records) := by
  have hleaks : readArray readLeak (.array (records.zipIdx.map
      fun p => recordValue resolveFrame tagText p.1)) =
        some (records.map (reportedLeak resolveFrame tagText)) := by
    have hfst : (records.zipIdx.map fun p => recordValue resolveFrame tagText p.1) =
        records.map (recordValue resolveFrame tagText) := by
      rw [← List.zipIdx_map_fst 0 records, List.map_map, List.zipIdx_map_fst]
      rfl
    rw [hfst]
    exact readArray_map (readLeak_recordValue resolveFrame tagText) records
  have hlines : reportValue resolveFrame tagText hratio stats records =
      .object ((summaryLine hratio stats records ::
        [leaksLine resolveFrame tagText records]).map Line.pair) := rfl
  rw [hlines]
  simp (disch := decide) only [readReport, summaryLine, summaryLines, leaksLine, field_first,
    field_next, decimalLine, arrayLine, objectLine, Option.bind_eq_bind, Option.bind_some,
    readNatural_decimal, totalLeakBytes_toNat, hleaks]
  rfl

include hratio in
/-- The report is JSON, and what a JSON reader finds in it is what was reported. -/
theorem serialize_round_trip :
    ∃ v, Json.Element (serialize resolveFrame tagText ratioText stats records) v ∧
      Json.parse (serialize resolveFrame tagText ratioText stats records) = some v ∧
      readReport v = some (reportOf resolveFrame tagText stats records) := by
  have htext := element_serialize resolveFrame tagText hratio stats records
  exact ⟨_, htext, Json.parse_eq htext, readReport_reportValue resolveFrame tagText hratio stats records⟩

end RoundTrip

/-! ## A sample -/

def sampleStats : MemoryStatsSnapshot :=
  { totalAllocatedBytes := 300, peakAllocatedBytes := 300, totalAllocationCount := 2 }

/-- A name with a quote and a line break in it, and no line number. -/
def sampleResolve (a : Ptr) : StackFrame :=
  { address := a, symbolName := ascii "f<\"x\\\n\x01>", fileName := ascii "f.cpp" }

/-- A record with two frames, one of them null, and one without a tag. -/
def sampleLeaks : List AllocationRecord :=
  [{ allocationId := 1, userPtr := 0xFF, requestedSize := 100, callstack := [7, 0, 9],
     frameCount := 3 },
    { allocationId := 2, requestedSize := 0xFFFFFFFFFFFFFFFF, tag := 0 }]

theorem serialize_round_trip_sample :
    ∃ v report, Json.parse (serialize sampleResolve (fun _ => ascii "net\tio") (fun _ _ => ascii "1e-05")
        sampleStats sampleLeaks) = some v ∧
      readReport v = some report ∧ report.leakBytes = 99 ∧ report.leakCount = 2 ∧
      report.leaks.map ReportedLeak.tag = [ascii "net\tio", ascii "General"] := by
  have hratio : ∀ _ _ : Word, Json.isNumber (ascii "1e-05") = true := fun _ _ => by decide
  obtain ⟨v, _, hparse, hread⟩ := serialize_round_trip sampleResolve (fun _ => ascii "net\tio")
    hratio sampleStats sampleLeaks
  exact ⟨v, _, hparse, hread, by decide +kernel, rfl, by decide +kernel⟩

end MemSentry.Reporter
