import MemSentry.Library.Numeral
import MemSentry.Library.Separated
import MemSentry.Profiler.Flamegraph

/-!
# Folded stacks

`FlamegraphGenerator::generate_folded_stacks` writes one line for each record: the names on
its path with semicolons between them, a blank and the size. `readFolded` reads such a text
line by line. As long as no symbol contains a semicolon or a line break it finds the paths
and sizes of the records again (`readFolded_generate`), so the sizes summed up by path are
the self bytes of the tree.
-/

namespace MemSentry.Profiler

open WeightedPaths Separated

/-! ## The writer -/

section Writer

variable (resolveFrame : Ptr → StackFrame)

/-- The loop over the frames, outermost first; `first` is the local variable of that name. -/
def foldFrames (first : Bool) : List StackFrame → Text
  | [] => []
  | frame :: frames =>
    (if first then [] else ascii ";") ++ symbolOf frame ++ foldFrames false frames

/-- One round of the loop over the records. -/
def foldedLine (rec : AllocationRecord) : Text :=
  if rec.frameCount = 0 then
    ascii "[unknown] " ++ Numeral.write 10 rec.requestedSize.toNat ++ ascii "\n"
  else
    foldFrames true (resolve resolveFrame rec.callstack rec.frameCount).reverse ++
      ascii " " ++ Numeral.write 10 rec.requestedSize.toNat ++ ascii "\n"

def generateFoldedStacks (records : List AllocationRecord) : Text :=
  records.flatMap (foldedLine resolveFrame)

end Writer

/-! ## A reader -/

def semicolon : Byte := 0x3B#8
def newline : Byte := 0x0A#8
def blank : Byte := 0x20#8

/-- The names between the semicolons; the empty text is the empty path. -/
def readPath (t : Text) : List Text := if t.isEmpty then [] else t.splitOn semicolon

/-- A line: a path, a blank, the last one in the line, and a number. -/
def readLine (line : Text) : Option (List Text × Word) :=
  match line.reverse.span fun c => c != blank with
  | (_, []) => none
  | (digits, _ :: path) =>
    (Numeral.read 10 digits.reverse).map fun bytes =>
      (readPath path.reverse, BitVec.ofNat 64 bytes)

/-- All lines; every line ends with a line break. -/
def readFolded (t : Text) : Option (List (List Text × Word)) :=
  (t.splitOn newline).dropLast.mapM readLine

/-! ## Round trip -/

/-- No symbol contains a semicolon or a line break. -/
def CleanSymbols (resolveFrame : Ptr → StackFrame) : Prop :=
  ∀ a, semicolon ∉ (resolveFrame a).symbolName ∧ newline ∉ (resolveFrame a).symbolName

section RoundTrip

variable {resolveFrame : Ptr → StackFrame}

theorem foldFrames_false (frames : List StackFrame) :
    foldFrames false frames = (frames.map symbolOf).flatMap fun name => semicolon :: name := by
  induction frames with
  | nil => rfl
  | cons frame frames ih =>
    rw [foldFrames, ih]
    rfl

theorem foldFrames_true (frames : List StackFrame) :
    foldFrames true frames = [semicolon].intercalate (frames.map symbolOf) := by
  cases frames with
  | nil => rfl
  | cons frame frames =>
    rw [foldFrames, foldFrames_false, List.map_cons, intercalate_cons]
    rfl

/-- A line is the path, a blank, the size and a line break. -/
theorem foldedLine_eq (rec : AllocationRecord) :
    foldedLine resolveFrame rec =
      ([semicolon].intercalate (pathOf resolveFrame rec) ++
        blank :: Numeral.write 10 rec.requestedSize.toNat) ++ [newline] := by
  unfold foldedLine pathOf
  split
  · rw [List.intercalate_singleton]
    rfl
  · rw [foldFrames_true]
    simp [ascii, blank, newline]

/-- The names on a path are not empty and contain neither of the two. -/
theorem mem_pathOf (hclean : CleanSymbols resolveFrame) {rec : AllocationRecord} {name : Text}
    (hname : name ∈ pathOf resolveFrame rec) :
    name ≠ [] ∧ semicolon ∉ name ∧ newline ∉ name := by
  have hunknown : unknownName ≠ [] ∧ semicolon ∉ unknownName ∧ newline ∉ unknownName := by decide
  unfold pathOf at hname
  split at hname
  · rw [List.mem_singleton.mp hname]
    exact hunknown
  · obtain ⟨frame, hframe, rfl⟩ := List.mem_map.mp hname
    unfold symbolOf
    split
    · exact hunknown
    · rename_i hne
      rw [List.mem_reverse, resolve] at hframe
      obtain ⟨a, _, rfl⟩ := List.mem_map.mp hframe
      exact ⟨fun h => hne (by rw [h]; rfl), hclean a⟩

/-- The separators are no digits. -/
theorem not_mem_write (n : ℕ) : blank ∉ Numeral.write 10 n ∧ newline ∉ Numeral.write 10 n := by
  have hdigit : ∀ d : Fin 10, Numeral.ofChar (Nat.digitChar d) ≠ blank ∧
      Numeral.ofChar (Nat.digitChar d) ≠ newline := by decide
  constructor
  · intro hmem
    obtain ⟨d, hd, heq⟩ := Numeral.mem_write (by omega) hmem
    exact (hdigit ⟨d, hd⟩).1 heq.symm
  · intro hmem
    obtain ⟨d, hd, heq⟩ := Numeral.mem_write (by omega) hmem
    exact (hdigit ⟨d, hd⟩).2 heq.symm

/-- The names are found between the semicolons. -/
theorem readPath_intercalate {path : List Text} (hne : path ≠ [[]])
    (hclean : ∀ name ∈ path, semicolon ∉ name) :
    readPath ([semicolon].intercalate path) = path := by
  cases path with
  | nil => rfl
  | cons name path =>
    have htext : ([semicolon].intercalate (name :: path)).isEmpty = false := by
      rw [intercalate_cons]
      cases name with
      | cons c cs => rfl
      | nil =>
        cases path with
        | nil => exact absurd rfl hne
        | cons name path => rfl
    rw [readPath, htext]
    exact List.splitOn_intercalate semicolon hclean (List.cons_ne_nil _ _)

/-- The last blank of a line ends the path. -/
theorem readLine_eq (path : Text) (size : Word) :
    readLine (path ++ blank :: Numeral.write 10 size.toNat) = some (readPath path, size) := by
  have hspan : (path ++ blank :: Numeral.write 10 size.toNat).reverse.span (fun c => c != blank) =
      ((Numeral.write 10 size.toNat).reverse, blank :: path.reverse) := by
    have hdigits : ∀ c ∈ (Numeral.write 10 size.toNat).reverse, (c != blank) = true := by
      intro c hc
      rw [bne_iff_ne]
      rintro rfl
      exact (not_mem_write _).1 (List.mem_reverse.mp hc)
    rw [List.reverse_append, List.reverse_cons, List.append_assoc, List.singleton_append,
      List.span_eq_takeWhile_dropWhile, List.takeWhile_append_of_pos hdigits,
      List.dropWhile_append_of_pos hdigits]
    simp
  unfold readLine
  rw [hspan]
  simp only [List.reverse_reverse]
  rw [Numeral.read_write (by omega) (by omega), Option.map_some, BitVec.ofNat_toNat,
    BitVec.setWidth_eq]

theorem not_mem_line (hclean : CleanSymbols resolveFrame) (rec : AllocationRecord) :
    newline ∉ [semicolon].intercalate (pathOf resolveFrame rec) ++
      blank :: Numeral.write 10 rec.requestedSize.toNat := by
  intro hmem
  rcases List.mem_append.mp hmem with hpath | hrest
  · rcases mem_of_mem_intercalate hpath with hsep | ⟨name, hname, hin⟩
    · cases hsep
    · exact (mem_pathOf hclean hname).2.2 hin
  · rcases List.mem_cons.mp hrest with hblank | hdigits
    · cases hblank
    · exact (not_mem_write _).2 hdigits

/-- Reading the lines gives the paths and the sizes of the records, in order. -/
theorem readFolded_generate (hclean : CleanSymbols resolveFrame)
    (records : List AllocationRecord) :
    readFolded (generateFoldedStacks resolveFrame records) =
      some (records.map fun rec => (pathOf resolveFrame rec, rec.requestedSize)) := by
  have hlines : (generateFoldedStacks resolveFrame records).splitOn newline =
      (records.map fun rec => [semicolon].intercalate (pathOf resolveFrame rec) ++
        blank :: Numeral.write 10 rec.requestedSize.toNat) ++ [[]] := by
    induction records with
    | nil => rfl
    | cons rec records ih =>
      rw [generateFoldedStacks, List.flatMap_cons, foldedLine_eq, List.append_assoc,
        List.singleton_append, List.splitOn_append_cons_self_of_not_mem (not_mem_line hclean rec)]
      exact congrArg _ ih
  have hread : ∀ rec, readLine ([semicolon].intercalate (pathOf resolveFrame rec) ++
      blank :: Numeral.write 10 rec.requestedSize.toNat) =
        pure (pathOf resolveFrame rec, rec.requestedSize) := by
    intro rec
    rw [readLine_eq, readPath_intercalate (fun h => ?_) fun name h => (mem_pathOf hclean h).2.1]
    · rfl
    · exact (mem_pathOf hclean (h ▸ List.mem_singleton_self [])).1 rfl
  simp only [readFolded, hlines, List.dropLast_concat, List.mapM_map, Function.comp_def, hread,
    List.mapM_pure]
  rfl

/-! ## Two accounts of the same records -/

/-- The lines of a path, summed up. -/
def sizeOfLines (lines : List (List Text × Word)) (p : List Text) : Word :=
  ((lines.filter fun line => line.1 = p).map Prod.snd).sum

theorem fst_sum (ws : List (Word × Word)) : ws.sum.1 = (ws.map Prod.fst).sum := by
  induction ws with
  | nil => rfl
  | cons w ws ih =>
    rw [List.sum_cons, List.map_cons, List.sum_cons, Prod.fst_add, ih]

theorem sizeOfLines_records (records : List AllocationRecord) (p : List Text) :
    sizeOfLines (records.map fun rec => (pathOf resolveFrame rec, rec.requestedSize)) p =
      (endingAt resolveFrame records p).1 := by
  rw [sizeOfLines, endingAt, fst_sum, List.filter_map, List.map_map, List.map_map]
  rfl

/-- The sums do not depend on the order of the records. -/
theorem through_perm {records records' : List AllocationRecord} (h : records.Perm records')
    (p : List Text) : through resolveFrame records p = through resolveFrame records' p :=
  ((h.filter _).map _).sum_eq

theorem endingAt_perm {records records' : List AllocationRecord} (h : records.Perm records')
    (p : List Text) : endingAt resolveFrame records p = endingAt resolveFrame records' p :=
  ((h.filter _).map _).sum_eq

/-- The tree has a node for every prefix of a record's path and no other. Each node accounts
for the records that go through its path and for those that end there, and the folded
stacks, read back and summed up by path, are the self bytes of the nodes. -/
theorem flamegraph_agrees (hclean : CleanSymbols resolveFrame) (records : List AllocationRecord) :
    (∀ p n, (buildTree resolveFrame records).At p n →
      n.names.Nodup ∧ n.total = n.self + (n.children.map FlameNode.total).sum ∧
        n.total = through resolveFrame records p ∧ n.self = endingAt resolveFrame records p ∧
        ∀ n', (buildTree resolveFrame records).At p n' → n' = n) ∧
    (∀ p, (∃ n, (buildTree resolveFrame records).At p n) ↔
      p = [] ∨ ∃ rec ∈ records, p <+: pathOf resolveFrame rec) ∧
    (∃ lines, readFolded (generateFoldedStacks resolveFrame records) = some lines ∧
      (∀ line ∈ lines, ∃ n, (buildTree resolveFrame records).At line.1 n) ∧
      ∀ p n, (buildTree resolveFrame records).At p n → n.selfBytes = sizeOfLines lines p) ∧
    ∀ records', records.Perm records' → ∀ p n, (buildTree resolveFrame records).At p n →
      ∃ n', (buildTree resolveFrame records').At p n' ∧ n'.total = n.total ∧ n'.self = n.self := by
  have htree := represents_buildTree resolveFrame records
  refine ⟨fun p n hat => ?_, fun p => exists_at_iff,
    ⟨_, readFolded_generate hclean records, fun line hline => ?_, fun p n hat => ?_⟩,
    fun records' hperm p n hat => ?_⟩
  · have hbelow := htree.at_path hat
    exact ⟨hbelow.distinct_names, hbelow.total_eq, total_at hat, self_at hat,
      fun n' hat' => htree.at_unique hat' hat⟩
  · obtain ⟨rec, hrec, rfl⟩ := List.mem_map.mp hline
    exact exists_at_iff.mpr (Or.inr ⟨rec, hrec, List.prefix_refl _⟩)
  · rw [sizeOfLines_records, ← self_at hat]
    rfl
  · have hmem : p = [] ∨ ∃ rec ∈ records', p <+: pathOf resolveFrame rec := by
      refine (exists_at_iff.mp ⟨n, hat⟩).imp_right ?_
      rintro ⟨rec, hrec, hprefix⟩
      exact ⟨rec, hperm.mem_iff.mp hrec, hprefix⟩
    obtain ⟨n', hat'⟩ := exists_at_iff.mpr hmem
    refine ⟨n', hat', ?_, ?_⟩
    · rw [total_at hat', total_at hat, through_perm hperm]
    · rw [self_at hat', self_at hat, endingAt_perm hperm]

/-- Two functions and an address without a symbol. -/
def sampleFrame (a : Ptr) : StackFrame :=
  { address := a
    symbolName := if a = 1 then ascii "main" else if a = 2 then ascii "grow" else [] }

/-- Two nested stacks, an unnamed frame, a record without frames and one with null frames. -/
def sampleRecords : List AllocationRecord :=
  [{ requestedSize := 24, callstack := [2, 1], frameCount := 2 },
    { requestedSize := 8, callstack := [7, 1], frameCount := 2 },
    { requestedSize := 16 }, { requestedSize := 5, callstack := [0, 0], frameCount := 2 },
    { requestedSize := 1, callstack := [2, 0, 1], frameCount := 3 }]

theorem cleanSymbols_sampleFrame : CleanSymbols sampleFrame := by
  intro a
  simp only [sampleFrame]
  split
  · decide
  · split
    · decide
    · decide

theorem flamegraph_agrees_sample :
    generateFoldedStacks sampleFrame sampleRecords =
        ascii "main;grow 24\nmain;[unknown] 8\n[unknown] 16\n 5\nmain;grow 1\n" ∧
      (∃ n, (buildTree sampleFrame sampleRecords).At [ascii "main", ascii "grow"] n ∧
        n.selfBytes = 25) ∧
      ∃ lines, readFolded (generateFoldedStacks sampleFrame sampleRecords) = some lines ∧
        ∀ p n, (buildTree sampleFrame sampleRecords).At p n →
          n.selfBytes = sizeOfLines lines p := by
  obtain ⟨hnodes, hpaths, ⟨lines, hread, _, hself⟩, _⟩ :=
    flamegraph_agrees cleanSymbols_sampleFrame sampleRecords
  refine ⟨by decide +kernel, ?_, lines, hread, hself⟩
  obtain ⟨n, hat⟩ := (hpaths [ascii "main", ascii "grow"]).mpr (Or.inr (by decide +kernel))
  obtain ⟨_, _, _, hending, _⟩ := hnodes _ n hat
  refine ⟨n, hat, ?_⟩
  calc n.selfBytes = (endingAt sampleFrame sampleRecords [ascii "main", ascii "grow"]).1 :=
        congrArg Prod.fst hending
    _ = 25 := by decide +kernel

end RoundTrip

end MemSentry.Profiler
