import MemSentry.Core.SnapshotScan
import MemSentry.Core.SuppressionEngine
import MemSentry.Reporter.JsonReporter

/-!
# The leaks that are reported

`has_unsuppressed_leaks`, `get_suppressed_count`, `dump_leaks`, `export_json` and
`export_html`. Each takes a snapshot of the tracker and asks the suppression engine about
every record in a loop of its own. The snapshot is an argument, since the order of the
records in it is unspecified; what the last three hand to the reporters is their value.
-/

namespace MemSentry

open MemSentry.Core SuppressionEngine

/-- The arguments of `JsonReporter::write_file` and `HtmlReporter::write_file`. -/
structure ReporterCall where
  stats : MemoryStatsSnapshot
  records : List AllocationRecord

/-- The arguments of `ConsoleReporter::print_summary` and `ConsoleReporter::print_leaks`. -/
structure ConsoleCall extends ReporterCall where
  leakCount : Word
  leakBytes : Word

section Consumers

variable (resolveFrame : Ptr → StackFrame) (tagText : Ptr → Text) (engine : SuppressionEngine)

def hasUnsuppressedLeaks : List AllocationRecord → Bool
  | [] => false
  | rec :: all =>
    if !engine.isSuppressed resolveFrame tagText rec then true else hasUnsuppressedLeaks all

def getSuppressedCount (all : List AllocationRecord) : Word :=
  all.foldl (fun count rec =>
    if engine.isSuppressed resolveFrame tagText rec then count + 1 else count) 0

/-- The loop that fills `unsuppressed`, the same in the three functions below. -/
def pushUnsuppressed (leaks : List AllocationRecord) : List AllocationRecord :=
  leaks.foldl (fun unsuppressed l =>
    if !engine.isSuppressed resolveFrame tagText l then unsuppressed ++ [l] else unsuppressed) []

def dumpLeaks (stats : MemoryStats) (leaks : List AllocationRecord) : ConsoleCall :=
  let unsuppressed := pushUnsuppressed resolveFrame tagText engine leaks
  { stats := stats
    records := unsuppressed
    leakCount := BitVec.ofNat 64 unsuppressed.length
    leakBytes := Reporter.totalLeakBytes unsuppressed }

def exportJson (stats : MemoryStats) (leaks : List AllocationRecord) : ReporterCall :=
  ⟨stats, pushUnsuppressed resolveFrame tagText engine leaks⟩

def exportHtml (stats : MemoryStats) (leaks : List AllocationRecord) : ReporterCall :=
  ⟨stats, pushUnsuppressed resolveFrame tagText engine leaks⟩

variable {resolveFrame tagText engine} {all : List AllocationRecord}

/-! ## The loops -/

theorem hasUnsuppressedLeaks_iff : hasUnsuppressedLeaks resolveFrame tagText engine all ↔
    ∃ rec ∈ all, engine.isSuppressed resolveFrame tagText rec = false := by
  induction all with
  | nil => simp [hasUnsuppressedLeaks]
  | cons rec all ih =>
    rw [hasUnsuppressedLeaks]
    cases hrec : engine.isSuppressed resolveFrame tagText rec <;> simp [hrec, ih]

theorem pushUnsuppressed_eq : pushUnsuppressed resolveFrame tagText engine all =
    all.filter fun rec => !engine.isSuppressed resolveFrame tagText rec := by
  have hloop : ∀ pushed : List AllocationRecord,
      all.foldl (fun unsuppressed l =>
        if !engine.isSuppressed resolveFrame tagText l then unsuppressed ++ [l]
        else unsuppressed) pushed =
      pushed ++ all.filter fun rec => !engine.isSuppressed resolveFrame tagText rec := by
    induction all with
    | nil => simp
    | cons rec all ih =>
      intro pushed
      rw [List.foldl_cons, ih, List.filter_cons]
      split <;> simp
  exact hloop []

theorem getSuppressedCount_eq : getSuppressedCount resolveFrame tagText engine all =
    BitVec.ofNat 64 (all.countP (engine.isSuppressed resolveFrame tagText)) := by
  have hloop : ∀ count : ℕ,
      all.foldl (fun count rec =>
        if engine.isSuppressed resolveFrame tagText rec then count + 1 else count)
        (BitVec.ofNat 64 count) =
      BitVec.ofNat 64 (count + all.countP (engine.isSuppressed resolveFrame tagText)) := by
    induction all with
    | nil => simp
    | cons rec all ih =>
      intro count
      rw [List.foldl_cons, List.countP_cons]
      split
      · have hnext : BitVec.ofNat 64 count + 1 = BitVec.ofNat 64 (count + 1) :=
          (BitVec.ofNat_add count 1).symm
        rw [hnext, ih, Nat.add_assoc, Nat.add_comm 1]
      · rw [ih, Nat.add_zero]
  rw [getSuppressedCount, ← Nat.zero_add (all.countP _)]
  exact hloop 0

end Consumers

/-! ## A snapshot of the tracker -/

section Snapshot

variable {resolveFrame : Ptr → StackFrame} {tagText : Ptr → Text} {engine : SuppressionEngine}
  {t : ShardedTracker} {all : List AllocationRecord}

theorem getSuppressedCount_toNat (hw : t.WellPlaced) (hall : t.SnapshotAll all) :
    (getSuppressedCount resolveFrame tagText engine all).toNat =
      t.records.countP fun rec => engine.isSuppressed resolveFrame tagText rec := by
  have hlt : t.records.countP (fun rec => engine.isSuppressed resolveFrame tagText rec) <
      2 ^ 64 := by
    calc _ ≤ t.records.card := Multiset.countP_le_card _ _
      _ = t.pointers.card := ShardedTracker.card_records hw
      _ < 2 ^ 64 := ShardedTracker.card_pointers_lt hw
  rw [← coe_of_snapshotAll hall] at hlt ⊢
  rw [Multiset.coe_countP] at hlt ⊢
  rw [getSuppressedCount_eq, BitVec.toNat_ofNat]
  simpa using Nat.mod_eq_of_lt hlt

theorem coe_pushUnsuppressed (hall : t.SnapshotAll all) :
    (pushUnsuppressed resolveFrame tagText engine all : Multiset AllocationRecord) =
      t.records.filter fun rec => ¬engine.isSuppressed resolveFrame tagText rec := by
  rw [pushUnsuppressed_eq, ← coe_of_snapshotAll hall, Multiset.filter_coe]
  simp

theorem hasUnsuppressedLeaks_iff_records (hall : t.SnapshotAll all) :
    hasUnsuppressedLeaks resolveFrame tagText engine all ↔
      t.records.filter (fun rec => ¬engine.isSuppressed resolveFrame tagText rec) ≠ 0 := by
  rw [hasUnsuppressedLeaks_iff, ← coe_of_snapshotAll hall, Ne, Multiset.filter_eq_nil]
  simp

theorem leakCount_toNat (hw : t.WellPlaced) (hall : t.SnapshotAll all) (stats : MemoryStats) :
    (dumpLeaks resolveFrame tagText engine stats all).leakCount.toNat =
      (dumpLeaks resolveFrame tagText engine stats all).records.length := by
  have hlt : (pushUnsuppressed resolveFrame tagText engine all).length < 2 ^ 64 := by
    calc _ ≤ all.length := by
          rw [pushUnsuppressed_eq]
          apply List.length_filter_le
      _ = t.records.card := by rw [← coe_of_snapshotAll hall, Multiset.coe_card]
      _ = t.pointers.card := ShardedTracker.card_records hw
      _ < 2 ^ 64 := ShardedTracker.card_pointers_lt hw
  exact (BitVec.toNat_ofNat _ _).trans (Nat.mod_eq_of_lt hlt)

/-- The suppressed records of one snapshot and the listed ones of another are the records
of the tracker. -/
theorem count_add_length {counted listed : List AllocationRecord} (hw : t.WellPlaced)
    (hcounted : t.SnapshotAll counted) (hlisted : t.SnapshotAll listed) :
    (getSuppressedCount resolveFrame tagText engine counted).toNat +
      (pushUnsuppressed resolveFrame tagText engine listed).length = t.records.card := by
  have hlength : (pushUnsuppressed resolveFrame tagText engine listed).length =
      t.records.countP fun rec => ¬engine.isSuppressed resolveFrame tagText rec := by
    rw [← Multiset.coe_card, coe_pushUnsuppressed hlisted, Multiset.countP_eq_card_filter]
  rw [getSuppressedCount_toNat hw hcounted, hlength]
  exact (Multiset.card_eq_countP_add_countP _ _).symm

end Snapshot

/-- **Suppression**: a record is suppressed exactly when a non-empty pattern added since the
last clear occurs in one of its texts, and more patterns, in any order, suppress no less.
Whatever order the snapshots have, every list handed to a reporter holds the records that
are not suppressed, the count is that of the others, and `has_unsuppressed_leaks` says
whether a list has an entry. -/
theorem suppression_partitions_leaks (resolveFrame : Ptr → StackFrame) (tagText : Ptr → Text)
    (history : List SuppressionCall) :
    (∀ rec, (afterCalls history).isSuppressed resolveFrame tagText rec ↔
      ∃ pattern, pattern ≠ [] ∧ AddedSinceClear history pattern ∧
        ∃ text, MatchSource resolveFrame tagText rec text ∧ pattern <:+: text) ∧
    (∀ patterns more : List Text, patterns ⊆ more → ∀ rec,
      (afterCalls (history ++ patterns.map .suppress)).isSuppressed resolveFrame tagText rec →
      (afterCalls (history ++ more.map .suppress)).isSuppressed resolveFrame tagText rec) ∧
    ∀ (calls : List ForeignCall) (stats : MemoryStats)
      (checked counted dumped json html : List AllocationRecord),
      (∀ all ∈ [checked, counted, dumped, json, html], (trackerAfter calls).SnapshotAll all) →
      let engine := afterCalls history
      let records := (trackerAfter calls).records
      ∀ listed ∈ [(dumpLeaks resolveFrame tagText engine stats dumped).records,
          (exportJson resolveFrame tagText engine stats json).records,
          (exportHtml resolveFrame tagText engine stats html).records],
        (listed : Multiset AllocationRecord) =
          records.filter (fun rec => ¬engine.isSuppressed resolveFrame tagText rec) ∧
        (getSuppressedCount resolveFrame tagText engine counted).toNat =
          records.countP (fun rec => engine.isSuppressed resolveFrame tagText rec) ∧
        (getSuppressedCount resolveFrame tagText engine counted).toNat + listed.length =
          records.card ∧
        (hasUnsuppressedLeaks resolveFrame tagText engine checked ↔ listed ≠ []) := by
  refine ⟨fun rec => isSuppressed_afterCalls, ?_, ?_⟩
  · intro patterns more hsub rec
    apply isSuppressed_mono (rules_afterCalls_subset hsub)
  · intro calls stats checked counted dumped json html hall engine records listed hlisted
    obtain ⟨hw, _⟩ := trackerAfter_wellPlaced_keyed calls
    obtain ⟨all, hsnapshot, rfl⟩ : ∃ all, (trackerAfter calls).SnapshotAll all ∧
        pushUnsuppressed resolveFrame tagText engine all = listed := by
      simp only [List.mem_cons, List.not_mem_nil, or_false] at hlisted
      rcases hlisted with rfl | rfl | rfl
      · exact ⟨dumped, hall _ (by simp), rfl⟩
      · exact ⟨json, hall _ (by simp), rfl⟩
      · exact ⟨html, hall _ (by simp), rfl⟩
    refine ⟨coe_pushUnsuppressed hsnapshot, ?_, ?_, ?_⟩
    · exact getSuppressedCount_toNat hw (hall _ (by simp))
    · exact count_add_length hw (hall _ (by simp)) hsnapshot
    · rw [hasUnsuppressedLeaks_iff_records (hall checked (by simp)),
        ← coe_pushUnsuppressed hsnapshot, Ne, Multiset.coe_eq_zero]

/-- Two records, the tag of the first suppressed. -/
theorem suppression_partitions_two_records :
    let tagText (tag : Ptr) := if tag = generalTag then ascii "General" else ascii "VendorSDK"
    let engine := afterCalls [.suppress (ascii "Vendor"), .suppress []]
    let vendor : AllocationRecord := { userPtr := 0x1050#64, tag := 0x402040#64 }
    let general : AllocationRecord := { userPtr := 0x1060#64 }
    engine.isSuppressed (fun _ => {}) tagText vendor ∧
    (exportJson (fun _ => {}) tagText engine {} [vendor, general]).records = [general] ∧
    (getSuppressedCount (fun _ => {}) tagText engine [vendor, general]).toNat + 1 =
      (trackerAfter [.insert vendor, .insert general]).records.card := by
  intro tagText engine vendor general
  have hall : (trackerAfter [.insert vendor, .insert general]).SnapshotAll [vendor, general] :=
    ⟨fun i => if i = getShardIndex 0x1050#64 then [vendor]
      else if i = getShardIndex 0x1060#64 then [general] else [],
      by decide +kernel, by decide +kernel⟩
  obtain ⟨hexact, _, hlists⟩ := suppression_partitions_leaks (fun _ => {}) tagText
    [.suppress (ascii "Vendor"), .suppress []]
  refine ⟨?_, by decide +kernel, ?_⟩
  · refine (hexact vendor).mpr ⟨ascii "Vendor", by decide, ⟨[], [.suppress []], rfl, by simp⟩, ?_⟩
    exact ⟨tagText vendor.tag, .tag (by decide), by decide +kernel⟩
  · let all := [vendor, general]
    have hsnapshots : ∀ s ∈ [all, all, all, all, all], s = all := by simp
    have hlist := hlists [.insert vendor, .insert general] {} all all all all all
      (fun s hs => hsnapshots s hs ▸ hall) [general] (by decide +kernel)
    exact hlist.2.2.1

end MemSentry
