import MemSentry.Concurrent.Steps
import MemSentry.Manager.ComputedRuns
import MemSentry.Manager.LeakReports
import MemSentry.Manager.LostBlocks
import MemSentry.Manager.OneConfiguration
import MemSentry.Manager.Reconfiguration
import MemSentry.Reporter.ReportReader

/-!
# Full tracking

One configuration that samples nothing out, and clients that ask for blocks only while the
manager is up and no guard is active. Then the tracker says exactly what the clients hold
(`holdings_exact`): each held pointer has its record, each live block of the system belongs
to one of them, and nobody is ever alarmed.

So the reports are true. What a JSON reader finds in the file that `export_json` writes are
the held pointers that are not suppressed, with the sizes that the clients asked for
(`report_lists_holdings`).
-/

namespace MemSentry

open ByteMemory MemSentry.Core Function World Transition

/-- Blocks are asked for while the manager is up, and no call is made under a guard. -/
def Watched (config : Config) (w : World) : Call → Prop
  | .init config' => config' = config
  | .trackAlloc tid _ _ _ _ => w.guardActive tid = false ∧ w.initialized = true
  | .trackFree tid _ => w.guardActive tid = false
  | .trackRealloc tid _ _ _ => w.guardActive tid = false ∧ w.initialized = true
  | _ => True

instance (config : Config) (w : World) (c : Call) : Decidable (Watched config w c) :=
  match c with
  | .init config' => inferInstanceAs (Decidable (config' = config))
  | .trackAlloc .. | .trackRealloc .. => inferInstanceAs (Decidable (_ = false ∧ _ = true))
  | .trackFree .. => inferInstanceAs (Decidable (_ = false))
  | .shutdown | .enterGuard _ | .exitGuard _ | .setCurrentTag .. | .store _ => isTrue trivial

theorem Watched.initializes {config : Config} {w : World} {c : Call} (h : Watched config w c) :
    Initializes config c := by
  cases c with
  | init config' => exact h
  | _ => trivial

/-- The records are filed properly, and every held pointer has one. -/
structure AllTracked (t : ShardedTracker) (ls : Ptr → Option Lease) : Prop where
  wellPlaced : t.WellPlaced
  keyed : t.Keyed
  held : ∀ p l, ls p = some l → ∃ r, t.find p = some r

section Tables

variable {t : ShardedTracker} {ls : Ptr → Option Lease} {p : Ptr} {l : Lease}

theorem AllTracked.add (h : AllTracked t ls) (r : AllocationRecord) (hp : r.userPtr ≠ 0) :
    AllTracked (t.insert r.userPtr r) (update ls r.userPtr (some l)) where
  wellPlaced := h.wellPlaced.insert _ _
  keyed := h.keyed.insert r
  held := by
    intro q k hq
    by_cases hqp : q = r.userPtr
    · subst q
      exact ⟨r, ShardedTracker.find_insert_self hp⟩
    · rw [update_of_ne hqp] at hq
      rw [ShardedTracker.find_insert_of_ne hqp]
      exact h.held q k hq

theorem AllTracked.remove (h : AllTracked t ls) (p : Ptr) :
    AllTracked (t.afterErase p) (update ls p none) where
  wellPlaced := h.wellPlaced.afterErase p
  keyed := h.keyed.afterErase p
  held := by
    intro q k hq
    obtain ⟨hqp, hq⟩ := update_none_eq_some hq
    rw [ShardedTracker.find_afterErase, if_neg hqp]
    exact h.held q k hq

end Tables

/-! ## What the operations keep -/

namespace World

variable {w : World} {o : Oracle} {tid : ThreadId} {size alignment tag n : Word} {p : Ptr}
  {ls : Ptr → Option Lease} {l : Lease}

theorem allocate_allTracked (h : AllTracked w.tracker ls) (htracks : w.Tracks o tid size)
    (hdefined : (w.allocate o tid size alignment tag).1.fault = false) :
    AllTracked (w.allocate o tid size alignment tag).1.tracker
      (if (w.allocate o tid size alignment tag).2 = 0 then ls
        else update ls (w.allocate o tid size alignment tag).2 (some l)) := by
  cases (allocate_effect w o tid size alignment tag).2 with
  | failed hp hwhy hblocks hfault hlog =>
    rw [if_pos hp, hblocks.tracker]
    exact h
  | faulted hp hfit hfault htracker hmem hcalls hlog =>
    rw [hdefined] at hfault
    cases hfault
  | raw hp hne hnot hheap htracker hmem hcalls hlog hfault => exact absurd htracks hnot
  | tracked allocId tag' _ hraw hfit hp hheap htracker hcalls hmem hlog hfault =>
    by_cases hq : (w.allocate o tid size alignment tag).2 = 0
    · rw [if_pos hq, htracker, hq, ShardedTracker.insert_null]
      exact h
    · rw [if_neg hq, htracker]
      exact h.add (w.recordOf o tid allocId size alignment tag' _) hq

theorem deallocate_allTracked (h : AllTracked w.tracker ls) (hguard : w.guardActive tid = false)
    (hp : p ≠ 0) : AllTracked (w.deallocate tid p).tracker (update ls p none) := by
  rw [(deallocate_effect w tid p hguard hp).2.1.2]
  exact h.remove p

theorem reallocate_allTracked {r : AllocationRecord} (h : w.OwnedBy ls)
    (hall : AllTracked w.tracker ls) (hn : n ≠ 0) (htracks : w.Tracks o tid n)
    (hfind : w.tracker.find p = some r)
    (hfresh : ∀ a ∈ (w.reallocate o tid p n).1.log, a.Fresh w.heap) (hbefore : w.fault = false)
    (hdefined : (w.reallocate o tid p n).1.fault = false) :
    AllTracked (w.reallocate o tid p n).1.tracker
      (if (w.reallocate o tid p n).2 = 0 then ls
        else update (update ls p none) (w.reallocate o tid p n).2 (some ⟨o.malloc, n⟩)) := by
  obtain ⟨hguard, hinit, hgate⟩ := htracks
  have hp := ShardedTracker.ne_zero_of_find hfind
  have hinner : ∀ a ∈ (w.reallocated o tid p r n).1.log, a.Fresh w.heap :=
    fun a ha => hfresh a (reallocated_log hn hguard hinit hfind a ha)
  have hallocated : (w.reallocated o tid p r n).1.fault = false →
      AllTracked (w.reallocated o tid p r n).1.tracker
        (if (w.reallocated o tid p r n).2 = 0 then ls
          else update ls (w.reallocated o tid p r n).2 (some ⟨o.malloc, n⟩)) := by
    obtain ⟨as, hcheck, _⟩ := checkOldBlock_log { w with calls := .find p :: w.calls } p r
    unfold reallocated
    rw [hcheck]
    exact fun hdefined' => allocate_allTracked (w := { w with
      calls := .find p :: w.calls, log := w.log ++ as }) hall ⟨hguard, hinit, hgate⟩ hdefined'
  rw [reallocate_of_find hn hguard hinit hfind] at hdefined ⊢
  by_cases hq : (w.reallocated o tid p r n).2 = 0
  · rw [if_pos hq] at hdefined ⊢
    have hkept := hallocated hdefined
    rw [if_pos hq] at hkept
    rw [if_pos rfl]
    exact hkept
  · rw [if_neg hq]
    rw [if_neg hq]
    have hspec := recopied_spec h hfind hinner hq
    obtain ⟨_, _, hfault, _⟩ := (reallocated_owned h hinner).got hq
    have hkept := hallocated (hfault.trans hbefore)
    rw [if_neg hq] at hkept
    have hcopied : AllTracked (w.recopied o tid p r n).tracker
        (update ls (w.reallocated o tid p r n).2 (some ⟨o.malloc, n⟩)) := hkept
    have hreleased := deallocate_allTracked hcopied
      ((hspec.control.guardActive tid).trans hguard) hp
    rwa [update_comm hspec.ne.symm] at hreleased

end World

/-! ## Steps -/

/-- The state under full tracking. -/
structure InView (config : Config) (w : World) : Prop where
  order : InOrder w
  intact : HoldsOfAll intactBlock w.tracker w.mem
  underConfig : UnderConfig config w
  allTracked : AllTracked w.tracker w.leases
  accounted : Accounted (fun _ => False) w.heap w.leases

/-- The step alarms nobody. -/
def Quiet (log : List Action) : Prop := ∀ p kind, .alert p kind ∉ log

section Steps

variable {config : Config} {w w' : World} {o : Oracle} {tid : ThreadId} {n : Word} {p : Ptr}
  {mayWrite : World → Memory → Prop}

theorem quiet_of_logsRequests (h : LogsRequests w.clearLog w') : Quiet w'.log := by
  obtain ⟨as, hlog, has⟩ := h
  intro p kind hmem
  rw [hlog] at hmem
  rcases has _ hmem with ⟨_, _, ha⟩ | ⟨_, _, ha⟩ <;> cases ha

/-- The footer in force is the one that the block was laid out with. -/
theorem InView.lengths (h : InView config w) {r : AllocationRecord}
    (hfind : w.tracker.find p = some r) : checkedLength w r = laidOutLength w.mem r := by
  obtain ⟨hconfig, hlaid⟩ := h.underConfig.records p r hfind
  unfold checkedLength laidOutLength
  rw [hconfig, hlaid.footerSize]

theorem InView.held (h : InView config w) (hheld : Held w p) :
    p = 0 ∨ ∃ r, w.tracker.find p = some r := by
  rcases hheld with hp | ⟨l, hl⟩
  · exact Or.inl hp
  · exact Or.inr (h.allTracked.held p l hl)

theorem InView.tracks (h : InView config w) (hexhaustive : config.Exhaustive)
    (hguard : w.guardActive tid = false) (hinit : w.initialized = true) (size : Word) :
    w.clearLog.Tracks o tid size := by
  refine ⟨hguard, hinit, gate_of_exhaustive ?_ size⟩
  rw [← h.underConfig.config hinit] at hexhaustive
  exact hexhaustive

theorem not_misread_of_find {r : AllocationRecord} (hfind : w.tracker.find p = some r) :
    NotMisread w p := by
  intro hstatus
  rw [ShardedTracker.erase_of_find hfind] at hstatus
  cases hstatus

/-- With full tracking no release is misled. -/
theorem InView.releaseSound (h : InView config w) {c : Call} (hperm : Permitted mayWrite w c)
    (hwatched : Watched config w c) : ReleaseSound w c := by
  cases c with
  | trackFree tid p =>
    refine ⟨(h.held hperm.disciplined).imp_right ?_, fun r hfind => Nat.le_of_eq (h.lengths hfind)⟩
    rintro ⟨r, hfind⟩
    rw [if_neg (ne_true_of_eq_false hwatched)]
    exact not_misread_of_find hfind
  | trackRealloc tid o p n =>
    refine ⟨(h.held hperm.disciplined).imp_right ?_, fun r hfind => Nat.le_of_eq (h.lengths hfind)⟩
    rintro ⟨r, hfind⟩
    rw [if_neg (not_or_intro (ne_true_of_eq_false hwatched.1) (by rw [hwatched.2]; decide))]
    exact fun _ => not_misread_of_find hfind
  | _ => exact ⟨trivial, trivial⟩

theorem InView.quiet (h : InView config w) {c : Call} (hperm : Permitted mayWrite w c)
    (hwatched : Watched config w c) : Quiet (w.step c).log := by
  have hintact : ∀ q r, w.tracker.find q = some r → HeaderIntact w.mem r.rawPtr q r.requestedSize
      (hasCanaryOf w.mem r.rawPtr) := fun q r hfind => (h.intact q r hfind).1
  cases c with
  | trackAlloc tid o size alignment tag =>
    unfold World.step
    dsimp only
    rw [log_lease, trackAlloc_eq]
    exact quiet_of_logsRequests allocate_log
  | trackFree tid p =>
    rcases h.held hperm.disciplined with rfl | ⟨r, hfind⟩
    · exact fun _ _ hmem => absurd hmem List.not_mem_nil
    · have hdecided := free_decided h.order hwatched hfind (hintact p r hfind) (h.lengths hfind)
      exact (hdecided.1 (h.intact p r hfind).2).quiet
  | trackRealloc tid o p n =>
    rcases h.held hperm.disciplined with rfl | ⟨r, hfind⟩
    · unfold World.step
      dsimp only
      rw [log_moveLease, @trackRealloc_of_open w.clearLog o tid 0 n hwatched.1 hwatched.2,
        reallocate_null]
      exact quiet_of_logsRequests allocate_log
    · have hdecided := realloc_decided h.order hwatched.1 hwatched.2 hfind (hintact p r hfind)
        (h.lengths hfind) o n hperm.fresh
      exact (hdecided.1 (h.intact p r hfind).2).quiet
  | _ => exact fun _ _ hmem => absurd hmem List.not_mem_nil

theorem tracker_moveLease (w : World) (p q : Ptr) (n : Word) (l : Lease) :
    (w.moveLease p q n l).tracker = w.tracker := by
  obtain ⟨ls, hls⟩ := moveLease_eq w p q n l
  rw [hls]

theorem InView.allTracked_trackAlloc (h : InView config w) (hexhaustive : config.Exhaustive)
    {size alignment tag : Word} (hwatched : Watched config w (.trackAlloc tid o size alignment tag))
    (hdefined : (w.step (.trackAlloc tid o size alignment tag)).fault = false) :
    AllTracked (w.step (.trackAlloc tid o size alignment tag)).tracker
      (w.step (.trackAlloc tid o size alignment tag)).leases := by
  have htracks := h.tracks hexhaustive (o := o) hwatched.1 hwatched.2 size
  have hleases := (allocate_effect w.clearLog o tid size alignment tag).1.leases
  obtain ⟨ls, hls⟩ := lease_eq (w.clearLog.allocate o tid size alignment tag).1
    (w.clearLog.allocate o tid size alignment tag).2 ⟨o.malloc, size⟩
  unfold World.step at hdefined ⊢
  dsimp only at hdefined ⊢
  rw [trackAlloc_eq] at hdefined ⊢
  rw [hls] at hdefined
  have hkept := allocate_allTracked (l := ⟨o.malloc, size⟩) (w := w.clearLog) h.allTracked htracks
    hdefined
  by_cases hq : (w.clearLog.allocate o tid size alignment tag).2 = 0
  · rw [if_pos hq] at hkept
    rw [hq, lease_null, hleases]
    exact hkept
  · rw [if_neg hq] at hkept
    rw [lease_of_ne hq]
    dsimp only
    rw [hleases]
    exact hkept

theorem InView.allTracked_trackFree (h : InView config w)
    (hwatched : Watched config w (.trackFree tid p)) :
    AllTracked (w.step (.trackFree tid p)).tracker (w.step (.trackFree tid p)).leases := by
  by_cases hp : p = 0
  · subst hp
    have hsame : (w.step (.trackFree tid 0)).leases = w.leases := leases_zero h.order
    rw [hsame]
    exact h.allTracked
  · rw [step_trackFree hp hwatched,
      (deallocate_effect (w.clearLog.unlease p) tid p hwatched hp).1.leases]
    exact deallocate_allTracked (w := w.clearLog.unlease p) h.allTracked hwatched hp

theorem InView.allTracked_trackRealloc (h : InView config w) (hexhaustive : config.Exhaustive)
    (hperm : Permitted mayWrite w (.trackRealloc tid o p n))
    (hwatched : Watched config w (.trackRealloc tid o p n))
    (hdefined : (w.step (.trackRealloc tid o p n)).fault = false) :
    AllTracked (w.step (.trackRealloc tid o p n)).tracker
      (w.step (.trackRealloc tid o p n)).leases := by
  have htracks := h.tracks hexhaustive (o := o) hwatched.1 hwatched.2 n
  have hfresh := hperm.fresh
  unfold World.step at hfresh hdefined ⊢
  dsimp only at hfresh hdefined ⊢
  rw [log_moveLease] at hfresh
  rw [fault_moveLease] at hdefined
  rw [tracker_moveLease]
  rw [@trackRealloc_of_open w.clearLog o tid p n hwatched.1 hwatched.2] at hfresh hdefined ⊢
  rcases h.held hperm.disciplined with rfl | ⟨r, hfind⟩
  · rw [reallocate_null] at hdefined ⊢
    exact leases_moveLease_null h.order (allocate_effect w.clearLog o tid n _ 0).1.leases
      (allocate_allTracked (w := w.clearLog) h.allTracked htracks hdefined)
  have hp := ShardedTracker.ne_zero_of_find hfind
  by_cases hn : n = 0
  · subst hn
    have hreleased := deallocate_allTracked (w := w.clearLog) h.allTracked hwatched.1 hp
    rw [reallocate_zero hp]
    exact leases_moveLease (deallocate_effect w.clearLog tid p hwatched.1 hp).1.leases
      (fun _ hne => absurd rfl hne) (fun _ _ => hreleased) fun hne => absurd rfl hne
  · have hleases := (@reallocate_tracked_control w.clearLog o tid n p r hn hwatched.1 hwatched.2
      hfind).leases
    exact leases_moveLease_resized hn hleases (reallocate_allTracked (w := w.clearLog) h.order
      h.allTracked hn htracks hfind hfresh hperm.defined hdefined)

theorem InView.step (h : InView config w) (hexhaustive : config.Exhaustive) {c : Call}
    (hperm : Permitted PayloadWrites w c) (hwatched : Watched config w c)
    (hdefined : (w.step c).fault = false) : InView config (w.step c) := by
  have hsound := h.releaseSound hperm hwatched
  have hquiet := h.quiet hperm hwatched
  obtain ⟨horder, hintact⟩ := (contentsOk_step h.order h.intact hperm hsound fun mem =>
    payloadWrites_keep w mem h.order h.intact).of_defined hdefined
  refine ⟨horder, hintact, h.underConfig.step hwatched.initializes, ?_, ?_⟩
  · cases c with
    | trackAlloc tid o size alignment tag =>
      exact h.allTracked_trackAlloc hexhaustive hwatched hdefined
    | trackFree tid p => exact h.allTracked_trackFree hwatched
    | trackRealloc tid o p n => exact h.allTracked_trackRealloc hexhaustive hperm hwatched hdefined
    | _ => exact h.allTracked
  · exact step_accounted h.order h.intact h.accounted hperm hsound
      (fun b halarm => hquiet b .doubleFree halarm) hdefined

end Steps

/-! ## Runs -/

section Runs

variable {config : Config} {mem : Memory} {cs : List Call} {w : World}

theorem inView_start (config : Config) (mem : Memory) : InView config (World.start mem) where
  order := owned_start
  intact := fun p r hfind => by
    rw [show (World.start mem).tracker = ShardedTracker.empty from rfl,
      ShardedTracker.find_empty] at hfind
    cases hfind
  underConfig := underConfig_start config mem
  allTracked := ⟨ShardedTracker.wellPlaced_empty, ShardedTracker.keyed_empty, fun p l hl => by cases hl⟩
  accounted := fun b n hb => by cases hb

/-- What holds after every step of a watched run whose behaviour is defined so far. -/
theorem watched_run (hexhaustive : config.Exhaustive)
    (hrun : Run (managerSystem PayloadWrites (Watched config)) (World.start mem) cs w) :
    (w.fault = false → InView config w) ∧
      Quiet (outputs World.step (fun w c => (w.step c).log) (World.start mem) cs) := by
  have hstart : ((World.start mem).fault = false → InView config (World.start mem)) ∧ Quiet [] :=
    ⟨fun _ => inView_start config mem, fun _ _ hmem => absurd hmem List.not_mem_nil⟩
  refine hrun.invariant_outputs
    (I := fun log w => (w.fault = false → InView config w) ∧ Quiet log) ?_ hstart
  rintro log w c ⟨hview, hlog⟩ ⟨hperm, hwatched⟩
  have hbefore := hview hperm.defined
  refine ⟨fun hdefined => hbefore.step hexhaustive hperm hwatched hdefined, fun p kind hmem => ?_⟩
  rcases List.mem_append.mp hmem with hold | hnew
  · exact hlog p kind hold
  · exact hbefore.quiet hperm hwatched p kind hnew

/-- The tracker in terms of what the clients hold. -/
theorem InView.find_iff (h : InView config w) {p : Ptr} {l : Lease} :
    w.leases p = some l ↔
      ∃ r, w.tracker.find p = some r ∧ l = ⟨r.rawPtr, r.requestedSize⟩ := by
  constructor
  · intro hl
    obtain ⟨r, hfind⟩ := h.allTracked.held p l hl
    have hlease := (h.order.tracked p r hfind).2
    rw [hl] at hlease
    exact ⟨r, hfind, Option.some.inj hlease⟩
  · rintro ⟨r, hfind, rfl⟩
    exact (h.order.tracked p r hfind).2

/-- The system's blocks in terms of the tracker. -/
theorem InView.heap_iff (h : InView config w) {b : Ptr} {n : Nat} :
    w.heap b = some n ↔
      ∃ p r, w.tracker.find p = some r ∧ r.rawPtr = b ∧ r.totalSize.toNat = n := by
  constructor
  · intro hb
    obtain ⟨p, l, hl, rfl⟩ := (h.accounted b n hb).resolve_right id
    obtain ⟨r, hfind, rfl⟩ := h.find_iff.mp hl
    have hlive := (h.order.tracked p r hfind).1.live
    rw [hb] at hlive
    exact ⟨p, r, hfind, rfl, (Option.some.inj hlive).symm⟩
  · rintro ⟨p, r, hfind, rfl, rfl⟩
    exact (h.order.tracked p r hfind).1.live

/-- `has_leaks` in terms of what the clients hold. -/
theorem InView.size_pos_iff (h : InView config w) :
    0 < w.tracker.size ↔ ∃ p l, w.leases p = some l := by
  have hsize : 0 < w.tracker.size ↔ 0 < w.tracker.pointers.card := by
    rw [BitVec.lt_def, ShardedTracker.size_toNat h.allTracked.wellPlaced]
    rfl
  rw [hsize, Finset.card_pos]
  constructor
  · rintro ⟨p, hp⟩
    obtain ⟨r, hfind⟩ := (ShardedTracker.mem_pointers h.allTracked.wellPlaced).mp hp
    exact ⟨p, _, (h.order.tracked p r hfind).2⟩
  · rintro ⟨p, l, hl⟩
    obtain ⟨r, hfind⟩ := h.allTracked.held p l hl
    exact ⟨p, (ShardedTracker.mem_pointers h.allTracked.wellPlaced).mpr ⟨r, hfind⟩⟩

/-- After every watched run the pointers held are those tracked, with their blocks and sizes,
the live blocks of the system are theirs, one for each, `has_leaks` says whether there are
any, and no corruption or double free has been reported on the way. -/
theorem holdings_exact (hexhaustive : config.Exhaustive)
    (hrun : Run (managerSystem PayloadWrites (Watched config)) (World.start mem) cs w)
    (hdefined : w.fault = false) :
    (∀ p l, w.leases p = some l ↔
      ∃ r, w.tracker.find p = some r ∧ l = ⟨r.rawPtr, r.requestedSize⟩) ∧
    (∀ b n, w.heap b = some n ↔
      ∃! p, ∃ r, w.tracker.find p = some r ∧ r.rawPtr = b ∧ r.totalSize.toNat = n) ∧
    (0 < w.tracker.size ↔ ∃ p l, w.leases p = some l) ∧
    Quiet (outputs World.step (fun w c => (w.step c).log) (World.start mem) cs) := by
  obtain ⟨hview, hquiet⟩ := watched_run hexhaustive hrun
  have h := hview hdefined
  refine ⟨fun p l => h.find_iff, fun b n => ?_, h.size_pos_iff, hquiet⟩
  rw [h.heap_iff]
  constructor
  · rintro ⟨p, r, hfind, hraw, htotal⟩
    refine ⟨p, ⟨r, hfind, hraw, htotal⟩, ?_⟩
    rintro q ⟨s, hfind', hraw', _⟩
    exact h.order.separate q p _ _ (h.order.tracked q s hfind').2 (h.order.tracked p r hfind).2
      (hraw'.trans hraw.symm)
  · rintro ⟨p, hp, _⟩
    exact ⟨p, hp⟩

/-- Of three blocks the first is moved and the second freed; the third has a tag. -/
def watchedCalls : List Call :=
  [.init {}, .trackAlloc 1 { malloc := 0x10000 } 16 16 0,
    .trackAlloc 2 { malloc := 0x20000 } 40 64 0,
    .trackRealloc 2 { malloc := 0x30000 } 0x10050 32, .trackFree 1 0x20080,
    .trackAlloc 1 { malloc := 0x40000 } 8 16 5]

def afterWatched : World := World.after (fun _ => 0) watchedCalls

theorem run_watchedCalls : Run (managerSystem PayloadWrites (Watched {}))
    (World.start fun _ => 0) watchedCalls afterWatched :=
  run_from_start _ _ (by decide +kernel)

theorem holdings_exact_moved :
    Run (managerSystem PayloadWrites (Watched {})) (World.start fun _ => 0) watchedCalls
        afterWatched ∧
      afterWatched.leases 0x30050 = some ⟨0x30000, 32⟩ ∧
      (∃! p, ∃ r, afterWatched.tracker.find p = some r ∧ r.rawPtr = 0x30000 ∧
        r.totalSize.toNat = 132) ∧
      (∀ r, afterWatched.tracker.find 0x20080 ≠ some r) ∧ 0 < afterWatched.tracker.size ∧
      Quiet (outputs World.step (fun w c => (w.step c).log) (World.start fun _ => 0)
        watchedCalls) := by
  obtain ⟨hheld, hlive, hleaks, hquiet⟩ := @holdings_exact {} _ _ _
    ⟨rfl, by decide, by decide⟩ run_watchedCalls (by decide +kernel)
  have hmoved : afterWatched.leases 0x30050 = some ⟨0x30000, 32⟩ := by decide +kernel
  have hfreed : afterWatched.leases 0x20080 = none := by decide +kernel
  have hblock : afterWatched.heap 0x30000 = some 132 := by decide +kernel
  refine ⟨run_watchedCalls, hmoved, (hlive _ _).mp hblock, fun r hfind => ?_,
    hleaks.mpr ⟨_, _, hmoved⟩, hquiet⟩
  have hlease := (hheld 0x20080 _).mpr ⟨r, hfind, rfl⟩
  rw [hfreed] at hlease
  cases hlease

/-! ## The report -/

section Report

variable (resolveFrame : Ptr → StackFrame) (tagText : Ptr → Text) (engine : SuppressionEngine)

/-- The pointer is held, and its record is not suppressed. -/
def ReportedHolding (w : World) (p : Ptr) (l : Lease) : Prop :=
  w.leases p = some l ∧
    ∃ r, w.tracker.find p = some r ∧ engine.isSuppressed resolveFrame tagText r = false

/-- What a record says about its pointer. -/
def holdingOf (r : AllocationRecord) : Ptr × Lease := (r.userPtr, ⟨r.rawPtr, r.requestedSize⟩)

variable {resolveFrame tagText engine} {all : List AllocationRecord}

theorem mem_snapshot_iff (h : InView config w) (hall : w.tracker.SnapshotAll all)
    {r : AllocationRecord} : r ∈ all ↔ w.tracker.find r.userPtr = some r := by
  rw [← ShardedTracker.mem_records_iff_find h.allTracked.wellPlaced h.allTracked.keyed,
    ← coe_of_snapshotAll hall, Multiset.mem_coe]

theorem nodup_snapshot (h : InView config w) (hall : w.tracker.SnapshotAll all) :
    (all.map AllocationRecord.userPtr).Nodup := by
  have hnodup := ShardedTracker.nodup_map_userPtr_records h.allTracked.wellPlaced
    h.allTracked.keyed
  rw [← coe_of_snapshotAll hall] at hnodup
  exact hnodup

theorem mem_holdings_iff (h : InView config w) (hall : w.tracker.SnapshotAll all) {p : Ptr}
    {l : Lease} : (p, l) ∈ (pushUnsuppressed resolveFrame tagText engine all).map holdingOf ↔
      ReportedHolding resolveFrame tagText engine w p l := by
  rw [pushUnsuppressed_eq, List.mem_map]
  unfold ReportedHolding
  constructor
  · rintro ⟨r, hr, hsame⟩
    obtain ⟨hr, hshown⟩ := List.mem_filter.mp hr
    have hfind := (mem_snapshot_iff h hall).mp hr
    cases hsame
    exact ⟨(h.order.tracked _ r hfind).2, r, hfind, by simpa using hshown⟩
  · rintro ⟨hl, r, hfind, hshown⟩
    have hkey := h.allTracked.keyed p r hfind
    have hlease := (h.order.tracked p r hfind).2
    rw [hl] at hlease
    refine ⟨r, List.mem_filter.mpr ⟨?_, by simpa using hshown⟩, ?_⟩
    · rw [mem_snapshot_iff h hall, hkey]
      exact hfind
    · rw [Option.some.inj hlease, holdingOf, hkey]

/-- The bytes of some of the blocks in use are fewer than there are addresses. -/
theorem sum_requested_lt (h : InView config w) {records : List AllocationRecord}
    (hfind : ∀ r ∈ records, w.tracker.find r.userPtr = some r)
    (hnodup : (records.map AllocationRecord.userPtr).Nodup) :
    (records.map fun r => r.requestedSize.toNat).sum < 2 ^ 64 := by
  have hfit : ∀ r ∈ records, r.requestedSize.toNat + 1 ≤ r.totalSize.toNat ∧
      w.heap r.rawPtr = some r.totalSize.toNat := by
    intro r hr
    have hblock := (h.order.tracked _ r (hfind r hr)).1
    have hbelow := hblock.placed.below
    have habove := hblock.placed.above
    exact ⟨by omega, hblock.live⟩
  have hspace : (records.map fun r => r.requestedSize.toNat + 1).sum ≤ 2 ^ 64 := by
    refine @Allocator.sum_lengths_le _ (fun r => r.rawPtr.toNat) _ _ records ?_ ?_
    · refine (List.pairwise_map.mp hnodup).imp_of_mem fun {r s} hr hs hne => ?_
      obtain ⟨hrfit, hrlive⟩ := hfit r hr
      obtain ⟨hsfit, hslive⟩ := hfit s hs
      have hbase : r.rawPtr ≠ s.rawPtr := fun hraw => hne (h.order.separate _ _ _ _
        (h.order.tracked _ r (hfind r hr)).2 (h.order.tracked _ s (hfind s hs)).2 hraw)
      rcases h.order.apart _ _ _ _ hrlive hslive hbase with hlt | hlt
      · exact Or.inl (by omega)
      · exact Or.inr (by omega)
    · intro r hr
      obtain ⟨hrfit, hrlive⟩ := hfit r hr
      have hend := (h.order.space _ _ hrlive).2.2
      omega
  rw [List.sum_map_add, List.map_const', List.sum_replicate, Nat.nsmul_eq_mul, Nat.mul_one] at hspace
  rcases records with _ | ⟨r, records⟩
  · exact Nat.pow_pos Nat.two_pos
  · rw [List.length_cons] at hspace
    omega

/-- After every watched run, what a JSON reader finds in the report of `export_json` are the
holdings that are not suppressed, each once, with its address and the size the client asked
for, and their number and total. -/
theorem report_lists_holdings {ratioText : Word → Word → Text} (hexhaustive : config.Exhaustive)
    (hrun : Run (managerSystem PayloadWrites (Watched config)) (World.start mem) cs w)
    (hdefined : w.fault = false) (hall : w.tracker.SnapshotAll all)
    (hratio : ∀ current peak, Json.isNumber (ratioText current peak) = true) :
    let call := exportJson resolveFrame tagText engine w.stats all
    ∃ v report, ∃ holdings : List (Ptr × Lease),
      Json.parse (Reporter.serialize resolveFrame tagText ratioText call.stats call.records) =
        some v ∧
      Reporter.readReport v = some report ∧
      (holdings.map Prod.fst).Nodup ∧
      (∀ p l, (p, l) ∈ holdings ↔ ReportedHolding resolveFrame tagText engine w p l) ∧
      report.leaks.map (fun leak => (leak.address, leak.requestedSize)) =
        holdings.map (fun holding => (holding.1.toNat, holding.2.size.toNat)) ∧
      report.leakCount = holdings.length ∧
      report.leakBytes = (holdings.map fun holding => holding.2.size.toNat).sum := by
  intro call
  have h := (watched_run hexhaustive hrun).1 hdefined
  have hsub : call.records.Sublist all := by
    change (pushUnsuppressed resolveFrame tagText engine all).Sublist all
    rw [pushUnsuppressed_eq]
    exact List.filter_sublist
  have hnodup : (call.records.map AllocationRecord.userPtr).Nodup :=
    (nodup_snapshot h hall).sublist (hsub.map _)
  have hparse := Json.parse_eq (Reporter.element_serialize resolveFrame tagText hratio call.stats
    call.records)
  refine ⟨_, _, call.records.map holdingOf, hparse, Reporter.readReport_reportValue resolveFrame
    tagText hratio call.stats call.records, ?_, fun p l => mem_holdings_iff h hall, ?_, ?_, ?_⟩
  · rw [List.map_map]
    exact hnodup
  · simp only [Reporter.reportOf, List.map_map]
    rfl
  · rw [List.length_map]
    rfl
  · have hlt := sum_requested_lt h (fun r hr => (mem_snapshot_iff h hall).mp (hsub.subset hr)) hnodup
    rw [List.map_map]
    exact Nat.mod_eq_of_lt hlt

end Report

/-- The tag of the third block has this text, and a rule that suppresses it. -/
def watchedTag (tag : Ptr) : Text := if tag = 5 then ascii "net.cache" else []

def watchedRules : SuppressionEngine := SuppressionEngine.empty.addRule (ascii "cache")

theorem report_lists_holdings_moved :
    let all := [0x40050, 0x30050].filterMap afterWatched.tracker.find
    afterWatched.tracker.SnapshotAll all ∧ all.length = 2 ∧
      let call := exportJson (fun _ => {}) watchedTag watchedRules afterWatched.stats all
      ∃ v report,
        Json.parse (Reporter.serialize (fun _ => {}) watchedTag (fun _ _ => ascii "0.5")
          call.stats call.records) = some v ∧
        Reporter.readReport v = some report ∧ report.leakCount = 1 ∧ report.leakBytes = 32 ∧
        report.leaks.map (fun leak => (leak.address, leak.requestedSize)) = [(0x30050, 32)] := by
  intro all
  have hall : afterWatched.tracker.SnapshotAll all :=
    snapshotAll_of_pointers (by decide +kernel) (by decide +kernel)
  have hview := (@watched_run {} _ _ _ ⟨rfl, by decide, by decide⟩ run_watchedCalls).1
    (by decide +kernel)
  have hratio : ∀ _ _ : Word, Json.isNumber (ascii "0.5") = true := fun _ _ => by decide
  obtain ⟨v, report, holdings, hparse, hread, hnodup, hmem, hleaks, hcount, hbytes⟩ :=
    @report_lists_holdings {} _ _ _ (fun _ => {}) watchedTag watchedRules all _
      ⟨rfl, by decide, by decide⟩ run_watchedCalls (by decide +kernel) hall hratio
  have hshown : (pushUnsuppressed (fun _ => {}) watchedTag watchedRules all).map holdingOf =
      [(0x30050, ⟨0x30000, 32⟩)] := by decide +kernel
  have hone : holdings = [(0x30050, ⟨0x30000, 32⟩)] := by
    rw [← List.perm_singleton]
    refine (List.perm_ext_iff_of_nodup (.of_map _ hnodup) (List.nodup_singleton _)).mpr ?_
    rintro ⟨p, l⟩
    rw [hmem, ← mem_holdings_iff hview hall, hshown]
  rw [hone] at hleaks hcount hbytes
  exact ⟨hall, by decide +kernel, v, report, hparse, hread, hcount, hbytes, hleaks⟩

end Runs

end MemSentry
