import MemSentry.Manager.Clients
import MemSentry.Manager.ComputedRuns

/-!
# Blocks that are lost

Every block of the system that is live is in the hands of a client, or has been lost: the
client has given its pointer back and the manager has kept the block. The manager keeps a
block on purpose where it finds corruption, which does not happen to clients that write
into their payloads only. It also keeps a block that is not tracked and whose pointer the
quarantine still remembers, and takes the release for a double free. There is no third
way (`lost_to_false_alarms`): no failing path of an allocation or reallocation loses one.
-/

namespace MemSentry

open ByteMemory MemSentry.Core Function World Transition

/-- Every live block is behind a held pointer, or lost. -/
def Accounted (lost : Ptr → Prop) (heap : Ptr → Option Nat) (ls : Ptr → Option Lease) : Prop :=
  ∀ b n, heap b = some n → (∃ p l, ls p = some l ∧ l.base = b) ∨ lost b

section Tables

variable {lost lost' : Ptr → Prop} {heap : Ptr → Option Nat} {ls : Ptr → Option Lease}
  {p q b : Ptr} {l : Lease}

theorem Accounted.mono (h : Accounted lost heap ls) (hlost : ∀ b, lost b → lost' b) :
    Accounted lost' heap ls :=
  fun b n hb => (h b n hb).imp_right (hlost b)

theorem Accounted.add (h : Accounted lost heap ls) (hq : ls q = none) (n : Nat) :
    Accounted lost (update heap l.base (some n)) (update ls q (some l)) := by
  intro c k hc
  by_cases hcb : c = l.base
  · exact Or.inl ⟨q, l, update_self _ _ _, hcb.symm⟩
  · rw [update_of_ne hcb] at hc
    refine (h c k hc).imp_left ?_
    rintro ⟨p, m, hp, hbase⟩
    have hpq : p ≠ q := by
      rintro rfl
      rw [hq] at hp
      cases hp
    exact ⟨p, m, by rwa [update_of_ne hpq], hbase⟩

/-- A pointer is given up together with its block. -/
theorem Accounted.remove (h : Accounted lost heap ls) (hp : ls p = some l) :
    Accounted lost (update heap l.base none) (update ls p none) := by
  intro c k hc
  obtain ⟨hne, hc⟩ := update_none_eq_some hc
  refine (h c k hc).imp_left ?_
  rintro ⟨q, m, hq, hbase⟩
  have hqp : q ≠ p := by
    rintro rfl
    rw [hp] at hq
    cases hq
    exact hne hbase.symm
  exact ⟨q, m, by rwa [update_of_ne hqp], hbase⟩

/-- A pointer is given up and its block stays behind. -/
theorem Accounted.leave (h : Accounted lost heap ls) (hp : ls p = some l) (hlost : lost l.base) :
    Accounted lost heap (update ls p none) := by
  intro c k hc
  rcases h c k hc with ⟨q, m, hq, hbase⟩ | hold
  · by_cases hqp : q = p
    · subst q
      rw [hp] at hq
      cases hq
      exact Or.inr (hbase ▸ hlost)
    · exact Or.inl ⟨q, m, by rwa [update_of_ne hqp], hbase⟩
  · exact Or.inr hold

end Tables

/-! ## Operations -/

namespace World

variable {lost : Ptr → Prop} {w : World} {o : Oracle} {tid : ThreadId}
  {size alignment tag n : Word} {p : Ptr} {l : Lease} {ls : Ptr → Option Lease}

/-- The blocks after an allocation, with the new pointer in the hands of the client. -/
theorem allocate_accounted (h : w.OwnedBy ls) (hall : Accounted lost w.heap ls)
    (hfresh : ∀ a ∈ (w.allocate o tid size alignment tag).1.log, a.Fresh w.heap)
    (hdefined : (w.allocate o tid size alignment tag).1.fault = false) :
    Accounted lost (w.allocate o tid size alignment tag).1.heap
      (if (w.allocate o tid size alignment tag).2 = 0 then ls
        else update ls (w.allocate o tid size alignment tag).2 (some ⟨o.malloc, size⟩)) := by
  have hgot := (allocate_owned h hfresh).got
  cases (allocate_effect w o tid size alignment tag).2 with
  | failed hp hwhy hblocks hfault hlog =>
    rw [if_pos hp, hblocks.heap]
    exact hall
  | faulted hp hfit hfault htracker hmem hcalls hlog =>
    rw [hdefined] at hfault
    cases hfault
  | raw hp hne htracks hheap htracker hmem hcalls hlog hfault =>
    rw [if_neg hne, hheap]
    exact hall.add (l := ⟨o.malloc, size⟩) (hgot hne).2.1 _
  | tracked allocId tag' htracks hraw hfit hp hheap htracker hcalls hmem hlog hfault =>
    obtain ⟨rest, hlog, _⟩ := hlog
    have hspace := (hfresh (.systemAlloc _ o.malloc)
      (by rw [hlog]; exact List.mem_append_right _ List.mem_cons_self) hraw).1
    have hplaced := @recordOf_placed w o tid size alignment tag' allocId hraw hfit
      (Nat.le_trans (Nat.add_le_add_left (le_extent _) _) hspace)
    have hne : (w.allocate o tid size alignment tag).2 ≠ 0 := hp ▸ hplaced.user_ne_zero
    rw [if_neg hne, hheap]
    exact hall.add (l := ⟨o.malloc, size⟩) (hgot hne).2.1 _

/-- Releasing a tracked pointer whose block is intact gives the block back. -/
theorem deallocate_tracked_accounted {r : AllocationRecord} (h : w.OwnedBy ls)
    (hcontents : HoldsOfAll intactBlock w.tracker w.mem) (hall : Accounted lost w.heap ls)
    (hguard : w.guardActive tid = false) (hfind : w.tracker.find p = some r)
    (hgrown : checkedLength w r ≤ laidOutLength w.mem r) :
    Accounted lost (w.deallocate tid p).heap (update ls p none) := by
  obtain ⟨hblock, hlease⟩ := h.tracked p r hfind
  obtain ⟨_, _, heffect⟩ := deallocate_effect w tid p hguard (h.held_ne_zero hlease)
  have hclean : (verifyCanary w.mem r.rawPtr w.config.footerSize).1 = .none :=
    (verifyCanary_verdict (hcontents p r hfind).1 hblock.placed.raw_ne_zero).trans
      (if_pos ((hcontents p r hfind).2.of_le hgrown))
  cases heffect with
  | released r' hfind' hraw hverdict hheap htracker hmem hlog hfault =>
    rw [hfind] at hfind'
    cases hfind'
    rw [hheap]
    exact hall.remove hlease
  | leaked r' hfind' hverdict hheap htracker hmem hlog hfault =>
    rw [hfind] at hfind'
    cases hfind'
    exact absurd hclean hverdict
  | alarm hfind' hq hheap htracker hmem hlog hfault =>
    rw [hfind] at hfind'
    cases hfind'
  | untracked hfind' hq hheader hheap htracker hmem hlog hfault =>
    rw [hfind] at hfind'
    cases hfind'
  | misread hfind' hq hheader hlog =>
    rw [hfind] at hfind'
    cases hfind'

/-- Otherwise the block is given back or there is an alarm about its pointer. -/
theorem deallocate_accounted (h : w.OwnedBy ls) (hcontents : HoldsOfAll intactBlock w.tracker w.mem)
    (hall : Accounted lost w.heap ls) (hl : ls p = some l) (hguard : w.guardActive tid = false)
    (hsound : NotMisread w p)
    (hgrown : ∀ r, w.tracker.find p = some r → checkedLength w r ≤ laidOutLength w.mem r)
    (hlost : .alert p .doubleFree ∈ (w.deallocate tid p).log → lost p) :
    Accounted lost (w.deallocate tid p).heap (update ls p none) := by
  rcases hfind : w.tracker.find p with _ | r
  · obtain ⟨hbase, _⟩ := h.untracked p l hl hfind
    obtain ⟨_, _, heffect⟩ := deallocate_effect w tid p hguard (h.held_ne_zero hl)
    cases heffect with
    | released r hfind' hraw hverdict hheap htracker hmem hlog hfault =>
      rw [hfind] at hfind'
      cases hfind'
    | leaked r hfind' hverdict hheap htracker hmem hlog hfault =>
      rw [hfind] at hfind'
      cases hfind'
    | alarm hfind' hq hheap htracker hmem hlog hfault =>
      rw [hheap]
      refine hall.leave hl (hbase ▸ hlost ?_)
      rw [hlog]
      exact List.mem_append_right _ (List.mem_singleton.mpr rfl)
    | untracked hfind' hq hheader hheap htracker hmem hlog hfault =>
      rw [hheap, ← hbase]
      have hremoved := hall.remove hl
      rwa [hbase] at hremoved ⊢
    | misread hfind' hq hheader hlog =>
      have hstatus : (w.tracker.erase p).1 = .notFound := by
        rw [ShardedTracker.erase_of_not_quarantined hfind' (Or.inr hq)]
      exact absurd (hsound hstatus) hheader
  · exact deallocate_tracked_accounted h hcontents hall hguard hfind (hgrown r hfind)

theorem rawSystemFree_accounted (h : w.OwnedBy ls) (hall : Accounted lost w.heap ls)
    (hl : ls p = some l) (hfind : w.tracker.find p = none) :
    Accounted lost (w.rawSystemFree p).heap (update ls p none) := by
  obtain ⟨hbase, _⟩ := h.untracked p l hl hfind
  rw [rawSystemFree_of_ne (h.held_ne_zero hl)]
  have hremoved := hall.remove hl
  rwa [hbase] at hremoved

theorem rawSystemAlloc_accounted (h : w.OwnedBy ls) (hall : Accounted lost w.heap ls)
    (hfresh : o.malloc ≠ 0 → Fresh w.heap o.malloc size) :
    Accounted lost (w.rawSystemAlloc o size).1.heap
      (if (w.rawSystemAlloc o size).2 = 0 then ls
        else update ls (w.rawSystemAlloc o size).2 (some ⟨o.malloc, size⟩)) := by
  by_cases hraw : o.malloc = 0
  · rw [rawSystemAlloc_of_null hraw, if_pos rfl]
    exact hall
  · rw [rawSystemAlloc_of_ne hraw, if_neg hraw]
    exact hall.add (l := ⟨o.malloc, size⟩) (h.no_lease_inside (hfresh hraw) (Nat.le_refl _)
      (Nat.lt_add_of_pos_right (extent_pos size))) _

theorem rawSystemRealloc_accounted (h : w.OwnedBy ls) (hall : Accounted lost w.heap ls)
    (hl : ls p = some l) (hfind : w.tracker.find p = none) (hn : n ≠ 0)
    (hfresh : ∀ a ∈ (w.rawSystemRealloc o p n).1.log, a.Fresh w.heap) :
    Accounted lost (w.rawSystemRealloc o p n).1.heap
      (if (w.rawSystemRealloc o p n).2 = 0 then ls
        else update (update ls p none) (w.rawSystemRealloc o p n).2 (some ⟨o.malloc, n⟩)) := by
  obtain ⟨hbase, _⟩ := h.untracked p l hl hfind
  have hp := h.held_ne_zero hl
  by_cases hraw : o.malloc = 0
  · rw [rawSystemRealloc_failed hp hn hraw, if_pos rfl]
    exact hall
  · rw [rawSystemRealloc_moved hp hn hraw] at hfresh ⊢
    rw [if_neg hraw]
    have hf : Fresh (update w.heap p none) o.malloc n :=
      hfresh (.systemRealloc p n o.malloc (w.heap p).isSome)
        (List.mem_append_right _ List.mem_cons_self) hraw
    have hrelease := h.release hl
    have hremoved := hall.remove hl
    rw [hbase, ShardedTracker.afterErase_of_find_none hfind] at hrelease
    rw [hbase] at hremoved
    exact hremoved.add (l := ⟨o.malloc, n⟩) (hrelease.no_lease_inside hf (Nat.le_refl _)
      (Nat.lt_add_of_pos_right (extent_pos n))) _

theorem reallocate_accounted {r : AllocationRecord} (h : w.OwnedBy ls)
    (hcontents : HoldsOfAll intactBlock w.tracker w.mem) (hall : Accounted lost w.heap ls)
    (hn : n ≠ 0) (hguard : w.guardActive tid = false) (hinit : w.initialized = true)
    (hfind : w.tracker.find p = some r)
    (hgrown : checkedLength w r ≤ laidOutLength w.mem r)
    (hfresh : ∀ a ∈ (w.reallocate o tid p n).1.log, a.Fresh w.heap) (hbefore : w.fault = false)
    (hdefined : (w.reallocate o tid p n).1.fault = false) :
    Accounted lost (w.reallocate o tid p n).1.heap
      (if (w.reallocate o tid p n).2 = 0 then ls
        else update (update ls p none) (w.reallocate o tid p n).2 (some ⟨o.malloc, n⟩)) := by
  have hinner : ∀ a ∈ (w.reallocated o tid p r n).1.log, a.Fresh w.heap :=
    fun a ha => hfresh a (reallocated_log hn hguard hinit hfind a ha)
  obtain ⟨as, hcheck, _⟩ := checkOldBlock_log { w with calls := .find p :: w.calls } p r
  have hallocated : (w.reallocated o tid p r n).1.fault = false →
      Accounted lost (w.reallocated o tid p r n).1.heap
        (if (w.reallocated o tid p r n).2 = 0 then ls
          else update ls (w.reallocated o tid p r n).2 (some ⟨o.malloc, n⟩)) := by
    unfold reallocated at hinner ⊢
    rw [hcheck] at hinner ⊢
    exact fun hdefined' => allocate_accounted (w := { w with
      calls := .find p :: w.calls, log := w.log ++ as }) h hall hinner hdefined'
  rw [reallocate_of_find hn hguard hinit hfind] at hdefined ⊢
  by_cases hq : (w.reallocated o tid p r n).2 = 0
  · rw [if_pos hq] at hdefined ⊢
    have hkept := hallocated hdefined
    rw [if_pos hq] at hkept
    rw [if_pos rfl]
    exact hkept
  · rw [if_neg hq] at hdefined ⊢
    rw [if_neg hq]
    have hspec := recopied_spec h hfind hinner hq
    obtain ⟨hchecked, hlaid⟩ := checkedLength_recopied h hfind hspec
    obtain ⟨howned, _, hfault, _⟩ := (reallocated_owned h hinner).got hq
    have hcopied : HoldsOfAll intactBlock (w.recopied o tid p r n).tracker
        (w.recopied o tid p r n).mem := howned.holdsOfAll
      (copyPayload_writes howned (update_self _ _ _)) (reallocated_holdsOfAll h hcontents hinner)
    have hgot : Accounted lost (w.recopied o tid p r n).heap
        (update ls (w.reallocated o tid p r n).2 (some ⟨o.malloc, n⟩)) := by
      have hkept := hallocated (hfault.trans hbefore)
      rw [if_neg hq] at hkept
      exact hkept
    have hreleased := deallocate_tracked_accounted hspec.owned hcopied hgot
      ((hspec.control.guardActive tid).trans hguard) hspec.find (by rwa [hchecked, hlaid])
    rwa [update_comm hspec.ne.symm] at hreleased

end World

/-! ## Steps and runs -/

section Steps

variable {mayWrite : World → Memory → Prop} {lost : Ptr → Prop} {w w' : World} {o : Oracle}
  {tid : ThreadId} {n : Word} {p q : Ptr} {l : Lease}

section Leases

variable {P : (Ptr → Option Lease) → Prop}

/-- The leases after a reallocation. -/
theorem leases_moveLease (hleases : w'.leases = w.leases)
    (hnull : q = 0 → n ≠ 0 → P w.leases)
    (hzero : q = 0 → n = 0 → P (update w.leases p none))
    (hgot : q ≠ 0 → P (update (update w.leases p none) q (some l))) :
    P (w'.moveLease p q n l).leases := by
  unfold World.moveLease
  by_cases hq : q = 0
  · rw [if_neg (not_not_intro hq)]
    by_cases hn : n = 0
    · rw [if_pos hn]
      unfold World.unlease
      rw [hleases]
      exact hzero hq hn
    · rw [if_neg hn, hleases]
      exact hnull hq hn
  · rw [if_pos hq, lease_of_ne hq]
    unfold World.unlease
    dsimp only
    rw [hleases]
    exact hgot hq

/-- Where the pointer was null. -/
theorem leases_moveLease_null (h : InOrder w) (hleases : w'.leases = w.leases)
    (hall : P (if q = 0 then w.leases else update w.leases q (some l))) :
    P (w'.moveLease 0 q n l).leases := by
  refine leases_moveLease hleases (fun hq _ => ?_) (fun hq _ => ?_) fun hq => ?_
  · rwa [if_pos hq] at hall
  · rwa [if_pos hq, ← leases_zero h] at hall
  · rw [if_neg hq] at hall
    rwa [leases_zero h]

/-- Where the new size is not 0. -/
theorem leases_moveLease_resized (hn : n ≠ 0) (hleases : w'.leases = w.leases)
    (hall : P (if q = 0 then w.leases else update (update w.leases p none) q (some l))) :
    P (w'.moveLease p q n l).leases := by
  refine leases_moveLease hleases (fun hq _ => ?_) (fun _ h0 => absurd h0 hn) fun hq => ?_
  · rwa [if_pos hq] at hall
  · rwa [if_neg hq] at hall

end Leases

/-- What the log of a step says about false alarms. -/
def Alarmed (log : List Action) (p : Ptr) : Prop := .alert p .doubleFree ∈ log

theorem step_trackFree_accounted (h : InOrder w)
    (hcontents : HoldsOfAll intactBlock w.tracker w.mem) (hall : Accounted lost w.heap w.leases)
    (hperm : Permitted mayWrite w (.trackFree tid p)) (hsound : ReleaseSound w (.trackFree tid p))
    (hlost : ∀ b, Alarmed (w.step (.trackFree tid p)).log b → lost b) :
    Accounted lost (w.step (.trackFree tid p)).heap (w.step (.trackFree tid p)).leases := by
  by_cases hp : p = 0
  · subst hp
    have hsame : (w.step (.trackFree tid 0)).leases = w.leases := by
      exact leases_zero h
    rw [hsame]
    exact hall
  obtain ⟨l, hl⟩ := hperm.disciplined.resolve_left hp
  have hcond := hsound.1.resolve_left hp
  by_cases hguard : w.guardActive tid
  · rw [if_pos hguard] at hcond
    have hfreed := rawSystemFree_accounted (w := w.clearLog.unlease p) h hall hl hcond
    have hleases := (@rawSystemFree_system (w.clearLog.unlease p) p).leases
    rw [step_trackFree_of_guard hp hguard, hleases]
    exact hfreed
  · rw [if_neg hguard] at hcond
    rw [Bool.not_eq_true] at hguard
    have howned : (w.clearLog.unlease p).OwnedBy w.leases := h
    rw [step_trackFree hp hguard] at hlost ⊢
    rw [(deallocate_effect (w.clearLog.unlease p) tid p hguard hp).1.leases]
    exact deallocate_accounted howned hcontents hall hl hguard hcond hsound.2 (hlost p)

theorem step_trackRealloc_accounted (h : InOrder w)
    (hcontents : HoldsOfAll intactBlock w.tracker w.mem) (hall : Accounted lost w.heap w.leases)
    (hperm : Permitted mayWrite w (.trackRealloc tid o p n))
    (hsound : ReleaseSound w (.trackRealloc tid o p n))
    (hlost : ∀ b, Alarmed (w.step (.trackRealloc tid o p n)).log b → lost b)
    (hdefined : (w.step (.trackRealloc tid o p n)).fault = false) :
    Accounted lost (w.step (.trackRealloc tid o p n)).heap
      (w.step (.trackRealloc tid o p n)).leases := by
  have hfresh := hperm.fresh
  unfold World.step at hfresh hlost hdefined ⊢
  dsimp only at hfresh hlost hdefined ⊢
  rw [log_moveLease] at hfresh hlost
  rw [heap_moveLease]
  obtain ⟨ls, hls⟩ := moveLease_eq (w.clearLog.trackRealloc o tid p n).1 p
    (w.clearLog.trackRealloc o tid p n).2 n ⟨o.malloc, n⟩
  rw [hls] at hdefined
  dsimp only at hdefined
  clear hls ls
  by_cases hbypass : w.guardActive tid = true ∨ w.initialized = false
  · rw [@trackRealloc_of_bypass w.clearLog o tid p n hbypass] at hfresh hlost hdefined ⊢
    by_cases hp : p = 0
    · subst hp
      rw [rawSystemRealloc_null] at hfresh ⊢
      refine leases_moveLease_null h rawSystemAlloc_system.leases
        (rawSystemAlloc_accounted (w := w.clearLog) h hall fun hraw => ?_)
      refine hfresh (.systemAlloc n o.malloc) ?_ hraw
      rw [rawSystemAlloc_of_ne hraw]
      exact List.mem_append_right _ List.mem_cons_self
    obtain ⟨l, hl⟩ := hperm.disciplined.resolve_left hp
    have hfind := hsound.1.resolve_left hp
    rw [if_pos hbypass] at hfind
    by_cases hn : n = 0
    · subst hn
      have hfreed := rawSystemFree_accounted (w := w.clearLog) h hall hl hfind
      rw [rawSystemRealloc_zero hp]
      exact leases_moveLease rawSystemFree_system.leases (fun _ hne => absurd rfl hne)
        (fun _ _ => hfreed) fun hne => absurd rfl hne
    · exact leases_moveLease_resized hn (@rawSystemRealloc_system w.clearLog o p n).leases
        (rawSystemRealloc_accounted (w := w.clearLog) h hall hl hfind hn hfresh)
  · have hguard : w.guardActive tid = false := by
      cases hg : w.guardActive tid
      · rfl
      · exact absurd (Or.inl hg) hbypass
    have hinit : w.initialized = true := by
      cases hi : w.initialized
      · exact absurd (Or.inr hi) hbypass
      · rfl
    rw [@trackRealloc_of_open w.clearLog o tid p n hguard hinit] at hfresh hlost hdefined ⊢
    by_cases hp : p = 0
    · subst hp
      rw [reallocate_null] at hfresh hdefined ⊢
      exact leases_moveLease_null h (allocate_effect w.clearLog o tid n _ 0).1.leases
        (allocate_accounted (w := w.clearLog) h hall hfresh hdefined)
    obtain ⟨l, hl⟩ := hperm.disciplined.resolve_left hp
    have hcond := hsound.1.resolve_left hp
    rw [if_neg hbypass] at hcond
    by_cases hn : n = 0
    · subst hn
      rw [reallocate_zero hp] at hlost ⊢
      have hreleased := deallocate_accounted (w := w.clearLog) h hcontents hall hl hguard
        (hcond rfl) hsound.2 (hlost p)
      exact leases_moveLease (deallocate_effect w.clearLog tid p hguard hp).1.leases
        (fun _ hne => absurd rfl hne) (fun _ _ => hreleased) fun hne => absurd rfl hne
    rcases hfind : w.tracker.find p with _ | r
    · rw [@reallocate_of_find_none w.clearLog o tid n p hp hn hguard hinit hfind] at hfresh ⊢
      exact leases_moveLease_resized hn (@rawSystemRealloc_system { w.clearLog with
        calls := .find p :: w.calls } o p n).leases (rawSystemRealloc_accounted (w := {
        w.clearLog with calls := .find p :: w.calls }) h hall hl hfind hn hfresh)
    · have hleases := (@reallocate_tracked_control w.clearLog o tid n p r hn hguard hinit
        hfind).leases
      exact leases_moveLease_resized hn hleases (reallocate_accounted (w := w.clearLog) h
        hcontents hall hn hguard hinit hfind (hsound.2 r hfind) hfresh hperm.defined hdefined)

theorem step_accounted {c : Call} (h : InOrder w) (hcontents : HoldsOfAll intactBlock w.tracker w.mem)
    (hall : Accounted lost w.heap w.leases) (hperm : Permitted mayWrite w c)
    (hsound : ReleaseSound w c) (hlost : ∀ b, Alarmed (w.step c).log b → lost b)
    (hdefined : (w.step c).fault = false) :
    Accounted lost (w.step c).heap (w.step c).leases := by
  cases c with
  | trackAlloc tid o size alignment tag =>
    have hfresh := hperm.fresh
    obtain ⟨ls, hls⟩ := lease_eq (w.clearLog.allocate o tid size alignment tag).1
      (w.clearLog.allocate o tid size alignment tag).2 ⟨o.malloc, size⟩
    have hleases := (allocate_effect w.clearLog o tid size alignment tag).1.leases
    unfold World.step at hfresh hdefined ⊢
    dsimp only at hfresh hdefined ⊢
    rw [trackAlloc_eq] at hfresh hdefined ⊢
    rw [log_lease] at hfresh
    rw [hls] at hdefined
    have hkept := allocate_accounted (w := w.clearLog) h hall hfresh hdefined
    by_cases hq : (w.clearLog.allocate o tid size alignment tag).2 = 0
    · rw [if_pos hq] at hkept
      rw [hq, lease_null, hleases]
      exact hkept
    · rw [if_neg hq] at hkept
      rw [lease_of_ne hq, hleases]
      exact hkept
  | trackFree tid p => exact step_trackFree_accounted h hcontents hall hperm hsound hlost
  | trackRealloc tid o p n =>
    exact step_trackRealloc_accounted h hcontents hall hperm hsound hlost hdefined
  | _ => exact hall

end Steps

/-- What the run has done so far accounts for every live block. -/
def LossesKnown (log : List Action) (w : World) : Prop :=
  w.fault = true ∨ (InOrder w ∧ HoldsOfAll intactBlock w.tracker w.mem) ∧
    Accounted (Alarmed log) w.heap w.leases

theorem lossesKnown_step (log : List Action) (w : World) (c : Call) (hw : LossesKnown log w)
    (hguard : (managerSystem PayloadWrites ReleaseSound).guard w c) :
    LossesKnown (log ++ (w.step c).log) (w.step c) := by
  obtain ⟨hperm, hsound⟩ := hguard
  obtain ⟨⟨horder, hcontents⟩, hall⟩ := hw.resolve_left (by
    rw [hperm.defined]
    exact Bool.false_ne_true)
  rcases contentsOk_step horder hcontents hperm hsound (fun mem =>
    payloadWrites_keep w mem horder hcontents) with hfault | hnext
  · exact Or.inl hfault
  cases hdefined : (w.step c).fault with
  | true => exact Or.inl hdefined
  | false =>
    have hold : Accounted (Alarmed (log ++ (w.step c).log)) w.heap w.leases :=
      hall.mono fun b hb => List.mem_append_left _ hb
    exact Or.inr ⟨hnext, step_accounted horder hcontents hold hperm hsound
      (fun b hb => List.mem_append_right _ hb) hdefined⟩

/-- In every run of clients that stay in their payloads, held pointers have live blocks, and a
live block that nobody holds was lost to a false double-free alarm about its pointer. -/
theorem lost_to_false_alarms {mem : Memory} {cs : List Call} {w : World}
    (hrun : Run (managerSystem PayloadWrites ReleaseSound) (World.start mem) cs w)
    (hdefined : w.fault = false) :
    (∀ p l, w.leases p = some l → ∃ n, w.heap l.base = some n) ∧
      ∀ b n, w.heap b = some n → (∃ p l, w.leases p = some l ∧ l.base = b) ∨
        .alert b .doubleFree ∈
          outputs World.step (fun w c => (w.step c).log) (World.start mem) cs := by
  have hstart : LossesKnown [] (World.start mem) :=
    Or.inr ⟨(contentsOk_start mem).of_defined rfl, fun b n hb => by cases hb⟩
  have hall := hrun.invariant_outputs (I := LossesKnown) lossesKnown_step hstart
  obtain ⟨⟨horder, _⟩, haccounted⟩ := hall.resolve_left (by
    rw [hdefined]
    exact Bool.false_ne_true)
  refine ⟨fun p l hl => ?_, haccounted⟩
  obtain ⟨n, hlive, _⟩ := horder.lease_live hl
  exact ⟨n, hlive⟩

/-- A tracked block is freed, and under a guard the system answers with the address that its
payload had; when that is freed too, the quarantine still has it. Another block stays held. -/
def losing : List Call :=
  [.init {}, .trackAlloc 1 { malloc := 0x10000 } 16 16 0, .trackFree 1 0x10050, .enterGuard 1,
    .trackAlloc 1 { malloc := 0x10050 } 16 16 0, .exitGuard 1, .trackFree 1 0x10050,
    .trackAlloc 2 { malloc := 0x30000 } 40 64 0]

def lostOne : World := World.after (fun _ => 0) losing

theorem lost_to_false_alarms_recycled :
    Run (managerSystem PayloadWrites ReleaseSound) (World.start fun _ => 0) losing lostOne ∧
      lostOne.leases 0x30080 = some ⟨0x30000, 40⟩ ∧ (∃ n, lostOne.heap 0x30000 = some n) ∧
      lostOne.heap 0x10050 = some 16 ∧ (∀ p l, lostOne.leases p = some l → l.base ≠ 0x10050) ∧
      .alert 0x10050 .doubleFree ∈
        outputs World.step (fun w c => (w.step c).log) (World.start fun _ => 0) losing := by
  have hrun : Run (managerSystem PayloadWrites ReleaseSound) (World.start fun _ => 0) losing
      lostOne := run_from_start _ _ (by decide +kernel)
  have hdefined : lostOne.fault = false := by decide +kernel
  have hheld : lostOne.leases 0x30080 = some ⟨0x30000, 40⟩ := by decide +kernel
  have hlive : lostOne.heap 0x10050 = some 16 := by decide +kernel
  have hnobody : ∀ p l, lostOne.leases p = some l → l.base ≠ 0x10050 := by
    intro p l hl hbase
    obtain ⟨horder, _⟩ := (run_contents (Φ := intactBlock) payloadWrites_keep hrun
      (contentsOk_start _)).of_defined hdefined
    rcases hfind : lostOne.tracker.find p with _ | r
    · obtain ⟨hp, _⟩ := horder.untracked p l hl hfind
      have hgone : lostOne.leases 0x10050 = none := by decide +kernel
      rw [← hp, hbase, hgone] at hl
      cases hl
    · have hrecords : ∀ i, ∀ r ∈ FiniteTable.values (lostOne.tracker.shards i).records,
          r.rawPtr ≠ 0x10050 := by decide +kernel
      have hlease := (horder.tracked p r hfind).2
      rw [hl] at hlease
      cases hlease
      exact ShardedTracker.holds_of_values hrecords hfind hbase
  obtain ⟨hkept, hlost⟩ := lost_to_false_alarms hrun hdefined
  have hblock := hkept 0x30080 ⟨0x30000, 40⟩ hheld
  dsimp only at hblock
  have halarm := hlost 0x10050 16 hlive
  refine ⟨hrun, hheld, hblock, hlive, hnobody, halarm.resolve_left ?_⟩
  rintro ⟨p, l, hl, hbase⟩
  exact hnobody p l hl hbase

end MemSentry
