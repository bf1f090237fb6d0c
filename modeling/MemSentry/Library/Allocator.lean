import Mathlib.Data.BitVec
import Mathlib.Algebra.GroupWithZero.Nat
import Mathlib.Data.List.Basic
import Mathlib.Logic.Function.Basic
import Mathlib.Order.Interval.Finset.Nat
import MemSentry.Library.Simulation

/-!
# Allocators, as the programs that use them see them

A store gives the contents of every block in use, by the pointer to its first byte. The
steps are what the users of an allocator rely on, and leave the rest open: a request is
refused or served with a block apart from all those in use, whose contents may be
anything; resizing keeps the contents up to the smaller of the two sizes; a write changes
its own block alone, and a read shows what is there.

Every state that can be reached keeps the blocks apart (`run_disjoint`). A byte stays in its
block, or goes along when the block is resized, until it is given up or overwritten
(`Step.carries`), so that a read finds what was last written (`read_of_written`).
-/

namespace Allocator

open Function Simulation

variable {w : Nat} {β : Type}

abbrev Store (w : Nat) (β : Type) := BitVec w → Option (List β)

def empty : Store w β := fun _ => none

/-- A request and its answer; the null pointer answers a request that is refused. -/
inductive Event (w : Nat) (β : Type)
  | obtain (n : Nat) (p : BitVec w)
  /-- The block comes with these contents. -/
  | obtainFilled (bs : List β) (p : BitVec w)
  | release (p : BitVec w)
  | resize (p : BitVec w) (n : Nat) (q : BitVec w)
  | write (p : BitVec w) (offset : Nat) (bs : List β)
  | read (p : BitVec w) (offset : Nat) (bs : List β)

/-- A block of `n` bytes at `p` meets none of those in use. -/
structure Apart (s : Store w β) (p : BitVec w) (n : Nat) : Prop where
  not_null : p ≠ 0
  space : p.toNat + n ≤ 2 ^ w
  unused : s p = none
  apart : ∀ q bs, s q = some bs → p.toNat + n ≤ q.toNat ∨ q.toNat + bs.length ≤ p.toNat

inductive Step (s : Store w β) : Event w β → Store w β → Prop
  | refuse (n : Nat) : Step s (.obtain n 0) s
  | obtain (n : Nat) (p : BitVec w) (bs : List β) (hlen : bs.length = n) (h : Apart s p n) :
      Step s (.obtain n p) (update s p (some bs))
  | refuseFilled (bs : List β) : Step s (.obtainFilled bs 0) s
  | obtainFilled (bs : List β) (p : BitVec w) (h : Apart s p bs.length) :
      Step s (.obtainFilled bs p) (update s p (some bs))
  | releaseNull : Step s (.release 0) s
  | release (p : BitVec w) (bs : List β) (h : s p = some bs) :
      Step s (.release p) (update s p none)
  | resizeNull (n : Nat) (q : BitVec w) (s' : Store w β) (h : Step s (.obtain n q) s') :
      Step s (.resize 0 n q) s'
  | resizeZero (p : BitVec w) (bs : List β) (h : s p = some bs) :
      Step s (.resize p 0 0) (update s p none)
  | resizeRefused (p : BitVec w) (n : Nat) (bs : List β) (h : s p = some bs) (hn : 0 < n) :
      Step s (.resize p n 0) s
  | resize (p : BitVec w) (n : Nat) (q : BitVec w) (bs bs' : List β) (h : s p = some bs)
      (hlen : bs'.length = n) (hq : Apart (update s p none) q n)
      (hkeep : bs'.take (min bs.length n) = bs.take (min bs.length n)) :
      Step s (.resize p n q) (update (update s p none) q (some bs'))
  | write (p : BitVec w) (offset : Nat) (bs old : List β) (h : s p = some old)
      (hin : offset + bs.length ≤ old.length) :
      Step s (.write p offset bs)
        (update s p (some (old.take offset ++ bs ++ old.drop (offset + bs.length))))
  | read (p : BitVec w) (offset : Nat) (bs old : List β) (h : s p = some old)
      (hin : offset + bs.length ≤ old.length)
      (hbs : (old.drop offset).take bs.length = bs) : Step s (.read p offset bs) s

/-- The system in which nothing happens unseen. -/
def steps : Steps (Store w β) (Event w β) := fun s l s' => ∃ e, l = some e ∧ Step s e s'

theorem steps_some {s s' : Store w β} {e : Event w β} (h : Step s e s') : steps s (some e) s' :=
  ⟨e, rfl, h⟩

/-- Intervals that do not overlap take up no more than the space they lie in. -/
theorem sum_lengths_le {ι : Type} {start length : ι → Nat} {n : Nat} (xs : List ι)
    (hapart : xs.Pairwise fun x y =>
      start x + length x ≤ start y ∨ start y + length y ≤ start x)
    (hspace : ∀ x ∈ xs, start x + length x ≤ n) : (xs.map length).sum ≤ n := by
  -- the numbers in the intervals, counted one interval after the other
  have hcover : ∃ S : Finset Nat, S.card = (xs.map length).sum ∧
      ∀ a ∈ S, ∃ x ∈ xs, start x ≤ a ∧ a < start x + length x := by
    induction xs with
    | nil => exact ⟨∅, rfl, fun a ha => absurd ha (Finset.notMem_empty a)⟩
    | cons x xs ih =>
      obtain ⟨hx, hxs⟩ := List.pairwise_cons.mp hapart
      obtain ⟨S, hcard, hS⟩ := ih hxs fun y hy => hspace y (List.mem_cons_of_mem _ hy)
      have hdisjoint : Disjoint (Finset.Ico (start x) (start x + length x)) S := by
        rw [Finset.disjoint_left]
        intro a ha haS
        rw [Finset.mem_Ico] at ha
        obtain ⟨y, hy, hlow, hhigh⟩ := hS a haS
        rcases hx y hy with hlt | hlt
        · omega
        · omega
      refine ⟨Finset.Ico (start x) (start x + length x) ∪ S, ?_, fun a ha => ?_⟩
      · rw [Finset.card_union_of_disjoint hdisjoint, Nat.card_Ico, hcard, List.map_cons,
          List.sum_cons, Nat.add_sub_cancel_left]
      · rcases Finset.mem_union.mp ha with ha | ha
        · exact ⟨x, List.mem_cons_self, Finset.mem_Ico.mp ha⟩
        · obtain ⟨y, hy, hin⟩ := hS a ha
          exact ⟨y, List.mem_cons_of_mem _ hy, hin⟩
  obtain ⟨S, hcard, hS⟩ := hcover
  have hsub : S ⊆ Finset.range n := by
    intro a ha
    obtain ⟨x, hx, _, hhigh⟩ := hS a ha
    have hend := hspace x hx
    exact Finset.mem_range.mpr (by omega)
  rw [← hcard, ← Finset.card_range n]
  exact Finset.card_le_card hsub

/-! ## Blocks stay apart -/

structure Disjoint (s : Store w β) : Prop where
  not_null : s 0 = none
  space : ∀ p bs, s p = some bs → p.toNat + bs.length ≤ 2 ^ w
  apart : ∀ p bs q cs, s p = some bs → s q = some cs → p ≠ q →
    p.toNat + bs.length ≤ q.toNat ∨ q.toNat + cs.length ≤ p.toNat

theorem disjoint_empty : Disjoint (empty : Store w β) where
  not_null := rfl
  space := fun _ _ h => by cases h
  apart := fun _ _ _ _ h => by cases h

theorem Disjoint.add {s : Store w β} (h : Disjoint s) {p : BitVec w} {bs : List β}
    (hp : Apart s p bs.length) : Disjoint (update s p (some bs)) where
  not_null := by
    rw [update_of_ne hp.not_null.symm]
    exact h.not_null
  space := by
    intro q cs hq
    by_cases hqp : q = p
    · subst q
      rw [update_self] at hq
      cases hq
      exact hp.space
    · rw [update_of_ne hqp] at hq
      exact h.space q cs hq
  apart := by
    intro q cs q' cs' hq hq' hne
    by_cases hqp : q = p
    · subst q
      rw [update_self] at hq
      rw [update_of_ne hne.symm] at hq'
      cases hq
      exact hp.apart q' cs' hq'
    · rw [update_of_ne hqp] at hq
      by_cases hq'p : q' = p
      · subst q'
        rw [update_self] at hq'
        cases hq'
        exact (hp.apart q cs hq).symm
      · rw [update_of_ne hq'p] at hq'
        exact h.apart q cs q' cs' hq hq' hne

theorem Disjoint.remove {s : Store w β} (h : Disjoint s) (p : BitVec w) :
    Disjoint (update s p none) := by
  have hsub : ∀ {q : BitVec w} {cs : List β}, update s p none q = some cs → s q = some cs := by
    intro q cs hq
    by_cases hqp : q = p
    · rw [hqp, update_self] at hq
      cases hq
    · rwa [update_of_ne hqp] at hq
  refine ⟨?_, fun q cs hq => h.space q cs (hsub hq),
    fun q cs q' cs' hq hq' => h.apart q cs q' cs' (hsub hq) (hsub hq')⟩
  rcases hnull : update s p none 0 with _ | bs
  · rfl
  · have hsome := hsub hnull
    rw [h.not_null] at hsome
    cases hsome

/-- Other contents of the same length. -/
theorem Disjoint.replace {s : Store w β} (h : Disjoint s) {p : BitVec w} {old bs : List β}
    (hp : s p = some old) (hlen : bs.length = old.length) : Disjoint (update s p (some bs)) := by
  have hnot : p ≠ 0 := by
    rintro rfl
    rw [h.not_null] at hp
    cases hp
  have hplace : Apart (update s p none) p bs.length := by
    refine ⟨hnot, ?_, update_self _ _ _, ?_⟩
    · rw [hlen]
      exact h.space p old hp
    · intro q cs hq
      by_cases hqp : q = p
      · rw [hqp, update_self] at hq
        cases hq
      · rw [update_of_ne hqp] at hq
        rw [hlen]
        exact h.apart p old q cs hp hq (Ne.symm hqp)
  have hadd := (h.remove p).add hplace
  rwa [update_idem] at hadd

theorem Step.disjoint {s s' : Store w β} {e : Event w β} (h : Step s e s') (hs : Disjoint s) :
    Disjoint s' := by
  induction h with
  | refuse n => exact hs
  | obtain n p bs hlen happ =>
    subst hlen
    exact hs.add happ
  | refuseFilled bs => exact hs
  | obtainFilled bs p happ => exact hs.add happ
  | releaseNull => exact hs
  | release p bs hp => exact hs.remove p
  | resizeNull n q s' hobtain ih => exact ih
  | resizeZero p bs hp => exact hs.remove p
  | resizeRefused p n bs hp hn => exact hs
  | resize p n q bs bs' hp hlen happ hkeep =>
    subst hlen
    exact (hs.remove p).add happ
  | write p offset bs old hp hin =>
    refine hs.replace hp ?_
    simp only [List.length_append, List.length_take, List.length_drop]
    omega
  | read p offset bs old hp hin hbs => exact hs

theorem run_disjoint {s : Store w β} {es : List (Event w β)} (h : Run steps empty es s) :
    Disjoint s := by
  refine h.invariant (I := Disjoint) ?_ disjoint_empty
  rintro s l t hs ⟨e, _, hstep⟩
  exact hstep.disjoint hs

/-! ## Where a byte is -/

/-- The block that holds the byte at offset `i` of the block `p` after the event; none where
the byte is given up or overwritten. -/
def Event.carries (i : Nat) (p : BitVec w) : Event w β → Option (BitVec w)
  | .release q => if q = p then none else some p
  | .resize q n q' =>
    if q ≠ p then some p
    else if q' ≠ 0 then (if i < n then some q' else none)
    else if n = 0 then none else some p
  | .write q offset bs => if q = p ∧ offset ≤ i ∧ i < offset + bs.length then none else some p
  | _ => some p

/-- The block that holds it after all of them. -/
def carried (i : Nat) (p : BitVec w) (es : List (Event w β)) : Option (BitVec w) :=
  es.foldlM (fun p e => e.carries i p) p

def Holds (s : Store w β) (p : BitVec w) (i : Nat) (b : β) : Prop :=
  ∃ bs, s p = some bs ∧ bs[i]? = some b

section Carries

variable {s s' : Store w β} {e : Event w β} {p q : BitVec w} {i : Nat} {b : β}

theorem Holds.of_eq (h : Holds s p i b) (heq : s' p = s p) : Holds s' p i b := by
  obtain ⟨bs, hbs, hb⟩ := h
  exact ⟨bs, heq.trans hbs, hb⟩

/-- A block in use is not the answer to a request. -/
theorem Holds.ne_of_unused (h : Holds s p i b) (hq : s q = none) : p ≠ q := by
  rintro rfl
  obtain ⟨bs, hbs, _⟩ := h
  rw [hq] at hbs
  cases hbs

theorem Holds.obtain {n : Nat} (h : Holds s p i b) (hstep : Step s (.obtain n q) s') :
    Holds s' p i b := by
  cases hstep with
  | refuse n => exact h
  | obtain n q bs hlen happ =>
    exact h.of_eq (update_of_ne (h.ne_of_unused happ.unused) _ _)

theorem getElem?_overwritten {old bs : List β} {offset : Nat}
    (hin : offset + bs.length ≤ old.length) :
    (old.take offset ++ bs ++ old.drop (offset + bs.length))[i]? =
      if offset ≤ i ∧ i < offset + bs.length then bs[i - offset]? else old[i]? := by
  have htake : (old.take offset).length = offset := by
    rw [List.length_take]
    omega
  by_cases hlow : i < offset
  · rw [if_neg (by omega), List.append_assoc, List.getElem?_append_left (by omega),
      List.getElem?_take_of_lt hlow]
  · by_cases hhigh : i < offset + bs.length
    · rw [if_pos ⟨Nat.le_of_not_lt hlow, hhigh⟩, List.append_assoc,
        List.getElem?_append_right (by omega), List.getElem?_append_left (by omega), htake]
    · rw [if_neg (by omega), List.getElem?_append_right (by simp only [List.length_append]; omega),
        List.getElem?_drop, List.length_append, htake]
      congr 1
      omega

/-- What one step does to a byte. -/
theorem Step.carries (h : Step s e s') (hs : Disjoint s) (hb : Holds s p i b)
    (hq : e.carries i p = some q) : Holds s' q i b := by
  have hp : p ≠ 0 := hb.ne_of_unused hs.not_null
  cases h with
  | refuse n =>
    cases hq
    exact hb
  | obtain n q' bs hlen happ =>
    cases hq
    exact hb.of_eq (update_of_ne (hb.ne_of_unused happ.unused) _ _)
  | refuseFilled bs =>
    cases hq
    exact hb
  | obtainFilled bs q' happ =>
    cases hq
    exact hb.of_eq (update_of_ne (hb.ne_of_unused happ.unused) _ _)
  | releaseNull =>
    simp only [Event.carries, if_neg hp.symm, Option.some.injEq] at hq
    exact hq ▸ hb
  | release q' bs hbs =>
    by_cases hne : q' = p
    · simp only [Event.carries, if_pos hne, reduceCtorEq] at hq
    · simp only [Event.carries, if_neg hne, Option.some.injEq] at hq
      exact hq ▸ hb.of_eq (update_of_ne (Ne.symm hne) _ _)
  | resizeNull n q' s' hobtain =>
    simp only [Event.carries, if_pos hp.symm, Option.some.injEq] at hq
    exact hq ▸ hb.obtain hobtain
  | resizeZero q' bs hbs =>
    by_cases hne : q' = p
    · simp [Event.carries, hne] at hq
    · simp only [Event.carries, if_pos hne, Option.some.injEq] at hq
      exact hq ▸ hb.of_eq (update_of_ne (Ne.symm hne) _ _)
  | resizeRefused q' n bs hbs hn =>
    by_cases hne : q' = p
    · simp only [Event.carries, hne, ne_eq, not_true_eq_false, if_false,
        if_neg (Nat.pos_iff_ne_zero.mp hn), Option.some.injEq] at hq
      exact hq ▸ hb
    · simp only [Event.carries, if_pos hne, Option.some.injEq] at hq
      exact hq ▸ hb
  | resize q₁ n q₂ bs bs' hbs hlen happ hkeep =>
    by_cases hne : q₁ = p
    · subst q₁
      simp only [Event.carries, ne_eq, not_true_eq_false, if_false, if_pos happ.not_null,
        ite_eq_iff, Option.some.injEq, reduceCtorEq, and_false, or_false] at hq
      obtain ⟨hi, rfl⟩ := hq
      obtain ⟨old, hold, hbyte⟩ := hb
      rw [hbs] at hold
      cases hold
      refine ⟨bs', update_self _ _ _, ?_⟩
      have hlt : i < bs.length := (List.getElem?_eq_some_iff.mp hbyte).1
      have hmin : i < min bs.length n := Nat.lt_min.mpr ⟨hlt, hi⟩
      rw [← List.getElem?_take_of_lt hmin, hkeep, List.getElem?_take_of_lt hmin]
      exact hbyte
    · simp only [Event.carries, if_pos hne, Option.some.injEq] at hq
      subst q
      have hleft : Holds (update s q₁ none) p i b := hb.of_eq (update_of_ne (Ne.symm hne) _ _)
      exact hleft.of_eq (update_of_ne (hleft.ne_of_unused happ.unused) _ _)
  | write q' offset bs old hold hin =>
    by_cases hne : q' = p
    · subst q'
      by_cases hover : offset ≤ i ∧ i < offset + bs.length
      · simp [Event.carries, hover] at hq
      · simp only [Event.carries, true_and, if_neg hover, Option.some.injEq] at hq
        subst q
        obtain ⟨old', hold', hbyte⟩ := hb
        rw [hold] at hold'
        cases hold'
        refine ⟨_, update_self _ _ _, ?_⟩
        rw [getElem?_overwritten hin, if_neg hover]
        exact hbyte
    · simp only [Event.carries, hne, false_and, if_false, Option.some.injEq] at hq
      exact hq ▸ hb.of_eq (update_of_ne (Ne.symm hne) _ _)
  | read q' offset bs old hold hin hbs =>
    cases hq
    exact hb

theorem run_carries {es : List (Event w β)} (h : Run steps s es s') (hs : Disjoint s)
    (hb : Holds s p i b) (hq : carried i p es = some q) : Holds s' q i b := by
  induction h generalizing p with
  | nil s =>
    cases hq
    exact hb
  | cons hstep _ ih =>
    obtain ⟨e, rfl, hstep⟩ := hstep
    unfold carried at hq
    rw [Option.toList_some, List.singleton_append, List.foldlM_cons] at hq
    obtain ⟨p', hp', hrest⟩ := Option.bind_eq_some_iff.mp hq
    exact ih (hstep.disjoint hs) (hstep.carries hs hb hp') hrest

end Carries

/-- A byte is read as it was written, in the block that it has been carried to since. -/
theorem read_of_written {s : Store w β} {p q : BitVec w} {offset offset' i : Nat}
    {bs cs : List β} {before between : List (Event w β)}
    (h : Run steps empty (before ++ .write p offset bs :: between ++ [.read q offset' cs]) s)
    (hcarried : carried (offset + i) p between = some q) (hi : i < bs.length)
    (hlow : offset' ≤ offset + i) (hhigh : offset + i < offset' + cs.length) :
    cs[offset + i - offset']? = bs[i]? := by
  obtain ⟨m, hrun, hread⟩ := h.split
  obtain ⟨m₀, hbefore, hrun⟩ := hrun.split
  obtain ⟨m₁, m₂, hsilent, hwrite, hbetween⟩ := hrun.split_cons
  obtain ⟨m₃, m₄, hsilent', hread, _⟩ := hread.split_cons
  have hdisjoint := run_disjoint (hbefore.append hsilent)
  obtain ⟨e, he, hwrite⟩ := hwrite
  cases he
  obtain ⟨e', he', hread⟩ := hread
  cases he'
  have hwritten : Holds m₂ p (offset + i) bs[i] := by
    cases hwrite with
    | write _ offset bs old hold hin =>
      refine ⟨_, update_self _ _ _, ?_⟩
      rw [getElem?_overwritten hin, if_pos ⟨Nat.le_add_right _ _, Nat.add_lt_add_left hi _⟩,
        Nat.add_sub_cancel_left, List.getElem?_eq_getElem hi]
  have hcarried' := run_carries hbetween (hwrite.disjoint hdisjoint) hwritten hcarried
  have hheld := run_carries hsilent' (run_disjoint (hbefore.append (hsilent.append
    (.cons (steps_some hwrite) hbetween)))) hcarried' rfl
  obtain ⟨old, hold, hbyte⟩ := hheld
  cases hread with
  | read _ offset' cs old' hold' hin' hcs =>
    rw [hold] at hold'
    cases hold'
    rw [← hcs, List.getElem?_take_of_lt (by omega), List.getElem?_drop,
      Nat.add_sub_cancel' hlow, hbyte, List.getElem?_eq_getElem hi]

end Allocator
