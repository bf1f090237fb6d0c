import MemSentry.Concurrent.Contents
import MemSentry.Library.AtomicObject
import MemSentry.Manager.Clients

/-!
# The manager is a linearizable allocator

`SharedStep` is the machine as its clients see it: they see calls and answers, and what they
write into their blocks and read there. `allocatorObject` is an allocator of
`Library/Allocator` whose requests take effect at one moment. Every history of the first is a
history of the second (`allocator_linearizable`).

An allocation takes effect when its block is handed on to the caller, a release when it is
called, and a reallocation when the contents have been copied: from then on the new block is
the client's, although the old one is still to be given back.
-/

namespace MemSentry

open ByteMemory MemSentry.Core Function World Simulation
open ThreadPool (Pair)

/-! ## The allocator -/

/-- A client writes into a block or reads there. -/
inductive Touch
  | write (p : Ptr) (offset : Nat) (bytes : List Byte)
  | read (p : Ptr) (offset : Nat) (bytes : List Byte)
  deriving DecidableEq

def Touch.event : Touch → Allocator.Event 64 Byte
  | .write p offset bytes => .write p offset bytes
  | .read p offset bytes => .read p offset bytes

/-- What a request may do to an allocator, and the pointer that the client has afterwards. A
block that cannot be resized stays with its client. -/
inductive Served (x : Allocator.Store 64 Byte) : Request → Ptr → Allocator.Store 64 Byte → Prop
  | alloc (size alignment : Word) (tag p : Ptr) (y : Allocator.Store 64 Byte)
      (h : Allocator.Step x (.obtain size.toNat p) y) : Served x (.alloc size alignment tag) p y
  | free (p : Ptr) (y : Allocator.Store 64 Byte) (h : Allocator.Step x (.release p) y) :
      Served x (.free p) 0 y
  | realloc (p : Ptr) (n : Word) (q : Ptr) (y : Allocator.Store 64 Byte)
      (h : Allocator.Step x (.resize p n.toNat q) y) :
      Served x (.realloc p n) (if q = 0 ∧ n ≠ 0 then p else q) y

def allocatorObject : AtomicObject.Object (Allocator.Store 64 Byte) Request Ptr Touch where
  perform := Served
  access := fun x a y => Allocator.Step x a.event y

/-- The allocator and the calls on it. -/
abbrev AllocatorState (ι : Type) := AtomicObject.State ι (Allocator.Store 64 Byte) Request Ptr

abbrev AllocatorEvent (ι : Type) := AtomicObject.Event ι Request Ptr Touch

theorem Served.disjoint {x y : Allocator.Store 64 Byte} {q : Request} {p : Ptr}
    (h : Served x q p y) (hx : Allocator.Disjoint x) : Allocator.Disjoint y := by
  cases h with
  | alloc size alignment tag p y h => exact h.disjoint hx
  | free p y h => exact h.disjoint hx
  | realloc p n q y h => exact h.disjoint hx

/-- Whatever is called in whatever order, the blocks stay apart. -/
theorem disjoint_of_run {ι : Type} [DecidableEq ι] {es : List (AllocatorEvent ι)}
    {a : AllocatorState ι} (h : Run (AtomicObject.Step allocatorObject)
      (AtomicObject.State.start Allocator.empty) es a) : Allocator.Disjoint a.object := by
  refine AtomicObject.run_object (I := Allocator.Disjoint) (fun x q p y hx hserved => ?_)
    (fun x t y hx hstep => ?_) h Allocator.disjoint_empty
  · exact Served.disjoint hserved hx
  · exact Allocator.Step.disjoint hstep hx

/-! ## The machine, as its clients see it -/

/-- The answer that the thread is about to give. -/
def Point.answer {ι : Type} (i : ι) : Point → Option (AllocatorEvent ι)
  | .finish ptr => some (.answer i ptr)
  | _ => none

namespace Machine

variable {ι : Type} [DecidableEq ι] (tid : ι → ThreadId)

inductive SharedStep : Machine ι → Option (AllocatorEvent ι) → Machine ι → Prop
  | call (s : Machine ι) (i : ι) (q : Request) (h : s.Legal tid (.call i q)) :
      SharedStep s (some (.call i q)) (s.step tid (.call i q))
  | advance (s : Machine ι) (i : ι) (o : Oracle) (h : s.Legal tid (.advance i o))
      (hfits : s.Fits (.advance i o)) :
      SharedStep s ((s.pool i).answer i) (s.step tid (.advance i o))
  | setCurrentTag (s : Machine ι) (i : ι) (tag : Ptr) :
      SharedStep s none (s.step tid (.setCurrentTag i tag))
  /-- A client writes into a block that it holds. -/
  | write (s : Machine ι) (p : Ptr) (r : AllocationRecord) (offset : Nat) (bytes : List Byte)
      (hheld : p ∈ s.held) (hfind : s.world.tracker.find p = some r)
      (hin : offset + bytes.length ≤ r.requestedSize.toNat) :
      SharedStep s (some (.access (.write p offset bytes)))
        (s.step tid (.store (writeBytes s.world.mem (p + BitVec.ofNat 64 offset) bytes)))
  | read (s : Machine ι) (p : Ptr) (r : AllocationRecord) (offset length : Nat)
      (hheld : p ∈ s.held) (hfind : s.world.tracker.find p = some r)
      (hin : offset + length ≤ r.requestedSize.toNat) :
      SharedStep s (some (.access (.read p offset
        (readBytes s.world.mem (p + BitVec.ofNat 64 offset) length)))) s
  /-- The system uses the memory outside the live blocks. -/
  | system (s : Machine ι) (mem : Memory)
      (h : ∀ a, mem a ≠ s.world.mem a → ∀ b n, s.world.heap b = some n → ¬ InSpan b n a) :
      SharedStep s none (s.step tid (.store mem))

end Machine

/-! ## Who has which pointer -/

/-- The pointers that an operation has and no client may use: a new one that is still to be
handed on, and an old one that is being released. -/
def Point.hidden : Point → Multiset Ptr
  | .checkLimit ptr _ => nonNull ptr
  | .copy newPtr _ _ => nonNull newPtr
  | .erase ptr _ => nonNull ptr
  | _ => 0

/-- The pointers that an operation has for its client. -/
def Point.keeps : Point → Multiset Ptr
  | .idle | .systemFree _ => 0
  | .drawId _ k | .systemAlloc _ k | .layOut _ _ k | .addTotalBytes _ k | .addTotalCount _ k
  | .addActive _ k | .addCurrent _ k | .loadPeak _ _ k | .raisePeak _ _ _ k | .insert _ k
  | .checkLimit _ k => k.holds.pointers
  | .erase _ result | .verify _ _ result | .addFreedBytes _ _ result | .addFreeCount _ _ result
  | .subActive _ _ result | .subCurrent _ _ result | .recordSize _ _ result | .poison _ result
  | .freeBlock _ result | .finish result => nonNull result
  | .find ptr _ => {ptr}
  | .checkOld ptr _ _ | .copy _ ptr _ | .systemRealloc ptr _ => nonNull ptr

theorem Point.pointers_eq (p : Point) : p.holds.pointers = p.hidden + p.keeps := by
  cases p with
  | checkLimit | copy | erase => rfl
  | _ => simp [Point.holds, Point.hidden, Point.keeps]

/-- What a client finds in the block of a pointer. -/
def World.payload (w : World) (p : Ptr) : Option (List Byte) :=
  (w.tracker.find p).map fun r => readBytes w.mem p r.requestedSize.toNat

/-- The payloads of some pointers. -/
def World.contents (w : World) (kept : Multiset Ptr) : Allocator.Store 64 Byte :=
  fun p => if p ∈ kept then w.payload p else none

section Contents

variable {w w' : World} {kept kept' : Multiset Ptr} {p : Ptr} {r : AllocationRecord}

theorem payload_of_find (hfind : w.tracker.find p = some r) :
    w.payload p = some (readBytes w.mem p r.requestedSize.toNat) := by
  unfold World.payload
  rw [hfind]
  rfl

/-- Writes that stay away from a payload leave it as it is. -/
theorem payload_congr (hsame : w'.tracker.find p = w.tracker.find p)
    (hmem : ∀ r, w.tracker.find p = some r → ∀ a, InSpan p r.requestedSize.toNat a →
      w'.mem a = w.mem a) : w'.payload p = w.payload p := by
  unfold World.payload
  rw [hsame]
  rcases hfind : w.tracker.find p with _ | r
  · rfl
  · have hlt := r.requestedSize.isLt
    refine congrArg some (readBytes_congr fun i hi => hmem r hfind _ ?_)
    rw [InSpan, add_ofNat_sub_toNat _ (by omega)]
    exact hi

theorem contents_of_mem (hp : p ∈ kept) : w.contents kept p = w.payload p := if_pos hp

theorem contents_of_not_mem (hp : p ∉ kept) : w.contents kept p = none := if_neg hp

theorem contents_eq_some {bs : List Byte} (h : w.contents kept p = some bs) :
    p ∈ kept ∧ ∃ r, w.tracker.find p = some r ∧
      bs = readBytes w.mem p r.requestedSize.toNat := by
  unfold World.contents at h
  split at h
  case isTrue hp =>
    obtain ⟨r, hfind, hbs⟩ := Option.map_eq_some_iff.mp h
    exact ⟨hp, r, hfind, hbs.symm⟩
  case isFalse => cases h

theorem contents_congr (h : ∀ q ∈ kept, w'.payload q = w.payload q) :
    w'.contents kept = w.contents kept := by
  funext q
  by_cases hq : q ∈ kept
  · rw [contents_of_mem hq, contents_of_mem hq, h q hq]
  · rw [contents_of_not_mem hq, contents_of_not_mem hq]

/-- Whatever is written, at most the payload of one pointer changes. -/
theorem contents_update (hmem : ∀ q, q ∈ kept' ↔ q = p ∨ q ∈ kept)
    (h : ∀ q ∈ kept, q ≠ p → w'.payload q = w.payload q) :
    w'.contents kept' = update (w.contents kept) p (w'.payload p) := by
  funext q
  by_cases hqp : q = p
  · subst q
    rw [update_self, contents_of_mem ((hmem p).mpr (Or.inl rfl))]
  · rw [update_of_ne hqp]
    by_cases hq : q ∈ kept
    · rw [contents_of_mem hq, contents_of_mem ((hmem q).mpr (Or.inr hq)), h q hq hqp]
    · have hnot : q ∉ kept' := fun hin => ((hmem q).mp hin).elim hqp hq
      rw [contents_of_not_mem hq, contents_of_not_mem hnot]

/-- One pointer less. -/
theorem contents_drop (hp : p ∉ kept) :
    w.contents kept = update (w.contents (p ::ₘ kept)) p none := by
  funext q
  by_cases hqp : q = p
  · subst q
    rw [update_self, contents_of_not_mem hp]
  · rw [update_of_ne hqp]
    by_cases hq : q ∈ kept
    · rw [contents_of_mem hq, contents_of_mem (Multiset.mem_cons_of_mem hq)]
    · have hnot : q ∉ p ::ₘ kept := fun hmem => (Multiset.mem_cons.mp hmem).elim hqp hq
      rw [contents_of_not_mem hq, contents_of_not_mem hnot]

variable {x : Holding}

/-- The payloads of two pointers do not overlap. -/
theorem Custody.payloads_apart (hc : Custody w.accounts x) {q : Ptr} {k : AllocationRecord}
    (hp : w.tracker.find p = some r) (hq : w.tracker.find q = some k) (hne : p ≠ q) :
    p.toNat + r.requestedSize.toNat ≤ q.toNat ∨ q.toNat + k.requestedSize.toNat ≤ p.toNat := by
  have hr : r ∈ w.accounts.tracker.records + x.blocks :=
    Multiset.mem_add.mpr (Or.inl (hc.listed.mem_of_find hp))
  have hk : k ∈ w.accounts.tracker.records + x.blocks :=
    Multiset.mem_add.mpr (Or.inl (hc.listed.mem_of_find hq))
  have hapart := hc.housed.apart _ _ _ _ (hc.housed.housed r hr).live (hc.housed.housed k hk).live
    (hc.rawPtr_ne_of_find hp hq hne)
  have hrkey : r.userPtr = p := hc.listed.keyed _ _ hp
  have hkkey : k.userPtr = q := hc.listed.keyed _ _ hq
  have hrplaced := (hc.housed.housed r hr).placed
  have hkplaced := (hc.housed.housed k hk).placed
  have hrbelow := hrplaced.below
  have hrabove := hrplaced.above
  have hkbelow := hkplaced.below
  have hkabove := hkplaced.above
  rw [hrkey] at hrbelow hrabove
  rw [hkkey] at hkbelow hkabove
  omega

/-- A stored pointer that is not among those kept names a block apart from theirs. -/
theorem Custody.apart_contents (hc : Custody w.accounts x) (hp : w.tracker.find p = some r)
    (hkept : p ∉ kept) : Allocator.Apart (w.contents kept) p r.requestedSize.toNat where
  not_null := ShardedTracker.ne_zero_of_find hp
  space := by
    have hr : r ∈ w.accounts.tracker.records + x.blocks :=
      Multiset.mem_add.mpr (Or.inl (hc.listed.mem_of_find hp))
    have hkey : r.userPtr = p := hc.listed.keyed _ _ hp
    have hplaced := (hc.housed.housed r hr).placed
    have habove := hplaced.above
    have hspace := hplaced.space
    rw [hkey] at habove
    omega
  unused := contents_of_not_mem hkept
  apart := by
    intro q bs hq
    obtain ⟨hmem, k, hfind, rfl⟩ := contents_eq_some hq
    have hne : p ≠ q := by
      rintro rfl
      exact hkept hmem
    rw [length_readBytes]
    exact hc.payloads_apart hp hfind hne

end Contents

/-! ## What a step leaves to the clients -/

section Frame

variable {w w' : World} {p p' : Point} {x : Holding} {q : Ptr}

/-- A pointer that a thread hides is nobody else's, and not kept by it either. -/
theorem Custody.not_hidden {b : Accounts} (hc : Custody b (p.holds + x))
    (hq : q ∈ p.keeps + x.pointers) : q ∉ p.hidden := by
  have hnodup := hc.pointers_nodup
  rw [Holding.pointers_add, p.pointers_eq, add_assoc, Multiset.nodup_add] at hnodup
  exact fun hmem => Multiset.disjoint_left.mp hnodup.2.2 hmem hq

/-- The step changes the payload of none but hidden pointers. -/
theorem Outcome.payload_eq (h : Outcome w p w' p') (hc : Custody w.accounts (p.holds + x))
    (hdate : p.UpToDate w.tracker) (hq : q ∈ p.keeps + x.pointers) :
    w'.payload q = w.payload q := by
  have hhidden := hc.not_hidden hq
  have hmem : q ∈ (p.holds + x).pointers := by
    rw [Holding.pointers_add, p.pointers_eq, add_assoc]
    exact Multiset.mem_add.mpr (Or.inr hq)
  obtain ⟨r, hfind⟩ := hc.listed.find_of_mem hmem
  have hfind : w.tracker.find q = some r := hfind
  have hq0 := ShardedTracker.ne_zero_of_find hfind
  refine payload_congr (h.find_eq hc (by simp [hfind]) ?_) fun r' hfind' a ha => ?_
  · rintro result rfl
    exact hhidden (by simp [Point.hidden, nonNull_of_ne hq0])
  obtain rfl : r = r' := Option.some.inj (hfind.symm.trans hfind')
  have hstored : r ∈ w.tracker.records := hc.listed.mem_of_find hfind
  have hplaced := (hc.housed.housed r (Multiset.mem_add.mpr (Or.inl hstored))).placed
  have hkey : r.userPtr = q := hc.listed.keyed _ _ hfind
  rw [← hkey] at ha
  refine h.frame hc hdate (Multiset.mem_add.mpr (Or.inl hstored)) (hplaced.payload_inSpan ha) ?_
  rintro ptr bytes rfl
  refine absurd ?_ hhidden
  rw [hkey]
  simp [Point.hidden, nonNull_of_ne hq0]

end Frame

/-! ## Requests and answers -/

/-- The request that an operation still has to serve, while it waits for a block. -/
def After.Asked (size : Word) (q : Request) : After → Prop
  | .done => (∃ alignment tag, q = .alloc size alignment tag) ∨ q = .realloc 0 size
  | .moveFrom ptr _ _ => q = .realloc ptr size

/-- The operation still has to serve the request. -/
def Point.Asked (t : ShardedTracker) (q : Request) : Point → Prop
  | .drawId args k | .layOut args _ k => k.Asked args.size q
  | .addTotalBytes r k | .addTotalCount r k | .addActive r k | .addCurrent r k
  | .loadPeak r _ k | .raisePeak r _ _ k | .insert r k => k.Asked r.requestedSize q
  | .checkLimit ptr k => ∃ r, t.find ptr = some r ∧ k.Asked r.requestedSize q
  | .find ptr newSize | .checkOld ptr _ newSize => q = .realloc ptr newSize
  | .copy newPtr ptr _ => ∃ r, t.find newPtr = some r ∧ q = .realloc ptr r.requestedSize
  | _ => False

/-- The answer that the operation is going to give. -/
def Point.settled : Point → Option Ptr
  | .erase _ result | .verify _ _ result | .addFreedBytes _ _ result | .addFreeCount _ _ result
  | .subActive _ _ result | .subCurrent _ _ result | .recordSize _ _ result | .poison _ result
  | .freeBlock _ result | .finish result => some result
  | _ => none

/-- Only an operation that ends is seen. -/
theorem Point.unseen {ι : Type} {p : Point} (h : ∀ ptr, p ≠ .finish ptr) (i : ι) :
    p.answer i = none ∧ p.given = 0 := by
  cases p with
  | finish ptr => exact absurd rfl (h ptr)
  | _ => exact ⟨rfl, rfl⟩

theorem Point.keeps_next_failed (k : After) : (k.next 0).keeps = k.holds.pointers := by
  cases k with
  | done => rfl
  | moveFrom old record newSize =>
    rw [After.next_failed]
    rfl

/-- What the allocator knows of the thread. -/
def Point.Serves (t : ShardedTracker) (p : Point) : Option (Request ⊕ Ptr) → Prop
  | none => p = .idle
  | some (.inl q) => p.Asked t q
  | some (.inr result) => p.settled = some result

theorem Point.Asked.congr {t t' : ShardedTracker} {p : Point} {q : Request}
    (hfind : ∀ ptr ∈ p.hidden, t.find ptr ≠ none → t'.find ptr = t.find ptr)
    (h : p.Asked t q) : p.Asked t' q := by
  cases p with
  | checkLimit ptr k =>
    obtain ⟨r, hr, hk⟩ := h
    refine ⟨r, ?_, hk⟩
    rw [hfind ptr ?_ (by simp [hr]), hr]
    simp [Point.hidden, nonNull_of_ne (ShardedTracker.ne_zero_of_find hr)]
  | copy newPtr ptr bytes =>
    obtain ⟨r, hr, hq⟩ := h
    refine ⟨r, ?_, hq⟩
    rw [hfind newPtr ?_ (by simp [hr]), hr]
    simp [Point.hidden, nonNull_of_ne (ShardedTracker.ne_zero_of_find hr)]
  | _ => exact h

/-- What a step means for the request of its thread: the request waits on, or it is refused or
served, or its answer is given. -/
inductive Passage (w w' : World) : Point → Point → Prop
  | waits {p p' : Point} (hkeeps : p'.keeps = p.keeps) (hbusy : ∀ ptr, p ≠ .finish ptr)
      (hserves : ∀ x, p.Serves w.tracker x → p'.Serves w'.tracker x) : Passage w w' p p'
  | refused (args : AllocArgs) (allocId : Word) (k : After) :
      Passage w w' (.layOut args allocId k) (k.next 0)
  | obtained (ptr : Ptr) : Passage w w' (.checkLimit ptr .done) (.finish ptr)
  | resized (newPtr ptr : Ptr) (bytes : Word)
      (hmem : w'.mem = writeBytes w.mem newPtr (readBytes w.mem ptr bytes.toNat)) :
      Passage w w' (.copy newPtr ptr bytes) (.erase ptr newPtr)
  | answered (ptr : Ptr) : Passage w w' (.finish ptr) .idle

section Passages

variable {w w' : World} {tid : ThreadId} {o : Oracle} {p p' : Point} {x : Holding}

/-- A step that only goes on. -/
theorem Passage.goes_on (hidle : p ≠ .idle) (hbusy : ∀ ptr, p ≠ .finish ptr)
    (hkeeps : p'.keeps = p.keeps)
    (hasked : ∀ q, p.Asked w.tracker q → p'.Asked w'.tracker q)
    (hsettled : p'.settled = p.settled) : Passage w w' p p' := by
  refine .waits hkeeps hbusy fun x hx => ?_
  rcases x with _ | q | result
  · exact absurd hx hidle
  · exact hasked q hx
  · exact hsettled.trans hx

theorem advanceAllocate_passage (hopen : w.Open) (hinside : ¬ p.Stray) (hfits : w.Fits o p)
    (hc : Custody w.accounts (p.holds + x)) (hdate : p.UpToDate w.tracker) (hidle : p ≠ .idle)
    (hbusy : ∀ ptr, p ≠ .finish ptr) :
    Passage w (w.clearLog.advanceAllocate tid o p).1 p (w.clearLog.advanceAllocate tid o p).2 := by
  cases p with
  | drawId args k =>
    have hgate : (w.clearLog.gate o tid args.size).1 = true :=
      @gate_of_exhaustive w.clearLog tid o hopen.exhaustive args.size
    have hnext : (w.clearLog.advanceAllocate tid o (.drawId args k)).2 =
        .layOut args w.allocCounter k := if_pos hgate
    rw [hnext]
    exact .goes_on Point.noConfusion (fun _ => Point.noConfusion) rfl (fun _ hq => hq) rfl
  | systemAlloc size k => exact absurd trivial hinside
  | layOut args allocId k =>
    unfold advanceAllocate
    dsimp only
    by_cases h0 : calculateTotalSize args.size (effectiveAlignment args.alignment)
        w.config.footerSize = 0
    · rw [@layOut_of_zero w.clearLog tid o args allocId k h0]
      exact .refused args allocId k
    by_cases hraw : o.malloc = 0
    · rw [@layOut_of_null w.clearLog tid o args allocId k h0 hraw]
      exact .refused args allocId k
    have hfit := (hfits.resolve_left h0).resolve_left hraw
    rw [@layOut_of_fit w.clearLog tid o args allocId k h0 hraw hfit]
    exact .goes_on Point.noConfusion (fun _ => Point.noConfusion) rfl (fun _ hq => hq) rfl
  | raisePeak r current peak k =>
    unfold advanceAllocate
    dsimp only
    split
    · split
      · exact .goes_on Point.noConfusion (fun _ => Point.noConfusion) rfl (fun _ hq => hq) rfl
      · exact .goes_on Point.noConfusion (fun _ => Point.noConfusion) rfl (fun _ hq => hq) rfl
    · exact .goes_on Point.noConfusion (fun _ => Point.noConfusion) rfl (fun _ hq => hq) rfl
  | insert r k =>
    have hne := (hc.find_of_held (r := r) (by simp [Point.holds])).1
    exact .goes_on Point.noConfusion (fun _ => Point.noConfusion) rfl
      (fun q hq => ⟨r, ShardedTracker.find_insert_self hne, hq⟩) rfl
  | checkLimit ptr k =>
    obtain ⟨r, hfind, hk⟩ := hdate
    have htracker : w.clearLog.checkLimit.tracker = w.tracker :=
      congrArg Accounts.tracker (@accounts_checkLimit w.clearLog)
    have hne := ShardedTracker.ne_zero_of_find hfind
    unfold advanceAllocate
    dsimp only
    cases k with
    | done => exact .obtained ptr
    | moveFrom old record newSize =>
      rw [After.next_moved hne]
      refine .goes_on Point.noConfusion (fun _ => Point.noConfusion) rfl (fun q hq => ?_) rfl
      rw [htracker]
      exact hq
  | addTotalBytes r k | addTotalCount r k | addActive r k | addCurrent r k | loadPeak r current k =>
    exact .goes_on Point.noConfusion (fun _ => Point.noConfusion) rfl (fun _ hq => hq) rfl
  | _ => exact .goes_on hidle hbusy rfl (fun _ hq => hq) rfl

theorem advanceDeallocate_passage (hinside : ¬ p.Stray) (hidle : p ≠ .idle)
    (hbusy : ∀ ptr, p ≠ .finish ptr) :
    Passage w (w.clearLog.advanceDeallocate p).1 p (w.clearLog.advanceDeallocate p).2 := by
  cases p with
  | erase ptr result =>
    unfold advanceDeallocate
    dsimp only
    split
    · exact .goes_on Point.noConfusion (fun _ => Point.noConfusion) rfl (fun _ hq => hq.elim) rfl
    · split
      · exact .goes_on Point.noConfusion (fun _ => Point.noConfusion) rfl (fun _ hq => hq.elim) rfl
      · exact .goes_on Point.noConfusion (fun _ => Point.noConfusion) rfl (fun _ hq => hq.elim) rfl
      · exact .goes_on Point.noConfusion (fun _ => Point.noConfusion) rfl (fun _ hq => hq.elim) rfl
  | recordSize r verdict result =>
    unfold advanceDeallocate
    dsimp only
    split
    · exact .goes_on Point.noConfusion (fun _ => Point.noConfusion) rfl (fun _ hq => hq.elim) rfl
    · exact .goes_on Point.noConfusion (fun _ => Point.noConfusion) rfl (fun _ hq => hq.elim) rfl
  | systemFree ptr => exact absurd trivial hinside
  | verify | addFreedBytes | addFreeCount | subActive | subCurrent | poison | freeBlock =>
    exact .goes_on Point.noConfusion (fun _ => Point.noConfusion) rfl (fun _ hq => hq.elim) rfl
  | _ => exact .goes_on hidle hbusy rfl (fun _ hq => hq) rfl

theorem advanceReallocate_passage (hopen : w.Open) (hinside : ¬ p.Stray) (hready : w.Ready p)
    (hdate : p.UpToDate w.tracker) (hidle : p ≠ .idle) (hbusy : ∀ ptr, p ≠ .finish ptr) :
    Passage w (w.clearLog.advanceReallocate tid o p).1 p
      (w.clearLog.advanceReallocate tid o p).2 := by
  cases p with
  | find ptr newSize =>
    obtain ⟨r, hfind⟩ := hready
    rw [@find_of_stored w.clearLog tid o ptr r hfind newSize]
    refine .goes_on Point.noConfusion (fun _ => Point.noConfusion) ?_ (fun _ hq => hq) rfl
    exact nonNull_of_ne (ShardedTracker.ne_zero_of_find hfind)
  | checkOld ptr r newSize =>
    have henter := @enterAllocate_of_open w.clearLog tid ⟨hopen.1, hopen.2, hopen.3⟩
      ⟨newSize, r.alignment, r.tag⟩ (.moveFrom ptr r newSize)
    unfold advanceReallocate
    dsimp only
    rw [henter]
    exact .goes_on Point.noConfusion (fun _ => Point.noConfusion) rfl (fun _ hq => hq) rfl
  | copy newPtr ptr bytes => exact .resized newPtr ptr bytes rfl
  | systemRealloc ptr newSize => exact absurd trivial hinside
  | _ => exact .goes_on hidle hbusy rfl (fun _ hq => hq) rfl

/-- A step on the tracked path. -/
theorem advance_passage (hopen : w.Open) (hinside : ¬ p.Stray) (hready : w.Ready p)
    (hfits : w.Fits o p) (hc : Custody w.accounts (p.holds + x)) (hdate : p.UpToDate w.tracker) :
    Passage w (w.clearLog.advance tid o p).1 p (w.clearLog.advance tid o p).2 := by
  cases p with
  | idle => exact .waits rfl (fun _ => Point.noConfusion) fun _ hx => hx
  | finish ptr => exact .answered ptr
  | drawId | systemAlloc | layOut | addTotalBytes | addTotalCount | addActive | addCurrent
  | loadPeak | raisePeak | insert | checkLimit =>
    exact advanceAllocate_passage hopen hinside hfits hc hdate Point.noConfusion
      fun _ => Point.noConfusion
  | erase | verify | addFreedBytes | addFreeCount | subActive | subCurrent | recordSize | poison
  | freeBlock | systemFree =>
    exact advanceDeallocate_passage hinside Point.noConfusion fun _ => Point.noConfusion
  | find | checkOld | copy | systemRealloc =>
    exact advanceReallocate_passage hopen hinside hready hdate Point.noConfusion
      fun _ => Point.noConfusion

end Passages

/-! ## Taking effect -/

section Effects

variable {w w' : World} {kept : Multiset Ptr} {k : After} {x : Holding} {q : Request}
  {size : Word} {ptr newPtr : Ptr} {r r' : AllocationRecord}

/-- Without memory, an allocation is refused, and a reallocation leaves its block alone. -/
theorem served_refused (hasked : k.Asked size q) (hdate : k.UpToDate w.tracker size)
    (hkept : ∀ p ∈ k.holds.pointers, p ∈ kept) :
    ∃ result, (k.next 0).settled = some result ∧
      Served (w.contents kept) q result (w.contents kept) := by
  cases k with
  | done =>
    refine ⟨0, rfl, ?_⟩
    rcases hasked with ⟨alignment, tag, rfl⟩ | rfl
    · exact .alloc size alignment tag 0 _ (.refuse _)
    · have hserved := Served.realloc 0 size 0 _
        (.resizeNull _ _ _ (.refuse (s := w.contents kept) _))
      rwa [ite_self] at hserved
  | moveFrom old record newSize =>
    obtain ⟨rfl, hne, hfind⟩ := hdate
    have hq : q = .realloc old newSize := hasked
    subst q
    have hold := ShardedTracker.ne_zero_of_find hfind
    have hmem : old ∈ kept := hkept old (by simp [After.holds, nonNull_of_ne hold])
    have hstored := (contents_of_mem (w := w) hmem).trans (payload_of_find hfind)
    rw [After.next_failed]
    have hserved := Served.realloc old newSize 0 _ (.resizeRefused old _ _ hstored
      (Nat.pos_of_ne_zero fun h0 => hne (BitVec.eq_of_toNat_eq h0)))
    rw [if_pos ⟨rfl, hne⟩] at hserved
    exact ⟨old, rfl, hserved⟩

/-- A block that is stored may be handed out. -/
theorem served_obtained (hasked : After.done.Asked r.requestedSize q)
    (hc : Custody w.accounts x) (hfind : w.tracker.find ptr = some r) (hkept : ptr ∉ kept)
    {bs : List Byte} (hlen : bs.length = r.requestedSize.toNat) :
    Served (w.contents kept) q ptr (update (w.contents kept) ptr (some bs)) := by
  have hstep := Allocator.Step.obtain r.requestedSize.toNat ptr bs hlen
    (hc.apart_contents hfind hkept)
  rcases hasked with ⟨alignment, tag, rfl⟩ | rfl
  · exact .alloc r.requestedSize alignment tag ptr _ hstep
  · have hserved := Served.realloc 0 r.requestedSize ptr _ (.resizeNull _ _ _ hstep)
    rwa [if_neg fun h => ShardedTracker.ne_zero_of_find hfind h.1] at hserved

/-- When the contents have been copied, the new block takes the place of the old one. -/
theorem served_resized (hc : Custody w.accounts x) (hold : w.tracker.find ptr = some r)
    (hnew : w.tracker.find newPtr = some r') (hptr : ptr ∉ kept) (hkept : newPtr ∉ kept)
    {m : Memory}
    (hm : m = writeBytes w.mem newPtr (readBytes w.mem ptr (copyBytes r r'.requestedSize).toNat)) :
    Served (w.contents (ptr ::ₘ kept)) (.realloc ptr r'.requestedSize) newPtr
      (update (w.contents kept) newPtr (some (readBytes m newPtr r'.requestedSize.toNat))) := by
  have hbytes := toNat_copyBytes r r'.requestedSize
  have hlt := (copyBytes r r'.requestedSize).isLt
  have hcopied := @readBytes_writeBytes_self 64 w.mem newPtr
    (readBytes w.mem ptr (copyBytes r r'.requestedSize).toNat)
    (by rw [length_readBytes]; exact Nat.le_of_lt hlt)
  rw [length_readBytes, ← hm] at hcopied
  have hkeep : (readBytes m newPtr r'.requestedSize.toNat).take
      (min (readBytes w.mem ptr r.requestedSize.toNat).length r'.requestedSize.toNat) =
      (readBytes w.mem ptr r.requestedSize.toNat).take
        (min (readBytes w.mem ptr r.requestedSize.toNat).length r'.requestedSize.toNat) := by
    rw [length_readBytes, ← hbytes, take_readBytes _ _ (by omega), take_readBytes _ _ (by omega)]
    exact hcopied
  have hstored := (contents_of_mem (w := w) (Multiset.mem_cons_self ptr kept)).trans
    (payload_of_find hold)
  have hapart := hc.apart_contents hnew hkept
  rw [contents_drop hptr] at hapart ⊢
  have hserved := Served.realloc ptr r'.requestedSize newPtr _
    (.resize ptr _ newPtr _ _ hstored (length_readBytes _ _ _) hapart hkeep)
  rwa [if_neg fun h => ShardedTracker.ne_zero_of_find hnew h.1] at hserved

/-- A call starts with its request to serve, unless this takes effect at once. -/
theorem enter_serves {tid : ThreadId} (hopen : w.Open) (q : Request)
    (hnodup : (q.pointers + kept).Nodup)
    (hstored : ∀ p ∈ q.pointers + kept, ∃ r, w.tracker.find p = some r) :
    ((w.enter tid q).Asked w.tracker q ∧ (w.enter tid q).keeps = q.pointers) ∨
      ∃ result, (w.enter tid q).settled = some result ∧ (w.enter tid q).keeps = 0 ∧
        Served (w.contents (q.pointers + kept)) q result (w.contents kept) := by
  have hgiven : ∀ p : Ptr, p ≠ 0 → q.pointers = nonNull p →
      ∃ bs, w.contents (q.pointers + kept) p = some bs ∧
        w.contents kept = update (w.contents (q.pointers + kept)) p none := by
    intro p hp hpointers
    rw [nonNull_of_ne hp] at hpointers
    rw [hpointers, Multiset.singleton_add] at hnodup hstored ⊢
    obtain ⟨r, hfind⟩ := hstored p (Multiset.mem_cons_self p kept)
    exact ⟨_, (contents_of_mem (Multiset.mem_cons_self p kept)).trans (payload_of_find hfind),
      contents_drop (Multiset.nodup_cons.mp hnodup).1⟩
  cases q with
  | alloc size alignment tag =>
    rw [enter, enterAllocate_of_open hopen]
    exact Or.inl ⟨Or.inl ⟨alignment, tag, rfl⟩, rfl⟩
  | free p =>
    rcases eq_or_ne p 0 with rfl | hp
    · refine Or.inr ⟨0, rfl, rfl, ?_⟩
      rw [show (Request.free 0).pointers = 0 from rfl, zero_add]
      exact .free 0 _ .releaseNull
    · obtain ⟨bs, hbs, hdrop⟩ := hgiven p hp rfl
      rw [enter_free hopen hp, hdrop]
      exact Or.inr ⟨0, rfl, rfl, .free p _ (.release p bs hbs)⟩
  | realloc p n =>
    have hunfold : w.enter tid (.realloc p n) =
        if p = 0 then w.enterAllocate tid ⟨n, w.config.alignment, 0⟩ .done
        else if n = 0 then .erase p 0 else .find p n :=
      if_neg (by simp [hopen.unguarded tid, hopen.initialized])
    rw [hunfold]
    rcases eq_or_ne p 0 with rfl | hp
    · rw [if_pos rfl, enterAllocate_of_open hopen]
      exact Or.inl ⟨Or.inr rfl, rfl⟩
    rw [if_neg hp]
    obtain ⟨bs, hbs, hdrop⟩ := hgiven p hp rfl
    rcases eq_or_ne n 0 with rfl | hn
    · rw [if_pos rfl, hdrop]
      have hserved := Served.realloc p 0 0 _ (.resizeZero p bs hbs)
      rw [if_neg fun h => h.2 rfl] at hserved
      exact Or.inr ⟨0, rfl, rfl, hserved⟩
    · rw [if_neg hn]
      exact Or.inl ⟨rfl, (nonNull_of_ne hp).symm⟩

/-- A write into one payload changes no other. -/
theorem write_accessed (hc : Custody w.accounts x) (hfind : w.tracker.find ptr = some r)
    (hkept : ptr ∈ kept) {offset : Nat} {bytes : List Byte}
    (hin : offset + bytes.length ≤ r.requestedSize.toNat) (htracker : w'.tracker = w.tracker)
    (hmem : w'.mem = writeBytes w.mem (ptr + BitVec.ofNat 64 offset) bytes) :
    Allocator.Step (w.contents kept) (.write ptr offset bytes) (w'.contents kept) := by
  have hsize := Nat.le_of_lt r.requestedSize.isLt
  have hothers : ∀ q ∈ kept, q ≠ ptr → w'.payload q = w.payload q := by
    intro q _ hne
    refine payload_congr (by rw [htracker]) fun k hk a ha => ?_
    rw [hmem]
    refine writeBytes_of_not_inSpan fun hwritten => ?_
    have hapart := hc.payloads_apart hfind hk hne.symm
    have hspace := (hc.apart_contents hfind (Multiset.notMem_zero ptr)).space
    have hspace' := (hc.apart_contents hk (Multiset.notMem_zero q)).space
    have hpayload := inSpan_of_offset hin hwritten
    rw [inSpan_iff hspace] at hpayload
    rw [inSpan_iff hspace'] at ha
    omega
  have hwritten : w'.payload ptr = some (
      (readBytes w.mem ptr r.requestedSize.toNat).take offset ++ bytes ++
        (readBytes w.mem ptr r.requestedSize.toNat).drop (offset + bytes.length)) := by
    rw [payload_of_find (w := w') (r := r) (by rw [htracker, hfind]), hmem,
      readBytes_overwritten _ _ hin hsize]
  have hstep := Allocator.Step.write ptr offset bytes _
    ((contents_of_mem hkept).trans (payload_of_find hfind)) (by rwa [length_readBytes])
  have hmem : ∀ q, q ∈ kept ↔ q = ptr ∨ q ∈ kept :=
    fun q => ⟨Or.inr, fun h => h.elim (fun hq => hq ▸ hkept) id⟩
  rwa [← hwritten, ← contents_update hmem hothers] at hstep

theorem read_accessed (hfind : w.tracker.find ptr = some r) (hkept : ptr ∈ kept)
    {offset length : Nat} (hin : offset + length ≤ r.requestedSize.toNat) :
    Allocator.Step (w.contents kept) (.read ptr offset
      (readBytes w.mem (ptr + BitVec.ofNat 64 offset) length)) (w.contents kept) := by
  refine .read _ _ _ _ ((contents_of_mem hkept).trans (payload_of_find hfind)) ?_ ?_
  · rwa [length_readBytes, length_readBytes]
  · rw [length_readBytes]
    obtain ⟨j, hj⟩ := Nat.exists_eq_add_of_le hin
    rw [hj, Nat.add_assoc, drop_readBytes, take_readBytes _ _ (Nat.le_add_right _ _)]

/-- The memory outside the live blocks is in no payload. -/
theorem contents_system (hc : Custody w.accounts x) (htracker : w'.tracker = w.tracker)
    (hmem : ∀ a, w'.mem a ≠ w.mem a → ∀ b n, w.heap b = some n → ¬ InSpan b n a) :
    w'.contents kept = w.contents kept := by
  refine contents_congr fun q _ => payload_congr (by rw [htracker]) fun r hfind a ha => ?_
  by_contra hchanged
  have hblock := hc.housed.housed r (Multiset.mem_add.mpr (Or.inl (hc.listed.mem_of_find hfind)))
  have hkey : r.userPtr = q := hc.listed.keyed _ _ hfind
  rw [← hkey] at ha
  exact hmem a hchanged _ _ hblock.live (hblock.placed.payload_inSpan ha)

end Effects

/-! ## The simulation -/

def Holding.pointersHom : Holding →+ Multiset Ptr where
  toFun := Holding.pointers
  map_zero' := rfl
  map_add' := Holding.pointers_add

namespace Machine

variable {ι : Type} [Fintype ι] [DecidableEq ι]

/-- The pointers that are the clients' own, also while a call is in progress. -/
def kept (s : Machine ι) : Multiset Ptr := ThreadPool.total Point.keeps s.pool + s.held

/-- Those that are not in the hands of the thread. -/
def beside (s : Machine ι) (i : ι) : Multiset Ptr :=
  ThreadPool.others Point.keeps s.pool i + s.held

/-- The allocator contains the payloads, and serves the requests in progress. -/
structure Shows (s : Machine ι) (a : AllocatorState ι) : Prop where
  object : a.object = s.world.contents s.kept
  serves : ∀ i, (s.pool i).Serves s.world.tracker (a.pool i)

variable {tid : ι → ThreadId} {s : Machine ι} {a : AllocatorState ι}

omit [DecidableEq ι] in
theorem kept_of_quiescent (hq : s.Quiescent) : s.kept = s.held := by
  unfold kept
  rw [ThreadPool.total_eq_zero fun i => ?_]
  · exact zero_add _
  · rw [hq i]
    rfl

theorem kept_eq (s : Machine ι) (i : ι) : s.kept = (s.pool i).keeps + s.beside i := by
  rw [kept, ThreadPool.total_eq _ _ i, add_assoc]
  rfl

theorem pointers_aside (s : Machine ι) (i : ι) :
    (s.aside i).pointers = ThreadPool.others Point.hidden s.pool i + s.beside i := by
  have hothers := ThreadPool.map_others Holding.pointersHom Point.holds s.pool i
  have hsplit : (fun p : Point => Holding.pointersHom p.holds) = fun p => p.hidden + p.keeps :=
    funext Point.pointers_eq
  rw [hsplit, ThreadPool.others_add] at hothers
  have hpointers : (ThreadPool.others Point.holds s.pool i).pointers =
      ThreadPool.others Point.hidden s.pool i + ThreadPool.others Point.keeps s.pool i := hothers
  rw [aside, Holding.pointers_add, hpointers, add_assoc]
  rfl

/-- The pointers kept lie among those that a thread does not hide. -/
theorem kept_le (s : Machine ι) (i : ι) : s.kept ≤ (s.pool i).keeps + (s.aside i).pointers := by
  rw [kept_eq s i, pointers_aside]
  exact add_le_add_right (Multiset.le_add_left _ _) _

theorem Unspoilt.kept_nodup (hs : s.Unspoilt) (i : ι) : s.kept.Nodup := by
  have hnodup := (hs.tended.custody_at i).pointers_nodup
  rw [Holding.pointers_add, Point.pointers_eq, add_assoc] at hnodup
  exact Multiset.nodup_of_le (kept_le s i) (Multiset.nodup_add.mp hnodup).2.1

theorem Unspoilt.not_hidden (hs : s.Unspoilt) {i : ι} {q : Ptr} (hq : q ∈ (s.pool i).hidden) :
    q ∉ s.kept := fun hkept =>
  (hs.tended.custody_at i).not_hidden (Multiset.mem_of_le (kept_le s i) hkept) hq

theorem asked_of_serves {t : ShardedTracker} {p : Point} {x : Option (Request ⊕ Ptr)}
    (h : p.Serves t x) (hidle : p ≠ .idle) (hsettled : p.settled = none) :
    ∃ q, x = some (.inl q) ∧ p.Asked t q := by
  rcases x with _ | q | result
  · exact absurd h hidle
  · exact ⟨q, rfl, h⟩
  · have hnone : p.settled = some result := h
    rw [hsettled] at hnone
    cases hnone

/-- It is enough to look at the payloads and at the thread that moves. -/
theorem shows_update {s' : Machine ι} {i : ι} {object : Allocator.Store 64 Byte}
    {x : Option (Request ⊕ Ptr)} (hobject : object = s'.world.contents s'.kept)
    (hmoved : (s'.pool i).Serves s'.world.tracker x)
    (hothers : ∀ j, j ≠ i → (s'.pool j).Serves s'.world.tracker (a.pool j)) :
    s'.Shows ⟨object, update a.pool i x⟩ := by
  refine ⟨hobject, fun j => ?_⟩
  dsimp only
  by_cases hj : j = i
  · subst j
    rw [update_self]
    exact hmoved
  · rw [update_of_ne hj]
    exact hothers j hj

/-- What the allocator knows of the other threads is still so. -/
theorem Unspoilt.serves_step (hs : s.Unspoilt) {i j : ι} {w' : World} {p' : Point} (hij : j ≠ i)
    (h : Outcome s.world (s.pool i) w' p') {x : Option (Request ⊕ Ptr)}
    (hx : (s.pool j).Serves s.world.tracker x) : (s.pool j).Serves w'.tracker x := by
  have hc := hs.tended.custody_at i
  obtain ⟨rest, hrest⟩ := exists_aside_eq s hij
  rcases x with _ | q | result
  · exact hx
  · refine Point.Asked.congr (fun q hq hstored => h.find_eq hc hstored fun result hp => ?_) hx
    have hq0 : q ≠ 0 := by
      rintro rfl
      exact hstored ShardedTracker.find_null
    rw [hp] at hc
    refine hc.erase_ne ?_ hq0 rfl
    rw [hrest, Holding.pointers_add, Point.pointers_eq]
    exact Multiset.mem_add.mpr (Or.inl (Multiset.mem_add.mpr (Or.inl hq)))
  · exact hx

/-- The request of a thread takes effect. -/
theorem perform_shown {s' : Machine ι} {i : ι} {q : Request} {result : Ptr}
    (hq : a.pool i = some (.inl q)) (hserved : Served a.object q result (s'.world.contents s'.kept))
    (hsettled : (s'.pool i).settled = some result)
    (hothers : ∀ j, j ≠ i → (s'.pool j).Serves s'.world.tracker (a.pool j)) :
    ∃ a', Run (AtomicObject.Step allocatorObject) a [] a' ∧ s'.Shows a' := by
  have hstep : AtomicObject.Step allocatorObject a none
      ⟨s'.world.contents s'.kept, update a.pool i (some (.inr result))⟩ :=
    .perform a i q result _ hq hserved
  exact ⟨_, .single hstep, shows_update rfl hsettled hothers⟩

/-- A step of a thread is a step of the allocator, or is not seen. -/
theorem Unspoilt.passage_shown (hs : s.Unspoilt) (ha : s.Shows a) {s' : Machine ι} {i : ι}
    {p' : Point} (hpass : Passage s.world s'.world (s.pool i) p')
    (hout : Outcome s.world (s.pool i) s'.world p') (hpool : s'.pool = update s.pool i p')
    (hheld : s'.held = s.held + (s.pool i).given) :
    ∃ a', Run (AtomicObject.Step allocatorObject) a ((s.pool i).answer i).toList a' ∧
      s'.Shows a' := by
  have hc := hs.tended.custody_at i
  have hdate := hs.upToDate i
  have hserves := ha.serves i
  have hsame : ∀ q ∈ s.kept, s'.world.payload q = s.world.payload q :=
    fun q hq => hout.payload_eq hc hdate (Multiset.mem_of_le (kept_le s i) hq)
  have hold := kept_eq s i
  have hnew : s'.kept = p'.keeps + ((s.pool i).given + s.beside i) := by
    rw [kept, beside, hpool, hheld, ThreadPool.total_update]
    ac_rfl
  have hpoint : s'.pool i = p' := by rw [hpool, update_self]
  have hothers : ∀ j, j ≠ i → (s'.pool j).Serves s'.world.tracker (a.pool j) := by
    intro j hj
    rw [hpool, update_of_ne hj]
    exact hs.serves_step hj hout (ha.serves j)
  have hhidden : ∀ q ∈ (s.pool i).hidden, q ∉ s.kept := fun q hq => hs.not_hidden hq
  have hnodup := hs.kept_nodup i
  have hobject := ha.object
  generalize hp : s.pool i = p at hpass hout hc hdate hserves hold hnew hhidden ⊢
  cases hpass with
  | waits hkeeps hbusy hgoes =>
    obtain ⟨hlabel, hgiven⟩ := Point.unseen hbusy i
    rw [hlabel]
    rw [hkeeps, hgiven, zero_add, ← hold] at hnew
    have hobject' : a.object = s'.world.contents s'.kept := by
      rw [hobject, hnew, contents_congr hsame]
    have hmoved : (s'.pool i).Serves s'.world.tracker (a.pool i) := by
      rw [hpoint]
      exact hgoes _ hserves
    have hshows := shows_update hobject' hmoved hothers
    rw [update_eq_self] at hshows
    exact ⟨a, .nil a, hshows⟩
  | refused args allocId k =>
    obtain ⟨q, hq, hasked⟩ := asked_of_serves hserves Point.noConfusion rfl
    rw [show (Point.layOut args allocId k).given = 0 from rfl, Point.keeps_next_failed,
      zero_add] at hnew
    have hkept : s'.kept = s.kept := hnew.trans hold.symm
    have hmine : ∀ q ∈ k.holds.pointers, q ∈ s.kept := by
      intro q hq
      rw [hold]
      exact Multiset.mem_add.mpr (Or.inl hq)
    obtain ⟨result, hsettled, hserved⟩ := served_refused hasked hdate hmine
    rw [← hpoint] at hsettled
    refine perform_shown hq ?_ hsettled hothers
    rwa [hobject, hkept, contents_congr hsame]
  | obtained ptr =>
    obtain ⟨q, hq, r, hfind, hasked⟩ := asked_of_serves hserves Point.noConfusion rfl
    have hne := ShardedTracker.ne_zero_of_find hfind
    have hfind' : s'.world.tracker.find ptr = some r := by
      rw [← hfind]
      exact hout.find_eq hc (by simp [hfind]) fun _ => Point.noConfusion
    have hnot : ptr ∉ s.kept := hhidden ptr (by simp [Point.hidden, nonNull_of_ne hne])
    have hmem : ∀ q, q ∈ s'.kept ↔ q = ptr ∨ q ∈ s.kept := by
      intro q
      rw [hnew, hold]
      simp [Point.keeps, Point.given, After.holds, nonNull_of_ne hne]
    have hsettled : (s'.pool i).settled = some ptr := congrArg Point.settled hpoint
    refine perform_shown hq ?_ hsettled hothers
    rw [hobject, contents_update hmem fun q hq _ => hsame q hq, payload_of_find hfind']
    exact served_obtained hasked hc hfind hnot (length_readBytes _ _ _)
  | resized newPtr ptr bytes hmem =>
    obtain ⟨q, hq, r', hfind', rfl⟩ := asked_of_serves hserves Point.noConfusion rfl
    obtain ⟨r, k, hfind, hk, hsize, rfl⟩ := id hdate
    obtain rfl : k = r' := Option.some.inj (hk.symm.trans hfind')
    have hne := ShardedTracker.ne_zero_of_find hfind
    have hne' := ShardedTracker.ne_zero_of_find hfind'
    have hstored : s'.world.tracker.find newPtr = some k := by
      rw [← hfind']
      exact hout.find_eq hc (by simp [hfind']) fun _ => Point.noConfusion
    have hcons : s.kept = ptr ::ₘ s.beside i := by
      rw [hold]
      simp [Point.keeps, nonNull_of_ne hne]
    rw [hcons] at hnodup
    have hptr : ptr ∉ s.beside i := (Multiset.nodup_cons.mp hnodup).1
    have hnewPtr : newPtr ∉ s.beside i := fun h => hhidden newPtr
      (by simp [Point.hidden, nonNull_of_ne hne']) (by rw [hcons]; exact Multiset.mem_cons_of_mem h)
    have hmem' : ∀ q, q ∈ s'.kept ↔ q = newPtr ∨ q ∈ s.beside i := by
      intro q
      rw [hnew]
      simp [Point.keeps, Point.given, nonNull_of_ne hne']
    have hsettled : (s'.pool i).settled = some newPtr := congrArg Point.settled hpoint
    refine perform_shown hq ?_ hsettled hothers
    rw [hcons] at hsame
    rw [hobject, contents_update hmem' fun q hq _ => hsame q (Multiset.mem_cons_of_mem hq),
      payload_of_find hstored, hcons]
    exact served_resized hc hfind hfind' hptr hnewPtr hmem
  | answered ptr =>
    have hanswer : a.pool i = some (.inr ptr) := by
      generalize a.pool i = x at hserves
      rcases x with _ | q | result
      · exact absurd hserves Point.noConfusion
      · exact hserves.elim
      · have hresult : some ptr = some result := hserves
        rw [Option.some.inj hresult]
    have hstep : AtomicObject.Step allocatorObject a (some (.answer i ptr))
        ⟨a.object, update a.pool i none⟩ := .answer a i ptr hanswer
    have hkept : s'.kept = s.kept := by
      rw [hnew, hold]
      exact zero_add _
    refine ⟨_, .single hstep, shows_update ?_ hpoint hothers⟩
    rw [hobject, hkept, contents_congr hsame]

theorem Unspoilt.advance_shown (hs : s.Unspoilt) (ha : s.Shows a) {i : ι} {o : Oracle}
    (hlegal : s.Legal tid (.advance i o)) (hfits : s.Fits (.advance i o)) :
    ∃ a', Run (AtomicObject.Step allocatorObject) a ((s.pool i).answer i).toList a' ∧
      (s.step tid (.advance i o)).Shows a' :=
  have hpass := @advance_passage s.world (tid i) o (s.pool i) (s.aside i) hs.tended.opened
    (hs.tended.inside i) (hs.tended.ready i) (hfits i o rfl) (hs.tended.custody_at i)
    (hs.upToDate i)
  hs.passage_shown ha hpass (hs.outcome hlegal hfits) rfl rfl

/-- A request that is not yet served waits; another one takes effect at once. -/
theorem Unspoilt.call_shown (hs : s.Unspoilt) (ha : s.Shows a) {i : ι} {q : Request}
    (hlegal : s.Legal tid (.call i q)) :
    ∃ a', Run (AtomicObject.Step allocatorObject) a [.call i q] a' ∧
      (s.step tid (.call i q)).Shows a' := by
  have hidle := hlegal.idle i q rfl
  have hle := hlegal.holding i q rfl
  have hopen := hs.tended.opened
  have hnone : a.pool i = none := by
    have hserves := ha.serves i
    rw [hidle] at hserves
    generalize a.pool i = x at hserves
    rcases x with _ | q | result
    · rfl
    · exact hserves.elim
    · cases hserves
  have hkept : s.kept = q.pointers +
      (ThreadPool.others Point.keeps s.pool i + (s.held - q.pointers)) := by
    rw [kept_eq s i, beside, hidle, add_left_comm q.pointers, add_tsub_cancel_of_le hle]
    exact zero_add _
  have hnew : (s.step tid (.call i q)).kept = (s.world.enter (tid i) q).keeps +
      (ThreadPool.others Point.keeps s.pool i + (s.held - q.pointers)) := by
    unfold kept Machine.step
    rw [ThreadPool.total_update, add_assoc]
  have hstored : ∀ p ∈ s.kept, ∃ r, s.world.tracker.find p = some r := by
    intro p hp
    refine (hs.tended.custody_at i).listed.find_of_mem ?_
    rw [Holding.pointers_add, Point.pointers_eq, add_assoc]
    exact Multiset.mem_add.mpr (Or.inr (Multiset.mem_of_le (kept_le s i) hp))
  have hnodup := hs.kept_nodup i
  have hobject := ha.object
  rw [hkept] at hnodup hstored hobject
  have hpoint : (s.step tid (.call i q)).pool i = s.world.enter (tid i) q := update_self _ _ _
  have hothers : ∀ j, j ≠ i → ((s.step tid (.call i q)).pool j).Serves
      (s.step tid (.call i q)).world.tracker (a.pool j) := by
    intro j hj
    rw [show (s.step tid (.call i q)).pool j = s.pool j from update_of_ne hj _ _]
    exact ha.serves j
  rcases @enter_serves s.world _ (tid i) hopen q hnodup hstored with
    ⟨hasked, hkeeps⟩ | ⟨result, hsettled, hkeeps, hserved⟩
  · rw [hkeeps] at hnew
    have hcall : AtomicObject.Step allocatorObject a (some (.call i q))
        ⟨a.object, update a.pool i (some (.inl q))⟩ := .call a i q hnone
    refine ⟨_, .single hcall, shows_update ?_ (hpoint ▸ hasked) hothers⟩
    rw [hobject, hnew]
    rfl
  · rw [hkeeps, zero_add] at hnew
    rw [← hobject] at hserved
    refine ⟨_, AtomicObject.run_call_perform hnone hserved, shows_update ?_ (hpoint ▸ hsettled)
      hothers⟩
    rw [hnew]
    rfl

omit [Fintype ι] in
/-- An event that logs nothing and is no call is always legal. -/
theorem legal_of_silent {e : Event ι} (hdefined : s.world.fault = false)
    (hcall : ∀ i q, e ≠ .call i q) (hlog : (s.step tid e).world.log = []) : s.Legal tid e where
  defined := hdefined
  idle := fun i q he => absurd he (hcall i q)
  holding := fun i q he => absurd he (hcall i q)
  fresh := by
    intro b hb
    rw [hlog] at hb
    cases hb

/-- Such a use of the memory leaves everything unspoilt. -/
theorem Unspoilt.of_store (hs : s.Unspoilt) {mem : Memory}
    (hwrites : ∀ b, mem b ≠ s.world.mem b →
      (∃ p ∈ s.held, ∃ r, s.world.tracker.find p = some r ∧ InSpan p r.requestedSize.toNat b) ∨
        ∀ c n, s.world.heap c = some n → ¬ InSpan c n b) :
    (s.step tid (.store mem)).Unspoilt := by
  refine hs.store_step (legal_of_silent hs.defined (fun _ _ he => by cases he) rfl) ⟨?_, ?_⟩
  · intro i o he
    cases he
  · intro m he
    cases he
    exact hwrites

theorem Unspoilt.shared_step (hs : s.Unspoilt) {l : Option (AllocatorEvent ι)} {s' : Machine ι}
    (h : SharedStep tid s l s') : s'.Unspoilt := by
  cases h with
  | call i q h => exact hs.call_step h
  | advance i o h hfits => exact hs.advance_step h hfits
  | setCurrentTag i tag =>
    have hlegal : s.Legal tid (.setCurrentTag i tag) :=
      legal_of_silent hs.defined (fun _ _ he => by cases he) rfl
    exact (hs.step hlegal ⟨fun _ _ he => (by cases he), fun _ he => (by cases he)⟩).1
  | write p r offset bytes hheld hfind hin =>
    refine hs.of_store fun b hchanged => Or.inl ⟨p, hheld, r, hfind, ?_⟩
    by_contra hout
    exact hchanged (writeBytes_of_not_inSpan fun hspan => hout (inSpan_of_offset hin hspan))
  | read => exact hs
  | system mem h => exact hs.of_store fun b hchanged => Or.inr (h b hchanged)

/-- Every step of the machine is a step of the allocator, or is not seen. -/
theorem sharedStep_simulates :
    Simulates (SharedStep tid) (AtomicObject.Step allocatorObject)
      fun (s : Machine ι) (a : AllocatorState ι) => s.Unspoilt ∧ s.Shows a := by
  intro s l s' a ⟨hs, ha⟩ hstep
  have hnext := hs.shared_step hstep
  have hc := hs.tended.custody
  suffices h : ∃ a', Run (AtomicObject.Step allocatorObject) a l.toList a' ∧ s'.Shows a' by
    obtain ⟨a', hrun, ha'⟩ := h
    exact ⟨a', hrun, hnext, ha'⟩
  cases hstep with
  | call i q h => exact hs.call_shown ha h
  | advance i o h hfits => exact hs.advance_shown ha h hfits
  | setCurrentTag i tag => exact ⟨a, .nil a, ha.object, ha.serves⟩
  | write p r offset bytes hheld hfind hin =>
    have hkept : p ∈ s.kept := Multiset.mem_add.mpr (Or.inr hheld)
    have hstep : Allocator.Step (s.world.contents s.kept) (.write p offset bytes)
        ((s.step tid (.store (writeBytes s.world.mem (p + BitVec.ofNat 64 offset)
          bytes))).world.contents s.kept) := write_accessed hc hfind hkept hin rfl rfl
    rw [← ha.object] at hstep
    have haccess : AtomicObject.Step allocatorObject a (some (.access (.write p offset bytes)))
        ⟨_, a.pool⟩ := .access a _ _ hstep
    exact ⟨_, .single haccess, rfl, ha.serves⟩
  | read p r offset length hheld hfind hin =>
    have hkept : p ∈ s.kept := Multiset.mem_add.mpr (Or.inr hheld)
    have hstep := read_accessed hfind hkept hin
    rw [← ha.object] at hstep
    have haccess : AtomicObject.Step allocatorObject a (some (.access (.read p offset
        (readBytes s.world.mem (p + BitVec.ofNat 64 offset) length)))) ⟨_, a.pool⟩ :=
      .access a _ _ hstep
    exact ⟨_, .single haccess, ha.object, ha.serves⟩
  | system mem h =>
    have hsame : (s.step tid (.store mem)).world.contents s.kept = s.world.contents s.kept :=
      contents_system hc rfl h
    exact ⟨a, .nil a, ha.object.trans hsame.symm, ha.serves⟩

/-- What a thread or its client does next. -/
inductive SharedMove (ι : Type)
  | call (i : ι) (q : Request)
  | advance (i : ι) (o : Oracle)
  | write (p : Ptr) (offset : Nat) (bytes : List Byte)
  | read (p : Ptr) (offset length : Nat)

variable (tid) in
/-- `SharedStep`, as a function; beside the machine stand the addresses that the system has
answered with. -/
def sharedNext (s : Machine ι × List Ptr) :
    SharedMove ι → Option (Option (AllocatorEvent ι) × (Machine ι × List Ptr))
  | .call i q =>
    if s.1.check tid s.2 (.call i q) then
      some (some (.call i q), (s.1.step tid (.call i q), s.2)) else none
  | .advance i o =>
    if s.1.check tid s.2 (.advance i o) ∧ s.1.world.NoWrap (s.1.pool i) then
      some ((s.1.pool i).answer i, (s.1.step tid (.advance i o), o.malloc :: s.2)) else none
  | .write p offset bytes =>
    (s.1.world.tracker.find p).bind fun r =>
      if p ∈ s.1.held ∧ offset + bytes.length ≤ r.requestedSize.toNat then
        some (some (.access (.write p offset bytes)), (s.1.step tid (.store (writeBytes
          s.1.world.mem (p + BitVec.ofNat 64 offset) bytes)), s.2)) else none
  | .read p offset length =>
    (s.1.world.tracker.find p).bind fun r =>
      if p ∈ s.1.held ∧ offset + length ≤ r.requestedSize.toNat then
        some (some (.access (.read p offset (readBytes s.1.world.mem (p + BitVec.ofNat 64 offset)
          length))), s) else none

omit [Fintype ι] in
theorem sharedStep_of_next (s : Machine ι × List Ptr) (m : SharedMove ι)
    (l : Option (AllocatorEvent ι)) (s' : Machine ι × List Ptr)
    (hlive : LiveAmong s.1.world.heap s.2) (h : sharedNext tid s m = some (l, s')) :
    SharedStep tid s.1 l s'.1 ∧ LiveAmong s'.1.world.heap s'.2 := by
  cases m with
  | call i q =>
    obtain ⟨hcheck, heq⟩ := Option.ite_none_right_eq_some.mp h
    cases heq
    exact ⟨.call s.1 i q (legal_of_check tid hlive hcheck), hlive⟩
  | advance i o =>
    obtain ⟨⟨hcheck, hwrap⟩, heq⟩ := Option.ite_none_right_eq_some.mp h
    cases heq
    have hfits : s.1.Fits (.advance i o) := by
      rintro j o' he
      cases he
      exact hwrap.fits o
    exact ⟨.advance s.1 i o (legal_of_check tid hlive hcheck) hfits,
      (grows_step tid s.1 (.advance i o)).liveAmong hlive⟩
  | write p offset bytes =>
    obtain ⟨r, hfind, hrest⟩ := Option.bind_eq_some_iff.mp h
    obtain ⟨⟨hheld, hin⟩, heq⟩ := Option.ite_none_right_eq_some.mp hrest
    cases heq
    exact ⟨.write s.1 p r offset bytes hheld hfind hin, hlive⟩
  | read p offset length =>
    obtain ⟨r, hfind, hrest⟩ := Option.bind_eq_some_iff.mp h
    obtain ⟨⟨hheld, hin⟩, heq⟩ := Option.ite_none_right_eq_some.mp hrest
    cases heq
    exact ⟨.read s.1 p r offset length hheld hfind hin, hlive⟩

/-- Both threads have a block, and what is written into the first one is read in the block that
it is moved to, while the other one is freed. -/
def sharedHistory : List (AllocatorEvent Pair) :=
  [.call .first (.alloc 16 16 0), .call .second (.alloc 40 64 0), .answer .second 0x20080,
    .answer .first 0x10050, .access (.write 0x10050 4 [1, 2, 3]),
    .call .first (.realloc 0x10050 32), .call .second (.free 0x20080), .answer .second 0,
    .answer .first 0x30050, .access (.read 0x30050 4 [1, 2, 3])]

def sharedMoves : List (SharedMove Pair) :=
  let a : SharedMove Pair := .advance .first { malloc := 0x10000 }
  let b : SharedMove Pair := .advance .second { malloc := 0x20000 }
  let c : SharedMove Pair := .advance .first { malloc := 0x30000 }
  [.call .first (.alloc 16 16 0), .call .second (.alloc 40 64 0), a, b, b, a] ++
    List.replicate 9 b ++ List.replicate 9 a ++ [b, a, .write 0x10050 4 [1, 2, 3],
      .call .first (.realloc 0x10050 32), .call .second (.free 0x20080)] ++
    (List.replicate 10 [c, b]).flatten ++ List.replicate 16 c ++ [.read 0x30050 4 3]

/-- What the moves lead to: the history, where the threads are, what the clients hold and how
large the moved block is. -/
theorem replay_sharedMoves :
    (replay (sharedNext pair) (start {} fun _ => 0, []) sharedMoves).map (fun x =>
      (x.1, (x.2.1.pool .first, x.2.1.pool .second), x.2.1.held,
        (x.2.1.world.tracker.find 0x30050).map AllocationRecord.requestedSize)) =
      some (sharedHistory, (.idle, .idle), {0x30050}, some 32) := by decide +kernel

end Machine

end MemSentry
