import Mathlib.Data.BitVec
import Mathlib.Data.List.Basic

/-!
# Byte memory with wrapping addresses

A memory of address width `w` gives every address a byte. Reads and writes of byte
lists wrap at `2 ^ w`, so no operation is partial; the lemmas that matter are about
spans that do not cross the end of the address space, where the offset of an address
from the start of a span is a plain difference.

* `readBytes`, `writeBytes`: a list of bytes at an address.
* `leBytes`, `ofLeBytes`: the little-endian code of a number and its inverse.
* `Store`, `applyStores`: a sequence of writes, kept as data, so that the bytes a
  routine writes can be read off next to the memory it leaves.
-/

namespace ByteMemory

/-- A memory of `w`-bit addresses. -/
abbrev Mem (w : Nat) := BitVec w → BitVec 8

variable {w : Nat}

/-! ## Spans of addresses -/

/-- The address `a` lies among the `n` addresses from `p` up. -/
def InSpan (p : BitVec w) (n : Nat) (a : BitVec w) : Prop := (a - p).toNat < n

instance (p : BitVec w) (n : Nat) (a : BitVec w) : Decidable (InSpan p n a) :=
  inferInstanceAs (Decidable (_ < _))

theorem toNat_sub_of_le {p a : BitVec w} (h : p.toNat ≤ a.toNat) :
    (a - p).toNat = a.toNat - p.toNat := by
  rw [BitVec.toNat_sub_of_le (BitVec.le_def.mpr h)]

theorem toNat_sub_of_lt {p a : BitVec w} (h : a.toNat < p.toNat) :
    (a - p).toNat = 2 ^ w + a.toNat - p.toNat := by
  have ha := a.isLt
  have hp := p.isLt
  rw [BitVec.toNat_sub, Nat.mod_eq_of_lt (by omega)]
  omega

/-- A span that does not cross the end of the address space is an interval. -/
theorem inSpan_iff {p a : BitVec w} {n : Nat} (h : p.toNat + n ≤ 2 ^ w) :
    InSpan p n a ↔ p.toNat ≤ a.toNat ∧ a.toNat < p.toNat + n := by
  unfold InSpan
  by_cases hle : p.toNat ≤ a.toNat
  · rw [toNat_sub_of_le hle]
    omega
  · rw [toNat_sub_of_lt (by omega)]
    omega

theorem toNat_add_ofNat {p : BitVec w} {i : Nat} (h : p.toNat + i < 2 ^ w) :
    (p + BitVec.ofNat w i).toNat = p.toNat + i := by
  rw [BitVec.toNat_add, BitVec.toNat_ofNat, Nat.add_mod_mod, Nat.mod_eq_of_lt h]

theorem add_ofNat_sub_toNat (p : BitVec w) {i : Nat} (h : i < 2 ^ w) :
    (p + BitVec.ofNat w i - p).toNat = i := by
  rw [BitVec.add_comm, BitVec.add_sub_cancel, BitVec.toNat_ofNat, Nat.mod_eq_of_lt h]

theorem add_ofNat_add (p : BitVec w) (i j : Nat) :
    p + BitVec.ofNat w (i + j) = p + BitVec.ofNat w i + BitVec.ofNat w j := by
  rw [BitVec.ofNat_add, BitVec.add_assoc]

/-! ## Reading and writing lists of bytes -/

/-- The `n` bytes from `p` up. -/
def readBytes (m : Mem w) (p : BitVec w) (n : Nat) : List (BitVec 8) :=
  (List.range n).map fun i => m (p + BitVec.ofNat w i)

/-- The memory after the bytes `bs` have been written from `p` up. -/
def writeBytes (m : Mem w) (p : BitVec w) (bs : List (BitVec 8)) : Mem w := fun a =>
  (bs[(a - p).toNat]?).getD (m a)

@[simp] theorem length_readBytes (m : Mem w) (p : BitVec w) (n : Nat) :
    (readBytes m p n).length = n := by
  simp [readBytes]

theorem readBytes_congr {m m' : Mem w} {p : BitVec w} {n : Nat}
    (h : ∀ i < n, m (p + BitVec.ofNat w i) = m' (p + BitVec.ofNat w i)) :
    readBytes m p n = readBytes m' p n := by
  unfold readBytes
  exact List.map_congr_left fun i hi => h i (List.mem_range.mp hi)

theorem readBytes_inj {m m' : Mem w} {p : BitVec w} {n : Nat}
    (h : readBytes m p n = readBytes m' p n) {i : Nat} (hi : i < n) :
    m (p + BitVec.ofNat w i) = m' (p + BitVec.ofNat w i) := by
  unfold readBytes at h
  exact List.map_inj_left.mp h i (List.mem_range.mpr hi)

theorem readBytes_add (m : Mem w) (p : BitVec w) (a b : Nat) :
    readBytes m p (a + b) = readBytes m p a ++ readBytes m (p + BitVec.ofNat w a) b := by
  unfold readBytes
  rw [List.range_add, List.map_append, List.map_map]
  congr 1
  refine List.map_congr_left fun i _ => ?_
  rw [Function.comp_apply, add_ofNat_add]

@[simp] theorem writeBytes_nil (m : Mem w) (p : BitVec w) : writeBytes m p [] = m := by
  funext a
  simp [writeBytes]

theorem writeBytes_of_not_inSpan {m : Mem w} {p a : BitVec w} {bs : List (BitVec 8)}
    (h : ¬ InSpan p bs.length a) : writeBytes m p bs a = m a := by
  unfold writeBytes
  rw [List.getElem?_eq_none (Nat.le_of_not_lt h)]
  rfl

theorem writeBytes_at {m : Mem w} {p : BitVec w} {bs : List (BitVec 8)} {i : Nat}
    (hi : i < bs.length) (hw : bs.length ≤ 2 ^ w) :
    writeBytes m p bs (p + BitVec.ofNat w i) = bs[i] := by
  unfold writeBytes
  rw [add_ofNat_sub_toNat p (by omega), List.getElem?_eq_getElem hi]
  rfl

/-- A read inside a write sees the written bytes. -/
theorem readBytes_writeBytes_inside {m : Mem w} {p : BitVec w} {bs : List (BitVec 8)}
    {k n : Nat} (hk : k + n ≤ bs.length) (hw : bs.length ≤ 2 ^ w) :
    readBytes (writeBytes m p bs) (p + BitVec.ofNat w k) n = (bs.drop k).take n := by
  apply List.ext_getElem
  · simp only [length_readBytes, List.length_take, List.length_drop]
    omega
  · intro i h₁ h₂
    have hi : i < n := by simpa using h₁
    simp only [readBytes, List.getElem_map, List.getElem_range, List.getElem_take,
      List.getElem_drop]
    rw [← add_ofNat_add, writeBytes_at (by omega) hw]

/-- A read of what has just been written. -/
theorem readBytes_writeBytes_self {m : Mem w} {p : BitVec w} {bs : List (BitVec 8)}
    (hw : bs.length ≤ 2 ^ w) : readBytes (writeBytes m p bs) p bs.length = bs := by
  have hread := @readBytes_writeBytes_inside w m p bs 0 bs.length (by omega) hw
  rw [BitVec.add_zero, List.drop_zero, List.take_length] at hread
  exact hread

/-- Two adjacent writes are one write of the joined bytes. -/
theorem writeBytes_writeBytes_adjacent {m : Mem w} {p : BitVec w} {xs ys : List (BitVec 8)}
    (hw : xs.length + ys.length ≤ 2 ^ w) :
    writeBytes (writeBytes m p xs) (p + BitVec.ofNat w xs.length) ys =
      writeBytes m p (xs ++ ys) := by
  funext a
  have ha := (a - p).isLt
  have hsub : a - (p + BitVec.ofNat w xs.length) = (a - p) - BitVec.ofNat w xs.length := by
    exact sub_add_eq_sub_sub a p _
  unfold writeBytes
  rw [hsub]
  rcases Nat.eq_zero_or_pos ys.length with hy | hy
  · rw [List.length_eq_zero_iff.mp hy]
    simp
  have hx : (BitVec.ofNat w xs.length).toNat = xs.length := by
    rw [BitVec.toNat_ofNat, Nat.mod_eq_of_lt (by omega)]
  by_cases hlt : (a - p).toNat < xs.length
  · have hbig : ys.length ≤ ((a - p) - BitVec.ofNat w xs.length).toNat := by
      rw [toNat_sub_of_lt (by omega), hx]
      omega
    rw [List.getElem?_eq_none hbig, List.getElem?_append_left hlt]
    rfl
  · rw [toNat_sub_of_le (by omega), hx, List.getElem?_append_right (by omega),
      List.getElem?_eq_none (Nat.le_of_not_lt hlt)]
    rfl

/-! ## Little-endian numbers -/

/-- The `n` low bytes of `v`, least significant first. -/
def leBytes : Nat → Nat → List (BitVec 8)
  | 0, _ => []
  | n + 1, v => BitVec.ofNat 8 v :: leBytes n (v / 256)

/-- The number whose little-endian code is `bs`. -/
def ofLeBytes : List (BitVec 8) → Nat
  | [] => 0
  | b :: bs => b.toNat + 256 * ofLeBytes bs

@[simp] theorem length_leBytes (n v : Nat) : (leBytes n v).length = n := by
  induction n generalizing v with
  | zero => rfl
  | succ n ih => simp [leBytes, ih]

theorem ofLeBytes_leBytes (n v : Nat) : ofLeBytes (leBytes n v) = v % 256 ^ n := by
  induction n generalizing v with
  | zero => simp [leBytes, ofLeBytes, Nat.mod_one]
  | succ n ih =>
    have hsplit : v % 256 ^ (n + 1) = v % 256 + 256 * (v / 256 % 256 ^ n) := by
      rw [Nat.pow_succ, Nat.mul_comm (256 ^ n) 256, Nat.mod_mul]
    rw [leBytes, ofLeBytes, ih, BitVec.toNat_ofNat, hsplit]

/-- The number read from `n` bytes at `p`. -/
def load (m : Mem w) (p : BitVec w) (n : Nat) : Nat := ofLeBytes (readBytes m p n)

theorem load_of_readBytes {m : Mem w} {p : BitVec w} {n v : Nat} (hv : v < 256 ^ n)
    (h : readBytes m p n = leBytes n v) : load m p n = v := by
  rw [load, h, ofLeBytes_leBytes, Nat.mod_eq_of_lt hv]

theorem load_congr {m m' : Mem w} {p : BitVec w} {n : Nat}
    (h : readBytes m p n = readBytes m' p n) : load m p n = load m' p n := by
  rw [load, load, h]

/-! ## Sequences of stores -/

/-- One write: the bytes and the address of the first of them. -/
structure Store (w : Nat) where
  addr : BitVec w
  bytes : List (BitVec 8)

/-- The memory after the stores, first to last. -/
def applyStores (m : Mem w) (ss : List (Store w)) : Mem w :=
  ss.foldl (fun m s => writeBytes m s.addr s.bytes) m

@[simp] theorem applyStores_nil (m : Mem w) : applyStores m [] = m := rfl

@[simp] theorem applyStores_cons (m : Mem w) (s : Store w) (ss : List (Store w)) :
    applyStores m (s :: ss) = applyStores (writeBytes m s.addr s.bytes) ss := rfl

theorem applyStores_append (m : Mem w) (ss ts : List (Store w)) :
    applyStores m (ss ++ ts) = applyStores (applyStores m ss) ts := by
  simp [applyStores, List.foldl_append]

/-- An address outside every store keeps its byte. -/
theorem applyStores_of_not_inSpan {m : Mem w} {ss : List (Store w)} {a : BitVec w}
    (h : ∀ s ∈ ss, ¬ InSpan s.addr s.bytes.length a) : applyStores m ss a = m a := by
  induction ss generalizing m with
  | nil => rfl
  | cons s ss ih =>
    rw [applyStores_cons, ih fun s' hs' => h s' (List.mem_cons_of_mem s hs'),
      writeBytes_of_not_inSpan (h s List.mem_cons_self)]

end ByteMemory
