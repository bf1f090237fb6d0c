import Mathlib.Data.Nat.Notation
import Mathlib.Tactic.Common

/-!
# Numerals

Numbers written in a base up to sixteen, as bytes: the digits of `Nat.toDigits`, and a
reader that takes them back, hexadecimal digits in either case (`read_write`).
-/

namespace Numeral

/-- The byte of an ASCII character. -/
def ofChar (c : Char) : BitVec 8 := BitVec.ofNat 8 c.toNat

def write (b n : ℕ) : List (BitVec 8) := (Nat.toDigits b n).map ofChar

def digitValue (c : BitVec 8) : Option ℕ :=
  if 48 ≤ c.toNat ∧ c.toNat ≤ 57 then some (c.toNat - 48)
  else if 97 ≤ c.toNat ∧ c.toNat ≤ 102 then some (c.toNat - 87)
  else if 65 ≤ c.toNat ∧ c.toNat ≤ 70 then some (c.toNat - 55)
  else none

/-- Reads on from `acc`. -/
def readFrom (b : ℕ) : ℕ → List (BitVec 8) → Option ℕ
  | acc, [] => some acc
  | acc, c :: cs =>
    match digitValue c with
    | some d => if d < b then readFrom b (b * acc + d) cs else none
    | none => none

def read (b : ℕ) (cs : List (BitVec 8)) : Option ℕ := if cs.isEmpty then none else readFrom b 0 cs

theorem digitValue_digitChar {d : ℕ} (hd : d < 16) : digitValue (ofChar (Nat.digitChar d)) = some d := by
  have hall : ∀ d : Fin 16, digitValue (ofChar (Nat.digitChar d)) = some d.val := by decide
  exact hall ⟨d, hd⟩

section Write

variable {b n : ℕ}

theorem write_of_lt (h : n < b) : write b n = [ofChar (Nat.digitChar n)] := by
  rw [write, Nat.toDigits_of_lt_base h]
  rfl

theorem write_of_le (hb : 1 < b) (h : b ≤ n) :
    write b n = write b (n / b) ++ [ofChar (Nat.digitChar (n % b))] := by
  rw [write, Nat.toDigits_of_base_le hb h, List.map_append]
  rfl

/-- A numeral is its leading digit, zero for zero only, and further digits. -/
theorem write_eq_cons (hb : 1 < b) (n : ℕ) :
    ∃ d ds, write b n = ofChar (Nat.digitChar d) :: ds ∧ d < b ∧ (d = 0 → n = 0 ∧ ds = []) ∧
      ∀ c ∈ ds, ∃ e < b, c = ofChar (Nat.digitChar e) := by
  induction n using Nat.strongRecOn with
  | ind n ih =>
    rcases Nat.lt_or_ge n b with hlt | hge
    · exact ⟨n, [], write_of_lt hlt, hlt, fun h0 => ⟨h0, rfl⟩, fun c hc => absurd hc List.not_mem_nil⟩
    · have hpos : 0 < n / b := Nat.div_pos hge (by omega)
      obtain ⟨d, ds, hwrite, hd, hzero, hds⟩ := ih (n / b) (Nat.div_lt_self (by omega) hb)
      have hne : d ≠ 0 := fun h0 => absurd (hzero h0).1 (Nat.pos_iff_ne_zero.mp hpos)
      refine ⟨d, ds ++ [ofChar (Nat.digitChar (n % b))], ?_, hd, fun h0 => absurd h0 hne, ?_⟩
      · rw [write_of_le hb hge, hwrite, List.cons_append]
      · intro c hc
        rcases List.mem_append.mp hc with hc | hc
        · exact hds c hc
        · exact ⟨n % b, Nat.mod_lt _ (by omega), List.mem_singleton.mp hc⟩

theorem mem_write (hb : 1 < b) {c : BitVec 8} (hc : c ∈ write b n) :
    ∃ d < b, c = ofChar (Nat.digitChar d) := by
  obtain ⟨d, ds, hwrite, hd, _, hds⟩ := write_eq_cons hb n
  rw [hwrite] at hc
  rcases List.mem_cons.mp hc with hfirst | hrest
  · exact ⟨d, hd, hfirst⟩
  · exact hds c hrest

end Write

/-! ## Reading -/

theorem readFrom_append (b acc : ℕ) (cs ds : List (BitVec 8)) :
    readFrom b acc (cs ++ ds) = (readFrom b acc cs).bind fun acc => readFrom b acc ds := by
  induction cs generalizing acc with
  | nil => rfl
  | cons c cs ih =>
    rw [List.cons_append, readFrom, readFrom]
    cases digitValue c with
    | none => rfl
    | some d =>
      dsimp only
      split
      · exact ih _
      · rfl

theorem readFrom_digit {b d : ℕ} (hd : d < b) (hb : b ≤ 16) (acc : ℕ) :
    readFrom b acc [ofChar (Nat.digitChar d)] = some (b * acc + d) := by
  rw [readFrom, digitValue_digitChar (by omega)]
  exact if_pos hd

theorem readFrom_write {b : ℕ} (hb : 1 < b) (hb' : b ≤ 16) (n : ℕ) :
    readFrom b 0 (write b n) = some n := by
  induction n using Nat.strongRecOn with
  | ind n ih =>
    rcases Nat.lt_or_ge n b with hlt | hge
    · rw [write_of_lt hlt, readFrom_digit hlt hb', Nat.mul_zero, Nat.zero_add]
    · rw [write_of_le hb hge, readFrom_append, ih (n / b) (Nat.div_lt_self (by omega) hb),
        Option.bind_some, readFrom_digit (Nat.mod_lt _ (by omega)) hb', Nat.div_add_mod]

/-- What has been written is read back. -/
theorem read_write {b : ℕ} (hb : 1 < b) (hb' : b ≤ 16) (n : ℕ) : read b (write b n) = some n := by
  obtain ⟨d, ds, hwrite, _⟩ := write_eq_cons hb n
  have hread := readFrom_write hb hb' n
  unfold read
  rw [hwrite] at hread ⊢
  exact hread

end Numeral
