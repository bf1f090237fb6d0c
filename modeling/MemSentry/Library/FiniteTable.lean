import Mathlib.Data.Finmap
import Mathlib.Algebra.BigOperators.Group.Multiset.Basic

/-!
# Finite tables

`Finmap` is a table without an order of its entries; reading it out gives a multiset.
The two facts used again and again are how the multiset of entries changes when a key is
inserted and when a present key is erased (`entries_insert_of_lookup_eq_none`,
`entries_eq_cons_erase`); the rest follows from them.
-/

namespace FiniteTable

variable {κ ν : Type} [DecidableEq κ]

/-- The stored values, each as often as it is stored. -/
def values (s : Finmap fun _ : κ => ν) : Multiset ν := s.entries.map Sigma.snd

theorem mem_values {s : Finmap fun _ : κ => ν} {v : ν} :
    v ∈ values s ↔ ∃ k, s.lookup k = some v := by
  unfold values
  rw [Multiset.mem_map]
  constructor
  · rintro ⟨⟨k, v'⟩, hmem, rfl⟩
    exact ⟨k, Finmap.lookup_eq_some_iff.mpr hmem⟩
  · rintro ⟨k, hk⟩
    exact ⟨⟨k, v⟩, Finmap.lookup_eq_some_iff.mp hk, rfl⟩

theorem entries_insert_of_lookup_eq_none {s : Finmap fun _ : κ => ν} {k : κ} {v : ν}
    (h : s.lookup k = none) : (s.insert k v).entries = ⟨k, v⟩ ::ₘ s.entries :=
  Finmap.entries_insert_of_notMem (Finmap.lookup_eq_none.mp h)

theorem insert_erase_of_lookup {s : Finmap fun _ : κ => ν} {k : κ} {v : ν}
    (h : s.lookup k = some v) : (s.erase k).insert k v = s := by
  apply Finmap.ext_lookup
  intro k'
  by_cases hk : k' = k
  · subst k'
    rw [Finmap.lookup_insert, h]
  · rw [Finmap.lookup_insert_of_ne _ hk, Finmap.lookup_erase_ne hk]

theorem entries_eq_cons_erase {s : Finmap fun _ : κ => ν} {k : κ} {v : ν}
    (h : s.lookup k = some v) : s.entries = ⟨k, v⟩ ::ₘ (s.erase k).entries := by
  conv_lhs => rw [← insert_erase_of_lookup h]
  exact entries_insert_of_lookup_eq_none (Finmap.lookup_erase k s)

theorem values_insert {s : Finmap fun _ : κ => ν} {k : κ} {v : ν} (h : s.lookup k = none) :
    values (s.insert k v) = v ::ₘ values s := by
  rw [values, entries_insert_of_lookup_eq_none h, Multiset.map_cons]
  rfl

theorem values_eq_cons_erase {s : Finmap fun _ : κ => ν} {k : κ} {v : ν}
    (h : s.lookup k = some v) : values s = v ::ₘ values (s.erase k) := by
  rw [values, entries_eq_cons_erase h, Multiset.map_cons]
  rfl

end FiniteTable
