import Mathlib.Data.List.Perm.Basic
import Mathlib.Order.MinMax

/-!
# Longest-prefix match

A lookup takes, of the entries of a table that hit, one that no other is
longer than. It may take any of these, so what is to hold of the entry it
takes has to hold of all of them.
-/

namespace LongestMatch

variable {ρ κ : Type} [LinearOrder κ]

/-- An entry that a lookup may take. -/
structure Selects (len : ρ → κ) (hits : ρ → Prop) (table : List ρ) (r : ρ) : Prop where
  mem : r ∈ table
  hit : hits r
  most : ∀ r' ∈ table, hits r' → len r' ≤ len r

variable {len : ρ → κ} {hits : ρ → Prop} {table : List ρ}

theorem Selects.congr (h : Selects len hits table r) (hmem : ∀ r, r ∈ table' ↔ r ∈ table) :
    Selects len hits table' r :=
  ⟨(hmem r).mpr h.mem, h.hit, fun r' hr' => h.most r' ((hmem r').mp hr')⟩

theorem Selects.imp (h : Selects len hits table r) (hhits : ∀ r ∈ table, hits r ↔ hits' r) :
    Selects len hits' table r :=
  ⟨h.mem, (hhits r h.mem).mp h.hit, fun r' hr' hh => h.most r' hr' ((hhits r' hr').mpr hh)⟩

/-- What a lookup may take from a part of the table with one of the entries it
may take from the whole, it may take from the whole too. -/
theorem Selects.of_part (h : Selects len hits table r) (hr : r ∈ part) (hsub : part ⊆ table)
    (h' : Selects len hits part r') : Selects len hits table r' where
  mem := hsub h'.mem
  hit := h'.hit
  most _ hmem hhit := le_trans (h.most _ hmem hhit) (h'.most r hr h.hit)

theorem selects_iff [DecidablePred hits]
    (hk : ((table.filter (hits ·)).map len).max? = some k) :
    Selects len hits table r ↔ r ∈ table ∧ hits r ∧ len r = k := by
  obtain ⟨hmem, hmax⟩ := List.max?_eq_some_iff.mp hk
  have hle : ∀ r ∈ table, hits r → len r ≤ k := fun r hr hh =>
    hmax _ (List.mem_map_of_mem (List.mem_filter.mpr ⟨hr, by simpa using hh⟩))
  constructor
  · intro h
    obtain ⟨r', hr', rfl⟩ := List.mem_map.mp hmem
    have hr' := List.mem_filter.mp hr'
    exact ⟨h.mem, h.hit, le_antisymm (hle r h.mem h.hit) (h.most r' hr'.1 (by simpa using hr'.2))⟩
  · rintro ⟨hr, hh, rfl⟩
    exact ⟨hr, hh, hle⟩

theorem no_hit (len : ρ → κ) (hits : ρ → Prop) [DecidablePred hits]
    (hk : ((table.filter (hits ·)).map len).max? = none) :
    ∀ r ∈ table, ¬ hits r := by
  intro r hr hh
  have hnil := List.map_eq_nil_iff.mp (List.max?_eq_none_iff.mp hk)
  have hmem : r ∈ table.filter (hits ·) := List.mem_filter.mpr ⟨hr, by simpa using hh⟩
  rw [hnil] at hmem
  cases hmem

theorem exists_selects (len : ρ → κ) (hits : ρ → Prop) [DecidablePred hits]
    (hk : ((table.filter (hits ·)).map len).max? = some k) : ∃ r, Selects len hits table r := by
  obtain ⟨r, hr, hlen⟩ := List.mem_map.mp (List.max?_eq_some_iff.mp hk).1
  have hr := List.mem_filter.mp hr
  exact ⟨r, (selects_iff hk).mpr ⟨hr.1, by simpa using hr.2, hlen⟩⟩

end LongestMatch
