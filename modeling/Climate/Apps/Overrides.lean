import Climate.Apps.RoundTrip
import Climate.Lib.TomlPaths

/-!
# Overrides

An override's keys take the place of the definition's one by one, however deep
they are.
-/

namespace Climate

open Toml (Table Value Passes)

/-- A path leads to a value of the override's, or to one of the definition's
where the override says nothing and has not taken the place of a table on the
way. Laying an override over twice is laying it over once, and one without keys
changes nothing. -/
theorem overrides_merge_by_key (base override : Table) (h : (Value.table override).Distinct) :
    (∀ path, path ≠ [] → ∀ v : Value, (∀ t, v ≠ .table t) →
      ((Value.table (Toml.merge base override)).find path = some v ↔
        (Value.table override).find path = some v ∨
          (Value.table override).find path = none ∧ (Value.table base).find path = some v ∧
            Passes (.table base) (.table override) path)) ∧
    (∀ path, path ≠ [] →
      ((∃ t, (Value.table (Toml.merge base override)).find path = some (.table t)) ↔
        (∃ t, (Value.table override).find path = some (.table t)) ∨
          (Value.table override).find path = none ∧ (∃ t, (Value.table base).find path = some (.table t)) ∧
            Passes (.table base) (.table override) path)) ∧
    Toml.merge (Toml.merge base override) override = Toml.merge base override ∧ Toml.merge base [] = base := by
  refine ⟨fun path _ v hv => (Toml.merged_find base override h path).value_iff hv, fun path _ => ?_, ?_, rfl⟩
  · exact (Toml.merged_find base override h path).table_iff
  · exact Toml.merge_merge base h

-- ---------------------------------------------------------------------------
-- An override
-- ---------------------------------------------------------------------------

namespace Overridden

def base : Table :=
  [("image", .table [("reference", .string "docker.io/library/node:22"), ("pull", .boolean true)]),
    ("run", .table [("network", .string "none")])]

def override : Table :=
  [("image", .table [("reference", .string "localhost/node")]), ("run", .string "localnet")]

theorem override_distinct : (Value.table override).Distinct := by
  refine .table (by decide) fun entry hentry => ?_
  simp only [override, List.mem_cons, List.not_mem_nil, or_false] at hentry
  rcases hentry with rfl | rfl
  · exact .table (by decide) fun entry hentry => .other fun t ht => by simp_all
  · exact .other nofun

theorem overrides_merge_by_key_node :
    (Value.table (Toml.merge base override)).find ["image", "reference"] = some (.string "localhost/node") ∧
    (Value.table (Toml.merge base override)).find ["image", "pull"] = some (.boolean true) ∧
    Toml.merge (Toml.merge base override) override = Toml.merge base override := by
  obtain ⟨hvalue, -, htwice, -⟩ := overrides_merge_by_key base override override_distinct
  have hreference := hvalue ["image", "reference"] (by simp) (.string "localhost/node") (by simp)
  have hpull := hvalue ["image", "pull"] (by simp) (.boolean true) (by simp)
  refine ⟨hreference.mpr (.inl rfl), hpull.mpr (.inr ⟨rfl, rfl, Toml.passes_cons.mpr ?_⟩), htwice⟩
  intro early hearly hne _
  have hnil : early = [] := by
    rcases early with - | ⟨key, early⟩
    · rfl
    · obtain ⟨rfl, hrest⟩ := List.cons_prefix_cons.mp hearly
      exact absurd (congrArg _ (List.prefix_nil.mp hrest)) hne
  subst hnil
  exact ⟨⟨_, rfl⟩, _, rfl⟩

end Overridden

end Climate
