import Climate.Lib.Toml

/-!
# Merged tables, path by path

What a path of keys leads to in a table that another was laid over. Only
tables are entered; arrays and all other values are taken whole.
-/

namespace Toml

-- ---------------------------------------------------------------------------
-- Keys
-- ---------------------------------------------------------------------------

namespace Table

variable {t : Table}

theorem get_cons (entry : String × Value) (rest : Table) (key : String) :
    get (entry :: rest) key = if key = entry.1 then some entry.2 else get rest key := by
  obtain ⟨name, value⟩ := entry
  unfold get
  rw [List.lookup_cons]
  split
  next h => rw [if_pos (eq_of_beq h)]
  next h => rw [if_neg (ne_of_beq_false (by simpa using h))]

theorem get_set (t : Table) (key : String) (value : Value) (other : String) :
    (t.set key value).get other = if other = key then some value else t.get other := by
  induction t with
  | nil => rw [set, get_cons]
  | cons entry rest ih =>
    unfold set
    split
    next heq =>
      rw [get_cons, get_cons, heq]
      split <;> rfl
    next hne =>
      rw [get_cons, get_cons, ih]
      split
      next heq => rw [if_neg fun h => hne (heq.symm.trans h)]
      next => rfl

theorem set_get (h : t.get key = some value) : t.set key value = t := by
  induction t with
  | nil => cases h
  | cons entry rest ih =>
    rw [get_cons] at h
    unfold set
    split
    next heq =>
      rw [if_pos heq.symm] at h
      cases h
      rw [← heq]
    next hne =>
      rw [if_neg fun h => hne h.symm] at h
      rw [ih h]

theorem get_of_mem (h : t.keys.Nodup) (hmem : (key, value) ∈ t) : t.get key = some value := by
  induction t with
  | nil => cases hmem
  | cons entry rest ih =>
    obtain ⟨hnot, h⟩ := List.nodup_cons.mp h
    rw [get_cons]
    rcases List.mem_cons.mp hmem with rfl | hmem
    · rw [if_pos rfl]
    · have hkey : key ∈ Table.keys rest := List.mem_map_of_mem hmem
      rw [if_neg (ne_of_mem_of_not_mem hkey hnot)]
      exact ih h hmem

theorem mem_of_get (h : t.get key = some value) : (key, value) ∈ t := by
  induction t with
  | nil => cases h
  | cons entry rest ih =>
    rw [get_cons] at h
    split at h
    next heq =>
      cases h
      exact heq ▸ List.mem_cons_self
    next => exact List.mem_cons_of_mem _ (ih h)

end Table

/-- No key is there twice, in any of the tables that a value has in it. -/
inductive Value.Distinct : Value → Prop
  | table {t : Table} : t.keys.Nodup → (∀ entry ∈ t, entry.2.Distinct) → Distinct (.table t)
  | other : (∀ t, value ≠ .table t) → Distinct value

-- ---------------------------------------------------------------------------
-- Laying over
-- ---------------------------------------------------------------------------

theorem atop_of_ne {value : Value} (h : ∀ t, value ≠ .table t) (below : Option Value) :
    value.atop below = value := by
  cases value with
  | table t => exact absurd rfl (h t)
  | _ => cases below <;> simp only [Value.atop]

theorem atop_table (above below : Table) :
    (Value.table above).atop (some (.table below)) = .table (merge below above) := by
  rw [Value.atop, merge]

theorem atop_table_of_ne (above : Table) {below : Option Value} (h : ∀ t, below ≠ some (.table t)) :
    (Value.table above).atop below = .table above := by
  cases below with
  | none => simp only [Value.atop]
  | some value =>
    cases value with
    | table t => exact absurd rfl (h t)
    | _ => simp only [Value.atop]

theorem merge_cons (base : Table) (entry : String × Value) (rest : Table) :
    merge base (entry :: rest) = merge (base.set entry.1 (entry.2.atop (base.get entry.1))) rest := by
  obtain ⟨key, value⟩ := entry
  rw [merge, entriesOver, entryOver, merge]

theorem get_merge (base : Table) {override : Table} (h : override.keys.Nodup) : (merge base override).get key =
    match override.get key with
    | none => base.get key
    | some value => some (value.atop (base.get key)) := by
  induction override generalizing base with
  | nil => rfl
  | cons entry rest ih =>
    obtain ⟨hnot, h⟩ := List.nodup_cons.mp h
    rw [merge_cons, ih _ h, Table.get_cons, Table.get_set]
    by_cases heq : key = entry.1
    · subst heq
      have hnone : Table.get rest entry.1 = none :=
        Option.eq_none_iff_forall_ne_some.mpr fun value hget =>
          hnot (List.mem_map.mpr ⟨_, Table.mem_of_get hget, rfl⟩)
      rw [if_pos rfl, if_pos rfl, hnone]
    · rw [if_neg heq, if_neg heq]

theorem merge_eq_self {base override : Table}
    (h : ∀ entry ∈ override, ∃ value, base.get entry.1 = some value ∧ entry.2.atop (some value) = value) :
    merge base override = base := by
  induction override with
  | nil => rfl
  | cons entry rest ih =>
    obtain ⟨value, hget, hover⟩ := h entry (by simp)
    rw [merge_cons, hget, hover, Table.set_get hget]
    exact ih fun other hother => h other (by simp [hother])

theorem atop_self {value : Value} (h : value.Distinct) : value.atop (some value) = value := by
  induction h with
  | table hnodup _ ih =>
    rw [atop_table, merge_eq_self fun entry hentry => ⟨entry.2, Table.get_of_mem hnodup hentry, ih entry hentry⟩]
  | other hne => exact atop_of_ne hne _

theorem atop_atop {value : Value} (h : value.Distinct) (below : Option Value) :
    value.atop (some (value.atop below)) = value.atop below := by
  induction h generalizing below with
  | @table above hnodup hentries ih =>
    by_cases htable : ∃ t, below = some (.table t)
    · obtain ⟨t, rfl⟩ := htable
      rw [atop_table, atop_table, merge_eq_self fun entry hentry => ?_]
      refine ⟨entry.2.atop (Table.get t entry.1), ?_, ih entry hentry _⟩
      rw [get_merge t hnodup, Table.get_of_mem hnodup hentry]
    · rw [atop_table_of_ne above fun t ht => htable ⟨t, ht⟩]
      exact atop_self (.table hnodup hentries)
  | other hne => rw [atop_of_ne hne, atop_of_ne hne]

/-- Laying a table over another once is enough. -/
theorem merge_merge (base : Table) {override : Table} (h : (Value.table override).Distinct) :
    merge (merge base override) override = merge base override := by
  have htwice := atop_atop h (some (.table base))
  rw [atop_table, atop_table] at htwice
  exact Value.table.inj htwice

-- ---------------------------------------------------------------------------
-- Paths
-- ---------------------------------------------------------------------------

def Value.find : Value → List String → Option Value
  | value, [] => some value
  | .table t, key :: rest => (Table.get t key).bind (·.find rest)
  | _, _ :: _ => none

/-- Wherever the path is in the upper value above its end, it passes a table
of both. -/
def Passes (base override : Value) (path : List String) : Prop :=
  ∀ early, early <+: path → early ≠ path → (override.find early).isSome = true →
    (∃ t, override.find early = some (.table t)) ∧ ∃ t, base.find early = some (.table t)

/-- What a path leads to in a merged value. -/
structure Merged (base override merged : Value) (path : List String) : Prop where
  value : ∀ v, (∀ t, v ≠ .table t) → override.find path = some v → merged.find path = some v
  table : ∀ t, override.find path = some (.table t) → ∃ t', merged.find path = some (.table t')
  kept : override.find path = none → Passes base override path → merged.find path = base.find path
  lost : override.find path = none → ¬ Passes base override path → merged.find path = none

theorem Merged.value_iff {base override merged : Value} (h : Merged base override merged path)
    (hv : ∀ t, v ≠ .table t) :
    merged.find path = some v ↔
      override.find path = some v ∨ override.find path = none ∧ base.find path = some v ∧
      Passes base override path := by
  constructor
  · intro hmerged
    cases hover : override.find path with
    | none =>
      by_cases hpasses : Passes base override path
      · exact .inr ⟨rfl, (h.kept hover hpasses).symm.trans hmerged, hpasses⟩
      · cases (h.lost hover hpasses).symm.trans hmerged
    | some w =>
      by_cases htable : ∃ t, w = .table t
      · obtain ⟨t, rfl⟩ := htable
        obtain ⟨t', ht'⟩ := h.table t hover
        exact absurd (Option.some.inj (hmerged.symm.trans ht')) (hv t')
      · exact .inl ((h.value w (fun t ht => htable ⟨t, ht⟩) hover).symm.trans hmerged)
  · rintro (hover | ⟨hover, hbase, hpasses⟩)
    · exact h.value v hv hover
    · exact (h.kept hover hpasses).trans hbase

theorem Merged.table_iff {base override merged : Value} (h : Merged base override merged path) :
    (∃ t, merged.find path = some (.table t)) ↔ (∃ t, override.find path = some (.table t)) ∨
      override.find path = none ∧ (∃ t, base.find path = some (.table t)) ∧ Passes base override path := by
  constructor
  · rintro ⟨t, hmerged⟩
    cases hover : override.find path with
    | none =>
      by_cases hpasses : Passes base override path
      · exact .inr ⟨rfl, ⟨t, (h.kept hover hpasses).symm.trans hmerged⟩, hpasses⟩
      · cases (h.lost hover hpasses).symm.trans hmerged
    | some w =>
      by_cases htable : ∃ t, w = .table t
      · obtain ⟨t', rfl⟩ := htable
        exact .inl ⟨t', rfl⟩
      · have hvalue := h.value w (fun t ht => htable ⟨t, ht⟩) hover
        exact absurd ⟨t, Option.some.inj (hvalue.symm.trans hmerged)⟩ htable
  · rintro (⟨t, hover⟩ | ⟨hover, ⟨t, hbase⟩, hpasses⟩)
    · exact h.table t hover
    · exact ⟨t, (h.kept hover hpasses).trans hbase⟩

theorem find_table (t : Table) (key : String) (rest : List String) :
    (Value.table t).find (key :: rest) = (Table.get t key).bind (·.find rest) := by
  rw [Value.find]

theorem passes_cons {base override : Table} : Passes (.table base) (.table override) (key :: rest) ↔
    ∀ early, early <+: rest → early ≠ rest → ((Value.table override).find (key :: early)).isSome = true →
      (∃ t, (Value.table override).find (key :: early) = some (.table t)) ∧
        ∃ t, (Value.table base).find (key :: early) = some (.table t) := by
  constructor
  · intro h early hpre hne
    exact h (key :: early) (List.cons_prefix_cons.mpr ⟨rfl, hpre⟩) (by simpa using hne)
  · intro h early hpre hne hsome
    cases early with
    | nil => exact ⟨⟨override, rfl⟩, base, rfl⟩
    | cons key' early =>
      obtain ⟨rfl, hearly⟩ := List.cons_prefix_cons.mp hpre
      exact h early hearly (by simpa using hne) hsome

theorem not_passes {base override : Table} (hrest : rest ≠ []) (hover : override.get key = some value)
    (hne : ¬ ((∃ t, value = .table t) ∧ ∃ t, base.get key = some (.table t))) :
    ¬ Passes (.table base) (.table override) (key :: rest) := by
  intro h
  have hfirst := passes_cons.mp h [] (List.nil_prefix) hrest.symm
  simp only [hover, Option.bind_some, Value.find, Option.isSome_some, Option.some.injEq,
    forall_const] at hfirst
  refine hne ⟨hfirst.1, ?_⟩
  obtain ⟨t, ht⟩ := hfirst.2
  obtain ⟨below, hbelow, hfind⟩ := Option.bind_eq_some_iff.mp ht
  cases hfind
  exact ⟨t, hbelow⟩

/-- Below a key that is not a table in both, the upper value is the one there is. -/
theorem merged_of_upper {base override merged : Table} {value : Value} (hover : override.get key = some value)
    (hmerged : merged.get key = some value)
    (hne : ¬ ((∃ t, value = .table t) ∧ ∃ t, base.get key = some (.table t))) :
    Merged (.table base) (.table override) (.table merged) (key :: rest) := by
  have hsame : (Value.table merged).find (key :: rest) = (Value.table override).find (key :: rest) := by
    rw [find_table, find_table, hover, hmerged]
  refine ⟨fun v _ hv => hsame.trans hv, fun t ht => ⟨t, hsame.trans ht⟩, fun hnone hpasses => ?_,
    fun hnone _ => hsame.trans hnone⟩
  have hrest : rest ≠ [] := by
    rintro rfl
    rw [find_table, hover] at hnone
    cases hnone
  exact absurd hpasses (not_passes hrest hover hne)

theorem merged_find (base override : Table) (h : (Value.table override).Distinct) (path : List String) :
    Merged (.table base) (.table override) (.table (merge base override)) path := by
  induction path generalizing base override with
  | nil =>
    refine ⟨fun v hne hv => ?_, fun _ _ => ⟨_, rfl⟩, nofun, nofun⟩
    cases hv
    exact absurd rfl (hne override)
  | cons key rest ih =>
    obtain ⟨hnodup, hentries⟩ : override.keys.Nodup ∧ ∀ entry ∈ override, entry.2.Distinct := by
      cases h with
      | table hnodup hentries => exact ⟨hnodup, hentries⟩
      | other hne => exact absurd rfl (hne override)
    have hget : (merge base override).get key = _ := get_merge base hnodup
    cases hover : override.get key with
    | none =>
      rw [hover] at hget
      have hnone : ∀ path, (Value.table override).find (key :: path) = none := fun path => by
        rw [find_table, hover, Option.bind_none]
      have hsame : (Value.table (merge base override)).find (key :: rest) =
          (Value.table base).find (key :: rest) := by
        rw [find_table, find_table, hget]
      have hpasses : Passes (.table base) (.table override) (key :: rest) :=
        passes_cons.mpr fun early _ _ hsome => by rw [hnone] at hsome; cases hsome
      refine ⟨fun v _ hv => ?_, fun t ht => ?_, fun _ _ => hsame, fun _ hnot => absurd hpasses hnot⟩
      · rw [hnone] at hv
        cases hv
      · rw [hnone] at ht
        cases ht
    | some value =>
      rw [hover] at hget
      by_cases hboth : (∃ t, value = .table t) ∧ ∃ t, base.get key = some (.table t)
      · obtain ⟨⟨above, rfl⟩, below, hbelow⟩ := hboth
        rw [hbelow] at hget
        dsimp only at hget
        rw [atop_table] at hget
        have hrest := ih below above (hentries _ (Table.mem_of_get hover))
        have hpasses : Passes (.table base) (.table override) (key :: rest) ↔
            Passes (.table below) (.table above) rest := by
          rw [passes_cons]
          simp only [find_table, hover, hbelow, Option.bind_some]
          rfl
        obtain ⟨hvalue, htable, hkept, hlost⟩ := hrest
        refine ⟨?_, ?_, ?_, ?_⟩
        all_goals simp only [find_table, hover, hget, hbelow, Option.bind_some, hpasses]
        · exact hvalue
        · exact htable
        · exact hkept
        · exact hlost
      · have hvalue : value.atop (base.get key) = value := by
          by_cases htable : ∃ t, value = .table t
          · obtain ⟨above, rfl⟩ := htable
            exact atop_table_of_ne above fun t ht => hboth ⟨⟨above, rfl⟩, t, ht⟩
          · exact atop_of_ne (fun t ht => htable ⟨t, ht⟩) _
        dsimp only at hget
        rw [hvalue] at hget
        exact merged_of_upper hover hget hboth

end Toml
