import Climate.Spec.Sizes
import Mathlib.Data.Rat.Floor
import Mathlib.Tactic.Linarith

/-!
# Limits that hold

Every limit of a definition becomes a setting of its own, and one that limits
something, but for a share of a CPU so small that it is rounded to nothing.
-/

namespace Climate

variable {limits : LimitsConfig}

/-- What the keys that are set become, and that the others become nothing. -/
structure Limited (limits : LimitsConfig) (r : LinuxResources) : Prop where
  memory : Option.Rel (fun text m => parseMemory "memory" text = .ok m.limit ∧ 0 < m.limit) limits.memory r.memory
  swap : Option.Rel (fun text total => ∃ m swap, r.memory = some m ∧ parseMemory "swap" text = .ok swap ∧
    total = m.limit + swap ∧ total ≤ i64Max) limits.swap (r.memory.bind (·.swap))
  high : ∃ setting, r.unified = setting.toList ∧ Option.Rel (fun text e => ∃ high,
    parseMemory "memory-high" text = .ok high ∧ e = ("memory.high", toString high) ∧ 0 < high ∧
      ∀ m ∈ r.memory, high < m.limit) limits.memoryHigh setting
  quota : Option.Rel (fun _ quota => 1 ≤ quota) limits.cpu (r.cpu.bind (·.quota))
  period : Option.Rel (fun _ period => period = cpuPeriod) limits.cpu (r.cpu.bind (·.period))
  shares : Option.Rel (fun shares n => n = shares.toInt ∧ 2 ≤ n ∧ n ≤ 262144) limits.cpuShares
    (r.cpu.bind (·.shares))
  pids : Option.Rel (fun pids n => n = pids.toInt ∧ 1 ≤ n) limits.pids r.pids

/-- No limit that is stated is lost. -/
structure Limiting (limits : LimitsConfig) (r : Option LinuxResources) : Prop where
  none_iff : r = none ↔ limits = {}
  limited : ∀ settings ∈ r, Limited limits settings

-- ---------------------------------------------------------------------------
-- One key at a time
-- ---------------------------------------------------------------------------

theorem bind_eq_ok {x : Except ε α} {f : α → Except ε β} :
    (x >>= f) = .ok b ↔ ∃ a, x = .ok a ∧ f a = .ok b := by
  cases x with
  | error e => simp [bind, Except.bind]
  | ok a => simp [bind, Except.bind]

theorem option_mapM_ok {f : α → Except ε β} {x : Option α} {y : Option β} :
    x.mapM f = .ok y ↔ Option.Rel (fun a b => f a = .ok b) x y := by
  cases x with
  | none =>
    constructor
    · intro h
      cases h
      exact .none
    · intro h
      cases h
      rfl
  | some a =>
    change (f a >>= fun b => pure (some b)) = .ok y ↔ _
    rw [bind_eq_ok]
    constructor
    · rintro ⟨b, hb, h⟩
      cases h
      exact .some hb
    · intro h
      cases h with
      | some hb => exact ⟨_, hb, rfl⟩

theorem rel_imp {R S : α → β → Prop} (h : Option.Rel R x y) (himp : ∀ a b, x = some a → R a b → S a b) :
    Option.Rel S x y := by
  cases h with
  | none => exact .none
  | some hab => exact .some (himp _ _ rfl hab)

theorem rel_both {R S : α → β → Prop} (h : Option.Rel R x y) (h' : Option.Rel S x y) (hx : x = some a) :
    ∃ b, R a b ∧ S a b := by
  subst hx
  cases h with
  | some hab =>
    cases h' with
    | some hab' => exact ⟨_, hab, hab'⟩

theorem parseMemory_fits (h : parseMemory key value = .ok n) : 0 ≤ n ∧ n ≤ i64Max := by
  cases parseMemory_iff.mp h with
  | mk hvalue hdecimal hamount hnonneg hunit hfits =>
    simp only [fitsI64, Bool.and_eq_true, decide_eq_true_eq] at hfits
    exact ⟨by positivity, hfits.2⟩

theorem parseSize_ok : parseSize key value = .ok n ↔ parseMemory key value = .ok n ∧ 0 < n := by
  unfold parseSize
  rw [bind_eq_ok]
  constructor
  · rintro ⟨size, hparse, h⟩
    split at h
    · cases h
    next hzero =>
      cases h
      have hnonneg := (parseMemory_fits hparse).1
      exact ⟨hparse, by omega⟩
  · rintro ⟨hparse, hpos⟩
    refine ⟨n, hparse, ?_⟩
    rw [if_neg (by omega)]
    rfl

theorem memoryLimit_ok (h : memoryLimit limits = .ok memory) :
    Option.Rel (fun text m => parseMemory "memory" text = .ok m.limit ∧ 0 < m.limit) limits.memory memory ∧
    Option.Rel (fun text total => ∃ m swap, memory = some m ∧ parseMemory "swap" text = .ok swap ∧
      total = m.limit + swap ∧ total ≤ i64Max) limits.swap (memory.bind (·.swap)) := by
  obtain ⟨size, hsize, h⟩ := bind_eq_ok.mp h
  have hsize := option_mapM_ok.mp hsize
  generalize limits.memory = text? at hsize
  cases hsize with
  | none =>
    cases hswap : limits.swap with
    | none =>
      rw [hswap] at h
      cases h
      exact ⟨.none, .none⟩
    | some text => rw [hswap] at h; cases h
  | @some text limit hlimit =>
    have hlimit := parseSize_ok.mp hlimit
    cases hswap : limits.swap with
    | none =>
      rw [hswap] at h
      cases h
      exact ⟨.some hlimit, .none⟩
    | some text' =>
      rw [hswap] at h
      obtain ⟨swap, hparse, h⟩ := bind_eq_ok.mp h
      split at h
      next hfits =>
        cases h
        simp only [fitsI64, Bool.and_eq_true, decide_eq_true_eq] at hfits
        exact ⟨.some hlimit, .some ⟨_, swap, rfl, hparse, rfl, hfits.2⟩⟩
      next => cases h

theorem memoryHigh_ok (h : memoryHigh limits memory = .ok unified) :
    ∃ setting, unified = setting.toList ∧ Option.Rel (fun text e => ∃ high,
      parseMemory "memory-high" text = .ok high ∧ e = ("memory.high", toString high) ∧ 0 < high ∧
        ∀ m ∈ memory, high < m.limit) limits.memoryHigh setting := by
  unfold memoryHigh at h
  split at h
  next hhigh =>
    cases h
    exact ⟨none, rfl, hhigh ▸ .none⟩
  next text hhigh =>
    obtain ⟨high, hparse, h⟩ := bind_eq_ok.mp h
    obtain ⟨hparse, hpos⟩ := parseSize_ok.mp hparse
    split at h
    · cases h
    next hbelow =>
      cases h
      refine ⟨some _, rfl, hhigh ▸ .some ⟨high, hparse, rfl, hpos, fun m hm => ?_⟩⟩
      rw [Option.mem_def.mp hm] at hbelow
      simpa using hbelow

theorem cpuShares_ok (h : cpuShares shares = .ok n) : n = shares.toInt ∧ 2 ≤ n ∧ n ≤ 262144 := by
  unfold cpuShares at h
  split at h
  next hrange =>
    cases h
    exact ⟨rfl, Int64.le_iff_toInt_le.mp hrange.1, Int64.le_iff_toInt_le.mp hrange.2⟩
  next => cases h

theorem pidsLimit_ok (h : pidsLimit pids = .ok n) : n = pids.toInt ∧ 1 ≤ n := by
  unfold pidsLimit at h
  split at h
  next => cases h
  next hpos =>
    cases h
    exact ⟨rfl, Int64.lt_iff_toInt_lt.mp (Int64.not_le.mp hpos)⟩

theorem roundAway_pos {q : Rat} (h : 0 ≤ q) : 1 ≤ roundAway q ↔ 1 / 2 ≤ q := by
  rw [roundAway, if_pos h, Rat.le_floor_iff]
  constructor
  · intro hle
    push_cast at hle
    linarith
  · intro hle
    push_cast
    linarith

/-- A quota is a microsecond or more, unless the share is less than half of that. -/
theorem cpuQuota_pos (h : cpuQuota cpu = .ok quota) :
    1 ≤ quota ↔ ∀ q, cpu = .value q → 1 / 200000 ≤ q := by
  unfold cpuQuota at h
  split at h
  · cases h
  · cases h
  · cases h
    exact iff_of_true (by decide) (by simp)
  next q =>
    split at h
    · cases h
    next hpos =>
      cases h
      have hrange : ∀ n, 1 ≤ saturate n ↔ 1 ≤ n := by
        intro n
        unfold saturate i64Min i64Max
        omega
      have hpos : 0 < q := not_le.mp hpos
      have hround := roundAway_pos (q := q * cpuPeriod) (by unfold cpuPeriod; positivity)
      rw [hrange, hround]
      simp only [Toml.Number.value.injEq, forall_eq']
      unfold cpuPeriod
      push_cast
      constructor
      · intro hle
        linarith
      · intro hle
        linarith

theorem cpuLimit_ok (h : cpuLimit limits = .ok cpu) :
    Option.Rel (fun x quota => cpuQuota x = .ok quota) limits.cpu (cpu.bind (·.quota)) ∧
    Option.Rel (fun _ period => period = cpuPeriod) limits.cpu (cpu.bind (·.period)) ∧
    Option.Rel (fun shares n => n = shares.toInt ∧ 2 ≤ n ∧ n ≤ 262144) limits.cpuShares
      (cpu.bind (·.shares)) := by
  unfold cpuLimit at h
  split at h
  next hnone =>
    cases h
    rw [Option.isNone_iff_eq_none.mp hnone.1, Option.isNone_iff_eq_none.mp hnone.2]
    exact ⟨.none, .none, .none⟩
  next =>
    obtain ⟨quota, hquota, h⟩ := bind_eq_ok.mp h
    obtain ⟨shares, hshares, h⟩ := bind_eq_ok.mp h
    cases h
    have hquota := option_mapM_ok.mp hquota
    refine ⟨hquota, ?_, rel_imp (option_mapM_ok.mp hshares) fun _ _ _ => cpuShares_ok⟩
    generalize limits.cpu = cpu? at hquota
    cases hquota with
    | none => exact .none
    | some _ => exact .some rfl

-- ---------------------------------------------------------------------------
-- All of them
-- ---------------------------------------------------------------------------

/-- Every limit that is stated holds exactly if the share of a CPU is at least
five millionths of one. -/
theorem limits_hold_iff (h : resources limits = .ok r) :
    Limiting limits r ↔ ∀ q, limits.cpu = some (.value q) → 1 / 200000 ≤ q := by
  unfold resources at h
  split at h
  next hnone =>
    cases h
    subst hnone
    exact iff_of_true ⟨by simp, by simp⟩ (by simp)
  next hsome =>
    obtain ⟨memory, hmemory, h⟩ := bind_eq_ok.mp h
    obtain ⟨unified, hunified, h⟩ := bind_eq_ok.mp h
    obtain ⟨cpu, hcpu, h⟩ := bind_eq_ok.mp h
    obtain ⟨pids, hpids, h⟩ := bind_eq_ok.mp h
    cases h
    obtain ⟨hlimit, hswap⟩ := memoryLimit_ok hmemory
    obtain ⟨hquota, hperiod, hshares⟩ := cpuLimit_ok hcpu
    have hpids := rel_imp (option_mapM_ok.mp hpids) fun _ _ _ => pidsLimit_ok
    constructor
    · intro hlimiting q hq
      obtain ⟨quota, hquota, hpos⟩ := rel_both hquota (hlimiting.limited _ rfl).quota hq
      exact (cpuQuota_pos hquota).mp hpos q rfl
    · intro hall
      refine ⟨by simp [hsome], fun settings hsettings => ?_⟩
      cases hsettings
      refine ⟨hlimit, hswap, memoryHigh_ok hunified, rel_imp hquota fun cpu quota hcpu hquota => ?_, hperiod,
        hshares, hpids⟩
      exact (cpuQuota_pos hquota).mpr fun q hq => hall q (by rw [hcpu, hq])

def limited : LimitsConfig where
  memory := some "512M"
  swap := some "0"
  memoryHigh := some "256MiB"
  cpu := some (.value (3 / 2))
  cpuShares := some 512
  pids := some 64

def limitedResources : LinuxResources where
  memory := some { limit := 536870912, swap := some 536870912 }
  unified := [("memory.high", "268435456")]
  cpu := some { quota := some 150000, period := some 100000, shares := some 512 }
  pids := some 64

theorem limits_hold_iff_limited :
    resources limited = .ok (some limitedResources) ∧ Limiting limited (some limitedResources) := by
  have h : resources limited = .ok (some limitedResources) := by decide +kernel
  refine ⟨h, (limits_hold_iff h).mpr fun q hq => ?_⟩
  obtain rfl : 3 / 2 = q := by simpa [limited] using hq
  norm_num

/-- A millionth of a CPU becomes a quota of nothing. -/
theorem quota_lost : ∃ r, resources { cpu := some (.value (1 / 1000000)) } = .ok r ∧
    ¬ Limiting { cpu := some (.value (1 / 1000000)) } r := by
  refine ⟨some { cpu := some { quota := some 0, period := some 100000 } }, by decide +kernel, fun hlimiting => ?_⟩
  cases (hlimiting.limited _ rfl).quota with
  | some hpos => cases hpos

end Climate
