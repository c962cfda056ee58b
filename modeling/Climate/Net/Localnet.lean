import Climate.Lib.LongestMatch
import Climate.Net.Addr

/-!
# The interface of a destination

The part of localnet.rs that decides which destinations are relayed. What the
kernel does with a socket is a longest-prefix match over the host's routes, or
over those of one device once the socket is bound to it. `egress` names a
device only where every route either lookup may take leads onto a network of
the host's own.
-/

namespace Climate

structure Route where
  net : IpAddr
  prefixLen : Nat
  gateway : Option IpAddr := none
  reject : Bool := false
  device : String
  deriving DecidableEq, Repr

/-- `checked_shr` of 128-bit integers. -/
def checkedShr (x : BitVec 128) (n : Nat) : Option (BitVec 128) :=
  if n < 128 then some (x >>> n) else none

/-- `width - prefix` is a subtraction of 32-bit integers. -/
def samePrefix (a b : BitVec 128) (width len : Nat) : Bool :=
  (checkedShr (a ^^^ b) ((width + 2 ^ 32 - len) % 2 ^ 32)).getD 0 = 0

namespace Route

def contains (r : Route) (ip : IpAddr) : Bool :=
  match r.net, ip with
  | .v4 net, .v4 ip => samePrefix (net.setWidth 128) (ip.setWidth 128) 32 r.prefixLen
  | .v6 net, .v6 ip => samePrefix net ip 128 r.prefixLen
  | _, _ => false

def onLink (r : Route) : Bool :=
  r.gateway.isNone && !r.reject && 0 < r.prefixLen && r.device ≠ "lo"

end Route

def isUnicast : IpAddr → Bool
  | .v4 ip => !(IpAddr.isUnspecified (.v4 ip) || IpAddr.isBroadcast (.v4 ip) ||
      IpAddr.isMulticast (.v4 ip))
  | .v6 ip => !(IpAddr.isUnspecified (.v6 ip) || IpAddr.isMulticast (.v6 ip))

/-- `routes` is the table as it is read at the time. -/
def egress (routes : List Route) (ip : IpAddr) : Option String :=
  if !isUnicast ip then none
  else
    let matching := routes.filter (·.contains ip)
    match (matching.map (·.prefixLen)).max? with
    | none => none
    | some longest =>
      let best := matching.filter (·.prefixLen = longest)
      if best.all Route.onLink then best.head?.map (·.device) else none

-- ---------------------------------------------------------------------------
-- What the kernel does
-- ---------------------------------------------------------------------------

def AgreeOn (n : Nat) (a b : BitVec w) : Prop := ∀ i < n, a.getMsbD i = b.getMsbD i

def Route.Matches (r : Route) (ip : IpAddr) : Prop :=
  match r.net, ip with
  | .v4 net, .v4 ip => AgreeOn r.prefixLen net ip
  | .v6 net, .v6 ip => AgreeOn r.prefixLen net ip
  | _, _ => False

/-- A route the kernel may send packets for `ip` by. -/
abbrev Routed (routes : List Route) (ip : IpAddr) (r : Route) : Prop :=
  LongestMatch.Selects Route.prefixLen (·.Matches ip) routes r

/-- A route that leads onto a network of the host's own. -/
structure Route.Direct (r : Route) : Prop where
  gateway : r.gateway = none
  reject : r.reject = false
  notDefault : r.prefixLen ≠ 0
  device : r.device ≠ "lo"

theorem Route.onLink_iff {r : Route} : r.onLink = true ↔ r.Direct := by
  simp only [onLink, Bool.and_eq_true, Option.isNone_iff_eq_none, Bool.not_eq_true',
    decide_eq_true_eq, Nat.pos_iff_ne_zero]
  exact ⟨fun ⟨⟨⟨hg, hr⟩, hp⟩, hd⟩ => ⟨hg, hr, hp, by simpa using hd⟩,
    fun h => ⟨⟨⟨h.gateway, h.reject⟩, h.notDefault⟩, by simpa using h.device⟩⟩

theorem checkedShr_eq_zero {x : BitVec 128} (hk : k ≤ 128) :
    (checkedShr x k).getD 0 = 0 ↔ ∀ i, k ≤ i → x.getLsbD i = false := by
  unfold checkedShr
  split
  next hlt =>
    rw [Option.getD_some]
    constructor
    · intro h i hi
      have hbit := congrArg (·.getLsbD (i - k)) h
      simpa [BitVec.getLsbD_ushiftRight, Nat.add_sub_cancel' hi] using hbit
    · intro h
      refine BitVec.eq_of_getLsbD_eq fun i _ => ?_
      simpa [BitVec.getLsbD_ushiftRight] using h (k + i) (Nat.le_add_right _ _)
  next hge =>
    have hk : k = 128 := by omega
    subst hk
    simpa using fun i hi => BitVec.getLsbD_of_ge x i hi

theorem samePrefix_iff {a b : BitVec w} (hw : w ≤ 128) (hlen : len ≤ w) :
    samePrefix (a.setWidth 128) (b.setWidth 128) w len = true ↔ AgreeOn len a b := by
  have hshift : (w + 2 ^ 32 - len) % 2 ^ 32 = w - len := by omega
  rw [samePrefix, decide_eq_true_eq, hshift, checkedShr_eq_zero (by omega)]
  constructor
  · intro h i hi
    have hbit := h (w - 1 - i) (by omega)
    simp only [BitVec.getLsbD_xor, BitVec.getLsbD_setWidth, bne_eq_false_iff_eq] at hbit
    simpa [BitVec.getMsbD, show i < w by omega, show w - 1 - i < 128 by omega] using hbit
  · intro h i hi
    by_cases hiw : i < w
    · have hbit := h (w - 1 - i) (by omega)
      simpa [BitVec.getMsbD, BitVec.getLsbD_setWidth, show w - 1 - i < w by omega,
        show w - 1 - (w - 1 - i) = i by omega, show i < 128 by omega] using hbit
    · simp [BitVec.getLsbD_setWidth, BitVec.getLsbD_of_ge _ i (Nat.le_of_not_lt hiw)]

theorem Route.contains_iff {r : Route} (h : r.prefixLen ≤ r.net.width) :
    r.contains ip = true ↔ r.Matches ip := by
  obtain ⟨net, len, gateway, reject, device⟩ := r
  cases net with
  | v4 net =>
    cases ip with
    | v4 ip => exact samePrefix_iff (by decide) h
    | v6 ip => simp [contains, Matches]
  | v6 net =>
    cases ip with
    | v4 ip => simp [contains, Matches]
    | v6 ip =>
      have hsame := samePrefix_iff (a := net) (b := ip) (w := 128) le_rfl h
      rwa [BitVec.setWidth_eq, BitVec.setWidth_eq] at hsame

-- ---------------------------------------------------------------------------
-- Longest matches
-- ---------------------------------------------------------------------------

theorem routed_iff {routes : List Route} (hlen : ∀ r ∈ routes, r.prefixLen ≤ r.net.width) :
    Routed routes ip r ↔
      LongestMatch.Selects Route.prefixLen (fun r => r.contains ip = true) routes r :=
  ⟨fun h => h.imp fun r hr => (Route.contains_iff (hlen r hr)).symm,
    fun h => h.imp fun r hr => Route.contains_iff (hlen r hr)⟩

/-- The routes `egress` looks at are those the kernel may take. -/
theorem mem_best {routes : List Route} (hlen : ∀ r ∈ routes, r.prefixLen ≤ r.net.width)
    (hk : ((routes.filter (·.contains ip)).map (·.prefixLen)).max? = some k) :
    r ∈ (routes.filter (·.contains ip)).filter (·.prefixLen = k) ↔ Routed routes ip r := by
  rw [routed_iff hlen, LongestMatch.selects_iff (by simpa using hk)]
  simp only [List.mem_filter, decide_eq_true_eq, and_assoc]

theorem egress_device {routes : List Route} (hlen : ∀ r ∈ routes, r.prefixLen ≤ r.net.width)
    (h : egress routes ip = some device) : ∃ r, Routed routes ip r ∧ r.device = device := by
  unfold egress at h
  split at h
  · cases h
  dsimp only at h
  split at h
  · cases h
  next k hk =>
    split at h
    · obtain ⟨r, hr, hd⟩ := Option.map_eq_some_iff.mp h
      exact ⟨r, (mem_best hlen hk).mp (List.mem_of_head? hr), hd⟩
    · cases h

theorem egress_isSome {routes : List Route} (hlen : ∀ r ∈ routes, r.prefixLen ≤ r.net.width) :
    (egress routes ip).isSome = true ↔ isUnicast ip = true ∧ (∃ r ∈ routes, r.Matches ip) ∧
      ∀ r, Routed routes ip r → r.Direct := by
  unfold egress
  cases isUnicast ip with
  | false => simp
  | true =>
    simp only [Bool.not_true, Bool.false_eq_true, if_false, true_and]
    split
    next hk =>
      have hno := LongestMatch.no_hit Route.prefixLen (fun r => r.contains ip = true)
        (by simpa using hk)
      simp only [Option.isSome_none, Bool.false_eq_true, false_iff]
      rintro ⟨⟨r, hr, hm⟩, -⟩
      exact hno r hr ((Route.contains_iff (hlen r hr)).mpr hm)
    next k hk =>
      obtain ⟨r, hr⟩ := LongestMatch.exists_selects Route.prefixLen
        (fun r => r.contains ip = true) (by simpa using hk)
      have hr := (routed_iff hlen).mpr hr
      have hall : ((routes.filter (·.contains ip)).filter (·.prefixLen = k)).all Route.onLink = true ↔
          ∀ r, Routed routes ip r → r.Direct := by
        rw [List.all_eq_true]
        exact forall_congr' fun r => imp_congr (mem_best hlen hk) Route.onLink_iff
      rw [← hall]
      have hexists : ∃ r ∈ routes, r.Matches ip := ⟨r, hr.mem, hr.hit⟩
      split
      next hdirect =>
        have hne : (routes.filter (·.contains ip)).filter (·.prefixLen = k) ≠ [] :=
          List.ne_nil_of_mem ((mem_best hlen hk).mpr hr)
        have hhead : ∃ r, ((routes.filter (·.contains ip)).filter (·.prefixLen = k)).head? = some r :=
          ⟨_, List.head?_eq_some_head hne⟩
        obtain ⟨first, hfirst⟩ := hhead
        simp only [hfirst, Option.map_some, Option.isSome_some, true_iff]
        exact ⟨hexists, hdirect⟩
      next hdirect => simpa using fun _ _ _ => hdirect

/-- A destination has an interface only where every route a longest-prefix
match may take, over the whole table and over that interface's routes alone,
leads onto one of the host's own networks; and it has one wherever that is so,
however the table is ordered. -/
theorem egress_stays_local {routes : List Route} (ip : IpAddr)
    (hlen : ∀ r ∈ routes, r.prefixLen ≤ r.net.width) :
    (∀ device, egress routes ip = some device → isUnicast ip = true ∧
      (∀ r, Routed routes ip r → r.Direct) ∧
      ∀ r, Routed (routes.filter (·.device = device)) ip r → r.Direct) ∧
    (isUnicast ip = true → (∃ r ∈ routes, r.Matches ip) → (∀ r, Routed routes ip r → r.Direct) →
      (egress routes ip).isSome = true) ∧
    ∀ routes', routes'.Perm routes → (egress routes' ip).isSome = (egress routes ip).isSome := by
  refine ⟨fun device h => ?_, fun hu hm hd => (egress_isSome hlen).mpr ⟨hu, hm, hd⟩, ?_⟩
  · obtain ⟨hu, -, hdirect⟩ := (egress_isSome hlen).mp (by rw [h]; rfl)
    obtain ⟨r₀, hr₀, hdevice⟩ := egress_device hlen h
    refine ⟨hu, hdirect, fun r hr => hdirect r (hr₀.of_part ?_ (List.filter_subset_self _) hr)⟩
    exact List.mem_filter.mpr ⟨hr₀.mem, by simpa using hdevice⟩
  · intro routes' hperm
    have hlen' : ∀ r ∈ routes', r.prefixLen ≤ r.net.width := fun r hr => hlen r (hperm.mem_iff.mp hr)
    rw [Bool.eq_iff_iff, egress_isSome hlen', egress_isSome hlen]
    have hrouted : ∀ r, Routed routes' ip r ↔ Routed routes ip r := fun r =>
      ⟨fun h => h.congr fun r => hperm.mem_iff.symm, fun h => h.congr fun r => hperm.mem_iff⟩
    simp only [hperm.mem_iff, hrouted]

def homeRoutes : List Route :=
  [{ net := .v4 0x00000000#32, prefixLen := 0, gateway := some (.v4 0xC0A80001#32), device := "eth0" },
    { net := .v4 0xC0A80000#32, prefixLen := 24, device := "eth0" }]

theorem egress_stays_local_home : egress homeRoutes (.v4 0xC0A80017#32) = some "eth0" ∧
    ∀ r, Routed (homeRoutes.filter (·.device = "eth0")) (.v4 0xC0A80017#32) r → r.Direct := by
  have h : egress homeRoutes (.v4 0xC0A80017#32) = some "eth0" := by rfl
  exact ⟨h, ((egress_stays_local _ (by decide)).1 "eth0" h).2.2⟩

end Climate
