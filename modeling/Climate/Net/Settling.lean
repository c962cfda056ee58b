import Climate.Net.Mirrors

/-!
# Where the mirrors settle

What rescans make of the mirrors once the services of both sides stay the same
and every bind of a free loopback address succeeds. A port that is mirrored
already is left as it is, so what an earlier bind that failed has left out of a
mirror stays out, and a mirror beside which a service has started stays there.
-/

namespace Climate.Forward

/-- The services are these, and every bind of a free address succeeds. -/
structure Moment.Steady (host container : List Listener) (now : Moment) : Prop where
  host : now.host = host
  container : now.container = container
  services : ∀ inbound addr, now.services inbound addr = now.beside inbound
  granted : ∀ inbound addr, now.granted inbound addr = true

/-- Ports listened on by one side only are mirrored on each loopback address of
the other, and no other port is. -/
structure Settled (host container : List Listener) (mirrors : List Mirror) : Prop where
  outbound : ∀ port ∈ listeningPorts host, port ∉ listeningPorts container →
    ∀ addr ∈ loopbackAddrs port, ⟨addr, port, false⟩ ∈ mirrors
  inbound : ∀ port ∈ listeningPorts container, port ∉ listeningPorts host →
    ∀ addr ∈ loopbackAddrs port, ⟨addr, port, true⟩ ∈ mirrors
  others : ∀ port, (port ∈ listeningPorts host ↔ port ∈ listeningPorts container) →
    ∀ m ∈ mirrors, m.port ≠ port

/-- No mirrored port whose service is still there has a service beside the
mirror as well, or is mirrored on one loopback address only. -/
def Whole (host container : List Listener) (mirrors : List Mirror) : Prop :=
  ∀ m ∈ mirrors, m.port ∈ listeningPorts (if m.inbound then container else host) →
    m.port ∉ listeningPorts (if m.inbound then host else container) ∧
      ∀ addr ∈ loopbackAddrs m.port, ⟨addr, m.port, m.inbound⟩ ∈ mirrors

def Right (host container : List Listener) (mirrors : List Mirror) : Prop :=
  ∀ m ∈ mirrors, m.port ∈ listeningPorts (if m.inbound then container else host) ∧
    m.port ∉ listeningPorts (if m.inbound then host else container) ∧
      ∀ addr ∈ loopbackAddrs m.port, ⟨addr, m.port, m.inbound⟩ ∈ mirrors

variable {host container : List Listener} {now : Moment} {mirrors : List Mirror}

theorem Right.whole (h : Right host container mirrors) : Whole host container mirrors :=
  fun m hm _ => (h m hm).2

theorem Moment.Steady.served (h : now.Steady host container) (inbound : Bool) :
    now.served inbound = if inbound then container else host := by
  rw [Moment.served, h.host, h.container]

theorem Moment.Steady.beside (h : now.Steady host container) (inbound : Bool) :
    now.beside inbound = if inbound then host else container := by
  rw [Moment.beside, h.host, h.container]

theorem Moment.Steady.bound (h : now.Steady host container)
    (hfree : port ∉ listeningPorts (now.beside inbound)) : bound now inbound port = loopbackAddrs port := by
  refine List.filter_eq_self.mpr fun addr haddr => ?_
  rw [h.granted, h.services, Bool.true_and, Bool.not_eq_true', List.any_eq_false]
  exact fun l hl htakes => hfree (listening_of_takes haddr htakes hl)

theorem Whole.rescan (hsound : Sound mirrors) (h : Whole host container mirrors)
    (hsteady : now.Steady host container) : Right host container (rescan now mirrors) := by
  intro m hm
  obtain ⟨hwants, hm⟩ := (mem_rescan hsound).mp hm
  obtain ⟨hserved, -, hbeside⟩ := id hwants
  rw [hsteady.served] at hserved
  rcases hm with hm | ⟨hnew, -⟩
  · obtain ⟨hfree, hboth⟩ := h m hm hserved
    exact ⟨hserved, hfree, fun addr haddr => (mem_rescan hsound).mpr ⟨hwants, .inl (hboth addr haddr)⟩⟩
  · have hfree : m.port ∉ listeningPorts (now.beside m.inbound) := fun hin => hnew (hbeside hin)
    refine ⟨hserved, by rwa [hsteady.beside] at hfree, fun addr haddr => ?_⟩
    refine (mem_rescan hsound).mpr ⟨hwants, .inr ⟨hnew, ?_⟩⟩
    rw [hsteady.bound hfree]
    exact haddr

theorem Right.rescan_mem (hsound : Sound mirrors) (h : Right host container mirrors)
    (hsteady : now.Steady host container) (inbound : Bool)
    (hserved : port ∈ listeningPorts (if inbound then container else host))
    (hfree : port ∉ listeningPorts (if inbound then host else container))
    (haddr : addr ∈ loopbackAddrs port) : ⟨addr, port, inbound⟩ ∈ rescan now mirrors := by
  have hother : port ∉ ports (!inbound) mirrors := by
    rw [mem_ports]
    rintro ⟨m, hm, hinbound, rfl⟩
    have hright := (h m hm).1
    rw [hinbound] at hright
    cases inbound <;> exact hfree hright
  refine (mem_rescan hsound).mpr ⟨⟨?_, hother, fun hin => ?_⟩, ?_⟩
  · rwa [hsteady.served]
  · rw [hsteady.beside] at hin
    exact absurd hin hfree
  · by_cases hours : port ∈ ports inbound mirrors
    · obtain ⟨m, hm, rfl, rfl⟩ := mem_ports.mp hours
      exact .inl ((h m hm).2.2 addr haddr)
    · refine .inr ⟨hours, ?_⟩
      rw [hsteady.bound (by rwa [hsteady.beside])]
      exact haddr

theorem Right.settled (hsound : Sound mirrors) (h : Right host container mirrors)
    (hsteady : now.Steady host container) : Settled host container (rescan now mirrors) := by
  refine ⟨fun port hserved hfree addr haddr => ?_, fun port hserved hfree addr haddr => ?_,
    fun port hiff m hm hport => ?_⟩
  · exact h.rescan_mem hsound hsteady false hserved hfree haddr
  · exact h.rescan_mem hsound hsteady true hserved hfree haddr
  · obtain ⟨hserved, hfree, -⟩ := h.whole.rescan hsound hsteady m hm
    subst hport
    cases hdir : m.inbound <;> simp only [hdir] at hserved hfree
    · exact hfree (hiff.mp hserved)
    · exact hfree (hiff.mpr hserved)

/-- A mirror that will never be right: its service is there, and another one
beside it, or the port's other mirror is missing. -/
structure Stuck (host container : List Listener) (mirrors : List Mirror) (m : Mirror) : Prop where
  mem : m ∈ mirrors
  served : m.port ∈ listeningPorts (if m.inbound then container else host)
  wrong : m.port ∈ listeningPorts (if m.inbound then host else container) ∨
    ∃ addr ∈ loopbackAddrs m.port, ⟨addr, m.port, m.inbound⟩ ∉ mirrors

theorem Stuck.of_not_whole (h : ¬ Whole host container mirrors) : ∃ m, Stuck host container mirrors m := by
  simp only [Whole, not_forall] at h
  obtain ⟨m, hm, hserved, hnot⟩ := h
  refine ⟨m, hm, hserved, ?_⟩
  by_contra hfine
  simp only [not_or, not_exists, not_and, not_not] at hfine
  exact hnot hfine

theorem Stuck.rescan (hsound : Sound mirrors) (h : Stuck host container mirrors m)
    (hsteady : now.Steady host container) : Stuck host container (rescan now mirrors) m := by
  have hours : m.port ∈ ports m.inbound mirrors := mem_ports.mpr ⟨m, h.mem, rfl, rfl⟩
  have hwants : Wants now mirrors m.inbound m.port := by
    refine ⟨by rw [hsteady.served]; exact h.served, ?_, fun _ => hours⟩
    rw [mem_ports]
    rintro ⟨n, hn, hdir, hport⟩
    have hsame := hsound.oneWay n hn m h.mem hport
    rw [hsame] at hdir
    cases hm : m.inbound <;> simp [hm] at hdir
  refine ⟨(mem_rescan hsound).mpr ⟨hwants, .inl h.mem⟩, h.served, h.wrong.imp_right ?_⟩
  rintro ⟨addr, haddr, hmissing⟩
  refine ⟨addr, haddr, fun hm => ?_⟩
  rcases ((mem_rescan hsound).mp hm).2 with hm | ⟨hnew, -⟩
  · exact hmissing hm
  · exact hnew hours

theorem Stuck.not_settled (h : Stuck host container mirrors m) : ¬ Settled host container mirrors := by
  obtain ⟨hmem, hserved, hwrong⟩ := h
  intro hsettled
  by_cases hbeside : m.port ∈ listeningPorts (if m.inbound then host else container)
  · refine hsettled.others m.port ?_ m hmem rfl
    cases hdir : m.inbound <;> simp only [hdir] at hserved hbeside <;> exact iff_of_true (by assumption)
      (by assumption)
  · obtain ⟨addr, haddr, hmissing⟩ := hwrong.resolve_left hbeside
    cases hdir : m.inbound <;> simp only [hdir] at hserved hbeside hmissing
    · exact hmissing (hsettled.outbound m.port hserved hbeside addr haddr)
    · exact hmissing (hsettled.inbound m.port hserved hbeside addr haddr)

theorem Right.rescans (hsound : Sound mirrors) (h : Right host container mirrors) {later : List Moment}
    (hsteady : ∀ now ∈ later, now.Steady host container) (hlater : later ≠ []) :
    Settled host container (rescans later mirrors) := by
  induction later generalizing mirrors with
  | nil => exact absurd rfl hlater
  | cons now later ih =>
    have hnow := hsteady now (by simp)
    cases later with
    | nil => exact h.settled hsound hnow
    | cons _ _ =>
      exact ih (hsound.rescan now) (h.whole.rescan hsound hnow)
        (fun other hmem => hsteady other (List.mem_cons_of_mem _ hmem)) (by simp)

theorem Stuck.rescans (hsound : Sound mirrors) (h : Stuck host container mirrors m) {later : List Moment}
    (hsteady : ∀ now ∈ later, now.Steady host container) :
    Stuck host container (rescans later mirrors) m := by
  induction later generalizing mirrors with
  | nil => exact h
  | cons now later ih =>
    exact ih (hsound.rescan now) (h.rescan hsound (hsteady now (by simp)))
      fun other hmem => hsteady other (List.mem_cons_of_mem _ hmem)

/-- After any run of rescans, two or more with the services staying the same
settle the mirrors exactly if none of them is stuck. -/
theorem settles_iff {before later : List Moment} (hsteady : ∀ now ∈ later, now.Steady host container)
    (htwo : 2 ≤ later.length) :
    Settled host container (rescans later (rescans before [])) ↔
      Whole host container (rescans before []) := by
  have hsound := sound_nil.rescans before
  constructor
  · intro hsettled
    by_contra hwhole
    obtain ⟨m, hm⟩ := Stuck.of_not_whole hwhole
    exact (hm.rescans hsound hsteady).not_settled hsettled
  · intro hwhole
    match later, htwo with
    | first :: second :: later, _ =>
      exact Right.rescans (hsound.rescan first) (hwhole.rescan hsound (hsteady first (by simp)))
        (fun now hmem => hsteady now (List.mem_cons_of_mem _ hmem)) (by simp)

-- ---------------------------------------------------------------------------
-- A service that starts between a scan and a bind
-- ---------------------------------------------------------------------------

def web : Listener := { addr := ⟨localhostV4, 8080⟩ }

def webV6 : Listener := { addr := ⟨localhostV6, 8080⟩ }

def steady (host container : List Listener) : Moment where
  host
  container
  services inbound _ := if inbound then host else container
  granted _ _ := true
  order := id
  order_perm := List.Perm.refl

theorem steady_steady (host container : List Listener) : (steady host container).Steady host container :=
  ⟨rfl, rfl, fun _ _ => rfl, fun _ _ => rfl⟩

/-- The container's port is about to be mirrored when a service starts on the
same port of the host, on the IPv6 loopback address. -/
def overtaken : Moment where
  host := []
  container := [web]
  services inbound _ := if inbound then [webV6] else [web]
  granted _ _ := true
  order := id
  order_perm := List.Perm.refl

theorem settles_iff_moved : Settled [] [web]
    (rescans [steady [] [web], steady [] [web]] (rescans [steady [web] []] [])) := by
  refine (settles_iff (fun now hnow => ?_) (by decide)).mpr fun m hm hserved => ?_
  · simp only [List.mem_cons, List.not_mem_nil, or_false, or_self] at hnow
    exact hnow ▸ steady_steady [] [web]
  · have hmirrors : rescans [steady [web] []] [] =
        [⟨⟨localhostV4, 8080⟩, 8080, false⟩, ⟨⟨localhostV6, 8080⟩, 8080, false⟩] := by rfl
    rw [hmirrors] at hm
    simp only [List.mem_cons, List.not_mem_nil, or_false] at hm
    rcases hm with rfl | rfl <;> cases hserved

/-- Both sides then listen on the port, and it stays mirrored. -/
theorem late_service_stays_mirrored :
    (∀ now ∈ [steady [webV6] [web], steady [webV6] [web]], now.Steady [webV6] [web]) ∧
      ¬ Settled [webV6] [web]
        (rescans [steady [webV6] [web], steady [webV6] [web]] (rescans [overtaken] [])) := by
  refine ⟨fun now hnow => ?_, fun h => ?_⟩
  · simp only [List.mem_cons, List.not_mem_nil, or_false, or_self] at hnow
    exact hnow ▸ steady_steady [webV6] [web]
  · have hmem : ⟨⟨localhostV4, 8080⟩, 8080, true⟩ ∈
        rescans [steady [webV6] [web], steady [webV6] [web]] (rescans [overtaken] []) := by decide
    exact h.others 8080 (by rfl) _ hmem rfl

end Climate.Forward
