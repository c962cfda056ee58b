import Climate.Net.Forward

/-!
# Which ports are mirrored

A rescan decides by port numbers: it wants a mirror of a port that is listened
on at the service's side, that no mirror brought there, and that is not
listened on at the mirror's own side other than by a mirror of it already
there. So its mirrors are of services, never of mirrors. A port that is
mirrored is not looked at again as long as its service stays.
-/

namespace Climate.Forward

variable {now : Moment} {mirrors : List Mirror}

-- ---------------------------------------------------------------------------
-- Ports and addresses
-- ---------------------------------------------------------------------------

@[simp] theorem mem_ports : port ∈ ports inbound mirrors ↔ ∃ m ∈ mirrors, m.inbound = inbound ∧
    m.port = port := by
  simp [ports, and_assoc]

@[simp] theorem mem_minus : port ∈ minus a b ↔ port ∈ a ∧ port ∉ b := by
  simp [minus]

theorem mem_listeningPorts : port ∈ listeningPorts listeners ↔
    ∃ l ∈ listeners, isLoopback l.addr.ip = true ∧ l.addr.port = port := by
  simp [listeningPorts, and_assoc]

theorem minus_nodup (h : a.Nodup) : (minus a b).Nodup := h.filter _

theorem mem_loopbackAddrs : addr ∈ loopbackAddrs port ↔
    addr = ⟨localhostV4, port⟩ ∨ addr = ⟨localhostV6, port⟩ := by
  simp [loopbackAddrs]

theorem loopbackAddrs_port (h : addr ∈ loopbackAddrs port) : addr.port = port := by
  rcases mem_loopbackAddrs.mp h with rfl | rfl <;> rfl

theorem loopbackAddrs_nodup (port : Port) : (loopbackAddrs port).Nodup := by
  simp [loopbackAddrs, localhostV4, localhostV6]

theorem listening_of_takes (h : addr ∈ loopbackAddrs port) (htakes : l.takes addr = true) (hmem : l ∈ listeners) :
    port ∈ listeningPorts listeners := by
  simp only [Listener.takes, Bool.and_eq_true, decide_eq_true_eq] at htakes
  obtain ⟨hport, hcovers⟩ := htakes
  refine mem_listeningPorts.mpr ⟨l, hmem, ?_, hport.trans (loopbackAddrs_port h)⟩
  unfold Listener.covers at hcovers
  rcases mem_loopbackAddrs.mp h with rfl | rfl
  · cases hip : l.addr.ip with
    | v4 own =>
      rw [hip] at hcovers
      simp only [localhostV4, Bool.or_eq_true, decide_eq_true_eq] at hcovers
      rcases hcovers with rfl | rfl <;> decide
    | v6 own =>
      rw [hip] at hcovers
      simp only [localhostV4, Bool.or_eq_true, Bool.and_eq_true, decide_eq_true_eq] at hcovers
      simp only [isLoopback, isV4, Bool.or_eq_true, Bool.and_eq_true, decide_eq_true_eq]
      rcases hcovers with ⟨rfl, -⟩ | ⟨hmapped, hown | hown⟩
      · simp
      · rw [hown]
        exact .inr ⟨hmapped, .inr (by decide)⟩
      · exact .inr ⟨hmapped, .inl hown⟩
  · cases hip : l.addr.ip with
    | v4 own =>
      rw [hip] at hcovers
      simp [localhostV6] at hcovers
    | v6 own =>
      rw [hip] at hcovers
      simp only [localhostV6, Bool.or_eq_true, decide_eq_true_eq] at hcovers
      rcases hcovers with rfl | rfl <;> decide

-- ---------------------------------------------------------------------------
-- New mirrors
-- ---------------------------------------------------------------------------

/-- Mirrors listen at the loopback addresses of their ports. -/
def Placed (mirrors : List Mirror) : Prop := ∀ m ∈ mirrors, m.listener ∈ loopbackAddrs m.port

/-- The loopback addresses of a port that a new mirror of it gets. -/
def bound (now : Moment) (inbound : Bool) (port : Port) : List SocketAddr :=
  (loopbackAddrs port).filter fun addr =>
    now.granted inbound addr && !(now.services inbound addr).any (·.takes addr)

theorem listenOn_fresh (hplaced : Placed mirrors) (hfresh : port ∉ ports inbound mirrors) :
    listenOn now inbound mirrors port = bound now inbound port := by
  refine List.filter_congr fun addr haddr => ?_
  have hsockets : (sockets inbound mirrors).any (·.takes addr) = false := by
    rw [List.any_eq_false]
    intro l hl htakes
    simp only [sockets, List.mem_map, List.mem_filter, decide_eq_true_eq] at hl
    obtain ⟨m, ⟨hm, hinbound⟩, rfl⟩ := hl
    simp only [Listener.takes, Bool.and_eq_true, decide_eq_true_eq] at htakes
    refine hfresh (mem_ports.mpr ⟨m, hm, hinbound, ?_⟩)
    rw [← loopbackAddrs_port (hplaced m hm), htakes.1, loopbackAddrs_port haddr]
  simp [Moment.binds, hsockets]

/-- The mirrors that going through ports without one adds. -/
structure Added (now : Moment) (inbound : Bool) (ports : List Port) (before after : List Mirror) : Prop where
  placed : Placed after
  mem : ∀ m, m ∈ after ↔ m ∈ before ∨
    m.inbound = inbound ∧ m.port ∈ ports ∧ m.listener ∈ bound now inbound m.port
  nodup : before.Nodup → after.Nodup

theorem mirror_added (now : Moment) (hplaced : Placed mirrors) (hfresh : port ∉ ports inbound mirrors) :
    Added now inbound [port] mirrors (mirror now inbound mirrors port) := by
  have hmem : ∀ m, m ∈ mirror now inbound mirrors port ↔ m ∈ mirrors ∨
      m.inbound = inbound ∧ m.port ∈ [port] ∧ m.listener ∈ bound now inbound m.port := by
    intro m
    rw [mirror, listenOn_fresh hplaced hfresh, List.mem_append, List.mem_map, List.mem_singleton]
    refine or_congr_right ⟨?_, ?_⟩
    · rintro ⟨addr, haddr, rfl⟩
      exact ⟨rfl, rfl, haddr⟩
    · rintro ⟨rfl, rfl, haddr⟩
      exact ⟨m.listener, haddr, rfl⟩
  refine ⟨fun m hm => ?_, hmem, fun hnodup => ?_⟩
  · rcases (hmem m).mp hm with hm | ⟨-, -, haddr⟩
    · exact hplaced m hm
    · exact (List.mem_filter.mp haddr).1
  · refine hnodup.append (List.Nodup.map (fun a b h => by cases h; rfl) ((loopbackAddrs_nodup port).filter _)) ?_
    intro m hm hnew
    obtain ⟨addr, -, rfl⟩ := List.mem_map.mp hnew
    exact hfresh (mem_ports.mpr ⟨_, hm, rfl, rfl⟩)

theorem foldl_mirror_added (now : Moment) (inbound : Bool) {l : List Port} (hplaced : Placed mirrors)
    (hl : l.Nodup)
    (hfresh : ∀ port ∈ l, port ∉ ports inbound mirrors) :
    Added now inbound l mirrors (l.foldl (mirror now inbound) mirrors) := by
  induction l generalizing mirrors with
  | nil => exact ⟨hplaced, by simp, id⟩
  | cons port l ih =>
    obtain ⟨hnot, hl⟩ := List.nodup_cons.mp hl
    have hfirst := mirror_added now hplaced (hfresh port (by simp))
    have hrest := ih hfirst.placed hl fun other hother => by
      rw [mem_ports]
      rintro ⟨m, hm, hinbound, hport⟩
      rcases (hfirst.mem m).mp hm with hm | ⟨-, hmem, -⟩
      · exact hfresh other (by simp [hother]) (mem_ports.mpr ⟨m, hm, hinbound, hport⟩)
      · rw [List.mem_singleton, hport] at hmem
        exact hnot (hmem ▸ hother)
    refine ⟨hrest.placed, fun m => ?_, fun hnodup => hrest.nodup (hfirst.nodup hnodup)⟩
    rw [List.foldl_cons, hrest.mem, hfirst.mem]
    simp only [List.mem_cons, List.not_mem_nil, or_false]
    tauto

-- ---------------------------------------------------------------------------
-- A rescan
-- ---------------------------------------------------------------------------

/-- The services on the side that mirrors of a direction are of. -/
def Moment.served (now : Moment) (inbound : Bool) : List Listener :=
  if inbound then now.container else now.host

def Moment.beside (now : Moment) (inbound : Bool) : List Listener :=
  if inbound then now.host else now.container

def Wants (now : Moment) (mirrors : List Mirror) (inbound : Bool) (port : Port) : Prop :=
  port ∈ listeningPorts (now.served inbound) ∧ port ∉ ports (!inbound) mirrors ∧
    (port ∈ listeningPorts (now.beside inbound) → port ∈ ports inbound mirrors)

theorem mem_scanned (hplaced : Placed mirrors) :
    port ∈ minus (listeningPorts (services ++ sockets inbound mirrors)) (ports inbound mirrors) ↔
      port ∈ listeningPorts services ∧ port ∉ ports inbound mirrors := by
  rw [mem_minus]
  refine and_congr_left fun hnot => ?_
  rw [mem_listeningPorts, mem_listeningPorts]
  constructor
  · rintro ⟨l, hl, hloopback, hport⟩
    rcases List.mem_append.mp hl with hl | hl
    · exact ⟨l, hl, hloopback, hport⟩
    · simp only [sockets, List.mem_map, List.mem_filter, decide_eq_true_eq] at hl
      obtain ⟨m, ⟨hm, hinbound⟩, rfl⟩ := hl
      exact absurd (mem_ports.mpr ⟨m, hm, hinbound,
        (loopbackAddrs_port (hplaced m hm)).symm.trans hport⟩) hnot
  · rintro ⟨l, hl, hloopback, hport⟩
    exact ⟨l, List.mem_append_left _ hl, hloopback, hport⟩

theorem rescan_added (now : Moment) (hplaced : Placed mirrors) : Placed (rescan now mirrors) ∧
    (∀ m, m ∈ rescan now mirrors ↔ Wants now mirrors m.inbound m.port ∧
      (m ∈ mirrors ∨ m.port ∉ ports m.inbound mirrors ∧ m.listener ∈ bound now m.inbound m.port)) ∧
    (mirrors.Nodup → (rescan now mirrors).Nodup) := by
  have hports : ∀ inbound, (listeningPorts (now.beside inbound ++ sockets inbound mirrors)).Nodup :=
    fun inbound => List.nodup_dedup _
  unfold rescan
  dsimp only
  generalize hhost : minus (listeningPorts (now.host ++ sockets true mirrors)) (ports true mirrors) = host
  generalize hcontainer : minus (listeningPorts (now.container ++ sockets false mirrors))
    (ports false mirrors) = container
  have hinhost : ∀ port, port ∈ host ↔ port ∈ listeningPorts now.host ∧ port ∉ ports true mirrors :=
    fun port => hhost ▸ mem_scanned hplaced
  have hincontainer : ∀ port, port ∈ container ↔
      port ∈ listeningPorts now.container ∧ port ∉ ports false mirrors :=
    fun port => hcontainer ▸ mem_scanned hplaced
  have hinbound : ∀ port, port ∈ minus container host ↔ Wants now mirrors true port := by
    intro port
    simp only [mem_minus, hinhost, hincontainer, Wants, Moment.served, Moment.beside, Bool.not_true]
    tauto
  have houtbound : ∀ port, port ∈ minus host container ↔ Wants now mirrors false port := by
    intro port
    simp only [mem_minus, hinhost, hincontainer, Wants, Moment.served, Moment.beside, Bool.not_false]
    tauto
  have hhostnodup : host.Nodup := hhost ▸ minus_nodup (hports true)
  have hcontainernodup : container.Nodup := hcontainer ▸ minus_nodup (hports false)
  let kept := mirrors.filter fun m => if m.inbound then m.port ∈ minus container host else m.port ∈
    minus host container
  have hkept : ∀ m, m ∈ kept ↔ m ∈ mirrors ∧ Wants now mirrors m.inbound m.port := by
    intro m
    rw [List.mem_filter]
    refine and_congr_right fun _ => ?_
    cases hdir : m.inbound with
    | true => simpa using hinbound m.port
    | false => simpa using houtbound m.port
  have hout := foldl_mirror_added now false (l := now.order (minus (minus host container) (ports false mirrors)))
    (fun m hm => hplaced m ((hkept m).mp hm).1)
    ((now.order_perm _).nodup_iff.mpr (minus_nodup (minus_nodup hhostnodup))) fun port hport => by
      rw [mem_ports]
      rintro ⟨m, hm, hdir, rfl⟩
      have hours := (mem_minus.mp ((now.order_perm _).mem_iff.mp hport)).2
      exact hours (mem_ports.mpr ⟨m, ((hkept m).mp hm).1, hdir, rfl⟩)
  have hin := foldl_mirror_added now true (l := now.order (minus (minus container host)
    (ports true mirrors))) hout.placed
    ((now.order_perm _).nodup_iff.mpr (minus_nodup (minus_nodup hcontainernodup))) fun port hport => by
      rw [mem_ports]
      rintro ⟨m, hm, hdir, rfl⟩
      have hours := (mem_minus.mp ((now.order_perm _).mem_iff.mp hport)).2
      rcases (hout.mem m).mp hm with hm | ⟨hdir', -⟩
      · exact hours (mem_ports.mpr ⟨m, ((hkept m).mp hm).1, hdir, rfl⟩)
      · rw [hdir] at hdir'
        cases hdir'
  refine ⟨hin.placed, fun m => ?_, fun hnodup => hin.nodup (hout.nodup (hnodup.filter _))⟩
  have hnewout : m.port ∈ minus (minus host container) (ports false mirrors) ↔
      Wants now mirrors false m.port ∧ m.port ∉ ports false mirrors := by
    rw [mem_minus, houtbound]
  have hnewin : m.port ∈ minus (minus container host) (ports true mirrors) ↔
      Wants now mirrors true m.port ∧ m.port ∉ ports true mirrors := by
    rw [mem_minus, hinbound]
  rw [hin.mem, hout.mem, hkept, (now.order_perm _).mem_iff, (now.order_perm _).mem_iff, hnewout, hnewin]
  cases m.inbound with
  | true => simp only [Bool.true_eq_false, false_and, or_false, true_and]; tauto
  | false => simp only [Bool.false_eq_true, false_and, or_false, true_and]; tauto

-- ---------------------------------------------------------------------------
-- Runs
-- ---------------------------------------------------------------------------

/-- The invariant: mirrors at their places, each once, and no port both ways. -/
structure Sound (mirrors : List Mirror) : Prop where
  placed : Placed mirrors
  nodup : mirrors.Nodup
  oneWay : ∀ m ∈ mirrors, ∀ n ∈ mirrors, m.port = n.port → m.inbound = n.inbound

theorem mem_rescan (h : Sound mirrors) : m ∈ rescan now mirrors ↔ Wants now mirrors m.inbound m.port ∧
    (m ∈ mirrors ∨ m.port ∉ ports m.inbound mirrors ∧ m.listener ∈ bound now m.inbound m.port) :=
  (rescan_added now h.placed).2.1 m

theorem Wants.oneWay (h : Wants now mirrors inbound port) : ¬ Wants now mirrors (!inbound) port := by
  rintro ⟨hserved', hnot', -⟩
  obtain ⟨-, -, hbeside⟩ := h
  rw [Bool.not_not] at hnot'
  refine hnot' (hbeside ?_)
  cases inbound <;> exact hserved'

theorem Sound.rescan (h : Sound mirrors) (now : Moment) : Sound (rescan now mirrors) := by
  obtain ⟨hplaced, -, hnodup⟩ := rescan_added now h.placed
  refine ⟨hplaced, hnodup h.nodup, fun m hm n hn hport => ?_⟩
  have hm := ((mem_rescan h).mp hm).1
  have hn := ((mem_rescan h).mp hn).1
  by_contra hne
  rw [← hport, show n.inbound = !m.inbound by cases hd : m.inbound <;> cases hd' : n.inbound <;> simp_all] at hn
  exact hm.oneWay hn

theorem Sound.rescans (h : Sound mirrors) (moments : List Moment) : Sound (rescans moments mirrors) := by
  induction moments generalizing mirrors with
  | nil => exact h
  | cons now moments ih => exact ih (h.rescan now)

theorem sound_nil : Sound [] := ⟨by simp [Placed], List.nodup_nil, by simp⟩

/-- After each rescan of a run no port is mirrored both ways, every mirror is of
a service that was there when the rescan looked, and there is at most one for
each port, direction and address family. -/
theorem no_phantom_mirrors (before : List Moment) (now : Moment) :
    (∀ m ∈ rescan now (rescans before []), ∀ n ∈ rescan now (rescans before []),
      m.port = n.port → m.inbound = n.inbound) ∧
    (∀ m ∈ rescan now (rescans before []),
      m.port ∈ listeningPorts (if m.inbound then now.container else now.host)) ∧
    (∀ m ∈ rescan now (rescans before []), m.listener ∈ loopbackAddrs m.port) ∧
    ((rescan now (rescans before [])).map fun m => (m.port, m.inbound, m.listener.ip)).Nodup := by
  have hbefore := sound_nil.rescans before
  obtain ⟨hplaced, hnodup, honeWay⟩ := hbefore.rescan now
  refine ⟨honeWay, fun m hm => ((mem_rescan hbefore).mp hm).1.1, hplaced, ?_⟩
  refine List.Nodup.map_on (fun m hm n hn heq => ?_) hnodup
  simp only [Prod.mk.injEq] at heq
  obtain ⟨hport, hinbound, hip⟩ := heq
  have hlistener : m.listener = n.listener := by
    have hports := (loopbackAddrs_port (hplaced m hm)).trans
      (hport.trans (loopbackAddrs_port (hplaced n hn)).symm)
    cases hl : m.listener
    cases hl' : n.listener
    simp_all
  cases m
  cases n
  simp_all

end Climate.Forward
