import Climate.Net.HelperLaws

/-!
# The forwarding thread

The program that asks the helper refines the model of the mirrors' ports. What
a rescan of the program makes of its mirrors is what a rescan of the model
makes of them at some moment, with the services that the scans have shown.
-/

namespace Climate.Forward

variable {now : Moment} {mirrors : List Mirror}

-- ---------------------------------------------------------------------------
-- A rescan, as one list
-- ---------------------------------------------------------------------------

def mirrorsOf (inbound : Bool) (got : Port → List SocketAddr) (ports : List Port) : List Mirror :=
  ports.flatMap fun port => (got port).map fun addr => ⟨addr, port, inbound⟩

theorem mirrorsOf_congr {got got' : Port → List SocketAddr} {ports : List Port}
    (h : ∀ port ∈ ports, got port = got' port) : mirrorsOf inbound got ports = mirrorsOf inbound got' ports :=
  List.flatMap_congr fun port hport => by rw [h port hport]

theorem foldl_mirror_eq (now : Moment) (inbound : Bool) {l : List Port} (hplaced : Placed mirrors) (hl : l.Nodup)
    (hfresh : ∀ port ∈ l, port ∉ ports inbound mirrors) :
    l.foldl (mirror now inbound) mirrors = mirrors ++ mirrorsOf inbound (bound now inbound) l := by
  induction l generalizing mirrors with
  | nil => simp [mirrorsOf]
  | cons port l ih =>
    obtain ⟨hnot, hl⟩ := List.nodup_cons.mp hl
    have hport := hfresh port List.mem_cons_self
    have hadded := mirror_added now hplaced hport
    have hrest : ∀ other ∈ l, other ∉ ports inbound (mirror now inbound mirrors port) := by
      intro other hother hmem
      obtain ⟨m, hm, hdir, rfl⟩ := mem_ports.mp hmem
      rcases (hadded.mem m).mp hm with hm | ⟨-, hin, -⟩
      · exact hfresh m.port (List.mem_cons_of_mem _ hother) (mem_ports.mpr ⟨m, hm, hdir, rfl⟩)
      · rw [List.mem_singleton.mp hin] at hother
        exact hnot hother
    rw [List.foldl_cons, ih hadded.placed hl hrest, mirror, listenOn_fresh hplaced hport]
    simp [mirrorsOf]

/-- The ports that a rescan finds on a side, without those of its mirrors. -/
def hostPorts (now : Moment) (mirrors : List Mirror) : List Port :=
  minus (listeningPorts (now.host ++ sockets true mirrors)) (ports true mirrors)

def containerPorts (now : Moment) (mirrors : List Mirror) : List Port :=
  minus (listeningPorts (now.container ++ sockets false mirrors)) (ports false mirrors)

def outboundPorts (now : Moment) (mirrors : List Mirror) : List Port :=
  minus (hostPorts now mirrors) (containerPorts now mirrors)

def inboundPorts (now : Moment) (mirrors : List Mirror) : List Port :=
  minus (containerPorts now mirrors) (hostPorts now mirrors)

theorem outboundPorts_nodup (now : Moment) (mirrors : List Mirror) : (outboundPorts now mirrors).Nodup :=
  minus_nodup (minus_nodup (List.nodup_dedup _))

theorem inboundPorts_nodup (now : Moment) (mirrors : List Mirror) : (inboundPorts now mirrors).Nodup :=
  minus_nodup (minus_nodup (List.nodup_dedup _))

/-- A mirror whose port is still to be mirrored its way. -/
def Mirror.wanted (inbound outbound : List Port) (m : Mirror) : Bool :=
  (if m.inbound then inbound else outbound).contains m.port

theorem rescan_eq (now : Moment) (hplaced : Placed mirrors) : rescan now mirrors =
    mirrors.filter (·.wanted (inboundPorts now mirrors) (outboundPorts now mirrors)) ++
      mirrorsOf false (bound now false) (now.order (minus (outboundPorts now mirrors) (ports false mirrors))) ++
      mirrorsOf true (bound now true) (now.order (minus (inboundPorts now mirrors) (ports true mirrors))) := by
  let kept := mirrors.filter (·.wanted (inboundPorts now mirrors) (outboundPorts now mirrors))
  let toContainer := now.order (minus (outboundPorts now mirrors) (ports false mirrors))
  let toHost := now.order (minus (inboundPorts now mirrors) (ports true mirrors))
  have hkept : rescan now mirrors = toHost.foldl (mirror now true)
      (toContainer.foldl (mirror now false) kept) := by
    have hfilter : mirrors.filter (fun m => if m.inbound then m.port ∈ inboundPorts now mirrors
        else m.port ∈ outboundPorts now mirrors) = kept := by
      refine List.filter_congr fun m _ => ?_
      cases hdir : m.inbound <;> simp [Mirror.wanted, hdir]
    exact congrArg (fun k => toHost.foldl (mirror now true) (toContainer.foldl (mirror now false) k)) hfilter
  have hfreshout : ∀ port ∈ toContainer, port ∉ ports false kept := by
    intro port hport hmem
    obtain ⟨m, hm, hdir, rfl⟩ := mem_ports.mp hmem
    have hours := (mem_minus.mp ((now.order_perm _).mem_iff.mp hport)).2
    exact hours (mem_ports.mpr ⟨m, (List.mem_filter.mp hm).1, hdir, rfl⟩)
  have hplacedkept : Placed kept := fun m hm => hplaced m (List.mem_filter.mp hm).1
  have hnodupout : toContainer.Nodup := (now.order_perm _).nodup_iff.mpr (minus_nodup (outboundPorts_nodup _ _))
  have hout := foldl_mirror_added now false hplacedkept hnodupout hfreshout
  have hfreshin : ∀ port ∈ toHost, port ∉ ports true (toContainer.foldl (mirror now false) kept) := by
    intro port hport hmem
    obtain ⟨m, hm, hdir, rfl⟩ := mem_ports.mp hmem
    have hours := (mem_minus.mp ((now.order_perm _).mem_iff.mp hport)).2
    rcases (hout.mem m).mp hm with hm | ⟨hdir', -⟩
    · exact hours (mem_ports.mpr ⟨m, (List.mem_filter.mp hm).1, hdir, rfl⟩)
    · rw [hdir] at hdir'
      cases hdir'
  rw [hkept, foldl_mirror_eq now true hout.placed
    ((now.order_perm _).nodup_iff.mpr (minus_nodup (inboundPorts_nodup _ _))) hfreshin,
    foldl_mirror_eq now false hplacedkept hnodupout hfreshout]

end Climate.Forward

namespace Climate.Forwarder

open Prog
open Forward (Port SocketAddr Listener Moment Placed Sound mirrorsOf mirrorsOf_congr loopbackAddrs rescans
  minus listeningPorts)

variable {s s' : State} {own : Own}

-- ---------------------------------------------------------------------------
-- New mirrors
-- ---------------------------------------------------------------------------

theorem mirrorEach_runs {make : Port → BridgeAct (List Fd)} {inbound : Bool}
    (hmake : ∀ own s port, Known own [] s → own.theirs = false →
      Runs s (make port) (Well fun fds s' => Known (own.hold fds) [] s' ∧
        ∃ got : List SocketAddr, fds = got.map (.listening (side inbound)) ∧ got.Sublist (loopbackAddrs port)))
    (h : Known own [] s) (htheirs : own.theirs = false) {ms : List Forward.Mirror}
    (hheld : own.held = ms.map socket)
    {ports : List Port} (hports : ports.Nodup) :
    Runs s (mirrorEach make inbound ports (ms.map ofMirror)) <| Well fun mirrors s' =>
      ∃ got : Port → List SocketAddr, (∀ port, (got port).Sublist (loopbackAddrs port)) ∧
        mirrors = (ms ++ mirrorsOf inbound got ports).map ofMirror ∧
        Known (own.holding ((ms ++ mirrorsOf inbound got ports).map socket)) [] s' := by
  induction ports generalizing s own ms with
  | nil =>
    refine Ends.ret ⟨fun _ => [], fun _ => List.nil_sublist _, by simp [mirrorsOf], ?_⟩
    simpa [mirrorsOf, ← hheld] using h
  | cons port rest ih =>
    obtain ⟨hnot, hrest⟩ := List.nodup_cons.mp hports
    refine Ends.seq (hmake own s port h htheirs) fun fds s' hr => ?_
    obtain ⟨hknown, addrs, rfl, hsub⟩ := hr
    let added : List Forward.Mirror := addrs.map fun addr => ⟨addr, port, inbound⟩
    have hadded : addrs.map (Fd.listening (side inbound)) = added.map socket := by simp [added, socket]
    have hmirrors : ms.map ofMirror ++ (addrs.map (Fd.listening (side inbound))).map
        (fun fd => ⟨fd, port, inbound⟩) = (ms ++ added).map ofMirror := by
      simp [added, ofMirror, socket]
    rw [hmirrors]
    refine (ih hknown htheirs (by rw [Own.hold_held, hheld, hadded, List.map_append]) hrest).weaken
      fun r s'' hr => ?_
    cases r with
    | error e => exact hr
    | ok mirrors =>
      obtain ⟨got, hgot, rfl, hknown'⟩ := hr
      have hsame : ∀ other ∈ rest, got other = Function.update got port addrs other := by
        intro other hother
        rw [Function.update_of_ne]
        rintro rfl
        exact hnot hother
      have hall : ms ++ added ++ mirrorsOf inbound got rest =
          ms ++ mirrorsOf inbound (Function.update got port addrs) (port :: rest) := by
        rw [mirrorsOf_congr hsame]
        simp [mirrorsOf, added]
      rw [hall] at hknown' ⊢
      refine ⟨Function.update got port addrs, fun other => ?_, rfl, hknown'⟩
      by_cases heq : other = port
      · subst heq
        simpa using hsub
      · simpa [heq] using hgot other

-- ---------------------------------------------------------------------------
-- A rescan
-- ---------------------------------------------------------------------------

variable {ms : List Forward.Mirror}

@[simp] theorem side_inj {a b : Bool} : side a = side b ↔ a = b := by
  cases a <;> cases b <;> simp [side]

theorem sockets_shown (inbound : Bool) (ms : List Forward.Mirror) :
    (ms.map socket).filterMap (Fd.listener (side inbound)) = Forward.sockets inbound ms := by
  induction ms with
  | nil => rfl
  | cons m ms ih =>
    by_cases hdir : m.inbound = inbound <;> simp_all [Forward.sockets, socket, Fd.listener]

theorem ports_ofMirror (inbound : Bool) (ms : List Forward.Mirror) :
    ports inbound (ms.map ofMirror) = Forward.ports inbound ms := by
  unfold ports Forward.ports
  rw [List.filter_map, List.map_map]
  rfl

theorem filter_wanted (inbound outbound : List Port) (ms : List Forward.Mirror) :
    (ms.map ofMirror).filter (wanted inbound outbound) =
    (ms.filter (·.wanted inbound outbound)).map ofMirror := by
  rw [List.filter_map]
  rfl

theorem socket_injOn (hplaced : Placed ms) (hm : m ∈ ms) (hn : n ∈ ms) (h : socket m = socket n) : m = n := by
  obtain ⟨addr, port, inbound⟩ := m
  obtain ⟨addr', port', inbound'⟩ := n
  simp only [socket, Fd.listening.injEq, side_inj] at h
  obtain ⟨rfl, rfl⟩ := h
  have hport : port = port' :=
    (Forward.loopbackAddrs_port (hplaced _ hm)).symm.trans (Forward.loopbackAddrs_port (hplaced _ hn))
  rw [hport]

theorem diff_sockets (hsound : Sound ms) (p : Forward.Mirror → Bool) :
    (ms.map socket).diff ((ms.filter fun m => !p m).map socket) = (ms.filter p).map socket := by
  have hnodup : (ms.map socket).Nodup :=
    List.Nodup.map_on (fun m hm n hn h => socket_injOn hsound.placed hm hn h) hsound.nodup
  rw [hnodup.sdiff_eq_filter, List.filter_map]
  congr 1
  refine List.filter_congr fun m hm => ?_
  have hiff : socket m ∈ (ms.filter fun m => !p m).map socket ↔ p m = false := by
    rw [List.mem_map]
    constructor
    · rintro ⟨n, hn, heq⟩
      obtain ⟨hn, hp⟩ := List.mem_filter.mp hn
      rw [socket_injOn hsound.placed hm hn heq.symm]
      simpa using hp
    · exact fun hp => ⟨m, List.mem_filter.mpr ⟨hm, by simpa using hp⟩, rfl⟩
  simp only [Function.comp_apply, hiff]
  simp

theorem filter_mem_of_sublist [DecidableEq α] {l : List α} (h : l.Sublist all) (hnodup : all.Nodup) :
    all.filter (· ∈ l) = l := by
  induction h with
  | slnil => rfl
  | @cons l all a hsub ih =>
    obtain ⟨hnot, hnodup⟩ := List.nodup_cons.mp hnodup
    have hout : a ∉ l := fun h => hnot (hsub.subset h)
    rw [List.filter_cons_of_neg (by simpa using hout), ih hnodup]
  | @cons_cons l all a hsub ih =>
    obtain ⟨hnot, hnodup⟩ := List.nodup_cons.mp hnodup
    have hsame : all.filter (fun b => b ∈ a :: l) = all.filter (fun b => b ∈ l) := by
      refine List.filter_congr fun b hb => ?_
      have hne : b ≠ a := fun h => hnot (h ▸ hb)
      simp [hne]
    rw [List.filter_cons_of_pos (by simp), hsame, ih hnodup]

/-- The moment of a rescan by what its scans have shown, the orders it has
gone through its ports in and the addresses it has got. -/
def moment (host container : List Listener) (got : Bool → Port → List SocketAddr)
    (order : List Port → List Port) (hperm : ∀ ports, (order ports).Perm ports) : Moment where
  host := host
  container := container
  services _ _ := []
  granted inbound addr := addr ∈ got inbound addr.port
  order := order
  order_perm := hperm

theorem bound_moment {got : Bool → Port → List SocketAddr} {hperm : ∀ ports, (order ports).Perm ports}
    (hgot : ∀ inbound port, (got inbound port).Sublist (loopbackAddrs port)) (inbound : Bool) :
    Forward.bound (moment host container got order hperm) inbound = got inbound := by
  funext port
  have hsame : Forward.bound (moment host container got order hperm) inbound port =
      (loopbackAddrs port).filter (· ∈ got inbound port) := by
    refine List.filter_congr fun addr haddr => ?_
    simp [moment, Forward.loopbackAddrs_port haddr]
  rw [hsame, filter_mem_of_sublist (hgot inbound port) (Forward.loopbackAddrs_nodup port)]

theorem exists_order {l l' o o' : List Port} (h : o.Perm l) (h' : o'.Perm l') (hapart : l = l' → l = []) :
    ∃ order : List Port → List Port, (∀ ports, (order ports).Perm ports) ∧ order l = o ∧ order l' = o' := by
  refine ⟨fun ports => if ports = l then o else if ports = l' then o' else ports, fun ports => ?_, by simp, ?_⟩
  · dsimp only
    split
    next heq => exact heq ▸ h
    next =>
      split
      next heq => exact heq ▸ h'
      next => exact List.Perm.refl _
  · by_cases heq : l' = l
    · subst heq
      obtain rfl := hapart rfl
      simp [List.Perm.eq_nil h, List.Perm.eq_nil h']
    · simp [heq]

/-- The ports to mirror one way are none of those to mirror the other way. -/
theorem apart_ports (now : Moment) (ms : List Forward.Mirror)
    (h : minus (Forward.outboundPorts now ms) (Forward.ports false ms) =
      minus (Forward.inboundPorts now ms) (Forward.ports true ms)) :
    minus (Forward.outboundPorts now ms) (Forward.ports false ms) = [] := by
  rw [List.eq_nil_iff_forall_not_mem]
  intro port hport
  have hin := hport
  rw [h] at hin
  simp only [Forward.outboundPorts, Forward.inboundPorts, Forward.mem_minus] at hport hin
  exact hport.1.2 hin.1.1

theorem closed_sockets (p : Forward.Mirror → Bool) (q : Mirror → Bool) (h : ∀ m, q (ofMirror m) = p m) :
    ((ms.map ofMirror).filter fun m => !q m).map (·.listener) = (ms.filter fun m => !p m).map socket := by
  rw [List.filter_map, List.map_map]
  simp only [Function.comp_def, h]
  rfl

theorem filter_dedup_append [DecidableEq α] {p : α → Bool} {b : List α} (h : ∀ x ∈ b, p x = false) (a : List α) :
    (a ++ b).dedup.filter p = a.dedup.filter p := by
  induction a with
  | nil => simpa using h
  | cons x a ih =>
    by_cases ha : x ∈ a
    · rw [List.cons_append, List.dedup_cons_of_mem (List.mem_append_left b ha), List.dedup_cons_of_mem ha, ih]
    · rw [List.cons_append, List.dedup_cons_of_notMem ha]
      by_cases hb : x ∈ b
      · rw [List.dedup_cons_of_mem (List.mem_append_right a hb), List.filter_cons_of_neg (by simp [h x hb]), ih]
      · rw [List.dedup_cons_of_notMem (by simp [ha, hb]), List.filter_cons, List.filter_cons, ih]

@[simp] theorem shown_append (readable : Table → Bool) (a b : List Listener) :
    shown readable (a ++ b) = shown readable a ++ shown readable b := List.filter_append ..

/-- Listeners of ports that are taken away do not count. -/
theorem minus_own {own : List Listener} (h : ∀ l ∈ own, l.addr.port ∈ ours) (listeners : List Listener) :
    minus (listeningPorts (listeners ++ own)) ours = minus (listeningPorts listeners) ours := by
  unfold minus listeningPorts
  rw [List.filter_append, List.map_append]
  refine filter_dedup_append (fun port hport => ?_) _
  obtain ⟨l, hl, rfl⟩ := List.mem_map.mp hport
  simpa using h l (List.mem_filter.mp hl).1

theorem minus_shown (hplaced : Placed ms) (inbound : Bool) (readable : Table → Bool) (listeners : List Listener) :
    minus (listeningPorts (listeners ++ shown readable (Forward.sockets inbound ms))) (Forward.ports inbound ms) =
      minus (listeningPorts (listeners ++ Forward.sockets inbound ms)) (Forward.ports inbound ms) := by
  have hours : ∀ l ∈ Forward.sockets inbound ms, l.addr.port ∈ Forward.ports inbound ms := by
    intro l hl
    obtain ⟨m, hm, rfl⟩ := List.mem_map.mp hl
    obtain ⟨hm, hdir⟩ := List.mem_filter.mp hm
    exact Forward.mem_ports.mpr ⟨m, hm, by simpa using hdir, (Forward.loopbackAddrs_port (hplaced m hm)).symm⟩
  have hshown : ∀ l ∈ shown readable (Forward.sockets inbound ms), l.addr.port ∈ Forward.ports inbound ms :=
    fun l hl => hours l (List.mem_filter.mp hl).1
  rw [minus_own hours, minus_own hshown]

theorem rescan_runs (h : Known own [] s) (htheirs : own.theirs = false) (hsound : Sound ms)
    (hheld : own.held = ms.map socket) :
    Runs s (rescan (ms.map ofMirror)) <| Well fun mirrors s' => ∃ now,
    mirrors = (Forward.rescan now ms).map ofMirror ∧
      Known ((own.saw .host now.host).saw .container now.container |>.holding
        ((Forward.rescan now ms).map socket)) [] s' := by
  refine h.ask trivial fun s₁ _ s₂ hknown he => ?_
  obtain ⟨readable, rfl, rfl⟩ := he
  rw [shown_append]
  generalize shown readable (others s₁ .host) = host
  rw [hknown.own]
  refine (hknown.withOwn _).ask trivial fun s₃ _ s₄ hknown he => ?_
  obtain ⟨readable', rfl, rfl⟩ := he
  rw [shown_append]
  generalize shown readable' (others s₃ .container) = container
  rw [hknown.own]
  let base := moment host container (fun _ _ => []) id (fun _ => .refl _)
  have hhost : minus (listeningPorts (host ++ shown readable (own.held.filterMap (Fd.listener .host))))
      (ports true (ms.map ofMirror)) = Forward.hostPorts base ms := by
    rw [hheld, show Side.host = side true from rfl, sockets_shown, ports_ofMirror]
    exact minus_shown hsound.placed true readable host
  have hcontainer : minus (listeningPorts (container ++ shown readable'
      (own.held.filterMap (Fd.listener .container))))
      (ports false (ms.map ofMirror)) = Forward.containerPorts base ms := by
    rw [hheld, show Side.container = side false from rfl, sockets_shown, ports_ofMirror]
    exact minus_shown hsound.placed false readable' container
  dsimp only [Own.saw_held]
  rw [hhost, hcontainer, ← Forward.inboundPorts, ← Forward.outboundPorts, ports_ofMirror, ports_ofMirror,
    filter_wanted]
  let kept := ms.filter (·.wanted (Forward.inboundPorts base ms) (Forward.outboundPorts base ms))
  refine Ends.seq (closeAll_runs (hknown.withOwn _) (by simp)) fun _ s₅ hknown => ?_
  have hclosed : own.held.diff (((ms.map ofMirror).filter fun m =>
      !wanted (Forward.inboundPorts base ms) (Forward.outboundPorts base ms) m).map (·.listener)) =
        kept.map socket := by
    rw [closed_sockets (·.wanted (Forward.inboundPorts base ms) (Forward.outboundPorts base ms)) _ fun _ => rfl,
      hheld, diff_sockets hsound]
  rw [Own.saw_held, Own.saw_held, hclosed] at hknown
  refine hknown.ask trivial fun s₆ toContainer s₇ hknown he => ?_
  obtain ⟨hout, rfl⟩ := he
  have hnodupout := hout.nodup_iff.mpr (Forward.minus_nodup (Forward.outboundPorts_nodup base ms))
  refine Ends.seq (mirrorEach_runs (fun _ _ port hk ht => request_listens hk ht port) hknown htheirs
    (by rfl) hnodupout) fun mirrors s₈ hr => ?_
  obtain ⟨gotout, hgotout, rfl, hknown⟩ := hr
  refine hknown.ask trivial fun s₉ toHost s₁₀ hknown he => ?_
  obtain ⟨hin, rfl⟩ := he
  have hnodupin := hin.nodup_iff.mpr (Forward.minus_nodup (Forward.inboundPorts_nodup base ms))
  refine (mirrorEach_runs (fun _ _ port hk _ => listenEach_runs hk (loopbackAddrs port)) hknown htheirs
    (by rfl) hnodupin).weaken fun r s₁₁ hr => ?_
  cases r with
  | error e => exact hr
  | ok mirrors =>
    obtain ⟨gotin, hgotin, rfl, hknown⟩ := hr
    obtain ⟨order, hperm, hfirst, hsecond⟩ := exists_order hout hin (apart_ports base ms)
    let got : Bool → Port → List SocketAddr := fun inbound => if inbound then gotin else gotout
    have hgot : ∀ inbound port, (got inbound port).Sublist (loopbackAddrs port) := by
      intro inbound port
      cases inbound with
      | true => exact hgotin port
      | false => exact hgotout port
    let now := moment host container got order hperm
    have heq : Forward.rescan now ms = kept ++ mirrorsOf false gotout toContainer ++
        mirrorsOf true gotin toHost := by
      rw [Forward.rescan_eq now hsound.placed, bound_moment hgot, bound_moment hgot, ← hfirst, ← hsecond]
      rfl
    refine ⟨now, by rw [heq], ?_⟩
    rw [heq]
    exact hknown

-- ---------------------------------------------------------------------------
-- The loop
-- ---------------------------------------------------------------------------

/-- The run has the mirrors of a run of rescans that saw what its scans have
shown, and has not polled since the shutdown pipe was closed. -/
structure Forwards (ms : List Forward.Mirror) (own : Own) : Prop where
  theirs : own.theirs = false
  held : own.held = ms.map socket
  mirrors : ∃ moments, own.scans = moments.flatMap seen ∧ ms = rescans moments []
  late : own.late = 0

theorem Forwards.sound (h : Forwards ms own) : Sound ms := by
  obtain ⟨moments, -, rfl⟩ := h.mirrors
  exact Forward.sound_nil.rescans moments

theorem Forwards.joined (h : Forwards ms own) (hjoined : own.Joined own') : Forwards ms own' := by
  obtain ⟨joined, rfl⟩ := hjoined
  exact ⟨h.theirs, h.held, h.mirrors, h.late⟩

theorem Forwards.rescan (h : Forwards ms own) (now : Moment) : Forwards (Forward.rescan now ms)
    ((own.saw .host now.host).saw .container now.container |>.holding ((Forward.rescan now ms).map socket)) := by
  obtain ⟨moments, hscans, rfl⟩ := h.mirrors
  refine ⟨h.theirs, rfl, ⟨moments ++ [now], ?_, ?_⟩, h.late⟩
  · simp [Own.saw, hscans, seen]
  · simp [rescans]

theorem Forwards.listening (h : Forwards ms own) : ∀ fd ∈ own.held, ∃ side addr, fd = .listening side addr := by
  rw [h.held]
  simp only [List.mem_map]
  rintro fd ⟨m, -, rfl⟩
  exact ⟨_, _, rfl⟩

theorem refresh_runs (h : Known own [] s) (hforwards : Forwards ms own) (due : Bool) :
    Runs s (refresh (ms.map ofMirror) due) <| Well fun mirrors s' => ∃ ms' own',
      mirrors = ms'.map ofMirror ∧ Forwards ms' own' ∧ Known own' [] s' := by
  cases due with
  | false => exact Ends.ret ⟨ms, own, rfl, hforwards, h⟩
  | true =>
    refine (rescan_runs h hforwards.theirs hforwards.sound hforwards.held).weaken fun r s' hr => ?_
    cases r with
    | error e => exact hr
    | ok mirrors =>
      obtain ⟨now, rfl, hknown⟩ := hr
      exact ⟨_, _, rfl, hforwards.rescan now, hknown⟩

def readyOf (pairs : List (Mirror × Bool)) : List Fd := (pairs.filter (·.2)).map (·.1.listener)

theorem readyOf_subset (pairs : List (Mirror × Bool)) : readyOf pairs ⊆ pairs.map (·.1.listener) :=
  (List.filter_sublist.map _).subset

theorem zip_sublist (ms : List Forward.Mirror) (ready : List Bool) :
    (((ms.map ofMirror).zip ready).map (·.1.listener)).Sublist (ms.map socket) := by
  induction ms generalizing ready with
  | nil => exact .slnil
  | cons m ms ih =>
    cases ready with
    | nil => exact List.nil_sublist _
    | cons isReady ready => exact (ih ready).cons_cons _

theorem serveEach_runs {pairs : List (Mirror × Bool)} (h : Known own (readyOf pairs) s)
    (hforwards : Forwards ms own)
    (hmirrors : ∀ pair ∈ pairs, ∃ m ∈ ms, pair.1 = ofMirror m) (hnodup : (pairs.map (·.1.listener)).Nodup) :
    Runs s (pairs.forM serveReady) (Well fun _ s' => ∃ own', Forwards ms own' ∧ Known own' [] s') := by
  induction pairs generalizing s own with
  | nil => exact Ends.ret ⟨own, hforwards, h⟩
  | cons pair pairs ih =>
    obtain ⟨⟨m, hm, hmirror⟩, hrest⟩ := List.forall_mem_cons.mp hmirrors
    obtain ⟨hfresh, hnodups⟩ := List.nodup_cons.mp hnodup
    obtain ⟨mirror, isReady⟩ := pair
    obtain rfl : mirror = ofMirror m := hmirror
    cases isReady with
    | false => exact ih h hforwards hrest hnodups
    | true =>
      have hheld : readyOf pairs ⊆ own.held := by
        intro fd hfd
        obtain ⟨other, hother, rfl⟩ := List.mem_map.mp (readyOf_subset pairs hfd)
        obtain ⟨m', hm', heq⟩ := hrest other hother
        rw [heq, hforwards.held]
        exact List.mem_map_of_mem hm'
      refine Ends.seq (serve_runs h hforwards.theirs (hforwards.sound.placed m hm)
        (fun hin => hfresh (readyOf_subset pairs hin)) hheld hforwards.listening) fun _ s' hr => ?_
      obtain ⟨own', hjoined, hknown⟩ := hr
      exact ih hknown (hforwards.joined hjoined) hrest hnodups

theorem serveAll_runs {ready : List Bool} (h : Known own (readyOf ((ms.map ofMirror).zip ready)) s)
    (hforwards : Forwards ms own) : Runs s (((ms.map ofMirror).zip ready).forM serveReady) <|
      Well fun _ s' => ∃ own', Forwards ms own' ∧ Known own' [] s' := by
  refine serveEach_runs h hforwards (fun pair hpair => ?_) ?_
  · obtain ⟨m, hm, heq⟩ := List.mem_map.mp (List.of_mem_zip hpair).1
    exact ⟨m, hm, heq.symm⟩
  · have hsockets : (ms.map socket).Nodup :=
      List.Nodup.map_on (fun m hm n hn h => socket_injOn hforwards.sound.placed hm hn h) hforwards.sound.nodup
    exact hsockets.sublist (zip_sublist ms ready)

/-- What a poll has found ready has connections waiting. -/
theorem readyOf_pending {mirrors : List Mirror} {ready : List Bool} {pending : List Fd}
    (h : ∀ pair ∈ (mirrors.map (·.listener)).zip ready, pair.2 = true → pair.1 ∈ pending) :
    readyOf (mirrors.zip ready) ⊆ pending := by
  intro fd hfd
  obtain ⟨⟨mirror, isReady⟩, hpair, rfl⟩ := List.mem_map.mp hfd
  obtain ⟨hpair, hready⟩ := List.mem_filter.mp hpair
  refine h (mirror.listener, isReady) ?_ hready
  rw [List.zip_map_left]
  exact List.mem_map_of_mem (f := Prod.map (·.listener) id) hpair

theorem finish_runs (h : Known own [] s) (mirrors : List Mirror) :
    Runs s (finish mirrors) (Well fun _ s' => s'.world.ended = true) := by
  refine Ends.seq (closeAll_runs h (by simp)) fun _ s' hknown => ?_
  refine hknown.ask trivial fun s₁ _ s₂ _ he => ?_
  obtain rfl : s₂ = _ := he
  exact Ends.ret rfl

/-- The answer is whether the thread has ended. -/
theorem forwardLoop_runs (h : Known own [] s) (hforwards : Forwards ms own) (rounds : Nat) :
    Runs s (forwardLoop rounds (ms.map ofMirror))
    (Well fun ended s' => ended = true → s'.world.ended = true) := by
  have hfinish : ∀ {own s} mirrors, Known own [] s →
      Runs s (finish mirrors) (Well fun ended s' => ended = true → s'.world.ended = true) := by
    refine fun mirrors hknown => (finish_runs hknown mirrors).weaken fun r _ hr => ?_
    cases r with
    | error e => exact hr
    | ok ended => exact fun _ => hr
  induction rounds generalizing s own ms with
  | zero => exact Ends.ret fun hended : false = true => by cases hended
  | succ rounds ih =>
    refine h.ask trivial fun s₁ due s₂ hknown he => ?_
    obtain rfl : s₂ = s₁ := he
    refine Ends.seq (refresh_runs hknown hforwards due) fun mirrors s₃ hr => ?_
    obtain ⟨ms', own', rfl, hforwards, hknown⟩ := hr
    have hlisteners : (ms'.map ofMirror).map (·.listener) = ms'.map socket := by simp [ofMirror]
    obtain ⟨moments, hscans, hms⟩ := hforwards.mirrors
    have hpolls : Polls ((ms'.map ofMirror).map (·.listener)) s₃ := by
      refine ⟨⟨moments, ?_, ?_⟩, ?_, hknown.entered, ?_⟩
      · rw [hknown.own, hscans]
      · rw [hlisteners, hms]
      · rw [hknown.own, hforwards.held, hlisteners]
      · rw [hknown.own, hforwards.late]
    refine hknown.ask hpolls fun s₄ polled s₅ hknown he => ?_
    cases polled with
    | none =>
      obtain rfl : s₅ = s₄ := he
      exact hfinish _ hknown
    | some answer =>
      obtain ⟨quit, ready⟩ := answer
      obtain ⟨-, -, hready, rfl⟩ := he
      cases quit with
      | true => exact hfinish _ (hknown.withOwn _)
      | false =>
        rw [hknown.own]
        have hserve : Known own' (readyOf ((ms'.map ofMirror).zip ready)) (s₄.withOwn own') :=
          ⟨⟨hknown.quiet.answers, hknown.quiet.server⟩, rfl, hknown.entered, readyOf_pending hready⟩
        refine Ends.seq (serveAll_runs hserve hforwards) fun _ s₆ hr => ?_
        obtain ⟨own'', hforwards, hknown⟩ := hr
        exact ih hknown hforwards

end Climate.Forwarder
