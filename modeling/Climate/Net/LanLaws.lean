import Climate.Net.Lan

/-!
# Nothing is relayed past a gateway

What leaves the host for the container goes where the container sent it, by a
device that was read to reach that place directly; and a UDP flow is passed on
in order.
-/

namespace Climate.Lan

open Prog
open Relation (ReflTransGen)
open Forward (SocketAddr)

variable {e : Endian} {header : Header} {inside : Inside} {target : SocketAddr} {s s' : State} {ip : IpAddr}

-- ---------------------------------------------------------------------------
-- Reading the tables
-- ---------------------------------------------------------------------------

/-- The routes of a family. -/
def Tables.of (t : Tables) : Family → List Route
  | .v4 => t.routes4
  | .v6 => t.routes6

theorem egress_congr {routes routes' : List Route}
    (h : routes.filter (·.contains ip) = routes'.filter (·.contains ip)) :
    egress routes ip = egress routes' ip := by
  simp only [egress, h]

theorem routes4_elsewhere (t : Tables) (ip : BitVec 128) : t.routes4.filter (·.contains (.v6 ip)) = [] := by
  refine List.filter_eq_nil_iff.mpr fun r hr => ?_
  obtain ⟨row, -, rfl⟩ := List.mem_map.mp hr
  exact Bool.false_ne_true

theorem routes6_elsewhere (t : Tables) (ip : BitVec 32) : t.routes6.filter (·.contains (.v4 ip)) = [] := by
  refine List.filter_eq_nil_iff.mpr fun r hr => ?_
  obtain ⟨row, -, rfl⟩ := List.mem_map.mp hr
  exact Bool.false_ne_true

/-- One family's routes decide. -/
theorem of_contains (t : Tables) (ip : IpAddr) :
    (t.of (family ip)).filter (·.contains ip) = t.routes.filter (·.contains ip) := by
  cases ip with
  | v4 ip => simp [Tables.routes, Tables.of, family, List.filter_append, routes6_elsewhere]
  | v6 ip => simp [Tables.routes, Tables.of, family, List.filter_append, routes4_elsewhere]

theorem routes_text4 (e : Endian) (header : Header) (t : Tables) :
    ((lines (t.text e header .v4)).drop 1).filterMap (v4Route e) = t.routes4 := by
  have hlines : ∀ line ∈ header.text :: t.rows4.map (·.print e), Text.OneLine line.toList := by
    rw [List.forall_mem_cons]
    refine ⟨header.oneLine, fun line hline => ?_⟩
    obtain ⟨row, -, rfl⟩ := List.mem_map.mp hline
    exact row.print_oneLine e
  rw [Tables.text, lines_closed hlines, List.drop_one, List.tail_cons, filterMap_printed (v4Route_print e)]
  rfl

theorem routes_text6 (e : Endian) (header : Header) (t : Tables) :
    (lines (t.text e header .v6)).filterMap v6Route = t.routes6 := by
  have hlines : ∀ line ∈ t.rows6.map (·.print), Text.OneLine line.toList := fun line hline => by
    obtain ⟨row, -, rfl⟩ := List.mem_map.mp hline
    exact row.print_oneLine
  rw [Tables.text, lines_closed hlines, filterMap_printed v6Route_print]
  rfl

/-- What was read of a family, whether or not it could be. -/
inductive WasRead (fam : Family) (asked : List (Family × Tables)) : List Route → Prop
  | file : (fam, t) ∈ asked → WasRead fam asked (t.of fam)
  | nothing : WasRead fam asked []

/-- The answer is the one for the tables as they were when the file of the
destination's family was read. -/
theorem egress_read (h4 : WasRead .v4 asked r4) (h6 : WasRead .v6 asked r6)
    (h : egress (r4 ++ r6) ip = some device) :
    ∃ t, (family ip, t) ∈ asked ∧ egress t.routes ip = some device := by
  have hnothing : ∀ routes : List Route, routes.filter (·.contains ip) = [] → egress routes ip = none := by
    intro routes hnone
    have hempty : egress routes ip = egress [] ip := egress_congr hnone
    rw [hempty]
    cases hu : isUnicast ip <;> simp [egress, hu]
  have hfamily : ∀ r, WasRead (family ip) asked r →
      (r4 ++ r6).filter (·.contains ip) = r.filter (·.contains ip) →
        ∃ t, (family ip, t) ∈ asked ∧ egress t.routes ip = some device := by
    rintro r (hmem | _) hsame
    next t =>
      rw [of_contains] at hsame
      exact ⟨t, hmem, (egress_congr hsame).symm.trans h⟩
    next =>
      cases h.symm.trans (hnothing _ hsame)
  cases ip with
  | v4 ip =>
    refine hfamily r4 h4 ?_
    cases h6 with
    | file _ => rw [List.filter_append, Tables.of, routes6_elsewhere, List.append_nil]
    | nothing => rw [List.append_nil]
  | v6 ip =>
    refine hfamily r6 h6 ?_
    cases h4 with
    | file _ => rw [List.filter_append, Tables.of, routes4_elsewhere, List.nil_append]
    | nothing => rw [List.nil_append]

theorem WasRead.append (h : WasRead fam asked r) (more : List (Family × Tables)) :
    WasRead fam (asked ++ more) r := by
  cases h with
  | file hmem => exact .file (List.mem_append_left _ hmem)
  | nothing => exact .nothing

/-- The tables were seen to name the device. -/
def Approved (ip : IpAddr) (device : String) (s : State) : Prop :=
  ∃ t, (family ip, t) ∈ s.asked ∧ egress t.routes ip = some device

theorem Meanwhile.asked (h : Meanwhile s s') : s'.asked = s.asked := by
  cases h <;> rfl

/-- The operations, with what happens without them in between. -/
abbrev amid (e : Endian) (header : Header) (inside : Inside) : Effects lanOps State :=
  interruptible (LanOp.effect e header inside) Meanwhile

/-- What is kept up while the tables are read. -/
structure Steady (J : State → Prop) : Prop where
  meanwhile : ∀ s s', J s → Meanwhile s s' → J s'
  asked : ∀ s x, J s → J { s with asked := s.asked ++ [x] }

/-- A file is read as what it was then. -/
theorem table_ends {J : State → Prop} {pre : LanOp → State → Prop} (hJ : Steady J) (hs : J s) (fam : Family)
    (hpre : ∀ s, J s → pre (.table fam) s) : Ends (amid e header inside) pre
      (fun r s' => J s' ∧ s.asked <+: s'.asked ∧ ∃ text : Option String, r = .ok text ∧
        (text = none ∨ ∃ t, (fam, t) ∈ s'.asked ∧ text = some (t.text e header fam))) s
          (.ask (.table fam) .ok) := by
  refine Ends.ask (hpre s hs) fun (r : Option String) s' he => ?_
  obtain ⟨s₁, hints, he⟩ := he
  obtain ⟨h₁, hsame⟩ : J s₁ ∧ s₁.asked = s.asked :=
    kept (J := fun s₁ => J s₁ ∧ s₁.asked = s.asked)
      (fun _ _ h hm => ⟨hJ.meanwhile _ _ h.1 hm, hm.asked.trans h.2⟩) ⟨hs, rfl⟩ hints
  cases r with
  | none =>
    obtain rfl : s' = s₁ := he
    exact ⟨h₁, hsame ▸ List.prefix_rfl, none, rfl, .inl rfl⟩
  | some text =>
    obtain ⟨rfl, rfl⟩ := he
    exact ⟨hJ.asked _ _ h₁, hsame ▸ List.prefix_append _ _, _, rfl, .inr ⟨s₁.tables, by simp, rfl⟩⟩

theorem egressNow_ends {J : State → Prop} {pre : LanOp → State → Prop} (hJ : Steady J) (hs : J s)
    (hpre : ∀ fam s, J s → pre (.table fam) s) (ip : IpAddr) : Ends (amid e header inside) pre
      (fun r s' => J s' ∧ ∃ found, r = .ok found ∧ ∀ device, found = some device → Approved ip device s') s
      (egressNow e ip) := by
  unfold egressNow
  split
  next =>
    unfold routesNow
    simp only [bind_assoc]
    refine Ends.bind (table_ends hJ hs .v4 (hpre .v4)) (fun text4 s₁ h₁ => ?_) fun _ _ h => ?_
    · obtain ⟨hs₁, -, _, ⟨⟩, h4⟩ := h₁
      refine Ends.bind (table_ends hJ hs₁ .v6 (hpre .v6)) (fun text6 s₂ h₂ => .ret ?_) fun _ _ h => ?_
      · obtain ⟨hs₂, ⟨more, hmore⟩, _, ⟨⟩, h6⟩ := h₂
        refine ⟨hs₂, _, rfl, fun device hdevice => egress_read ?_ ?_ hdevice⟩
        · rw [← hmore]
          refine WasRead.append ?_ more
          rcases h4 with rfl | ⟨t, hmem, rfl⟩
          · exact .nothing
          · exact (routes_text4 e header t) ▸ .file hmem
        · rcases h6 with rfl | ⟨t, hmem, rfl⟩
          · exact .nothing
          · exact (routes_text6 e header t) ▸ .file hmem
      · obtain ⟨-, -, _, ⟨⟩, -⟩ := h
    · obtain ⟨-, -, _, ⟨⟩, -⟩ := h
  next => exact .ret ⟨hs, none, rfl, fun _ h => by cases h⟩

/-- Tables that stay as they are are read as what they are. -/
theorem routesNow_steps (s : State) : Steps (LanOp.effect e header inside) s (routesNow e)
    { s with asked := s.asked ++ [(.v4, s.tables)] ++ [(.v6, s.tables)] } (.ret s.tables.routes) := by
  have hroutes : routes e (s.tables.text e header .v4) (s.tables.text e header .v6) = s.tables.routes := by
    rw [routes, routes_text4, routes_text6]
    rfl
  have h4 : LanOp.effect e header inside (.table .v4) s (some (s.tables.text e header .v4))
      { s with asked := s.asked ++ [(.v4, s.tables)] } := ⟨rfl, rfl⟩
  have h6 : LanOp.effect e header inside (.table .v6) { s with asked := s.asked ++ [(.v4, s.tables)] }
      (some (s.tables.text e header .v6)) { s with asked := s.asked ++ [(.v4, s.tables)] ++ [(.v6, s.tables)] } :=
    ⟨rfl, rfl⟩
  rw [← hroutes]
  exact Steps.ask_bind h4 rfl (Steps.ask_bind h6 rfl .refl)

theorem egressNow_steps (hunicast : isUnicast ip = true) (s : State) :
    Steps (LanOp.effect e header inside) s (egressNow e ip)
      { s with asked := s.asked ++ [(.v4, s.tables)] ++ [(.v6, s.tables)] }
      (.ret (egress s.tables.routes ip)) := by
  rw [egressNow, if_pos hunicast]
  exact (routesNow_steps s).bind fun routes => .ret (egress routes ip)

-- ---------------------------------------------------------------------------
-- Where packets go
-- ---------------------------------------------------------------------------

/-- A packet that left for the target by a device that was seen to reach it. -/
def Packet.Allowed (target : SocketAddr) (asked : List (Family × Tables)) (p : Packet) : Prop :=
  p.dest = target ∧ ∃ device t, (family target.ip, t) ∈ asked ∧ egress t.routes target.ip = some device ∧
    Routed (p.tables.onto device) target.ip p.route

structure Local (target : SocketAddr) (s : State) : Prop where
  held : ∀ device, s.device = some device → Approved target.ip device s
  peer : ∀ peer, s.peer = some peer → peer = target ∧ s.device.isSome = true
  left : ∀ p ∈ s.left, p.Allowed target s.asked

/-- What an operation may only be made with. -/
def Careful (target : SocketAddr) : LanOp → State → Prop
  | .bindDevice device, s => Approved target.ip device s
  | .connect dest, s => dest = target ∧ s.device.isSome = true
  | _, _ => True

theorem Local.leave (h : Local target s) (hheld : s.device.isSome = true) (hsends : s.Sends target r)
    (payload : List Byte) : Local target (s.leave target payload r) := by
  obtain ⟨device, hdevice⟩ := Option.isSome_iff_exists.mp hheld
  obtain ⟨t, hmem, hegress⟩ := h.held device hdevice
  refine ⟨h.held, h.peer, fun p hp => ?_⟩
  rcases List.mem_append.mp hp with hp | hp
  · exact h.left p hp
  · obtain rfl := List.mem_singleton.mp hp
    rw [State.Sends, hdevice] at hsends
    exact ⟨rfl, device, t, hmem, hegress, hsends⟩

theorem Local.meanwhile (h : Local target s) (hm : Meanwhile s s') : Local target s' := by
  cases hm with
  | transmit payload _ hpeer hsends =>
    obtain ⟨rfl, hheld⟩ := h.peer _ hpeer
    exact h.leave hheld hsends payload
  | _ => exact ⟨h.held, h.peer, h.left⟩

theorem Local.asked (h : Local target s) (x : Family × Tables) :
    Local target { s with asked := s.asked ++ [x] } where
  held device hdevice := by
    obtain ⟨t, hmem, hegress⟩ := h.held device hdevice
    exact ⟨t, List.mem_append_left _ hmem, hegress⟩
  peer := h.peer
  left p hp := by
    obtain ⟨hdest, device, t, hmem, hrest⟩ := h.left p hp
    exact ⟨hdest, device, t, List.mem_append_left _ hmem, hrest⟩

theorem Careful.meanwhile (h : Careful target op s) (hm : Meanwhile s s') : Careful target op s' := by
  cases op with
  | bindDevice device =>
    obtain ⟨t, hmem, hegress⟩ := h
    exact ⟨t, hm.asked ▸ hmem, hegress⟩
  | connect dest => exact ⟨h.1, by cases hm <;> exact h.2⟩
  | _ => trivial

/-- What a single operation does to the flow. -/
theorem Local.step (op : LanOp) {r : op.Res} (h : Local target s) (hpre : Careful target op s)
    (he : LanOp.effect e header inside op s r s') :
    Local target s' := by
  cases op with
  | table fam =>
    cases r with
    | none => exact (show s' = s from he) ▸ h
    | some text =>
      obtain ⟨-, rfl⟩ := he
      exact h.asked _
  | socket protocol fam =>
    cases r with
    | false => exact (show s' = s from he) ▸ h
    | true =>
      obtain rfl : s' = _ := he
      exact ⟨h.held, h.peer, h.left⟩
  | bindDevice device =>
    cases r with
    | false => exact (show s' = s from he) ▸ h
    | true =>
      obtain rfl : s' = _ := he
      refine ⟨fun d hd => ?_, fun peer hpeer => ⟨(h.peer peer hpeer).1, rfl⟩, h.left⟩
      cases hd
      exact hpre
  | connect dest =>
    obtain ⟨rfl, hheld⟩ := hpre
    cases r with
    | false =>
      rcases he with rfl | ⟨-, route, hsends, rfl⟩
      · exact h
      · exact h.leave hheld hsends []
    | true =>
      rcases he with ⟨-, rfl⟩ | ⟨-, route, hsends, rfl⟩
      · exact ⟨h.held, fun peer hpeer => ⟨(Option.some.inj hpeer).symm, hheld⟩, h.left⟩
      · have hleft := h.leave hheld hsends []
        exact ⟨hleft.held, fun peer hpeer => ⟨(Option.some.inj hpeer).symm, hheld⟩, hleft.left⟩
  | select =>
    cases r with
    | read r =>
      cases r with
      | none => exact (show s' = s from he) ▸ h
      | some l =>
        rcases he with ⟨-, rfl⟩ | ⟨-, rfl⟩
        · exact ⟨h.held, h.peer, h.left⟩
        · exact h
    | received r =>
      cases r with
      | none => exact (show s' = s from he) ▸ h
      | some l =>
        obtain ⟨d, -, -, rfl⟩ := he
        exact ⟨h.held, h.peer, h.left⟩
  | send l =>
    cases r with
    | false => exact (show s' = s from he) ▸ h
    | true =>
      obtain ⟨dest, route, hpeer, hsends, rfl⟩ := he
      obtain ⟨rfl, hheld⟩ := h.peer dest hpeer
      exact h.leave hheld hsends l
  | write l =>
    rcases r with _ | _ | n
    · exact (show s' = s from he) ▸ h
    · exact (show s' = s from he) ▸ h
    · obtain ⟨-, -, rfl⟩ := he
      exact ⟨h.held, h.peer, h.left⟩
  | shutdown =>
    obtain rfl : s' = _ := he
    exact ⟨h.held, h.peer, h.left⟩

theorem Approved.meanwhile (h : Approved ip device s) (hm : Meanwhile s s') : Approved ip device s' := by
  obtain ⟨t, hmem, hegress⟩ := h
  exact ⟨t, hm.asked ▸ hmem, hegress⟩

theorem Meanwhile.device (h : Meanwhile s s') : s'.device = s.device := by
  cases h <;> rfl

theorem connected_ends (h : Local target s) (happroved : Approved target.ip device s) (protocol : Protocol) :
    Ends (amid e header inside) (Careful target) (fun _ s' => Local target s') s
      (connected protocol device target) := by
  unfold connected
  refine Ends.kept_bind (J := fun s => Local target s ∧ Approved target.ip device s) trivial ⟨h, happroved⟩
    (fun _ _ h hm => ⟨h.1.meanwhile hm, h.2.meanwhile hm⟩) (fun s₁ r s₂ _ h₁ he _ => ?_)
    fun s₁ r s₂ _ h₁ he _ => h₁.1.step (.socket _ _) trivial he
  have happroved₂ : Approved target.ip device s₂ := by
    cases r with
    | false => exact (show s₂ = s₁ from he) ▸ h₁.2
    | true =>
      obtain rfl : s₂ = _ := he
      exact h₁.2
  refine Ends.kept_bind (J := fun s => Local target s ∧ Approved target.ip device s) happroved₂
    ⟨h₁.1.step (.socket _ _) trivial he, happroved₂⟩ (fun _ _ h hm => ⟨h.1.meanwhile hm, h.2.meanwhile hm⟩)
    (fun s₃ r s₄ _ h₃ he hr => ?_) fun s₃ r s₄ _ h₃ he _ => h₃.1.step (.bindDevice device) h₃.2 he
  have h₄ : Local target s₄ := h₃.1.step (.bindDevice device) h₃.2 he
  have hheld : s₄.device.isSome = true := by
    cases r with
    | false => cases hr
    | true =>
      obtain rfl : s₄ = _ := he
      rfl
  refine Ends.ask ⟨rfl, hheld⟩ fun r s₆ he => ?_
  obtain ⟨s₅, hints, he⟩ := he
  obtain ⟨h₅, hheld₅⟩ := kept (J := fun s => Local target s ∧ s.device.isSome = true)
    (fun _ _ h hm => ⟨h.1.meanwhile hm, hm.device ▸ h.2⟩) ⟨h₄, hheld⟩ hints
  exact h₅.step (.connect target) ⟨rfl, hheld₅⟩ he

theorem Local.steady : Steady (Local target) where
  meanwhile _ _ h hm := h.meanwhile hm
  asked _ x h := h.asked x

theorem writeAll_only (l : List Byte) : (writeAll l).Only fun op : LanOp => op.opens = false := by
  induction l using writeAll.induct with
  | case1 => simp only [writeAll]; trivial
  | case2 b l ih =>
    simp only [writeAll]
    refine (Only.ask (by rfl)).bind fun written => ?_
    rcases written with _ | _ | n
    · trivial
    · trivial
    · exact ih n

theorem writeAll_sequential (l : List Byte) : (writeAll l).Sequential := by
  induction l using writeAll.induct with
  | case1 => simp only [writeAll]; trivial
  | case2 b l ih =>
    simp only [writeAll]
    refine (Sequential.ask _ _).bind fun written => ?_
    rcases written with _ | _ | n
    · trivial
    · trivial
    · exact ih n

theorem exchange_only (rounds : Nat) : (exchange rounds).Only fun op : LanOp => op.opens = false := by
  induction rounds with
  | zero => trivial
  | succ rounds ih =>
    refine (Only.ask (by rfl)).bind fun selected => ?_
    cases selected with
    | read r =>
      rcases r with _ | _ | ⟨b, l⟩
      · trivial
      · trivial
      · exact (Only.ask (by rfl)).bind fun _ => ih
    | received r =>
      cases r with
      | none => trivial
      | some l => exact (writeAll_only l).bind fun _ => ih

theorem exchange_sequential (rounds : Nat) : (exchange rounds).Sequential := by
  induction rounds with
  | zero => trivial
  | succ rounds ih =>
    refine (Sequential.ask _ _).bind fun selected => ?_
    cases selected with
    | read r =>
      rcases r with _ | _ | ⟨b, l⟩
      · trivial
      · trivial
      · exact (Sequential.ask _ _).bind fun _ => ih
    | received r =>
      cases r with
      | none => trivial
      | some l => exact (writeAll_sequential l).bind fun _ => ih

/-- What goes through a socket once it is there. -/
theorem passing_ends {p : LanAct Unit} (honly : p.Only fun op : LanOp => op.opens = false) (hseq : p.Sequential)
    (h : Local target s) : Ends (amid e header inside) (Careful target) (fun _ s' => Local target s') s p := by
  have hcareful : ∀ (op : LanOp) s, op.opens = false → Local target s → Careful target op s := by
    intro op s hop _
    cases op <;> trivial
  exact Ends.steady honly hseq h (fun _ _ h hm => h.meanwhile hm)
    (fun op r s s' hop h he => h.step op (hcareful op s hop h) he) hcareful

variable {copyBidirectional : LanAct Unit}

theorem relayTcp_ends (honly : copyBidirectional.Only fun op : LanOp => op.opens = false)
    (hseq : copyBidirectional.Sequential) (h : Local target s) :
    Ends (amid e header inside) (Careful target) (fun _ s' => Local target s') s
      (relayTcp e copyBidirectional target) := by
  refine Ends.attempt_bind (Q := fun _ s' => Local target s') ?_ fun r s' h' => ?_
  · refine Ends.bind (egressNow_ends Local.steady h (fun _ _ _ => trivial) target.ip) (fun found s' h' => ?_)
      fun _ _ h' => h'.1
    obtain ⟨h', _, ⟨⟩, hfound⟩ := h'
    cases found with
    | none => exact .throw h'
    | some device => exact connected_ends h' (hfound device rfl) .tcp
  · cases r with
    | ok => exact passing_ends honly hseq h'
    | error => exact passing_ends (Only.ask (by rfl)) (Sequential.ask _ _) h'

theorem relayUdp_ends (h : Local target s) (rounds : Nat) :
    Ends (amid e header inside) (Careful target) (fun _ s' => Local target s') s (relayUdp e rounds target) := by
  refine Ends.bind (egressNow_ends Local.steady h (fun _ _ _ => trivial) target.ip) (fun found s' h' => ?_)
    fun _ _ h' => h'.1
  obtain ⟨h', _, ⟨⟩, hfound⟩ := h'
  cases found with
  | none => exact .ret h'
  | some device =>
    refine Ends.bind (connected_ends h' (hfound device rfl) .udp) (fun _ s'' h'' => ?_) fun _ _ h'' => h''
    exact passing_ends (exchange_only rounds) (exchange_sequential rounds) h''

theorem egressNow_sequential (e : Endian) (ip : IpAddr) : (egressNow e ip).Sequential := by
  unfold egressNow
  split
  next =>
    refine Sequential.bind ?_ fun _ => trivial
    exact (Sequential.ask _ _).bind fun _ => (Sequential.ask _ _).bind fun _ => trivial
  next => trivial

theorem connected_sequential (protocol : Protocol) (device : String) (target : SocketAddr) :
    (connected protocol device target).Sequential :=
  (Sequential.ask _ _).bind fun _ => (Sequential.ask _ _).bind fun _ => Sequential.ask _ _

theorem relayUdp_sequential (e : Endian) (rounds : Nat) (target : SocketAddr) :
    (relayUdp e rounds target).Sequential := by
  refine (egressNow_sequential e target.ip).bind fun found => ?_
  cases found with
  | none => trivial
  | some device => exact (connected_sequential .udp device target).bind fun _ => exchange_sequential rounds

theorem relay_sequential (hseq : copyBidirectional.Sequential) (rounds : Nat) (stream : IpStackStream) :
    (relay e copyBidirectional rounds stream).Sequential := by
  cases stream with
  | tcp target =>
    refine (Sequential.attempt ?_).bind fun r => ?_
    · refine (egressNow_sequential e target.ip).bind fun found => ?_
      cases found with
      | none => trivial
      | some device => exact connected_sequential .tcp device target
    · cases r with
      | ok => exact hseq
      | error => exact Sequential.ask _ _
  | udp target => exact relayUdp_sequential e rounds target
  | other => trivial

theorem Local.initial (target : SocketAddr) (tables : Tables) : Local target (initial tables) where
  held _ h := by cases h
  peer _ h := by cases h
  left _ h := by cases h

/-- The invariant of a flow, over its runs. -/
theorem relay_local (honly : copyBidirectional.Only fun op : LanOp => op.opens = false)
    (hseq : copyBidirectional.Sequential) {stream : IpStackStream} (htarget : stream.target? = some target)
    (h : Interrupted (LanOp.effect e header inside) Meanwhile (initial tables)
      (relay e copyBidirectional rounds stream) s q) :
    Local target s := by
  have hends : Ends (amid e header inside) (Careful target) (fun _ s' => Local target s') (initial tables)
      (relay e copyBidirectional rounds stream) := by
    cases stream with
    | tcp _ =>
      cases htarget
      exact relayTcp_ends honly hseq (.initial _ _)
    | udp _ =>
      cases htarget
      exact relayUdp_ends (.initial _ _) rounds
    | other => cases htarget
  exact (h.invariant hends (relay_sequential hseq rounds stream) (.initial _ _) (fun _ _ h hm => h.meanwhile hm)
    (fun _ _ _ _ h hm => h.meanwhile hm) fun op _ _ _ h hpre he => h.step op hpre he).1

theorem Tables.prefixLen_le (t : Tables) : ∀ r ∈ t.routes, r.prefixLen ≤ r.net.width := by
  intro r hr
  rcases List.mem_append.mp hr with hr | hr
  · obtain ⟨row, -, rfl⟩ := List.mem_map.mp hr
    exact row.maskLen_le
  · obtain ⟨row, -, rfl⟩ := List.mem_map.mp hr
    exact row.prefixLen_le

/-- A route of the device that `egress` names is one of the best of all. -/
theorem routed_onto (t : Tables) (hegress : egress t.routes ip = some device) (hr : Routed (t.onto device) ip r) :
    Routed t.routes ip r := by
  obtain ⟨r₀, hr₀, hdevice⟩ := egress_device t.prefixLen_le hegress
  exact hr₀.of_part (List.mem_filter.mpr ⟨hr₀.mem, by simpa using hdevice⟩) (List.filter_subset_self _) hr

/-- Nothing has left, nor could a packet. -/
def State.Silent (s : State) : Prop := s.left = [] ∧ s.peer = none

theorem other_silent {q : LanAct Unit}
    (h : Interrupted (LanOp.effect e header inside) Meanwhile (initial tables) (.ret ()) s q) : s.Silent := by
  have hends : Ends (amid e header inside) (fun _ _ => False) (fun _ _ => True) (initial tables)
      (Prog.ret () : LanAct Unit) :=
    .ret trivial
  have hseq : (Prog.ret () : LanAct Unit).Sequential := trivial
  have hinitial : (initial tables).Silent := ⟨rfl, rfl⟩
  refine (h.invariant hends hseq hinitial (fun s s' h hm => ?_) (fun _ _ _ _ h _ => h)
    fun _ _ _ _ _ (hno : False) _ => hno.elim).1
  cases hm with
  | transmit _ _ hpeer => cases h.2.symm.trans hpeer
  | _ => exact h

/-- Every packet that leaves the host for a stream goes to the stream's target,
by a device that the tables, as they were at some moment since, had a best
route onto; all their best routes led onto a network of the host's own, and so
does the packet's while the device's routes are what they were. -/
theorem leaves_locally (honly : copyBidirectional.Only fun op : LanOp => op.opens = false)
    (hseq : copyBidirectional.Sequential) {stream : IpStackStream}
    (h : Interrupted (LanOp.effect e header inside) Meanwhile (initial tables)
      (relay e copyBidirectional rounds stream) s q) :
    ∀ p ∈ s.left, stream.target? = some p.dest ∧ isUnicast p.dest.ip = true ∧
      Routed (p.tables.onto p.route.device) p.dest.ip p.route ∧
      ∃ t, (family p.dest.ip, t) ∈ s.asked ∧ (∃ r, Routed t.routes p.dest.ip r ∧ r.device = p.route.device) ∧
        (∀ r, Routed t.routes p.dest.ip r → r.Direct) ∧
        (p.tables.onto p.route.device = t.onto p.route.device → p.route.Direct) := by
  intro p hp
  cases htarget : stream.target? with
  | none =>
    cases stream with
    | other => cases (other_silent h).1 ▸ hp
    | _ => cases htarget
  | some target =>
    obtain ⟨rfl, device, t, hmem, hegress, hroute⟩ := (relay_local honly hseq htarget h).left p hp
    obtain rfl : p.route.device = device := by simpa using (List.mem_filter.mp hroute.mem).2
    obtain ⟨hunicast, -, hdirect⟩ := (egress_isSome t.prefixLen_le).mp (by rw [hegress]; rfl)
    refine ⟨rfl, hunicast, hroute, t, hmem, egress_device t.prefixLen_le hegress, hdirect, fun hsame => ?_⟩
    exact hdirect _ (routed_onto t hegress (hsame ▸ hroute))

namespace Home

def tables : Tables := ⟨[homeEntry], []⟩

def title : Header := ⟨"Iface", ⟨by decide, by decide⟩⟩

def printer : SocketAddr := ⟨.v4 0xC0A80017#32, 9100⟩

/-- A write takes what fits into a packet. -/
def packets : Inside := fun l n => n = min l.length 1472

/-- The container has spoken. -/
def before (spoken : List (List Byte)) : State := { initial tables with spoken }

def found (spoken : List (List Byte)) : State := { before spoken with asked := [(.v4, tables), (.v6, tables)] }

def held (protocol : Protocol) (spoken : List (List Byte)) : State :=
  { found spoken with socket := some protocol, device := some "eth0" }

theorem found_steps (spoken : List (List Byte)) :
    Steps (LanOp.effect .little title packets) (before spoken) (egressNow .little printer.ip)
      (found spoken) (.ret (some "eth0")) := by
  have hegress : egress (before spoken).tables.routes printer.ip = some "eth0" := by rfl
  exact hegress ▸ egressNow_steps (by rfl) (before spoken)

theorem sends (h : s.device = some "eth0") (htables : s.tables = tables) : s.Sends printer homeEntry.route := by
  have honto : tables.onto "eth0" = [homeEntry.route] := by rfl
  have hmatches : homeEntry.route.Matches printer.ip := (Route.contains_iff (by decide)).mp (by rfl)
  simp only [State.Sends, h, htables, honto]
  exact ⟨List.mem_singleton_self _, hmatches, fun r hr _ => List.mem_singleton.mp hr ▸ le_rfl⟩

theorem connected_steps (protocol : Protocol) (spoken : List (List Byte))
    (he : LanOp.effect .little title packets (.connect printer) (held protocol spoken) true s) :
    Steps (LanOp.effect .little title packets) (found spoken) (connected protocol "eth0" printer) s
      (.ret ()) := by
  have hsocket : LanOp.effect .little title packets (.socket protocol .v4) (found spoken) true
      { found spoken with socket := some protocol } := rfl
  have hbind : LanOp.effect .little title packets (.bindDevice "eth0")
      { found spoken with socket := some protocol } true
      (held protocol spoken) := rfl
  exact Steps.ask_bind hsocket rfl (Steps.ask_bind hbind rfl (Steps.asked he rfl))

/-- The first packet of a connection. -/
def asking : Packet := ⟨printer, [], homeEntry.route, tables⟩

def connecting : State := { held .tcp [] with peer := some printer, left := [asking] }

theorem connectTcp_steps :
    Steps (LanOp.effect .little title packets) (initial tables) (connectTcp .little printer) connecting
      (.ret ()) := by
  have hconnect : LanOp.effect .little title packets (.connect printer) (held .tcp []) true connecting :=
    .inr ⟨rfl, homeEntry.route, sends rfl rfl, rfl⟩
  refine Steps.trans ((found_steps []).bind _) ?_
  exact connected_steps .tcp [] hconnect

theorem leaves_locally_printer : asking ∈ connecting.left ∧ ∃ t, (family printer.ip, t) ∈ connecting.asked ∧
    (∃ r, Routed t.routes printer.ip r ∧ r.device = "eth0") ∧ ∀ r, Routed t.routes printer.ip r → r.Direct := by
  have hsteps : Steps (LanOp.effect .little title packets) (initial tables)
      (relay .little (exchange 8) 8 (.tcp printer)) connecting (exchange 8) := connectTcp_steps.attempt.bind _
  have hleft : asking ∈ connecting.left := List.mem_singleton_self _
  obtain ⟨-, -, -, t, hmem, hdevice, hdirect, -⟩ :=
    leaves_locally (exchange_only 8) (exchange_sequential 8) hsteps.interrupted asking hleft
  exact ⟨hleft, t, hmem, hdevice, hdirect⟩

end Home

-- ---------------------------------------------------------------------------
-- Datagrams
-- ---------------------------------------------------------------------------

def State.sent (s : State) : List (List Byte) := s.left.map (·.payload)

def payloads (heard : List Datagram) : List (List Byte) := heard.map (·.payload)

/-- Datagrams that fit into a packet each. -/
def Fit (most : Nat) (heard : List Datagram) : Prop := ∀ d ∈ heard, d.payload.length ≤ most

/-- A write takes the whole of what fits into a packet. -/
def Inside.Whole (inside : Inside) (most : Nat) : Prop := ∀ l n, l.length ≤ most → inside l n → n = l.length

/-- What the container was given is what was received, and where it all fits
into packets, datagram by datagram. An empty one is not passed on. -/
structure Relayed (most : Nat) (given : List (List Byte)) (heard : List Datagram) : Prop where
  bytes : given.flatten <+: (payloads heard).flatten
  each : Fit most heard → given <+: (payloads heard).filter (· ≠ [])

/-- Both ways go in order, and what comes once the socket is connected comes
from the target by the device. -/
structure Ordered (most : Nat) (target : SocketAddr) (s : State) : Prop where
  udp : s.socket ≠ some .tcp
  peer : ∀ peer, s.peer = some peer → peer = target ∧ s.device.isSome = true
  sent : s.sent <+: s.taken
  taken : s.taken <+: s.spoken
  given : Relayed most s.given s.heard
  heard : s.heard <+: s.arrived
  unconnected : s.peer = none → ∀ d ∈ s.arrived, d.early = true
  source : ∀ d ∈ s.arrived, d.early = true ∨ d.source = target ∧ s.device = some d.device

/-- What is left of a datagram has yet to be given. -/
structure Gives (most : Nat) (down : List Byte) (given : List (List Byte)) (heard : List Datagram) : Prop where
  bytes : given.flatten ++ down = (payloads heard).flatten
  fits : Fit most heard → down.length ≤ most
  each : Fit most heard → given ++ [down].filter (· ≠ []) = (payloads heard).filter (· ≠ [])

/-- What was taken and has yet to be passed on, either way. -/
structure Owed (most : Nat) (up : List (List Byte)) (down : List Byte) (s : State) : Prop where
  sentAll : s.sent ++ up = s.taken
  gives : Gives most down s.given s.heard

def Orderly (most : Nat) (target : SocketAddr) : LanOp → State → Prop
  | .socket protocol _, _ => protocol = .udp
  | .bindDevice _, s => s.peer = none
  | .connect dest, s => dest = target ∧ s.device.isSome = true
  | .select, s => Owed most [] [] s
  | .send l, s => s.sent ++ [l] <+: s.taken
  | .write l, s => Gives most l s.given s.heard
  | _, _ => True

theorem Relayed.receive (h : Relayed most given heard) (d : Datagram) : Relayed most given (heard ++ [d]) := by
  refine ⟨h.bytes.trans ?_, fun hfit => (h.each fun d' hd' => hfit d' (List.mem_append_left _ hd')).trans ?_⟩
  · simp [payloads]
  · simp [payloads, List.filter_append]

theorem Gives.receive (h : Gives most [] given heard) (d : Datagram) :
    Gives most d.payload given (heard ++ [d]) := by
  have hbytes : given.flatten = (payloads heard).flatten := by simpa using h.bytes
  refine ⟨by simp [hbytes, payloads], fun hfit => hfit d (by simp), fun hfit => ?_⟩
  have heach : given = (payloads heard).filter (· ≠ []) := by
    simpa using h.each fun d' hd' => hfit d' (List.mem_append_left _ hd')
  rw [heach, ← List.filter_append, payloads, payloads, List.map_append]
  rfl

theorem Gives.write (h : Gives most l given heard) (hwhole : inside.Whole most) (hn : n < l.length)
    (hinside : inside l (n + 1)) :
    Gives most (l.drop (n + 1)) (given ++ [l.take (n + 1)]) heard := by
  have hall : Fit most heard → l.drop (n + 1) = [] ∧ l.take (n + 1) = l := fun hfit => by
    have hlength : n + 1 = l.length := hwhole l _ (h.fits hfit) hinside
    simp [hlength]
  refine ⟨?_, fun hfit => ?_, fun hfit => ?_⟩
  · rw [List.flatten_append, List.flatten_singleton, List.append_assoc, List.take_append_drop, h.bytes]
  · rw [(hall hfit).1]
    exact Nat.zero_le most
  · have hne : l ≠ [] := List.ne_nil_of_length_pos (Nat.zero_lt_of_lt hn)
    rw [(hall hfit).1, (hall hfit).2, ← h.each hfit]
    simp [hne]

theorem Gives.relayed (h : Gives most l given heard) : Relayed most given heard :=
  ⟨h.bytes ▸ List.prefix_append _ _, fun hfit => h.each hfit ▸ List.prefix_append _ _⟩

theorem Ordered.meanwhile (h : Ordered most target s) (hm : Meanwhile s s') : Ordered most target s' := by
  cases hm with
  | routes tables => exact ⟨h.udp, h.peer, h.sent, h.taken, h.given, h.heard, h.unconnected, h.source⟩
  | speak l =>
    exact ⟨h.udp, h.peer, h.sent, h.taken.trans (List.prefix_append _ _), h.given, h.heard,
      h.unconnected, h.source⟩
  | transmit _ htcp => exact absurd htcp h.udp
  | arrive d htakes =>
    obtain ⟨-, -, hsource, hdevice, hearly⟩ := htakes
    refine ⟨h.udp, h.peer, h.sent, h.taken, h.given, h.heard.trans (List.prefix_append _ _),
      fun hnone d' hd' => ?_, fun d' hd' => ?_⟩
    · rcases List.mem_append.mp hd' with hd' | hd'
      · exact h.unconnected hnone d' hd'
      · obtain rfl := List.mem_singleton.mp hd'
        simpa [show s.peer = none from hnone] using hearly
    · rcases List.mem_append.mp hd' with hd' | hd'
      · exact h.source d' hd'
      · obtain rfl := List.mem_singleton.mp hd'
        cases hpeer : s.peer with
        | none => exact .inl (by simpa [hpeer] using hearly)
        | some peer =>
          obtain ⟨rfl, hheld⟩ := h.peer peer hpeer
          obtain ⟨device, hheld⟩ := Option.isSome_iff_exists.mp hheld
          exact .inr ⟨hsource _ hpeer, by rw [hdevice device hheld]; exact hheld⟩

theorem Owed.meanwhile (h : Owed most up down s) (hudp : s.socket ≠ some .tcp) (hm : Meanwhile s s') :
    Owed most up down s' := by
  cases hm with
  | transmit _ htcp => exact absurd htcp hudp
  | _ => exact ⟨h.sentAll, h.gives⟩

theorem Orderly.meanwhile (h : Orderly most target op s) (hudp : s.socket ≠ some .tcp) (hm : Meanwhile s s') :
    Orderly most target op s' := by
  cases op with
  | select => exact Owed.meanwhile h hudp hm
  | _ =>
    cases hm with
    | transmit _ htcp => exact absurd htcp hudp
    | _ => exact h

theorem Ordered.step (hwhole : inside.Whole most) (op : LanOp) {r : op.Res} (h : Ordered most target s)
    (hpre : Orderly most target op s)
    (he : LanOp.effect e header inside op s r s') : Ordered most target s' := by
  cases op with
  | table fam =>
    cases r with
    | none => exact (show s' = s from he) ▸ h
    | some text =>
      obtain ⟨-, rfl⟩ := he
      exact ⟨h.udp, h.peer, h.sent, h.taken, h.given, h.heard, h.unconnected, h.source⟩
  | socket protocol fam =>
    obtain rfl : protocol = .udp := hpre
    cases r with
    | false => exact (show s' = s from he) ▸ h
    | true =>
      obtain rfl : s' = _ := he
      exact ⟨by simp, h.peer, h.sent, h.taken, h.given, h.heard, h.unconnected, h.source⟩
  | bindDevice device =>
    cases r with
    | false => exact (show s' = s from he) ▸ h
    | true =>
      obtain rfl : s' = _ := he
      exact ⟨h.udp, fun peer hpeer => ⟨(h.peer peer hpeer).1, rfl⟩, h.sent, h.taken, h.given, h.heard,
        h.unconnected, fun d hd => .inl (h.unconnected hpre d hd)⟩
  | connect dest =>
    obtain ⟨rfl, hheld⟩ := hpre
    cases r with
    | false =>
      rcases he with rfl | ⟨htcp, -⟩
      · exact h
      · exact absurd htcp h.udp
    | true =>
      rcases he with ⟨-, rfl⟩ | ⟨htcp, -⟩
      · exact ⟨h.udp, fun peer hpeer => ⟨(Option.some.inj hpeer).symm, hheld⟩, h.sent, h.taken, h.given, h.heard,
          fun hnone => absurd hnone (Option.some_ne_none _), h.source⟩
      · exact absurd htcp h.udp
  | select =>
    cases r with
    | read r =>
      cases r with
      | none => exact (show s' = s from he) ▸ h
      | some l =>
        rcases he with ⟨htaken, rfl⟩ | ⟨-, rfl⟩
        · exact ⟨h.udp, h.peer, h.sent.trans (List.prefix_append _ _), htaken, h.given, h.heard,
            h.unconnected, h.source⟩
        · exact h
    | received r =>
      cases r with
      | none => exact (show s' = s from he) ▸ h
      | some l =>
        obtain ⟨d, hheard, -, rfl⟩ := he
        exact ⟨h.udp, h.peer, h.sent, h.taken, h.given.receive d, hheard, h.unconnected, h.source⟩
  | send l =>
    cases r with
    | false => exact (show s' = s from he) ▸ h
    | true =>
      obtain ⟨dest, route, -, -, rfl⟩ := he
      refine ⟨h.udp, h.peer, ?_, h.taken, h.given, h.heard, h.unconnected, h.source⟩
      have hsent : s.sent ++ [l] <+: s.taken := hpre
      simpa [State.sent, State.leave] using hsent
  | write l =>
    rcases r with _ | _ | n
    · exact (show s' = s from he) ▸ h
    · exact (show s' = s from he) ▸ h
    · obtain ⟨hn, hinside, rfl⟩ := he
      have hgives : Gives most l s.given s.heard := hpre
      exact ⟨h.udp, h.peer, h.sent, h.taken, (hgives.write hwhole hn hinside).relayed, h.heard,
        h.unconnected, h.source⟩
  | shutdown =>
    obtain rfl : s' = _ := he
    exact ⟨h.udp, h.peer, h.sent, h.taken, h.given, h.heard, h.unconnected, h.source⟩

structure Holding (most : Nat) (target : SocketAddr) (up : List (List Byte)) (down : List Byte) (s : State) : Prop
  extends Ordered most target s, Owed most up down s

abbrev Waiting (most : Nat) (target : SocketAddr) (s : State) : Prop := Holding most target [] [] s

structure Opening (most : Nat) (target : SocketAddr) (s : State) : Prop extends Holding most target [] [] s where
  noPeer : s.peer = none

theorem Holding.meanwhile (h : Holding most target up down s) (hm : Meanwhile s s') :
    Holding most target up down s' :=
  ⟨h.toOrdered.meanwhile hm, h.toOwed.meanwhile h.udp hm⟩

theorem Opening.meanwhile (h : Opening most target s) (hm : Meanwhile s s') : Opening most target s' :=
  ⟨h.toHolding.meanwhile hm, by cases hm <;> exact h.noPeer⟩

theorem Opening.steady : Steady (Opening most target) where
  meanwhile _ _ h hm := h.meanwhile hm
  asked _ _ h := ⟨⟨⟨h.udp, h.peer, h.sent, h.taken, h.given, h.heard, h.unconnected, h.source⟩,
    ⟨h.sentAll, h.gives⟩⟩, h.noPeer⟩

theorem Opening.initial (most : Nat) (target : SocketAddr) (tables : Tables) :
    Opening most target (initial tables) where
  udp h := by cases h
  peer _ h := by cases h
  sent := List.prefix_rfl
  taken := List.prefix_rfl
  given := ⟨List.prefix_rfl, fun _ => List.prefix_rfl⟩
  heard := List.prefix_rfl
  unconnected _ _ h := by cases h
  source _ h := by cases h
  sentAll := rfl
  gives := ⟨rfl, fun _ => Nat.zero_le most, fun _ => rfl⟩
  noPeer := rfl

theorem Opening.step (hwhole : inside.Whole most) (op : LanOp) {r : op.Res} (h : Opening most target s)
    (hpre : Orderly most target op s)
    (hop : (∃ protocol fam, op = .socket protocol fam) ∨ ∃ device, op = .bindDevice device)
    (he : LanOp.effect e header inside op s r s') : Opening most target s' := by
  refine ⟨⟨h.toOrdered.step hwhole op hpre he, ?_⟩, ?_⟩
  all_goals
    rcases hop with ⟨protocol, fam, rfl⟩ | ⟨device, rfl⟩ <;> cases r <;> obtain rfl : s' = _ := he <;>
      first | exact h.noPeer | exact ⟨h.sentAll, h.gives⟩

theorem opening_ends (hwhole : inside.Whole most) (h : Opening most target s) (device : String) :
    Ends (amid e header inside) (Orderly most target) (fun r s' => r = .ok () → Waiting most target s') s
      (connected .udp device target) := by
  unfold connected
  refine Ends.kept_bind rfl h (fun _ _ h hm => h.meanwhile hm) (fun s₁ r s₂ _ h₁ he _ => ?_)
    fun _ _ _ _ _ _ _ hok => by cases hok
  have h₂ : Opening most target s₂ := h₁.step hwhole (.socket _ _) rfl (.inl ⟨_, _, rfl⟩) he
  refine Ends.kept_bind h₂.noPeer h₂ (fun _ _ h hm => h.meanwhile hm) (fun s₃ r s₄ _ h₃ he hr => ?_)
    fun _ _ _ _ _ _ _ hok => by cases hok
  have h₄ : Opening most target s₄ := h₃.step hwhole (.bindDevice device) h₃.noPeer (.inr ⟨_, rfl⟩) he
  have hheld : s₄.device.isSome = true := by
    cases r with
    | false => cases hr
    | true =>
      obtain rfl : s₄ = _ := he
      rfl
  refine Ends.ask ⟨rfl, hheld⟩ fun r s₆ he hr => ?_
  obtain ⟨s₅, hints, he⟩ := he
  obtain ⟨h₅, hheld₅⟩ := kept (J := fun s => Opening most target s ∧ s.device.isSome = true)
    (fun _ _ h hm => ⟨h.1.meanwhile hm, hm.device ▸ h.2⟩) ⟨h₄, hheld⟩ hints
  refine ⟨h₅.toOrdered.step hwhole (.connect target) ⟨rfl, hheld₅⟩ he, ?_⟩
  cases r with
  | false => cases hr
  | true =>
    rcases he with ⟨-, rfl⟩ | ⟨htcp, -⟩
    · exact ⟨h₅.sentAll, h₅.gives⟩
    · exact absurd htcp h₅.udp

theorem Holding.send (hwhole : inside.Whole most) (h : Holding most target [l] down s) (rounds : Nat)
    (hloop : ∀ s, Holding most target [] down s → Ends (amid e header inside) (Orderly most target)
      (fun _ _ => True) s (exchange rounds)) :
    Ends (amid e header inside) (Orderly most target) (fun _ _ => True) s
      (.ask (.send l) (orElse "sending a datagram") >>= fun _ => exchange rounds) := by
  have hpre : ∀ s, Holding most target [l] down s → s.sent ++ [l] <+: s.taken :=
    fun s h => h.sentAll ▸ List.prefix_rfl
  refine Ends.kept_bind (hpre s h) h (fun _ _ h hm => h.meanwhile hm) (fun s₁ r s₂ _ h₁ he hr => hloop s₂ ?_)
    fun _ _ _ _ _ _ _ => trivial
  refine ⟨h₁.toOrdered.step hwhole (.send l) (hpre s₁ h₁) he, ?_⟩
  cases r with
  | false => cases hr
  | true =>
    obtain ⟨dest, route, -, -, rfl⟩ := he
    exact ⟨by simpa [State.sent, State.leave] using h₁.sentAll, h₁.gives⟩

theorem writeAll_ends (hwhole : inside.Whole most) (l : List Byte) (h : Holding most target up l s) :
    Ends (amid e header inside) (Orderly most target) (fun r s' => r = .ok () → Holding most target up [] s') s
      (writeAll l) := by
  induction l using writeAll.induct generalizing s with
  | case1 =>
    simp only [writeAll]
    exact .ret fun _ => h
  | case2 b l ih =>
    simp only [writeAll]
    refine Ends.kept_bind h.gives h (fun _ _ h hm => h.meanwhile hm) (fun s₁ r s₂ written h₁ he hr => ?_)
      fun _ _ _ _ _ _ hr => by cases hr
    obtain rfl : r = written := Except.ok.inj hr
    have h₂ : Ordered most target s₂ := h₁.toOrdered.step hwhole (.write (b :: l)) h₁.gives he
    rcases r with _ | _ | n
    · exact .throw fun hok => by cases hok
    · exact .throw fun hok => by cases hok
    · obtain ⟨hn, hinside, rfl⟩ := he
      exact ih n ⟨h₂, ⟨h₁.sentAll, h₁.gives.write hwhole hn hinside⟩⟩

/-- What a round of the loop takes it passes on before the loop waits again. -/
theorem exchange_ends (hwhole : inside.Whole most) (rounds : Nat) (h : Waiting most target s) :
    Ends (amid e header inside) (Orderly most target) (fun _ _ => True) s (exchange rounds) := by
  induction rounds generalizing s with
  | zero => exact .ret trivial
  | succ rounds ih =>
    refine Ends.kept_bind h.toOwed h (fun _ _ h hm => h.meanwhile hm) (fun s₁ r s₂ selected h₁ he hr => ?_)
      fun _ _ _ _ _ _ _ => trivial
    obtain rfl : r = selected := Except.ok.inj hr
    have h₂ : Ordered most target s₂ := h₁.toOrdered.step hwhole .select h₁.toOwed he
    cases r with
    | read r =>
      rcases r with _ | _ | ⟨b, l⟩
      · exact .throw trivial
      · exact .ret trivial
      · rcases he with ⟨-, rfl⟩ | ⟨hempty, -⟩
        · have hsent : s₁.sent = s₁.taken := by simpa using h₁.sentAll
          exact Holding.send hwhole ⟨h₂, ⟨by simpa [State.sent] using hsent, h₁.gives⟩⟩ rounds fun _ => ih
        · cases hempty
    | received r =>
      cases r with
      | none => exact .throw trivial
      | some l =>
        obtain ⟨d, -, rfl, rfl⟩ := he
        have hholding : Holding most target [] d.payload { s₁ with heard := s₁.heard ++ [d] } :=
          ⟨h₂, ⟨h₁.sentAll, h₁.gives.receive d⟩⟩
        exact Ends.bind (writeAll_ends hwhole d.payload hholding) (fun _ s' h' => ih (h' rfl))
          fun _ _ _ => trivial

theorem relayUdp_orderly (hwhole : inside.Whole most) (h : Opening most target s) (rounds : Nat) :
    Ends (amid e header inside) (Orderly most target) (fun _ _ => True) s (relayUdp e rounds target) := by
  refine Ends.bind (egressNow_ends Opening.steady h (fun _ _ _ => trivial) target.ip) (fun found s' h' => ?_)
    fun _ _ _ => trivial
  obtain ⟨h', _, ⟨⟩, -⟩ := h'
  cases found with
  | none => exact .ret trivial
  | some device =>
    exact Ends.bind (opening_ends hwhole h' device)
      (fun _ s'' h'' => exchange_ends hwhole rounds (h'' rfl)) fun _ _ _ => trivial

/-- A UDP flow goes both ways in order, what the container sends datagram by
datagram, and so what it is sent where that fits into packets, but for empty
datagrams. While the loop waits nothing that was taken is left. What comes once
the socket is connected comes from the target by the device. -/
theorem datagrams_in_order (hwhole : inside.Whole most)
    (h : Interrupted (LanOp.effect e header inside) Meanwhile (initial tables) (relayUdp e rounds target) s q) :
    (s.left.map (·.payload) <+: s.taken ∧ s.taken <+: s.spoken) ∧
      (s.heard <+: s.arrived ∧ s.given.flatten <+: (s.heard.map (·.payload)).flatten ∧
        ((∀ d ∈ s.heard, d.payload.length ≤ most) → s.given <+: (s.heard.map (·.payload)).filter (· ≠ []))) ∧
      (∀ next, q = .call .select next → s.left.map (·.payload) = s.taken ∧
        s.given.flatten = (s.heard.map (·.payload)).flatten ∧
        ((∀ d ∈ s.heard, d.payload.length ≤ most) → s.given = (s.heard.map (·.payload)).filter (· ≠ []))) ∧
      ∀ d ∈ s.arrived, d.early = true ∨ d.source = target ∧ s.device = some d.device := by
  have hends : Ends (amid e header inside) (Orderly most target) (fun _ _ => True) (initial tables)
      (relayUdp e rounds target) :=
    relayUdp_orderly hwhole (Opening.initial most target tables) rounds
  obtain ⟨hordered, hready⟩ := h.invariant hends (relayUdp_sequential e rounds target)
    (Opening.initial most target tables).toOrdered (fun _ _ h hm => h.meanwhile hm)
    (fun _ _ _ hinv h hm => h.meanwhile hinv.udp hm) fun op _ _ _ h hpre he => h.step hwhole op hpre he
  refine ⟨⟨hordered.sent, hordered.taken⟩, ⟨hordered.heard, hordered.given.bytes, hordered.given.each⟩,
    fun next hnext => ?_, hordered.source⟩
  have howed : Owed most [] [] s := hready .select next hnext
  refine ⟨by simpa [State.sent] using howed.sentAll, by simpa [payloads] using howed.gives.bytes, fun hfit => ?_⟩
  simpa [payloads] using howed.gives.each hfit

namespace Home

def request : List Byte := [0x40]

def asked : State :=
  { held .udp [request] with peer := some printer, taken := [request],
                             left := [⟨printer, request, homeEntry.route, tables⟩] }

theorem relayUdp_steps :
    Steps (LanOp.effect .little title packets) (before [request]) (relayUdp .little 4 printer) asked
      (exchange 3) := by
  have hconnect : LanOp.effect .little title packets (.connect printer) (held .udp [request]) true
      { held .udp [request] with peer := some printer } := .inl ⟨rfl, rfl⟩
  have hread : LanOp.effect .little title packets .select { held .udp [request] with peer := some printer }
      (.read (some request)) { held .udp [request] with peer := some printer, taken := [request] } :=
    .inl ⟨List.prefix_rfl, rfl⟩
  have hsend : LanOp.effect .little title packets (.send request)
      { held .udp [request] with peer := some printer, taken := [request] } true asked :=
    ⟨printer, homeEntry.route, rfl, sends rfl rfl, rfl⟩
  refine Steps.trans ((found_steps [request]).bind _) ?_
  refine Steps.trans ((connected_steps .udp [request] hconnect).bind _) ?_
  exact Steps.ask_bind hread rfl (Steps.ask_bind hsend rfl .refl)

def reply : Datagram := ⟨printer, "eth0", [0x06], false⟩

def empty : Datagram := ⟨printer, "eth0", [], false⟩

def replied : State := { asked with arrived := [reply, empty] }

def answered : State := { replied with heard := [reply, empty], given := [[0x06]] }

theorem exchange_steps : Steps (LanOp.effect .little title packets) replied (exchange 3) answered
    (exchange 1) := by
  have hreply : LanOp.effect .little title packets .select replied (.received (some [0x06]))
      { replied with heard := [reply] } :=
    ⟨reply, ⟨[empty], rfl⟩, rfl, rfl⟩
  have hwrite : LanOp.effect .little title packets (.write [0x06]) { replied with heard := [reply] } (some 1)
      { replied with heard := [reply], given := [[0x06]] } := ⟨Nat.zero_lt_one, rfl, rfl⟩
  have hempty : LanOp.effect .little title packets .select { replied with heard := [reply], given := [[0x06]] }
      (.received (some [])) answered := ⟨empty, List.prefix_rfl, rfl, rfl⟩
  have hwritten : Steps (LanOp.effect .little title packets) { replied with heard := [reply] } (writeAll [0x06])
      { replied with heard := [reply], given := [[0x06]] } (.ret ()) := by
    rw [writeAll]
    refine Steps.ask_bind hwrite rfl ?_
    simp only [List.drop_nil, writeAll]
    exact .refl
  refine Steps.ask_bind hreply rfl (Steps.trans (hwritten.bind _) (Steps.ask_bind hempty rfl ?_))
  simp only [writeAll]
  exact .refl

theorem datagrams_in_order_request : answered.left.map (·.payload) = answered.taken ∧
    answered.given = (answered.heard.map (·.payload)).filter (· ≠ []) := by
  have hwhole : packets.Whole 1472 := by
    intro l n hl hn
    rw [hn]
    exact Nat.min_eq_left hl
  have hasked : Interrupted (LanOp.effect .little title packets) Meanwhile (initial tables)
      (relayUdp .little 4 printer) asked (exchange 3) :=
    (Interrupted.interrupt .refl (.speak request)).trans relayUdp_steps.interrupted
  have hreplied : Interrupted (LanOp.effect .little title packets) Meanwhile (initial tables)
      (relayUdp .little 4 printer) replied (exchange 3) := by
    refine .interrupt (.interrupt hasked (.arrive reply ?_)) (.arrive empty ?_)
    all_goals
      refine ⟨rfl, fun h => (by cases h), fun peer hpeer => ?_, fun device hdevice => ?_, rfl⟩
      · exact Option.some.inj hpeer
      · exact Option.some.inj hdevice
  have hwaiting := (datagrams_in_order hwhole (hreplied.trans exchange_steps.interrupted)).2.2.1 _ rfl
  exact ⟨hwaiting.1, hwaiting.2.2 (by decide)⟩

end Home

end Climate.Lan
