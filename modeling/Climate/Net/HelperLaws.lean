import Climate.Net.Helper
import Climate.Net.Mirrors

/-!
# What comes of a request

Whatever the helper and the services do meanwhile, an answer that the run gets
is the one to the request it has made, and between requests nothing is on its
way. So the program refines the model of the mirrors' ports: the mirrors it
polls are those of a run of rescans that saw what its scans have shown.
-/

namespace Climate.Forwarder

open Prog
open Forward (Port SocketAddr Listener Moment listeningPorts loopbackAddrs rescans)
open Calls
open Relation (ReflTransGen)

-- ---------------------------------------------------------------------------
-- What is said of an operation
-- ---------------------------------------------------------------------------

def socket (m : Forward.Mirror) : Fd := .listening (side m.inbound) m.listener

def ofMirror (m : Forward.Mirror) : Mirror := ⟨socket m, m.port, m.inbound⟩

def seen (now : Moment) : List (Side × List Listener) := [(.host, now.host), (.container, now.container)]

/-- A connection taken off a mirror of a port, and one to that port on
loopback on the other side. -/
def Joins (near far : Fd) : Prop :=
  ∃ port inbound, (∃ addr ∈ loopbackAddrs port, near = .accepted (side inbound) addr) ∧
    ∃ addr ∈ loopbackAddrs port, far = .connected (side inbound).other addr

/-- The listeners are those of the mirrors of a run of rescans. -/
structure Polls (listeners : List Fd) (s : State) : Prop where
  mirrors : ∃ moments, s.world.own.scans = moments.flatMap seen ∧ listeners = (rescans moments []).map socket
  held : s.world.own.held = listeners
  entered : s.world.entered = true
  late : s.world.own.late = 0

structure Waits (s : State) : Prop where
  due : ∃ inv good, Contract helper Drift inv good ∧ Due helper inv good s
  theirs : s.world.own.theirs = false

def Before : BridgeOp → State → Prop
  | .poll listeners, s => Polls listeners s
  | .join near far, _ => Joins near far
  | .send _, s => Quiet s
  | .receive, s => Waits s
  | .accept listener, s => listener ∈ s.world.pending
  | _, _ => True

abbrev Runs (s : State) (p : BridgeAct α) (post : Except String α → State → Prop) : Prop :=
  Ends (interruptible BridgeOp.effect Meanwhile) Before post s p

abbrev Well (good : α → State → Prop) : Except String α → State → Prop := Ends.Outcome (fun _ => False) good

-- ---------------------------------------------------------------------------
-- Between requests
-- ---------------------------------------------------------------------------

/-- At the listeners of `ready` connections wait. -/
structure Known (own : Own) (ready : List Fd) (s : State) : Prop where
  quiet : Quiet s
  own : s.world.own = own
  entered : s.world.entered = true
  ready : ready ⊆ s.world.pending

variable {s s' : State} {own : Own} {ready : List Fd}

theorem turn_own (ht : Meanwhile s s') : s'.world.own = s.world.own ∧
    (s.world.entered = true → s'.world.entered = true) := by
  refine turn_kept (J := fun n => n.own = s.world.own ∧ (s.world.entered = true → n.entered = true))
    (fun n w n' w' h hm => ?_) (fun n n' h hd => ?_) ⟨rfl, id⟩ ht
  · cases hm with
    | enter => exact ⟨h.1, fun _ => rfl⟩
    | _ => exact h
  · cases hd <;> exact h

theorem turns_own (ht : ReflTransGen Meanwhile s s') : s'.world.own = s.world.own ∧
    (s.world.entered = true → s'.world.entered = true) := by
  induction ht with
  | refl => exact ⟨rfl, id⟩
  | tail _ hlast ih =>
    obtain ⟨hown, hentered⟩ := turn_own hlast
    exact ⟨hown.trans ih.1, hentered ∘ ih.2⟩

theorem turn_pending (ht : Meanwhile s s') : s.world.pending ⊆ s'.world.pending := by
  refine turn_kept (J := fun n => s.world.pending ⊆ n.pending) (fun n w n' w' h hm => ?_) (fun n n' h hd => ?_)
    (List.Subset.refl _) ht
  · cases hm <;> exact h
  · cases hd with
    | arrive _ => exact List.Subset.trans h (List.subset_append_left _ _)
    | _ => exact h

theorem turns_pending (ht : ReflTransGen Meanwhile s s') : s.world.pending ⊆ s'.world.pending :=
  kept (J := fun s' => s.world.pending ⊆ s'.world.pending) (fun _ _ h ht => List.Subset.trans h (turn_pending ht))
    (List.Subset.refl _) ht

theorem Known.turn (h : Known own ready s) (ht : Meanwhile s s') : Known own ready s' :=
  ⟨h.quiet.turn ht, (turn_own ht).1.trans h.own, (turn_own ht).2 h.entered,
    List.Subset.trans h.ready (turn_pending ht)⟩

theorem Known.withOwn (h : Known own ready s) (own' : Own) : Known own' ready (s.withOwn own') :=
  ⟨⟨h.quiet.answers, h.quiet.server⟩, rfl, h.entered, h.ready⟩

theorem Known.ask {op : BridgeOp} {f : op.Res → BridgeAct α} {post : Except String α → State → Prop}
    (h : Known own ready s) (hpre : Before op s)
    (hf : ∀ s₁ r s', Known own ready s₁ → op.effect s₁ r s' → Runs s' (f r) post) :
    Runs s (Prog.ask (I := bridgeOps) op .ok >>= f) post := by
  refine Ends.kept_bind hpre h (fun _ _ => Known.turn) (fun s₁ r s' b hk he hread => ?_)
    fun s₁ r s' e hk he hread => ?_
  · cases hread
    exact hf s₁ _ s' hk he
  · cases hread

theorem Known.close (h : Known own ready s) (hfd : fd ∉ ready) : Known (own.drop fd) ready (s.close fd) := by
  refine ⟨⟨h.quiet.answers, h.quiet.server⟩, congrArg (Own.drop · fd) h.own, h.entered, fun other hother => ?_⟩
  refine List.mem_filter.mpr ⟨h.ready hother, ?_⟩
  simpa using ne_of_mem_of_not_mem hother hfd

theorem Known.take (h : Known own (fd :: ready) s) (hfd : fd ∉ ready) : Known own ready (s.take fd) := by
  refine ⟨⟨h.quiet.answers, h.quiet.server⟩, h.own, h.entered, fun other hother => ?_⟩
  exact (List.mem_erase_of_ne (ne_of_mem_of_not_mem hother hfd)).mpr (h.ready (List.mem_cons_of_mem _ hother))

theorem Known.ask_last {op : BridgeOp} {post : Except String op.Res → State → Prop}
    (h : Known own ready s) (hpre : Before op s)
    (hpost : ∀ s₁ r s', Known own ready s₁ → op.effect s₁ r s' → post (.ok r) s') :
    Runs s (Prog.ask (I := bridgeOps) op .ok) post := by
  refine Ends.ask hpre fun r s' he => ?_
  obtain ⟨s₁, hint, he⟩ := he
  exact hpost s₁ r s' (kept (fun _ _ => Known.turn) h hint) he

theorem Gives.cases {r : Option Fd} (h : Gives s r s' fd possible) (hknown : Known own ready s) :
    (r = none ∧ Known own ready s') ∨ r = some fd ∧ possible ∧ Known (own.hold [fd]) ready s' := by
  cases r with
  | none => exact .inl ⟨rfl, (show s' = s from h) ▸ hknown⟩
  | some given =>
    obtain ⟨rfl, hpossible, rfl⟩ := h
    exact .inr ⟨rfl, hpossible, hknown.own ▸ hknown.withOwn _⟩

-- ---------------------------------------------------------------------------
-- Requests
-- ---------------------------------------------------------------------------

structure Asked (own : Own) (inv : Net → Making → Prop) (good : Net → List Fd → Prop) (s : State) : Prop where
  due : Due helper inv good s
  own : s.world.own = own

variable {inv : Net → Making → Prop} {good : Net → List Fd → Prop}

theorem Asked.turn (hcontract : Contract helper Drift inv good) (h : Asked own inv good s) (ht : Meanwhile s s') :
    Asked own inv good s' :=
  ⟨h.due.turn hcontract ht, (turn_own ht).1.trans h.own⟩

/-- A reply is good, or there is none because the helper is gone. -/
theorem recvFds_runs (hcontract : Contract helper Drift inv good) (h : Asked own inv good s)
    (htheirs : own.theirs = false) :
    Runs s recvFds fun r s' => Quiet s' ∧ (s.world.entered = true → s'.world.entered = true) ∧
      s.world.pending ⊆ s'.world.pending ∧
      match r with
      | .ok fds => s'.world.own = own.hold fds ∧ ∃ n sent, n.entered = s'.world.entered ∧ good n sent ∧
      fds <+: sent
      | .error _ => s'.world.own = own := by
  refine Ends.ask ⟨⟨inv, good, hcontract, h.due⟩, h.own ▸ htheirs⟩ fun r s' he => ?_
  obtain ⟨s₁, hint, he⟩ := he
  have hasked : Asked own inv good s₁ := kept (fun _ _ => Asked.turn hcontract) h hint
  have hentered := (turns_own hint).2
  have hpending := turns_pending hint
  cases r with
  | none =>
    obtain ⟨hanswers, hgone, -, rfl⟩ := he
    exact ⟨quiet_of_gone hgone hanswers, hentered, hpending, hasked.own⟩
  | some fds =>
    obtain ⟨sent, rest, hanswers, hprefix, rfl⟩ := he
    obtain ⟨hgood, rfl, hquiet⟩ := hasked.due.receive hanswers
    refine ⟨⟨hquiet.answers, hquiet.server⟩, hentered, hpending, ?_, s₁.world, sent, rfl, hgood, hprefix⟩
    rw [← hasked.own]
    rfl

/-- What is true of the work on a request and kept by it, is true of what the
run gets. -/
theorem request_runs {P : Making → Prop} (hstep : ∀ n w n' w', P w → Move n w n' w' → P w')
    (h : Known own ready s)
    (htheirs : own.theirs = false) (hstart : P (accept [op, low port, high port])) :
    Runs s (request op port) <| Well fun fds s' => Known (own.hold fds) ready s' ∧
      (fds = [] ∨ ∃ sent, P (.made sent) ∧ fds <+: sent) := by
  have hcontract : Contract helper Drift (fun _ => P) fun _ fds => P (.made fds) := by
    refine ⟨hstep, fun _ w fds hP ha => ?_, fun _ _ _ hP _ => hP, fun _ _ _ hP _ => hP⟩
    cases w <;> cases ha
    exact hP
  refine h.ask h.quiet fun s₁ r s₂ hknown he => ?_
  cases r with
  | false =>
    obtain rfl : s₂ = s₁ := he
    exact Ends.ret ⟨by simpa using hknown, .inl rfl⟩
  | true =>
    obtain ⟨hthere, rfl⟩ := he
    have hasked : Asked own (fun _ => P) (fun _ fds => P (.made fds))
        { s₁ with calls := s₁.calls ++ [[op, low port, high port]] } :=
      ⟨hknown.quiet.send hthere hstart, hknown.own⟩
    refine Ends.attempt_bind (recvFds_runs hcontract hasked htheirs) fun r s' hr => ?_
    obtain ⟨hquiet, hentered, hpending, hr⟩ := hr
    have hready := List.Subset.trans hknown.ready hpending
    cases r with
    | error e => exact Ends.ret ⟨⟨hquiet, hr.trans own.hold_nil.symm, hentered hknown.entered, hready⟩, .inl rfl⟩
    | ok fds =>
      obtain ⟨hown, -, sent, -, hgood, hprefix⟩ := hr
      exact Ends.ret ⟨⟨hquiet, hown, hentered hknown.entered, hready⟩, .inr ⟨sent, hgood, hprefix⟩⟩

@[simp] theorem accept_listen (port : Port) :
    accept [opListen, low port, high port] = .listening (loopbackAddrs port) [] := by
  simp [accept]

@[simp] theorem accept_connect (port : Port) :
    accept [opConnect, low port, high port] = .connecting (loopbackAddrs port) := by
  simp [accept, opConnect, opListen]

def Making.Listens (port : Port) : Making → Prop
  | .listening todo fds => ∃ got : List SocketAddr, fds = got.map (.listening .container) ∧
    (got ++ todo).Sublist (loopbackAddrs port)
  | .made fds => ∃ got : List SocketAddr, fds = got.map (.listening .container) ∧ got.Sublist (loopbackAddrs port)
  | _ => False

theorem Making.Listens.move (h : Making.Listens port w) (hm : Move n w n' w') : Making.Listens port w' := by
  cases hm with
  | enter | createTun | noTun | connect _ | unreachable | alone => exact h.elim
  | @bind addr todo made hfree =>
    obtain ⟨got, rfl, hsub⟩ := h
    exact ⟨got ++ [addr], by simp, by simpa using hsub⟩
  | @refuse addr todo made =>
    obtain ⟨got, rfl, hsub⟩ := h
    exact ⟨got, rfl, ((List.sublist_cons_self addr todo).append_left got).trans hsub⟩
  | bound =>
    obtain ⟨got, rfl, hsub⟩ := h
    exact ⟨got, rfl, by simpa using hsub⟩

def Making.Connects (port : Port) : Making → Prop
  | .connecting todo => todo ⊆ loopbackAddrs port
  | .made fds => fds = [] ∨ ∃ addr ∈ loopbackAddrs port, fds = [.connected .container addr]
  | _ => False

theorem Making.Connects.move (h : Making.Connects port w) (hm : Move n w n' w') : Making.Connects port w' := by
  cases hm with
  | enter | createTun | noTun | bind _ | refuse | bound => exact h.elim
  | connect _ => exact .inr ⟨_, h List.mem_cons_self, rfl⟩
  | unreachable => exact fun addr haddr => h (List.mem_cons_of_mem _ haddr)
  | alone => exact .inl rfl

theorem request_listens (h : Known own ready s) (htheirs : own.theirs = false) (port : Port) :
    Runs s (request opListen port) <| Well fun fds s' => Known (own.hold fds) ready s' ∧
      ∃ got : List SocketAddr, fds = got.map (.listening .container) ∧ got.Sublist (loopbackAddrs port) := by
  refine (request_runs (P := Making.Listens port) (fun _ _ _ _ => Making.Listens.move) h htheirs ?_).weaken
    fun r s' hr => ?_
  · rw [accept_listen]
    exact ⟨[], rfl, List.Sublist.refl _⟩
  · cases r with
    | error e => exact hr
    | ok fds =>
      obtain ⟨hknown, rfl | ⟨sent, ⟨got, rfl, hsub⟩, hprefix⟩⟩ := hr
      · exact ⟨hknown, [], rfl, List.nil_sublist _⟩
      · obtain ⟨part, hpart, rfl⟩ := List.prefix_map_iff.mp hprefix
        exact ⟨hknown, part, rfl, hpart.sublist.trans hsub⟩

theorem request_connects (h : Known own ready s) (htheirs : own.theirs = false) (port : Port) :
    Runs s (request opConnect port) <| Well fun fds s' => Known (own.hold fds) ready s' ∧
      (fds = [] ∨ ∃ addr ∈ loopbackAddrs port, fds = [.connected .container addr]) := by
  refine (request_runs (P := Making.Connects port)
    (fun _ _ _ _ => Making.Connects.move) h htheirs ?_).weaken fun r s' hr => ?_
  · rw [accept_connect]
    exact List.Subset.refl _
  · cases r with
    | error e => exact hr
    | ok fds =>
      obtain ⟨hknown, rfl | ⟨sent, rfl | ⟨addr, haddr, rfl⟩, hprefix⟩⟩ := hr
      · exact ⟨hknown, .inl rfl⟩
      · exact ⟨hknown, .inl (List.prefix_nil.mp hprefix)⟩
      · refine ⟨hknown, ?_⟩
        rcases List.prefix_cons_iff.mp hprefix with rfl | ⟨rest, rfl, hrest⟩
        · exact .inl rfl
        · rw [List.prefix_nil.mp hrest]
          exact .inr ⟨addr, haddr, rfl⟩

-- ---------------------------------------------------------------------------
-- Sockets on the host
-- ---------------------------------------------------------------------------

theorem listenEach_runs (h : Known own ready s) (addrs : List SocketAddr) :
    Runs s (listenEach addrs) <| Well fun fds s' => Known (own.hold fds) ready s' ∧
      ∃ got : List SocketAddr, fds = got.map (.listening .host) ∧ got.Sublist addrs := by
  induction addrs generalizing s own with
  | nil => exact Ends.ret ⟨by simpa using h, [], rfl, List.Sublist.refl _⟩
  | cons addr rest ih =>
    refine h.ask trivial fun s₁ r s' hknown he => ?_
    rcases Gives.cases he hknown with ⟨rfl, hknown'⟩ | ⟨rfl, -, hknown'⟩
    · refine Ends.seq (ih hknown') fun fds s'' hr => ?_
      obtain ⟨hknown'', got, rfl, hsub⟩ := hr
      exact Ends.ret ⟨hknown'', got, rfl, hsub.cons addr⟩
    · refine Ends.seq (ih hknown') fun fds s'' hr => ?_
      obtain ⟨hknown'', got, rfl, hsub⟩ := hr
      rw [Own.hold_hold] at hknown''
      exact Ends.ret ⟨hknown'', addr :: got, rfl, hsub.cons_cons addr⟩

theorem connectFirst_runs (h : Known own ready s) (addrs : List SocketAddr) :
    Runs s (connectFirst addrs) <| Well fun fd s' => Known (own.hold fd.toList) ready s' ∧
      ∀ far, fd = some far → ∃ addr ∈ addrs, far = .connected .host addr := by
  induction addrs generalizing s with
  | nil => exact Ends.ret ⟨by simpa using h, by simp⟩
  | cons addr rest ih =>
    refine h.ask trivial fun s₁ r s' hknown he => ?_
    rcases Gives.cases he hknown with ⟨rfl, hknown'⟩ | ⟨rfl, -, hknown'⟩
    · refine (ih hknown').weaken fun r s'' hr => ?_
      cases r with
      | error e => exact hr
      | ok fd =>
        refine ⟨hr.1, fun far hfar => ?_⟩
        obtain ⟨other, hother, heq⟩ := hr.2 far hfar
        exact ⟨other, List.mem_cons_of_mem _ hother, heq⟩
    · refine Ends.ret ⟨hknown', fun far hfar => ?_⟩
      cases hfar
      exact ⟨addr, List.mem_cons_self, rfl⟩

-- ---------------------------------------------------------------------------
-- Connections
-- ---------------------------------------------------------------------------

theorem closeAll_runs (h : Known own ready s) (hfds : ∀ fd ∈ fds, fd ∉ ready) :
    Runs s (closeAll fds) <| Well fun _ s' => Known (own.holding (own.held.diff fds)) ready s' := by
  induction fds generalizing s own with
  | nil => exact Ends.ret h
  | cons fd rest ih =>
    obtain ⟨hfd, hrest⟩ := List.forall_mem_cons.mp hfds
    refine h.ask (f := fun _ => closeAll rest) trivial fun s₁ _ s' hknown he => ?_
    obtain rfl : s' = _ := he
    simpa [Own.drop] using ih (hknown.close hfd) hrest

theorem pop_runs {addrs : List SocketAddr} (h : Known (own.hold fds) ready s)
    (hfds : fds = [] ∨ ∃ addr ∈ addrs, fds = [.connected place addr]) :
    Runs s (pop fds) <| Well fun fd s' => Known (own.hold fd.toList) ready s' ∧
      ∀ far, fd = some far → ∃ addr ∈ addrs, far = .connected place addr := by
  rcases hfds with rfl | ⟨addr, haddr, rfl⟩
  · exact Ends.ret ⟨h, by simp⟩
  · refine Ends.ret ⟨h, fun far hfar => ?_⟩
    cases hfar
    exact ⟨addr, haddr, rfl⟩

/-- What the run had before, but for connections that it has joined. -/
def Own.Joined (own own' : Own) : Prop := ∃ joined, own' = { own with joined }

theorem complete_runs (h : Known (own.hold (near :: far.toList)) ready s) (hfree : near ∉ own.held)
    (hready : near ∉ ready)
    (hfar : ∀ other, far = some other → other ∉ own.held ∧ near ≠ other ∧ Joins near other) :
    Runs s (complete near far) <| Well fun _ s' => ∃ own', own.Joined own' ∧ Known own' ready s' := by
  cases far with
  | none =>
    refine h.ask_last trivial fun s₁ _ s' hknown he => ⟨own, ⟨own.joined, rfl⟩, ?_⟩
    obtain rfl : s' = _ := he
    simpa [Own.hold, Own.drop, List.erase_append_right _ hfree] using hknown.close hready
  | some other =>
    obtain ⟨hother, hne, hjoins⟩ := hfar other rfl
    refine h.ask_last hjoins fun s₁ _ s' hknown he => ?_
    have hdropped : ((own.hold [near, other]).drop near).drop other = own := by
      simp [Own.hold, Own.drop, List.erase_append_right _ hfree, List.erase_append_right _ hother]
    rcases he with rfl | rfl <;> rw [hknown.own]
    · refine ⟨own.join near other, ⟨_, rfl⟩, ?_⟩
      simpa [hdropped] using hknown.withOwn (own.join near other)
    · refine ⟨own, ⟨own.joined, rfl⟩, ?_⟩
      simpa [hdropped] using hknown.withOwn own

theorem farHalf_runs (h : Known own ready s) (htheirs : own.theirs = false) (m : Forward.Mirror) :
    Runs s (farHalf (ofMirror m)) <| Well fun fd s' => Known (own.hold fd.toList) ready s' ∧
      ∀ far, fd = some far → ∃ addr ∈ loopbackAddrs m.port, far = .connected (side m.inbound).other addr := by
  obtain ⟨listener, port, inbound⟩ := m
  cases inbound with
  | true =>
    refine Ends.seq (request_connects h htheirs port) fun fds s' hr => ?_
    exact pop_runs hr.1 hr.2
  | false => exact connectFirst_runs h (loopbackAddrs port)

theorem serve_runs (h : Known own (socket m :: ready) s) (htheirs : own.theirs = false)
    (hplaced : m.listener ∈ loopbackAddrs m.port) (hready : socket m ∉ ready) (hheld : ready ⊆ own.held)
    (hlistening : ∀ fd ∈ own.held, ∃ side addr, fd = .listening side addr) :
    Runs s (serve (ofMirror m)) <| Well fun _ s' => ∃ own', own.Joined own' ∧ Known own' ready s' := by
  have hnear : .accepted (side m.inbound) m.listener ∉ own.held := by
    intro hmem
    obtain ⟨_, _, heq⟩ := hlistening _ hmem
    cases heq
  have hfar : ∀ addr ∈ loopbackAddrs m.port, .connected (side m.inbound).other addr ∉ own.held ∧
      .accepted (side m.inbound) m.listener ≠ Fd.connected (side m.inbound).other addr ∧
      Joins (.accepted (side m.inbound) m.listener) (.connected (side m.inbound).other addr) := by
    intro addr haddr
    refine ⟨fun hmem => ?_, by simp, m.port, m.inbound, ⟨_, hplaced, rfl⟩, addr, haddr, rfl⟩
    obtain ⟨_, _, heq⟩ := hlistening _ hmem
    cases heq
  refine h.ask (h.ready List.mem_cons_self) fun s₁ r s₂ hknown he => ?_
  obtain ⟨-, hgives | ⟨rfl, rfl⟩⟩ := he
  · rcases Gives.cases hgives (hknown.take hready) with ⟨rfl, hknown'⟩ | ⟨rfl, -, hknown'⟩
    · exact Ends.ret ⟨own, ⟨own.joined, rfl⟩, hknown'⟩
    · refine Ends.seq (farHalf_runs hknown' htheirs m) fun far s' hr => ?_
      rw [Own.hold_hold] at hr
      refine complete_runs hr.1 hnear (fun hmem => hnear (hheld hmem)) fun other hother => ?_
      obtain ⟨addr, haddr, rfl⟩ := hr.2 other hother
      exact hfar addr haddr
  · refine Ends.ret ⟨own, ⟨own.joined, rfl⟩, ?_⟩
    exact ⟨hknown.quiet, hknown.own, hknown.entered, List.Subset.trans (List.subset_cons_self _ _) hknown.ready⟩

end Climate.Forwarder
