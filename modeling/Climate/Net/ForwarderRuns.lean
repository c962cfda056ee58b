import Climate.Lib.Exec
import Climate.Net.Forwarding

/-!
# From the start of the helper to the end of the thread

What holds in every run of the forwarder, from the spawning of its helper on,
whatever the helper, the services and the main thread do meanwhile.
-/

namespace Climate.Forwarder

open Prog
open Forward (Port SocketAddr Listener Moment listeningPorts loopbackAddrs rescans)
open Calls
open Relation (ReflTransGen)

variable {s s' : State} {own : Own}

-- ---------------------------------------------------------------------------
-- The first reply
-- ---------------------------------------------------------------------------

def Starting (localnet : Bool) (n : Net) : Making → Prop
  | .starting l => l = localnet
  | .inside l => l = localnet ∧ n.entered = true
  | .made fds => n.entered = true ∧ fds = if localnet then [.tun] else []
  | _ => False

def Inside (localnet : Bool) (n : Net) (fds : List Fd) : Prop :=
  n.entered = true ∧ fds = if localnet then [.tun] else []

theorem starting_contract (localnet : Bool) : Contract helper Drift (Starting localnet) (Inside localnet) := by
  refine ⟨fun n w n' w' h hm => ?_, fun n w fds h ha => ?_, fun n n' w h hd => ?_, fun n n' fds h hd => ?_⟩
  · cases hm with
    | enter => exact ⟨h, rfl⟩
    | createTun =>
      obtain ⟨rfl, hentered⟩ := h
      exact ⟨hentered, rfl⟩
    | noTun =>
      obtain ⟨rfl, hentered⟩ := h
      exact ⟨hentered, rfl⟩
    | bind _ | refuse | bound | connect _ | unreachable | alone => exact h.elim
  · cases w with
    | made fds =>
      cases ha
      exact h
    | _ => cases ha
  · cases hd <;> cases w <;> exact h
  · cases hd <;> exact h

structure Fresh (s : State) : Prop where
  calls : s.calls = []
  answers : s.answers = []
  server : s.server = .gone
  own : s.world.own = {}

theorem Fresh.turn (h : Fresh s) (ht : Meanwhile s s') : Fresh s' := by
  have hown := (turn_own ht).1.trans h.own
  have hgone := turn_gone h.server ht
  obtain ⟨hcalls, hanswers, hserver, -⟩ := h
  cases ht with
  | act ha => cases ha <;> cases hserver
  | stop | drift _ => exact ⟨hcalls, hanswers, hgone, hown⟩

def started (localnet : Bool) : Own := { relay := if localnet then [.tun] else [] }

theorem startRelay_runs (hsent : fds <+: if localnet then [Fd.tun] else []) (h : Known (Own.hold {} fds) [] s) :
    Runs s (onlyIf localnet (startRelay fds.head?))
      (Ends.Outcome (fun _ => True) fun _ s' => Known (started localnet) [] s') := by
  cases localnet with
  | false =>
    obtain rfl := List.prefix_nil.mp hsent
    exact Ends.ret h
  | true =>
    rcases List.prefix_cons_iff.mp hsent with rfl | ⟨rest, rfl, hrest⟩
    · exact Ends.throw trivial
    · obtain rfl := List.prefix_nil.mp hrest
      refine Ends.ask trivial fun r s' he => ?_
      obtain ⟨s₁, hint, he⟩ := he
      have hknown : Known (Own.hold {} [.tun]) [] s₁ := kept (fun _ _ => Known.turn) h hint
      cases r with
      | false => trivial
      | true =>
        obtain rfl : s' = _ := he
        change Known (started true) [] _
        rw [hknown.own]
        exact hknown.withOwn _

theorem start_runs (localnet : Bool) (h : Fresh s) :
    Runs s (start localnet) (Ends.Outcome (fun _ => True) fun _ s' => Known (started localnet) [] s') := by
  have hcontract := starting_contract localnet
  refine Ends.kept_bind trivial h (fun _ _ => Fresh.turn) (fun s₁ r s₂ _ hfresh he hread => ?_)
    fun _ _ _ _ _ _ _ => trivial
  cases r with
  | false => cases hread
  | true =>
    obtain ⟨world, calls, answers, server⟩ := s₁
    obtain ⟨hcalls, hanswers, -, hown⟩ := hfresh
    simp only at hcalls hanswers hown
    subst hcalls hanswers
    obtain rfl : s₂ = _ := he
    have hasked : Asked { theirs := true } (Starting localnet) (Inside localnet)
        { (State.withOwn ⟨world, [], [], server⟩ { world.own with theirs := true }) with
          server := .busy (.starting localnet) } :=
      ⟨.taken rfl, by rw [hown]; rfl⟩
    refine Ends.kept_bind trivial hasked (fun _ _ => Asked.turn hcontract) (fun s₃ _ s₄ _ hasked he _ => ?_)
      fun _ _ _ _ _ _ hread => by cases hread
    obtain rfl : s₄ = _ := he
    have hclosed : Asked {} (Starting localnet) (Inside localnet)
        (s₃.withOwn { s₃.world.own with theirs := false }) := by
      refine ⟨hasked.due.world (fun w hw => ?_) fun _ hgood => hgood, by rw [hasked.own]; rfl⟩
      cases w <;> exact hw
    refine Ends.bind (recvFds_runs hcontract hclosed rfl) (fun fds s₅ hr => ?_) fun _ _ _ => trivial
    obtain ⟨hquiet, -, -, hown, n, sent, hsame, ⟨hentered, hsent⟩, hprefix⟩ := hr
    have hknown : Known (Own.hold {} fds) [] s₅ := ⟨hquiet, hown, hsame.symm.trans hentered, List.nil_subset _⟩
    refine Ends.seq (startRelay_runs (hsent ▸ hprefix) hknown) fun _ s₆ hknown => ?_
    refine Ends.ask trivial fun r s₇ he => ?_
    obtain ⟨s₈, hint, rfl⟩ := he
    cases r with
    | false => trivial
    | true => exact kept (fun _ _ => Known.turn) hknown hint

theorem forward_runs (services : Side → List Listener) (localnet : Bool) (rounds : Nat) :
    Runs (initial services) (forward localnet rounds)
      (Ends.Outcome (fun _ => True) fun ended s => ended = true → s.world.ended = true) := by
  refine Ends.seq (start_runs localnet ⟨rfl, rfl, rfl, rfl⟩) fun _ s hknown => ?_
  have hforwards : Forwards [] (started localnet) := ⟨rfl, rfl, ⟨[], rfl, rfl⟩, rfl⟩
  refine (forwardLoop_runs hknown hforwards rounds).weaken fun r _ hr => ?_
  cases r with
  | error e => trivial
  | ok ended => exact hr

theorem request_sequential (op : Byte) (port : Port) : (request op port).Sequential := by
  refine .bind (.ask _ _) fun written => ?_
  cases written with
  | false => trivial
  | true => exact .bind (Sequential.ask _ _).attempt fun _ => trivial

theorem listenEach_sequential (addrs : List SocketAddr) : (listenEach addrs).Sequential := by
  induction addrs with
  | nil => trivial
  | cons addr rest ih => exact .bind (.ask _ _) fun _ => .bind ih fun _ => trivial

theorem connectFirst_sequential (addrs : List SocketAddr) : (connectFirst addrs).Sequential := by
  induction addrs with
  | nil => trivial
  | cons addr rest ih =>
    refine .bind (.ask _ _) fun fd => ?_
    cases fd with
    | none => exact ih
    | some fd => trivial

theorem closeAll_sequential (fds : List Fd) : (closeAll fds).Sequential := .forM fun _ => .ask _ _

theorem serve_sequential (mirror : Mirror) : (serve mirror).Sequential := by
  have hfar : (farHalf mirror).Sequential := by
    unfold farHalf
    split
    · exact .bind (request_sequential _ _) fun _ => .bind (closeAll_sequential _) fun _ => trivial
    · exact connectFirst_sequential _
  refine .bind (.ask _ _) fun near => ?_
  cases near with
  | none => trivial
  | some near =>
    refine .bind hfar fun far => ?_
    cases far <;> exact .ask _ _

theorem mirrorEach_sequential {make : Port → BridgeAct (List Fd)} (hmake : ∀ port, (make port).Sequential)
    (inbound : Bool) (ports : List Port) (mirrors : List Mirror) :
    (mirrorEach make inbound ports mirrors).Sequential := by
  induction ports generalizing mirrors with
  | nil => trivial
  | cons port rest ih => exact .bind (hmake port) fun _ => ih _

theorem rescan_sequential (mirrors : List Mirror) : (rescan mirrors).Sequential := by
  refine .bind (.ask _ _) fun _ => .bind (.ask _ _) fun _ => .bind (closeAll_sequential _) fun _ => ?_
  refine .bind (.ask _ _) fun _ => .bind (mirrorEach_sequential (request_sequential opListen) _ _ _) fun _ => ?_
  exact .bind (.ask _ _) fun _ => mirrorEach_sequential (fun _ => listenEach_sequential _) _ _ _

theorem forwardLoop_sequential (rounds : Nat) (mirrors : List Mirror) :
    (forwardLoop rounds mirrors).Sequential := by
  have hfinish : ∀ mirrors, (finish mirrors).Sequential := fun _ =>
    .bind (closeAll_sequential _) fun _ => .bind (.ask _ _) fun _ => trivial
  induction rounds generalizing mirrors with
  | zero => trivial
  | succ rounds ih =>
    refine .bind (.ask _ _) fun due => .bind ?_ fun mirrors => .bind (.ask _ _) fun polled => ?_
    · cases due with
      | false => trivial
      | true => exact rescan_sequential _
    · cases polled with
      | none => exact hfinish _
      | some answer =>
        obtain ⟨quit, ready⟩ := answer
        cases quit with
        | true => exact hfinish _
        | false =>
          refine .bind (.forM fun pair => ?_) fun _ => ih _
          obtain ⟨mirror, isReady⟩ := pair
          cases isReady with
          | false => trivial
          | true => exact serve_sequential _

theorem forward_sequential (localnet : Bool) (rounds : Nat) : (forward localnet rounds).Sequential := by
  refine .bind (.bind (.ask _ _) fun _ => .bind (.ask _ _) fun _ => .bind (.ask _ _) fun fds => .bind ?_
    fun _ => .ask _ _)
    fun _ => forwardLoop_sequential _ _
  unfold onlyIf
  split
  · cases fds.head? with
    | none => trivial
    | some device => exact .ask _ _
  · trivial

-- ---------------------------------------------------------------------------
-- What holds in every run
-- ---------------------------------------------------------------------------

theorem Before.turns {op : BridgeOp} (h : Before op s) (ht : ReflTransGen Meanwhile s s') : Before op s' := by
  obtain ⟨hown, hentered⟩ := turns_own ht
  cases op with
  | poll listeners =>
    obtain ⟨hmirrors, hheld, hin, hlate⟩ := h
    exact ⟨hown ▸ hmirrors, hown ▸ hheld, hentered hin, hown ▸ hlate⟩
  | send _ => exact kept (fun _ _ => Quiet.turn) h ht
  | receive =>
    obtain ⟨⟨inv, good, hcontract, hdue⟩, htheirs⟩ := h
    exact ⟨⟨inv, good, hcontract, kept (fun _ _ => Due.turn hcontract) hdue ht⟩, hown ▸ htheirs⟩
  | join near far => exact h
  | accept listener => exact turns_pending ht h
  | _ => trivial

theorem before_of_run {op : BridgeOp} {next : op.Res → BridgeAct Bool}
    (h : Interrupted BridgeOp.effect Meanwhile (initial services) (forward localnet rounds) s (.call op next)) :
    Before op s := by
  obtain ⟨t, hrest, hop, -⟩ := Interrupted.ready (forward_runs services localnet rounds) h
  exact (hop op next rfl).turns hrest

/-- Joined connections match, and the shutdown pipe is polled once at most
after it was closed. -/
structure Fair (s : State) : Prop where
  joined : ∀ pair ∈ s.world.own.joined, Joins pair.1 pair.2
  late : s.world.own.late ≤ 1

theorem Fair.of_own (h : Fair s) (hjoined : s'.world.own.joined = s.world.own.joined)
    (hlate : s'.world.own.late = s.world.own.late) : Fair s' :=
  ⟨hjoined ▸ h.joined, hlate ▸ h.late⟩

theorem Gives.fair {r : Option Fd} (h : Fair s) (hgives : Gives s r s' fd possible) : Fair s' := by
  cases r with
  | none => exact (show s' = s from hgives) ▸ h
  | some given =>
    obtain ⟨-, -, rfl⟩ := hgives
    exact h.of_own rfl rfl

theorem Fair.step {op : BridgeOp} {r : op.Res} (h : Fair s) (hpre : Before op s) (he : op.effect s r s') :
    Fair s' := by
  cases op with
  | join near far =>
    rcases he with rfl | rfl
    · refine ⟨fun pair hpair => ?_, h.late⟩
      rcases List.mem_append.mp hpair with hpair | hpair
      · exact h.joined pair hpair
      · rw [List.mem_singleton.mp hpair]
        exact hpre
    · exact h.of_own rfl rfl
  | poll listeners =>
    cases r with
    | none => exact (show s' = s from he) ▸ h
    | some answer =>
      obtain ⟨quit, ready⟩ := answer
      obtain ⟨-, -, -, rfl⟩ := he
      refine ⟨h.joined, ?_⟩
      have hlate := hpre.late
      cases quit <;> simp [State.withOwn, Own.poll, hlate]
  | spawn _ | startRelay _ =>
    cases r with
    | false => exact he ▸ h.of_own rfl rfl
    | true => exact he ▸ h.of_own rfl rfl
  | send _ =>
    cases r with
    | false => exact he ▸ h
    | true => exact he.2 ▸ h.of_own rfl rfl
  | receive =>
    cases r with
    | none => exact he.2.2.2 ▸ h
    | some fds =>
      obtain ⟨_, _, -, -, rfl⟩ := he
      exact h.of_own rfl rfl
  | listen _ | connect _ => exact Gives.fair h he
  | accept listener =>
    cases listener with
    | listening _ _ =>
      obtain ⟨-, hgives | ⟨-, rfl⟩⟩ := he
      · exact Gives.fair (h.of_own rfl rfl : Fair (s.take _)) hgives
      · exact h
    | _ => exact he.2 ▸ h
  | scan _ =>
    obtain ⟨_, -, rfl⟩ := he
    exact h.of_own rfl rfl
  | iterate _ => exact he.2 ▸ h
  | closeSources | pipe | due | close _ | hangUp =>
    obtain rfl : s' = _ := he
    exact h.of_own rfl rfl

theorem fair_of_run (h : Interrupted BridgeOp.effect Meanwhile (initial services) (forward localnet rounds) s q) :
    Fair s := by
  obtain ⟨t, hsteps, hrest⟩ := h.delayed
  have hfair : Fair t := by
    refine Alone.invariant (forward_runs services localnet rounds) (forward_sequential localnet rounds).attempt
      ⟨by simp [initial], by simp [initial]⟩ (fun op r s s' hfair hpre he => ?_) hsteps.attempt
    obtain ⟨s₁, hint, he⟩ := he
    have hown := (turns_own hint).1
    exact (hfair.of_own (by rw [hown]) (by rw [hown])).step (hpre.turns hint) he
  have hown := (turns_own hrest).1
  exact hfair.of_own (by rw [hown]) (by rw [hown])

-- ---------------------------------------------------------------------------
-- Nobody waits for ever
-- ---------------------------------------------------------------------------

/-- What need not be waited for. To poll is to wait until the time is up at
the longest. -/
theorem enabled (op : BridgeOp) (s : State) (hreceive : op ≠ .receive)
    (haccept : ∀ listener, op ≠ .accept listener) :
    ∃ r s', op.effect s r s' := by
  cases op with
  | receive => exact absurd rfl hreceive
  | accept listener => exact absurd rfl (haccept listener)
  | spawn _ | startRelay _ | send _ => exact ⟨false, _, rfl⟩
  | scan _ => exact ⟨_, _, fun _ => true, rfl, rfl⟩
  | iterate ports => exact ⟨ports, _, .refl _, rfl⟩
  | listen _ | connect _ => exact ⟨none, _, rfl⟩
  | poll listeners =>
    refine ⟨some (s.world.main.quitClosed, listeners.map fun _ => false), _, rfl,
      by simp, fun pair hpair hready => ?_, rfl⟩
    have hmem : pair.2 ∈ listeners.map fun _ => false := (List.of_mem_zip hpair).2
    obtain ⟨_, -, hfalse⟩ := List.mem_map.mp hmem
    cases hfalse.trans hready
  | join _ _ => exact ⟨(), _, .inr rfl⟩
  | pipe | due => exact ⟨true, _, rfl⟩
  | closeSources | close _ | hangUp => exact ⟨(), _, rfl⟩

/-- A connection that waits can be accepted. -/
theorem accept_enabled {listener : Fd} (h : listener ∈ s.world.pending) :
    ∃ r s', (BridgeOp.accept listener).effect s r s' := by
  cases listener with
  | listening place addr => exact ⟨some (.accepted place addr), _, h, .inl ⟨rfl, trivial, rfl⟩⟩
  | _ => exact ⟨none, s, rfl, rfl⟩

theorem making_live (n : Net) (w : Making) : (∃ fds, helper.answer w = some fds) ∨ ∃ n' w',
    helper.Move n w n' w' := by
  cases w with
  | made fds => exact .inl ⟨fds, rfl⟩
  | starting localnet => exact .inr ⟨_, _, .enter⟩
  | inside localnet =>
    cases localnet with
    | true => exact .inr ⟨_, _, .createTun⟩
    | false => exact .inr ⟨_, _, .noTun⟩
  | listening todo made =>
    cases todo with
    | nil => exact .inr ⟨_, _, .bound⟩
    | cons addr todo => exact .inr ⟨_, _, .refuse⟩
  | connecting todo =>
    cases todo with
    | nil => exact .inr ⟨_, _, .alone⟩
    | cons addr todo => exact .inr ⟨_, _, .unreachable⟩

theorem receive_enabled (h : Waits s) (hready : s.answers ≠ [] ∨ s.server = .gone) :
    ∃ r s', BridgeOp.receive.effect s r s' := by
  cases hanswers : s.answers with
  | nil => exact ⟨none, s, hanswers, hready.resolve_left (by simp [hanswers]), h.theirs, rfl⟩
  | cons sent rest => exact ⟨some sent, _, sent, rest, hanswers, List.prefix_rfl, rfl⟩

theorem op_progress {op : BridgeOp} (h : Before op s) :
    (∃ r s', op.effect s r s') ∨ s.server ≠ .gone ∧ ∃ s', Acts helper s s' := by
  cases op with
  | receive =>
    obtain ⟨inv, good, -, hdue⟩ := h.due
    rcases hdue.progress fun n w _ => making_live n w with hanswers | hgone | ⟨s', ha⟩
    · exact .inl (receive_enabled h (.inl hanswers))
    · exact .inl (receive_enabled h (.inr hgone))
    · by_cases hgone : s.server = .gone
      · exact .inl (receive_enabled h (.inr hgone))
      · exact .inr ⟨hgone, s', ha⟩
  | accept listener => exact .inl (accept_enabled h)
  | _ => exact .inl (enabled _ s (by simp) (by simp))

/-- How many steps it can still take the helper to get to its answer. -/
def Making.effort : Making → Nat
  | .starting _ => 2
  | .inside _ => 1
  | .listening todo _ | .connecting todo => todo.length + 1
  | .made _ => 0

theorem Making.effort_move (hm : Move n w n' w') : w'.effort < w.effort := by
  cases hm <;> simp [Making.effort]

theorem accept_effort (request : List Byte) : (accept request).effort ≤ 3 := by
  unfold accept
  dsimp only
  split
  · exact Nat.le_refl 3
  · split
    · exact Nat.le_refl 3
    · exact Nat.zero_le 3

/-- The steps the helper has left, at most, until it has nothing to do. -/
def State.effort (s : State) : Nat := Wire.effort Making.effort 3 s

theorem acts_effort (ha : Acts helper s s') : s'.effort < s.effort :=
  Acts.effort accept_effort (fun _ _ _ _ => Making.effort_move) ha

theorem meanwhile_effort (ht : Meanwhile s s') : s'.effort ≤ s.effort :=
  Turn.effort accept_effort (fun _ _ _ _ => Making.effort_move) ht

-- ---------------------------------------------------------------------------
-- An obliging helper
-- ---------------------------------------------------------------------------

def move? (n : Net) : Making → Option (Net × Making)
  | .starting localnet => some ({ n with entered := true }, .inside localnet)
  | .inside true => some (n, .made [.tun])
  | .inside false => some (n, .made [])
  | .listening [] made => some (n, .made made)
  | .listening (addr :: todo) made =>
    if (n.listeners .container made).any (·.takes addr) then some (n, .listening todo made)
    else some (n, .listening todo (made ++ [.listening .container addr]))
  | .connecting [] => some (n, .made [])
  | .connecting (addr :: todo) =>
    if (n.listeners .container []).any (·.takes addr) then some (n, .made [.connected .container addr])
    else some (n, .connecting todo)
  | .made _ => none

theorem move?_sound (h : move? n w = some (n', w')) : Move n w n' w' := by
  cases w with
  | starting localnet =>
    cases h
    exact .enter
  | inside localnet =>
    cases localnet <;> cases h
    · exact .noTun
    · exact .createTun
  | listening todo made =>
    cases todo with
    | nil =>
      cases h
      exact .bound
    | cons addr todo =>
      simp only [move?] at h
      split at h
      next =>
        cases h
        exact .refuse
      next hfree =>
        cases h
        exact .bind (by simpa using hfree)
  | connecting todo =>
    cases todo with
    | nil =>
      cases h
      exact .alone
    | cons addr todo =>
      simp only [move?] at h
      split at h
      next htaken =>
        cases h
        exact .connect htaken
      next =>
        cases h
        exact .unreachable
  | made fds => cases h

def act? (s : State) : Option State :=
  match s.server, s.calls with
  | .idle, bytes :: calls => some { s with calls, server := .busy (accept bytes) }
  | .idle, [] => none
  | .busy (.made fds), _ => some { s with answers := s.answers ++ [fds], server := .resting (.made fds) }
  | .busy w, _ => (move? s.world w).map fun r => { s with world := r.1, server := .busy r.2 }
  | .resting _, _ => some { s with server := .idle }
  | .gone, _ => none

theorem act?_sound (h : act? s = some s') : Acts helper s s' := by
  obtain ⟨world, calls, answers, server⟩ := s
  cases server with
  | idle =>
    cases calls with
    | nil => cases h
    | cons bytes calls =>
      cases h
      exact .take
  | busy w =>
    by_cases hmade : ∃ fds, w = .made fds
    · obtain ⟨fds, rfl⟩ := hmade
      cases h
      exact .reply rfl
    · have hmove : (move? world w).map (fun r => (⟨r.1, calls, answers, .busy r.2⟩ : State)) = some s' := by
        cases w with
        | made fds => exact absurd ⟨fds, rfl⟩ hmade
        | _ => exact h
      obtain ⟨⟨n, w'⟩, hr, rfl⟩ := Option.map_eq_some_iff.mp hmove
      exact .move (move?_sound hr)
  | resting w =>
    cases h
    exact .rest
  | gone => cases h

def settle : Nat → State → State
  | 0, s => s
  | n + 1, s => match act? s with
    | some s' => settle n s'
    | none => s

theorem settle_turns (n : Nat) (s : State) : ReflTransGen Meanwhile s (settle n s) := by
  induction n generalizing s with
  | zero => exact .refl
  | succ n ih =>
    simp only [settle]
    split
    next s' ha => exact (ih s').head (.act (act?_sound ha))
    next => exact .refl

def Fd.isListening : Fd → Bool
  | .listening _ _ => true
  | _ => false

def State.arrive (s : State) (fds : List Fd) : State :=
  { s with world := { s.world with pending := s.world.pending ++ fds } }

theorem arrive_turns {fds : List Fd} (hlistening : ∀ fd ∈ fds, fd.isListening = true) (s : State)
    (hheld : fds ⊆ s.world.own.held) : ReflTransGen Meanwhile s (s.arrive fds) := by
  induction fds generalizing s with
  | nil =>
    rw [State.arrive, List.append_nil]
  | cons fd fds ih =>
    obtain ⟨hfd, hrest⟩ := List.forall_mem_cons.mp hlistening
    have hfirst : Meanwhile s (s.arrive [fd]) := by
      cases fd with
      | listening place addr => exact .drift (.arrive (hheld List.mem_cons_self))
      | _ => cases hfd
    have hmore := ih hrest (s.arrive [fd]) fun other hother => hheld (List.mem_cons_of_mem _ hother)
    simp only [State.arrive, List.append_assoc, List.singleton_append] at hmore hfirst ⊢
    exact .head hfirst hmore

/-- A connection comes to every listener where none waits yet. -/
def visit (s : State) : State :=
  s.arrive (s.world.own.held.filter fun fd => fd.isListening && !s.world.pending.contains fd)

theorem visit_turns (s : State) : ReflTransGen Meanwhile s (visit s) := by
  refine arrive_turns (fun fd hfd => ?_) s (List.filter_subset_self _)
  have hboth := (List.mem_filter.mp hfd).2
  rw [Bool.and_eq_true] at hboth
  exact hboth.1

def give (s : State) (fd : Fd) (possible : Bool) : Option Fd × State :=
  if possible then (some fd, s.withOwn (s.world.own.hold [fd])) else (none, s)

theorem give_gives {possible : Prop} [Decidable possible] (h : give s fd possible = (r, s')) :
    Gives s r s' fd possible := by
  unfold give at h
  split at h
  next hpossible =>
    cases h
    exact ⟨rfl, by simpa using hpossible, rfl⟩
  next =>
    cases h
    rfl

def oblige (s : State) : (op : BridgeOp) → Option (op.Res × State)
  | .spawn localnet =>
    some (true, { s.withOwn { s.world.own with theirs := true } with server := .busy (.starting localnet) })
  | .closeSources => some ((), s.withOwn { s.world.own with theirs := false })
  | .startRelay device =>
    some (true, s.withOwn { s.world.own.drop device with relay := s.world.own.relay ++ [device] })
  | .pipe | .due => some (true, s)
  | .send bytes => if s.server = .gone then some (false, s) else some
      (true, { s with calls := s.calls ++ [bytes] })
  | .receive => match s.answers with
    | sent :: rest => some (some sent, { s.withOwn (s.world.own.hold sent) with answers := rest })
    | [] => if s.server = .gone ∧ s.world.own.theirs = false then some (none, s) else none
  | .scan side =>
    some (listeningPorts (others s side ++ s.world.own.held.filterMap (Fd.listener side)),
      s.withOwn (s.world.own.saw side (others s side)))
  | .iterate ports => some (ports, s)
  | .listen addr => some (give s (.listening .host addr)
      ((s.world.listeners .host []).any (·.takes addr) = false))
  | .connect addr => some (give s (.connected .host addr)
      ((s.world.listeners .host []).any (·.takes addr) = true))
  | .accept (.listening side addr) =>
    if .listening side addr ∈ s.world.pending then some (give (s.take (.listening side addr))
      (.accepted side addr) true)
    else none
  | .accept _ => some (none, s)
  | .join near far => some ((), s.withOwn (((s.world.own.drop near).drop far).join near far))
  | .close fd => some ((), s.close fd)
  | .poll listeners =>
    some (some (s.world.main.quitClosed, listeners.map fun fd => decide (fd ∈ s.world.pending)),
      s.withOwn (s.world.own.poll s.world.main.quitClosed))
  | .hangUp => some ((), { s with world := { s.world with ended := true } })

theorem oblige_sound {op : BridgeOp} {r : op.Res} (h : oblige s op = some (r, s')) : op.effect s r s' := by
  cases op with
  | spawn _ | closeSources | startRelay _ | pipe | due | close _ | hangUp =>
    cases h
    rfl
  | scan _ =>
    cases h
    have hall : ∀ l, shown (fun _ => true) l = l := fun _ => List.filter_eq_self.mpr fun _ _ => rfl
    exact ⟨fun _ => true, by rw [hall], by rw [hall]⟩
  | iterate ports =>
    cases h
    exact ⟨.refl _, rfl⟩
  | join _ _ =>
    cases h
    exact .inl rfl
  | poll listeners =>
    cases h
    refine ⟨rfl, by simp, fun pair hpair hready => ?_, rfl⟩
    have hzip : listeners.zip (listeners.map fun fd => decide (fd ∈ s.world.pending)) =
        listeners.map fun fd => (fd, decide (fd ∈ s.world.pending)) := by
      rw [← List.zip_map', List.map_id']
    rw [hzip] at hpair
    obtain ⟨fd, -, rfl⟩ := List.mem_map.mp hpair
    exact of_decide_eq_true hready
  | send bytes =>
    simp only [oblige] at h
    split at h
    next =>
      cases h
      rfl
    next hthere =>
      cases h
      exact ⟨hthere, rfl⟩
  | receive =>
    simp only [oblige] at h
    split at h
    next sent rest hanswers =>
      cases h
      exact ⟨sent, rest, hanswers, List.prefix_rfl, rfl⟩
    next hanswers =>
      split at h
      next hgone =>
        cases h
        exact ⟨hanswers, hgone.1, hgone.2, rfl⟩
      next => cases h
  | listen addr => exact give_gives (Option.some.inj h)
  | connect addr => exact give_gives (Option.some.inj h)
  | accept listener =>
    cases listener with
    | listening side addr =>
      simp only [oblige] at h
      split at h
      next hpending => exact ⟨hpending, .inl (give_gives (Option.some.inj h))⟩
      next => cases h
    | _ =>
      cases h
      exact ⟨rfl, rfl⟩

/-- Nothing fails without need, the helper is never in a hurry to stop, and to
every listener somebody connects. -/
def obliging : Handler (I := bridgeOps) (interruptible BridgeOp.effect Meanwhile) where
  answer op s := oblige (visit (settle 12 s)) op
  sound h := ⟨_, (settle_turns 12 _).trans (visit_turns _), oblige_sound h⟩

def web : Side → List Listener
  | .host => [{ addr := ⟨Forward.localhostV4, 8080⟩ }]
  | .container => []

def webMirrors : List Fd :=
  [.listening .container ⟨Forward.localhostV4, 8080⟩, .listening .container ⟨Forward.localhostV6, 8080⟩]

-- ---------------------------------------------------------------------------
-- The main results
-- ---------------------------------------------------------------------------

/-- What is polled, and all that is open then, are the mirrors of a run of
rescans that saw the services that the scans have shown. -/
theorem polls_rescans {next : Option (Bool × List Bool) → BridgeAct Bool}
    (h : Interrupted BridgeOp.effect Meanwhile (initial services) (forward localnet rounds) s
      (.call (.poll listeners) next)) :
    ∃ moments, s.world.own.scans = moments.flatMap seen ∧ listeners = (rescans moments []).map socket ∧
      s.world.own.held = listeners := by
  have hpolls : Polls listeners s := before_of_run h
  obtain ⟨moments, hscans, hlisteners⟩ := hpolls.mirrors
  exact ⟨moments, hscans, hlisteners, hpolls.held⟩

theorem polls_rescans_web : ∃ s : State, s.world.own.held = webMirrors ∧ ∃ moments,
    s.world.own.scans = moments.flatMap seen ∧ webMirrors = (rescans moments []).map socket := by
  have hpending : (Prog.run obliging 11 (initial web, forward false 2)).2.pending? =
      some (.poll webMirrors) := by rfl
  obtain ⟨next, hsteps⟩ := run_reaches obliging 11 hpending
  obtain ⟨moments, hscans, hlisteners, hheld⟩ := polls_rescans hsteps.interrupts
  exact ⟨_, hheld, moments, hscans, hlisteners⟩

/-- Connections are joined to connections on the port of the mirror they came
in by, on loopback on the other side. -/
theorem joined_of_run
    (h : Interrupted BridgeOp.effect Meanwhile (initial services) (forward localnet rounds) s q) :
    ∀ pair ∈ s.world.own.joined, Joins pair.1 pair.2 :=
  (fair_of_run h).joined

theorem joined_of_run_web : ∃ s : State, s.world.own.joined ≠ [] ∧ ∀ pair ∈ s.world.own.joined,
    Joins pair.1 pair.2 := by
  have hjoined : (Prog.run obliging 15 (initial web, forward false 2)).1.world.own.joined =
      [(.accepted .container ⟨Forward.localhostV4, 8080⟩, .connected .host ⟨Forward.localhostV4, 8080⟩)] := by rfl
  exact ⟨_, by simp [hjoined], joined_of_run (run_steps obliging 15 (initial web) (forward false 2)).interrupts⟩

/-- Starting ends well only once the helper is in the container's namespaces.
By then nothing is on its way between the two, and the run has kept nothing
but the TUN device, which the relay has. -/
theorem start_inside (h : Interrupted BridgeOp.effect Meanwhile (initial services) (start localnet) s (.ret ())) :
    s.world.entered = true ∧ s.world.own = { relay := if localnet then [.tun] else [] } ∧ Quiet s := by
  obtain ⟨t, hrest, -, hvalue, -⟩ := Interrupted.ready (start_runs localnet ⟨rfl, rfl, rfl, rfl⟩) h
  have hknown : Known (started localnet) [] s := kept (fun _ _ => Known.turn) (hvalue () rfl) hrest
  exact ⟨hknown.entered, hknown.own, hknown.quiet⟩

theorem start_inside_localnet : ∃ s : State, s.world.entered = true ∧ s.world.own = { relay := [.tun] } ∧
    Quiet s := by
  have hvalue : (Prog.run obliging 5 (initial web, start true)).2.value? = some () := by rfl
  exact ⟨_, start_inside (run_value obliging 5 hvalue).interrupts⟩

theorem turn_ended (h : s.world.ended = true) (ht : Meanwhile s s') : s'.world.ended = true := by
  refine turn_kept (J := fun n => n.ended = true) (fun n w n' w' h hm => ?_) (fun n n' h hd => ?_) h ht
  · cases hm <;> exact h
  · cases hd <;> exact h

/-- Nobody waits for ever: as long as the forwarder goes on, it can do its
next step, or the helper, which is there, can do one of its own, of which it
has only so many left. What it sends finds nothing under way. Once the shutdown
pipe is closed, the thread polls once more at most, and once it has returned,
its end can be waited for. -/
theorem never_stuck (h : Interrupted BridgeOp.effect Meanwhile (initial services) (forward localnet rounds) s q) :
    s.world.own.late ≤ 1 ∧
      ((∃ s' q', Step BridgeOp.effect s q s' q') ∨ (s.server ≠ .gone ∧ ∃ s', Acts helper s s') ∨
        (∃ e, q = .throw e) ∨ q = .ret false ∨ q = .ret true ∧ s.world.ended = true) ∧
      (∀ bytes next, q = .call (.send bytes) next → Quiet s) ∧
      (∀ s' : State, Acts helper s s' → s'.effort < s.effort) ∧
      ∀ s' : State, Meanwhile s s' → s'.effort ≤ s.effort := by
  have hsend : ∀ bytes next, q = .call (.send bytes) next → Quiet s := by
    rintro bytes next rfl
    have hbefore : Before (.send bytes) s := before_of_run h
    exact hbefore
  refine ⟨(fair_of_run h).late, ?_, hsend, fun _ => acts_effort, fun _ => meanwhile_effort⟩
  have hseq := h.sequential (forward_sequential localnet rounds)
  cases q with
  | call op next =>
    rcases op_progress (before_of_run h) with ⟨r, s', he⟩ | hacts
    · exact .inl ⟨s', next r, .call he⟩
    · exact .inr (.inl hacts)
  | fork limit count tasks next => exact hseq.elim
  | throw e => exact .inr (.inr (.inl ⟨e, rfl⟩))
  | ret ended =>
    cases ended with
    | false => exact .inr (.inr (.inr (.inl rfl)))
    | true =>
      obtain ⟨t, hrest, -, hvalue, -⟩ := Interrupted.ready (forward_runs services localnet rounds) h
      have hended : s.world.ended = true := kept (J := fun s => s.world.ended = true)
        (fun _ _ => turn_ended) (hvalue true rfl rfl) hrest
      exact .inr (.inr (.inr (.inr ⟨rfl, hended⟩)))

theorem never_stuck_web : ∃ (s : State) (q : BridgeAct Bool), s.world.own.late ≤ 1 ∧
    ((∃ s' q', Step (I := bridgeOps) BridgeOp.effect s q s' q') ∨ (s.server ≠ .gone ∧ ∃ s', Acts helper s s') ∨
      (∃ e, q = .throw e) ∨ q = .ret false ∨ q = .ret true ∧ s.world.ended = true) ∧
    (∀ bytes next, q = .call (I := bridgeOps) (.send bytes) next → Quiet s) ∧
    (∀ s' : State, Acts helper s s' → s'.effort < s.effort) ∧
    ∀ s' : State, Meanwhile s s' → s'.effort ≤ s.effort :=
  ⟨_, _, never_stuck (run_steps obliging 9 (initial web) (forward false 2)).interrupts⟩

end Climate.Forwarder
