import Climate.Runtime.Relay

/-!
# Passing signals on

What the relay promises for the signals that arrive while a container is being
made, runs and has ended.
-/

namespace Climate.Runtime

open UnixPath Prog

variable {s : Signals} {trace : List Event}

-- ---------------------------------------------------------------------------
-- Traces
-- ---------------------------------------------------------------------------

def Event.sent : Event → Option (Int × Int)
  | .handled _ sent => sent
  | .delivered pid signal => some (pid, signal)
  | _ => none

def Event.isReaped : Event → Bool
  | .reaped _ => true
  | _ => false

def Event.isOver : Event → Bool
  | .reaped _ | .cleared => true
  | _ => false

def sends (trace : List Event) : List (Int × Int) := trace.filterMap Event.sent

def gentle (trace : List Event) : List (Int × Int) := (sends trace).filter fun x => x.2 ≠ sigKill

/-- A signal arrived before the first event of a kind. -/
def ArrivedBefore (stop : Event → Bool) (trace : List Event) : Prop :=
  ∃ before signum sent after, trace = before ++ .handled signum sent :: after ∧ ∀ e ∈ before, stop e = false

def SentToStored (trace : List Event) : Prop :=
  ∃ pid signal, .stored pid ∈ trace ∧ (pid, signal) ∈ sends trace

theorem sends_snoc (trace : List Event) (e : Event) : sends (trace ++ [e]) = sends trace ++ e.sent.toList := by
  cases h : e.sent <;> simp [sends, h]

theorem gentle_snoc (trace : List Event) (e : Event) :
    gentle (trace ++ [e]) = gentle trace ++ e.sent.toList.filter fun x => x.2 ≠ sigKill := by
  simp [gentle, sends_snoc]

theorem gentle_of_sends (h : sends trace = []) : gentle trace = [] := by
  simp [gentle, h]

theorem split_snoc {l before after : List α} (h : l ++ [e] = before ++ x :: after) :
    (before = l ∧ x = e) ∨ ∃ rest, l = before ++ x :: rest := by
  rcases List.eq_nil_or_concat after with rfl | ⟨rest, y, rfl⟩
  · obtain ⟨rfl, heq⟩ := List.append_inj' h rfl
    exact .inl ⟨rfl, (List.singleton_inj.mp heq).symm⟩
  · rw [List.concat_eq_append, ← List.cons_append, ← List.append_assoc] at h
    exact .inr ⟨rest, (List.append_inj' h rfl).1⟩

theorem arrivedBefore_snoc {stop : Event → Bool} {e : Event} (h : ArrivedBefore stop (trace ++ [e])) :
    ArrivedBefore stop trace ∨ (∃ signum sent, e = .handled signum sent) ∧ ∀ x ∈ trace, stop x = false := by
  obtain ⟨before, signum, sent, after, heq, hnone⟩ := h
  rcases split_snoc heq with ⟨rfl, rfl⟩ | ⟨rest, rfl⟩
  · exact .inr ⟨⟨signum, sent, rfl⟩, hnone⟩
  · exact .inl ⟨before, signum, sent, rest, rfl, hnone⟩

-- ---------------------------------------------------------------------------
-- No signal is lost
-- ---------------------------------------------------------------------------

/-- Only what `run` installs has a handler, only that is pending, and all that
was sent went to a process that was stored, at most once gently. -/
structure Orderly (s : Signals) : Prop where
  installed : ∀ signum ∈ s.installed, Forwarded signum
  pending : s.pending = 0 ∨ Forwarded s.pending
  stored : ∀ x ∈ sends s.trace, .stored x.1 ∈ s.trace
  once : (gentle s.trace).length ≤ 1

structure Live (pid : Int) (s : Signals) : Prop where
  there : s.containerPid = pid
  ne_zero : pid ≠ 0
  stored : .stored pid ∈ s.trace
  uncleared : .cleared ∉ s.trace

/-- A signal that arrived in time is pending, in the value `pending` of the
main thread too, or has been sent. -/
def Owed (pending : Int) (s : Signals) : Prop :=
  ArrivedBefore Event.isOver s.trace → pending ≠ 0 ∨ sends s.trace ≠ []

/-- What the relay owes the signals at each of its points. -/
def Duty : Point → Signals → Prop
  | .before, s => s.containerPid = 0 ∧ s.forwarded = false ∧ sends s.trace = [] ∧ Owed s.pending s ∧
    .took ∉ s.trace ∧ .cleared ∉ s.trace
  | .stored pid, s => Live pid s ∧ (s.forwarded = true ↔ sends s.trace ≠ []) ∧ Owed s.pending s
  | .taken pid pending, s =>
    Live pid s ∧ (s.forwarded = true ↔ sends s.trace ≠ []) ∧ Owed pending s ∧ (pending = 0 ∨ Forwarded pending)
  | .swapped pid signal, s => Live pid s ∧ s.forwarded = true ∧ gentle s.trace = [] ∧ Forwarded signal
  | .running pid, s => Live pid s ∧ (s.forwarded = false → sends s.trace = []) ∧ Owed 0 s
  | .done, s => s.containerPid = 0 ∧ .cleared ∈ s.trace ∧ Owed 0 s

theorem Orderly.idle (h : Orderly s) (hsignum : Forwarded signum) :
    Orderly ({ s with pending := signum }.note (.handled signum none)) := by
  refine ⟨h.installed, .inr hsignum, ?_, ?_⟩
  · intro x hx
    rw [Signals.note, sends_snoc] at hx
    exact List.mem_append_left _ (h.stored x (by simpa [Event.sent] using hx))
  · rw [Signals.note, gentle_snoc]
    simpa [Event.sent] using h.once

theorem Orderly.sent (h : Orderly s) {e : Event} (hsent : e.sent = some (pid, signal))
    (hpid : .stored pid ∈ s.trace)
    (honce : signal ≠ sigKill → gentle s.trace = []) (forwarded : Bool) :
    Orderly ({ s with forwarded }.note e) := by
  refine ⟨h.installed, h.pending, fun x hx => ?_, ?_⟩
  · rw [Signals.note, sends_snoc, hsent] at hx
    rcases List.mem_append.mp hx with hx | hx
    · exact List.mem_append_left _ (h.stored x hx)
    · obtain rfl : x = (pid, signal) := by simpa using hx
      exact List.mem_append_left _ hpid
  · rw [Signals.note, gentle_snoc, hsent]
    by_cases hkill : signal = sigKill
    · simpa [hkill] using h.once
    · simp [hkill, honce hkill]

theorem Orderly.quiet (h : Orderly s) {e : Event} (hsent : e.sent = none) {s' : Signals}
    (hinstalled : s'.installed = s.installed) (hpending : s'.pending = 0 ∨ s'.pending = s.pending) :
    Orderly { s' with trace := s.trace ++ [e] } := by
  refine ⟨hinstalled ▸ h.installed, ?_, fun x hx => ?_, ?_⟩
  · rcases hpending with hzero | hsame
    · exact .inl hzero
    · exact hsame ▸ h.pending
  · rw [sends_snoc, hsent] at hx
    exact List.mem_append_left _ (h.stored x (by simpa using hx))
  · rw [gentle_snoc, hsent]
    simpa using h.once

theorem Owed.sent (h : sends s.trace ≠ []) : Owed pending s := fun _ => .inr h

theorem Owed.snoc (h : Owed pending s) {e : Event} (he : ∀ signum sent, e ≠ .handled signum sent) {s' : Signals}
    (htrace : s'.trace = s.trace ++ [e]) : Owed pending s' := by
  intro harrived
  rw [htrace] at harrived ⊢
  rcases arrivedBefore_snoc harrived with harrived | ⟨⟨signum, sent, rfl⟩, -⟩
  · refine (h harrived).imp_right fun hne => ?_
    rw [sends_snoc]
    simp [hne]
  · exact (he signum sent rfl).elim

theorem Live.snoc (h : Live pid s) {e : Event} (he : e ≠ .cleared) {s' : Signals}
    (htrace : s'.trace = s.trace ++ [e]) (hpid : s'.containerPid = s.containerPid) : Live pid s' := by
  refine ⟨hpid.trans h.there, h.ne_zero, ?_, ?_⟩
  · rw [htrace]
    exact List.mem_append_left _ h.stored
  · rw [htrace]
    simpa [h.uncleared] using he.symm

theorem sends_quiet {e : Event} (hsent : e.sent = none) {s' : Signals} (htrace : s'.trace = s.trace ++ [e]) :
    sends s'.trace = sends s.trace := by
  rw [htrace, sends_snoc, hsent]
  simp

theorem handle_idle (horderly : Orderly s) (hsignum : Forwarded signum) (hpid : s.containerPid = 0) :
    Orderly (forwardSignal signum s) ∧ sends (forwardSignal signum s).trace = sends s.trace := by
  rw [forwardSignal_idle signum hpid]
  refine ⟨horderly.idle hsignum, ?_⟩
  rw [Signals.note, sends_snoc]
  simp [Event.sent]

theorem handle_live (horderly : Orderly s) (hsignum : Forwarded signum) (hlive : Live pid s)
    (hfirst : s.forwarded = false → gentle s.trace = []) :
    Orderly (forwardSignal signum s) ∧ Live pid (forwardSignal signum s) ∧
    (forwardSignal signum s).forwarded = true ∧
      sends (forwardSignal signum s).trace ≠ [] ∧
      (s.forwarded = true → gentle (forwardSignal signum s).trace = gentle s.trace) := by
  obtain rfl := hlive.there
  rw [forwardSignal_live hsignum hlive.ne_zero]
  refine ⟨horderly.sent rfl hlive.stored (fun hne => hfirst ?_) true, hlive.snoc (by simp) rfl rfl, rfl, ?_, ?_⟩
  · cases hf : s.forwarded with
    | false => rfl
    | true => simp [hf] at hne
  · rw [Signals.note, sends_snoc]
    simp [Event.sent]
  · intro hf
    rw [Signals.note, gentle_snoc]
    simp [Event.sent, hf]

structure Relayed (p : Point) (s : Signals) : Prop where
  orderly : Orderly s
  duty : Duty p s

theorem Relayed.handle (h : Relayed p s) (hmem : signum ∈ s.installed) : Relayed p (forwardSignal signum s) := by
  obtain ⟨horderly, hduty⟩ := h
  have hsignum := horderly.installed signum hmem
  cases p with
  | before =>
    obtain ⟨hpid, hforwarded, hnone, howed, htook, hcleared⟩ := hduty
    obtain ⟨horderly', hsends⟩ := handle_idle horderly hsignum hpid
    refine ⟨horderly', ?_⟩
    rw [forwardSignal_idle signum hpid] at hsends ⊢
    exact ⟨hpid, hforwarded, hsends.trans hnone, fun _ => .inl hsignum.ne_zero,
      by simpa [Signals.note] using htook, by simpa [Signals.note] using hcleared⟩
  | stored pid =>
    obtain ⟨hlive, hiff, howed⟩ := hduty
    obtain ⟨horderly', hlive', hforwarded, hne, -⟩ := handle_live horderly hsignum hlive fun hf =>
      gentle_of_sends (not_not.mp fun hne => by simpa [hf] using hiff.mpr hne)
    exact ⟨horderly', hlive', iff_of_true hforwarded hne, .sent hne⟩
  | taken pid pending =>
    obtain ⟨hlive, hiff, howed, hpending⟩ := hduty
    obtain ⟨horderly', hlive', hforwarded, hne, -⟩ := handle_live horderly hsignum hlive fun hf =>
      gentle_of_sends (not_not.mp fun hne => by simpa [hf] using hiff.mpr hne)
    exact ⟨horderly', hlive', iff_of_true hforwarded hne, .sent hne, hpending⟩
  | swapped pid signal =>
    obtain ⟨hlive, hforwarded, hgentle, hsignal⟩ := hduty
    obtain ⟨horderly', hlive', hforwarded', -, hsame⟩ := handle_live horderly hsignum hlive fun _ => hgentle
    exact ⟨horderly', hlive', hforwarded', (hsame hforwarded).trans hgentle, hsignal⟩
  | running pid =>
    obtain ⟨hlive, hfirst, howed⟩ := hduty
    obtain ⟨horderly', hlive', hforwarded, hne, -⟩ := handle_live horderly hsignum hlive fun hf =>
      gentle_of_sends (hfirst hf)
    exact ⟨horderly', hlive', fun hf => by simp [hforwarded] at hf, .sent hne⟩
  | done =>
    obtain ⟨hpid, hcleared, howed⟩ := hduty
    obtain ⟨horderly', hsends⟩ := handle_idle horderly hsignum hpid
    refine ⟨horderly', ?_⟩
    rw [forwardSignal_idle signum hpid] at hsends ⊢
    refine ⟨hpid, List.mem_append_left _ hcleared, fun harrived => ?_⟩
    rcases arrivedBefore_snoc harrived with harrived | ⟨-, hnone⟩
    · rw [hsends]
      exact howed harrived
    · have hover := hnone _ hcleared
      cases hover

theorem Relayed.step (h : Relayed p s) (hstep : Relay (p, s) (p', s')) : Relayed p' s' := by
  cases hstep with
  | handle hmem => exact h.handle hmem
  | install hsignum =>
    refine ⟨⟨fun signum hmem => ?_, h.orderly.pending, h.orderly.stored, h.orderly.once⟩, h.duty⟩
    rcases List.mem_cons.mp hmem with rfl | hmem
    · exact hsignum
    · exact h.orderly.installed signum hmem
  | store hpid =>
    obtain ⟨horderly, -, hforwarded, hnone, howed, -, hcleared⟩ := h
    refine ⟨horderly.quiet rfl rfl (.inr rfl),
      ⟨rfl, hpid, by simp [Signals.note], ?_⟩, ?_, howed.snoc (by simp) rfl⟩
    · simpa [Signals.note] using hcleared
    · rw [sends_quiet rfl rfl]
      simp [Signals.note, hforwarded, hnone]
  | take =>
    obtain ⟨horderly, hlive, hiff, howed⟩ := h
    refine ⟨horderly.quiet rfl rfl (.inl rfl), hlive.snoc (by simp) rfl rfl, ?_, howed.snoc (by simp) rfl,
      horderly.pending⟩
    rw [sends_quiet rfl rfl]
    exact hiff
  | pass hnone =>
    obtain ⟨horderly, hlive, hiff, howed, hpending⟩ := h
    rcases hpending with rfl | hsignum
    · exact ⟨horderly, hlive, fun hf => not_not.mp fun hne => by simp [hiff.mpr hne] at hf, howed⟩
    · cases hnone.symm.trans hsignum.named
  | drop hsome hforwarded =>
    obtain ⟨horderly, hlive, hiff, -, -⟩ := h
    refine ⟨horderly.quiet rfl rfl (.inr rfl), hlive.snoc (by simp) rfl rfl, nofun, .sent ?_⟩
    rw [sends_quiet rfl rfl]
    exact hiff.mp hforwarded
  | swap hsome hforwarded =>
    obtain ⟨horderly, hlive, hiff, -, hpending⟩ := h
    rcases hpending with rfl | hsignum
    · cases hsome
    · obtain rfl : _ = _ := Option.some.inj (hsome.symm.trans hsignum.named)
      refine ⟨horderly.quiet rfl rfl (.inr rfl), hlive.snoc (by simp) rfl rfl, rfl, gentle_of_sends ?_, hsignum⟩
      rw [sends_quiet rfl rfl]
      exact not_not.mp fun hne => by simpa [hforwarded] using hiff.mpr hne
  | kill =>
    obtain ⟨horderly, hlive, hforwarded, hgentle, hsignal⟩ := h
    refine ⟨horderly.sent rfl hlive.stored (fun _ => hgentle) _, hlive.snoc (by simp) rfl rfl, ?_, .sent ?_⟩
    · intro hf
      cases hforwarded.symm.trans hf
    · rw [Signals.note, sends_snoc]
      simp [Event.sent]
  | reap =>
    obtain ⟨horderly, hlive, hfirst, howed⟩ := h
    refine ⟨horderly.quiet rfl rfl (.inr rfl), hlive.snoc (by simp) rfl rfl, fun hf => ?_,
      howed.snoc (by simp) rfl⟩
    rw [sends_quiet rfl rfl]
    exact hfirst hf
  | clear =>
    obtain ⟨horderly, hlive, hfirst, howed⟩ := h
    exact ⟨horderly.quiet rfl rfl (.inr rfl), rfl, by simp [Signals.note], howed.snoc (by simp) rfl⟩

structure Vacant (s : Signals) : Prop where
  containerPid : s.containerPid = 0
  trace : s.trace = []
  installed : ∀ signum ∈ s.installed, Forwarded signum

structure Unsignalled (s : Signals) : Prop extends Vacant s where
  pending : s.pending = 0
  forwarded : s.forwarded = false

theorem Unsignalled.relayed (h : Unsignalled s) : Relayed .before s := by
  have hnone : ¬ ArrivedBefore Event.isOver s.trace := by
    rintro ⟨before, signum, sent, after, heq, -⟩
    simp [h.trace] at heq
  refine ⟨⟨h.installed, .inl h.pending, ?_, ?_⟩, h.containerPid, h.forwarded, ?_,
    fun harrived => (hnone harrived).elim, ?_⟩ <;>
    simp [h.trace, sends, gentle]

structure Checked (m : Machine) (q : RunAct α) : Prop where
  took : .took ∈ m.signals.trace
  rest : q.Only fun op : RunOp => op.delivers = false

theorem Point.At.not_only {p : Point} {q : RunAct α} (h : p.At q) (hp : p ≠ .before ∧ p ≠ .done)
    (hop : ∀ op, p.Admits op → op.delivers = true) (hseq : q.Sequential) :
    ¬ q.Only fun op : RunOp => op.delivers = false := by
  intro honly
  cases q with
  | ret a => exact (h.ended rfl).elim hp.1 hp.2
  | throw e => exact (h.ended rfl).elim hp.1 hp.2
  | call op next => cases (hop op (h.op op next rfl)).symm.trans honly.1
  | fork limit count tasks next => exact hseq

/-- What arrived in time has been sent once the main thread has checked. -/
theorem Relayed.sent (h : Relayed p m.signals) (hat : p.At q) (hseq : q.Sequential) (hchecked : Checked m q)
    (harrived : ArrivedBefore Event.isOver m.signals.trace) : SentToStored m.signals.trace := by
  have hne : sends m.signals.trace ≠ [] := by
    obtain ⟨horderly, hduty⟩ := h
    cases p with
    | before => exact (hduty.2.2.2.2.1 hchecked.took).elim
    | stored pid =>
      exact (hat.not_only (by simp) (fun op hop => by obtain rfl := hop; rfl) hseq hchecked.rest).elim
    | taken pid pending =>
      exact (hat.not_only (by simp) (fun op hop => by obtain rfl := hop; rfl) hseq hchecked.rest).elim
    | swapped pid signal =>
      exact (hat.not_only (by simp) (fun op hop => by obtain rfl := hop; rfl) hseq hchecked.rest).elim
    | running pid => exact (hduty.2.2 harrived).resolve_left fun hne => hne rfl
    | done => exact (hduty.2.2 harrived).resolve_left fun hne => hne rfl
  obtain ⟨⟨pid, signal⟩, hmem⟩ := List.exists_mem_of_ne_nil _ hne
  exact ⟨pid, signal, h.orderly.stored _ hmem, hmem⟩

theorem Relayed.kills (h : Relayed p m.signals) (hforwarded : m.signals.forwarded = true)
    (hcleared : .cleared ∉ m.signals.trace) (hh : Handled m m') :
    ∃ signum pid, .stored pid ∈ m.signals.trace ∧
      m'.signals.trace = m.signals.trace ++ [.handled signum (some (pid, sigKill))] := by
  obtain ⟨signum, hmem, rfl⟩ := hh
  have hlive : ∃ pid, Live pid m.signals := by
    have hduty := h.duty
    cases p with
    | before => cases hforwarded.symm.trans hduty.2.1
    | stored pid => exact ⟨pid, hduty.1⟩
    | taken pid pending => exact ⟨pid, hduty.1⟩
    | swapped pid signal => exact ⟨pid, hduty.1⟩
    | running pid => exact ⟨pid, hduty.1⟩
    | done => exact (hcleared hduty.2.1).elim
  obtain ⟨pid, hlive⟩ := hlive
  obtain rfl := hlive.there
  refine ⟨signum, m.signals.containerPid, hlive.stored, ?_⟩
  have hsignum := h.orderly.installed signum hmem
  rw [forwardSignal_live hsignum hlive.ne_zero, hforwarded]
  rfl

/-- A signal that arrives before the container is reaped, and before its pid is
cleared, is not lost; one at most is no SIGKILL; and every signal after the
first is one. -/
theorem signals_relayed (hm : Unsignalled m.signals)
    (hs : Interrupted RunOp.effect Handled m (run base config tty network) m' q) :
    (Checked m' q → ArrivedBefore Event.isOver m'.signals.trace → SentToStored m'.signals.trace) ∧
      (gentle m'.signals.trace).length ≤ 1 ∧
      (m'.signals.forwarded = true → .cleared ∉ m'.signals.trace → ∀ m'', Handled m' m'' →
        ∃ signum pid, .stored pid ∈ m'.signals.trace ∧
          m''.signals.trace = m'.signals.trace ++ [.handled signum (some (pid, sigKill))]) := by
  obtain ⟨p, hreached, hat⟩ := run_refines hs
  have hseq := hs.sequential (run_sequential base config tty network)
  have hrelayed : Relayed p m'.signals :=
    Relay.invariant (fun _ _ _ _ => Relayed.step) hm.relayed hreached
  exact ⟨hrelayed.sent hat hseq, hrelayed.orderly.once, fun hforwarded hcleared _ =>
    hrelayed.kills hforwarded hcleared⟩

namespace Workshop

abbrev Session := Machine × RunAct Int

def go (refused : List RunOp) (n : Nat) (c : Session) : Session := Prog.run (worker refused) n c

def arrive (signum : Int) (c : Session) : Session :=
  ({ c.1 with signals := forwardSignal signum c.1.signals }, c.2)

def running : RunAct Int := run ["run"] "\x7b\x7d" false .none

def Happens (m : Machine) (c : Session) : Prop := Interrupted RunOp.effect Handled m running c.1 c.2

theorem Happens.start : Happens {} ({}, running) := .refl

theorem Happens.go (h : Happens m c) (refused : List RunOp) (n : Nat) : Happens m (go refused n c) :=
  h.trans (run_steps (worker refused) n c.1 c.2).interrupted

theorem Happens.arrive (h : Happens m c) (hmem : signum ∈ c.1.signals.installed) : Happens m (arrive signum c) :=
  h.interrupt ⟨signum, hmem, rfl⟩

def pendingTerm : Session := go [] 20 (arrive sigTerm (go [] 10 ({}, running)))

theorem pendingTerm_happens : Happens {} pendingTerm :=
  (Happens.start.go [] 10 |>.arrive (by decide)).go [] 20

theorem pendingTerm_sent : SentToStored pendingTerm.1.signals.trace := by
  have hended : pendingTerm.2.value? = some 0 := by rfl
  have htrace : pendingTerm.1.signals.trace = .handled sigTerm none :: pendingTerm.1.signals.trace.tail := by
    rfl
  have hm : Unsignalled (({} : Machine).signals) := ⟨⟨rfl, rfl, by simp⟩, rfl, rfl⟩
  refine (signals_relayed hm pendingTerm_happens).1 ⟨by decide, ?_⟩ ⟨[], sigTerm, none, _, htrace, by simp⟩
  rw [value?_eq_some hended]
  trivial

/-- A SIGTERM arrives between the clearing of the pid of a container that could
not be started and its deletion. -/
def lostTerm : Session := go [.startContainer] 20 (arrive sigTerm (go [.startContainer] 16 ({}, running)))

theorem lostTerm_not_sent :
    Unsignalled (({} : Machine).signals) ∧ Happens {} lostTerm ∧ Checked lostTerm.1 lostTerm.2 ∧
      ArrivedBefore Event.isReaped lostTerm.1.signals.trace ∧ ¬ SentToStored lostTerm.1.signals.trace := by
  have hended : lostTerm.2.failure = some "starting the container" := by rfl
  have htrace : lostTerm.1.signals.trace = [.stored 100, .took, .cleared] ++ .handled sigTerm none :: [] := by
    rfl
  refine ⟨⟨⟨rfl, rfl, by simp⟩, rfl, rfl⟩, ?_, ⟨by rw [htrace]; decide, ?_⟩, ⟨_, _, _, _, htrace, by decide⟩, ?_⟩
  · exact (Happens.start.go [.startContainer] 16 |>.arrive (by decide)).go [.startContainer] 20
  · rw [failure_eq_some hended]
    trivial
  · rintro ⟨pid, signal, -, hmem⟩
    rw [htrace] at hmem
    simp [sends, Event.sent] at hmem

end Workshop

-- ---------------------------------------------------------------------------
-- No signal to a pid that is free again
-- ---------------------------------------------------------------------------

/-- The handler sends nothing to a process that `wait` has reaped. -/
def Spared (trace : List Event) : Prop :=
  ∀ before signum pid signal after, trace = before ++ .handled signum (some (pid, signal)) :: after →
    .reaped pid ∉ before

/-- No signal arrives between the reaping and the clearing of the pid. -/
def Undisturbed (trace : List Event) : Prop :=
  ∀ before signum sent after, trace = before ++ .handled signum sent :: after →
    ∀ pid, .reaped pid ∈ before → .cleared ∈ before

/-- A handler sends to the process that was reaped until the pid is cleared,
and then to none. -/
def Marked (trace : List Event) : Prop :=
  ∀ before signum sent after, trace = before ++ .handled signum sent :: after →
    (.cleared ∈ before → sent = none) ∧
      ∀ pid, .reaped pid ∈ before → .cleared ∉ before → ∃ signal, sent = some (pid, signal)

theorem Marked.spared_iff (h : Marked trace) : Spared trace ↔ Undisturbed trace := by
  constructor
  · intro hspared before signum sent after heq pid hreaped
    by_contra hcleared
    obtain ⟨signal, rfl⟩ := (h before signum sent after heq).2 pid hreaped hcleared
    exact hspared before signum pid signal after heq hreaped
  · intro hquiet before signum pid signal after heq hreaped
    cases (h before signum _ after heq).1 (hquiet before signum _ after heq pid hreaped)

theorem Marked.snoc (h : Marked trace) (he : ∀ signum sent, e = .handled signum sent →
    (.cleared ∈ trace → sent = none) ∧
      ∀ pid, .reaped pid ∈ trace → .cleared ∉ trace → ∃ signal, sent = some (pid, signal)) :
    Marked (trace ++ [e]) := by
  intro before signum sent after heq
  rcases split_snoc heq with ⟨rfl, rfl⟩ | ⟨rest, rfl⟩
  · exact he signum sent rfl
  · exact h before signum sent rest rfl

/-- The pid that is there while the main thread is at a point, and whether it
has been reaped or cleared. -/
def Clocked : Point → Signals → Prop
  | .before, s => s.containerPid = 0 ∧ (∀ pid, .reaped pid ∉ s.trace) ∧ .cleared ∉ s.trace
  | .stored pid, s | .taken pid _, s | .swapped pid _, s =>
    (s.containerPid = pid ∧ pid ≠ 0) ∧ (∀ pid, .reaped pid ∉ s.trace) ∧ .cleared ∉ s.trace
  | .running pid, s =>
    (s.containerPid = pid ∧ pid ≠ 0) ∧ (∀ other, .reaped other ∈ s.trace → other = pid) ∧ .cleared ∉ s.trace
  | .done, s => s.containerPid = 0 ∧ .cleared ∈ s.trace

structure Timed (p : Point) (s : Signals) : Prop where
  installed : ∀ signum ∈ s.installed, Forwarded signum
  marked : Marked s.trace
  clocked : Clocked p s

theorem Vacant.timed (h : Vacant s) : Timed .before s := by
  refine ⟨h.installed, fun before signum sent after heq => ?_, h.containerPid, ?_, ?_⟩
  · simp [h.trace] at heq
  · simp [h.trace]
  · simp [h.trace]

theorem forwardSignal_trace (s : Signals) (hsignum : Forwarded signum) :
    ∃ sent, (forwardSignal signum s).trace = s.trace ++ [.handled signum sent] ∧
      (s.containerPid = 0 → sent = none) ∧ (s.containerPid ≠ 0 → ∃ signal,
        sent = some (s.containerPid, signal)) := by
  by_cases hpid : s.containerPid = 0
  · rw [forwardSignal_idle signum hpid]
    exact ⟨none, rfl, fun _ => rfl, fun hne => (hne hpid).elim⟩
  · rw [forwardSignal_live hsignum hpid]
    exact ⟨_, rfl, fun h => (hpid h).elim, fun _ => ⟨_, rfl⟩⟩

@[simp] theorem forwardSignal_pid (signum : Int) (s : Signals) :
    (forwardSignal signum s).containerPid = s.containerPid := by
  unfold forwardSignal
  split <;> rfl

@[simp] theorem forwardSignal_installed (signum : Int) (s : Signals) :
    (forwardSignal signum s).installed = s.installed := by
  unfold forwardSignal
  split <;> rfl

theorem Clocked.snoc (h : Clocked p s) {e : Event} (he : e.isOver = false) {s' : Signals}
    (htrace : s'.trace = s.trace ++ [e]) (hpid : s'.containerPid = s.containerPid) : Clocked p s' := by
  have hreaped : ∀ pid, .reaped pid ∈ s'.trace ↔ .reaped pid ∈ s.trace := by
    intro pid
    have hne : Event.reaped pid ≠ e := by rintro rfl; cases he
    simp [htrace, hne]
  have hcleared : .cleared ∈ s'.trace ↔ .cleared ∈ s.trace := by
    have hne : Event.cleared ≠ e := by rintro rfl; cases he
    simp [htrace, hne]
  cases p <;> simp only [Clocked, hreaped, hcleared, hpid] <;> exact h

theorem Clocked.vacant (h : Clocked p s) (hcleared : .cleared ∈ s.trace) : s.containerPid = 0 := by
  cases p with
  | before => exact h.1
  | done => exact h.1
  | _ => exact (h.2.2 hcleared).elim

theorem Clocked.occupied (h : Clocked p s) (hreaped : .reaped pid ∈ s.trace) (hcleared : .cleared ∉ s.trace) :
    s.containerPid = pid ∧ pid ≠ 0 := by
  cases p with
  | running other =>
    obtain rfl := h.2.1 pid hreaped
    exact h.1
  | done => exact (hcleared h.2).elim
  | _ => exact (h.2.1 pid hreaped).elim

theorem Timed.handle (h : Timed p s) (hmem : signum ∈ s.installed) : Timed p (forwardSignal signum s) := by
  obtain ⟨sent, htrace, hnone, hsome⟩ := forwardSignal_trace s (h.installed signum hmem)
  refine ⟨by simpa using h.installed, ?_, h.clocked.snoc rfl htrace (forwardSignal_pid signum s)⟩
  rw [htrace]
  refine h.marked.snoc fun _ _ heq => ?_
  cases heq
  refine ⟨fun hcleared => hnone (h.clocked.vacant hcleared), fun pid hreaped hcleared => ?_⟩
  obtain ⟨rfl, hne⟩ := h.clocked.occupied hreaped hcleared
  exact hsome hne

theorem Timed.step (h : Timed p s) (hstep : Relay (p, s) (p', s')) : Timed p' s' := by
  have hmarked : ∀ e : Event, (∀ signum sent, e ≠ .handled signum sent) → Marked (s.trace ++ [e]) := fun e he =>
    h.marked.snoc fun signum sent heq => (he signum sent heq).elim
  obtain ⟨hinstalled, hm, hclocked⟩ := h
  cases hstep with
  | handle hmem => exact Timed.handle ⟨hinstalled, hm, hclocked⟩ hmem
  | install hsignum =>
    refine ⟨fun signum hmem => ?_, hm, hclocked⟩
    rcases List.mem_cons.mp hmem with rfl | hmem
    · exact hsignum
    · exact hinstalled signum hmem
  | store hpid =>
    obtain ⟨-, hreaped, hcleared⟩ := hclocked
    refine ⟨hinstalled, hmarked _ (by simp), ⟨rfl, hpid⟩, ?_, ?_⟩ <;> simpa [Signals.note]
  | take => exact ⟨hinstalled, hmarked _ (by simp), Clocked.snoc (p := .stored _) hclocked rfl rfl rfl⟩
  | pass hnone => exact ⟨hinstalled, hm, hclocked.1, fun _ hreaped => (hclocked.2.1 _ hreaped).elim, hclocked.2.2⟩
  | drop hsome hforwarded =>
    have hrunning : Clocked (.running _) s := ⟨hclocked.1, fun _ hr => (hclocked.2.1 _ hr).elim, hclocked.2.2⟩
    exact ⟨hinstalled, hmarked _ (by simp), hrunning.snoc rfl rfl rfl⟩
  | swap hsome hforwarded =>
    exact ⟨hinstalled, hmarked _ (by simp), Clocked.snoc (p := .stored _) hclocked rfl rfl rfl⟩
  | kill =>
    have hrunning : Clocked (.running _) s := ⟨hclocked.1, fun _ hr => (hclocked.2.1 _ hr).elim, hclocked.2.2⟩
    exact ⟨hinstalled, hmarked _ (by simp), hrunning.snoc rfl rfl rfl⟩
  | reap =>
    obtain ⟨hpid, hreaped, hcleared⟩ := hclocked
    refine ⟨hinstalled, hmarked _ (by simp), hpid, fun other hmem => ?_, by simpa [Signals.note] using hcleared⟩
    rcases List.mem_append.mp hmem with hmem | hmem
    · exact hreaped other hmem
    · cases List.mem_singleton.mp hmem
      rfl
  | clear => exact ⟨hinstalled, hmarked _ (by simp), rfl, by simp [Signals.note]⟩

/-- A run spares the pid of what it reaped exactly if no signal arrives before
it has cleared it. -/
theorem reaped_pid_spared_iff (hm : Vacant m.signals)
    (hs : Interrupted RunOp.effect Handled m (run base config tty network) m' q) :
    Spared m'.signals.trace ↔ Undisturbed m'.signals.trace := by
  obtain ⟨p, hreached, -⟩ := run_refines hs
  have htimed : Timed p m'.signals := Relay.invariant (fun _ _ _ _ => Timed.step) hm.timed hreached
  exact htimed.marked.spared_iff

namespace Workshop

def earlyTerm : Session := go [] 20 (arrive sigTerm (go [] 15 ({}, running)))

theorem earlyTerm_spared : Spared earlyTerm.1.signals.trace := by
  have hs : Happens {} earlyTerm :=
    (Happens.start.go [] 15 |>.arrive (by decide)).go [] 20
  have htrace : earlyTerm.1.signals.trace =
      [.stored 100, .took, .handled sigTerm (some (100, sigTerm)), .reaped 100, .cleared] := by
    rfl
  refine (reaped_pid_spared_iff ⟨rfl, rfl, by simp⟩ hs).mpr fun before signum sent after heq pid hmem => ?_
  rw [htrace] at heq
  rcases before with _ | ⟨a, _ | ⟨b, _ | ⟨c, _ | ⟨d, _ | ⟨e, before⟩⟩⟩⟩⟩ <;> grind

def lateTerm : Session := arrive sigTerm (go [] 16 ({}, running))

theorem lateTerm_not_spared :
    Vacant (({} : Machine).signals) ∧ Happens {} lateTerm ∧ ¬ Spared lateTerm.1.signals.trace := by
  have htrace : lateTerm.1.signals.trace =
      [.stored 100, .took, .reaped 100] ++ .handled sigTerm (some (100, sigTerm)) :: [] := by
    rfl
  refine ⟨⟨rfl, rfl, by simp⟩, ?_, fun hspared => hspared _ _ _ _ _ htrace (by decide)⟩
  exact Happens.start.go [] 16 |>.arrive (by decide)

end Workshop

end Climate.Runtime
