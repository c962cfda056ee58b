import Climate.Runtime.Cleanup
import Climate.Runtime.Signals
import Mathlib.Algebra.Order.BigOperators.Group.List
import Mathlib.Algebra.Order.Group.Nat

/-!
# One run after another

The statics outlive a run. What a run makes of the signals that arrive during
it is compared with what it would make of them in a process that has not seen
a signal before.
-/

namespace Climate.Runtime

open UnixPath Prog
open Relation (ReflTransGen)

-- ---------------------------------------------------------------------------
-- The statics between runs
-- ---------------------------------------------------------------------------

/-- What a process can have come to between two calls of `run`: it makes some,
to their ends, and other things; and signals may arrive at any time. -/
inductive History : Machine → Prop
  | start : m.signals = {} → History m
  | elsewhere : History m → m'.signals = m.signals → History m'
  | arrive : History m → Handled m m' → History m'
  | ran : History m → Interrupted RunOp.effect Handled m (run base config tty network) m' q → q.ended = true →
      History m'

variable {m m' : Machine} {s s₀ : Signals} {trace : List Event} {id : String}

def Arrived (trace : List Event) : Prop := ∃ signum sent, .handled signum sent ∈ trace

/-- A signal has arrived exactly if it shows in the statics, or in the value
that the main thread took from them. -/
def Recorded (pending : Int) (s : Signals) : Prop := (pending ≠ 0 ∨ s.forwarded = true) ↔ Arrived s.trace

def Remembers : Point → Signals → Prop
  | .before, s | .done, s => s.containerPid = 0 ∧ Recorded s.pending s
  | .stored pid, s | .running pid, s => (s.containerPid = pid ∧ pid ≠ 0) ∧ Recorded s.pending s
  | .taken pid pending, s =>
    (s.containerPid = pid ∧ pid ≠ 0) ∧ Recorded pending s ∧ s.pending = 0 ∧ (pending = 0 ∨ Forwarded pending)
  | .swapped pid _, s => (s.containerPid = pid ∧ pid ≠ 0) ∧ s.forwarded = true ∧ Arrived s.trace

structure Past (p : Point) (s : Signals) : Prop where
  installed : ∀ signum ∈ s.installed, Forwarded signum
  pending : s.pending = 0 ∨ Forwarded s.pending
  remembers : Remembers p s

theorem Arrived.snoc (h : Arrived trace) (e : Event) : Arrived (trace ++ [e]) := by
  obtain ⟨signum, sent, hmem⟩ := h
  exact ⟨signum, sent, List.mem_append_left _ hmem⟩

theorem arrived_snoc {e : Event} (he : ∀ signum sent, e ≠ .handled signum sent) :
    Arrived (trace ++ [e]) ↔ Arrived trace := by
  refine ⟨fun ⟨signum, sent, hmem⟩ => ?_, fun h => h.snoc e⟩
  rcases List.mem_append.mp hmem with hmem | hmem
  · exact ⟨signum, sent, hmem⟩
  · exact (he signum sent (List.mem_singleton.mp hmem).symm).elim

theorem Recorded.snoc (h : Recorded pending s) {e : Event} (he : ∀ signum sent, e ≠ .handled signum sent)
    {s' : Signals} (htrace : s'.trace = s.trace ++ [e]) (hforwarded : s'.forwarded = s.forwarded) :
    Recorded pending s' := by
  rw [Recorded, htrace, arrived_snoc he, hforwarded]
  exact h

theorem handled_arrived (s : Signals) (hsignum : Forwarded signum) : Arrived (forwardSignal signum s).trace := by
  obtain ⟨sent, htrace, -⟩ := forwardSignal_trace s hsignum
  exact ⟨signum, sent, by simp [htrace]⟩

theorem forwardSignal_pending (hsignum : Forwarded signum) (h : s.pending = 0 ∨ Forwarded s.pending) :
    (forwardSignal signum s).pending = 0 ∨ Forwarded (forwardSignal signum s).pending := by
  by_cases hpid : s.containerPid = 0
  · rw [forwardSignal_idle signum hpid]
    exact .inr hsignum
  · rw [forwardSignal_live hsignum hpid]
    exact h

theorem Past.handle (h : Past p s) (hmem : signum ∈ s.installed) : Past p (forwardSignal signum s) := by
  have hsignum := h.installed signum hmem
  have harrived := handled_arrived s hsignum
  have hidle : s.containerPid = 0 → (forwardSignal signum s).pending ≠ 0 := fun hpid => by
    rw [forwardSignal_idle signum hpid]
    exact hsignum.ne_zero
  have hlive : s.containerPid ≠ 0 → (forwardSignal signum s).forwarded = true ∧
      (forwardSignal signum s).pending = s.pending := fun hpid => by
    rw [forwardSignal_live hsignum hpid]
    exact ⟨rfl, rfl⟩
  refine ⟨by simpa using h.installed, forwardSignal_pending hsignum h.pending, ?_⟩
  have hpast := h.remembers
  cases p with
  | before =>
    exact ⟨by simpa using hpast.1, iff_of_true (.inl (hidle hpast.1)) harrived⟩
  | done =>
    exact ⟨by simpa using hpast.1, iff_of_true (.inl (hidle hpast.1)) harrived⟩
  | stored pid =>
    obtain ⟨⟨rfl, hne⟩, -⟩ := hpast
    exact ⟨⟨by simp, hne⟩, iff_of_true (.inr (hlive hne).1) harrived⟩
  | running pid =>
    obtain ⟨⟨rfl, hne⟩, -⟩ := hpast
    exact ⟨⟨by simp, hne⟩, iff_of_true (.inr (hlive hne).1) harrived⟩
  | taken pid pending =>
    obtain ⟨⟨rfl, hne⟩, -, hzero, hpending⟩ := hpast
    exact ⟨⟨by simp, hne⟩, iff_of_true (.inr (hlive hne).1) harrived, (hlive hne).2.trans hzero, hpending⟩
  | swapped pid signal =>
    obtain ⟨⟨rfl, hne⟩, -, -⟩ := hpast
    exact ⟨⟨by simp, hne⟩, (hlive hne).1, harrived⟩

theorem Past.step (h : Past p s) (hstep : Relay (p, s) (p', s')) : Past p' s' := by
  obtain ⟨hinstalled, hpending, hpast⟩ := h
  cases hstep with
  | handle hmem => exact Past.handle ⟨hinstalled, hpending, hpast⟩ hmem
  | install hsignum =>
    refine ⟨fun signum hmem => ?_, hpending, hpast⟩
    rcases List.mem_cons.mp hmem with rfl | hmem
    · exact hsignum
    · exact hinstalled signum hmem
  | store hpid => exact ⟨hinstalled, hpending, ⟨rfl, hpid⟩, hpast.2.snoc (by simp) rfl rfl⟩
  | take => exact ⟨hinstalled, .inl rfl, hpast.1, hpast.2.snoc (by simp) rfl rfl, rfl, hpending⟩
  | pass hnone =>
    obtain ⟨hpid, hrecorded, hzero, rfl | hsignum⟩ := hpast
    · exact ⟨hinstalled, hpending, hpid, hzero.symm ▸ hrecorded⟩
    · cases hnone.symm.trans hsignum.named
  | drop hsome hforwarded =>
    obtain ⟨hpid, hrecorded, hzero, -⟩ := hpast
    have harrived := hrecorded.mp (.inr hforwarded)
    exact ⟨hinstalled, hpending, hpid, iff_of_true (.inr rfl) (harrived.snoc _)⟩
  | swap hsome hforwarded =>
    obtain ⟨hpid, hrecorded, hzero, rfl | hsignum⟩ := hpast
    · cases hsome
    · exact ⟨hinstalled, hpending, hpid, rfl, (hrecorded.mp (.inl hsignum.ne_zero)).snoc _⟩
  | kill =>
    obtain ⟨hpid, hforwarded, harrived⟩ := hpast
    exact ⟨hinstalled, hpending, hpid, iff_of_true (.inr hforwarded) (harrived.snoc _)⟩
  | reap => exact ⟨hinstalled, hpending, hpast.1, hpast.2.snoc (by simp) rfl rfl⟩
  | clear => exact ⟨hinstalled, hpending, rfl, hpast.2.snoc (by simp) rfl rfl⟩

theorem History.past (h : History m) : Past .before m.signals := by
  induction h with
  | start heq =>
    rw [heq]
    refine ⟨by simp, .inl rfl, rfl, iff_of_false (by simp) ?_⟩
    rintro ⟨signum, sent, hmem⟩
    cases hmem
  | elsewhere _ heq ih =>
    rw [heq]
    exact ih
  | arrive _ hh ih =>
    obtain ⟨signum, hmem, rfl⟩ := hh
    exact ih.handle hmem
  | ran _ hs hended ih =>
    obtain ⟨p, hreached, hat⟩ := run_refines hs
    have hpast := Relay.invariant (fun _ _ _ _ => Past.step) ih hreached
    rcases hat.ended hended with rfl | rfl
    · exact hpast
    · exact ⟨hpast.installed, hpast.pending, hpast.remembers⟩

-- ---------------------------------------------------------------------------
-- What a run makes of earlier signals
-- ---------------------------------------------------------------------------

def Machine.forget (m : Machine) : Machine :=
  { m with signals := { m.signals with pending := 0, forwarded := false } }

def Event.isSeen : Event → Bool
  | .took | .swapped => false
  | _ => true

/-- A call of `run` can go on like this: its process comes and goes, signals
arrive, and signals are sent, in this order. -/
def Sees (base : Place) (config : String) (tty : Bool) (network : Network) (m : Machine)
    (seen : List Event) : Prop :=
  ∃ m' q trace, Interrupted RunOp.effect Handled m (run base config tty network) m' q ∧
    m'.signals.trace = m.signals.trace ++ trace ∧ trace.filter Event.isSeen = seen

/-- What happened before makes no difference. -/
def Independent (base : Place) (config : String) (tty : Bool) (network : Network) (m : Machine) : Prop :=
  ∀ seen, Sees base config tty network m seen ↔ Sees base config tty network m.forget seen

/-- The first signal to arrive is passed on as it is. -/
def FirstAsIs (trace : List Event) : Prop :=
  ∀ before signum pid signal after, trace = before ++ .handled signum (some (pid, signal)) :: after →
    ¬ Arrived before → signal = signum

def Point.Idle : Point → Prop
  | .taken _ pending => pending = 0
  | .swapped _ _ => False
  | _ => True

/-- A run that starts without a trace of a signal. -/
structure Innocent (past : List Event) (p : Point) (s : Signals) (trace : List Event) : Prop where
  installed : ∀ signum ∈ s.installed, Forwarded signum
  since : s.trace = past ++ trace
  pending : ¬ Arrived trace → s.pending = 0
  forwarded : ¬ Arrived trace → s.forwarded = false
  undelivered : ¬ Arrived trace → ∀ pid signal, .delivered pid signal ∉ trace
  idle : ¬ Arrived trace → p.Idle
  first : FirstAsIs trace

theorem FirstAsIs.snoc (h : FirstAsIs trace) {e : Event} (he : ∀ signum sent, e ≠ .handled signum sent) :
    FirstAsIs (trace ++ [e]) := by
  intro before signum pid signal after heq hnone
  rcases split_snoc heq with ⟨-, rfl⟩ | ⟨rest, rfl⟩
  · exact (he _ _ rfl).elim
  · exact h before signum pid signal rest rfl hnone

theorem Innocent.snoc {e : Event} {p' : Point} {s' : Signals} (h : Innocent past p s trace)
    (he : ∀ signum sent, e ≠ .handled signum sent) (hinstalled : s'.installed = s.installed)
    (htrace : s'.trace = s.trace ++ [e])
    (hpending : ¬ Arrived trace → s'.pending = 0) (hforwarded : ¬ Arrived trace → s'.forwarded = false)
    (hdelivered : ¬ Arrived trace → ∀ pid signal, e ≠ .delivered pid signal)
    (hidle : ¬ Arrived trace → p'.Idle) : Innocent past p' s' (trace ++ [e]) := by
  rw [← arrived_snoc he] at hpending hforwarded hidle
  refine ⟨hinstalled ▸ h.installed, by rw [htrace, h.since, List.append_assoc], hpending, hforwarded, ?_, hidle,
    h.first.snoc he⟩
  intro hnone pid signal hmem
  rw [arrived_snoc he] at hnone
  rcases List.mem_append.mp hmem with hmem | hmem
  · exact h.undelivered hnone pid signal hmem
  · exact hdelivered hnone pid signal (List.mem_singleton.mp hmem).symm

theorem Innocent.handle (h : Innocent past p s trace) (hmem : signum ∈ s.installed) :
    ∃ trace', Innocent past p (forwardSignal signum s) trace' := by
  have hsignum := h.installed signum hmem
  obtain ⟨sent, htrace, hnone, hsome⟩ := forwardSignal_trace s hsignum
  have harrived : Arrived (trace ++ [.handled signum sent]) := ⟨signum, sent, by simp⟩
  refine ⟨trace ++ [.handled signum sent], by simpa using h.installed, ?_, fun hno => (hno harrived).elim,
    fun hno => (hno harrived).elim, fun hno => (hno harrived).elim, fun hno => (hno harrived).elim, ?_⟩
  · rw [htrace, h.since, List.append_assoc]
  intro before other pid signal after heq hbefore
  rcases split_snoc heq with ⟨rfl, hlast⟩ | ⟨rest, rfl⟩
  · cases hlast
    have hpid : s.containerPid ≠ 0 := fun hzero => by cases hnone hzero
    rw [forwardSignal_live hsignum hpid, h.forwarded hbefore] at htrace
    have hsame := (List.append_inj' htrace rfl).2
    have hboth : pid = s.containerPid ∧ signal = signum := by simpa using hsame.symm
    exact hboth.2
  · exact h.first before other pid signal rest rfl hbefore

theorem Innocent.step (h : Innocent past p s trace) (hstep : Relay (p, s) (p', s')) :
    ∃ trace', Innocent past p' s' trace' := by
  cases hstep with
  | handle hmem => exact h.handle hmem
  | install hsignum =>
    refine ⟨trace, ⟨fun signum hmem => ?_, h.since, h.pending, h.forwarded, h.undelivered, h.idle, h.first⟩⟩
    rcases List.mem_cons.mp hmem with rfl | hmem
    · exact hsignum
    · exact h.installed signum hmem
  | store hpid =>
    exact ⟨trace ++ [.stored _], h.snoc (by simp) rfl rfl h.pending h.forwarded (by simp) fun _ => trivial⟩
  | take => exact ⟨trace ++ [.took], h.snoc (by simp) rfl rfl (fun _ => rfl) h.forwarded (by simp) h.pending⟩
  | pass hnone =>
    exact ⟨trace, ⟨h.installed, h.since, h.pending, h.forwarded, h.undelivered, fun _ => trivial, h.first⟩⟩
  | drop hsome hforwarded =>
    have harrived : Arrived trace := by
      by_contra hnone
      cases hforwarded.symm.trans (h.forwarded hnone)
    exact ⟨trace ++ [.swapped], h.snoc (by simp) rfl rfl (fun hnone => (hnone harrived).elim)
      (fun hnone => (hnone harrived).elim)
      (by simp) fun _ => trivial⟩
  | swap hsome hforwarded =>
    have harrived : Arrived trace := by
      by_contra hnone
      obtain rfl : _ = (0 : Int) := h.idle hnone
      cases hsome
    exact ⟨trace ++ [.swapped], h.snoc (by simp) rfl rfl (fun hnone => (hnone harrived).elim)
      (fun hnone => (hnone harrived).elim)
      (by simp) fun hnone => hnone harrived⟩
  | kill =>
    have harrived : Arrived trace := by
      by_contra hnone
      exact h.idle hnone
    exact ⟨trace ++ [.delivered _ _], h.snoc (by simp) rfl rfl h.pending h.forwarded
      (fun hnone => (hnone harrived).elim) fun _ => trivial⟩
  | reap =>
    exact ⟨trace ++ [.reaped _], h.snoc (by simp) rfl rfl h.pending h.forwarded (by simp) fun _ => trivial⟩
  | clear =>
    exact ⟨trace ++ [.cleared], h.snoc (by simp) rfl rfl h.pending h.forwarded (by simp) fun _ => trivial⟩

theorem forget_innocent (hinstalled : ∀ signum ∈ m.signals.installed, Forwarded signum)
    (hs : Interrupted RunOp.effect Handled m.forget (run base config tty network) m' q)
    (htrace : m'.signals.trace = m.signals.trace ++ trace) :
    ∃ p, Innocent m.signals.trace p m'.signals trace := by
  obtain ⟨p, hreached, -⟩ := run_refines hs
  have hstart : ∃ trace, Innocent m.signals.trace .before m.forget.signals trace :=
    ⟨[], hinstalled, (List.append_nil _).symm, fun _ => rfl, fun _ => rfl, fun _ _ _ => List.not_mem_nil,
      fun _ => trivial, fun before _ _ _ _ heq => by simp at heq⟩
  obtain ⟨trace', h⟩ := Relay.invariant (J := fun p s => ∃ trace, Innocent m.signals.trace p s trace)
    (fun _ _ _ _ ⟨_, h⟩ hstep => h.step hstep) hstart hreached
  obtain rfl : trace = trace' := List.append_cancel_left (htrace.symm.trans h.since)
  exact ⟨p, h⟩

theorem seen_arrived (h : Arrived trace) : ∃ signum sent, .handled signum sent ∈ trace.filter Event.isSeen := by
  obtain ⟨signum, sent, hmem⟩ := h
  exact ⟨signum, sent, List.mem_filter.mpr ⟨hmem, rfl⟩⟩

theorem not_sees_delivered (hinstalled : ∀ signum ∈ m.signals.installed, Forwarded signum) :
    ¬ Sees base config tty network m.forget [.stored pid, .delivered pid signal] := by
  rintro ⟨m', q, trace, hs, htrace, hseen⟩
  obtain ⟨p, h⟩ := forget_innocent hinstalled hs htrace
  have hnone : ¬ Arrived trace := by
    intro harrived
    obtain ⟨signum, sent, hmem⟩ := seen_arrived harrived
    simp [hseen] at hmem
  refine h.undelivered hnone pid signal (List.mem_of_mem_filter (p := Event.isSeen) ?_)
  simp [hseen]

theorem not_sees_killed (hinstalled : ∀ signum ∈ m.signals.installed, Forwarded signum)
    (hsignum : Forwarded signum) :
    ¬ Sees base config tty network m.forget [.stored pid, .handled signum (some (pid, sigKill))] := by
  rintro ⟨m', q, trace, hs, htrace, hseen⟩
  obtain ⟨p, h⟩ := forget_innocent hinstalled hs htrace
  obtain ⟨before, rest, rfl, hbefore, -, hrest⟩ := List.filter_eq_cons_iff.mp hseen
  obtain ⟨between, after, rfl, hbetween, -, -⟩ := List.filter_eq_cons_iff.mp hrest
  have hnone : ¬ Arrived (before ++ .stored pid :: between) := by
    rintro ⟨other, sent, hmem⟩
    rcases List.mem_append.mp hmem with hmem | hmem
    · exact hbefore _ hmem rfl
    · rcases List.mem_cons.mp hmem with heq | hmem
      · cases heq
      · exact hbetween _ hmem rfl
  have hkill : sigKill = signum := h.first _ signum pid sigKill after (by simp) hnone
  subst hkill
  rcases hsignum with heq | heq <;> cases heq

-- ---------------------------------------------------------------------------
-- What there can be to see
-- ---------------------------------------------------------------------------

/-- A run's statics are as they were, and of the entries of its bundle only
these can be there. -/
structure Prepared (s : Signals) (bundle : Place) (known : List String) (m : Machine) : Prop where
  signals : m.signals = s
  files : ∀ name, m.has (bundle ++ [name]) = true → name ∈ known

theorem Prepared.absent (h : Prepared s bundle known m) (hname : name ∉ known) :
    m.has (bundle ++ [name]) = false :=
  Bool.eq_false_iff.mpr fun hthere => hname (h.files name hthere)

theorem Prepared.put (h : Prepared s bundle known m) (name : String) (e : Entry) :
    Prepared s bundle (name :: known) (m.put (bundle ++ [name]) e) := by
  refine ⟨h.signals, fun other hthere => ?_⟩
  rcases (Machine.has_put m _ e).mp hthere with heq | hold
  · obtain rfl : other = name := by simpa using heq
    exact List.mem_cons_self
  · exact List.mem_cons_of_mem _ (h.files other hold)

theorem Prepared.makeDirs (h : Prepared s bundle known m) (hl : ∀ name, bundle ++ [name] ∉ l) :
    Prepared s bundle known (m.makeDirs l) := by
  refine ⟨(Machine.makeDirs_signals m l).trans h.signals, fun name hthere => ?_⟩
  exact h.files name (((Machine.has_makeDirs m l).mp hthere).resolve_left (hl name))

theorem can_onlyIf {act : RunAct Unit} {post : Unit → Machine → Prop} (hnot : post () m)
    (h : wanted = true → Can (I := runOps) RunOp.effect post m act) :
    Can (I := runOps) RunOp.effect post m (onlyIf wanted act) := by
  cases wanted with
  | false => exact .ret hnot
  | true => exact h rfl

theorem unused_exists (m : Machine) : ∃ id, m.Unused id ∧ id ≠ "" := by
  let names := m.entries.flatMap (fun e => e.1) ++ m.live
  let length := (names.map String.length).sum + 1
  have hlong : ∀ name ∈ names, ¬ (String.ofList (List.replicate length 'x')).toList <:+: name.toList := by
    intro name hmem hinfix
    have hle := hinfix.length_le
    have hsum : name.length ≤ (names.map String.length).sum :=
      List.single_le_sum (fun _ _ => Nat.zero_le _) _ (List.mem_map_of_mem hmem)
    simp only [String.toList_ofList, List.length_replicate, String.length_toList] at hle
    omega
  refine ⟨String.ofList (List.replicate length 'x'), ⟨fun e he name hname => ?_, fun name hname => ?_⟩, ?_⟩
  · exact hlong name (List.mem_append_left _ (List.mem_flatMap.mpr ⟨e, he, hname⟩))
  · exact hlong name (List.mem_append_right _ hname)
  · intro heq
    have hempty : (String.ofList (List.replicate length 'x')).toList = [] := by rw [heq]; rfl
    simp [length] at hempty

theorem create_can (h : Prepared s (base ++ ["bundles", id]) [] m) (config : String) (tty : Bool)
    (network : Network) :
    Can (I := runOps) RunOp.effect (fun pid m' => pid = 100 ∧ m'.signals =
      { s with installed := sigTerm :: sigInt :: s.installed })
      m (create base (base ++ ["bundles", id]) id config tty network) := by
  have hbind : ∀ {m s known} name, Prepared s (base ++ ["bundles", id]) known m → name ∉ known → ∀ message,
      Can (I := runOps) RunOp.effect (fun _ m' => Prepared s (base ++ ["bundles", id]) (name :: known) m') m
        (.ask (.bindSocket (base ++ ["bundles", id]) name) (orElse message)) := by
    intro m s known name h hname message
    have he : RunOp.effect (.bindSocket (base ++ ["bundles", id]) name) m (.ok ())
        (m.put (base ++ ["bundles", id] ++ [name]) .socket) := ⟨h.absent hname, rfl⟩
    exact .ask _ he rfl (h.put name .socket)
  have hnull : ∀ {m s known} stream, Prepared s (base ++ ["bundles", id]) known m →
      Can (I := runOps) RunOp.effect (fun _ m' => Prepared s (base ++ ["bundles", id]) known m') m
        (swapNull stream) := fun stream h =>
    .bind (Q := fun isNull m' => isNull = false ∧ Prepared _ _ _ m') (.ask false rfl rfl ⟨rfl, h⟩)
      fun isNull _ h => h.1 ▸ .ret h.2
  have hinstall : ∀ {m s known} signum, Prepared s (base ++ ["bundles", id]) known m → ∀ message,
      Can (I := runOps) RunOp.effect
        (fun _ m' => Prepared { s with installed := signum :: s.installed } (base ++ ["bundles", id]) known m') m
        (.ask (.sigaction signum) (orElse message)) := by
    intro m s known signum h message
    have he : RunOp.effect (.sigaction signum) m (.ok ())
        { m with signals := { m.signals with installed := signum :: m.signals.installed } } := rfl
    exact .ask _ he rfl ⟨by rw [← h.signals], h.files⟩
  unfold create
  refine .bind (Q := fun _ m' => Prepared s (base ++ ["bundles", id]) [] m') ?_ fun _ m₁ h₁ => ?_
  · refine .ask (.ok ()) rfl rfl (h.makeDirs fun name => ?_)
    rw [dirsOf, walk, List.append_nil, mem_ancestry]
    rintro ⟨hpre, -⟩
    simp at hpre
  refine .bind (Q := fun _ m' => Prepared s (base ++ ["bundles", id]) [hookSocket] m') (can_onlyIf ?_ ?_)
    fun _ m₂ h₂ => ?_
  · exact ⟨h₁.signals, fun name hthere => List.mem_cons_of_mem _ (h₁.files name hthere)⟩
  · intro _
    refine .bind (hbind hookSocket h₁ (by simp) _) fun _ m' h => ?_
    exact .ask (.ok ()) rfl rfl h
  have hconfig : m₂.has (base ++ ["bundles", id] ++ ["config.json"]) = false := h₂.absent (by simp [hookSocket])
  have hfills : m₂.Fills (base ++ ["bundles", id]) [.normal "config.json"] config
      (m₂.put (base ++ ["bundles", id] ++ ["config.json"]) (.file config)) := by
    refine ⟨_, rfl, ?_, rfl⟩
    have hentry : m₂.entry (base ++ ["bundles", id] ++ ["config.json"]) = none := by
      simpa [Machine.has] using hconfig
    simp only [List.append_assoc, List.cons_append, List.nil_append] at hentry
    simp [Machine.isDir, resolve, Component.from, hentry]
  refine .bind (Q := fun _ m' => Prepared s (base ++ ["bundles", id]) ["config.json", hookSocket] m') ?_
    fun _ m₃ h₃ => ?_
  · exact .ask (.ok ()) hfills rfl (h₂.put _ _)
  refine .bind (Q := fun _ m' => Prepared s (base ++ ["bundles", id]) ["config.json", hookSocket] m') ?_
    fun _ m₄ h₄ => ?_
  · exact .ask (.ok ()) rfl rfl h₃
  refine .bind (Q := fun _ m' => Prepared { s with installed := sigTerm :: sigInt :: s.installed }
    (base ++ ["bundles", id]) ["config.json", hookSocket] m') ?_ fun _ m₅ h₅ => ?_
  · refine .bind (hinstall sigInt h₄ _) fun _ m' h => .bind (hinstall sigTerm h _) fun _ m'' h => .ret h
  refine .bind (Q := fun _ m' => Prepared { s with installed := sigTerm :: sigInt :: s.installed }
    (base ++ ["bundles", id]) ["console.sock", "config.json", hookSocket] m') (can_onlyIf ?_ ?_) fun _ m₆ h₆ => ?_
  · exact ⟨h₅.signals, fun name hthere => List.mem_cons_of_mem _ (h₅.files name hthere)⟩
  · exact fun _ => hbind "console.sock" h₅ (by simp [hookSocket]) _
  refine .bind (Q := fun _ m' => Prepared { s with installed := sigTerm :: sigInt :: s.installed }
    (base ++ ["bundles", id]) ["console.sock", "config.json", hookSocket] m') ?_ fun _ m₇ h₇ => ?_
  · exact .ask (.ok ()) rfl rfl h₆
  refine .bind (hnull "stdout" h₇) fun _ m₈ h₈ => .bind (hnull "stderr" h₈) fun _ m₉ h₉ => ?_
  refine .bind (Q := fun created m' => created = some 100 ∧
    m'.signals = { s with installed := sigTerm :: sigInt :: s.installed }) ?_ fun created m₁₀ h₁₀ => ?_
  · have he : RunOp.effect (.buildContainer (base ++ ["containers"]) id) m₉ (.ok (some 100))
        (m₉.create (base ++ ["containers"]) id) := rfl
    exact .ask _ he rfl ⟨rfl, (Machine.makeDirs_signals _ _).trans h₉.signals⟩
  obtain ⟨rfl, hsignals⟩ := h₁₀
  refine .bind (Q := fun _ m' => m'.signals = { s with installed := sigTerm :: sigInt :: s.installed })
    (can_onlyIf hsignals fun _ => ?_) fun _ m₁₁ h₁₁ => ?_
  · exact .ask (.ok ()) rfl rfl hsignals
  · exact .ret ⟨rfl, h₁₁⟩

/-- Whatever has happened, a call of `run` can get as far as its container. -/
theorem run_reaches (m : Machine) (base : Place) (config : String) (tty : Bool) (network : Network) :
    ∃ m' k, m'.signals = { m.signals with installed := sigTerm :: sigInt :: m.signals.installed } ∧
      Steps RunOp.effect m (run base config tty network) m' (deliverPending 100 >>= k) := by
  obtain ⟨id, hunused, hne⟩ := unused_exists m
  have hfresh : Fresh m s!"climate-{id}" := by
    refine hunused.fresh ⟨"climate-".toList, [], ?_⟩
    change _ = ("climate-" ++ id).toList
    rw [String.toList_append, List.append_nil]
  have hprepared : Prepared m.signals (base ++ ["bundles", s!"climate-{id}"]) []
      (m.makeDirs (dirsOf (base ++ ["bundles", s!"climate-{id}"]) [])) := by
    refine Prepared.makeDirs ⟨rfl, fun name hthere => ?_⟩ fun name => ?_
    · rw [hfresh.new (by simp)] at hthere
      cases hthere
    · rw [dirsOf, walk, List.append_nil, mem_ancestry]
      rintro ⟨hpre, -⟩
      simp at hpre
  obtain ⟨m', pid, hs, rfl, hsignals⟩ := create_can hprepared config tty network
  refine ⟨m', fun _ => (supervise 100 tty network).attempt >>= fun result => do
    .ask .clearPid .ok
    .ask (.deleteContainer (base ++ ["containers"]) s!"climate-{id}") .ok
    .ask (.removeDirAll (base ++ ["bundles", s!"climate-{id}"])) .ok
    .ofExcept result, hsignals, ?_⟩
  have hcgroup : RunOp.effect .cgroup2 m true m := rfl
  have hid : RunOp.effect .uniqueId m id m := ⟨rfl, hunused, hne⟩
  have hbundle : RunOp.effect (.createDirAll (base ++ ["bundles", s!"climate-{id}"]) []) m (.ok ())
      (m.makeDirs (dirsOf (base ++ ["bundles", s!"climate-{id}"]) [])) := rfl
  exact .ask_bind hcgroup rfl <| .ask_bind hid rfl <| .ask_bind hbundle rfl <| hs.bind _

theorem sees_killed (hforwarded : m.signals.forwarded = true) (base : Place) (config : String) (tty : Bool)
    (network : Network) :
    Sees base config tty network m [.stored 100, .handled sigTerm (some (100, sigKill))] := by
  obtain ⟨m₁, k, hsignals, hs⟩ := run_reaches m base config tty network
  have hstored : ∃ q, Steps RunOp.effect m₁ (deliverPending 100 >>= k)
      { m₁ with signals := { m₁.signals with containerPid := 100 }.note (.stored 100) } q := by
    unfold deliverPending
    rw [bind_assoc]
    have he : RunOp.effect (.storePid 100) m₁ () _ := rfl
    exact ⟨_, .ask_bind he rfl .refl⟩
  obtain ⟨q, hstored⟩ := hstored
  refine ⟨_, q, [.stored 100, .handled sigTerm (some (100, sigKill))],
    (hs.trans hstored).interrupted.interrupt ⟨sigTerm, ?_, rfl⟩, ?_, rfl⟩
  · rw [hsignals]
    simp [Signals.note]
  · rw [forwardSignal_live (.inr rfl) (show (100 : Int) ≠ 0 by decide)]
    simp [Signals.note, hsignals, hforwarded]

theorem sees_delivered (hpending : Forwarded m.signals.pending) (hforwarded : m.signals.forwarded = false)
    (base : Place) (config : String) (tty : Bool) (network : Network) :
    Sees base config tty network m [.stored 100, .delivered 100 m.signals.pending] := by
  obtain ⟨m₁, k, hsignals, hs⟩ := run_reaches m base config tty network
  let stored := { m₁ with signals := { m₁.signals with containerPid := 100 }.note (.stored 100) }
  let taken := { stored with signals := { stored.signals with pending := 0 }.note .took }
  let swapped := { taken with signals := { taken.signals with forwarded := true }.note .swapped }
  let killed := { swapped with signals := swapped.signals.note (.delivered 100 m.signals.pending) }
  have hstore : RunOp.effect (.storePid 100) m₁ () stored := rfl
  have hkept : stored.signals.pending = m.signals.pending ∧ taken.signals.forwarded = false := by
    simp [taken, stored, Signals.note, hsignals, hforwarded]
  have htake : RunOp.effect .takePending stored m.signals.pending taken := ⟨hkept.1.symm, rfl⟩
  have hswap : RunOp.effect .swapForwarded taken false swapped := ⟨hkept.2.symm, rfl⟩
  have hkill : RunOp.effect (.kill 100 m.signals.pending) swapped () killed := rfl
  have htrace : killed.signals.trace =
      m.signals.trace ++ [.stored 100, .took, .swapped, .delivered 100 m.signals.pending] := by
    simp [killed, swapped, taken, stored, Signals.note, hsignals]
  have hdelivered : Steps RunOp.effect m₁ (deliverPending 100 >>= k) killed (k ()) := by
    unfold deliverPending
    simp only [bind_assoc]
    refine .ask_bind hstore rfl (.ask_bind htake rfl ?_)
    rw [hpending.named]
    simp only [bind_assoc]
    refine .ask_bind hswap rfl ?_
    exact .ask_bind (f := k) hkill rfl .refl
  exact ⟨killed, k (), _, (hs.trans hdelivered).interrupted, htrace, rfl⟩

/-- The signals that a container is sent depend on those that arrive during its
run alone exactly if none has arrived before. -/
theorem independent_iff (h : History m) (base : Place) (config : String) (tty : Bool) (network : Network) :
    Independent base config tty network m ↔ ¬ Arrived m.signals.trace := by
  have hpast := h.past
  constructor
  · intro hindependent harrived
    cases hforwarded : m.signals.forwarded with
    | true =>
      exact not_sees_killed hpast.installed (.inr rfl)
        ((hindependent _).mp (sees_killed hforwarded base config tty network))
    | false =>
      have hpending : Forwarded m.signals.pending := by
        refine hpast.pending.resolve_left fun hzero => ?_
        rcases hpast.remembers.2.mpr harrived with hne | htrue
        · exact hne hzero
        · cases hforwarded.symm.trans htrue
      exact not_sees_delivered hpast.installed
        ((hindependent _).mp (sees_delivered hpending hforwarded base config tty network))
  · intro hnone seen
    have hclear : m.signals.pending = 0 ∧ m.signals.forwarded = false := by
      have hneither := fun hor => hnone (hpast.remembers.2.mp hor)
      exact ⟨not_not.mp fun hne => hneither (.inl hne), by simpa using fun htrue => hneither (.inr htrue)⟩
    have hsame : m.forget = m := by
      obtain ⟨entries, written, live, containerPid, pending, forwarded, installed, trace⟩ := m
      obtain ⟨rfl, rfl⟩ := hclear
      rfl
    rw [hsame]

namespace Workshop

theorem Happens.ran (hs : Happens {} c) (hended : c.2.ended = true) : History c.1 :=
  .ran (.start rfl) hs hended

def undisturbed : Session := go [] 20 ({}, running)

theorem undisturbed_independent : Independent ["run"] "\x7b\x7d" true .localnet undisturbed.1 := by
  have hs : Happens {} undisturbed := Happens.start.go [] 20
  refine (independent_iff (hs.ran (by rfl)) _ _ _ _).mpr ?_
  have htrace : undisturbed.1.signals.trace = [.stored 100, .took, .reaped 100, .cleared] := by rfl
  rintro ⟨signum, sent, hmem⟩
  rw [htrace] at hmem
  simp at hmem

def swallowed : Session := go [] 20 (arrive sigTerm (go [] 17 ({}, running)))

theorem swallowed_leaks : History swallowed.1 ∧ ¬ Independent ["run"] "\x7b\x7d" false .none swallowed.1 := by
  have hs : Happens {} swallowed := (Happens.start.go [] 17 |>.arrive (by decide)).go [] 20
  have hinstalled : ∀ signum ∈ swallowed.1.signals.installed, Forwarded signum := by
    have heq : swallowed.1.signals.installed = [sigTerm, sigInt] := by rfl
    rw [heq]
    simp [Forwarded]
  have hpending : swallowed.1.signals.pending = sigTerm := by rfl
  refine ⟨hs.ran (by rfl), fun hindependent => ?_⟩
  have hsees := sees_delivered (.inr hpending) (by rfl) ["run"] "\x7b\x7d" false .none
  exact not_sees_delivered hinstalled ((hindependent _).mp hsees)

end Workshop

end Climate.Runtime
