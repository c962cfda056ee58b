import Climate.Runtime.Run

/-!
# The relay of signals

A run as the statics see it: the main thread takes a step for every change it
makes to them, and the handler may run in between. `run_refines`: whatever a
run does to the statics, this machine does.
-/

namespace Climate.Runtime

open UnixPath Prog
open Relation (ReflTransGen)

-- ---------------------------------------------------------------------------
-- The handler
-- ---------------------------------------------------------------------------

def Forwarded (signum : Int) : Prop := signum = sigInt ∨ signum = sigTerm

theorem Forwarded.named (h : Forwarded signum) : fromNamedRaw signum = some signum := by
  rcases h with rfl | rfl <;> rfl

theorem Forwarded.ne_zero (h : Forwarded signum) : signum ≠ 0 := by
  rcases h with rfl | rfl <;> decide

theorem forwardSignal_idle {s : Signals} (signum : Int) (h : s.containerPid = 0) :
    forwardSignal signum s = { s with pending := signum }.note (.handled signum none) := by
  simp [forwardSignal, fromRaw, h]

theorem forwardSignal_live {s : Signals} (hsignum : Forwarded signum) (h : s.containerPid ≠ 0) :
    forwardSignal signum s = { s with forwarded := true }.note
      (.handled signum (some (s.containerPid, if s.forwarded then sigKill else signum))) := by
  cases hf : s.forwarded <;> simp [forwardSignal, fromRaw, h, hf, hsignum.named]

-- ---------------------------------------------------------------------------
-- The machine
-- ---------------------------------------------------------------------------

/-- Where the main thread is: before there is a process to store, between the
steps that deliver a pending signal, on its way to clearing the pid, and past
it. -/
inductive Point
  | before
  | stored (pid : Int)
  | taken (pid pending : Int)
  | swapped (pid signal : Int)
  | running (pid : Int)
  | done
  deriving DecidableEq, Repr

inductive Relay : Point × Signals → Point × Signals → Prop
  | handle : signum ∈ s.installed → Relay (p, s) (p, forwardSignal signum s)
  | install : Forwarded signum → Relay (.before, s) (.before, { s with installed := signum :: s.installed })
  | store : pid ≠ 0 → Relay (.before, s) (.stored pid, { s with containerPid := pid }.note (.stored pid))
  | take : Relay (.stored pid, s) (.taken pid s.pending, { s with pending := 0 }.note .took)
  | pass : fromNamedRaw pending = none → Relay (.taken pid pending, s) (.running pid, s)
  -- A signal was sent since, so the pending one is dropped.
  | drop : fromNamedRaw pending = some signal → s.forwarded = true →
      Relay (.taken pid pending, s) (.running pid, { s with forwarded := true }.note .swapped)
  | swap : fromNamedRaw pending = some signal → s.forwarded = false →
      Relay (.taken pid pending, s) (.swapped pid signal, { s with forwarded := true }.note .swapped)
  | kill : Relay (.swapped pid signal, s) (.running pid, s.note (.delivered pid signal))
  | reap : Relay (.running pid, s) (.running pid, s.note (.reaped pid))
  | clear : Relay (.running pid, s) (.done, { s with containerPid := 0 }.note .cleared)

theorem Relay.invariant {J : Point → Signals → Prop}
    (hstep : ∀ p s p' s', J p s → Relay (p, s) (p', s') → J p' s') (hi : J p s)
    (hs : ReflTransGen Relay (p, s) (p', s')) : J p' s' := by
  suffices h : ∀ c, ReflTransGen Relay (p, s) c → J c.1 c.2 from h _ hs
  intro c hs
  induction hs with
  | refl => exact hi
  | tail _ hlast ih => exact hstep _ _ _ _ ih hlast

-- ---------------------------------------------------------------------------
-- What may come next
-- ---------------------------------------------------------------------------

def RunOp.delivers : RunOp → Bool
  | .storePid _ | .takePending | .swapForwarded | .kill .. => true
  | _ => false

/-- The operations that leave the statics and the handlers alone. -/
def RunOp.apart : RunOp → Bool
  | .sigaction _ | .storePid _ | .takePending | .swapForwarded | .kill .. | .wait _ | .clearPid => false
  | _ => true

def Early (op : RunOp) : Prop := op.apart = true ∨ op = .sigaction sigInt ∨ op = .sigaction sigTerm

/-- The operations a run may go on with from a point. -/
def Point.Admits : Point → RunOp → Prop
  | .before, op => Early op ∨ ∃ pid, op = .storePid pid
  | .stored _, op => op = .takePending
  | .taken _ _, op => op = .swapForwarded
  | .swapped pid signal, op => op = .kill pid signal
  | .running pid, op => op.apart = true ∨ op = .wait pid ∨ op = .clearPid
  | .done, op => op.apart = true

structure Point.At (p : Point) (q : RunAct α) : Prop where
  op : ∀ op next, q = .call op next → p.Admits op
  ended : q.ended = true → p = .before ∨ p = .done

theorem apart_signals (h : RunOp.effect op m r m') (hop : op.apart = true) : m'.signals = m.signals := by
  cases op with
  | sigaction _ | storePid _ | takePending | swapForwarded | kill _ _ | wait _ | clearPid => cases hop
  | createDirAll dir relative =>
    cases r with
    | ok _ => exact (show m' = _ from h) ▸ Machine.makeDirs_signals _ _
    | error made => exact h.2 ▸ Machine.makeDirs_signals _ _
  | write dir relative contents =>
    have hfills : ∀ text, m.Fills dir relative text m' → m'.signals = m.signals := by
      rintro text ⟨place, -, -, rfl⟩
      rfl
    cases r with
    | ok _ => exact hfills _ h
    | error e =>
      rcases h with rfl | ⟨part, hpart⟩
      · rfl
      · exact hfills _ hpart
  | bindSocket dir name =>
    cases r with
    | ok _ => exact h.2 ▸ rfl
    | error e => exact congrArg _ (show m' = m from h)
  | buildContainer stateRoot id =>
    have hcreate : (m.create stateRoot id).signals = m.signals := Machine.makeDirs_signals _ _
    cases r with
    | ok _ => exact (show m' = _ from h) ▸ hcreate
    | error e =>
      rcases h with rfl | rfl
      · rfl
      · exact hcreate
  | uniqueId | isDir _ => exact congrArg _ h.1
  | removeDirAll place => exact (show m' = _ from h) ▸ rfl
  | deleteContainer stateRoot id => exact (show m' = _ from h) ▸ rfl
  | _ => exact congrArg Machine.signals (show m' = m from h)

-- ---------------------------------------------------------------------------
-- What a run is made of
-- ---------------------------------------------------------------------------

theorem create_only (base bundle : Place) (id config : String) (tty : Bool) (network : Network) :
    (create base bundle id config tty network).Only Early := by
  have happart : ∀ {op : RunOp} {read : op.Res → Except String Unit}, op.apart = true →
      (Prog.ask op read : RunAct Unit).Only Early := fun hop => .ask (.inl hop)
  have hnull : ∀ stream, (swapNull stream).Only Early := fun stream =>
    .bind (.ask (.inl rfl)) fun _ => onlyIf_only (happart rfl)
  unfold create
  refine .bind (happart rfl) fun _ => .bind (onlyIf_only (.bind (happart rfl) fun _ => happart rfl)) fun _ => ?_
  refine .bind (happart rfl) fun _ => .bind (happart rfl) fun _ => .bind (.forM ?_) fun _ => ?_
  · intro signum hmem
    simp only [List.mem_cons, List.not_mem_nil, or_false] at hmem
    rcases hmem with rfl | rfl
    · exact .ask (.inr (.inl rfl))
    · exact .ask (.inr (.inr rfl))
  refine .bind (onlyIf_only (happart rfl)) fun _ => .bind (happart rfl) fun _ => ?_
  refine .bind (hnull "stdout") fun _ => .bind (hnull "stderr") fun _ => .bind (.ask (.inl rfl)) fun created => ?_
  exact .bind (onlyIf_only (happart rfl)) fun _ => .bind (.ofExcept _) fun _ => .ofExcept _

theorem create_pid (E : Effects runOps σ) (s : σ) (base bundle : Place) (id config : String) (tty : Bool)
    (network : Network) :
    Alone E (fun _ _ => True) (fun pid _ => pid ≠ 0) s (create base bundle id config tty network) := by
  unfold create
  refine .bind .any fun _ _ _ => .bind .any fun _ _ _ => .bind .any fun _ _ _ => .bind .any fun _ _ _ => ?_
  refine .bind .any fun _ _ _ => .bind .any fun _ _ _ => .bind .any fun _ _ _ => .bind .any fun _ _ _ => ?_
  refine .bind .any fun _ _ _ => .bind .any fun _ _ _ => .bind .any fun _ _ _ => ?_
  refine .bind .any fun raw _ _ => .ofExcept fun pid hpid => ?_
  unfold fromRaw at hpid
  split at hpid
  · cases hpid
  next hne =>
    cases hpid
    exact hne

theorem supervise_only (pid : Int) (tty : Bool) (network : Network) :
    (supervise pid tty network).Only fun op : RunOp => op.apart = true ∨ op = .wait pid := by
  have happart : ∀ {op : RunOp} {read : op.Res → Except String Unit}, op.apart = true →
      (Prog.ask op read : RunAct Unit).Only fun op : RunOp => op.apart = true ∨ op = .wait pid :=
    fun hop => .ask (.inl hop)
  refine keeping_only (happart rfl) (happart rfl) (.bind (happart rfl) fun _ => ?_)
  refine keeping_only (happart rfl) (happart rfl) (keeping_only (happart rfl) (happart rfl) ?_)
  exact .bind (.ask (.inr rfl)) fun code => .bind (onlyIf_only (happart rfl)) fun _ => trivial

-- ---------------------------------------------------------------------------
-- Every run is a relay
-- ---------------------------------------------------------------------------

/-- The relay can be at a point, with the machine's statics. -/
def Reached (s₀ : Signals) (p : Point) (m : Machine) : Prop := ReflTransGen Relay (.before, s₀) (p, m.signals)

def AtOp (s₀ : Signals) (op : RunOp) (m : Machine) : Prop := ∃ p : Point, Reached s₀ p m ∧ p.Admits op

def AtEnd (s₀ : Signals) (m : Machine) : Prop := Reached s₀ .before m ∨ Reached s₀ .done m

abbrev amid : Effects runOps Machine := interruptible RunOp.effect Handled

theorem Reached.handled (h : Reached s₀ p m) (hh : Handled m m') : Reached s₀ p m' := by
  obtain ⟨signum, hmem, rfl⟩ := hh
  exact h.tail (.handle hmem)

theorem Reached.apart (h : Reached s₀ p m) (he : RunOp.effect op m r m') (hop : op.apart = true) :
    Reached s₀ p m' := by
  rw [Reached, apart_signals he hop]
  exact h

theorem Reached.early (h : Reached s₀ .before m) (he : RunOp.effect op m r m') (hop : Early op) :
    Reached s₀ .before m' := by
  have hinstall : ∀ signum, Forwarded signum → ∀ r : Except IoError Unit,
      RunOp.effect (.sigaction signum) m r m' → Reached s₀ .before m' := by
    intro signum hsignum r he
    cases r with
    | ok _ => exact (show m' = _ from he) ▸ h.tail (.install hsignum)
    | error e => exact (show m' = m from he) ▸ h
  rcases hop with hop | rfl | rfl
  · exact h.apart he hop
  · exact hinstall _ (.inl rfl) r he
  · exact hinstall _ (.inr rfl) r he

theorem early_ends {p : RunAct α} (h : Reached s₀ .before m) (honly : p.Only Early) (hseq : p.Sequential) :
    Ends amid (AtOp s₀) (fun _ m' => Reached s₀ .before m') m p :=
  .steady honly hseq h (fun _ _ => Reached.handled) (fun _ _ _ _ hop h he => h.early he hop)
    fun _ _ hop h => ⟨.before, h, .inl hop⟩

theorem delivering_ends (h : Reached s₀ .before m) (hpid : pid ≠ 0) :
    Ends amid (AtOp s₀) (Ends.Outcome (fun _ => False) fun _ m' => Reached s₀ (.running pid) m') m
      (deliverPending pid) := by
  unfold deliverPending
  refine Ends.kept_bind ⟨.before, h, .inr ⟨pid, rfl⟩⟩ h (fun _ _ => Reached.handled)
    (fun m₁ r m₂ _ h₁ he _ => ?_) fun _ _ _ _ _ _ hread => by cases hread
  have h₂ : Reached s₀ (.stored pid) m₂ := (show m₂ = _ from he) ▸ h₁.tail (.store hpid)
  refine Ends.kept_bind ⟨.stored pid, h₂, rfl⟩ h₂ (fun _ _ => Reached.handled)
    (fun m₃ (pending : Int) m₄ _ h₃ he hread => ?_) fun _ _ _ _ _ _ hread => by cases hread
  cases hread
  obtain ⟨rfl, rfl⟩ := he
  have h₄ := h₃.tail (.take (s := m₃.signals))
  split
  next hnone => exact .ret (h₄.tail (.pass hnone))
  next signal hsome =>
    refine Ends.kept_bind ⟨_, h₄, rfl⟩ h₄ (fun _ _ => Reached.handled)
      (fun m₅ (forwarded : Bool) m₆ _ h₅ he hread => ?_) fun _ _ _ _ _ _ hread => by cases hread
    cases hread
    obtain ⟨hforwarded, rfl⟩ := he
    cases forwarded with
    | true => exact .ret (h₅.tail (.drop hsome hforwarded.symm))
    | false =>
      have h₆ : Reached s₀ (.swapped pid signal)
          { m₅ with signals := { m₅.signals with forwarded := true }.note .swapped } :=
        h₅.tail (.swap hsome hforwarded.symm)
      refine Ends.ask ⟨_, h₆, rfl⟩ fun r m' he => ?_
      obtain ⟨m₇, hint, rfl⟩ := he
      have h₇ : Reached s₀ (.swapped pid signal) m₇ := kept (fun _ _ => Reached.handled) h₆ hint
      exact h₇.tail .kill

theorem finishing_ends (h : Reached s₀ (.running pid) m) (stateRoot bundle : Place) (id : String) (tty : Bool)
    (network : Network) :
    Ends amid (AtOp s₀) (fun _ m' => AtEnd s₀ m') m (do
      let result ← (supervise pid tty network).attempt
      .ask .clearPid .ok
      .ask (.deleteContainer stateRoot id) .ok
      .ask (.removeDirAll bundle) .ok
      .ofExcept result) := by
  have hwaits : ∀ op r m m', op.apart = true ∨ op = .wait pid → Reached s₀ (.running pid) m →
      RunOp.effect op m r m' → Reached s₀ (.running pid) m' := by
    rintro op r m m' (hop | rfl) h he
    · exact h.apart he hop
    · dsimp only [RunOp.effect] at he
      split at he
      · exact he ▸ h.tail .reap
      · exact he ▸ h
  refine Ends.attempt_bind (.steady (supervise_only pid tty network) (supervise_sequential pid tty network) h
    (fun _ _ => Reached.handled) hwaits fun op m hop h => ⟨_, h, hop.imp_right .inl⟩) fun result m₁ h₁ => ?_
  refine Ends.kept_bind ⟨_, h₁, .inr (.inr rfl)⟩ h₁ (fun _ _ => Reached.handled)
    (fun m₂ r m₃ _ h₂ he _ => ?_) fun _ _ _ _ _ _ hread => by cases hread
  have h₃ : Reached s₀ .done m₃ := (show m₃ = _ from he) ▸ h₂.tail .clear
  have hdone : Ends amid (AtOp s₀) (fun _ m' => Reached s₀ .done m') m₃ (do
      .ask (.deleteContainer stateRoot id) .ok
      .ask (.removeDirAll bundle) .ok
      .ofExcept result) := by
    have honly : Prog.Only (fun op : RunOp => op.apart = true) (do
        .ask (.deleteContainer stateRoot id) .ok
        .ask (.removeDirAll bundle) .ok
        .ofExcept result : RunAct Int) :=
      .bind (.ask rfl) fun _ => .bind (.ask rfl) fun _ => .ofExcept result
    refine .steady honly ?_ h₃ (fun _ _ => Reached.handled) (fun _ _ _ _ hop h he => h.apart he hop)
      fun _ _ hop h => ⟨.done, h, hop⟩
    exact .bind (.ask _ _) fun _ => .bind (.ask _ _) fun _ => .ofExcept result
  exact hdone.weaken fun _ _ h => .inr h

theorem run_ends_amid (m : Machine) (base : Place) (config : String) (tty : Bool) (network : Network) :
    Ends amid (AtOp m.signals) (fun _ m' => AtEnd m.signals m') m (run base config tty network) := by
  have hcreated : ∀ {bundle id m₁}, Reached m.signals .before m₁ → Ends amid (AtOp m.signals)
      (fun r m' => Reached m.signals .before m' ∧ ∀ pid, r = .ok pid → pid ≠ 0) m₁
      (create base bundle id config tty network) := fun h =>
    Alone.both (early_ends h (create_only ..) (create_sequential ..)) (Alone.attempt (create_pid _ _ _ _ _ _ _ _))
  unfold run
  refine Ends.bind (early_ends .refl (.ask (.inl rfl)) (.ask _ _)) (fun _ m₁ h₁ => ?_) fun _ _ => .inl
  refine Ends.bind (early_ends h₁ (.ask (.inl rfl)) (.ask _ _)) (fun unique m₂ h₂ => ?_) fun _ _ => .inl
  refine Ends.bind (early_ends h₂ (.ask (.inl rfl)) (.ask _ _)) (fun _ m₃ h₃ => ?_) fun _ _ => .inl
  refine Ends.bind (hcreated h₃) (fun pid m₄ h₄ => ?_) fun _ _ h => .inl h.1
  refine Ends.bind (delivering_ends h₄.1 (h₄.2 pid rfl)) (fun _ m₅ h₅ => ?_) fun _ _ h => h.elim
  exact finishing_ends h₅ _ _ _ tty network

/-- Every run, interrupted or not, is a run of the relay, and goes on from
where the relay is. -/
theorem run_refines (hs : Interrupted RunOp.effect Handled m (run base config tty network) m' q) :
    ∃ p : Point, Reached m.signals p m' ∧ p.At q := by
  have hseq := hs.sequential (run_sequential base config tty network)
  obtain ⟨t, hrest, hop, hvalue, herror⟩ := hs.ready (run_ends_amid m base config tty network)
  have hkept : ∀ {p}, Reached m.signals p t → Reached m.signals p m' := fun h =>
    kept (fun _ _ => Reached.handled) h hrest
  cases q with
  | ret a =>
    rcases hvalue a rfl with h | h
    · exact ⟨.before, hkept h, by simp, fun _ => .inl rfl⟩
    · exact ⟨.done, hkept h, by simp, fun _ => .inr rfl⟩
  | throw e =>
    rcases herror e rfl with h | h
    · exact ⟨.before, hkept h, by simp, fun _ => .inl rfl⟩
    · exact ⟨.done, hkept h, by simp, fun _ => .inr rfl⟩
  | call op next =>
    obtain ⟨p, h, hadmits⟩ := hop op next rfl
    exact ⟨p, hkept h, fun _ _ heq => by cases heq; exact hadmits, fun hended => by cases hended⟩
  | fork limit count tasks next => exact hseq.elim

end Climate.Runtime
