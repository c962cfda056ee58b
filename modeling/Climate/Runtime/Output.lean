import Climate.Lib.Copying
import Climate.Runtime.Relay

/-!
# What an app prints

A run with a terminal, together with the two threads that copy between the
terminals and with the container, which prints and reads as it likes. The main
thread waits for the container and then for the thread that copies its output.
-/

namespace Climate.Runtime

open UnixPath Prog Copying
open Relation (ReflTransGen)

-- ---------------------------------------------------------------------------
-- The threads
-- ---------------------------------------------------------------------------

abbrev Byte := BitVec 8

def copy (rounds : Nat) : CopyAct Byte Bool := copyLoop true rounds

/-- What is typed goes to the container, what it prints comes from it. -/
inductive Way
  | input
  | output
  deriving DecidableEq, Repr

/-- Stdout buffers, the end of the container's terminal does not. -/
def Way.kind : Way → Copying.Kind
  | .input => ⟨8192, false, true⟩
  | .output => ⟨8192, true, true⟩

def copiers (rounds : Nat) : Way → CopyAct Byte Bool := fun _ => copy rounds

inductive Status
  | exited (code : Int)
  | signaled (signal : Int)
  deriving DecidableEq, Repr

/-- What a shell makes of it. -/
def Status.code : Status → Int
  | .exited code => code
  | .signaled signal => 128 + signal

/-- What a reply of wait(2) says of a process. -/
def WaitReply.about (pid : Int) : WaitReply → Option Status
  | .exited p code => if p = pid then some (.exited code) else none
  | .signaled p signal => if p = pid then some (.signaled signal) else none
  | .other | .interrupted | .noChild | .failed => none

/-- `container` is the pid of the container's first process, and `status` how
that process ended. -/
structure Session where
  machine : Machine
  container : Option Int := none
  status : Option Status := none
  console : Copiers Way Byte

namespace Session

def withMachine (s : Session) (m : Machine) : Session := { s with machine := m }

@[simp] theorem withMachine_container (s : Session) (m : Machine) : (s.withMachine m).container =
    s.container := rfl

@[simp] theorem withMachine_status (s : Session) (m : Machine) : (s.withMachine m).status = s.status := rfl

@[simp] theorem withMachine_console (s : Session) (m : Machine) : (s.withMachine m).console = s.console := rfl

def start (m : Machine) : Session where
  machine := m
  console := { part := fun _ => {}, replies := fun _ => none }

end Session

inductive Meanwhile (rounds : Nat) (s : Session) : Session → Prop
  | handled : Handled s.machine m → Meanwhile rounds s (s.withMachine m)
  | turn : Copiers.Turn Way.kind (copiers rounds) s.console c → Meanwhile rounds s { s with console := c }
  | exit (st : Status) : s.status = none → Meanwhile rounds s { s with status := some st }

/-- Beyond the machine. The threads are started right after the forwarding of
resizes, and the one joined is the one that copies the output. -/
def Beside (rounds : Nat) : (op : RunOp) → Session → op.Res → Session → Prop
  | .buildContainer _ _, s, r, s' => match r with
    | .ok pid => s' = { s.withMachine s'.machine with container := pid }
    | .error _ => s' = s.withMachine s'.machine
  | .resize, s, r, s' => match r with
    | .ok () => s' = { s.withMachine s'.machine with console := s.console.spawn }
    | .error _ => s' = s.withMachine s'.machine
  | .wait pid, s, r, s' => s' = s.withMachine s'.machine ∧ (s.container = some pid →
      ∀ reply ∈ r.1, ∀ st, reply.about pid = some st → s.status = some st)
  | .joinPump, s, _, s' => s' = s.withMachine s'.machine ∧ s.console.At (copiers rounds) .output (.ret true)
  | _, s, _, s' => s' = s.withMachine s'.machine

def sessionEffect (rounds : Nat) : Effects runOps Session :=
  fun op s r s' => RunOp.effect op s.machine r s'.machine ∧ Beside rounds op s r s'

-- ---------------------------------------------------------------------------
-- What the main thread leaves alone
-- ---------------------------------------------------------------------------

def RunOp.attaches : RunOp → Bool
  | .buildContainer .. | .resize => true
  | _ => false

variable {rounds : Nat} {s s' : Session}

abbrev Session.Apart (rounds : Nat) (s : Session) : Prop := Copiers.Apart Way.kind (copiers rounds) s.console

structure Session.Alone (rounds : Nat) (s : Session) : Prop where
  apart : s.Apart rounds
  idle : ∀ i, s.console.replies i = none

/-- The main thread's answer is the container's own, and the thread that
copies its output has ended. -/
structure Reported (rounds : Nat) (tty : Bool) (code : Int) (s : Session) : Prop where
  status : ∃ st, s.status = some st ∧ st.code = code
  output : tty = true → s.console.At (copiers rounds) .output (.ret true)

def Vouched (rounds : Nat) (tty : Bool) (r : Except String Int) (s : Session) : Prop :=
  s.Apart rounds ∧ ∀ code, r = .ok code → Reported rounds tty code s

theorem Meanwhile.apart (h : s.Apart rounds) (ht : Meanwhile rounds s s') : s'.Apart rounds := by
  cases ht with
  | handled _ | exit _ _ => exact h
  | turn hturn => exact Copiers.Apart.turn h hturn

theorem Meanwhile.container (ht : Meanwhile rounds s s') : s'.container = s.container := by
  cases ht <;> rfl

theorem Meanwhile.alone (h : s.Alone rounds) (ht : Meanwhile rounds s s') : s'.Alone rounds := by
  refine ⟨ht.apart h.apart, fun i => ?_⟩
  cases ht with
  | handled _ | exit _ _ => exact h.idle i
  | turn hturn => exact hturn.idle (h.idle i)

theorem Meanwhile.reported (h : Reported rounds tty code s) (ht : Meanwhile rounds s s') :
    Reported rounds tty code s' := by
  obtain ⟨⟨st, hst, hcode⟩, houtput⟩ := h
  cases ht with
  | handled _ => exact ⟨⟨st, hst, hcode⟩, houtput⟩
  | exit _ hnone => cases hst.symm.trans hnone
  | turn hturn => exact ⟨⟨st, hst, hcode⟩, fun htty => hturn.ended (houtput htty)⟩

theorem Meanwhile.vouched (h : Vouched rounds tty r s) (ht : Meanwhile rounds s s') : Vouched rounds tty r s' :=
  ⟨ht.apart h.1, fun code hr => ht.reported (h.2 code hr)⟩

/-- Every other operation leaves what is beside the machine alone. -/
theorem sessionEffect.beside {r : op.Res} (he : sessionEffect rounds op s r s') (hop : op.attaches = false) :
    s' = s.withMachine s'.machine := by
  obtain ⟨-, hbeside⟩ := he
  cases op with
  | resize | buildContainer _ _ => cases hop
  | wait _ | joinPump => exact hbeside.1
  | _ => exact hbeside

-- ---------------------------------------------------------------------------
-- The run
-- ---------------------------------------------------------------------------

abbrev attended (rounds : Nat) : Effects runOps Session := interruptible (sessionEffect rounds) (Meanwhile rounds)

def Beheld (rounds : Nat) : RunOp → Session → Prop := fun _ s => s.Apart rounds

/-- What depends on nothing but what is beside the machine, and is not changed
in between. -/
structure Lasting (rounds : Nat) (J : Session → Prop) : Prop where
  apart : ∀ s, J s → s.Apart rounds
  machine : ∀ s m, J s → J (s.withMachine m)
  meanwhile : ∀ s s', J s → Meanwhile rounds s s' → J s'

theorem Lasting.steady (hJ : Lasting rounds J) {p : RunAct α}
    (honly : p.Only fun op : RunOp => op.attaches = false)
    (hseq : p.Sequential) (hs : J s) : Ends (attended rounds) (Beheld rounds) (fun _ => J) s p :=
  .steady honly hseq hs hJ.meanwhile (fun _ _ s _ hop hs he => he.beside hop ▸ hJ.machine s _ hs)
    fun _ s _ hs => hJ.apart s hs

theorem alone_lasting (rounds : Nat) : Lasting rounds (Session.Alone rounds) where
  apart _ h := h.apart
  machine _ _ h := ⟨h.apart, h.idle⟩
  meanwhile _ _ h ht := ht.alone h

theorem created_lasting (rounds : Nat) (pid : Option Int) :
    Lasting rounds fun s => s.Alone rounds ∧ s.container = pid where
  apart _ h := h.1.apart
  machine _ _ h := ⟨⟨h.1.apart, h.1.idle⟩, h.2⟩
  meanwhile _ _ h ht := ⟨ht.alone h.1, ht.container.trans h.2⟩

theorem attached_lasting (rounds : Nat) (pid : Option Int) :
    Lasting rounds fun s => s.Apart rounds ∧ s.container = pid where
  apart _ h := h.1
  machine _ _ h := h
  meanwhile _ _ h ht := ⟨ht.apart h.1, ht.container.trans h.2⟩

theorem vouched_lasting (rounds : Nat) (tty : Bool) (r : Except String Int) :
    Lasting rounds (Vouched rounds tty r) where
  apart _ h := h.1
  machine _ _ h := ⟨h.1, fun code hr => ⟨(h.2 code hr).status, (h.2 code hr).output⟩⟩
  meanwhile _ _ h ht := ht.vouched h

theorem waitOutcome_about (h : waitOutcome pid replies = some (.ok code)) :
    ∃ reply ∈ replies, ∃ st, reply.about pid = some st ∧ st.code = code := by
  induction replies with
  | nil => cases h
  | cons reply rest ih =>
    have hlater : waitOutcome pid rest = some (.ok code) →
        ∃ later ∈ reply :: rest, ∃ st, later.about pid = some st ∧ st.code = code := by
      intro h
      obtain ⟨later, hmem, hsays⟩ := ih h
      exact ⟨later, List.mem_cons_of_mem _ hmem, hsays⟩
    cases reply with
    | exited p _ =>
      simp only [waitOutcome] at h
      split at h
      next hp =>
        cases h
        exact ⟨_, List.mem_cons_self, .exited code, by simp [WaitReply.about, hp], rfl⟩
      · exact hlater h
    | signaled p signal =>
      simp only [waitOutcome] at h
      split at h
      next hp =>
        cases h
        exact ⟨_, List.mem_cons_self, .signaled signal, by simp [WaitReply.about, hp], rfl⟩
      · exact hlater h
    | other | interrupted => exact hlater h
    | noChild | failed => cases h

theorem wait_ends (h : s.Apart rounds) (hpid : s.container = some pid) :
    Ends (attended rounds) (Beheld rounds) (fun r s' => Vouched rounds false r s') s (wait pid) := by
  refine Ends.ask h fun (replies : Waited pid) s' he => ?_
  obtain ⟨s₁, hints, -, hsame, htrue⟩ := he
  have hlasting := attached_lasting rounds (some pid)
  obtain ⟨hapart, hcontainer⟩ := kept hlasting.meanwhile ⟨h, hpid⟩ hints
  rw [hsame]
  refine ⟨hapart, fun code hcode => ⟨?_, fun htty => by cases htty⟩⟩
  have houtcome : waitOutcome pid replies.1 = some (.ok code) := by
    rw [← hcode]
    exact (Option.some_get _).symm
  obtain ⟨reply, hmem, st, hsays, hst⟩ := waitOutcome_about houtcome
  exact ⟨st, htrue hcontainer reply hmem st hsays, hst⟩

theorem waiting_ends (h : s.Apart rounds) (hpid : s.container = some pid) :
    Ends (attended rounds) (Beheld rounds) (Vouched rounds tty) s (do
      let code ← wait pid
      onlyIf tty (.ask .joinPump .ok)
      return code) := by
  refine Ends.bind (wait_ends h hpid) (fun code s₁ h₁ => ?_) fun e s₁ h₁ => ⟨h₁.1, fun _ hr => by cases hr⟩
  obtain ⟨hapart, hcode⟩ := h₁
  cases tty with
  | false => exact .ret ⟨hapart, fun _ hr => by cases hr; exact hcode code rfl⟩
  | true =>
    have hlasting := vouched_lasting rounds false (.ok code)
    refine Ends.kept_bind hapart ⟨hapart, hcode⟩ hlasting.meanwhile (fun s₂ r s₃ _ h₂ he _ => .ret ?_)
      fun _ _ _ _ _ _ hread => by cases hread
    obtain ⟨-, hsame, hended⟩ := he
    rw [hsame]
    refine ⟨h₂.1, fun _ hr => ?_⟩
    cases hr
    exact ⟨(h₂.2 code rfl).status, fun _ => hended⟩

/-- What is kept for as long as the body runs, where its end keeps what is
known of the result. -/
theorem keeping_ends {acquire release : RunAct Unit} {body : RunAct α} {E : Effects runOps σ}
    {pre : RunOp → σ → Prop} {Q : Except String α → σ → Prop}
    (hno : wanted = false → Ends E pre Q x body)
    (hacquire : wanted = true →
      Ends E pre (Ends.Outcome (fun y => ∀ e, Q (.error e) y) fun _ y => Ends E pre Q y body) x acquire)
    (hrelease : ∀ r y, Q r y → Ends E pre (Ends.Outcome (fun _ => False) fun _ => Q r) y release) :
    Ends E pre Q x (keeping wanted acquire release body) := by
  cases wanted with
  | false => exact hno rfl
  | true =>
    refine Ends.bind (hacquire rfl) (fun _ s₁ h₁ => ?_) fun e s₁ h₁ => h₁ e
    refine Ends.attempt_bind h₁ fun r s₂ h₂ => ?_
    exact Ends.bind (hrelease r s₂ h₂) (fun _ s₃ h₃ => .ofExcept h₃) fun _ _ h => h.elim

theorem acquire_ends {op : RunOp} {read : op.Res → Except String Unit} {J : Session → Prop}
    (hJ : Lasting rounds J)
    (hs : J s) (hop : op.attaches = false) {Q : Except String Int → Session → Prop}
    (hQ : ∀ e s, J s → Q (.error e) s) {body : RunAct Int}
    (hbody : ∀ s, J s → Ends (attended rounds) (Beheld rounds) Q s body) :
    Ends (attended rounds) (Beheld rounds) (Ends.Outcome (fun y => ∀ e, Q (.error e) y)
      fun _ y => Ends (attended rounds) (Beheld rounds) Q y body) s (.ask op read) := by
  refine (hJ.steady (.ask hop) (.ask _ _) hs).weaken fun r y hy => ?_
  cases r with
  | error e => exact fun e => hQ e y hy
  | ok _ => exact hbody y hy

theorem release_ends {op : RunOp} {read : op.Res → Except String Unit} (hop : op.attaches = false)
    (hread : ∀ reply, read reply = .ok ()) (r : Except String Int) (h : Vouched rounds tty r s) :
    Ends (attended rounds) (Beheld rounds) (Ends.Outcome (fun _ => False) fun _ => Vouched rounds tty r) s
      (.ask op read) := by
  refine Ends.ask h.1 fun reply s' he => ?_
  obtain ⟨s₁, hints, he⟩ := he
  rw [hread]
  have hlasting := vouched_lasting rounds tty r
  exact (he.beside hop) ▸ hlasting.machine s₁ _ (kept hlasting.meanwhile h hints)

theorem supervise_ends (h : s.Alone rounds) (hpid : s.container = some pid) :
    Ends (attended rounds) (Beheld rounds) (Vouched rounds tty) s (supervise pid tty network) := by
  have hcreated := created_lasting rounds (some pid)
  have hattached := attached_lasting rounds (some pid)
  have hfails : ∀ e s, (s.Alone rounds ∧ s.container = some pid) → Vouched rounds tty (.error e) s :=
    fun e s hs => ⟨hs.1.apart, fun _ hr => by cases hr⟩
  -- the threads start once resizes are forwarded
  have hresized : ∀ s, (s.Alone rounds ∧ s.container = some pid) → tty = true →
      Ends (attended rounds) (Beheld rounds)
        (Ends.Outcome (fun y => ∀ e, Vouched rounds tty (.error e) y)
          fun _ y => Ends (attended rounds) (Beheld rounds) (Vouched rounds tty) y (do
            let code ← wait pid
            onlyIf tty (.ask .joinPump .ok)
            return code)) s (.ask .resize (orElseOf resizeErrors)) := by
    intro s hs _
    refine Ends.ask hs.1.apart fun (r : Except (Fin resizeErrors.length) Unit) s' he => ?_
    obtain ⟨s₁, hints, -, hbeside⟩ := he
    have h₁ := kept hcreated.meanwhile hs hints
    cases r with
    | error e => exact fun e => hbeside ▸ hfails e _ (hcreated.machine _ _ h₁)
    | ok _ =>
      have hs' : s' = { s₁.withMachine s'.machine with console := s₁.console.spawn } := hbeside
      rw [hs']
      exact waiting_ends (h₁.1.apart.spawn h₁.1.idle) h₁.2
  have hsized : ∀ s, (s.Alone rounds ∧ s.container = some pid) → Ends (attended rounds) (Beheld rounds)
      (Vouched rounds tty) s (keeping tty (.ask .resize (orElseOf resizeErrors))
        (.ask .dropResize .ok) do
          let code ← wait pid
          onlyIf tty (.ask .joinPump .ok)
          return code) := fun s hs =>
    keeping_ends (fun _ => waiting_ends hs.1.apart hs.2) (hresized s hs) fun r _ h =>
      release_ends rfl (fun _ => rfl) r h
  have hstarted : ∀ s, (s.Alone rounds ∧ s.container = some pid) → Ends (attended rounds) (Beheld rounds)
      (Vouched rounds tty) s (do
        .ask .startContainer (orElse "starting the container")
        keeping tty (.ask .rawMode (orElseOf rawModeErrors)) (.ask .dropRaw .ok) <|
          keeping tty (.ask .resize (orElseOf resizeErrors)) (.ask .dropResize .ok) do
            let code ← wait pid
            onlyIf tty (.ask .joinPump .ok)
            return code) := by
    intro s hs
    refine Ends.bind (hcreated.steady (.ask rfl) (.ask _ _) hs) (fun _ s₁ h₁ => ?_) fun e s₁ h₁ => hfails e s₁ h₁
    refine keeping_ends (fun _ => hsized s₁ h₁) (fun _ => ?_) fun r _ h => release_ends rfl (fun _ => rfl) r h
    exact acquire_ends hcreated h₁ rfl hfails hsized
  unfold supervise
  refine keeping_ends (fun _ => hstarted s ⟨h, hpid⟩) (fun _ => ?_) fun r _ h =>
    release_ends rfl (fun _ => rfl) r h
  exact acquire_ends hcreated ⟨h, hpid⟩ rfl hfails hstarted

def Created (rounds : Nat) (r : Except String Int) (s : Session) : Prop :=
  s.Alone rounds ∧ ∀ pid, r = .ok pid → s.container = some pid

theorem creating_ends (h : s.Alone rounds) (base bundle : Place) (id config : String) (tty : Bool)
    (network : Network) :
    Ends (attended rounds) (Beheld rounds) (Created rounds) s (create base bundle id config tty network) := by
  have halone := alone_lasting rounds
  have hask : ∀ {s} {op : RunOp} {read : op.Res → Except String Unit}, op.attaches = false → s.Alone rounds →
      Ends (attended rounds) (Beheld rounds) (fun _ => Session.Alone rounds) s (.ask op read) := fun hop hs =>
    halone.steady (.ask hop) (.ask _ _) hs
  have hnull : ∀ {s} stream, s.Alone rounds →
      Ends (attended rounds) (Beheld rounds) (fun _ => Session.Alone rounds) s (swapNull stream) :=
        fun stream hs =>
    halone.steady (.bind (.ask rfl) fun _ => onlyIf_only (.ask rfl))
      (.bind (.ask _ _) fun _ => onlyIf_sequential (.ask _ _)) hs
  have hfails : ∀ e s, s.Alone rounds → Created rounds (.error e) s := fun e s hs => ⟨hs, fun _ hr => by cases hr⟩
  unfold create
  refine Ends.bind (hask rfl h) (fun _ s₁ h₁ => ?_) hfails
  refine Ends.bind (halone.steady (onlyIf_only (.bind (.ask rfl) fun _ => .ask rfl))
    (onlyIf_sequential (.bind (.ask _ _) fun _ => .ask _ _)) h₁) (fun _ s₂ h₂ => ?_) hfails
  refine Ends.bind (hask rfl h₂) (fun _ s₃ h₃ => ?_) hfails
  refine Ends.bind (hask rfl h₃) (fun _ s₄ h₄ => ?_) hfails
  refine Ends.bind (halone.steady (.forM fun _ _ => .ask rfl) (.forM fun _ => .ask _ _) h₄)
    (fun _ s₅ h₅ => ?_) hfails
  refine Ends.bind (halone.steady (onlyIf_only (.ask rfl)) (onlyIf_sequential (.ask _ _)) h₅)
    (fun _ s₆ h₆ => ?_) hfails
  refine Ends.bind (hask rfl h₆) (fun _ s₇ h₇ => ?_) hfails
  refine Ends.bind (hnull _ h₇) (fun _ s₈ h₈ => ?_) hfails
  refine Ends.bind (hnull _ h₈) (fun _ s₉ h₉ => ?_) hfails
  refine Ends.kept_bind h₉.apart h₉ halone.meanwhile
    (fun t₁ (r : Except IoError (Option Int)) t₂ created ht₁ he hread => ?_)
    fun t₁ (r : Except IoError (Option Int)) t₂ e ht₁ he hread => ?_
  · obtain ⟨-, hbeside⟩ := he
    obtain rfl := orElse_ok.mp hread
    have ht₂ : t₂.Alone rounds ∧ t₂.container = created := by
      rw [show t₂ = { t₁.withMachine t₂.machine with container := created } from hbeside]
      exact ⟨⟨ht₁.apart, ht₁.idle⟩, rfl⟩
    refine Ends.bind ((created_lasting rounds created).steady (onlyIf_only (.ask rfl))
      (onlyIf_sequential (.ask _ _)) ht₂)
      (fun _ t₃ ht₃ => ?_) fun e t ht => hfails e t ht.1
    refine Ends.ofExcept_bind (fun raw hraw => .ofExcept ⟨ht₃.1, fun pid hpid => ?_⟩) fun e _ => hfails e t₃ ht₃.1
    have hsame : raw = pid := by
      unfold fromRaw at hpid
      split at hpid
      · cases hpid
      · cases hpid
        rfl
    rw [ht₃.2, ← hsame]
    cases created with
    | none => cases hraw
    | some raw' =>
      cases hraw
      rfl
  · cases r with
    | ok pid => cases hread
    | error _ =>
      have hbeside : t₂ = t₁.withMachine t₂.machine := he.2
      rw [hbeside]
      exact hfails e _ (halone.machine _ _ ht₁)

theorem deliverPending_plain (pid : Int) : (deliverPending pid).Only fun op : RunOp => op.attaches = false := by
  refine .bind (.ask rfl) fun _ => .bind (.ask rfl) fun pending => ?_
  split
  · trivial
  · exact .bind (.ask rfl) fun _ => onlyIf_only (.ask rfl)

theorem run_ends_attended (h : s.Alone rounds) (base : Place) (config : String) (tty : Bool) (network : Network) :
    Ends (attended rounds) (Beheld rounds) (Vouched rounds tty) s (run base config tty network) := by
  have halone := alone_lasting rounds
  have hfails : ∀ e (s : Session), s.Alone rounds → Vouched rounds tty (.error e) s := fun e s hs =>
    ⟨hs.apart, fun _ hr => by cases hr⟩
  unfold run
  refine Ends.bind (halone.steady (.ask rfl) (.ask _ _) h) (fun _ s₁ h₁ => ?_) hfails
  refine Ends.bind (halone.steady (.ask rfl) (.ask _ _) h₁) (fun unique s₂ h₂ => ?_) hfails
  refine Ends.bind (halone.steady (.ask rfl) (.ask _ _) h₂) (fun _ s₃ h₃ => ?_) hfails
  refine Ends.bind (creating_ends h₃ _ _ _ _ _ _) (fun pid s₄ h₄ => ?_) fun e s hs => hfails e s hs.1
  have hcreated := created_lasting rounds (some pid)
  refine Ends.bind (hcreated.steady (deliverPending_plain pid) (deliverPending_sequential pid)
    ⟨h₄.1, h₄.2 pid rfl⟩)
    (fun _ s₅ h₅ => ?_) fun e s hs => hfails e s hs.1
  refine Ends.attempt_bind (supervise_ends h₅.1 h₅.2) fun result s₆ h₆ => ?_
  have hclose : ∀ {s} {op : RunOp} {read : op.Res → Except String Unit}, op.attaches = false →
      (∀ reply, read reply = .ok ()) → Vouched rounds tty result s → Ends (attended rounds) (Beheld rounds)
        (Ends.Outcome (fun _ => False) fun _ => Vouched rounds tty result) s (.ask op read) := fun hop hread hs =>
    release_ends hop hread result hs
  refine Ends.bind (hclose rfl (fun _ => rfl) h₆) (fun _ s₇ h₇ => ?_) fun _ _ h => h.elim
  refine Ends.bind (hclose rfl (fun _ => rfl) h₇) (fun _ s₈ h₈ => ?_) fun _ _ h => h.elim
  exact Ends.bind (hclose rfl (fun _ => rfl) h₈) (fun _ s₉ h₉ => .ofExcept h₉) fun _ _ h => h.elim

theorem start_alone (m : Machine) : (Session.start m).Alone rounds where
  apart := ⟨fun _ _ => ⟨rfl, rfl, rfl, rfl, rfl, rfl⟩, fun _ hthere => (by cases hthere),
    fun _ _ hq => by obtain ⟨_, hlog, -⟩ := hq; cases hlog⟩
  idle _ := rfl

theorem copy_copied {way : Way} {q : CopyAct Byte Bool} (h : s.Apart rounds)
    (hq : s.console.At (copiers rounds) way q) :
    Copied rounds (s.console.part way) q := by
  refine Copiers.Apart.copied h (copyLoop_faithful (.inl rfl) rounds) ?_ hq
  exact copyLoop_sequential true rounds

/-- At any time each terminal has been given what came from the other one, in
order and up to some point, and all of it where the thread that copies it has
nothing to do. A run that ends with a code ends with the container's own, after
all that was printed has come out. -/
theorem printed_comes_out (hs : Interrupted (sessionEffect rounds) (Meanwhile rounds) (.start m)
    (run base config tty network) s q) :
    (∀ way, (s.console.part way).out <+: (s.console.part way).sent) ∧
    (∀ way q, s.console.At (copiers rounds) way q → Still way.kind (s.console.part way) q →
      (∃ ended, q = .ret ended) ∨ (s.console.part way).out = (s.console.part way).sent) ∧
    (∀ way, s.console.At (copiers rounds) way (.ret false) →
      rounds ≤ (s.console.part way).sent.length + (s.console.part way).interrupts) ∧
    ∀ code, q = .ret code → (∃ st, s.status = some st ∧ st.code = code) ∧
      (tty = true → (s.console.part .output).Complete) := by
  obtain ⟨t, hrest, hop, hvalue, herror⟩ := hs.ready (run_ends_attended (start_alone m) base config tty network)
  have hseq := hs.sequential (run_sequential base config tty network)
  have hapart : s.Apart rounds := by
    refine kept (J := Session.Apart rounds) (fun _ _ h ht => ht.apart h) ?_ hrest
    cases q with
    | ret code => exact (hvalue code rfl).1
    | throw e => exact (herror e rfl).1
    | call op next => exact hop op next rfl
    | fork limit count tasks next => exact hseq.elim
  refine ⟨fun way => ?_, fun way q hq hstill => ?_, fun way hover => (copy_copied hapart hover).goes rfl,
    fun code hq => ?_⟩
  · cases hlog : s.console.replies way with
    | none => simp [(hapart.idle way hlog).out]
    | some log =>
      obtain ⟨q, hq⟩ := hapart.there way (by simp [hlog])
      exact (copy_copied hapart hq).sound.out_sent
  · have hsize : 0 < way.kind.size := by cases way <;> decide
    exact ((copy_copied hapart hq).still (hq.sequential
      (copyLoop_sequential true rounds)) hsize hstill).imp_right And.left
  · have hreported := kept (fun _ _ h ht => ht.reported h) ((hvalue code hq).2 code rfl) hrest
    exact ⟨hreported.status, fun htty => (copy_copied hapart (hreported.output htty)).ended rfl⟩

namespace Workshop

def place : (op : RunOp) → Session → op.Res → Machine → Option Session
  | .buildContainer _ _, s, r, m => match r with
    | .ok pid => some { s.withMachine m with container := pid }
    | .error _ => some (s.withMachine m)
  | .resize, s, r, m => match r with
    | .ok () => some { s.withMachine m with console := s.console.spawn }
    | .error _ => some (s.withMachine m)
  | .wait pid, s, r, m =>
    if ∀ reply ∈ r.1, reply.about pid = none ∨ reply.about pid = s.status then some (s.withMachine m) else none
  | .joinPump, _, _, _ => none
  | _, s, _, m => some (s.withMachine m)

theorem place_sound {r : op.Res} (h : place op s r m = some s') : Beside rounds op s r s' ∧ s'.machine = m := by
  cases op with
  | buildContainer _ _ =>
    cases r with
    | ok _ | error _ =>
      cases h
      exact ⟨rfl, rfl⟩
  | resize =>
    cases r with
    | ok _ | error _ =>
      cases h
      exact ⟨rfl, rfl⟩
  | wait pid =>
    simp only [place] at h
    split at h
    next htrue =>
      cases h
      refine ⟨⟨rfl, fun _ reply hmem st hst => ?_⟩, rfl⟩
      rcases htrue reply hmem with hnone | hsame
      · cases hnone.symm.trans hst
      · exact hsame ▸ hst
    next => cases h
  | joinPump => cases h
  | _ =>
    cases h
    exact ⟨rfl, rfl⟩

def attending (rounds : Nat) : Handler (I := runOps) (sessionEffect rounds) where
  answer op s := (obliging [] op s.machine).bind fun r => (place op s r.1 r.2).map fun s' => (r.1, s')
  sound := by
    intro op s r s' h
    obtain ⟨⟨r', m⟩, hr, h⟩ := Option.bind_eq_some_iff.mp h
    obtain ⟨s₁, hs₁, heq⟩ := Option.map_eq_some_iff.mp h
    cases heq
    obtain ⟨hbeside, rfl⟩ := place_sound hs₁
    exact ⟨obliging_sound _ _ hr, hbeside⟩

def greeting : List Byte := [0x68, 0x69]

def interactive : RunAct Int := run ["run"] "\x7b\x7d" true .none

def waiting : Session × RunAct Int := Prog.run (attending 3) 21 (.start {}, interactive)

def printed : Flow Byte := { sent := greeting, closed := true }

def passed : Flow Byte × CopyAct Byte Bool := Prog.run (prompt Way.output.kind) 4 (printed, copy 3)

def shown : Flow Byte := { sent := greeting, closed := true, taken := greeting, out := greeting }

theorem passed_ends : Steps (CopyOp.effect Way.output.kind) printed (copy 3) shown (.ret true) := by
  have hvalue : passed.2.value? = some true := by rfl
  have hflow : passed.1 = shown := by rfl
  exact hflow ▸ run_value (prompt _) 4 hvalue

/-- Somebody prints that, the container's first process exits, and the thread
passes on what was printed. -/
theorem greeted (s : Session) (hs : s.console = (Session.start {}).console.spawn) (hnone : s.status = none) :
    ∃ c : Copiers Way Byte, ReflTransGen (Meanwhile 3) s { s with status := some (.exited 0), console := c } ∧
      c.part .output = shown ∧ c.At (copiers 3) .output (.ret true) := by
  have hwrite : Meanwhile 3 s { s with console := s.console.withPart .output { sent := greeting } } := by
    refine .turn (Threads.Turn.change Way.output ?_)
    rw [hs]
    exact .write greeting rfl
  have hclose : Meanwhile 3 { s with console := s.console.withPart .output { sent := greeting } }
      { s with console := (s.console.withPart .output { sent := greeting }).withPart .output printed } := by
    refine .turn (Threads.Turn.change Way.output ?_)
    simp only [Threads.withPart, Function.update_self]
    exact .close
  generalize hclosed : (s.console.withPart .output { sent := greeting }).withPart .output printed =
    closed at hclose
  have hpart : closed.part .output = printed := by simp [← hclosed, Threads.withPart]
  have hat : closed.At (copiers 3) .output (copy 3) :=
    ⟨[], by simp [← hclosed, Threads.withPart, hs, Threads.spawn], .start⟩
  have hsteps : Steps (CopyOp.effect Way.output.kind) (closed.part .output) (copy 3) shown (.ret true) := by
    rw [hpart]
    exact passed_ends
  obtain ⟨c, hturns, hc, hended, -⟩ := Threads.turns_of_steps (H := fun way => Writes (Way.kind way))
    (E := fun way => CopyOp.effect (Way.kind way)) (copyLoop_sequential true 3) hat hsteps
  have hcopies : ReflTransGen (Meanwhile 3) { s with console := closed } { s with console := c } := by
    clear hc hended
    induction hturns with
    | refl => exact .refl
    | tail _ ht ih => exact ih.tail (.turn ht)
  exact ⟨c, ((ReflTransGen.single hwrite).tail hclose).trans (hcopies.tail (.exit (.exited 0) hnone)), hc, hended⟩

def joined : RunAct Int → RunAct Int
  | .call .joinPump next => next ()
  | p => p

theorem joined_step {p : RunAct Int} (hp : p.pending? = some .joinPump)
    (hs : s.console.At (copiers rounds) .output (.ret true)) : Step (sessionEffect rounds) s p s (joined p) := by
  cases p with
  | call op next =>
    cases hp
    have he : sessionEffect rounds .joinPump s () s := ⟨rfl, rfl, hs⟩
    exact .call he
  | _ => cases hp

def exited (c : Copiers Way Byte) : Session := { waiting.1 with status := some (.exited 0), console := c }

def reaped (c : Copiers Way Byte) : Session × RunAct Int := Prog.run (attending 3) 1 (exited c, waiting.2)

def finished (c : Copiers Way Byte) : Session × RunAct Int :=
  Prog.run (attending 3) 5 ((reaped c).1, joined (reaped c).2)

theorem printed_comes_out_greeting : ∃ s : Session, s.status = some (.exited 0) ∧
    (s.console.part .output).out = greeting ∧ (s.console.part .output).Complete := by
  have hready : Interrupted (sessionEffect 3) (Meanwhile 3) (.start {}) interactive waiting.1 waiting.2 :=
    (run_steps (attending 3) 21 _ _).interrupted
  obtain ⟨c, hturns, hpart, hended⟩ := greeted waiting.1 (by rfl) (by rfl)
  have hreaped : Interrupted (sessionEffect 3) (Meanwhile 3) (.start {}) interactive (reaped c).1 (reaped c).2 :=
    (hready.turns hturns).trans (run_steps (attending 3) 1 _ _).interrupted
  have hpending : (reaped c).2.pending? = some .joinPump := by rfl
  have hconsole : (reaped c).1.console = c := by rfl
  have hvalue : (finished c).2.value? = some 0 := by rfl
  have hrun : Interrupted (sessionEffect 3) (Meanwhile 3) (.start {}) interactive (finished c).1 (.ret 0) :=
    (hreaped.step (joined_step hpending (hconsole ▸ hended))).trans (run_value (attending 3) 5 hvalue).interrupted
  have hlast : (finished c).1.console = c := by rfl
  obtain ⟨-, hcomplete⟩ := (printed_comes_out hrun).2.2.2 0 rfl
  exact ⟨(finished c).1, by rfl, by rw [hlast, hpart, shown], hcomplete rfl⟩

end Workshop

end Climate.Runtime
