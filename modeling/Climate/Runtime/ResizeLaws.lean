import Climate.Runtime.Resize

/-!
# No resize is missed

While the handler is installed, the container's terminal is as large as the
user's, or the news is on its way, whatever the order of steps; and the news
arrives once the user stops resizing.
-/

namespace Climate.Resize

open Prog
open Relation (ReflTransGen)

variable {s s' s₀ : State}

-- ---------------------------------------------------------------------------
-- What the main thread alone changes
-- ---------------------------------------------------------------------------

/-- What the steps in between leave alone. -/
structure Stage where
  handled : Bool
  resizePipe : Int
  writeEnd : Option Int
  spawned : Bool
  deriving DecidableEq

namespace Stage

/-- The stages of a run, by the number of the pipe. -/
def outside : Stage := ⟨false, -1, none, false⟩

def piped (fd : Nat) : Stage := ⟨false, -1, some fd, false⟩

def reading (fd : Nat) : Stage := ⟨false, -1, some fd, true⟩

def hooked (fd : Nat) : Stage := ⟨true, -1, some fd, true⟩

def installed (fd : Nat) : Stage := ⟨true, fd, some fd, true⟩

def ignoring (fd : Nat) : Stage := ⟨false, fd, some fd, true⟩

def shut : Stage := ⟨false, -1, none, true⟩

end Stage

def Reader.spawned : Reader → Bool
  | .absent => false
  | _ => true

def State.stage (s : State) : Stage := ⟨s.handled, s.resizePipe, s.writeEnd, s.reader.spawned⟩

theorem Work.stage (h : Work s s') : s'.stage = s.stage := by
  cases h with
  | read hr _ _ _ | eof hr _ _ | ask hr | set hr => simp [State.stage, hr, Reader.spawned]
  | _ => rfl

theorem Meanwhile.stage (h : Meanwhile s s') : s'.stage = s.stage := by
  cases h with
  | work hw => exact hw.stage
  | resize => rfl

-- ---------------------------------------------------------------------------
-- Nothing is written before the number is stored
-- ---------------------------------------------------------------------------

/-- No handler is about to write, and the pipe is empty. -/
structure Silent (s : State) : Prop where
  loaded : s.loaded = []
  bytes : s.bytes = 0
  reader : s.reader = .absent ∨ s.reader = .reading ∧ s.writeEnd ≠ none

theorem Silent.turn (h : Silent s) (hpipe : s.resizePipe < 0) (ht : Meanwhile s s') : Silent s' := by
  obtain ⟨hloaded, hbytes, hreader⟩ := h
  cases ht with
  | resize => exact ⟨hloaded, hbytes, hreader⟩
  | work hw =>
    cases hw with
    | deliver _ | ignore _ _ => exact ⟨hloaded, hbytes, hreader⟩
    | load _ hnumber => omega
    | write hmem _ | stray hmem _ => simp [hloaded] at hmem
    | read _ hpos _ hread => omega
    | eof hr _ hend =>
      rcases hreader with habsent | ⟨-, hopen⟩
      · simp [hr] at habsent
      · exact absurd hend hopen
    | ask hr | set hr =>
      rcases hreader with habsent | ⟨hreading, -⟩
      · simp [hr] at habsent
      · simp [hr] at hreading

-- ---------------------------------------------------------------------------
-- The news
-- ---------------------------------------------------------------------------

/-- The reader has still to be told. -/
def Fresh (s : State) : Prop := s.pending = true ∨ 0 < s.entered ∨ s.resizePipe ∈ s.loaded ∨ 0 < s.bytes

/-- What the reader holds is the size, or it will be told again. -/
def Heard (s : State) : Prop := ∀ size, s.reader = .holding size → size = windowSize s.terminal ∨ Fresh s

/-- The news is on its way, or there is none. -/
def Told (s₀ s : State) : Prop :=
  Fresh s ∨ s.reader = .woken ∨ (∃ size, s.reader = .holding size) ∨ s.master = windowSize s.terminal ∨
    s.master = s₀.master ∧ s.terminal = s₀.terminal

theorem installed_iff : s.stage = .installed fd ↔
    s.handled = true ∧ s.resizePipe = fd ∧ s.writeEnd = some (fd : Int) ∧ s.reader.spawned = true := by
  simp [State.stage, Stage.installed]

theorem Fresh.work (h : Fresh s) (hstage : s.stage = .installed fd) (hw : Work s s') :
    Fresh s' ∨ s'.reader = .woken := by
  obtain ⟨-, hnumber, hwrite, -⟩ := installed_iff.mp hstage
  cases hw with
  | deliver _ => exact .inl (.inr (.inl (Nat.succ_pos _)))
  | load _ _ => exact .inl (.inr (.inr (.inl List.mem_cons_self)))
  | ignore _ hnone => omega
  | write _ _ => exact .inl (.inr (.inr (.inr (by simp [pipeRoom]))))
  | @stray before other after _ hmem hother =>
    have hne : s.resizePipe ≠ other := by
      rintro rfl
      exact hother (hnumber ▸ hwrite)
    refine .inl ?_
    rcases h with hpending | hentered | hloaded | hbytes
    · exact .inl hpending
    · exact .inr (.inl hentered)
    · refine .inr (.inr (.inl ?_))
      rw [hmem] at hloaded
      simpa [hne] using hloaded
    · exact .inr (.inr (.inr hbytes))
  | read _ _ _ _ => exact .inr rfl
  | eof _ _ hend => simp [hwrite] at hend
  | ask _ | set _ => exact .inl h

theorem Fresh.resize (hstage : s.stage = .installed fd) (terminal : Option Winsize) :
    Fresh { s with terminal, pending := s.pending || s.handled } := by
  refine .inl ?_
  simp [(installed_iff.mp hstage).1]

theorem Heard.turn (h : Heard s) (hstage : s.stage = .installed fd) (ht : Meanwhile s s') : Heard s' := by
  intro size hholding
  cases ht with
  | resize => exact .inr (Fresh.resize hstage _)
  | work hw =>
    have hkept : s.reader = .holding size → s'.terminal = s.terminal → size = windowSize s'.terminal ∨
        Fresh s' := by
      intro hr hterminal
      rcases h size hr with hsize | hfresh
      · exact .inl (hterminal ▸ hsize)
      · refine .inr ((hfresh.work hstage hw).resolve_right fun hwoken => ?_)
        simp [hwoken] at hholding
    cases hw with
    | deliver _ | load _ _ | ignore _ _ | write _ _ | stray _ _ => exact hkept hholding rfl
    | read _ _ _ _ | eof _ _ _ | set _ => cases hholding
    | ask _ =>
      cases hholding
      exact .inl rfl

theorem Told.turn (h : Told s₀ s) (hheard : Heard s) (hstage : s.stage = .installed fd) (ht : Meanwhile s s') :
    Told s₀ s' := by
  cases ht with
  | resize => exact .inl (Fresh.resize hstage _)
  | work hw =>
    rcases h with hfresh | hrest
    · rcases hfresh.work hstage hw with hfresh' | hwoken
      · exact .inl hfresh'
      · exact .inr (.inl hwoken)
    · cases hw with
      | deliver _ | load _ _ | ignore _ _ | write _ _ | stray _ _ => exact .inr hrest
      | read _ _ _ _ => exact .inr (.inl rfl)
      | eof _ _ hend => simp [(installed_iff.mp hstage).2.2.1] at hend
      | ask _ => exact .inr (.inr (.inl ⟨_, rfl⟩))
      | set hr =>
        rcases hheard _ hr with rfl | hfresh
        · exact .inr (.inr (.inr (.inl rfl)))
        · exact .inl hfresh

-- ---------------------------------------------------------------------------
-- Installing
-- ---------------------------------------------------------------------------

def Before : ResizeOp → State → Prop
  | .store fd, s => fd = -1 ∨ s.writeEnd = some fd
  | .pipe, s | .close, s => s.resizePipe = -1
  | .join, s => s.writeEnd = none ∧ s.reader.spawned = true
  | _, _ => True

abbrev Runs (s : State) (p : ResizeAct α) (post : Except String α → State → Prop) : Prop :=
  Ends (interruptible ResizeOp.effect Meanwhile) Before post s p

structure Early (p : Stage) (s : State) : Prop where
  stage : s.stage = p
  silent : Silent s
  unset : p.resizePipe = -1

theorem Early.turn (h : Early p s) (ht : Meanwhile s s') : Early p s' := by
  refine ⟨ht.stage.trans h.stage, h.silent.turn ?_ ht, h.unset⟩
  have hpipe : s.stage.resizePipe = -1 := h.stage ▸ h.unset
  change s.resizePipe = -1 at hpipe
  omega

structure Listening (fd : Nat) (s : State) : Prop where
  stage : s.stage = .installed fd
  heard : Heard s
  going : s.reader ≠ .ended

theorem Listening.turn (h : Listening fd s) (ht : Meanwhile s s') : Listening fd s' := by
  refine ⟨ht.stage.trans h.stage, h.heard.turn h.stage ht, fun hended => ?_⟩
  cases ht with
  | resize => exact h.going hended
  | work hw =>
    cases hw with
    | deliver _ | load _ _ | ignore _ _ | write _ _ | stray _ _ => exact h.going hended
    | read _ _ _ _ | ask _ | set _ => cases hended
    | eof _ _ hend => simp [(installed_iff.mp h.stage).2.2.1] at hend

theorem ask_runs {J : State → Prop} {op : ResizeOp} {read : op.Res → Except String β} {f : β → ResizeAct α}
    {post : Except String α → State → Prop} (hJ : ∀ s s', J s → Meanwhile s s' → J s') (h : J s)
    (hpre : Before op s)
    (hok : ∀ s₁ r s' b, J s₁ → op.effect s₁ r s' → read r = .ok b → Runs s' (f b) post)
    (herror : ∀ s₁ r s' e, J s₁ → op.effect s₁ r s' → read r = .error e → post (.error e) s') :
    Runs s (Prog.ask (I := resizeOps) op read >>= f) post :=
  Ends.kept_bind hpre h hJ hok herror

def Tried (p q : Stage) : Except String Unit → State → Prop := Ends.Outcome (Early p) fun _ => Early q

theorem orClose_runs {act : ResizeAct Unit} {p q : Stage} (h : Runs s act (Tried p q)) :
    Runs s (orClose act) (Ends.Outcome (fun _ => True) fun _ => Early q) := by
  refine Ends.attempt_bind h fun result s' hr => ?_
  cases result with
  | ok _ => exact Ends.ret hr
  | error e =>
    have hunset : s'.stage.resizePipe = -1 := hr.stage ▸ hr.unset
    exact ask_runs (fun _ _ => Early.turn) hr hunset (fun _ _ _ _ _ _ _ => Ends.throw trivial)
      fun _ _ _ _ _ _ _ => trivial

theorem idle_runs {op : ResizeOp} {p : Stage} {read : op.Res → Except String Unit} (h : Early p s)
    (hpre : Before op s)
    (hidle : ∀ s r s', op.effect s r s' → s' = s) : Runs s (Prog.ask (I := resizeOps) op read) (Tried p p) := by
  refine Ends.ask hpre fun r s' he => ?_
  obtain ⟨s₁, hint, he⟩ := he
  have hearly : Early p s' := hidle _ _ _ he ▸ kept (fun _ _ => Early.turn) h hint
  cases read r with
  | ok _ => exact hearly
  | error _ => exact hearly

theorem sigaction_runs (h : Early (.reading fd) s) (message : String) :
    Runs s (Prog.ask (I := resizeOps) .sigaction (orElse message)) (Tried (.reading fd) (.hooked fd)) := by
  refine Ends.ask trivial fun r s' he => ?_
  obtain ⟨s₁, hint, he⟩ := he
  have hearly : Early (.reading fd) s₁ := kept (fun _ _ => Early.turn) h hint
  cases r with
  | false => exact (show s' = s₁ from he) ▸ hearly
  | true =>
    obtain rfl : s' = _ := he
    have hstage : State.stage { s₁ with handled := true } = .hooked fd :=
      congrArg (fun p : Stage => { p with handled := true }) hearly.stage
    exact ⟨hstage, ⟨hearly.silent.loaded, hearly.silent.bytes, hearly.silent.reader⟩, rfl⟩

theorem install_runs (h : Early .outside s) :
    Runs s install (Ends.Outcome (fun _ => True) fun _ s' => ∃ fd, Listening fd s') := by
  have hunset : s.stage.resizePipe = -1 := h.stage ▸ h.unset
  refine ask_runs (fun _ _ => Early.turn) h hunset (fun s₁ r s₂ fd hearly he hread => ?_)
    fun _ _ _ _ _ _ _ => trivial
  cases r with
  | none => cases hread
  | some number =>
    obtain rfl : number = fd := Except.ok.inj hread
    obtain rfl : s₂ = _ := he
    have hpiped : Early (.piped number) { s₁ with writeEnd := some (number : Int) } := by
      refine ⟨congrArg (fun p : Stage => { p with writeEnd := some (number : Int) }) hearly.stage,
        ⟨hearly.silent.loaded, hearly.silent.bytes, ?_⟩, rfl⟩
      exact .inl (hearly.silent.reader.resolve_right fun hreading => hreading.2
        (congrArg Stage.writeEnd hearly.stage))
    refine Ends.seq (orClose_runs (idle_runs hpiped trivial fun _ _ _ he => he)) fun _ s₃ hpiped => ?_
    refine Ends.seq (orClose_runs (idle_runs hpiped trivial fun _ _ _ he => he)) fun _ s₄ hpiped => ?_
    refine ask_runs (fun _ _ => Early.turn) hpiped trivial (fun s₅ _ s₆ _ hpiped he _ => ?_)
      fun _ _ _ _ _ _ _ => trivial
    obtain rfl : s₆ = _ := he
    have hreading : Early (.reading number) { s₅ with reader := .reading } := by
      have hwrite : s₅.writeEnd = some (number : Int) := congrArg Stage.writeEnd hpiped.stage
      exact ⟨congrArg (fun p : Stage => { p with spawned := true }) hpiped.stage,
        ⟨hpiped.silent.loaded, hpiped.silent.bytes, .inr ⟨rfl, by simp [hwrite]⟩⟩, rfl⟩
    refine Ends.seq (orClose_runs (sigaction_runs hreading _)) fun _ s₇ hhooked => ?_
    have hwrite := congrArg Stage.writeEnd hhooked.stage
    refine Ends.ask (.inr hwrite) fun _ s₈ he => ?_
    obtain ⟨s₉, hint, he⟩ := he
    obtain rfl : s₈ = _ := he
    have hlast : Early (.hooked number) s₉ := kept (fun _ _ => Early.turn) hhooked hint
    have hreader : s₉.reader = .reading := by
      refine (hlast.silent.reader.resolve_left fun habsent => ?_).1
      simpa [State.stage, habsent, Reader.spawned, Stage.hooked] using hlast.stage
    exact ⟨number, congrArg (fun p : Stage => { p with resizePipe := (number : Int) }) hlast.stage,
      by simp [Heard, hreader], by simp [hreader]⟩

theorem intoMaster_runs (h : Early .outside s) :
    Runs s intoMaster (Ends.Outcome (fun _ => False) fun _ => Early .outside) := by
  refine ask_runs (fun _ _ => Early.turn) h trivial (fun s₁ size s₂ _ hearly he _ => ?_)
    fun _ _ _ _ _ _ hread => by cases hread
  obtain ⟨-, rfl⟩ := he
  refine Ends.ask trivial fun _ s₃ he => ?_
  obtain ⟨s₄, hint, he⟩ := he
  obtain rfl : s₃ = _ := he
  have hlast : Early .outside s₄ := kept (fun _ _ => Early.turn) hearly hint
  exact ⟨hlast.stage, ⟨hlast.silent.loaded, hlast.silent.bytes, hlast.silent.reader⟩, rfl⟩

theorem uninstall_runs (h : s.stage = .installed fd) :
    Runs s uninstall (Ends.Outcome (fun _ => False) fun _ s' => s'.stage = .shut) := by
  have hturn : ∀ {p : Stage} (s s' : State), s.stage = p → Meanwhile s s' → s'.stage = p :=
    fun _ _ h ht => ht.stage.trans h
  refine ask_runs hturn h trivial (fun s₁ _ s₂ _ hstage he _ => ?_) fun _ _ _ _ _ _ hread => by cases hread
  obtain rfl : s₂ = _ := he
  have hignoring : State.stage { s₁ with handled := false, pending := false } = .ignoring fd :=
    congrArg (fun p : Stage => { p with handled := false }) hstage
  refine ask_runs hturn hignoring (.inl rfl) (fun s₃ _ s₄ _ hstage he _ => ?_) fun _ _ _ _ _ _ hread =>
    by cases hread
  obtain rfl : s₄ = _ := he
  have hunset : State.stage { s₃ with resizePipe := -1 } = .reading fd :=
    congrArg (fun p : Stage => { p with resizePipe := -1 }) hstage
  refine ask_runs hturn hunset rfl (fun s₅ _ s₆ _ hstage he _ => ?_) fun _ _ _ _ _ _ hread => by cases hread
  obtain rfl : s₆ = _ := he
  have hshut : State.stage { s₅ with writeEnd := none } = .shut :=
    congrArg (fun p : Stage => { p with writeEnd := none }) hstage
  refine Ends.ask ⟨rfl, congrArg Stage.spawned hshut⟩ fun _ s₇ he => ?_
  obtain ⟨s₈, hint, -, rfl⟩ := he
  exact kept (J := fun s => s.stage = .shut) hturn hshut hint

theorem interactive_runs (terminal : Option Winsize) (master : Winsize) :
    Runs (initial terminal master) interactive (fun _ _ => True) := by
  have hearly : Early .outside (initial terminal master) := ⟨rfl, ⟨rfl, rfl, .inl rfl⟩, rfl⟩
  refine Ends.bind (intoMaster_runs hearly) (fun _ s₁ hearly => ?_) fun _ _ _ => trivial
  refine Ends.bind (install_runs hearly) (fun _ s₂ hlistening => ?_) fun _ _ _ => trivial
  obtain ⟨fd, hlistening⟩ := hlistening
  exact (uninstall_runs hlistening.stage).weaken fun _ _ _ => trivial

theorem orClose_sequential {act : ResizeAct Unit} (h : act.Sequential) : (orClose act).Sequential := by
  refine .bind h.attempt fun result => ?_
  cases result with
  | ok _ => trivial
  | error _ => exact .bind (.ask _ _) fun _ => trivial

theorem interactive_sequential : interactive.Sequential := by
  refine .bind (.bind (.ask _ _) fun _ => .ask _ _) fun _ => .bind ?_ fun _ => ?_
  · refine .bind (.ask _ _) fun _ => .bind (orClose_sequential (.ask _ _)) fun _ => ?_
    refine .bind (orClose_sequential (.ask _ _)) fun _ => .bind (.ask _ _) fun _ => ?_
    exact .bind (orClose_sequential (.ask _ _)) fun _ => .ask _ _
  · exact .bind (.ask _ _) fun _ => .bind (.ask _ _) fun _ => .bind (.ask _ _) fun _ => .ask _ _

-- ---------------------------------------------------------------------------
-- The work runs down
-- ---------------------------------------------------------------------------

def Reader.effort : Reader → Nat
  | .absent | .ended => 0
  | .reading => 1
  | .holding _ => 2
  | .woken => 3

/-- How much there is to do until there is news again. -/
def State.effort (s : State) : Nat :=
  6 * s.pending.toNat + 5 * s.entered + 4 * s.loaded.length + 3 * s.bytes + s.reader.effort

theorem Work.down (h : Work s s') : s'.effort < s.effort := by
  cases h with
  | deliver hpending => simp [State.effort, hpending]; omega
  | load hentered _ => simp [State.effort, hentered]; omega
  | ignore hentered _ => simp [State.effort, hentered]
  | write hmem _ => simp [State.effort, hmem]; omega
  | stray hmem _ => simp [State.effort, hmem]
  | read hr hpos _ hbytes => simp [State.effort, hr, hbytes, Reader.effort]; omega
  | eof hr _ _ | ask hr | set hr => simp [State.effort, hr, Reader.effort]

theorem Work.terminal (h : Work s s') : s'.terminal = s.terminal := by
  cases h <;> rfl

theorem reader_works (hspawned : s.reader.spawned = true) (hgoing : s.reader ≠ .ended)
    (hpipe : s.reader = .reading → 0 < s.bytes ∨ s.writeEnd = none) : ∃ s', Work s s' := by
  cases hr : s.reader with
  | absent => simp [hr, Reader.spawned] at hspawned
  | ended => exact absurd hr hgoing
  | woken => exact ⟨_, .ask hr⟩
  | holding size => exact ⟨_, .set hr⟩
  | reading =>
    by_cases hbytes : s.bytes = 0
    · exact ⟨_, .eof hr hbytes ((hpipe hr).resolve_left (by omega))⟩
    · have hsplit : s.bytes = s.bytes - 1 + 1 := by omega
      exact ⟨_, .read hr Nat.one_pos (by decide) hsplit⟩

theorem Listening.at_rest (h : Listening fd s) (hrest : RunsDown.AtRest Work s) :
    ¬ Fresh s ∧ s.reader = .reading := by
  obtain ⟨-, hnumber, hwrite, hspawned⟩ := installed_iff.mp h.stage
  have hempty : s.bytes = 0 := by
    by_contra hbytes
    obtain ⟨s', hw⟩ := reader_works hspawned h.going fun _ => .inl (Nat.pos_of_ne_zero hbytes)
    exact hrest s' hw
  refine ⟨fun hfresh => ?_, ?_⟩
  · rcases hfresh with hpending | hentered | hloaded | hbytes
    · exact hrest _ (.deliver hpending)
    · obtain ⟨n, hn⟩ := Nat.exists_eq_succ_of_ne_zero (Nat.pos_iff_ne_zero.mp hentered)
      exact hrest _ (.load hn (by omega))
    · obtain ⟨before, after, hmem⟩ := List.append_of_mem hloaded
      exact hrest _ (.write hmem (hnumber ▸ hwrite))
    · omega
  · cases hr : s.reader with
    | absent => simp [hr, Reader.spawned] at hspawned
    | ended => exact absurd hr h.going
    | woken => exact absurd (.ask hr) (hrest _)
    | holding size => exact absurd (.set hr) (hrest _)
    | reading => rfl

-- ---------------------------------------------------------------------------
-- Handlers on the main thread
-- ---------------------------------------------------------------------------

/-- The main thread goes on only when no handler is at work, as it does where
the handlers run on it. -/
def calmly : Effects resizeOps State := fun op s r s' => (s.entered = 0 ∧ s.loaded = []) ∧
    ResizeOp.effect op s r s'

/-- Handlers write to the pipe and nowhere else. -/
structure Safe (s : State) : Prop where
  loaded : ∀ fd ∈ s.loaded, s.writeEnd = some fd
  number : s.resizePipe < 0 ∨ s.writeEnd = some s.resizePipe
  strays : s.strays = []

theorem Safe.turn (h : Safe s) (ht : Meanwhile s s') : Safe s' := by
  obtain ⟨hloaded, hnumber, hstrays⟩ := h
  cases ht with
  | resize => exact ⟨hloaded, hnumber, hstrays⟩
  | work hw =>
    cases hw with
    | deliver _ | ignore _ _ | read _ _ _ _ | eof _ _ _ | ask _ | set _ => exact ⟨hloaded, hnumber, hstrays⟩
    | load _ hset =>
      refine ⟨fun fd hfd => ?_, hnumber, hstrays⟩
      rcases List.mem_cons.mp hfd with rfl | hfd
      · exact hnumber.resolve_left (by omega)
      · exact hloaded fd hfd
    | write hmem _ =>
      refine ⟨fun fd hfd => hloaded fd ?_, hnumber, hstrays⟩
      rw [hmem]
      exact List.mem_append.mpr ((List.mem_append.mp hfd).imp_right (List.mem_cons_of_mem _))
    | stray hmem hother => exact absurd (hloaded _ (hmem ▸ List.mem_append_right _ List.mem_cons_self)) hother

theorem Safe.step {op : ResizeOp} {r : op.Res} (h : Safe s) (hpre : Before op s) (he : calmly op s r s') :
    Safe s' := by
  obtain ⟨⟨-, hnone⟩, he⟩ := he
  obtain ⟨hloaded, hnumber, hstrays⟩ := h
  cases op with
  | windowSize | join => exact he.2 ▸ ⟨hloaded, hnumber, hstrays⟩
  | setWinsize _ | spawn | ignore =>
    obtain rfl : s' = _ := he
    exact ⟨hloaded, hnumber, hstrays⟩
  | nonblock | duplicate => exact (show s' = s from he) ▸ ⟨hloaded, hnumber, hstrays⟩
  | sigaction =>
    cases r with
    | true => exact (show s' = _ from he) ▸ ⟨hloaded, hnumber, hstrays⟩
    | false => exact (show s' = s from he) ▸ ⟨hloaded, hnumber, hstrays⟩
  | pipe =>
    cases r with
    | none => exact (show s' = s from he) ▸ ⟨hloaded, hnumber, hstrays⟩
    | some fd =>
      obtain rfl : s' = _ := he
      have hunset : s.resizePipe = -1 := hpre
      exact ⟨by simp [hnone], .inl (by simp [hunset]), hstrays⟩
  | store fd =>
    obtain rfl : s' = _ := he
    refine ⟨hloaded, ?_, hstrays⟩
    rcases hpre with rfl | hwrite
    · exact .inl (by simp)
    · exact .inr hwrite
  | close =>
    obtain rfl : s' = _ := he
    have hunset : s.resizePipe = -1 := hpre
    exact ⟨by simp [hnone], .inl (by simp [hunset]), hstrays⟩

theorem Before.turns {op : ResizeOp} (h : Before op s) (ht : ReflTransGen Meanwhile s s') : Before op s' := by
  have hstage : s'.stage = s.stage :=
    kept (J := fun t => t.stage = s.stage) (fun _ _ h ht => ht.stage.trans h) rfl ht
  simp only [State.stage, Stage.mk.injEq] at hstage
  obtain ⟨-, hnumber, hwrite, hspawned⟩ := hstage
  cases op with
  | store fd => exact h.imp_right fun h => hwrite.trans h
  | pipe | close => exact hnumber.trans h
  | join => exact ⟨hwrite.trans h.1, hspawned.trans h.2⟩
  | _ => trivial

-- ---------------------------------------------------------------------------
-- Calls that succeed
-- ---------------------------------------------------------------------------

def oblige (s : State) : (op : ResizeOp) → Option (op.Res × State)
  | .windowSize => some (windowSize s.terminal, s)
  | .setWinsize size => some ((), { s with master := size })
  | .pipe => some (some 7, { s with writeEnd := some 7 })
  | .nonblock | .duplicate => some (true, s)
  | .spawn => some ((), { s with reader := .reading })
  | .sigaction => some (true, { s with handled := true })
  | .store fd => some ((), { s with resizePipe := fd })
  | .ignore => some ((), { s with handled := false, pending := false })
  | .close => some ((), { s with writeEnd := none })
  | .join => if s.reader = .ended then some ((), s) else none

theorem oblige_sound {op : ResizeOp} {r : op.Res} (h : oblige s op = some (r, s')) : op.effect s r s' := by
  cases op with
  | windowSize =>
    cases h
    exact ⟨rfl, rfl⟩
  | join =>
    simp only [oblige] at h
    split at h
    next hended =>
      cases h
      exact ⟨hended, rfl⟩
    next => cases h
  | _ =>
    cases h
    rfl

def obliging : Handler (I := resizeOps) (interruptible ResizeOp.effect Meanwhile) where
  answer op s := oblige s op
  sound h := ⟨_, .refl, oblige_sound h⟩

def obligingCalmly : Handler (I := resizeOps) (interruptible calmly Meanwhile) where
  answer op s := if s.entered = 0 ∧ s.loaded = [] then oblige s op else none
  sound h := by
    split at h
    next hidle => exact ⟨_, .refl, hidle, oblige_sound h⟩
    next => cases h

def small : Winsize := ⟨24, 80, 0, 0⟩

def large : Winsize := ⟨50, 160, 0, 0⟩

def ready : State :=
  { initial (some small) small with handled := true, resizePipe := 7, writeEnd := some 7, reader := .reading }

def resized : State := { ready with terminal := some large, pending := true }

def followed : State := { ready with terminal := some large, master := large }

theorem resized_followed : ReflTransGen Work resized followed := by
  have hdeliver : Work resized { resized with pending := false, entered := 1 } := .deliver rfl
  have hload : Work { resized with pending := false, entered := 1 }
    { resized with pending := false, loaded := [7] } :=
    .load rfl (by decide)
  have hwrite : Work { resized with pending := false, loaded := [7] }
    { resized with pending := false, bytes := 1 } :=
    .write (s := { resized with pending := false, loaded := [7] }) (show [7] = [] ++ 7 :: [] from rfl) rfl
  have hread : Work { resized with pending := false, bytes := 1 }
    { resized with pending := false, reader := .woken } :=
    .read rfl (show 0 < 1 by decide) (by decide) (show 1 = 0 + 1 from rfl)
  have hask : Work { resized with pending := false, reader := .woken }
      { resized with pending := false, reader := .holding large } := .ask rfl
  exact .head hdeliver (.head hload (.head hwrite (.head hread (.head hask (.single (.set rfl))))))

theorem followed_rests : RunsDown.AtRest Work followed := by
  intro s' hw
  cases hw with
  | deliver h | eof _ _ h | ask h | set h => cases h
  | load h _ | ignore h _ => cases h
  | write h _ | stray h _ => exact absurd h (by simp [followed, ready, initial])
  | read _ hpos _ h => exact absurd h (by simp [followed, ready, initial]; omega)

-- ---------------------------------------------------------------------------
-- The main results
-- ---------------------------------------------------------------------------

theorem listening_of_run (h : Interrupted ResizeOp.effect Meanwhile (initial terminal master)
    (intoMaster >>= fun _ => install) s₀ (.ret ())) : ∃ fd, Listening fd s₀ := by
  have hearly : Early .outside (initial terminal master) := ⟨rfl, ⟨rfl, rfl, .inl rfl⟩, rfl⟩
  have hruns : Runs (initial terminal master) (intoMaster >>= fun _ => install)
      (Ends.Outcome (fun _ => True) fun _ s' => ∃ fd, Listening fd s') :=
    Ends.bind (intoMaster_runs hearly) (fun _ _ => install_runs) fun _ _ _ => trivial
  obtain ⟨t, hrest, -, hvalue, -⟩ := Interrupted.ready hruns h
  obtain ⟨fd, hlistening⟩ := hvalue () rfl
  exact ⟨fd, kept (fun _ _ => Listening.turn) hlistening hrest⟩

/-- However often and whenever the user resizes after the forwarder has been
installed: once the user stops, so much work is left and no more, and where
it is done, the sizes agree, or neither has changed since the installing. -/
theorem resizes_followed
    (h : Interrupted ResizeOp.effect Meanwhile (initial terminal master)
      (intoMaster >>= fun _ => install) s₀ (.ret ()))
    (hturns : ReflTransGen Meanwhile s₀ s) :
    (∀ n run, RunsDown.Runs Work s n run → n ≤ s.effort) ∧
      (∃ s', ReflTransGen Work s s' ∧ RunsDown.AtRest Work s') ∧ ∀ s', ReflTransGen Work s s' →
      RunsDown.AtRest Work s' →
        s'.master = windowSize s'.terminal ∨ s'.master = s₀.master ∧ s'.terminal = s₀.terminal := by
  refine ⟨fun n run hrun => ?_, RunsDown.exists_rest (R := Work) Work.down s, fun s' hwork hrest => ?_⟩
  · exact RunsDown.bounded (R := Work) Work.down hrun
  · obtain ⟨fd, hlistening⟩ := listening_of_run h
    have hboth : Listening fd s' ∧ Told s₀ s' := by
      refine kept (J := fun s => Listening fd s ∧ Told s₀ s) (H := Meanwhile) (fun _ _ hJ ht => ?_)
        ⟨hlistening, .inr (.inr (.inr (.inr ⟨rfl, rfl⟩)))⟩ (hturns.trans (hwork.lift id fun _ _ => .work))
      exact ⟨hJ.1.turn ht, hJ.2.turn hJ.1.heard hJ.1.stage ht⟩
    obtain ⟨hlistening, htold⟩ := hboth
    obtain ⟨hstale, hreading⟩ := hlistening.at_rest hrest
    rcases htold with hfresh | hwoken | ⟨size, hholding⟩ | hsame
    · exact absurd hfresh hstale
    · simp [hreading] at hwoken
    · simp [hreading] at hholding
    · exact hsame

theorem resizes_followed_large : followed.master = windowSize followed.terminal ∨
    followed.master = ready.master ∧ followed.terminal = ready.terminal := by
  have hsteps := run_steps obliging 8 (initial (some small) small) (intoMaster >>= fun _ => install)
  have hready : Prog.run obliging 8 (initial (some small) small, intoMaster >>= fun _ => install) =
      (ready, .ret ()) := by rfl
  rw [hready] at hsteps
  exact (resizes_followed hsteps.interrupts (.single .resize)).2.2 followed resized_followed followed_rests

/-- Dropping the forwarder comes to its end: as long as the main thread cannot
go on, the reader has something to do, and there is an end to that. -/
theorem drop_ends
    (h : Interrupted ResizeOp.effect Meanwhile (initial terminal master) interactive s (.call .join next)) :
    (s.reader = .ended ∨ ∃ s', Work s s') ∧
      ∀ n run, RunsDown.Runs Work s n run → n ≤ s.effort := by
  obtain ⟨t, hrest, hop, -, -⟩ := Interrupted.ready (interactive_runs terminal master) h
  obtain ⟨hwrite, hspawned⟩ := hop _ _ rfl
  have hstage : s.stage = t.stage :=
    kept (J := fun s => s.stage = t.stage) (fun _ _ h ht => ht.stage.trans h) rfl hrest
  refine ⟨?_, fun n run hrun => ?_⟩
  · by_cases hended : s.reader = .ended
    · exact .inl hended
    · refine .inr (reader_works ?_ hended fun _ => .inr ?_)
      · exact (congrArg Stage.spawned hstage).trans hspawned
      · exact (congrArg Stage.writeEnd hstage).trans hwrite
  · exact RunsDown.bounded (R := Work) Work.down hrun

theorem drop_ends_small : ∃ s : State, (s.reader = .ended ∨ ∃ s', Work s s') ∧
    ∀ n run, RunsDown.Runs Work s n run → n ≤ s.effort := by
  have hpending : (Prog.run obliging 11 (initial (some small) small, interactive)).2.pending? =
      some .join := by rfl
  obtain ⟨next, hsteps⟩ := run_reaches obliging 11 hpending
  exact ⟨_, drop_ends hsteps.interrupts⟩

/-- Where handlers run on the main thread, a signal that comes late is never
written to a descriptor that is not the pipe's. -/
theorem no_strays (h : Interrupted calmly Meanwhile (initial terminal master) interactive s q) :
    s.strays = [] := by
  obtain ⟨t, hsteps, hrest⟩ := h.delayed
  have hruns : Ends (interruptible calmly Meanwhile) Before (fun _ _ => True)
      (initial terminal master) interactive := by
    refine Alone.mono (fun op s r s' he => ?_) (interactive_runs terminal master)
    obtain ⟨s₁, hint, -, he⟩ := he
    exact ⟨s₁, hint, he⟩
  have hsafe : Safe t := by
    refine Alone.invariant hruns interactive_sequential.attempt ⟨by simp [initial], .inl (by simp [initial]), rfl⟩
      (fun op r s s' hsafe hpre he => ?_) hsteps.attempt
    obtain ⟨s₁, hint, he⟩ := he
    exact (kept (J := Safe) (fun _ _ => Safe.turn) hsafe hint).step (hpre.turns hint) he
  exact (kept (J := Safe) (fun _ _ => Safe.turn) hsafe hrest).strays

theorem no_strays_small : ∃ s : State, s.resizePipe = 7 ∧ s.strays = [] := by
  have hnumber : (Prog.run obligingCalmly 8 (initial (some small) small, interactive)).1.resizePipe = 7 := by rfl
  exact ⟨_, hnumber, no_strays (run_steps obligingCalmly 8 (initial (some small) small) interactive).interrupts⟩

end Climate.Resize
