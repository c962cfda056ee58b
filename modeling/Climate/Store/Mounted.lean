import Climate.Lib.Alone
import Climate.Store.Calm
import Climate.Store.CleanLaws
import Climate.Store.Shape

/-!
# Layers in use

A run or build reads the layers it mounts from a recorded manifest, and holds
them until its container ends. Meanwhile other processes change the store, one
operation at a time: pulls, builds, further runs, collectors. As long as none
of them takes away the last record of a mounted layer, no collector touches it.
-/

namespace Climate

variable {oci : Oci}

namespace Store

/-- Some ref is for an image with this manifest. -/
def Records (s : Store) (m : Manifest) : Prop :=
  ∃ name d, s.marker name = some d ∧ s.manifestAt d = some m

/-- Some recorded manifest names this layer. -/
def Names (s : Store) (layer : Path) : Prop :=
  ∃ m, s.Records m ∧ ∃ l ∈ m.layers, layerDir l.digest = some layer

theorem SameKept.records {s s' : Store} (h : s.SameKept s') (hr : s.Records m) : s'.Records m := by
  obtain ⟨name, d, hn, hm⟩ := hr
  exact ⟨name, d, by rwa [h.marker], by rwa [h.manifestAt]⟩

end Store

/-- What a process has mounted: it is at a container's start, and goes on once
that has ended. -/
def mounted : Act α → List Path
  | .call op _ => Op.lowerdirs op
  | _ => []

-- ---------------------------------------------------------------------------
-- Containers start on recorded layers
-- ---------------------------------------------------------------------------

/-- The operations, others doing anything while a container runs. -/
def havoc (oci : Oci) : Effects disk Store := fun op s r s' =>
  op.effect oci s r s' ∨ op.lowerdirs ≠ []

/-- A program that starts containers on recorded layers only. -/
abbrev Mounting (oci : Oci) (post : α → Store → Prop) (s : Store) (p : Act α) : Prop :=
  Prog.Alone (havoc oci) (fun op s => ∀ q ∈ Op.lowerdirs op, s.Names q) post s p

namespace Mounting

theorem ask {o : Op} {read : o.Res → Except String α} {post : α → Store → Prop}
    (hop : o.lowerdirs = [])
    (hpost : ∀ r s' a, o.effect oci s r s' → read r = .ok a → post a s') :
    Mounting oci post s (Prog.ask o read) := by
  refine Prog.Alone.ask (by simp [hop]) fun r s' a he ha => ?_
  rcases he with he | hne
  · exact hpost r s' a he ha
  · exact absurd hop hne

theorem quiet {op : Op} {read : op.Res → Except String α} (hop : op.lowerdirs = [])
    (hq : op.quiet = true) (hr : s.Records m) :
    Mounting oci (fun _ s' => s'.Records m) s (Prog.ask op read) :=
  ask hop fun _ _ _ he _ => (Op.quiet_effect hq he).records hr

end Mounting

/-- Reading a file does not change the store. -/
theorem read_mounting {read : Except IoError Content → Except String α}
    {post : α → Store → Prop} (h : ∀ r a, (∀ c, r = .ok c → s.lookup p = some (.file c)) →
      read r = .ok a → post a s) :
    Mounting oci post s (Prog.ask (.read p) read : Act α) := by
  refine Mounting.ask rfl fun r s' a he ha => ?_
  obtain ⟨rfl, hr⟩ := he
  exact h r a (fun c hc => by subst hc; exact hr) ha

theorem readBlob_mounting :
    Mounting oci (fun content s' => s' = s ∧ ∀ m, content = .manifest m → s.manifestAt digest = some m)
      s (readBlob digest) := by
  unfold readBlob blobPath
  cases hd : digestPath digest with
  | error e => exact .throw
  | ok q =>
    refine read_mounting fun r content hr hok => ⟨rfl, fun m hm => ?_⟩
    have hp : blobFile digest = some (.blob q.1 q.2) := blobFile_eq_some.mpr ⟨_, _, hd, rfl⟩
    exact Store.manifestAt_eq_some.mpr ⟨_, hp, _, hr content (orFail_ok.mp hok), by subst hm; rfl⟩

theorem readManifest_mounting :
    Mounting oci (fun r s' => ∀ m, r = some m → s'.Records m) s (readManifest key) := by
  refine Prog.Alone.bind (Q := fun r s' => ∀ d, r = some d → s'.marker (markerName key) = some d)
    (read_mounting ?_) fun r s hr => ?_
  · intro r found hr hok d hd
    refine marker_eq_some.mpr (hr _ ?_)
    subst hd
    unfold refText at hok
    split at hok <;> cases hok
    rfl
  cases r with
  | none => exact .ret fun m hm => by cases hm
  | some digest =>
    refine readBlob_mounting.bind fun content s' ⟨hs, hm⟩ => ?_
    subst hs
    cases content with
    | manifest m =>
      refine .ret fun m' hm' => ?_
      cases hm'
      exact ⟨_, digest, hr digest rfl, hm m rfl⟩
    | text _ | config _ | archive _ | other _ => exact .throw

theorem imageConfig_mounting : Mounting oci (fun _ s' => s' = s) s (imageConfig key m) := by
  refine readBlob_mounting.bind fun content s' ⟨hs, _⟩ => ?_
  cases content with
  | config json => exact .ret hs
  | text _ | manifest _ | archive _ | other _ => exact .throw

theorem lowerdirs_mounting {digests : List String} :
    Mounting oci (fun dirs s' => s' = s ∧ ∀ q ∈ dirs, ∃ d ∈ digests, layerDir d = some q) s
      (lowerdirs digests) := by
  induction digests generalizing s with
  | nil => exact .ret ⟨rfl, by simp⟩
  | cons digest rest ih =>
    unfold lowerdirs layerPath
    cases hd : digestPath digest with
    | error e => exact .throw
    | ok q =>
      simp only [Except.map, Prog.ofExcept, Prog.ret_bind]
      refine Prog.Alone.bind (Q := fun _ s' => s' = s)
        (Mounting.ask (o := .isDir _) rfl fun _ _ _ he _ => he.1) fun found s' hs => ?_
      subst hs
      split
      · refine ih.bind fun dirs s' ⟨hs, hdirs⟩ => .ret ⟨hs, fun path hp => ?_⟩
        rcases List.mem_cons.mp hp with rfl | hp
        · exact ⟨digest, by simp, layerDir_eq_some.mpr ⟨q.1, q.2, hd, rfl⟩⟩
        · obtain ⟨d, hmem, hpath⟩ := hdirs path hp
          exact ⟨d, by simp [hmem], hpath⟩
      · exact .throw

theorem mountLayers_mounting (hr : s.Records m) :
    Mounting oci (fun dirs s' => ∀ q ∈ dirs, s'.Names q) s
      (mountLayers (m.layers.map (·.digest))) := by
  unfold mountLayers
  split
  · exact .throw
  · refine lowerdirs_mounting.weaken fun dirs s' h q hq => ?_
    obtain ⟨rfl, hdirs⟩ := h
    obtain ⟨d, hd, hpath⟩ := hdirs q hq
    obtain ⟨l, hl, rfl⟩ := List.mem_map.mp (List.mem_reverse.mp hd)
    exact ⟨m, hr, l, hl, hpath⟩

-- ---------------------------------------------------------------------------
-- Pulls, builds and runs
-- ---------------------------------------------------------------------------

/-- A program that starts no container. -/
abbrev Idle (p : Act α) : Prop := p.Only fun op : Op => op.lowerdirs = []

theorem Tame.idle {p : Act α} (h : Tame p) : Idle p := h.imp fun _ h => h.2

theorem Idle.mounting {p : Act α} (h : Idle p) : Mounting oci (fun _ _ => True) s p :=
  .only (h.imp fun op hop s q hq => by simp [hop] at hq)

theorem writeBlob_idle : Idle (writeBlob digest bytes) :=
  ofExcept_tame.idle.bind fun _ => createParent_tame.idle.bind fun _ => .ask rfl

theorem recordRef_idle : Idle (recordRef reference digest) :=
  createParent_tame.idle.bind fun _ => .ask rfl

theorem fetchImage_idle : Idle (fetchImage reference) := by
  refine Prog.Only.bind (.ask rfl) fun x => Prog.Only.bind (.ask rfl) fun raw => ?_
  refine writeBlob_idle.bind fun _ => fetchConfig_tame.idle.bind fun _ => ?_
  exact fetchLayers_tame.idle.bind fun _ => recordRef_idle

theorem fetch_idle : Idle (fetch oci reference update) := by
  unfold fetch
  cases oci.whole reference with
  | none => trivial
  | some whole =>
    dsimp only
    split
    · exact fetchImage_idle
    · refine hasRef_tame.idle.bind fun present => ?_
      split
      · trivial
      · exact fetchImage_idle

theorem runScript_mounting (hr : s.Records base) :
    Mounting oci (fun _ _ => True) s (runScript cfg script key base upper work) := by
  refine imageConfig_mounting.bind fun _ s' hs => ?_
  subst hs
  refine (mountLayers_mounting hr).bind fun dirs s' hdirs => ?_
  refine Prog.Alone.bind (Q := fun _ _ => True) (.ask hdirs fun _ _ _ _ _ => trivial) fun code s' _ => ?_
  split
  · exact .throw
  · exact .ret trivial

theorem build_mounting : Mounting oci (fun _ _ => True) s (build oci cfg script) := by
  unfold build
  dsimp only
  cases oci.whole cfg.image.reference with
  | none => exact .throw
  | some baseKey =>
    refine readManifest_mounting.bind fun r s hr => ?_
    cases r with
    | none => exact .throw
    | some base =>
      have hr := hr base rfl
      refine Prog.Alone.bind (Mounting.quiet rfl rfl hr) fun unique s hr => ?_
      unfold layerPath
      cases digestPath (digestOf buildAlgo (dashless unique)) with
      | error e => exact .throw
      | ok q =>
        simp only [Except.map, Prog.ofExcept, Prog.ret_bind]
        have hu : (Op.createTree (.layer buildAlgo (stagingName (dashless unique)))).quiet = true :=
          isStaging_stagingName _
        have hw : (Op.createTree (.layer buildAlgo (stagingName (dashless unique) ++ "-work"))).quiet =
            true := by
          change isStaging _ = true
          rw [stagingName, String.append_assoc]
          exact isStaging_stagingName _
        refine Prog.Alone.bind (Mounting.quiet rfl hu hr) fun _ s hr => ?_
        refine Prog.Alone.bind (Mounting.quiet rfl hw hr) fun _ s hr => ?_
        refine Prog.Alone.bind (Prog.Alone.attempt (runScript_mounting hr)) fun result s _ => ?_
        refine Idle.mounting ((removeTree_tame rfl).idle.attempt.bind fun _ => ?_)
        cases result with
        | error e => exact (removeTree_tame rfl).idle.attempt.bind fun _ => trivial
        | ok _ =>
          refine Prog.Only.bind (.ask rfl) fun _ => writeBlob_idle.bind fun _ => ?_
          exact ofExcept_tame.idle.bind fun _ => recordRef_idle

theorem ensure_mounting : Mounting oci (fun _ _ => True) s (ensure oci cfg update rebuild) := by
  unfold ensure
  cases cfg.image.install with
  | none =>
    dsimp only
    split
    · exact fetch_idle.mounting
    · exact .ret trivial
  | some script =>
    dsimp only
    have rebuilt : ∀ {s}, Mounting oci (fun _ _ => True) s (do
        if cfg.image.pull then fetch oci cfg.image.reference update
        build oci cfg script) := by
      intro s
      split
      · exact fetch_idle.mounting.bind fun _ s _ => build_mounting
      · exact build_mounting
    split
    · exact rebuilt
    · refine Prog.Alone.bind (Idle.mounting ofExcept_tame.idle) fun key s _ => ?_
      refine Prog.Alone.bind (Idle.mounting hasRef_tame.idle) fun present s _ => ?_
      split
      · exact .ret trivial
      · exact rebuilt

theorem resolve_mounting :
    Mounting oci (fun image s' => ∃ m, s'.Records m ∧ image.layers = m.layers.map (·.digest)) s
      (resolve oci cfg) := by
  refine Prog.Alone.bind (Idle.mounting ofExcept_tame.idle) fun key s _ => ?_
  refine ensure_mounting.bind fun _ s _ => readManifest_mounting.bind fun r s hr => ?_
  cases r with
  | none => exact .throw
  | some m =>
    refine imageConfig_mounting.bind fun config s' hs => .ret ⟨m, ?_, rfl⟩
    exact hs ▸ hr m rfl

theorem run_mounting : Mounting oci (fun _ _ => True) s (run oci cfg) := by
  refine resolve_mounting.bind fun image s ⟨m, hr, hl⟩ => ?_
  rw [hl]
  refine (mountLayers_mounting hr).bind fun dirs s hdirs => ?_
  exact .ask hdirs fun _ _ _ _ _ => trivial

theorem dropOrphanRefs_idle : Idle (dropOrphanRefs oci apps) := by
  refine entries_tame.idle.bind fun found => .forM fun name _ => ?_
  split
  · trivial
  · exact .ask rfl

-- ---------------------------------------------------------------------------
-- Processes
-- ---------------------------------------------------------------------------

/-- A pull is an `ensure` for each of its apps and then a `gcImages`, a clean
a `dropOrphanRefs` and then a `gcImages`. -/
inductive Command
  | ensure (cfg : AppConfig) (update rebuild : Bool)
  | run (cfg : AppConfig)
  | dropOrphanRefs (apps : List AppConfig)
  | gcImages

namespace Command

def prog (oci : Oci) : Command → Act Unit
  | .ensure cfg update rebuild => Climate.ensure oci cfg update rebuild
  | .run cfg => do let _code ← Climate.run oci cfg
  | .dropOrphanRefs apps => Climate.dropOrphanRefs oci apps
  | .gcImages => Climate.gcImages

def collects : Command → Bool
  | .gcImages => true
  | .ensure .. | .run _ | .dropOrphanRefs _ => false

theorem mounting (command : Command) : Mounting oci (fun _ _ => True) s (command.prog oci) := by
  cases command with
  | ensure cfg update rebuild => exact ensure_mounting
  | run cfg => exact run_mounting.bind fun _ _ _ => .ret trivial
  | dropOrphanRefs apps => exact dropOrphanRefs_idle.mounting
  | gcImages => exact gcImages_tame.idle.mounting

end Command

structure Process where
  command : Command
  rest : Act Unit

structure Session where
  store : Store
  processes : List Process

/-- Processes take turns: one goes on until its container has started, or it
ends or is killed, and each step is one that is `allowed`. -/
inductive Session.Step (oci : Oci) (allowed : Process → List Process → Store → Prop) :
    Session → Session → Prop
  | start (command : Command) :
      Step oci allowed ⟨s, running⟩ ⟨s, running ++ [⟨command, command.prog oci⟩]⟩
  | mount (before after : List Process) : Prog.Steps (Op.effect oci) s t.rest s' p → mounted p ≠ [] →
      allowed t (before ++ after) s' →
      Step oci allowed ⟨s, before ++ t :: after⟩ ⟨s', before ++ { t with rest := p } :: after⟩
  | leave (before after : List Process) : Prog.Steps (Op.effect oci) s t.rest s' p →
      allowed t (before ++ after) s' →
      Step oci allowed ⟨s, before ++ t :: after⟩ ⟨s', before ++ after⟩

inductive Session.Run (oci : Oci) (allowed : Process → List Process → Store → Prop) (w : Session) :
    Session → Prop
  | refl : Run oci allowed w w
  | tail : Run oci allowed w w' → Session.Step oci allowed w' w'' → Run oci allowed w w''

/-- Every layer another process has mounted is still named by a recorded
manifest. Asked of the collector it would hold anyway. -/
def Retains (t : Process) (others : List Process) (s' : Store) : Prop :=
  t.command.collects = false → ∀ u ∈ others, ∀ q ∈ mounted u.rest, s'.Names q

-- ---------------------------------------------------------------------------
-- The invariant
-- ---------------------------------------------------------------------------

structure Process.Ok (oci : Oci) (s : Store) (t : Process) : Prop where
  resumes : ∀ s s' p, Prog.Step (Op.effect oci) s t.rest s' p → Mounting oci (fun _ _ => True) s' p
  names : ∀ q ∈ mounted t.rest, s.Names q
  collector : t.command.collects = true → t.rest = gcImages

def Session.Ok (oci : Oci) (w : Session) : Prop := ∀ t ∈ w.processes, t.Ok oci w.store

theorem Mounting.names {p : Act α} {post : α → Store → Prop} (h : Mounting oci post s p) :
    ∀ q ∈ mounted p, s.Names q := by
  intro q hq
  cases p with
  | call op next => exact (h s _ .refl).op op next rfl q hq
  | ret _ | throw _ | fork _ _ _ _ => cases hq

theorem Mounting.steps {p p' : Act α} {post : α → Store → Prop} (h : Mounting oci post s p)
    (hs : Prog.Steps (Op.effect oci) s p s' p') : Mounting oci post s' p' := by
  obtain ⟨_, rfl, hrun⟩ := hs.lift (F := havoc oci) (R := fun s t => t = s)
    (by rintro op s r s' _ rfl he; exact ⟨s', rfl, .inl he⟩) rfl
  exact fun s'' p'' hs' => h s'' p'' (hrun.trans hs')

/-- Whatever has been done while a container ran, its process goes on as it
should. -/
theorem Mounting.resumes {p : Act α} {post : α → Store → Prop} (h : Mounting oci post s p)
    (hp : mounted p ≠ []) (hs : Prog.Step (Op.effect oci) s₁ p s' p') : Mounting oci post s' p' := by
  cases p with
  | call op next =>
    obtain ⟨r, he, rfl⟩ := Prog.step_call hs
    have hhavoc : Prog.Step (havoc oci) s (.call op next) s' (next r) := .call (.inr hp)
    exact fun s'' p'' hs' => h s'' p'' ((Prog.Steps.tail .refl hhavoc).trans hs')
  | ret _ | throw _ | fork _ _ _ _ => exact absurd rfl hp

theorem Process.Ok.start (command : Command) : Process.Ok oci s ⟨command, command.prog oci⟩ where
  resumes _ _ _ hs := command.mounting.steps (.tail .refl hs)
  names := command.mounting.names
  collector h := by
    cases command with
    | gcImages => rfl
    | ensure _ _ _ | run _ | dropOrphanRefs _ => cases h

theorem Process.Ok.mount {t : Process} (h : t.Ok oci s)
    (hs : Prog.Steps (Op.effect oci) s t.rest s' p) (hp : mounted p ≠ []) :
    Process.Ok oci s' { t with rest := p } := by
  rcases hs.cases_head with ⟨rfl, rfl⟩ | ⟨s₁, p₁, hfirst, hrest⟩
  · exact ⟨h.resumes, h.names, h.collector⟩
  have hm := (h.resumes s s₁ p₁ hfirst).steps hrest
  refine ⟨fun _ _ _ hs => hm.resumes hp hs, hm.names, fun hc => ?_⟩
  -- A collector starts no container.
  rw [h.collector hc] at hs
  have hidle : Idle p := by
    clear hm hrest hp hc
    induction hs with
    | refl => exact gcImages_tame.idle
    | tail _ hstep ih => exact ih.step hstep
  cases p with
  | call op next => exact absurd hidle.1 hp
  | ret _ | throw _ | fork _ _ _ _ => exact absurd rfl hp

theorem Store.Names.swept (hs : Prog.Steps (Op.effect oci) s gcImages s' p) (h : s.Names q) :
    s'.lookup q = s.lookup q ∧ s'.Names q := by
  obtain ⟨hmarkers, himages⟩ := gcImages_steps hs
  obtain ⟨m, ⟨name, d, hn, hm⟩, l, hl, hq⟩ := h
  have hsame := himages name d m hn hm
  refine ⟨hsame q ?_, m, ⟨name, d, (hmarkers name).trans hn, ?_⟩, l, hl, hq⟩
  · exact mem_imageParts.mpr (.inr (mem_parts.mpr (.inr ⟨l, hl, hq⟩)))
  · rw [← hm]
    exact Store.manifestAt_congr fun p hp => hsame p (mem_imageParts.mpr (.inl hp))

namespace Session

theorem Ok.others (h : Ok oci ⟨s, before ++ t :: after⟩)
    (hs : Prog.Steps (Op.effect oci) s t.rest s' p) (hr : Retains t (before ++ after) s') :
    ∀ u ∈ before ++ after, u.Ok oci s' := by
  intro u hu
  have hmem : u ∈ before ++ t :: after := by
    simp only [List.mem_append, List.mem_cons] at hu ⊢
    tauto
  have hu' := h u hmem
  refine ⟨hu'.resumes, fun q hq => ?_, hu'.collector⟩
  cases hc : t.command.collects with
  | false => exact hr hc u hu q hq
  | true =>
    rw [(h t (by simp)).collector hc] at hs
    exact ((hu'.names q hq).swept hs).2

/-- The step lemma. -/
theorem Ok.step (h : Ok oci w) (hs : Step oci Retains w w') : Ok oci w' := by
  cases hs with
  | start command =>
    intro t ht
    rcases List.mem_append.mp ht with ht | ht
    · exact h t ht
    · cases List.mem_singleton.mp ht
      exact .start command
  | mount _ _ hsteps hp hr =>
    intro u hu
    rcases List.mem_append.mp hu with hu | hu
    · exact h.others hsteps hr u (List.mem_append_left _ hu)
    rcases List.mem_cons.mp hu with rfl | hu
    · exact (h _ (List.mem_append_right _ List.mem_cons_self)).mount hsteps hp
    · exact h.others hsteps hr u (List.mem_append_right _ hu)
  | leave _ _ hsteps hr => exact h.others hsteps hr

/-- The run lemma. -/
theorem Ok.run (h : Ok oci w) (hr : Run oci Retains w w') : Ok oci w' := by
  induction hr with
  | refl => exact h
  | tail _ hs ih => exact ih.step hs

end Session

/-- In any run in which nobody takes away the last record of a layer that
another process has mounted, no step of a collector changes such a layer. -/
theorem gc_keeps_mounted (before after : List Process)
    (h : Session.Run oci Retains ⟨s₀, []⟩ ⟨s, before ++ t :: after⟩)
    (hgc : t.command.collects = true) (hs : Prog.Steps (Op.effect oci) s t.rest s' p) :
    ∀ u ∈ before ++ after, ∀ q ∈ mounted u.rest, s'.lookup q = s.lookup q := by
  have hok : Session.Ok oci ⟨s, before ++ t :: after⟩ :=
    Session.Ok.run (w := ⟨s₀, []⟩) (fun _ h => by cases h) h
  intro u hu q hq
  rw [(hok t (by simp)).collector hgc] at hs
  have hmem : u ∈ before ++ t :: after := by
    simp only [List.mem_append, List.mem_cons] at hu ⊢
    tauto
  exact (((hok u hmem).names q hq).swept hs).1

-- ---------------------------------------------------------------------------
-- An app updated while it runs
-- ---------------------------------------------------------------------------

namespace Updated

def tool (layer : String) : Manifest where
  config := { digest := "sha256:c0" }
  layers := [{ digest := layer, mediaType := imageLayerMediaType }]

def registry : Oci where
  content digest :=
    if digest = "sha256:ab" then .manifest (tool "sha256:a1")
    else if digest = "sha256:cd" then .manifest (tool "sha256:b2")
    else if digest = "sha256:c0" then .config "{}"
    else .archive [⟨"bin/tool", digest⟩]
  whole := some

def first : Handler (I := disk) (Op.effect registry) :=
  calm registry fun _ => some (tool "sha256:a1", "sha256:ab")

def second : Handler (I := disk) (Op.effect registry) :=
  calm registry fun _ => some (tool "sha256:b2", "sha256:cd")

def app : AppConfig where
  app := { name := "tool", description := "", license := "" }
  image := { reference := "example.org/tool:1" }

/-- The app pulled and its container started. -/
def started : Store × Act Unit := Prog.run first 29 (∅, (Command.run app).prog registry)

def runner : Process := ⟨.run app, started.2⟩

def updated : Store × Act Unit :=
  Prog.run second 19 (started.1, (Command.ensure app true false).prog registry)

def cleaned (s : Store) : Store × Act Unit := Prog.run second 40 (s, gcImages)

def layer : Path := .layer "sha256" "a1"

theorem mounted_runner : layer ∈ mounted runner.rest := by decide +kernel

theorem run_started (allowed : Process → List Process → Store → Prop)
    (ha : ∀ t s, allowed t [] s) :
    Session.Run registry allowed ⟨∅, []⟩ ⟨started.1, [runner]⟩ :=
  .tail (.tail .refl (.start (.run app)))
    (.mount [] [] (t := ⟨.run app, (Command.run app).prog registry⟩)
      (Prog.run_steps first 29 _ _) (List.ne_nil_of_mem mounted_runner) (ha _ _))

end Updated

open Updated in
theorem gc_keeps_mounted_started : (cleaned started.1).1.lookup layer = started.1.lookup layer ∧
    started.1.has layer = true := by
  have hrun := (run_started Retains fun _ _ _ _ h => by cases h).tail (.start .gcImages)
  have hkept := gc_keeps_mounted [runner] [] hrun rfl (Prog.run_steps second 40 _ _)
  exact ⟨hkept runner (by simp) layer mounted_runner, by rfl⟩

open Updated in
/-- An update while the app runs leaves its layers to the collector. -/
theorem update_orphans_mounted : ¬ ∀ (oci : Oci) (s₀ s s' : Store) (before after : List Process)
    (t : Process) (p : Act Unit), Session.Run oci (fun _ _ _ => True) ⟨s₀, []⟩ ⟨s, before ++ t :: after⟩ →
      t.command.collects = true → Prog.Steps (Op.effect oci) s t.rest s' p →
      ∀ u ∈ before ++ after, ∀ q ∈ mounted u.rest, s'.lookup q = s.lookup q := by
  intro h
  have hstart := run_started (fun _ _ _ => True) fun _ _ => trivial
  have hupdate := (hstart.tail (.start (.ensure app true false))).tail
    (.leave [runner] [] (Prog.run_steps second 19 _ _) trivial)
  have hlayer := h registry ∅ updated.1 (cleaned updated.1).1 [runner] [] ⟨.gcImages, gcImages⟩ _
    (hupdate.tail (.start .gcImages)) rfl (Prog.run_steps second 40 _ _) runner (by simp) layer
    mounted_runner
  have hgone : (cleaned updated.1).1.lookup layer = none := by decide +kernel
  have hthere : updated.1.has layer = true := by decide +kernel
  rw [Store.has, ← hlayer, hgone] at hthere
  cases hthere

end Climate
