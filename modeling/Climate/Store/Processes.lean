import Climate.Lib.Alone
import Climate.Store.BuildLaws
import Climate.Store.Calm
import Climate.Store.CleanLaws

/-!
# Processes sharing a store

Any number of pulls, builds and collectors work on one store, each step of
one of them being one operation. A process may end or be killed between any
two steps. As long as no collector removes what a pull or build that was
under way since the collector started counts on, the store stays closed.
-/

namespace Climate

variable {oci : Oci}

inductive Job
  | fetchImage (reference : String)
  | build (cfg : AppConfig) (script : String)
  | gcImages

namespace Job

def prog (oci : Oci) : Job → Act Unit
  | .fetchImage reference => Climate.fetchImage reference
  | .build cfg script => Climate.build oci cfg script
  | .gcImages => Climate.gcImages

def collects : Job → Bool
  | .gcImages => true
  | .fetchImage _ | .build .. => false

/-- Whether the job files a manifest of its own. -/
def own : Job → Bool
  | .build .. => true
  | .fetchImage _ | .gcImages => false

end Job

abbrev Replies := List ((op : Op) × op.Res)

/-- `counted` is what a pull or build counts on. For a collector it is what
those under way at any time since it started do. `log` is what a pull or build
has asked and been told. -/
structure Task where
  job : Job
  prog : Act Unit
  counted : List Path := []
  mine : List Path := []
  log : Replies := []

structure World where
  store : Store
  tasks : List Task

/-- What a pull or build counts on is told to the collectors. -/
def Task.tell (paths : List Path) (t : Task) : Task :=
  if t.job.collects then { t with counted := paths ++ t.counted } else t

def World.begin (oci : Oci) (running : List Task) (job : Job) : Task where
  job
  prog := job.prog oci
  counted :=
    if job.collects then (running.filter fun t => !t.job.collects).flatMap (·.counted) else []

/-- A step of the collectors is taken only where it is `allowed`. No two
processes are given the same id. -/
inductive World.Step (oci : Oci) (allowed : Task → Store → Store → Prop) : World → World → Prop
  | start (job : Job) : Step oci allowed ⟨s, running⟩ ⟨s, running ++ [begin oci running job]⟩
  | add (before after : List Task) : t.job.collects = false →
      Prog.Step (noted oci).logged (⟨s, t.counted, t.mine⟩, t.log) t.prog (c, log) p →
      (∀ q ∈ c.mine, q ∈ t.mine ∨ ∀ u ∈ before ++ after, q ∉ u.mine) →
      Step oci allowed ⟨s, before ++ t :: after⟩
        ⟨c.store, before.map (·.tell c.counted) ++
          { t with prog := p, counted := c.counted, mine := c.mine, log } ::
          after.map (·.tell c.counted)⟩
  | collect (before after : List Task) : t.job.collects = true → Prog.Step (Op.effect oci) s t.prog s' p →
      allowed t s s' →
      Step oci allowed ⟨s, before ++ t :: after⟩ ⟨s', before ++ { t with prog := p } :: after⟩
  | leave (before after : List Task) :
      Step oci allowed ⟨s, before ++ t :: after⟩ ⟨s, before ++ after⟩

inductive World.Run (oci : Oci) (allowed : Task → Store → Store → Prop) (w : World) : World → Prop
  | refl : Run oci allowed w w
  | tail : Run oci allowed w w' → Step oci allowed w' w'' → Run oci allowed w w''

/-- A collector leaves alone what the pulls and builds count on that have been
under way since it started. -/
def Spares (t : Task) (s s' : Store) : Prop :=
  ∀ p ∈ t.counted, s.has p = true → s'.has p = true

-- ---------------------------------------------------------------------------
-- The invariant
-- ---------------------------------------------------------------------------

structure Task.Ok (oci : Oci) (s : Store) (t : Task) : Prop where
  noted : t.job.collects = false → Noted.Ok oci ⟨s, t.counted, t.mine⟩
  adds : t.job.collects = false →
    Adding oci t.job.own (fun _ _ => True) ⟨s, t.counted, t.mine⟩ t.prog
  own : t.job.collects = true → t.mine = []
  sweeps : t.job.collects = true → Sweeping oci (fun _ _ => True) ⟨s, t.counted⟩ t.prog

def Task.Apart (t u : Task) : Prop := ∀ p ∈ t.mine, p ∉ u.mine

structure World.Ok (oci : Oci) (w : World) : Prop where
  valid : w.store.Valid oci
  tasks : ∀ t ∈ w.tasks, t.Ok oci w.store
  told : ∀ t ∈ w.tasks, t.job.collects = false → ∀ g ∈ w.tasks, g.job.collects = true →
    t.counted ⊆ g.counted
  apart : w.tasks.Pairwise Task.Apart

theorem Task.Apart.symm {t u : Task} (h : t.Apart u) : u.Apart t := fun p hu ht => h p ht hu

@[simp] theorem Task.tell_job (t : Task) : (t.tell paths).job = t.job := by
  unfold Task.tell
  split <;> rfl

@[simp] theorem Task.tell_prog (t : Task) : (t.tell paths).prog = t.prog := by
  unfold Task.tell
  split <;> rfl

@[simp] theorem Task.tell_mine (t : Task) : (t.tell paths).mine = t.mine := by
  unfold Task.tell
  split <;> rfl

theorem Task.tell_adds {t : Task} (h : t.job.collects = false) : t.tell paths = t := by
  simp [Task.tell, h]

theorem Task.tell_sweeps {t : Task} (h : t.job.collects = true) :
    (t.tell paths).counted = paths ++ t.counted := by
  simp [Task.tell, h]

theorem Job.adds (job : Job) (h : job.collects = false) (hi : c.Ok oci) :
    Adding oci job.own (fun _ _ => True) c (job.prog oci) := by
  cases job with
  | fetchImage reference => exact fetchImage_adds hi
  | build cfg script => exact build_adds hi
  | gcImages => cases h

theorem Job.sweeps (job : Job) (h : job.collects = true) :
    Sweeping oci (fun _ _ => True) c (job.prog oci) := by
  cases job with
  | fetchImage _ | build _ _ => cases h
  | gcImages => exact gcImages_sweeping

-- ---------------------------------------------------------------------------
-- One process seen by another
-- ---------------------------------------------------------------------------

/-- Another task after a step of a pull or build. -/
theorem Task.Ok.added {s : Store} {u : Task} {c : Noted} (hu : u.Ok oci s) (hs : s.Valid oci)
    (hc : c.Ok oci) (hadds : Store.Adds filed c.counted s c.store) (hmine : filed ⊆ c.mine)
    (hapart : ∀ p ∈ u.mine, p ∉ c.mine) : (u.tell c.counted).Ok oci c.store where
  noted h := by
    replace h : u.job.collects = false := by simpa using h
    rw [tell_adds h]
    exact ⟨hc.valid, (hu.noted h).counted, (hu.noted h).mine⟩
  adds h := by
    replace h : u.job.collects = false := by simpa using h
    rw [tell_adds h]
    have hkeeps := hadds.keeps (hu.noted h).counted (fun p hp d => hc.mine p (hmine hp) d)
      fun p hp hm => hapart p hp (hmine hm)
    exact (hu.adds h).interfere Noted.Undisturbed.trans ⟨fun _ h => h, fun _ h => h, hkeeps⟩
  own h := by
    rw [tell_mine]
    exact hu.own (by simpa using h)
  sweeps h := by
    replace h : u.job.collects = true := by simpa using h
    rw [tell_prog, tell_sweeps h]
    refine (hu.sweeps h).interfere Watched.Follows.trans ⟨List.subset_append_right _ _, ?_⟩
    intro name d m hn hm
    have counts : c.store.Counts c.counted d → imageParts d m ⊆ c.counted ++ u.counted := by
      rintro ⟨m', hm', hsub⟩
      cases hm.symm.trans hm'.1
      exact List.Subset.trans hsub (List.subset_append_left _ _)
    rcases hadds.markers name d hn with hn | hnew
    · obtain ⟨m₀, hm₀, -⟩ := hs.closed name d hn (Store.manifestAt_ne_empty hm)
      rcases hadds.manifests d m₀ hm₀ with hsame | ⟨-, hnew⟩
      · cases hsame.symm.trans hm
        exact .inr ⟨hn, hm₀⟩
      · exact .inl (counts hnew)
    · exact .inl (counts hnew)

/-- Another task after a step of a collector. -/
theorem Task.Ok.swept {s s' : Store} {u : Task} (hu : u.Ok oci s) (hs : s'.Valid oci)
    (hremoves : s.Removes spared s') (htold : u.job.collects = false → u.counted ⊆ spared) :
    u.Ok oci s' where
  noted h := ⟨hs, (hu.noted h).counted, (hu.noted h).mine⟩
  adds h := (hu.adds h).interfere Noted.Undisturbed.trans
    ⟨fun _ h => h, fun _ h => h, hremoves.keeps (htold h)⟩
  own := hu.own
  sweeps h := (hu.sweeps h).interfere Watched.Follows.trans ⟨fun _ h => h, fun name _ _ hn hm =>
    .inr ⟨Watched.marker_removes hremoves name ▸ hn, Watched.manifestAt_removes hremoves hm⟩⟩

-- ---------------------------------------------------------------------------
-- Steps and runs
-- ---------------------------------------------------------------------------

namespace World

theorem Ok.start (h : Ok oci ⟨s, running⟩) (job : Job) :
    Ok oci ⟨s, running ++ [begin oci running job]⟩ where
  valid := h.valid
  tasks t ht := by
    rcases List.mem_append.mp ht with ht | ht
    · exact h.tasks t ht
    cases List.mem_singleton.mp ht
    have hnoted : Noted.Ok oci ⟨s, [], []⟩ := ⟨h.valid, by simp, by simp⟩
    cases hjob : job.collects with
    | false =>
      refine ⟨fun _ => ?_, fun _ => ?_, fun hj => ?_, fun hj => ?_⟩
      · simpa [begin, hjob] using hnoted
      · simpa [begin, hjob] using job.adds hjob hnoted
      all_goals simp [begin, hjob] at hj
    | true =>
      refine ⟨fun hj => ?_, fun hj => ?_, fun _ => rfl, fun _ => job.sweeps hjob⟩
      all_goals simp [begin, hjob] at hj
  told t ht hadds g hg hsweeps := by
    rcases List.mem_append.mp hg with hg | hg
    · rcases List.mem_append.mp ht with ht | ht
      · exact h.told t ht hadds g hg hsweeps
      · cases List.mem_singleton.mp ht
        replace hadds : job.collects = false := hadds
        simp [begin, hadds]
    · cases List.mem_singleton.mp hg
      replace hsweeps : job.collects = true := hsweeps
      rcases List.mem_append.mp ht with ht | ht
      · intro p hp
        simp only [begin, hsweeps, if_true, List.mem_flatMap, List.mem_filter]
        exact ⟨t, ⟨ht, by simp [hadds]⟩, hp⟩
      · cases List.mem_singleton.mp ht
        replace hadds : job.collects = false := hadds
        rw [hadds] at hsweeps
        cases hsweeps
  apart := by
    refine List.pairwise_append.mpr ⟨h.apart, List.pairwise_singleton _ _, fun t _ u hu => ?_⟩
    cases List.mem_singleton.mp hu
    exact fun p _ hp => by cases hp

theorem Ok.add (h : Ok oci ⟨s, before ++ t :: after⟩) (hjob : t.job.collects = false)
    (hstep : Prog.Step (noted oci) ⟨s, t.counted, t.mine⟩ t.prog c p)
    (hfresh : ∀ q ∈ c.mine, q ∈ t.mine ∨ ∀ u ∈ before ++ after, q ∉ u.mine) :
    Ok oci ⟨c.store, before.map (·.tell c.counted) ++
      { t with prog := p, counted := c.counted, mine := c.mine, log } ::
      after.map (·.tell c.counted)⟩ := by
  have ht := h.tasks t (by simp)
  obtain ⟨hc, hguar, hsafe⟩ := (ht.adds hjob).step Noted.Undisturbed.refl Noted.Undisturbed.trans
    (ht.noted hjob) hstep
  have hcounted : t.counted ⊆ c.counted := by
    rcases hguar with rfl | hguar
    · exact fun _ h => h
    · exact hguar.counted
  obtain ⟨mine, hmine, hadds⟩ : ∃ mine, mine ⊆ c.mine ∧ Store.Adds mine c.counted s c.store := by
    rcases hguar with rfl | hguar
    · exact ⟨[], by simp, Store.SameKept.adds fun _ _ => rfl⟩
    · exact ⟨_, by split <;> simp, hguar.adds⟩
  obtain ⟨hbefore, hrest, hcross⟩ := List.pairwise_append.mp h.apart
  obtain ⟨hafter, hlast⟩ := List.pairwise_cons.mp hrest
  have hother : ∀ u ∈ before ++ after, u.Apart t ∧ u ∈ before ++ t :: after := by
    intro u hu
    rcases List.mem_append.mp hu with hu | hu
    · exact ⟨hcross u hu t (by simp), by simp [hu]⟩
    · exact ⟨(hafter u hu).symm, by simp [hu]⟩
  have hapart : ∀ u ∈ before ++ after, ∀ q ∈ u.mine, q ∉ c.mine := by
    intro u hu q hq hqc
    rcases hfresh q hqc with hqt | hall
    · exact (hother u hu).1 q hq hqt
    · exact hall u hu hq
  have htold : ∀ u ∈ before ++ after, (u.tell c.counted).Ok oci c.store := fun u hu =>
    (h.tasks u (hother u hu).2).added h.valid hc hadds hmine (hapart u hu)
  have hmem : ∀ {u}, u ∈ before.map (·.tell c.counted) ++
      { t with prog := p, counted := c.counted, mine := c.mine, log } :: after.map (·.tell c.counted) →
      u = { t with prog := p, counted := c.counted, mine := c.mine, log } ∨
      ∃ v ∈ before ++ after, u = v.tell c.counted := by
    intro u hu
    simp only [List.mem_append, List.mem_map, List.mem_cons] at hu ⊢
    rcases hu with ⟨v, hv, rfl⟩ | rfl | ⟨v, hv, rfl⟩
    · exact .inr ⟨v, .inl hv, rfl⟩
    · exact .inl rfl
    · exact .inr ⟨v, .inr hv, rfl⟩
  refine ⟨hc.valid, fun u hu => ?_, fun u hu hadds g hg hsweeps => ?_, ?_⟩
  · rcases hmem hu with rfl | ⟨v, hv, rfl⟩
    · exact ⟨fun _ => hc, fun _ => hsafe, fun hj => by simp [hjob] at hj, fun hj => by simp [hjob] at hj⟩
    · exact htold v hv
  · rcases hmem hg with rfl | ⟨g', hg', rfl⟩
    · simp [hjob] at hsweeps
    replace hsweeps : g'.job.collects = true := by simpa using hsweeps
    rw [Task.tell_sweeps hsweeps]
    rcases hmem hu with rfl | ⟨v, hv, rfl⟩
    · exact List.subset_append_left _ _
    · replace hadds : v.job.collects = false := by simpa using hadds
      rw [Task.tell_adds hadds]
      exact List.Subset.trans (h.told v (hother v hv).2 hadds g' (hother g' hg').2 hsweeps)
        (List.subset_append_right _ _)
  · have hmap : ∀ l : List Task, l.Pairwise Task.Apart → (l.map (·.tell c.counted)).Pairwise Task.Apart := by
      intro l hl
      rw [List.pairwise_map]
      exact hl.imp fun h => by simpa [Task.Apart] using h
    refine List.pairwise_append.mpr ⟨hmap _ hbefore, List.pairwise_cons.mpr ⟨?_, hmap _ hlast⟩, ?_⟩
    · rintro u hu q hq hqu
      obtain ⟨v, hv, rfl⟩ := List.mem_map.mp hu
      exact hapart v (by simp [hv]) q (by simpa using hqu) hq
    · rintro u hu v hv q hq hqv
      obtain ⟨u', hu', rfl⟩ := List.mem_map.mp hu
      replace hq : q ∈ u'.mine := by simpa using hq
      rcases List.mem_cons.mp hv with rfl | hv
      · exact hapart u' (by simp [hu']) q hq hqv
      · obtain ⟨v', hv', rfl⟩ := List.mem_map.mp hv
        exact hcross u' hu' v' (by simp [hv']) q hq (by simpa using hqv)

theorem Ok.collect (h : Ok oci ⟨s, before ++ t :: after⟩) (hjob : t.job.collects = true)
    (hstep : Prog.Step (Op.effect oci) s t.prog s' p) (hspares : Spares t s s') :
    Ok oci ⟨s', before ++ { t with prog := p } :: after⟩ := by
  have ht := h.tasks t (by simp)
  have hstep' : Prog.Step (sparing oci) ⟨s, t.counted⟩ t.prog ⟨s', t.counted⟩ p :=
    hstep.map (fun _ _ he => ⟨he, rfl, hspares⟩) fun hs => by rw [hs]
  obtain ⟨-, hguar, hsafe⟩ := (ht.sweeps hjob).step Watched.Follows.refl Watched.Follows.trans
    trivial hstep'
  obtain ⟨hc, hremoves⟩ : s'.Valid oci ∧ s.Removes t.counted s' := by
    rcases hguar with hsame | hguar
    · cases hsame
      exact ⟨h.valid, hspares, fun _ _ => .inl rfl, fun _ => rfl⟩
    · exact ⟨hguar.valid h.valid, hguar.removes⟩
  have hmem : ∀ {u}, u ∈ before ++ { t with prog := p } :: after →
      u = { t with prog := p } ∨ u ∈ before ++ t :: after := by
    intro u hu
    simp only [List.mem_append, List.mem_cons] at hu ⊢
    tauto
  refine ⟨hc, fun u hu => ?_, fun u hu hadds g hg hsweeps => ?_, ?_⟩
  · rcases hmem hu with rfl | hu
    · exact ⟨fun hj => by simp [hjob] at hj, fun hj => by simp [hjob] at hj, ht.own, fun _ => hsafe⟩
    · exact (h.tasks u hu).swept hc hremoves fun hadds => h.told u hu hadds t (by simp) hjob
  · rcases hmem hu with rfl | hu
    · simp [hjob] at hadds
    · rcases hmem hg with rfl | hg
      · exact h.told u hu hadds t (by simp) hjob
      · exact h.told u hu hadds g hg hsweeps
  · obtain ⟨hbefore, hrest, hcross⟩ := List.pairwise_append.mp h.apart
    obtain ⟨hafter, hlast⟩ := List.pairwise_cons.mp hrest
    refine List.pairwise_append.mpr ⟨hbefore, List.pairwise_cons.mpr ⟨hafter, hlast⟩, ?_⟩
    intro u hu v hv
    rcases List.mem_cons.mp hv with rfl | hv
    · exact hcross u hu t (by simp)
    · exact hcross u hu v (by simp [hv])

theorem Ok.leave (h : Ok oci ⟨s, before ++ t :: after⟩) : Ok oci ⟨s, before ++ after⟩ := by
  have hsub : (before ++ after).Sublist (before ++ t :: after) :=
    List.Sublist.append_left (List.sublist_cons_self t after) before
  exact ⟨h.valid, fun u hu => h.tasks u (hsub.subset hu), fun u hu hadds g hg =>
    h.told u (hsub.subset hu) hadds g (hsub.subset hg), h.apart.sublist hsub⟩

/-- The step lemma. -/
theorem Ok.step (h : Ok oci w) (hs : Step oci Spares w w') : Ok oci w' := by
  cases hs with
  | start job => exact h.start job
  | add _ _ hjob hstep hfresh => exact h.add hjob hstep.unlogged hfresh
  | collect _ _ hjob hstep hspares => exact h.collect hjob hstep hspares
  | leave _ _ => exact h.leave

/-- The run lemma. -/
theorem Ok.run (h : Ok oci w) (hr : Run oci Spares w w') : Ok oci w' := by
  induction hr with
  | refl => exact h
  | tail _ hs ih => exact ih.step hs

theorem Ok.initial (hs : s.Valid oci) : Ok oci ⟨s, []⟩ :=
  ⟨hs, by simp, by simp, .nil⟩

/-- What a running pull or build counts on stays where it is. -/
theorem Ok.kept (h : Ok oci w) (hs : Step oci Spares w w') (ht : t ∈ w.tasks)
    (hjob : t.job.collects = false) (hp : p ∈ t.counted) (hhas : w.store.has p = true) :
    w'.store.has p = true := by
  have hscratch : p.scratch = false := ((h.tasks t ht).noted hjob).counted p hp
  cases hs with
  | start job => exact hhas
  | leave _ _ => exact hhas
  | add _ _ hu hstep hfresh =>
    have hmem := h.tasks _ (List.mem_append_right _ List.mem_cons_self)
    obtain ⟨-, hguar, -⟩ := (hmem.adds hu).step Noted.Undisturbed.refl Noted.Undisturbed.trans
      (hmem.noted hu) hstep.unlogged
    rcases hguar with rfl | hguar
    · exact hhas
    · exact hguar.adds.kept p hscratch hhas
  | collect _ _ hu hstep hspares =>
    have htold := h.told t ht hjob _ (List.mem_append_right _ List.mem_cons_self) hu
    exact hspares p (htold hp) hhas

theorem Run.trans (h : Run oci allowed w w') (h' : Run oci allowed w' w'') :
    Run oci allowed w w'' := by
  induction h' with
  | refl => exact h
  | tail _ hs ih => exact .tail ih hs

/-- A pull or build running alone. -/
theorem Run.alone {c : Noted} (hjob : t.job.collects = false)
    (hs : Prog.Steps (noted oci) ⟨s, t.counted, t.mine⟩ t.prog c p) :
    ∃ log, Run oci allowed ⟨s, [t]⟩
      ⟨c.store, [{ t with prog := p, counted := c.counted, mine := c.mine, log }]⟩ := by
  generalize hc₀ : (⟨s, t.counted, t.mine⟩ : Noted) = c₀ at hs
  induction hs with
  | refl => subst hc₀; exact ⟨t.log, .refl⟩
  | @tail c p _ _ _ hstep ih =>
    obtain ⟨log, hrun⟩ := ih
    obtain ⟨log', hlogged⟩ := hstep.logs log
    exact ⟨log', .tail hrun (.add [] []
      (t := { t with prog := p, counted := c.counted, mine := c.mine, log }) hjob hlogged (by simp))⟩

/-- A collector running while the others wait. -/
theorem Run.collector (oci : Oci) (allowed : Task → Store → Store → Prop)
    (before after : List Task) (hjob : t.job.collects = true)
    (hallowed : ∀ q s s', allowed { t with prog := q } s s')
    (hs : Prog.Steps (Op.effect oci) s t.prog s' p) :
    Run oci allowed ⟨s, before ++ t :: after⟩ ⟨s', before ++ { t with prog := p } :: after⟩ := by
  induction hs with
  | refl => exact .refl
  | @tail s' p _ _ _ hstep ih =>
    exact .tail ih (.collect before after (t := { t with prog := p }) hjob hstep (hallowed _ _ _))

end World

/-- In any run whose collectors spare what overlapping pulls and builds count
on, every ref resolves at all times, and what a running pull or build counts
on stays. -/
theorem run_stays_closed (hs : s.Valid oci) (h : World.Run oci Spares ⟨s, []⟩ w) :
    w.store.Closed ∧ ∀ w', World.Step oci Spares w w' → ∀ t ∈ w.tasks, t.job.collects = false →
      ∀ p ∈ t.counted, w.store.has p = true → w'.store.has p = true :=
  have hok := (World.Ok.initial hs).run h
  ⟨hok.valid.closed, fun _ hstep _ ht hjob _ hp hhas => hok.kept hstep ht hjob hp hhas⟩

-- ---------------------------------------------------------------------------
-- A pull overtaken by a collector
-- ---------------------------------------------------------------------------

def Handler.noted (h : Handler (I := disk) (Op.effect oci)) : Handler (noted oci) where
  answer op c := (h.answer op c.store).map fun r =>
    (r.1, ⟨r.2, op.uses r.1 ++ c.counted, op.makes r.1 ++ c.mine⟩)
  sound {op c r c'} ha := by
    obtain ⟨⟨r', s'⟩, hr, heq⟩ := Option.map_eq_some_iff.mp ha
    cases heq
    exact ⟨h.sound hr, rfl, rfl⟩

namespace Overtaken

def tool : Manifest := { config := { digest := "sha256:c0" }, layers := [] }

def registry : Oci where
  content digest := if digest = "sha256:ab" then .manifest tool else .config "{}"
  whole := some

def hub : Handler (I := disk) (Op.effect registry) :=
  calm registry fun _ => some (tool, "sha256:ab")

def pull : Task := World.begin registry [] (.fetchImage "example.org/tool:1")

/-- So many steps of the pull. -/
def pulling (n : Nat) (c : Noted × Act Unit) : Noted × Act Unit := Prog.run (Handler.noted hub) n c

def pull.at (c : Noted × Act Unit) (log : Replies) : Task :=
  { pull with prog := c.2, counted := c.1.counted, mine := c.1.mine, log }

def collected (s : Store) : Store × Act Unit := Prog.run hub 20 (s, gcImages)

def pulled : Noted × Act Unit := pulling 20 (⟨∅, [], []⟩, pull.prog)

/-- The manifest is stored, its ref not yet recorded. -/
def early : Noted × Act Unit := pulling 5 (⟨∅, [], []⟩, pull.prog)

def swept : Store := (collected early.1.store).1

def late : Noted × Act Unit := pulling 20 (⟨swept, early.1.counted, early.1.mine⟩, early.2)

end Overtaken

theorem Store.valid_empty : Store.Valid oci ∅ := by
  refine ⟨fun p n h => ?_, fun name d h => ?_⟩
  · simp at h
  · simp [Store.marker] at h

open Overtaken in
theorem run_stays_closed_pulled : (collected pulled.1.store).1.Closed ∧
    (collected pulled.1.store).1.marker "example.org+tool:1" = some "sha256:ab" := by
  obtain ⟨log, halone⟩ : ∃ log, World.Run registry Spares ⟨∅, [pull]⟩ ⟨pulled.1.store, [pull.at pulled log]⟩ :=
    World.Run.alone (t := pull) rfl (Prog.run_steps _ _ _ _)
  have hpull : World.Run registry Spares ⟨∅, []⟩ ⟨pulled.1.store, [pull.at pulled log]⟩ :=
    .trans (.tail .refl (.start (.fetchImage "example.org/tool:1"))) halone
  have hleave := World.Run.tail hpull (.leave [] [])
  have hclean := World.Run.collector registry Spares [] [] (t := World.begin registry [] .gcImages) rfl
    (fun _ _ _ p hp => by cases hp)
    (Prog.run_steps hub 20 pulled.1.store gcImages)
  have hrun := (hleave.tail (.start .gcImages)).trans hclean
  exact ⟨(run_stays_closed Store.valid_empty hrun).1, by rfl⟩

open Overtaken in
/-- A collector that runs between the storing of a manifest and the recording
of its ref removes it. -/
theorem collector_overtakes_pull : ¬ ∀ (oci : Oci) (s : Store) (w : World), s.Valid oci →
    World.Run oci (fun _ _ _ => True) ⟨s, []⟩ w → w.store.Closed := by
  intro h
  obtain ⟨log, halone⟩ : ∃ log, World.Run registry (fun _ _ _ => True) ⟨∅, [pull]⟩
      ⟨early.1.store, [pull.at early log]⟩ := World.Run.alone (t := pull) rfl (Prog.run_steps _ _ _ _)
  have hearly : World.Run registry (fun _ _ _ => True) ⟨∅, []⟩ ⟨early.1.store, [pull.at early log]⟩ :=
    .trans (.tail .refl (.start (.fetchImage "example.org/tool:1"))) halone
  have hclean := World.Run.collector registry (fun _ _ _ => True) [pull.at early log] []
    (t := World.begin registry [pull.at early log] .gcImages) rfl (fun _ _ _ => trivial)
    (Prog.run_steps hub 20 early.1.store gcImages)
  have hswept := ((hearly.tail (.start .gcImages)).trans hclean).tail
    (.leave [pull.at early log] [])
  obtain ⟨log', hlate⟩ : ∃ log', World.Run registry (fun _ _ _ => True) ⟨swept, [pull.at early log]⟩
      ⟨late.1.store, [pull.at late log']⟩ :=
    World.Run.alone (t := pull.at early log) rfl (Prog.run_steps _ _ _ _)
  have hmarker : late.1.store.marker "example.org+tool:1" = some "sha256:ab" := by rfl
  have hmissing : late.1.store.manifestAt "sha256:ab" = none := by rfl
  obtain ⟨m, hm, -⟩ := h registry ∅ _ Store.valid_empty (hswept.trans hlate) _ _ hmarker (by decide)
  rw [hmissing] at hm
  cases hm

end Climate
