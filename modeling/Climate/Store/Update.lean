import Climate.Apps.Definitions
import Climate.Lib.Alone
import Climate.Store.Crash

/-!
# Updating the images

The function of pull.rs behind `climate pull`. An update goes through the apps
in the order of their names and remembers which images it has fetched, so that
apps that share one ask the registry once. Each run is followed with the log
of its operations.
-/

namespace Climate

variable {oci : Oci} {crates : Crates} {dirs : AppsDirs} {rebuild : Bool}

structure Updates where
  updated : List String := []
  failed : List String := []

/-- The full form of an app's reference, or the reference as it is written. -/
def updatedImage (oci : Oci) (cfg : AppConfig) : String :=
  (oci.whole cfg.image.reference).getD cfg.image.reference

def updateApp (oci : Oci) (crates : Crates) (dirs : AppsDirs) (rebuild : Bool) (u : Updates) (name : String) :
    Act Updates :=
  match (load crates dirs name).toOption with
  | none => return u
  | some cfg =>
    match (imageKey oci cfg).toOption with
    | none => return u
    | some key => do
      let present ← hasRef key
      if !present then return u
      let image := updatedImage oci cfg
      match ← (ensure oci cfg (!u.updated.contains image) rebuild).attempt with
      -- An app with an install script fetches its base image only when rebuilt.
      | .ok _ =>
        if cfg.image.pull && (cfg.image.install.isNone || rebuild) then
          return { u with updated := u.updated.insert image }
        else return u
      | .error _ => return { u with failed := u.failed ++ [name] }

def updateApps (oci : Oci) (crates : Crates) (dirs : AppsDirs) (rebuild : Bool) :
    Updates → List String → Act Updates
  | u, [] => return u
  | u, name :: rest => do
    updateApps oci crates dirs rebuild (← updateApp oci crates dirs rebuild u name) rest

/-- The app a pull names is fetched again, and built again if it is built. -/
def pullApp (oci : Oci) (crates : Crates) (dirs : AppsDirs) (app : Option String) : Act Unit :=
  match app with
  | none => .throw "pull: specify an app name or -u/--update"
  | some name => do
    let cfg ← .ofExcept (load crates dirs name)
    if !cfg.image.pull && cfg.image.install.isNone then
      .throw s!"{name}: image is built locally or provided out of band (pull = false)"
    ensure oci cfg true true

def reportFailed (failed : List String) : Except String Unit :=
  if failed.isEmpty then .ok () else .error ("failed to update: " ++ ", ".intercalate failed)

def pull (oci : Oci) (crates : Crates) (dirs : AppsDirs) (update rebuild : Bool) (app : Option String) :
    Act Unit :=
  if rebuild && !update then .throw "pull: -r/--rebuild only goes with -u/--update"
  else if update then do
    let u ← updateApps oci crates dirs rebuild {} (appNames dirs)
    gcImages
    .ofExcept (reportFailed u.failed)
  else do
    pullApp oci crates dirs app
    gcImages

-- ---------------------------------------------------------------------------
-- Fetching
-- ---------------------------------------------------------------------------

/-- A store and the operations made on it so far, with their replies. -/
abbrev Traced := Store × List ((op : Op) × op.Res)

abbrev traced (oci : Oci) : Effects disk Traced := Effects.logged (I := disk) (Op.effect oci)

/-- The registry has named a version of the image, which has then been recorded. -/
def Refreshed (c : Traced) (reference : String) : Prop :=
  ∃ asked told m d, c.2 = asked ++ told ∧ ⟨.manifest reference, .ok (m, d)⟩ ∈ asked ∧
    ⟨.write (refMarker reference) (.text d), .ok ()⟩ ∈ told

theorem Refreshed.later {c c' : Traced} (h : Refreshed c reference) (hc : c.2 <+: c'.2) :
    Refreshed c' reference := by
  obtain ⟨asked, told, m, d, heq, hasked, htold⟩ := h
  obtain ⟨more, hmore⟩ := hc
  refine ⟨asked, told ++ more, m, d, ?_, hasked, List.mem_append_left _ htold⟩
  rw [← hmore, heq, List.append_assoc]

/-- However it runs, what was in the log is still there at its end. -/
theorem traced_any {p : Act α} {c : Traced} :
    Prog.Alone (traced oci) (fun _ _ => True) (fun _ c' => c.2 <+: c'.2) c p :=
  fun _ _ hs => ⟨fun _ _ _ => trivial, fun _ _ => hs.log_prefix⟩

theorem fetchImage_refreshes {c : Traced} :
    Prog.Alone (traced oci) (fun _ _ => True) (fun _ c' => Refreshed c' reference) c (fetchImage reference) := by
  refine .ask_bind trivial fun r c₁ named he hread => ?_
  obtain ⟨m, d⟩ := named
  cases orFail_ok.mp hread
  have hasked : ⟨.manifest reference, .ok (m, d)⟩ ∈ c₁.2 := by
    rw [he.2]
    simp
  refine Prog.Alone.bind traced_any fun raw c₂ h₂ => ?_
  refine Prog.Alone.bind traced_any fun _ c₃ h₃ => ?_
  refine Prog.Alone.bind traced_any fun _ c₄ h₄ => ?_
  refine Prog.Alone.bind traced_any fun _ c₅ h₅ => ?_
  refine Prog.Alone.bind traced_any fun _ c₆ h₆ => ?_
  refine .ask trivial fun r c₇ _ he hread => ?_
  cases orFail_ok.mp hread
  have hprefix : c₁.2 <+: c₆.2 := h₂.trans (h₃.trans (h₄.trans (h₅.trans h₆)))
  exact ⟨c₆.2, [_], m, d, he.2, hprefix.subset hasked, List.mem_singleton.mpr rfl⟩

/-- An image that was fetched anew, or that was not to be. -/
theorem fetch_refreshes {c : Traced} : Prog.Alone (traced oci) (fun _ _ => True)
    (fun _ c' => ∃ whole, oci.whole reference = some whole ∧ (update = true → Refreshed c' whole)) c
    (fetch oci reference update) := by
  unfold fetch
  cases oci.whole reference with
  | none => exact .throw
  | some whole =>
    cases update with
    | true => exact fetchImage_refreshes.weaken fun _ _ h => ⟨whole, rfl, fun _ => h⟩
    | false => exact Prog.Alone.any.weaken fun _ _ _ => ⟨whole, rfl, nofun⟩

-- ---------------------------------------------------------------------------
-- One app's turn
-- ---------------------------------------------------------------------------

theorem hasRef_succeeds {c : Traced} : Prog.Succeeds (traced oci) (fun _ _ => True)
    (fun present c' => c'.1 = c.1 ∧ present = c.1.has (refMarker reference)) c (hasRef reference) := by
  refine .ask trivial fun r c' he => ⟨r, rfl, ?_⟩
  exact he.1

/-- What an app's turn comes to. -/
inductive Turn (oci : Oci) (crates : Crates) (dirs : AppsDirs) (rebuild : Bool) (name : String) (c : Traced)
    (u : Updates) (c' : Traced) : Updates → Prop
  | passed : (∀ cfg key, load crates dirs name = .ok cfg → imageKey oci cfg = .ok key →
        c.1.has (refMarker key) = false) → c'.1 = c.1 → Turn oci crates dirs rebuild name c u c' u
  | ensured {c₀ : Traced} : load crates dirs name = .ok cfg → imageKey oci cfg = .ok key →
      c.1.has (refMarker key) = true → c₀.1 = c.1 → c.2 <+: c₀.2 →
      Prog.Steps (traced oci) c₀ (ensure oci cfg (!u.updated.contains (updatedImage oci cfg)) rebuild) c'
        (.ret ()) →
      Turn oci crates dirs rebuild name c u c'
        (if cfg.image.pull && (cfg.image.install.isNone || rebuild) then
          { u with updated := u.updated.insert (updatedImage oci cfg) } else u)
  | failed {c₀ : Traced} : load crates dirs name = .ok cfg → imageKey oci cfg = .ok key →
      c.1.has (refMarker key) = true → c₀.1 = c.1 → c.2 <+: c₀.2 →
      Prog.Steps (traced oci) c₀ (ensure oci cfg (!u.updated.contains (updatedImage oci cfg)) rebuild) c'
        (.throw e) →
      Turn oci crates dirs rebuild name c u c' { u with failed := u.failed ++ [name] }

/-- No turn ends with an error. -/
theorem updateApp_turn {x : Except String Updates}
    (hs : Prog.Steps (traced oci) c (updateApp oci crates dirs rebuild u name) c' (.ofExcept x)) :
    ∃ u', x = .ok u' ∧ Turn oci crates dirs rebuild name c u c' u' := by
  unfold updateApp at hs
  cases hload : load crates dirs name with
  | error e =>
    rw [hload] at hs
    obtain ⟨rfl, rfl⟩ := hs.of_ret
    refine ⟨u, rfl, .passed (fun cfg key hcfg => ?_) rfl⟩
    cases hload.symm.trans hcfg
  | ok cfg =>
    rw [hload] at hs
    dsimp only [Except.toOption] at hs
    cases hkey : imageKey oci cfg with
    | error e =>
      rw [hkey] at hs
      obtain ⟨rfl, rfl⟩ := hs.of_ret
      refine ⟨u, rfl, .passed (fun cfg' key hcfg hkey' => ?_) rfl⟩
      cases hload.symm.trans hcfg
      cases hkey.symm.trans hkey'
    | ok key =>
      rw [hkey] at hs
      dsimp only at hs
      rcases hs.of_bind_ended with ⟨e, -, hthrow⟩ | ⟨present, c₀, hpresent, hs⟩
      · obtain ⟨_, hbad, -⟩ := Prog.Ends.thrown hasRef_succeeds hthrow
        cases hbad
      obtain ⟨_, hvalue, hstore, hhas⟩ := (hasRef_succeeds _ _ hpresent.attempt).value _ rfl
      cases hvalue
      cases hexists : c.1.has (refMarker key) with
      | false =>
        rw [hhas, hexists] at hs
        obtain ⟨rfl, rfl⟩ := hs.of_ret
        refine ⟨u, rfl, .passed (fun cfg' key' hcfg hkey' => ?_) hstore⟩
        cases hload.symm.trans hcfg
        cases hkey.symm.trans hkey'
        exact hexists
      | true =>
        rw [hhas, hexists] at hs
        rcases hs.of_bind_ended with ⟨e, -, hthrow⟩ | ⟨y, c₁, hensure, hs⟩
        · exact hthrow.attempt_ne_throw.elim
        have hensure := hensure.of_attempt_ended
        cases y with
        | error e =>
          obtain ⟨rfl, rfl⟩ := hs.of_ret
          exact ⟨_, rfl, .failed hload hkey hexists hstore hpresent.log_prefix hensure⟩
        | ok _ =>
          have hturn := Turn.ensured hload hkey hexists hstore hpresent.log_prefix hensure
          dsimp only at hs
          split at hs
          next hfetched =>
            obtain ⟨rfl, rfl⟩ := hs.of_ret
            exact ⟨_, rfl, by rwa [if_pos hfetched] at hturn⟩
          next hleft =>
            obtain ⟨rfl, rfl⟩ := hs.of_ret
            exact ⟨_, rfl, by rwa [if_neg hleft] at hturn⟩

-- ---------------------------------------------------------------------------
-- What was fetched
-- ---------------------------------------------------------------------------

/-- What is remembered as fetched was fetched in this run. -/
def Updates.Fresh (u : Updates) (c : Traced) : Prop := ∀ image ∈ u.updated, Refreshed c image

theorem Updates.Fresh.later {u : Updates} (h : u.Fresh c) (hc : c.2 <+: c'.2) : u.Fresh c' :=
  fun image hmem => (h image hmem).later hc

theorem ensure_pulled (hinstall : cfg.image.install = none) (hpull : cfg.image.pull = true) :
    ensure oci cfg update rebuild = fetch oci cfg.image.reference update := by
  unfold ensure
  rw [hinstall, hpull]
  rfl

theorem ensure_rebuilt (hinstall : cfg.image.install = some script) (hpull : cfg.image.pull = true) :
    ensure oci cfg update true = fetch oci cfg.image.reference update >>= fun _ => build oci cfg script := by
  unfold ensure
  rw [hinstall, hpull]
  rfl

/-- An image that is not fetched again has been fetched before. -/
theorem fetch_fresh {u : Updates} {c₀ : Traced} (hu : u.Fresh c₀)
    (hs : Prog.Steps (traced oci) c₀
      (fetch oci cfg.image.reference (!u.updated.contains (updatedImage oci cfg))) c' (.ret ())) :
    oci.whole cfg.image.reference = some (updatedImage oci cfg) ∧ Refreshed c' (updatedImage oci cfg) := by
  obtain ⟨whole, hwhole, hfetched⟩ := (fetch_refreshes _ _ hs).value () rfl
  have himage : updatedImage oci cfg = whole := by rw [updatedImage, hwhole, Option.getD_some]
  rw [himage] at hfetched hs ⊢
  refine ⟨hwhole, ?_⟩
  cases hmem : u.updated.contains whole with
  | true => exact (hu whole (by simpa using hmem)).later hs.log_prefix
  | false => exact hfetched (by rw [hmem]; rfl)

/-- The base of what is built anew is fetched first. -/
theorem rebuilt_fresh {u : Updates} {c₀ : Traced} (hu : u.Fresh c₀) (hinstall : cfg.image.install = some script)
    (hpull : cfg.image.pull = true)
    (hs : Prog.Steps (traced oci) c₀ (ensure oci cfg (!u.updated.contains (updatedImage oci cfg)) true) c'
      (.ret ())) :
    ∃ c₁ : Traced, oci.whole cfg.image.reference = some (updatedImage oci cfg) ∧
      Refreshed c₁ (updatedImage oci cfg) ∧ Prog.Steps (traced oci) c₁ (build oci cfg script) c' (.ret ()) := by
  rw [ensure_rebuilt hinstall hpull] at hs
  rcases Prog.Steps.of_bind_ended (x := .ok ()) hs with ⟨_, hbad, -⟩ | ⟨_, c₁, hfetch, hbuild⟩
  · cases hbad
  · obtain ⟨hwhole, hfresh⟩ := fetch_fresh hu hfetch
    exact ⟨c₁, hwhole, hfresh, hbuild⟩

/-- The guard of the loop: what it covers has been fetched. -/
theorem ensured_fresh {u : Updates} {c₀ : Traced} (hu : u.Fresh c₀)
    (hfetched : (cfg.image.pull && (cfg.image.install.isNone || rebuild)) = true)
    (hs : Prog.Steps (traced oci) c₀ (ensure oci cfg (!u.updated.contains (updatedImage oci cfg)) rebuild) c'
      (.ret ())) : Refreshed c' (updatedImage oci cfg) := by
  rw [Bool.and_eq_true, Bool.or_eq_true, Option.isNone_iff_eq_none] at hfetched
  obtain ⟨hpull, hcase⟩ := hfetched
  cases hinstall : cfg.image.install with
  | none =>
    rw [ensure_pulled hinstall hpull] at hs
    exact (fetch_fresh hu hs).2
  | some script =>
    rw [hinstall] at hcase
    obtain rfl : rebuild = true := hcase.resolve_left nofun
    obtain ⟨c₁, -, hfresh, hbuild⟩ := rebuilt_fresh hu hinstall hpull hs
    exact hfresh.later hbuild.log_prefix

theorem Turn.fresh {u u' : Updates} (h : Turn oci crates dirs rebuild name c u c' u') (hu : u.Fresh c)
    (hc : c.2 <+: c'.2) : u'.Fresh c' := by
  cases h with
  | passed _ _ => exact hu.later hc
  | failed _ _ _ _ _ _ => exact hu.later hc
  | ensured _ _ _ _ hlog hensure =>
    split
    next hfetched =>
      intro image hmem
      rcases List.mem_insert_iff.mp hmem with rfl | hmem
      · exact ensured_fresh (hu.later hlog) hfetched hensure
      · exact (hu image hmem).later hc
    next => exact hu.later hc

-- ---------------------------------------------------------------------------
-- The loop
-- ---------------------------------------------------------------------------

theorem Turn.failed_eq {u u' : Updates} (h : Turn oci crates dirs rebuild name c u c' u') :
    u'.failed = u.failed ∨ u'.failed = u.failed ++ [name] := by
  cases h with
  | passed _ _ => exact .inl rfl
  | failed _ _ _ _ _ _ => exact .inr rfl
  | ensured _ _ _ _ _ _ => split <;> exact .inl rfl

/-- The loop comes to its end, and only apps it has come to have failed. -/
theorem updateApps_run {x : Except String Updates}
    (hs : Prog.Steps (traced oci) c (updateApps oci crates dirs rebuild u apps) c' (.ofExcept x))
    (hu : u.Fresh c) :
    ∃ u' more, x = .ok u' ∧ u'.Fresh c' ∧ u'.failed = u.failed ++ more ∧ more.Sublist apps := by
  induction apps generalizing u c with
  | nil =>
    obtain ⟨rfl, rfl⟩ := hs.of_ret
    exact ⟨u, [], rfl, hu, (List.append_nil _).symm, .slnil⟩
  | cons name rest ih =>
    rcases hs.of_bind_ended with ⟨e, -, hthrow⟩ | ⟨u₁, c₁, hturn, hs⟩
    · obtain ⟨_, hbad, -⟩ := updateApp_turn (x := .error e) hthrow
      cases hbad
    obtain ⟨_, heq, hturn'⟩ := updateApp_turn (x := .ok u₁) hturn
    cases heq
    obtain ⟨u', more, rfl, hfresh, hfailed, hmore⟩ := ih hs (hturn'.fresh hu hturn.log_prefix)
    rcases hturn'.failed_eq with hsame | hone
    · exact ⟨u', more, rfl, hfresh, hsame ▸ hfailed, hmore.cons name⟩
    · refine ⟨u', name :: more, rfl, hfresh, ?_, hmore.cons_cons name⟩
      rw [hfailed, hone, List.append_assoc, List.singleton_append]

theorem updateApps_append (u : Updates) (before after : List String) :
    updateApps oci crates dirs rebuild u (before ++ after) =
      updateApps oci crates dirs rebuild u before >>= fun u' => updateApps oci crates dirs rebuild u' after := by
  induction before generalizing u with
  | nil => rfl
  | cons name rest ih =>
    rw [List.cons_append, updateApps, updateApps, Prog.bind_assoc]
    simp only [ih]

theorem appNames_nodup (dirs : AppsDirs) : (appNames dirs).Nodup :=
  (List.mergeSort_perm _ _).nodup_iff.mpr (List.nodup_dedup _)

-- ---------------------------------------------------------------------------
-- Recorded images
-- ---------------------------------------------------------------------------

/-- No ref is removed, however far the program comes. -/
def KeepsRefs (oci : Oci) (p : Act α) : Prop :=
  ∀ s s' p', Prog.Steps (Op.effect oci) s p s' p' → ∀ name, s.has (.ref name) = true → s'.has (.ref name) = true

namespace KeepsRefs

theorem ret (a : α) : KeepsRefs oci (.ret a) := by
  intro s s' p' hs name h
  rcases hs.cases_head with ⟨rfl, -⟩ | ⟨_, _, hs, _⟩
  · exact h
  · cases hs

theorem throw (e : String) : KeepsRefs oci (.throw e : Act α) := by
  intro s s' p' hs name h
  rcases hs.cases_head with ⟨rfl, -⟩ | ⟨_, _, hs, _⟩
  · exact h
  · cases hs

theorem tidy {p : Act α} (h : Tidy own p) : KeepsRefs oci p := by
  intro s s' p' hs name hname
  rcases (Recorded.steps h hs).refs with hsame | ⟨-, marker, -, ⟨digest, hmarker⟩, hother⟩
  · rw [Store.has, hsame]
    exact hname
  · by_cases heq : name = marker
    · subst heq
      exact Store.has_iff.mpr ⟨_, marker_eq_some.mp hmarker⟩
    · rw [Store.has, hother name heq]
      exact hname

theorem steady {p : Act α} (h : Steady p) : KeepsRefs oci p := by
  have htidy : Tidy none p := h.tidy
  exact .tidy htidy

theorem bind {p : Act α} {f : α → Act β} (hp : KeepsRefs oci p) (hf : ∀ a, KeepsRefs oci (f a)) :
    KeepsRefs oci (p >>= f) := by
  intro s s' q hs name h
  rcases hs.of_bind with ⟨p', hrun, -⟩ | ⟨a, s₁, hrun, hrest⟩
  · exact hp s s' p' hrun name h
  · exact hf a s₁ s' q hrest name (hp s s₁ _ hrun name h)

theorem attempt {p : Act α} (hp : KeepsRefs oci p) : KeepsRefs oci p.attempt := by
  intro s s' q hs name h
  obtain ⟨p', hrun, -⟩ := hs.of_attempt
  exact hp s s' p' hrun name h

end KeepsRefs

theorem hasRef_keeps : KeepsRefs oci (hasRef reference) := .steady hasRef_tame.steady

theorem fetch_keeps : KeepsRefs oci (fetch oci reference update) := by
  unfold fetch
  cases oci.whole reference with
  | none => exact .throw _
  | some whole =>
    dsimp only
    split
    · exact .tidy fetchImage_tidy
    · refine hasRef_keeps.bind fun present => ?_
      split
      · exact .ret ()
      · exact .tidy fetchImage_tidy

theorem ensure_keeps : KeepsRefs oci (ensure oci cfg update rebuild) := by
  unfold ensure
  cases cfg.image.install with
  | none =>
    dsimp only
    split
    · exact fetch_keeps
    · exact .ret ()
  | some script =>
    dsimp only
    have rebuilt : KeepsRefs oci (do
        if cfg.image.pull then fetch oci cfg.image.reference update
        build oci cfg script) := by
      split
      · exact fetch_keeps.bind fun _ => .tidy build_tidy
      · exact .tidy build_tidy
    split
    · exact rebuilt
    · refine .bind (.steady ofExcept_tame.steady) fun key => ?_
      refine hasRef_keeps.bind fun present => ?_
      split
      · exact .ret ()
      · exact rebuilt

theorem updateApp_keeps (u : Updates) (name : String) :
    KeepsRefs oci (updateApp oci crates dirs rebuild u name) := by
  unfold updateApp
  split
  · exact .ret u
  · split
    · exact .ret u
    · refine hasRef_keeps.bind fun present => ?_
      split
      · exact .ret u
      · refine ensure_keeps.attempt.bind fun r => ?_
        split
        · split <;> exact .ret _
        · exact .ret _

theorem updateApps_keeps (u : Updates) (apps : List String) :
    KeepsRefs oci (updateApps oci crates dirs rebuild u apps) := by
  induction apps generalizing u with
  | nil => exact .ret u
  | cons name rest ih => exact (updateApp_keeps u name).bind ih

-- ---------------------------------------------------------------------------
-- A whole update
-- ---------------------------------------------------------------------------

theorem pull_update : pull oci crates dirs true rebuild app = (do
    let u ← updateApps oci crates dirs rebuild {} (appNames dirs)
    gcImages
    .ofExcept (reportFailed u.failed)) := by
  unfold pull
  rw [Bool.not_true, Bool.and_false]
  rfl

@[simp] theorem reportFailed_nil : reportFailed [] = .ok () := rfl

theorem reportFailed_cons (name : String) (rest : List String) :
    reportFailed (name :: rest) = .error ("failed to update: " ++ ", ".intercalate (name :: rest)) := rfl

/-- How an update ends, `y` being how collecting did. -/
structure Reported (failed : List String) (y x : Except String Unit) : Prop where
  uncollected : ∀ e, y = .error e → x = .error e
  succeeds : x = .ok () ↔ y = .ok () ∧ failed = []
  names : y = .ok () → failed ≠ [] → x = .error ("failed to update: " ++ ", ".intercalate failed)

theorem reportFailed_reported (failed : List String) (y : Except String Unit) :
    Reported failed y (y.bind fun _ => reportFailed failed) := by
  cases y with
  | error e => exact ⟨fun _ h => h, ⟨by simp [Except.bind], by simp⟩, by simp⟩
  | ok _ =>
    cases failed with
    | nil => exact ⟨by simp, by simp [Except.bind], by simp⟩
    | cons name rest =>
      simp only [Except.bind, reportFailed_cons]
      exact ⟨by simp, by simp, fun _ _ => rfl⟩

theorem pull_update_run {x : Except String Unit}
    (hs : Prog.Steps (traced oci) c (pull oci crates dirs true rebuild app) c' (.ofExcept x)) :
    ∃ u c₁ y, Prog.Steps (traced oci) c (updateApps oci crates dirs rebuild {} (appNames dirs)) c₁ (.ret u) ∧
      Prog.Steps (traced oci) c₁ gcImages c' (.ofExcept y) ∧ Reported u.failed y x := by
  rw [pull_update] at hs
  rcases hs.of_bind_ended with ⟨e, -, hthrow⟩ | ⟨u, c₁, hloop, hs⟩
  · obtain ⟨_, _, hbad, -⟩ := updateApps_run (x := .error e) hthrow nofun
    cases hbad
  rcases hs.of_bind_ended with ⟨e, rfl, hgc⟩ | ⟨_, c₂, hgc, hs⟩
  · exact ⟨u, c₁, .error e, hloop, hgc, reportFailed_reported u.failed (.error e)⟩
  · obtain ⟨rfl, rfl⟩ := hs.of_ofExcept
    exact ⟨u, c₁, .ok (), hloop, hgc, reportFailed_reported u.failed (.ok ())⟩

/-- What an update has done about an app whose image is recorded, once its
turn is over: `y` is how ensuring the image ended. -/
structure Handled (oci : Oci) (rebuild : Bool) (name : String) (cfg : AppConfig) (key : String)
    (failed : List String) (c : Traced) (y : Except String Unit) : Prop where
  reported : name ∈ failed ↔ ∃ e, y = .error e
  pulled : name ∉ failed → cfg.image.pull = true → cfg.image.install = none → Refreshed c key
  rebuilt : ∀ script, name ∉ failed → cfg.image.pull = true → cfg.image.install = some script → rebuild = true →
    ∃ base, ∃ c₁ : Traced, oci.whole cfg.image.reference = some base ∧ Refreshed c₁ base ∧
      Prog.Steps (traced oci) c₁ (build oci cfg script) c (.ret ())

/-- An app's turn in an update that begins with the store `s` and ends with
`u`: the loop comes to it in `c₁` with `u₁` and leaves it in `c₂`. -/
structure Visited (oci : Oci) (crates : Crates) (dirs : AppsDirs) (rebuild : Bool) (name : String) (s : Store)
    (u : Updates) (c₁ : Traced) (u₁ : Updates) (c₂ : Traced) : Prop where
  fresh : u₁.Fresh c₁
  recorded : ∀ marker, s.has (.ref marker) = true → c₁.1.has (.ref marker) = true
  handled : ∀ cfg key, load crates dirs name = .ok cfg → imageKey oci cfg = .ok key →
    c₁.1.has (refMarker key) = true → ∃ c₀ y, c₀.1 = c₁.1 ∧
      Prog.Steps (traced oci) c₀ (ensure oci cfg (!u₁.updated.contains (updatedImage oci cfg)) rebuild) c₂
        (.ofExcept y) ∧ Handled oci rebuild name cfg key u.failed c₂ y
  passed : (∀ cfg key, load crates dirs name = .ok cfg → imageKey oci cfg = .ok key →
    c₁.1.has (refMarker key) = false) → name ∉ u.failed

theorem imageKey_pulled (hkey : imageKey oci cfg = .ok key) (hinstall : cfg.image.install = none) :
    updatedImage oci cfg = key := by
  unfold imageKey at hkey
  rw [hinstall] at hkey
  unfold updatedImage
  cases hwhole : oci.whole cfg.image.reference with
  | none =>
    rw [hwhole] at hkey
    cases hkey
  | some whole =>
    rw [hwhole] at hkey
    cases hkey
    rfl

theorem Turn.visited {u u₁ u₂ : Updates} (h : Turn oci crates dirs rebuild name c₁ u₁ c₂ u₂)
    (hfresh : u₁.Fresh c₁)
    (hrecorded : ∀ marker, s.has (.ref marker) = true → c₁.1.has (.ref marker) = true)
    (hbefore : name ∉ u₁.failed) (hfailed : name ∈ u.failed ↔ name ∈ u₂.failed) :
    Visited oci crates dirs rebuild name s u c₁ u₁ c₂ := by
  refine ⟨hfresh, hrecorded, fun cfg key hload hkey hhas => ?_, fun hnone => ?_⟩
  · cases h with
    | passed hnone _ => cases hhas.symm.trans (hnone cfg key hload hkey)
    | failed hload' hkey' _ hstore hlog hensure =>
      cases hload.symm.trans hload'
      cases hkey.symm.trans hkey'
      have hin : name ∈ u.failed := hfailed.mpr (by simp)
      exact ⟨_, .error _, hstore, hensure, ⟨fun _ => ⟨_, rfl⟩, fun _ => hin⟩, fun hout => absurd hin hout,
        fun _ hout => absurd hin hout⟩
    | ensured hload' hkey' _ hstore hlog hensure =>
      cases hload.symm.trans hload'
      cases hkey.symm.trans hkey'
      have hout : name ∉ u.failed := fun hin => by
        have hin := hfailed.mp hin
        split at hin <;> exact hbefore hin
      have hu := hfresh.later hlog
      refine ⟨_, .ok (), hstore, hensure, ⟨fun hin => absurd hin hout, nofun⟩, fun _ hpull hinstall => ?_,
        fun script _ hpull hinstall hrebuild => ?_⟩
      · rw [ensure_pulled hinstall hpull] at hensure
        have hfetched := (fetch_fresh hu hensure).2
        rwa [imageKey_pulled hkey hinstall] at hfetched
      · subst hrebuild
        obtain ⟨c, hwhole, hbase, hbuild⟩ := rebuilt_fresh hu hinstall hpull hensure
        exact ⟨_, c, hwhole, hbase, hbuild⟩
  · intro hin
    cases h with
    | passed _ _ => exact hbefore (hfailed.mp hin)
    | failed hload hkey hhas _ _ _ => cases hhas.symm.trans (hnone _ _ hload hkey)
    | ensured hload hkey hhas _ _ _ => cases hhas.symm.trans (hnone _ _ hload hkey)

/-- An update gives every app its turn, whatever fails, then collects, and
reports the apps whose image could not be ensured, each once and in their
order; it succeeds where there are none. What it takes for fetched it has
fetched. -/
theorem update_refreshes {x : Except String Unit}
    (hs : Prog.Steps (traced oci) (s, []) (pull oci crates dirs true rebuild app) c' (.ofExcept x)) :
    ∃ u c y, Prog.Steps (traced oci) (s, []) (updateApps oci crates dirs rebuild {} (appNames dirs)) c (.ret u) ∧
      Prog.Steps (traced oci) c gcImages c' (.ofExcept y) ∧ Reported u.failed y x ∧
      u.Fresh c ∧ u.failed.Sublist (appNames dirs) ∧
      ∀ before name after, appNames dirs = before ++ name :: after → ∃ c₁ u₁ c₂ u₂,
        Prog.Steps (traced oci) (s, []) (updateApps oci crates dirs rebuild {} before) c₁ (.ret u₁) ∧
        Prog.Steps (traced oci) c₁ (updateApp oci crates dirs rebuild u₁ name) c₂ (.ret u₂) ∧
        Prog.Steps (traced oci) c₂ (updateApps oci crates dirs rebuild u₂ after) c (.ret u) ∧
        Visited oci crates dirs rebuild name s u c₁ u₁ c₂ := by
  obtain ⟨u, c, y, hloop, hgc, hreported⟩ := pull_update_run hs
  obtain ⟨_, more, heq, hfresh, hfailed, hmore⟩ := updateApps_run (x := .ok u) hloop nofun
  cases heq
  rw [List.nil_append] at hfailed
  refine ⟨u, c, y, hloop, hgc, hreported, hfresh, hfailed ▸ hmore, fun before name after hsplit => ?_⟩
  rw [hsplit, updateApps_append] at hloop
  rcases Prog.Steps.of_bind_ended (x := .ok u) hloop with ⟨_, hbad, -⟩ | ⟨u₁, c₁, hfirst, hloop⟩
  · cases hbad
  rcases Prog.Steps.of_bind_ended (x := .ok u) hloop with ⟨_, hbad, -⟩ | ⟨u₂, c₂, hturn, hrest⟩
  · cases hbad
  refine ⟨c₁, u₁, c₂, u₂, hfirst, hturn, hrest, ?_⟩
  obtain ⟨_, done, heq, hfresh₁, hdone, hbefore⟩ := updateApps_run (x := .ok u₁) hfirst nofun
  cases heq
  obtain ⟨_, heq, hturn'⟩ := updateApp_turn (x := .ok u₂) hturn
  cases heq
  obtain ⟨_, later, heq, -, hlater, hafter⟩ :=
    updateApps_run (x := .ok u) hrest (hturn'.fresh hfresh₁ hturn.log_prefix)
  cases heq
  have hnodup := appNames_nodup dirs
  rw [hsplit, List.nodup_middle, List.nodup_cons, List.mem_append, not_or] at hnodup
  obtain ⟨⟨hnotBefore, hnotAfter⟩, -⟩ := hnodup
  refine hturn'.visited hfresh₁ (fun marker => updateApps_keeps _ _ _ _ _ hfirst.unlogged marker) ?_ ?_
  · rw [hdone]
    exact fun hin => hnotBefore (hbefore.subset hin)
  · rw [hlater, List.mem_append, or_iff_left fun hin => hnotAfter (hafter.subset hin)]

-- ---------------------------------------------------------------------------
-- Two apps with one image
-- ---------------------------------------------------------------------------

namespace Sharing

open Toml (Table)

def definition (name : String) : Table :=
  [("app", .table [("name", .string name), ("description", .string "a tool"), ("license", .string "MIT")]),
    ("image", .table [("reference", .string "example.org/tool:1")])]

def libraries : Crates where
  parse text := .ok (definition text)
  print _ := ""
  newlines text := text
  variant _ := none
  sequence _ _ := none
  nearest _ := .nan
  capability _ := none
  capabilityName _ := ""
  seacomb := { known := fun _ => true }

def host : AppsDirs where
  search := [{ path := "/usr/share/climate/apps", groups :=
    { entries := [("t", { entries := [("tac.toml", .file (.ok "tac")), ("tic.toml", .file (.ok "tic"))] })] } }]

def tool : Manifest where
  config := { digest := "sha256:c0" }
  layers := [{ digest := "sha256:a1", mediaType := imageLayerMediaType }]

def hub : Oci where
  content digest :=
    if digest = "sha256:ab" then .manifest tool
    else if digest = "sha256:c0" then .config "{}"
    else .archive [⟨"bin/tool", digest⟩]
  whole := some

def online : Handler (I := disk) (Op.effect hub) := calm hub fun _ => some (tool, "sha256:ab")

def store : Store := Store.put ∅ (refMarker "example.org/tool:1") (.file (.text "sha256:00"))

theorem appNames_host : appNames host = ["tac", "tic"] :=
  List.mergeSort_of_pairwise (by decide)

theorem load_tic : (load libraries host "tic").toOption =
    some { app := ⟨"tic", "a tool", "MIT"⟩, image := { reference := "example.org/tool:1" } } := by
  rfl

theorem update_returns : Prog.Steps (traced hub) (store, []) (pull hub libraries host true false none)
    (Prog.run online.logged 36 ((store, []), pull hub libraries host true false none)).1 (.ret ()) := by
  refine Prog.run_value online.logged 36 ?_
  rw [pull_update, appNames_host]
  rfl

/-- The second app finds the image fetched. -/
theorem update_refreshes_tic : ∃ u c₁ u₁ c₂, Visited hub libraries host false "tic" store u c₁ u₁ c₂ ∧
    Refreshed c₂ "example.org/tool:1" := by
  obtain ⟨u, c, y, -, -, hreported, -, -, hturns⟩ := update_refreshes (x := .ok ()) update_returns
  obtain ⟨c₁, u₁, c₂, u₂, -, -, -, hvisited⟩ := hturns ["tac"] "tic" [] appNames_host
  have hnone : u.failed = [] := (hreported.succeeds.mp rfl).2
  have hhas := hvisited.recorded "example.org+tool:1" (by rfl)
  obtain ⟨_, y, -, -, hhandled⟩ := hvisited.handled _ "example.org/tool:1" (toOption_some load_tic) rfl hhas
  exact ⟨u, c₁, u₁, c₂, hvisited, hhandled.pulled (by simp [hnone]) rfl rfl⟩

end Sharing

end Climate
