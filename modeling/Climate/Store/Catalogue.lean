import Climate.Store.CleanExact
import Climate.Store.Update

/-!
# The catalogue

What the store is for: under the name of each ref, the manifest of an image.
What a run starts its container on is read from there, and what a pull says
the registry named is there to be read afterwards.
-/

namespace Climate

variable {oci : Oci} {crates : Crates} {dirs : AppsDirs}

abbrev Catalogue := String → Option Manifest

namespace Store

def catalogue (s : Store) : Catalogue := fun name => (s.marker name).bind s.manifestAt

/-- The settings filed under a digest. -/
def settings (s : Store) (digest : String) : Option String :=
  match (blobFile digest).bind s.lookup with
  | some (.file (.config json)) => some json
  | _ => none

theorem catalogue_eq_some {s : Store} :
    s.catalogue name = some m ↔ ∃ d, s.marker name = some d ∧ s.manifestAt d = some m := by
  simp [catalogue, Option.bind_eq_some_iff]

/-- The settings of what is stored under a registry's digest are what the digest names. -/
theorem Addressed.settings {s : Store} (h : s.Addressed oci) (hb : ¬ Built d)
    (hset : s.settings d = some json) : oci.content d = .config json := by
  unfold Store.settings at hset
  cases hd : blobFile d with
  | none => simp [hd] at hset
  | some p =>
    obtain ⟨algo, name, hpath, rfl⟩ := blobFile_eq_some.mp hd
    simp only [hd, Option.bind_some] at hset
    split at hset
    next json' hlookup =>
      cases hset
      have halgo : algo ≠ buildAlgo := fun heq => hb ⟨name, heq ▸ (digestPath_ok hpath).1⟩
      rw [(digestPath_ok hpath).1]
      exact (h _ _ hlookup algo name _ rfl rfl halgo).symm
    · cases hset

theorem settings_congr {s s' : Store} (h : ∀ p, blobFile d = some p → s'.lookup p = s.lookup p) :
    s'.settings d = s.settings d := by
  unfold settings
  cases hd : blobFile d with
  | none => rfl
  | some p => simp [h p hd]

end Store

/-- Where no image has come to harm, a ref that is the same names the same. -/
theorem Unharmed.catalogue {s₀ s : Store} (h : Unharmed s₀ s) (hclosed : s₀.Closed)
    (hsame : s.lookup (.ref name) = s₀.lookup (.ref name)) : s.catalogue name = s₀.catalogue name := by
  have hmarker : s.marker name = s₀.marker name := by simp [Store.marker, hsame]
  unfold Store.catalogue
  rw [hmarker]
  cases hd : s₀.marker name with
  | none => rfl
  | some d =>
    by_cases hempty : d = ""
    · subst hempty
      rfl
    · obtain ⟨m, hm⟩ := hclosed name d hd hempty
      exact (h.complete name d m ⟨hd, hm⟩).1.trans hm.1.symm

theorem gcImages_catalogue (hs : Prog.Steps (Op.effect oci) s gcImages s' p) (hclosed : s.Closed) :
    s'.catalogue = s.catalogue :=
  funext fun name => (gcImages_unharmed hs).catalogue hclosed (gcImages_tame.steady.steps_refs hs name)

theorem gcImages_settings (hs : Prog.Steps (Op.effect oci) s gcImages s' p) (hm : s.catalogue name = some m) :
    s'.settings m.config.digest = s.settings m.config.digest := by
  obtain ⟨d, hmark, hman⟩ := Store.catalogue_eq_some.mp hm
  refine Store.settings_congr fun p hp => (gcImages_steps hs).2 name d m hmark hman p ?_
  exact mem_imageParts.mpr (.inr (mem_parts.mpr (.inl hp)))

-- ---------------------------------------------------------------------------
-- Reading an image
-- ---------------------------------------------------------------------------

/-- An operation that looks at the store and does no more. -/
def Op.consults (op : Op) : Bool :=
  op.looks && match op with
    | .manifest _ | .manifestRaw _ | .runContainer _ => false
    | _ => true

/-- A program that looks at the store and does no more, however it ends. -/
abbrev Consults (oci : Oci) (post : α → Prop) (s : Store) (p : Act α) : Prop :=
  Prog.Ends (Op.effect oci) (fun op s' => s' = s ∧ Op.consults op = true)
    (Prog.Ends.Outcome (fun s' => s' = s) fun a s' => s' = s ∧ post a) s p

namespace Consults

theorem ret {post : α → Prop} (h : post a) : Consults oci post s (.ret a) := Prog.Ends.ret ⟨rfl, h⟩

theorem throw {post : α → Prop} : Consults oci post s (.throw e) := Prog.Ends.throw rfl

theorem ofExcept {x : Except String α} : Consults oci (fun a => x = .ok a) s (Prog.ofExcept x) := by
  cases x with
  | ok a => exact .ret rfl
  | error e => exact .throw

theorem bind {p : Act α} {f : α → Act β} {Q : α → Prop} {post : β → Prop} (h : Consults oci Q s p)
    (hf : ∀ a, Q a → Consults oci post s (f a)) : Consults oci post s (p >>= f) := by
  refine Prog.Ends.seq h fun a s' ha => ?_
  obtain ⟨rfl, ha⟩ := ha
  exact hf a ha

theorem ask {op : Op} {read : op.Res → Except String α} {post : α → Prop} (hop : op.consults = true)
    (h : ∀ r a, op.effect oci s r s → read r = .ok a → post a) : Consults oci post s (Prog.ask op read) := by
  refine Prog.Ends.ask ⟨rfl, hop⟩ fun r s' he => ?_
  have hlooks : op.looks = true := (Bool.and_eq_true_iff.mp hop).1
  obtain rfl := Op.looks_effect hlooks he
  cases hread : read r with
  | ok a => exact ⟨rfl, h r a he hread⟩
  | error e => rfl

theorem weaken {p : Act α} {post post' : α → Prop} (h : Consults oci post s p) (hp : ∀ a, post a → post' a) :
    Consults oci post' s p := by
  refine Prog.Ends.weaken h fun r s' hr => ?_
  cases r with
  | ok a => exact ⟨hr.1, hp a hr.2⟩
  | error e => exact hr

end Consults

theorem exists_consults : Consults oci (fun present => present = s.has path) s (exists_ path) :=
  .ask rfl fun _ _ he hread => by cases hread; exact he.2

theorem blobPath_consults : Consults oci (fun p => blobFile digest = some p) s (blobPath digest) := by
  refine Consults.ofExcept.weaken fun p hp => ?_
  cases hd : digestPath digest with
  | error e => simp [hd, Except.map] at hp
  | ok q => exact blobFile_eq_some.mpr ⟨q.1, q.2, hd, by simpa [hd, Except.map, eq_comm] using hp⟩

theorem layerPath_consults : Consults oci (fun p => layerDir digest = some p) s (layerPath digest) := by
  refine Consults.ofExcept.weaken fun p hp => ?_
  cases hd : digestPath digest with
  | error e => simp [hd, Except.map] at hp
  | ok q => exact layerDir_eq_some.mpr ⟨q.1, q.2, hd, by simpa [hd, Except.map, eq_comm] using hp⟩

theorem readBlob_consults : Consults oci (fun content => (blobFile digest).bind s.lookup = some (.file content)) s
    (readBlob digest) := by
  refine blobPath_consults.bind fun p hp => .ask rfl fun r content he hread => ?_
  obtain ⟨-, hr⟩ := he
  rw [orFail_ok.mp hread] at hr
  simpa [hp] using hr

theorem readRef_consults :
    Consults oci (fun r => ∀ digest, r = some digest → s.marker (markerName key) = some digest) s
      (readRef key) := by
  refine .ask rfl fun r a he hread digest ha => ?_
  subst ha
  obtain ⟨-, hr⟩ := he
  cases r with
  | error e => cases e <;> cases hread
  | ok content =>
    cases content with
    | text s =>
      cases hread
      exact marker_eq_some.mpr hr
    | _ => cases hread

theorem readManifest_consults : Consults oci (fun r => ∀ m, r = some m → s.catalogue (markerName key) = some m) s
    (readManifest key) := by
  refine readRef_consults.bind fun r hr => ?_
  cases r with
  | none => exact .ret fun m hm => by cases hm
  | some digest =>
    refine readBlob_consults.bind fun content hcontent => ?_
    cases content with
    | manifest m =>
      refine .ret fun m' hm => ?_
      cases hm
      refine Store.catalogue_eq_some.mpr ⟨digest, hr digest rfl, ?_⟩
      rw [Store.manifestAt, ← Option.bind_assoc, hcontent]
      rfl
    | _ => exact .throw

theorem imageConfig_consults : Consults oci (fun json => s.settings m.config.digest = some json) s
    (imageConfig key m) := by
  refine readBlob_consults.bind fun content hcontent => ?_
  cases content with
  | config json =>
    refine .ret ?_
    rw [Store.settings, hcontent]
  | _ => exact .throw

/-- The topmost layer comes first. -/
theorem lowerdirs_consults {digests : List String} :
    Consults oci (fun dirs => dirs.map some = digests.map layerDir) s (lowerdirs digests) := by
  induction digests with
  | nil => exact .ret rfl
  | cons digest rest ih =>
    refine layerPath_consults.bind fun path hpath => ?_
    have hfound : Consults oci (fun _ => True) s (isDir path) := .ask rfl fun _ _ _ _ => trivial
    refine hfound.bind fun found _ => ?_
    cases found with
    | false => exact .throw
    | true =>
      refine ih.bind fun dirs hdirs => .ret ?_
      simp [hdirs, hpath]

theorem mountLayers_consults {layers : List String} :
    Consults oci (fun dirs => dirs.map some = layers.reverse.map layerDir) s (mountLayers layers) := by
  unfold mountLayers
  split
  · exact .throw
  · exact lowerdirs_consults

-- ---------------------------------------------------------------------------
-- Running an app whose image is recorded
-- ---------------------------------------------------------------------------

theorem fetch_present (hwhole : oci.whole reference = some whole) (hhas : s.has (refMarker whole) = true) :
    Consults oci (fun _ => True) s (fetch oci reference false) := by
  unfold fetch
  rw [hwhole]
  have hpresent : Consults oci (fun present => present = s.has (refMarker whole)) s (hasRef whole) :=
    exists_consults
  refine hpresent.bind fun present h => ?_
  rw [h, hhas]
  exact .ret trivial

theorem imageKey_reference (hkey : imageKey oci cfg = .ok key) (hinstall : cfg.image.install = none) :
    oci.whole cfg.image.reference = some key := by
  unfold imageKey at hkey
  rw [hinstall] at hkey
  dsimp only [Option.isSome_none] at hkey
  cases hwhole : oci.whole cfg.image.reference with
  | none => simp [hwhole] at hkey
  | some whole => simpa [hwhole] using hkey

theorem ensure_present (hkey : imageKey oci cfg = .ok key) (hhas : s.has (refMarker key) = true) :
    Consults oci (fun _ => True) s (ensure oci cfg false false) := by
  unfold ensure
  cases hinstall : cfg.image.install with
  | none =>
    dsimp only
    split
    · exact fetch_present (imageKey_reference hkey hinstall) hhas
    · exact .ret trivial
  | some script =>
    dsimp only
    rw [hkey]
    have hpresent : Consults oci (fun present => present = s.has (refMarker key)) s (hasRef key) :=
      exists_consults
    refine hpresent.bind fun present h => ?_
    rw [h, hhas]
    exact .ret trivial

/-- What an image recorded under a name consists of. -/
structure Image.Of (s : Store) (name : String) (image : Image) (m : Manifest) : Prop where
  recorded : s.catalogue name = some m
  layers : image.layers = m.layers.map (·.digest)
  settings : s.settings m.config.digest = some image.config

theorem resolve_present (hkey : imageKey oci cfg = .ok key) (hhas : s.has (refMarker key) = true) :
    Consults oci (fun image => ∃ m, image.Of s (markerName key) m) s (resolve oci cfg) := by
  unfold resolve
  rw [hkey]
  refine (ensure_present hkey hhas).bind fun _ _ => ?_
  refine readManifest_consults.bind fun r hr => ?_
  cases r with
  | none => exact .throw
  | some m =>
    refine imageConfig_consults.bind fun json hjson => .ret ⟨m, hr m rfl, rfl, hjson⟩

/-- The layers' directories, topmost first, as a container is started on them. -/
def Manifest.LowerDirs (m : Manifest) (dirs : List Path) : Prop :=
  dirs.map some = (m.layers.map (·.digest)).reverse.map layerDir

/-- A run of an app whose image is recorded looks at the store, and starts the
container on the layers recorded. -/
structure Op.Runs (s : Store) (name : String) (op : Op) : Prop where
  quiet : op.consults = true ∨ ∃ dirs, op = .runContainer dirs
  layers : ∀ dirs, op = .runContainer dirs → ∃ m, s.catalogue name = some m ∧ m.LowerDirs dirs

theorem Op.consults_runs {op : Op} (h : op.consults = true) : op.Runs s name := by
  refine ⟨.inl h, ?_⟩
  rintro dirs rfl
  cases h

theorem Consults.runs {p : Act α} {post : α → Prop} (h : Consults oci post s p) :
    Prog.Ends (Op.effect oci) (fun op s' => s' = s ∧ Op.Runs s name op)
      (Prog.Ends.Outcome (fun s' => s' = s) fun a s' => s' = s ∧ post a) s p :=
  fun s' p' hs => ⟨fun op next hcall => ⟨((h s' p' hs).op op next hcall).1,
    Op.consults_runs ((h s' p' hs).op op next hcall).2⟩, (h s' p' hs).value⟩

theorem run_present (hkey : imageKey oci cfg = .ok key) (hhas : s.has (refMarker key) = true) :
    Prog.Ends (Op.effect oci) (fun op s' => s' = s ∧ Op.Runs s (markerName key) op)
      (fun _ s' => s' = s) s (run oci cfg) := by
  refine Prog.Ends.bind (resolve_present hkey hhas).runs ?_ fun _ _ h => h
  rintro image _ ⟨rfl, m, himage⟩
  refine Prog.Ends.bind mountLayers_consults.runs ?_ fun _ _ h => h
  rintro dirs _ ⟨rfl, hdirs⟩
  refine Prog.Ends.ask ⟨rfl, .inr ⟨dirs, rfl⟩, ?_⟩ fun _ _ he => he
  rintro _ ⟨⟩
  exact ⟨m, himage.recorded, by rw [Manifest.LowerDirs, hdirs, himage.layers]⟩

namespace Sharing

def tic : AppConfig := { app := ⟨"tic", "a tool", "MIT"⟩, image := { reference := "example.org/tool:1" } }

def pulled : Traced × Act Unit :=
  Prog.run online.logged 33 ((∅, []), pull hub libraries host false false (some "tic"))

theorem pulled_returns : Prog.Steps (traced hub) (∅, []) (pull hub libraries host false false (some "tic"))
    pulled.1 (.ret ()) :=
  Prog.run_value online.logged 33 rfl

theorem load_tic_ok : load libraries host "tic" = .ok tic := toOption_some load_tic

def resolved : Store × Act Image := Prog.run online 4 (pulled.1.1, resolve hub tic)

theorem resolved_returns : Prog.Steps (Op.effect hub) pulled.1.1 (resolve hub tic) resolved.1
    (.ret { layers := ["sha256:a1"], config := "{}" }) :=
  Prog.run_value online 4 rfl

end Sharing

/-- An image already in the store is used as it is: a run asks no registry for
anything, leaves the store alone whatever happens, and starts the container on
the image recorded. -/
theorem run_uses_recorded (hkey : imageKey oci cfg = .ok key) (hhas : s.has (refMarker key) = true)
    (hs : Prog.Steps (Op.effect oci) s (run oci cfg) s' p) :
    (∀ op next, p = .call op next → s' = s ∧ Op.Runs s (markerName key) op) ∧ ∀ x, p = .ofExcept x → s' = s := by
  have hready := run_present hkey hhas s' _ hs.attempt
  refine ⟨?_, fun x hx => ?_⟩
  · rintro op next rfl
    exact hready.op op _ rfl
  · cases x with
    | ok code => exact hready.value (.ok code) (by rw [hx]; rfl)
    | error e => exact hready.value (.error e) (by rw [hx]; rfl)

open Sharing in
theorem run_uses_recorded_tic : Op.Runs pulled.1.1 "example.org+tool:1"
    (.runContainer [.layer "sha256" "a1"]) := by
  have hpending : (Prog.run online 5 (pulled.1.1, run hub tic)).2.pending? =
      some (.runContainer [.layer "sha256" "a1"]) := by rfl
  obtain ⟨next, hsteps⟩ := Prog.run_reaches online 5 hpending
  have hkey : imageKey hub tic = .ok "example.org/tool:1" := rfl
  exact ((run_uses_recorded hkey (by rfl) hsteps).1 _ _ rfl).2

-- ---------------------------------------------------------------------------
-- What a pull records
-- ---------------------------------------------------------------------------

/-- The registry has named this version of the image. -/
def Named (c : Traced) (reference digest : String) (m : Manifest) : Prop :=
  ⟨.manifest reference, .ok (m, digest)⟩ ∈ c.2

/-- A registry's image, as it was named. -/
structure Pulls (oci : Oci) (reference : String) (c : Traced) (digest : String) (m : Manifest) : Prop where
  named : Named c reference digest m
  filed : (blobFile digest).isSome = true
  content : oci.content digest = .manifest m
  registry : ¬ Built digest

theorem blobPath_filed {c : Traced} : Prog.Alone (traced oci) (fun _ _ => True)
    (fun _ _ => (blobFile digest).isSome = true) c (blobPath digest) := by
  refine Prog.Alone.ofExcept fun p hp => ?_
  cases hd : digestPath digest with
  | error e => simp [hd, Except.map] at hp
  | ok q => simp [blobFile, hd]

theorem writeBlob_filed {c : Traced} : Prog.Alone (traced oci) (fun _ _ => True)
    (fun _ _ => (blobFile digest).isSome = true) c (writeBlob digest content) :=
  Prog.Alone.bind blobPath_filed fun _ _ hfiled => Prog.Alone.any.weaken fun _ _ _ => hfiled

theorem fetchImage_pulls {c : Traced} : Prog.Alone (traced oci) (fun _ _ => True)
    (fun _ c' => ∃ d m, Pulls oci reference c' d m ∧ c'.1.marker (markerName reference) = some d) c
    (fetchImage reference) := by
  refine .ask_bind trivial fun r c₁ named he hread => ?_
  obtain ⟨m, d⟩ := named
  cases orFail_ok.mp hread
  have hnamed : Named c₁ reference d m := by
    rw [Named, he.2]
    simp
  obtain ⟨hcontent, hregistry⟩ := he.1.2 m d rfl
  refine Prog.Alone.bind traced_any fun raw c₂ h₂ => ?_
  refine Prog.Alone.bind (traced_any.both writeBlob_filed) fun _ c₃ h₃ => ?_
  obtain ⟨h₃, hfiled⟩ := h₃
  refine Prog.Alone.bind traced_any fun _ c₄ h₄ => ?_
  refine Prog.Alone.bind traced_any fun _ c₅ h₅ => ?_
  refine Prog.Alone.bind traced_any fun _ c₆ h₆ => ?_
  refine .ask trivial fun r c₇ _ he hread => ?_
  cases orFail_ok.mp hread
  have hlater : c₁.2 <+: c₆.2 := h₂.trans (h₃.trans (h₄.trans (h₅.trans h₆)))
  obtain ⟨⟨-, hstore, -⟩, hlog⟩ := he
  refine ⟨d, m, ⟨?_, hfiled, hcontent, hregistry⟩, ?_⟩
  · rw [Named, hlog]
    exact List.mem_append_left _ (hlater.subset hnamed)
  · rw [hstore]
    exact marker_eq_some.mpr (Store.lookup_put_self _ _ _)

theorem Adding.valid {p p' : Act α} {post : α → Noted → Prop} (hs₀ : s₀.Valid oci)
    (h : Adding oci files post ⟨s₀, [], []⟩ p) (hs : Prog.Steps (Op.effect oci) s₀ p s p') : s.Valid oci := by
  obtain ⟨c, rfl, hrun⟩ := hs.lift (F := noted oci) (R := fun s c => c.store = s)
    (by rintro op s r s' c rfl he; exact ⟨⟨s', op.uses r ++ c.counted, op.makes r ++ c.mine⟩, rfl, he, rfl, rfl⟩)
    (show (Noted.mk s₀ [] []).store = s₀ from rfl)
  exact (h.steps Noted.Undisturbed.refl Noted.Undisturbed.trans ⟨hs₀, by simp, by simp⟩ hrun).1.valid

theorem noted_start (h : s.Valid oci) : Noted.Ok oci ⟨s, [], []⟩ := ⟨h, by simp, by simp⟩

/-- A ref to a registry's digest names what the registry named. -/
theorem Pulls.catalogue {c : Traced} {s : Store} (h : Pulls oci reference c d m) (hs : s.Valid oci)
    (hmark : s.marker name = some d) : s.catalogue name = some m := by
  have hne : d ≠ "" := by
    rintro rfl
    exact absurd h.filed (by decide)
  obtain ⟨m', hm', -⟩ := hs.closed name d hmark hne
  have hcontent := hs.addressed.manifestAt h.registry hm'
  rw [h.content] at hcontent
  cases hcontent
  exact Store.catalogue_eq_some.mpr ⟨d, hmark, hm'⟩

-- ---------------------------------------------------------------------------
-- What a build records
-- ---------------------------------------------------------------------------

theorem Consults.alone {p : Act α} {post : α → Prop} (h : Consults oci post s p) :
    Prog.Alone (Op.effect oci) (fun _ _ => True) (fun a s' => s' = s ∧ post a) s p := by
  intro s' p' hs
  refine ⟨fun _ _ _ => trivial, ?_⟩
  rintro a rfl
  exact (h s' _ hs.attempt).value (.ok a) rfl

theorem writeBlob_manifest {s : Store} : Prog.Alone (Op.effect oci) (fun _ _ => True)
    (fun _ s' => s'.manifestAt digest = some m) s (writeBlob digest (.manifest m)) := by
  refine Prog.Alone.bind blobPath_consults.alone fun p s₁ hp => ?_
  refine Prog.Alone.bind Prog.Alone.any fun _ s₂ _ => ?_
  refine .ask trivial fun r s₃ _ he hread => ?_
  cases orFail_ok.mp hread
  obtain ⟨-, rfl, -⟩ := he
  rw [Store.manifestAt_put_self hp.2]
  rfl

theorem recordRef_marks {s : Store} : Prog.Alone (Op.effect oci) (fun _ _ => True)
    (fun _ s' => s'.marker (markerName reference) = some digest ∧ s'.manifestAt digest = s.manifestAt digest) s
    (recordRef reference digest) := by
  refine .ask_bind trivial fun r s₁ _ he _ => ?_
  obtain rfl : s₁ = s := he
  refine .ask trivial fun r s₂ _ he hread => ?_
  cases orFail_ok.mp hread
  obtain ⟨-, rfl, -⟩ := he
  refine ⟨marker_eq_some.mpr (Store.lookup_put_self _ _ _), Store.manifestAt_put_other ?_⟩
  rintro q hq rfl
  obtain ⟨_, _, -, h⟩ := blobFile_eq_some.mp hq
  cases h

/-- The image a build makes of what its base was at first. -/
structure Builds (oci : Oci) (cfg : AppConfig) (s s' : Store) (whole digest : String) (base : Manifest) :
    Prop where
  reference : oci.whole cfg.image.reference = some whole
  before : s.catalogue (markerName whole) = some base
  built : Built digest
  image : ∃ key, imageKey oci cfg = .ok key ∧ s'.catalogue (markerName key) = some (base.extend digest)

theorem build_builds : Prog.Alone (Op.effect oci) (fun _ _ => True)
    (fun _ s' => ∃ whole digest base, Builds oci cfg s s' whole digest base) s (build oci cfg script) := by
  unfold build
  dsimp only
  cases hwhole : oci.whole cfg.image.reference with
  | none => exact .throw
  | some whole =>
    refine Prog.Alone.bind readManifest_consults.alone ?_
    rintro r s₁ ⟨rfl, hbase⟩
    cases r with
    | none => exact .throw
    | some base =>
      refine Prog.Alone.bind Prog.Alone.any fun unique _ _ => ?_
      refine Prog.Alone.bind Prog.Alone.any fun layer _ _ => ?_
      refine Prog.Alone.bind Prog.Alone.any fun _ _ _ => ?_
      refine Prog.Alone.bind Prog.Alone.any fun _ _ _ => ?_
      refine Prog.Alone.bind Prog.Alone.any fun result _ _ => ?_
      refine Prog.Alone.bind Prog.Alone.any fun _ _ _ => ?_
      cases result with
      | error e => exact Prog.Alone.bind Prog.Alone.any fun _ _ _ => .throw
      | ok _ =>
        refine Prog.Alone.bind Prog.Alone.any fun _ s₂ _ => ?_
        refine Prog.Alone.bind writeBlob_manifest fun _ s₃ hfiled => ?_
        cases hkey : imageKey oci cfg with
        | error e => exact .throw
        | ok key =>
          refine recordRef_marks.weaken fun _ s₄ h => ?_
          refine ⟨whole, digestOf buildAlgo (dashless unique), base, hwhole, hbase base rfl, ⟨_, rfl⟩, key,
            hkey, ?_⟩
          exact Store.catalogue_eq_some.mpr ⟨_, h.1, h.2.trans hfiled⟩

-- ---------------------------------------------------------------------------
-- A pull and the run after it
-- ---------------------------------------------------------------------------

theorem ensure_local (hinstall : cfg.image.install = some script) (hpull : cfg.image.pull = false) :
    ensure oci cfg update true = build oci cfg script := by
  unfold ensure
  rw [hinstall, hpull]
  rfl

/-- The image of a base, with one more layer where the app has an install
script. -/
def Manifest.Finished (cfg : AppConfig) (base m : Manifest) : Prop :=
  if cfg.image.install.isSome then ∃ digest, Built digest ∧ m = base.extend digest else m = base

/-- What a pull has seen to. The base is as the registry named it, or as it was
where nothing is to be pulled. -/
structure Ensured (oci : Oci) (cfg : AppConfig) (s : Store) (c : Traced) (base m : Manifest) : Prop where
  valid : c.1.Valid oci
  origin : ∃ whole, oci.whole cfg.image.reference = some whole ∧
    if cfg.image.pull then ∃ d, Pulls oci whole c d base else s.catalogue (markerName whole) = some base
  finished : base.Finished cfg m
  recorded : ∃ key, imageKey oci cfg = .ok key ∧ c.1.catalogue (markerName key) = some m

theorem Named.later {c c' : Traced} (h : Named c reference d m) (hc : c.2 <+: c'.2) : Named c' reference d m :=
  hc.subset h

theorem Pulls.later {c c' : Traced} (h : Pulls oci reference c d m) (hc : c.2 <+: c'.2) :
    Pulls oci reference c' d m :=
  ⟨h.named.later hc, h.filed, h.content, h.registry⟩

theorem fetch_pulls {c c' : Traced} (hs : c.1.Valid oci)
    (hsteps : Prog.Steps (traced oci) c (fetch oci reference true) c' (.ret ())) :
    c'.1.Valid oci ∧ ∃ whole d m, oci.whole reference = some whole ∧ Pulls oci whole c' d m ∧
      c'.1.catalogue (markerName whole) = some m := by
  unfold fetch at hsteps
  cases hwhole : oci.whole reference with
  | none =>
    rw [hwhole] at hsteps
    obtain ⟨-, hbad⟩ := Prog.Steps.of_ofExcept (x := .ok ()) (y := .error _) hsteps
    cases hbad
  | some whole =>
    rw [hwhole] at hsteps
    change Prog.Steps (traced oci) c (fetchImage whole) c' (.ret ()) at hsteps
    have hvalid : c'.1.Valid oci := Adding.valid hs (fetchImage_adds (noted_start hs)) hsteps.unlogged
    obtain ⟨d, m, hpulls, hmark⟩ := (fetchImage_pulls _ _ hsteps).value () rfl
    exact ⟨hvalid, whole, d, m, rfl, hpulls, hpulls.catalogue hvalid hmark⟩

theorem build_ensures {c c' : Traced} (hs : c.1.Valid oci) (hinstall : cfg.image.install = some script)
    (hsteps : Prog.Steps (traced oci) c (build oci cfg script) c' (.ret ())) :
    c'.1.Valid oci ∧ ∃ whole base m, oci.whole cfg.image.reference = some whole ∧
      c.1.catalogue (markerName whole) = some base ∧ base.Finished cfg m ∧
      ∃ key, imageKey oci cfg = .ok key ∧ c'.1.catalogue (markerName key) = some m := by
  obtain ⟨whole, digest, base, hbuilds⟩ := (build_builds _ _ hsteps.unlogged).value () rfl
  refine ⟨Adding.valid hs (build_adds (noted_start hs)) hsteps.unlogged, whole, base, base.extend digest,
    hbuilds.reference, hbuilds.before, ?_, hbuilds.image⟩
  unfold Manifest.Finished
  rw [hinstall]
  exact ⟨digest, hbuilds.built, rfl⟩

theorem ensure_ensures {c c' : Traced} (hs : c.1.Valid oci)
    (hcan : cfg.image.pull = true ∨ cfg.image.install.isSome = true)
    (hsteps : Prog.Steps (traced oci) c (ensure oci cfg true true) c' (.ret ())) :
    ∃ base m, Ensured oci cfg c.1 c' base m := by
  cases hinstall : cfg.image.install with
  | none =>
    have hpull : cfg.image.pull = true := hcan.resolve_right (by simp [hinstall])
    rw [ensure_pulled hinstall hpull] at hsteps
    obtain ⟨hvalid, whole, d, m, hwhole, hpulls, hrecorded⟩ := fetch_pulls hs hsteps
    refine ⟨m, m, hvalid, ⟨whole, hwhole, by rw [if_pos hpull]; exact ⟨d, hpulls⟩⟩, ?_, whole, ?_, hrecorded⟩
    · simp [Manifest.Finished, hinstall]
    · simp [imageKey, hinstall, hwhole]
  | some script =>
    cases hpull : cfg.image.pull with
    | false =>
      rw [ensure_local hinstall hpull] at hsteps
      obtain ⟨hvalid, whole, base, m, hwhole, hbase, hfinished, hkey⟩ := build_ensures hs hinstall hsteps
      exact ⟨base, m, hvalid, ⟨whole, hwhole, by simpa [hpull] using hbase⟩, hfinished, hkey⟩
    | true =>
      rw [ensure_rebuilt hinstall hpull] at hsteps
      rcases Prog.Steps.of_bind_ended (x := .ok ()) hsteps with ⟨_, hbad, -⟩ | ⟨_, c₁, hfetch, hbuild⟩
      · cases hbad
      obtain ⟨hvalid, whole, d, base, hwhole, hpulls, hrecorded⟩ := fetch_pulls hs hfetch
      obtain ⟨hvalid', whole', base', m, hwhole', hbase, hfinished, hkey⟩ := build_ensures hvalid hinstall hbuild
      cases hwhole.symm.trans hwhole'
      cases hrecorded.symm.trans hbase
      exact ⟨base, m, hvalid', ⟨whole, hwhole, by rw [if_pos hpull]; exact ⟨d, hpulls.later hbuild.log_prefix⟩⟩,
        hfinished, hkey⟩

theorem pullApp_ensures {c c' : Traced} (hload : load crates dirs name = .ok cfg)
    (hs : Prog.Steps (traced oci) c (pullApp oci crates dirs (some name)) c' (.ret ())) :
    (cfg.image.pull = true ∨ cfg.image.install.isSome = true) ∧
      Prog.Steps (traced oci) c (ensure oci cfg true true) c' (.ret ()) := by
  rcases Prog.Steps.of_bind_ended (x := .ok ()) hs with ⟨_, hbad, -⟩ | ⟨cfg', c₀, hloaded, hs⟩
  · cases hbad
  obtain ⟨rfl, heq⟩ := Prog.Steps.of_ofExcept (x := .ok cfg') hloaded
  cases heq.trans hload
  dsimp only at hs
  split at hs
  · obtain ⟨-, hbad⟩ := Prog.Steps.of_ofExcept (x := .ok ()) (y := .error _) hs
    cases hbad
  next hcan =>
    refine ⟨?_, hs⟩
    cases hpull : cfg.image.pull <;> cases hinstall : cfg.image.install <;> simp [hpull, hinstall] at hcan ⊢

theorem pull_ensures {c : Traced} (hs : s.Valid oci) (hload : load crates dirs name = .ok cfg)
    (hpull : Prog.Steps (traced oci) (s, []) (pull oci crates dirs false false (some name)) c (.ret ())) :
    ∃ (c₁ : Traced) (base m : Manifest), Ensured oci cfg s c₁ base m ∧ c₁.2 <+: c.2 ∧
      ∃ p : Act Unit, Prog.Steps (Op.effect oci) c₁.1 gcImages c.1 p := by
  rcases Prog.Steps.of_bind_ended (x := .ok ()) hpull with ⟨_, hbad, -⟩ | ⟨_, c₁, happ, hgc⟩
  · cases hbad
  obtain ⟨hcan, hensure⟩ := pullApp_ensures hload happ
  obtain ⟨base, m, hensured⟩ := ensure_ensures hs hcan hensure
  exact ⟨c₁, base, m, hensured, hgc.log_prefix, _, hgc.unlogged⟩

/-- What a pull has been told is what the next run gets. -/
theorem pulled_resolves_as_named {c : Traced} (hs : s.Valid oci) (hload : load crates dirs name = .ok cfg)
    (hpull : Prog.Steps (traced oci) (s, []) (pull oci crates dirs false false (some name)) c (.ret ()))
    (hresolve : Prog.Steps (Op.effect oci) c.1 (resolve oci cfg) s' (.ret image)) :
    s' = c.1 ∧ ∃ whole base m, oci.whole cfg.image.reference = some whole ∧
      (if cfg.image.pull then ∃ d, Pulls oci whole c d base else s.catalogue (markerName whole) = some base) ∧
      base.Finished cfg m ∧ image.layers = m.layers.map (·.digest) ∧
      (¬ Built base.config.digest → oci.content base.config.digest = .config image.config) := by
  obtain ⟨c₁, base, m, hensured, hlog, p, hgc⟩ := pull_ensures hs hload hpull
  obtain ⟨whole, hwhole, horigin⟩ := hensured.origin
  obtain ⟨key, hkey, hrecorded⟩ := hensured.recorded
  have hkept : c.1.catalogue (markerName key) = some m := by
    rw [gcImages_catalogue hgc hensured.valid.closed, hrecorded]
  have hhas : c.1.has (refMarker key) = true := by
    obtain ⟨d, hmark, -⟩ := Store.catalogue_eq_some.mp hkept
    exact Store.has_iff.mpr ⟨_, marker_eq_some.mp hmark⟩
  obtain ⟨hsame, m', himage⟩ := (resolve_present hkey hhas).alone _ _ hresolve |>.value image rfl
  cases hkept.symm.trans himage.recorded
  refine ⟨hsame, whole, base, m, hwhole, ?_, hensured.finished, himage.layers, fun hb => ?_⟩
  · by_cases hp : cfg.image.pull = true
    · rw [if_pos hp] at horigin ⊢
      obtain ⟨d, hpulls⟩ := horigin
      exact ⟨d, hpulls.later hlog⟩
    · rwa [if_neg hp] at horigin ⊢
  · have hconfig : m.config = base.config := by
      have hfinished := hensured.finished
      unfold Manifest.Finished at hfinished
      split at hfinished
      · obtain ⟨digest, -, rfl⟩ := hfinished
        rfl
      · rw [hfinished]
    have hsettings := himage.settings
    rw [gcImages_settings hgc hrecorded, hconfig] at hsettings
    exact hensured.valid.addressed.settings hb hsettings

open Sharing in
theorem pulled_resolves_as_named_tic : ∃ whole base d, hub.whole "example.org/tool:1" = some whole ∧
    Pulls hub whole pulled.1 d base ∧ base.layers.map (·.digest) = ["sha256:a1"] := by
  obtain ⟨-, whole, base, m, hwhole, ⟨d, hpulls⟩, hfinished, hlayers, -⟩ :=
    pulled_resolves_as_named Store.valid_empty load_tic_ok pulled_returns resolved_returns
  obtain rfl : m = base := hfinished
  exact ⟨whole, m, d, hwhole, hpulls, hlayers.symm⟩

end Climate
