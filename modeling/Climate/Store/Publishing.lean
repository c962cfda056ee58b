import Climate.Store.Catalogue

/-!
# The catalogue among many processes

However many pulls, builds and collectors work on a store at once, and
wherever any of them is killed, the catalogue changes only at the moment a
pull or build records its image, and then under that one name.
-/

namespace Climate

variable {oci : Oci}

-- ---------------------------------------------------------------------------
-- What a job is about to record
-- ---------------------------------------------------------------------------

/-- A digest made of an id the job was given. -/
def OwnDigest (told : Replies) (digest : String) : Prop :=
  ∃ id, ⟨.uniqueId, id⟩ ∈ told ∧ digest = digestOf buildAlgo (dashless id)

/-- A ref has been read, and the manifest it named. -/
def ReadThrough (told : Replies) (key : String) (m : Manifest) : Prop :=
  ∃ digest path, ⟨.read (refMarker key), .ok (.text digest)⟩ ∈ told ∧ blobFile digest = some path ∧
    ⟨.read path, .ok (.manifest m)⟩ ∈ told

/-- What a build has read of its base. -/
def BaseRead (oci : Oci) (cfg : AppConfig) (told : Replies) (base : Manifest) : Prop :=
  ∃ whole, oci.whole cfg.image.reference = some whole ∧ ReadThrough told whole base

/-- What a job has asked and been told, the manifests it has stored and whether
it has written a ref. -/
structure Plan where
  told : Replies := []
  filed : List (Path × Manifest) := []
  recorded : Bool := false

namespace Plan

def stores (plan : Plan) : (op : Op) → op.Res → Plan
  | .write (.ref _) _, .ok _ => { plan with recorded := true }
  | .write path (.manifest m), .ok _ => { plan with filed := (path, m) :: plan.filed }
  | _, _ => plan

def after (plan : Plan) (op : Op) (r : op.Res) : Plan :=
  { plan.stores op r with told := plan.told ++ [⟨op, r⟩] }

/-- Nothing but more that was told. -/
structure Grows (plan plan' : Plan) : Prop where
  told : plan.told ⊆ plan'.told
  filed : plan'.filed = plan.filed
  recorded : plan'.recorded = plan.recorded

theorem Grows.refl (plan : Plan) : plan.Grows plan := ⟨fun _ h => h, rfl, rfl⟩

theorem Grows.trans {a b c : Plan} (h : a.Grows b) (h' : b.Grows c) : a.Grows c :=
  ⟨List.Subset.trans h.told h'.told, h'.filed.trans h.filed, h'.recorded.trans h.recorded⟩

theorem Grows.told_more {plan : Plan} : plan.Grows { plan with told := plan.told ++ more } :=
  ⟨List.subset_append_left _ _, rfl, rfl⟩

theorem told_after {op : Op} {r : op.Res} : plan.told ⊆ (after plan op r).told := List.subset_append_left _ _

theorem grows_quiet {op : Op} (plan : Plan) (h : op.quiet = true) (r : op.Res) :
    plan.Grows (plan.after op r) := by
  cases op with
  | write => cases h
  | _ => exact .told_more

end Plan

theorem OwnDigest.later (h : OwnDigest told d) (hmore : told ⊆ told') : OwnDigest told' d := by
  obtain ⟨id, hid, rfl⟩ := h
  exact ⟨id, hmore hid, rfl⟩

theorem ReadThrough.later (h : ReadThrough told key m) (hmore : told ⊆ told') : ReadThrough told' key m := by
  obtain ⟨digest, path, href, hpath, hread⟩ := h
  exact ⟨digest, path, hmore href, hpath, hmore hread⟩

theorem BaseRead.later (h : BaseRead oci cfg told base) (hmore : told ⊆ told') : BaseRead oci cfg told' base := by
  obtain ⟨whole, hwhole, hread⟩ := h
  exact ⟨whole, hwhole, hread.later hmore⟩

/-- The operations, whatever the store they are made on. -/
def planned (oci : Oci) : Effects disk Plan := fun op plan r plan' =>
  (∃ s s', op.effect oci s r s') ∧ plan' = plan.after op r

/-- What a build does with its own: a layer it puts in place, then the
manifest, then the ref to it. -/
inductive Files (oci : Oci) (cfg : AppConfig) (plan : Plan) : Op → Prop
  | layer : p.scratch = true → Files oci cfg plan (.rename p (.layer algo name))
  | manifest : OwnDigest plan.told digest → plan.filed = [] → blobFile digest = some path →
      Files oci cfg plan (.write path (.manifest (Manifest.extend base digest)))
  | ref : name ∈ builtMarker oci cfg → OwnDigest plan.told digest → BaseRead oci cfg plan.told base →
      blobFile digest = some path → (path, Manifest.extend base digest) ∈ plan.filed →
      Files oci cfg plan (.write (.ref name) (.text digest))

/-- What holds of each operation a job makes. -/
def Job.Plans (oci : Oci) : Job → Op → Plan → Prop
  | .fetchImage reference, op, plan => ∀ name c, op = .write (.ref name) c → ∃ m digest, c = .text digest ∧
      ⟨.manifest reference, .ok (m, digest)⟩ ∈ plan.told ∧ oci.content digest = .manifest m ∧ ¬ Built digest
  | .build cfg _, op, plan => plan.recorded = false ∧ (op.quiet = true ∨ Files oci cfg plan op)
  | .gcImages, _, _ => True

abbrev Planning (oci : Oci) (job : Job) (post : α → Plan → Prop) (plan : Plan) (p : Act α) : Prop :=
  Prog.Alone (planned oci) (job.Plans oci) post plan p

-- ---------------------------------------------------------------------------
-- Pulls
-- ---------------------------------------------------------------------------

theorem planned_told {p p' : Act α} (h : Prog.Step (planned oci) plan p plan' p') : plan.told ⊆ plan'.told := by
  induction h with
  | call he =>
    obtain ⟨-, rfl⟩ := he
    exact Plan.told_after
  | task _ _ _ ih => exact ih
  | join _ | abort _ _ => exact fun _ h => h

/-- However it runs, what was told before is still there at its end. -/
theorem planned_any {p : Act α} :
    Prog.Alone (planned oci) (fun _ _ => True) (fun _ plan' => plan.told ⊆ plan'.told) plan p := by
  intro plan' p' hs
  suffices h : plan.told ⊆ plan'.told from ⟨fun _ _ _ => trivial, fun _ _ => h⟩
  induction hs with
  | refl => exact fun _ h => h
  | tail _ hstep ih => exact List.Subset.trans ih (planned_told hstep)

theorem Tame.planning {p : Act α} (h : Tame p) :
    Planning oci (.fetchImage reference) (fun _ plan' => plan.told ⊆ plan'.told) plan p := by
  refine (Prog.Alone.both (Prog.Alone.only (h.imp fun op hop plan name c hwrite => ?_)) planned_any).weaken
    fun _ _ hends => hends.2
  subst hwrite
  cases hop.1

theorem blobPath_planning {job : Job} :
    Planning oci job (fun p plan' => plan' = plan ∧ blobFile digest = some p) plan (blobPath digest) := by
  refine Prog.Alone.ofExcept fun p hp => ⟨rfl, ?_⟩
  cases hd : digestPath digest with
  | error e => simp [hd, Except.map] at hp
  | ok q => exact blobFile_eq_some.mpr ⟨q.1, q.2, hd, by simpa [hd, Except.map, eq_comm] using hp⟩

theorem writeBlob_told : Planning oci (.fetchImage reference) (fun _ plan' => plan.told ⊆ plan'.told) plan
    (writeBlob digest content) := by
  have hplans : Planning oci (.fetchImage reference) (fun _ _ => True) plan (writeBlob digest content) := by
    refine Prog.Alone.bind blobPath_planning fun p _ hp => ?_
    obtain ⟨_, _, -, rfl⟩ := blobFile_eq_some.mp hp.2
    refine .ask_bind (by simp [Job.Plans]) fun _ _ _ _ _ => ?_
    exact .ask (by simp [Job.Plans]) fun _ _ _ _ _ => trivial
  exact (hplans.both planned_any).weaken fun _ _ hends => hends.2

theorem fetchImage_planning : Planning oci (.fetchImage reference) (fun _ _ => True) plan
    (fetchImage reference) := by
  refine .ask_bind (by simp [Job.Plans]) fun r plan₁ named he hread => ?_
  obtain ⟨m, d⟩ := named
  cases orFail_ok.mp hread
  obtain ⟨⟨s, s', -, heffect⟩, rfl⟩ := he
  obtain ⟨hcontent, hregistry⟩ := heffect m d rfl
  refine .ask_bind (by simp [Job.Plans]) fun r plan₂ raw he _ => ?_
  obtain ⟨-, rfl⟩ := he
  refine Prog.Alone.bind writeBlob_told fun _ plan₃ h₃ => ?_
  refine Prog.Alone.bind fetchConfig_tame.planning fun _ plan₄ h₄ => ?_
  refine Prog.Alone.bind fetchLayers_tame.planning fun _ plan₅ h₅ => ?_
  refine .ask_bind (by simp [Job.Plans]) fun r plan₆ _ he _ => ?_
  obtain ⟨-, rfl⟩ := he
  refine .ask ?_ fun _ _ _ _ _ => trivial
  rintro name c ⟨⟩
  refine ⟨m, d, rfl, List.mem_append_left _ (h₅ (h₄ (h₃ ?_))), hcontent, hregistry⟩
  simp [Plan.after]

-- ---------------------------------------------------------------------------
-- Builds
-- ---------------------------------------------------------------------------

/-- A program without tasks that looks, or touches scratch paths. -/
structure Still (p : Act α) : Prop where
  quiet : p.Only fun op : Op => op.quiet = true
  sequential : p.Sequential

namespace Still

theorem ret (a : α) : Still (.ret a) := ⟨trivial, trivial⟩

theorem throw (e : String) : Still (.throw e : Act α) := ⟨trivial, trivial⟩

theorem ofExcept (x : Except String α) : Still (Prog.ofExcept x) := ⟨.ofExcept x, .ofExcept x⟩

theorem ask {op : Op} {read : op.Res → Except String α} (h : op.quiet = true) : Still (Prog.ask op read) :=
  ⟨.ask h, Prog.Sequential.ask (I := disk) op read⟩

theorem bind {p : Act α} {f : α → Act β} (hp : Still p) (hf : ∀ a, Still (f a)) : Still (p >>= f) :=
  ⟨hp.quiet.bind fun a => (hf a).quiet, hp.sequential.bind fun a => (hf a).sequential⟩

theorem attempt {p : Act α} (h : Still p) : Still p.attempt := ⟨h.quiet.attempt, h.sequential.attempt⟩

theorem step {p p' : Act α} (h : p.Only fun op : Op => op.quiet = true)
    (hs : Prog.Step (planned oci) plan p plan' p') : plan.Grows plan' := by
  induction hs with
  | call he =>
    obtain ⟨-, rfl⟩ := he
    exact Plan.grows_quiet _ h.1 _
  | task i _ _ ih => exact ih (h.1 i)
  | join _ | abort _ _ => exact .refl _

/-- A build learns nothing from it but digests. -/
theorem planning {p : Act α} (h : Still p) (hplan : plan.recorded = false) :
    Planning oci (.build cfg script) (fun _ plan' => plan.Grows plan') plan p := by
  intro plan' p' hs
  have hboth : plan.Grows plan' ∧ p'.Only fun op : Op => op.quiet = true := by
    induction hs with
    | refl => exact ⟨.refl plan, h.quiet⟩
    | tail _ hstep ih =>
      obtain ⟨hgrows, hquiet⟩ := ih
      exact ⟨hgrows.trans (Still.step hquiet hstep), hquiet.step hstep⟩
  obtain ⟨hgrows, hquiet⟩ := hboth
  refine ⟨?_, fun _ _ => hgrows⟩
  rintro op next rfl
  exact ⟨hgrows.recorded.trans hplan, .inl hquiet.1⟩

end Still

theorem readBlob_still : Still (readBlob digest) := (Still.ofExcept _).bind fun _ => .ask rfl

theorem readManifest_still : Still (readManifest key) := by
  refine Still.bind (.ask rfl) fun r => ?_
  cases r with
  | none => exact .ret none
  | some digest =>
    refine readBlob_still.bind fun content => ?_
    cases content with
    | manifest m => exact .ret (some m)
    | _ => exact .throw _

theorem imageConfig_still : Still (imageConfig key m) := by
  refine readBlob_still.bind fun content => ?_
  cases content with
  | config json => exact .ret json
  | _ => exact .throw _

theorem lowerdirs_still {digests : List String} : Still (lowerdirs digests) := by
  induction digests with
  | nil => exact .ret []
  | cons digest rest ih =>
    refine (Still.ofExcept _).bind fun path => Still.bind (.ask rfl) fun found => ?_
    cases found with
    | false => exact .throw _
    | true => exact ih.bind fun dirs => .ret _

theorem mountLayers_still {layers : List String} : Still (mountLayers layers) := by
  unfold mountLayers
  split
  · exact .throw _
  · exact lowerdirs_still

theorem runScript_still (h : upper.scratch = true) : Still (runScript cfg script key base upper work) := by
  refine imageConfig_still.bind fun _ => mountLayers_still.bind fun dirs => ?_
  refine Still.bind (.ask h) fun code => ?_
  split
  · exact .throw _
  · exact .ret ()

theorem removeTree_still (h : path.scratch = true) : Still (removeTree path) := .ask h

theorem createTree_still (h : path.scratch = true) : Still (createTree path) := .ask h

theorem work_scratch (id : String) : (Path.layer buildAlgo (stagingName id ++ "-work")).scratch = true := by
  rw [stagingName, String.append_assoc]
  exact isStaging_stagingName _

theorem build_sequential : (build oci cfg script).Sequential := by
  unfold build
  dsimp only
  cases oci.whole cfg.image.reference with
  | none => trivial
  | some baseKey =>
    refine readManifest_still.sequential.bind fun r => ?_
    cases r with
    | none => trivial
    | some base =>
      refine (Prog.Sequential.ask _ _).bind fun unique => (Prog.Sequential.ofExcept _).bind fun layer => ?_
      refine (Prog.Sequential.ask _ _).bind fun _ => (Prog.Sequential.ask _ _).bind fun _ => ?_
      have hupper : (Path.layer buildAlgo (stagingName (dashless unique))).scratch = true :=
        isStaging_stagingName _
      refine (runScript_still hupper).sequential.attempt.bind fun result => ?_
      refine (Prog.Sequential.ask _ _).attempt.bind fun _ => ?_
      cases result with
      | error e => exact (Prog.Sequential.ask _ _).attempt.bind fun _ => trivial
      | ok _ =>
        refine (Prog.Sequential.ask _ _).bind fun _ => ?_
        refine ((Prog.Sequential.ofExcept _).bind fun _ => (Prog.Sequential.ask _ _).bind fun _ =>
          .ask _ _).bind fun _ => ?_
        exact (Prog.Sequential.ofExcept _).bind fun key => (Prog.Sequential.ask _ _).bind fun _ => .ask _ _

theorem refText_ok {r : Except IoError Content} (h : refText key r = .ok (some digest)) :
    r = .ok (.text digest) := by
  cases r with
  | error e => cases e <;> cases h
  | ok content =>
    cases content with
    | text s =>
      cases h
      rfl
    | _ => cases h

theorem readBlob_planning (hplan : plan.recorded = false) :
    Planning oci (.build cfg script) (fun content plan' => plan.Grows plan' ∧ ∃ path,
      blobFile digest = some path ∧
      ⟨.read path, .ok content⟩ ∈ plan'.told) plan (readBlob digest) := by
  refine Prog.Alone.bind blobPath_planning ?_
  rintro path _ ⟨rfl, hpath⟩
  refine .ask ⟨hplan, .inl rfl⟩ fun r plan₁ content he hread => ?_
  cases orFail_ok.mp hread
  obtain ⟨-, rfl⟩ := he
  exact ⟨.told_more, path, hpath, by simp [Plan.after]⟩

theorem readManifest_planning (hplan : plan.recorded = false) :
    Planning oci (.build cfg script)
      (fun r plan' => plan.Grows plan' ∧ ∀ m, r = some m → ReadThrough plan'.told key m)
      plan (readManifest key) := by
  refine .ask_bind ⟨hplan, .inl rfl⟩ fun r plan₁ text he hread => ?_
  obtain ⟨-, rfl⟩ := he
  cases text with
  | none => exact .ret ⟨.told_more, fun m hm => by cases hm⟩
  | some digest =>
    obtain rfl := refText_ok hread
    refine Prog.Alone.bind (readBlob_planning hplan) fun content plan₂ h => ?_
    obtain ⟨hgrows, path, hpath, hcontent⟩ := h
    cases content with
    | manifest m =>
      refine .ret ⟨Plan.Grows.told_more.trans hgrows, fun m' hm => ?_⟩
      cases hm
      exact ⟨digest, path, hgrows.told (by simp [Plan.after]), hpath, hcontent⟩
    | _ => exact .throw

theorem writeBlob_planning (hplan : plan.recorded = false) (hown : OwnDigest plan.told digest)
    (hnone : plan.filed = []) :
    Planning oci (.build cfg script)
      (fun _ plan' => (plan'.recorded = false ∧ ∃ path, blobFile digest = some path ∧
        (path, Manifest.extend base digest) ∈ plan'.filed) ∧ plan.told ⊆ plan'.told) plan
      (writeBlob digest (.manifest (base.extend digest))) := by
  refine Prog.Alone.both ?_ planned_any
  refine Prog.Alone.bind blobPath_planning ?_
  rintro path _ ⟨rfl, hpath⟩
  obtain ⟨algo, name, -, rfl⟩ := blobFile_eq_some.mp hpath
  refine .ask_bind ⟨hplan, .inl rfl⟩ fun r plan₁ _ he hread => ?_
  obtain ⟨-, rfl⟩ := he
  refine .ask ⟨hplan, .inr (.manifest (hown.later Plan.told_after) hnone hpath)⟩ fun r plan₂ _ he hread => ?_
  cases orFail_ok.mp hread
  obtain ⟨-, rfl⟩ := he
  exact ⟨hplan, _, hpath, List.mem_cons_self⟩

theorem recordRef_planning (hplan : plan.recorded = false) (hmarker : markerName key ∈ builtMarker oci cfg)
    (hown : OwnDigest plan.told digest) (hbase : BaseRead oci cfg plan.told base)
    (hpath : blobFile digest = some path)
    (hfiled : (path, Manifest.extend base digest) ∈ plan.filed) :
    Planning oci (.build cfg script) (fun _ _ => True) plan (recordRef key digest) := by
  refine .ask_bind ⟨hplan, .inl rfl⟩ fun r plan₁ _ he _ => ?_
  obtain ⟨-, rfl⟩ := he
  refine .ask ⟨hplan, .inr ?_⟩ fun _ _ _ _ _ => trivial
  exact .ref hmarker (hown.later Plan.told_after) (hbase.later Plan.told_after) hpath hfiled

theorem build_planning : Planning oci (.build cfg script) (fun _ _ => True) {} (build oci cfg script) := by
  unfold build
  dsimp only
  cases hwhole : oci.whole cfg.image.reference with
  | none => exact .throw
  | some baseKey =>
    refine Prog.Alone.bind (readManifest_planning rfl) ?_
    rintro r plan ⟨h, hbase⟩
    cases r with
    | none => exact .throw
    | some base =>
      have hbase := hbase base rfl
      have hplan : plan.recorded = false := h.recorded
      refine .ask_bind ⟨hplan, .inl rfl⟩ fun unique plan₁ _ he hread => ?_
      cases hread
      obtain ⟨-, rfl⟩ := he
      have hlayer : Planning oci (.build cfg script) (fun p plan' => plan' = plan.after .uniqueId unique ∧
          ∃ algo name, p = .layer algo name) (plan.after .uniqueId unique)
          (layerPath (digestOf buildAlgo (dashless unique))) := by
        refine Prog.Alone.ofExcept fun p hp => ⟨rfl, ?_⟩
        cases hd : digestPath (digestOf buildAlgo (dashless unique)) with
        | error e => simp [hd, Except.map] at hp
        | ok q => exact ⟨q.1, q.2, by simpa [hd, Except.map, eq_comm] using hp⟩
      refine Prog.Alone.bind hlayer ?_
      rintro _ _ ⟨rfl, algo, name, rfl⟩
      have hupper : (Path.layer buildAlgo (stagingName (dashless unique))).scratch = true :=
        isStaging_stagingName _
      have hwork := work_scratch (dashless unique)
      refine Prog.Alone.bind ((createTree_still hupper).planning hplan) fun _ plan₁ h₁ => ?_
      refine Prog.Alone.bind ((createTree_still hwork).planning (h₁.recorded.trans hplan)) fun _ plan₂ h₂ => ?_
      have h₂ := h₁.trans h₂
      refine Prog.Alone.bind ((runScript_still hupper).attempt.planning (h₂.recorded.trans hplan))
        fun result plan₃ h₃ => ?_
      have h₃ := h₂.trans h₃
      refine Prog.Alone.bind ((removeTree_still hwork).attempt.planning (h₃.recorded.trans hplan))
        fun _ plan₄ h₄ => ?_
      have h₄ := h₃.trans h₄
      cases result with
      | error e =>
        refine Prog.Alone.bind ((removeTree_still hupper).attempt.planning (h₄.recorded.trans hplan))
          fun _ _ _ => ?_
        exact .throw
      | ok _ =>
        refine .ask_bind ⟨h₄.recorded.trans hplan, .inr (.layer hupper)⟩ fun r plan₅ _ he hread => ?_
        obtain ⟨-, rfl⟩ := he
        have hown : OwnDigest plan₄.told (digestOf buildAlgo (dashless unique)) :=
          ⟨unique, h₄.told (by simp [Plan.after]), rfl⟩
        have hbase : BaseRead oci cfg plan₄.told base :=
          ⟨baseKey, hwhole, hbase.later (List.Subset.trans Plan.told_after h₄.told)⟩
        refine Prog.Alone.bind
          (writeBlob_planning (h₄.recorded.trans hplan) (hown.later Plan.told_after) (h₄.filed.trans h.filed)) ?_
        rintro _ plan₆ ⟨⟨hplan, path, hpath, hfiled⟩, htold⟩
        have hlater : plan₄.told ⊆ plan₆.told := List.Subset.trans Plan.told_after htold
        refine Prog.Alone.bind (Q := fun key plan' => plan' = plan₆ ∧ imageKey oci cfg = .ok key)
          (Prog.Alone.ofExcept fun _ hkey => ⟨rfl, hkey⟩) ?_
        rintro key _ ⟨rfl, hkey⟩
        have hmarker : markerName key ∈ builtMarker oci cfg := by simp [builtMarker, hkey, Except.toOption]
        exact recordRef_planning hplan hmarker (hown.later hlater) (hbase.later hlater) hpath hfiled

theorem Job.planning (job : Job) : Planning oci job (fun _ _ => True) {} (job.prog oci) := by
  cases job with
  | fetchImage reference => exact fetchImage_planning
  | build cfg script => exact build_planning
  | gcImages => exact Prog.Alone.any

-- ---------------------------------------------------------------------------
-- What one step can do
-- ---------------------------------------------------------------------------

/-- No ref and no blob has changed. -/
def Store.SameFiles (s s' : Store) : Prop :=
  (∀ name, s'.lookup (.ref name) = s.lookup (.ref name)) ∧ ∀ d p, blobFile d = some p → s'.lookup p = s.lookup p

namespace Store

theorem SameFiles.refl (s : Store) : s.SameFiles s := ⟨fun _ => rfl, fun _ _ _ => rfl⟩

theorem SameKept.sameFiles {s s' : Store} (h : s.SameKept s') : s.SameFiles s' :=
  ⟨fun name => h (.ref name) rfl, fun _ p hp => h p (blobFile_not_scratch hp)⟩

theorem SameFiles.marker {s s' : Store} (h : s.SameFiles s') (name : String) :
    s'.marker name = s.marker name := by
  simp [Store.marker, h.1]

theorem SameFiles.manifestAt {s s' : Store} (h : s.SameFiles s') (d : String) :
    s'.manifestAt d = s.manifestAt d :=
  manifestAt_congr fun p hp => h.2 d p hp

theorem SameFiles.catalogue {s s' : Store} (h : s.SameFiles s') : s'.catalogue = s.catalogue := by
  funext name
  have hman : s'.manifestAt = s.manifestAt := funext h.manifestAt
  rw [Store.catalogue, h.marker, hman]
  rfl

theorem SameFiles.rename {s s' : Store} (hp : p.scratch = true) (h : s.rename p (.layer algo name) = some s') :
    s.SameFiles s' := by
  obtain ⟨n, -, -, rfl⟩ := rename_eq_some h
  have hsame := (SameKept.remove (s := s) hp).sameFiles
  refine ⟨fun name => ?_, fun d q hq => ?_⟩
  · rw [lookup_put_other _ _ (by simp)]
    exact hsame.1 name
  · obtain ⟨_, _, -, rfl⟩ := blobFile_eq_some.mp hq
    rw [lookup_put_other _ _ (by simp)]
    exact hsame.2 d _ hq

end Store

/-- A step of a build: nothing that shows, a manifest of its own stored, or a
ref written to it. -/
inductive Advance (oci : Oci) (cfg : AppConfig) (s : Store) (plan : Plan) : Store → Plan → Prop
  | still : s.SameFiles s' → plan.Grows plan' → Advance oci cfg s plan s' plan'
  | filed : OwnDigest plan.told digest → plan.filed = [] → blobFile digest = some path → Advance oci cfg s plan
      (s.put path (.file (.manifest (Manifest.extend base digest))))
      { plan with filed := (path, Manifest.extend base digest) :: plan.filed, told := plan.told ++ more }
  | recorded : name ∈ builtMarker oci cfg → OwnDigest plan.told digest → BaseRead oci cfg plan.told base →
      blobFile digest = some path → (path, Manifest.extend base digest) ∈ plan.filed → Advance oci cfg s plan
      (s.put (.ref name) (.file (.text digest))) { plan with recorded := true, told := plan.told ++ more }

theorem Job.Plans.advance {op : Op} {r : op.Res} (h : Job.Plans oci (.build cfg script) op plan)
    (he : op.effect oci s r s') : Advance oci cfg s plan s' (plan.after op r) := by
  obtain ⟨-, hquiet | hfiles⟩ := h
  · exact .still (Op.quiet_effect hquiet he).sameFiles (Plan.grows_quiet plan hquiet r)
  cases hfiles with
  | layer hscratch =>
    rcases OrFails.cases he with ⟨_, -, hrename, -⟩ | rfl
    · exact .still (.rename hscratch hrename) .told_more
    · exact .still (.refl s') .told_more
  | manifest hown hnone hpath =>
    obtain ⟨algo, name, -, rfl⟩ := blobFile_eq_some.mp hpath
    cases r with
    | error e =>
      obtain rfl : s' = s := he
      exact .still (.refl s') .told_more
    | ok u =>
      obtain ⟨-, rfl, -⟩ := he
      exact .filed hown hnone hpath
  | ref hname hown hbase hpath hfiled =>
    cases r with
    | error e =>
      obtain rfl : s' = s := he
      exact .still (.refl s') .told_more
    | ok u =>
      obtain ⟨-, rfl, -⟩ := he
      exact .recorded hname hown hbase hpath hfiled

/-- A step of a pull: the refs as they were, or its own written to what the
registry has named. -/
inductive PullStep (oci : Oci) (reference : String) (told : Replies) (s s' : Store) : Prop
  | still : (∀ name, s'.lookup (.ref name) = s.lookup (.ref name)) → PullStep oci reference told s s'
  | recorded : ⟨.manifest reference, .ok (m, digest)⟩ ∈ told → oci.content digest = .manifest m → ¬ Built digest →
      s' = s.put (.ref (markerName reference)) (.file (.text digest)) → PullStep oci reference told s s'

theorem pull_refs {c c' : Noted} {p p' : Act Unit}
    (h : Planning oci (.fetchImage reference) (fun _ _ => True) plan p)
    (htidy : Tidy (some (markerName reference)) p) (hs : Prog.Step (noted oci) c p c' p') :
    PullStep oci reference plan.told c.store c'.store := by
  cases p with
  | ret _ | throw _ => cases hs
  | call op next =>
    obtain ⟨r, ⟨he, -, -⟩, rfl⟩ := Prog.step_call hs
    cases htame : op.tame with
    | true => exact .still (Op.tame_effect htame he)
    | false =>
      cases op with
      | write path content =>
        rcases OrFails.cases he with ⟨_, -, -, hput, -⟩ | hsame
        · cases path with
          | ref name =>
            obtain ⟨⟨_, hown, _, hp, -⟩, -⟩ := htidy.1 rfl
            cases hp
            cases hown
            obtain ⟨m, digest, rfl, hnamed, hcontent, hregistry⟩ := (h _ _ .refl).op _ _ rfl _ content rfl
            exact .recorded hnamed hcontent hregistry hput
          | _ => exact .still fun name => by rw [hput]; exact Store.lookup_put_other _ _ (by simp)
        · exact .still fun name => by rw [hsame]
      | _ => exact absurd (htame.symm.trans htidy.1) (by decide)
  | fork limit count tasks next =>
    refine .still ?_
    rcases Prog.step_fork hs with ⟨i, t, -, hstep, -⟩ | ⟨-, rfl, -⟩ | ⟨i, e, -, rfl, -⟩
    · exact (htidy.1 i).step_refs (hstep.map (fun _ _ he => he.1) fun h => by rw [h])
    · exact fun _ => rfl
    · exact fun _ => rfl

-- ---------------------------------------------------------------------------
-- The invariant
-- ---------------------------------------------------------------------------

/-- What a build has of its own, no ref names before the build records it. -/
structure Task.Private (s : Store) (t : Task) (plan : Plan) : Prop where
  sequential : t.prog.Sequential
  counted : t.mine ⊆ t.counted
  given : ∀ d, OwnDigest plan.told d → ∀ p, blobFile d = some p → p ∈ t.mine
  filed : ∀ x ∈ plan.filed, x.1 ∈ t.mine ∧ ∃ d, blobFile d = some x.1 ∧ s.manifestAt d = some x.2
  hidden : plan.recorded = false → ∀ name d p, s.marker name = some d → blobFile d = some p → p ∉ t.mine

structure Task.Plans (oci : Oci) (s : Store) (t : Task) (plan : Plan) : Prop where
  planning : Planning oci t.job (fun _ _ => True) plan t.prog
  tidy : Tidy ((Change.job t.job).ref oci) t.prog
  told : t.job.collects = false → plan.told = t.log
  own : t.job.own = true → t.Private s plan

def World.Plans (oci : Oci) (w : World) : Prop := ∀ t ∈ w.tasks, ∃ plan, t.Plans oci w.store plan

theorem Planning.after {job : Job} {p p' : Act α} {post : α → Plan → Prop} (h : Planning oci job post plan p)
    (hs : Prog.Step (planned oci) plan p plan' p') : Planning oci job post plan' p' :=
  fun plan'' p'' hrun => h plan'' p'' (Prog.Steps.trans (.tail .refl hs) hrun)

theorem Planning.step {job : Job} {p p' : Act α} {post : α → Plan → Prop} (h : Planning oci job post plan p)
    {c c' : Noted × Replies} (htold : plan.told = c.2) (hs : Prog.Step (noted oci).logged c p c' p') :
    ∃ plan', Planning oci job post plan' p' ∧ plan'.told = c'.2 := by
  obtain ⟨plan', htold', hs'⟩ := hs.lift (F := planned oci) (R := fun c plan => plan.told = c.2)
    (fun op c r c' plan htold he => ⟨plan.after op r, by rw [he.2, ← htold]; rfl, ⟨_, _, he.1.1⟩, rfl⟩) htold
  exact ⟨plan', h.after hs', htold'⟩

/-- A marker names what is there. -/
theorem Store.Closed.has {s : Store} (h : s.Closed) (hmark : s.marker name = some d) (hp : blobFile d = some p) :
    s.has p = true := by
  have hne : d ≠ "" := by
    rintro rfl
    simp [show blobFile "" = none by decide] at hp
  obtain ⟨m, hm, -⟩ := h name d hmark hne
  exact manifestAt_has hm hp

theorem makes_uses {op : Op} {r : op.Res} : op.makes r ⊆ op.uses r := by
  cases op with
  | uniqueId => exact List.subset_append_left _ _
  | _ => exact List.nil_subset _

theorem makes_same {op : Op} {r : op.Res} (h : p ∈ op.makes r) (he : op.effect oci s r s') : s' = s := by
  cases op with
  | uniqueId => exact he.1
  | _ => cases h

theorem OwnDigest.after {op : Op} {r : op.Res} (h : OwnDigest (Plan.after plan op r).told d) :
    OwnDigest plan.told d ∨ ∀ p, blobFile d = some p → p ∈ op.makes r := by
  obtain ⟨id, hid, rfl⟩ := h
  rcases List.mem_append.mp hid with hid | hid
  · exact .inl ⟨id, hid, rfl⟩
  · cases List.mem_singleton.mp hid
    exact .inr fun p hp => Option.mem_toList.mpr hp

theorem Store.marker_put_blob {s : Store} (h : blobFile d = some path) (name : String) :
    (s.put path n).marker name = s.marker name := by
  obtain ⟨algo, hex, -, rfl⟩ := blobFile_eq_some.mp h
  simp [Store.marker]

theorem Store.manifestAt_put_ref {s : Store} (d : String) : (s.put (.ref name) n).manifestAt d =
    s.manifestAt d := by
  refine manifestAt_put_other ?_
  rintro q hq rfl
  obtain ⟨_, _, -, h⟩ := blobFile_eq_some.mp hq
  cases h

theorem Task.Private.filed_after {t : Task} (h : t.Private s plan) (hadvance : Advance oci cfg s plan s' plan') :
    ∀ x ∈ plan'.filed, x.1 ∈ t.mine ∧ ∃ d, blobFile d = some x.1 ∧ s'.manifestAt d = some x.2 := by
  intro x hx
  cases hadvance with
  | still hsame hgrows =>
    rw [hgrows.filed] at hx
    obtain ⟨hmine, d, hd, hm⟩ := h.filed x hx
    exact ⟨hmine, d, hd, (hsame.manifestAt d).trans hm⟩
  | filed hown hnone hpath =>
    rw [hnone] at hx
    obtain rfl := List.mem_singleton.mp hx
    exact ⟨h.given _ hown _ hpath, _, hpath, Store.manifestAt_put_self hpath⟩
  | recorded =>
    obtain ⟨hmine, d, hd, hm⟩ := h.filed x hx
    exact ⟨hmine, d, hd, (Store.manifestAt_put_ref d).trans hm⟩

theorem Task.Private.hidden_after {t : Task} (h : t.Private s plan) (hadvance : Advance oci cfg s plan s' plan')
    (hplan : plan'.recorded = false) (hmark : s'.marker name = some d) (hp : blobFile d = some p) :
    p ∉ t.mine := by
  cases hadvance with
  | still hsame hgrows => exact h.hidden (hgrows.recorded ▸ hplan) name d p (hsame.marker name ▸ hmark) hp
  | filed _ _ hpath => exact h.hidden hplan name d p (Store.marker_put_blob hpath name ▸ hmark) hp
  | recorded => cases hplan

theorem Task.Private.step {t : Task} {op : Op} {r : op.Res} {c : Noted} {next : op.Res → Act Unit}
    (h : t.Private s plan) (hc : c.store.Closed) (hprog : t.prog = .call op next)
    {log : Replies} (hplans : Job.Plans oci (.build cfg script) op plan)
    (he : noted oci op ⟨s, t.counted, t.mine⟩ r c) :
    Task.Private c.store { t with prog := next r, counted := c.counted, mine := c.mine, log }
    (plan.after op r) := by
  obtain ⟨heffect, hcounted, hmine⟩ := he
  have hadvance := hplans.advance heffect
  have hkept : t.mine ⊆ c.mine := by rw [hmine]; exact List.subset_append_right _ _
  have hseq : (Prog.call op next : Act Unit).Sequential := hprog ▸ h.sequential
  refine ⟨hseq r, ?_, fun d hd p hp => ?_, fun x hx => ?_, fun hplan name d p hmark hp hmem => ?_⟩
  · rw [hcounted, hmine]
    exact List.append_subset.mpr ⟨List.Subset.trans makes_uses (List.subset_append_left _ _),
      List.Subset.trans h.counted (List.subset_append_right _ _)⟩
  · rcases hd.after with hd | hd
    · exact hkept (h.given d hd p hp)
    · simp [hmine, hd p hp]
  · obtain ⟨hx', hd⟩ := h.filed_after hadvance x hx
    exact ⟨hkept hx', hd⟩
  · simp only [hmine, List.mem_append] at hmem
    rcases hmem with hmem | hmem
    · -- What has just been handed out is not there.
      have hhas := hc.has hmark hp
      rw [makes_same hmem heffect, (makes_fresh hmem heffect).2] at hhas
      cases hhas
    · exact h.hidden_after hadvance hplan hmark hp hmem

/-- A step of somebody else. -/
theorem Task.Private.beside {u : Task} (h : u.Private s plan) (hkeeps : Store.Keeps u.mine u.counted s s')
    (hmarkers : ∀ name d, s'.marker name = some d →
      s.marker name = some d ∨ ∀ p, blobFile d = some p → p ∉ u.mine) :
    u.Private s' plan where
  sequential := h.sequential
  counted := h.counted
  given := h.given
  filed x hx := by
    obtain ⟨hmine, d, hd, hm⟩ := h.filed x hx
    exact ⟨hmine, d, hd, hkeeps.manifests d x.2 x.1 hd (h.counted hmine) (fun _ => hmine) hm⟩
  hidden hplan name d p hmark hp := by
    rcases hmarkers name d hmark with hold | hother
    · exact h.hidden hplan name d p hold hp
    · exact hother p hp

-- ---------------------------------------------------------------------------
-- What a step does to the catalogue
-- ---------------------------------------------------------------------------

/-- A job records its image: the one the registry named to it, or the base it
has read with a layer of its own. -/
inductive Catalogue.Records (oci : Oci) (k : Catalogue) (told : Replies) : Job → Catalogue → Prop
  | pulled : ⟨.manifest reference, .ok (m, digest)⟩ ∈ told → oci.content digest = .manifest m →
      Records oci k told (.fetchImage reference) (Function.update k (markerName reference) (some m))
  | built : builtMarker oci cfg = some name → BaseRead oci cfg told base → OwnDigest told digest →
      Records oci k told (.build cfg script) (Function.update k name (some (Manifest.extend base digest)))

/-- A pull's or build's step, as everyone else sees it. A new marker is for a
registry's image or for the build's own. -/
structure Publishes (oci : Oci) (t : Task) (s s' : Store) : Prop where
  markers : ∀ name d, s'.marker name = some d →
    s.marker name = some d ∨ ¬ Built d ∨ ∃ p ∈ t.mine, blobFile d = some p
  catalogue : s'.catalogue = s.catalogue ∨ Catalogue.Records oci s.catalogue t.log t.job s'.catalogue

theorem Store.catalogue_put_ref {s : Store} :
    (s.put (.ref name) (.file (.text d))).catalogue = Function.update s.catalogue name (s.manifestAt d) := by
  funext other
  have hman : (s.put (.ref name) (.file (.text d))).manifestAt = s.manifestAt := funext manifestAt_put_ref
  by_cases hname : other = name
  · subst hname
    simp [Store.catalogue, Store.marker, hman]
  · have hpath : Path.ref other ≠ .ref name := by simpa using hname
    simp [Store.catalogue, Store.marker, hman, hname, hpath]

theorem Store.marker_put_ref {s : Store} (h : (s.put (.ref name) (.file (.text d))).marker other = some d') :
    s.marker other = some d' ∨ d' = d := by
  by_cases hname : other = name
  · subst hname
    exact .inr (by simpa [Store.marker, eq_comm] using h)
  · have hpath : Path.ref other ≠ .ref name := by simpa using hname
    exact .inl (by simpa [Store.marker, hpath] using h)

theorem build_publishes {t : Task} (hjob : t.job = .build cfg script) (hprivate : t.Private s plan)
    (htold : plan.told = t.log) (hplan : plan.recorded = false) (h : Advance oci cfg s plan s' plan') :
    Publishes oci t s s' := by
  cases h with
  | still hsame hgrows => exact ⟨fun name d hmark => .inl (hsame.marker name ▸ hmark), .inl hsame.catalogue⟩
  | filed hown hnone hpath =>
    refine ⟨fun name d hmark => .inl (Store.marker_put_blob hpath name ▸ hmark), .inl ?_⟩
    funext name
    unfold Store.catalogue
    rw [Store.marker_put_blob hpath]
    cases hmark : s.marker name with
    | none => rfl
    | some d =>
      refine Store.manifestAt_put_other ?_
      rintro q hq rfl
      exact hprivate.hidden hplan name d _ hmark hq (hprivate.given _ hown _ hpath)
  | @recorded name digest base path _ hname hown hbase hpath hfiled =>
    obtain ⟨hmine, d, hd, hm⟩ := hprivate.filed _ hfiled
    obtain rfl := blobFile_inj hd hpath
    refine ⟨fun other d' hmark => ?_, .inr ?_⟩
    · rcases Store.marker_put_ref hmark with hold | rfl
      · exact .inl hold
      · exact .inr (.inr ⟨path, hmine, hpath⟩)
    · rw [Store.catalogue_put_ref, hm, hjob]
      exact .built hname (htold ▸ hbase) (htold ▸ hown)

theorem pull_publishes {t : Task} (hjob : t.job = .fetchImage reference) (hs : s.Valid oci) (hs' : s'.Valid oci)
    (hadds : Store.Adds [] counted s s') (hrefs : PullStep oci reference t.log s s') : Publishes oci t s s' := by
  rcases hrefs with hsame | @⟨digest, m, hnamed, hcontent, hregistry, rfl⟩
  · have hmarker : ∀ name, s'.marker name = s.marker name := fun name => by simp [Store.marker, hsame]
    refine ⟨fun name d hmark => .inl (hmarker name ▸ hmark), .inl ?_⟩
    have hunharmed : Unharmed s s' := by
      refine ⟨fun name d m hres => ?_, fun name d hmark => .inl (hmarker name ▸ hmark)⟩
      have hm := (hadds.manifests d m hres.2.1).resolve_right (by simp)
      exact ⟨hm, hres.2.2.imp fun p hp => hadds.kept p (parts_not_scratch hp)⟩
    exact funext fun name => hunharmed.catalogue hs.closed (hsame name)
  · refine ⟨fun name d hmark => ?_, ?_⟩
    · rcases Store.marker_put_ref hmark with hold | rfl
      · exact .inl hold
      · exact .inr (.inl hregistry)
    · have hmark : (s.put (.ref (markerName reference)) (.file (.text digest))).marker (markerName reference) =
          some digest := by simp [Store.marker]
      rw [Store.catalogue_put_ref]
      by_cases hempty : digest = ""
      · -- Only a ref that was empty already can be written empty.
        subst hempty
        rcases hadds.markers _ _ hmark with hold | ⟨m, hm, -⟩
        · have hsame : s.manifestAt "" = s.catalogue (markerName reference) := by simp [Store.catalogue, hold]
          rw [hsame, Function.update_eq_self]
          exact .inl rfl
        · exact absurd rfl (Store.manifestAt_ne_empty hm.1)
      · obtain ⟨m', hm, -⟩ := hs'.closed _ _ hmark hempty
        rw [Store.manifestAt_put_ref] at hm
        cases hcontent.symm.trans (hs.addressed.manifestAt hregistry hm)
        rw [hm, hjob]
        exact .inr (.pulled hnamed hcontent)

-- ---------------------------------------------------------------------------
-- Steps and runs
-- ---------------------------------------------------------------------------

namespace World

/-- A pull's or build's step, with what it is about to do after it. -/
theorem Ok.publishes (h : Ok oci ⟨s, before ++ t :: after⟩) (hjob : t.job.collects = false)
    (hplans : t.Plans oci s plan)
    (hlogged : Prog.Step (noted oci).logged (⟨s, t.counted, t.mine⟩, t.log) t.prog (c, log) p) :
    Publishes oci t s c.store ∧
      ∃ plan', Task.Plans oci c.store { t with prog := p, counted := c.counted, mine := c.mine, log } plan' := by
  have ht := h.tasks t (by simp)
  have hstep := hlogged.unlogged
  obtain ⟨hc, hguar, -⟩ := (ht.adds hjob).step Noted.Undisturbed.refl Noted.Undisturbed.trans
    (ht.noted hjob) hstep
  obtain ⟨job, prog, counted, mine, told⟩ := t
  obtain rfl : plan.told = told := hplans.told hjob
  cases job with
  | gcImages => cases hjob
  | fetchImage reference =>
    have hadds : Store.Adds [] c.counted s c.store := by
      rcases hguar with rfl | hguar
      · exact Store.SameKept.adds fun _ _ => rfl
      · exact hguar.adds
    have hrefs := pull_refs hplans.planning hplans.tidy hstep
    refine ⟨pull_publishes rfl h.valid hc.valid hadds hrefs, ?_⟩
    obtain ⟨plan', hplanning, htold⟩ := hplans.planning.step rfl hlogged
    exact ⟨plan', hplanning, hplans.tidy.step hstep, fun _ => htold, fun hown => by cases hown⟩
  | build cfg script =>
    have hprivate := hplans.own rfl
    cases prog with
    | ret _ | throw _ => cases hstep
    | fork _ _ _ _ => exact hprivate.sequential.elim
    | call op next =>
      obtain ⟨r, ⟨he, htold⟩, rfl⟩ := Prog.step_call hlogged
      have hop := (hplans.planning _ _ .refl).op op next rfl
      refine ⟨build_publishes rfl hprivate rfl hop.1 (hop.advance he.1), plan.after op r, ?_⟩
      refine ⟨hplans.planning.after (.call ⟨⟨_, _, he.1⟩, rfl⟩), hplans.tidy.step hstep,
        fun _ => htold.symm, fun _ => ?_⟩
      exact hprivate.step hc.valid.closed rfl hop he

theorem Plans.start (h : Plans oci ⟨s, running⟩) (job : Job) :
    Plans oci ⟨s, running ++ [begin oci running job]⟩ := by
  intro t ht
  rcases List.mem_append.mp ht with ht | ht
  · exact h t ht
  cases List.mem_singleton.mp ht
  refine ⟨{}, job.planning, (Change.job job).tidy oci, fun _ => rfl, fun hown => ?_⟩
  cases job with
  | build cfg script =>
    exact ⟨build_sequential, List.nil_subset _, by simp [OwnDigest], by simp, by simp [begin]⟩
  | fetchImage _ | gcImages => cases hown

theorem Ok.beside (h : Ok oci ⟨s, before ++ t :: after⟩) (hjob : t.job.collects = false)
    (hstep : Prog.Step (noted oci) ⟨s, t.counted, t.mine⟩ t.prog c p)
    (hfresh : ∀ q ∈ c.mine, q ∈ t.mine ∨ ∀ u ∈ before ++ after, q ∉ u.mine)
    (hpublishes : Publishes oci t s c.store) (hu : u ∈ before ++ after) (hplans : u.Plans oci s plan) :
    (u.tell c.counted).Plans oci c.store plan := by
  have ht := h.tasks t (by simp)
  obtain ⟨hc, hguar, -⟩ := (ht.adds hjob).step Noted.Undisturbed.refl Noted.Undisturbed.trans
    (ht.noted hjob) hstep
  obtain ⟨mine, hmine, hadds⟩ : ∃ mine, mine ⊆ c.mine ∧ Store.Adds mine c.counted s c.store := by
    rcases hguar with rfl | hguar
    · exact ⟨[], by simp, Store.SameKept.adds fun _ _ => rfl⟩
    · exact ⟨_, by split <;> simp, hguar.adds⟩
  obtain ⟨hbefore, hrest, hcross⟩ := List.pairwise_append.mp h.apart
  obtain ⟨hafter, hlast⟩ := List.pairwise_cons.mp hrest
  have hmem : u ∈ before ++ t :: after := by
    rcases List.mem_append.mp hu with hu | hu <;> simp [hu]
  have hapart : ∀ q ∈ u.mine, q ∉ t.mine := by
    rcases List.mem_append.mp hu with hu | hu
    · exact hcross u hu t (by simp)
    · exact (hafter u hu).symm
  have hnew : ∀ q ∈ u.mine, q ∉ c.mine := by
    intro q hq hqc
    rcases hfresh q hqc with hqt | hall
    · exact hapart q hq hqt
    · exact hall u hu hq
  refine ⟨by simpa using hplans.planning, by simpa using hplans.tidy, fun hadds => ?_, fun hown => ?_⟩
  · rw [Task.tell_job] at hadds
    rw [Task.tell_adds hadds]
    exact hplans.told hadds
  rw [Task.tell_job] at hown
  have hadding : u.job.collects = false := by
    cases hj : u.job with
    | gcImages => simp [hj, Job.own] at hown
    | fetchImage _ | build _ _ => rfl
  rw [Task.tell_adds hadding]
  have hnoted := (h.tasks u hmem).noted hadding
  have hkeeps := hadds.keeps hnoted.counted (fun q hq d => hc.mine q (hmine hq) d) fun q hq hm =>
    hnew q hq (hmine hm)
  refine (hplans.own hown).beside hkeeps fun name d hmark => ?_
  rcases hpublishes.markers name d hmark with hold | hregistry | ⟨q, hq, hd⟩
  · exact .inl hold
  · exact .inr fun q hd hq => hregistry (hnoted.mine q hq d hd)
  · refine .inr fun q' hd' hq' => ?_
    cases hd.symm.trans hd'
    exact hapart q hq' hq

theorem Plans.add (hplans : Plans oci ⟨s, before ++ t :: after⟩) (h : Ok oci ⟨s, before ++ t :: after⟩)
    (hjob : t.job.collects = false)
    (hstep : Prog.Step (noted oci).logged (⟨s, t.counted, t.mine⟩, t.log) t.prog (c, log) p)
    (hfresh : ∀ q ∈ c.mine, q ∈ t.mine ∨ ∀ u ∈ before ++ after, q ∉ u.mine) :
    Plans oci ⟨c.store, before.map (·.tell c.counted) ++
      { t with prog := p, counted := c.counted, mine := c.mine, log } :: after.map (·.tell c.counted)⟩ := by
  obtain ⟨plan, ht⟩ := hplans t (by simp)
  obtain ⟨hpublishes, hself⟩ := h.publishes hjob ht hstep
  have hother : ∀ u ∈ before ++ after, ∃ plan, (u.tell c.counted).Plans oci c.store plan := by
    intro u hu
    obtain ⟨plan, hu'⟩ := hplans u (by rcases List.mem_append.mp hu with hu | hu <;> simp [hu])
    exact ⟨plan, h.beside hjob hstep.unlogged hfresh hpublishes hu hu'⟩
  intro u hu
  simp only [List.mem_append, List.mem_map, List.mem_cons] at hu
  rcases hu with ⟨v, hv, rfl⟩ | rfl | ⟨v, hv, rfl⟩
  · exact hother v (by simp [hv])
  · exact hself
  · exact hother v (by simp [hv])

theorem Ok.removes (h : Ok oci ⟨s, before ++ t :: after⟩) (hjob : t.job.collects = true)
    (hstep : Prog.Step (Op.effect oci) s t.prog s' p) (hspares : Spares t s s') :
    s'.Valid oci ∧ s.Removes t.counted s' := by
  have hstep' : Prog.Step (sparing oci) ⟨s, t.counted⟩ t.prog ⟨s', t.counted⟩ p :=
    hstep.map (fun _ _ he => ⟨he, rfl, hspares⟩) fun hs => by rw [hs]
  obtain ⟨-, hguar, -⟩ := ((h.tasks t (by simp)).sweeps hjob).step Watched.Follows.refl Watched.Follows.trans
    trivial hstep'
  rcases hguar with hsame | hguar
  · cases hsame
    exact ⟨h.valid, hspares, fun _ _ => .inl rfl, fun _ => rfl⟩
  · exact ⟨hguar.valid h.valid, hguar.removes⟩

theorem Plans.collect (hplans : Plans oci ⟨s, before ++ t :: after⟩) (h : Ok oci ⟨s, before ++ t :: after⟩)
    (hjob : t.job.collects = true) (hstep : Prog.Step (Op.effect oci) s t.prog s' p)
    (hremoves : s.Removes t.counted s') : Plans oci ⟨s', before ++ { t with prog := p } :: after⟩ := by
  intro u hu
  have hu' : u = { t with prog := p } ∨ u ∈ before ++ t :: after := by
    simp only [List.mem_append, List.mem_cons] at hu ⊢
    tauto
  rcases hu' with rfl | hmem
  · obtain ⟨plan, ht⟩ := hplans t (by simp)
    obtain ⟨job, prog, counted, mine⟩ := t
    cases job with
    | gcImages =>
      exact ⟨{}, Prog.Alone.any, ht.tidy.step hstep, fun hadds => (by cases hadds), fun hown => (by cases hown)⟩
    | fetchImage _ | build _ _ => cases hjob
  · obtain ⟨plan, hu⟩ := hplans u hmem
    refine ⟨plan, hu.planning, hu.tidy, hu.told, fun hown => ?_⟩
    have hadding : u.job.collects = false := by
      cases hj : u.job with
      | gcImages => simp [hj, Job.own] at hown
      | fetchImage _ | build _ _ => rfl
    have hkeeps : Store.Keeps u.mine u.counted s s' := hremoves.keeps (h.told u hmem hadding t (by simp) hjob)
    exact (hu.own hown).beside hkeeps fun name d hmark => .inl (by rwa [Watched.marker_removes hremoves] at hmark)

/-- The step lemma. -/
theorem Plans.step (hplans : Plans oci w) (h : Ok oci w) (hs : Step oci Spares w w') : Plans oci w' := by
  cases hs with
  | start job => exact hplans.start job
  | add _ _ hjob hstep hfresh => exact hplans.add h hjob hstep hfresh
  | collect _ _ hjob hstep hspares => exact hplans.collect h hjob hstep (h.removes hjob hstep hspares).2
  | leave before after => exact fun u hu => hplans u (by rcases List.mem_append.mp hu with hu | hu <;> simp [hu])

/-- The run lemma. -/
theorem Plans.run (hs : s.Valid oci) (h : Run oci Spares ⟨s, []⟩ w) : Ok oci w ∧ Plans oci w := by
  induction h with
  | refl => exact ⟨.initial hs, by simp [Plans]⟩
  | tail _ hstep ih => exact ⟨ih.1.step hstep, ih.2.step ih.1 hstep⟩

end World

/-- A step of a pull or build that is the only one running. -/
theorem World.Step.alone {t : Task} {c c' : Noted} (hjob : t.job.collects = false) (log : Replies)
    (hs : Prog.Step (noted oci) c p c' p') : ∃ log', World.Step oci Spares
      ⟨c.store, [{ t with prog := p, counted := c.counted, mine := c.mine, log }]⟩
      ⟨c'.store, [{ t with prog := p', counted := c'.counted, mine := c'.mine, log := log' }]⟩ := by
  obtain ⟨log', hlogged⟩ := hs.logs log
  exact ⟨log', .add [] [] (t := { t with prog := p, counted := c.counted, mine := c.mine, log }) hjob
    hlogged (by simp)⟩

namespace Overtaken

/-- Everything is stored, and the ref is about to be written. -/
def about : Noted := (pulling 12 (⟨∅, [], []⟩, pull.prog)).1

def recorded : Store := about.store.put (.ref "example.org+tool:1") (.file (.text "sha256:ab"))

end Overtaken

end Climate
