import Climate.Store.Closure
import Climate.Store.Willing

/-!
# Fetching the layers of an image

A pull's tasks, on a disk that does what it can. Each layer is fetched in a
place of its own: a temporary file, a staging directory and the directory it
becomes. Tasks for different layers keep out of each other's way, and a pull
none of whose layers is fetched twice succeeds however they are interleaved.
-/

namespace Climate

open Prog

variable {oci : Oci} {registry : String → Manifest × String}

-- ---------------------------------------------------------------------------
-- One layer
-- ---------------------------------------------------------------------------

def stagingDir (algo name : String) : Path := .layer algo (stagingName name)

/-- What `fetchLayer` does before the layer takes its place. -/
def stage (layer : Descriptor) (algo name : String) (temp : Path) : Act Unit := do
  downloadBlob layer.digest temp
  createParent (.layer algo name)
  removeTree (stagingDir algo name)
  let file ← .ask (.read temp) (orFail s!"opening layer blob {layer.digest}")
  unpack (stagingDir algo name) layer.digest file

def finalise (layer : Descriptor) (algo name : String) : Act Unit :=
  .ask (.rename (stagingDir algo name) (.layer algo name)) (orFail s!"finalising layer {layer.digest}")

/-- What `fetchLayer` does once it is known whether the layer is there. -/
def conclude (temp : Path) (result : Except String Unit) : Act Unit := do
  let _ ← (fetchLayer.removeFile temp).attempt
  .ofExcept result

/-- A layer that a registry can serve. -/
structure Layered (oci : Oci) (layer : Descriptor) (algo name : String) : Prop where
  digest : digestPath layer.digest = .ok (algo, name)
  registered : ¬ Built layer.digest
  supported : supported layer.mediaType = true
  archive : ∃ entries, oci.content layer.digest = .archive entries

theorem fetchLayer_eq (h : Layered oci layer algo name) :
    fetchLayer layer = tempPath "layer" >>= fun temp =>
      (stage layer algo name temp >>= fun _ => finalise layer algo name).attempt >>= conclude temp := by
  unfold fetchLayer
  congr 1
  funext temp
  have hextract : (downloadBlob layer.digest temp >>= fun _ =>
      extractLayer temp layer.digest layer.mediaType) =
      stage layer algo name temp >>= fun _ => finalise layer algo name := by
    simp only [extractLayer, h.digest, Prog.ofExcept, ret_bind, h.supported, if_true, stage, bind_assoc]
    rfl
  rw [hextract]
  rfl

-- ---------------------------------------------------------------------------
-- A task left alone
-- ---------------------------------------------------------------------------

/-- What fetching one layer may use, from its start. -/
def site (algo name : String) : Set Path := { stagingDir algo name, .layer algo name }

theorem stagingDir_ne_layer (h : isClean name = true) : stagingDir algo' name' ≠ .layer algo name := by
  intro heq
  have hname : stagingName name' = name := (Path.layer.inj heq).2
  have hstaging := isStaging_stagingName name'
  rw [hname, isStaging_clean h] at hstaging
  cases hstaging

theorem Layered.clean (h : Layered oci layer algo name) : isClean name = true := (digestPath_ok h.digest).2.2

/-- A program that owns paths of a store whose operations do what they can. -/
abbrev Holding (oci : Oci) (registry : String → Manifest × String) (post : α → Set Path → Desk → Prop)
    (own : Set Path) (c : Desk) (p : Act α) : Prop :=
  Owning (willing oci registry) byPath post own c p

namespace Holding

variable {own : Set Path} {c : Desk}

theorem does_bind {op : Op} {read : op.Res → Except String α} {f : α → Act β} {post : β → Set Path → Desk → Prop}
    (done : Store → Store) (hdoes : ∀ c₁, byPath.Agree own c c₁ → Does oci op read c₁.store a (done c₁.store))
    (hrest : ∀ s p, p ∉ own → (done s).lookup p = s.lookup p)
    (hf : ∀ c₁, byPath.Agree own c c₁ → Holding oci registry post own ⟨done c₁.store, c₁.ids⟩ (f a)) :
    Holding oci registry post own c (.ask op read >>= f) := by
  refine Owning.ask_bind (fun c₁ h₁ => (hdoes c₁ h₁).willing_can registry c₁.ids) fun c₁ r c₂ h₁ he => ?_
  obtain ⟨rfl, hread⟩ := (hdoes c₁ h₁).willing_only he
  exact ⟨⟨subset_rfl, fun _ hx hnot => absurd hx hnot, fun p hp => hrest c₁.store p hp, subset_rfl⟩, a, hread,
    hf c₁ h₁⟩

theorem does {op : Op} {read : op.Res → Except String α} {post : α → Set Path → Desk → Prop}
    (done : Store → Store) (hdoes : ∀ c₁, byPath.Agree own c c₁ → Does oci op read c₁.store a (done c₁.store))
    (hrest : ∀ s p, p ∉ own → (done s).lookup p = s.lookup p)
    (hpost : ∀ c₁ c₂, byPath.Agree own c c₁ → byPath.Agree own ⟨done c₁.store, c₁.ids⟩ c₂ → post a own c₂) :
    Holding oci registry post own c (.ask op read) := by
  refine Owning.ask (fun c₁ h₁ => (hdoes c₁ h₁).willing_can registry c₁.ids) fun c₁ r c₂ h₁ he => ?_
  obtain ⟨rfl, hread⟩ := (hdoes c₁ h₁).willing_only he
  exact ⟨⟨subset_rfl, fun _ hx hnot => absurd hx hnot, fun p hp => hrest c₁.store p hp, subset_rfl⟩, a, hread,
    fun c₃ h₃ => hpost c₁ c₃ h₁ h₃⟩

end Holding

open Holding

variable {own : Set Path} {c : Desk}

variable (oci registry) in
theorem tempPath_holding (own : Set Path) (c : Desk) :
    Holding oci registry (fun temp own' c' => (∃ id, temp = tempFile "layer" id) ∧ own' = insert temp own ∧
      c'.store.lookup temp = none ∧ byPath.Agree own c c') own c (tempPath "layer") := by
  unfold tempPath
  refine does_bind (a := ()) id (fun c₁ _ => createDirAll_does) (fun _ _ _ => rfl) fun c₁ h₁ => ?_
  refine .call (fun _ (id : String) _ => insert (tempFile "layer" id) own) (fun c₂ _ => uniqueId_can c₂) ?_ ?_
  · intro c₂ (id : String) c₃ _ he
    obtain ⟨rfl, hunused, hfresh⟩ := uniqueId_only he
    refine ⟨Set.subset_insert _ _, fun p hp hnot => ?_, fun p _ => rfl, ?_⟩
    · obtain rfl : p = tempFile "layer" id := hp.resolve_right hnot
      refine ⟨⟨id, rfl, hfresh⟩, ?_⟩
      rintro ⟨id', heq, hnot'⟩
      rw [tempFile_inj heq] at hnot'
      exact hnot' List.mem_cons_self
    · rintro p ⟨id', rfl, hnot'⟩
      exact ⟨id', rfl, fun hmem => hnot' (List.mem_cons_of_mem _ hmem)⟩
  · intro c₂ (id : String) c₃ h₂ he
    obtain ⟨rfl, hunused, -⟩ := uniqueId_only he
    refine .ret fun c₄ h₄ => ⟨⟨id, rfl⟩, rfl, ?_, ?_⟩
    · exact (h₄ (tempFile "layer" id) (Set.mem_insert _ _)).trans (tempFile_new hunused)
    · exact (Prog.Division.Agree.trans h₁ h₂).trans (h₄.mono (Set.subset_insert _ _))

/-- The layer is unpacked and not in its place. -/
structure Staged (algo name : String) (temp : Path) (c : Desk) : Prop where
  file : ∃ x, c.store.lookup temp = some (.file x)
  tree : ∃ t, c.store.lookup (stagingDir algo name) = some (.dir t)
  vacant : c.store.lookup (.layer algo name) = none

theorem unpackEntries_holding (hown : p ∈ own) (h : c.store.lookup p = some (.dir t)) (entries : List TarEntry) :
    Holding oci registry (fun _ own' c' => own' = own ∧ (∃ t, c'.store.lookup p = some (.dir t)) ∧
        ∀ q ∈ own, q ≠ p → c'.store.lookup q = c.store.lookup q)
      own c (entries.forM fun entry => .ask (.unpackEntry p entry) (orFail message)) := by
  induction entries generalizing c t with
  | nil =>
    refine .ret fun c' hagree => ⟨rfl, ⟨t, (hagree p hown).trans h⟩, fun q hq _ => hagree q hq⟩
  | cons entry rest ih =>
    refine does_bind (fun s => s.put p (.dir (t.write entry)))
      (fun c₁ h₁ => unpackEntry_does ((h₁ p hown).trans h))
      (fun s q hq => Store.lookup_put_other s _ (ne_of_mem_of_not_mem hown hq).symm) fun c₁ h₁ => ?_
    have hdir : (c₁.store.put p (.dir (t.write entry))).lookup p = some (.dir (t.write entry)) :=
      Store.lookup_put_self ..
    refine Owning.weaken (ih hdir) fun _ own' c' hpost => ⟨hpost.1, hpost.2.1, fun q hq hne => ?_⟩
    calc c'.store.lookup q
        = (c₁.store.put p (.dir (t.write entry))).lookup q := hpost.2.2 q hq hne
      _ = c₁.store.lookup q := Store.lookup_put_other _ _ hne
      _ = c.store.lookup q := h₁ q hq

theorem temp_ne_layer (h : ∃ id, temp = tempFile "layer" id) : temp ≠ .layer algo name := by
  obtain ⟨id, rfl⟩ := h
  intro heq
  cases heq

theorem fits_new {s : Store} (h : s.lookup p = none) : s.fits p = true := by rw [Store.fits, h]; rfl

variable (registry) in
theorem stage_holding (h : Layered oci layer algo name) (htemp : ∃ id, temp = tempFile "layer" id)
    (hnew : c.store.lookup temp = none) (hdest : c.store.lookup (.layer algo name) = none) :
    Holding oci registry (fun _ own' c' => own' = insert temp (site algo name) ∧ Staged algo name temp c')
      (insert temp (site algo name)) c (stage layer algo name temp) := by
  obtain ⟨entries, hcontent⟩ := h.archive
  have hne : stagingDir algo name ≠ .layer algo name := stagingDir_ne_layer h.clean
  have htempStaging : temp ≠ stagingDir algo name := temp_ne_layer htemp
  have htempMem : temp ∈ insert temp (site algo name) := Set.mem_insert _ _
  have hstagingMem : stagingDir algo name ∈ insert temp (site algo name) := by simp [site]
  have hdestMem : Path.layer algo name ∈ insert temp (site algo name) := by simp [site]
  unfold stage downloadBlob createParent removeTree
  -- the archive arrives
  refine does_bind (a := ()) (fun s => s.put temp (.file (oci.content layer.digest)))
    (fun c₁ h₁ => download_does (fits_new ((h₁ temp htempMem).trans hnew)) h.registered)
    (fun s p hp => Store.lookup_put_other s _ (ne_of_mem_of_not_mem htempMem hp).symm) fun c₁ h₁ => ?_
  have hfile₁ : (c₁.store.put temp (.file (oci.content layer.digest))).lookup temp =
      some (.file (oci.content layer.digest)) := Store.lookup_put_self ..
  have hdest₁ : (c₁.store.put temp (.file (oci.content layer.digest))).lookup (.layer algo name) = none := by
    rw [Store.lookup_put_other _ _ (temp_ne_layer htemp).symm]
    exact (h₁ _ hdestMem).trans hdest
  refine does_bind (a := ()) id (fun c₂ _ => createDirAll_does) (fun _ _ _ => rfl) fun c₂ h₂ => ?_
  -- what was in the staging directory goes
  refine does_bind (a := ()) (fun s => s.remove (stagingDir algo name)) (fun c₃ _ => removeTree_does)
    (fun s p hp => Store.lookup_remove_other s (ne_of_mem_of_not_mem hstagingMem hp).symm) fun c₃ h₃ => ?_
  have hagree₃ : byPath.Agree (insert temp (site algo name))
      ⟨c₁.store.put temp (.file (oci.content layer.digest)), c₁.ids⟩ c₃ := h₂.trans h₃
  have hfile₃ : (c₃.store.remove (stagingDir algo name)).lookup temp =
      some (.file (oci.content layer.digest)) := by
    rw [Store.lookup_remove_other _ htempStaging]
    exact (hagree₃ temp htempMem).trans hfile₁
  have hdest₃ : (c₃.store.remove (stagingDir algo name)).lookup (.layer algo name) = none := by
    rw [Store.lookup_remove_other _ hne.symm]
    exact (hagree₃ _ hdestMem).trans hdest₁
  have htree₃ : (c₃.store.remove (stagingDir algo name)).lookup (stagingDir algo name) = none :=
    Store.lookup_remove_self ..
  refine does_bind id (fun c₄ h₄ => read_does ((h₄ temp htempMem).trans hfile₃)) (fun _ _ _ => rfl)
    fun c₄ h₄ => ?_
  rw [hcontent, unpack]
  refine does_bind (a := ()) (fun s => s.put (stagingDir algo name) (.dir []))
    (fun c₅ h₅ => createTree_does ?_)
    (fun s p hp => Store.lookup_put_other s _ (ne_of_mem_of_not_mem hstagingMem hp).symm) fun c₅ h₅ => ?_
  · have hnone : c₅.store.lookup (stagingDir algo name) = none :=
      ((h₄.trans h₅) _ hstagingMem).trans htree₃
    rw [Store.has, hnone]
    rfl
  have hdir : (c₅.store.put (stagingDir algo name) (.dir [])).lookup (stagingDir algo name) = some (.dir []) :=
    Store.lookup_put_self ..
  refine Owning.weaken (unpackEntries_holding hstagingMem hdir entries) fun _ own' c' hpost => ⟨hpost.1, ?_⟩
  obtain ⟨-, htree, hothers⟩ := hpost
  refine ⟨⟨oci.content layer.digest, ?_⟩, htree, ?_⟩
  · refine (hothers temp htempMem htempStaging).trans ?_
    rw [Store.lookup_put_other _ _ htempStaging]
    exact ((h₄.trans h₅) temp htempMem).trans hfile₃
  · refine (hothers _ hdestMem hne.symm).trans ?_
    rw [Store.lookup_put_other _ _ hne.symm]
    exact ((h₄.trans h₅) _ hdestMem).trans hdest₃

theorem rename_vacant {s : Store} (hp : s.lookup p = some n) (hq : s.lookup q = none) :
    s.rename p q = some ((s.remove p).put q n) := by
  rw [Store.rename, hp, hq]
  rfl

theorem layer_admits : oci.Admits (.layer algo name) n := fun _ _ _ hp _ _ => by cases hp

/-- The layer is in its place. -/
structure Installed (algo name : String) (temp : Path) (c : Desk) : Prop where
  file : ∃ x, c.store.lookup temp = some (.file x)
  placed : c.store.isDir (.layer algo name) = true

theorem isDir_congr {s s' : Store} (h : s'.lookup p = s.lookup p) : s'.isDir p = s.isDir p := by
  rw [Store.isDir, Store.isDir, h]

theorem finalise_holding (layer : Descriptor) (htemp : ∃ id, temp = tempFile "layer" id)
    (hstaged : Staged algo name temp c) :
    Holding oci registry (fun _ own' c' => own' = insert temp (site algo name) ∧ Installed algo name temp c')
      (insert temp (site algo name)) c (finalise layer algo name) := by
  obtain ⟨t, htree⟩ := hstaged.tree
  have hne : temp ≠ .layer algo name := temp_ne_layer htemp
  have hstagingNe : temp ≠ stagingDir algo name := temp_ne_layer htemp
  have hdestMem : Path.layer algo name ∈ insert temp (site algo name) := by simp [site]
  have hstagingMem : stagingDir algo name ∈ insert temp (site algo name) := by simp [site]
  refine does (a := ()) (fun s => (s.remove (stagingDir algo name)).put (.layer algo name) (.dir t))
    (fun c₁ h₁ => ?_)
    (fun s p hp => ?_) fun c₁ c₂ h₁ h₂ => ⟨rfl, ?_, ?_⟩
  · exact rename_does (rename_vacant ((h₁ _ hstagingMem).trans htree) ((h₁ _ hdestMem).trans hstaged.vacant))
      fun _ _ => layer_admits
  · rw [Store.lookup_put_other _ _ (ne_of_mem_of_not_mem hdestMem hp).symm,
      Store.lookup_remove_other _ (ne_of_mem_of_not_mem hstagingMem hp).symm]
  · obtain ⟨x, hfile⟩ := hstaged.file
    refine ⟨x, (h₂ temp (Set.mem_insert _ _)).trans ?_⟩
    change ((c₁.store.remove (stagingDir algo name)).put (.layer algo name) (.dir t)).lookup temp = _
    rw [Store.lookup_put_other _ _ hne, Store.lookup_remove_other _ hstagingNe]
    exact (h₁ temp (Set.mem_insert _ _)).trans hfile
  · have hplaced := h₂ _ hdestMem
    rw [isDir_congr hplaced, Store.isDir, Store.lookup_put_self]

theorem conclude_holding (htemp : ∃ id, temp = tempFile "layer" id) (hinstalled : Installed algo name temp c) :
    Holding oci registry (fun _ _ c' => c'.store.isDir (.layer algo name) = true)
      (insert temp (site algo name)) c (conclude temp (.ok ())) := by
  obtain ⟨x, hfile⟩ := hinstalled.file
  have hdestMem : Path.layer algo name ∈ insert temp (site algo name) := by simp [site]
  have hremoved : Holding oci registry
      (fun _ own' c' => own' = insert temp (site algo name) ∧ c'.store.isDir (.layer algo name) = true)
      (insert temp (site algo name)) c (fetchLayer.removeFile temp) := by
    refine does (a := ()) (fun s => s.remove temp)
      (fun c₁ h₁ => removeFile_does ((h₁ temp (Set.mem_insert _ _)).trans hfile))
      (fun s p hp => Store.lookup_remove_other s (ne_of_mem_of_not_mem (Set.mem_insert _ _) hp).symm)
      fun c₁ c₂ h₁ h₂ => ⟨rfl, ?_⟩
    have hplaced := h₂ _ hdestMem
    rw [isDir_congr hplaced]
    change (c₁.store.remove temp).isDir _ = true
    rw [isDir_congr (Store.lookup_remove_other _ (temp_ne_layer htemp).symm), isDir_congr (h₁ _ hdestMem)]
    exact hinstalled.placed
  refine Owning.bind (Owning.attempt hremoved) fun _ own' c' hpost => ?_
  obtain ⟨-, -, rfl, hplaced⟩ := hpost
  exact .ret fun c'' h'' => by rwa [isDir_congr (h'' _ hdestMem)]

variable (registry) in
/-- Fetching a layer that is not there, with nobody else at it. -/
theorem fetchLayer_holding (h : Layered oci layer algo name) (hdest : c.store.lookup (.layer algo name) = none) :
    Holding oci registry (fun _ _ c' => c'.store.isDir (.layer algo name) = true) (site algo name) c
      (fetchLayer layer) := by
  rw [fetchLayer_eq h]
  refine Owning.bind (tempPath_holding oci registry (site algo name) c) fun temp own c₁ htemp => ?_
  obtain ⟨hname, rfl, hnew, hagree⟩ := htemp
  have hdest₁ : c₁.store.lookup (.layer algo name) = none := (hagree _ (by simp [site])).trans hdest
  have hplacing : Holding oci registry
      (fun _ own' c' => own' = insert temp (site algo name) ∧ Installed algo name temp c')
      (insert temp (site algo name)) c₁ (stage layer algo name temp >>= fun _ => finalise layer algo name) := by
    refine Owning.bind (stage_holding registry h hname hnew hdest₁) fun _ own c₂ hstaged => ?_
    obtain ⟨rfl, hstaged⟩ := hstaged
    exact finalise_holding layer hname hstaged
  refine Owning.bind (Owning.attempt hplacing) fun result own c₃ hresult => ?_
  obtain ⟨_, rfl, rfl, hinstalled⟩ := hresult
  exact conclude_holding hname hinstalled

-- ---------------------------------------------------------------------------
-- All layers at once
-- ---------------------------------------------------------------------------

def fetchSite (layer : Descriptor) : Set Path :=
  { p | ∃ algo name, digestPath layer.digest = .ok (algo, name) ∧ p ∈ site algo name }

theorem Layered.site_eq (h : Layered oci layer algo name) : fetchSite layer = site algo name := by
  ext p
  constructor
  · rintro ⟨algo', name', hd, hp⟩
    rw [h.digest] at hd
    cases hd
    exact hp
  · exact fun hp => ⟨algo, name, h.digest, hp⟩

/-- The directory of the layer is there. -/
def Store.Extracted (s : Store) (layer : Descriptor) : Prop :=
  ∃ algo name, digestPath layer.digest = .ok (algo, name) ∧ s.isDir (.layer algo name) = true

/-- Whether a layer is not in the store. -/
def Store.misses (s : Store) (layer : Descriptor) : Bool :=
  match digestPath layer.digest with
  | .ok (algo, name) => !s.has (.layer algo name)
  | .error _ => false

theorem Layered.misses (h : Layered oci layer algo name) {s : Store} (hm : s.misses layer = true) :
    s.lookup (.layer algo name) = none := by
  rw [Store.misses, h.digest] at hm
  simpa [Store.has] using hm

theorem stagingName_inj (h : stagingName a = stagingName b) : a = b := by
  simpa [stagingName] using h

theorem site_inj (hp : p ∈ site algo name) (hp' : p ∈ site algo' name') (h : isClean name = true)
    (h' : isClean name' = true) : algo = algo' ∧ name = name' := by
  rcases hp with rfl | rfl <;> rcases hp' with heq | heq
  · obtain ⟨halgo, hname⟩ := Path.layer.inj heq
    exact ⟨halgo, stagingName_inj hname⟩
  · exact absurd heq (stagingDir_ne_layer h')
  · exact absurd heq.symm (stagingDir_ne_layer h)
  · exact Path.layer.inj heq

/-- Layers with different digests are fetched in different places. -/
theorem fetchSite_inj {layer layer' : Descriptor} (hp : p ∈ fetchSite layer) (hp' : p ∈ fetchSite layer') :
    layer.digest = layer'.digest := by
  obtain ⟨algo, name, hd, hp⟩ := hp
  obtain ⟨algo', name', hd', hp'⟩ := hp'
  obtain ⟨rfl, rfl⟩ := site_inj hp hp' (digestPath_ok hd).2.2 (digestPath_ok hd').2.2
  exact digestPath_inj hd hd'

theorem fetchSite_not_temp {id : String} (hp : p ∈ fetchSite layer) : p ≠ tempFile "layer" id := by
  obtain ⟨algo, name, -, hp⟩ := hp
  rintro rfl
  rcases hp with heq | heq <;> cases heq

/-- What the tasks of a pull leave as it was. -/
def SameElsewhere (layers : List Descriptor) (s s' : Store) : Prop :=
  ∀ p, (∀ layer ∈ layers, p ∉ fetchSite layer) → (∀ id, p ≠ tempFile "layer" id) → s'.lookup p = s.lookup p

theorem fetchAll_sure {layers : List Descriptor}
    (hlayers : ∀ layer ∈ layers, ∃ algo name, Layered oci layer algo name)
    (hmissing : ∀ layer ∈ layers, c.store.misses layer = true) (hnodup : (layers.map (·.digest)).Nodup) :
    Sure (willing oci registry)
      (fun _ c' => (∀ layer ∈ layers, c'.store.Extracted layer) ∧ SameElsewhere layers c.store c'.store)
      c (.forConcurrently maxConcurrentDownloads layers fetchLayer) := by
  have hinj : ∀ i j : Fin layers.length, layers[i].digest = layers[j].digest → i = j := by
    intro i j heq
    have hget := (List.Nodup.get_inj_iff hnodup (i := i.cast (by simp)) (j := j.cast (by simp))).mp
      (by simpa using heq)
    simpa using hget
  have htasks : Tasks (willing oci registry) byPath (fun i _ c' => c'.store.Extracted layers[i])
      (fun i => fetchSite layers[i]) c fun i => fetchLayer layers[i] := by
    refine ⟨fun i => ?_, fun i j hij p hp hp' => hij (hinj i j (fetchSite_inj hp hp')), fun i p hp hfree => ?_⟩
    · obtain ⟨algo, name, hlayer⟩ := hlayers layers[i] (List.getElem_mem _)
      have hvacant := hlayer.misses (hmissing layers[i] (List.getElem_mem _))
      rw [hlayer.site_eq]
      exact Owning.weaken (fetchLayer_holding registry hlayer hvacant) fun _ _ c' hplaced =>
        ⟨algo, name, hlayer.digest, hplaced⟩
    · obtain ⟨id, rfl, -⟩ := hfree
      exact fetchSite_not_temp hp rfl
  refine Tasks.sure htasks (by decide) fun own' c' hdone hrest => .ret ⟨fun layer hmem => ?_, fun p hp hnot => ?_⟩
  · obtain ⟨i, hi, rfl⟩ := List.getElem_of_mem hmem
    exact hdone ⟨i, hi⟩
  · exact hrest p (fun i => hp layers[i] (List.getElem_mem _)) fun ⟨id, heq, _⟩ => hnot id heq

-- ---------------------------------------------------------------------------
-- Before and after
-- ---------------------------------------------------------------------------

/-- Layers are directories, and nothing else is. -/
structure Store.Sorted (s : Store) : Prop where
  files : ∀ p, (∀ algo name, p ≠ .layer algo name) → s.isDir p = false
  dirs : ∀ algo name, s.has (.layer algo name) = true → s.isDir (.layer algo name) = true

theorem Store.Sorted.fits {s : Store} (h : s.Sorted) (hp : ∀ algo name, p ≠ .layer algo name) :
    s.fits p = true := by
  have hfile := h.files p hp
  unfold Store.isDir at hfile
  unfold Store.fits replaceable
  split at hfile
  · cases hfile
  next hnot =>
    cases hlookup : s.lookup p with
    | none => rfl
    | some n =>
      cases n with
      | file c => rfl
      | dir t => exact absurd hlookup (hnot t)

/-- Both are sorted, and hold the same layers. -/
structure SameLayers (s s' : Store) : Prop where
  sorted : s'.Sorted
  layers : ∀ algo name, s'.lookup (.layer algo name) = s.lookup (.layer algo name)

theorem SameLayers.refl {s : Store} (h : s.Sorted) : SameLayers s s := ⟨h, fun _ _ => rfl⟩

theorem SameLayers.put {s s' : Store} (h : SameLayers s s') (hp : ∀ algo name, p ≠ .layer algo name) :
    SameLayers s (s'.put p (.file x)) where
  sorted := by
    refine ⟨fun q hq => ?_, fun algo name hthere => ?_⟩
    · by_cases heq : q = p
      · rw [heq, Store.isDir, Store.lookup_put_self]
      · rw [isDir_congr (Store.lookup_put_other _ _ heq)]
        exact h.sorted.files q hq
    · rw [isDir_congr (Store.lookup_put_other _ _ (hp algo name).symm)]
      exact h.sorted.dirs algo name (((Store.has_put ..).mp hthere).resolve_left (hp algo name).symm)
  layers algo name := (Store.lookup_put_other _ _ (hp algo name).symm).trans (h.layers algo name)

theorem SameLayers.remove {s s' : Store} (h : SameLayers s s') (hp : ∀ algo name, p ≠ .layer algo name) :
    SameLayers s (s'.remove p) where
  sorted := by
    refine ⟨fun q hq => ?_, fun algo name hthere => ?_⟩
    · by_cases heq : q = p
      · rw [heq, Store.isDir, Store.lookup_remove_self]
      · rw [isDir_congr (Store.lookup_remove_other _ heq)]
        exact h.sorted.files q hq
    · rw [isDir_congr (Store.lookup_remove_other _ (hp algo name).symm)]
      exact h.sorted.dirs algo name ((Store.has_remove ..).mp hthere).2
  layers algo name := (Store.lookup_remove_other _ (hp algo name).symm).trans (h.layers algo name)

/-- What a registry answers with. -/
structure Serves (oci : Oci) (registry : String → Manifest × String) (reference : String) : Prop where
  manifest : oci.content (registry reference).2 = .manifest (registry reference).1
  registered : ¬ Built (registry reference).2
  named : ∃ algo name, digestPath (registry reference).2 = .ok (algo, name)
  config : ¬ Built (registry reference).1.config.digest
  configNamed : ∃ algo name, digestPath (registry reference).1.config.digest = .ok (algo, name)
  layers : ∀ layer ∈ (registry reference).1.layers, ∃ algo name, Layered oci layer algo name

/-- What `fetchImage` does before it fetches layers. -/
def fetchParts (reference : String) : Act (String × List Descriptor) := do
  let (manifest, manifestDigest) ←
    .ask (.manifest reference) (orFail s!"resolving {reference}")
  let manifestRaw ← .ask (.manifestRaw manifestDigest)
    (orFail s!"fetching the manifest blob for {reference}")
  writeBlob manifestDigest manifestRaw
  fetchConfig manifest.config
  let pending ← pendingLayers manifest.layers
  return (manifestDigest, pending)

theorem fetchImage_eq (reference : String) :
    fetchImage reference = fetchParts reference >>= fun found =>
      .forConcurrently maxConcurrentDownloads found.2 fetchLayer >>= fun _ => recordRef reference found.1 := by
  simp only [fetchImage, fetchParts, fetchLayers, bind_assoc]
  rfl

theorem admits_content (h : digestPath digest = .ok (algo, name)) :
    oci.Admits (.blob algo name) (.file (oci.content digest)) := by
  intro algo' name' x hp hx _
  cases hp
  cases hx
  rw [(digestPath_ok h).1]

theorem writeBlob_sure (h : digestPath digest = .ok (algo, name)) (hs : SameLayers s c.store) :
    Sure (willing oci registry) (fun _ c' => SameLayers s c'.store) c
    (writeBlob digest (oci.content digest)) := by
  obtain ⟨store, ids⟩ := c
  rw [writeBlob, blobPath, h]
  refine Does.sure_bind createDirAll_does ?_
  refine Does.sure (write_does (hs.sorted.fits fun _ _ heq => by cases heq) (admits_content h)) ?_
  exact hs.put fun _ _ heq => by cases heq

theorem fetchConfig_sure {config : Descriptor} (h : digestPath config.digest = .ok (algo, name))
    (hbuilt : ¬ Built config.digest) (hs : SameLayers s c.store) :
    Sure (willing oci registry) (fun _ c' => SameLayers s c'.store) c (fetchConfig config) := by
  obtain ⟨store, ids⟩ := c
  rw [fetchConfig, hasBlob, blobPath, h]
  refine Does.sure_bind exists_does ?_
  by_cases hthere : store.has (.blob algo name) = true
  · rw [if_pos hthere]
    exact .ret hs
  rw [if_neg hthere]
  simp only [tempPath, bind_assoc]
  refine Does.sure_bind createDirAll_does ?_
  refine Sure.ask_bind (uniqueId_can _) fun (id : String) c₁ he => ?_
  obtain ⟨rfl, hunused, -⟩ := uniqueId_only he
  refine ⟨id, rfl, ?_⟩
  have hnew : store.lookup (tempFile "config" id) = none := tempFile_new hunused
  refine Does.sure_bind (download_does (fits_new hnew) hbuilt) ?_
  rw [commitBlob, blobPath, h]
  refine Does.sure_bind createDirAll_does ?_
  have hfile : (store.put (tempFile "config" id) (.file (oci.content config.digest))).lookup
      (tempFile "config" id) = some (.file (oci.content config.digest)) := Store.lookup_put_self ..
  have hvacant : (store.put (tempFile "config" id) (.file (oci.content config.digest))).lookup
      (.blob algo name) = none := by
    rw [Store.lookup_put_other _ _ (fun heq => by cases heq)]
    simpa [Store.has] using hthere
  refine Does.sure (rename_does (rename_vacant hfile hvacant) fun n hn => ?_) ?_
  · cases hfile.symm.trans hn
    exact admits_content h
  · exact ((hs.put fun _ _ heq => by cases heq).remove fun _ _ heq => by cases heq).put
      fun _ _ heq => by cases heq

theorem pendingLayers_sure {layers : List Descriptor}
    (hlayers : ∀ layer ∈ layers, ∃ algo name, Layered oci layer algo name) :
    Sure (willing oci registry) (fun pending c' => pending = layers.filter c.store.misses ∧ c' = c) c
      (pendingLayers layers) := by
  obtain ⟨store, ids⟩ := c
  induction layers with
  | nil => exact .ret ⟨rfl, rfl⟩
  | cons layer rest ih =>
    obtain ⟨algo, name, hlayer⟩ := hlayers layer (by simp)
    rw [pendingLayers, hasLayer, layerPath, hlayer.digest]
    refine Does.sure_bind exists_does ?_
    refine Sure.bind (ih fun other hmem => hlayers other (by simp [hmem])) fun pending c' hpending => ?_
    obtain ⟨rfl, rfl⟩ := hpending
    refine .ret ⟨?_, rfl⟩
    have hmisses : store.misses layer = !store.has (.layer algo name) := by rw [Store.misses, hlayer.digest]
    rw [List.filter_cons, hmisses]
    cases store.has (.layer algo name) <;> rfl

theorem recordRef_sure (hfits : c.store.fits (refMarker reference) = true) :
    Sure (willing oci registry)
      (fun _ c' => c'.store = c.store.put (refMarker reference) (.file (.text digest))) c
      (recordRef reference digest) := by
  obtain ⟨store, ids⟩ := c
  unfold recordRef
  refine Does.sure_bind createDirAll_does ?_
  exact Does.sure (write_does hfits fun _ _ _ hp => by cases hp) rfl

theorem SameLayers.misses {s s' : Store} (h : SameLayers s s') : s'.misses = s.misses := by
  funext layer
  unfold Store.misses
  split
  next algo name _ => rw [Store.has, Store.has, h.layers algo name]
  · rfl

theorem fetchParts_sure (hserves : Serves oci registry reference) (hs : SameLayers s c.store) :
    Sure (willing oci registry) (fun found c' =>
      found = ((registry reference).2, (registry reference).1.layers.filter s.misses) ∧ SameLayers s c'.store)
      c (fetchParts reference) := by
  obtain ⟨algo, name, hnamed⟩ := hserves.named
  obtain ⟨algo', name', hconfig⟩ := hserves.configNamed
  unfold fetchParts
  refine Sure.ask_bind ⟨.ok (registry reference), c, ⟨rfl, fun m d h => ?_⟩, .inl rfl, rfl, rfl,
    by simp [Op.handed]⟩
    fun r c₁ he => ?_
  · have heq : registry reference = (m, d) := Except.ok.inj h
    have hanswer := hserves.manifest
    have hregistered := hserves.registered
    rw [heq] at hanswer hregistered
    exact ⟨hanswer, hregistered⟩
  obtain ⟨⟨hstore, -⟩, -, hanswer, -, -⟩ := he
  obtain rfl : r = .ok (registry reference) := hanswer
  refine ⟨registry reference, rfl, ?_⟩
  rw [← hstore] at hs
  obtain ⟨store₁, ids₁⟩ := c₁
  refine Does.sure_bind manifestRaw_does ?_
  refine Sure.bind (writeBlob_sure hnamed hs) fun _ c₂ hs₂ => ?_
  refine Sure.bind (fetchConfig_sure hconfig hserves.config hs₂) fun _ c₃ hs₃ => ?_
  refine Sure.bind (pendingLayers_sure hserves.layers) fun pending c₄ hpending => ?_
  obtain ⟨rfl, rfl⟩ := hpending
  exact .ret ⟨by rw [hs₃.misses], hs₃⟩

/-- The image is there, as the ref says. -/
structure Pulled (registry : String → Manifest × String) (reference : String) (s : Store) : Prop where
  layers : ∀ layer ∈ (registry reference).1.layers, s.Extracted layer
  ref : s.marker (markerName reference) = some (registry reference).2

/-- The layers that a pull is to fetch. -/
def pendingOf (registry : String → Manifest × String) (reference : String) (s : Store) : List Descriptor :=
  (registry reference).1.layers.filter s.misses

theorem Store.misses_congr {layer layer' : Descriptor} (h : layer.digest = layer'.digest) (s : Store) :
    s.misses layer = s.misses layer' := by
  rw [Store.misses, Store.misses, h]

theorem isDir_extracted {s s' : Store} (h : s.Extracted layer)
    (hsame : ∀ algo name, digestPath layer.digest = .ok (algo, name) →
      s'.lookup (.layer algo name) = s.lookup (.layer algo name)) : s'.Extracted layer := by
  obtain ⟨algo, name, hd, hdir⟩ := h
  exact ⟨algo, name, hd, by rwa [isDir_congr (hsame algo name hd)]⟩

theorem fetchImage_sure (hserves : Serves oci registry reference) (hsorted : c.store.Sorted)
    (hnodup : ((pendingOf registry reference c.store).map (·.digest)).Nodup) :
    Sure (willing oci registry) (fun _ c' => Pulled registry reference c'.store) c (fetchImage reference) := by
  rw [fetchImage_eq]
  refine Sure.bind (fetchParts_sure hserves (.refl hsorted)) fun found c₁ hfound => ?_
  obtain ⟨rfl, hsame⟩ := hfound
  have hpending : ∀ layer ∈ pendingOf registry reference c.store,
      layer ∈ (registry reference).1.layers ∧ c₁.store.misses layer = true := by
    intro layer hmem
    rw [hsame.misses]
    exact List.mem_filter.mp hmem
  refine Sure.bind (fetchAll_sure (fun layer hmem => hserves.layers layer (hpending layer hmem).1)
    (fun layer hmem => (hpending layer hmem).2) hnodup) fun _ c₂ hfetched => ?_
  obtain ⟨hextracted, helsewhere⟩ := hfetched
  have href : c₂.store.lookup (refMarker reference) = c₁.store.lookup (refMarker reference) := by
    refine helsewhere _ (fun layer _ hmem => ?_) fun id heq => by cases heq
    obtain ⟨algo, name, -, hp⟩ := hmem
    rcases hp with heq | heq <;> cases heq
  have hfits : c₂.store.fits (refMarker reference) = true := by
    rw [Store.fits, href]
    exact hsame.sorted.fits fun _ _ heq => by cases heq
  refine (recordRef_sure hfits).weaken fun _ c₃ hstore => ?_
  have hlayer : ∀ algo name, c₃.store.lookup (.layer algo name) = c₂.store.lookup (.layer algo name) := by
    intro algo name
    rw [hstore, Store.lookup_put_other _ _ (fun heq => by cases heq)]
  refine ⟨fun layer hmem => ?_, ?_⟩
  · by_cases hmisses : c.store.misses layer = true
    · exact isDir_extracted (hextracted layer (List.mem_filter.mpr ⟨hmem, hmisses⟩)) fun algo name _ =>
        hlayer algo name
    · obtain ⟨algo, name, hlayered⟩ := hserves.layers layer hmem
      have hold : c₁.store.Extracted layer := by
        refine ⟨algo, name, hlayered.digest, hsame.sorted.dirs algo name ?_⟩
        rw [Store.has, hsame.layers]
        simpa [Store.misses, hlayered.digest, Store.has, Option.isSome_iff_ne_none] using hmisses
      refine isDir_extracted hold fun algo name hd => (hlayer algo name).trans ?_
      refine helsewhere _ (fun other hother hp => ?_) fun id heq => by cases heq
      -- a layer that is there is not fetched under another listing either
      have hdigest : layer.digest = other.digest := fetchSite_inj ⟨algo, name, hd, by simp [site]⟩ hp
      rw [Store.misses_congr hdigest] at hmisses
      exact hmisses (List.mem_filter.mp hother).2
  · rw [hstore, Store.marker, refMarker, Store.lookup_put_self]

end Climate
