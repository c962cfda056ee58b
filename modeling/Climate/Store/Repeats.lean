import Climate.Store.Calm
import Climate.Store.Fetching

/-!
# Images that list a layer twice

The layers a pull fetches are chosen before any of them is fetched, and all
that fetch one layer unpack it in the same place. If a layer is to be fetched
twice, there is an order of the tasks in which the second clears away what the
first is about to move into place.
-/

namespace Climate

open Prog

variable {oci : Oci} (registry : String → Manifest × String) {c : Desk}

-- ---------------------------------------------------------------------------
-- Two tasks with one layer
-- ---------------------------------------------------------------------------

/-- The first is about to move the layer into place. -/
theorem stage_steps (h : Layered oci layer algo name) (hvacant : c.store.lookup (.layer algo name) = none) :
    ∃ c' temp, Steps (willing oci registry) c (fetchLayer layer) c'
      ((finalise layer algo name).attempt >>= conclude temp) ∧ Staged algo name temp c' := by
  obtain ⟨c₁, own₁, temp, hs₁, -, hname, rfl, hnew, hagree⟩ :=
    (tempPath_holding oci registry (site algo name) c).run
  have hvacant₁ : c₁.store.lookup (.layer algo name) = none := (hagree _ (by simp [site])).trans hvacant
  obtain ⟨c₂, own₂, u, hs₂, -, -, hstaged⟩ := (stage_holding registry h hname hnew hvacant₁).run
  refine ⟨c₂, temp, ?_, hstaged⟩
  rw [fetchLayer_eq h]
  exact (hs₁.bind _).trans ((hs₂.bind fun _ => finalise layer algo name).attempt.bind (conclude temp))

/-- The second clears the staging directory. -/
theorem clear_steps (h : Layered oci layer algo name) :
    ∃ c' q, Steps (willing oci registry) c (fetchLayer layer) c' q ∧
      c'.store.lookup (stagingDir algo name) = none ∧
      ∀ p, p ≠ stagingDir algo name → c.store.lookup p ≠ none → c'.store.lookup p = c.store.lookup p := by
  obtain ⟨store, ids⟩ := c
  obtain ⟨nanos, hunused, hfresh⟩ := exists_unused store ids
  have hnew : store.lookup (tempFile "layer" (uniqueId 1 nanos)) = none := tempFile_new hunused
  have hpicked : willing oci registry .uniqueId ⟨store, ids⟩ (uniqueId 1 nanos)
      ⟨store, uniqueId 1 nanos :: ids⟩ :=
    ⟨⟨rfl, hunused, 1, nanos, rfl⟩, .inl rfl, trivial, rfl, by simpa [Op.handed] using hfresh⟩
  have hstage : ∃ q, Steps (willing oci registry) ⟨store, uniqueId 1 nanos :: ids⟩
      (stage layer algo name (tempFile "layer" (uniqueId 1 nanos)))
      ⟨(store.put (tempFile "layer" (uniqueId 1 nanos)) (.file (oci.content layer.digest))).remove
        (stagingDir algo name), uniqueId 1 nanos :: ids⟩ q := by
    exact ⟨_, Does.steps (download_does (fits_new hnew) h.registered)
      (Does.steps createDirAll_does (Does.steps removeTree_does .refl))⟩
  obtain ⟨q, hs⟩ := hstage
  have hfetch : ∃ q, Steps (willing oci registry) ⟨store, ids⟩ (fetchLayer layer)
      ⟨(store.put (tempFile "layer" (uniqueId 1 nanos)) (.file (oci.content layer.digest))).remove
        (stagingDir algo name), uniqueId 1 nanos :: ids⟩ q := by
    rw [fetchLayer_eq h]
    simp only [tempPath, bind_assoc]
    exact ⟨_, Does.steps createDirAll_does
      (.ask_bind hpicked rfl ((hs.bind fun _ => finalise layer algo name).attempt.bind _))⟩
  obtain ⟨q', hs'⟩ := hfetch
  refine ⟨_, q', hs', Store.lookup_remove_self .., fun p hp hthere => ?_⟩
  · have hne : p ≠ tempFile "layer" (uniqueId 1 nanos) := by
      rintro rfl
      exact hthere hnew
    rw [Store.lookup_remove_other _ hp, Store.lookup_put_other _ _ hne]

/-- The first finds nothing to move. -/
theorem finalise_fails (hgone : c.store.lookup (stagingDir algo name) = none)
    (hfile : ∃ x, c.store.lookup temp = some (.file x)) (layer : Descriptor) :
    ∃ c' message, Steps (willing oci registry) c ((finalise layer algo name).attempt >>= conclude temp) c'
      (.throw message) := by
  obtain ⟨x, hfile⟩ := hfile
  obtain ⟨store, ids⟩ := c
  have hcannot : ∀ (r : Except IoError Unit) s',
      Op.effect oci (.rename (stagingDir algo name) (.layer algo name)) store r s' →
      Op.worked (.rename (stagingDir algo name) (.layer algo name)) r = false := by
    intro r s' he
    cases r with
    | error e => rfl
    | ok u =>
      obtain ⟨hrenamed, -⟩ := he
      obtain ⟨n, hthere, -⟩ := Store.rename_eq_some hrenamed
      cases hgone.symm.trans hthere
  have hrename : willing oci registry (.rename (stagingDir algo name) (.layer algo name)) ⟨store, ids⟩
      (.error .notFound) ⟨store, ids⟩ :=
    ⟨rfl, .inr ⟨rfl, hcannot⟩, trivial, rfl, by simp [Op.handed]⟩
  have hremove : Steps (willing oci registry) ⟨store, ids⟩ (fetchLayer.removeFile temp)
      ⟨store.remove temp, ids⟩ (.ret ()) := Does.run (removeFile_does hfile)
  have hstep : Step (willing oci registry) ⟨store, ids⟩ (finalise layer algo name) ⟨store, ids⟩
      (.throw s!"finalising layer {layer.digest}") :=
    .call (I := disk) (o := Op.rename (stagingDir algo name) (.layer algo name))
      (k := fun r => Prog.ofExcept (orFail s!"finalising layer {layer.digest}" r)) hrename
  have hfailed := (Steps.tail .refl hstep).attempt.bind (conclude temp)
  exact ⟨_, _, hfailed.trans (hremove.attempt.bind _)⟩

-- ---------------------------------------------------------------------------
-- The order in which they fail
-- ---------------------------------------------------------------------------

/-- All tasks before the `m`-th have ended, but for the `i`-th, which like the
rest has not begun. -/
structure Waiting (layers : List Descriptor) (i : Fin layers.length) (m : Nat) (c c' : Desk)
    (tasks : Fin layers.length → Act Unit) : Prop where
  ended : ∀ k : Fin layers.length, k.val < m → k ≠ i → tasks k = .ret ()
  ahead : ∀ k : Fin layers.length, m ≤ k.val ∨ k = i → tasks k = fetchLayer layers[k]
  rest : ∀ p, (∀ k : Fin layers.length, k.val < m → k ≠ i → p ∉ fetchSite layers[k]) →
    (∀ id, p ≠ tempFile "layer" id) → c'.store.lookup p = c.store.lookup p

variable {layers : List Descriptor} {i j : Fin layers.length}

theorem waiting_steps (hlayers : ∀ layer ∈ layers, ∃ algo name, Layered oci layer algo name)
    (hmissing : ∀ layer ∈ layers, c.store.misses layer = true) (i : Fin layers.length)
    (next : Except String Unit → Act Unit) (m : Nat) (hm : m ≤ layers.length)
    (hfirst : ∀ a b : Fin layers.length, a < b → b.val < m → layers[a].digest ≠ layers[b].digest) :
    ∃ c' tasks, Steps (willing oci registry) c
      (.fork maxConcurrentDownloads layers.length (fun k => fetchLayer layers[k]) next) c'
      (.fork maxConcurrentDownloads layers.length tasks next) ∧ Waiting layers i m c c' tasks := by
  induction m with
  | zero => exact ⟨c, _, .refl, fun k hk => absurd hk (by omega), fun _ _ => rfl, fun _ _ _ => rfl⟩
  | succ m ih =>
    obtain ⟨c₁, tasks, hs, hwaiting⟩ := ih (by omega) fun a b hab hb => hfirst a b hab (by omega)
    by_cases hmi : m = i.val
    · -- the `i`-th waits
      refine ⟨c₁, tasks, hs, fun k hk hne => hwaiting.ended k ?_ hne, fun k hk => hwaiting.ahead k ?_,
        fun p hp hnot => hwaiting.rest p (fun k hk hne => hp k (by omega) hne) hnot⟩
      · have : k.val ≠ i.val := fun heq => hne (Fin.ext heq)
        omega
      · exact hk.imp_left fun hle => by omega
    · let k : Fin layers.length := ⟨m, by omega⟩
      obtain ⟨algo, name, hlayer⟩ := hlayers layers[k] (List.getElem_mem _)
      have hvacant : c₁.store.lookup (.layer algo name) = none := by
        rw [hwaiting.rest _ (fun k' hk' _ hmem => ?_) fun id heq => by cases heq]
        · exact hlayer.misses (hmissing layers[k] (List.getElem_mem _))
        · refine hfirst k' k hk' (by simp [k]) (fetchSite_inj hmem ?_)
          rw [hlayer.site_eq]
          simp [site]
      obtain ⟨c₂, own, u, hfetch, htakes, -⟩ := (fetchLayer_holding registry hlayer hvacant).run
      have hbegin : tasks k = fetchLayer layers[k] := hwaiting.ahead k (.inl le_rfl)
      have hrunning : Running maxConcurrentDownloads tasks k :=
        running_but_one i (fun k' hlt hne => hwaiting.ended k' hlt hne) (by decide)
      refine ⟨c₂, Function.update tasks k (.ret ()), hs.trans (.task k hrunning (hbegin ▸ hfetch)), ?_⟩
      refine ⟨fun k' hk' hne => ?_, fun k' hk' => ?_, fun p hp hnot => ?_⟩
      · by_cases heq : k' = k
        · rw [heq, Function.update_self]
        · rw [Function.update_of_ne heq]
          have : k'.val ≠ m := fun hval => heq (Fin.ext hval)
          exact hwaiting.ended k' (by omega) hne
      · have hne : k' ≠ k := by
          rintro rfl
          rcases hk' with hle | heq
          · exact absurd hle (by simp [k])
          · exact hmi (congrArg Fin.val heq)
        rw [Function.update_of_ne hne]
        exact hwaiting.ahead k' (hk'.imp_left fun hle => by omega)
      · have hown : p ∉ own := by
          intro hmem
          by_cases hold : p ∈ site algo name
          · refine hp k (by simp [k]) (fun heq => hmi (congrArg Fin.val heq)) ?_
            rwa [hlayer.site_eq]
          · obtain ⟨⟨id, heq, -⟩, -⟩ := htakes.taken p hmem hold
            exact hnot id heq
        exact (htakes.rest p hown).trans (hwaiting.rest p (fun k' hk' hne => hp k' (by omega) hne) hnot)

/-- The first layer whose digest is one of an earlier one. -/
theorem first_repeat (h : ¬ (layers.map (·.digest)).Nodup) :
    ∃ i j : Fin layers.length, i < j ∧ layers[i].digest = layers[j].digest ∧
      ∀ a b : Fin layers.length, a < b → b < j → layers[a].digest ≠ layers[b].digest := by
  classical
  have hsome : ∃ m, ∃ i j : Fin layers.length, i < j ∧ j.val = m ∧ layers[i].digest = layers[j].digest := by
    by_contra hnone
    refine h (List.pairwise_map.mpr (List.pairwise_iff_getElem.mpr fun a b ha hb hab heq => hnone ?_))
    exact ⟨b, ⟨a, ha⟩, ⟨b, hb⟩, hab, rfl, heq⟩
  obtain ⟨i, j, hij, hj, heq⟩ := Nat.find_spec hsome
  refine ⟨i, j, hij, heq, fun a b hab hb hdigest => Nat.find_min hsome (m := b.val) ?_ ⟨a, b, hab, rfl, hdigest⟩⟩
  rw [← hj]
  exact hb

theorem fetchAll_fails (hlayers : ∀ layer ∈ layers, ∃ algo name, Layered oci layer algo name)
    (hmissing : ∀ layer ∈ layers, c.store.misses layer = true) (hrepeat : ¬ (layers.map (·.digest)).Nodup) :
    ∃ c' message, Steps (willing oci registry) c
      (.forConcurrently maxConcurrentDownloads layers fetchLayer) c' (.throw message) := by
  obtain ⟨i, j, hij, hdigest, hfirst⟩ := first_repeat hrepeat
  obtain ⟨algo, name, hlayer⟩ := hlayers layers[i] (List.getElem_mem _)
  have hlayer' : Layered oci layers[j] algo name := by
    obtain ⟨algo', name', h'⟩ := hlayers layers[j] (List.getElem_mem _)
    have hparts := hlayer.digest
    rw [hdigest, h'.digest] at hparts
    cases hparts
    exact h'
  -- all before the second but the first
  obtain ⟨c₁, tasks, hs₁, hwaiting⟩ := waiting_steps registry hlayers hmissing i Prog.ofExcept j.val
    (by omega) fun a b hab hb => hfirst a b hab hb
  have hvacant : c₁.store.lookup (.layer algo name) = none := by
    rw [hwaiting.rest _ (fun k hk hne hmem => ?_) fun id heq => by cases heq]
    · exact hlayer.misses (hmissing layers[i] (List.getElem_mem _))
    · have hsame : layers[k].digest = layers[i].digest :=
        fetchSite_inj hmem (by rw [hlayer.site_eq]; simp [site])
      rcases lt_trichotomy k i with hlt | heq | hgt
      · exact hfirst k i hlt hij hsame
      · exact hne heq
      · exact hfirst i k hgt hk hsame.symm
  have hbefore : ∀ k < i, k ≠ i → tasks k = .ret () := fun k hk hne =>
    hwaiting.ended k (lt_trans hk hij) hne
  -- the first, up to its rename
  obtain ⟨c₂, temp, hs₂, hstaged⟩ := stage_steps registry hlayer hvacant
  have hji : j ≠ i := hij.ne'
  have hs₂' : Steps (willing oci registry) c₁ (tasks i) c₂ _ := hwaiting.ahead i (.inr rfl) ▸ hs₂
  have hrunning₂ : Running maxConcurrentDownloads tasks i := running_but_one i hbefore (by decide)
  -- the second, up to where the staging directory is cleared
  obtain ⟨c₃, q, hs₃, hgone, hkept⟩ := clear_steps registry (c := c₂) hlayer'
  have hs₃' : Steps (willing oci registry) c₂
      (Function.update tasks i ((finalise layers[i] algo name).attempt >>= conclude temp) j) c₃ q := by
    rw [Function.update_of_ne hji, hwaiting.ahead j (.inl le_rfl)]
    exact hs₃
  have hrunning₃ : Running maxConcurrentDownloads
      (Function.update tasks i ((finalise layers[i] algo name).attempt >>= conclude temp)) j := by
    refine running_but_one i (fun k hk hne => ?_) (by decide)
    rw [Function.update_of_ne hne]
    exact hwaiting.ended k hk hne
  -- the first again
  obtain ⟨x, hx⟩ := hstaged.file
  obtain ⟨t, ht⟩ := hstaged.tree
  have hne : temp ≠ stagingDir algo name := by
    rintro rfl
    cases hx.symm.trans ht
  have hfile : c₃.store.lookup temp = some (.file x) := by
    rw [hkept temp hne (by rw [hx]; simp), hx]
  obtain ⟨c₄, message, hs₄⟩ := finalise_fails registry hgone ⟨x, hfile⟩ layers[i]
  have hs₄' : Steps (willing oci registry) c₃ (Function.update (Function.update tasks i
      ((finalise layers[i] algo name).attempt >>= conclude temp)) j q i) c₄ (.throw message) := by
    rw [Function.update_of_ne hji.symm, Function.update_self]
    exact hs₄
  have hrunning₄ : Running maxConcurrentDownloads (Function.update (Function.update tasks i
      ((finalise layers[i] algo name).attempt >>= conclude temp)) j q) i := by
    refine running_but_one i (fun k hk hne => ?_) (by decide)
    rw [Function.update_of_ne (lt_trans hk hij).ne, Function.update_of_ne hne]
    exact hbefore k hk hne
  have hs := ((hs₁.trans (.task i hrunning₂ hs₂')).trans (.task j hrunning₃ hs₃')).trans (.task i hrunning₄ hs₄')
  refine ⟨c₄, message, hs.tail ?_⟩
  exact .abort (k := fun r => (Prog.ofExcept r : Act Unit)) i (Function.update_self ..)

-- ---------------------------------------------------------------------------
-- The whole pull
-- ---------------------------------------------------------------------------

theorem writeBlob_sequential : (writeBlob digest bytes).Sequential :=
  .bind (.ofExcept _) fun _ => .bind (.ask _ _) fun _ => .ask _ _

theorem fetchConfig_sequential {config : Descriptor} : (fetchConfig config).Sequential := by
  refine .bind (.bind (.ofExcept _) fun _ => .ask _ _) fun present => ?_
  split
  · trivial
  · refine .bind (.bind (.ask _ _) fun _ => .bind (.ask _ _) fun _ => trivial) fun temp => ?_
    exact .bind (.ask _ _) fun _ => .bind (.ofExcept _) fun _ => .bind (.ask _ _) fun _ => .ask _ _

theorem pendingLayers_sequential {layers : List Descriptor} : (pendingLayers layers).Sequential := by
  induction layers with
  | nil => trivial
  | cons layer rest ih =>
    exact .bind (.bind (.ofExcept _) fun _ => .ask _ _) fun _ => .bind ih fun _ => by trivial

theorem fetchParts_sequential : (fetchParts reference).Sequential :=
  .bind (.ask _ _) fun _ => .bind (.ask _ _) fun _ => .bind writeBlob_sequential fun _ =>
    .bind fetchConfig_sequential fun _ => .bind pendingLayers_sequential fun _ => trivial

variable {registry}

theorem fetchImage_fails (hserves : Serves oci registry reference) (hsorted : c.store.Sorted)
    (hrepeat : ¬ ((pendingOf registry reference c.store).map (·.digest)).Nodup) :
    ∃ c' message, Steps (willing oci registry) c (fetchImage reference) c' (.throw message) := by
  obtain ⟨c₁, found, hs₁, rfl, hsame⟩ :=
    (fetchParts_sure hserves (.refl hsorted)).run fetchParts_sequential
  have hmissing : ∀ layer ∈ pendingOf registry reference c.store, c₁.store.misses layer = true := by
    intro layer hmem
    rw [hsame.misses]
    exact (List.mem_filter.mp hmem).2
  obtain ⟨c₂, message, hs₂⟩ := fetchAll_fails registry
    (fun layer hmem => hserves.layers layer (List.mem_filter.mp hmem).1) hmissing hrepeat
  refine ⟨c₂, message, ?_⟩
  rw [fetchImage_eq]
  exact (hs₁.bind _).trans (hs₂.bind _)

/-- However the tasks are interleaved a pull succeeds, exactly if no layer is
to be fetched twice; it does not get stuck then either. -/
theorem fetchImage_succeeds_iff (hserves : Serves oci registry reference) (hsorted : c.store.Sorted) :
    ((∀ c' x, Steps (willing oci registry) c (fetchImage reference) c' (Prog.ofExcept x) →
        x = .ok () ∧ Pulled registry reference c'.store) ↔
      ((pendingOf registry reference c.store).map (·.digest)).Nodup) ∧
    (((pendingOf registry reference c.store).map (·.digest)).Nodup →
      Sure (willing oci registry) (fun _ c' => Pulled registry reference c'.store) c (fetchImage reference)) := by
  refine ⟨⟨fun h => ?_, fun hnodup c' x hs => ?_⟩, fetchImage_sure hserves hsorted⟩
  · by_contra hrepeat
    obtain ⟨c', message, hs⟩ := fetchImage_fails hserves hsorted hrepeat
    cases (h c' (.error message) hs).1
  · obtain ⟨-, rfl, hpulled⟩ := (fetchImage_sure hserves hsorted hnodup).ended hs
    exact ⟨rfl, hpulled⟩

namespace Twice

def tool : Descriptor := { digest := "sha256:aa", mediaType := imageLayerMediaType }

def other : Descriptor := { digest := "sha256:bb", mediaType := imageLayerMediaType }

def manifest (layers : List Descriptor) : Manifest := { config := { digest := "sha256:cc" }, layers }

def content (m : Manifest) (digest : String) : Content :=
  if digest = "sha256:dd" then .manifest m
  else if digest = "sha256:cc" then .config "\x7b\x7d"
  else .archive [⟨"bin/tool", "1"⟩]

def hub (layers : List Descriptor) : Oci where
  content := content (manifest layers)
  whole := some

/-- Every image has these layers. -/
def answers (layers : List Descriptor) (_ : String) : Manifest × String := (manifest layers, "sha256:dd")

def reference : String := "docker.io/own/tool:1"

def empty : Desk := { store := ∅ }

theorem empty_sorted : empty.store.Sorted := ⟨fun _ _ => rfl, fun _ _ h => by cases h⟩

theorem tool_layered : Layered (hub layers) tool "sha256" "aa" :=
  ⟨by rfl, by decide, by rfl, _, rfl⟩

theorem other_layered : Layered (hub layers) other "sha256" "bb" :=
  ⟨by rfl, by decide, by rfl, _, rfl⟩

theorem manifest_digest : digestPath "sha256:dd" = .ok ("sha256", "dd") ∧ ¬ Built "sha256:dd" := by decide

theorem config_digest : digestPath "sha256:cc" = .ok ("sha256", "cc") ∧ ¬ Built "sha256:cc" := by decide

theorem serves (h : ∀ layer ∈ layers, layer = tool ∨ layer = other) :
    Serves (hub layers) (answers layers) reference where
  manifest := rfl
  registered := manifest_digest.2
  named := ⟨_, _, manifest_digest.1⟩
  config := config_digest.2
  configNamed := ⟨_, _, config_digest.1⟩
  layers layer hmem := by
    rcases h layer hmem with rfl | rfl
    · exact ⟨_, _, tool_layered⟩
    · exact ⟨_, _, other_layered⟩

theorem pending_eq (h : ∀ layer ∈ layers, layer = tool ∨ layer = other) :
    pendingOf (answers layers) reference empty.store = layers := by
  refine List.filter_eq_self.mpr fun layer hmem => ?_
  rcases h layer hmem with rfl | rfl <;> rfl

end Twice

theorem fetchImage_succeeds_two_layers :
    Sure (willing (Twice.hub [Twice.tool, Twice.other]) (Twice.answers [Twice.tool, Twice.other]))
      (fun _ c' => Pulled (Twice.answers [Twice.tool, Twice.other]) Twice.reference c'.store) Twice.empty
      (fetchImage Twice.reference) := by
  have hlayers : ∀ layer ∈ [Twice.tool, Twice.other], layer = Twice.tool ∨ layer = Twice.other := by simp
  refine (fetchImage_succeeds_iff (Twice.serves hlayers) Twice.empty_sorted).2 ?_
  rw [Twice.pending_eq hlayers]
  decide

/-- The image lists the layer sha256:aa twice, and the store is empty. -/
theorem repeated_layer_fails :
    ¬ ∀ c' x, Steps (willing (Twice.hub [Twice.tool, Twice.tool]) (Twice.answers [Twice.tool, Twice.tool]))
        Twice.empty (fetchImage Twice.reference) c' (Prog.ofExcept x) →
      x = .ok () ∧ Pulled (Twice.answers [Twice.tool, Twice.tool]) Twice.reference c'.store := by
  intro h
  have hlayers : ∀ layer ∈ [Twice.tool, Twice.tool], layer = Twice.tool ∨ layer = Twice.other := by simp
  obtain ⟨c', message, hs⟩ := fetchImage_fails (c := Twice.empty) (Twice.serves hlayers) Twice.empty_sorted (by
    rw [Twice.pending_eq hlayers]
    decide)
  cases (h c' (.error message) hs).1

end Climate
