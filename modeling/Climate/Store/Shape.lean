import Climate.Store.Build
import Climate.Store.Clean
import Climate.Store.Closure

/-!
# The order of a program's writes

`Steady` programs write no file whole and touch no ref; `Tame` ones start no
container either. `Tidy` programs make at most one write to a ref, the last
thing they do, and give up at the first write that fails. Pulls, builds and
collectors are tidy.
-/

namespace Climate

variable {oci : Oci} {own : Option String}

def Path.isRef : Path → Bool
  | .ref _ => true
  | _ => false

def Op.tame : Op → Bool
  | .write .. | .truncate _ | .fill .. => false
  | .rename p q => !p.isRef && !q.isRef
  | .removeFile p | .removeTree p | .createTree p | .unpackEntry p _ | .download p _
  | .runScript p _ _ _ => !p.isRef
  | .storeExists | .exists _ | .isDir _ | .read _ | .readDir _ | .createDirAll _ | .uniqueId
  | .manifest _ | .manifestRaw _ | .runContainer _ => true

/-- The layers a container is to see, where the operation starts one. -/
def Op.lowerdirs : Op → List Path
  | .runScript _ _ dirs _ | .runContainer dirs => dirs
  | _ => []

abbrev Steady (p : Act α) : Prop := p.Only fun op : Op => op.tame = true

abbrev Tame (p : Act α) : Prop := p.Only fun op : Op => op.tame = true ∧ op.lowerdirs = []

/-- `own` is the name of the marker that may be written, if any. -/
def Tidy (own : Option String) : Act α → Prop
  | .ret _ => True
  | .throw _ => True
  | .call (.write p c) next =>
    (p.isRef = true →
      (∃ name ∈ own, ∃ digest, p = .ref name ∧ c = .text digest) ∧ ∀ r, Steady (next r)) ∧
      (∀ e, ∃ message, next (.error e) = .throw message) ∧ ∀ r, Tidy own (next r)
  | .call op next => op.tame = true ∧ ∀ r, Tidy own (next r)
  | .fork _ _ tasks next => (∀ i, Steady (tasks i)) ∧ ∀ r, Tidy own (next r)

theorem tidy_call {op : Op} {next : op.Res → Act α} (h : op.tame = true)
    (hn : ∀ r, Tidy own (next r)) : Tidy own (.call op next : Act α) := by
  cases op <;> first | exact ⟨h, hn⟩ | cases h

theorem tidy_write {next : Except IoError Unit → Act α}
    (hlast : p.isRef = true →
      (∃ name ∈ own, ∃ digest, p = .ref name ∧ c = .text digest) ∧ ∀ r, Steady (next r))
    (hfail : ∀ e, ∃ message, next (.error e) = .throw message) (hn : ∀ r, Tidy own (next r)) :
    Tidy own (.call (.write p c) next : Act α) := ⟨hlast, hfail, hn⟩

theorem tidy_next {op : Op} {next : op.Res → Act α} (h : Tidy own (.call op next : Act α))
    (r : op.Res) : Tidy own (next r) := by
  cases op <;> first | exact h.2.2 r | exact h.2 r

theorem Tame.steady {p : Act α} (h : Tame p) : Steady p := h.imp fun _ h => h.1

theorem Steady.tidy {p : Act α} (h : Steady p) : Tidy own p := by
  induction p with
  | ret _ | throw _ => trivial
  | call op next ih => exact tidy_call h.1 fun r => ih r (h.2 r)
  | fork limit count tasks next _ ih => exact ⟨h.1, fun r => ih r (h.2 r)⟩

theorem Steady.bind_tidy {p : Act α} {f : α → Act β} (hp : Steady p) (hf : ∀ a, Tidy own (f a)) :
    Tidy own (p >>= f) := by
  induction p with
  | ret a => exact hf a
  | throw e => trivial
  | call op next ih => exact tidy_call hp.1 fun r => ih r (hp.2 r) hf
  | fork limit count tasks next _ ih => exact ⟨hp.1, fun r => ih r (hp.2 r) hf⟩

theorem Tame.bind_tidy {p : Act α} {f : α → Act β} (hp : Tame p) (hf : ∀ a, Tidy own (f a)) :
    Tidy own (p >>= f) := hp.steady.bind_tidy hf

theorem Tidy.step {p p' : Act α} (h : Tidy own p) (hs : Prog.Step E s p s' p') : Tidy own p' := by
  cases hs with
  | call he => exact tidy_next h _
  | task i _ ht =>
    refine ⟨fun j => ?_, h.2⟩
    by_cases hj : j = i
    · subst hj; simpa using (h.1 j).step ht
    · simpa [hj] using h.1 j
  | join _ => exact h.2 _
  | abort _ _ => exact h.2 _

-- ---------------------------------------------------------------------------
-- store.rs
-- ---------------------------------------------------------------------------

theorem ofExcept_tame {x : Except String α} : Tame (Prog.ofExcept x) := .ofExcept x

theorem createParent_tame : Tame (createParent path) := .ask ⟨rfl, rfl⟩

theorem hasBlob_tame : Tame (hasBlob digest) := ofExcept_tame.bind fun _ => .ask ⟨rfl, rfl⟩

theorem hasLayer_tame : Tame (hasLayer digest) := ofExcept_tame.bind fun _ => .ask ⟨rfl, rfl⟩

theorem hasRef_tame : Tame (hasRef reference) := .ask ⟨rfl, rfl⟩

theorem readBlob_tame : Tame (readBlob digest) := ofExcept_tame.bind fun _ => .ask ⟨rfl, rfl⟩

theorem commitBlob_tame (ht : temp.isRef = false) : Tame (commitBlob temp digest) := by
  unfold commitBlob blobPath
  cases digestPath digest with
  | error e => trivial
  | ok q => exact createParent_tame.bind fun _ => .ask ⟨by simpa [Op.tame] using ⟨ht, rfl⟩, rfl⟩

theorem removeTree_tame (h : path.isRef = false) : Tame (removeTree path) :=
  .ask ⟨by simp [Op.tame, h], rfl⟩

theorem extractLayer_tame : Tame (extractLayer temp digest mediaType) := by
  refine ofExcept_tame.bind fun q => createParent_tame.bind fun _ => (removeTree_tame rfl).bind fun _ => ?_
  refine Prog.Only.bind (.ask ⟨rfl, rfl⟩) fun file => ?_
  split
  · refine Prog.Only.bind ?_ fun _ => .ask ⟨rfl, rfl⟩
    unfold unpack
    split
    · exact Prog.Only.bind (.ask ⟨rfl, rfl⟩) fun _ => .forM fun _ _ => .ask ⟨rfl, rfl⟩
    · trivial
  · trivial

theorem readManifest_tame : Tame (readManifest key) := by
  refine Prog.Only.bind (.ask ⟨rfl, rfl⟩) fun r => ?_
  cases r with
  | none => trivial
  | some digest =>
    refine readBlob_tame.bind fun content => ?_
    cases content <;> trivial

theorem imageConfig_tame : Tame (imageConfig key manifest) := by
  refine readBlob_tame.bind fun content => ?_
  cases content <;> trivial

theorem layerPath_bind_tidy {f : Path → Act α} (hf : ∀ algo name, Tidy own (f (.layer algo name))) :
    Tidy own (layerPath digest >>= f) := by
  unfold layerPath
  cases digestPath digest with
  | error e => trivial
  | ok q => exact hf q.1 q.2

/-- Writing a blob and going on. -/
theorem writeBlob_bind_tidy {f : Unit → Act α} (hf : ∀ a, Tidy own (f a)) :
    Tidy own (writeBlob digest bytes >>= f) := by
  unfold writeBlob blobPath
  cases digestPath digest with
  | error e => trivial
  | ok q =>
    refine tidy_call rfl fun r => ?_
    cases r with
    | error e => trivial
    | ok a =>
      refine tidy_write (fun h => by cases h) (fun e => ⟨_, rfl⟩) fun r => ?_
      cases r with
      | error e => trivial
      | ok b => exact hf b

theorem recordRef_tidy (h : markerName reference ∈ own) : Tidy own (recordRef reference digest) := by
  refine createParent_tame.bind_tidy fun _ => ?_
  exact tidy_write (fun _ => ⟨⟨_, h, digest, rfl, rfl⟩, fun _ => ofExcept_tame.steady⟩) (fun _ => ⟨_, rfl⟩)
    fun _ => ofExcept_tame.steady.tidy

-- ---------------------------------------------------------------------------
-- pull.rs
-- ---------------------------------------------------------------------------

theorem tempPath_bind_tame {f : Path → Act α} (hf : ∀ name, Tame (f (.download name))) :
    Tame (tempPath tag >>= f) := by
  unfold tempPath
  simp only [Prog.bind_assoc]
  refine Prog.Only.bind (.ask ⟨rfl, rfl⟩) fun _ => Prog.Only.bind (.ask ⟨rfl, rfl⟩) fun id => hf _

theorem fetchLayer_tame {layer : Descriptor} : Tame (fetchLayer layer) := by
  refine tempPath_bind_tame fun name => Prog.Only.bind ?_ fun _ => ?_
  · exact .attempt (Prog.Only.bind (.ask ⟨rfl, rfl⟩) fun _ => extractLayer_tame)
  · exact Prog.Only.bind (.attempt (.ask ⟨rfl, rfl⟩)) fun _ => ofExcept_tame

theorem pendingLayers_tame {layers : List Descriptor} : Tame (pendingLayers layers) := by
  induction layers with
  | nil => trivial
  | cons layer layers ih => exact hasLayer_tame.bind fun _ => ih.bind fun _ => trivial

theorem fetchLayers_tame {layers : List Descriptor} : Tame (fetchLayers layers) :=
  pendingLayers_tame.bind fun _ => ⟨fun _ => fetchLayer_tame, fun _ => ofExcept_tame⟩

theorem fetchConfig_tame {config : Descriptor} : Tame (fetchConfig config) := by
  refine hasBlob_tame.bind fun present => ?_
  split
  · trivial
  · exact tempPath_bind_tame fun _ => Prog.Only.bind (.ask ⟨rfl, rfl⟩) fun _ => commitBlob_tame rfl

theorem fetchImage_tidy : Tidy (some (markerName reference)) (fetchImage reference) := by
  refine Tame.bind_tidy (.ask ⟨rfl, rfl⟩) fun x => Tame.bind_tidy (.ask ⟨rfl, rfl⟩) fun raw => ?_
  refine writeBlob_bind_tidy fun _ => fetchConfig_tame.bind_tidy fun _ => ?_
  exact fetchLayers_tame.bind_tidy fun _ => recordRef_tidy rfl

-- ---------------------------------------------------------------------------
-- build.rs
-- ---------------------------------------------------------------------------

theorem lowerdirs_tame {digests : List String} : Tame (lowerdirs digests) := by
  induction digests with
  | nil => trivial
  | cons digest rest ih =>
    refine ofExcept_tame.bind fun path => Prog.Only.bind (.ask ⟨rfl, rfl⟩) fun found => ?_
    split
    · exact ih.bind fun _ => trivial
    · trivial

theorem mountLayers_tame {digests : List String} : Tame (mountLayers digests) := by
  unfold mountLayers
  split
  · trivial
  · exact lowerdirs_tame

theorem runScript_steady (h : upper.isRef = false) :
    Steady (runScript cfg script key base upper work) := by
  refine imageConfig_tame.steady.bind fun _ => mountLayers_tame.steady.bind fun dirs => ?_
  refine Prog.Only.bind (.ask (by simp [Op.tame, h])) fun code => ?_
  split <;> trivial

/-- The marker of the image a build makes. -/
def builtMarker (oci : Oci) (cfg : AppConfig) : Option String :=
  (imageKey oci cfg).toOption.map markerName

theorem build_tidy : Tidy (builtMarker oci cfg) (build oci cfg script) := by
  unfold build
  dsimp only
  cases oci.whole cfg.image.reference with
  | none => trivial
  | some baseKey =>
    refine readManifest_tame.bind_tidy fun r => ?_
    cases r with
    | none => trivial
    | some base =>
      refine Tame.bind_tidy (.ask ⟨rfl, rfl⟩) fun unique => ?_
      refine layerPath_bind_tidy fun algo name => ?_
      refine Tame.bind_tidy (.ask ⟨rfl, rfl⟩) fun _ => Tame.bind_tidy (.ask ⟨rfl, rfl⟩) fun _ => ?_
      refine Steady.bind_tidy (.attempt (runScript_steady rfl)) fun result => ?_
      refine Tame.bind_tidy (.attempt (removeTree_tame rfl)) fun _ => ?_
      cases result with
      | error e => exact Tame.bind_tidy (.attempt (removeTree_tame rfl)) fun _ => trivial
      | ok _ =>
        refine Tame.bind_tidy (.ask ⟨rfl, rfl⟩) fun _ => writeBlob_bind_tidy fun _ => ?_
        cases hk : imageKey oci cfg with
        | error e => trivial
        | ok key => exact recordRef_tidy (by simp [builtMarker, hk, Except.toOption])

-- ---------------------------------------------------------------------------
-- clean.rs
-- ---------------------------------------------------------------------------

theorem liveRef_tame {live : Live} : Tame (liveRef live name) := by
  unfold liveRef
  refine Prog.Only.bind (.ask ⟨rfl, rfl⟩) fun contents => ?_
  dsimp only
  generalize trim contents = digest
  split
  · trivial
  · refine readBlob_tame.bind fun content => ?_
    cases content.manifest? <;> trivial

theorem liveRefs_tame {live : Live} {todo : List String} : Tame (liveRefs live todo) := by
  induction todo generalizing live with
  | nil => trivial
  | cons name rest ih => exact liveRef_tame.bind fun _ => ih

theorem entries_tame {d : Dir} : Tame (entries d) := .ask ⟨rfl, rfl⟩

theorem removeBlobs_tame {live : Live} : Tame (removeBlobs live algo) := by
  refine entries_tame.bind fun found => .forM fun name _ => ?_
  dsimp only
  split
  · trivial
  · exact .ask ⟨rfl, rfl⟩

theorem removeLayers_tame {live : Live} : Tame (removeLayers live algo) := by
  refine entries_tame.bind fun found => .forM fun name _ => ?_
  dsimp only
  split
  · exact removeTree_tame rfl
  · trivial

theorem removeDownloads_tame : Tame removeDownloads := by
  refine entries_tame.bind fun found => .forM fun name _ => ?_
  split
  · exact .ask ⟨rfl, rfl⟩
  · trivial

theorem gcImages_tame : Tame gcImages := by
  unfold gcImages
  refine Prog.Only.bind (.ask ⟨rfl, rfl⟩) fun found => ?_
  split
  · refine Prog.Only.bind (.attempt (entries_tame.bind fun _ => liveRefs_tame)) fun r => ?_
    cases r with
    | error e => trivial
    | ok live =>
      refine entries_tame.bind fun _ => Prog.Only.bind (.forM fun _ _ => removeBlobs_tame) fun _ => ?_
      refine entries_tame.bind fun _ => Prog.Only.bind (.forM fun _ _ => removeLayers_tame) fun _ => ?_
      exact removeDownloads_tame
  · trivial

end Climate
