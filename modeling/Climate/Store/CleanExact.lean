import Climate.Lib.Alone
import Climate.Store.Calm
import Climate.Store.CleanLaws

/-!
# What a collector leaves

A collector that nothing else runs beside. It reads every ref and the manifest
each names before it deletes anything, so either it knows all that is in use
and leaves exactly that, or it leaves everything.
-/

namespace Climate

variable {oci : Oci}

namespace Store

def Refers (s : Store) (digest : String) (m : Manifest) : Prop :=
  ∃ name text, s.marker name = some text ∧ trim text = digest ∧ s.manifestAt digest = some m

/-- Every ref is empty or names a manifest that can be read and parsed. -/
def Legible (s : Store) : Prop :=
  ∀ name, s.has (.ref name) = true → ∃ text, s.marker name = some text ∧
    (trim text = "" ∨ ∃ m, s.manifestAt (trim text) = some m)

/-- What the refs name, and what is not for the collector to judge. -/
def InUse (s : Store) : Path → Prop
  | .ref _ => True
  | .blob algo name => ∃ d m, s.Refers d m ∧
      (blobFile d = some (.blob algo name) ∨ blobFile m.config.digest = some (.blob algo name))
  | .layer algo name => ∃ d m, s.Refers d m ∧ ∃ l ∈ m.layers, layerDir l.digest = some (.layer algo name)
  | .download name => isDownload name = false

/-- Blobs and layers lie where digests put them, leftovers aside. -/
def Shaped (s : Store) : Prop := ∀ p, s.has p = true → match p with
  | .blob _ _ => ∃ d, blobFile d = some p
  | .layer _ name => isStaging name = true ∨ ∃ d, layerDir d = some p
  | _ => True

end Store

-- ---------------------------------------------------------------------------
-- Looking
-- ---------------------------------------------------------------------------

def Op.looks : Op → Bool
  | .storeExists | .exists _ | .isDir _ | .read _ | .readDir _ | .createDirAll _ | .uniqueId
  | .manifest _ | .manifestRaw _ | .runContainer _ => true
  | _ => false

theorem Op.looks_effect {op : Op} {r : op.Res} {s s' : Store} (h : op.looks = true)
    (he : op.effect oci s r s') : s' = s := by
  cases op with
  | storeExists | «exists» | isDir | read | readDir | uniqueId | manifest | manifestRaw => exact he.1
  | createDirAll | runContainer => exact he
  | _ => cases h

abbrev Looks (oci : Oci) (post : α → Store → Prop) (s : Store) (p : Act α) : Prop :=
  Prog.Alone (Op.effect oci) (fun op _ => Op.looks op = true) post s p

theorem entries_looks (d : Dir) :
    Looks oci (fun found s' => s' = s ∧ s.Lists d found) s (entries d) := by
  refine .ask rfl fun r s' found he hread => ?_
  obtain ⟨rfl, hr⟩ := he
  rcases names_ok (orFail_ok.mp hread) with rfl | ⟨rfl, rfl⟩
  · exact ⟨rfl, hr⟩
  · exact ⟨rfl, hr⟩

theorem readBlob_looks (digest : String) : Looks oci
    (fun content s' => s' = s ∧ s.manifestAt digest = content.manifest?) s (readBlob digest) := by
  unfold readBlob blobPath
  cases hd : digestPath digest with
  | error e => exact .throw
  | ok q =>
    refine .ask rfl fun r s' content he hread => ?_
    obtain ⟨rfl, hr⟩ := he
    rw [orFail_ok.mp hread] at hr
    have hlookup : s'.lookup (.blob q.1 q.2) = some (.file content) := hr
    have hp : blobFile digest = some (.blob q.1 q.2) := blobFile_eq_some.mpr ⟨_, _, hd, rfl⟩
    exact ⟨rfl, by simp [Store.manifestAt, hp, hlookup, Node.manifest?]⟩

-- ---------------------------------------------------------------------------
-- The live set
-- ---------------------------------------------------------------------------

/-- `live` is what the refs among `done` keep, each of them empty or with a
manifest that can be read. -/
structure Live.Of (live : Live) (s : Store) (done : List String) : Prop where
  legible : ∀ name ∈ done, ∃ text, s.marker name = some text ∧
    (trim text = "" ∨ ∃ m, s.manifestAt (trim text) = some m)
  blobs : ∀ d, d ∈ live.blobs ↔ ∃ name ∈ done, ∃ text m, s.marker name = some text ∧
    s.manifestAt (trim text) = some m ∧ (d = trim text ∨ d = m.config.digest)
  layers : ∀ d, d ∈ live.layers ↔ ∃ name ∈ done, ∃ text m, s.marker name = some text ∧
    s.manifestAt (trim text) = some m ∧ ∃ l ∈ m.layers, d = l.digest

theorem Live.of_nil (s : Store) : ({} : Live).Of s [] := ⟨by simp, by simp, by simp⟩

theorem Live.Of.skip {live : Live} (h : live.Of s done) (hmark : s.marker name = some text)
    (hempty : trim text = "") : live.Of s (done ++ [name]) := by
  have hnone : ∀ m, s.manifestAt (trim text) ≠ some m := fun m hm =>
    Store.manifestAt_ne_empty hm hempty
  refine ⟨fun other hmem => ?_, fun d => ?_, fun d => ?_⟩
  · rcases List.mem_append.mp hmem with hmem | hmem
    · exact h.legible other hmem
    · rw [List.mem_singleton.mp hmem]
      exact ⟨text, hmark, .inl hempty⟩
  · simp only [h.blobs, List.mem_append, List.mem_singleton, or_and_right, exists_or, exists_eq_left,
      hmark, Option.some.injEq]
    refine (or_iff_left ?_).symm
    rintro ⟨_, m, rfl, hm, -⟩
    exact hnone m hm
  · simp only [h.layers, List.mem_append, List.mem_singleton, or_and_right, exists_or, exists_eq_left,
      hmark, Option.some.injEq]
    refine (or_iff_left ?_).symm
    rintro ⟨_, m, rfl, hm, -⟩
    exact hnone m hm

theorem Live.Of.add {live : Live} (h : live.Of s done) (hmark : s.marker name = some text)
    (hman : s.manifestAt (trim text) = some m) : (live.add (trim text) m).Of s (done ++ [name]) := by
  refine ⟨fun other hmem => ?_, fun d => ?_, fun d => ?_⟩
  · rcases List.mem_append.mp hmem with hmem | hmem
    · exact h.legible other hmem
    · rw [List.mem_singleton.mp hmem]
      exact ⟨text, hmark, .inr ⟨m, hman⟩⟩
  · simp only [Live.add, List.mem_cons, h.blobs, List.mem_append, List.not_mem_nil, or_false,
      or_and_right, exists_or, exists_eq_left, hmark, Option.some.injEq]
    constructor
    · rintro (rfl | rfl | hold)
      · exact .inr ⟨text, m, rfl, hman, .inr rfl⟩
      · exact .inr ⟨text, m, rfl, hman, .inl rfl⟩
      · exact .inl hold
    · rintro (hold | ⟨_, m', rfl, hm, hd⟩)
      · exact .inr (.inr hold)
      · cases hman.symm.trans hm
        exact hd.elim (fun h => .inr (.inl h)) .inl
  · simp only [Live.add, List.mem_append, List.mem_map, h.layers, List.mem_singleton, or_and_right,
      exists_or, exists_eq_left, hmark, Option.some.injEq]
    constructor
    · rintro (⟨l, hl, rfl⟩ | hold)
      · exact .inr ⟨text, m, rfl, hman, l, hl, rfl⟩
      · exact .inl hold
    · rintro (hold | ⟨_, m', rfl, hm, l, hl, rfl⟩)
      · exact .inr hold
      · cases hman.symm.trans hm
        exact .inl ⟨l, hl, rfl⟩

theorem liveRef_looks {live : Live} (h : live.Of s done) (name : String) :
    Looks oci (fun live' s' => s' = s ∧ live'.Of s (done ++ [name])) s (liveRef live name) := by
  refine .ask_bind rfl fun r s₁ text he hread => ?_
  rw [refContents_ok hread] at he
  obtain ⟨rfl, hr⟩ := he
  have hmark : s₁.marker name = some text := marker_eq_some.mpr hr
  dsimp only
  split
  next hempty => exact .ret ⟨rfl, h.skip hmark (by simpa using hempty)⟩
  next =>
    refine .bind (readBlob_looks _) fun content s₂ hcontent => ?_
    obtain ⟨rfl, hman⟩ := hcontent
    cases hm : content.manifest? with
    | none => exact .throw
    | some m => exact .ret ⟨rfl, h.add hmark (hman.trans hm)⟩

theorem liveRefs_looks {live : Live} (h : live.Of s done) (todo : List String) :
    Looks oci (fun live' s' => s' = s ∧ live'.Of s (done ++ todo)) s (liveRefs live todo) := by
  induction todo generalizing live done with
  | nil => exact .ret ⟨rfl, by rwa [List.append_nil]⟩
  | cons name rest ih =>
    refine .bind (liveRef_looks h name) fun live' s' h' => ?_
    obtain ⟨rfl, h'⟩ := h'
    rw [← List.singleton_append, ← List.append_assoc]
    exact ih h'

structure Live.Exact (live : Live) (s : Store) : Prop where
  blobs : ∀ d, d ∈ live.blobs ↔ ∃ digest m, s.Refers digest m ∧ (d = digest ∨ d = m.config.digest)
  layers : ∀ d, d ∈ live.layers ↔ ∃ digest m, s.Refers digest m ∧ ∃ l ∈ m.layers, d = l.digest

theorem Live.Of.exact {live : Live} (h : live.Of s done) (hlist : s.Lists .refs done) :
    live.Exact s := by
  have hname : ∀ name text, s.marker name = some text → name ∈ done := fun name text hmark =>
    (hlist.2 name).mpr (Store.has_iff.mpr ⟨_, marker_eq_some.mp hmark⟩)
  refine ⟨fun d => (h.blobs d).trans ⟨?_, ?_⟩, fun d => (h.layers d).trans ⟨?_, ?_⟩⟩
  · rintro ⟨name, -, text, m, hmark, hman, hd⟩
    exact ⟨trim text, m, ⟨name, text, hmark, rfl, hman⟩, hd⟩
  · rintro ⟨_, m, ⟨name, text, hmark, rfl, hman⟩, hd⟩
    exact ⟨name, hname name text hmark, text, m, hmark, hman, hd⟩
  · rintro ⟨name, -, text, m, hmark, hman, hd⟩
    exact ⟨trim text, m, ⟨name, text, hmark, rfl, hman⟩, hd⟩
  · rintro ⟨_, m, ⟨name, text, hmark, rfl, hman⟩, hd⟩
    exact ⟨name, hname name text hmark, text, m, hmark, hman, hd⟩

/-- A live set is told only where every ref can be followed, and is exact. -/
theorem liveSet_looks (s : Store) :
    Looks oci (fun live s' => s' = s ∧ s.Legible ∧ live.Exact s) s liveSet := by
  refine .bind (entries_looks .refs) fun found s' hfound => ?_
  obtain ⟨rfl, hlist⟩ := hfound
  refine (liveRefs_looks (Live.of_nil s') found).weaken fun live s'' h => ?_
  obtain ⟨rfl, hof⟩ := h
  rw [List.nil_append] at hof
  exact ⟨rfl, fun name hhas => hof.legible name ((hlist.2 name).mpr hhas), hof.exact hlist⟩

-- ---------------------------------------------------------------------------
-- Nothing to collect
-- ---------------------------------------------------------------------------

def Live.Dead (live : Live) : Path → Prop
  | .ref _ => False
  | .blob algo name => digestOf algo name ∉ live.blobs
  | .layer algo name => isStaging name = true ∨ digestOf algo name ∉ live.layers
  | .download name => isDownload name = true

/-- Digests rebuilt from names agree with those taken from manifests. -/
theorem Live.Exact.not_dead {live : Live} (h : live.Exact s) (hshaped : s.Shaped)
    (hhas : s.has p = true) : ¬ live.Dead p ↔ s.InUse p := by
  have hshape := hshaped p hhas
  cases p with
  | ref name => simp [Live.Dead, Store.InUse]
  | download name => simp [Live.Dead, Store.InUse]
  | blob algo name =>
    obtain ⟨d, hd⟩ := hshape
    have hdigest : ∀ d', digestOf algo name = d' ↔ blobFile d' = some (.blob algo name) := by
      obtain ⟨_, _, hpath, heq⟩ := blobFile_eq_some.mp hd
      cases heq
      rw [← (digestPath_ok hpath).1]
      exact fun d' => ⟨fun h => h ▸ hd, fun h => blobFile_inj hd h⟩
    rw [Live.Dead, not_not, h.blobs]
    simp only [hdigest, Store.InUse]
  | layer algo name =>
    rw [Live.Dead, not_or, not_not, h.layers, Store.InUse]
    rcases hshape with hstaging | ⟨d, hd⟩
    · refine iff_of_false (fun h => h.1 hstaging) ?_
      rintro ⟨_, _, -, l, -, hl⟩
      exact absurd hstaging (by simpa [Path.scratch] using layerDir_not_scratch hl)
    · have hclean : ¬ isStaging name = true := by simpa [Path.scratch] using layerDir_not_scratch hd
      have hdigest : ∀ d', digestOf algo name = d' ↔ layerDir d' = some (.layer algo name) := by
        obtain ⟨_, _, hpath, heq⟩ := layerDir_eq_some.mp hd
        cases heq
        rw [← (digestPath_ok hpath).1]
        refine fun d' => ⟨fun h => h ▸ hd, fun h => ?_⟩
        obtain ⟨_, _, hpath', heq'⟩ := layerDir_eq_some.mp h
        cases heq'
        exact digestPath_inj hpath hpath'
      rw [and_iff_right hclean]
      simp only [hdigest]

theorem removeBlobs_idle {live : Live} (h : ∀ name, s.has (.blob algo name) = true →
    ¬ live.Dead (.blob algo name)) :
    Looks oci (fun _ s' => s' = s) s (removeBlobs live algo) := by
  refine .bind (entries_looks _) fun found s' hfound => ?_
  obtain ⟨rfl, hlist⟩ := hfound
  refine .each rfl fun name hmem s₁ heq => ?_
  subst heq
  have hlive := h name ((hlist.2 name).mp hmem)
  dsimp only
  rw [if_pos (by simpa [Live.Dead] using hlive)]
  exact .ret rfl

theorem removeLayers_idle {live : Live} (h : ∀ name, s.has (.layer algo name) = true →
    ¬ live.Dead (.layer algo name)) :
    Looks oci (fun _ s' => s' = s) s (removeLayers live algo) := by
  refine .bind (entries_looks _) fun found s' hfound => ?_
  obtain ⟨rfl, hlist⟩ := hfound
  refine .each rfl fun name hmem s₁ heq => ?_
  subst heq
  have hlive := h name ((hlist.2 name).mp hmem)
  dsimp only
  rw [if_neg (by simpa [Live.Dead] using hlive)]
  exact .ret rfl

theorem removeDownloads_idle (h : ∀ name, s.has (.download name) = true → isDownload name = false) :
    Looks oci (fun _ s' => s' = s) s removeDownloads := by
  refine .bind (entries_looks _) fun found s' hfound => ?_
  obtain ⟨rfl, hlist⟩ := hfound
  refine .each rfl fun name hmem s₁ heq => ?_
  subst heq
  rw [if_neg (by simp [h name ((hlist.2 name).mp hmem)])]
  exact .ret rfl

theorem gcImages_looks (hshaped : s.Shaped)
    (hclean : s.Legible → ∀ p, s.has p = true → s.InUse p) :
    Looks oci (fun _ _ => True) s gcImages := by
  refine .ask_bind rfl fun r s₁ found he _ => ?_
  obtain ⟨rfl, -⟩ := he
  split
  · refine .bind (liveSet_looks s₁).attempt fun r s₂ hr => ?_
    cases r with
    | error e => exact .ret trivial
    | ok live =>
      obtain ⟨rfl, hlegible, hexact⟩ := hr live rfl
      have halive : ∀ p, s₂.has p = true → ¬ live.Dead p := fun p hhas =>
        (hexact.not_dead hshaped hhas).mpr (hclean hlegible p hhas)
      refine .bind (entries_looks .blobs) fun algos s₃ h₃ => ?_
      obtain ⟨rfl, -⟩ := h₃
      refine .bind (.each rfl fun algo _ s₄ h₄ => ?_) fun _ s₄ h₄ => ?_
      · exact h₄ ▸ (removeBlobs_idle fun name hhas => halive _ hhas).weaken fun _ _ => Eq.symm
      subst h₄
      refine .bind (entries_looks .layers) fun algos s₅ h₅ => ?_
      obtain ⟨rfl, -⟩ := h₅
      refine .bind (.each rfl fun algo _ s₆ h₆ => ?_) fun _ s₆ h₆ => ?_
      · exact h₆ ▸ (removeLayers_idle fun name hhas => halive _ hhas).weaken fun _ _ => Eq.symm
      subst h₆
      refine (removeDownloads_idle fun name hhas => ?_).weaken fun _ _ _ => trivial
      simpa [Live.Dead] using halive _ hhas
  · exact .ret trivial

theorem gcImages_sequential : gcImages.Sequential := by
  have hentries : ∀ d, (entries d).Sequential := fun d => .ask _ _
  have hread : ∀ digest, (readBlob digest).Sequential := fun digest =>
    .bind (.ofExcept _) fun _ => .ask _ _
  have hliveRef : ∀ live name, (liveRef live name).Sequential := by
    refine fun live name => .bind (.ask _ _) fun contents => ?_
    dsimp only
    generalize trim contents = digest
    split
    · trivial
    · refine .bind (hread _) fun content => ?_
      split <;> trivial
  have hliveRefs : ∀ todo live, (liveRefs live todo).Sequential := by
    intro todo
    induction todo with
    | nil => exact fun _ => trivial
    | cons name rest ih => exact fun live => .bind (hliveRef live name) fun live => ih live
  refine .bind (.ask _ _) fun found => ?_
  split
  · refine .bind (.attempt (.bind (hentries _) fun _ => hliveRefs _ _)) fun r => ?_
    split
    · trivial
    · refine .bind (hentries _) fun _ => .bind (.forM fun algo => .bind (hentries _) fun _ => .forM
        fun name => ?_)
        fun _ => .bind (hentries _) fun _ =>
          .bind (.forM fun algo => .bind (hentries _) fun _ => .forM fun name => ?_)
        fun _ => .bind (hentries _) fun _ => .forM fun name => ?_
      all_goals try dsimp only
      all_goals split
      all_goals first | trivial | exact .ask _ _
  · trivial

theorem gcImages_idle (hshaped : s.Shaped)
    (hclean : s.Legible → ∀ p, s.has p = true → s.InUse p)
    (hs : Prog.Steps (Op.effect oci) s gcImages s' p') : s = s' :=
  (gcImages_looks hshaped hclean).invariant gcImages_sequential rfl
    (fun _ _ _ _ heq hlooks he => heq.trans (Op.looks_effect hlooks he).symm) hs

-- ---------------------------------------------------------------------------
-- Collecting
-- ---------------------------------------------------------------------------

/-- `s₁` is `s` without what is dead of the paths gone over. -/
def Swept (dead gone : Path → Prop) (s s₁ : Store) : Prop :=
  ∀ p n, s₁.lookup p = some n ↔ s.lookup p = some n ∧ ¬ (dead p ∧ gone p)

namespace Swept

variable {dead gone gone' : Path → Prop} {s s₁ : Store}

theorem refl (dead : Path → Prop) (s : Store) : Swept dead (fun _ => False) s s := by
  simp [Swept]

theorem remove (h : Swept dead gone s s₁) (hdead : dead q) :
    Swept dead (fun p => gone p ∨ p = q) s (s₁.remove q) := by
  intro p n
  by_cases hp : p = q
  · subst hp
    simp [hdead]
  · simp [hp, h p n]

theorem widen (h : Swept dead gone s s₁) (hle : ∀ p, gone p → gone' p)
    (hmore : ∀ p, gone' p → gone p ∨ ¬ dead p ∨ s₁.lookup p = none) : Swept dead gone' s s₁ := by
  intro p n
  rw [h p n]
  refine and_congr_right fun hn => not_congr ⟨fun hd => ⟨hd.1, hle p hd.2⟩, fun hd => ⟨hd.1, ?_⟩⟩
  rcases hmore p hd.2 with hg | halive | hnone
  · exact hg
  · exact absurd hd.1 halive
  · by_contra hng
    have hsome := (h p n).mpr ⟨hn, fun hdg => hng hdg.2⟩
    rw [hnone] at hsome
    cases hsome

end Swept

abbrev Collects (oci : Oci) (post : α → Store → Prop) (s : Store) (p : Act α) : Prop :=
  Prog.Alone (Op.effect oci) (fun _ _ => True) post s p

theorem Looks.collects {p : Act α} {post : α → Store → Prop} (h : Looks oci post s p) :
    Collects oci post s p :=
  fun s' p' hs => ⟨fun _ _ _ => trivial, (h s' p' hs).value⟩

section
variable {dead gone : Path → Prop} {s s₁ : Store}

theorem sweep_each {l : List String} {f : String → Act Unit} (also : String → Path → Prop)
    (h : Swept dead gone s s₁) (hstep : ∀ gone b s₂, Swept dead gone s s₂ →
      Collects oci (fun _ s₃ => Swept dead (fun p => gone p ∨ also b p) s s₃) s₂ (f b)) :
    Collects oci (fun _ s₂ => Swept dead (fun p => gone p ∨ ∃ b ∈ l, also b p) s s₂) s₁ (l.forM f) := by
  induction l generalizing s₁ gone with
  | nil => exact .ret (by simpa using h)
  | cons b l ih =>
    refine .bind (hstep gone b s₁ h) fun _ s₂ h₂ => (ih h₂).weaken fun _ s₃ h₃ => ?_
    simpa [or_assoc] using h₃

theorem sweep_listed {found : List String} {f : String → Act Unit} (path : String → Path)
    (h : Swept dead gone s s₁) (hlist : ∀ name, name ∈ found ↔ s₁.has (path name) = true)
    (hstep : ∀ gone name s₂, Swept dead gone s s₂ →
      Collects oci (fun _ s₃ => Swept dead (fun p => gone p ∨ p = path name) s s₃) s₂ (f name)) :
    Collects oci (fun _ s₂ => Swept dead (fun p => gone p ∨ ∃ name, p = path name) s s₂) s₁
      (found.forM f) := by
  have habsent : Swept dead (fun p => gone p ∨ ∃ name, name ∉ found ∧ p = path name) s s₁ := by
    refine h.widen (fun p hp => .inl hp) fun p hp => hp.imp_right ?_
    rintro ⟨name, hnot, rfl⟩
    refine .inr (Option.eq_none_iff_forall_not_mem.mpr fun n hn => hnot ((hlist name).mpr ?_))
    exact Store.has_iff.mpr ⟨n, hn⟩
  refine (sweep_each (fun name p => p = path name) habsent hstep).weaken fun _ s₂ h₂ => ?_
  refine h₂.widen (fun p hp => ?_) fun p hp => .inl ?_
  · rcases hp with (hp | ⟨name, -, rfl⟩) | ⟨name, -, rfl⟩
    · exact .inl hp
    · exact .inr ⟨name, rfl⟩
    · exact .inr ⟨name, rfl⟩
  · rcases hp with hp | ⟨name, rfl⟩
    · exact .inl (.inl hp)
    · by_cases hmem : name ∈ found
      · exact .inr ⟨name, hmem, rfl⟩
      · exact .inl (.inr ⟨name, hmem, rfl⟩)

theorem removeBlobs_sweeps {live : Live} (h : Swept live.Dead gone s s₁) (algo : String) : Collects oci
    (fun _ s₂ => Swept live.Dead (fun p => gone p ∨ ∃ name, p = .blob algo name) s s₂) s₁
    (removeBlobs live algo) := by
  refine .bind (entries_looks _).collects fun found s₂ hfound => ?_
  obtain ⟨rfl, hlist⟩ := hfound
  refine sweep_listed (.blob algo) h hlist.2 fun gone name s₃ h₃ => ?_
  dsimp only
  split
  next hlive =>
    refine .ret (h₃.widen (fun p hp => .inl hp) fun p hp => hp.imp_right fun heq => .inl ?_)
    subst heq
    simpa [Live.Dead] using hlive
  next hlive =>
    refine .ask trivial fun r s₄ _ he hread => ?_
    rw [orFail_ok.mp hread] at he
    rw [he.2]
    exact h₃.remove (by simpa [Live.Dead] using hlive)

theorem removeLayers_sweeps {live : Live} (h : Swept live.Dead gone s s₁) (algo : String) : Collects oci
    (fun _ s₂ => Swept live.Dead (fun p => gone p ∨ ∃ name, p = .layer algo name) s s₂) s₁
    (removeLayers live algo) := by
  refine .bind (entries_looks _).collects fun found s₂ hfound => ?_
  obtain ⟨rfl, hlist⟩ := hfound
  refine sweep_listed (.layer algo) h hlist.2 fun gone name s₃ h₃ => ?_
  dsimp only
  split
  next hdead =>
    refine .ask trivial fun r s₄ _ he hread => ?_
    rw [orFail_ok.mp hread] at he
    obtain rfl : s₄ = s₃.remove (.layer algo name) := he
    exact h₃.remove (by simpa [Live.Dead] using hdead)
  next halive =>
    refine .ret (h₃.widen (fun p hp => .inl hp) fun p hp => hp.imp_right fun heq => .inl ?_)
    subst heq
    simpa [Live.Dead] using halive

theorem removeDownloads_sweeps {live : Live} (h : Swept live.Dead gone s s₁) : Collects oci
    (fun _ s₂ => Swept live.Dead (fun p => gone p ∨ ∃ name, p = .download name) s s₂) s₁
    removeDownloads := by
  refine .bind (entries_looks _).collects fun found s₂ hfound => ?_
  obtain ⟨rfl, hlist⟩ := hfound
  refine sweep_listed .download h hlist.2 fun gone name s₃ h₃ => ?_
  split
  next hdead =>
    refine .ask trivial fun r s₄ _ he hread => ?_
    rw [orFail_ok.mp hread] at he
    rw [he.2]
    exact h₃.remove hdead
  next halive =>
    refine .ret (h₃.widen (fun p hp => .inl hp) fun p hp => hp.imp_right fun heq => .inl ?_)
    subst heq
    exact halive

end

/-- The operations, with every read of what is there answered. -/
def Op.answers : (op : Op) → Store → op.Res → Prop
  | .read p, s, r => ∀ c, s.lookup p = some (.file c) → r = .ok c
  | .readDir _, _, r => r ≠ .error .other
  | _, _, _ => True

def readable (oci : Oci) : Effects disk Store := fun op s r s' => op.effect oci s r s' ∧ op.answers s r

abbrev Answered (oci : Oci) (post : α → Store → Prop) (s : Store) (p : Act α) : Prop :=
  Prog.Succeeds (readable oci) (fun _ _ => True) post s p

theorem entries_answered (d : Dir) : Answered oci (fun found s' => s' = s ∧ s.Lists d found) s (entries d) := by
  refine .ask trivial fun r s' he => ?_
  obtain ⟨⟨rfl, hr⟩, hanswer⟩ := he
  match r, hr, hanswer with
  | .ok found, hr, _ => exact ⟨found, rfl, rfl, hr⟩
  | .error .notFound, hr, _ => exact ⟨[], rfl, rfl, hr⟩
  | .error .other, _, hanswer => exact absurd rfl hanswer

theorem readBlob_answered (h : s.manifestAt digest = some m) :
    Answered oci (fun content s' => s' = s ∧ content.manifest? = some m) s (readBlob digest) := by
  obtain ⟨p, hp, n, hn, hm⟩ := Store.manifestAt_eq_some.mp h
  obtain ⟨algo, name, hpath, rfl⟩ := blobFile_eq_some.mp hp
  unfold readBlob blobPath
  rw [hpath]
  cases n with
  | dir t => cases hm
  | file c =>
    refine .ask trivial fun r s' he => ?_
    obtain ⟨⟨rfl, -⟩, hanswer⟩ := he
    exact ⟨c, by rw [hanswer c hn]; rfl, rfl, hm⟩

theorem liveRef_answered (live : Live) (hmark : s.marker name = some text)
    (hman : trim text = "" ∨ ∃ m, s.manifestAt (trim text) = some m) :
    Answered oci (fun _ s' => s' = s) s (liveRef live name) := by
  refine .ask_bind trivial fun r s' he => ?_
  obtain ⟨⟨rfl, -⟩, hanswer⟩ := he
  refine ⟨text, by rw [hanswer _ (marker_eq_some.mp hmark)]; rfl, ?_⟩
  dsimp only
  generalize trim text = digest at hman
  rcases hman with rfl | ⟨m, hm⟩
  · exact .ret rfl
  · rw [if_neg (by simpa using Store.manifestAt_ne_empty hm)]
    refine .bind (readBlob_answered hm) fun content s'' h => ?_
    obtain ⟨rfl, hcontent⟩ := h
    rw [hcontent]
    exact .ret rfl

theorem liveSet_answered (h : s.Legible) : Answered oci (fun _ s' => s' = s) s liveSet := by
  refine .bind (entries_answered .refs) fun found s' hfound => ?_
  obtain ⟨rfl, hlist⟩ := hfound
  have hrefs : ∀ name ∈ found, ∃ text, s'.marker name = some text ∧
      (trim text = "" ∨ ∃ m, s'.manifestAt (trim text) = some m) :=
    fun name hmem => h name ((hlist.2 name).mp hmem)
  generalize ({} : Live) = live
  clear hlist
  induction found generalizing live with
  | nil => exact .ret rfl
  | cons name rest ih =>
    obtain ⟨text, hmark, hman⟩ := hrefs name (by simp)
    refine .bind (liveRef_answered live hmark hman) fun live s'' hs => ?_
    subst hs
    exact ih (fun other hmem => hrefs other (by simp [hmem])) live

theorem collect_sweeps {live : Live} : Collects oci
    (fun _ s' => Swept live.Dead (fun p => ∀ name, p ≠ .ref name) s s') s (do
      (← entries .blobs).forM (removeBlobs live)
      (← entries .layers).forM (removeLayers live)
      removeDownloads) := by
  refine .bind (entries_looks .blobs).collects fun algos s₁ h₁ => ?_
  obtain ⟨rfl, hblobs⟩ := h₁
  refine .bind (sweep_each _ (Swept.refl live.Dead s₁) fun gone algo s₂ h₂ => removeBlobs_sweeps h₂ algo)
    fun _ s₂ h₂ => ?_
  refine .bind (entries_looks .layers).collects fun algos' s₃ h₃ => ?_
  obtain ⟨rfl, hlayers⟩ := h₃
  refine .bind (sweep_each _ h₂ fun gone algo s₄ h₄ => removeLayers_sweeps h₄ algo) fun _ s₄ h₄ => ?_
  refine (removeDownloads_sweeps h₄).weaken fun _ s₅ h₅ => h₅.widen (fun p hp => ?_) fun p hp => ?_
  · rcases hp with ((hp | ⟨_, -, name, rfl⟩) | ⟨_, -, name, rfl⟩) | ⟨name, rfl⟩
    · exact hp.elim
    all_goals simp
  · have hsub : ∀ p n, s₅.lookup p = some n → s₁.lookup p = some n := fun p n hn => ((h₅ p n).mp hn).1
    have habsent : s₁.lookup p = none → s₅.lookup p = none := by
      intro hnone
      by_contra hne
      obtain ⟨n, hn⟩ := Option.ne_none_iff_exists'.mp hne
      rw [hsub p n hn] at hnone
      cases hnone
    cases p with
    | ref name => exact absurd rfl (hp name)
    | download name => exact .inl (.inr ⟨name, rfl⟩)
    | blob algo name =>
      cases hlookup : s₁.lookup (.blob algo name) with
      | none => exact .inr (.inr (habsent hlookup))
      | some n =>
        have hmem := hblobs.2 algo name (Store.has_iff.mpr ⟨n, hlookup⟩)
        exact .inl (.inl (.inl (.inr ⟨algo, hmem, name, rfl⟩)))
    | layer algo name =>
      cases hlookup : s₃.lookup (.layer algo name) with
      | some n =>
        have hmem := hlayers.2 algo name (Store.has_iff.mpr ⟨n, hlookup⟩)
        exact .inl (.inl (.inr ⟨algo, hmem, name, rfl⟩))
      | none =>
        refine .inr (.inr ?_)
        by_contra hne
        obtain ⟨n, hn⟩ := Option.ne_none_iff_exists'.mp hne
        obtain ⟨hold, halive⟩ := (h₅ _ n).mp hn
        have hsome := (h₂ _ n).mpr ⟨hold, fun hd => halive ⟨hd.1, .inl (.inl hd.2)⟩⟩
        rw [hlookup] at hsome
        cases hsome

theorem gcImages_collects (hshaped : s.Shaped) (hlegible : s.Legible)
    (hs : Prog.Steps (readable oci) s gcImages s' (.ret ())) (p : Path) (n : Node) :
    s'.lookup p = some n ↔ s.lookup p = some n ∧ s.InUse p := by
  have hall : Prog.Alone (readable oci) (fun _ _ => True)
      (fun _ s' => ∀ p n, s'.lookup p = some n ↔ s.lookup p = some n ∧ s.InUse p) s gcImages := by
    refine .ask_bind trivial fun r s₁ found he hread => ?_
    obtain ⟨⟨rfl, hexists⟩, -⟩ := he
    cases found with
    | false =>
      have hempty : s₁ = ∅ := by
        by_contra hne
        cases hread
        cases hexists hne
      refine .ret fun p n => ?_
      simp [hempty]
    | true =>
      have hlooks := (Prog.Alone.mono (F := readable oci) (fun _ _ _ _ he => he.1) (liveSet_looks s₁)).attempt
      refine .bind ((liveSet_answered hlegible).both hlooks) fun r s₂ hr => ?_
      obtain ⟨⟨live, rfl, rfl⟩, hexact⟩ := hr
      have hexact := (hexact live rfl).2.2
      refine Prog.Alone.mono (fun _ _ _ _ he => he.1) (collect_sweeps.weaken fun _ s₃ h₃ p n => ?_)
      rw [h₃ p n]
      refine and_congr_right fun hn => ?_
      rw [← hexact.not_dead hshaped (Store.has_iff.mpr ⟨n, hn⟩)]
      refine not_congr (and_iff_left_of_imp ?_)
      rintro hdead name rfl
      exact hdead
  exact (hall s' _ hs).value () rfl p n

section
variable {s s' : Store} (h : ∀ p n, s'.lookup p = some n ↔ s.lookup p = some n ∧ s.InUse p)
include h

theorem Store.Refers.collected (hr : s.Refers d m) : s'.Refers d m := by
  obtain ⟨name, text, hmark, htrim, hman⟩ := hr
  obtain ⟨p, hp, n, hn, hm⟩ := Store.manifestAt_eq_some.mp hman
  refine ⟨name, text, marker_eq_some.mpr ((h _ _).mpr ⟨marker_eq_some.mp hmark, trivial⟩), htrim, ?_⟩
  refine Store.manifestAt_eq_some.mpr ⟨p, hp, n, (h p n).mpr ⟨hn, ?_⟩, hm⟩
  obtain ⟨algo, file, -, rfl⟩ := blobFile_eq_some.mp hp
  exact ⟨d, m, ⟨name, text, hmark, htrim, hman⟩, .inl hp⟩

theorem Store.InUse.collected (hp : s.InUse p) : s'.InUse p := by
  cases p with
  | ref name => trivial
  | download name => exact hp
  | blob algo name =>
    obtain ⟨d, m, hr, hd⟩ := hp
    exact ⟨d, m, hr.collected h, hd⟩
  | layer algo name =>
    obtain ⟨d, m, hr, hl⟩ := hp
    exact ⟨d, m, hr.collected h, hl⟩

end

theorem Store.InUse.not_staging {s : Store} (h : s.InUse (.layer algo name)) : isStaging name = false := by
  obtain ⟨_, _, -, l, -, hl⟩ := h
  simpa [Path.scratch] using layerDir_not_scratch hl

/-- A collector that knows all that is in use leaves exactly that, as it was,
and no other collector finds anything after it; one that does not leaves
everything. -/
theorem gc_exact (hshaped : s.Shaped) :
    (s.Legible → ∀ s', Prog.Steps (readable oci) s gcImages s' (.ret ()) →
      (∀ p n, s'.lookup p = some n ↔ s.lookup p = some n ∧ s.InUse p) ∧
      (∀ algo name, isStaging name = true → s'.lookup (.layer algo name) = none) ∧
      (∀ name, isDownload name = true → s'.lookup (.download name) = none) ∧
      (∀ name, s'.lookup (.ref name) = s.lookup (.ref name)) ∧
      ∀ s'' p, Prog.Steps (Op.effect oci) s' gcImages s'' p → s'' = s') ∧
    (¬ s.Legible → ∀ s' p, Prog.Steps (Op.effect oci) s gcImages s' p → s' = s) := by
  refine ⟨fun hlegible s' hs => ?_, fun hillegible s' p hs => ?_⟩
  · have hleft := gcImages_collects hshaped hlegible hs
    have hin : ∀ p, s'.has p = true → s.has p = true ∧ s.InUse p := by
      intro p hhas
      obtain ⟨n, hn⟩ := Store.has_iff.mp hhas
      obtain ⟨hn, huse⟩ := (hleft p n).mp hn
      exact ⟨Store.has_iff.mpr ⟨n, hn⟩, huse⟩
    refine ⟨hleft, fun algo name hstaging => ?_, fun name hdownload => ?_, fun name => ?_, fun s'' p hs' => ?_⟩
    · refine Option.eq_none_iff_forall_not_mem.mpr fun n hn => ?_
      rw [((hleft _ n).mp hn).2.not_staging] at hstaging
      cases hstaging
    · refine Option.eq_none_iff_forall_not_mem.mpr fun n hn => ?_
      rw [show isDownload name = false from ((hleft _ n).mp hn).2] at hdownload
      cases hdownload
    · exact Option.ext fun n => (hleft _ n).trans (and_iff_left trivial)
    · have hshaped' : s'.Shaped := fun p hhas => hshaped p (hin p hhas).1
      exact (gcImages_idle hshaped' (fun _ p hhas => (hin p hhas).2.collected hleft) hs').symm
  · exact (gcImages_idle hshaped (fun hlegible => absurd hlegible hillegible) hs).symm

-- ---------------------------------------------------------------------------
-- A store with leftovers
-- ---------------------------------------------------------------------------

namespace Crowded

def reader (oci : Oci) : Handler (I := disk) (readable oci) where
  answer := calmAnswer oci fun _ => none
  sound {op s r s'} h := by
    refine ⟨(calm oci fun _ => none).sound h, ?_⟩
    cases op with
    | read p =>
      intro c hc
      simp only [calmAnswer, hc] at h
      cases h
      rfl
    | readDir d =>
      cases h
      nofun
    | _ => trivial

def hub : Oci where
  content _ := .other ""
  whole := some

def image : Manifest where
  config := { digest := "sha256:c0" }
  layers := [{ digest := "sha256:a1" }]

/-- Two refs of one image, one of them with a newline after its digest, and one
without a digest; a blob, a layer, an unpack and a download that nothing needs. -/
def store : Store :=
  [(.ref "example.org+tool:1", .file (.text "sha256:ab\n")),
    (.ref "example.org+tool:2", .file (.text "sha256:ab")),
    (.ref "example.org+new:1", .file (.text "")), (.blob "sha256" "ab", .file (.manifest image)),
    (.blob "sha256" "c0", .file (.config "settings")), (.blob "sha256" "ff", .file (.other "old")),
    (.layer "sha256" "a1", .dir []), (.layer "sha256" "b2", .dir []),
    (.layer "sha256" ".extract-b2", .dir []), (.download ".download-ff", .file (.other ""))].foldl
    (fun s (e : Path × Node) => s.put e.1 e.2) ∅

def collected : Store × Act Unit := Prog.run (reader hub) 40 (store, gcImages)

theorem store_keys : store.keys = [.download ".download-ff", .layer "sha256" ".extract-b2", .layer "sha256" "b2",
    .layer "sha256" "a1", .blob "sha256" "ff", .blob "sha256" "c0", .blob "sha256" "ab",
    .ref "example.org+new:1", .ref "example.org+tool:2", .ref "example.org+tool:1"] := by
  rfl

theorem store_has {p : Path} (h : store.has p = true) : p ∈ store.keys := by
  rwa [← AList.mem_keys, ← AList.lookup_isSome]

theorem store_shaped : store.Shaped := by
  intro p hhas
  have hmem := store_has hhas
  rw [store_keys] at hmem
  simp only [List.mem_cons, List.not_mem_nil, or_false] at hmem
  rcases hmem with rfl | rfl | rfl | rfl | rfl | rfl | rfl | rfl | rfl | rfl
  · trivial
  · exact .inl (by decide)
  · exact .inr ⟨"sha256:b2", by decide⟩
  · exact .inr ⟨"sha256:a1", by decide⟩
  · exact ⟨"sha256:ff", by decide⟩
  · exact ⟨"sha256:c0", by decide⟩
  · exact ⟨"sha256:ab", by decide⟩
  all_goals trivial

theorem store_legible : store.Legible := by
  intro name hhas
  have hmem := store_has hhas
  rw [store_keys] at hmem
  simp only [List.mem_cons, List.not_mem_nil, or_false, reduceCtorEq, false_or, Path.ref.injEq] at hmem
  rcases hmem with rfl | rfl | rfl
  · exact ⟨"", by rfl, .inl (by rfl)⟩
  · exact ⟨"sha256:ab", by rfl, .inr ⟨image, by rfl⟩⟩
  · exact ⟨"sha256:ab\n", by rfl, .inr ⟨image, by rfl⟩⟩

theorem gc_exact_store : collected.2 = .ret () ∧
    ∀ p n, collected.1.lookup p = some n ↔ store.lookup p = some n ∧ store.InUse p := by
  have hsteps := Prog.run_steps (reader hub) 40 store gcImages
  have hret : collected.2 = .ret () := Prog.finished_iff.mp (by rfl)
  change Prog.Steps (readable hub) store gcImages collected.1 collected.2 at hsteps
  rw [hret] at hsteps
  exact ⟨hret, ((gc_exact store_shaped).1 store_legible collected.1 hsteps).1⟩

end Crowded

end Climate
