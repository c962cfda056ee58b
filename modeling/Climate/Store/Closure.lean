import Climate.Lib.Safe
import Climate.Store.Clean

/-!
# Closed stores

A store is closed when every ref resolves: its manifest is there, and so are
the settings and the layers the manifest names. `Adds` is all a pull or a
build does to a store between its steps, `Removes` all the collector does,
and `Keeps` what a pull or build needs of everyone else.
-/

namespace Climate

variable {oci : Oci}

/-- The paths a run keeps to itself until it renames what is there: nothing a
ref needs. -/
def Path.scratch : Path → Bool
  | .download _ => true
  | .layer _ name => isStaging name
  | _ => false

def blobFile (digest : String) : Option Path :=
  match digestPath digest with
  | .ok (algo, name) => some (.blob algo name)
  | .error _ => none

def layerDir (digest : String) : Option Path :=
  match digestPath digest with
  | .ok (algo, name) => some (.layer algo name)
  | .error _ => none

/-- The blob and the layers a manifest names. -/
def Manifest.parts (m : Manifest) : List Path :=
  (blobFile m.config.digest).toList ++ m.layers.filterMap fun l => layerDir l.digest

/-- All that the image filed under `digest` consists of. -/
def imageParts (digest : String) (m : Manifest) : List Path :=
  (blobFile digest).toList ++ m.parts

def Node.manifest? : Node → Option Manifest
  | .file c => c.manifest?
  | .dir _ => none

theorem blobFile_eq_some : blobFile d = some p ↔
    ∃ algo name, digestPath d = .ok (algo, name) ∧ p = .blob algo name := by
  unfold blobFile
  split
  next algo name h => simp [h, eq_comm]
  next h => simp [h]

theorem layerDir_eq_some : layerDir d = some p ↔
    ∃ algo name, digestPath d = .ok (algo, name) ∧ p = .layer algo name := by
  unfold layerDir
  split
  next algo name h => simp [h, eq_comm]
  next h => simp [h]

theorem isStaging_iff {name : String} :
    isStaging name = true ↔ ".extract-".toList <+: name.toList := by
  simp [isStaging]

theorem isStaging_stagingName (name : String) : isStaging (stagingName name) = true := by
  rw [isStaging_iff, stagingName, String.toList_append]
  exact List.prefix_append _ _

theorem isStaging_clean (h : isClean name = true) : isStaging name = false := by
  by_contra hs
  obtain ⟨rest, hr⟩ := isStaging_iff.mp (by simpa using hs)
  exact absurd (isClean_mem (x := '.') h (by rw [← hr]; simp)) (by decide)

theorem blobFile_inj (h : blobFile d = some p) (h' : blobFile d' = some p) : d = d' := by
  obtain ⟨algo, name, hd, rfl⟩ := blobFile_eq_some.mp h
  obtain ⟨_, _, hd', he⟩ := blobFile_eq_some.mp h'
  cases he
  exact digestPath_inj hd hd'

theorem blobFile_not_scratch (h : blobFile d = some p) : p.scratch = false := by
  obtain ⟨_, _, _, rfl⟩ := blobFile_eq_some.mp h
  rfl

theorem layerDir_not_scratch (h : layerDir d = some p) : p.scratch = false := by
  obtain ⟨_, _, hd, rfl⟩ := layerDir_eq_some.mp h
  exact isStaging_clean (digestPath_ok hd).2.2

theorem mem_parts {m : Manifest} : p ∈ m.parts ↔
    blobFile m.config.digest = some p ∨ ∃ l ∈ m.layers, layerDir l.digest = some p := by
  simp [Manifest.parts]

theorem mem_imageParts {m : Manifest} : p ∈ imageParts d m ↔ blobFile d = some p ∨ p ∈ m.parts := by
  simp [imageParts]

theorem parts_not_scratch {m : Manifest} (h : p ∈ m.parts) : p.scratch = false := by
  rcases mem_parts.mp h with h | ⟨l, -, h⟩
  · exact blobFile_not_scratch h
  · exact layerDir_not_scratch h

theorem blobFile_not_layer (h : blobFile d = some p) (h' : layerDir d' = some p) : False := by
  obtain ⟨_, _, _, rfl⟩ := blobFile_eq_some.mp h
  obtain ⟨_, _, _, he⟩ := layerDir_eq_some.mp h'
  cases he

namespace Store

def HasBlob (s : Store) (digest : String) : Prop := ∃ p, blobFile digest = some p ∧ s.has p = true

def HasLayer (s : Store) (digest : String) : Prop :=
  ∃ p, layerDir digest = some p ∧ s.has p = true

def manifestAt (s : Store) (digest : String) : Option Manifest :=
  (blobFile digest).bind fun p => (s.lookup p).bind Node.manifest?

/-- Everything a manifest names is there. -/
structure Parts (s : Store) (m : Manifest) : Prop where
  config : s.HasBlob m.config.digest
  layers : ∀ l ∈ m.layers, s.HasLayer l.digest

def Complete (s : Store) (digest : String) (m : Manifest) : Prop :=
  s.manifestAt digest = some m ∧ s.Parts m

/-- The digest a ref marker holds. -/
def marker (s : Store) (name : String) : Option String :=
  match s.lookup (.ref name) with
  | some (.file (.text digest)) => some digest
  | _ => none

/-- Every marker that holds a digest resolves. -/
def Closed (s : Store) : Prop :=
  ∀ name digest, s.marker name = some digest → digest ≠ "" → ∃ m, s.Complete digest m

/-- What is filed under a registry's digest is what the digest names. -/
def Addressed (oci : Oci) (s : Store) : Prop := ∀ p n, s.lookup p = some n → oci.Admits p n

structure Valid (oci : Oci) (s : Store) : Prop where
  addressed : s.Addressed oci
  closed : s.Closed

/-- Nothing but scratch paths differs. -/
def SameKept (s s' : Store) : Prop := ∀ p, p.scratch = false → s'.lookup p = s.lookup p

/-- A complete image, all of it `counted` on. -/
def Counts (counted : List Path) (s : Store) (digest : String) : Prop :=
  ∃ m, s.Complete digest m ∧ imageParts digest m ⊆ counted

/-- `s'` has all `s` has. New markers, and manifests filed anew at `mine`,
stand for images that are complete. -/
structure Adds (mine counted : List Path) (s s' : Store) : Prop where
  kept : ∀ p, p.scratch = false → s.has p = true → s'.has p = true
  manifests : ∀ d m, s.manifestAt d = some m → s'.manifestAt d = some m ∨
    (∃ p ∈ mine, blobFile d = some p) ∧ s'.Counts counted d
  markers : ∀ name d, s'.marker name = some d → s.marker name = some d ∨ s'.Counts counted d

/-- `s'` lacks some of what `s` has, none of it `spared`. -/
structure Removes (spared : List Path) (s s' : Store) : Prop where
  kept : ∀ p ∈ spared, s.has p = true → s'.has p = true
  blobs : ∀ algo name, s'.lookup (.blob algo name) = s.lookup (.blob algo name) ∨
    s'.lookup (.blob algo name) = none
  refs : ∀ name, s'.lookup (.ref name) = s.lookup (.ref name)

/-- What is `counted` on is there as before. A built image's manifest stays
the same where it is one of `mine`, a registry's always. -/
structure Keeps (mine counted : List Path) (s s' : Store) : Prop where
  kept : ∀ p ∈ counted, s.has p = true → s'.has p = true
  manifests : ∀ d m p, blobFile d = some p → p ∈ counted → (Built d → p ∈ mine) →
    s.manifestAt d = some m → s'.manifestAt d = some m

-- ---------------------------------------------------------------------------
-- What a manifest names
-- ---------------------------------------------------------------------------

theorem manifestAt_eq_some {s : Store} : s.manifestAt d = some m ↔
    ∃ p, blobFile d = some p ∧ ∃ n, s.lookup p = some n ∧ n.manifest? = some m := by
  simp [manifestAt, Option.bind_eq_some_iff]

theorem manifestAt_congr {s s' : Store} (h : ∀ p, blobFile d = some p → s'.lookup p = s.lookup p) :
    s'.manifestAt d = s.manifestAt d := by
  unfold manifestAt
  cases hd : blobFile d with
  | none => rfl
  | some p => simp [h p hd]

theorem manifestAt_has {s : Store} (h : s.manifestAt d = some m) (hp : blobFile d = some p) :
    s.has p = true := by
  obtain ⟨q, hq, n, hn, -⟩ := manifestAt_eq_some.mp h
  rw [hp] at hq
  cases hq
  exact has_iff.mpr ⟨n, hn⟩

theorem manifestAt_ne_empty {s : Store} (h : s.manifestAt d = some m) : d ≠ "" := by
  rintro rfl
  obtain ⟨p, hp, -⟩ := manifestAt_eq_some.mp h
  simp [show blobFile "" = none by decide] at hp

theorem Parts.imp {s s' : Store} (h : s.Parts m)
    (hk : ∀ p ∈ m.parts, s.has p = true → s'.has p = true) : s'.Parts m where
  config := by
    obtain ⟨p, hp, hs⟩ := h.config
    exact ⟨p, hp, hk p (mem_parts.mpr (.inl hp)) hs⟩
  layers l hl := by
    obtain ⟨p, hp, hs⟩ := h.layers l hl
    exact ⟨p, hp, hk p (mem_parts.mpr (.inr ⟨l, hl, hp⟩)) hs⟩

theorem Complete.has {s : Store} (h : s.Complete d m) (hp : p ∈ imageParts d m) :
    s.has p = true := by
  rcases mem_imageParts.mp hp with hp | hp
  · exact manifestAt_has h.1 hp
  rcases mem_parts.mp hp with hp | ⟨l, hl, hp⟩
  · obtain ⟨q, hq, hs⟩ := h.2.config
    rw [hp] at hq
    cases hq
    exact hs
  · obtain ⟨q, hq, hs⟩ := h.2.layers l hl
    rw [hp] at hq
    cases hq
    exact hs

theorem Complete.imp {s s' : Store} (h : s.Complete d m)
    (hk : ∀ p ∈ imageParts d m, s.has p = true → s'.has p = true)
    (hm : s'.manifestAt d = s.manifestAt d) : s'.Complete d m :=
  ⟨hm.trans h.1, h.2.imp fun p hp => hk p (mem_imageParts.mpr (.inr hp))⟩

theorem Addressed.put {s : Store} (h : s.Addressed oci) (ha : oci.Admits p n) :
    (s.put p n).Addressed oci := by
  intro q n' hq
  by_cases hqp : q = p
  · subst hqp
    rw [lookup_put_self] at hq
    exact Option.some.inj hq ▸ ha
  · exact h q n' (by rwa [lookup_put_other s n hqp] at hq)

theorem Addressed.remove {s : Store} (h : s.Addressed oci) : (s.remove p).Addressed oci := by
  intro q n hq
  by_cases hqp : q = p
  · subst hqp; simp at hq
  · exact h q n (by rwa [lookup_remove_other s hqp] at hq)

/-- A registry's manifest is known by its digest alone. -/
theorem Addressed.manifestAt {s : Store} (h : s.Addressed oci) (hb : ¬ Built d)
    (hm : s.manifestAt d = some m) : oci.content d = .manifest m := by
  obtain ⟨p, hp, n, hn, hnm⟩ := manifestAt_eq_some.mp hm
  obtain ⟨algo, name, hd, rfl⟩ := blobFile_eq_some.mp hp
  have halgo : algo ≠ buildAlgo := fun he => hb ⟨name, he ▸ (digestPath_ok hd).1⟩
  cases n with
  | dir t => simp [Node.manifest?] at hnm
  | file c =>
    have hc := h _ _ hn algo name c rfl rfl halgo
    rw [← (digestPath_ok hd).1] at hc
    subst hc
    cases hcon : oci.content d <;> simp_all [Node.manifest?, Content.manifest?]

-- ---------------------------------------------------------------------------
-- The relations between stores
-- ---------------------------------------------------------------------------

theorem SameKept.has {s s' : Store} (h : s.SameKept s') (hp : p.scratch = false) :
    s'.has p = s.has p := by
  simp [Store.has, h p hp]

theorem SameKept.manifestAt {s s' : Store} (h : s.SameKept s') (d : String) :
    s'.manifestAt d = s.manifestAt d :=
  manifestAt_congr fun p hp => h p (blobFile_not_scratch hp)

theorem SameKept.marker {s s' : Store} (h : s.SameKept s') (name : String) :
    s'.marker name = s.marker name := by
  simp [Store.marker, h (.ref name) rfl]

theorem SameKept.remove {s : Store} (hp : p.scratch = true) : s.SameKept (s.remove p) := by
  intro q hq
  exact lookup_remove_other s (by rintro rfl; simp [hp] at hq)

theorem SameKept.put {s : Store} (hp : p.scratch = true) : s.SameKept (s.put p n) := by
  intro q hq
  exact lookup_put_other s n (by rintro rfl; simp [hp] at hq)

theorem SameKept.addressed {s s' : Store} (h : s.SameKept s') (ha : s.Addressed oci) :
    s'.Addressed oci := by
  intro p n hn algo name c hp
  subst hp
  exact ha _ n (h (.blob algo name) rfl ▸ hn) algo name c rfl

theorem SameKept.adds {s s' : Store} (h : s.SameKept s') : Adds mine counted s s' where
  kept p hp hs := by rwa [h.has hp]
  manifests d m hm := .inl (by rwa [h.manifestAt])
  markers name d hm := .inl (by rwa [h.marker] at hm)

theorem SameKept.adds_trans {s t s' : Store} (h : s.SameKept t) (h' : Adds mine counted t s') :
    Adds mine counted s s' where
  kept p hp hs := h'.kept p hp (by rwa [h.has hp])
  manifests d m hm := h'.manifests d m (by rwa [h.manifestAt])
  markers name d hm := h.marker name ▸ h'.markers name d hm

theorem manifestAt_put_other {s : Store} (h : ∀ q, blobFile d = some q → q ≠ p) :
    (s.put p n).manifestAt d = s.manifestAt d :=
  manifestAt_congr fun q hq => lookup_put_other s n (h q hq)

theorem manifestAt_put_self {s : Store} (h : blobFile d = some p) :
    (s.put p n).manifestAt d = n.manifest? := by
  simp [manifestAt, h]

theorem Adds.put {s : Store}
    (hblob : ∀ d m, blobFile d = some p → s.manifestAt d = some m →
      n.manifest? = some m ∨ p ∈ mine ∧ (s.put p n).Counts counted d)
    (href : ∀ name d, p = .ref name → n = .file (.text d) → (s.put p n).Counts counted d) :
    Adds mine counted s (s.put p n) where
  kept q _ hs := (has_put s p q n).mpr (.inr hs)
  manifests d m hm := by
    by_cases hd : blobFile d = some p
    · rcases hblob d m hd hm with hn | ⟨hp, hc⟩
      · exact .inl (by rw [manifestAt_put_self hd, hn])
      · exact .inr ⟨⟨p, hp, hd⟩, hc⟩
    · rw [manifestAt_put_other (by rintro q hq rfl; exact hd hq)]
      exact .inl hm
  markers name d hm := by
    by_cases hp : p = .ref name
    · subst hp
      simp only [marker, lookup_put_self] at hm
      refine .inr (href name d rfl ?_)
      split at hm <;> simp_all
    · left
      simpa [marker, lookup_put_other s n (Ne.symm hp)] using hm

theorem Adds.complete {s s' : Store} (h : Adds mine counted s s') (hc : s.Complete d m) :
    ∃ m', s'.Complete d m' := by
  rcases h.manifests d m hc.1 with hm | ⟨-, m', hm', -⟩
  · exact ⟨m, hm, hc.2.imp fun p hp hs => h.kept p (parts_not_scratch hp) hs⟩
  · exact ⟨m', hm'⟩

theorem Adds.closed {s s' : Store} (h : Adds mine counted s s') (hc : s.Closed) : s'.Closed := by
  intro name d hm hd
  rcases h.markers name d hm with hm | ⟨m, hm, -⟩
  · obtain ⟨m, hm⟩ := hc name d hm hd
    exact h.complete hm
  · exact ⟨m, hm⟩

theorem Adds.keeps {s s' : Store} (h : Adds mine counted s s')
    (hs : ∀ p ∈ others, p.scratch = false) (hb : ∀ p ∈ mine, ∀ d, blobFile d = some p → Built d)
    (hd : ∀ p ∈ theirs, p ∉ mine) : Keeps theirs others s s' where
  kept p hp := h.kept p (hs p hp)
  manifests d m p hp _ hown hm := by
    rcases h.manifests d m hm with hm | ⟨⟨q, hq, hdq⟩, -⟩
    · exact hm
    · rw [hp] at hdq
      cases hdq
      exact absurd hq (hd p (hown (hb p hq d hp)))

theorem Removes.keeps {s s' : Store} (h : Removes spared s s') (hs : counted ⊆ spared) :
    Keeps mine counted s s' where
  kept p hp := h.kept p (hs hp)
  manifests d m p hd hp _ hm := by
    rw [← hm]
    refine manifestAt_congr fun q hq => ?_
    rw [hd] at hq
    cases hq
    obtain ⟨n, hn⟩ := has_iff.mp (h.kept p (hs hp) (manifestAt_has hm hd))
    obtain ⟨algo, name, -, rfl⟩ := blobFile_eq_some.mp hd
    refine (h.blobs algo name).resolve_right fun hnone => ?_
    rw [hnone] at hn
    cases hn

theorem Keeps.refl (mine counted : List Path) (s : Store) : Keeps mine counted s s :=
  ⟨fun _ _ h => h, fun _ _ _ _ _ _ h => h⟩

theorem Keeps.trans {a b c : Store} (h : Keeps mine counted a b) (h' : Keeps mine counted b c) :
    Keeps mine counted a c where
  kept p hp hs := h'.kept p hp (h.kept p hp hs)
  manifests d m p hd hp hb hm := h'.manifests d m p hd hp hb (h.manifests d m p hd hp hb hm)

theorem Keeps.mono {s s' : Store} (h : Keeps mine counted s s') (hm : own ⊆ mine)
    (hs : few ⊆ counted) : Keeps own few s s' where
  kept p hp := h.kept p (hs hp)
  manifests d m p hd hp hb := h.manifests d m p hd (hs hp) fun hbd => hm (hb hbd)

end Store

-- ---------------------------------------------------------------------------
-- Operations
-- ---------------------------------------------------------------------------

/-- An operation that only looks, or touches scratch paths alone. -/
def Op.quiet : Op → Bool
  | .storeExists | .exists _ | .isDir _ | .read _ | .readDir _ | .createDirAll _ | .uniqueId
  | .manifest _ | .manifestRaw _ | .runContainer _ => true
  | .removeFile p | .removeTree p | .createTree p | .unpackEntry p _ | .download p _
  | .runScript p _ _ _ => p.scratch
  | .write .. | .truncate _ | .fill .. | .rename .. => false

theorem OrFails.cases {r : Except IoError α} {done : α → Prop} (h : OrFails r s s' done) :
    (∃ a, r = .ok a ∧ done a) ∨ s' = s := by
  cases r with
  | ok a => exact .inl ⟨a, rfl, h⟩
  | error e => exact .inr h

theorem OrPartly.cases {r : Except IoError α} (h : OrPartly r s s' done partly) :
    done ∨ partly ∨ s' = s := by
  cases r with
  | ok a => exact .inl h
  | error e => exact h.elim (fun h => .inr (.inr h)) fun h => .inr (.inl h)

theorem Op.quiet_effect {op : Op} {r : op.Res} {s s' : Store} (hq : op.quiet = true)
    (he : op.effect oci s r s') : s.SameKept s' := by
  have same : ∀ {s' : Store}, s' = s → s.SameKept s' := by
    rintro _ rfl p _
    rfl
  have put : ∀ {s' : Store} {p n}, p.scratch = true → s' = s.put p n → s.SameKept s' := by
    rintro _ p n hp rfl
    exact .put hp
  have remove : ∀ {s' : Store} {p}, p.scratch = true → s' = s.remove p → s.SameKept s' := by
    rintro _ p hp rfl
    exact .remove hp
  cases op with
  | storeExists | «exists» p | isDir p | read p | readDir d | uniqueId | manifest ref
  | manifestRaw d =>
    exact same he.1
  | createDirAll d | runContainer dirs => exact same he
  | write p c | truncate p | fill p c | rename p q => cases hq
  | removeFile p =>
    rcases OrFails.cases he with ⟨_, -, -, h⟩ | h
    · exact remove hq h
    · exact same h
  | removeTree p =>
    rcases OrPartly.cases he with h | ⟨_, _, -, -, h⟩ | h
    · exact remove hq h
    · exact put hq h
    · exact same h
  | createTree p =>
    rcases OrFails.cases he with ⟨_, -, ⟨-, h⟩ | ⟨-, h⟩⟩ | h
    · exact same h
    · exact put hq h
    · exact same h
  | unpackEntry p e =>
    rcases OrPartly.cases he with ⟨t, -, h⟩ | ⟨t, _, -, h⟩ | h
    · exact put hq h
    · exact put hq h
    · exact same h
  | download p d =>
    rcases OrPartly.cases he with ⟨-, h, -⟩ | ⟨-, c, h⟩ | h
    · exact put hq h
    · exact put hq h
    · exact same h
  | runScript p work dirs script =>
    obtain ⟨t, ⟨-, h⟩ | h⟩ := he
    · exact put hq h
    · exact same h

end Climate
