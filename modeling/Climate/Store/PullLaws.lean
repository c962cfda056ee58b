import Climate.Store.Build
import Climate.Store.Closure

/-!
# Pulls and builds only add

Along with the store, a pull or build is followed with what it has been told
to count on: the image the registry named, the base it read, the id it was
given. As long as everyone else leaves that alone, each of its steps adds to
the store and each ref it records stands for a complete image.
-/

namespace Climate

variable {oci : Oci} {own : Bool}

/-- A store, what a run counts on there and the blobs that are its own. -/
structure Noted where
  store : Store
  counted : List Path := []
  mine : List Path := []

/-- What the reply to an operation makes a run count on. -/
def Op.uses : (op : Op) → op.Res → List Path
  | .manifest _, .ok (m, d) => imageParts d m
  | .read _, .ok (.manifest m) => m.parts
  | .uniqueId, id =>
    let digest := digestOf buildAlgo (dashless id)
    (blobFile digest).toList ++ (layerDir digest).toList
  | _, _ => []

def Op.makes : (op : Op) → op.Res → List Path
  | .uniqueId, id => (blobFile (digestOf buildAlgo (dashless id))).toList
  | _, _ => []

def noted (oci : Oci) : Effects disk Noted := fun op c r c' =>
  op.effect oci c.store r c'.store ∧ c'.counted = op.uses r ++ c.counted ∧
    c'.mine = op.makes r ++ c.mine

namespace Noted

structure Ok (oci : Oci) (c : Noted) : Prop where
  valid : c.store.Valid oci
  counted : ∀ p ∈ c.counted, p.scratch = false
  mine : ∀ p ∈ c.mine, ∀ d, blobFile d = some p → Built d

/-- What everyone else may do. -/
structure Undisturbed (c c' : Noted) : Prop where
  counted : c.counted ⊆ c'.counted
  mine : c.mine ⊆ c'.mine
  keeps : Store.Keeps c.mine c.counted c.store c'.store

/-- What a run does. A build files a manifest of its `own`. -/
structure Extends (own : Bool) (c c' : Noted) : Prop where
  counted : c.counted ⊆ c'.counted
  mine : c.mine ⊆ c'.mine
  adds : Store.Adds (if own then c'.mine else []) c'.counted c.store c'.store

/-- What both have in common. -/
structure Grows (c c' : Noted) : Prop where
  counted : c.counted ⊆ c'.counted
  mine : c.mine ⊆ c'.mine
  kept : ∀ p ∈ c.counted, c.store.has p = true → c'.store.has p = true

theorem Undisturbed.refl (c : Noted) : c.Undisturbed c :=
  ⟨fun _ h => h, fun _ h => h, .refl _ _ _⟩

theorem Undisturbed.trans (a b c : Noted) (h : a.Undisturbed b) (h' : b.Undisturbed c) :
    a.Undisturbed c where
  counted := List.Subset.trans h.counted h'.counted
  mine := List.Subset.trans h.mine h'.mine
  keeps := h.keeps.trans (h'.keeps.mono h.mine h.counted)

theorem Undisturbed.grows {c c' : Noted} (h : c.Undisturbed c') : c.Grows c' :=
  ⟨h.counted, h.mine, h.keeps.kept⟩

theorem Extends.grows {c c' : Noted} (h : c.Extends own c') (hi : c.Ok oci) : c.Grows c' :=
  ⟨h.counted, h.mine, fun p hp => h.adds.kept p (hi.counted p hp)⟩

/-- The tasks of a pull do not disturb each other. -/
theorem Extends.undisturbed {c c' : Noted} (h : c.Extends false c') (hi : c.Ok oci) :
    c.Undisturbed c' :=
  ⟨h.counted, h.mine, h.adds.keeps hi.counted (by simp) (by simp)⟩

end Noted

-- ---------------------------------------------------------------------------
-- One operation
-- ---------------------------------------------------------------------------

theorem uses_not_scratch {op : Op} {r : op.Res} (h : p ∈ op.uses r) : p.scratch = false := by
  unfold Op.uses at h
  split at h
  · rcases mem_imageParts.mp h with h | h
    · exact blobFile_not_scratch h
    · exact parts_not_scratch h
  · exact parts_not_scratch h
  · rcases List.mem_append.mp h with h | h
    · exact blobFile_not_scratch (Option.mem_toList.mp h)
    · exact layerDir_not_scratch (Option.mem_toList.mp h)
  · cases h

theorem makes_built {op : Op} {r : op.Res} (h : p ∈ op.makes r) (hd : blobFile d = some p) :
    Built d := by
  unfold Op.makes at h
  split at h
  next id => exact ⟨dashless id, blobFile_inj hd (Option.mem_toList.mp h)⟩
  · cases h

namespace Noted

/-- A step that adds to the store keeps the invariant, provided it files
things where they belong. -/
theorem step_ok {op : Op} {r : op.Res} {c c' : Noted} (hi : c.Ok oci) (he : noted oci op c r c')
    (ha : c'.store.Addressed oci)
    (hadds : Store.Adds (if own then c'.mine else []) c'.counted c.store c'.store) :
    c'.Ok oci ∧ c.Extends own c' := by
  obtain ⟨-, hcounted, hmine⟩ := he
  refine ⟨⟨⟨ha, hadds.closed hi.valid.closed⟩, fun p hp => ?_, fun p hp d hd => ?_⟩, ?_, ?_, hadds⟩
  · rw [hcounted] at hp
    exact (List.mem_append.mp hp).elim uses_not_scratch (hi.counted p)
  · rw [hmine] at hp
    exact (List.mem_append.mp hp).elim (fun hp => makes_built hp hd) (hi.mine p · d hd)
  · rw [hcounted]; exact List.subset_append_right _ _
  · rw [hmine]; exact List.subset_append_right _ _

theorem quiet_ok {op : Op} {r : op.Res} {c c' : Noted} (hq : op.quiet = true) (hi : c.Ok oci)
    (he : noted oci op c r c') : c'.Ok oci ∧ c.Extends own c' :=
  have hs := Op.quiet_effect hq he.1
  step_ok hi he (hs.addressed hi.valid.addressed) hs.adds

theorem same_ok {op : Op} {r : op.Res} {c c' : Noted} (hi : c.Ok oci) (he : noted oci op c r c')
    (hs : c'.store = c.store) : c'.Ok oci ∧ c.Extends own c' :=
  have hsame : c.store.SameKept c'.store := by rw [hs]; exact fun _ _ => rfl
  step_ok hi he (hsame.addressed hi.valid.addressed) hsame.adds

end Noted

/-- A program all of whose steps add to the store, as long as it is left
undisturbed, and which ends in `post`. -/
abbrev Adding (oci : Oci) (own : Bool) (post : α → Noted → Prop) (c : Noted) (p : Act α) : Prop :=
  Prog.Safe (noted oci) (Noted.Ok oci) Noted.Undisturbed (Noted.Extends own) post c p

namespace Adding

open Noted

theorem bind {p : Act α} {f : α → Act β} {Q : α → Noted → Prop} {post : β → Noted → Prop}
    (h : Adding oci own Q c p) (hi : c.Ok oci)
    (hf : ∀ a c', c'.Ok oci → Q a c' → Adding oci own post c' (f a)) :
    Adding oci own post c (p >>= f) := Prog.Safe.bind Undisturbed.refl h hi hf

/-- Facts that hold on as the store grows are still there after a program. -/
theorem keep {p : Act α} {post : α → Noted → Prop} {known : Noted → Prop}
    (h : Adding oci own post c p) (hk : ∀ c c', Grows c c' → known c → known c') (hc : known c) :
    Adding oci own (fun a c => post a c ∧ known c) c p :=
  h.frame (fun _ _ hu => hk _ _ hu.grows) (fun _ _ hi hg => hk _ _ (hg.grows hi)) hc

theorem ret {post : α → Noted → Prop} (hc : post a c)
    (hk : ∀ c', c.Undisturbed c' → post a c → post a c') : Adding oci own post c (.ret a) :=
  Prog.Safe.ret fun c' _ hr => hk c' hr hc

theorem pure {known : α → Prop} (h : known a) : Adding oci own (fun a _ => known a) c (.ret a) :=
  Prog.Safe.ret fun _ _ _ => h

theorem ofExcept {x : Except String α} : Adding oci own (fun a _ => x = .ok a) c (Prog.ofExcept x) :=
  Prog.Safe.ofExcept fun _ _ hx _ _ => hx

/-- An operation that only looks, or touches scratch paths. -/
theorem quiet {op : Op} {read : op.Res → Except String α} {post : α → Noted → Prop}
    (hq : op.quiet = true)
    (hpost : ∀ c₁ r c₂ a, c.Undisturbed c₁ → noted oci op c₁ r c₂ → read r = .ok a → post a c₂)
    (hstable : ∀ a c c', c.Undisturbed c' → post a c → post a c') :
    Adding oci own post c (Prog.ask op read) := by
  refine Prog.Safe.ask (fun c₁ r c₂ hi _ he => quiet_ok hq hi he) ?_
  intro c₁ r c₂ c₃ a _ hc he hr _ hu
  exact hstable a c₂ c₃ hu (hpost c₁ r c₂ a hc he hr)

theorem quiet_any {op : Op} {read : op.Res → Except String α} (hq : op.quiet = true) :
    Adding oci own (fun _ _ => True) c (Prog.ask op read) :=
  quiet hq (fun _ _ _ _ _ _ _ => trivial) fun _ _ _ _ _ => trivial

end Adding

-- ---------------------------------------------------------------------------
-- What a run has found
-- ---------------------------------------------------------------------------

namespace Noted

def Counted (file : Option Path) (c : Noted) : Prop := ∀ p, file = some p → p ∈ c.counted

/-- Counted on and there. -/
def Held (file : Option Path) (c : Noted) : Prop :=
  ∃ p, file = some p ∧ p ∈ c.counted ∧ c.store.has p = true

structure HeldParts (m : Manifest) (c : Noted) : Prop where
  config : Held (blobFile m.config.digest) c
  layers : ∀ l ∈ m.layers, Held (layerDir l.digest) c

/-- The manifest is filed under its digest, where no one else replaces it. -/
structure Filed (d : String) (m : Manifest) (c : Noted) : Prop where
  path : ∃ p, blobFile d = some p ∧ p ∈ c.counted ∧ (Built d → p ∈ c.mine)
  manifest : c.store.manifestAt d = some m

theorem Counted.grows (h : Grows c c') (hc : Counted file c) : Counted file c' :=
  fun p hp => h.counted (hc p hp)

theorem Held.grows (h : Grows c c') (hc : Held file c) : Held file c' := by
  obtain ⟨p, hp, hmem, hs⟩ := hc
  exact ⟨p, hp, h.counted hmem, h.kept p hmem hs⟩

theorem HeldParts.grows (h : Grows c c') (hc : HeldParts m c) : HeldParts m c' :=
  ⟨hc.config.grows h, fun l hl => (hc.layers l hl).grows h⟩

theorem Filed.undisturbed (h : Undisturbed c c') (hc : Filed d m c) : Filed d m c' := by
  obtain ⟨⟨p, hp, hmem, hb⟩, hm⟩ := hc
  exact ⟨⟨p, hp, h.counted hmem, fun hd => h.mine (hb hd)⟩, h.keeps.manifests d m p hp hmem hb hm⟩

theorem HeldParts.parts (h : HeldParts m c) : c.store.Parts m := by
  refine ⟨?_, fun l hl => ?_⟩
  · obtain ⟨p, hp, -, hs⟩ := h.config
    exact ⟨p, hp, hs⟩
  · obtain ⟨p, hp, -, hs⟩ := h.layers l hl
    exact ⟨p, hp, hs⟩

theorem HeldParts.subset (h : HeldParts m c) : m.parts ⊆ c.counted := by
  intro p hp
  rcases mem_parts.mp hp with hp | ⟨l, hl, hp⟩
  · obtain ⟨q, hq, hmem, -⟩ := h.config
    rw [hp] at hq
    cases hq
    exact hmem
  · obtain ⟨q, hq, hmem, -⟩ := h.layers l hl
    rw [hp] at hq
    cases hq
    exact hmem

theorem Counted.config {m : Manifest} (h : m.parts ⊆ c.counted) : Counted (blobFile m.config.digest) c :=
  fun _ hp => h (mem_parts.mpr (.inl hp))

theorem Counted.layer {m : Manifest} {l : Descriptor} (h : m.parts ⊆ c.counted) (hl : l ∈ m.layers) :
    Counted (layerDir l.digest) c := fun _ hp => h (mem_parts.mpr (.inr ⟨l, hl, hp⟩))

theorem noted_counted {op : Op} {r : op.Res} {c c' : Noted} (he : noted oci op c r c') :
    c.counted ⊆ c'.counted := by
  rw [he.2.1]
  exact List.subset_append_right _ _

end Noted

-- ---------------------------------------------------------------------------
-- Small functions
-- ---------------------------------------------------------------------------

open Noted

theorem blobPath_adds : Adding oci own (fun p _ => blobFile digest = some p) c (blobPath digest) := by
  unfold blobPath
  refine Adding.ofExcept.weaken fun p _ _ hp => ?_
  cases hd : digestPath digest with
  | error e => simp [hd, Except.map] at hp
  | ok q => exact blobFile_eq_some.mpr ⟨q.1, q.2, hd, by simpa [hd, Except.map, eq_comm] using hp⟩

theorem layerPath_adds :
    Adding oci own (fun p _ => layerDir digest = some p) c (layerPath digest) := by
  unfold layerPath
  refine Adding.ofExcept.weaken fun p _ _ hp => ?_
  cases hd : digestPath digest with
  | error e => simp [hd, Except.map] at hp
  | ok q => exact layerDir_eq_some.mpr ⟨q.1, q.2, hd, by simpa [hd, Except.map, eq_comm] using hp⟩

theorem createParent_adds : Adding oci own (fun _ _ => True) c (createParent path) :=
  .quiet_any rfl

theorem removeTree_adds (h : path.scratch = true) :
    Adding oci own (fun _ _ => True) c (removeTree path) := .quiet_any h

theorem createTree_adds (h : path.scratch = true) :
    Adding oci own (fun _ _ => True) c (createTree path) := .quiet_any h

theorem exists_adds (hc : path ∈ counted c) :
    Adding oci own (fun b c => b = true → Held (some path) c) c (exists_ path) := by
  refine .quiet rfl (fun c₁ r c₂ b hu he hr hb => ?_) fun b c c' hu hp hb => (hp hb).grows hu.grows
  obtain ⟨⟨hs, hr'⟩, -⟩ := id he
  have hrb : r = b := Except.ok.inj hr
  refine ⟨path, rfl, noted_counted he (hu.counted hc), ?_⟩
  rw [hs, ← hr', hrb, hb]

theorem hasBlob_adds (hi : c.Ok oci) (hc : Counted (blobFile digest) c) :
    Adding oci own (fun b c => b = true → Held (blobFile digest) c) c (hasBlob digest) := by
  refine (blobPath_adds.keep (fun _ _ h hc => hc.grows h) hc).bind hi ?_
  rintro p c hi ⟨hp, hc⟩
  exact (exists_adds (hc p hp)).weaken fun b c _ h hb => hp ▸ h hb

theorem hasLayer_adds (hi : c.Ok oci) (hc : Counted (layerDir digest) c) :
    Adding oci own (fun b c => b = true → Held (layerDir digest) c) c (hasLayer digest) := by
  refine (layerPath_adds.keep (fun _ _ h hc => hc.grows h) hc).bind hi ?_
  rintro p c hi ⟨hp, hc⟩
  exact (exists_adds (hc p hp)).weaken fun b c _ h hb => hp ▸ h hb

theorem tempPath_adds (hi : c.Ok oci) :
    Adding oci own (fun p _ => p.scratch = true) c (tempPath tag) := by
  refine Adding.bind (.quiet_any rfl) hi fun _ c hi _ => ?_
  refine Adding.bind (.quiet_any rfl) hi fun id c hi _ => ?_
  exact .pure rfl

-- ---------------------------------------------------------------------------
-- Writing and renaming
-- ---------------------------------------------------------------------------

/-- A scratch file or directory takes its final name. A registry's blob is
only ever replaced by the same blob. -/
theorem Noted.rename_ok {c c' : Noted} {r : Except IoError Unit} (hi : c.Ok oci)
    (he : noted oci (.rename p q) c r c') (hp : p.scratch = true)
    (hq : ∀ d, blobFile d = some q → ¬ Built d) (href : ∀ name, q ≠ .ref name) :
    (c'.Ok oci ∧ c.Extends own c') ∧ (r = .ok () → c'.store.has q = true) := by
  cases r with
  | error e => exact ⟨same_ok hi he he.1, fun h => by cases h⟩
  | ok u =>
    obtain ⟨hren, hadm⟩ := he.1
    obtain ⟨n, hn, hrep, hs⟩ := Store.rename_eq_some hren
    have hsame : c.store.SameKept (c.store.remove p) := .remove hp
    have hadds : Store.Adds (if own then c'.mine else []) c'.counted (c.store.remove p) c'.store := by
      rw [hs]
      refine .put (fun d m hd hm => .inl ?_) fun name d h => absurd h (href name)
      rw [hsame.manifestAt] at hm
      have hcon := hi.valid.addressed.manifestAt (hq d hd) hm
      obtain ⟨algo, name, hdp, rfl⟩ := blobFile_eq_some.mp hd
      have hdd := (digestPath_ok hdp).1
      obtain ⟨_, hq', n', hn', hman⟩ := Store.manifestAt_eq_some.mp hm
      rw [hd] at hq'
      cases hq'
      cases n' with
      | dir t => simp [Node.manifest?] at hman
      | file c' =>
        cases n with
        | dir t => simp [hn', Store.replaceable] at hrep
        | file c₀ =>
          have := hadm _ hn algo name c₀ rfl rfl fun h => hq d hd ⟨name, h ▸ hdd⟩
          rw [this, ← hdd, hcon]
          rfl
    refine ⟨step_ok hi he ?_ (hsame.adds_trans hadds), fun _ => ?_⟩
    · rw [hs]
      exact hi.valid.addressed.remove.put (hadm n hn)
    · rw [hs]
      exact Store.has_iff.mpr ⟨n, Store.lookup_put_self _ _ _⟩

theorem rename_adds (hp : p.scratch = true) (hq : ∀ d, blobFile d = some q → ¬ Built d)
    (href : ∀ name, q ≠ .ref name) (hc : q ∈ c.counted) :
    Adding oci own (fun _ c => Held (some q) c) c
      (Prog.ask (.rename p q) (orFail message) : Act Unit) := by
  refine Prog.Safe.ask (fun c₁ r c₂ hi _ he => (rename_ok hi he hp hq href).1) ?_
  intro c₁ r c₂ c₃ a hi hu he hr _ hu'
  have hhas := (rename_ok hi he hp hq href : (_ ∧ c₁.Extends own c₂) ∧ _).2 (orFail_ok.mp hr)
  exact Held.grows hu'.grows ⟨q, rfl, noted_counted he (hu.counted hc), hhas⟩

theorem commitBlob_adds (hi : c.Ok oci) (hc : Counted (blobFile digest) c)
    (ht : temp.scratch = true) (hb : ¬ Built digest) :
    Adding oci own (fun _ c => Held (blobFile digest) c) c (commitBlob temp digest) := by
  refine (blobPath_adds.keep (fun _ _ h hc => hc.grows h) hc).bind hi ?_
  rintro p c hi ⟨hp, hc⟩
  refine (createParent_adds.keep (fun _ _ h hc => hc.grows h) hc).bind hi ?_
  rintro _ c hi ⟨-, hc⟩
  rw [hp]
  obtain ⟨algo, name, hd, rfl⟩ := blobFile_eq_some.mp hp
  exact rename_adds ht (fun d h => blobFile_inj h hp ▸ hb) (by simp) (hc _ hp)

theorem writeBlob_adds (hi : c.Ok oci) (hc : Counted (blobFile digest) c) (hb : ¬ Built digest)
    (hm : oci.content digest = .manifest m) :
    Adding oci own (fun _ c => Filed digest m c) c (writeBlob digest (oci.content digest)) := by
  refine (blobPath_adds.keep (fun _ _ h hc => hc.grows h) hc).bind hi ?_
  rintro p c hi ⟨hp, hc⟩
  refine (createParent_adds.keep (fun _ _ h hc => hc.grows h) hc).bind hi ?_
  rintro _ c hi ⟨-, hc⟩
  refine Prog.Safe.ask (fun c₁ r c₂ hi _ he => ?_) ?_
  · rcases OrFails.cases he.1 with ⟨_, -, -, hs, hadm⟩ | hs
    · refine step_ok hi he (hs ▸ hi.valid.addressed.put hadm) ?_
      rw [hs]
      refine .put (fun d m' hd hm' => .inl ?_) fun name d h => ?_
      · obtain rfl := blobFile_inj hd hp
        rw [hi.valid.addressed.manifestAt hb hm']
        rfl
      · subst h
        obtain ⟨_, _, -, h⟩ := blobFile_eq_some.mp hp
        cases h
    · exact same_ok hi he hs
  · intro c₁ r c₂ c₃ a hi hu he hr _ hu'
    rw [orFail_ok.mp hr] at he
    refine Filed.undisturbed hu' ⟨⟨p, hp, noted_counted he (hu.counted (hc p hp)), fun h => absurd h hb⟩, ?_⟩
    rw [he.1.2.1, Store.manifestAt_put_self hp, hm]
    rfl

theorem recordRef_adds (hi : c.Ok oci) (hf : Filed digest m c) (hp : HeldParts m c) :
    Adding oci own (fun _ _ => True) c (recordRef reference digest) := by
  refine Adding.bind (Q := fun _ c => Filed digest m c ∧ HeldParts m c) (.quiet rfl ?_ ?_) hi ?_
  · intro c₁ r c₂ a hu he _
    have hs : c₂.store = c₁.store := he.1
    have hu' : Undisturbed c₁ c₂ :=
      ⟨noted_counted he, by rw [he.2.2]; exact List.subset_append_right _ _, hs ▸ .refl _ _ _⟩
    exact ⟨(hf.undisturbed hu).undisturbed hu', (hp.grows hu.grows).grows hu'.grows⟩
  · exact fun _ c c' hu h => ⟨h.1.undisturbed hu, h.2.grows hu.grows⟩
  rintro _ c hi ⟨hf, hp⟩
  refine Prog.Safe.ask (fun c₁ r c₂ hi hu he => ?_) fun _ _ _ _ _ _ _ _ _ _ _ => trivial
  rcases OrFails.cases he.1 with ⟨_, -, -, hs, hadm⟩ | hs
  · refine step_ok hi he (hs ▸ hi.valid.addressed.put hadm) ?_
    rw [hs]
    refine .put (fun d m' hd => ?_) fun name d _ hd => ?_
    · obtain ⟨_, _, -, h⟩ := blobFile_eq_some.mp hd
      cases h
    · cases hd
      have hf := hf.undisturbed hu
      have hp := hp.grows hu.grows
      refine ⟨m, ⟨?_, hp.parts.imp fun q _ hq => (Store.has_put _ _ q _).mpr (.inr hq)⟩, ?_⟩
      · rw [Store.manifestAt_put_other, hf.manifest]
        rintro q hq rfl
        obtain ⟨_, _, -, h⟩ := blobFile_eq_some.mp hq
        cases h
      · intro q hq
        apply noted_counted he
        rcases mem_imageParts.mp hq with hq | hq
        · obtain ⟨q', hq', hmem, -⟩ := hf.path
          rw [hq] at hq'
          cases hq'
          exact hmem
        · exact hp.subset hq
  · exact same_ok hi he hs

-- ---------------------------------------------------------------------------
-- pull.rs
-- ---------------------------------------------------------------------------

theorem downloadBlob_adds (ht : temp.scratch = true) :
    Adding oci own (fun _ _ => ¬ Built digest) c (downloadBlob digest temp) := by
  refine .quiet ht (fun c₁ r c₂ a _ he hr => ?_) fun _ _ _ _ h => h
  rw [orFail_ok.mp hr] at he
  exact he.1.2.2

theorem unpack_adds (hi : c.Ok oci) (hs : staging.scratch = true) :
    Adding oci own (fun _ _ => True) c (unpack staging digest file) := by
  unfold unpack
  split
  next entries =>
    refine Adding.bind (.quiet_any hs) hi fun _ c hi _ => ?_
    exact Prog.Safe.forM Undisturbed.refl (fun _ _ => trivial) hi trivial
      fun _ _ _ _ _ => Adding.quiet_any hs
  next => exact .throw

theorem extractLayer_adds (hi : c.Ok oci) (hc : Counted (layerDir digest) c) :
    Adding oci own (fun _ c => Held (layerDir digest) c) c (extractLayer temp digest mediaType) := by
  have grows : ∀ c c', Grows c c' → Counted (layerDir digest) c → Counted (layerDir digest) c' :=
    fun _ _ h hc => hc.grows h
  refine (Adding.ofExcept.keep grows hc).bind hi ?_
  rintro ⟨algo, name⟩ c hi ⟨hd, hc⟩
  have hp : layerDir digest = some (.layer algo name) := layerDir_eq_some.mpr ⟨algo, name, hd, rfl⟩
  have hs : (Path.layer algo (stagingName name)).scratch = true := isStaging_stagingName name
  refine (createParent_adds.keep grows hc).bind hi fun _ c hi ⟨_, hc⟩ => ?_
  refine ((removeTree_adds hs).keep grows hc).bind hi fun _ c hi ⟨_, hc⟩ => ?_
  refine Adding.bind (Adding.keep (.quiet_any rfl) grows hc) hi fun file c hi ⟨_, hc⟩ => ?_
  split
  next =>
    refine ((unpack_adds hi hs).keep grows hc).bind hi fun _ c hi ⟨_, hc⟩ => ?_
    rw [hp]
    refine rename_adds hs (fun d h => ?_) (by simp) (hc _ hp)
    exact absurd hp (blobFile_not_layer h)
  next => exact .throw

theorem fetchLayer_adds {layer : Descriptor} (hi : c.Ok oci)
    (hc : Counted (layerDir layer.digest) c) :
    Adding oci own (fun _ c => Held (layerDir layer.digest) c) c (fetchLayer layer) := by
  have grows : ∀ c c', Grows c c' → Counted (layerDir layer.digest) c →
      Counted (layerDir layer.digest) c' := fun _ _ h hc => hc.grows h
  refine ((tempPath_adds hi).keep grows hc).bind hi fun temp c hi ⟨ht, hc⟩ => ?_
  refine Adding.bind (Prog.Safe.attempt (Adding.bind ((downloadBlob_adds ht).keep grows hc) hi
    fun _ c hi h => extractLayer_adds hi h.2)) hi fun result c hi hr => ?_
  have held : ∀ c c', Grows c c' → (∀ u, result = .ok u → Held (layerDir layer.digest) c) →
      ∀ u, result = .ok u → Held (layerDir layer.digest) c' := fun _ _ h hr u hu => (hr u hu).grows h
  refine Adding.bind (Adding.keep (Prog.Safe.attempt (Adding.quiet_any ht)) held hr) hi ?_
  rintro _ c hi ⟨-, hr⟩
  exact Prog.Safe.ofExcept fun u c' hu _ hd => (hr u hu).grows hd.grows

theorem pendingLayers_adds {layers : List Descriptor} (hi : c.Ok oci)
    (hc : ∀ l ∈ layers, Counted (layerDir l.digest) c) :
    Adding oci own (fun pending c => pending ⊆ layers ∧
      ∀ l ∈ layers, l ∈ pending ∨ Held (layerDir l.digest) c) c (pendingLayers layers) := by
  induction layers generalizing c with
  | nil => exact Prog.Safe.ret fun _ _ _ => ⟨fun _ h => h, fun _ h => by cases h⟩
  | cons l layers ih =>
    have grows : ∀ c c', Grows c c' → (∀ x ∈ l :: layers, Counted (layerDir x.digest) c) →
        ∀ x ∈ l :: layers, Counted (layerDir x.digest) c' := fun _ _ h hc x hx => (hc x hx).grows h
    refine ((hasLayer_adds hi (hc l (by simp))).keep grows hc).bind hi ?_
    rintro present c hi ⟨hp, hc⟩
    have found : ∀ c c', Grows c c' → (present = true → Held (layerDir l.digest) c) →
        present = true → Held (layerDir l.digest) c' := fun _ _ h hp hb => (hp hb).grows h
    refine Adding.bind (Adding.keep (ih hi fun x hx => hc x (by simp [hx])) found hp) hi ?_
    rintro pending c hi ⟨⟨hsub, hall⟩, hp⟩
    refine .ret ?_ fun c' hd ⟨hsub, hall⟩ => ⟨hsub, fun l hl => (hall l hl).imp id (·.grows hd.grows)⟩
    cases present with
    | true =>
      refine ⟨fun x hx => List.mem_cons_of_mem _ (hsub hx), fun x hx => ?_⟩
      rcases List.mem_cons.mp hx with rfl | hx
      · exact .inr (hp rfl)
      · exact hall x hx
    | false =>
      refine ⟨List.cons_subset_cons l hsub, fun x hx => ?_⟩
      rcases List.mem_cons.mp hx with rfl | hx
      · exact .inl (List.mem_cons_self ..)
      · exact (hall x hx).imp (List.mem_cons_of_mem _) id

theorem fetchConfig_adds {config : Descriptor} (hi : c.Ok oci)
    (hc : Counted (blobFile config.digest) c) :
    Adding oci own (fun _ c => Held (blobFile config.digest) c) c (fetchConfig config) := by
  have grows : ∀ c c', Grows c c' → Counted (blobFile config.digest) c →
      Counted (blobFile config.digest) c' := fun _ _ h hc => hc.grows h
  refine ((hasBlob_adds hi hc).keep grows hc).bind hi fun present c hi ⟨hp, hc⟩ => ?_
  split
  next hb => exact .ret (hp hb) fun c' hd h => h.grows hd.grows
  next =>
    refine ((tempPath_adds hi).keep grows hc).bind hi fun temp c hi ⟨ht, hc⟩ => ?_
    refine ((downloadBlob_adds ht).keep grows hc).bind hi fun _ c hi ⟨hb, hc⟩ => ?_
    exact commitBlob_adds hi hc ht hb

theorem forConcurrently_adds {l : List β} {known : β → Noted → Prop}
    (hk : ∀ b c c', Grows c c' → known b c → known b c')
    (h : ∀ b ∈ l, Adding oci false (fun _ => known b) c (f b)) :
    Adding oci false (fun _ c => ∀ b ∈ l, known b c) c (.forConcurrently limit l f) :=
  .forConcurrently (fun _ _ hi h => h.undisturbed hi) (fun b _ _ h => hk b _ _ h.grows) h

theorem fetchLayers_adds {layers : List Descriptor} (hi : c.Ok oci)
    (hc : ∀ l ∈ layers, Counted (layerDir l.digest) c) :
    Adding oci false (fun _ c => ∀ l ∈ layers, Held (layerDir l.digest) c) c (fetchLayers layers) := by
  have counted : ∀ c c', Grows c c' → (∀ l ∈ layers, Counted (layerDir l.digest) c) →
      ∀ l ∈ layers, Counted (layerDir l.digest) c' := fun _ _ h hc l hl => (hc l hl).grows h
  refine ((pendingLayers_adds hi hc).keep counted hc).bind hi fun pending c hi ⟨⟨hsub, hall⟩, hc⟩ => ?_
  have held : ∀ c c', Grows c c' → (∀ l ∈ layers, l ∈ pending ∨ Held (layerDir l.digest) c) →
      ∀ l ∈ layers, l ∈ pending ∨ Held (layerDir l.digest) c' :=
      fun _ _ h hc l hl => (hc l hl).imp id fun hl => hl.grows h
  have fork : Adding oci false (fun _ c => ∀ l ∈ pending, Held (layerDir l.digest) c) c
      (.forConcurrently maxConcurrentDownloads pending fetchLayer) :=
    forConcurrently_adds (fun _ _ _ h hc => hc.grows h) fun l hl => fetchLayer_adds hi (hc l (hsub hl))
  refine (fork.keep held hall).weaken fun _ c _ h l hl => ?_
  exact (h.2 l hl).elim (h.1 l) id

/-- What the registry named, known from its answer on. -/
structure Told (oci : Oci) (d : String) (m : Manifest) (c : Noted) : Prop where
  content : oci.content d = .manifest m
  registry : ¬ Built d
  counted : imageParts d m ⊆ c.counted

theorem Told.grows (h : Noted.Grows c c') (ht : Told oci d m c) : Told oci d m c' :=
  ⟨ht.content, ht.registry, List.Subset.trans ht.counted h.counted⟩

theorem fetchImage_adds (hi : c.Ok oci) :
    Adding oci false (fun _ _ => True) c (fetchImage reference) := by
  refine Adding.bind (Q := fun x c => Told oci x.2 x.1 c) (.quiet rfl ?_ ?_) hi ?_
  · intro c₁ r c₂ a _ he hr
    rw [orFail_ok.mp hr] at he
    obtain ⟨⟨-, hm⟩, hcounted, -⟩ := he
    refine ⟨(hm _ _ rfl).1, (hm _ _ rfl).2, ?_⟩
    rw [hcounted]
    exact List.subset_append_left _ _
  · exact fun _ _ _ hd h => h.grows hd.grows
  rintro ⟨m, d⟩ c hi ht
  have told : ∀ c c', Grows c c' → Told oci d m c → Told oci d m c' := fun _ _ h ht => ht.grows h
  refine Adding.bind (Q := fun raw c => raw = oci.content d ∧ Told oci d m c)
    (Adding.keep (.quiet rfl ?_ fun _ _ _ _ h => h) told ht) hi ?_
  · intro c₁ r c₂ a _ he hr
    rw [orFail_ok.mp hr] at he
    exact he.1.2 _ rfl
  rintro _ c hi ⟨rfl, ht⟩
  have hd : Counted (blobFile d) c := fun p hp => ht.counted (mem_imageParts.mpr (.inl hp))
  refine ((writeBlob_adds hi hd ht.registry ht.content).keep told ht).bind hi ?_
  rintro _ c hi ⟨hf, ht⟩
  -- From here on the manifest is filed, and stays so.
  have parts : ∀ {c}, Told oci d m c → m.parts ⊆ c.counted :=
    fun ht p hp => ht.counted (mem_imageParts.mpr (.inr hp))
  have filed : ∀ c c', c.Undisturbed c' → Told oci d m c ∧ Filed d m c → Told oci d m c' ∧ Filed d m c' :=
    fun _ _ h hc => ⟨hc.1.grows h.grows, hc.2.undisturbed h⟩
  have filed' : ∀ c c', c.Ok oci → c.Extends false c' → Told oci d m c ∧ Filed d m c →
      Told oci d m c' ∧ Filed d m c' := fun c c' hi he => filed c c' (he.undisturbed hi)
  refine Adding.bind ((fetchConfig_adds hi (.config (parts ht))).frame filed filed' ⟨ht, hf⟩) hi ?_
  rintro _ c hi ⟨hconfig, ht, hf⟩
  have hlayers := fetchLayers_adds hi fun l hl => .layer (parts ht) hl
  refine Adding.bind ((hlayers.keep (fun _ _ h hc => hc.grows h) hconfig).frame filed filed' ⟨ht, hf⟩)
    hi ?_
  rintro _ c hi ⟨⟨hlayers, hconfig⟩, -, hf⟩
  exact recordRef_adds hi hf ⟨hconfig, hlayers⟩

end Climate
