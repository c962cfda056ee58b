import Climate.Store.Clean
import Climate.Store.Closure

/-!
# The collector keeps what its refs need

The collector is followed with what it has to avoid: what the pulls and
builds under way since it started count on. Between its steps others may
record refs, but only for images it avoids. So once it has read the refs,
whatever a ref needs is in its live set or to be avoided.
-/

namespace Climate

variable {oci : Oci}

structure Watched where
  store : Store
  avoid : List Path

/-- The operations, as long as they remove nothing that is to be avoided. -/
def sparing (oci : Oci) : Effects disk Watched := fun op c r c' =>
  op.effect oci c.store r c'.store ∧ c'.avoid = c.avoid ∧
    ∀ p ∈ c.avoid, c.store.has p = true → c'.store.has p = true

def Live.Covers (live : Live) : Path → Prop
  | .blob algo name => digestOf algo name ∈ live.blobs
  | .layer algo name => digestOf algo name ∈ live.layers
  | _ => False

namespace Watched

/-- What everyone else may do: every ref is as before or for an image that is
to be avoided. -/
structure Follows (c c' : Watched) : Prop where
  avoid : c.avoid ⊆ c'.avoid
  markers : ∀ name d m, c'.store.marker name = some d → c'.store.manifestAt d = some m →
    imageParts d m ⊆ c'.avoid ∨ c.store.marker name = some d ∧ c.store.manifestAt d = some m

/-- What the collector does. -/
structure Sweeps (c c' : Watched) : Prop where
  avoid : c'.avoid = c.avoid
  removes : c.store.Removes c.avoid c'.store
  images : ∀ name d m, c.store.marker name = some d → c.store.manifestAt d = some m →
    ∀ p ∈ imageParts d m, c'.store.lookup p = c.store.lookup p ∨ p ∈ c.avoid

/-- Every ref but those still to be read is covered. -/
def Reads (live : Live) (todo : List String) (c : Watched) : Prop :=
  ∀ name d m, c.store.marker name = some d → c.store.manifestAt d = some m →
    name ∈ todo ∨ ∀ p ∈ imageParts d m, live.Covers p ∨ p ∈ c.avoid

theorem Follows.refl (c : Watched) : c.Follows c :=
  ⟨fun _ h => h, fun _ _ _ hn hm => .inr ⟨hn, hm⟩⟩

theorem Follows.trans (a b c : Watched) (h : a.Follows b) (h' : b.Follows c) : a.Follows c where
  avoid := List.Subset.trans h.avoid h'.avoid
  markers name d m hn hm := by
    rcases h'.markers name d m hn hm with hs | ⟨hn, hm⟩
    · exact .inl hs
    · exact (h.markers name d m hn hm).imp_left fun hs => List.Subset.trans hs h'.avoid

theorem Reads.follows {c c' : Watched} (h : c.Follows c') (hr : Reads live todo c) :
    Reads live todo c' := by
  intro name d m hn hm
  rcases h.markers name d m hn hm with hs | ⟨hn, hm⟩
  · exact .inr fun p hp => .inr (hs hp)
  · exact (hr name d m hn hm).imp_right fun hc p hp => (hc p hp).imp_right fun ha => h.avoid ha

theorem marker_removes {s s' : Store} (h : s.Removes spared s') (name : String) :
    s'.marker name = s.marker name := by
  simp [Store.marker, h.refs]

theorem manifestAt_removes {s s' : Store} (h : s.Removes spared s') (hm : s'.manifestAt d = some m) :
    s.manifestAt d = some m := by
  obtain ⟨p, hp, n, hn, hnm⟩ := Store.manifestAt_eq_some.mp hm
  obtain ⟨algo, name, -, rfl⟩ := blobFile_eq_some.mp hp
  refine Store.manifestAt_eq_some.mpr ⟨_, hp, n, ?_, hnm⟩
  rcases h.blobs algo name with heq | hnone
  · rw [← heq, hn]
  · rw [hnone] at hn
    cases hn

theorem Reads.sweeps {c c' : Watched} (h : c.Sweeps c') (hr : Reads live todo c) :
    Reads live todo c' := by
  intro name d m hn hm
  rw [marker_removes h.removes] at hn
  rw [h.avoid]
  exact hr name d m hn (manifestAt_removes h.removes hm)

/-- What it leaves behind is still valid. -/
theorem Sweeps.valid {c c' : Watched} (h : c.Sweeps c') (hs : c.store.Valid oci) :
    c'.store.Valid oci where
  addressed p n hn := by
    rintro algo name content rfl rfl
    rcases h.removes.blobs algo name with heq | hnone
    · exact hs.addressed _ _ (heq ▸ hn) algo name content rfl rfl
    · rw [hnone] at hn
      cases hn
  closed name d hn hd := by
    rw [marker_removes h.removes] at hn
    obtain ⟨m, hm⟩ := hs.closed name d hn hd
    have hkept : ∀ p ∈ imageParts d m, c'.store.has p = true := by
      intro p hp
      rcases h.images name d m hn hm.1 p hp with hsame | ha
      · simpa [Store.has, hsame] using hm.has hp
      · exact h.removes.kept p ha (hm.has hp)
    refine ⟨m, hm.imp (fun p hp _ => hkept p hp) (Store.manifestAt_congr fun p hp => ?_)⟩
    obtain ⟨algo, hex, -, rfl⟩ := blobFile_eq_some.mp hp
    refine (h.removes.blobs algo hex).resolve_right fun hnone => ?_
    obtain ⟨n, hn⟩ := Store.has_iff.mp (hkept _ (mem_imageParts.mpr (.inl hp)))
    rw [hnone] at hn
    cases hn

end Watched

-- ---------------------------------------------------------------------------
-- One operation
-- ---------------------------------------------------------------------------

namespace Watched

theorem quiet_ok {o : Op} {r : o.Res} {c c' : Watched} (hq : o.quiet = true)
    (he : sparing oci o c r c') : c.Sweeps c' := by
  have hs := Op.quiet_effect hq he.1
  refine ⟨he.2.1, ⟨he.2.2, fun algo name => .inl (hs _ rfl), fun name => hs _ rfl⟩, ?_⟩
  intro name d m _ _ p hp
  left
  rcases mem_imageParts.mp hp with hp | hp
  · exact hs p (blobFile_not_scratch hp)
  · exact hs p (parts_not_scratch hp)

/-- Taking away, in whole or in part, what no ref needs. -/
theorem sweep_ok {op : Op} {r : op.Res} {c c' : Watched} (hr : Reads live [] c)
    (he : sparing oci op c r c') (hp : ¬ live.Covers p) (href : ∀ name, p ≠ .ref name)
    (hs : c'.store = c.store ∨ c'.store = c.store.remove p ∨
      ∃ algo name t, p = .layer algo name ∧ c'.store = c.store.put p (.dir t)) :
    c.Sweeps c' := by
  have hlookup : ∀ q, q ≠ p → c'.store.lookup q = c.store.lookup q := by
    intro q hq
    rcases hs with hs | hs | ⟨_, _, _, -, hs⟩ <;> simp [hs, hq]
  refine ⟨he.2.1, ⟨he.2.2, fun algo name => ?_, fun name => ?_⟩, fun name d m hn hm q hq => ?_⟩
  · by_cases hb : Path.blob algo name = p
    · rcases hs with hs | hs | ⟨algo, name, t, rfl, -⟩
      · exact .inl (by rw [hs])
      · exact .inr (by rw [hs, hb, Store.lookup_remove_self])
      · cases hb
    · exact .inl (hlookup _ hb)
  · exact hlookup _ fun h => href name h.symm
  · refine ((hr name d m hn hm).resolve_left (by simp) q hq).imp_left fun hc => ?_
    exact hlookup q fun h => hp (h ▸ hc)

end Watched

abbrev Sweeping (oci : Oci) (post : α → Watched → Prop) (c : Watched) (p : Act α) : Prop :=
  Prog.Safe (sparing oci) (fun _ => True) Watched.Follows Watched.Sweeps post c p

namespace Sweeping

open Watched

theorem bind {p : Act α} {f : α → Act β} {Q : α → Watched → Prop} {post : β → Watched → Prop}
    (h : Sweeping oci Q c p) (hf : ∀ a c', Q a c' → Sweeping oci post c' (f a)) :
    Sweeping oci post c (p >>= f) := Prog.Safe.bind Follows.refl h trivial fun a c' _ => hf a c'

theorem keep {p : Act α} {post : α → Watched → Prop} (h : Sweeping oci post c p)
    (hr : Reads live todo c) : Sweeping oci (fun a c => post a c ∧ Reads live todo c) c p :=
  h.frame (fun _ _ hf hr => hr.follows hf) (fun _ _ _ hs hr => hr.sweeps hs) hr

theorem quiet {op : Op} {read : op.Res → Except String α} {post : α → Watched → Prop}
    (hq : op.quiet = true)
    (hpost : ∀ c₁ r c₂ a, c.Follows c₁ → sparing oci op c₁ r c₂ → read r = .ok a →
      post a c₂)
    (hstable : ∀ a c c', c.Follows c' → post a c → post a c') :
    Sweeping oci post c (Prog.ask op read) := by
  refine Prog.Safe.ask (fun c₁ r c₂ _ _ he => ⟨trivial, quiet_ok hq he⟩) ?_
  intro c₁ r c₂ c₃ a _ hc he hr _ hu
  exact hstable a c₂ c₃ hu (hpost c₁ r c₂ a hc he hr)

theorem quiet_any {op : Op} {read : op.Res → Except String α} (hq : op.quiet = true) :
    Sweeping oci (fun _ _ => True) c (Prog.ask op read) :=
  quiet hq (fun _ _ _ _ _ _ _ => trivial) fun _ _ _ _ _ => trivial

end Sweeping

-- ---------------------------------------------------------------------------
-- Reading the refs
-- ---------------------------------------------------------------------------

open Watched

theorem marker_eq_some {s : Store} :
    s.marker name = some d ↔ s.lookup (.ref name) = some (.file (.text d)) := by
  unfold Store.marker
  split
  next h => simp [h]
  next h => simpa using h d

theorem names_ok {r : Except IoError (List String)} (h : names r = .ok l) :
    r = .ok l ∨ r = .error .notFound ∧ l = [] := by
  unfold names at h
  split at h
  · cases h; exact .inr ⟨rfl, rfl⟩
  · exact .inl h

theorem entries_refs :
    Sweeping oci (fun found c => Reads {} found c) c (entries .refs) := by
  refine .quiet rfl (fun c₁ r c₂ l _ he hr => ?_) fun _ _ _ hf h => h.follows hf
  intro name d m hn _
  have hl : c₁.store.Lists .refs l := by
    rcases names_ok (orFail_ok.mp hr) with rfl | ⟨rfl, rfl⟩
    · exact he.1.2
    · exact he.1.2
  refine .inl ((hl.2 name).mpr ?_)
  rw [he.1.1] at hn
  exact Store.has_iff.mpr ⟨_, marker_eq_some.mp hn⟩

theorem entries_any {d : Dir} : Sweeping oci (fun _ _ => True) c (entries d) := .quiet_any rfl

theorem Live.Covers.add {live : Live} (h : live.Covers p) (digest : String) (m : Manifest) :
    (live.add digest m).Covers p := by
  cases p <;> simp_all [Live.Covers, Live.add]

theorem Live.add_covers {live : Live} {m : Manifest} (h : p ∈ imageParts d m) :
    (live.add d m).Covers p := by
  rcases mem_imageParts.mp h with h | h
  · obtain ⟨algo, name, hd, rfl⟩ := blobFile_eq_some.mp h
    simp [Live.Covers, Live.add, ← (digestPath_ok hd).1]
  rcases mem_parts.mp h with h | ⟨l, hl, h⟩
  · obtain ⟨algo, name, hd, rfl⟩ := blobFile_eq_some.mp h
    simp [Live.Covers, Live.add, ← (digestPath_ok hd).1]
  · obtain ⟨algo, name, hd, rfl⟩ := layerDir_eq_some.mp h
    simp only [Live.Covers, Live.add, ← (digestPath_ok hd).1]
    exact List.mem_append_left _ (List.mem_map_of_mem hl)

theorem isWhitespace_alphanum (h : c.isAlphanum = true) : isWhitespace c = false := by
  have hval : 48 ≤ c.toNat ∧ c.toNat ≤ 122 := by
    change ((decide (65 ≤ c.val ∧ c.val ≤ 90) || 97 ≤ c.val && c.val ≤ 122) || 48 ≤ c.val && c.val ≤ 57) =
      true at h
    simp only [Bool.or_eq_true, Bool.and_eq_true, decide_eq_true_eq] at h
    have hn : c.toNat = c.val.toNat := rfl
    simp only [UInt32.le_iff_toNat_le, ← hn] at h
    rcases h with (h | h) | h <;> exact ⟨by have := h.1; have := h.2; simp at *; omega,
      by have := h.1; have := h.2; simp at *; omega⟩
  simp only [isWhitespace]
  simp
  omega

/-- A digest the store knows needs no trimming. -/
theorem trim_digest (h : blobFile d = some p) : trim d = d := by
  obtain ⟨algo, name, hd, -⟩ := blobFile_eq_some.mp h
  obtain ⟨rfl, ha, hn⟩ := digestPath_ok hd
  refine trim_eq_self fun c hc => ?_
  rw [digestOf_toList] at hc
  rcases List.mem_append.mp hc with hc | hc
  · exact isWhitespace_alphanum (isClean_mem ha hc)
  rcases List.mem_cons.mp hc with rfl | hc
  · decide
  · exact isWhitespace_alphanum (isClean_mem hn hc)

/-- The marker still holds `digest`, or is for an image to be avoided. -/
def Marked (name digest : String) (c : Watched) : Prop :=
  ∀ d m, c.store.marker name = some d → c.store.manifestAt d = some m →
    d = digest ∨ imageParts d m ⊆ c.avoid

/-- Likewise, and the digest's manifest is `m`. -/
def Resolved (name digest : String) (m : Manifest) (c : Watched) : Prop :=
  ∀ d m', c.store.marker name = some d → c.store.manifestAt d = some m' →
    (d = digest ∧ m' = m) ∨ imageParts d m' ⊆ c.avoid

theorem Marked.follows {c c' : Watched} (h : c.Follows c') (hm : Marked name digest c) :
    Marked name digest c' := by
  intro d m hn hman
  rcases h.markers name d m hn hman with hs | ⟨hn, hman⟩
  · exact .inr hs
  · exact (hm d m hn hman).imp_right fun ha => List.Subset.trans ha h.avoid

theorem Resolved.follows {c c' : Watched} (h : c.Follows c') (hm : Resolved name digest m c) :
    Resolved name digest m c' := by
  intro d m' hn hman
  rcases h.markers name d m' hn hman with hs | ⟨hn, hman⟩
  · exact .inr hs
  · exact (hm d m' hn hman).imp_right fun ha => List.Subset.trans ha h.avoid

theorem Watched.Reads.marked {c : Watched} (hr : Reads live (name :: rest) c) (hm : Marked name "" c) :
    Reads live rest c := by
  intro n d m hn hman
  rcases hr n d m hn hman with hmem | hc
  · rcases List.mem_cons.mp hmem with rfl | hmem
    · have ha := (hm d m hn hman).resolve_left (Store.manifestAt_ne_empty hman)
      exact .inr fun p hp => .inr (ha hp)
    · exact .inl hmem
  · exact .inr hc

theorem Watched.Reads.add {c : Watched} (hr : Reads live (name :: rest) c) (hm : Resolved name digest m c) :
    Reads (live.add digest m) rest c := by
  intro n d m' hn hman
  rcases hr n d m' hn hman with hmem | hc
  · rcases List.mem_cons.mp hmem with rfl | hmem
    · rcases hm d m' hn hman with ⟨rfl, rfl⟩ | ha
      · exact .inr fun p hp => .inl (Live.add_covers hp)
      · exact .inr fun p hp => .inr (ha hp)
    · exact .inl hmem
  · exact .inr fun p hp => (hc p hp).imp_left fun h => h.add digest m

theorem readBlob_sweeping (hm : Marked name digest c) :
    Sweeping oci (fun content c => ∀ m, content.manifest? = some m → Resolved name digest m c) c
      (readBlob digest) := by
  unfold readBlob blobPath
  cases hd : digestPath digest with
  | error e => exact .throw
  | ok q =>
    refine .quiet rfl (fun c₁ r c₂ content hf he hr m hcon => ?_) fun _ _ _ hf h m hcon =>
      (h m hcon).follows hf
    rw [orFail_ok.mp hr] at he
    have hp : blobFile digest = some (.blob q.1 q.2) := blobFile_eq_some.mpr ⟨_, _, hd, rfl⟩
    intro d m' hn hman
    rw [he.1.1] at hn hman
    refine ((hm.follows hf) d m' hn hman).imp (fun h => ⟨h, ?_⟩) fun h => ?_
    · subst h
      have hlook : c₁.store.lookup (.blob q.1 q.2) = some (.file content) := he.1.2
      have : c₁.store.manifestAt d = some m :=
        Store.manifestAt_eq_some.mpr ⟨_, hp, _, hlook, hcon⟩
      exact Option.some.inj (hman.symm.trans this)
    · rwa [he.2.1]

theorem refContents_ok {r : Except IoError Content} (h : refContents path r = .ok digest) :
    r = .ok (.text digest) := by
  unfold refContents at h
  split at h
  next d => rw [Except.ok.inj h]
  · cases h

theorem liveRef_sweeping (hr : Reads live (name :: rest) c) :
    Sweeping oci (fun live c => Reads live rest c) c (liveRef live name) := by
  -- A marker with blanks around its digest resolves to nothing, so it may be read as trimmed.
  have hread : Sweeping oci (fun contents c => Marked name (trim contents) c) c
      (.ask (.read (.ref name)) (refContents (.ref name))) := by
    refine .quiet rfl (fun c₁ r c₂ digest hf he hr d m hn hm => .inl ?_) fun _ _ _ hf h => h.follows hf
    have hmark : c₁.store.marker name = some digest := marker_eq_some.mpr (refContents_ok hr ▸ he).1.2
    rw [he.1.1, hmark] at hn
    cases hn
    obtain ⟨p, hp, -⟩ := Store.manifestAt_eq_some.mp hm
    exact (trim_digest hp).symm
  refine (hread.keep hr).bind fun contents c ⟨hm, hr⟩ => ?_
  dsimp only
  generalize trim contents = digest at hm
  split
  next hempty =>
    have hd : digest = "" := by simpa using hempty
    subst hd
    exact .ret fun c' _ hf => (hr.follows hf).marked (hm.follows hf)
  next =>
    refine ((readBlob_sweeping hm).keep hr).bind fun content c ⟨hm, hr⟩ => ?_
    cases hcon : content.manifest? with
    | none => exact .throw
    | some m => exact .ret fun c' _ hf => (hr.follows hf).add ((hm m hcon).follows hf)

theorem liveRefs_sweeping {todo : List String} (hr : Reads live todo c) :
    Sweeping oci (fun live c => Reads live [] c) c (liveRefs live todo) := by
  induction todo generalizing c live with
  | nil => exact .ret fun c' _ hf => hr.follows hf
  | cons name rest ih =>
    exact (liveRef_sweeping hr).bind fun live c hr => ih hr

theorem liveSet_sweeping :
    Sweeping oci (fun live c => Reads live [] c) c liveSet :=
  entries_refs.bind fun _ _ hr => liveRefs_sweeping hr

-- ---------------------------------------------------------------------------
-- Removing the rest
-- ---------------------------------------------------------------------------

theorem removeBlobs_sweeping (hr : Reads live [] c) :
    Sweeping oci (fun _ c => Reads live [] c) c (removeBlobs live algo) := by
  refine (entries_any.keep hr).bind fun found c ⟨_, hr⟩ => ?_
  refine Prog.Safe.forM Follows.refl (fun hf hr => hr.follows hf) trivial hr fun name _ c _ hr => ?_
  dsimp only
  split
  · exact .ret fun c' _ hf => hr.follows hf
  next hlive =>
    have hcov : ¬ live.Covers (.blob algo name) := by simpa [Live.Covers] using hlive
    have hop : ∀ c₁ r c₂, c.Follows c₁ →
        sparing oci (.removeFile (.blob algo name)) c₁ r c₂ → c₁.Sweeps c₂ := by
      intro c₁ r c₂ hf he
      refine sweep_ok (hr.follows hf) he hcov (by simp) ?_
      rcases OrFails.cases he.1 with ⟨_, -, -, hs⟩ | hs
      · exact .inr (.inl hs)
      · exact .inl hs
    refine Prog.Safe.ask (fun c₁ r c₂ _ hf he => ⟨trivial, hop c₁ r c₂ hf he⟩)
      fun c₁ r c₂ c₃ _ _ hf he _ _ hf' => ?_
    exact ((hr.follows hf).sweeps (hop c₁ r c₂ hf he)).follows hf'

theorem removeLayers_sweeping (hr : Reads live [] c) :
    Sweeping oci (fun _ c => Reads live [] c) c (removeLayers live algo) := by
  refine (entries_any.keep hr).bind fun found c ⟨_, hr⟩ => ?_
  refine Prog.Safe.forM Follows.refl (fun hf hr => hr.follows hf) trivial hr fun name _ c _ hr => ?_
  dsimp only
  split
  next hout =>
    have hop : ∀ c₁ r c₂, c.Follows c₁ →
        sparing oci (.removeTree (.layer algo name)) c₁ r c₂ → c₁.Sweeps c₂ := by
      intro c₁ r c₂ hf he
      cases hst : isStaging name with
      | true => exact quiet_ok (o := .removeTree (.layer algo name)) hst he
      | false =>
        have hcov : ¬ live.Covers (.layer algo name) := by
          simpa [hst, Live.Covers] using hout
        refine sweep_ok (hr.follows hf) he hcov (by simp) ?_
        rcases OrPartly.cases he.1 with hs | ⟨_, t, -, -, hs⟩ | hs
        · exact .inr (.inl hs)
        · exact .inr (.inr ⟨algo, name, t, rfl, hs⟩)
        · exact .inl hs
    refine Prog.Safe.ask (fun c₁ r c₂ _ hf he => ⟨trivial, hop c₁ r c₂ hf he⟩)
      fun c₁ r c₂ c₃ _ _ hf he _ _ hf' => ?_
    exact ((hr.follows hf).sweeps (hop c₁ r c₂ hf he)).follows hf'
  · exact .ret fun c' _ hf => hr.follows hf

theorem removeDownloads_sweeping :
    Sweeping oci (fun _ _ => True) c removeDownloads := by
  refine entries_any.bind fun found c _ => ?_
  refine Prog.Safe.forM Follows.refl (fun _ _ => trivial) trivial trivial fun name _ c _ _ => ?_
  split
  · exact Sweeping.quiet_any rfl
  · exact .ret fun _ _ _ => trivial

theorem gcImages_sweeping : Sweeping oci (fun _ _ => True) c gcImages := by
  refine Sweeping.bind (Q := fun _ _ => True) (.quiet_any rfl) fun found c _ => ?_
  split
  · refine Sweeping.bind (Prog.Safe.attempt liveSet_sweeping) fun r c hr => ?_
    cases r with
    | error e => exact .ret fun _ _ _ => trivial
    | ok live =>
      have hr := hr live rfl
      refine (entries_any.keep hr).bind fun algos c ⟨_, hr⟩ => ?_
      refine Sweeping.bind (Prog.Safe.forM Follows.refl (fun hf hr => hr.follows hf) trivial hr
        fun algo _ c _ hr => removeBlobs_sweeping hr) fun _ c hr => ?_
      refine (entries_any.keep hr).bind fun algos c ⟨_, hr⟩ => ?_
      refine Sweeping.bind (Prog.Safe.forM Follows.refl (fun hf hr => hr.follows hf) trivial hr
        fun algo _ c _ hr => removeLayers_sweeping hr) fun _ c hr => ?_
      exact removeDownloads_sweeping
  · exact .ret fun _ _ _ => trivial

/-- A collector on its own, run for any number of steps, leaves every recorded
image as it is. -/
theorem gcImages_steps (hs : Prog.Steps (Op.effect oci) s₀ gcImages s p') :
    (∀ name, s.marker name = s₀.marker name) ∧
      ∀ name d m, s₀.marker name = some d → s₀.manifestAt d = some m →
        ∀ p ∈ imageParts d m, s.lookup p = s₀.lookup p := by
  obtain ⟨c, hc, hrun⟩ := hs.lift (F := sparing oci) (R := fun s c => c.store = s ∧ c.avoid = [])
    (by
      rintro op s r s' c ⟨rfl, ha⟩ he
      exact ⟨⟨s', []⟩, ⟨rfl, rfl⟩, he, ha.symm, by simp [ha]⟩)
    (show (Watched.mk s₀ []).store = s₀ ∧ _ from ⟨rfl, rfl⟩)
  obtain ⟨rfl, -⟩ := hc
  clear hs
  have run : c.avoid = [] ∧ Sweeping oci (fun _ _ => True) c p' ∧
      (∀ name, c.store.marker name = s₀.marker name) ∧
      ∀ name d m, s₀.marker name = some d → s₀.manifestAt d = some m →
        ∀ p ∈ imageParts d m, c.store.lookup p = s₀.lookup p := by
    induction hrun with
    | refl => exact ⟨rfl, gcImages_sweeping, fun _ => rfl, fun _ _ _ _ _ _ _ => rfl⟩
    | tail _ hstep ih =>
      obtain ⟨ha, hsafe, hmarkers, himages⟩ := ih
      obtain ⟨-, hg, hsafe'⟩ := hsafe.step Watched.Follows.refl Watched.Follows.trans trivial hstep
      rcases hg with rfl | hg
      · exact ⟨ha, hsafe', hmarkers, himages⟩
      refine ⟨hg.avoid.trans ha, hsafe', fun name => ?_, fun name d m hn hm p hp => ?_⟩
      · exact (Watched.marker_removes hg.removes name).trans (hmarkers name)
      · have hold := himages name d m hn hm
        have hman := Store.manifestAt_congr fun q hq => hold q (mem_imageParts.mpr (.inl hq))
        rcases hg.images name d m ((hmarkers name).trans hn) (hman.trans hm) p hp with hsame | hav
        · exact hsame.trans (hold p hp)
        · simp [ha] at hav
  exact run.2.2

end Climate
