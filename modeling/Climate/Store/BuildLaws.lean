import Climate.Store.PullLaws

/-!
# Builds only add

A build counts on its base from the moment it has read the base's manifest.
The settings and layers it then finds are still there when it records the
image made of them and its own layer.
-/

namespace Climate

open Noted

variable {oci : Oci} {own : Bool}

-- ---------------------------------------------------------------------------
-- Reading an image
-- ---------------------------------------------------------------------------

theorem readBlob_adds (hi : c.Ok oci) (hc : Counted (blobFile digest) c) :
    Adding oci own (fun _ c => Held (blobFile digest) c) c (readBlob digest) := by
  refine (blobPath_adds.keep (fun _ _ h hc => hc.grows h) hc).bind hi fun p c hi ⟨hp, hc⟩ => ?_
  refine .quiet rfl (fun c₁ r c₂ a hu he hr => ?_) fun _ _ _ hu h => h.grows hu.grows
  rw [orFail_ok.mp hr] at he
  refine ⟨p, hp, noted_counted he (hu.counted (hc p hp)), ?_⟩
  rw [he.1.1]
  exact Store.has_iff.mpr ⟨_, he.1.2⟩

theorem readBlob_manifest (hi : c.Ok oci) :
    Adding oci own (fun content c => ∀ m, content = .manifest m → m.parts ⊆ c.counted) c
      (readBlob digest) := by
  refine Adding.bind blobPath_adds hi fun p c hi hp => ?_
  refine .quiet rfl (fun c₁ r c₂ a hu he hr m hm => ?_) fun _ _ _ hu h m hm => ?_
  · rw [orFail_ok.mp hr, hm] at he
    rw [he.2.1]
    exact List.subset_append_left _ _
  · exact List.Subset.trans (h m hm) hu.counted

theorem readManifest_adds (hi : c.Ok oci) :
    Adding oci own (fun r c => ∀ m, r = some m → m.parts ⊆ c.counted) c (readManifest key) := by
  refine Adding.bind (Q := fun _ _ => True) (Adding.quiet_any rfl) hi fun r c hi _ => ?_
  cases r with
  | none => exact Prog.Safe.ret fun _ _ _ m hm => by cases hm
  | some digest =>
    refine Adding.bind (readBlob_manifest hi) hi fun content c hi hm => ?_
    cases content with
    | manifest m =>
      refine Prog.Safe.ret fun c' _ hu m' hm' => ?_
      cases hm'
      exact List.Subset.trans (hm m rfl) hu.counted
    | text _ | config _ | archive _ | other _ => exact .throw

theorem imageConfig_adds {m : Manifest} (hi : c.Ok oci) (hc : m.parts ⊆ c.counted) :
    Adding oci own (fun _ c => Held (blobFile m.config.digest) c) c (imageConfig key m) := by
  refine Adding.bind (readBlob_adds hi (.config hc)) hi fun content c hi hh => ?_
  cases content with
  | config json => exact .ret hh fun _ hu h => h.grows hu.grows
  | text _ | manifest _ | archive _ | other _ => exact .throw

-- ---------------------------------------------------------------------------
-- The layers of a mount
-- ---------------------------------------------------------------------------

theorem isDir_adds (hc : path ∈ counted c) :
    Adding oci own (fun b c => b = true → Held (some path) c) c (isDir path) := by
  refine .quiet rfl (fun c₁ r c₂ b hu he hr hb => ?_) fun b c c' hu hp hb => (hp hb).grows hu.grows
  obtain ⟨⟨hs, hr'⟩, -⟩ := id he
  have hrb : r = b := Except.ok.inj hr
  refine ⟨path, rfl, noted_counted he (hu.counted hc), ?_⟩
  rw [hs]
  exact Store.has_of_isDir (by rw [← hr', hrb, hb])

theorem lowerdirs_adds {digests : List String} (hi : c.Ok oci)
    (hc : ∀ d ∈ digests, Counted (layerDir d) c) :
    Adding oci own (fun _ c => ∀ d ∈ digests, Held (layerDir d) c) c (lowerdirs digests) := by
  induction digests generalizing c with
  | nil => exact Prog.Safe.ret fun _ _ _ _ h => by cases h
  | cons d rest ih =>
    have counted : ∀ c c', Grows c c' → (∀ x ∈ d :: rest, Counted (layerDir x) c) →
        ∀ x ∈ d :: rest, Counted (layerDir x) c' := fun _ _ h hc x hx => (hc x hx).grows h
    refine (layerPath_adds.keep counted hc).bind hi fun p c hi ⟨hp, hc⟩ => ?_
    refine ((isDir_adds (hc d (by simp) p hp)).keep counted hc).bind hi fun b c hi ⟨hb, hc⟩ => ?_
    cases b with
    | false => exact .throw
    | true =>
      have held : ∀ c c', Grows c c' → Held (some p) c → Held (some p) c' :=
        fun _ _ h hp => hp.grows h
      have hrest := ih hi fun x hx => hc x (List.mem_cons_of_mem _ hx)
      refine (hrest.keep held (hb rfl)).bind hi fun dirs c hi ⟨hr, hb⟩ => ?_
      refine .ret (fun x hx => ?_) fun _ hu h x hx => (h x hx).grows hu.grows
      rcases List.mem_cons.mp hx with rfl | hx
      · rwa [hp]
      · exact hr x hx

theorem mountLayers_adds {digests : List String} (hi : c.Ok oci)
    (hc : ∀ d ∈ digests, Counted (layerDir d) c) :
    Adding oci own (fun _ c => ∀ d ∈ digests, Held (layerDir d) c) c (mountLayers digests) := by
  unfold mountLayers
  split
  · exact .throw
  · have hdirs : Adding oci own (fun _ c => ∀ d ∈ digests.reverse, Held (layerDir d) c) c
        (lowerdirs digests.reverse) := lowerdirs_adds hi (by simpa using hc)
    exact hdirs.weaken fun _ _ _ h d hd => h d (by simpa using hd)

-- ---------------------------------------------------------------------------
-- build.rs
-- ---------------------------------------------------------------------------

theorem runScript_adds {base : Manifest} (hi : c.Ok oci) (hc : base.parts ⊆ c.counted)
    (hu : upper.scratch = true) :
    Adding oci own (fun _ c => HeldParts base c) c (runScript cfg script key base upper work) := by
  have counted : ∀ c c', Grows c c' → base.parts ⊆ c.counted → base.parts ⊆ c'.counted :=
    fun _ _ h hc => List.Subset.trans hc h.counted
  refine ((imageConfig_adds hi hc).keep counted hc).bind hi fun _ c hi ⟨hconfig, hc⟩ => ?_
  have hmount : Adding oci own (fun _ c => ∀ d ∈ base.layers.map (·.digest), Held (layerDir d) c) c
      (mountLayers (base.layers.map (·.digest))) := by
    refine mountLayers_adds hi fun d hd => ?_
    obtain ⟨l, hl, rfl⟩ := List.mem_map.mp hd
    exact .layer hc hl
  refine (hmount.keep (fun _ _ h hc => hc.grows h) hconfig).bind hi fun dirs c hi ⟨hl, hconfig⟩ => ?_
  have parts : HeldParts base c := ⟨hconfig, fun l h => hl _ (List.mem_map_of_mem h)⟩
  refine Adding.bind (Adding.keep (Adding.quiet_any hu) (fun _ _ h hc => hc.grows h) parts) hi ?_
  rintro code c hi ⟨-, parts⟩
  split
  · exact .throw
  · exact .ret parts fun _ hu h => h.grows hu.grows

/-- A build's own manifest, whose blob no one else writes. -/
theorem writeBlob_own {m : Manifest} (hi : c.Ok oci) (hp : HeldParts m c)
    (hb : ∀ p, blobFile digest = some p → p ∈ c.counted ∧ p ∈ c.mine) :
    Adding oci true (fun _ c => Filed digest m c ∧ HeldParts m c) c
      (writeBlob digest (.manifest m)) := by
  have known : ∀ c c', Grows c c' →
      (HeldParts m c ∧ ∀ p, blobFile digest = some p → p ∈ c.counted ∧ p ∈ c.mine) →
      HeldParts m c' ∧ ∀ p, blobFile digest = some p → p ∈ c'.counted ∧ p ∈ c'.mine :=
    fun _ _ h hc => ⟨hc.1.grows h, fun p hp => ⟨h.counted (hc.2 p hp).1, h.mine (hc.2 p hp).2⟩⟩
  refine (blobPath_adds.keep known ⟨hp, hb⟩).bind hi fun p c hi ⟨hd, hk⟩ => ?_
  refine (createParent_adds.keep known hk).bind hi fun _ c hi ⟨_, hk⟩ => ?_
  have counts : ∀ c₁ r c₂, c.Undisturbed c₁ → noted oci (.write p (.manifest m)) c₁ r c₂ →
      c₂.store = c₁.store.put p (.file (.manifest m)) → c₂.store.Complete digest m ∧
        imageParts digest m ⊆ c₂.counted := by
    intro c₁ r c₂ hu he hs
    obtain ⟨hp, hb⟩ := known _ _ hu.grows hk
    refine ⟨⟨by rw [hs, Store.manifestAt_put_self hd]; rfl, ?_⟩, fun q hq => noted_counted he ?_⟩
    · exact hp.parts.imp fun q _ hq => by rw [hs]; exact (Store.has_put _ _ q _).mpr (.inr hq)
    · exact (mem_imageParts.mp hq).elim (fun hq => (hb q hq).1) fun hq => hp.subset hq
  refine Prog.Safe.ask (fun c₁ r c₂ hi hu he => ?_) fun c₁ r c₂ c₃ a hi hu he hr _ hu' => ?_
  · rcases OrFails.cases he.1 with ⟨_, -, -, hs, hadm⟩ | hs
    · refine step_ok hi he (hs ▸ hi.valid.addressed.put hadm) ?_
      have hc := counts c₁ r c₂ hu he hs
      rw [hs] at hc ⊢
      refine .put (fun d _ hd' _ => .inr ⟨?_, m, ?_⟩) fun name d h => ?_
      · have hmine : c₁.mine ⊆ c₂.mine := by rw [he.2.2]; exact List.subset_append_right _ _
        exact hmine (hu.mine (hk.2 p hd).2)
      · exact blobFile_inj hd' hd ▸ hc
      · subst h
        obtain ⟨_, _, -, h⟩ := blobFile_eq_some.mp hd
        cases h
    · exact same_ok hi he hs
  · rw [orFail_ok.mp hr] at he
    have hc := counts c₁ _ c₂ hu he he.1.2.1
    have hmine : c₁.mine ⊆ c₂.mine := by rw [he.2.2]; exact List.subset_append_right _ _
    have hk := known _ _ hu.grows hk
    have hg : Grows c₁ c₂ := ⟨noted_counted he, hmine, fun q _ hq => by
      rw [he.1.2.1]; exact (Store.has_put _ _ q _).mpr (.inr hq)⟩
    refine ⟨Filed.undisturbed hu' ⟨⟨p, hd, hg.counted (hk.2 p hd).1, fun _ => hmine (hk.2 p hd).2⟩, hc.1.1⟩, ?_⟩
    exact (hk.1.grows hg).grows hu'.grows

theorem Noted.HeldParts.extend {base : Manifest} (h : HeldParts base c) (hd : Held (layerDir digest) c) :
    HeldParts (base.extend digest) c where
  config := h.config
  layers l hl := by
    rcases List.mem_append.mp hl with hl | hl
    · exact h.layers l hl
    · cases List.mem_singleton.mp hl
      exact hd

/-- What a build counts on once it has its id. -/
structure Begun (base : Manifest) (digest : String) (c : Noted) : Prop where
  parts : base.parts ⊆ c.counted
  layer : Counted (layerDir digest) c
  blob : ∀ p, blobFile digest = some p → p ∈ c.counted ∧ p ∈ c.mine

theorem Begun.grows (h : Noted.Grows c c') (hb : Begun base digest c) : Begun base digest c' :=
  ⟨List.Subset.trans hb.parts h.counted, hb.layer.grows h, fun p hp =>
    ⟨h.counted (hb.blob p hp).1, h.mine (hb.blob p hp).2⟩⟩

theorem build_adds (hi : c.Ok oci) : Adding oci true (fun _ _ => True) c (build oci cfg script) := by
  unfold build
  dsimp only
  cases hw : oci.whole cfg.image.reference with
  | none => exact .throw
  | some baseKey =>
    refine Adding.bind (readManifest_adds hi) hi fun r c hi hbase => ?_
    cases r with
    | none => exact .throw
    | some base =>
      replace hbase := hbase base rfl
      refine Adding.bind (Q := fun id c => Begun base (digestOf buildAlgo (dashless id)) c)
        (Adding.quiet rfl ?_ fun _ _ _ hu h => h.grows hu.grows) hi fun unique c hi hb => ?_
      · intro c₁ r c₂ a hu he hr
        cases hr
        obtain ⟨-, hcounted, hmine⟩ := he
        refine ⟨?_, fun p hp => ?_, fun p hp => ⟨?_, ?_⟩⟩
        · rw [hcounted]
          exact List.Subset.trans (List.Subset.trans hbase hu.counted) (List.subset_append_right _ _)
        all_goals simp [hcounted, hmine, Op.uses, Op.makes, hp]
      have grows : ∀ c c', Grows c c' → Begun base (digestOf buildAlgo (dashless unique)) c →
          Begun base (digestOf buildAlgo (dashless unique)) c' := fun _ _ h hb => hb.grows h
      refine (layerPath_adds.keep grows hb).bind hi fun layer c hi hkept => ?_
      obtain ⟨hlayer, hb⟩ := hkept
      have hu : (Path.layer buildAlgo (stagingName (dashless unique))).scratch = true :=
        isStaging_stagingName _
      have hw : (Path.layer buildAlgo (stagingName (dashless unique) ++ "-work")).scratch = true := by
        rw [stagingName, String.append_assoc]
        exact isStaging_stagingName _
      refine ((createTree_adds hu).keep grows hb).bind hi ?_
      rintro _ c hi ⟨-, hb⟩
      refine ((createTree_adds hw).keep grows hb).bind hi ?_
      rintro _ c hi ⟨-, hb⟩
      refine (Adding.keep (Prog.Safe.attempt (runScript_adds hi hb.parts hu)) grows hb).bind hi ?_
      rintro result c hi ⟨hr, hb⟩
      have known : ∀ c c', Grows c c' → (∀ a, result = .ok a → HeldParts base c) ∧
          Begun base (digestOf buildAlgo (dashless unique)) c →
          (∀ a, result = .ok a → HeldParts base c') ∧
          Begun base (digestOf buildAlgo (dashless unique)) c' :=
        fun _ _ h hk => ⟨fun a ha => (hk.1 a ha).grows h, hk.2.grows h⟩
      refine (Adding.keep (Prog.Safe.attempt (removeTree_adds hw)) known ⟨hr, hb⟩).bind hi ?_
      rintro _ c hi ⟨-, hr, hb⟩
      cases result with
      | error e =>
        exact Adding.bind (Prog.Safe.attempt (removeTree_adds hu)) hi fun _ _ _ _ => .throw
      | ok u =>
        have held : ∀ c c', Grows c c' → HeldParts base c ∧
            Begun base (digestOf buildAlgo (dashless unique)) c →
            HeldParts base c' ∧ Begun base (digestOf buildAlgo (dashless unique)) c' :=
          fun _ _ h hk => ⟨hk.1.grows h, hk.2.grows h⟩
        have href : ∀ name, layer ≠ .ref name := by
          rintro name rfl
          obtain ⟨_, _, -, h⟩ := layerDir_eq_some.mp hlayer
          cases h
        refine ((rename_adds hu (fun d h => (blobFile_not_layer h hlayer).elim) href
          (hb.layer layer hlayer)).keep held ⟨hr u rfl, hb⟩).bind hi ?_
        rintro _ c hi ⟨hl, hr, hb⟩
        rw [← hlayer] at hl
        refine Adding.bind (writeBlob_own hi (hr.extend hl) hb.blob) hi ?_
        rintro _ c hi ⟨hf, hp⟩
        cases imageKey oci cfg with
        | error e => exact .throw
        | ok key => exact recordRef_adds hi hf hp

end Climate
