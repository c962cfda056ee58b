import Climate.Runtime.Run

/-!
# Cleaning up

Which of the steps of `Mount::new` and `run` leave something of the run behind
when they fail. The steps are those of the run's log, with the replies they
were given; unmounting and deleting succeed.
-/

namespace Climate.Runtime

open UnixPath Prog

variable {base images : Place} {layers : List String} {points : List MountPoint}
  {writable : Option (Place × Place)} {id : String} {m m' m₁ m₂ : Machine}

-- ---------------------------------------------------------------------------
-- What a run may leave
-- ---------------------------------------------------------------------------

def Scratch (base place : Place) : Prop :=
  ∃ dir ∈ ["overlays", "bundles", "containers"], ∃ name rest, place = base ++ dir :: name :: rest

structure CleanedUp (base : Place) (m m' : Machine) : Prop where
  entries : ∀ place, Scratch base place → m'.has place = true → m.has place = true
  live : ∀ id ∈ m'.live, id ∈ m.live

-- ---------------------------------------------------------------------------
-- Steps that fail
-- ---------------------------------------------------------------------------

abbrev Log := List ((op : RunOp) × op.Res)

abbrev logged : Effects runOps (Machine × Log) := Effects.logged RunOp.effect

def Failed (r : Except ε α) : Prop := ∃ e, r = .error e

theorem not_failed {r : Except ε α} (h : r = .ok a) : ¬ Failed r := by
  rintro ⟨e, he⟩
  cases h.symm.trans he

instance decidableFailed (r : Except ε α) : Decidable (Failed r) :=
  match r with
  | .ok _ => .isFalse (not_failed rfl)
  | .error e => .isTrue ⟨e, rfl⟩

def Fails : (op : RunOp) → op.Res → Prop
  | .createDirAll .., r => Failed r
  | .write .., r => Failed r
  | .isDir _, r => r = false
  | .fuseOverlayfs .., r => r ≠ .ok true
  | .cgroup2, r => r = false
  | .bindSocket .., r => Failed r
  | .hookProgram, r => Failed r
  | .subreaper, r => Failed r
  | .sigaction _, r => Failed r
  | .statePath, r => Failed r
  | .discardPipe _, r => Failed r
  | .buildContainer .., r => ∀ pid, r = .ok (some pid) → pid = 0
  | .acceptMaster, r => Failed r
  | .startForward _, r => Failed r
  | .startContainer, r => Failed r
  | .rawMode, r => Failed r
  | .resize, r => Failed r
  | .wait _, r => Failed r.outcome
  | _, _ => False

instance : (op : RunOp) → (r : op.Res) → Decidable (Fails op r)
  | .createDirAll .., r => decidableFailed r
  | .write .., r => decidableFailed r
  | .isDir _, r => instDecidableEqBool r false
  | .fuseOverlayfs .., .ok true => .isFalse fun h => h rfl
  | .fuseOverlayfs .., .ok false => .isTrue fun h => by cases h
  | .fuseOverlayfs .., .error _ => .isTrue fun h => by cases h
  | .cgroup2, r => instDecidableEqBool r false
  | .bindSocket .., r => decidableFailed r
  | .hookProgram, r => decidableFailed r
  | .subreaper, r => decidableFailed r
  | .sigaction _, r => decidableFailed r
  | .statePath, r => decidableFailed r
  | .discardPipe _, r => decidableFailed r
  | .buildContainer .., .ok (some pid) =>
    decidable_of_iff (pid = 0) ⟨fun h _ heq => by cases heq; exact h, fun h => h pid rfl⟩
  | .buildContainer .., .ok none => .isTrue fun _ heq => by cases heq
  | .buildContainer .., .error _ => .isTrue fun _ heq => by cases heq
  | .acceptMaster, r => decidableFailed r
  | .startForward _, r => decidableFailed r
  | .startContainer, r => decidableFailed r
  | .rawMode, r => decidableFailed r
  | .resize, r => decidableFailed r
  | .wait _, r => decidableFailed r.outcome
  | .uniqueId, _ | .removeDirAll _, _ | .unmount _, _ | .isDevNull _, _ | .storePid _, _ | .takePending, _
  | .swapForwarded, _ | .kill .., _ | .dropForward, _ | .dropRaw, _ | .dropResize, _ | .joinPump, _
  | .clearPid, _ | .deleteContainer .., _ => .isFalse fun h => h

/-- A failure that leaves nothing: of a step that comes before anything is
made, makes nothing when it fails, or has its traces removed. -/
def CleanStop (base : Place) : (op : RunOp) → op.Res → Prop
  | .createDirAll dir relative, .error made => relative = [] ∧
    ((∃ id, dir = base ++ ["bundles", id]) ∨
      (∃ id, dir = base ++ ["overlays", id, "merged"]) ∧ made < base.length + 2)
  | .fuseOverlayfs .., .ok _ => True
  | .cgroup2, _ => True
  | .startForward _, _ => True
  | .startContainer, _ => True
  | .rawMode, _ => True
  | .resize, _ => True
  | .wait _, _ => True
  | _, _ => False

def Named (images : Place) (digest : String) : Prop :=
  ∃ algo hex, digestPath digest = .ok (algo, hex) ∧
    ¬ Failed (lowerdirArg (display (images ++ ["layers", algo, hex])))

/-- Everything that a mount's options name can be. -/
structure Expressible (base images : Place) (layers : List String) (writable : Option (Place × Place))
    (id : String) : Prop where
  stub : ¬ Failed (lowerdirArg (display (base ++ ["overlays", id, "stub"])))
  layers : ∀ digest ∈ layers, Named images digest
  writable : ¬ Failed (writableOptions writable)

/-- No mount point makes anything new in the runtime directory but in the
run's own overlay. -/
def NoStrays (base : Place) (m : Machine) (points : List MountPoint) (id : String) : Prop :=
  ∀ point ∈ points, ∀ place ∈ walk (base ++ ["overlays", id, "stub"]) (components point.path),
    Scratch base place → ¬ base ++ ["overlays", id] <+: place → m.has place = true

def mergedMade (base : Place) (id : String) : (op : RunOp) × op.Res :=
  ⟨.createDirAll (base ++ ["overlays", id, "merged"]) [], .ok ()⟩

/-- Every step that fails stops the run cleanly; and once the overlay is made,
its mount can be expressed and no mount point strays. -/
def Tidy (base images : Place) (layers : List String) (points : List MountPoint)
    (writable : Option (Place × Place)) (m : Machine) : Log → Prop
  | ⟨.uniqueId, id⟩ :: rest =>
    (∀ x ∈ rest, Fails x.1 x.2 → CleanStop base x.1 x.2) ∧
      (mergedMade base id ∈ rest → Expressible base images layers writable id ∧ NoStrays base m points id)
  | _ => True

-- ---------------------------------------------------------------------------
-- Logs
-- ---------------------------------------------------------------------------

def Smooth (base : Place) (id : String) (l : Log) : Prop :=
  ∃ rest, l = ⟨.uniqueId, id⟩ :: rest ∧ mergedMade base id ∈ rest ∧
    ∀ x ∈ rest, Fails x.1 x.2 → CleanStop base x.1 x.2

def Rough (base : Place) (id : String) (l : Log) : Prop :=
  ∃ rest, l = ⟨.uniqueId, id⟩ :: rest ∧ ∃ x ∈ rest, Fails x.1 x.2 ∧ ¬ CleanStop base x.1 x.2

theorem Smooth.snoc (h : Smooth base id l) (hx : Fails op r → CleanStop base op r) :
    Smooth base id (l ++ [⟨op, r⟩]) := by
  obtain ⟨rest, rfl, hmade, hall⟩ := h
  refine ⟨rest ++ [⟨op, r⟩], rfl, List.mem_append_left _ hmade, fun x hmem hfails => ?_⟩
  rcases List.mem_append.mp hmem with hmem | hmem
  · exact hall x hmem hfails
  · obtain rfl := List.mem_singleton.mp hmem
    exact hx hfails

theorem Smooth.rough (h : Smooth base id l) (hfails : Fails op r) (hnot : ¬ CleanStop base op r) :
    Rough base id (l ++ [⟨op, r⟩]) := by
  obtain ⟨rest, rfl, -, -⟩ := h
  exact ⟨rest ++ [⟨op, r⟩], rfl, ⟨op, r⟩, by simp, hfails, hnot⟩

theorem Rough.snoc (h : Rough base id l) : Rough base id (l ++ [x]) := by
  obtain ⟨rest, rfl, y, hmem, hy⟩ := h
  exact ⟨rest ++ [x], rfl, y, List.mem_append_left _ hmem, hy⟩

theorem tidy_of_all (hfails : ∀ x ∈ l, Fails x.1 x.2 → CleanStop base x.1 x.2)
    (hmade : ∀ id, mergedMade base id ∈ l →
      Expressible base images layers writable id ∧ NoStrays base m points id) :
    Tidy base images layers points writable m l := by
  unfold Tidy
  split
  next id rest =>
    exact ⟨fun x hmem => hfails x (List.mem_cons_of_mem _ hmem), fun h => hmade id (List.mem_cons_of_mem _ h)⟩
  next => trivial

theorem Rough.not_tidy (h : Rough base id l) : ¬ Tidy base images layers points writable m l := by
  obtain ⟨rest, rfl, x, hmem, hfails, hnot⟩ := h
  exact fun htidy => hnot (htidy.1 x hmem hfails)

theorem Smooth.tidy_iff (h : Smooth base id l) : Tidy base images layers points writable m l ↔
    Expressible base images layers writable id ∧ NoStrays base m points id := by
  obtain ⟨rest, rfl, hmade, hall⟩ := h
  exact ⟨fun htidy => htidy.2 hmade, fun hboth => ⟨hall, fun _ => hboth⟩⟩

-- ---------------------------------------------------------------------------
-- Places
-- ---------------------------------------------------------------------------

def Fresh (m : Machine) (name : String) : Prop := ∀ place, m.has place = true → name ∉ place

theorem Machine.Unused.fresh (h : m.Unused id) (hid : id.toList <:+: name.toList) : Fresh m name := by
  intro place hplace hmem
  by_cases hroot : place = []
  · rw [hroot] at hmem
    cases hmem
  · rw [Machine.has, Machine.entry, if_neg hroot] at hplace
    obtain ⟨e, he⟩ := Option.isSome_iff_exists.mp hplace
    obtain ⟨before, after, hsplit, -⟩ := List.lookup_eq_some_iff.mp he
    exact h.1 (place, e) (by rw [hsplit]; simp) name hmem hid

theorem Fresh.new (h : Fresh m name) (hmem : name ∈ place) : m.has place = false :=
  Bool.eq_false_iff.mpr fun hthere => h place hthere hmem

theorem scratch_entry (dir name : String) (hdir : dir ∈ ["overlays", "bundles", "containers"]) :
    Scratch base (base ++ dir :: name :: rest) := ⟨dir, hdir, name, rest, rfl⟩

theorem scratch_above {rest : List String} (h : place <+: base ++ dir :: name :: rest) (hs : Scratch base place) :
    base ++ [dir, name] <+: place := by
  obtain ⟨dir', -, name', rest', rfl⟩ := hs
  rw [List.prefix_append_right_inj, List.cons_prefix_cons, List.cons_prefix_cons] at h
  obtain ⟨rfl, rfl, -⟩ := h
  rw [List.prefix_append_right_inj]
  exact ⟨rest', rfl⟩

theorem fileAt_walk (h : fileAt start relative = some place) :
    other ∈ walk start relative ↔ other ∈ walk start relative.dropLast ∨ other = place := by
  rcases List.eq_nil_or_concat relative with rfl | ⟨l, c, rfl⟩
  · cases h
  · rw [List.concat_eq_append] at h ⊢
    cases c with
    | parent => simp [fileAt] at h
    | normal name =>
      simp only [fileAt, List.getLast?_append, List.getLast?_singleton, Option.some_or, Option.some.injEq] at h
      rw [List.dropLast_concat, walk_append, ← h, resolve_append]
      simp [walk, resolve, Component.from]

-- ---------------------------------------------------------------------------
-- The mount
-- ---------------------------------------------------------------------------

/-- The overlay is made, and nothing outside it but what the mount points done
so far name. -/
structure Stacked (base : Place) (m : Machine) (id : String) (done : List MountPoint) (m₁ : Machine) :
    Prop where
  overlay : m₁.has (base ++ ["overlays", id]) = true
  outside : ∀ place, Scratch base place → ¬ base ++ ["overlays", id] <+: place →
    (m₁.has place = true ↔ m.has place = true ∨
      ∃ point ∈ done, place ∈ walk (base ++ ["overlays", id, "stub"]) (components point.path))
  live : ∀ name ∈ m₁.live, name ∈ m.live

/-- An entry is there to stay. -/
def LeftBehind (base : Place) (id dir name : String) (s : Machine × Log) : Prop :=
  s.1.has (base ++ [dir, name]) = true ∧ Rough base id s.2

theorem not_cleanedUp (hnew : m.has (base ++ [dir, name]) = false)
    (hdir : dir ∈ ["overlays", "bundles", "containers"]) (hthere : m'.has (base ++ [dir, name]) = true) :
    ¬ CleanedUp base m m' := by
  intro hclean
  rw [hclean.entries _ (scratch_entry dir name hdir) hthere] at hnew
  cases hnew

theorem LeftBehind.verdict (h : LeftBehind base id dir name s) (hnew : m.has (base ++ [dir, name]) = false)
    (hdir : dir ∈ ["overlays", "bundles", "containers"]) :
    CleanedUp base m s.1 ↔ Tidy base images layers points writable m s.2 :=
  iff_of_false (not_cleanedUp hnew hdir h.1) h.2.not_tidy

theorem overlay_dir_not_clean (h : dir = base ++ ["overlays", id, "stub"] ∨ dir = base ++ ["overlays", id])
    (relative : List Component) (made : Nat) :
    ¬ CleanStop base (.createDirAll dir relative) (.error made) := by
  rintro ⟨-, ⟨id', heq⟩ | ⟨⟨id', heq⟩, -⟩⟩ <;> rcases h with rfl | rfl <;>
    simp at heq

/-- What `create_dir_all` makes under the stub or right above it. -/
theorem dirsOf_outside
    (hdir : dir = base ++ ["overlays", id, "stub"] ∨ dir = base ++ ["overlays", id] ∧ relative = [])
    (hs : Scratch base place) (hout : ¬ base ++ ["overlays", id] <+: place) :
    place ∈ dirsOf dir relative ↔
      dir = base ++ ["overlays", id, "stub"] ∧ place ∈ walk dir relative := by
  have habove : place ∉ ancestry dir := by
    intro hmem
    obtain ⟨hpre, -⟩ := mem_ancestry.mp hmem
    have hway : dir <+: base ++ "overlays" :: id :: ["stub"] := by
      rcases hdir with rfl | ⟨rfl, -⟩
      · exact List.prefix_refl _
      · exact ⟨["stub"], by simp⟩
    exact hout (scratch_above (hpre.trans hway) hs)
  rw [dirsOf, List.mem_append, or_iff_right habove]
  rcases hdir with rfl | ⟨rfl, rfl⟩
  · simp
  · simp [walk]

theorem Stacked.keeps_overlay (h : Stacked base m id done m₁) (l : List Place) :
    (m₁.makeDirs l).has (base ++ ["overlays", id]) = true :=
  (Machine.has_makeDirs _ _).mpr (.inr h.overlay)

theorem createDirAll_ends (h : Stacked base m id done s.1) (hl : Smooth base id s.2)
    (hdir : dir = base ++ ["overlays", id, "stub"] ∨ dir = base ++ ["overlays", id] ∧ relative = []) :
    Ends logged (fun _ _ => True) (Ends.Outcome (LeftBehind base id "overlays" id) fun _ s' =>
      s'.1 = s.1.makeDirs (dirsOf dir relative) ∧ Smooth base id s'.2) s
      (.ask (.createDirAll dir relative) (orElse message)) := by
  refine .ask trivial fun r s' he => ?_
  obtain ⟨he, hlog⟩ := he
  cases r with
  | ok _ => exact ⟨he, hlog ▸ hl.snoc fun hfails => by obtain ⟨e, he⟩ := hfails; cases he⟩
  | error made =>
    obtain ⟨-, heq⟩ := he
    refine ⟨heq ▸ h.keeps_overlay _, hlog ▸ hl.rough ⟨made, rfl⟩ ?_⟩
    exact overlay_dir_not_clean (hdir.imp_right And.left) relative made

theorem Stacked.add {N : Place → Prop} (h : Stacked base m id done m₁)
    (hhas : ∀ place, m₂.has place = true ↔ N place ∨ m₁.has place = true)
    (hnew : ∀ place, Scratch base place → ¬ base ++ ["overlays", id] <+: place →
      (N place ↔ place ∈ walk (base ++ ["overlays", id, "stub"]) (components point.path)))
    (hlive : m₂.live = m₁.live) : Stacked base m id (done ++ [point]) m₂ := by
  refine ⟨(hhas _).mpr (.inr h.overlay), fun place hs hout => ?_, fun name hname => h.live name (hlive ▸ hname)⟩
  rw [hhas, hnew place hs hout, h.outside place hs hout]
  simp only [List.mem_append, List.mem_singleton, or_and_right, exists_or, exists_eq_left]
  exact or_left_comm.trans (or_congr_right or_comm)

theorem Fills.has (h : Machine.Fills m dir relative contents m') :
    ∃ place, fileAt dir relative = some place ∧ m'.live = m.live ∧
      ∀ other, m'.has other = true ↔ other = place ∨ m.has other = true := by
  obtain ⟨place, hfile, -, rfl⟩ := h
  exact ⟨place, hfile, rfl, fun other => Machine.has_put m place _⟩

theorem materialise_ends (h : Stacked base m id done s.1) (hl : Smooth base id s.2) (point : MountPoint) :
    Ends logged (fun _ _ => True) (Ends.Outcome (LeftBehind base id "overlays" id) fun _ s' =>
      Stacked base m id (done ++ [point]) s'.1 ∧ Smooth base id s'.2) s
      (materialise (base ++ ["overlays", id, "stub"]) point) := by
  unfold materialise
  dsimp only
  split
  next =>
    have hparent : parentOf (base ++ ["overlays", id, "stub"]) (components point.path) =
          (base ++ ["overlays", id, "stub"], (components point.path).dropLast) ∧ components point.path ≠ [] ∨
        parentOf (base ++ ["overlays", id, "stub"]) (components point.path) = (base ++ ["overlays", id], []) ∧
          components point.path = [] := by
      unfold parentOf
      split
      next hnil => exact .inr ⟨by simp, hnil⟩
      next hne => exact .inl ⟨rfl, hne⟩
    refine Ends.seq (createDirAll_ends h hl ?_) fun _ s₁ hs₁ => .ask trivial fun r s' he => ?_
    · rcases hparent with ⟨heq, -⟩ | ⟨heq, -⟩
      · exact .inl (by rw [heq])
      · exact .inr (by rw [heq]; exact ⟨rfl, rfl⟩)
    · obtain ⟨hdirs, hl₁⟩ := hs₁
      obtain ⟨he, hlog⟩ := he
      have hover : s₁.1.has (base ++ ["overlays", id]) = true := hdirs ▸ h.keeps_overlay _
      cases r with
      | error e =>
        refine ⟨?_, hlog ▸ hl₁.rough ⟨e, rfl⟩ fun hclean => hclean.elim⟩
        rcases he with heq | ⟨part, hf⟩
        · rw [heq]
          exact hover
        · obtain ⟨place, -, -, hhas⟩ := Fills.has hf
          exact (hhas _).mpr (.inr hover)
      | ok _ =>
        obtain ⟨place, hfile, hlive, hhas⟩ := Fills.has he
        have hne : components point.path ≠ [] := by
          rintro hnil
          rw [hnil] at hfile
          cases hfile
        obtain ⟨heq, -⟩ := hparent.resolve_right fun hroot => hne hroot.2
        rw [heq] at hdirs
        refine ⟨h.add (N := fun other => other = place ∨
            other ∈ dirsOf (base ++ ["overlays", id, "stub"]) (components point.path).dropLast)
          (fun other => ?_) (fun other hs hout => ?_) ?_, hlog ▸ hl₁.snoc fun ⟨e, he⟩ => by cases he⟩
        · rw [hhas, hdirs, Machine.has_makeDirs, or_assoc]
        · rw [dirsOf_outside (.inl rfl) hs hout, fileAt_walk hfile, or_comm]
          simp
        · rw [hlive, hdirs, Machine.makeDirs_live]
  next =>
    refine Ends.weaken (createDirAll_ends h hl (.inl rfl)) fun r s' hr => ?_
    cases r with
    | error e => exact hr
    | ok _ =>
      obtain ⟨heq, hl'⟩ := hr
      refine ⟨h.add (N := fun place => place ∈ dirsOf (base ++ ["overlays", id, "stub"]) (components point.path))
        (fun place => ?_) (fun place hs hout => ?_) (by rw [heq, Machine.makeDirs_live]), hl'⟩
      · rw [heq, Machine.has_makeDirs]
      · rw [dirsOf_outside (.inl rfl) hs hout]
        simp

theorem materialiseStub_ends (h : Stacked base m id [] s.1) (hl : Smooth base id s.2) :
    Ends logged (fun _ _ => True) (Ends.Outcome (LeftBehind base id "overlays" id) fun _ s' =>
      Stacked base m id points s'.1 ∧ Smooth base id s'.2) s
      (materialiseStub (base ++ ["overlays", id, "stub"]) points) :=
  Ends.forM (J := fun done (s : Machine × Log) => Stacked base m id done s.1 ∧ Smooth base id s.2) ⟨h, hl⟩
    fun _ point _ _ _ hdone => materialise_ends hdone.1 hdone.2 point

theorem lowerdirs_ends {l : List String} (hl : Smooth base id s.2) :
    Ends logged (fun _ _ => True) (Ends.Outcome
      (fun s' => s'.1 = s.1 ∧ (Rough base id s'.2 ∨ Smooth base id s'.2 ∧ ¬ ∀ digest ∈ l, Named images digest))
      fun _ s' => s'.1 = s.1 ∧ Smooth base id s'.2 ∧ ∀ digest ∈ l, Named images digest) s
      (lowerdirs images l) := by
  induction l generalizing s with
  | nil => exact .ret ⟨rfl, hl, by simp⟩
  | cons digest rest ih =>
    unfold lowerdirs
    cases hpath : digestPath digest with
    | error e =>
      refine .throw ⟨rfl, .inr ⟨hl, fun hall => ?_⟩⟩
      obtain ⟨algo, hex, hok, -⟩ := hall digest (by simp)
      cases hpath.symm.trans hok
    | ok parts =>
      obtain ⟨algo, hex⟩ := parts
      refine Ends.ask_bind trivial (fun (r : Bool) s' _ he hread => ?_) fun r s' e he hread => by cases hread
      obtain ⟨⟨heq, -⟩, hlog⟩ := he
      cases hread
      cases r with
      | false =>
        exact .throw ⟨heq, .inl (hlog ▸ hl.rough rfl fun hclean => hclean.elim)⟩
      | true =>
        have hl' : Smooth base id s'.2 := hlog ▸ hl.snoc fun hfails => by cases hfails
        rw [if_pos rfl]
        cases hlower : lowerdirArg (display (images ++ ["layers", algo, hex])) with
        | error e =>
          refine .throw ⟨heq, .inr ⟨hl', fun hall => ?_⟩⟩
          obtain ⟨algo', hex', hok, hnamed⟩ := hall digest (by simp)
          cases hpath.symm.trans hok
          exact hnamed ⟨e, hlower⟩
        | ok lower =>
          have hnamed : Named images digest := ⟨algo, hex, hpath, fun ⟨e, he⟩ => by cases hlower.symm.trans he⟩
          change Ends logged _ _ s' (lowerdirs images rest >>= fun others => pure (lower :: others))
          refine Ends.seq (Q := fun _ s'' => s''.1 = s.1 ∧ Smooth base id s''.2 ∧
            ∀ digest ∈ rest, Named images digest) (Ends.weaken (ih hl') fun r s'' hr => ?_)
            fun others s'' hs'' => .ret ?_
          · cases r with
            | error e =>
              obtain ⟨heq', hbad⟩ := hr
              exact ⟨heq'.trans heq, hbad.imp_right fun ⟨hsmooth, hnot⟩ =>
                ⟨hsmooth, fun hall => hnot fun digest hmem => hall digest (by simp [hmem])⟩⟩
            | ok others => exact ⟨hr.1.trans heq, hr.2⟩
          · obtain ⟨heq', hsmooth, hrest⟩ := hs''
            exact ⟨heq', hsmooth, by simpa using ⟨hnamed, hrest⟩⟩

structure Mounted (base images : Place) (layers : List String) (points : List MountPoint)
    (writable : Option (Place × Place)) (m : Machine) (id : String) (s : Machine × Log) : Prop where
  fresh : Fresh m id
  stacked : Stacked base m id points s.1
  smooth : Smooth base id s.2
  expressible : Expressible base images layers writable id

/-- What is left of a run is what its log says. -/
def Judged (base images : Place) (layers : List String) (points : List MountPoint)
    (writable : Option (Place × Place)) (m : Machine) (s : Machine × Log) : Prop :=
  CleanedUp base m s.1 ↔ Tidy base images layers points writable m s.2

theorem merged_fails (hfresh : Fresh m id)
    (hm' : m' = m.makeDirs ((dirsOf (base ++ ["overlays", id, "merged"]) []).take made)) :
    Judged base images layers points writable m
      (m', [⟨.uniqueId, id⟩, ⟨.createDirAll (base ++ ["overlays", id, "merged"]) [], .error made⟩]) := by
  have hhas : ∀ place, m'.has place = true ↔
      (place <+: base ++ ["overlays", id, "merged"] ∧ place ≠ [] ∧ place.length ≤ made) ∨
        m.has place = true := by
    intro place
    rw [hm', Machine.has_makeDirs, dirsOf, walk, List.append_nil, mem_take_ancestry]
  by_cases hearly : made < base.length + 2
  · refine iff_of_true ⟨fun place hs hplace => ?_, by rw [hm', Machine.makeDirs_live]; simp⟩ ⟨?_, ?_⟩
    · rcases (hhas place).mp hplace with ⟨-, -, hlen⟩ | hold
      · obtain ⟨dir, -, name, rest, rfl⟩ := hs
        simp only [List.length_append, List.length_cons] at hlen
        omega
      · exact hold
    · rintro x hx -
      rw [List.mem_singleton.mp hx]
      exact ⟨rfl, .inr ⟨⟨id, rfl⟩, hearly⟩⟩
    · intro hmem
      cases List.mem_singleton.mp hmem
  · have hthere : m'.has (base ++ ["overlays", id]) = true :=
      (hhas _).mpr (.inl ⟨⟨["merged"], by simp⟩, by simp, by simp; omega⟩)
    have hleft : LeftBehind base id "overlays" id
        (m', [⟨.uniqueId, id⟩, ⟨.createDirAll (base ++ ["overlays", id, "merged"]) [], .error made⟩]) := by
      refine ⟨hthere, _, rfl, _, List.mem_cons_self, ⟨made, rfl⟩, ?_⟩
      rintro ⟨-, ⟨id', heq⟩ | ⟨-, hlt⟩⟩
      · simp at heq
      · exact hearly hlt
    exact hleft.verdict (hfresh.new (by simp)) (by simp)

theorem merged_made (hm' : m' = m.makeDirs (dirsOf (base ++ ["overlays", id, "merged"]) [])) :
    Stacked base m id [] m' := by
  have hhas : ∀ place, m'.has place = true ↔
      (place <+: base ++ ["overlays", id, "merged"] ∧ place ≠ []) ∨ m.has place = true := by
    intro place
    rw [hm', Machine.has_makeDirs, dirsOf, walk, List.append_nil, mem_ancestry]
  refine ⟨(hhas _).mpr (.inl ⟨⟨["merged"], by simp⟩, by simp⟩), fun place hs hout => ?_, ?_⟩
  · rw [hhas]
    simp only [List.not_mem_nil, false_and, exists_false, or_false]
    exact ⟨fun h => h.resolve_left fun hway => hout (scratch_above hway.1 hs), .inr⟩
  · rw [hm', Machine.makeDirs_live]
    exact fun name hname => hname

theorem inexpressible (hfresh : Fresh m id) (hoverlay : s.1.has (base ++ ["overlays", id]) = true)
    (hsmooth : Smooth base id s.2) (hnot : ¬ Expressible base images layers writable id) :
    Judged base images layers points writable m s :=
  iff_of_false (not_cleanedUp (hfresh.new (by simp)) (by simp) hoverlay) fun htidy =>
    hnot (hsmooth.tidy_iff.mp htidy).1

theorem Stacked.removed (h : Stacked base m id points m₁)
    (hsmooth : Smooth base id l) (hexp : Expressible base images layers writable id) :
    Judged base images layers points writable m (m₁.removeTree (base ++ ["overlays", id]), l) := by
  have hhas : ∀ place, (m₁.removeTree (base ++ ["overlays", id])).has place = true ↔
      m₁.has place = true ∧ ¬ base ++ ["overlays", id] <+: place :=
    fun place => Machine.has_removeTree m₁ _ (by simp)
  rw [Judged, hsmooth.tidy_iff, and_iff_right hexp]
  constructor
  · intro hclean point hpoint place hwalk hs hout
    exact hclean.entries place hs ((hhas place).mpr
      ⟨(h.outside place hs hout).mpr (.inr ⟨point, hpoint, hwalk⟩), hout⟩)
  · intro hstrays
    refine ⟨fun place hs hplace => ?_, h.live⟩
    obtain ⟨hthere, hout⟩ := (hhas place).mp hplace
    rcases (h.outside place hs hout).mp hthere with hold | ⟨point, hpoint, hwalk⟩
    · exact hold
    · exact hstrays point hpoint place hwalk hs hout

theorem Mount.new_ends (m : Machine) :
    Ends logged (fun _ _ => True) (Ends.Outcome (Judged base images layers points writable m)
      fun mount s => ∃ id, mount.dir = base ++ ["overlays", id] ∧
        Mounted base images layers points writable m id s) (m, [])
      (Mount.new base images layers points writable) := by
  unfold Mount.new
  split
  · exact .throw (iff_of_true ⟨fun _ _ h => h, fun _ h => h⟩ trivial)
  refine Ends.ask_bind trivial (fun (id : String) s₁ _ he hread => ?_) fun r s' e _ hread => by cases hread
  cases hread
  obtain ⟨m₁, l₁⟩ := s₁
  obtain ⟨⟨heq, hunused, -⟩, hlog⟩ := he
  simp only [List.nil_append] at heq hunused hlog
  subst heq hlog
  have hfresh : Fresh m₁ id := hunused.fresh (List.infix_refl _)
  have hnew : m₁.has (base ++ ["overlays", id]) = false := hfresh.new (by simp)
  refine Ends.ask_bind trivial (fun r s₂ _ he hread => ?_) fun r s₂ e he hread => ?_
  · obtain ⟨m₂, l₂⟩ := s₂
    obtain ⟨he, hlog⟩ := he
    obtain rfl := orElse_ok.mp hread
    simp only [List.cons_append, List.nil_append] at hlog
    subst hlog
    have hsmooth : Smooth base id [⟨.uniqueId, id⟩, mergedMade base id] := by
      refine ⟨[mergedMade base id], rfl, List.mem_singleton_self _, fun x hx hfails => ?_⟩
      rw [List.mem_singleton.mp hx] at hfails
      obtain ⟨made, hmade⟩ := hfails
      cases hmade
    refine Ends.bind (materialiseStub_ends (merged_made he) hsmooth) (fun _ s₃ hs₃ => ?_)
      fun e s' hleft => LeftBehind.verdict hleft hnew (by simp)
    obtain ⟨hstacked, hsmooth₃⟩ := hs₃
    refine Ends.ofExcept_bind (fun first hfirst => ?_)
      fun e he => inexpressible hfresh hstacked.overlay hsmooth₃ fun hexp => hexp.stub ⟨e, he⟩
    refine Ends.bind (lowerdirs_ends hsmooth₃) (fun others s₄ hs₄ => ?_) fun e s' hbad => ?_
    · obtain ⟨heq, hsmooth₄, hnamed⟩ := hs₄
      rw [← heq] at hstacked
      refine Ends.ofExcept_bind (fun extra hextra => ?_)
        fun e he => inexpressible hfresh hstacked.overlay hsmooth₄ fun hexp => hexp.writable ⟨e, he⟩
      have hexp : Expressible base images layers writable id :=
        ⟨fun hfailed => not_failed hfirst hfailed,
          fun digest hmem => hnamed digest (List.mem_reverse.mpr hmem),
          fun hfailed => not_failed hextra hfailed⟩
      refine Ends.ask_bind trivial (fun r s₅ mounted he hread => ?_) fun r s₅ e he hread => ?_
      · obtain ⟨heq, hlog⟩ := he
        obtain rfl := orElse_ok.mp hread
        have hsmooth₅ : Smooth base id s₅.2 := hlog ▸ hsmooth₄.snoc fun _ => trivial
        rw [← heq] at hstacked
        cases mounted with
        | true => exact .ret ⟨id, rfl, hfresh, hstacked, hsmooth₅, hexp⟩
        | false =>
          refine Ends.ask_bind trivial (fun r s₆ _ he _ => .throw ?_) fun r s' e _ hread => by cases hread
          obtain ⟨heq, hlog⟩ := he
          have hsmooth₆ : Smooth base id s₆.2 := hlog ▸ hsmooth₅.snoc fun hfails => hfails.elim
          have heq : s₆.1 = s₅.1.removeTree (base ++ ["overlays", id]) := heq
          change CleanedUp base m₁ s₆.1 ↔ _
          rw [heq]
          exact hstacked.removed hsmooth₆ hexp
      · obtain ⟨heq, hlog⟩ := he
        rw [← heq] at hstacked
        cases r with
        | ok _ => cases hread
        | error e =>
          have hrough : Rough base id s₅.2 := by
            rw [hlog]
            exact hsmooth₄.rough (fun heq => by cases heq) fun hclean => hclean.elim
          exact LeftBehind.verdict ⟨hstacked.overlay, hrough⟩ hnew (by simp)
    · obtain ⟨heq, hbad⟩ := hbad
      rw [← heq] at hstacked
      rcases hbad with hrough | ⟨hsmooth', hnot⟩
      · exact LeftBehind.verdict ⟨hstacked.overlay, hrough⟩ hnew (by simp)
      · refine inexpressible hfresh hstacked.overlay hsmooth' fun hexp => hnot fun digest hmem => ?_
        exact hexp.layers digest (List.mem_reverse.mp hmem)
  · obtain ⟨m₂, l₂⟩ := s₂
    obtain ⟨he, hlog⟩ := he
    cases r with
    | ok _ => cases hread
    | error made =>
      simp only [List.cons_append, List.nil_append] at hlog
      subst hlog
      exact merged_fails hfresh he.2

-- ---------------------------------------------------------------------------
-- The container
-- ---------------------------------------------------------------------------

variable {name : String} {s : Machine × Log}

/-- The bundle is made, and nothing else but in it and in the container's own
directory. -/
structure Underway (base : Place) (m₁ : Machine) (name : String) (m₂ : Machine) : Prop where
  bundle : m₂.has (base ++ ["bundles", name]) = true
  outside : ∀ place, Scratch base place → ¬ base ++ ["bundles", name] <+: place →
    ¬ base ++ ["containers", name] <+: place → (m₂.has place = true ↔ m₁.has place = true)
  live : ∀ other ∈ m₂.live, other ∈ m₁.live ∨ other = name

def Going (base : Place) (id : String) (m₁ : Machine) (name : String) (s : Machine × Log) : Prop :=
  Underway base m₁ name s.1 ∧ Smooth base id s.2

theorem Underway.same (h : Underway base m₁ name m₂) (hentries : m'.entries = m₂.entries)
    (hlive : m'.live = m₂.live) : Underway base m₁ name m' := by
  have hhas : ∀ place, m'.has place = m₂.has place := fun place => by
    simp [Machine.has, Machine.entry, hentries]
  refine ⟨(hhas _).trans h.bundle, fun place hs hb hc => ?_, fun other hmem => h.live other (hlive ▸ hmem)⟩
  rw [hhas]
  exact h.outside place hs hb hc

theorem Underway.more {N : Place → Prop} (h : Underway base m₁ name m₂)
    (hhas : ∀ place, m'.has place = true ↔ N place ∨ m₂.has place = true)
    (hnew : ∀ place, Scratch base place → N place →
      base ++ ["bundles", name] <+: place ∨ base ++ ["containers", name] <+: place)
    (hlive : ∀ other ∈ m'.live, other ∈ m₂.live ∨ other = name) : Underway base m₁ name m' := by
  refine ⟨(hhas _).mpr (.inr h.bundle), fun place hs hb hc => ?_, fun other hmem => ?_⟩
  · rw [hhas, or_iff_right fun hn => (hnew place hs hn).elim hb hc]
    exact h.outside place hs hb hc
  · exact (hlive other hmem).elim (h.live other) .inr

theorem Underway.put (h : Underway base m₁ name m₂) (file : String) (e : Entry) :
    Underway base m₁ name (m₂.put (base ++ ["bundles", name, file]) e) :=
  h.more (N := fun place => place = base ++ ["bundles", name, file]) (fun _ => Machine.has_put _ _ _)
    (fun place _ heq => .inl (heq ▸ ⟨[file], by simp⟩)) fun _ => .inl

theorem Underway.created (h : Underway base m₁ name m₂) :
    Underway base m₁ name (m₂.create (base ++ ["containers"]) name) := by
  refine h.more (N := fun place => place = base ++ ["containers", name]) (fun place => ?_)
    (fun place _ heq => .inr (heq ▸ List.prefix_refl _)) fun other hmem => ?_
  · have hentries : (m₂.create (base ++ ["containers"]) name).has place =
        (m₂.makeDirs [base ++ ["containers"] ++ [name]]).has place := rfl
    rw [hentries, Machine.has_makeDirs, List.mem_singleton]
    simp
  · exact (List.mem_cons.mp hmem).symm

theorem step_ends {op : RunOp} {read : op.Res → Except String α} (h : Going base id m₁ name s)
    (hkeeps : ∀ r m', RunOp.effect op s.1 r m' → Underway base m₁ name m')
    (herror : ∀ r e, read r = .error e → Fails op r ∧ ¬ CleanStop base op r)
    (hok : ∀ r a, read r = .ok a → ¬ Fails op r) :
    Ends logged (fun _ _ => True) (Ends.Outcome (LeftBehind base id "bundles" name)
      fun _ s' => Going base id m₁ name s') s (.ask op read) := by
  refine .ask trivial fun r s' he => ?_
  obtain ⟨he, hlog⟩ := he
  have hunder := hkeeps r s'.1 he
  cases hread : read r with
  | ok a => exact ⟨hunder, hlog ▸ h.2.snoc fun hfails => (hok r a hread hfails).elim⟩
  | error e =>
    obtain ⟨hfails, hnot⟩ := herror r e hread
    exact ⟨hunder.bundle, hlog ▸ h.2.rough hfails hnot⟩

theorem orElse_error {r : Except ε α} (h : orElse message r = .error e) : Failed r := by
  cases r with
  | ok a => cases h
  | error e' => exact ⟨e', rfl⟩

theorem orElse_not_failed {r : Except ε α} (h : orElse message r = .ok a) : ¬ Failed r :=
  not_failed (orElse_ok.mp h)

theorem orElseOf_error {r : Except (Fin messages.length) α} (h : orElseOf messages r = .error e) : Failed r := by
  cases r with
  | ok a => cases h
  | error part => exact ⟨part, rfl⟩

theorem onlyIf_ends {act : RunAct Unit} (h : Going base id m₁ name s)
    (hact : Ends logged (fun _ _ => True) (Ends.Outcome (LeftBehind base id "bundles" name)
      fun _ s' => Going base id m₁ name s') s act) (wanted : Bool) :
    Ends logged (fun _ _ => True) (Ends.Outcome (LeftBehind base id "bundles" name)
      fun _ s' => Going base id m₁ name s') s (onlyIf wanted act) := by
  cases wanted with
  | false => exact .ret h
  | true => exact hact

theorem bindSocket_ends (h : Going base id m₁ name s) (socket : String) :
    Ends logged (fun _ _ => True) (Ends.Outcome (LeftBehind base id "bundles" name)
      fun _ s' => Going base id m₁ name s') s
      (.ask (.bindSocket (base ++ ["bundles", name]) socket) (orElse message)) := by
  refine step_ends h (fun r m' he => ?_) (fun r e he => ⟨orElse_error he, fun hclean => hclean.elim⟩)
    fun r a hr => orElse_not_failed hr
  cases r with
  | error e => exact h.1.same (congrArg _ he) (congrArg _ he)
  | ok _ =>
    obtain ⟨-, rfl⟩ := he
    have hput := h.1.put socket .socket
    simpa using hput

theorem pid_ends (h : Underway base m₁ name s.1) (hl : Rough base id s.2) (tty : Bool) (created : Option Int)
    (hno : ∀ pid, created = some pid → pid = 0) :
    Ends logged (fun _ _ => True) (Ends.Outcome (LeftBehind base id "bundles" name)
      fun _ s' => Going base id m₁ name s') s (do
        onlyIf tty (.ask .acceptMaster (orElseOf acceptMasterErrors))
        let pid ← .ofExcept (orNone "container has no pid after create" created)
        .ofExcept (orNone "container has an invalid pid" (fromRaw pid))) := by
  have hrest : ∀ s' : Machine × Log, Underway base m₁ name s'.1 → Rough base id s'.2 →
      Ends logged (fun _ _ => True) (Ends.Outcome (LeftBehind base id "bundles" name)
        fun _ s' => Going base id m₁ name s') s' (do
          let pid ← .ofExcept (orNone "container has no pid after create" created)
          .ofExcept (orNone "container has an invalid pid" (fromRaw pid))) := by
    intro s' hunder hrough
    cases created with
    | none => exact .throw ⟨hunder.bundle, hrough⟩
    | some pid =>
      obtain rfl := hno pid rfl
      exact .throw ⟨hunder.bundle, hrough⟩
  cases tty with
  | false => exact hrest s h hl
  | true =>
    refine Ends.ask_bind trivial (fun r s' _ he _ => ?_) fun r s' e he _ => ?_
    · obtain ⟨heq, hlog⟩ := he
      exact hrest s' (heq ▸ h) (hlog ▸ hl.snoc)
    · obtain ⟨heq, hlog⟩ := he
      exact ⟨heq ▸ h.bundle, hlog ▸ hl.snoc⟩

theorem not_scratch (h : place <+: base ++ [dir]) : ¬ Scratch base place := by
  rintro ⟨dir', -, name, rest, rfl⟩
  have hlen := h.length_le
  simp at hlen

theorem stateRoot_ends (h : Going base id m₁ name s) :
    Ends logged (fun _ _ => True) (Ends.Outcome (LeftBehind base id "bundles" name)
      fun _ s' => Going base id m₁ name s') s
      (.ask (.createDirAll (base ++ ["containers"]) []) (orElse message)) := by
  have hmore : ∀ l, (∀ place ∈ l, place ∈ dirsOf (base ++ ["containers"]) []) →
      Underway base m₁ name (s.1.makeDirs l) := by
    intro l hl
    refine h.1.more (N := fun place => place ∈ l) (fun place => Machine.has_makeDirs _ _)
      (fun place hs hmem => ?_) fun other hmem => .inl ((Machine.makeDirs_live s.1 l) ▸ hmem)
    have hway := hl place hmem
    rw [dirsOf, walk, List.append_nil, mem_ancestry] at hway
    exact (not_scratch hway.1 hs).elim
  refine step_ends h (fun r m' he => ?_) (fun r e he => ⟨orElse_error he, ?_⟩)
    fun r a hr => orElse_not_failed hr
  · cases r with
    | ok _ => exact (show m' = _ from he) ▸ hmore _ fun _ hmem => hmem
    | error made => exact he.2 ▸ hmore _ fun _ hmem => List.mem_of_mem_take hmem
  · cases r with
    | ok _ => cases he
    | error made => rintro ⟨-, ⟨other, heq⟩ | ⟨⟨other, heq⟩, -⟩⟩ <;> simp at heq

theorem config_ends (h : Going base id m₁ name s) :
    Ends logged (fun _ _ => True) (Ends.Outcome (LeftBehind base id "bundles" name)
      fun _ s' => Going base id m₁ name s') s
      (.ask (.write (base ++ ["bundles", name]) [.normal "config.json"] config) (orElse message)) := by
  have hfills : ∀ contents m', Machine.Fills s.1 (base ++ ["bundles", name]) [.normal "config.json"] contents m' →
      Underway base m₁ name m' := by
    rintro contents m' ⟨place, hplace, -, rfl⟩
    obtain rfl : base ++ ["bundles", name, "config.json"] = place := by
      simpa [fileAt, resolve, Component.from] using hplace
    exact h.1.put "config.json" _
  refine step_ends h (fun r m' he => ?_) (fun r e he => ⟨orElse_error he, fun hclean => hclean.elim⟩)
    fun r a hr => orElse_not_failed hr
  cases r with
  | ok _ => exact hfills config m' he
  | error e =>
    rcases he with rfl | ⟨part, hf⟩
    · exact h.1
    · exact hfills part m' hf

theorem sigaction_ends (h : Going base id m₁ name s) :
    Ends logged (fun _ _ => True) (Ends.Outcome (LeftBehind base id "bundles" name)
      fun _ s' => Going base id m₁ name s') s installSignalForwarding := by
  refine Ends.forM (J := fun _ s' => Going base id m₁ name s') h fun _ signum _ s hsplit hs => ?_
  refine step_ends hs (fun r m' he => ?_) (fun r e he => ⟨orElse_error he, fun hclean => hclean.elim⟩)
    fun r a hr => orElse_not_failed hr
  cases r with
  | ok _ =>
    obtain rfl : m' = _ := he
    exact hs.1.same rfl rfl
  | error e => exact (show m' = s.1 from he) ▸ hs.1

theorem swapNull_ends (h : Going base id m₁ name s) (stream : String) :
    Ends logged (fun _ _ => True) (Ends.Outcome (LeftBehind base id "bundles" name)
      fun _ s' => Going base id m₁ name s') s (swapNull stream) := by
  refine Ends.seq (step_ends h (fun r m' he => (show m' = s.1 from he) ▸ h.1) (fun r e he => by cases he)
    fun r a _ hfails => hfails.elim) fun isNull s' hs' => ?_
  refine onlyIf_ends hs' ?_ isNull
  exact step_ends hs' (fun r m' he => (show m' = s'.1 from he) ▸ hs'.1)
    (fun r e he => ⟨orElse_error he, fun hclean => hclean.elim⟩) fun r a hr => orElse_not_failed hr

theorem create_ends (h : Going base id m₁ name s) (config : String) (tty : Bool) (network : Network) :
    Ends logged (fun _ _ => True) (Ends.Outcome (LeftBehind base id "bundles" name)
      fun _ s' => Going base id m₁ name s') s
      (create base (base ++ ["bundles", name]) name config tty network) := by
  have hplain : ∀ {s : Machine × Log} {op : RunOp} {read : op.Res → Except String Unit},
      Going base id m₁ name s → (∀ r m', RunOp.effect op s.1 r m' → m' = s.1) →
      (∀ r e, read r = .error e → Fails op r ∧ ¬ CleanStop base op r) →
      (∀ r a, read r = .ok a → ¬ Fails op r) →
      Ends logged (fun _ _ => True) (Ends.Outcome (LeftBehind base id "bundles" name)
        fun _ s' => Going base id m₁ name s') s (.ask op read) :=
    fun hs hop herror hok => step_ends hs (fun r m' he => hop r m' he ▸ hs.1) herror hok
  unfold create
  refine Ends.seq (stateRoot_ends h) fun _ s₁ h₁ => ?_
  refine Ends.seq (onlyIf_ends h₁ ?_ _) fun _ s₂ h₂ => ?_
  · refine Ends.seq (bindSocket_ends h₁ hookSocket) fun _ s h => ?_
    exact hplain h (fun _ _ he => he) (fun r e he => ⟨orElse_error he, fun hclean => hclean.elim⟩)
      fun r a hr => orElse_not_failed hr
  refine Ends.seq (config_ends h₂) fun _ s₃ h₃ => ?_
  refine Ends.seq (hplain h₃ (fun _ _ he => he) (fun r e he => ⟨orElse_error he, fun hclean => hclean.elim⟩)
    fun r a hr => orElse_not_failed hr) fun _ s₄ h₄ => ?_
  refine Ends.seq (sigaction_ends h₄) fun _ s₅ h₅ => ?_
  refine Ends.seq (onlyIf_ends h₅ (bindSocket_ends h₅ "console.sock") tty) fun _ s₆ h₆ => ?_
  refine Ends.seq (hplain h₆ (fun _ _ he => he) (fun r e he => ⟨orElse_error he, fun hclean => hclean.elim⟩)
    fun r a hr => orElse_not_failed hr) fun _ s₇ h₇ => ?_
  refine Ends.seq (swapNull_ends h₇ "stdout") fun _ s₈ h₈ => ?_
  refine Ends.seq (swapNull_ends h₈ "stderr") fun _ s₉ h₉ => ?_
  refine Ends.ask_bind trivial (fun r s' created he hread => ?_) fun r s' e he hread => ?_
  · obtain ⟨he, hlog⟩ := he
    obtain rfl := orElse_ok.mp hread
    have hunder : Underway base m₁ name s'.1 := (show s'.1 = _ from he) ▸ h₉.1.created
    by_cases hpid : ∀ pid, created = some pid → pid = 0
    · have hrough : Rough base id s'.2 := by
        rw [hlog]
        exact h₉.2.rough (fun pid heq => hpid pid (by cases heq; rfl)) fun hclean => hclean.elim
      exact pid_ends hunder hrough tty created hpid
    · have hsmooth : Smooth base id s'.2 := by
        rw [hlog]
        refine h₉.2.snoc fun hfails => (hpid fun pid heq => hfails pid (by rw [heq])).elim
      simp only [not_forall] at hpid
      obtain ⟨pid, rfl, hne⟩ := hpid
      have hgoing : Going base id m₁ name s' := ⟨hunder, hsmooth⟩
      refine Ends.seq (onlyIf_ends hgoing ?_ tty) fun _ s₁₀ h₁₀ => ?_
      · exact hplain hgoing (fun _ _ he => he) (fun r e he => ⟨orElseOf_error he, fun hclean => hclean.elim⟩)
          fun r a hr => not_failed (orElseOf_ok.mp hr)
      have hraw : fromRaw pid = some pid := if_neg hne
      refine Ends.ofExcept_bind (fun p hp => ?_) fun e he => by cases he
      cases hp
      rw [hraw]
      exact .ret h₁₀
  · obtain ⟨he, hlog⟩ := he
    cases r with
    | ok created => cases hread
    | error e =>
      have hrough : Rough base id s'.2 := by
        rw [hlog]
        exact h₉.2.rough (fun pid heq => by cases heq) fun hclean => hclean.elim
      rcases he with heq | heq
      · exact ⟨heq ▸ h₉.1.bundle, hrough⟩
      · exact ⟨heq ▸ h₉.1.created.bundle, hrough⟩

-- ---------------------------------------------------------------------------
-- While the container runs
-- ---------------------------------------------------------------------------

/-- Makes nothing, and stops a run cleanly if it fails. -/
structure Quiet (base : Place) (op : RunOp) : Prop where
  entries : ∀ {m r m'}, RunOp.effect op m r m' → m'.entries = m.entries
  live : ∀ {m r m'}, RunOp.effect op m r m' → m'.live = m.live
  fails : ∀ {r}, Fails op r → CleanStop base op r

theorem quiet_of_same (h : ∀ m r m', RunOp.effect op m r m' → m' = m)
    (hfails : ∀ r, Fails op r → CleanStop base op r) : Quiet base op :=
  ⟨fun he => congrArg _ (h _ _ _ he), fun he => congrArg _ (h _ _ _ he), hfails _⟩

theorem quiet_of_signals (h : ∀ m r m', RunOp.effect op m r m' → ∃ signals, m' = { m with signals := signals })
    (hfails : ∀ r, Fails op r → CleanStop base op r) : Quiet base op := by
  refine ⟨fun he => ?_, fun he => ?_, hfails _⟩ <;> obtain ⟨signals, rfl⟩ := h _ _ _ he <;> rfl

theorem Going.quiet (h : Going base id m₁ name s) (hquiet : Quiet base op) (he : logged op s r s') :
    Going base id m₁ name s' := by
  obtain ⟨he, hlog⟩ := he
  exact ⟨h.1.same (hquiet.entries he) (hquiet.live he), hlog ▸ h.2.snoc hquiet.fails⟩

theorem quiet_ends {p : RunAct α} (h : Going base id m₁ name s) (honly : p.Only (Quiet base))
    (hseq : p.Sequential) :
    Ends logged (fun _ _ => True) (fun _ s' => Going base id m₁ name s') s p := by
  refine .of_invariant fun s' p' hs => ?_
  have halone : Alone logged (fun op _ => Quiet base op) (fun _ _ => True) s p.attempt :=
    .only (honly.attempt.imp fun op hop _ => hop)
  exact halone.invariant hseq.attempt h (fun op r s s' hi hquiet he => hi.quiet hquiet he) hs

theorem wait_quiet (base : Place) (pid : Int) : Quiet base (.wait pid) := by
  refine quiet_of_signals (fun m r m' he => ?_) fun _ _ => trivial
  dsimp only [RunOp.effect] at he
  split at he
  · exact ⟨_, he⟩
  · exact ⟨m.signals, he⟩

theorem deliverPending_ends (h : Going base id m₁ name s) (pid : Int) :
    Ends logged (fun _ _ => True) (Ends.Outcome bad fun _ s' => Going base id m₁ name s') s
      (deliverPending pid) := by
  have hstore : Quiet base (.storePid pid) := quiet_of_signals (fun _ _ _ he => ⟨_, he⟩) fun _ h => h.elim
  have htake : Quiet base .takePending := quiet_of_signals (fun _ _ _ he => ⟨_, he.2⟩) fun _ h => h.elim
  have hswap : Quiet base .swapForwarded := quiet_of_signals (fun _ _ _ he => ⟨_, he.2⟩) fun _ h => h.elim
  have hkill : ∀ signal, Quiet base (.kill pid signal) :=
    fun _ => quiet_of_signals (fun _ _ _ he => ⟨_, he⟩) fun _ h => h.elim
  unfold deliverPending
  refine Ends.ask_bind trivial (fun r s₁ _ he _ => ?_) fun r s' e _ hread => by cases hread
  have h₁ := h.quiet hstore he
  refine Ends.ask_bind trivial (fun r s₂ pending he _ => ?_) fun r s' e _ hread => by cases hread
  have h₂ := h₁.quiet htake he
  split
  · exact .ret h₂
  refine Ends.ask_bind trivial (fun r s₃ forwarded he _ => ?_) fun r s' e _ hread => by cases hread
  have h₃ := h₂.quiet hswap he
  cases forwarded with
  | true => exact .ret h₃
  | false => exact Ends.ask trivial fun r s' he => h₃.quiet (hkill _) he

theorem supervise_quiet (base : Place) (pid : Int) (tty : Bool) (network : Network) :
    (supervise pid tty network).Only (Quiet base) := by
  have hsame : ∀ op, (∀ m r m', RunOp.effect op m r m' → m' = m) →
      (∀ r, Fails op r → CleanStop base op r) → Quiet base op := fun op => quiet_of_same
  refine keeping_only (.ask (hsame _ (fun _ _ _ he => he) fun _ _ => trivial))
    (.ask (hsame _ (fun _ _ _ he => he) fun _ h => h.elim)) ?_
  refine .bind (.ask (hsame _ (fun _ _ _ he => he) fun _ _ => trivial)) fun _ => ?_
  refine keeping_only (.ask (hsame _ (fun _ _ _ he => he) fun _ _ => trivial))
    (.ask (hsame _ (fun _ _ _ he => he) fun _ h => h.elim)) ?_
  refine keeping_only (.ask (hsame _ (fun _ _ _ he => he) fun _ _ => trivial))
    (.ask (hsame _ (fun _ _ _ he => he) fun _ h => h.elim)) ?_
  refine .bind (.ask (wait_quiet base pid)) fun code => .bind (onlyIf_only ?_) fun _ => trivial
  exact .ask (hsame _ (fun _ _ _ he => he) fun _ h => h.elim)

-- ---------------------------------------------------------------------------
-- A run from its start to its end
-- ---------------------------------------------------------------------------

structure Restored (base : Place) (m₁ m₂ : Machine) : Prop where
  entries : ∀ place, Scratch base place → (m₂.has place = true ↔ m₁.has place = true)
  live : ∀ other ∈ m₂.live, other ∈ m₁.live

/-- What a run that fails leaves: nothing, or its bundle. -/
def RunFailed (base : Place) (id : String) (m₁ : Machine) (s : Machine × Log) : Prop :=
  Restored base m₁ s.1 ∧ Smooth base id s.2 ∨
    ∃ name, m₁.has (base ++ ["bundles", name]) = false ∧ LeftBehind base id "bundles" name s

theorem Underway.removed (h : Underway base m₁ name m₂) (hfresh : Fresh m₁ name) :
    Restored base m₁ ((m₂.delete (base ++ ["containers"]) name).removeTree (base ++ ["bundles", name])) := by
  have hhas : ∀ place, ((m₂.delete (base ++ ["containers"]) name).removeTree
        (base ++ ["bundles", name])).has place = true ↔
      (m₂.has place = true ∧ ¬ base ++ ["containers", name] <+: place) ∧
        ¬ base ++ ["bundles", name] <+: place := by
    intro place
    have hdelete : (m₂.delete (base ++ ["containers"]) name).has place =
        (m₂.removeTree (base ++ ["containers"] ++ [name])).has place := rfl
    rw [Machine.has_removeTree _ _ (by simp), hdelete, Machine.has_removeTree _ _ (by simp)]
    simp
  refine ⟨fun place hs => ?_, fun other hmem => ?_⟩
  · rw [hhas]
    constructor
    · rintro ⟨⟨hthere, hc⟩, hb⟩
      exact (h.outside place hs hb hc).mp hthere
    · intro hold
      have hnot : ∀ dir, ¬ base ++ [dir, name] <+: place := fun dir hpre =>
        hfresh place hold (hpre.subset (by simp))
      exact ⟨⟨(h.outside place hs (hnot _) (hnot _)).mpr hold, hnot _⟩, hnot _⟩
  · obtain ⟨hthere, hne⟩ := List.mem_filter.mp hmem
    exact (h.live other hthere).resolve_right (by simpa using hne)

theorem bundle_ends (hfresh : Fresh m₁ name) (hs : s.1 = m₁) (hl : Smooth base id s.2) :
    Ends logged (fun _ _ => True) (Ends.Outcome (RunFailed base id m₁)
      fun _ s' => Going base id m₁ name s') s
      (.ask (.createDirAll (base ++ ["bundles", name]) []) (orElse message)) := by
  subst hs
  have hway : ∀ place ∈ dirsOf (base ++ ["bundles", name]) [], Scratch base place →
      base ++ ["bundles", name] <+: place := by
    intro place hmem hscratch
    rw [dirsOf, walk, List.append_nil, mem_ancestry] at hmem
    exact scratch_above hmem.1 hscratch
  refine .ask trivial fun r s' he => ?_
  obtain ⟨he, hlog⟩ := he
  cases r with
  | ok _ =>
    have he : s'.1 = s.1.makeDirs (dirsOf (base ++ ["bundles", name]) []) := he
    refine ⟨⟨?_, fun place hs hb _ => ?_, fun other hmem => .inl ?_⟩,
      hlog ▸ hl.snoc fun hfails => (not_failed rfl hfails).elim⟩
    · rw [he, Machine.has_makeDirs, dirsOf, walk, List.append_nil, mem_ancestry]
      exact .inl ⟨List.prefix_refl _, by simp⟩
    · rw [he, Machine.has_makeDirs]
      exact or_iff_right fun hmem => hb (hway place hmem hs)
    · rwa [he, Machine.makeDirs_live] at hmem
  | error made =>
    obtain ⟨hmade, he⟩ := he
    refine .inl ⟨⟨fun place hs => ?_, fun other hmem => ?_⟩, hlog ▸ hl.snoc fun _ => ⟨rfl, .inl ⟨name, rfl⟩⟩⟩
    · rw [he, Machine.has_makeDirs]
      refine or_iff_right fun hmem => ?_
      have hpre := hway place (List.mem_of_mem_take hmem) hs
      rw [dirsOf, walk, List.append_nil, mem_take_ancestry] at hmem
      have hlen := hpre.length_le
      have hshort := hmem.2.2
      simp only [List.length_append, List.length_cons, List.length_nil] at hlen hmade
      omega
    · rwa [he, Machine.makeDirs_live] at hmem

theorem run_ends (hl : Smooth base id s.2) (config : String) (tty : Bool) (network : Network) :
    Ends logged (fun _ _ => True) (Ends.Outcome (RunFailed base id s.1) fun _ _ => True) s
      (run base config tty network) := by
  unfold run
  refine Ends.seq (Q := fun _ s' => s'.1 = s.1 ∧ Smooth base id s'.2) (.ask trivial fun r s' he => ?_)
    fun _ s₁ h₁ => ?_
  · obtain ⟨he, hlog⟩ := he
    have hl' : Smooth base id s'.2 := hlog ▸ hl.snoc fun _ => trivial
    have he : s'.1 = s.1 := he
    split
    · exact ⟨he, hl'⟩
    · exact .inl ⟨he ▸ ⟨fun _ _ => Iff.rfl, fun _ h => h⟩, hl'⟩
  obtain ⟨heq, hl₁⟩ := h₁
  refine Ends.ask_bind trivial (fun (unique : String) s₂ _ he hread => ?_) fun r s' e _ hread => by cases hread
  cases hread
  obtain ⟨⟨he, hunused, -⟩, hlog⟩ := he
  have hfresh : Fresh s.1 s!"climate-{unique}" := by
    rw [heq] at hunused
    refine hunused.fresh ⟨"climate-".toList, [], ?_⟩
    change _ = ("climate-" ++ unique).toList
    rw [String.toList_append, List.append_nil]
  have hl₂ : Smooth base id s₂.2 := hlog ▸ hl₁.snoc fun hfails => hfails.elim
  refine Ends.seq (bundle_ends hfresh (he.trans heq) hl₂) fun _ s₃ h₃ => ?_
  refine Ends.bind (create_ends h₃ config tty network) (fun pid s₄ h₄ => ?_)
    fun e s' hleft => .inr ⟨_, hfresh.new (by simp), hleft⟩
  refine Ends.seq (deliverPending_ends h₄ pid) fun _ s₅ h₅ => ?_
  refine Ends.attempt_bind (quiet_ends h₅ (supervise_quiet base pid tty network)
    (supervise_sequential pid tty network)) fun result s₆ h₆ => ?_
  have hclear : Quiet base .clearPid := quiet_of_signals (fun _ _ _ he => ⟨_, he⟩) fun _ h => h.elim
  refine Ends.ask_bind trivial (fun _ s₇ _ he _ => ?_) fun r s' e _ hread => by cases hread
  have h₇ := h₆.quiet hclear he
  refine Ends.ask_bind trivial (fun _ s₈ _ he _ => ?_) fun r s' e _ hread => by cases hread
  obtain ⟨he₈, hlog₈⟩ := he
  have hl₈ : Smooth base id s₈.2 := hlog₈ ▸ h₇.2.snoc fun hfails => hfails.elim
  refine Ends.ask_bind trivial (fun _ s₉ _ he _ => ?_) fun r s' e _ hread => by cases hread
  obtain ⟨he₉, hlog₉⟩ := he
  have hl₉ : Smooth base id s₉.2 := hlog₉ ▸ hl₈.snoc fun hfails => hfails.elim
  have hrestored : Restored base s.1 s₉.1 := by
    rw [show s₉.1 = _ from he₉, show s₈.1 = _ from he₈]
    exact h₇.1.removed hfresh
  cases result with
  | ok code => exact .ret trivial
  | error e => exact .throw (.inl ⟨hrestored, hl₉⟩)

theorem RunFailed.dropped (h : RunFailed base id s.1 s₁) (hm : Mounted base images layers points writable m id s)
    (hlog : Smooth base id s₁.2 → Smooth base id l) (hrough : Rough base id s₁.2 → Rough base id l) :
    Judged base images layers points writable m (s₁.1.removeTree (base ++ ["overlays", id]), l) := by
  rcases h with ⟨hrestored, hsmooth⟩ | ⟨name, hnew, hleft⟩
  · have hstacked : Stacked base m id points s₁.1 := by
      refine ⟨(hrestored.entries _ (scratch_entry _ _ (by simp))).mpr hm.stacked.overlay,
        fun place hs hout => ?_, fun other hmem => hm.stacked.live other (hrestored.live other hmem)⟩
      rw [hrestored.entries place hs]
      exact hm.stacked.outside place hs hout
    exact hstacked.removed (hlog hsmooth) hm.expressible
  · have hout : ¬ base ++ ["overlays", id] <+: base ++ ["bundles", name] := by
      rw [List.prefix_append_right_inj]
      simp
    have hleft' : LeftBehind base id "bundles" name (s₁.1.removeTree (base ++ ["overlays", id]), l) :=
      ⟨(Machine.has_removeTree _ _ (by simp)).mpr ⟨hleft.1, hout⟩, hrough hleft.2⟩
    refine hleft'.verdict (Bool.eq_false_iff.mpr fun hold => ?_) (by simp)
    · have hthere := (hm.stacked.outside _ (scratch_entry _ _ (by simp)) hout).mpr (.inl hold)
      rw [hthere] at hnew
      cases hnew

theorem launch_ends (m : Machine) (config : String) (tty : Bool) (network : Network) :
    Ends logged (fun _ _ => True)
      (Ends.Outcome (Judged base images layers points writable m) fun _ _ => True) (m, [])
      (launch base images layers points writable config tty network) := by
  unfold launch
  refine Ends.seq (Mount.new_ends m) fun mount s hmount => ?_
  obtain ⟨id, hdir, hm⟩ := hmount
  refine Ends.attempt_bind (run_ends hm.smooth config tty network) fun code s₁ h₁ => ?_
  unfold Mount.drop
  rw [hdir, bind_assoc]
  refine Ends.ask_bind trivial (fun _ s₂ _ he _ => ?_) fun r s' e _ hread => by cases hread
  obtain ⟨he₂, hlog₂⟩ := he
  refine Ends.ask_bind trivial (fun _ s₃ _ he _ => ?_) fun r s' e _ hread => by cases hread
  obtain ⟨he₃, hlog₃⟩ := he
  have hremoved : s₃.1 = s₁.1.removeTree (base ++ ["overlays", id]) := by
    rw [show s₃.1 = _ from he₃, show s₂.1 = _ from he₂]
  cases code with
  | ok code => exact .ret trivial
  | error e =>
    refine .throw ?_
    have hjudged : Judged base images layers points writable m
        (s₁.1.removeTree (base ++ ["overlays", id]), s₃.2) := by
      rw [hlog₃, hlog₂]
      refine RunFailed.dropped h₁ hm (fun hsmooth => ?_) fun hrough => hrough.snoc.snoc
      have h₂ : Smooth base id (s₁.2 ++ [⟨.unmount mount.merged, ()⟩]) := hsmooth.snoc fun hfails => hfails.elim
      exact h₂.snoc fun hfails => hfails.elim
    change CleanedUp base m s₃.1 ↔ _
    rw [hremoved]
    exact hjudged

/-- A launch that fails leaves nothing exactly if its log is tidy. -/
theorem launch_cleans_up_iff
    (hs : Steps logged (m, []) (launch base images layers points writable config tty network)
      (m', l) (.throw e)) :
    CleanedUp base m m' ↔ Tidy base images layers points writable m l :=
  Ends.thrown (launch_ends m config tty network) hs

namespace Workshop

def runtimeDir : Place := ["run", "user", "1000", "climate"]

def imagesDir : Place := ["home", "u", "imagesDir"]

def before : Machine := { entries := [(runtimeDir, .dir), (imagesDir ++ ["layers", "sha256", "ab"], .dir)] }

def launching : RunAct Int := launch runtimeDir imagesDir ["sha256:ab"] [.dir "/proc"] none "\x7b\x7d" false .none

def launched (refused : List RunOp) : (Machine × Log) × RunAct Int :=
  Prog.run (worker refused).logged 40 ((before, []), launching)

def makesMerged : RunOp → Bool
  | .createDirAll dir _ => dir.getLast? = some "merged"
  | _ => false

theorem start_refused_cleaned_up :
    ∃ m l, Steps logged (before, []) launching (m, l) (.throw "starting the container") ∧
      CleanedUp runtimeDir before m := by
  have hs : Steps logged (before, []) launching (launched [.startContainer]).1
      (.throw "starting the container") :=
    run_failure _ 40 (by rfl)
  refine ⟨(launched [.startContainer]).1.1, (launched [.startContainer]).1.2, hs,
    (launch_cleans_up_iff hs).mpr (tidy_of_all ?_ ?_)⟩
  · have hfails : ∀ x ∈ (launched [.startContainer]).1.2, x.1 = .startContainer ∨ ¬ Fails x.1 x.2 := by
      decide
    rintro ⟨op, r⟩ hmem hx
    obtain rfl : op = .startContainer := (hfails _ hmem).resolve_right fun hnot => hnot hx
    trivial
  · have hmade : ∀ op ∈ (launched [.startContainer]).1.2.map (·.1), makesMerged op = true →
        op = .createDirAll (runtimeDir ++ ["overlays", "7-1", "merged"]) [] := by
      decide
    intro id hmem
    have hop := hmade _ (List.mem_map_of_mem hmem) (by simp [makesMerged, mergedMade])
    obtain rfl : id = "7-1" := by simpa [mergedMade] using hop
    refine ⟨⟨by decide, ?_, by decide⟩, ?_⟩
    · intro digest hdigest
      obtain rfl := List.mem_singleton.mp hdigest
      exact ⟨"sha256", "ab", by rfl, by decide⟩
    · intro point hpoint place hplace _ hout
      obtain rfl := List.mem_singleton.mp hpoint
      have hin : ∀ place ∈ walk (runtimeDir ++ ["overlays", "7-1", "stub"]) (components "/proc"),
          runtimeDir ++ ["overlays", "7-1"] <+: place := by
        decide
      exact (hout (hin place hplace)).elim

/-- The bundle stays if the process cannot become a subreaper. -/
theorem subreaper_refused_leaves_bundle :
    ∃ m l, Steps logged (before, []) launching (m, l) (.throw "becoming a child subreaper") ∧
      ¬ CleanedUp runtimeDir before m := by
  have hs : Steps logged (before, []) launching (launched [.subreaper]).1 (.throw "becoming a child subreaper") :=
    run_failure _ 40 (by rfl)
  refine ⟨(launched [.subreaper]).1.1, (launched [.subreaper]).1.2, hs, fun hclean => ?_⟩
  have hstays : (launched [.subreaper]).1.1.has (runtimeDir ++ ["bundles", "climate-7-2"]) = true := by
    rfl
  have hold := hclean.entries _ (scratch_entry "bundles" "climate-7-2" (by decide)) hstays
  revert hold
  decide

end Workshop

end Climate.Runtime
