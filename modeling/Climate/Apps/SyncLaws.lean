import Climate.Apps.Sync
import Climate.Lib.Alone

/-!
# What a sync does

A sync that returns has moved the local branch named after the remote's
default one to the new tip, and has applied to the working tree the difference
between the tree that branch had before and the new one. However a sync ends,
the commits of all local branches are stored.
-/

namespace Climate.Apps

variable {grit : Grit} {around : Surroundings} {up : Upstream}

-- ---------------------------------------------------------------------------
-- Names of refs
-- ---------------------------------------------------------------------------

theorem localBranch_inj : localBranch b = localBranch b' ↔ b = b' := by
  rw [localBranch, localBranch, String.append_right_inj]

theorem tracking_inj : tracking b = tracking b' ↔ b = b' := by
  unfold tracking
  exact String.append_right_inj _

theorem localBranch_ne_tracking : localBranch b ≠ tracking b' := by
  unfold localBranch tracking
  intro h
  have hchars := congrArg String.toList h
  have hlocal : "refs/heads/".toList = "refs/".toList ++ 'h' :: "eads/".toList := by decide
  have htracking : "refs/remotes/origin/".toList = "refs/".toList ++ 'r' :: "emotes/origin/".toList := by
    decide
  rw [String.toList_append, String.toList_append, hlocal, htracking] at hchars
  simp at hchars

theorem find_tracking (branches : List (String × Oid)) (name : String) :
    ((branches.map fun (branch, oid) =>
        ({ localRef := some (tracking branch), newOid := some oid } : RefUpdate)).find?
      fun update => update.localRef = some (tracking name)).bind (·.newOid) = branches.lookup name := by
  induction branches with
  | nil => rfl
  | cons e branches ih =>
    obtain ⟨branch, oid⟩ := e
    rw [List.map_cons, List.find?_cons, List.lookup_cons]
    by_cases heq : name = branch
    · simp [heq]
    · have hne : tracking branch ≠ tracking name := fun h => heq (tracking_inj.mp h).symm
      have hbeq : (name == branch) = false := by simpa using heq
      simp only [hne, hbeq, Option.some.injEq, decide_false]
      exact ih

/-- A fetch reports the tip of the default branch. -/
theorem outcome_tip (up : Upstream) : up.outcome.tip up.default = some up.tip :=
  (find_tracking up.branches up.default).trans up.advertised

theorem outcome_updates (up : Upstream) : up.outcome.updates.isEmpty = false := by
  have hadvertised := up.advertised
  cases hbranches : up.branches with
  | nil => rw [hbranches] at hadvertised; cases hadvertised
  | cons e branches => simp [Upstream.outcome, hbranches]

-- ---------------------------------------------------------------------------
-- Local branches and their trees
-- ---------------------------------------------------------------------------

namespace Target

def branch (t : Target) (name : String) : Option Oid :=
  t.git.bind fun repo => repo.refs.lookup (localBranch name)

def Has (t : Target) (oid : Oid) : Prop := ∃ repo, t.git = some repo ∧ oid ∈ repo.objects

/-- The tree that a checkout of a branch is compared with. -/
def branchTree (t : Target) (grit : Grit) (name : String) : Tree :=
  baseline ((t.branch name).map fun oid => (grit.commit oid).tree)

def remoteUrl (t : Target) : Option String :=
  t.git.bind fun repo => repo.config.lookup "remote.origin.url"

@[simp] theorem update_isSome (t : Target) (f : Repository → Repository) :
    (t.update f).git.isSome = t.git.isSome := by
  simp [update]

/-- A change that leaves the local branches as they are. -/
theorem update_branch (f : Repository → Repository)
    (h : ∀ repo name, (f repo).refs.lookup (localBranch name) = repo.refs.lookup (localBranch name))
    (t : Target) (name : String) : (t.update f).branch name = t.branch name := by
  cases hgit : t.git <;> simp [branch, update, hgit, h]

theorem update_has {f : Repository → Repository}
    (h : ∀ repo, repo.objects ⊆ (f repo).objects) (t : Target) (hhas : t.Has oid) :
    (t.update f).Has oid := by
  obtain ⟨repo, hgit, hmem⟩ := hhas
  exact ⟨f repo, by simp [update, hgit], h repo hmem⟩

@[simp] theorem configured_branch (t : Target) (config : ConfigFile) :
    (t.configured config).branch name = t.branch name := by
  refine update_branch _ (fun _ _ => ?_) t name
  rfl

@[simp] theorem pointed_branch (t : Target) (dest : String) :
    (t.pointed dest).branch name = t.branch name := by
  refine update_branch _ (fun _ _ => ?_) t name
  rfl

@[simp] theorem fetched_branch (t : Target) (up : Upstream) :
    (t.fetched up).branch name = t.branch name := by
  refine update_branch _ (fun repo name => ?_) t name
  have hrefs : ∀ (branches : List (String × Oid)) (refs : Files String Oid),
      (branches.foldl (fun refs (branch, oid) => refs.insert (tracking branch) oid) refs).lookup
        (localBranch name) = refs.lookup (localBranch name) := by
    intro branches
    induction branches with
    | nil => exact fun refs => rfl
    | cons e branches ih =>
      intro refs
      rw [List.foldl_cons, ih, AList.lookup_insert_ne localBranch_ne_tracking]
  exact hrefs up.branches repo.refs

theorem pointed_has (t : Target) (dest : String) (h : t.Has oid) : (t.pointed dest).Has oid := by
  refine update_has (fun _ => ?_) t h
  exact List.Subset.refl _

theorem withRef_has (t : Target) (name : String) (h : t.Has oid) : (t.withRef name new).Has oid := by
  refine update_has (fun _ => ?_) t h
  exact List.Subset.refl _

theorem fetched_has (t : Target) (up : Upstream) (h : t.git.isSome) : (t.fetched up).Has up.tip := by
  obtain ⟨repo, hgit⟩ := Option.isSome_iff_exists.mp h
  refine ⟨_, by rw [fetched, update, hgit, Option.map_some], ?_⟩
  have hmem : (up.default, up.tip) ∈ up.branches := by
    have hadvertised := up.advertised
    rw [List.lookup_eq_some_iff] at hadvertised
    obtain ⟨before, after, heq, -⟩ := hadvertised
    simp [heq]
  exact List.mem_append_left _ (List.mem_map_of_mem hmem)

theorem withRef_branch (t : Target) (oid : Oid) (h : t.git.isSome) :
    (t.withRef (localBranch b) oid).branch name = if name = b then some oid else t.branch name := by
  obtain ⟨repo, hgit⟩ := Option.isSome_iff_exists.mp h
  by_cases heq : name = b
  · subst heq
    simp [branch, withRef, update, hgit, AList.lookup_insert]
  · have hne : localBranch name ≠ localBranch b := fun h => heq (localBranch_inj.mp h)
    simp [branch, withRef, update, hgit, heq, AList.lookup_insert_ne hne]

end Target

-- ---------------------------------------------------------------------------
-- The state of a target between syncs
-- ---------------------------------------------------------------------------

/-- Files are only checked out into a repository, and what a local branch
stands for is stored. -/
structure Target.Sound (t : Target) : Prop where
  work : t.git = none → ∀ path, t.work.lookup path = none
  stored : ∀ name oid, t.branch name = some oid → t.Has oid

/-- The state an operation is made in. -/
def Op.Fits : Op → Target → Prop
  | .writeRef name oid, t => t.Has oid ∧ ∃ branch, name = localBranch branch
  | .place _ _, t => t.git.isSome = true
  | _, _ => True

theorem Target.sound_empty : ({} : Target).Sound := ⟨fun _ _ => rfl, fun _ _ h => by cases h⟩

theorem Target.Sound.update {t : Target} {f : Repository → Repository} (h : t.Sound)
    (hrefs : ∀ repo name, (f repo).refs.lookup (localBranch name) = repo.refs.lookup (localBranch name))
    (hobjects : ∀ repo, repo.objects ⊆ (f repo).objects) : (t.update f).Sound where
  work hnone := h.work (by simpa [Target.update] using hnone)
  stored name oid hbranch :=
    Target.update_has hobjects t (h.stored name oid (by rwa [Target.update_branch f hrefs] at hbranch))

theorem Target.Sound.configured {t : Target} (h : t.Sound) (config : ConfigFile) :
    (t.configured config).Sound := h.update (fun _ _ => rfl) fun _ => List.Subset.refl _

theorem Target.Sound.pointed {t : Target} (h : t.Sound) (dest : String) : (t.pointed dest).Sound :=
  h.update (fun _ _ => rfl) fun _ => List.Subset.refl _

theorem Target.Sound.fetched {t : Target} (h : t.Sound) (up : Upstream) : (t.fetched up).Sound where
  work hnone := h.work (by simpa [Target.fetched, Target.update] using hnone)
  stored name oid hbranch := by
    rw [Target.fetched_branch] at hbranch
    exact Target.update_has (fun _ => List.subset_append_right _ _) t (h.stored name oid hbranch)

theorem Target.Sound.withRef {t : Target} (h : t.Sound) (hhas : t.Has oid) :
    (t.withRef (localBranch b) oid).Sound where
  work hnone := h.work (by simpa [Target.withRef, Target.update] using hnone)
  stored name oid' hbranch := by
    obtain ⟨repo, hgit, -⟩ := id hhas
    rw [Target.withRef_branch t oid (by simp [hgit])] at hbranch
    refine Target.withRef_has t _ ?_
    split at hbranch
    · cases hbranch
      exact hhas
    · exact h.stored name oid' hbranch

theorem Target.sound_initialised (t : Target) (b : String) : (t.initialised b).Sound where
  work hgit := by cases hgit
  stored name oid hbranch := by simp [Target.branch, Target.initialised] at hbranch

theorem Target.Sound.placed {t : Target} (h : t.Sound) (hgit : t.git.isSome = true) (path : String)
    (contents : Option String) : (t.placed path contents).Sound where
  work hnone := by simp [Target.placed] at hnone; simp [hnone] at hgit
  stored := h.stored

theorem Writes.cases {t t' done : Target} {r : Except String Unit} (h : Writes t t' done r) :
    t' = t ∨ t' = done := by
  cases r with
  | ok _ => exact .inr h
  | error _ => exact h

/-- The step lemma. -/
theorem Target.Sound.step {op : Op} {t t' : Target} {r : op.Res} (h : t.Sound) (hfits : op.Fits t)
    (he : op.effect grit around t r t') : t'.Sound := by
  cases op with
  | isRepository | hasEntries | appsUrl | resolveRef => rw [he.1]; exact h
  | openRepository | loadConfig | readConfig | readCommit | diffTrees => rw [he.1]; exact h
  | createParent | connect => cases he; exact h
  | initRepository b =>
    rcases Writes.cases he with rfl | rfl
    · exact h
    · exact Target.sound_initialised t b
  | writeConfig config =>
    rcases he with he | ⟨-, rfl⟩
    · rcases Writes.cases he with rfl | rfl
      · exact h
      · exact h.configured config
    · exact h.configured ∅
  | fetch transport url =>
    cases r with
    | ok outcome => rw [he.2]; exact h.fetched _
    | error e =>
      rcases he with rfl | rfl
      · exact h
      · exact h.fetched _
  | writeSymbolicRef name dest =>
    rcases Writes.cases he with rfl | rfl
    · exact h
    · exact h.pointed dest
  | writeRef name oid =>
    obtain ⟨hhas, branch, rfl⟩ := hfits
    rcases Writes.cases he with rfl | rfl
    · exact h
    · exact h.withRef hhas
  | place path contents =>
    cases r with
    | ok _ => cases he; exact h.placed hfits path contents
    | error e =>
      rcases he with rfl | ⟨torn, rfl⟩
      · exact h
      · exact h.placed hfits path torn

-- ---------------------------------------------------------------------------
-- The functions
-- ---------------------------------------------------------------------------

@[simp] theorem context_ok {r : Except String α} : context message r = .ok a ↔ r = .ok a := by
  cases r <;> simp [context, Except.mapError]

/-- What a sync that returns has done. -/
structure Synced (grit : Grit) (up : Upstream) (t t' : Target) : Prop where
  git : t'.git.isSome = true
  work : Files.Applied (t.branchTree grit up.default) (up.tree grit) t.work t'.work
  branch : ∀ name, t'.branch name = if name = up.default then some up.tip else t.branch name

abbrev Does (grit : Grit) (around : Surroundings) (post : α → Target → Prop) (t : Target) (p : Act α) :
    Prop := Prog.Alone (Op.effect grit around) Op.Fits post t p

theorem previousTree_does (t : Target) (name : String) : Does grit around
    (fun old t' => t' = t ∧ baseline old = t.branchTree grit name) t (previousTree name) := by
  refine .ask_bind trivial fun r t' resolved he hread => ?_
  cases hread
  obtain ⟨rfl, hfound⟩ := he
  cases r with
  | error e =>
    refine .ret ⟨rfl, ?_⟩
    have hnone : t'.branch name = none := by
      by_contra hsome
      obtain ⟨oid, hoid⟩ := Option.ne_none_iff_exists'.mp hsome
      have hcontra := (hfound oid).mpr (by simpa [Target.branch, Option.bind_eq_some_iff] using hoid)
      cases hcontra
    rw [Target.branchTree, hnone]
    rfl
  | ok oid =>
    obtain ⟨repo, hgit, hlookup⟩ := (hfound oid).mp rfl
    refine .ask_bind trivial fun r t'' commit he hread => ?_
    obtain ⟨rfl, hcommit⟩ := he
    obtain ⟨-, -, -, rfl⟩ := hcommit commit (context_ok.mp hread)
    refine .ret ⟨rfl, ?_⟩
    have hbranch : t''.branch name = some oid := by simp [Target.branch, hgit, hlookup]
    rw [Target.branchTree, hbranch]
    rfl

/-- A checkout puts the files in place that the two trees disagree on. -/
theorem checkoutBetweenTrees_does (t : Target) (hgit : t.git.isSome = true) (old : Option Tree)
    (new : Tree) : Does grit around
    (fun _ t' => t'.git = t.git ∧ Files.Applied (baseline old) new t.work t'.work) t
    (checkoutBetweenTrees old new) := by
  refine .ask_bind trivial fun r t₁ changes he hread => ?_
  obtain ⟨rfl, hlists⟩ := he
  obtain ⟨⟨-, hpaths⟩, -⟩ := hlists changes (context_ok.mp hread)
  let inv : List Change → Target → Prop := fun done t' => t'.git = t₁.git ∧ ∀ path,
    t'.work.lookup path = if path ∈ done.map (·.path) then new.lookup path else t₁.work.lookup path
  refine Prog.Alone.weaken (.forM ⟨rfl, by simp⟩ fun done change rest t' _ hinv => ?_ :
    Does grit around (fun _ => inv changes) t₁ (changes.forM _)) fun _ t' hinv => ⟨hinv.1, fun path => ?_⟩
  · obtain ⟨hgit', hdone⟩ := hinv
    refine .ask (by simp [Op.Fits, hgit', hgit]) fun r t'' _ he hread => ?_
    cases context_ok.mp hread
    cases he
    refine ⟨hgit', fun path => ?_⟩
    by_cases heq : path = change.path
    · subst heq; simp [Target.placed]
    · simp [Target.placed, heq, hdone path]
  · rw [hinv.2 path]
    by_cases heq : (baseline old).lookup path = new.lookup path
    · rw [if_neg fun hmem => (hpaths path).mp hmem heq, if_pos heq]
    · rw [if_pos ((hpaths path).mpr heq), if_neg heq]

theorem checkoutTip_does (t : Target) (hhas : t.Has up.tip) : Does grit around
    (fun _ t' => Synced grit up t t') t (checkoutTip up.default up.tip) := by
  obtain ⟨repo, hgit, -⟩ := id hhas
  refine .bind (previousTree_does t up.default) fun old t₁ hold => ?_
  obtain ⟨rfl, hbase⟩ := hold
  refine .ask_bind trivial fun r t₂ _ he hread => ?_
  cases context_ok.mp hread
  cases he
  refine .ask_bind ⟨?_, _, rfl⟩ fun r t₃ _ he hread => ?_
  · exact Target.pointed_has t₁ _ hhas
  cases context_ok.mp hread
  cases he
  refine .ask_bind trivial fun r t₄ commit he hread => ?_
  obtain ⟨rfl, hcommit⟩ := he
  obtain ⟨-, -, -, rfl⟩ := hcommit commit (context_ok.mp hread)
  refine .ask_bind trivial fun r t₅ changes he hread => ?_
  obtain ⟨rfl, -⟩ := he
  have hsome : (t₁.pointed (localBranch up.default)).git.isSome = true := by
    simp [Target.pointed, hgit]
  refine .bind (checkoutBetweenTrees_does _ (by simp [Target.withRef, hsome]) old _) fun _ t₆ hdone => .ret ?_
  obtain ⟨hgit₆, hwork⟩ := hdone
  refine ⟨?_, hbase ▸ hwork, fun name => ?_⟩
  · rw [hgit₆]
    simp [Target.withRef, hsome]
  · rw [Target.branch, hgit₆, ← Target.branch, Target.withRef_branch _ _ hsome, Target.pointed_branch]

theorem fetch_does (t : Target) (url : String) : Does grit around
    (fun outcome t' => outcome = around.upstream.outcome ∧ t' = t.fetched around.upstream) t
    (fetch grit url) := by
  have hask : ∀ transport, Does grit around
      (fun outcome t' => outcome = around.upstream.outcome ∧ t' = t.fetched around.upstream) t
      (.ask (.fetch transport url) (context s!"fetching {url}")) := by
    refine fun transport => .ask trivial fun r t' outcome he hread => ?_
    cases context_ok.mp hread
    exact he
  unfold fetch
  split
  · refine .ask_bind trivial fun r t' _ he _ => ?_
    cases he
    exact hask .ssh
  · split
    · exact hask .http
    · exact .throw

theorem fetchAndCheckout_does (t : Target) (hgit : t.git.isSome = true) (url : String) :
    Does grit around (fun _ t' => Synced grit around.upstream t t') t (fetchAndCheckout grit url) := by
  refine .bind (fetch_does t url) fun outcome t₁ hfetched => ?_
  obtain ⟨rfl, rfl⟩ := hfetched
  rw [outcome_updates, if_neg (by simp)]
  have htip := outcome_tip around.upstream
  simp only [Upstream.outcome] at htip ⊢
  rw [htip]
  refine (checkoutTip_does _ (t.fetched_has _ hgit)).weaken fun _ t' h => ⟨h.git, ?_, fun name => ?_⟩
  · have hwork := h.work
    rwa [Target.branchTree, Target.fetched_branch] at hwork
  · rw [h.branch, Target.fetched_branch]

/-- The URL of the remote is at hand: recorded, or not needed as there is no
repository yet. -/
def Target.Located (t : Target) : Prop := t.git = none ∨ ∃ url, t.remoteUrl = some url

/-- What a sync does, however it goes. -/
theorem sync_does (t : Target) : Does grit around
    (fun _ t' => t.Located ∧ Synced grit around.upstream t t') t (sync grit target) := by
  refine .ask_bind trivial fun r t₁ isRepository he hread => ?_
  obtain ⟨rfl, rfl⟩ := he
  cases hread
  cases hgit : t₁.git with
  | some repo =>
    refine .ask_bind trivial fun r t₂ _ he _ => ?_
    obtain ⟨rfl, -⟩ := he
    refine .ask_bind trivial fun r t₃ config he hread => ?_
    obtain ⟨rfl, hconfig⟩ := he
    obtain ⟨repo', hgit', rfl⟩ := hconfig config (context_ok.mp hread)
    cases hurl : repo'.config.lookup "remote.origin.url" with
    | none => exact .throw
    | some url =>
      refine (fetchAndCheckout_does t₃ (by simp [hgit]) url).weaken fun _ t' h => ⟨.inr ⟨url, ?_⟩, h⟩
      simp [Target.remoteUrl, hgit', hurl]
  | none =>
    refine .ask_bind trivial fun r t₂ hasEntries he _ => ?_
    obtain ⟨rfl, -⟩ := he
    cases hasEntries with
    | true => exact .throw
    | false =>
      refine .ask_bind trivial fun r t₃ _ he _ => ?_
      cases he
      refine .ask_bind trivial fun r t₄ appsUrl he _ => ?_
      obtain ⟨rfl, -⟩ := he
      refine .ask_bind trivial fun r t₅ _ he hread => ?_
      cases context_ok.mp hread
      cases he
      refine .ask_bind trivial fun r t₆ config he _ => ?_
      obtain ⟨rfl, -⟩ := he
      cases config with
      | none => exact .throw
      | some config =>
        refine .ask_bind trivial fun r t₇ _ he hread => ?_
        cases context_ok.mp hread
        have hdone : t₇ = (t₄.initialised "main").configured
            (recordRemote config (appsUrl.getD defaultAppsUrl)) := by
          rcases he with he | ⟨hne, -⟩
          · exact he
          · exact absurd rfl hne
        subst hdone
        refine (fetchAndCheckout_does _ (by simp [Target.configured, Target.initialised]) _).weaken
          fun _ t' h => ⟨.inl hgit, h.git, ?_, fun name => ?_⟩
        · have hwork := h.work
          have hfresh : ∀ name, (t₄.initialised "main").branch name = t₄.branch name := by
            intro name
            simp [Target.branch, Target.initialised, hgit]
          rwa [Target.branchTree, Target.configured_branch, hfresh] at hwork
        · rw [h.branch, Target.configured_branch]
          simp [Target.branch, Target.initialised, hgit]

theorem sync_sequential : (sync grit target).Sequential := by
  have hfetch : ∀ url, (fetch grit url).Sequential := by
    intro url
    unfold fetch
    split
    · exact .bind (.ask _ _) fun _ => .ask _ _
    · split
      · exact .ask _ _
      · trivial
  have hprevious : ∀ branch, (previousTree branch).Sequential := by
    intro branch
    refine .bind (.ask _ _) fun resolved => ?_
    cases resolved with
    | error e => trivial
    | ok oid => exact .bind (.ask _ _) fun _ => trivial
  have htip : ∀ branch tip, (checkoutTip branch tip).Sequential := fun branch tip =>
    .bind (hprevious branch) fun _ => .bind (.ask _ _) fun _ => .bind (.ask _ _) fun _ =>
      .bind (.ask _ _) fun _ => .bind (.ask _ _) fun _ =>
        .bind (.bind (.ask _ _) fun _ => .forM fun _ => .ask _ _) fun _ => trivial
  have hcheckout : ∀ url, (fetchAndCheckout grit url).Sequential := by
    refine fun url => .bind (hfetch url) fun outcome => ?_
    split
    · trivial
    · split
      · trivial
      · split
        · trivial
        · exact htip _ _
  refine .bind (.ask _ _) fun isRepository => ?_
  split
  · refine .bind (.ask _ _) fun _ => .bind (.ask _ _) fun config => ?_
    split
    · trivial
    · exact hcheckout _
  · refine .bind (.ask _ _) fun hasEntries => ?_
    split
    · trivial
    · refine .bind (.ask _ _) fun _ => .bind (.ask _ _) fun _ => .bind (.ask _ _) fun _ =>
        .bind (.ask _ _) fun config => ?_
      cases config with
      | none => trivial
      | some config => exact .bind (.ask _ _) fun _ => hcheckout _

/-- The run lemma. -/
theorem Target.Sound.steps {t t' : Target} {p' : Act SyncCounts} (h : t.Sound)
    (hs : Prog.Steps (Op.effect grit around) t (sync grit target) t' p') : t'.Sound :=
  (sync_does t).invariant sync_sequential h (fun _ _ _ _ h hfits he => h.step hfits he) hs

/-- A sync that has returned has found the remote and has done its work. -/
theorem sync_returned {t t' : Target}
    (hs : Prog.Steps (Op.effect grit around) t (sync grit target) t' (.ret counts)) :
    t.Located ∧ Synced grit around.upstream t t' := (sync_does t t' _ hs).value counts rfl

end Climate.Apps
