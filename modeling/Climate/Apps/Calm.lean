import Climate.Apps.SyncLaws

/-!
# Syncs that nothing goes wrong in

`calm` is the handler of git's operations in which everything that can succeed
does, with the remote within reach. A sync run by it returns from every target
that earlier syncs can have left, unless there is a repository without the URL
of its remote.
-/

namespace Climate.Apps

variable {grit : Grit} {around : Surroundings}

def changes (old new : Tree) : List Change :=
  (Files.changed old new).map fun path => { path, status := status old new path }

theorem lists_changes (old new : Tree) : Lists old new (changes old new) := by
  refine ⟨?_, fun change hmem => ?_⟩
  · simpa [changes, Function.comp_def] using Files.differ_changed old new
  · obtain ⟨path, -, rfl⟩ := List.mem_map.mp hmem
    rfl

def calmAnswer (grit : Grit) (around : Surroundings) : (op : Op) → Target → Option (op.Res × Target)
  | .isRepository, t => some (t.git.isSome, t)
  | .openRepository, t => t.git.map fun _ => (.ok (), t)
  | .loadConfig, t => t.git.map fun repo => (.ok repo.config, t)
  | .hasEntries, t => some (t.git.isSome || !t.work.keys.isEmpty, t)
  | .createParent, t => some (.ok (), t)
  | .appsUrl, t => some (around.appsUrl, t)
  | .initRepository branch, t => some (.ok (), t.initialised branch)
  | .readConfig, t => t.git.map fun repo => (.ok (some repo.config), t)
  | .writeConfig config, t => some (.ok (), t.configured config)
  | .connect _, t => some (.ok (), t)
  | .fetch _ _, t => some (.ok around.upstream.outcome, t.fetched around.upstream)
  | .resolveRef name, t =>
    match t.git.bind (·.refs.lookup name) with
    | some oid => some (.ok oid, t)
    | none => some (.error "no such ref", t)
  | .readCommit oid, t =>
    t.git.bind fun repo => if oid ∈ repo.objects then some (.ok (grit.commit oid), t) else none
  | .writeSymbolicRef _ dest, t => some (.ok (), t.pointed dest)
  | .writeRef name oid, t => some (.ok (), t.withRef name oid)
  | .diffTrees old new, t => some (.ok (changes (baseline old) new), t)
  | .place path contents, t => some (.ok (), t.placed path contents)

theorem calmAnswer_sound {op : Op} {r : op.Res} (h : calmAnswer grit around op t = some (r, t')) :
    op.effect grit around t r t' := by
  cases op with
  | isRepository | hasEntries | createParent | appsUrl | initRepository | connect
  | writeSymbolicRef | writeRef | place | fetch =>
    cases h
    simp [Op.effect, Writes]
  | writeConfig => cases h; exact .inl rfl
  | diffTrees old new =>
    cases h
    exact ⟨rfl, fun _ h => by cases h; exact lists_changes _ _⟩
  | openRepository =>
    obtain ⟨repo, hgit, heq⟩ := Option.map_eq_some_iff.mp h
    cases heq
    exact ⟨rfl, fun _ _ => by simp [hgit]⟩
  | loadConfig | readConfig =>
    obtain ⟨repo, hgit, heq⟩ := Option.map_eq_some_iff.mp h
    cases heq
    exact ⟨rfl, fun _ h => by cases h; exact ⟨repo, hgit, rfl⟩⟩
  | readCommit oid =>
    obtain ⟨repo, hgit, heq⟩ := Option.bind_eq_some_iff.mp h
    split at heq
    next hmem =>
      cases heq
      exact ⟨rfl, fun _ h => by cases h; exact ⟨repo, hgit, hmem, rfl⟩⟩
    · cases heq
  | resolveRef name =>
    simp only [calmAnswer] at h
    split at h
    next oid hfound =>
      cases h
      exact ⟨rfl, fun _ => by simp [← Option.bind_eq_some_iff, hfound]⟩
    next hnone =>
      cases h
      exact ⟨rfl, fun _ => by simp [← Option.bind_eq_some_iff, hnone]⟩

def calm (grit : Grit) (around : Surroundings) : Handler (Op.effect grit around) where
  answer := calmAnswer grit around
  sound := calmAnswer_sound

/-- A URL of a kind that can be fetched from. -/
def Supported (grit : Grit) (url : String) : Prop :=
  grit.isSshUrl url = true ∨ startsWith url "http://" = true ∨ startsWith url "https://" = true

/-- The URL that a sync fetches from: the recorded one, or the one a new
repository gets. -/
def Target.syncUrl (t : Target) (around : Surroundings) : Option String :=
  if t.git.isSome then t.remoteUrl else some (around.appsUrl.getD defaultAppsUrl)

abbrev Finds (grit : Grit) (around : Surroundings) (post : α → Target → Prop) (t : Target) (p : Act α) :
    Prop := Prog.Returns (calm grit around) post t p

theorem fetch_finds (t : Target) (h : Supported grit url) : Finds grit around
    (fun outcome t' => outcome = around.upstream.outcome ∧ t' = t.fetched around.upstream) t
    (fetch grit url) := by
  have hask : ∀ transport, Finds grit around
      (fun outcome t' => outcome = around.upstream.outcome ∧ t' = t.fetched around.upstream) t
      (.ask (.fetch transport url) (context s!"fetching {url}")) :=
    fun transport => .ask rfl rfl (And.intro rfl rfl)
  unfold fetch
  split
  next => exact .ask_bind rfl rfl (hask .ssh)
  next hssh =>
    rw [if_pos (by simpa [Supported, hssh] using h)]
    exact hask .http

theorem readCommit_answer (h : t.Has oid) :
    (calm grit around).answer (.readCommit oid) t = some (.ok (grit.commit oid), t) := by
  obtain ⟨repo, hgit, hmem⟩ := h
  simp [calm, calmAnswer, hgit, hmem]

theorem previousTree_finds (h : t.Sound) (name : String) :
    Finds grit around (fun _ t' => t' = t) t (previousTree name) := by
  cases hbranch : t.branch name with
  | none =>
    have hanswer : (calm grit around).answer (.resolveRef (localBranch name)) t =
        some (.error "no such ref", t) := by
      rw [Target.branch] at hbranch
      simp [calm, calmAnswer, hbranch]
    exact .ask_bind hanswer rfl (.ret rfl)
  | some oid =>
    have hanswer : (calm grit around).answer (.resolveRef (localBranch name)) t = some (.ok oid, t) := by
      rw [Target.branch] at hbranch
      simp [calm, calmAnswer, hbranch]
    exact .ask_bind hanswer rfl
      (.ask_bind (readCommit_answer (h.stored name oid hbranch)) rfl (.ret rfl))

theorem checkoutBetweenTrees_finds (t : Target) (old : Option Tree) (new : Tree) :
    Finds grit around (fun _ _ => True) t (checkoutBetweenTrees old new) :=
  .ask_bind rfl rfl (.forM trivial fun _ _ _ => .ask rfl rfl trivial)

theorem checkoutTip_finds (h : t.Sound) (hhas : t.Has tip) (name : String) :
    Finds grit around (fun _ _ => True) t (checkoutTip name tip) := by
  refine .bind (previousTree_finds h name) fun old t' ht => ?_
  subst ht
  have hhas' : ((t'.pointed (localBranch name)).withRef (localBranch name) tip).Has tip :=
    Target.withRef_has _ _ (Target.pointed_has _ _ hhas)
  exact .ask_bind rfl rfl (.ask_bind rfl rfl (.ask_bind (readCommit_answer hhas') rfl (.ask_bind rfl rfl
    (.bind (checkoutBetweenTrees_finds _ _ _) fun _ _ _ => .ret trivial))))

theorem fetchAndCheckout_finds (h : t.Sound) (hgit : t.git.isSome = true) (hurl : Supported grit url) :
    Finds grit around (fun _ _ => True) t (fetchAndCheckout grit url) := by
  refine .bind (fetch_finds t hurl) fun outcome t₁ hfetched => ?_
  obtain ⟨rfl, rfl⟩ := hfetched
  rw [outcome_updates, if_neg (by simp)]
  have htip := outcome_tip around.upstream
  simp only [Upstream.outcome] at htip ⊢
  rw [htip]
  exact checkoutTip_finds (h.fetched _) (t.fetched_has _ hgit) _

/-- A sync with nothing going wrong returns. -/
theorem sync_finds (h : t.Sound) (hlocated : t.Located)
    (hreach : ∀ url, t.syncUrl around = some url → Supported grit url) :
    Finds grit around (fun _ _ => True) t (sync grit target) := by
  refine .ask_bind rfl rfl ?_
  cases hgit : t.git with
  | some repo =>
    obtain hnone | ⟨url, hurl⟩ := hlocated
    · rw [hgit] at hnone
      cases hnone
    have hlookup : repo.config.lookup "remote.origin.url" = some url := by
      simpa [Target.remoteUrl, hgit] using hurl
    have hconfig : (calm grit around).answer .loadConfig t = some (.ok repo.config, t) := by
      simp [calm, calmAnswer, hgit]
    have hopen : (calm grit around).answer .openRepository t = some (.ok (), t) := by
      simp [calm, calmAnswer, hgit]
    refine .ask_bind hopen rfl (.ask_bind hconfig rfl ?_)
    rw [hlookup]
    exact fetchAndCheckout_finds h (by simp [hgit]) (hreach url (by simp [Target.syncUrl, hgit, hurl]))
  | none =>
    have hkeys : t.work.keys = [] := by
      refine List.eq_nil_iff_forall_not_mem.mpr fun path hmem => ?_
      exact AList.lookup_eq_none.mp (h.work hgit path) (AList.mem_keys.mpr hmem)
    have hentries : (calm grit around).answer .hasEntries t = some (false, t) := by
      simp [calm, calmAnswer, hgit, hkeys]
    refine .ask_bind hentries rfl (.ask_bind rfl rfl (.ask_bind rfl rfl (.ask_bind rfl rfl
      (.ask_bind rfl rfl (.ask_bind rfl rfl ?_)))))
    exact fetchAndCheckout_finds ((t.sound_initialised "main").configured _)
      (by simp [Target.configured, Target.initialised])
      (hreach _ (by simp [Target.syncUrl, hgit]))

end Climate.Apps
