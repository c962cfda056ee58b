import Climate.Spec.Check

/-!
# The whole host

No mount shares the host's root, as long as no source that is written with
`..` goes back up through all of its names.
-/

namespace Climate

open UnixPath

/-- What a run does with a definition before it has a container. -/
def prepare (rootless : List Mount) (cfg : AppConfig) (image : Option ImageExecConfig) (root : String)
    (userArgs : List String) (tty : Bool) : HostAct Spec := do
  checkHostDir cfg.run
  let _ ← mountpoints cfg
  Spec.build rootless cfg image root userArgs tty

/-- No bind mount has the root for its source, however that is written. -/
def RootUnshared (added : List Mount) : Prop :=
  ∀ mount ∈ added, mount.typ = "bind" → ¬ LeadsToRoot mount.source

theorem not_leadsToRoot (habs : isAbsolute path = true) :
    ¬ LeadsToRoot path ↔ KeepsName (components path) := by
  rw [LeadsToRoot, and_iff_right habs]
  exact resolve_ne_nil

theorem not_leadsToRoot_of_descending (h : .parent ∉ components path) (hroot : isRoot path = false) :
    ¬ LeadsToRoot path := by
  rintro ⟨habs, hresolve⟩
  refine resolve_ne_nil.mpr (keepsName_of_descending h fun hnil => ?_) hresolve
  rw [isRoot, habs, hnil] at hroot
  cases hroot

theorem checkHostDir_on_host (h : Host) :
    OnHost (fun _ h' => h' = h ∧ ∀ dir ∈ cwdShare run h, isRoot dir = false) h (checkHostDir run) := by
  refine .bind (hostDir_on_host h) fun host h₁ hhost => ?_
  obtain ⟨rfl, rfl⟩ := hhost
  split
  next hnone =>
    replace hnone : cwdShare run h₁ = none := hnone
    exact .ret ⟨rfl, fun dir hdir => (by rw [hnone] at hdir; cases hdir)⟩
  next dir hsome =>
    replace hsome : cwdShare run h₁ = some dir := hsome
    split
    · exact .throw
    next hroot =>
      refine .ret ⟨rfl, fun other hother => ?_⟩
      rw [hsome] at hother
      cases hother
      simpa using hroot

theorem prepare_on_host (h : Host) :
    OnHost (fun spec h' => ∃ shares, AskFor h.home cfg.run.mount shares ∧
      (∀ dir ∈ cwdShare cfg.run h, isRoot dir = false) ∧ h'.cwd = h.cwd ∧
        spec.mounts = rootless ++ (items cfg.run h' shares).map Item.mount) h
      (prepare rootless cfg image root userArgs tty) := by
  refine .bind (checkHostDir_on_host h) fun _ h₁ hdir => ?_
  obtain ⟨rfl, hdir⟩ := hdir
  refine .bind (mountpoints_on_host h₁) fun points h₂ hpoints => ?_
  obtain ⟨_, _, -, hprepared, -⟩ := hpoints
  refine .weaken (build_on_host h₂) fun spec h₃ hspec => ?_
  obtain ⟨shares, hask, hprepared', hmounts⟩ := hspec
  rw [hprepared.grows.home] at hask
  exact ⟨shares, hask, hdir, hprepared'.grows.cwd.trans hprepared.grows.cwd, hmounts⟩

theorem netFiles_below : ∀ file ∈ hostNetFiles, ¬ LeadsToRoot file := by
  intro file hfile
  have hdescending : ∀ file ∈ hostNetFiles, .parent ∉ components file ∧ isRoot file = false := by
    decide
  exact not_leadsToRoot_of_descending (hdescending file hfile).1 (hdescending file hfile).2

theorem rootUnshared_iff (hdir : ∀ dir ∈ cwdShare run h, isRoot dir = false) :
    RootUnshared ((items run h shares).map Item.mount) ↔ ∀ share ∈ shares, ¬ LeadsToRoot share.1 := by
  constructor
  · intro hall share hshare
    refine hall (Item.share share.1 share.2.1 share.2.2).mount (List.mem_map_of_mem ?_) rfl
    simp only [items, List.mem_append, List.mem_map]
    exact .inl (.inr ⟨share, hshare, rfl⟩)
  · intro hshares mount hmount hbind
    obtain ⟨item, hitem, rfl⟩ := List.mem_map.mp hmount
    simp only [items, List.mem_append, List.mem_map, Option.mem_toList] at hitem
    obtain ((⟨⟨dir, mode⟩, -, rfl⟩ | ⟨dir, hcwd, rfl⟩) | ⟨share, hshare, rfl⟩) | ⟨file, hfile, rfl⟩ := hitem
    · exact absurd (show "tmpfs" = "bind" from hbind) (by decide)
    · refine not_leadsToRoot_of_descending ?_ (hdir dir hcwd)
      unfold cwdShare at hcwd
      split at hcwd
      next => exact h.cwd_physical dir hcwd
      next => cases hcwd
    · exact hshares share hshare
    · refine netFiles_below file ?_
      unfold netFiles at hfile
      split at hfile
      next => exact List.mem_of_mem_filter hfile
      next => cases hfile

/-- The root is never shared, exactly if every source with a `..` in it keeps
one of its names. -/
theorem root_unshared_iff (hcheck : Accepts h (check cfg))
    (hspec : Prog.Steps HostOp.effect h (prepare rootless cfg image root userArgs tty) h' (.ret spec)) :
    (∃ added, spec.mounts = rootless ++ added ∧ RootUnshared added) ↔
      ∀ entry ∈ cfg.run.mount, ∀ share, Acceptable h.home entry share →
        .parent ∈ components share.1 → KeepsName (components share.1) := by
  obtain ⟨shares, hask, hdir, hcwd, hmounts⟩ := (prepare_on_host h h' _ hspec).value spec rfl
  have hadded : (∃ added, spec.mounts = rootless ++ added ∧ RootUnshared added) ↔
      RootUnshared ((items cfg.run h' shares).map Item.mount) := by
    rw [hmounts]
    simp
  have hdir' : ∀ dir ∈ cwdShare cfg.run h', isRoot dir = false := by
    unfold cwdShare at hdir ⊢
    rwa [hcwd]
  rw [hadded, rootUnshared_iff hdir']
  constructor
  · intro hall entry hentry share hacceptable _
    have hshare := hask.mem_iff.mpr ⟨entry, hentry, (acceptable_iff.mp hacceptable).1⟩
    exact (not_leadsToRoot hacceptable.source).mp (hall share hshare)
  · intro hall share hshare
    obtain ⟨entry, hentry, hasks⟩ := hask.mem_iff.mp hshare
    obtain ⟨other, hacceptable⟩ := ((check_accepts_iff h).mp hcheck).2 entry hentry
    obtain rfl := hasks.unique (acceptable_iff.mp hacceptable).1
    by_cases hparent : .parent ∈ components share.1
    · exact (not_leadsToRoot hacceptable.source).mpr (hall entry hentry share hacceptable hparent)
    · exact not_leadsToRoot_of_descending hparent hacceptable.notRoot

-- ---------------------------------------------------------------------------
-- The root by another name
-- ---------------------------------------------------------------------------

namespace Workshop

def upward : Host where
  kind path := [("/work", .directory), ("/usr/..", .directory), ("/usr/../opt", .directory)].lookup path
  cwd := some "/work"
  home := some "/home/u"
  cwd_directory dir hdir := by
    cases hdir
    decide
  cwd_physical := work_physical

def prepared (entry : String) : Host × HostAct Spec :=
  Prog.run quiet 20 (upward, prepare [proc] (app entry) none "/merged" [] false)

def entryMounts (source destination : String) : List Mount :=
  [proc, tmpfs "/tmp" "1777", tmpfs "/run" "0755", tmpfs "/var/tmp" "1777", bindMount "/work" "/work" false,
    bindMount source destination false]

theorem prepares (entry : String) (mounts : List Mount)
    (hrun : (prepared entry).2.value?.map (·.mounts) = some mounts) : ∃ h' spec, spec.mounts = mounts ∧
    Prog.Steps HostOp.effect upward (prepare [proc] (app entry) none "/merged" [] false) h' (.ret spec) := by
  obtain ⟨spec, hvalue, hmounts⟩ := Option.map_eq_some_iff.mp hrun
  exact ⟨_, spec, hmounts, Prog.run_value quiet 20 hvalue⟩

theorem checks (entry : String) (share : String × String × Bool)
    (hshare : entryShare (some "/home/u") entry = .ok share) : Accepts upward (check (app entry)) := by
  refine (check_accepts_iff upward).mpr ⟨⟨none, rfl⟩, fun other hother => ⟨share, ?_⟩⟩
  obtain rfl := List.mem_singleton.mp hother
  exact entryShare_ok.mp hshare

theorem root_unshared_iff_opt : ∃ h' spec,
    Prog.Steps HostOp.effect upward (prepare [proc] (app "/usr/../opt") none "/merged" [] false) h' (.ret spec) ∧
    ∃ added, spec.mounts = [proc] ++ added ∧ RootUnshared added := by
  obtain ⟨h', spec, -, hsteps⟩ := prepares "/usr/../opt" (entryMounts "/usr/../opt" "/usr/../opt") (by rfl)
  have hshare : entryShare (some "/home/u") "/usr/../opt" = .ok ("/usr/../opt", "/usr/../opt", false) := by
    rfl
  refine ⟨h', spec, hsteps, (root_unshared_iff (checks _ _ hshare) hsteps).mpr ?_⟩
  intro entry hentry share hacceptable _
  obtain rfl := List.mem_singleton.mp hentry
  obtain rfl := (acceptable_iff.mp hacceptable).1.unique (acceptable_iff.mp (entryShare_ok.mp hshare)).1
  have hcomponents : components "/usr/../opt" = [.normal "usr", .parent, .normal "opt"] := by rfl
  exact hcomponents ▸ ⟨[.normal "usr", .parent], "opt", [], rfl, stays_nil.mpr rfl⟩

/-- The directory above /usr is accepted, and is the root. -/
theorem root_shared_by_parent : Accepts upward (check (app "/usr/..:/host")) ∧ ∃ h' spec added,
    Prog.Steps HostOp.effect upward (prepare [proc] (app "/usr/..:/host") none "/merged" [] false) h'
    (.ret spec) ∧
    spec.mounts = [proc] ++ added ∧ ¬ RootUnshared added := by
  obtain ⟨h', spec, hmounts, hsteps⟩ := prepares "/usr/..:/host" (entryMounts "/usr/.." "/host") (by rfl)
  refine ⟨checks _ ("/usr/..", "/host", false) (by rfl), h', spec, _, hsteps, hmounts, fun hunshared => ?_⟩
  refine hunshared (bindMount "/usr/.." "/host" false) (by simp) rfl ⟨?_, ?_⟩
  · rfl
  · rfl

end Workshop

end Climate
