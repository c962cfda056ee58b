import Climate.Lib.Alone
import Climate.Lib.Exec
import Climate.Spec.Build

/-!
# Where mounts land

`mountpoints` and `build` each go through the mounts on their own. What they
list agrees entry by entry, but for a source that is neither a regular file
nor a directory, and for a network file of the host's that is a directory.
-/

namespace Climate

variable {h h' : Host} {run : RunConfig} {cfg : AppConfig}

/-- A program of the host's left to itself. -/
abbrev OnHost (post : α → Host → Prop) (h : Host) (p : HostAct α) : Prop :=
  Prog.Alone HostOp.effect (fun _ _ => True) post h p

-- ---------------------------------------------------------------------------
-- What an entry asks for
-- ---------------------------------------------------------------------------

/-- The share that an entry of a definition stands for. -/
structure AsksFor (home : Option String) (entry : String) (share : String × String × Bool) : Prop where
  asks : ∃ source destination, parseMount entry = .ok (source, destination, share.2.2) ∧
    expand home source = .ok share.1 ∧ expand home destination = .ok share.2.1

theorem AsksFor.unique (ha : AsksFor home entry a) (hb : AsksFor home entry b) : a = b := by
  obtain ⟨source, destination, hparse, hsource, hdestination⟩ := ha.asks
  obtain ⟨source', destination', hparse', hsource', hdestination'⟩ := hb.asks
  obtain ⟨a₁, a₂, a₃⟩ := a
  obtain ⟨b₁, b₂, b₃⟩ := b
  cases hparse.symm.trans hparse'
  cases hsource.symm.trans hsource'
  cases hdestination.symm.trans hdestination'
  rfl

abbrev AskFor (home : Option String) := List.Forall₂ (AsksFor home)

theorem AskFor.unique (ha : AskFor home entries a) (hb : AskFor home entries b) : a = b := by
  induction ha generalizing b with
  | nil => cases hb; rfl
  | cons hx _ ih =>
    cases hb with
    | cons hy hb => rw [hx.unique hy, ih hb]

theorem AskFor.mem_iff (ha : AskFor home entries shares) :
    share ∈ shares ↔ ∃ entry ∈ entries, AsksFor home entry share := by
  induction ha with
  | nil => simp
  | @cons entry first entries shares hx _ ih =>
    rw [List.mem_cons, List.exists_mem_cons_iff, ih]
    refine or_congr ⟨?_, fun hasks => hasks.unique hx⟩ Iff.rfl
    rintro rfl
    exact hx

theorem expandPath_on_host (h : Host) :
    OnHost (fun path h' => h' = h ∧ expand h.home text = .ok path) h (expandPath text) := by
  refine .ask trivial fun r h' path he hread => ?_
  obtain ⟨rfl, rfl⟩ := he
  exact ⟨rfl, hread⟩

theorem createSource_on_host (h : Host) :
    OnHost (fun _ h' => h.Grows h' ∧ (h'.kind path).isSome = true) h (createSource path asDir) := by
  have hfile : ∀ h₁, h.Grows h₁ → OnHost (fun _ h' => h.Grows h' ∧ (h'.kind path).isSome = true) h₁
      (.ask (.createFile path) (orFail s!"creating {path}")) := by
    intro h₁ hg
    exact .ask trivial fun r h' _ he hread => ⟨hg.trans he.1, he.2 (orFail_ok.mp hread)⟩
  unfold createSource
  split
  · refine .ask trivial fun r h' _ he hread => ⟨he.1, ?_⟩
    rw [he.2 (orFail_ok.mp hread)]
    rfl
  · dsimp only
    split
    · exact .ask_bind trivial fun r h₁ _ he _ => hfile h₁ he.1
    · exact hfile h (.refl h)

/-- Sources that are missing are created, and nothing else. -/
structure Prepared (h h' : Host) (sources : List String) : Prop where
  grows : h.Grows h'
  there : ∀ source ∈ sources, (h'.kind source).isSome = true
  settled : (∀ source ∈ sources, (h.kind source).isSome = true) → h' = h

theorem extraMount_on_host (h : Host) :
    OnHost (fun share h' => AsksFor h.home entry share ∧ Prepared h h' [share.1]) h (extraMount entry) := by
  have hparse : OnHost (fun parsed h' => h' = h ∧ parseMount entry = .ok parsed) h
      (.ofExcept (parseMount entry)) :=
    .ofExcept fun _ ha => ⟨rfl, ha⟩
  refine .bind hparse fun parsed h₁ hparsed => ?_
  obtain ⟨rfl, hparsed⟩ := hparsed
  obtain ⟨source, destination, readonly⟩ := parsed
  refine .bind (expandPath_on_host h₁) fun path h₂ hpath => ?_
  obtain ⟨rfl, hpath⟩ := hpath
  have hrest : ∀ h₃, Prepared h₂ h₃ [path] →
      OnHost (fun share h' => AsksFor h₂.home entry share ∧ Prepared h₂ h' [share.1]) h₃
        (expandPath destination >>= fun destination => pure (path, destination, readonly)) := by
    intro h₃ hprepared
    refine .bind (expandPath_on_host h₃) fun inside h₄ hinside => .ret ?_
    obtain ⟨rfl, hinside⟩ := hinside
    rw [hprepared.grows.home] at hinside
    exact ⟨⟨source, destination, hparsed, hpath, hinside⟩, hprepared⟩
  dsimp only
  split
  · exact .throw
  · refine .ask_bind trivial fun r h₃ kind he hread => ?_
    obtain ⟨rfl, rfl⟩ := he
    cases hread
    split
    next hnone =>
      have hmissing : h₃.kind path = none := Option.isNone_iff_eq_none.mp hnone
      split
      · exact .throw
      · refine .bind (createSource_on_host h₃) fun _ h₄ hg => hrest h₄ ⟨hg.1, by simpa using hg.2, fun hall => ?_⟩
        have hsome := hall path (by simp)
        rw [hmissing] at hsome
        cases hsome
    next hsome =>
      refine hrest h₃ ⟨.refl h₃, ?_, fun _ => rfl⟩
      simpa using Option.isSome_iff_ne_none.mpr fun hnone => hsome (Option.isNone_iff_eq_none.mpr hnone)

theorem extraMounts_on_host (h : Host) :
    OnHost (fun shares h' => AskFor h.home entries shares ∧ Prepared h h' (shares.map (·.1))) h
      (extraMounts entries) := by
  induction entries generalizing h with
  | nil => exact .ret ⟨.nil, .refl h, by simp, fun _ => rfl⟩
  | cons entry rest ih =>
    refine .bind (extraMount_on_host h) fun share h₁ hshare => .bind (ih h₁) fun shares h₂ hshares => .ret ?_
    obtain ⟨hasks, hfirst⟩ := hshare
    obtain ⟨hask, hothers⟩ := hshares
    rw [hfirst.grows.home] at hask
    refine ⟨.cons hasks hask, hfirst.grows.trans hothers.grows, fun source hmem => ?_, fun hall => ?_⟩
    · rcases List.mem_cons.mp hmem with heq | hmem
      · obtain ⟨k, hk⟩ := Option.isSome_iff_exists.mp (hfirst.there share.1 (by simp))
        rw [heq, hothers.grows.keeps hk]
        rfl
      · exact hothers.there source hmem
    · obtain rfl := hfirst.settled fun source hmem => hall source (by simp_all)
      exact hothers.settled fun source hmem => hall source (List.mem_cons_of_mem _ hmem)

theorem hostDir_on_host (h : Host) :
    OnHost (fun host h' => h' = h ∧ host = if run.mountCwd then h.cwd else none) h (hostDir run) := by
  unfold hostDir
  split
  · refine .ask trivial fun r h' host he hread => ?_
    obtain ⟨rfl, rfl⟩ := he
    cases hcwd : h'.cwd with
    | none => rw [hcwd] at hread; cases hread
    | some dir => rw [hcwd] at hread; cases hread; exact ⟨rfl, rfl⟩
  · exact .ret ⟨rfl, rfl⟩

theorem existing_on_host (h : Host) :
    OnHost (fun found h' => h' = h ∧ found = paths.filter fun path => (h.kind path).isSome) h
      (existing paths) := by
  induction paths with
  | nil => exact .ret ⟨rfl, rfl⟩
  | cons path rest ih =>
    refine .ask_bind trivial fun r h₁ kind he hread => ?_
    obtain ⟨rfl, rfl⟩ := he
    cases hread
    refine .bind ih fun found h₂ hfound => .ret ?_
    obtain ⟨rfl, rfl⟩ := hfound
    refine ⟨rfl, ?_⟩
    rw [List.filter_cons]

def netFiles (run : RunConfig) (h : Host) : List String :=
  if run.network = .full then hostNetFiles.filter fun path => (h.kind path).isSome else []

theorem hostNet_on_host (h : Host) :
    OnHost (fun files h' => h' = h ∧ files = netFiles run h) h (hostNet run) := by
  unfold hostNet netFiles
  split
  · exact existing_on_host h
  · exact .ret ⟨rfl, rfl⟩

def sharePoint (h : Host) (share : String × String × Bool) : MountPoint :=
  if h.kind share.1 = some .regular then .file share.2.1 else .dir share.2.1

theorem sharePoints_on_host (h : Host) :
    OnHost (fun points h' => h' = h ∧ points = shares.map (sharePoint h)) h (sharePoints shares) := by
  induction shares with
  | nil => exact .ret ⟨rfl, rfl⟩
  | cons share rest ih =>
    refine .ask_bind trivial fun r h₁ kind he hread => ?_
    obtain ⟨rfl, rfl⟩ := he
    cases hread
    refine .bind ih fun points h₂ hpoints => .ret ?_
    obtain ⟨rfl, rfl⟩ := hpoints
    exact ⟨rfl, rfl⟩

-- ---------------------------------------------------------------------------
-- The two lists
-- ---------------------------------------------------------------------------

def cwdShare (run : RunConfig) (h : Host) : Option String := if run.mountCwd then h.cwd else none

/-- What both functions go through. -/
inductive Item
  | tmpfs (dir mode : String)
  | cwd (dir : String)
  | share (source destination : String) (readonly : Bool)
  | netFile (path : String)

def Item.mount : Item → Mount
  | .tmpfs dir mode => Climate.tmpfs dir mode
  | .cwd dir => bindMount dir dir false
  | .share source destination readonly => bindMount source destination readonly
  | .netFile path => bindMount path path true

def Item.point (h : Host) : Item → MountPoint
  | .tmpfs dir _ => .dir dir
  | .cwd dir => .dir dir
  | .share source destination readonly => sharePoint h (source, destination, readonly)
  | .netFile path => .file path

def items (run : RunConfig) (h : Host) (shares : List (String × String × Bool)) : List Item :=
  tmpfsDirs.map (fun (dir, mode) => .tmpfs dir mode) ++ (cwdShare run h).toList.map .cwd ++
    shares.map (fun (source, destination, readonly) => .share source destination readonly) ++
    (netFiles run h).map .netFile

/-- localnet's resolv.conf comes last, and is written in place. -/
def mountedOnto (run : RunConfig) (points : List MountPoint) : List MountPoint :=
  if run.network = .localnet then points.dropLast else points

/-- What `mountpoints` lists that is not mounted onto. -/
def writtenInPlace (run : RunConfig) (contents : String) : List MountPoint :=
  if run.network = .localnet then [.generated "/etc/resolv.conf" contents] else []

theorem mountpoints_on_host (h : Host) :
    OnHost (fun points h' => ∃ shares contents, AskFor h.home cfg.run.mount shares ∧
      Prepared h h' (shares.map (·.1)) ∧
      points = defaultMountDirs.map .dir ++ (items cfg.run h' shares).map (Item.point h') ++
        writtenInPlace cfg.run contents) h
      (mountpoints cfg) := by
  refine .bind (hostDir_on_host h) fun host h₁ hhost => ?_
  obtain ⟨rfl, rfl⟩ := hhost
  refine .bind (extraMounts_on_host h₁) fun shares h₂ hshares => ?_
  obtain ⟨hask, hprepared⟩ := hshares
  refine .bind (sharePoints_on_host h₂) fun points h₃ hpoints => ?_
  obtain ⟨rfl, rfl⟩ := hpoints
  refine .bind (hostNet_on_host h₃) fun files h₄ hfiles => ?_
  obtain ⟨rfl, rfl⟩ := hfiles
  have hcwd : h₄.cwd = h₁.cwd := hprepared.grows.cwd
  dsimp only
  split
  next hlocalnet =>
    refine .ask_bind trivial fun r h₅ contents he hread => .ret ?_
    obtain ⟨rfl, rfl⟩ := he
    refine ⟨shares, contents, hask, hprepared, ?_⟩
    simp [writtenInPlace, hlocalnet, items, cwdShare, hcwd, Function.comp_def, Item.point]
  next hlocalnet =>
    refine .ret ⟨shares, "", hask, hprepared, ?_⟩
    simp [writtenInPlace, hlocalnet, items, cwdShare, hcwd, Function.comp_def, Item.point]

theorem mountedOnto_append (l : List MountPoint) :
    mountedOnto run (l ++ writtenInPlace run contents) = l := by
  unfold mountedOnto writtenInPlace
  split <;> simp

theorem appVariables_on_host (h : Host) : OnHost (fun _ h' => h' = h) h (appVariables entries) := by
  induction entries with
  | nil => exact .ret rfl
  | cons entry rest ih =>
    unfold appVariables
    split
    · refine .bind ih fun others h' heq => .ret heq
    · refine .ask_bind trivial fun r h₁ value he hread => ?_
      obtain ⟨rfl, -⟩ := he
      exact .bind ih fun others h' heq => .ret heq

theorem build_on_host (h : Host) :
    OnHost (fun spec h' => ∃ shares, AskFor h.home cfg.run.mount shares ∧
      Prepared h h' (shares.map (·.1)) ∧ spec.mounts = rootless ++ (items cfg.run h' shares).map Item.mount) h
      (Spec.build rootless cfg image root userArgs tty) := by
  unfold Spec.build
  dsimp only
  split
  · exact .throw
  refine .bind (hostDir_on_host h) fun host h₁ hhost => ?_
  obtain ⟨rfl, -⟩ := hhost
  refine .bind (Q := fun _ h' => h' = h₁) (.bind (appVariables_on_host h₁) fun _ _ heq => .ret heq)
    fun env h₂ heq => ?_
  subst heq
  refine .bind (hostDir_on_host h₂) fun host h₃ hhost => ?_
  obtain ⟨rfl, rfl⟩ := hhost
  refine .bind (extraMounts_on_host h₃) fun shares h₄ hshares => ?_
  obtain ⟨hask, hprepared⟩ := hshares
  refine .bind (hostNet_on_host h₄) fun files h₅ hfiles => ?_
  obtain ⟨rfl, rfl⟩ := hfiles
  have hlimits : OnHost (fun _ h' => h' = h₅) h₅ (.ofExcept (resources cfg.limits)) :=
    .ofExcept fun _ _ => rfl
  refine .bind hlimits fun limits h₆ heq => .ret ⟨shares, hask, ?_⟩
  subst heq
  refine ⟨hprepared, ?_⟩
  simp [items, cwdShare, hprepared.grows.cwd, Function.comp_def, Item.mount]

-- ---------------------------------------------------------------------------
-- Where each mount lands
-- ---------------------------------------------------------------------------

/-- A directory is mounted onto a directory, and anything else onto a file. -/
structure Fits (h : Host) (mount : Mount) (point : MountPoint) : Prop where
  destination : point.path = mount.destination
  kind : mount.typ = "bind" → (point.isFile = false ↔ h.kind mount.source = some .directory)

/-- Every mount has its place, and the places come in the mounts' order. -/
abbrev Lands (h : Host) (run : RunConfig) (added : List Mount) (points : List MountPoint) : Prop :=
  List.SublistForall₂ (Fits h) added (mountedOnto run points)

theorem fits_bind : Fits h (bindMount source destination readonly) point ↔
    point.path = destination ∧ (point.isFile = false ↔ h.kind source = some .directory) := by
  constructor
  · intro hfits
    exact ⟨hfits.destination, hfits.kind rfl⟩
  · rintro ⟨hpath, hkind⟩
    exact ⟨hpath, fun _ => hkind⟩

theorem sharePoint_path : (sharePoint h share).path = share.2.1 := by
  unfold sharePoint
  split <;> rfl

theorem sharePoint_isFile : (sharePoint h share).isFile = false ↔ h.kind share.1 ≠ some .regular := by
  unfold sharePoint
  split <;> simp_all [MountPoint.dir, MountPoint.file]

theorem fits_share (hthere : (h.kind source).isSome = true) :
    Fits h (bindMount source destination readonly) (sharePoint h (source, destination, readonly)) ↔
      h.kind source = some .regular ∨ h.kind source = some .directory := by
  rw [fits_bind, sharePoint_isFile, and_iff_right sharePoint_path]
  obtain ⟨k, hk⟩ := Option.isSome_iff_exists.mp hthere
  cases k <;> simp [hk]

theorem landing_eq {before known : List β} {added : List α} {R : α → β → Prop}
    (hlands : List.SublistForall₂ R added (before ++ known)) (hlen : added.length = known.length)
    (hfirst : ∀ a ∈ added.head?, ∀ b ∈ before, ¬ R a b) : List.Forall₂ R added known := by
  obtain ⟨landing, hR, hsub⟩ := List.sublistForall₂_iff.mp hlands
  obtain ⟨early, late, rfl, hearly, hlate⟩ := List.sublist_append_iff.mp hsub
  cases early with
  | nil =>
    have heq : late = known := hlate.eq_of_length (by simpa using hR.length_eq.symm.trans hlen)
    exact heq ▸ hR
  | cons b early =>
    cases hR with
    | cons hab _ => exact (hfirst _ rfl b (hearly.subset (by simp)) hab).elim

theorem exists_place {added : List α} {points : List β} {R : α → β → Prop}
    (hlands : List.SublistForall₂ R added points) (ha : a ∈ added) : ∃ b ∈ points, R a b := by
  induction hlands with
  | nil => cases ha
  | @cons a₁ b₁ _ _ hab _ ih =>
    rcases List.mem_cons.mp ha with rfl | ha
    · exact ⟨b₁, by simp, hab⟩
    · obtain ⟨b, hb, hR⟩ := ih ha
      exact ⟨b, by simp [hb], hR⟩
  | cons_right _ ih =>
    obtain ⟨b, hb, hR⟩ := ih ha
    exact ⟨b, by simp [hb], hR⟩

theorem items_land_iff {points : List MountPoint}
    (hpoints : mountedOnto run points = defaultMountDirs.map .dir ++ (items run h shares).map (Item.point h)) :
    Lands h run ((items run h shares).map Item.mount) points ↔
      ∀ item ∈ items run h shares, Fits h item.mount (item.point h) := by
  have hsame : List.Forall₂ (fun item item' => Fits h (Item.mount item) (Item.point h item')) (items run h shares)
      (items run h shares) ↔ ∀ item ∈ items run h shares, Fits h item.mount (item.point h) := List.forall₂_same
  rw [← hsame, Lands, hpoints]
  constructor
  · intro hlands
    have hall := landing_eq hlands (by simp) ?_
    · simpa [List.forall₂_map_left_iff, List.forall₂_map_right_iff] using hall
    · rintro mount hhead point hpoint hfits
      have hmount : mount = tmpfs "/tmp" "1777" := by
        simpa [items, tmpfsDirs, Item.mount] using hhead.symm
      obtain ⟨dir, hdir, rfl⟩ := List.mem_map.mp hpoint
      subst hmount
      obtain rfl : dir = "/tmp" := hfits.destination
      revert hdir
      decide
  · intro hall
    refine List.sublistForall₂_iff.mpr ⟨(items run h shares).map (Item.point h), ?_,
      List.sublist_append_right _ _⟩
    simpa [List.forall₂_map_left_iff, List.forall₂_map_right_iff] using hall

/-- For every item but a share the two functions agree on what is there. -/
theorem items_fit_iff (hcwd : run.mountCwd = true → ∀ dir ∈ h.cwd, h.kind dir = some .directory)
    (hthere : ∀ share ∈ shares, (h.kind share.1).isSome = true) :
    (∀ item ∈ items run h shares, Fits h item.mount (item.point h)) ↔
      (∀ share ∈ shares, h.kind share.1 = some .regular ∨ h.kind share.1 = some .directory) ∧
      (∀ file ∈ netFiles run h, h.kind file ≠ some .directory) := by
  constructor
  · intro hall
    constructor
    · intro share hshare
      refine (fits_share (hthere share hshare)).mp (hall (.share share.1 share.2.1 share.2.2) ?_)
      simp only [items, List.mem_append, List.mem_map]
      exact .inl (.inr ⟨share, hshare, rfl⟩)
    · intro file hfile hdirectory
      have hfits := hall (.netFile file) (by simp [items, hfile])
      cases (fits_bind.mp hfits).2.mpr hdirectory
  · rintro ⟨hshares, hfiles⟩ item hitem
    simp only [items, List.mem_append, List.mem_map, Option.mem_toList] at hitem
    obtain ((⟨⟨dir, mode⟩, -, rfl⟩ | ⟨dir, hdir, rfl⟩) | ⟨share, hshare, rfl⟩) | ⟨file, hfile, rfl⟩ := hitem
    · exact ⟨rfl, fun hbind => absurd (show "tmpfs" = "bind" from hbind) (by decide)⟩
    · have hdirectory : h.kind dir = some .directory := by
        unfold cwdShare at hdir
        split at hdir
        next hmounted => exact hcwd hmounted dir hdir
        next => cases hdir
      exact fits_bind.mpr ⟨rfl, by simp [Item.point, MountPoint.dir, hdirectory]⟩
    · exact (fits_share (hthere share hshare)).mpr (hshares share hshare)
    · exact fits_bind.mpr ⟨rfl, by simp [Item.point, MountPoint.file, hfiles file hfile]⟩

theorem netFiles_fit_iff : (∀ file ∈ netFiles run h, h.kind file ≠ some .directory) ↔
    (run.network = .full → ∀ file ∈ hostNetFiles, h.kind file ≠ some .directory) := by
  unfold netFiles
  split
  next hfull =>
    simp only [hfull, forall_const, List.mem_filter, and_imp]
    refine forall_congr' fun file => forall_congr' fun _ => ⟨fun himp hdirectory => ?_, fun hnot _ => hnot⟩
    exact himp (by rw [hdirectory]; rfl) hdirectory
  next hother => simp [hother]

/-- A source that is there fits, whatever it was to begin with. -/
theorem Prepared.fits_iff (hp : Prepared h h' sources) (hmem : source ∈ sources) :
    (h'.kind source = some .regular ∨ h'.kind source = some .directory) ↔
      h.kind source ∈ [none, some .regular, some .directory] := by
  rcases hp.grows.kind source with heq | ⟨hnone, hnew⟩
  · obtain ⟨k, hk⟩ := Option.isSome_iff_exists.mp (hp.there source hmem)
    rw [← heq, hk]
    simp
  · simp [hnone, hnew]

/-- The places fit exactly if every share's source is a regular file, a
directory or yet to be created, and no network file is a directory. -/
theorem mounts_land_iff (hpoints : Prog.Steps HostOp.effect h (mountpoints cfg) h₁ (.ret points))
    (hspec : Prog.Steps HostOp.effect h₁ (Spec.build rootless cfg image root userArgs tty) h₂ (.ret spec)) :
    (∃ added, spec.mounts = rootless ++ added ∧ Lands h₂ cfg.run added points) ↔
      (∀ entry ∈ cfg.run.mount, ∀ share, AsksFor h.home entry share →
        h.kind share.1 ∈ [none, some .regular, some .directory]) ∧
      (cfg.run.network = .full → ∀ file ∈ hostNetFiles, h₁.kind file ≠ some .directory) := by
  obtain ⟨shares, contents, hask, hprepared, hplaces⟩ :=
    (mountpoints_on_host h h₁ _ hpoints).value points rfl
  obtain ⟨shares', hask', hprepared', hmounts⟩ := (build_on_host h₁ h₂ _ hspec).value spec rfl
  rw [hprepared.grows.home] at hask'
  obtain rfl := hask.unique hask'
  obtain rfl := hprepared'.settled hprepared.there
  have hadded : (∃ added, spec.mounts = rootless ++ added ∧ Lands h₂ cfg.run added points) ↔
      Lands h₂ cfg.run ((items cfg.run h₂ shares).map Item.mount) points := by
    rw [hmounts]
    simp
  have hthere : ∀ share ∈ shares, (h₂.kind share.1).isSome = true :=
    fun share hshare => hprepared.there _ (List.mem_map_of_mem hshare)
  rw [hadded, items_land_iff (hplaces ▸ mountedOnto_append _), items_fit_iff (fun _ => h₂.cwd_directory) hthere]
  refine and_congr ?_ netFiles_fit_iff
  constructor
  · intro hall entry hentry share hasks
    have hshare := hask.mem_iff.mpr ⟨entry, hentry, hasks⟩
    exact (hprepared.fits_iff (List.mem_map_of_mem hshare)).mp (hall share hshare)
  · intro hall share hshare
    obtain ⟨entry, hentry, hasks⟩ := hask.mem_iff.mp hshare
    exact (hprepared.fits_iff (List.mem_map_of_mem hshare)).mpr (hall entry hentry share hasks)

-- ---------------------------------------------------------------------------
-- A host with a socket
-- ---------------------------------------------------------------------------

namespace Workshop

def quiet : Handler (I := hostOps) HostOp.effect where
  answer
    | .currentDir, h => some (h.cwd, h)
    | .homeDir, h => some (h.home, h)
    | .var name, h => some (h.var name, h)
    | .resolvConf, h => some (h.resolvConf, h)
    | .kind path, h => some (h.kind path, h)
    | .createDirAll _, h => some (.error .other, h)
    | .createFile _, h => some (.error .other, h)
  sound := by
    rintro op h r h' hop
    cases op <;> cases hop
    case createDirAll | createFile => exact ⟨.refl h, fun hok => by cases hok⟩
    all_goals exact ⟨rfl, rfl⟩

theorem work_physical : ∀ dir ∈ some "/work", UnixPath.Component.parent ∉ UnixPath.components dir := by
  intro dir hdir
  cases hdir
  decide

def host : Host where
  kind path := [("/work", .directory), ("/home/u/.config", .directory), ("/run/docker.sock", .socket)].lookup path
  cwd := some "/work"
  home := some "/home/u"
  cwd_directory dir hdir := by
    cases hdir
    decide
  cwd_physical := work_physical

def app (entry : String) : AppConfig where
  app := { name := "docker", description := "", license := "" }
  image := { reference := "docker" }
  run := { entrypoint := some (.string "docker"), mount := [entry] }

def proc : Mount := { destination := "/proc", typ := "proc", source := "proc", options := [] }

def pointsOf (entry : String) : Host × HostAct (List MountPoint) :=
  Prog.run quiet 8 (host, mountpoints (app entry))

def specOf (entry : String) : Host × HostAct Spec :=
  Prog.run quiet 8 ((pointsOf entry).1, Spec.build [proc] (app entry) none "/merged" [] false)

def points (place : MountPoint) : List MountPoint :=
  (["/proc", "/dev", "/sys", "/tmp", "/run", "/var/tmp", "/work"].map .dir) ++ [place]

def added (share : Mount) : List Mount :=
  [tmpfs "/tmp" "1777", tmpfs "/run" "0755", tmpfs "/var/tmp" "1777", bindMount "/work" "/work" false, share]

structure Launch (entry : String) (place : MountPoint) (share : Mount) (h₁ h₂ : Host) (spec : Spec) : Prop where
  lists : Prog.Steps HostOp.effect host (mountpoints (app entry)) h₁ (.ret (points place))
  builds : Prog.Steps HostOp.effect h₁ (Spec.build [proc] (app entry) none "/merged" [] false) h₂ (.ret spec)
  mounts : spec.mounts = [proc] ++ added share

theorem launch (entry : String) (place : MountPoint) (share : Mount)
    (hpoints : (pointsOf entry).2.value? = some (points place))
    (hspec : (specOf entry).2.value?.map (·.mounts) = some ([proc] ++ added share)) :
    ∃ h₁ h₂ spec, Launch entry place share h₁ h₂ spec := by
  obtain ⟨spec, hvalue, hmounts⟩ := Option.map_eq_some_iff.mp hspec
  exact ⟨_, _, spec, Prog.run_value quiet 8 hpoints, Prog.run_value quiet 8 hvalue, hmounts⟩

theorem mounts_land_iff_config : ∃ h₁ h₂ spec,
    Launch "~/.config:ro" (.dir "/home/u/.config") (bindMount "/home/u/.config" "/home/u/.config" true)
      h₁ h₂ spec ∧
    ∃ added, spec.mounts = [proc] ++ added ∧
      Lands h₂ (app "~/.config:ro").run added (points (.dir "/home/u/.config")) := by
  obtain ⟨h₁, h₂, spec, hlaunch⟩ := launch "~/.config:ro" (.dir "/home/u/.config")
    (bindMount "/home/u/.config" "/home/u/.config" true) (by rfl) (by rfl)
  refine ⟨h₁, h₂, spec, hlaunch, (mounts_land_iff hlaunch.lists hlaunch.builds).mpr ⟨?_, ?_⟩⟩
  · intro entry hentry share hasks
    obtain rfl := List.mem_singleton.mp hentry
    have hconfig : AsksFor host.home "~/.config:ro" ("/home/u/.config", "/home/u/.config", true) :=
      ⟨"~/.config", "~/.config", by rfl, by rfl, by decide +kernel⟩
    rw [hasks.unique hconfig]
    decide
  · intro hfull
    cases hfull

/-- The socket is to be mounted onto a directory. -/
theorem socket_lands_on_directory : ∃ h₁ h₂ spec,
    Launch "/run/docker.sock" (.dir "/run/docker.sock")
      (bindMount "/run/docker.sock" "/run/docker.sock" false) h₁ h₂ spec ∧
    ¬ ∃ added, spec.mounts = [proc] ++ added ∧
      Lands h₂ (app "/run/docker.sock").run added (points (.dir "/run/docker.sock")) := by
  obtain ⟨h₁, h₂, spec, hlaunch⟩ := launch "/run/docker.sock" (.dir "/run/docker.sock")
    (bindMount "/run/docker.sock" "/run/docker.sock" false) (by decide +kernel) (by decide)
  refine ⟨h₁, h₂, spec, hlaunch, ?_⟩
  rintro ⟨all, hall, hlands⟩
  have hadded := List.append_cancel_left (hlaunch.mounts.symm.trans hall)
  subst hadded
  obtain ⟨_, _, -, hprepared, -⟩ := (mountpoints_on_host host h₁ _ hlaunch.lists).value _ rfl
  obtain ⟨_, -, hprepared', -⟩ := (build_on_host h₁ h₂ _ hlaunch.builds).value spec rfl
  have hsocket : h₂.kind "/run/docker.sock" = some .socket :=
    hprepared'.grows.keeps (hprepared.grows.keeps rfl)
  obtain ⟨point, hmem, hfits⟩ := exists_place hlands
    (show bindMount "/run/docker.sock" "/run/docker.sock" false ∈ added _ by simp [added])
  obtain ⟨hpath, hkind⟩ := fits_bind.mp hfits
  rw [hsocket] at hkind
  have hdirectories : ∀ point ∈ points (.dir "/run/docker.sock"), point.isFile = false := by decide
  cases hkind.mp (hdirectories point hmem)

end Workshop

end Climate
