import Climate.Lib.Reads
import Climate.Spec.Landing

/-!
# Checking a definition

The checks of spec.rs that need nothing but the definition, and the one of the
working directory. What the first accept is what a run accepts on a host that
has what the definition shares.
-/

namespace Climate

open UnixPath

def checkEntry (entry : String) : HostAct Unit := do
  let (source, destination, _) ← .ofExcept (parseMount entry)
  let source ← expandPath source
  if isRoot source then
    .throw "refusing to mount / (the whole host filesystem) into the container"
  else do
    let _ ← expandPath destination
    return

/-- Mount paths are not required to exist. -/
def check (cfg : AppConfig) : HostAct Unit := do
  let _ ← .ofExcept (resources cfg.limits)
  cfg.run.mount.forM checkEntry

/-- The warning about the home directory is left out. -/
def checkHostDir (run : RunConfig) : HostAct Unit := do
  match ← hostDir run with
  | none => return
  | some dir =>
    if isRoot dir then
      .throw ("refusing to bind-mount / (the whole host filesystem) into the container; " ++
        "run from a working directory, or set run.mount-cwd = false to share none")
    else return

-- ---------------------------------------------------------------------------
-- What an entry asks for
-- ---------------------------------------------------------------------------

/-- The ':' separated fields of an entry: the path on the host, the path
inside the container and whether it is read-only. -/
inductive Fields : List String → String × String × Bool → Prop
  | path : Fields [source] (source, source, false)
  | flag : access = "ro" ∨ access = "rw" → Fields [source, access] (source, source, access = "ro")
  | paths : destination ≠ "ro" → destination ≠ "rw" → Fields [source, destination] (source, destination, false)
  | all : access = "ro" ∨ access = "rw" →
      Fields [source, destination, access] (source, destination, access = "ro")

def fieldsOf (entry : String) : List String := (entry.toList.splitOn ':').map String.ofList

inductive Tilde (home : Option String) : String → String → Prop
  | home : path = "~" ∨ "~/".toList <+: path.toList → home = some dir →
      Tilde home path (join dir (trimStart '/' (trimStart '~' path)))
  | other : ¬ (path = "~" ∨ "~/".toList <+: path.toList) → Tilde home path path

/-- A share that an entry may ask for: both its paths are absolute, and its
source is not `/`. -/
structure Acceptable (home : Option String) (entry : String) (share : String × String × Bool) : Prop where
  stated : ∃ source destination, Fields (fieldsOf entry) (source, destination, share.2.2) ∧
    Tilde home source share.1 ∧ Tilde home destination share.2.1
  source : isAbsolute share.1 = true
  destination : isAbsolute share.2.1 = true
  notRoot : isRoot share.1 = false

theorem fields_iff : Fields (fieldsOf entry) parsed ↔ parseMount entry = .ok parsed := by
  unfold parseMount fieldsOf
  generalize (entry.toList.splitOn ':').map String.ofList = fields
  constructor
  · intro h
    cases h with
    | path => rfl
    | flag haccess => rcases haccess with rfl | rfl <;> rfl
    | paths hro hrw => simp [hro, hrw, bind, Except.bind]
    | all haccess => rcases haccess with rfl | rfl <;> rfl
  · intro h
    match fields, h with
    | [source], h =>
      cases h
      exact .path
    | [source, second], h =>
      by_cases haccess : second = "ro" ∨ second = "rw"
      · have hflag : Fields [source, second] _ := Fields.flag haccess
        rcases haccess with rfl | rfl <;> cases h <;> exact hflag
      · simp only [haccess, bind, Except.bind, if_false] at h
        cases h
        exact .paths (fun heq => haccess (.inl heq)) (fun heq => haccess (.inr heq))
    | [source, destination, access], h =>
      by_cases hro : access = "ro"
      · subst hro
        cases h
        exact .all (.inl rfl)
      · by_cases hrw : access = "rw"
        · subst hrw
          cases h
          exact .all (.inr rfl)
        · simp [bind, Except.bind, hro, hrw] at h
    | [], h | _ :: _ :: _ :: _ :: _, h => cases h

theorem absolute_iff {expanded : String} :
    (if isAbsolute expanded then Except.ok expanded else Except.error message) = .ok path ↔
      expanded = path ∧ isAbsolute path = true := by
  split
  next habs =>
    rw [Except.ok.injEq]
    exact ⟨fun heq => ⟨heq, heq ▸ habs⟩, And.left⟩
  next habs =>
    refine ⟨fun h => (by cases h), ?_⟩
    rintro ⟨rfl, habs'⟩
    exact absurd habs' habs

theorem tilde_home (h : text = "~" ∨ "~/".toList <+: text.toList) :
    Tilde (some dir) text path ↔ join dir (trimStart '/' (trimStart '~' text)) = path := by
  constructor
  · intro htilde
    cases htilde with
    | home _ hdir => cases hdir; rfl
    | other hnot => exact absurd h hnot
  · rintro rfl
    exact .home h rfl

theorem tilde_other (h : ¬ (text = "~" ∨ "~/".toList <+: text.toList)) :
    Tilde home text path ↔ text = path := by
  constructor
  · intro htilde
    cases htilde with
    | home hhome _ => exact absurd hhome h
    | other _ => rfl
  · rintro rfl
    exact .other h

theorem expand_iff : expand home text = .ok path ↔ Tilde home text path ∧ isAbsolute path = true := by
  unfold expand
  by_cases h : text = "~" ∨ "~/".toList <+: text.toList
  · rw [if_pos h]
    cases home with
    | none =>
      refine ⟨fun hnone => (by simp [orNone, bind, Except.bind] at hnone), fun ⟨htilde, _⟩ => ?_⟩
      cases htilde with
      | home _ hdir => cases hdir
      | other hnot => exact absurd h hnot
    | some dir =>
      rw [tilde_home h]
      simp only [orNone, bind, Except.bind, pure, Except.pure]
      exact absolute_iff
  · rw [if_neg h, tilde_other h]
    simp only [bind, Except.bind, pure, Except.pure]
    exact absolute_iff

theorem acceptable_iff : Acceptable home entry share ↔ AsksFor home entry share ∧ isRoot share.1 = false := by
  constructor
  · rintro ⟨⟨source, destination, hfields, hsource, hdestination⟩, habs, habs', hroot⟩
    exact ⟨⟨source, destination, fields_iff.mp hfields, expand_iff.mpr ⟨hsource, habs⟩,
      expand_iff.mpr ⟨hdestination, habs'⟩⟩, hroot⟩
  · rintro ⟨⟨source, destination, hparse, hsource, hdestination⟩, hroot⟩
    obtain ⟨hsource, habs⟩ := expand_iff.mp hsource
    obtain ⟨hdestination, habs'⟩ := expand_iff.mp hdestination
    exact ⟨⟨source, destination, fields_iff.mpr hparse, hsource, hdestination⟩, habs, habs', hroot⟩

-- ---------------------------------------------------------------------------
-- What the functions read
-- ---------------------------------------------------------------------------

abbrev ReadsHost (h : Host) (p : HostAct α) (x : Except String α) : Prop := Prog.Reads HostOp.effect h p x

def entryShare (home : Option String) (entry : String) : Except String (String × String × Bool) := do
  let (source, destination, readonly) ← parseMount entry
  let source ← expand home source
  if isRoot source then .error "refusing to mount / (the whole host filesystem) into the container"
  else do
    let destination ← expand home destination
    return (source, destination, readonly)

theorem entryShare_ok : entryShare home entry = .ok share ↔ Acceptable home entry share := by
  rw [acceptable_iff]
  constructor
  · intro h
    unfold entryShare at h
    cases hparse : parseMount entry with
    | error e => rw [hparse] at h; cases h
    | ok parsed =>
      obtain ⟨source, destination, readonly⟩ := parsed
      cases hsource : expand home source with
      | error e => simp [hparse, hsource, bind, Except.bind] at h
      | ok path =>
        simp only [hparse, hsource, bind, Except.bind] at h
        split at h
        next => cases h
        next hroot =>
          cases hdestination : expand home destination with
          | error e => rw [hdestination] at h; cases h
          | ok inside =>
            rw [hdestination] at h
            cases h
            exact ⟨⟨source, destination, hparse, hsource, hdestination⟩, by simpa using hroot⟩
  · rintro ⟨⟨source, destination, hparse, hsource, hdestination⟩, hroot⟩
    simp [entryShare, hparse, hsource, hdestination, hroot, bind, Except.bind, pure, Except.pure]

theorem expandPath_reads (h : Host) : ReadsHost h (expandPath text) (expand h.home text) := by
  have honly : ∀ r h', HostOp.effect .homeDir h r h' ↔ h' = h ∧ r = h.home := fun _ _ => Iff.rfl
  exact Prog.Reads.ask honly

theorem checkEntry_reads (h : Host) :
    ReadsHost h (checkEntry entry) (entryShare h.home entry >>= fun _ => .ok ()) := by
  unfold checkEntry entryShare
  rw [bind_assoc]
  refine .bind (.ofExcept _) fun parsed _ => ?_
  obtain ⟨source, destination, readonly⟩ := parsed
  dsimp only
  rw [bind_assoc]
  refine .bind (expandPath_reads h) fun path _ => ?_
  split
  · exact .throw _
  · rw [bind_assoc]
    exact .bind (expandPath_reads h) fun _ _ => .ret ()

theorem forM_reads {h : Host} {f : α → HostAct PUnit} {g : α → Except String PUnit} {l : List α}
    (hf : ∀ a ∈ l, ReadsHost h (f a) (g a)) : ReadsHost h (l.forM f) (l.forM g) := by
  induction l with
  | nil => exact .ret _
  | cons a l ih => exact .bind (hf a (by simp)) fun _ _ => ih fun b hb => hf b (by simp [hb])

theorem check_reads (h : Host) : ReadsHost h (check cfg) (do
    let _ ← resources cfg.limits
    cfg.run.mount.forM fun entry => entryShare h.home entry >>= fun _ => .ok ()) :=
  .bind (.ofExcept _) fun _ _ => forM_reads fun _ _ => checkEntry_reads h

def SourcesExist (h : Host) (entries : List String) : Prop :=
  ∀ entry ∈ entries, ∀ source destination readonly, parseMount entry = .ok (source, destination, readonly) →
    ∀ path, expand h.home source = .ok path → (h.kind path).isSome = true

theorem extraMount_reads (h : Host) (hthere : SourcesExist h [entry]) :
    ReadsHost h (extraMount entry) (entryShare h.home entry) := by
  unfold extraMount entryShare
  refine .bind (.ofExcept _) fun parsed hparse => ?_
  obtain ⟨source, destination, readonly⟩ := parsed
  refine .bind (expandPath_reads h) fun path hpath => ?_
  split
  · exact .throw _
  next hroot =>
    have honly : ∀ r h', HostOp.effect (.kind path) h r h' ↔ h' = h ∧ r = h.kind path := fun _ _ => Iff.rfl
    have hsome : (h.kind path).isSome = true :=
      hthere entry (by simp) source destination readonly hparse path hpath
    have hnone : (h.kind path).isNone = false := by simpa using hsome
    refine .ask_bind honly rfl ?_
    dsimp only
    rw [hnone]
    exact .bind (expandPath_reads h) fun _ _ => .ret _

theorem extraMounts_reads (h : Host) (hthere : SourcesExist h entries) :
    ReadsHost h (extraMounts entries) (entries.mapM (entryShare h.home)) := by
  induction entries with
  | nil => exact .ret _
  | cons entry rest ih =>
    rw [List.mapM_cons]
    refine .bind (extraMount_reads h fun e he => hthere e ?_) fun share _ => ?_
    · simpa using Or.inl (List.mem_singleton.mp he)
    · exact .bind (ih fun e he => hthere e (List.mem_cons_of_mem _ he)) fun shares _ => .ret _

-- ---------------------------------------------------------------------------
-- What is accepted
-- ---------------------------------------------------------------------------

/-- The function ends with a value on this host, however it runs. -/
def Accepts (h : Host) (p : HostAct α) : Prop := ∃ a, ReadsHost h p (.ok a)

theorem accepts_iff {p : HostAct α} (hreads : ReadsHost h p x) : Accepts h p ↔ ∃ a, x = .ok a := by
  constructor
  · rintro ⟨a, ha⟩
    exact ⟨a, hreads.unique ha⟩
  · rintro ⟨a, rfl⟩
    exact ⟨a, hreads⟩

theorem mapM_ok {f : α → Except String β} {l : List α} {l' : List β} :
    l.mapM f = .ok l' ↔ List.Forall₂ (fun a b => f a = .ok b) l l' := by
  constructor
  · intro h
    induction l generalizing l' with
    | nil =>
      cases h
      exact .nil
    | cons a l ih =>
      rw [List.mapM_cons] at h
      cases ha : f a with
      | error e => rw [ha] at h; cases h
      | ok b =>
        rw [ha] at h
        cases hl : l.mapM f with
        | error e => simp [bind, Except.bind, hl] at h
        | ok bs =>
          rw [hl] at h
          cases h
          exact .cons ha (ih hl)
  · intro h
    induction h with
    | nil => rfl
    | cons ha _ ih =>
      rw [List.mapM_cons, ha, ih]
      rfl

theorem forM_ok {f : α → Except String β} {l : List α} :
    (l.forM fun a => f a >>= fun _ => .ok PUnit.unit) = .ok PUnit.unit ↔ ∀ a ∈ l, ∃ b, f a = .ok b := by
  induction l with
  | nil => simp [pure, Except.pure]
  | cons a l ih =>
    rw [List.forall_mem_cons]
    change ((f a >>= fun _ => .ok PUnit.unit) >>= fun _ => l.forM _) = .ok PUnit.unit ↔ _
    cases ha : f a with
    | error e => simp [bind, Except.bind]
    | ok b =>
      have hsome : ∃ b', Except.ok b = (Except.ok b' : Except String β) := ⟨b, rfl⟩
      rw [and_iff_right hsome]
      exact ih

theorem forall₂_exists {R : α → β → Prop} {l : List α} :
    (∃ l', List.Forall₂ R l l') ↔ ∀ a ∈ l, ∃ b, R a b := by
  induction l with
  | nil => simp
  | cons a l ih =>
    rw [List.forall_mem_cons, ← ih]
    constructor
    · rintro ⟨_, hab | ⟨hab, hl⟩⟩
      exact ⟨⟨_, hab⟩, _, hl⟩
    · rintro ⟨⟨b, hab⟩, bs, hl⟩
      exact ⟨b :: bs, .cons hab hl⟩

theorem check_accepts_iff (h : Host) : Accepts h (check cfg) ↔
    (∃ limits, resources cfg.limits = .ok limits) ∧
      ∀ entry ∈ cfg.run.mount, ∃ share, Acceptable h.home entry share := by
  rw [accepts_iff (check_reads h)]
  cases hlimits : resources cfg.limits with
  | error e => simp [bind, Except.bind]
  | ok limits =>
    have hsome : ∃ limits', Except.ok limits = (Except.ok limits' : Except String (Option LinuxResources)) :=
      ⟨limits, rfl⟩
    rw [and_iff_right hsome]
    simp only [← entryShare_ok]
    rw [← forM_ok]
    exact ⟨fun ⟨_, h⟩ => h, fun h => ⟨_, h⟩⟩

theorem extraMounts_accepts_iff (h : Host) (hthere : SourcesExist h entries) :
    Accepts h (extraMounts entries) ↔ ∀ entry ∈ entries, ∃ share, Acceptable h.home entry share := by
  rw [accepts_iff (extraMounts_reads h hthere)]
  simp only [mapM_ok, entryShare_ok]
  exact forall₂_exists

def everywhere (home : Option String) : Host where
  kind _ := some .directory
  cwd := none
  home := home
  cwd_directory dir hdir := by cases hdir
  cwd_physical dir hdir := by cases hdir

/-- `check` accepts a definition exactly if a run accepts it on every host with
that home directory that has what the definition shares; that is, if its
limits are in order and every entry is acceptable. A run then gets a share for
every entry, in their order. -/
theorem check_agrees_with_run (cfg : AppConfig) (home : Option String) :
    ((∀ h : Host, h.home = home → Accepts h (check cfg)) ↔
      ∀ h : Host, h.home = home → SourcesExist h cfg.run.mount →
        (∃ limits, resources cfg.limits = .ok limits) ∧ Accepts h (extraMounts cfg.run.mount)) ∧
    ((∀ h : Host, h.home = home → Accepts h (check cfg)) ↔
      (∃ limits, resources cfg.limits = .ok limits) ∧
        ∀ entry ∈ cfg.run.mount, ∃ share, Acceptable home entry share) ∧
    ∀ h : Host, h.home = home → SourcesExist h cfg.run.mount →
      ∀ shares, ReadsHost h (extraMounts cfg.run.mount) (.ok shares) →
        List.Forall₂ (Acceptable home) cfg.run.mount shares := by
  have hcheck : (∀ h : Host, h.home = home → Accepts h (check cfg)) ↔
      (∃ limits, resources cfg.limits = .ok limits) ∧
        ∀ entry ∈ cfg.run.mount, ∃ share, Acceptable home entry share := by
    constructor
    · intro h
      exact (check_accepts_iff _).mp (h (everywhere home) rfl)
    · rintro h host rfl
      exact (check_accepts_iff host).mpr h
  refine ⟨hcheck.trans ⟨?_, fun h => ?_⟩, hcheck, ?_⟩
  · rintro ⟨hlimits, hentries⟩ h rfl hthere
    exact ⟨hlimits, (extraMounts_accepts_iff h hthere).mpr hentries⟩
  · have hthere : SourcesExist (everywhere home) cfg.run.mount := fun _ _ _ _ _ _ _ _ => rfl
    obtain ⟨hlimits, haccepts⟩ := h (everywhere home) rfl hthere
    exact ⟨hlimits, (extraMounts_accepts_iff _ hthere).mp haccepts⟩
  · rintro h rfl hthere shares hshares
    have hmap := (extraMounts_reads h hthere).unique hshares
    simpa only [mapM_ok, entryShare_ok] using hmap

namespace Workshop

theorem check_agrees_with_run_config : Accepts host (check (app "~/.config:ro")) ∧
    ∃ shares, ReadsHost host (extraMounts ["~/.config:ro"]) (.ok shares) ∧
      List.Forall₂ (Acceptable (some "/home/u")) ["~/.config:ro"] shares := by
  obtain ⟨hruns, hentries, hshares⟩ := check_agrees_with_run (app "~/.config:ro") (some "/home/u")
  have hparse : parseMount "~/.config:ro" = .ok ("~/.config", "~/.config", true) := by rfl
  have hpath : expand (some "/home/u") "~/.config" = .ok "/home/u/.config" := by rfl
  have hthere : SourcesExist host ["~/.config:ro"] := by
    intro entry hentry source destination readonly hsays path hexpand
    obtain rfl := List.mem_singleton.mp hentry
    cases hparse.symm.trans hsays
    cases hpath.symm.trans hexpand
    decide
  have hshare : entryShare (some "/home/u") "~/.config:ro" =
      .ok ("/home/u/.config", "/home/u/.config", true) := by
    rfl
  have hchecked : ∀ h : Host, h.home = some "/home/u" → Accepts h (check (app "~/.config:ro")) :=
    hentries.mpr ⟨⟨none, rfl⟩, fun entry hentry => ⟨_, by
      obtain rfl := List.mem_singleton.mp hentry
      exact entryShare_ok.mp hshare⟩⟩
  obtain ⟨shares, hreads⟩ := (hruns.mp hchecked host rfl hthere).2
  exact ⟨hchecked host rfl, shares, hreads, hshares host rfl hthere shares hreads⟩

end Workshop

end Climate
