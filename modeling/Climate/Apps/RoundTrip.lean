import Climate.Apps.Show

/-!
# Reading back what is shown

What `show` prints is read back as the definition it shows, unless the
install script has a character that a literal string cannot hold, or a
section that is written as an array states what is left out when shown.
-/

namespace Climate

open Toml (Table Value Line Text Body given)

variable {crates : Crates} {defaults : Bool} {config : AppConfig} {raw : Table} {nl : String → String}

-- ---------------------------------------------------------------------------
-- The keys of each section
-- ---------------------------------------------------------------------------

/-- A default is shown if asked for. -/
def shown (defaults absent : Bool) (value : Value) : Option Value :=
  if absent && !defaults then none else some value

def appGiven (config : AppConfig) : List (String × Option Value) :=
  [("name", some (.string config.app.name)), ("description", some (.string config.app.description)),
    ("license", some (.string config.app.license))]

def imageGiven (defaults : Bool) (config : AppConfig) (raw : Table) (install : Option Value) :
    List (String × Option Value) :=
  [("reference", some (.string config.image.reference)),
    ("pull", shown defaults (absent raw "image" "pull") (.boolean config.image.pull)),
    ("install", install)]

def runGiven (crates : Crates) (defaults : Bool) (run : RunConfig) (raw : Table) :
    List (String × Option Value) :=
  [("entrypoint", run.entrypoint.map entrypointValue),
    ("args", shown defaults (absent raw "run" "args") (stringsValue run.args)),
    ("env", shown defaults (absent raw "run" "env") (stringsValue run.env)),
    ("mount-cwd", shown defaults (absent raw "run" "mount-cwd") (.boolean run.mountCwd)),
    ("mount", shown defaults (absent raw "run" "mount") (stringsValue run.mount)),
    ("network", shown defaults (absent raw "run" "network") (networkValue run.network)),
    ("capabilities", shown defaults (absent raw "run" "capabilities")
      (capabilitiesValue crates run.capabilities)),
    ("seccomp-allow", shown defaults (absent raw "run" "seccomp-allow") (stringsValue run.seccompAllow)),
    ("seccomp-deny", shown defaults (absent raw "run" "seccomp-deny") (stringsValue run.seccompDeny))]

def limitsGiven (limits : LimitsConfig) : List (String × Option Value) :=
  [("memory", limits.memory.map .string), ("swap", limits.swap.map .string),
    ("memory-high", limits.memoryHigh.map .string), ("cpu", limits.cpu.map .float),
    ("cpu-shares", limits.cpuShares.map .integer), ("pids", limits.pids.map .integer)]

theorem body_comment : Body nl (defaulted defaults (.comment text)) [(key, none)] := by
  cases defaults with
  | true => exact .comment
  | false => exact .left_out

theorem body_key : Body nl (showKey defaults key value missing) [(key, shown defaults missing value)] := by
  cases missing with
  | false => exact .entry rfl
  | true =>
    cases defaults with
    | true => exact .entry rfl
    | false => exact .left_out

theorem body_stated : Body nl (showKey defaults key value false) [(key, some value)] := .entry rfl

theorem body_limit : Body nl (showLimit defaults key value unset) [(key, value)] := by
  cases value with
  | some value => exact .entry rfl
  | none => exact body_comment

theorem body_run : Body nl (showRun crates defaults config raw) (runGiven crates defaults config.run raw) := by
  unfold showRun
  refine (((((((Toml.Body.append (l := [("entrypoint", config.run.entrypoint.map entrypointValue)]) ?_
    body_key).append body_key).append body_key).append body_key).append body_key).append body_key).append
    body_key).append body_key
  cases config.run.entrypoint with
  | some entrypoint => exact body_stated
  | none => exact body_comment

theorem body_limits : Body nl (showLimits defaults config) (limitsGiven config.limits) :=
  ((((body_limit.append body_limit).append body_limit).append body_limit).append body_limit).append body_limit

theorem body_app : Body nl (showKey defaults "name" (.string config.app.name) false ++
    showKey defaults "description" (.string config.app.description) false ++
    showKey defaults "license" (.string config.app.license) false) (appGiven config) :=
  (body_stated.append body_stated).append body_stated

/-- What the install script is read back as. -/
def installText (config : AppConfig) (nl : String → String) : Option (Option Value) :=
  match config.image.install with
  | none => some none
  | some script => ((scriptValue script).value nl).map some

theorem body_image (h : installText config nl = some install) :
    Body nl (showKey defaults "reference" (.string config.image.reference) false ++
      showKey defaults "pull" (.boolean config.image.pull) (absent raw "image" "pull") ++
      showInstall defaults config) (imageGiven defaults config raw install) := by
  refine (body_stated.append body_key).append ?_
  unfold showInstall
  unfold installText at h
  cases hscript : config.image.install with
  | none =>
    rw [hscript] at h
    cases h
    exact body_comment
  | some script =>
    rw [hscript] at h
    obtain ⟨value, hvalue, rfl⟩ := Option.map_eq_some_iff.mp h
    exact .entry hvalue

-- ---------------------------------------------------------------------------
-- The document
-- ---------------------------------------------------------------------------

/-- Whether a section has its header. -/
def headed (defaults : Bool) (raw : Table) (name : String) : Bool := defaults || statesAny raw name

/-- Keys without a header of their own fall to the section above. -/
def shownSections (crates : Crates) (defaults : Bool) (config : AppConfig) (raw : Table)
    (install : Option Value) : List (String × List (String × Option Value)) :=
  let limits := limitsGiven config.limits
  let run := runGiven crates defaults config.run raw ++ if headed defaults raw "limits" then [] else limits
  [("app", appGiven config),
    ("image", imageGiven defaults config raw install ++ if headed defaults raw "run" then [] else run)] ++
    (if headed defaults raw "run" then [("run", run)] else []) ++
    if headed defaults raw "limits" then [("limits", limits)] else []

theorem sections_header (h : Body nl lines l) :
    Toml.sections nl (.header name :: (lines ++ rest)) =
      (Toml.sections nl rest).map fun r => ([], (name, given l ++ r.1) :: r.2) := by
  rw [Toml.sections, h]
  cases Toml.sections nl rest <;> rfl

theorem showHeader_eq : showHeader defaults raw name =
    if headed defaults raw name then [.blank, .header name] else [] := rfl

theorem sections_limits : Toml.sections nl (showHeader defaults raw "limits" ++ showLimits defaults config) =
    some (if headed defaults raw "limits" then ([], [("limits", given (limitsGiven config.limits))])
      else (given (limitsGiven config.limits), [])) := by
  rw [← List.append_nil (showLimits defaults config), showHeader_eq]
  split
  · change Toml.sections nl (.header "limits" :: (showLimits defaults config ++ [])) = _
    rw [sections_header body_limits]
    simp [Toml.sections]
  · rw [List.nil_append, body_limits]
    simp [Toml.sections]

theorem sections_run : Toml.sections nl (showHeader defaults raw "run" ++ showRun crates defaults config raw ++
      (showHeader defaults raw "limits" ++ showLimits defaults config)) =
    let limits := limitsGiven config.limits
    let run := runGiven crates defaults config.run raw ++ if headed defaults raw "limits" then [] else limits
    let after := if headed defaults raw "limits" then [("limits", given limits)] else []
    some (if headed defaults raw "run" then ([], ("run", given run) :: after) else (given run, after)) := by
  rw [List.append_assoc, showHeader_eq]
  cases hrun : headed defaults raw "run" with
  | true =>
    change Toml.sections nl (.header "run" :: (showRun crates defaults config raw ++ _)) = _
    rw [sections_header body_run, sections_limits]
    cases headed defaults raw "limits" <;> simp [Toml.given_append]
  | false =>
    rw [if_neg Bool.false_ne_true, List.nil_append, body_run, sections_limits]
    cases headed defaults raw "limits" <;> simp [Toml.given_append]

theorem sections_showLines (h : installText config nl = some install) :
    Toml.sections nl (showLines crates defaults config raw) =
      some ([], (shownSections crates defaults config raw install).map fun e => (e.1, given e.2)) := by
  have hlines : showLines crates defaults config raw = .header "app" :: (
      (showKey defaults "name" (.string config.app.name) false ++
        showKey defaults "description" (.string config.app.description) false ++
        showKey defaults "license" (.string config.app.license) false) ++ (.blank :: .header "image" :: (
      (showKey defaults "reference" (.string config.image.reference) false ++
        showKey defaults "pull" (.boolean config.image.pull) (absent raw "image" "pull") ++
        showInstall defaults config) ++
      (showHeader defaults raw "run" ++ showRun crates defaults config raw ++
        (showHeader defaults raw "limits" ++ showLimits defaults config))))) := by
    simp [showLines, showApp, showImage, List.append_assoc]
  rw [hlines, sections_header body_app]
  change Option.map _ (Toml.sections nl (.header "image" :: _)) = _
  rw [sections_header (body_image h), sections_run]
  cases hrun : headed defaults raw "run" <;> cases hlimits : headed defaults raw "limits" <;>
    simp [shownSections, hrun, hlimits, Toml.given_append]

theorem shownSections_names :
    ((shownSections crates defaults config raw install).map (·.1)).Nodup := by
  cases hrun : headed defaults raw "run" <;> cases hlimits : headed defaults raw "limits" <;>
    simp [shownSections, hrun, hlimits]

theorem shownSections_keys :
    ∀ e ∈ shownSections crates defaults config raw install, (e.2.map (·.1)).Nodup := by
  cases hrun : headed defaults raw "run" <;> cases hlimits : headed defaults raw "limits" <;>
    simp [shownSections, hrun, hlimits, appGiven, imageGiven, runGiven, limitsGiven]

/-- The table that the printed document stands for. -/
def shownTable (crates : Crates) (defaults : Bool) (config : AppConfig) (raw : Table)
    (install : Option Value) : Table :=
  (shownSections crates defaults config raw install).map fun e => (e.1, .table (given e.2))

theorem document_showLines (h : installText config nl = some install) :
    Toml.document nl (showLines crates defaults config raw) =
      some (shownTable crates defaults config raw install) := by
  simp only [Toml.document, sections_showLines h, Option.bind_eq_bind, Option.bind_some, List.nil_append,
    List.map_map]
  refine if_pos ⟨?_, fun entry hmem => ?_⟩
  · simpa [Toml.Table.keys, Function.comp_def] using shownSections_names
  · obtain ⟨e, he, rfl⟩ := List.mem_map.mp hmem
    exact (shownSections_keys e he).sublist Toml.keys_given

-- ---------------------------------------------------------------------------
-- Reading it back
-- ---------------------------------------------------------------------------

theorem structFields_given (h : ∀ key ∈ l.map (·.1), key ∈ names) :
    structFields crates names (.table (given l)) = some (Table.get (given l)) :=
  if_pos fun key hkey => h key (Toml.keys_given.subset hkey)

theorem field_shown {read : Value → Option α} {fallback : α} (hread : read value = some x)
    (hleft : missing = true → defaults = false → x = fallback) :
    field fallback read (shown defaults missing value) = some x := by
  unfold shown
  split
  next h =>
    obtain ⟨hmissing, hdefaults⟩ : missing = true ∧ defaults = false := by simpa using h
    exact congrArg some (hleft hmissing hdefaults).symm
  next => exact hread

theorem optional_map {read : Value → Option α} {f : α → Value} (hread : ∀ a, read (f a) = some a)
    (o : Option α) : optional read (o.map f) = some o := by
  cases o with
  | none => rfl
  | some a => simp [optional, field, hread]

theorem readList_map {read : Value → Option α} {f : α → Value} {l : List α}
    (h : ∀ a ∈ l, read (f a) = some a) : readList read (.array (l.map f)) = some l := by
  unfold readList
  induction l with
  | nil => rfl
  | cons a l ih =>
    have hl := ih fun b hb => h b (by simp [hb])
    simp only [List.map_cons, List.mapM_cons] at hl ⊢
    rw [h a (by simp), hl]
    rfl

theorem read_strings (l : List String) : readList readString (stringsValue l) = some l :=
  readList_map fun _ _ => rfl

theorem read_entrypoint (entrypoint : Entrypoint) :
    Entrypoint.read (entrypointValue entrypoint) = some entrypoint := by
  cases entrypoint with
  | string program => rfl
  | list argv =>
    change (readList readString (stringsValue argv)).map Entrypoint.list = _
    rw [read_strings]
    rfl

/-- A choice is stated by its name. -/
def Crates.NamesVariants (crates : Crates) : Prop := ∀ name, crates.variant (.string name) = some name

theorem read_network (hnames : crates.NamesVariants) (network : Network) :
    Network.read crates (networkValue network) = some network := by
  unfold Network.read networkValue
  rw [hnames]
  cases network <;> decide

theorem read_capabilities (hnames : crates.NamesVariants) {l : List Capability}
    (h : ∀ c ∈ l, crates.capability (crates.capabilityName c) = some c) :
    readList (Capability.read crates) (capabilitiesValue crates l) = some l := by
  rw [capabilitiesValue, stringsValue, List.map_map]
  exact readList_map fun c hc => by simpa [Capability.read, hnames _] using h c hc

/-- Each key of a section, where it is found. -/
theorem get_all (h : (l.map (·.1)).Nodup) : ∀ e ∈ l, Table.get (given l) e.1 = e.2 :=
  fun _ he => Toml.get_given h he

theorem read_app : AppMeta.read crates (.table (given (appGiven config))) = some config.app := by
  have hget := get_all (l := appGiven config) (by simp [appGiven])
  unfold AppMeta.read
  rw [structFields_given (by simp [appGiven])]
  generalize given (appGiven config) = t at hget ⊢
  simp only [appGiven, List.forall_mem_cons] at hget
  obtain ⟨hname, hdescription, hlicense, -⟩ := hget
  simp only [Option.bind_eq_bind, Option.bind_some, hname, hdescription, hlicense]
  rfl

theorem read_image {install : Option String}
    (hpull : absent raw "image" "pull" = true → defaults = false → config.image.pull = true) :
    ImageConfig.read crates (.table (given (imageGiven defaults config raw (install.map .string)))) =
      some { config.image with install := install } := by
  have hget := get_all (l := imageGiven defaults config raw (install.map .string)) (by simp [imageGiven])
  unfold ImageConfig.read
  rw [structFields_given (by simp [imageGiven])]
  generalize given (imageGiven defaults config raw (install.map .string)) = t at hget ⊢
  simp only [imageGiven, List.forall_mem_cons] at hget
  obtain ⟨hreference, hpulled, hinstall, -⟩ := hget
  have hread : field true readBool (Table.get t "pull") = some config.image.pull :=
    hpulled ▸ field_shown rfl hpull
  have hstring : ∀ text, readString (.string text) = some text := fun _ => rfl
  simp only [Option.bind_eq_bind, Option.bind_some, hreference, hread, hinstall, optional_map hstring]
  rfl

/-- What the table of the run section leaves out is as by default. -/
structure RunOmits (raw : Table) (run : RunConfig) : Prop where
  args : absent raw "run" "args" = true → run.args = []
  env : absent raw "run" "env" = true → run.env = []
  mountCwd : absent raw "run" "mount-cwd" = true → run.mountCwd = true
  mount : absent raw "run" "mount" = true → run.mount = []
  network : absent raw "run" "network" = true → run.network = default
  capabilities : absent raw "run" "capabilities" = true → run.capabilities = []
  seccompAllow : absent raw "run" "seccomp-allow" = true → run.seccompAllow = []
  seccompDeny : absent raw "run" "seccomp-deny" = true → run.seccompDeny = []

theorem read_run (hnames : crates.NamesVariants) {run : RunConfig}
    (hcap : ∀ c ∈ run.capabilities, crates.capability (crates.capabilityName c) = some c)
    (homits : defaults = false → RunOmits raw run) :
    RunConfig.read crates (.table (given (runGiven crates defaults run raw))) = some run := by
  have hget := get_all (l := runGiven crates defaults run raw) (by simp [runGiven])
  unfold RunConfig.read
  rw [structFields_given (by simp [runGiven])]
  generalize given (runGiven crates defaults run raw) = t at hget ⊢
  simp only [runGiven, List.forall_mem_cons] at hget
  obtain ⟨hentrypoint, hargs, henv, hmountCwd, hmount, hnetwork, hcapabilities, hallow, hdeny, -⟩ := hget
  simp only [Option.bind_eq_bind, Option.bind_some, hentrypoint, hargs, henv, hmountCwd, hmount, hnetwork,
    hcapabilities, hallow, hdeny, optional_map read_entrypoint,
    field_shown (read_strings run.args) fun h hd => (homits hd).args h,
    field_shown (read_strings run.env) fun h hd => (homits hd).env h,
    field_shown (show readBool (.boolean run.mountCwd) = some run.mountCwd from rfl)
      fun h hd => (homits hd).mountCwd h,
    field_shown (read_strings run.mount) fun h hd => (homits hd).mount h,
    field_shown (read_network hnames run.network) fun h hd => (homits hd).network h,
    field_shown (read_capabilities hnames hcap) fun h hd => (homits hd).capabilities h,
    field_shown (read_strings run.seccompAllow) fun h hd => (homits hd).seccompAllow h,
    field_shown (read_strings run.seccompDeny) fun h hd => (homits hd).seccompDeny h]
  rfl

theorem read_limits {limits : LimitsConfig} :
    LimitsConfig.read crates (.table (given (limitsGiven limits))) = some limits := by
  have hget := get_all (l := limitsGiven limits) (by simp [limitsGiven])
  have hsize : ∀ text, size (.string text) = some text := fun _ => rfl
  have hfloat : ∀ x, readFloat crates (.float x) = some x := fun _ => rfl
  have hint : ∀ n, readInt (.integer n) = some n := fun _ => rfl
  unfold LimitsConfig.read
  rw [structFields_given (by simp [limitsGiven])]
  generalize given (limitsGiven limits) = t at hget ⊢
  simp only [limitsGiven, List.forall_mem_cons] at hget
  obtain ⟨hmemory, hswap, hhigh, hcpu, hshares, hpids, -⟩ := hget
  simp only [Option.bind_eq_bind, Option.bind_some, hmemory, hswap, hhigh, hcpu, hshares, hpids,
    optional_map hsize, optional_map hfloat, optional_map hint]
  rfl

-- ---------------------------------------------------------------------------
-- What the definition states
-- ---------------------------------------------------------------------------

/-- A section written as an array, which the printer takes for an absent
one, has nothing but defaults in what the printer then leaves out. -/
structure OnlyDefaults (config : AppConfig) (raw : Table) : Prop where
  image : ∀ items, raw.get "image" = some (.array items) → config.image.pull = true
  run : ∀ items, raw.get "run" = some (.array items) → config.run = {}
  limits : ∀ items, raw.get "limits" = some (.array items) → config.limits = {}

variable {fields : String → Option Value}

theorem structFields_table (h : structFields crates names (.table t) = some fields) : fields = Table.get t := by
  rw [structFields] at h
  split at h
  · exact (Option.some.inj h).symm
  · cases h

theorem structFields_cases (h : structFields crates names value = some fields) :
    (∃ t, value = .table t ∧ fields = Table.get t) ∨ ∃ items, value = .array items := by
  cases value with
  | table t => exact .inl ⟨t, rfl, structFields_table h⟩
  | array items => exact .inr ⟨items, rfl⟩
  | _ => cases h

/-- The sections a definition is read from. -/
theorem read_parts (h : AppConfig.read crates raw = some config) :
    ∃ app image, raw.get "app" = some app ∧ AppMeta.read crates app = some config.app ∧
      raw.get "image" = some image ∧ ImageConfig.read crates image = some config.image ∧
      field {} (RunConfig.read crates) (raw.get "run") = some config.run ∧
      field {} (LimitsConfig.read crates) (raw.get "limits") = some config.limits := by
  simp only [AppConfig.read, Option.bind_eq_bind, Option.bind_eq_some_iff] at h
  obtain ⟨get, hget, app, happ, appMeta, happ', image, himage, imageConfig, himage', run, hrun, limits,
    hlimits, h⟩ := h
  cases h
  rw [structFields_table hget] at happ himage hrun hlimits
  exact ⟨app, image, happ, happ', himage, himage', hrun, hlimits⟩

theorem field_none {read : Value → Option α} {fallback : α} (h : field fallback read value = some x)
    (hnone : value = none) : x = fallback := by
  subst hnone
  exact (Option.some.inj h).symm

theorem image_fields (h : ImageConfig.read crates value = some image) :
    ∃ get, structFields crates ["reference", "pull", "install"] value = some get ∧
      field true readBool (get "pull") = some image.pull ∧
      optional readString (get "install") = some image.install := by
  simp only [ImageConfig.read, Option.bind_eq_bind, Option.bind_eq_some_iff] at h
  obtain ⟨get, hget, _, _, _, _, pull, hpull, install, hinstall, h⟩ := h
  cases h
  exact ⟨get, hget, hpull, hinstall⟩

theorem absent_of_table (h : raw.get name = some (.table t)) :
    absent raw name key = true ↔ Table.get t key = none := by
  simp [absent, tableOf, h]

theorem run_omits (h : RunConfig.read crates (.table t) = some run) (hraw : raw.get "run" = some (.table t)) :
    RunOmits raw run := by
  simp only [RunConfig.read, Option.bind_eq_bind, Option.bind_eq_some_iff] at h
  obtain ⟨get, hget, entrypoint, -, args, hargs, env, henv, mountCwd, hmountCwd, mount, hmount, network, hnetwork,
    capabilities, hcapabilities, seccompAllow, hallow, seccompDeny, hdeny, h⟩ := h
  cases h
  obtain rfl := structFields_table hget
  exact ⟨fun h => field_none hargs ((absent_of_table hraw).mp h),
    fun h => field_none henv ((absent_of_table hraw).mp h),
    fun h => field_none hmountCwd ((absent_of_table hraw).mp h),
    fun h => field_none hmount ((absent_of_table hraw).mp h),
    fun h => field_none hnetwork ((absent_of_table hraw).mp h),
    fun h => field_none hcapabilities ((absent_of_table hraw).mp h),
    fun h => field_none hallow ((absent_of_table hraw).mp h),
    fun h => field_none hdeny ((absent_of_table hraw).mp h)⟩

/-- Where a section's table states nothing, it is as by default. -/
theorem section_unstated {read : Value → Option α} {fallback : α} (hempty : read (.table []) = some fallback)
    (hkinds : ∀ value, read value = some x → (∃ t, value = .table t) ∨ ∃ items, value = .array items)
    (h : field fallback read (raw.get name) = some x)
    (harray : ∀ items, raw.get name = some (.array items) → x = fallback)
    (hstates : statesAny raw name = false) : x = fallback := by
  cases hraw : raw.get name with
  | none => exact field_none h hraw
  | some value =>
    rw [hraw] at h
    have hread : read value = some x := h
    rcases hkinds value hread with ⟨t, rfl⟩ | ⟨items, rfl⟩
    · obtain rfl : t = [] := by simpa [statesAny, tableOf, hraw] using hstates
      exact Option.some.inj (hread.symm.trans hempty)
    · exact harray items hraw

theorem structFields_kinds {f : (String → Option Value) → Option α}
    (h : (structFields crates names value).bind f = some x) :
    (∃ t, value = .table t) ∨ ∃ items, value = .array items := by
  obtain ⟨fields, hfields, -⟩ := Option.bind_eq_some_iff.mp h
  rcases structFields_cases hfields with ⟨t, rfl, -⟩ | ⟨items, rfl⟩
  · exact .inl ⟨t, rfl⟩
  · exact .inr ⟨items, rfl⟩

theorem run_unstated (h : AppConfig.read crates raw = some config)
    (harray : ∀ items, raw.get "run" = some (.array items) → config.run = {})
    (hstates : statesAny raw "run" = false) : config.run = {} := by
  obtain ⟨_, _, -, -, -, -, hrun, -⟩ := read_parts h
  exact section_unstated rfl (fun _ hread => structFields_kinds hread) hrun harray hstates

theorem limits_unstated (h : AppConfig.read crates raw = some config)
    (harray : ∀ items, raw.get "limits" = some (.array items) → config.limits = {})
    (hstates : statesAny raw "limits" = false) : config.limits = {} := by
  obtain ⟨_, _, -, -, -, -, -, hlimits⟩ := read_parts h
  exact section_unstated rfl (fun _ hread => structFields_kinds hread) hlimits harray hstates

/-- What a section's default is known to leave out. -/
theorem run_omits_of_read (h : AppConfig.read crates raw = some config) (hdef : OnlyDefaults config raw) :
    RunOmits raw config.run := by
  obtain ⟨_, _, -, -, -, -, hrun, -⟩ := read_parts h
  have hdefault : config.run = {} → RunOmits raw config.run := by
    intro heq
    rw [heq]
    constructor <;> exact fun _ => rfl
  cases hraw : raw.get "run" with
  | none => exact hdefault (field_none hrun hraw)
  | some value =>
    rw [hraw] at hrun
    have hread : RunConfig.read crates value = some config.run := hrun
    cases value with
    | table t => exact run_omits hread hraw
    | array items => exact hdefault (hdef.run items hraw)
    | _ => cases hread

theorem pull_omitted (h : AppConfig.read crates raw = some config) (hdef : OnlyDefaults config raw)
    (habsent : absent raw "image" "pull" = true) : config.image.pull = true := by
  obtain ⟨_, image, -, -, hraw, himage, -⟩ := read_parts h
  obtain ⟨fields, hfields, hpull, -⟩ := image_fields himage
  rcases structFields_cases hfields with ⟨t, rfl, rfl⟩ | ⟨items, rfl⟩
  · exact field_none hpull ((absent_of_table hraw).mp habsent)
  · exact hdef.image items hraw

theorem absent_of_unstated (h : statesAny raw name = false) : absent raw name key = true := by
  unfold statesAny at h
  unfold absent
  cases ht : tableOf raw name with
  | none => rfl
  | some t =>
    obtain rfl : t = [] := by simpa [ht] using h
    rfl

/-- Such a section shows nothing. -/
theorem run_hidden (hstates : statesAny raw "run" = false) :
    given (runGiven crates false {} raw) = [] := by
  simp [runGiven, shown, absent_of_unstated hstates]

-- ---------------------------------------------------------------------------
-- The round trip
-- ---------------------------------------------------------------------------

def configGiven (crates : Crates) (defaults : Bool) (config : AppConfig) (raw : Table)
    (install : Option Value) : List (String × Option Value) :=
  let run := Value.table (given (runGiven crates defaults config.run raw))
  [("app", some (.table (given (appGiven config)))),
    ("image", some (.table (given (imageGiven defaults config raw install)))),
    ("run", if headed defaults raw "run" then some run else none),
    ("limits", if headed defaults raw "limits" then some (.table (given (limitsGiven config.limits))) else none)]

/-- A section that shows something has its header. -/
theorem shownTable_eq
    (hrun : headed defaults raw "run" = false → given (runGiven crates defaults config.run raw) = [])
    (hlimits : headed defaults raw "limits" = false → given (limitsGiven config.limits) = []) :
    shownTable crates defaults config raw install = given (configGiven crates defaults config raw install) := by
  unfold shownTable shownSections configGiven
  cases hr : headed defaults raw "run" <;> cases hl : headed defaults raw "limits" <;>
    simp [Toml.given_append, hr, hl, hrun, hlimits]

theorem reads_back {install : Option String} (h : AppConfig.read crates raw = some config)
    (hnames : crates.NamesVariants)
    (hcap : ∀ c ∈ config.run.capabilities, crates.capability (crates.capabilityName c) = some c)
    (hdef : defaults = true ∨ OnlyDefaults config raw) :
    AppConfig.read crates (shownTable crates defaults config raw (install.map .string)) =
      some { config with image := { config.image with install := install } } := by
  have hstated : defaults = false → OnlyDefaults config raw := fun hd =>
    hdef.resolve_left (by simp [hd])
  have hheaded : ∀ name, headed defaults raw name = false → defaults = false ∧ statesAny raw name = false :=
    fun name hh => by simpa [headed] using hh
  have hrun : headed defaults raw "run" = false → config.run = {} := fun hh =>
    run_unstated h (hstated (hheaded _ hh).1).run (hheaded _ hh).2
  have hlimits : headed defaults raw "limits" = false → config.limits = {} := fun hh =>
    limits_unstated h (hstated (hheaded _ hh).1).limits (hheaded _ hh).2
  have himage : ImageConfig.read crates (.table (given (imageGiven defaults config raw (install.map .string)))) =
      some { config.image with install := install } :=
    read_image fun habsent hd => pull_omitted h (hstated hd) habsent
  have hrun' : field {} (RunConfig.read crates) (if headed defaults raw "run" then
      some (.table (given (runGiven crates defaults config.run raw))) else none) = some config.run := by
    split
    · exact read_run hnames hcap fun hd => run_omits_of_read h (hstated hd)
    next hh => rw [hrun (by simpa using hh)]; rfl
  have hlimits' : field {} (LimitsConfig.read crates) (if headed defaults raw "limits" then
      some (.table (given (limitsGiven config.limits))) else none) = some config.limits := by
    split
    · exact read_limits
    next hh => rw [hlimits (by simpa using hh)]; rfl
  rw [shownTable_eq]
  · have hget := get_all (l := configGiven crates defaults config raw (install.map .string))
      (by simp [configGiven])
    unfold AppConfig.read
    rw [structFields_given (by simp [configGiven])]
    generalize given (configGiven crates defaults config raw (install.map .string)) = t at hget ⊢
    simp only [configGiven, List.forall_mem_cons] at hget
    obtain ⟨happ, himage', hrun'', hlimits'', -⟩ := hget
    simp only [Option.bind_eq_bind, Option.bind_some, happ, himage', hrun'', hlimits'', read_app, himage, hrun',
      hlimits']
    rfl
  · intro hh
    obtain ⟨rfl, hstates⟩ := hheaded _ hh
    rw [hrun hh]
    exact run_hidden hstates
  · intro hh
    rw [hlimits hh]
    rfl

/-- How the parser reads these lines: a document of printed values and literals
stands for its table, and one with a character in a literal that is not
allowed there is refused. -/
structure Crates.Reads (crates : Crates) (lines : List Line) : Prop where
  document : ∀ t, Toml.document crates.newlines lines = some t →
    crates.parse (Toml.render crates.print lines) = .ok t
  refused : ∀ before key body after, lines = before ++ .entry key (.literal body) :: after →
    (Toml.sections crates.newlines before).isSome = true → ¬ Toml.quotes.toList <:+: body.toList →
    Toml.plain body.toList = false → ∃ e, crates.parse (Toml.render crates.print lines) = .error e

/-- A script that is shown as a literal string is one that such a string can
hold and gives back as it is. -/
def Crates.Holds (crates : Crates) (script : String) : Prop :=
  '\n' ∈ script.toList → ¬ Toml.quotes.toList <:+: script.toList →
    Toml.plain script.toList = true ∧ crates.newlines script = script

theorem installText_literal (hinstall : config.image.install = some script)
    (hliteral : scriptValue script = .literal script) (hplain : Toml.plain script.toList = true) :
    installText config nl = some (some (.string (nl script))) := by
  rw [installText, hinstall]
  simp only [hliteral, Text.value, if_pos hplain, Option.map_some]

/-- The install script as the document has it, if the document can be read. -/
theorem install_shown (hinstall : config.image.install = some script) :
    (∃ text, installText config nl = some (some (.string text)) ∧
      (text = script ↔ ('\n' ∈ script.toList → ¬ Toml.quotes.toList <:+: script.toList →
        Toml.plain script.toList = true ∧ nl script = script))) ∨
    scriptValue script = .literal script ∧ ¬ Toml.quotes.toList <:+: script.toList ∧
      Toml.plain script.toList = false := by
  unfold installText scriptValue
  rw [hinstall]
  dsimp only
  split
  next h =>
    cases hplain : Toml.plain script.toList with
    | true => exact .inl ⟨nl script, by simp [Text.value, hplain], by simp [h]⟩
    | false => exact .inr ⟨rfl, h.2, rfl⟩
  next h => exact .inl ⟨script, rfl, by simpa using fun hline hquotes => absurd ⟨hline, hquotes⟩ h⟩

/-- The lines above the install script. -/
def aboveInstall (defaults : Bool) (config : AppConfig) (raw : Table) : List Line :=
  showApp defaults config ++ ([.blank, .header "image"] ++
    (showKey defaults "reference" (.string config.image.reference) false ++
      showKey defaults "pull" (.boolean config.image.pull) (absent raw "image" "pull")))

theorem sections_aboveInstall : (Toml.sections nl (aboveInstall defaults config raw)).isSome = true := by
  have hlines : aboveInstall defaults config raw = .header "app" :: (
      (showKey defaults "name" (.string config.app.name) false ++
        showKey defaults "description" (.string config.app.description) false ++
        showKey defaults "license" (.string config.app.license) false) ++ (.blank :: .header "image" :: (
      (showKey defaults "reference" (.string config.image.reference) false ++
        showKey defaults "pull" (.boolean config.image.pull) (absent raw "image" "pull")) ++ []))) := by
    simp [aboveInstall, showApp, List.append_assoc]
  rw [hlines, sections_header body_app, Option.isSome_map]
  change (Toml.sections nl (.header "image" :: _)).isSome = true
  rw [sections_header (body_stated.append body_key), Option.isSome_map]
  rfl

theorem showLines_install (hinstall : config.image.install = some script) :
    ∃ after, showLines crates defaults config raw =
      aboveInstall defaults config raw ++ .entry "install" (scriptValue script) :: after := by
  refine ⟨(showHeader defaults raw "run" ++ showRun crates defaults config raw) ++
    (showHeader defaults raw "limits" ++ showLimits defaults config), ?_⟩
  simp [showLines, showImage, showInstall, hinstall, aboveInstall, List.append_assoc]

theorem absent_of_array (h : raw.get name = some (.array items)) :
    statesAny raw name = false ∧ ∀ key, absent raw name key = true := by
  simp [statesAny, absent, tableOf, h]

/-- Keys and sections that the document leaves out are read back as by default. -/
theorem only_defaults_of_reads_back
    (hback : AppConfig.read crates (shownTable crates false config raw install) = some config) :
    OnlyDefaults config raw := by
  obtain ⟨_, _, -, -, himage, hread, hrun, hlimits⟩ := read_parts hback
  refine ⟨fun items harray => ?_, fun items harray => ?_, fun items harray => ?_⟩
  · obtain ⟨fields, hfields, hpull, -⟩ := image_fields hread
    cases himage
    rw [structFields_table hfields] at hpull
    refine field_none hpull (Toml.get_given (shownSections_keys _ (.tail _ (.head _))) ?_)
    simp [imageGiven, shown, (absent_of_array harray).2]
  · refine field_none hrun ?_
    cases hl : headed false raw "limits" <;>
      simp [shownTable, shownSections, headed, (absent_of_array harray).1, Table.get]
  · refine field_none hlimits ?_
    cases hr : headed false raw "run" <;>
      simp [shownTable, shownSections, headed, (absent_of_array harray).1, Table.get]

/-- What is shown is read back as the definition it was shown from exactly if
its install script is one that a literal string gives back, where it is shown
as one, and no section written as an array states what is left out. -/
theorem show_reads_back (hload : loadWithRaw crates dirs name = .ok (config, raw))
    (hnames : crates.NamesVariants)
    (hcap : ∀ c ∈ config.run.capabilities, crates.capability (crates.capabilityName c) = some c)
    (hreads : crates.Reads (showLines crates defaults config raw)) :
    (∃ text t, show_ crates dirs name defaults = .ok text ∧ crates.parse text = .ok t ∧
      AppConfig.read crates t = some config) ↔
    (∀ script, config.image.install = some script → crates.Holds script) ∧
      (defaults = true ∨ OnlyDefaults config raw) := by
  have hread := (loadWithRaw_ok hload).2.1
  have hshow : show_ crates dirs name defaults =
      .ok (Toml.render crates.print (showLines crates defaults config raw)) := by
    simp only [show_, hload]
    rfl
  -- A document that can be read at all is read as the definition with the script it shows.
  have hiff : ∀ install : Option String, installText config crates.newlines = some (install.map .string) →
      ((∃ text t, show_ crates dirs name defaults = .ok text ∧ crates.parse text = .ok t ∧
        AppConfig.read crates t = some config) ↔
      install = config.image.install ∧ (defaults = true ∨ OnlyDefaults config raw)) := by
    intro install hinstall
    have hparse := hreads.document _ (document_showLines hinstall)
    constructor
    · rintro ⟨text, t, htext, ht, hback⟩
      cases hshow.symm.trans htext
      cases hparse.symm.trans ht
      have hdef : defaults = true ∨ OnlyDefaults config raw := by
        cases defaults with
        | true => exact .inl rfl
        | false => exact .inr (only_defaults_of_reads_back hback)
      rw [reads_back hread hnames hcap hdef] at hback
      exact ⟨congrArg (fun c : AppConfig => c.image.install) (Option.some.inj hback), hdef⟩
    · rintro ⟨rfl, hdef⟩
      exact ⟨_, _, hshow, hparse, reads_back hread hnames hcap hdef⟩
  cases hinstall : config.image.install with
  | none =>
    rw [hiff none (by simp [installText, hinstall]), hinstall]
    simp
  | some script =>
    rcases install_shown hinstall with ⟨text, hshown, htext⟩ | ⟨hliteral, hquotes, hplain⟩
    · rw [hiff (some text) hshown, hinstall, Option.some.injEq, htext]
      simp [Crates.Holds]
    · obtain ⟨after, hlines⟩ := showLines_install hinstall
      rw [hliteral] at hlines
      obtain ⟨e, he⟩ := hreads.refused _ _ _ _ hlines sections_aboveInstall hquotes hplain
      constructor
      · rintro ⟨text, t, htext, ht, -⟩
        cases hshow.symm.trans htext
        rw [he] at ht
        cases ht
      · rintro ⟨hholds, -⟩
        have hline : '\n' ∈ script.toList := by
          by_contra hline
          rw [scriptValue, if_neg fun h => hline h.1] at hliteral
          cases hliteral
        rw [(hholds script rfl hline hquotes).1] at hplain
        cases hplain

-- ---------------------------------------------------------------------------
-- Two scripts
-- ---------------------------------------------------------------------------

namespace Scripted

def literalsPlain (lines : List Line) : Bool :=
  lines.all fun line =>
    match line with
    | .entry _ (.literal body) => Toml.plain body.toList
    | _ => true

theorem literalsPlain_entry (h : literalsPlain lines = true)
    (hlines : lines = before ++ .entry key (.literal body) :: after) :
    Toml.plain body.toList = true := by
  subst hlines
  exact List.all_eq_true.mp h (.entry key (.literal body)) (by simp)

def quoted : Value → String
  | .string text => "\"" ++ text ++ "\""
  | _ => ""

def print : Value → String
  | .boolean b => toString b
  | .array items => "[" ++ ", ".intercalate (items.map quoted) ++ "]"
  | value => quoted value

/-- Libraries that know one document. -/
def libraries (known : String) (table : Table) : Crates where
  parse text := if text = known then .ok table else .error "expected a table"
  print := print
  newlines text := text
  variant
    | .string name => some name
    | _ => none
  sequence _ _ := none
  nearest _ := .nan
  capability name := if name = "NET_BIND_SERVICE" then some .netBindService else none
  capabilityName
    | .netBindService => "NET_BIND_SERVICE"
    | _ => ""
  seacomb := { known := fun _ => true }

theorem libraries_parse (known : String) (table : Table) :
    (libraries known table).parse known = .ok table := by
  simp [libraries]

theorem libraries_refuses (h : text ≠ known) :
    (libraries known table).parse text = .error "expected a table" := by
  simp [libraries, h]

def host (text : String) : AppsDirs where
  search := [{
    path := "/usr/share/climate/apps"
    groups := { entries := [("g", { entries := [("gemini.toml", .file (.ok text))] })] } }]

def stating (script : String) : Table :=
  [("app", .table [("name", .string "gemini"), ("description", .string "AI agent"), ("license", .string "MIT")]),
    ("image", .table [("reference", .string "docker.io/library/node:lts"), ("install", .string script)]),
    ("run", .table [("network", .string "full"), ("capabilities", .array [.string "NET_BIND_SERVICE"])])]

def gemini (script : String) : AppConfig where
  app := { name := "gemini", description := "AI agent", license := "MIT" }
  image := { reference := "docker.io/library/node:lts", install := some script }
  run := { network := .full, capabilities := [.netBindService] }

def npm : String := "npm install -g gemini\nnpm cache clean --force\n"

def npmText : String :=
  "[app]\nname = \"gemini\"\ndescription = \"AI agent\"\nlicense = \"MIT\"\n\n" ++
  "[image]\nreference = \"docker.io/library/node:lts\"\n" ++
  "install = '''\nnpm install -g gemini\nnpm cache clean --force\n'''\n\n" ++
  "[run]\nnetwork = \"full\"\ncapabilities = [\"NET_BIND_SERVICE\"]\n"

/-- How a definition without an override is loaded. -/
theorem loads (hread : Climate.read dirs name = .ok (path, text)) (hparse : crates.parse text = .ok raw)
    (hover : readOverride dirs name = .ok none) (hconfig : AppConfig.read crates raw = some config)
    (hcheck : config.check crates name path = .ok ()) : loadWithRaw crates dirs name = .ok (config, raw) := by
  simp only [loadWithRaw, hread, hparse, hover, hconfig, Except.toOption, orParsing, bind, Except.bind, pure,
    Except.pure, hcheck]

theorem gemini_loads (known script : String) :
    loadWithRaw (libraries known (stating script)) (host known) "gemini" =
      .ok (gemini script, stating script) := by
  have hread : Climate.read (host known) "gemini" = .ok ("/usr/share/climate/apps/g/gemini.toml", known) := by
    rfl
  have hconfig : AppConfig.read (libraries known (stating script)) (stating script) = some (gemini script) := by
    rfl
  exact loads hread (libraries_parse _ _) rfl hconfig rfl

theorem npm_shown : Toml.render print (showLines (libraries npmText (stating npm)) false (gemini npm)
    (stating npm)) = npmText := by
  decide +kernel

theorem npm_literal : scriptValue npm = .literal npm := if_pos (by decide +kernel)

theorem npm_plain : Toml.plain npm.toList = true := by rfl

theorem npm_table : shownTable (libraries npmText (stating npm)) false (gemini npm) (stating npm)
    (some (.string npm)) = stating npm := by
  rfl

theorem npm_install : installText (gemini npm) (libraries npmText (stating npm)).newlines =
    some (some (.string npm)) :=
  installText_literal rfl npm_literal npm_plain

theorem npm_reads : (libraries npmText (stating npm)).Reads
    (showLines (libraries npmText (stating npm)) false (gemini npm) (stating npm)) := by
  refine ⟨fun t ht => ?_, fun before key body after hlines _ _ hplain => ?_⟩
  · have hparse : (libraries npmText (stating npm)).parse (Toml.render print
        (showLines (libraries npmText (stating npm)) false (gemini npm) (stating npm))) = .ok (stating npm) := by
      rw [npm_shown]
      exact libraries_parse _ _
    have heq := (document_showLines npm_install).symm.trans ht
    rw [npm_table] at heq
    exact hparse.trans (congrArg _ (Option.some.inj heq))
  · have hall : literalsPlain (showLines (libraries npmText (stating npm)) false (gemini npm)
      (stating npm)) = true := by
      decide +kernel
    rw [literalsPlain_entry hall hlines] at hplain
    cases hplain

theorem show_reads_back_npm : ∃ text t,
    show_ (libraries npmText (stating npm)) (host npmText) "gemini" false = .ok text ∧
    (libraries npmText (stating npm)).parse text = .ok t ∧
    AppConfig.read (libraries npmText (stating npm)) t = some (gemini npm) := by
  have hcap : ∀ c ∈ (gemini npm).run.capabilities,
      (libraries npmText (stating npm)).capability ((libraries npmText (stating npm)).capabilityName c) =
        some c := by
    intro c hc
    cases List.mem_singleton.mp hc
    rfl
  refine (show_reads_back (gemini_loads npmText npm) (fun _ => rfl) hcap npm_reads).mpr
    ⟨fun script hscript _ _ => ?_, .inr ⟨?_, ?_, ?_⟩⟩
  · cases hscript
    exact ⟨npm_plain, rfl⟩
  all_goals
    intro items h
    cases h

/-- A definition may have it, as a string with an escape. -/
def bold : String := "printf '\x1b[1mdone'\n"

def boldText : String :=
  "[app]\nname = \"gemini\"\ndescription = \"AI agent\"\nlicense = \"MIT\"\n\n" ++
  "[image]\nreference = \"docker.io/library/node:lts\"\ninstall = \"printf '\\u001b[1mdone'\\n\"\n\n" ++
  "[run]\nnetwork = \"full\"\ncapabilities = [\"NET_BIND_SERVICE\"]\n"

def boldLines : List Line := showLines (libraries boldText (stating bold)) true (gemini bold) (stating bold)

theorem bold_refused : (libraries boldText (stating bold)).parse (Toml.render print boldLines) =
    .error "expected a table" := by
  have hne : Toml.render print boldLines ≠ boldText := by decide +kernel
  exact libraries_refuses hne

theorem bold_reads : (libraries boldText (stating bold)).Reads boldLines := by
  refine ⟨fun t ht => ?_, fun _ _ _ _ _ _ _ _ => ⟨_, bold_refused⟩⟩
  have hnone : (Toml.document (libraries boldText (stating bold)).newlines boldLines).isNone = true := by
    decide +kernel
  rw [ht] at hnone
  cases hnone

theorem escape_is_not_read_back : ¬ ∀ (crates : Crates) dirs name defaults config raw,
    loadWithRaw crates dirs name = .ok (config, raw) → crates.NamesVariants →
    (∀ c ∈ config.run.capabilities, crates.capability (crates.capabilityName c) = some c) →
    crates.Reads (showLines crates defaults config raw) →
    ∃ text t, show_ crates dirs name defaults = .ok text ∧ crates.parse text = .ok t ∧
      AppConfig.read crates t = some config := by
  intro h
  have hcap : ∀ c ∈ (gemini bold).run.capabilities,
      (libraries boldText (stating bold)).capability
        ((libraries boldText (stating bold)).capabilityName c) = some c := by
    intro c hc
    cases List.mem_singleton.mp hc
    rfl
  obtain ⟨text, t, hshow, hparse, -⟩ := h _ _ _ true _ _ (gemini_loads boldText bold)
    (fun _ => rfl) hcap bold_reads
  have htext : show_ (libraries boldText (stating bold)) (host boldText) "gemini" true =
      .ok (Toml.render print boldLines) := by
    simp only [show_, gemini_loads]
    rfl
  cases htext.symm.trans hshow
  cases bold_refused.symm.trans hparse

end Scripted

end Climate
