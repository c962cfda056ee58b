import Climate.Apps.Definitions
import Climate.Lib.Links

/-!
# Linking apps

main.rs's `link`: symlinks beside the executable, each named after an app and
with the executable's bare name as its text.
-/

namespace Climate.Link

open Links
open UnixPath (Place components isAbsolute render)

-- ---------------------------------------------------------------------------
-- The program
-- ---------------------------------------------------------------------------

/-- What `current_exe` says. -/
structure Executable where
  dir : Place
  name : String
  bare : Bare name

def Executable.place (exe : Executable) : Place := exe.dir ++ [exe.name]

structure LinkCmd where
  all : Bool := false
  force : Bool := false
  apps : List String := []

structure Calls where
  unlink : Place → Except String Unit
  symlink : Place → Except String Unit

/-- The apps are those that are reported as linked. -/
structure State where
  disk : Disk
  linked : List String := []

abbrev Act := ExceptT String (StateM State)

def withContext (message : String) (act : Act α) : Act α := ExceptT.adapt (fun _ => message) act

def put (place : Place) (item : Option Item) : Act Unit :=
  modify fun s => { s with disk := Function.update s.disk place item }

def readLink (d : Disk) (place : Place) : Option String :=
  match d place with
  | some (.link text) => some text
  | _ => none

def removeFile (calls : Calls) (place : Place) : Act Unit := do
  match (← get).disk place with
  | none => throw "No such file or directory (os error 2)"
  | some .dir => throw "Is a directory (os error 21)"
  | some _ => do
    liftExcept (calls.unlink place)
    put place none

def symlink (calls : Calls) (target : String) (place : Place) : Act Unit := do
  if ((← get).disk place).isSome then throw "File exists (os error 17)"
  else do
    liftExcept (calls.symlink place)
    put place (some (.link target))

/-- A link that is there already stays; what else is in the way is replaced
only with `force`. -/
def createSymlink (calls : Calls) (target : String) (link : Place) (force : Bool) : Act Unit := do
  let d := (← get).disk
  if (readLink d link).any (samePath · target) then return ()
  else do
    if (d link).isSome then
      if !force then throw s!"{render (link.map .normal)} already exists (pass -f to replace)"
      else removeFile calls link
    withContext s!"creating symlink {render (link.map .normal)}" (symlink calls target link)

def joined (dir : Place) (name : String) : Place :=
  UnixPath.resolve (if isAbsolute name then [] else dir) (components name)

section
variable (crates : Crates) (dirs : AppsDirs)

/-- An app that does not load is warned about and skipped. -/
def linkApp (calls : Calls) (exe : Executable) (force : Bool) (name : String) : Act Unit := do
  match load crates dirs name with
  | .error _ => return ()
  | .ok _ => do
    createSymlink calls exe.name (joined exe.dir name) force
    modify fun s => { s with linked := s.linked ++ [name] }

def LinkCmd.names (cmd : LinkCmd) : List String := if cmd.all then appNames dirs else cmd.apps

def link (calls : Calls) (currentExe : Option Executable) (cmd : LinkCmd) : Act Unit := do
  if !cmd.all && cmd.apps = [] then throw "link: specify one or more app names, or -a/--all"
  else match currentExe with
    | none => throw "resolving the CLImate executable"
    | some exe => (cmd.names dirs).forM (linkApp crates dirs calls exe cmd.force)

end

-- ---------------------------------------------------------------------------
-- One app
-- ---------------------------------------------------------------------------

def Loads (crates : Crates) (dirs : AppsDirs) (name : String) : Prop :=
  ∃ config, load crates dirs name = .ok config

section
variable (calls : Calls) (exe : Executable) (force : Bool) (d : Disk) (name : String)

/-- The app's entry is one that `createSymlink` takes for its link. -/
def Linked : Prop := ∃ text, d (exe.dir ++ [name]) = some (.link text) ∧ samePath text exe.name = true

/-- Nothing is in the way, or what is can be replaced. -/
def Clears : Prop := d (exe.dir ++ [name]) = none ∨
  force = true ∧ d (exe.dir ++ [name]) ≠ some .dir ∧ calls.unlink (exe.dir ++ [name]) = .ok ()

/-- The app is linked without an error. -/
def Passes : Prop := Linked exe d name ∨ Clears calls exe force d name ∧
    calls.symlink (exe.dir ++ [name]) = .ok ()

/-- How `createSymlink` ends, and the disk it leaves. -/
inductive Outcome : Except String Unit → Disk → Prop
  | linked (hlinked : Linked exe d name) : Outcome (.ok ()) d
  | refused (hnot : ¬ Linked exe d name) (hstays : ¬ Clears calls exe force d name) : Outcome (.error message) d
  | failed (hnot : ¬ Linked exe d name) (hclears : Clears calls exe force d name)
      (hfails : calls.symlink (exe.dir ++ [name]) ≠ .ok ()) :
      Outcome (.error message) (Function.update d (exe.dir ++ [name]) none)
  | made (hnot : ¬ Linked exe d name) (hclears : Clears calls exe force d name)
      (hmakes : calls.symlink (exe.dir ++ [name]) = .ok ()) :
      Outcome (.ok ()) (Function.update d (exe.dir ++ [name]) (some (.link exe.name)))

end

/-- How linking the apps of a list ends. -/
inductive Linking (crates : Crates) (dirs : AppsDirs) (calls : Calls) (exe : Executable) (force : Bool) :
    List String → State → Except String Unit → State → Prop
  | done : Linking crates dirs calls exe force [] s (.ok ()) s
  | skipped (hnot : ¬ Loads crates dirs name) (hrest : Linking crates dirs calls exe force names s r s') :
      Linking crates dirs calls exe force (name :: names) s r s'
  | stopped (hloads : Loads crates dirs name) (houtcome : Outcome calls exe force s.disk name (.error e) d) :
      Linking crates dirs calls exe force (name :: names) s (.error e) { s with disk := d }
  | next (hloads : Loads crates dirs name) (houtcome : Outcome calls exe force s.disk name (.ok ()) d)
      (hrest : Linking crates dirs calls exe force names ⟨d, s.linked ++ [name]⟩ r s') :
      Linking crates dirs calls exe force (name :: names) s r s'

/-- The executable itself is replaced, or what is taken for a link to it leads
nowhere. -/
inductive Spoils (calls : Calls) (exe : Executable) (force : Bool) (d : Disk) (name : String) : Prop
  | replaced (hforce : force = true) (hname : name = exe.name) (hunlink : calls.unlink exe.place = .ok ())
  | astray (hlink : d (exe.dir ++ [name]) = some (.link text)) (hsame : samePath text exe.name = true)
      (hne : text ≠ exe.name)

/-- An app that does harm is reached, as all before it are skipped or linked. -/
inductive Spoiled (crates : Crates) (dirs : AppsDirs) (calls : Calls) (exe : Executable) (force : Bool)
    (d : Disk) :
    List String → Prop
  | here (hloads : Loads crates dirs name) (hspoils : Spoils calls exe force d name) :
      Spoiled crates dirs calls exe force d (name :: rest)
  | skipped (hnot : ¬ Loads crates dirs name) (hrest : Spoiled crates dirs calls exe force d rest) :
      Spoiled crates dirs calls exe force d (name :: rest)
  | later (hpasses : Passes calls exe force d name) (hrest : Spoiled crates dirs calls exe force d rest) :
      Spoiled crates dirs calls exe force d (name :: rest)

variable {crates : Crates} {dirs : AppsDirs} {calls : Calls} {exe : Executable} {force : Bool} {d d' : Disk}
  {name : String} {s s' : State}

theorem linked_iff : (readLink d (exe.dir ++ [name])).any (samePath · exe.name) = true ↔ Linked exe d name := by
  unfold readLink Linked
  split
  next text htext =>
    rw [htext]
    simp
  next hnot =>
    refine iff_of_false nofun ?_
    rintro ⟨text, htext, -⟩
    exact hnot text htext

-- ---------------------------------------------------------------------------
-- Performing
-- ---------------------------------------------------------------------------

def perform (act : Act α) (s : State) : Except String α × State := StateT.run (ExceptT.run act) s

theorem perform_bind_ok {x : Act α} {f : α → Act β} (h : perform x s = (.ok a, s')) :
    perform (x >>= f) s = perform (f a) s' := by
  unfold perform at *
  rw [ExceptT.run_bind, StateT.run_bind, h]
  rfl

theorem perform_bind_error {x : Act α} {f : α → Act β} (h : perform x s = (.error e, s')) :
    perform (x >>= f) s = (.error e, s') := by
  unfold perform at *
  rw [ExceptT.run_bind, StateT.run_bind, h]
  rfl

theorem perform_get_bind {f : State → Act β} : perform (get >>= f) s = perform (f s) s := rfl

theorem perform_lift_bind (x : Except String α) (f : α → Act β) (h : x = .ok a) :
    perform (liftExcept x >>= f) s = perform (f a) s := by
  subst h
  rfl

theorem perform_lift_error {x : Except String α} (f : α → Act β) (h : ∀ a, x ≠ .ok a) :
    ∃ e, perform (liftExcept x >>= f) s = (.error e, s) := by
  cases x with
  | error e => exact ⟨e, rfl⟩
  | ok a => exact absurd rfl (h a)

theorem perform_withContext_ok {act : Act α} (h : perform act s = (.ok a, s')) (message : String) :
    perform (withContext message act) s = (.ok a, s') := by
  unfold perform withContext at *
  rw [ExceptT.run_adapt, StateT.run_map, h]
  rfl

theorem perform_withContext_error {act : Act α} (h : perform act s = (.error e, s')) (message : String) :
    perform (withContext message act) s = (.error message, s') := by
  unfold perform withContext at *
  rw [ExceptT.run_adapt, StateT.run_map, h]
  rfl

theorem removeFile_ok (hsome : s.disk place = some item) (hdir : item ≠ .dir)
    (hunlink : calls.unlink place = .ok ()) :
    perform (removeFile calls place) s = (.ok (), { s with disk := Function.update s.disk place none }) := by
  unfold removeFile
  rw [perform_get_bind, hsome]
  cases item with
  | dir => exact absurd rfl hdir
  | file _ | link _ | other => exact perform_lift_bind _ _ hunlink

theorem removeFile_error (h : ¬ (s.disk place ≠ some .dir ∧ calls.unlink place = .ok ())) :
    ∃ e, perform (removeFile calls place) s = (.error e, s) := by
  unfold removeFile
  rw [perform_get_bind]
  split
  next => exact ⟨_, rfl⟩
  next => exact ⟨_, rfl⟩
  next item hdir hsome => exact perform_lift_error _ fun _ hunlink => h ⟨by rw [hsome]; simpa using hdir, hunlink⟩

theorem symlink_ok (target : String) (hnone : s.disk place = none) (hsymlink : calls.symlink place = .ok ()) :
    perform (symlink calls target place) s =
      (.ok (), { s with disk := Function.update s.disk place (some (.link target)) }) := by
  unfold symlink
  rw [perform_get_bind, hnone]
  exact perform_lift_bind _ _ hsymlink

theorem symlink_error (target : String) (hnone : s.disk place = none) (hsymlink : calls.symlink place ≠ .ok ()) :
    ∃ e, perform (symlink calls target place) s = (.error e, s) := by
  unfold symlink
  rw [perform_get_bind, hnone]
  exact perform_lift_error _ fun _ => hsymlink

theorem createSymlink_outcome : ∃ r d',
    perform (createSymlink calls exe.name (exe.dir ++ [name]) force) s = (r, { s with disk := d' }) ∧
    Outcome calls exe force s.disk name r d' := by
  unfold createSymlink
  rw [perform_get_bind]
  by_cases hlinked : Linked exe s.disk name
  · rw [if_pos (linked_iff.mpr hlinked)]
    exact ⟨_, _, rfl, .linked hlinked⟩
  rw [if_neg (mt linked_iff.mp hlinked)]
  have hmake (hclears : Clears calls exe force s.disk name) : ∃ r d', perform
      (withContext s!"creating symlink {render ((exe.dir ++ [name]).map .normal)}"
        (symlink calls exe.name (exe.dir ++ [name])))
      { s with disk := Function.update s.disk (exe.dir ++ [name]) none } = (r, { s with disk := d' }) ∧
      Outcome calls exe force s.disk name r d' := by
    have hnone := Function.update_self (exe.dir ++ [name]) none s.disk
    generalize hcleared : Function.update s.disk (exe.dir ++ [name]) none = cleared at hnone
    by_cases hsymlink : calls.symlink (exe.dir ++ [name]) = .ok ()
    · have hok := symlink_ok (s := ⟨cleared, s.linked⟩) exe.name hnone hsymlink
      rw [← hcleared, Function.update_idem] at hok
      exact ⟨_, _, perform_withContext_ok (hcleared ▸ hok) _, .made hlinked hclears hsymlink⟩
    · obtain ⟨e, herror⟩ := symlink_error (s := ⟨cleared, s.linked⟩) exe.name hnone hsymlink
      subst hcleared
      exact ⟨_, _, perform_withContext_error herror _, .failed hlinked hclears hsymlink⟩
  cases hplace : s.disk (exe.dir ++ [name]) with
  | none =>
    have hsame : Function.update s.disk (exe.dir ++ [name]) none = s.disk :=
      Function.update_eq_self_iff.mpr hplace.symm
    obtain ⟨r, d', hperform, houtcome⟩ := hmake (.inl hplace)
    rw [hsame] at hperform
    exact ⟨r, d', hperform, houtcome⟩
  | some item =>
    cases force with
    | false =>
      refine ⟨_, _, rfl, .refused hlinked ?_⟩
      rintro (hnone | ⟨hforce, -⟩)
      · cases hplace.symm.trans hnone
      · cases hforce
    | true =>
      by_cases hremovable : s.disk (exe.dir ++ [name]) ≠ some .dir ∧ calls.unlink (exe.dir ++ [name]) = .ok ()
      · obtain ⟨r, d', hperform, houtcome⟩ := hmake (.inr ⟨rfl, hremovable⟩)
        rw [hplace] at hremovable
        refine ⟨r, d', ?_, houtcome⟩
        rw [← hperform]
        exact perform_bind_ok (removeFile_ok hplace (fun heq => hremovable.1 (congrArg some heq)) hremovable.2)
      · obtain ⟨e, herror⟩ := removeFile_error hremovable
        refine ⟨_, _, perform_bind_error herror, .refused hlinked ?_⟩
        rintro (hnone | ⟨-, h⟩)
        · cases hplace.symm.trans hnone
        · exact hremovable h

-- ---------------------------------------------------------------------------
-- All apps
-- ---------------------------------------------------------------------------

theorem bare_of_valid (h : validateAppName name = .ok ()) : Bare name where
  whole hslash := (validateAppName_char h hslash).1 rfl
  normal := by
    unfold validateAppName at h
    split at h
    next hvalid =>
      have hempty : name.toList ≠ [] := fun heq => hvalid.1 (String.toList_eq_nil_iff.mp heq)
      have hdots : ∀ rest, name.toList ≠ '.' :: rest := fun rest heq => hvalid.2.1 (by rw [heq]; rfl)
      unfold UnixPath.component?
      rw [if_neg (not_or.mpr ⟨hempty, hdots []⟩), if_neg (hdots ['.']), String.ofList_toList]
    next => cases h

/-- A valid name cannot lead out of the directory. -/
theorem joined_valid (dir : Place) (h : validateAppName name = .ok ()) : joined dir name = dir ++ [name] := by
  have hbare := bare_of_valid h
  rw [joined, hbare.not_absolute, hbare.components_eq]
  rfl

theorem linkApp_skipped (h : ¬ Loads crates dirs name) :
    perform (linkApp crates dirs calls exe force name) s = (.ok (), s) := by
  unfold linkApp
  split
  next => rfl
  next config hload => exact absurd ⟨config, hload⟩ h

theorem linkApp_loads (h : Loads crates dirs name) : linkApp crates dirs calls exe force name = (do
    createSymlink calls exe.name (exe.dir ++ [name]) force
    modify fun s => { s with linked := s.linked ++ [name] }) := by
  obtain ⟨config, hload⟩ := h
  unfold linkApp
  rw [hload]
  dsimp only
  rw [joined_valid exe.dir (load_name hload).2]

theorem linking (crates : Crates) (dirs : AppsDirs) (calls : Calls) (exe : Executable) (force : Bool)
    (names : List String) (s : State) : ∃ r s',
    perform (names.forM (linkApp crates dirs calls exe force)) s = (r, s') ∧
      Linking crates dirs calls exe force names s r s' := by
  induction names generalizing s with
  | nil => exact ⟨_, _, rfl, .done⟩
  | cons name names ih =>
    by_cases hloads : Loads crates dirs name
    · obtain ⟨r, d, hperform, houtcome⟩ := createSymlink_outcome (s := s)
      cases r with
      | error e =>
        refine ⟨_, _, perform_bind_error ?_, .stopped hloads houtcome⟩
        rw [linkApp_loads hloads]
        exact perform_bind_error hperform
      | ok u =>
        obtain ⟨r, s', hrest, hlinking⟩ := ih ⟨d, s.linked ++ [name]⟩
        refine ⟨r, s', (perform_bind_ok (a := ()) ?_).trans hrest, .next hloads houtcome hlinking⟩
        rw [linkApp_loads hloads]
        exact perform_bind_ok hperform
    · obtain ⟨r, s', hrest, hlinking⟩ := ih s
      exact ⟨r, s', (perform_bind_ok (linkApp_skipped hloads)).trans hrest, .skipped hloads hlinking⟩

theorem Outcome.elsewhere (h : Outcome calls exe force d name r d') (hne : p ≠ exe.dir ++ [name]) :
    d' p = d p := by
  cases h with
  | linked _ | refused _ _ => rfl
  | failed _ _ _ | made _ _ _ => exact Function.update_of_ne hne ..

theorem Outcome.kept (h : Outcome calls exe false d name r d') (hsome : (d p).isSome = true) : d' p = d p := by
  by_cases hp : p = exe.dir ++ [name]
  · subst hp
    have hclears : ¬ Clears calls exe false d name := by
      rintro (hnone | ⟨hforce, -⟩)
      · rw [hnone] at hsome
        cases hsome
      · cases hforce
    cases h with
    | linked _ | refused _ _ => rfl
    | failed _ hc _ | made _ hc _ => exact absurd hc hclears
  · exact h.elsewhere hp

theorem Outcome.link_kept (h : Outcome calls exe force d name r d') (hlinked : Linked exe d app) :
    d' (exe.dir ++ [app]) = d (exe.dir ++ [app]) := by
  cases h with
  | linked _ | refused _ _ => rfl
  | failed hnot _ _ | made hnot _ _ =>
    refine Function.update_of_ne (fun heq => hnot ?_) ..
    cases (List.append_inj' heq rfl).2
    exact hlinked

theorem Outcome.file (h : Outcome calls exe force d name r d') (hfile : d' p = some (.file number)) :
    d p = some (.file number) := by
  by_cases hp : p = exe.dir ++ [name]
  · subst hp
    cases h with
    | linked _ | refused _ _ => exact hfile
    | failed _ _ _ | made _ _ _ =>
      rw [Function.update_self] at hfile
      cases hfile
  · exact h.elsewhere hp ▸ hfile

theorem Linking.invariant {names : List String} {J : Disk → Prop}
    (h : Linking crates dirs calls exe force names s r s')
    (hi : J s.disk) (hstep : ∀ name ∈ names, Loads crates dirs name → ∀ d r d', J d →
      Outcome calls exe force d name r d' → J d') : J s'.disk := by
  induction h with
  | done => exact hi
  | skipped _ _ ih => exact ih hi fun name hname => hstep name (List.mem_cons_of_mem _ hname)
  | stopped hloads houtcome => exact hstep _ (List.mem_cons_self ..) hloads _ _ _ hi houtcome
  | next hloads houtcome _ ih =>
    refine ih ?_ fun name hname => hstep name (List.mem_cons_of_mem _ hname)
    exact hstep _ (List.mem_cons_self ..) hloads _ _ _ hi houtcome

theorem Linking.keeps {names : List String} (h : Linking crates dirs calls exe force names s r s')
    (hother : ∀ name ∈ names, Loads crates dirs name → p ≠ exe.dir ++ [name]) : s'.disk p = s.disk p :=
  h.invariant (J := fun d => d p = s.disk p) rfl fun name hname hloads _ _ _ hd houtcome =>
    (houtcome.elsewhere (hother name hname hloads)).trans hd

theorem Linking.unforced {names : List String} (h : Linking crates dirs calls exe false names s r s')
    (hsome : (s.disk p).isSome = true) : s'.disk p = s.disk p :=
  h.invariant (J := fun d => d p = s.disk p) rfl fun _ _ _ _ _ _ hd houtcome =>
    (houtcome.kept (hd ▸ hsome)).trans hd

theorem Linking.link_kept {names : List String} (h : Linking crates dirs calls exe force names s r s')
    (hlinked : Linked exe s.disk app) : s'.disk (exe.dir ++ [app]) = s.disk (exe.dir ++ [app]) := by
  obtain ⟨text, htext, hsame⟩ := hlinked
  exact h.invariant (J := fun d => d (exe.dir ++ [app]) = s.disk (exe.dir ++ [app])) rfl
    fun _ _ _ _ _ _ hd houtcome =>
    (houtcome.link_kept ⟨text, hd.trans htext, hsame⟩).trans hd

theorem Linking.file {names : List String} (h : Linking crates dirs calls exe force names s r s')
    (hfile : s'.disk p = some (.file number)) : s.disk p = some (.file number) := by
  by_contra hnot
  exact h.invariant (J := fun d => d p ≠ some (.file number)) hnot
    (fun _ _ _ _ _ _ hd houtcome => mt houtcome.file hd) hfile

theorem Linking.reported {names : List String} (h : Linking crates dirs calls exe force names s r s') :
    s.linked ⊆ s'.linked ∧ (r = .ok () → ∀ name ∈ names, Loads crates dirs name → name ∈ s'.linked) := by
  induction h with
  | done => exact ⟨List.Subset.refl _, nofun⟩
  | skipped hnot _ ih =>
    refine ⟨ih.1, fun hok name hname hloads => ?_⟩
    rcases List.mem_cons.mp hname with rfl | hname
    · exact absurd hloads hnot
    · exact ih.2 hok name hname hloads
  | stopped _ _ => exact ⟨List.Subset.refl _, nofun⟩
  | next _ _ _ ih =>
    refine ⟨fun name hname => ih.1 (List.mem_append_left _ hname), fun hok name hname hloads => ?_⟩
    rcases List.mem_cons.mp hname with rfl | hname
    · exact ih.1 (by simp)
    · exact ih.2 hok name hname hloads

theorem Linking.idle {names : List String} (h : Linking crates dirs calls exe force names s r s')
    (hlinked : ∀ name ∈ names, Loads crates dirs name → Linked exe s.disk name) : s'.disk = s.disk := by
  induction h with
  | done => rfl
  | skipped _ _ ih => exact ih fun name hname => hlinked name (List.mem_cons_of_mem _ hname)
  | stopped hloads houtcome =>
    have hname := hlinked _ (List.mem_cons_self ..) hloads
    cases houtcome with
    | refused hnot _ | failed hnot _ _ => exact absurd hname hnot
  | next hloads houtcome _ ih =>
    have hname := hlinked _ (List.mem_cons_self ..) hloads
    cases houtcome with
    | linked _ => exact ih fun name hname => hlinked name (List.mem_cons_of_mem _ hname)
    | made hnot _ _ => exact absurd hname hnot

-- ---------------------------------------------------------------------------
-- Without harm
-- ---------------------------------------------------------------------------

theorem place_inj {dir : Place} : dir ++ [name] = dir ++ [app] ↔ name = app := by
  rw [List.append_cancel_left_eq, List.singleton_inj]

theorem Loads.bare (h : Loads crates dirs name) : Bare name := by
  obtain ⟨config, hload⟩ := h
  exact bare_of_valid (load_name hload).2

theorem Outcome.stuck (h : Outcome calls exe force d name (.error e) d') : ¬ Passes calls exe force d name := by
  cases h with
  | refused hnot hstays => exact not_or.mpr ⟨hnot, fun h => hstays h.1⟩
  | failed hnot _ hfails => exact not_or.mpr ⟨hnot, fun h => hfails h.2⟩

theorem Outcome.passes (h : Outcome calls exe force d name (.ok ()) d') : Passes calls exe force d name := by
  cases h with
  | linked hlinked => exact .inl hlinked
  | made _ hclears hmakes => exact .inr ⟨hclears, hmakes⟩

theorem Spoils.of_clears (hfile : d exe.place = some (.file number)) (h : Clears calls exe force d exe.name) :
    Spoils calls exe force d exe.name := by
  rcases h with hnone | ⟨hforce, -, hunlink⟩
  · cases hfile.symm.trans hnone
  · exact .replaced hforce rfl hunlink

theorem Outcome.executable (h : Outcome calls exe force d name r d') (hfile : d exe.place = some (.file number))
    (hspoils : ¬ Spoils calls exe force d name) : d' exe.place = some (.file number) := by
  by_cases hname : name = exe.name
  · subst hname
    cases h with
    | linked _ | refused _ _ => exact hfile
    | failed _ hclears _ | made _ hclears _ => exact absurd (.of_clears hfile hclears) hspoils
  · exact (h.elsewhere fun heq => hname (place_inj.mp heq).symm).trans hfile

theorem Outcome.links (h : Outcome calls exe force d name (.ok ()) d')
    (hspoils : ¬ Spoils calls exe force d name) :
    d' (exe.dir ++ [name]) = some (.link exe.name) := by
  cases h with
  | linked hlinked =>
    obtain ⟨text, htext, hsame⟩ := hlinked
    by_cases hne : text = exe.name
    · rw [htext, hne]
    · exact absurd (.astray htext hsame hne) hspoils
  | made _ _ _ => exact Function.update_self ..

theorem linked_of_text (h : d (exe.dir ++ [name]) = some (.link exe.name)) : Linked exe d name :=
  ⟨exe.name, h, samePath_self _⟩

theorem Spoiled.mono {names : List String} (h : Spoiled crates dirs calls exe force d names)
    (hspoils : ∀ name, Spoils calls exe force d name → Spoils calls exe force d' name)
    (hpasses : ∀ name, Passes calls exe force d name → Passes calls exe force d' name) :
    Spoiled crates dirs calls exe force d' names := by
  induction h with
  | here hloads hname => exact .here hloads (hspoils _ hname)
  | skipped hnot _ ih => exact .skipped hnot ih
  | later hname _ ih => exact .later (hpasses _ hname) ih

theorem Spoils.congr (hsame : d' (exe.dir ++ [name]) = d (exe.dir ++ [name]))
    (h : Spoils calls exe force d name) :
    Spoils calls exe force d' name := by
  cases h with
  | replaced hforce hname hunlink => exact .replaced hforce hname hunlink
  | astray hlink hsamePath hne => exact .astray (hsame.trans hlink) hsamePath hne

theorem Passes.congr (hsame : d' (exe.dir ++ [name]) = d (exe.dir ++ [name]))
    (h : Passes calls exe force d name) :
    Passes calls exe force d' name := by
  unfold Passes Linked Clears at *
  rwa [hsame]

/-- An app that has been linked does no harm later. -/
theorem Outcome.spoiled_iff {names : List String} (h : Outcome calls exe force d name (.ok ()) d')
    (hspoils : ¬ Spoils calls exe force d name) :
    Spoiled crates dirs calls exe force d' names ↔ Spoiled crates dirs calls exe force d names := by
  have hlink := h.links hspoils
  have helse : ∀ app, app ≠ name → d' (exe.dir ++ [app]) = d (exe.dir ++ [app]) :=
    fun app hne => h.elsewhere (mt place_inj.mp hne)
  have hnot : ¬ Spoils calls exe force d' name := fun hharm => by
    cases hharm with
    | replaced hforce hname hunlink => exact hspoils (.replaced hforce hname hunlink)
    | astray htext _ hne =>
      cases hlink.symm.trans htext
      exact hne rfl
  constructor
  · refine fun hspoiled => hspoiled.mono (fun app happ => ?_) fun app happ => ?_
    all_goals by_cases hname : app = name
    · exact absurd (hname ▸ happ) hnot
    · exact happ.congr (helse app hname).symm
    · exact hname ▸ h.passes
    · exact happ.congr (helse app hname).symm
  · refine fun hspoiled => hspoiled.mono (fun app happ => ?_) fun app happ => ?_
    all_goals by_cases hname : app = name
    · exact absurd (hname ▸ happ) hspoils
    · exact happ.congr (helse app hname)
    · exact hname ▸ .inl (linked_of_text hlink)
    · exact happ.congr (helse app hname)

theorem Linking.safe {names : List String} (h : Linking crates dirs calls exe force names s r s')
    (hfile : s.disk exe.place = some (.file number)) (hsafe : ¬ Spoiled crates dirs calls exe force s.disk names)
    (hlinked : ∀ app ∈ s.linked, Bare app ∧ s.disk (exe.dir ++ [app]) = some (.link exe.name)) :
    s'.disk exe.place = some (.file number) ∧
      ∀ app ∈ s'.linked, Bare app ∧ s'.disk (exe.dir ++ [app]) = some (.link exe.name) := by
  induction h with
  | done => exact ⟨hfile, hlinked⟩
  | skipped hnot _ ih => exact ih hfile (fun hspoiled => hsafe (.skipped hnot hspoiled)) hlinked
  | stopped hloads houtcome =>
    have hspoils := fun hname => hsafe (.here hloads hname)
    refine ⟨houtcome.executable hfile hspoils, fun app happ => ⟨(hlinked app happ).1, ?_⟩⟩
    exact (houtcome.link_kept (linked_of_text (hlinked app happ).2)).trans (hlinked app happ).2
  | next hloads houtcome _ ih =>
    have hspoils := fun hname => hsafe (.here hloads hname)
    refine ih (houtcome.executable hfile hspoils)
      (fun hspoiled => hsafe (.later houtcome.passes ((houtcome.spoiled_iff hspoils).mp hspoiled)))
        fun app happ => ?_
    rcases List.mem_append.mp happ with happ | happ
    · refine ⟨(hlinked app happ).1, ?_⟩
      exact (houtcome.link_kept (linked_of_text (hlinked app happ).2)).trans (hlinked app happ).2
    · cases List.mem_singleton.mp happ
      exact ⟨hloads.bare, houtcome.links hspoils⟩

-- ---------------------------------------------------------------------------
-- With harm
-- ---------------------------------------------------------------------------

/-- The apps reported as linked lead to the executable. -/
def Leads (exe : Executable) (s : State) : Prop :=
  ∀ name ∈ s.linked, s.disk.resolve maxLinks exe.dir (pieces name) = some exe.place

theorem Outcome.replaced (h : Outcome calls exe true d exe.name r d') (hfile : d exe.place = some (.file number))
    (hunlink : calls.unlink exe.place = .ok ()) : d' exe.place ≠ some (.file number) := by
  have hclears : Clears calls exe true d exe.name :=
    .inr ⟨rfl, by rw [← Executable.place, hfile]; nofun, hunlink⟩
  cases h with
  | linked hlinked =>
    obtain ⟨text, htext, -⟩ := hlinked
    cases hfile.symm.trans htext
  | refused _ hstays => exact absurd hclears hstays
  | failed _ _ _ | made _ _ _ =>
    intro hplace
    rw [Executable.place, Function.update_self] at hplace
    cases hplace

theorem Linking.spoiled {names : List String} (h : Linking crates dirs calls exe force names s r s')
    (hdir : s.disk exe.dir = some .dir) (hfile : s.disk exe.place = some (.file number))
    (hspoiled : Spoiled crates dirs calls exe force s.disk names) :
    ¬ (s'.disk exe.place = some (.file number) ∧ Leads exe s') := by
  induction h with
  | done => cases hspoiled
  | skipped hnot _ ih =>
    cases hspoiled with
    | here hloads _ => exact absurd hloads hnot
    | skipped _ hrest | later _ hrest => exact ih hdir hfile hrest
  | stopped hloads houtcome =>
    cases hspoiled with
    | here _ hspoils =>
      rintro ⟨hkept, -⟩
      cases hspoils with
      | replaced hforce hname hunlink =>
        subst hforce hname
        exact houtcome.replaced hfile hunlink hkept
      | astray hlink hsame _ => exact houtcome.stuck (.inl ⟨_, hlink, hsame⟩)
    | skipped hnot _ => exact absurd hloads hnot
    | later hpasses _ => exact absurd hpasses houtcome.stuck
  | @next name d names r s' s hloads houtcome hlinking ih =>
    have hdir₁ : d exe.dir = some .dir := (houtcome.elsewhere (by simp)).trans hdir
    by_cases hspoils : Spoils calls exe force s.disk name
    · rintro ⟨hkept, hleads⟩
      cases hspoils with
      | replaced hforce hname hunlink =>
        subst hforce hname
        exact houtcome.replaced hfile hunlink (hlinking.file hkept)
      | astray hlink hsame hne =>
        have hentry := (houtcome.link_kept ⟨_, hlink, hsame⟩).trans hlink
        have hlater := (hlinking.link_kept ⟨_, hentry, hsame⟩).trans hentry
        have hdir' : s'.disk exe.dir = some .dir := (hlinking.keeps fun _ _ _ => by simp).trans hdir₁
        have hlead := hleads name (hlinking.reported.1 (by simp))
        exact hne ((resolve_same hdir' hloads.bare exe.bare hlater hsame hkept 39).mp hlead)
    · refine ih hdir₁ (houtcome.executable hfile hspoils) ((houtcome.spoiled_iff hspoils).mpr ?_)
      cases hspoiled with
      | here _ hname => exact absurd hname hspoils
      | skipped hnot _ => exact absurd hloads hnot
      | later _ hrest => exact hrest

-- ---------------------------------------------------------------------------
-- The command
-- ---------------------------------------------------------------------------

theorem link_linking (crates : Crates) (dirs : AppsDirs) (calls : Calls) (exe : Executable) (cmd : LinkCmd)
    (s : State) :
    ∃ r r' s', perform (link crates dirs calls (some exe) cmd) s = (r, s') ∧ (r = .ok () → r' = .ok ()) ∧
      Linking crates dirs calls exe cmd.force (cmd.names dirs) s r' s' := by
  unfold link
  split
  next hnone =>
    rw [Bool.and_eq_true, Bool.not_eq_true', decide_eq_true_eq] at hnone
    have hnames : cmd.names dirs = [] := by simp [LinkCmd.names, hnone]
    exact ⟨_, .ok (), s, rfl, fun _ => rfl, hnames ▸ .done⟩
  next =>
    obtain ⟨r, s', hperform, hlinking⟩ := linking crates dirs calls exe cmd.force (cmd.names dirs) s
    exact ⟨r, r, s', hperform, id, hlinking⟩

/-- Linking leaves the executable and what has another name alone, and without
force all that is there. What it reports leads to the executable, and after a
success there is nothing left to do. -/
structure Harmless (crates : Crates) (dirs : AppsDirs) (exe : Executable) (cmd : LinkCmd) (number : Nat)
    (d : Disk)
    (r : Except String Unit) (s : State) : Prop where
  executable : s.disk exe.place = some (.file number)
  others : ∀ p, (∀ name ∈ cmd.names dirs, p ≠ exe.dir ++ [name]) → s.disk p = d p
  unforced : cmd.force = false → ∀ p, (d p).isSome = true → s.disk p = d p
  leads : Leads exe s
  complete : r = .ok () → ∀ name ∈ cmd.names dirs, Loads crates dirs name → name ∈ s.linked
  again : r = .ok () → ∀ calls, (perform (link crates dirs calls (some exe) cmd) s).2.disk = s.disk

/-- Linking does harm exactly if it reaches an app that does. -/
theorem link_harmless_iff (crates : Crates) (dirs : AppsDirs) (calls : Calls) (exe : Executable) (cmd : LinkCmd)
    (d : Disk) (number : Nat) (hdir : d exe.dir = some .dir) (hfile : d exe.place = some (.file number)) :
    Harmless crates dirs exe cmd number d (perform (link crates dirs calls (some exe) cmd) { disk := d }).1
      (perform (link crates dirs calls (some exe) cmd) { disk := d }).2 ↔
    ¬ Spoiled crates dirs calls exe cmd.force d (cmd.names dirs) := by
  obtain ⟨r, r', s', hperform, hok, hlinking⟩ := link_linking crates dirs calls exe cmd { disk := d }
  rw [hperform]
  constructor
  · intro hharmless hspoiled
    exact hlinking.spoiled hdir hfile hspoiled ⟨hharmless.executable, hharmless.leads⟩
  · intro hsafe
    obtain ⟨hkept, hlinked⟩ := hlinking.safe hfile hsafe nofun
    have hdir' : s'.disk exe.dir = some .dir := (hlinking.keeps fun _ _ _ => by simp).trans hdir
    have hcomplete : r = .ok () → ∀ name ∈ cmd.names dirs, Loads crates dirs name → name ∈ s'.linked :=
      fun h => hlinking.reported.2 (hok h)
    refine ⟨hkept, fun p hp => hlinking.keeps fun name hname _ => hp name hname, fun hforce p hsome => ?_,
      fun name hname => ?_, hcomplete, fun h calls' => ?_⟩
    · rw [hforce] at hlinking
      exact hlinking.unforced hsome
    · obtain ⟨hbare, hlink⟩ := hlinked name hname
      exact (resolve_same hdir' hbare exe.bare hlink (samePath_self _) hkept 39).mpr rfl
    · obtain ⟨_, _, s'', hagain, -, hidle⟩ := link_linking crates dirs calls' exe cmd s'
      rw [hagain]
      exact hidle.idle fun name hname hloads => linked_of_text (hlinked name (hcomplete h name hname hloads)).2

-- ---------------------------------------------------------------------------
-- An app with the executable's name
-- ---------------------------------------------------------------------------

namespace Namesake

def text (name : String) : String :=
  "[app]\nname = \"" ++ name ++ "\"\ndescription = \"HTTP client\"\nlicense = \"MIT\"\n\n" ++
  "[image]\nreference = \"docker.io/library/alpine:3\"\n"

def table (name : String) : Toml.Table :=
  [("app", .table [("name", .string name), ("description", .string "HTTP client"), ("license", .string "MIT")]),
    ("image", .table [("reference", .string "docker.io/library/alpine:3")])]

def config (name : String) : AppConfig where
  app := { name, description := "HTTP client", license := "MIT" }
  image := { reference := "docker.io/library/alpine:3" }
  run := {}
  limits := {}

def libraries : Crates where
  parse given :=
    if given = text "climate" then .ok (table "climate")
    else if given = text "xh" then .ok (table "xh")
    else .error "expected a table"
  print _ := ""
  newlines given := given
  variant _ := none
  sequence _ _ := none
  nearest _ := .nan
  capability _ := none
  capabilityName _ := ""
  seacomb := { known := fun _ => true }

def host : AppsDirs where
  search := [{
    path := "/usr/share/climate/apps"
    groups := { entries := [("c", { entries := [("climate.toml", .file (.ok (text "climate")))] }),
      ("x", { entries := [("xh.toml", .file (.ok (text "xh")))] })] } }]

def binary : Executable where
  dir := ["usr", "bin"]
  name := "climate"
  bare := ⟨by decide, by rfl⟩

def beside (item : Option Item) : Disk := fun p =>
  if p = ["usr", "bin"] then some .dir
  else if p = ["usr", "bin", "climate"] then some (.file 1)
  else if p = ["usr", "bin", "xh"] then item
  else none

def willing : Calls := ⟨fun _ => .ok (), fun _ => .ok ()⟩

def linked (item : Option Item) (app : String) : Except String Unit × State :=
  perform (link libraries host willing (some binary) { force := true, apps := [app] }) { disk := beside item }

theorem climate_loads : load libraries host "climate" = .ok (config "climate") := by rfl

theorem xh_loads : load libraries host "xh" = .ok (config "xh") := by rfl

theorem link_harmless_iff_replacing :
    Harmless libraries host binary { force := true, apps := ["xh"] } 1 (beside (some .other))
      (linked (some .other) "xh").1 (linked (some .other) "xh").2 := by
  refine (link_harmless_iff libraries host willing binary { force := true, apps := ["xh"] }
    (beside (some .other)) 1
    rfl rfl).mpr fun hspoiled => ?_
  cases hspoiled with
  | here _ hspoils =>
    cases hspoils with
    | replaced _ hname _ => exact absurd hname (by decide)
    | astray hlink _ _ => cases hlink
  | skipped _ hrest | later _ hrest => cases hrest

/-- The executable replaced by a link to itself, and a link left that asks for
a directory. -/
theorem link_harms : (Loads libraries host "climate" ∧
      ¬ Harmless libraries host binary { force := true, apps := ["climate"] } 1 (beside none)
        (linked none "climate").1 (linked none "climate").2) ∧
    Loads libraries host "xh" ∧
      ¬ Harmless libraries host binary { force := true, apps := ["xh"] } 1 (beside (some (.link "climate/")))
        (linked (some (.link "climate/")) "xh").1 (linked (some (.link "climate/")) "xh").2 := by
  refine ⟨⟨⟨_, climate_loads⟩, fun hharmless => ?_⟩, ⟨_, xh_loads⟩, fun hharmless => ?_⟩
  · have hself : (linked none "climate").2.disk binary.place = some (.link "climate") := by rfl
    cases hself.symm.trans hharmless.executable
  · have hreported : "xh" ∈ (linked (some (.link "climate/")) "xh").2.linked := by decide
    have hnowhere : (linked (some (.link "climate/")) "xh").2.disk.resolve maxLinks binary.dir
        (pieces "xh") = none := by
      rfl
    cases hnowhere.symm.trans (hharmless.leads "xh" hreported)

end Namesake

end Climate.Link
