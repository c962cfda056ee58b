import Climate.Lib.Interrupt
import Climate.Spec.Check
import Climate.Spec.Resources

/-!
# What an invalid definition leaves behind

`extraMounts` creates what is missing as it goes through the entries, and an
entry's own source before it looks at the destination. What stands before the
entry that stops it has been created by then.
-/

namespace Climate

open UnixPath
open Prog (Ends Steps)

-- ---------------------------------------------------------------------------
-- Creating
-- ---------------------------------------------------------------------------

/-- What a path is in, up to the root. -/
inductive Above : String → String → Prop
  | parent (hparent : parent? path = some place) : Above place path
  | beyond (hparent : parent? path = some between) (habove : Above place between) : Above place path

/-- All that the path is in is either missing or a directory. -/
def Host.Clear (h : Host) (path : String) : Prop :=
  ∀ place, Above place path → h.kind place = none ∨ h.kind place = some .directory

/-- There is something to create, and nothing in the way. -/
def HostOp.Makes : HostOp → Host → Prop
  | .createDirAll path, h | .createFile path, h => h.kind path = none ∧ h.Clear path
  | _, _ => False

/-- The effects where there are no paths below what is not a directory. -/
def HostOp.placed : Effects hostOps Host := fun op h r h' => HostOp.effect op h r h' ∧ (¬ op.Makes h → h' = h)

variable {h h' : Host} {path : String}

theorem HostOp.grows {op : HostOp} {r : hostOps.Res op} (he : HostOp.effect op h r h') : h.Grows h' := by
  cases op with
  | currentDir | homeDir | var _ | resolvConf | kind _ => exact he.1 ▸ .refl h
  | createDirAll _ | createFile _ => exact he.1

theorem HostOp.placed_total (op : HostOp) (h : Host) : ∃ r h', HostOp.placed op h r h' := by
  cases op with
  | currentDir | homeDir | var _ | resolvConf | kind _ => exact ⟨_, h, ⟨rfl, rfl⟩, fun _ => rfl⟩
  | createDirAll _ | createFile _ => exact ⟨.error .other, h, ⟨.refl h, nofun⟩, fun _ => rfl⟩

theorem createSource_ends (hnone : h.kind path = none) (asDir : Bool) :
    Ends HostOp.placed (fun _ _ => True) (fun r h' => h.Grows h' ∧ (¬ h.Clear path → h' = h ∧ r ≠ .ok ())) h
      (createSource path asDir) := by
  have hfile : ∀ h₁, h.Grows h₁ → (¬ h.Clear path → h₁ = h) → Ends HostOp.placed (fun _ _ => True)
      (fun r h' => h.Grows h' ∧ (¬ h.Clear path → h' = h ∧ r ≠ .ok ())) h₁
      (.ask (.createFile path) (orFail s!"creating {path}")) := by
    intro h₁ hg hsame
    refine .ask trivial fun r h' he => ⟨hg.trans he.1.1, fun hblocked => ?_⟩
    obtain rfl := hsame hblocked
    obtain rfl := he.2 fun hmakes => hblocked hmakes.2
    refine ⟨rfl, fun hok => ?_⟩
    have hsome := he.1.2 (orFail_ok.mp hok)
    rw [hnone] at hsome
    cases hsome
  unfold createSource
  split
  · refine .ask trivial fun r h' he => ⟨he.1.1, fun hblocked => ?_⟩
    obtain rfl := he.2 fun hmakes => hblocked hmakes.2
    refine ⟨rfl, fun hok => ?_⟩
    have hdir := he.1.2 (orFail_ok.mp hok)
    rw [hnone] at hdir
    cases hdir
  · dsimp only
    split
    next parent hparent =>
      have hblocks : ¬ h.Clear path → ¬ HostOp.Makes (.createDirAll parent) h := by
        rintro hblocked ⟨hmissing, hclear⟩
        refine hblocked fun place habove => ?_
        cases habove with
        | parent hplace => exact .inl (Option.some.inj (hparent.symm.trans hplace) ▸ hmissing)
        | beyond hinner habove => exact hclear place (Option.some.inj (hparent.symm.trans hinner) ▸ habove)
      refine .ask_bind trivial (fun r h₁ _ he _ => hfile h₁ he.1.1 fun hblocked => he.2 (hblocks hblocked))
        fun r h₁ e he _ => ⟨he.1.1, fun hblocked => ⟨he.2 (hblocks hblocked), nofun⟩⟩
    next => exact hfile h (.refl h) fun _ => rfl

-- ---------------------------------------------------------------------------
-- What is reached
-- ---------------------------------------------------------------------------

/-- The entry's source is missing, is to be created and can be. -/
structure Creates (h : Host) (entry : String) : Prop where
  missing : ∃ source destination path, parseMount entry = .ok (source, destination, false) ∧
    expand h.home source = .ok path ∧ isRoot path = false ∧ h.kind path = none ∧ h.Clear path

/-- The entry is in order and its source is there. -/
def Passes (h : Host) (entry : String) : Prop :=
  ∃ share, Acceptable h.home entry share ∧ (h.kind share.1).isSome = true

/-- An entry that creates its source comes before any that stops the loop. -/
inductive Reaches (h : Host) : List String → Prop
  | here (hcreates : Creates h entry) : Reaches h (entry :: rest)
  | later (hpasses : Passes h entry) (hrest : Reaches h rest) : Reaches h (entry :: rest)

/-- How an entry ends: only one that creates its source changes the host. -/
structure EntryEnds (h : Host) (entry : String) (r : Except String (String × String × Bool)) (h' : Host) :
    Prop where
  grows : h.Grows h'
  same : ¬ Creates h entry → h' = h
  passes : ¬ Creates h entry → ∀ share, r = .ok share → Passes h entry
  acceptable : ∀ share, r = .ok share → Acceptable h.home entry share

theorem expandPath_ends {post : Except String String → Host → Prop} (hpost : post (expand h.home text) h) :
    Ends HostOp.placed (fun _ _ => True) post h (expandPath text) := by
  refine .ask trivial fun r h' he => ?_
  obtain ⟨rfl, rfl⟩ := he.1
  exact hpost

theorem extraMount_ends (h : Host) (entry : String) :
    Ends HostOp.placed (fun _ _ => True) (EntryEnds h entry) h (extraMount entry) := by
  have hstops : ∀ {h' e}, h.Grows h' → (¬ Creates h entry → h' = h) → EntryEnds h entry (.error e) h' :=
    fun hgrows hsame => ⟨hgrows, hsame, fun _ _ => nofun, fun _ => nofun⟩
  refine .ofExcept_bind (fun parsed hparsed => ?_) fun e _ => hstops (.refl h) fun _ => rfl
  obtain ⟨source, destination, readonly⟩ := parsed
  refine .bind (Q := fun r h' => h' = h ∧ r = expand h.home source) (expandPath_ends ⟨rfl, rfl⟩)
    (fun path h₁ hpath => ?_) fun e h₁ hpath => hstops (hpath.1 ▸ .refl h) fun _ => hpath.1
  obtain ⟨rfl, hpath⟩ := hpath
  dsimp only
  split
  · exact .throw (hstops (.refl h₁) fun _ => rfl)
  next hroot =>
  have hrest : ∀ h₂, h₁.Grows h₂ → (¬ Creates h₁ entry → h₂ = h₁ ∧ (h₁.kind path).isSome = true) →
      Ends HostOp.placed (fun _ _ => True) (EntryEnds h₁ entry) h₂
        (expandPath destination >>= fun destination => pure (path, destination, readonly)) := by
    intro h₂ hgrows hsame
    refine .bind (Q := fun r h' => h' = h₂ ∧ r = expand h₂.home destination) (expandPath_ends ⟨rfl, rfl⟩)
      (fun inside h₃ hinside => ?_) fun e h₃ hinside => hstops (hinside.1 ▸ hgrows) fun hnot =>
        hinside.1.trans (hsame hnot).1
    obtain ⟨rfl, hinside⟩ := hinside
    rw [hgrows.home] at hinside
    have haccept : Acceptable h₁.home entry (path, inside, readonly) :=
      acceptable_iff.mpr ⟨⟨source, destination, hparsed, hpath.symm, hinside.symm⟩, by simpa using hroot⟩
    refine .ret ⟨hgrows, fun hnot => (hsame hnot).1, fun hnot share _ => ⟨_, haccept, (hsame hnot).2⟩, ?_⟩
    rintro share hshare
    cases hshare
    exact haccept
  refine .ask_bind trivial (fun r h₂ kind he hread => ?_) fun _ _ _ _ hread => by cases hread
  obtain ⟨rfl, rfl⟩ := he.1
  cases hread
  split
  next hnone =>
    have hmissing : h₂.kind path = none := Option.isNone_iff_eq_none.mp hnone
    split
    · exact .throw (hstops (.refl h₂) fun _ => rfl)
    next hwritable =>
      have hblocked : ¬ Creates h₂ entry → ¬ h₂.Clear path := fun hnot hclear => by
        refine hnot ⟨source, destination, path, ?_, hpath.symm, by simpa using hroot, hmissing, hclear⟩
        rw [hparsed, Bool.eq_false_iff.mpr hwritable]
      refine .bind (createSource_ends hmissing _) (fun _ h₃ h => ?_) fun e h₃ h =>
        hstops h.1 fun hnot => (h.2 (hblocked hnot)).1
      exact hrest h₃ h.1 fun hnot => absurd rfl (h.2 (hblocked hnot)).2
  next hsome =>
    refine hrest h₂ (.refl h₂) fun _ => ⟨rfl, ?_⟩
    exact Option.isSome_iff_ne_none.mpr fun hnone => hsome (Option.isNone_iff_eq_none.mpr hnone)

theorem extraMounts_ends (h : Host) (entries : List String) :
    Ends HostOp.placed (fun _ _ => True) (fun r h' => (¬ Reaches h entries → h' = h) ∧
      ∀ shares, r = .ok shares → ∀ entry ∈ entries, ∃ share, Acceptable h.home entry share) h
        (extraMounts entries) := by
  induction entries generalizing h with
  | nil => exact .ret ⟨fun _ => rfl, by simp⟩
  | cons entry rest ih =>
    have hfirst : ¬ Reaches h (entry :: rest) → ¬ Creates h entry := fun hnot hcreates => hnot (.here hcreates)
    refine .bind (extraMount_ends h entry) (fun share h₁ hshare => ?_) fun e h₁ herror =>
      ⟨fun hnot => herror.same (hfirst hnot), fun _ => nofun⟩
    have hsame : ¬ Reaches h (entry :: rest) → h₁ = h ∧ ¬ Reaches h₁ rest := fun hnot => by
      obtain rfl := hshare.same (hfirst hnot)
      exact ⟨rfl, fun hrest => hnot (.later (hshare.passes (hfirst hnot) share rfl) hrest)⟩
    have hkept : ∀ {h'}, (¬ Reaches h₁ rest → h' = h₁) → ¬ Reaches h (entry :: rest) → h' = h := fun heq hnot =>
      (heq (hsame hnot).2).trans (hsame hnot).1
    refine .bind (ih h₁) (fun shares h₂ hshares => .ret ⟨hkept hshares.1, fun _ _ => ?_⟩) fun e h₂ herror =>
      ⟨hkept herror.1, fun _ => nofun⟩
    rw [List.forall_mem_cons]
    refine ⟨⟨share, hshare.acceptable share rfl⟩, ?_⟩
    rw [← hshare.grows.home]
    exact hshares.2 shares rfl

-- ---------------------------------------------------------------------------
-- Runs that create
-- ---------------------------------------------------------------------------

theorem runs_on {p : HostAct α} (hseq : p.Sequential) (h : Host) :
    ∃ h' q, Steps HostOp.placed h p h' q ∧ q.ended = true := by
  induction p generalizing h with
  | ret a => exact ⟨h, _, .refl, rfl⟩
  | throw e => exact ⟨h, _, .refl, rfl⟩
  | call op next ih =>
    obtain ⟨r, h₁, he⟩ := HostOp.placed_total op h
    obtain ⟨h', q, hsteps, hended⟩ := ih r (hseq r) h₁
    exact ⟨h', q, (Steps.tail .refl (.call he)).trans hsteps, hended⟩
  | fork _ _ _ _ => exact hseq.elim

theorem grows_of_steps {p q : HostAct α} (hs : Steps HostOp.placed h p h' q) (hseq : p.Sequential) :
    h.Grows h' :=
  (Prog.Alone.any (p := p)).invariant hseq (.refl h) (fun _ _ _ _ hg _ he => hg.trans (HostOp.grows he.1)) hs

def Host.made (h : Host) (path : String) (kind : Kind) (hnone : h.kind path = none) : Host :=
  { h with
    kind := Function.update h.kind path (some kind)
    cwd_directory := fun dir hdir => by
      rw [Function.update_of_ne]
      · exact h.cwd_directory dir hdir
      · rintro rfl
        rw [h.cwd_directory dir hdir] at hnone
        cases hnone }

theorem Host.grows_made (hnone : h.kind path = none) (hk : k = .regular ∨ k = .directory) :
    h.Grows (h.made path k hnone) where
  cwd := rfl
  home := rfl
  kind other := by
    by_cases hother : other = path
    · subst hother
      simp [Host.made, hnone, hk]
    · exact .inl (Function.update_of_ne hother ..)

theorem Host.made_kind (hnone : h.kind path = none) : (h.made path k hnone).kind path = some k :=
  Function.update_self ..

structure Begins (h : Host) (p : HostAct α) : Prop where
  run : ∃ h' q path, Steps HostOp.placed h p h' q ∧ h.kind path = none ∧ (h'.kind path).isSome = true

theorem Begins.bind {p : HostAct α} {f : α → HostAct β} (hbegins : Begins h p) : Begins h (p >>= f) := by
  obtain ⟨h', q, path, hsteps, hmade⟩ := hbegins.run
  exact ⟨h', _, path, hsteps.bind f, hmade⟩

theorem Begins.after {p : HostAct α} {f : α → HostAct β} (hp : Steps HostOp.placed h p h (.ret a))
    (hbegins : Begins h (f a)) : Begins h (p >>= f) := by
  obtain ⟨h', q, path, hsteps, hmade⟩ := hbegins.run
  exact ⟨h', q, path, (hp.bind f).trans hsteps, hmade⟩

theorem Begins.ends {p : HostAct α} (hbegins : Begins h p) (hseq : p.Sequential) :
    ∃ h' q path, Steps HostOp.placed h p h' q ∧ q.ended = true ∧ h.kind path = none ∧
    (h'.kind path).isSome = true := by
  obtain ⟨h₁, p₁, path, hsteps, hnone, hsome⟩ := hbegins.run
  have hseq₁ : p₁.Sequential := (hsteps.interrupted (H := fun _ _ => False)).sequential hseq
  obtain ⟨h', q, hrest, hended⟩ := runs_on hseq₁ h₁
  obtain ⟨k, hk⟩ := Option.isSome_iff_exists.mp hsome
  exact ⟨h', q, path, hsteps.trans hrest, hended, hnone, by rw [(grows_of_steps hrest hseq₁).keeps hk]; rfl⟩

theorem Begins.ask {op : HostOp} {r : hostOps.Res op} {read : hostOps.Res op → Except String α}
    (he : HostOp.placed op h r h') (hnone : h.kind path = none) (hsome : h'.kind path = some k) :
    Begins h (.ask op read) :=
  ⟨h', _, path, .tail .refl (.call he), hnone, by rw [hsome]; rfl⟩

theorem createDirAll_begins {read : Except IoError Unit → Except String Unit} (hnone : h.kind path = none)
    (hclear : h.Clear path) : Begins h (.ask (.createDirAll path) read) := by
  have he : HostOp.placed (.createDirAll path) h (.ok ()) (h.made path .directory hnone) :=
    ⟨⟨Host.grows_made hnone (.inr rfl), fun _ => Host.made_kind hnone⟩, fun hnot => absurd ⟨hnone, hclear⟩ hnot⟩
  exact .ask he hnone (Host.made_kind hnone)

theorem createFile_begins {read : Except IoError Unit → Except String Unit} (hnone : h.kind path = none)
    (hclear : h.Clear path) : Begins h (.ask (.createFile path) read) := by
  have he : HostOp.placed (.createFile path) h (.ok ()) (h.made path .regular hnone) :=
    ⟨⟨Host.grows_made hnone (.inl rfl), fun _ => by rw [Host.made_kind]; rfl⟩,
      fun hnot => absurd ⟨hnone, hclear⟩ hnot⟩
  exact .ask he hnone (Host.made_kind hnone)

theorem createSource_begins (hnone : h.kind path = none) (hclear : h.Clear path) (asDir : Bool) :
    Begins h (createSource path asDir) := by
  unfold createSource
  split
  · exact createDirAll_begins hnone hclear
  · dsimp only
    split
    next parent hparent =>
      rcases hclear parent (.parent hparent) with hmissing | hdir
      · exact (createDirAll_begins hmissing fun place habove => hclear place (.beyond hparent habove)).bind
      · have he : HostOp.placed (.createDirAll parent) h (.ok ()) h := ⟨⟨.refl h, fun _ => hdir⟩, fun _ => rfl⟩
        obtain ⟨h', q, made, hsteps, hmade⟩ := (createFile_begins hnone hclear).run
        exact ⟨h', q, made, .ask_bind he rfl hsteps, hmade⟩
    next => exact createFile_begins hnone hclear

theorem reads_placed {p : HostAct α} (hreads : ReadsHost h p x) : Prog.Reads HostOp.placed h p x := by
  induction hreads with
  | ret a => exact .ret a
  | throw e => exact .throw e
  | call honly _ ih =>
    refine .call (fun r' h' => ⟨fun he => (honly r' h').mp he.1, fun heq => ⟨(honly r' h').mpr heq, ?_⟩⟩) ih
    exact fun _ => heq.1

theorem Passes.steps (hpasses : Passes h entry) :
    ∃ share, Steps HostOp.placed h (extraMount entry) h (.ret share) := by
  obtain ⟨share, haccept, hthere⟩ := hpasses
  have hsources : SourcesExist h [entry] := by
    intro other hother source destination readonly hparse path hpath
    obtain rfl := List.mem_singleton.mp hother
    obtain ⟨source', destination', hparse', hpath', -⟩ := (acceptable_iff.mp haccept).1.asks
    cases hparse.symm.trans hparse'
    cases hpath.symm.trans hpath'
    exact hthere
  have hreads := reads_placed (extraMount_reads h hsources)
  rw [entryShare_ok.mpr haccept] at hreads
  exact ⟨share, hreads.steps⟩

theorem Creates.begins (hcreates : Creates h entry) : Begins h (extraMount entry) := by
  obtain ⟨source, destination, path, hparse, hpath, hroot, hnone, hclear⟩ := hcreates.missing
  have hexpand : Steps HostOp.placed h (expandPath source) h (.ret path) := by
    have hexpanded : ReadsHost h (expandPath source) (expand h.home source) := expandPath_reads h
    have hreads := reads_placed hexpanded
    rw [hpath] at hreads
    exact hreads.steps
  have hkind : Steps HostOp.placed h (.ask (.kind path) .ok) h (.ret (none : Option Kind)) := by
    have he : HostOp.placed (.kind path) h none h := ⟨⟨rfl, hnone.symm⟩, fun _ => rfl⟩
    exact .tail .refl (.call (k := fun r => Prog.ofExcept (.ok r)) he)
  unfold extraMount
  rw [hparse]
  refine .after (a := (source, destination, false)) .refl (.after hexpand ?_)
  dsimp only
  rw [if_neg (by simp [hroot])]
  exact .after hkind (createSource_begins hnone hclear _).bind

theorem Reaches.begins (hreaches : Reaches h entries) : Begins h (extraMounts entries) := by
  induction hreaches with
  | here hcreates => exact hcreates.begins.bind
  | later hpasses _ ih =>
    obtain ⟨share, hsteps⟩ := hpasses.steps
    exact .after hsteps ih.bind

theorem createSource_sequential (path : String) (asDir : Bool) : (createSource path asDir).Sequential := by
  unfold createSource
  split
  · exact .ask _ _
  · dsimp only
    split
    · exact .bind (.ask _ _) fun _ => .ask _ _
    · exact .ask _ _

theorem extraMount_sequential (entry : String) : (extraMount entry).Sequential := by
  refine .bind (.ofExcept _) fun parsed => .bind (.ask _ _) fun path => ?_
  have hrest : ∀ destination, (do
      let destination ← expandPath destination
      return (path, destination, parsed.2.2) : HostAct _).Sequential := fun _ => .bind (.ask _ _) fun _ => trivial
  dsimp only
  split
  · trivial
  · refine .bind (.ask _ _) fun kind => ?_
    split
    · split
      · trivial
      · exact .bind (createSource_sequential _ _) fun _ => hrest _
    · exact hrest _

theorem extraMounts_sequential (entries : List String) : (extraMounts entries).Sequential := by
  induction entries with
  | nil => trivial
  | cons entry rest ih =>
    exact .bind (extraMount_sequential entry) fun _ => .bind ih fun _ => trivial

theorem not_acceptable (hbad : ReadsHost h (checkEntry entry) (.error e)) (share : String × String × Bool) :
    ¬ Acceptable h.home entry share := by
  intro haccept
  have hreads : ReadsHost h (checkEntry entry) (entryShare h.home entry >>= fun _ => .ok ()) := checkEntry_reads h
  rw [entryShare_ok.mpr haccept] at hreads
  cases hbad.unique hreads

theorem extraMounts_refused (hentry : entry ∈ entries) (hrejects : ReadsHost h (checkEntry entry) (.error e))
    (hsteps : Steps HostOp.placed h (extraMounts entries) h' q) (hended : q.ended = true) :
    (∃ e, q = .throw e) ∧ (¬ Reaches h entries → h' = h) := by
  have hready := extraMounts_ends h entries h' _ hsteps.attempt
  cases q with
  | ret shares =>
    obtain ⟨share, haccept⟩ := (hready.value (.ok shares) rfl).2 shares rfl entry hentry
    exact absurd haccept (not_acceptable hrejects share)
  | throw e => exact ⟨⟨e, rfl⟩, (hready.value (.error e) rfl).1⟩
  | call _ _ | fork _ _ _ _ => cases hended

theorem Reaches.leaves (hreaches : Reaches h entries) (hentry : entry ∈ entries)
    (hrejects : ReadsHost h (checkEntry entry) (.error e)) :
    ∃ h' e path, Steps HostOp.placed h (extraMounts entries) h' (.throw e) ∧ h.kind path = none ∧
      (h'.kind path).isSome = true := by
  obtain ⟨h', q, path, hsteps, hended, hmade⟩ := hreaches.begins.ends (extraMounts_sequential entries)
  obtain ⟨⟨e, rfl⟩, -⟩ := extraMounts_refused hentry hrejects hsteps hended
  exact ⟨h', e, path, hsteps, hmade⟩

/-- A definition with an entry that `check` rejects is refused, and leaves the
host as it was exactly if no entry that creates its source is reached before
one that stops the loop. -/
theorem extraMounts_untouched_iff (run : RunConfig) (h : Host)
    (hbad : ∃ entry ∈ run.mount, ∃ e, ReadsHost h (checkEntry entry) (.error e)) :
    (∀ h' q, Steps HostOp.placed h (extraMounts run.mount) h' q → q.ended = true → ∃ e, q = .throw e) ∧
    ((∀ h' q, Steps HostOp.placed h (extraMounts run.mount) h' q → q.ended = true →
      (∃ e, q = .throw e) ∧ h' = h) ↔ ¬ Reaches h run.mount) := by
  obtain ⟨entry, hentry, e, hrejects⟩ := hbad
  refine ⟨fun h' q hsteps hended => (extraMounts_refused hentry hrejects hsteps hended).1,
    fun hall hreaches => ?_,
    fun hnot h' q hsteps hended => ?_⟩
  · obtain ⟨h', e', path, hsteps, hnone, hsome⟩ := hreaches.leaves hentry hrejects
    obtain rfl := (hall h' _ hsteps rfl).2
    rw [hnone] at hsome
    cases hsome
  · obtain ⟨hthrown, hsame⟩ := extraMounts_refused hentry hrejects hsteps hended
    exact ⟨hthrown, hsame hnot⟩

theorem Host.Clear.of_parent (hparent : parent? path = some parent) (hkind : h.kind parent = some .directory)
    (hclear : h.Clear parent) : h.Clear path := by
  intro place habove
  cases habove with
  | parent hplace =>
    cases hparent.symm.trans hplace
    exact .inr hkind
  | beyond hinner habove =>
    cases hparent.symm.trans hinner
    exact hclear place habove

theorem Host.Clear.top (hparent : parent? path = none) : h.Clear path := by
  intro place habove
  cases habove with
  | parent hplace => cases hparent.symm.trans hplace
  | beyond hinner _ => cases hparent.symm.trans hinner

namespace Notebook

theorem nowhere_physical : ∀ dir ∈ (none : Option String), Component.parent ∉ components dir := nofun

/-- A home with one directory in it. -/
def host : Host where
  kind path := [("/", .directory), ("/home", .directory), ("/home/u", .directory),
    ("/home/u/.config", .directory)].lookup path
  cwd := none
  home := some "/home/u"
  cwd_directory dir hdir := by cases hdir
  cwd_physical := nowhere_physical

theorem rejects_relative : ReadsHost host (checkEntry "data") (.error "mount path 'data' is not absolute") :=
  checkEntry_reads host

theorem rejects_inside : ReadsHost host (checkEntry "~/.new/:data")
    (.error "mount path 'data' is not absolute") :=
  checkEntry_reads host

theorem new_clear : host.Clear "/home/u/.new/" := by
  have hhome : host.Clear "/home" := .of_parent (show parent? "/home" = some "/" by rfl) (by rfl) (.top (by rfl))
  have huser : host.Clear "/home/u" := .of_parent (show parent? "/home/u" = some "/home" by rfl) (by rfl) hhome
  exact .of_parent (show parent? "/home/u/.new/" = some "/home/u" by rfl) (by rfl) huser

/-- A directory of the user's home that is there, and then a path that is not
absolute. -/
theorem extraMounts_untouched_iff_config : ¬ Reaches host ["~/.config", "data"] ∧ ∀ h' q,
    Steps HostOp.placed host (extraMounts ["~/.config", "data"]) h' q → q.ended = true →
      (∃ e, q = .throw e) ∧ h' = host := by
  let run : RunConfig := { entrypoint := none, mount := ["~/.config", "data"] }
  have hthere : ¬ Creates host "~/.config" := by
    rintro ⟨source, destination, path, hparse, hpath, -, hnone, -⟩
    cases (show parseMount "~/.config" = .ok ("~/.config", "~/.config", false) by rfl).symm.trans hparse
    cases (show expand host.home "~/.config" = .ok "/home/u/.config" by rfl).symm.trans hpath
    cases hnone
  have hrelative : ¬ Creates host "data" := by
    rintro ⟨source, destination, path, hparse, hpath, -⟩
    cases (show parseMount "data" = .ok ("data", "data", false) by rfl).symm.trans hparse
    cases hpath
  have hnot : ¬ Reaches host run.mount := by
    rintro (hcreates | ⟨-, hcreates | ⟨-, hrest⟩⟩)
    · exact hthere hcreates
    · exact hrelative hcreates
    · cases hrest
  exact ⟨hnot, (extraMounts_untouched_iff run host ⟨"data", by simp [run], _, rejects_relative⟩).2.mpr hnot⟩

/-- What is missing is created before a later entry is looked at, and before
its own destination is. -/
theorem extraMounts_leaves_new :
    (ReadsHost host (checkEntry "data") (.error "mount path 'data' is not absolute") ∧
      ∃ h' e path, Steps HostOp.placed host (extraMounts ["~/.new/", "data"]) h' (.throw e) ∧
        host.kind path = none ∧ (h'.kind path).isSome = true) ∧
    ReadsHost host (checkEntry "~/.new/:data") (.error "mount path 'data' is not absolute") ∧
      ∃ h' e path, Steps HostOp.placed host (extraMounts ["~/.new/:data"]) h' (.throw e) ∧
        host.kind path = none ∧ (h'.kind path).isSome = true := by
  have hnew : Creates host "~/.new/" :=
    ⟨"~/.new/", "~/.new/", "/home/u/.new/", by rfl, by rfl, by rfl, by rfl, new_clear⟩
  have hinside : Creates host "~/.new/:data" :=
    ⟨"~/.new/", "data", "/home/u/.new/", by rfl, by rfl, by rfl, by rfl, new_clear⟩
  exact ⟨⟨rejects_relative, (Reaches.here hnew).leaves (by simp) rejects_relative⟩, rejects_inside,
    (Reaches.here hinside).leaves (by simp) rejects_inside⟩

end Notebook

end Climate
