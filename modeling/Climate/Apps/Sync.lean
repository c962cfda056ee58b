import Climate.Lib.Exec
import Climate.Lib.TreeDiff

/-!
# The apps repository

`sync` of config.rs over the directory that the app definitions are synced
into: what git keeps under .git and the files checked out. Git itself is
grit-lib; each of its functions that `sync` calls is one operation, except that
a checkout is one for each file.
-/

namespace Climate.Apps

def defaultAppsUrl : String := "https://github.com/gblach/climate-apps.git"

def fetchRefspec : String := "+refs/heads/*:refs/remotes/origin/*"

abbrev Oid := String

abbrev Tree := Files String String

structure Commit where
  tree : Tree

/-- What git is taken to do besides the operations: an object id names one
commit, and some URLs are for ssh. -/
structure Grit where
  commit : Oid → Commit
  isSshUrl : String → Bool

abbrev ConfigFile := Files String String

/-- What is under .git: the configuration, HEAD, the refs and the ids of the
commits that are there. -/
structure Repository where
  config : ConfigFile := ∅
  head : String
  refs : Files String Oid := ∅
  objects : List Oid := []

structure Target where
  git : Option Repository := none
  work : Tree := ∅

-- ---------------------------------------------------------------------------
-- The remote
-- ---------------------------------------------------------------------------

structure RefUpdate where
  localRef : Option String
  newOid : Option Oid
  deriving DecidableEq, Repr

structure FetchOutcome where
  updates : List RefUpdate
  defaultBranch : Option String
  deriving DecidableEq, Repr

/-- The branches of the remote, of which one is the default. -/
structure Upstream where
  branches : List (String × Oid)
  default : String
  tip : Oid
  advertised : branches.lookup default = some tip

def tracking (branch : String) : String := "refs/remotes/origin/" ++ branch

def localBranch (branch : String) : String := "refs/heads/" ++ branch

def Upstream.outcome (up : Upstream) : FetchOutcome where
  updates := up.branches.map fun (branch, oid) => { localRef := some (tracking branch), newOid := some oid }
  defaultBranch := some up.default

def Upstream.tree (git : Grit) (up : Upstream) : Tree := (git.commit up.tip).tree

/-- What is outside the target when a sync runs. -/
structure Surroundings where
  appsUrl : Option String := none
  upstream : Upstream

-- ---------------------------------------------------------------------------
-- The operations
-- ---------------------------------------------------------------------------

inductive DiffStatus
  | added
  | copied
  | deleted
  | modified
  deriving DecidableEq, Repr

structure Change where
  path : String
  status : DiffStatus
  deriving DecidableEq, Repr

inductive Transport
  | ssh
  | http
  deriving DecidableEq, Repr

inductive Op
  | isRepository
  | openRepository
  | loadConfig
  | hasEntries
  | createParent
  | appsUrl
  | initRepository (branch : String)
  | readConfig
  | writeConfig (config : ConfigFile)
  | connect (url : String)
  | fetch (transport : Transport) (url : String)
  | resolveRef (name : String)
  | readCommit (oid : Oid)
  | writeSymbolicRef (name dest : String)
  | writeRef (name : String) (oid : Oid)
  | diffTrees (old : Option Tree) (new : Tree)
  | place (path : String) (contents : Option String)

@[reducible] def Op.Res : Op → Type
  | .isRepository | .hasEntries => Bool
  | .appsUrl => Option String
  | .loadConfig => Except String ConfigFile
  | .readConfig => Except String (Option ConfigFile)
  | .fetch _ _ => Except String FetchOutcome
  | .resolveRef _ => Except String Oid
  | .readCommit _ => Except String Commit
  | .diffTrees _ _ => Except String (List Change)
  | .openRepository | .createParent | .initRepository _ | .writeConfig _ | .connect _
  | .writeSymbolicRef _ _ | .writeRef _ _ | .place _ _ => Except String Unit

@[reducible] def git : Interface := ⟨Op, Op.Res⟩

abbrev Act (α : Type) := Prog git α

-- ---------------------------------------------------------------------------
-- Their effects
-- ---------------------------------------------------------------------------

/-- No tree is one without files. -/
def baseline (old : Option Tree) : Tree := old.getD ∅

def status (old new : Tree) (path : String) : DiffStatus :=
  match old.lookup path, new.lookup path with
  | none, _ => .added
  | _, none => .deleted
  | _, _ => .modified

def Lists (old new : Tree) (changes : List Change) : Prop :=
  Files.Differ old new (changes.map (·.path)) ∧
    ∀ change ∈ changes, change.status = status old new change.path

namespace Target

/-- The target with its repository changed, where there is one. -/
def update (t : Target) (f : Repository → Repository) : Target := { t with git := t.git.map f }

def initialised (t : Target) (branch : String) : Target :=
  { t with git := some { head := localBranch branch } }

def configured (t : Target) (config : ConfigFile) : Target :=
  t.update fun repo => { repo with config }

def fetched (t : Target) (up : Upstream) : Target :=
  t.update fun repo => { repo with
    objects := up.branches.map (·.2) ++ repo.objects
    refs := up.branches.foldl (fun refs (branch, oid) => refs.insert (tracking branch) oid) repo.refs }

def pointed (t : Target) (dest : String) : Target := t.update fun repo => { repo with head := dest }

def withRef (t : Target) (name : String) (oid : Oid) : Target :=
  t.update fun repo => { repo with refs := repo.refs.insert name oid }

def placed (t : Target) (path : String) (contents : Option String) : Target :=
  { t with work := t.work.set path contents }

end Target

def Reads (t t' : Target) (r : Except String α) (found : α → Prop) : Prop :=
  t' = t ∧ ∀ a, r = .ok a → found a

def Writes (t t' done : Target) (r : Except String Unit) : Prop :=
  match r with
  | .ok () => t' = done
  | .error _ => t' = t ∨ t' = done

/-- Every operation that can fail may do so at any time. A file that is being
written then can be left cut short. -/
def Op.effect (grit : Grit) (around : Surroundings) : Effects git Target
  | .isRepository, t, r, t' => t' = t ∧ r = t.git.isSome
  | .openRepository, t, r, t' => Reads t t' r fun _ => t.git.isSome
  | .loadConfig, t, r, t' => Reads t t' r fun config => ∃ repo, t.git = some repo ∧ config = repo.config
  | .hasEntries, t, r, t' => t' = t ∧ r = (t.git.isSome || !t.work.keys.isEmpty)
  | .createParent, t, _, t' => t' = t
  | .appsUrl, t, r, t' => t' = t ∧ r = around.appsUrl
  | .initRepository branch, t, r, t' => Writes t t' (t.initialised branch) r
  | .readConfig, t, r, t' =>
    Reads t t' r fun config => ∃ repo, t.git = some repo ∧ config = some repo.config
  | .writeConfig config, t, r, t' =>
    Writes t t' (t.configured config) r ∨ (r ≠ .ok () ∧ t' = t.configured ∅)
  | .connect _, t, _, t' => t' = t
  | .fetch _ _, t, r, t' =>
    match r with
    | .ok outcome => outcome = around.upstream.outcome ∧ t' = t.fetched around.upstream
    | .error _ => t' = t ∨ t' = t.fetched around.upstream
  | .resolveRef name, t, r, t' =>
    t' = t ∧ ∀ oid, r = .ok oid ↔ ∃ repo, t.git = some repo ∧ repo.refs.lookup name = some oid
  | .readCommit oid, t, r, t' =>
    Reads t t' r fun commit => ∃ repo, t.git = some repo ∧ oid ∈ repo.objects ∧ commit = grit.commit oid
  | .writeSymbolicRef _ dest, t, r, t' => Writes t t' (t.pointed dest) r
  | .writeRef name oid, t, r, t' => Writes t t' (t.withRef name oid) r
  | .diffTrees old new, t, r, t' => Reads t t' r fun changes => Lists (baseline old) new changes
  | .place path contents, t, r, t' =>
    match r with
    | .ok () => t' = t.placed path contents
    | .error _ => t' = t ∨ ∃ torn, t' = t.placed path torn

-- ---------------------------------------------------------------------------
-- The functions
-- ---------------------------------------------------------------------------

structure SyncCounts where
  added : Nat := 0
  changed : Nat := 0
  removed : Nat := 0
  deriving DecidableEq, Repr

def context (message : String) (r : Except String α) : Except String α := r.mapError fun _ => message

def startsWith (s start : String) : Bool := start.toList.isPrefixOf s.toList

def fetch (grit : Grit) (url : String) : Act FetchOutcome := do
  if grit.isSshUrl url then
    .ask (.connect url) (context s!"connecting to {url}")
    .ask (.fetch .ssh url) (context s!"fetching {url}")
  else if startsWith url "http://" || startsWith url "https://" then
    .ask (.fetch .http url) (context s!"fetching {url}")
  else .throw s!"unsupported apps URL scheme: {url}"

/-- The tree of the local branch, which a fresh clone does not have. -/
def previousTree (branch : String) : Act (Option Tree) := do
  let resolved : Except String Oid ← .ask (.resolveRef (localBranch branch)) .ok
  match resolved with
  | .ok oldTip => do
    let old : Commit ← .ask (.readCommit oldTip) (context "reading the previous commit")
    return some old.tree
  | .error _ => return none

/-- grit-lib's checkout: the files that are different, one after another. -/
def checkoutBetweenTrees (old : Option Tree) (new : Tree) : Act Unit := do
  let changes : List Change ← .ask (.diffTrees old new) (context "checking out the fetched files")
  changes.forM fun change =>
    .ask (.place change.path (new.lookup change.path)) (context "checking out the fetched files")

/-- Only .toml files are app definitions. -/
def SyncCounts.count (counts : SyncCounts) (change : Change) : SyncCounts :=
  if !".toml".toList.isSuffixOf change.path.toList then counts
  else match change.status with
    | .added | .copied => { counts with added := counts.added + 1 }
    | .deleted => { counts with removed := counts.removed + 1 }
    | .modified => { counts with changed := counts.changed + 1 }

/-- The part of `fetch_and_checkout` after the tip is known. -/
def checkoutTip (branch : String) (tip : Oid) : Act SyncCounts := do
  let fromTree ← previousTree branch
  .ask (.writeSymbolicRef "HEAD" (localBranch branch)) (context "setting HEAD")
  .ask (.writeRef (localBranch branch) tip) (context s!"updating {localBranch branch}")
  let commit : Commit ← .ask (.readCommit tip) (context "reading the fetched commit")
  let changes : List Change ← .ask (.diffTrees fromTree commit.tree)
    (context "comparing the checked-out files with the fetched ones")
  checkoutBetweenTrees fromTree commit.tree
  return changes.foldl .count {}

def FetchOutcome.tip (outcome : FetchOutcome) (branch : String) : Option Oid :=
  (outcome.updates.find? fun update => update.localRef = some (tracking branch)).bind (·.newOid)

def fetchAndCheckout (grit : Grit) (url : String) : Act SyncCounts := do
  let outcome ← fetch grit url
  if outcome.updates.isEmpty then
    .throw s!"the apps remote {url} advertised no branches (does it exist and is it accessible?)"
  else match outcome.defaultBranch with
    | none => .throw "the apps remote advertised no default branch"
    | some branch =>
      match outcome.tip branch with
      | none => .throw s!"fetch did not update {tracking branch}"
      | some tip => checkoutTip branch tip

def recordRemote (config : ConfigFile) (url : String) : ConfigFile :=
  (config.insert "remote.origin.url" url).insert "remote.origin.fetch" fetchRefspec

/-- The counts are what `sync` prints. -/
def sync (grit : Grit) (target : String) : Act SyncCounts := do
  let isRepository : Bool ← .ask .isRepository .ok
  if isRepository then
    .ask .openRepository (context s!"opening {target}")
    let config : ConfigFile ← .ask .loadConfig (context "reading repository config")
    match config.lookup "remote.origin.url" with
    | none => .throw "the apps repository has no remote.origin.url"
    | some url => fetchAndCheckout grit url
  else
    let hasEntries : Bool ← .ask .hasEntries .ok
    if hasEntries then .throw s!"{target} already exists and is not empty"
    else
      .ask .createParent (context s!"creating the parent of {target}")
      let appsUrl : Option String ← .ask .appsUrl .ok
      let url := appsUrl.getD defaultAppsUrl
      .ask (.initRepository "main") (context s!"initializing {target}")
      let config : Option ConfigFile ← .ask .readConfig (context "reading repository config")
      match config with
      | none => .throw "the freshly initialized repository has no config file"
      | some config =>
        .ask (.writeConfig (recordRemote config url)) (context "writing repository config")
        fetchAndCheckout grit url

end Climate.Apps
