import Climate.Lib.Interrupt
import Climate.Lib.Text
import Climate.Runtime.Run
import Climate.Spec.Sizes
import Climate.Store.Clean

/-!
# Pruning the runtime directory

The part of clean.rs that clears up after runs whose process is gone, while
other runs go on. What is known of an entry's maker is in its name alone.
-/

namespace Climate.Prune

open Relation (ReflTransGen)
open Prog (Interrupted Ends Step interruptible)
open UnixPath (Place)
open Climate.Runtime (display fromRaw)

-- ---------------------------------------------------------------------------
-- Names
-- ---------------------------------------------------------------------------

inductive RunDir
  | containers
  | bundles
  | overlays
  deriving DecidableEq, Repr

def RunDir.name : RunDir → String
  | .containers => "containers"
  | .bundles => "bundles"
  | .overlays => "overlays"

def RunDir.stem : RunDir → String
  | .containers | .bundles => "climate-"
  | .overlays => ""

def stripPrefix (start text : List Char) : Option (List Char) :=
  if start.isPrefixOf text then some (text.drop start.length) else none

def fitsI32 (n : Int) : Bool := -2 ^ 31 ≤ n && n < 2 ^ 31

/-- `str::parse::<i32>`. What does not fit 64 bits does not fit 32. -/
def parseI32 (text : List Char) : Option Int := (parseI64 text).filter fitsI32

def pidOf (name stem : String) : Option Int := do
  let rest ← stripPrefix stem.toList name.toList
  let first ← (rest.splitOn '-').head?
  parseI32 first

-- ---------------------------------------------------------------------------
-- The program
-- ---------------------------------------------------------------------------

inductive KillError
  | srch
  | perm
  deriving DecidableEq, Repr

/-- `load` and `delete` are youki's, `fusermount` is a run of fusermount3 and
whether it exited with success. -/
inductive PruneOp
  | readDir (dir : RunDir)
  | testKill (pid : Int)
  | load (id : String)
  | delete (id : String)
  | removeDirAll (dir : RunDir) (id : String)
  | readMounts
  | fusermount (path : String)
  deriving DecidableEq, Repr

def PruneOp.Res : PruneOp → Type
  | .readDir _ => Except IoError (List String)
  | .testKill _ => Except KillError Unit
  | .load _ | .delete _ => Except String Unit
  | .removeDirAll .. => Except IoError Unit
  | .readMounts => Except IoError String
  | .fusermount _ => Except IoError Bool

abbrev pruning : Interface := ⟨PruneOp, PruneOp.Res⟩

abbrev PruneAct := Prog pruning

def runEntries (base : Place) (dir : RunDir) : PruneAct (List String) :=
  .ask (.readDir dir) fun r => orFail s!"reading {display (base ++ [dir.name])}" (names r)

def alive (pid : Int) : PruneAct Bool :=
  match fromRaw pid with
  | none => return false
  | some pid => .ask (.testKill pid) fun
    | .error .srch => .ok false
    | _ => .ok true

/-- Whether a mount point of the list is the path. -/
def listsMount (path : String) (mounts : String) : Bool :=
  (Text.lines mounts.toList).any fun line => (line.splitOn ' ')[1]? = some path.toList

def isMounted (path : String) : PruneAct Bool :=
  .ask .readMounts fun
    | .error _ => .ok false
    | .ok mounts => .ok (listsMount path mounts)

/-- What cannot be deleted as a container goes as a directory, if it can. -/
def pruneContainer (id : String) : PruneAct Unit :=
  match pidOf id "climate-" with
  | none => return
  | some pid => do
    let living ← alive pid
    if living then return
    else do
      let loaded : Except String Unit ← .ask (.load id) .ok
      match loaded with
      | .error _ => .ask (.removeDirAll .containers id) fun _ => .ok ()
      | .ok _ => do
        let deleted : Except String Unit ← .ask (.delete id) .ok
        match deleted with
        | .error _ => .ask (.removeDirAll .containers id) fun _ => .ok ()
        | .ok _ => return

def isSomeAnd (x : Option α) (p : α → PruneAct Bool) : PruneAct Bool :=
  match x with
  | none => return false
  | some a => p a

def isNoneOr (x : Option α) (p : α → PruneAct Bool) : PruneAct Bool :=
  match x with
  | none => return true
  | some a => p a

def pruneBundle (id : String) : PruneAct Unit := do
  let dead ← isSomeAnd (pidOf id "climate-") fun pid => do return !(← alive pid)
  if dead then .ask (.removeDirAll .bundles id) (orFail s!"removing bundle {id}") else return

/-- Whether the entry is still in the way. -/
def unmount (merged : String) : PruneAct Bool := do
  let mounted ← isMounted merged
  if mounted then do
    let success ← .ask (.fusermount merged) (orFail "running fusermount3")
    if success then return false else isMounted merged
  else return false

def pruneOverlay (base : Place) (id : String) : PruneAct Unit := do
  let spared ← isNoneOr (pidOf id "") alive
  if spared then return
  else do
    let blocked ← unmount (display (base ++ ["overlays", id, "merged"]))
    if blocked then return
    else .ask (.removeDirAll .overlays id) (orFail s!"removing overlay {id}")

def pruneRuntime (base : Place) : PruneAct Unit := do
  (← runEntries base .containers).forM pruneContainer
  (← runEntries base .bundles).forM pruneBundle
  (← runEntries base .overlays).forM (pruneOverlay base)

-- ---------------------------------------------------------------------------
-- The runtime directory
-- ---------------------------------------------------------------------------

@[ext]
structure Pid where
  val : Nat
  pos : 0 < val
  fits : val < 2 ^ 31
  deriving DecidableEq

/-- An entry that a run made, or any other. -/
inductive RunEntry
  | made (dir : RunDir) (pid : Pid) (nanos : Nat)
  | other (dir : RunDir) (name : String)
  deriving DecidableEq

namespace RunEntry

def dir : RunEntry → RunDir
  | .made dir .. | .other dir _ => dir

def name : RunEntry → String
  | .made dir pid nanos => dir.stem ++ uniqueId pid.val nanos
  | .other _ name => name

end RunEntry

/-- Every entry there has been, which of them have gone, the pids in use and
what has failed. -/
structure RuntimeDir where
  ever : List RunEntry
  gone : List (RunDir × String)
  inUse : List Pid
  failures : List PruneOp

namespace RuntimeDir

def Known (s : RuntimeDir) (dir : RunDir) (name : String) : Prop := ∃ e ∈ s.ever, e.dir = dir ∧ e.name = name

def Present (s : RuntimeDir) (dir : RunDir) (name : String) : Prop := s.Known dir name ∧ (dir, name) ∉ s.gone

def without (s : RuntimeDir) (dir : RunDir) (name : String) : RuntimeDir :=
  { s with gone := (dir, name) :: s.gone }

def fail (s : RuntimeDir) (op : PruneOp) : RuntimeDir := { s with failures := op :: s.failures }

@[simp] theorem present_fail (s : RuntimeDir) (op : PruneOp) : (s.fail op).Present dir name ↔
    s.Present dir name := .rfl

@[simp] theorem present_without (s : RuntimeDir) (dir' : RunDir) (name' : String) :
    (s.without dir' name').Present dir name ↔ s.Present dir name ∧ ¬ (dir = dir' ∧ name = name') := by
  change (_ ∧ _ ∉ _ :: _) ↔ (_ ∧ _) ∧ _
  rw [List.mem_cons, not_or, Prod.mk.injEq]
  tauto

end RuntimeDir

/-- A removal that fails may be done all the same. -/
def Removes (op : PruneOp) (dir : RunDir) (name : String) (s : RuntimeDir) (r : Except ε Unit) (s' : RuntimeDir) :
    Prop :=
  match r with
  | .ok _ => s' = s.without dir name
  | .error _ => s' = s.fail op ∨ s' = (s.without dir name).fail op

/-- A process that cannot be signalled is there; mounts come and go. -/
def PruneOp.effect : Effects pruning RuntimeDir
  | .readDir dir, s, .ok names, s' => s' = s ∧ ∀ name, name ∈ names ↔ s.Present dir name
  | .readDir dir, s, .error .notFound, s' => s' = s ∧ ∀ name, ¬ s.Present dir name
  | .readDir dir, s, .error .other, s' => s' = s.fail (.readDir dir)
  | .testKill pid, s, r, s' => s' = s ∧ (0 < pid → (r = .error .srch ↔ ∀ p ∈ s.inUse, (p.val : Int) ≠ pid))
  | .load _, s, _, s' => s' = s
  | .delete id, s, r, s' => Removes (.delete id) .containers id s r s'
  | .removeDirAll dir id, s, r, s' => Removes (.removeDirAll dir id) dir id s r s'
  | .readMounts, s, _, s' => s' = s
  | .fusermount _, s, .ok true, s' => s' = s
  | .fusermount path, s, _, s' => s' = s.fail (.fusermount path)

/-- What goes on meanwhile. A process that starts has a pid no run here had,
an entry that is made a name no entry had. -/
inductive Meanwhile (s : RuntimeDir) : RuntimeDir → Prop
  | starts (hnew : ∀ dir nanos, .made dir pid nanos ∉ s.ever) : Meanwhile s { s with inUse := pid :: s.inUse }
  | ends (pid : Pid) : Meanwhile s { s with inUse := s.inUse.filter (· ≠ pid) }
  | adds (hmaker : ∀ dir pid nanos, e = .made dir pid nanos → pid ∈ s.inUse) (hnew : ¬ s.Known e.dir e.name) :
    Meanwhile s { s with ever := e :: s.ever }
  | vanishes (h : s.Known dir name) : Meanwhile s (s.without dir name)

-- ---------------------------------------------------------------------------
-- What a name tells
-- ---------------------------------------------------------------------------

/-- An integer up to the first '-', if there is one, after what runs put
before an id. -/
inductive Tells (stem name : String) (pid : Int) : Prop
  | mk (hname : name.toList = stem.toList ++ (first ++ rest)) (hfirst : '-' ∉ first)
    (hrest : ∀ c ∈ rest.head?, c = '-') (hpid : Decimal first pid) (hfits : fitsI32 pid = true)

theorem stripPrefix_iff : stripPrefix start text = some rest ↔ text = start ++ rest := by
  rw [stripPrefix, Option.ite_none_right_eq_some, Option.some.injEq, List.isPrefixOf_iff_prefix]
  constructor
  · rintro ⟨⟨tail, rfl⟩, rfl⟩
    rw [List.drop_left]
  · rintro rfl
    exact ⟨List.prefix_append _ _, List.drop_left⟩

theorem fitsI64_of_I32 (h : fitsI32 n = true) : fitsI64 n = true := by
  unfold fitsI32 at h
  unfold fitsI64 i64Min i64Max
  rw [Bool.and_eq_true, decide_eq_true_eq, decide_eq_true_eq] at h ⊢
  omega

theorem parseI32_iff : parseI32 text = some n ↔ Decimal text n ∧ fitsI32 n = true := by
  rw [parseI32, Option.filter_eq_some_iff, parseI64_iff]
  exact ⟨fun ⟨h, hfits⟩ => ⟨h.1, hfits⟩, fun ⟨h, hfits⟩ => ⟨⟨h, fitsI64_of_I32 hfits⟩, hfits⟩⟩

theorem pidOf_iff : pidOf name stem = some pid ↔ Tells stem name pid := by
  unfold pidOf
  simp only [Option.bind_eq_bind, Option.bind_eq_some_iff, stripPrefix_iff, Text.head?_splitOn, Option.some.injEq,
    exists_eq_left', parseI32_iff]
  constructor
  · rintro ⟨rest, hname, hpid, hfits⟩
    obtain ⟨hfirst, tail, htail, hdash⟩ := Text.takeWhile_ne_iff.mp (rfl : rest.takeWhile (· ≠ '-') = _)
    exact .mk (htail ▸ hname) hfirst hdash hpid hfits
  · rintro ⟨hname, hfirst, hrest, hpid, hfits⟩
    refine ⟨_, hname, ?_⟩
    rw [Text.takeWhile_ne_iff.mpr ⟨hfirst, _, rfl, hrest⟩]
    exact ⟨hpid, hfits⟩

theorem Tells.nonneg (h : Tells stem name pid) : 0 ≤ pid := by
  obtain ⟨-, hfirst, -, hpid, -⟩ := h
  cases hpid with
  | plain | plus => exact Int.natCast_nonneg _
  | minus => exact absurd (List.mem_cons_self ..) hfirst

theorem pidOf_made (dir : RunDir) (pid : Pid) (nanos : Nat) :
    pidOf (RunEntry.made dir pid nanos).name dir.stem = some (pid.val : Int) := by
  have hname : (RunEntry.made dir pid nanos).name.toList =
      dir.stem.toList ++ (Nat.toDigits 10 pid.val ++ '-' :: Nat.toDigits 10 nanos) := by
    rw [RunEntry.name, String.toList_append, uniqueId_toList]
  have hpid := Decimal.plain (isNumeral_toDigits pid.val)
  rw [Nat.ofDigitChars_ten_toDigits] at hpid
  refine pidOf_iff.mpr (.mk hname (dash_not_mem_toDigits pid.val) (by simp) hpid ?_)
  have := pid.fits
  unfold fitsI32
  rw [Bool.and_eq_true, decide_eq_true_eq, decide_eq_true_eq]
  omega

-- ---------------------------------------------------------------------------
-- Later states
-- ---------------------------------------------------------------------------

/-- What the program and the runs beside it never undo. -/
structure Later (s t : RuntimeDir) : Prop where
  ever : ∀ e ∈ s.ever, e ∈ t.ever
  gone : ∀ k ∈ s.gone, k ∈ t.gone
  fresh : ∀ e ∈ t.ever, e ∉ s.ever → ¬ s.Known e.dir e.name
  ended : ∀ dir pid nanos, .made dir pid nanos ∈ s.ever → pid ∉ s.inUse → pid ∉ t.inUse
  failures : s.failures <:+ t.failures

theorem RuntimeDir.Known.later (h : Later s t) (hknown : s.Known dir name) : t.Known dir name := by
  obtain ⟨e, he, hkey⟩ := hknown
  exact ⟨e, h.ever e he, hkey⟩

namespace Later

theorem refl (s : RuntimeDir) : Later s s :=
  ⟨fun _ h => h, fun _ h => h, fun _ h hnot => absurd h hnot, fun _ _ _ _ h => h, List.suffix_rfl⟩

theorem trans (h : Later s t) (h' : Later t u) : Later s u where
  ever e he := h'.ever e (h.ever e he)
  gone k hk := h'.gone k (h.gone k hk)
  fresh e he hnot hknown := by
    by_cases ht : e ∈ t.ever
    · exact h.fresh e ht hnot hknown
    · exact h'.fresh e he ht (hknown.later h)
  ended dir pid nanos hmade hended := h'.ended dir pid nanos (h.ever _ hmade) (h.ended dir pid nanos hmade hended)
  failures := h.failures.trans h'.failures

theorem without (s : RuntimeDir) (dir : RunDir) (name : String) : Later s (s.without dir name) :=
  { refl s with gone := fun _ h => List.mem_cons_of_mem _ h }

theorem fail (s : RuntimeDir) (op : PruneOp) : Later s (s.fail op) :=
  { refl s with failures := List.suffix_cons op _ }

end Later

theorem Meanwhile.later (h : Meanwhile s s') : Later s s' := by
  cases h with
  | @starts pid hnew =>
    refine { Later.refl s with ended := fun dir pid' nanos hmade hended hmem => ?_ }
    rcases List.mem_cons.mp hmem with rfl | hmem
    · exact hnew dir nanos hmade
    · exact hended hmem
  | ends pid =>
    exact { Later.refl s with ended := fun _ _ _ _ hended hmem => hended (List.mem_filter.mp hmem).1 }
  | @adds e hmaker hnew =>
    refine { Later.refl s with ever := fun _ h => List.mem_cons_of_mem _ h, fresh := fun e' he' hnot => ?_ }
    rcases List.mem_cons.mp he' with rfl | he'
    · exact hnew
    · exact absurd he' hnot
  | vanishes _ => exact .without ..

theorem Later.of_meanwhile (h : ReflTransGen Meanwhile s s') : Later s s' :=
  Prog.kept (fun _ _ h hm => h.trans hm.later) (.refl s) h

theorem Removes.later (h : Removes op dir name s r s') : Later s s' := by
  cases r with
  | ok _ => exact (show s' = _ from h) ▸ .without ..
  | error _ =>
    rcases h with rfl | rfl
    · exact .fail ..
    · exact (Later.without ..).trans (.fail ..)

theorem PruneOp.later {op : PruneOp} {r : pruning.Res op} (h : PruneOp.effect op s r s') : Later s s' := by
  cases op with
  | readDir dir =>
    cases r with
    | ok names => exact h.1 ▸ .refl s
    | error e =>
      cases e with
      | notFound => exact h.1 ▸ .refl s
      | other => exact (show s' = _ from h) ▸ .fail ..
  | testKill pid => exact h.1 ▸ .refl s
  | load id | readMounts => exact (show s' = s from h) ▸ .refl s
  | delete id | removeDirAll dir id => exact Removes.later h
  | fusermount path =>
    rcases r with e | _ | _
    · exact (show s' = _ from h) ▸ .fail ..
    · exact (show s' = _ from h) ▸ .fail ..
    · exact (show s' = s from h) ▸ .refl s

-- ---------------------------------------------------------------------------
-- What is removed
-- ---------------------------------------------------------------------------

/-- An entry that may go: no process that made it is there any more. -/
structure Doomed (dir : RunDir) (name : String) (s : RuntimeDir) : Prop where
  known : s.Known dir name
  tells : ∃ pid, Tells dir.stem name pid
  ended : ∀ pid nanos, .made dir pid nanos ∈ s.ever → (RunEntry.made dir pid nanos).name = name → pid ∉ s.inUse

theorem Doomed.later (h : Doomed dir name s) (hlater : Later s t) : Doomed dir name t where
  known := h.known.later hlater
  tells := h.tells
  ended pid nanos hmade hname := by
    by_cases hs : .made dir pid nanos ∈ s.ever
    · exact hlater.ended dir pid nanos hs (h.ended pid nanos hs hname)
    · exact absurd (hname ▸ h.known) (hlater.fresh _ hmade hs)

/-- What an operation removes may go. -/
def Spares : PruneOp → RuntimeDir → Prop
  | .delete id, s => Doomed .containers id s
  | .removeDirAll dir id, s => Doomed dir id s
  | _, _ => True

def Due (s₀ : RuntimeDir) (dir : RunDir) (name : String) : Prop :=
  ∃ pid nanos, .made dir pid nanos ∈ s₀.ever ∧ pid ∉ s₀.inUse ∧ (RunEntry.made dir pid nanos).name = name

def Settled (s₀ : RuntimeDir) (dir : RunDir) (s : RuntimeDir) (name : String) : Prop :=
  Due s₀ dir name → (dir, name) ∈ s.gone

def Failed (s₀ s : RuntimeDir) : Prop := s₀.failures.length < s.failures.length

theorem Settled.later (h : Settled s₀ dir s name) (hlater : Later s t) : Settled s₀ dir t name :=
  fun hdue => hlater.gone _ (h hdue)

theorem Failed.later (h : Failed s₀ s) (hlater : Later s t) : Failed s₀ t :=
  Nat.lt_of_lt_of_le h hlater.failures.length_le

theorem Failed.of_fail (hlater : Later s₀ s) (op : PruneOp) : Failed s₀ (s.fail op) :=
  Nat.lt_succ_of_le hlater.failures.length_le

theorem Removes.settled (h : Removes op dir name s r s') (hlater : Later s₀ s) :
    (∃ e, r = .error e ∧ Failed s₀ s') ∨ r = .ok () ∧ Settled s₀ dir s' name := by
  cases r with
  | ok _ => exact .inr ⟨rfl, fun _ => (show s' = _ from h) ▸ List.mem_cons_self ..⟩
  | error e =>
    rcases h with rfl | rfl
    · exact .inl ⟨e, rfl, .of_fail hlater op⟩
    · exact .inl ⟨e, rfl, .of_fail (hlater.trans (.without ..)) op⟩

-- ---------------------------------------------------------------------------
-- One entry
-- ---------------------------------------------------------------------------

abbrev besideRuns : Effects pruning RuntimeDir := interruptible PruneOp.effect Meanwhile

theorem later_bind {op : PruneOp} {read : pruning.Res op → Except String β} {f : β → PruneAct α}
    {post : Except String α → RuntimeDir → Prop} (hlater : Later s₀ s) (hpre : Spares op s)
    (hok : ∀ s₁ r s' b, Later s s₁ → Later s₀ s' → PruneOp.effect op s₁ r s' → read r = .ok b →
      Ends besideRuns Spares post s' (f b))
    (herror : ∀ s₁ r s' e, Later s s₁ → Later s₀ s' → PruneOp.effect op s₁ r s' → read r = .error e →
      post (.error e) s') :
    Ends besideRuns Spares post s (Prog.ask op read >>= f) := by
  refine Ends.kept_bind hpre (Later.refl s) (fun _ _ h hm => h.trans hm.later) ?_ ?_
  · exact fun s₁ r s' b h he hread => hok s₁ r s' b h ((hlater.trans h).trans (PruneOp.later he)) he hread
  · exact fun s₁ r s' e h he hread => herror s₁ r s' e h ((hlater.trans h).trans (PruneOp.later he)) he hread

abbrev Done (s₀ : RuntimeDir) (dir : RunDir) (name : String) : Except String Unit → RuntimeDir → Prop :=
  Ends.Outcome (Failed s₀) fun _ s' => Later s₀ s' ∧ (Failed s₀ s' ∨ Settled s₀ dir s' name)

theorem removal_ends {read : Except IoError Unit → Except String Unit} (hlater : Later s₀ s)
    (hdoomed : Doomed dir name s) (hread : read (.ok ()) = .ok ()) :
    Ends besideRuns Spares (Done s₀ dir name) s (.ask (.removeDirAll dir name) read) := by
  refine Ends.ask hdoomed fun r s' he => ?_
  obtain ⟨s₁, hint, he⟩ := he
  have hs₁ : Later s₀ s₁ := hlater.trans (.of_meanwhile hint)
  have hs' : Later s₀ s' := hs₁.trans (PruneOp.later he)
  rcases Removes.settled he hs₁ with ⟨e, rfl, hfailed⟩ | ⟨rfl, hsettled⟩
  · cases read (.error e) with
    | ok _ => exact ⟨hs', .inl hfailed⟩
    | error _ => exact hfailed
  · rw [hread]
    exact ⟨hs', .inr hsettled⟩

/-- What is known once it is said whether the entry is spared. -/
structure Judged (s₀ : RuntimeDir) (dir : RunDir) (name : String) (spared : Bool) (s : RuntimeDir) : Prop where
  later : Later s₀ s
  notDue : spared = true → ¬ Due s₀ dir name
  doomed : spared = false → Doomed dir name s

theorem not_due_of_none (h : pidOf name dir.stem = none) : ¬ Due s₀ dir name := by
  rintro ⟨pid, nanos, -, -, rfl⟩
  rw [pidOf_made] at h
  cases h

theorem alive_ends (hlater : Later s₀ s) (hknown : s.Known dir name) (hpid : pidOf name dir.stem = some pid) :
    Ends besideRuns Spares (Ends.Outcome (fun _ => False) (Judged s₀ dir name)) s (alive pid) := by
  have htells := pidOf_iff.mp hpid
  have hmade : ∀ pid' nanos, (RunEntry.made dir pid' nanos).name = name → (pid'.val : Int) = pid := by
    rintro pid' nanos rfl
    rw [pidOf_made] at hpid
    exact Option.some.inj hpid
  have hdead : ∀ {s'}, Later s₀ s' → s'.Known dir name → (∀ p ∈ s'.inUse, (p.val : Int) ≠ pid) →
      Judged s₀ dir name false s' := fun hs' hknown' hnone =>
    ⟨hs', fun h => (Bool.false_ne_true h).elim, fun _ => ⟨hknown', ⟨pid, htells⟩, fun pid' nanos _ hname hmem =>
      hnone pid' hmem (hmade pid' nanos hname)⟩⟩
  unfold alive fromRaw
  by_cases hzero : pid = 0
  · rw [if_pos hzero]
    refine .ret (hdead hlater hknown fun p _ hp => ?_)
    have := p.pos
    omega
  · rw [if_neg hzero]
    refine Ends.ask trivial fun r s' he => ?_
    obtain ⟨s₁, hint, rfl, hsrch⟩ := he
    have hs' : Later s s' := .of_meanwhile hint
    have hiff := hsrch (lt_of_le_of_ne htells.nonneg (Ne.symm hzero))
    have hliving : r ≠ .error .srch → Judged s₀ dir name true s' := fun hne => by
      refine ⟨hlater.trans hs', fun _ hdue => ?_, fun h => (Bool.false_ne_true h.symm).elim⟩
      obtain ⟨p, hp, hpid'⟩ : ∃ p ∈ s'.inUse, (p.val : Int) = pid := by simpa using mt hiff.mpr hne
      obtain ⟨pid', nanos, hever, hended, hname⟩ := hdue
      have heq : pid' = p := Pid.ext (Int.natCast_inj.mp ((hmade pid' nanos hname).trans hpid'.symm))
      exact (hlater.trans hs').ended dir pid' nanos hever hended (heq ▸ hp)
    rcases r with (_ | _) | _
    · exact hdead (hlater.trans hs') (hknown.later hs') (hiff.mp rfl)
    · exact hliving nofun
    · exact hliving nofun

theorem pruneBundle_ends (hlater : Later s₀ s) (hknown : s.Known .bundles name) :
    Ends besideRuns Spares (Done s₀ .bundles name) s (pruneBundle name) := by
  have hdead : Ends besideRuns Spares (Ends.Outcome (fun _ => False) fun dead => Judged s₀ .bundles name !dead) s
      (isSomeAnd (pidOf name "climate-") fun pid => do return !(← alive pid)) := by
    cases hpid : pidOf name "climate-" with
    | none => exact .ret ⟨hlater, fun _ => not_due_of_none hpid, fun h => by cases h⟩
    | some pid =>
      refine .seq (alive_ends hlater hknown hpid) fun living s' hjudged => .ret ?_
      rwa [Ends.Outcome, Bool.not_not]
  refine .bind hdead (fun dead s' hjudged => ?_) fun _ _ hfalse => hfalse.elim
  cases dead with
  | true => exact removal_ends hjudged.later (hjudged.doomed rfl) rfl
  | false => exact .ret ⟨hjudged.later, .inr fun hdue => absurd hdue (hjudged.notDue rfl)⟩

theorem pruneContainer_ends (hlater : Later s₀ s) (hknown : s.Known .containers name) :
    Ends besideRuns Spares (Done s₀ .containers name) s (pruneContainer name) := by
  unfold pruneContainer
  cases hpid : pidOf name "climate-" with
  | none => exact .ret ⟨hlater, .inr fun hdue => absurd hdue (not_due_of_none hpid)⟩
  | some pid =>
    refine .bind (alive_ends hlater hknown hpid) (fun living s₁ hjudged => ?_) fun _ _ hfalse => hfalse.elim
    cases living with
    | true => exact .ret ⟨hjudged.later, .inr fun hdue => absurd hdue (hjudged.notDue rfl)⟩
    | false =>
      have hdoomed := hjudged.doomed rfl
      refine later_bind hjudged.later trivial (fun s₂ r s₃ loaded h₂ h₃ he _ => ?_) fun _ _ _ _ _ _ _ hread => by
        cases hread
      have hdoomed₃ : Doomed .containers name s₃ := hdoomed.later (h₂.trans (PruneOp.later he))
      cases loaded with
      | error _ => exact removal_ends h₃ hdoomed₃ rfl
      | ok _ =>
        refine later_bind h₃ hdoomed₃ (fun s₄ r s₅ deleted h₄ h₅ he hread => ?_) fun _ _ _ _ _ _ _ hread => by
          cases hread
        cases hread
        rcases Removes.settled he (h₃.trans h₄) with ⟨e, rfl, -⟩ | ⟨rfl, hsettled⟩
        · exact removal_ends h₅ (hdoomed₃.later (h₄.trans (PruneOp.later he))) rfl
        · exact .ret ⟨h₅, .inr hsettled⟩

theorem isMounted_ends (s : RuntimeDir) (path : String) :
    Ends besideRuns Spares (Ends.Outcome (fun _ => False) fun _ s' => Later s s') s (isMounted path) := by
  refine Ends.ask trivial fun r s' he => ?_
  obtain ⟨s₁, hint, rfl⟩ := he
  have hs' : Later s s' := .of_meanwhile hint
  cases r with
  | ok _ => exact hs'
  | error _ => exact hs'

theorem unmount_ends (hlater : Later s₀ s) (merged : String) :
    Ends besideRuns Spares
      (Ends.Outcome (Failed s₀) fun blocked s' => Later s s' ∧ (blocked = true → Failed s₀ s'))
      s (unmount merged) := by
  refine .bind (isMounted_ends s merged) (fun mounted s₁ h₁ => ?_) fun _ _ hfalse => hfalse.elim
  cases mounted with
  | false => exact .ret ⟨h₁, fun h => by cases h⟩
  | true =>
    have hfails : ∀ {t t'}, Later s₁ t → t' = t.fail (.fusermount merged) → Failed s₀ t' := fun h heq =>
      heq ▸ .of_fail (hlater.trans (Later.trans h₁ h)) _
    refine later_bind (hlater.trans h₁) trivial (fun s₂ r s₃ success h₂ _ he hread => ?_)
      fun s₂ r s₃ e h₂ _ he hread => ?_
    · have h₃ : Later s s₃ := (Later.trans h₁ h₂).trans (PruneOp.later he)
      cases orFail_ok.mp hread
      cases success with
      | true => exact .ret ⟨h₃, fun h => by cases h⟩
      | false =>
        refine (isMounted_ends s₃ merged).weaken fun r s' h => ?_
        cases r with
        | ok blocked => exact ⟨h₃.trans h, fun _ => (hfails h₂ he).later h⟩
        | error _ => exact h.elim
    · cases r with
      | ok _ => cases hread
      | error e' => exact hfails h₂ he

theorem pruneOverlay_ends (base : Place) (hlater : Later s₀ s) (hknown : s.Known .overlays name) :
    Ends besideRuns Spares (Done s₀ .overlays name) s (pruneOverlay base name) := by
  have hspared : Ends besideRuns Spares (Ends.Outcome (fun _ => False) (Judged s₀ .overlays name)) s
      (isNoneOr (pidOf name "") alive) := by
    cases hpid : pidOf name "" with
    | none => exact .ret ⟨hlater, fun _ => not_due_of_none hpid, fun h => by cases h⟩
    | some pid => exact alive_ends hlater hknown hpid
  refine .bind hspared (fun spared s₁ hjudged => ?_) fun _ _ hfalse => hfalse.elim
  cases spared with
  | true => exact .ret ⟨hjudged.later, .inr fun hdue => absurd hdue (hjudged.notDue rfl)⟩
  | false =>
    refine .seq (unmount_ends hjudged.later _) fun blocked s₂ hunmounted => ?_
    obtain ⟨h₂, hblocked⟩ := hunmounted
    cases blocked with
    | true => exact .ret ⟨hjudged.later.trans h₂, .inl (hblocked rfl)⟩
    | false => exact removal_ends (hjudged.later.trans h₂) ((hjudged.doomed rfl).later h₂) rfl

-- ---------------------------------------------------------------------------
-- A directory
-- ---------------------------------------------------------------------------

def Cleared (s₀ : RuntimeDir) (dir : RunDir) (s : RuntimeDir) : Prop := ∀ name, Settled s₀ dir s name

/-- A listing gives the entries there are, and what is due but not among them
is gone. -/
theorem runEntries_ends (base : Place) (dir : RunDir) (hlater : Later s₀ s) :
    Ends besideRuns Spares (Ends.Outcome (Failed s₀) fun names s' =>
      Later s s' ∧ (∀ name ∈ names, s'.Known dir name) ∧ ∀ name ∉ names, Settled s₀ dir s' name)
      s (runEntries base dir) := by
  refine Ends.ask trivial fun r s' he => ?_
  obtain ⟨s₁, hint, he⟩ := he
  have hs₁ : Later s s₁ := .of_meanwhile hint
  have hsettled : ∀ name, ¬ s₁.Present dir name → Settled s₀ dir s₁ name := by
    rintro name hnot ⟨pid, nanos, hmade, -, hname⟩
    by_contra hgone
    exact hnot ⟨⟨_, (hlater.trans hs₁).ever _ hmade, rfl, hname⟩, hgone⟩
  rcases r with (_ | _) | listed
  · obtain ⟨rfl, hnone⟩ := he
    exact ⟨hs₁, by simp, fun name _ => hsettled name (hnone name)⟩
  · exact (show s' = _ from he) ▸ Failed.of_fail (hlater.trans hs₁) _
  · obtain ⟨rfl, hlisted⟩ := he
    exact ⟨hs₁, fun name h => ((hlisted name).mp h).1, fun name h => hsettled name (mt (hlisted name).mpr h)⟩

theorem ends_later {p : PruneAct α} (hseq : p.Sequential) (s : RuntimeDir) :
    Ends besideRuns (fun _ _ => True) (fun _ s' => Later s s') s p :=
  .of_invariant fun _ _ hs => (Prog.Alone.any (p := p.attempt)).invariant hseq.attempt (Later.refl s)
    (fun op r s₁ s' h _ he => by
      obtain ⟨s₂, hint, he⟩ := he
      exact (h.trans (.of_meanwhile hint)).trans (PruneOp.later (r := r) he)) hs

theorem directory_ends (base : Place) (dir : RunDir) {f : String → PruneAct Unit} (hlater : Later s₀ s)
    (hseq : ∀ name, (f name).Sequential)
    (hf : ∀ name s', Later s₀ s' → s'.Known dir name → Ends besideRuns Spares (Done s₀ dir name) s' (f name)) :
    Ends besideRuns Spares
      (Ends.Outcome (Failed s₀) fun _ s' => Later s s' ∧ (Failed s₀ s' ∨ Cleared s₀ dir s')) s
      (do (← runEntries base dir).forM f) := by
  refine .seq (runEntries_ends base dir hlater) fun listed s₁ hlisted => ?_
  obtain ⟨h₁, hknown, hrest⟩ := hlisted
  have hloop : Ends besideRuns Spares (Ends.Outcome (Failed s₀) fun _ s' => Later s₁ s' ∧
      (Failed s₀ s' ∨ ∀ name ∈ listed, Settled s₀ dir s' name)) s₁ (listed.forM f) := by
    refine Ends.forM (J := fun done s' => Later s₁ s' ∧ (Failed s₀ s' ∨ ∀ name ∈ done, Settled s₀ dir s' name))
      ⟨.refl s₁, .inr (by simp)⟩ fun done name rest s₂ hsplit h => ?_
    obtain ⟨h₂, hdone⟩ := h
    have hitem := hf name s₂ ((hlater.trans h₁).trans h₂) ((hknown name (by simp [hsplit])).later h₂)
    refine (hitem.both (ends_later (hseq name) s₂)).weaken fun r s₃ h₃ => ?_
    obtain ⟨hended, hlater₃⟩ := h₃
    cases r with
    | error _ => exact hended
    | ok _ =>
      refine ⟨h₂.trans hlater₃, ?_⟩
      rcases hended.2 with hfailed | hsettled
      · exact .inl hfailed
      · refine hdone.imp (·.later hlater₃) fun hdone n hn => ?_
        rcases List.mem_append.mp hn with hn | hn
        · exact (hdone n hn).later hlater₃
        · exact List.mem_singleton.mp hn ▸ hsettled
  refine hloop.weaken fun r s' h => ?_
  cases r with
  | error _ => exact h
  | ok _ =>
    refine ⟨h₁.trans h.1, h.2.imp_right fun hsettled name => ?_⟩
    by_cases hmem : name ∈ listed
    · exact hsettled name hmem
    · exact (hrest name hmem).later h.1

-- ---------------------------------------------------------------------------
-- The whole
-- ---------------------------------------------------------------------------

theorem pruneRuntime_eq (base : Place) : pruneRuntime base = (do
    (do (← runEntries base .containers).forM pruneContainer)
    (do (← runEntries base .bundles).forM pruneBundle)
    (do (← runEntries base .overlays).forM (pruneOverlay base))) := by
  simp only [pruneRuntime, Prog.bind_assoc]

theorem alive_sequential (pid : Int) : (alive pid).Sequential := by
  unfold alive
  split
  · trivial
  · exact .ask _ _

theorem pruneContainer_sequential (name : String) : (pruneContainer name).Sequential := by
  have hremoved : (Prog.ask (.removeDirAll .containers name) fun _ => .ok () : PruneAct Unit).Sequential :=
    .ask _ _
  unfold pruneContainer
  split
  · trivial
  · refine .bind (alive_sequential _) fun living => ?_
    cases living with
    | true => trivial
    | false =>
      refine .bind (.ask _ _) fun loaded => ?_
      cases loaded with
      | error _ => exact hremoved
      | ok _ =>
        refine .bind (.ask _ _) fun deleted => ?_
        cases deleted with
        | error _ => exact hremoved
        | ok _ => trivial

theorem pruneBundle_sequential (name : String) : (pruneBundle name).Sequential := by
  refine .bind ?_ fun dead => ?_
  · cases pidOf name "climate-" with
    | none => trivial
    | some pid => exact .bind (alive_sequential pid) fun _ => trivial
  · cases dead with
    | true => exact .ask _ _
    | false => trivial

theorem pruneOverlay_sequential (base : Place) (name : String) : (pruneOverlay base name).Sequential := by
  have hmounted : ∀ path, (isMounted path).Sequential := fun _ => .ask _ _
  refine .bind ?_ fun spared => ?_
  · cases pidOf name "" with
    | none => trivial
    | some pid => exact alive_sequential pid
  · cases spared with
    | true => trivial
    | false =>
      refine .bind (.bind (hmounted _) fun mounted => ?_) fun blocked => ?_
      · cases mounted with
        | true =>
          refine .bind (.ask _ _) fun success => ?_
          cases success with
          | true => trivial
          | false => exact hmounted _
        | false => trivial
      · cases blocked with
        | true => trivial
        | false => exact .ask _ _

theorem pruneRuntime_sequential (base : Place) : (pruneRuntime base).Sequential := by
  have hdir : ∀ dir {f : String → PruneAct Unit}, (∀ name, (f name).Sequential) →
      (do (← runEntries base dir).forM f : PruneAct Unit).Sequential := fun dir f hf =>
    .bind (.ask _ _) fun _ => .forM hf
  rw [pruneRuntime_eq]
  exact .bind (hdir _ pruneContainer_sequential) fun _ => .bind (hdir _ pruneBundle_sequential) fun _ =>
    hdir _ (pruneOverlay_sequential base)

theorem pruneRuntime_ends (s₀ : RuntimeDir) (base : Place) :
    Ends besideRuns Spares
      (Ends.Outcome (Failed s₀) fun _ s' => Failed s₀ s' ∨ ∀ dir, Cleared s₀ dir s') s₀ (pruneRuntime base) := by
  have hkeep : ∀ {dir s s'}, Failed s₀ s ∨ Cleared s₀ dir s → Later s s' → Failed s₀ s' ∨ Cleared s₀ dir s' :=
    fun h hlater => h.imp (·.later hlater) fun hcleared name => (hcleared name).later hlater
  rw [pruneRuntime_eq]
  refine .seq (directory_ends base .containers (.refl s₀) pruneContainer_sequential fun _ _ =>
    pruneContainer_ends)
    fun _ s₁ h₁ => ?_
  obtain ⟨h₁, hcontainers⟩ := h₁
  refine .seq (directory_ends base .bundles h₁ pruneBundle_sequential fun _ _ => pruneBundle_ends)
    fun _ s₂ h₂ => ?_
  obtain ⟨h₂, hbundles⟩ := h₂
  refine (directory_ends base .overlays (h₁.trans h₂) (pruneOverlay_sequential base) fun _ _ =>
    pruneOverlay_ends base).weaken fun r s₃ h₃ => ?_
  cases r with
  | error _ => exact h₃
  | ok _ =>
    obtain ⟨h₃, hoverlays⟩ := h₃
    by_cases hfailed : Failed s₀ s₃
    · exact .inl hfailed
    · refine .inr fun dir => ?_
      cases dir with
      | containers => exact (hkeep hcontainers (h₂.trans h₃)).resolve_left hfailed
      | bundles => exact (hkeep hbundles h₃).resolve_left hfailed
      | overlays => exact hoverlays.resolve_left hfailed

theorem Spares.later {op : PruneOp} (h : Spares op s) (hlater : Later s t) : Spares op t := by
  cases op with
  | delete id | removeDirAll dir id => exact Doomed.later h hlater
  | readDir _ | testKill _ | load _ | readMounts | fusermount _ => trivial

theorem Removes.only (h : Removes op dir' name' s r s') (hpresent : s.Present dir name)
    (hgone : ¬ s'.Present dir name) : dir = dir' ∧ name = name' := by
  by_contra hother
  cases r with
  | ok _ =>
    obtain rfl : s' = _ := h
    exact hgone ((RuntimeDir.present_without ..).mpr ⟨hpresent, hother⟩)
  | error _ =>
    rcases h with rfl | rfl
    · exact hgone hpresent
    · exact hgone ((RuntimeDir.present_without ..).mpr ⟨hpresent, hother⟩)

theorem Spares.doomed {op : PruneOp} {r : pruning.Res op} (h : Spares op s) (he : PruneOp.effect op s r s')
    (hpresent : s.Present dir name) (hgone : ¬ s'.Present dir name) : Doomed dir name s := by
  have hsame : s' = s → Doomed dir name s := fun heq => absurd (heq ▸ hpresent) hgone
  cases op with
  | delete id | removeDirAll dir' id =>
    obtain ⟨rfl, rfl⟩ := Removes.only he hpresent hgone
    exact h
  | readDir dir' =>
    rcases r with (_ | _) | _
    · exact hsame he.1
    · exact absurd ((show s' = _ from he) ▸ hpresent) hgone
    · exact hsame he.1
  | testKill pid => exact hsame he.1
  | load id | readMounts => exact hsame he
  | fusermount path =>
    rcases r with _ | _ | _
    · exact absurd ((show s' = _ from he) ▸ hpresent) hgone
    · exact absurd ((show s' = _ from he) ▸ hpresent) hgone
    · exact hsame he

/-- Whatever runs start, go on and end meanwhile, an entry that pruning takes
away has a name that tells a pid, and the process of that pid, if it made the
entry, is no more. If nothing has failed, pruning succeeds and whatever a
process had made that was no more at the start is gone. -/
theorem pruneRuntime_spares_and_clears (base : Place) (s : RuntimeDir) :
    (∀ s₁ p₁ s₂ p₂, Interrupted PruneOp.effect Meanwhile s (pruneRuntime base) s₁ p₁ →
      Step PruneOp.effect s₁ p₁ s₂ p₂ → ∀ dir name, s₁.Present dir name → ¬ s₂.Present dir name →
        (∃ pid, Tells dir.stem name pid) ∧ ∀ pid nanos, .made dir pid nanos ∈ s₁.ever →
          (RunEntry.made dir pid nanos).name = name → pid ∉ s₁.inUse) ∧
    ∀ s' q, Interrupted PruneOp.effect Meanwhile s (pruneRuntime base) s' q → q.ended = true →
      s'.failures = s.failures → q = .ret () ∧ ∀ dir pid nanos, .made dir pid nanos ∈ s.ever → pid ∉ s.inUse →
        ¬ s'.Present dir (RunEntry.made dir pid nanos).name := by
  have hends := pruneRuntime_ends s base
  constructor
  · intro s₁ p₁ s₂ p₂ hrun hstep dir name hpresent hgone
    obtain ⟨t, hint, hop, -⟩ := hrun.ready hends
    have hlater : Later t s₁ := .of_meanwhile hint
    have hseq := hrun.sequential (pruneRuntime_sequential base)
    cases p₁ with
    | call op next =>
      obtain ⟨r, he, -⟩ := Prog.step_call hstep
      have hdoomed := ((hop op next rfl).later hlater).doomed he hpresent hgone
      exact ⟨hdoomed.tells, hdoomed.ended⟩
    | fork _ _ _ _ => exact hseq.elim
    | ret _ | throw _ => cases hstep
  · intro s' q hrun hended hfailures
    obtain ⟨t, hint, -, hret, hthrow⟩ := hrun.ready hends
    have hlater : Later t s' := .of_meanwhile hint
    have hnot : ¬ Failed s t := fun hfailed => by
      have hless := hfailed.later hlater
      rw [Failed, hfailures] at hless
      exact Nat.lt_irrefl _ hless
    cases q with
    | throw e => exact absurd (hthrow e rfl) hnot
    | ret _ =>
      refine ⟨rfl, fun dir pid nanos hmade hdead hpresent => ?_⟩
      have hcleared := (hret _ rfl).resolve_left hnot
      exact hpresent.2 (hlater.gone _ (hcleared dir _ ⟨pid, nanos, hmade, hdead, rfl⟩))
    | call _ _ | fork _ _ _ _ => cases hended

-- ---------------------------------------------------------------------------
-- An abandoned run
-- ---------------------------------------------------------------------------

namespace Abandoned

def listing (s : RuntimeDir) (dir : RunDir) : List String :=
  (s.ever.filter fun e => e.dir = dir ∧ (dir, e.name) ∉ s.gone).map (·.name)

theorem mem_listing (s : RuntimeDir) (dir : RunDir) (name : String) :
    name ∈ listing s dir ↔ s.Present dir name := by
  simp only [listing, List.mem_map, List.mem_filter, decide_eq_true_eq]
  constructor
  · rintro ⟨e, ⟨he, hdir, hgone⟩, rfl⟩
    exact ⟨⟨e, he, hdir, rfl⟩, hgone⟩
  · rintro ⟨⟨e, he, hdir, rfl⟩, hgone⟩
    exact ⟨e, ⟨he, hdir, hgone⟩, rfl⟩

def answer (unreadable : Option RunDir) : (op : PruneOp) → RuntimeDir → Option (op.Res × RuntimeDir)
  | .readDir dir, s => some (if unreadable = some dir then (.error .other, s.fail (.readDir dir))
    else (.ok (listing s dir), s))
  | .testKill pid, s => if ∀ p ∈ s.inUse, (p.val : Int) ≠ pid then some (.error .srch, s) else some (.ok (), s)
  | .load _, s => some (.ok (), s)
  | .delete id, s => some (.ok (), s.without .containers id)
  | .removeDirAll dir id, s => some (.ok (), s.without dir id)
  | .readMounts, s => some (.ok "", s)
  | .fusermount _, s => some (.ok true, s)

def handler (unreadable : Option RunDir) : Handler (I := pruning) PruneOp.effect where
  answer := answer unreadable
  sound {op s r s'} h := by
    cases op with
    | readDir dir =>
      simp only [answer, Option.some.injEq] at h
      split at h
      · cases h
        rfl
      · cases h
        exact ⟨rfl, mem_listing s dir⟩
    | testKill pid =>
      simp only [answer] at h
      split at h
      next hnone =>
        cases h
        exact ⟨rfl, fun _ => ⟨fun _ => hnone, fun _ => rfl⟩⟩
      next hsome =>
        cases h
        exact ⟨rfl, fun _ => ⟨nofun, fun h => absurd h hsome⟩⟩
    | load _ | delete _ | removeDirAll _ _ | readMounts | fusermount _ =>
      cases h
      rfl

def killed : Pid := ⟨5, by decide, by decide⟩

def living : Pid := ⟨6, by decide, by decide⟩

/-- Process 5 was killed, process 6 is running, and two entries are no run's. -/
def crowded : RuntimeDir where
  ever := [.made .containers killed 100, .made .bundles killed 100, .made .overlays killed 99,
    .made .overlays living 200, .other .overlays "lost+found", .other .bundles "climate-"]
  gone := []
  inUse := [living]
  failures := []

def pruned : RuntimeDir × PruneAct Unit := Prog.run (handler none) 40 (crowded, pruneRuntime ["run", "climate"])

def before : RuntimeDir × PruneAct Unit := Prog.run (handler none) 10 (crowded, pruneRuntime ["run", "climate"])

theorem pruneRuntime_spares_and_clears_abandoned :
    (∃ pid, Tells "" "5-99" pid) ∧ killed ∉ before.1.inUse ∧ pruned.2 = .ret () ∧
      ¬ pruned.1.Present .containers "climate-5-100" ∧ ¬ pruned.1.Present .overlays "5-99" := by
  obtain ⟨hspares, hclears⟩ := pruneRuntime_spares_and_clears ["run", "climate"] crowded
  obtain ⟨next, hbefore⟩ : ∃ next, Prog.Steps PruneOp.effect crowded (pruneRuntime ["run", "climate"]) before.1
      (.call (.removeDirAll .overlays "5-99") next) := Prog.run_reaches (handler none) 10 (by decide)
  have hthere : before.1.Present .overlays "5-99" :=
    ⟨⟨.made .overlays killed 99, by decide, rfl, rfl⟩, by decide⟩
  have hstep : Step PruneOp.effect before.1 (.call (.removeDirAll .overlays "5-99") next)
      (before.1.without .overlays "5-99") (next (.ok ())) := .call rfl
  obtain ⟨htells, hended⟩ := hspares _ _ _ _ hbefore.interrupted hstep _ _ hthere (by simp)
  have hpruned := Prog.run_steps (handler none) 40 crowded (pruneRuntime ["run", "climate"])
  obtain ⟨hret, hgone⟩ := hclears pruned.1 pruned.2 hpruned.interrupted (by decide) (by decide)
  exact ⟨htells, hended killed 99 (by decide) rfl, hret, hgone .containers killed 100 (by decide) (by decide),
    hgone .overlays killed 99 (by decide) (by decide)⟩

/-- An overlay with a number for a name and no process of that number. -/
def numbered : RuntimeDir where
  ever := [.other .overlays "12"]
  gone := []
  inUse := []
  failures := []

/-- The number is taken for a pid although no '-' follows, and where a
directory cannot be listed no entry of it or a later one goes. -/
theorem pruneRuntime_numbered_unlisted :
    (∃ s', Interrupted PruneOp.effect Meanwhile numbered (pruneRuntime ["run", "climate"]) s' (.ret ()) ∧
      '-' ∉ "12".toList ∧ numbered.Present .overlays "12" ∧ ¬ s'.Present .overlays "12") ∧
    ∃ s' e, Interrupted PruneOp.effect Meanwhile crowded (pruneRuntime ["run", "climate"]) s' (.throw e) ∧
      s'.failures = [.readDir .overlays] ∧ .made .overlays killed 99 ∈ crowded.ever ∧ killed ∉ crowded.inUse ∧
      s'.Present .overlays (RunEntry.made .overlays killed 99).name := by
  constructor
  · have hsteps := Prog.run_value (handler none) 10 (s := numbered) (p := pruneRuntime ["run", "climate"])
      (a := ()) (by decide)
    exact ⟨_, hsteps.interrupted, by decide, ⟨⟨_, List.mem_singleton_self _, rfl, rfl⟩, by decide⟩, fun h =>
      absurd h.2 (by decide)⟩
  · have hsteps := Prog.run_failure (handler (some .overlays)) 40 (s := crowded)
      (p := pruneRuntime ["run", "climate"]) (e := "reading /run/climate/overlays") (by decide)
    exact ⟨_, _, hsteps.interrupted, by decide, by decide, by decide, ⟨_, by decide, rfl, rfl⟩, by decide⟩

end Abandoned

end Climate.Prune
