import Climate.Lib.FileTree
import Climate.Runtime.Run

/-!
# Deleting an unpacked layer

store.rs's `remove_tree`. A layer keeps the permissions that its image gave
it, so its directories are made writable before anything is deleted.
-/

namespace Climate.LayerTree

open FileTree
open UnixPath (Place)
open Climate.Runtime (display)

variable {t t' : FileTree.Tree} {dir root : Place}

-- ---------------------------------------------------------------------------
-- The program
-- ---------------------------------------------------------------------------

def grantWritable : (fuel : Nat) → Place → FileTree.Act Unit
  | 0, _ => throw .tooDeep
  | fuel + 1, dir => do
    let node ← lstat dir
    chmod dir (node.mode ||| 0o700)
    let entries ← readDir dir
    entries.forM fun entry => if entry.2 then grantWritable fuel (dir ++ [entry.1]) else pure ()

abbrev TreeAct := EStateM String FileTree.Tree

def withContext (message : String) (act : FileTree.Act α) : TreeAct α :=
  EStateM.adaptExcept (fun _ => message) act

def attempt (act : FileTree.Act α) : TreeAct (Except Errno α) := fun t =>
  match act t with
  | .ok a t' => .ok (.ok a) t'
  | .error e t' => .ok (.error e) t'

/-- A tree as deep as `fuel`. -/
def removeTree (fuel : Nat) (path : Place) : TreeAct Unit := do
  let found ← attempt (lstat path)
  match found with
  | .ok node => do
    if node.isDir then withContext s!"preparing {display path} for removal" (grantWritable fuel path)
    withContext s!"removing {display path}" (removeDirAll fuel path)
  | .error .noEntry => return
  | .error _ => throw s!"reading {display path}"

-- ---------------------------------------------------------------------------
-- Granting
-- ---------------------------------------------------------------------------

/-- Every directory there is the user's. -/
def Owned (t : FileTree.Tree) (place : Place) : Prop :=
  ∀ p cls mode, place <+: p → t.node p = some (.dir cls mode) → cls = .owner

/-- What becomes of a directory that is made writable. -/
def granted : FileTree.Node → FileTree.Node
  | .dir cls mode => .dir cls (mode ||| 0o700)
  | node => node

def grant : Option FileTree.Node → Option FileTree.Node := Option.map granted

theorem grant_grant (n : Option FileTree.Node) : grant (grant n) = grant n := by
  rcases n with _ | ⟨cls, mode⟩ | _ | _
  · rfl
  · simp only [grant, granted, Option.map_some, Nat.or_assoc, Nat.or_self]
  · rfl
  · rfl

theorem grant_other {n : Option FileTree.Node} (h : n.any FileTree.Node.isDir = false) : grant n = n := by
  rcases n with _ | ⟨cls, mode⟩ | _ | _
  · rfl
  · cases h
  · rfl
  · rfl

theorem grant_isSome (n : Option FileTree.Node) : (grant n).isSome = n.isSome := Option.isSome_map

theorem dir_of_grant {n : Option FileTree.Node} (h : grant n = some (.dir cls mode)) :
    ∃ mode', n = some (.dir cls mode') ∧ mode = mode' ||| 0o700 := by
  rcases n with _ | ⟨cls', mode'⟩ | _ | _
  · cases h
  · cases h
    exact ⟨mode', rfl, rfl⟩
  · cases h
  · cases h

theorem granted_may (mode : Nat) : mayRead .owner (mode ||| 0o700) = true ∧
    mayWrite .owner (mode ||| 0o700) = true ∧ maySearch .owner (mode ||| 0o700) = true := by
  simp only [mayRead, mayWrite, maySearch, Class.start, Nat.testBit_or, Bool.or_eq_true]
  exact ⟨.inr (by decide), .inr (by decide), .inr (by decide)⟩

section Granted

variable {U : Place → Prop} (h : Becomes grant U t t')

include h

theorem isSome_granted (p : Place) : (t'.node p).isSome = (t.node p).isSome := by
  by_cases hu : U p
  · rw [h.inside p hu, grant_isSome]
  · rw [h.outside p hu]

theorem dir_granted (hdir : t'.node p = some (.dir cls mode)) : ∃ mode', t.node p = some (.dir cls mode') := by
  by_cases hu : U p
  · rw [h.inside p hu] at hdir
    obtain ⟨mode', hdir, -⟩ := dir_of_grant hdir
    exact ⟨mode', hdir⟩
  · exact ⟨mode, h.outside p hu ▸ hdir⟩

theorem owned_granted (howned : Owned t place) : Owned t' place := by
  intro p cls mode hbelow hdir
  obtain ⟨mode', hdir⟩ := dir_granted h hdir
  exact howned p cls mode' hbelow hdir

theorem names_granted (place : Place) (name : String) : name ∈ t'.names place ↔ name ∈ t.names place := by
  rw [FileTree.Tree.mem_names, FileTree.Tree.mem_names, isSome_granted h]

end Granted

theorem becomes_setMode (hdir : t.node dir = some (.dir cls mode)) :
    Becomes grant (· = dir) t (t.setMode dir (mode ||| 0o700)) where
  inside p hp := by
    subst hp
    rw [FileTree.Tree.node_setMode, if_pos rfl, hdir]
    rfl
  outside p hp := by rw [FileTree.Tree.node_setMode, if_neg hp]

theorem grantWritable_ok {fuel : Nat} (hopen : t.Open dir) (hdir : t.node dir = some (.dir cls mode))
    (howned : Owned t dir) (hdeep : ∀ p, (t.node p).isSome = true → p.length < dir.length + fuel) :
    ∃ t', (grantWritable fuel dir).run t = .ok () t' ∧ Becomes grant (dir <+: ·) t t' := by
  induction fuel generalizing t dir cls mode with
  | zero =>
    have := hdeep _ (Option.isSome_of_eq_some hdir)
    omega
  | succ fuel ih =>
    obtain rfl := howned dir cls mode List.prefix_rfl hdir
    have hset := becomes_setMode hdir
    have hmay := granted_may mode
    have hdir₁ : (t.setMode dir (mode ||| 0o700)).node dir = some (.dir .owner (mode ||| 0o700)) := by
      rw [hset.inside dir rfl, hdir]
      rfl
    have hopen₁ : (t.setMode dir (mode ||| 0o700)).Open dir :=
      hopen.congr fun place _ hne => hset.outside place hne
    have hchmod := chmod_real hopen hdir rfl (mode ||| 0o700)
    generalize t.setMode dir (mode ||| 0o700) = t₁ at hset hdir₁ hopen₁ hchmod
    obtain ⟨t', hloop, hall⟩ := forM_children (g := grant) (t := t₁) dir
      (fun entry => if entry.2 then grantWritable fuel (dir ++ [entry.1]) else pure ()) grant_grant
      fun child n done tk hnew hdone hnk hkind => by
        rw [hkind]
        cases hisDir : n.isDir with
        | true =>
          obtain ⟨cls', mode', rfl⟩ := FileTree.Node.isDir_iff.mp hisDir
          have hsearch : tk.search dir = .ok () := by
            rw [search_congr (hdone.outside dir (not_under_above List.prefix_rfl _))]
            exact FileTree.Tree.search_of_dir hdir₁ hmay.2.2
          have hopenk : tk.Open dir :=
            hopen₁.congr fun place hbefore _ => hdone.outside place (not_under_above hbefore _)
          refine ih (hopenk.child hsearch child.1) hnk ?_ fun p hp => ?_
          · intro p cls mode hbelow hp
            exact owned_granted hdone (owned_granted hset howned) p cls mode
              ((List.prefix_append ..).trans hbelow) hp
          · rw [isSome_granted hdone, isSome_granted hset] at hp
            have := hdeep p hp
            rw [List.length_append, List.length_singleton]
            omega
        | false =>
          have hnot : (tk.node (dir ++ [child.1])).any FileTree.Node.isDir = false := by
            rw [hnk]
            exact hisDir
          have hnowhere : Becomes grant (fun _ => False) tk tk := .refl grant tk fun _ => id
          refine ⟨tk, rfl, hnowhere.widen (fun _ h => h.elim) fun p hbelow _ => ?_⟩
          by_cases hp : p = dir ++ [child.1]
          · rw [hp, grant_other hnot]
          · rw [FileTree.Tree.node_below hnot hbelow hp]
            rfl
    refine ⟨t', ?_, ?_⟩
    · rw [grantWritable, run_bind_ok (lstat_real hopen hdir), FileTree.Node.mode, run_bind_ok hchmod,
        run_bind_ok (readDir_real hopen₁ hdir₁ hmay.1 hmay.2.2)]
      exact hloop
    · refine Becomes.all rfl ((hset.trans grant_grant hall).congr fun p => ?_)
      simp only [Under, names_granted hset]
      exact Or.comm

theorem pliant_granted (howned : Owned t place) (h : Becomes grant (place <+: ·) t t') : t'.Pliant place := by
  intro p cls mode hbelow hdir
  rw [h.inside p hbelow] at hdir
  obtain ⟨mode', hbefore, rfl⟩ := dir_of_grant hdir
  obtain rfl := howned p cls mode' hbelow hbefore
  exact granted_may mode'

-- ---------------------------------------------------------------------------
-- The whole removal
-- ---------------------------------------------------------------------------

theorem run_withContext {message : String} {act : FileTree.Act α} (h : act.run t = .ok a t') :
    (withContext message act).run t = .ok a t' := by
  change EStateM.adaptExcept _ act t = _
  rw [EStateM.adaptExcept, show act t = .ok a t' from h]

theorem run_withContext_error {message : String} {act : FileTree.Act α} (h : act.run t = .error e t') :
    (withContext message act).run t = .error message t' := by
  change EStateM.adaptExcept _ act t = _
  rw [EStateM.adaptExcept, show act t = .error e t' from h]

theorem run_attempt {act : FileTree.Act α} (h : act.run t = .ok a t') :
    (attempt act).run t = .ok (.ok a) t' := by
  change attempt act t = _
  rw [attempt, show act t = .ok a t' from h]

theorem run_attempt_error {act : FileTree.Act α} (h : act.run t = .error e t') :
    (attempt act).run t = .ok (.error e) t' := by
  change attempt act t = _
  rw [attempt, show act t = .error e t' from h]

theorem removeTree_dir {fuel : Nat} (hopen : t.Open (parent ++ [name])) (halter : t.alter parent = .ok ())
    (hdir : t.node (parent ++ [name]) = some (.dir cls mode)) (howned : Owned t (parent ++ [name]))
    (hdeep : t.depth < fuel) :
    ∃ t', (removeTree fuel (parent ++ [name])).run t = .ok () t' ∧
      Becomes (fun _ => none) (parent ++ [name] <+: ·) t t' := by
  have hfuel : ∀ p, (t.node p).isSome = true → p.length < (parent ++ [name]).length + fuel := fun p hp => by
    have := FileTree.Tree.length_le_depth hp
    omega
  have habove : ∀ place, place <+: parent ++ [name] → place ≠ parent ++ [name] → ¬ parent ++ [name] <+: place :=
    fun place hbefore hne hbelow => hne (hbefore.eq_of_length_le hbelow.length_le)
  obtain ⟨t₁, hgrant, hgranted⟩ := grantWritable_ok hopen hdir howned hfuel
  have hdir₁ : t₁.node (parent ++ [name]) = some (.dir cls (mode ||| 0o700)) := by
    rw [hgranted.inside _ List.prefix_rfl, hdir]
    rfl
  have hparent : t₁.node parent = t.node parent :=
    hgranted.outside parent (habove parent (List.prefix_append ..) (by simp))
  obtain ⟨t', hremove, hremoved⟩ := removeDirAll_dir
    (hopen.congr fun place hbefore hne => hgranted.outside place (habove place hbefore hne))
    ((alter_congr hparent).trans halter) hdir₁ (pliant_granted howned hgranted)
    fun p hp => hfuel p (isSome_granted hgranted p ▸ hp)
  refine ⟨t', ?_, fun p hp => hremoved.inside p hp,
    fun p hp => (hremoved.outside p hp).trans (hgranted.outside p hp)⟩
  rw [removeTree, run_bind_ok (run_attempt (lstat_real hopen hdir))]
  exact (run_bind_ok (run_withContext hgrant)).trans (run_withContext hremove)

theorem removeTree_link (fuel : Nat) (hopen : t.Open (parent ++ [name])) (halter : t.alter parent = .ok ())
    (hlink : t.node (parent ++ [name]) = some (.link absolute target)) :
    ∃ t', (removeTree fuel (parent ++ [name])).run t = .ok () t' ∧
      Becomes (fun _ => none) (parent ++ [name] <+: ·) t t' := by
  obtain ⟨t', hremove, hremoved⟩ := removeDirAll_link fuel hopen halter hlink
  refine ⟨t', ?_, hremoved⟩
  rw [removeTree, run_bind_ok (run_attempt (lstat_real hopen hlink))]
  exact run_withContext hremove

theorem removeTree_missing (fuel : Nat) (hopen : t.Open root) (hnone : t.node root = none) :
    (removeTree fuel root).run t = .ok () t := by
  rw [removeTree, run_bind_ok (run_attempt_error (lstat_missing hopen hnone))]
  rfl

/-- A file is not removed, and the failure is reported. -/
theorem removeTree_file (fuel : Nat) (hopen : t.Open (parent ++ [name]))
    (hfile : t.node (parent ++ [name]) = some (.file cls mode content)) :
    (removeTree (fuel + 1) (parent ++ [name])).run t = .error s!"removing {display (parent ++ [name])}" t := by
  rw [removeTree, run_bind_ok (run_attempt (lstat_real hopen hfile))]
  exact run_withContext_error (removeDirAll_file fuel hopen hfile)

/-- What is removed is all that is there, be it writable or not. -/
theorem removeTree_removes (t : FileTree.Tree) (parent : Place) (name : String) (fuel : Nat)
    (hopen : t.Open (parent ++ [name])) (hdeep : t.depth < fuel) :
    (t.node (parent ++ [name]) = none → (removeTree fuel (parent ++ [name])).run t = .ok () t) ∧
    ∀ n, t.node (parent ++ [name]) = some n → n.isDir = true ∨ n.isLink = true → t.alter parent = .ok () →
      Owned t (parent ++ [name]) → ∃ t', (removeTree fuel (parent ++ [name])).run t = .ok () t' ∧
        (∀ p, parent ++ [name] <+: p → t'.node p = none) ∧
        ∀ p, ¬ parent ++ [name] <+: p → t'.node p = t.node p := by
  refine ⟨removeTree_missing fuel hopen, fun n hn hkind halter howned => ?_⟩
  suffices h : ∃ t', (removeTree fuel (parent ++ [name])).run t = .ok () t' ∧
      Becomes (fun _ => none) (parent ++ [name] <+: ·) t t' by
    obtain ⟨t', hrun, hbecomes⟩ := h
    exact ⟨t', hrun, hbecomes.inside, hbecomes.outside⟩
  cases n with
  | dir cls mode => exact removeTree_dir hopen halter hn howned hdeep
  | link absolute target => exact removeTree_link fuel hopen halter hn
  | file _ _ _ => rcases hkind with hkind | hkind <;> cases hkind

-- ---------------------------------------------------------------------------
-- A layer that shuts its owner out
-- ---------------------------------------------------------------------------

namespace ShutLayer

def nodes : Nodes where
  entries := [⟨[], .dir .other 0o755⟩, ⟨["data"], .dir .owner 0o700⟩, ⟨["data", "keep"], .dir .owner 0o500⟩,
    ⟨["data", "layer"], .dir .owner 0o000⟩, ⟨["data", "layer", "etc"], .dir .owner 0o055⟩,
    ⟨["data", "layer", "etc", "shadow"], .file .owner 0o000 ""⟩,
    ⟨["data", "layer", "inside"], .link false [.normal "etc"]⟩,
    ⟨["data", "layer", "outside"], .link true [.normal "data", .normal "keep"]⟩,
    ⟨["data", "layer", "dangling"], .link false [.parent, .normal "none"]⟩]
  nodupKeys := by
    unfold List.NodupKeys
    decide

def tree : FileTree.Tree := ⟨nodes, FileTree.Tree.above_of_keys (by decide)⟩

theorem tree_owned : Owned tree ["data", "layer"] := by
  intro p cls mode hbelow hdir
  have hmem : ⟨p, .dir cls mode⟩ ∈ tree.nodes.entries := AList.mem_lookup_iff.mp hdir
  simp only [tree, nodes, List.mem_cons, List.not_mem_nil, or_false] at hmem
  rcases hmem with heq | heq | heq | heq | heq | heq | heq | heq | heq <;> cases heq
  · exact absurd hbelow (by decide)
  · rfl
  · rfl
  · rfl
  · rfl

theorem removeTree_removes_shut : (removeTree 9 ["data", "gone"]).run tree = .ok () tree ∧
    ∃ t', (removeTree 9 ["data", "layer"]).run tree = .ok () t' ∧
      (∀ p, ["data", "layer"] <+: p → t'.node p = none) ∧
      ∀ p, ¬ ["data", "layer"] <+: p → t'.node p = tree.node p :=
  ⟨(removeTree_removes tree ["data"] "gone" 9 (FileTree.Tree.open_of_inits (by decide)) (by decide)).1
    (by decide),
    (removeTree_removes tree ["data"] "layer" 9 (FileTree.Tree.open_of_inits (by decide)) (by decide)).2
      (.dir .owner 0o000) (by decide) (.inl rfl) (by decide) tree_owned⟩

end ShutLayer

end Climate.LayerTree
