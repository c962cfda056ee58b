import Climate.Apps.Calm

/-!
# Histories of syncs

What a history of syncs leaves in the working tree. The tree to compare with is
looked up through the local branch named after the remote's default one, so a
sync is right about the paths that branch had when it was last synced. The
working tree is the upstream's after every sync exactly if none of them misses
a path on which that tree and the new one agree.
-/

namespace Climate.Apps

variable {grit : Grit}

/-- The target after a history of syncs, the last one first. -/
def current : List (Surroundings × Target) → Target
  | [] => {}
  | (_, t) :: _ => t

/-- Syncs one after another from an empty directory, each of which returns,
with what was around at each and what it left. -/
inductive History (grit : Grit) (target : String) : List (Surroundings × Target) → Prop
  | start : History grit target []
  | sync : History grit target h →
      Prog.Steps (Op.effect grit around) (current h) (sync grit target) t (.ret counts) →
      History grit target ((around, t) :: h)

def latestTree (grit : Grit) : List Upstream → Tree
  | [] => ∅
  | up :: _ => up.tree grit

def latestTreeOf (grit : Grit) (name : String) : List Upstream → Tree
  | [] => ∅
  | up :: earlier => if name = up.default then up.tree grit else latestTreeOf grit name earlier

/-- At each sync, a path on which the new tree agrees with the one last synced
under the same default branch was not different in the tree last synced. -/
def NothingMissed (grit : Grit) : List Upstream → Prop
  | [] => True
  | up :: earlier => NothingMissed grit earlier ∧
      Files.Unmissed (latestTreeOf grit up.default earlier) (up.tree grit) (latestTree grit earlier)

def upstreams (h : List (Surroundings × Target)) : List Upstream := h.map (·.1.upstream)

def Mirrors (grit : Grit) (h : List (Surroundings × Target)) : Prop :=
  ∀ around t, (around, t) ∈ h → t.work.Same (around.upstream.tree grit)

theorem branchTree_current (h : History grit target hist) (name : String) :
    (current hist).branchTree grit name = latestTreeOf grit name (upstreams hist) := by
  induction h with
  | start => rfl
  | @sync hist around t counts _ hs ih =>
    have hbranch := (sync_returned hs).2.branch name
    simp only [current, upstreams, List.map_cons, latestTreeOf]
    by_cases heq : name = around.upstream.default
    · rw [if_pos heq, Target.branchTree, hbranch, if_pos heq]
      rfl
    · rw [if_neg heq, Target.branchTree, hbranch, if_neg heq]
      exact ih

theorem Mirrors.current_work (h : Mirrors grit hist) :
    (current hist).work.Same (latestTree grit (upstreams hist)) := by
  cases hist with
  | nil => exact fun _ => rfl
  | cons e hist => exact h e.1 e.2 (by simp)

theorem mirrors_cons : Mirrors grit ((around, t) :: hist) ↔
    Mirrors grit hist ∧ t.work.Same (around.upstream.tree grit) := by
  constructor
  · exact fun h => ⟨fun a u hmem => h a u (List.mem_cons_of_mem _ hmem), h around t (by simp)⟩
  · rintro ⟨hrest, hlast⟩ a u hmem
    rcases List.mem_cons.mp hmem with heq | hmem
    · cases heq
      exact hlast
    · exact hrest a u hmem

/-- The working tree follows the upstream through a history of syncs exactly
if no sync of it misses anything. -/
theorem history_mirrors_iff (h : History grit target hist) :
    Mirrors grit hist ↔ NothingMissed grit (upstreams hist) := by
  induction h with
  | start => exact ⟨fun _ => trivial, fun _ _ _ h => by cases h⟩
  | @sync hist around t counts hprev hs ih =>
    have hwork := (sync_returned hs).2.work
    rw [branchTree_current hprev] at hwork
    rw [mirrors_cons, hwork.same_iff, ih]
    simp only [upstreams, List.map_cons, NothingMissed]
    refine and_congr_right fun hmissed => ?_
    exact Files.Unmissed.congr (fun _ => rfl) (ih.mpr hmissed).current_work

theorem nothingMissed_of_one_branch (h : ∀ up ∈ ups, up.default = name) : NothingMissed grit ups := by
  induction ups with
  | nil => trivial
  | cons up earlier ih =>
    refine ⟨ih fun other hmem => h other (List.mem_cons_of_mem _ hmem), ?_⟩
    have hsame : latestTreeOf grit up.default earlier = latestTree grit earlier := by
      cases earlier with
      | nil => rfl
      | cons last earlier =>
        have heq : up.default = last.default :=
          (h up (by simp)).trans (h last (by simp)).symm
        rw [latestTreeOf, if_pos heq, latestTree]
    rw [hsame]
    exact .of_same fun _ => rfl

-- ---------------------------------------------------------------------------
-- A default branch that is renamed
-- ---------------------------------------------------------------------------

def twoApps : Grit where
  commit oid :=
    if oid = "c1" then ⟨((∅ : Tree).insert "x/xh.toml" "xh").insert "j/jq.toml" "jq"⟩
    else ⟨(∅ : Tree).insert "x/xh.toml" "xh"⟩
  isSshUrl _ := false

def bothApps : Surroundings where
  upstream := { branches := [("main", "c1")], default := "main", tip := "c1", advertised := rfl }

def oneApp : Surroundings where
  upstream := { branches := [("main", "c2")], default := "main", tip := "c2", advertised := rfl }

def oneAppRenamed : Surroundings where
  upstream := {
    branches := [("main", "c1"), ("trunk", "c2")], default := "trunk", tip := "c2", advertised := rfl }

def syncCalmly (grit : Grit) (around : Surroundings) (t : Target) : Target × Act SyncCounts :=
  Prog.run (calm grit around) 40 (t, sync grit "apps")

def calmHistory (grit : Grit) : List Surroundings → List (Surroundings × Target)
  | [] => []
  | around :: earlier =>
    (around, (syncCalmly grit around (current (calmHistory grit earlier))).1) :: calmHistory grit earlier

theorem history_calm (h : History grit "apps" (calmHistory grit earlier))
    (hret : (syncCalmly grit around (current (calmHistory grit earlier))).2.finished = true) :
    History grit "apps" (calmHistory grit (around :: earlier)) := by
  have hsteps := Prog.run_steps (calm grit around) 40 (current (calmHistory grit earlier)) (sync grit "apps")
  change Prog.Steps _ _ _ _ (syncCalmly grit around (current (calmHistory grit earlier))).2 at hsteps
  cases hprog : (syncCalmly grit around (current (calmHistory grit earlier))).2 with
  | ret counts =>
    rw [hprog] at hsteps
    exact History.sync h hsteps
  | throw _ | call _ _ | fork _ _ _ _ => rw [hprog] at hret; cases hret

theorem history_deleted : History twoApps "apps" (calmHistory twoApps [oneApp, bothApps]) :=
  history_calm (history_calm .start (by rfl)) (by rfl)

theorem history_mirrors_iff_deleted : Mirrors twoApps (calmHistory twoApps [oneApp, bothApps]) :=
  (history_mirrors_iff history_deleted).mpr
    (nothingMissed_of_one_branch fun up hmem => by
      simp only [upstreams, calmHistory, List.map_cons, List.map_nil, List.mem_cons,
        List.not_mem_nil, or_false] at hmem
      rcases hmem with rfl | rfl <;> rfl)

/-- The branch is renamed and an app deleted at the same time: the local
branch of the new name does not exist, and the app's file stays. -/
theorem renamed_branch_keeps_deleted :
    History twoApps "apps" (calmHistory twoApps [oneAppRenamed, bothApps]) ∧
      ¬ Mirrors twoApps (calmHistory twoApps [oneAppRenamed, bothApps]) := by
  refine ⟨history_calm (history_calm .start (by rfl)) (by rfl), fun h => ?_⟩
  have hsame := h oneAppRenamed _ (by exact List.mem_cons_self ..) "j/jq.toml"
  revert hsame
  decide

end Climate.Apps
