import Climate.Apps.Mirror

/-!
# Syncs cut short

What the next sync makes of what an interrupted one left. It goes through if
the URL of the remote was recorded, or no repository made yet. It restores the
files that the interrupted sync had not checked out where the local branch's
tree, which may have moved on already, is different from the new one.
-/

namespace Climate.Apps

variable {grit : Grit}

/-- What syncs can leave, each of which ran to its end, failed or was killed
after any of its operations. -/
inductive Reached (grit : Grit) (target : String) : Target → Prop
  | start : Reached grit target {}
  | sync {around : Surroundings} : Reached grit target t →
      Prog.Steps (Op.effect grit around) t (sync grit target) t' p → Reached grit target t'

theorem Reached.sound (h : Reached grit target t) : t.Sound := by
  induction h with
  | start => exact Target.sound_empty
  | sync _ hs ih => exact ih.steps hs

def Reachable (grit : Grit) (around : Surroundings) (t : Target) : Prop :=
  ∀ url, t.syncUrl around = some url → Supported grit url

def Recovers (grit : Grit) (around : Surroundings) (target : String) (t : Target) : Prop :=
  Prog.Returns (calm grit around) (fun _ _ => True) t (sync grit target) ∧
    ∀ t' counts, Prog.Steps (Op.effect grit around) t (sync grit target) t' (.ret counts) →
      t'.work.Same (around.upstream.tree grit)

/-- The remote's URL was not lost, and no file that is out of date is one on
which the local branch and the new tip agree. -/
def Recoverable (grit : Grit) (around : Surroundings) (t : Target) : Prop :=
  t.Located ∧
    Files.Unmissed (t.branchTree grit around.upstream.default) (around.upstream.tree grit) t.work

theorem recovers_iff (h : Reached grit target t) (hreach : Reachable grit around t) :
    Recovers grit around target t ↔ Recoverable grit around t := by
  constructor
  · rintro ⟨hreturns, hsame⟩
    obtain ⟨t', counts, hs, -⟩ := hreturns.steps
    obtain ⟨hlocated, hsynced⟩ := sync_returned hs
    exact ⟨hlocated, hsynced.work.same_iff.mp (hsame t' counts hs)⟩
  · rintro ⟨hlocated, hunmissed⟩
    refine ⟨sync_finds h.sound hlocated hreach, fun t' counts hs => ?_⟩
    exact (sync_returned hs).2.work.same_iff.mpr hunmissed

-- ---------------------------------------------------------------------------
-- Cuts of the first sync
-- ---------------------------------------------------------------------------

def cutAfter (n : Nat) : Target := (Prog.run (calm twoApps bothApps) n ({}, sync twoApps "apps")).1

theorem reached_cut (n : Nat) : Reached twoApps "apps" (cutAfter n) :=
  .sync .start (Prog.run_steps (calm twoApps bothApps) n {} _)

theorem recovers_iff_head_written : Recovers twoApps bothApps "apps" (cutAfter 10) := by
  refine (recovers_iff (reached_cut 10) fun url hurl => ?_).mpr ⟨.inr ⟨defaultAppsUrl, ?_⟩, ?_⟩
  · have hlocated : (cutAfter 10).syncUrl bothApps = some defaultAppsUrl := by rfl
    cases hlocated.symm.trans hurl
    exact .inr (.inr (by rfl))
  · rfl
  · have hbranch : (cutAfter 10).branch "main" = none := by rfl
    have hwork : (cutAfter 10).work = ∅ := AList.ext (by rfl)
    have htree : (cutAfter 10).branchTree twoApps "main" = ∅ := by rw [Target.branchTree, hbranch]; rfl
    exact .of_same fun path => by rw [hwork]; exact (congrArg (AList.lookup path) htree).symm

/-- Killed after writing the ref, the next sync returns and leaves the files
missing; killed after making the repository, every later sync fails. -/
theorem cut_sync_never_recovers :
    (Reached twoApps "apps" (cutAfter 11) ∧
      (syncCalmly twoApps bothApps (cutAfter 11)).2.finished = true ∧
        ¬ (syncCalmly twoApps bothApps (cutAfter 11)).1.work.Same (bothApps.upstream.tree twoApps)) ∧
      Reached twoApps "apps" (cutAfter 5) ∧
        (syncCalmly twoApps bothApps (cutAfter 5)).2.failure =
          some "the apps repository has no remote.origin.url" := by
  refine ⟨⟨reached_cut 11, by rfl, fun h => ?_⟩, reached_cut 5, by rfl⟩
  have hsame := h "j/jq.toml"
  revert hsame
  decide

end Climate.Apps
