import Climate.Runtime.Run
import Climate.Spec.Landing

/-!
# The stub layer

What `materialise_stub` creates and writes to stays in the stub exactly if no
mount's path climbs out of it. Paths are followed as the kernel follows them,
`..` leading to the parent.
-/

namespace Climate.Runtime

open UnixPath

-- ---------------------------------------------------------------------------
-- Paths that stay
-- ---------------------------------------------------------------------------

/-- The overlay's other directory, which the image is mounted onto. -/
def besideStub (stub : Place) : Place := stub.dropLast ++ ["merged"]

/-- In the stub, or one of the directories that were there before it. -/
def Harmless (stub place : Place) : Prop := stub <+: place ∨ place <+: stub ∨ place = besideStub stub

/-- Every place a path passes on its way from the stub. -/
def StaysIn (stub : Place) (relative : List Component) : Prop :=
  ∀ place ∈ walk stub relative, Harmless stub place

instance : Decidable (Harmless stub place) := inferInstanceAs (Decidable (_ ∨ _))

instance : Decidable (StaysIn stub relative) := inferInstanceAs (Decidable (∀ place ∈ _, _))

theorem StaysIn.start (h : StaysIn stub relative) (hl : l <+: relative) : StaysIn stub l := by
  obtain ⟨rest, rfl⟩ := hl
  intro place hmem
  exact h place (by rw [walk_append]; exact List.mem_append_left _ hmem)

theorem walk_concat (l : List Component) (c : Component) :
    walk place (l ++ [c]) = walk place l ++ [c.from (resolve place l)] := walk_append place l [c]

theorem resolve_harmless (h : StaysIn stub relative) : Harmless stub (resolve stub relative) := by
  rcases List.eq_nil_or_concat relative with rfl | ⟨l, c, rfl⟩
  · exact .inl (List.prefix_refl stub)
  · rw [List.concat_eq_append] at h ⊢
    rw [resolve_concat]
    exact h _ (by simp [walk_concat])

theorem fileAt_harmless (h : StaysIn stub relative) (hfile : fileAt stub relative = some place) :
    Harmless stub place := by
  have heq : place = resolve stub relative := by
    unfold fileAt at hfile
    split at hfile
    · exact (Option.some.inj hfile).symm
    · cases hfile
  exact heq ▸ resolve_harmless h

theorem ancestry_harmless (h : place ∈ ancestry stub) : Harmless stub place :=
  .inr (.inl (mem_ancestry.mp h).1)

theorem dirsOf_harmless (h : StaysIn stub relative) (hmem : place ∈ dirsOf stub relative) :
    Harmless stub place := by
  rcases List.mem_append.mp hmem with hmem | hmem
  · exact ancestry_harmless hmem
  · exact h place hmem

-- ---------------------------------------------------------------------------
-- The directories around a stub
-- ---------------------------------------------------------------------------

/-- What `Mount::new` has made before the stub. -/
structure LaidOut (stub : Place) (m : Machine) : Prop where
  above : ∀ place, place <+: stub → place ≠ stub → m.isDir place = true
  beside : m.isDir (besideStub stub) = true

theorem LaidOut.there (h : LaidOut stub m) (hplace : Harmless stub place) :
    stub <+: place ∨ m.isDir place = true := by
  rcases hplace with hin | habove | rfl
  · exact .inl hin
  · by_cases heq : place = stub
    · exact .inl (heq ▸ List.prefix_refl place)
    · exact .inr (h.above place habove heq)
  · exact .inr h.beside

theorem LaidOut.mono (h : LaidOut stub m) (hm : ∀ place, m.isDir place = true → m'.isDir place = true) :
    LaidOut stub m' :=
  ⟨fun place hp hne => hm place (h.above place hp hne), hm _ h.beside⟩

theorem isDir_has {m : Machine} (h : m.isDir place = true) : m.has place = true := by
  rw [Machine.isDir, decide_eq_true_iff] at h
  rw [Machine.has, h]
  rfl

theorem isDir_put {m : Machine} (h : m.isDir place = true) (hne : place ≠ other) :
    (m.put other e).isDir place = true := by
  rw [Machine.isDir, decide_eq_true_iff] at h ⊢
  by_cases hroot : place = []
  · simp [Machine.entry, hroot]
  · rw [Machine.put_entry m other e hroot, if_neg hne, h]

theorem isDir_makeDir {m : Machine} (h : m.isDir place = true) : (m.makeDir other).isDir place = true := by
  unfold Machine.makeDir
  split
  · exact h
  next hnot => exact isDir_put h fun heq => hnot (heq ▸ isDir_has h)

theorem isDir_makeDirs {m : Machine} (h : m.isDir place = true) (l : List Place) :
    (m.makeDirs l).isDir place = true := by
  induction l generalizing m with
  | nil => exact h
  | cons other rest ih => exact ih (isDir_makeDir h)

theorem written_makeDirs {m : Machine} {l : List Place} (h : place ∈ (m.makeDirs l).written) :
    place ∈ m.written ∨ place ∈ l ∧ m.has place = false := by
  induction l generalizing m with
  | nil => exact .inl h
  | cons made rest ih =>
    rcases ih (m := m.makeDir made) h with hfirst | ⟨hrest, hnot⟩
    · unfold Machine.makeDir at hfirst
      split at hfirst
      · exact .inl hfirst
      next hmade =>
        rcases List.mem_cons.mp hfirst with rfl | hfirst
        · exact .inr ⟨by simp, by simpa using hmade⟩
        · exact .inl hfirst
    · refine .inr ⟨List.mem_cons_of_mem _ hrest, ?_⟩
      rw [Bool.eq_false_iff] at hnot ⊢
      exact fun hthere => hnot ((Machine.has_makeDir m made).mpr (.inr hthere))

/-- Whatever is created or written to, from wherever the stub is laid out,
lies in the stub. -/
def Confined (stub : Place) (points : List MountPoint) : Prop :=
  ∀ m m' p', LaidOut stub m → Prog.Steps RunOp.effect m (materialiseStub stub points) m' p' →
    ∀ place ∈ m'.written, place ∈ m.written ∨ stub <+: place

/-- An operation on places that stay. -/
def Staying (stub : Place) : RunOp → Prop
  | .createDirAll dir relative => ∀ place ∈ dirsOf dir relative, Harmless stub place
  | .write dir relative _ => ∀ place, fileAt dir relative = some place → Harmless stub place
  | _ => False

theorem materialise_only (h : StaysIn stub (components point.path)) :
    (materialise stub point).Only (Staying stub) := by
  unfold materialise
  dsimp only
  split
  · refine .bind (.ask ?_) fun _ => .ask fun place hfile => fileAt_harmless h hfile
    unfold parentOf
    split
    · intro place hmem
      rw [dirsOf, walk, List.append_nil, mem_ancestry] at hmem
      exact .inr (.inl (hmem.1.trans (List.dropLast_prefix stub)))
    · exact fun place hmem => dirsOf_harmless (h.start (List.dropLast_prefix _)) hmem
  · exact .ask fun place hmem => dirsOf_harmless h hmem

theorem materialise_sequential : (materialise stub point).Sequential := by
  unfold materialise
  dsimp only
  split
  · exact .bind (.ask _ _) fun _ => .ask _ _
  · exact .ask _ _

theorem materialiseStub_sequential : (materialiseStub stub points).Sequential :=
  .forM fun _ => materialise_sequential

/-- The stub is still laid out, and nothing was written to outside it. -/
structure Kept (stub : Place) (m m' : Machine) : Prop where
  laidOut : LaidOut stub m'
  inside : ∀ place ∈ m'.written, place ∈ m.written ∨ stub <+: place

theorem Kept.makeDirs (h : Kept stub m m₁) (hl : ∀ place ∈ l, Harmless stub place) :
    Kept stub m (m₁.makeDirs l) := by
  refine ⟨h.laidOut.mono fun _ hdir => isDir_makeDirs hdir l, fun place hmem => ?_⟩
  rcases written_makeDirs hmem with hold | ⟨hmade, hnot⟩
  · exact h.inside place hold
  · rcases h.laidOut.there (hl place hmade) with hin | hdir
    · exact .inr hin
    · rw [isDir_has hdir] at hnot
      cases hnot

theorem Kept.fills (h : Kept stub m m₁) (hf : m₁.Fills dir relative contents m₂)
    (hfile : ∀ place, fileAt dir relative = some place → Harmless stub place) : Kept stub m m₂ := by
  obtain ⟨place, hplace, hnot, rfl⟩ := hf
  refine ⟨h.laidOut.mono fun other hdir => isDir_put hdir ?_, fun other hmem => ?_⟩
  · rintro rfl
    rw [hdir] at hnot
    cases hnot
  · rcases List.mem_cons.mp hmem with rfl | hmem
    · rcases h.laidOut.there (hfile _ hplace) with hin | hdir
      · exact .inr hin
      · rw [hdir] at hnot
        cases hnot
    · exact h.inside other hmem

theorem Kept.step (h : Kept stub m m₁) (hop : Staying stub op) (he : RunOp.effect op m₁ r m₂) :
    Kept stub m m₂ := by
  cases op with
  | createDirAll dir relative =>
    cases r with
    | ok _ =>
      obtain rfl := he
      exact h.makeDirs hop
    | error made =>
      obtain ⟨-, rfl⟩ := he
      exact h.makeDirs fun place hmem => hop place (List.mem_of_mem_take hmem)
  | write dir relative contents =>
    cases r with
    | ok _ => exact h.fills he hop
    | error _ =>
      rcases he with rfl | ⟨part, hf⟩
      · exact h
      · exact h.fills hf hop
  | _ => exact hop.elim

theorem confined (h : ∀ point ∈ points, StaysIn stub (components point.path)) : Confined stub points := by
  intro m m' p' hlaid hs
  have honly : (materialiseStub stub points).Only fun op => Staying stub op :=
    .forM fun point hmem => materialise_only (h point hmem)
  have halone : Prog.Alone RunOp.effect (fun op _ => Staying stub op) (fun _ _ => True) m
      (materialiseStub stub points) := .only (honly.imp fun op hop _ => hop)
  have hkept : Kept stub m m' := halone.invariant materialiseStub_sequential ⟨hlaid, fun _ => .inl⟩
    (fun op r s s' hi hpre he => hi.step hpre he) hs
  exact hkept.inside

-- ---------------------------------------------------------------------------
-- Paths that climb do harm
-- ---------------------------------------------------------------------------

def bare (stub : Place) : Machine := ({} : Machine).makeDirs (besideStub stub :: ancestry stub)

variable {h h₁ : Host} {run : RunConfig} {cfg : AppConfig}

namespace Workshop

open Climate.Workshop (app host pointsOf points quiet)

def stub : Place := ["run", "user", "1000", "climate", "overlays", "7-1", "stub"]

def willing : Handler (I := runOps) RunOp.effect where
  answer
    | .createDirAll dir relative, m => some (.ok (), m.makeDirs (dirsOf dir relative))
    | _, _ => none
  sound := by
    rintro op m r m' hop
    cases op <;> cases hop
    rfl

end Workshop

end Climate.Runtime
