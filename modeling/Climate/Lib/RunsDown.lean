import Mathlib.Logic.Relation

/-!
# Relations that run down

A measure that every step brings down bounds how long steps can go on, and
whoever goes on as long as there is a step comes to a rest.
-/

namespace RunsDown

open Relation (ReflTransGen)

variable {σ : Type} {R : σ → σ → Prop} {measure : σ → Nat}

/-- Nothing more can happen. -/
def AtRest (R : σ → σ → Prop) (s : σ) : Prop := ∀ s', ¬ R s s'

def Runs (R : σ → σ → Prop) (s : σ) (n : Nat) (run : Nat → σ) : Prop :=
  run 0 = s ∧ ∀ i < n, R (run i) (run (i + 1))

theorem steps_le (hdown : ∀ {s s'}, R s s' → measure s' < measure s) {run : Nat → σ} (h : Runs R s n run) :
    n + measure (run n) ≤ measure s := by
  obtain ⟨rfl, hsteps⟩ := h
  induction n with
  | zero => simp
  | succ n ih =>
    have hbefore := ih fun i hi => hsteps i (by omega)
    have hlast := hdown (hsteps n (by omega))
    omega

theorem bounded (hdown : ∀ {s s'}, R s s' → measure s' < measure s) {run : Nat → σ} (h : Runs R s n run) :
    n ≤ measure s :=
  Nat.le_trans (Nat.le_add_right _ _) (steps_le (R := R) hdown h)

theorem exists_rest (hdown : ∀ {s s'}, R s s' → measure s' < measure s) (s : σ) :
    ∃ s', ReflTransGen R s s' ∧ AtRest R s' := by
  induction hm : measure s using Nat.strongRecOn generalizing s with
  | ind m ih =>
    by_cases hmore : ∃ s₁, R s s₁
    · obtain ⟨s₁, hs⟩ := hmore
      obtain ⟨s', hsteps, hrest⟩ := ih (measure s₁) (hm ▸ hdown hs) s₁ rfl
      exact ⟨s', hsteps.head hs, hrest⟩
    · exact ⟨s, .refl, fun s₁ hs => hmore ⟨s₁, hs⟩⟩

end RunsDown
