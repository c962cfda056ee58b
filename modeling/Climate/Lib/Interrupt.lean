import Climate.Lib.Alone
import Mathlib.Logic.Relation

/-!
# Programs that are interrupted

`Interrupted E H`: runs of a program during which the state may change at any
moment, as `H` says. Seen from the program, the changes fall before the
operation it makes next.
-/

namespace Prog

open Relation (ReflTransGen)

variable {I : Interface} {σ : Type} {E : Effects I σ} {H : σ → σ → Prop}

inductive Interrupted (E : Effects I σ) (H : σ → σ → Prop) (s : σ) (p : Prog I α) :
    σ → Prog I α → Prop
  | refl : Interrupted E H s p s p
  | step : Interrupted E H s p s' p' → Step E s' p' s'' p'' → Interrupted E H s p s'' p''
  | interrupt : Interrupted E H s p s' p' → H s' s'' → Interrupted E H s p s'' p'

theorem Interrupted.sequential {p q : Prog I α} (hseq : p.Sequential) (h : Interrupted E H s p s' q) :
    q.Sequential := by
  induction h with
  | refl => exact hseq
  | step _ hs ih => exact ih.step hs
  | interrupt _ _ ih => exact ih

/-- An operation and the interrupts before it. -/
def interruptible (E : Effects I σ) (H : σ → σ → Prop) : Effects I σ :=
  fun op s r s' => ∃ s₁, ReflTransGen H s s₁ ∧ E op s₁ r s'

theorem Interrupted.trans (h : Interrupted E H s p s' p') (h' : Interrupted E H s' p' s'' p'') :
    Interrupted E H s p s'' p'' := by
  induction h' with
  | refl => exact h
  | step _ hs ih => exact .step ih hs
  | interrupt _ hi ih => exact .interrupt ih hi

theorem Steps.interrupted (h : Steps E s p s' p') : Interrupted E H s p s' p' := by
  induction h with
  | refl => exact .refl
  | tail _ hs ih => exact .step ih hs

theorem Step.delayed {p q : Prog I α} (h : Step E s' p s'' q) (hi : ReflTransGen H s s') :
    ∃ t, Step (interruptible E H) s p t q ∧ ReflTransGen H t s'' := by
  induction h with
  | call he => exact ⟨_, .call ⟨_, hi, he⟩, .refl⟩
  | task i hr _ ih =>
    obtain ⟨t, ht, hrest⟩ := ih hi
    exact ⟨t, .task i hr ht, hrest⟩
  | join hall => exact ⟨s, .join hall, hi⟩
  | abort i hti => exact ⟨s, .abort i hti, hi⟩

theorem Interrupted.turns (h : Interrupted E H s p s' q) (hi : ReflTransGen H s' s'') :
    Interrupted E H s p s'' q := by
  induction hi with
  | refl => exact h
  | tail _ hs ih => exact .interrupt ih hs

theorem Step.undelayed {p q : Prog I α} (h : Step (interruptible E H) s p s' q) :
    ∃ t, ReflTransGen H s t ∧ Step E t p s' q := by
  induction h with
  | call he =>
    obtain ⟨t, hi, he⟩ := he
    exact ⟨t, hi, .call he⟩
  | task i hr _ ih =>
    obtain ⟨t, hi, hs⟩ := ih
    exact ⟨t, hi, .task i hr hs⟩
  | join hall => exact ⟨_, .refl, .join hall⟩
  | abort i hti => exact ⟨_, .refl, .abort i hti⟩

theorem Steps.interrupts {p q : Prog I α} (h : Steps (interruptible E H) s p s' q) :
    Interrupted E H s p s' q := by
  induction h with
  | refl => exact .refl
  | tail _ hs ih =>
    obtain ⟨t, hi, hs⟩ := hs.undelayed
    exact .step (ih.turns hi) hs

theorem Interrupted.delayed {p q : Prog I α} (h : Interrupted E H s p s' q) :
    ∃ t, Steps (interruptible E H) s p t q ∧ ReflTransGen H t s' := by
  induction h with
  | refl => exact ⟨s, .refl, .refl⟩
  | step _ hs ih =>
    obtain ⟨t, ht, hi⟩ := ih
    obtain ⟨t', hs', hi'⟩ := hs.delayed hi
    exact ⟨t', .tail ht hs', hi'⟩
  | interrupt _ hi ih =>
    obtain ⟨t, ht, hrest⟩ := ih
    exact ⟨t, ht, hrest.tail hi⟩

theorem kept {J : σ → Prop} (hH : ∀ s s', J s → H s s' → J s') (hi : J s)
    (h : ReflTransGen H s s') : J s' := by
  induction h with
  | refl => exact hi
  | tail _ hs ih => exact hH _ _ ih hs

-- ---------------------------------------------------------------------------
-- Programs that end either way
-- ---------------------------------------------------------------------------

namespace Ends

variable {pre : I.Op → σ → Prop} {post : Except String α → σ → Prop} {J : σ → Prop}

theorem kept_bind {op : I.Op} {read : I.Res op → Except String β} {f : β → Prog I α} (hpre : pre op s)
    (hi : J s) (hH : ∀ s s', J s → H s s' → J s')
    (hok : ∀ s₁ r s' b, J s₁ → E op s₁ r s' → read r = .ok b → Ends (interruptible E H) pre post s' (f b))
    (herror : ∀ s₁ r s' e, J s₁ → E op s₁ r s' → read r = .error e → post (.error e) s') :
    Ends (interruptible E H) pre post s (Prog.ask op read >>= f) := by
  refine ask_bind hpre (fun r s' b he hread => ?_) fun r s' e he hread => ?_
  · obtain ⟨s₁, hint, he⟩ := he
    exact hok s₁ r s' b (kept hH hi hint) he hread
  · obtain ⟨s₁, hint, he⟩ := he
    exact herror s₁ r s' e (kept hH hi hint) he hread

theorem steady {p : Prog I α} {allowed : I.Op → Prop} (honly : p.Only allowed) (hseq : p.Sequential)
    (hi : J s) (hH : ∀ s s', J s → H s s' → J s')
    (hop : ∀ op r s s', allowed op → J s → E op s r s' → J s')
    (hpre : ∀ op s, allowed op → J s → pre op s) :
    Ends (interruptible E H) pre (fun _ => J) s p := by
  have halone : Alone (interruptible E H) (fun op _ => allowed op) (fun _ _ => True) s p.attempt :=
    .only (honly.attempt.imp fun op hallowed _ => hallowed)
  intro s' q hs
  have hJ : J s' := by
    refine halone.invariant hseq.attempt hi (fun op r s s' hJ hallowed he => ?_) hs
    obtain ⟨s₁, hint, he⟩ := he
    exact hop op r s₁ s' hallowed (kept hH hJ hint) he
  exact ⟨fun op next hq => hpre op s' ((halone s' q hs).op op next hq) hJ, fun _ _ => hJ⟩

end Ends

/-- Where an interrupted run is, but for the interrupts since its last step. -/
theorem Interrupted.ready {p q : Prog I α} {pre : I.Op → σ → Prop} {post : Except String α → σ → Prop}
    (h : Ends (interruptible E H) pre post s p) (hs : Interrupted E H s p s' q) :
    ∃ t, ReflTransGen H t s' ∧ (∀ op next, q = .call op next → pre op t) ∧
      (∀ a, q = .ret a → post (.ok a) t) ∧ ∀ e, q = .throw e → post (.error e) t := by
  obtain ⟨t, ht, hrest⟩ := hs.delayed
  have hready := h t _ ht.attempt
  refine ⟨t, hrest, ?_, ?_, ?_⟩
  · rintro op next rfl
    exact hready.op op _ rfl
  · rintro a rfl
    exact hready.value (.ok a) rfl
  · rintro e rfl
    exact hready.value (.error e) rfl

/-- What every operation keeps in the states it is made in, and every interrupt
too, an interrupted run keeps; and it gets to no operation but in such a state. -/
theorem Interrupted.invariant {p q : Prog I α} {pre : I.Op → σ → Prop} {post : Except String α → σ → Prop}
    {inv : σ → Prop} (h : Ends (interruptible E H) pre post s p) (hseq : p.Sequential) (hi : inv s)
    (hH : ∀ s s', inv s → H s s' → inv s') (hpre : ∀ op s s', inv s → pre op s → H s s' → pre op s')
    (hstep : ∀ op r s s', inv s → pre op s → E op s r s' → inv s') (hs : Interrupted E H s p s' q) :
    inv s' ∧ ∀ op next, q = .call op next → pre op s' := by
  have hboth : ∀ op s s', inv s → pre op s → ReflTransGen H s s' → inv s' ∧ pre op s' := fun op s s' hi hop =>
    kept (J := fun s => inv s ∧ pre op s) (fun s s' h hint =>
      ⟨hH s s' h.1 hint, hpre op s s' h.1 h.2 hint⟩) ⟨hi, hop⟩
  obtain ⟨t, ht, hrest⟩ := hs.delayed
  have hit : inv t := by
    refine Alone.invariant h hseq.attempt hi (fun op r s s' hi hop he => ?_) ht.attempt
    obtain ⟨s₁, hint, he⟩ := he
    obtain ⟨hi₁, hop₁⟩ := hboth op s s₁ hi hop hint
    exact hstep op r s₁ s' hi₁ hop₁ he
  refine ⟨kept hH hit hrest, ?_⟩
  rintro op next rfl
  exact (hboth op t s' hit ((h t _ ht.attempt).op op _ rfl) hrest).2

end Prog
