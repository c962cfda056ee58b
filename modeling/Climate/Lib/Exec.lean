import Climate.Lib.Prog
import Mathlib.Data.List.FinRange

/-!
# Running a program

A `Handler` picks one of the effects an operation may have, where it has one
to offer, which makes a program executable: `advance` is the step it takes
next, always of its first unfinished task, and `run` takes so many of them.
Every such run is a run of the program.
-/

structure Handler {I : Interface} {σ : Type} (E : Effects I σ) where
  answer : (op : I.Op) → σ → Option (I.Res op × σ)
  sound : answer op s = some (r, s') → E op s r s'

def Handler.logged {I : Interface} {σ : Type} {E : Effects I σ} (h : Handler E) : Handler E.logged where
  answer op s := (h.answer op s.1).map fun r => (r.1, r.2, s.2 ++ [⟨op, r.1⟩])
  sound := by
    intro op s r s' ha
    obtain ⟨⟨r', m⟩, hr, heq⟩ := Option.map_eq_some_iff.mp ha
    cases heq
    exact ⟨h.sound hr, rfl⟩

namespace Prog

variable {I : Interface} {σ : Type} {E : Effects I σ}

def firstUnfinished (tasks : Fin count → Prog I Unit) : Option (Fin count) :=
  (List.finRange count).find? fun i => (tasks i).finished = false

def failure : Prog I α → Option String
  | .throw e => some e
  | _ => none

def value? : Prog I α → Option α
  | .ret a => some a
  | _ => none

/-- The operation a program is about to make. -/
def pending? : Prog I α → Option I.Op
  | .call op _ => some op
  | _ => none

def advance (h : Handler E) (s : σ) : Prog I α → Option (σ × Prog I α)
  | .ret _ => none
  | .throw _ => none
  | .call op next => (h.answer op s).map fun r => (r.2, next r.1)
  | .fork limit count tasks next =>
    match firstUnfinished tasks with
    | none => some (s, next (.ok ()))
    | some i =>
      match (tasks i).failure with
      | some e => some (s, next (.error e))
      | none =>
        if limit = 0 then none
        else ((tasks i).advance h s).map fun r =>
          (r.1, .fork limit count (Function.update tasks i r.2) next)

def run (h : Handler E) : Nat → σ × Prog I α → σ × Prog I α
  | 0, c => c
  | n + 1, c =>
    match c.2.advance h c.1 with
    | some c' => run h n c'
    | none => c

theorem failure_eq_some {p : Prog I α} (h : p.failure = some e) : p = .throw e := by
  cases p <;> simp_all [failure]

theorem value?_eq_some {p : Prog I α} (h : p.value? = some a) : p = .ret a := by
  cases p <;> simp_all [value?]

theorem firstUnfinished_none {tasks : Fin count → Prog I Unit} (h : firstUnfinished tasks = none)
    (i : Fin count) : tasks i = .ret () := by
  have hi := List.find?_eq_none.mp h i (List.mem_finRange i)
  exact finished_iff.mp (by simpa using hi)

theorem firstUnfinished_running {tasks : Fin count → Prog I Unit}
    (h : firstUnfinished tasks = some i) (hl : limit ≠ 0) : Running limit tasks i := by
  have hnone : (Finset.univ.filter fun j => j < i ∧ (tasks j).finished = false) = ∅ := by
    rw [Finset.filter_eq_empty_iff]
    rintro j - ⟨hlt, hj⟩
    obtain ⟨_, before, after, hsplit, hbefore⟩ := List.find?_eq_some_iff_append.mp h
    have hsorted : (before ++ i :: after).Pairwise (· < ·) := hsplit ▸ List.pairwise_lt_finRange count
    have hmem : j ∈ before ++ i :: after := hsplit ▸ List.mem_finRange j
    rcases List.mem_append.mp hmem with hmem | hmem
    · simpa [hj] using hbefore j hmem
    · rcases List.mem_cons.mp hmem with rfl | hmem
      · exact lt_irrefl _ hlt
      · have hij := (List.pairwise_cons.mp (List.pairwise_append.mp hsorted).2.1).1 j hmem
        exact lt_asymm hlt hij
  simpa [Running, hnone] using Nat.pos_of_ne_zero hl

theorem advance_step (h : Handler E) {p p' : Prog I α} (ha : p.advance h s = some (s', p')) :
    Step E s p s' p' := by
  induction p generalizing s' with
  | ret a => simp [advance] at ha
  | throw e => simp [advance] at ha
  | call op next _ =>
    obtain ⟨⟨r, t⟩, hr, heq⟩ := Option.map_eq_some_iff.mp ha
    cases heq
    exact .call (h.sound hr)
  | fork limit count tasks next iht _ =>
    simp only [advance] at ha
    split at ha
    next hnone =>
      cases ha
      exact .join (firstUnfinished_none hnone)
    next i hi =>
      split at ha
      next e he =>
        cases ha
        exact .abort i (failure_eq_some he)
      next =>
        split at ha
        · cases ha
        next hl =>
          obtain ⟨⟨t, q⟩, hq, heq⟩ := Option.map_eq_some_iff.mp ha
          cases heq
          exact .task i (firstUnfinished_running hi hl) (iht i hq)

theorem run_steps (h : Handler E) (n : Nat) (s : σ) (p : Prog I α) :
    Steps E s p (run h n (s, p)).1 (run h n (s, p)).2 := by
  induction n generalizing s p with
  | zero => exact .refl
  | succ n ih =>
    simp only [run]
    split
    next c' hc => exact (Steps.tail .refl (advance_step h hc)).trans (ih c'.1 c'.2)
    next => exact .refl

theorem run_value (h : Handler E) (n : Nat) {p : Prog I α} (hv : (run h n (s, p)).2.value? = some a) :
    Steps E s p (run h n (s, p)).1 (.ret a) :=
  value?_eq_some hv ▸ run_steps h n s p

theorem run_failure (h : Handler E) (n : Nat) {p : Prog I α} (hf : (run h n (s, p)).2.failure = some e) :
    Steps E s p (run h n (s, p)).1 (.throw e) :=
  failure_eq_some hf ▸ run_steps h n s p

theorem run_reaches (h : Handler E) (n : Nat) {p : Prog I α} (hp : (run h n (s, p)).2.pending? = some op) :
    ∃ next, Steps E s p (run h n (s, p)).1 (.call op next) := by
  have hsteps := run_steps h n s p
  revert hp hsteps
  generalize (run h n (s, p)).2 = q
  intro hp hsteps
  cases q with
  | call op' next =>
    cases hp
    exact ⟨next, hsteps⟩
  | _ => cases hp

-- ---------------------------------------------------------------------------
-- Runs that end
-- ---------------------------------------------------------------------------

/-- The run of `p` from `s` ends with a value, and there `post` holds. -/
def Returns (h : Handler E) (post : α → σ → Prop) (s : σ) (p : Prog I α) : Prop :=
  ∃ n s' a, run h n (s, p) = (s', .ret a) ∧ post a s'

theorem advance_bind (h : Handler E) {p p' : Prog I α} (f : α → Prog I β)
    (ha : p.advance h s = some (s', p')) : (p >>= f).advance h s = some (s', p' >>= f) := by
  cases p with
  | ret a => cases ha
  | throw e => cases ha
  | call op next =>
    obtain ⟨⟨r, t⟩, hr, heq⟩ := Option.map_eq_some_iff.mp ha
    cases heq
    simp [advance, hr]
  | fork limit count tasks next =>
    simp only [advance] at ha
    rw [fork_bind, advance]
    split at ha
    · cases ha
      rfl
    · split at ha
      · cases ha
        rfl
      · split at ha
        · cases ha
        next i _ hl =>
          obtain ⟨⟨t, q⟩, hq, heq⟩ := Option.map_eq_some_iff.mp ha
          cases heq
          simp [hl, hq]

theorem run_bind (h : Handler E) {p : Prog I α} (f : α → Prog I β) (n : Nat)
    (hr : run h n (s, p) = (s', .ret a)) :
    ∃ m, ∀ k, run h (m + k) (s, p >>= f) = run h k (s', f a) := by
  induction n generalizing s p with
  | zero =>
    cases hr
    exact ⟨0, fun k => by rw [Nat.zero_add, ret_bind]⟩
  | succ n ih =>
    simp only [run] at hr
    split at hr
    next c hc =>
      obtain ⟨m, hm⟩ := ih hr
      refine ⟨m + 1, fun k => ?_⟩
      rw [Nat.add_right_comm, run, advance_bind h f hc]
      exact hm k
    next =>
      cases hr
      exact ⟨0, fun k => by rw [Nat.zero_add, ret_bind]⟩

namespace Returns

variable {h : Handler E}

theorem ret {post : α → σ → Prop} (hp : post a s) : Returns h post s (.ret a) := ⟨0, s, a, rfl, hp⟩

theorem call {op : I.Op} {r : I.Res op} {next : I.Res op → Prog I α} {post : α → σ → Prop}
    (ha : h.answer op s = some (r, s₁)) (hn : Returns h post s₁ (next r)) :
    Returns h post s (.call op next) := by
  obtain ⟨n, s', a, hrun, hp⟩ := hn
  refine ⟨n + 1, s', a, ?_, hp⟩
  rw [run, advance, ha]
  exact hrun

theorem ask {op : I.Op} {r : I.Res op} {read : I.Res op → Except String α} {post : α → σ → Prop}
    (ha : h.answer op s = some (r, s₁)) (hread : read r = .ok a) (hp : post a s₁) :
    Returns h post s (Prog.ask op read) :=
  .call ha (by rw [hread]; exact .ret hp)

/-- An operation and what follows it. -/
theorem ask_bind {op : I.Op} {r : I.Res op} {read : I.Res op → Except String α} {f : α → Prog I β}
    {post : β → σ → Prop} (ha : h.answer op s = some (r, s₁)) (hread : read r = .ok a)
    (hf : Returns h post s₁ (f a)) : Returns h post s (Prog.ask op read >>= f) := by
  refine .call ha ?_
  change Returns h post s₁ (ofExcept (read r) >>= f)
  rw [hread]
  exact hf

theorem bind {p : Prog I α} {f : α → Prog I β} {Q : α → σ → Prop} {post : β → σ → Prop}
    (hp : Returns h Q s p) (hf : ∀ a s', Q a s' → Returns h post s' (f a)) :
    Returns h post s (p >>= f) := by
  obtain ⟨n, s₁, a, hrun, hq⟩ := hp
  obtain ⟨k, s', b, hrun', hpost⟩ := hf a s₁ hq
  obtain ⟨m, hm⟩ := run_bind h f n hrun
  exact ⟨m + k, s', b, (hm k).trans hrun', hpost⟩

theorem forM {l : List β} {f : β → Prog I PUnit} {inv : σ → Prop} (hi : inv s)
    (hstep : ∀ b s, inv s → Returns h (fun _ => inv) s (f b)) :
    Returns h (fun _ => inv) s (l.forM f) := by
  induction l generalizing s with
  | nil => exact .ret hi
  | cons b l ih => exact .bind (hstep b s hi) fun _ s' hi' => ih hi'

theorem steps {p : Prog I α} {post : α → σ → Prop} (hr : Returns h post s p) :
    ∃ s' a, Steps E s p s' (.ret a) ∧ post a s' := by
  obtain ⟨n, s', a, hrun, hp⟩ := hr
  have hsteps := run_steps h n s p
  rw [hrun] at hsteps
  exact ⟨s', a, hsteps, hp⟩

end Returns

-- ---------------------------------------------------------------------------
-- Runs there are
-- ---------------------------------------------------------------------------

/-- Some run of `p` from `s` ends with a value, and there `post` holds. -/
def Can (E : Effects I σ) (post : α → σ → Prop) (s : σ) (p : Prog I α) : Prop :=
  ∃ s' a, Steps E s p s' (.ret a) ∧ post a s'

namespace Can

theorem ret {post : α → σ → Prop} (h : post a s) : Can E post s (.ret a) := ⟨s, a, .refl, h⟩

theorem bind {p : Prog I α} {f : α → Prog I β} {Q : α → σ → Prop} {post : β → σ → Prop}
    (h : Can E Q s p) (hf : ∀ a s', Q a s' → Can E post s' (f a)) : Can E post s (p >>= f) := by
  obtain ⟨s₁, a, hs, hQ⟩ := h
  obtain ⟨s', b, hs', hpost⟩ := hf a s₁ hQ
  exact ⟨s', b, (hs.bind f).trans hs', hpost⟩

theorem ask {op : I.Op} {read : I.Res op → Except String α} {post : α → σ → Prop} (r : I.Res op)
    (he : E op s r s') (hread : read r = .ok a) (h : post a s') : Can E post s (Prog.ask op read) := by
  have hstep : Step E s (Prog.ask op read) s' (ofExcept (read r)) := .call (k := fun r => ofExcept (read r)) he
  rw [hread] at hstep
  exact ⟨s', a, .tail .refl hstep, h⟩

end Can

end Prog
