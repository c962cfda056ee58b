import Climate.Lib.Alone
import Climate.Lib.Exec

/-!
# Tasks that own what they work on

`Sure E post s p`: however `p` runs from `s`, it neither fails nor gets stuck,
and `post` holds of the value it ends with. For tasks this comes from dividing
the state among them: `Owning E D post own s p` says the same of a program
whose own resources nobody else changes, and which changes no others. It may
take free resources on its way.
-/

namespace Prog

variable {I : Interface} {σ ρ : Type} {E : Effects I σ}

-- ---------------------------------------------------------------------------
-- Programs that come to a value
-- ---------------------------------------------------------------------------

def Sure (E : Effects I σ) (post : α → σ → Prop) (s : σ) (p : Prog I α) : Prop :=
  ∀ s' p', Steps E s p s' p' →
    (∃ a, p' = .ret a ∧ post a s') ∨ ∃ s'' p'', Step E s' p' s'' p''

namespace Sure

variable {p : Prog I α} {f : α → Prog I β} {post : α → σ → Prop}

theorem ret (h : post a s) : Sure E post s (.ret a) := by
  intro s' p' hs
  rcases hs.cases_head with ⟨rfl, rfl⟩ | ⟨_, _, hfirst, _⟩
  · exact .inl ⟨a, rfl, h⟩
  · cases hfirst

theorem call {op : I.Op} {next : I.Res op → Prog I α} (hcan : ∃ r s', E op s r s')
    (hnext : ∀ r s', E op s r s' → Sure E post s' (next r)) : Sure E post s (.call op next) := by
  intro s' p' hs
  rcases hs.cases_head with ⟨rfl, rfl⟩ | ⟨s₁, p₁, hfirst, hrest⟩
  · obtain ⟨r, s₁, he⟩ := hcan
    exact .inr ⟨s₁, _, .call he⟩
  · obtain ⟨r, he, rfl⟩ := step_call hfirst
    exact hnext r s₁ he s' p' hrest

theorem ask_bind {op : I.Op} {read : I.Res op → Except String α} {post : β → σ → Prop}
    (hcan : ∃ r s', E op s r s')
    (hf : ∀ r s', E op s r s' → ∃ a, read r = .ok a ∧ Sure E post s' (f a)) :
    Sure E post s (ask op read >>= f) := by
  refine .call hcan fun r s' he => ?_
  obtain ⟨a, hread, hrest⟩ := hf r s' he
  change Sure E post s' (ofExcept (read r) >>= f)
  rw [hread]
  exact hrest

theorem ask {op : I.Op} {read : I.Res op → Except String α} (hcan : ∃ r s', E op s r s')
    (h : ∀ r s', E op s r s' → ∃ a, read r = .ok a ∧ post a s') : Sure E post s (ask op read) := by
  refine .call hcan fun r s' he => ?_
  obtain ⟨a, hread, hpost⟩ := h r s' he
  rw [hread]
  exact .ret hpost

theorem bind {Q : α → σ → Prop} {post : β → σ → Prop} (h : Sure E Q s p)
    (hf : ∀ a s', Q a s' → Sure E post s' (f a)) : Sure E post s (p >>= f) := by
  intro s' q hs
  rcases hs.of_bind with ⟨p', hp, rfl⟩ | ⟨a, s₁, hp, hrest⟩
  · rcases h s' p' hp with ⟨a, rfl, hq⟩ | ⟨s'', p'', hstep⟩
    · exact hf a s' hq s' _ .refl
    · exact .inr ⟨s'', _, hstep.bind f⟩
  · rcases h s₁ _ hp with ⟨a', heq, hq⟩ | ⟨_, _, hstep⟩
    · cases heq
      exact hf a s₁ hq s' q hrest
    · cases hstep

theorem weaken {post' : α → σ → Prop} (h : Sure E post s p) (hp : ∀ a s, post a s → post' a s) :
    Sure E post' s p :=
  fun s' p' hs => (h s' p' hs).imp_left fun ⟨a, heq, ha⟩ => ⟨a, heq, hp a s' ha⟩

theorem ended {x : Except String α} (h : Sure E post s p) (hs : Steps E s p s' (ofExcept x)) :
    ∃ a, x = .ok a ∧ post a s' := by
  rcases h s' _ hs with ⟨a, heq, ha⟩ | ⟨_, _, hstep⟩
  · cases x <;> cases heq
    exact ⟨a, rfl, ha⟩
  · cases x <;> cases hstep

theorem run (h : Sure E post s p) (hseq : p.Sequential) : ∃ s' a, Steps E s p s' (.ret a) ∧ post a s' := by
  induction p generalizing s with
  | ret a =>
    obtain ⟨_, heq, ha⟩ := h.ended (x := .ok a) .refl
    cases heq
    exact ⟨s, a, .refl, ha⟩
  | throw e =>
    obtain ⟨_, heq, -⟩ := h.ended (x := .error e) .refl
    cases heq
  | call op next ih =>
    rcases h s _ .refl with ⟨_, heq, -⟩ | ⟨s₁, p₁, hstep⟩
    · cases heq
    · obtain ⟨r, -, rfl⟩ := step_call hstep
      have hrest : Sure E post s₁ (next r) := fun s' p' hs => h s' p' ((Steps.tail .refl hstep).trans hs)
      obtain ⟨s', a, hs, ha⟩ := ih r hrest (hseq r)
      exact ⟨s', a, (Steps.tail .refl hstep).trans hs, ha⟩
  | fork limit count tasks next => exact hseq.elim

end Sure

-- ---------------------------------------------------------------------------
-- Resources
-- ---------------------------------------------------------------------------

/-- A state as resources, each with something in it. Nobody's are `free`. -/
structure Division (σ ρ : Type) where
  Val : Type
  look : σ → ρ → Val
  free : σ → Set ρ

namespace Division

variable {D : Division σ ρ} {own own' : Set ρ}

def Agree (D : Division σ ρ) (own : Set ρ) (s s' : σ) : Prop := ∀ x ∈ own, D.look s' x = D.look s x

theorem Agree.refl : D.Agree own s s := fun _ _ => rfl

theorem Agree.trans (h : D.Agree own s s') (h' : D.Agree own s' s'') : D.Agree own s s'' :=
  fun x hx => (h' x hx).trans (h x hx)

theorem Agree.mono (h : D.Agree own' s s') (hsub : own ⊆ own') : D.Agree own s s' :=
  fun x hx => h x (hsub hx)

/-- What the owner of `own` may do, who owns `own'` after it. -/
structure Takes (D : Division σ ρ) (own own' : Set ρ) (s s' : σ) : Prop where
  more : own ⊆ own'
  taken : ∀ x ∈ own', x ∉ own → x ∈ D.free s ∧ x ∉ D.free s'
  rest : ∀ x ∉ own', D.look s' x = D.look s x
  free : D.free s' ⊆ D.free s

theorem Takes.refl : D.Takes own own s s :=
  ⟨subset_rfl, fun _ hx hnot => absurd hx hnot, fun _ _ => rfl, subset_rfl⟩

theorem Takes.trans (h : D.Takes own own' s s') (h' : D.Takes own' own'' s' s'') :
    D.Takes own own'' s s'' where
  more := h.more.trans h'.more
  taken x hx hnot := by
    by_cases hmid : x ∈ own'
    · obtain ⟨hfree, hgone⟩ := h.taken x hmid hnot
      exact ⟨hfree, fun hback => hgone (h'.free hback)⟩
    · obtain ⟨hfree, hgone⟩ := h'.taken x hx hmid
      exact ⟨h.free hfree, hgone⟩
  rest x hx := (h'.rest x hx).trans (h.rest x fun hmid => hx (h'.more hmid))
  free := h'.free.trans h.free

end Division

-- ---------------------------------------------------------------------------
-- Programs that own
-- ---------------------------------------------------------------------------

inductive Owning (E : Effects I σ) (D : Division σ ρ) :
    {α : Type} → (α → Set ρ → σ → Prop) → Set ρ → σ → Prog I α → Prop
  | ret {post : α → Set ρ → σ → Prop} :
      (∀ s', D.Agree own s s' → post a own s') → Owning E D post own s (.ret a)
  | call {op : I.Op} {k : I.Res op → Prog I α} {post : α → Set ρ → σ → Prop}
      (own' : (s₁ : σ) → I.Res op → σ → Set ρ) :
      (∀ s₁, D.Agree own s s₁ → ∃ r s₂, E op s₁ r s₂) →
      (∀ s₁ r s₂, D.Agree own s s₁ → E op s₁ r s₂ → D.Takes own (own' s₁ r s₂) s₁ s₂) →
      (∀ s₁ r s₂, D.Agree own s s₁ → E op s₁ r s₂ → Owning E D post (own' s₁ r s₂) s₂ (k r)) →
      Owning E D post own s (.call op k)

namespace Owning

variable {D : Division σ ρ} {own : Set ρ} {p : Prog I α} {f : α → Prog I β} {post : α → Set ρ → σ → Prop}

theorem agree (h : Owning E D post own s p) (hs : D.Agree own s s') : Owning E D post own s' p := by
  cases h with
  | ret hpost => exact .ret fun s'' h' => hpost s'' (hs.trans h')
  | call own' hcan htakes hnext =>
    exact .call own' (fun s₁ h₁ => hcan s₁ (hs.trans h₁)) (fun s₁ r s₂ h₁ => htakes s₁ r s₂ (hs.trans h₁))
      fun s₁ r s₂ h₁ => hnext s₁ r s₂ (hs.trans h₁)

theorem step (h : Owning E D post own s p) (hs : Step E s p s' p') :
    ∃ own', D.Takes own own' s s' ∧ Owning E D post own' s' p' := by
  cases h with
  | ret hpost => cases hs
  | call own' hcan htakes hnext =>
    obtain ⟨r, he, rfl⟩ := step_call hs
    exact ⟨_, htakes s r s' .refl he, hnext s r s' .refl he⟩

theorem progress (h : Owning E D post own s p) :
    (∃ a, p = .ret a ∧ post a own s) ∨ ∃ s' p', Step E s p s' p' := by
  cases h with
  | ret hpost => exact .inl ⟨_, rfl, hpost s .refl⟩
  | call own' hcan htakes hnext =>
    obtain ⟨r, s', he⟩ := hcan s .refl
    exact .inr ⟨s', _, .call he⟩

/-- Left to itself it comes to an end. -/
theorem run (h : Owning E D post own s p) :
    ∃ s' own' a, Steps E s p s' (.ret a) ∧ D.Takes own own' s s' ∧ post a own' s' := by
  induction h with
  | ret hpost => exact ⟨_, _, _, .refl, .refl, hpost _ .refl⟩
  | call own' hcan htakes _ ih =>
    obtain ⟨r, s₁, he⟩ := hcan _ .refl
    obtain ⟨s', own'', a, hs, htakes', ha⟩ := ih _ r s₁ .refl he
    exact ⟨s', own'', a, (Steps.tail .refl (.call he)).trans hs, (htakes _ r s₁ .refl he).trans htakes', ha⟩

theorem bind {Q : α → Set ρ → σ → Prop} {post : β → Set ρ → σ → Prop} (h : Owning E D Q own s p)
    (hf : ∀ a own' s', Q a own' s' → Owning E D post own' s' (f a)) : Owning E D post own s (p >>= f) := by
  induction h with
  | ret hpost => exact hf _ _ _ (hpost _ .refl)
  | call own' hcan htakes _ ih =>
    exact .call (k := fun r => _ >>= f) own' hcan htakes fun s₁ r s₂ h₁ he => ih s₁ r s₂ h₁ he hf

theorem ask_bind {op : I.Op} {read : I.Res op → Except String α} {post : β → Set ρ → σ → Prop}
    (hcan : ∀ s₁, D.Agree own s s₁ → ∃ r s₂, E op s₁ r s₂)
    (hf : ∀ s₁ r s₂, D.Agree own s s₁ → E op s₁ r s₂ →
      D.Takes own own s₁ s₂ ∧ ∃ a, read r = .ok a ∧ Owning E D post own s₂ (f a)) :
    Owning E D post own s (ask op read >>= f) := by
  refine .call (fun _ _ _ => own) hcan (fun s₁ r s₂ h₁ he => (hf s₁ r s₂ h₁ he).1) fun s₁ r s₂ h₁ he => ?_
  obtain ⟨-, a, hread, hrest⟩ := hf s₁ r s₂ h₁ he
  change Owning E D post own s₂ (ofExcept (read r) >>= f)
  rw [hread]
  exact hrest

theorem ask {op : I.Op} {read : I.Res op → Except String α}
    (hcan : ∀ s₁, D.Agree own s s₁ → ∃ r s₂, E op s₁ r s₂)
    (h : ∀ s₁ r s₂, D.Agree own s s₁ → E op s₁ r s₂ →
      D.Takes own own s₁ s₂ ∧ ∃ a, read r = .ok a ∧ ∀ s₃, D.Agree own s₂ s₃ → post a own s₃) :
    Owning E D post own s (Prog.ask op read) := by
  refine .call (fun _ _ _ => own) hcan (fun s₁ r s₂ h₁ he => (h s₁ r s₂ h₁ he).1) fun s₁ r s₂ h₁ he => ?_
  obtain ⟨-, a, hread, hpost⟩ := h s₁ r s₂ h₁ he
  rw [hread]
  exact .ret hpost

theorem attempt (h : Owning E D post own s p) :
    Owning E D (fun r own s => ∃ a, r = .ok a ∧ post a own s) own s p.attempt := by
  induction h with
  | ret hpost => exact .ret fun s' hs => ⟨_, rfl, hpost s' hs⟩
  | call own' hcan htakes _ ih => exact .call (k := fun r => (_ : Prog I _).attempt) own' hcan htakes ih

theorem weaken {post' : α → Set ρ → σ → Prop} (h : Owning E D post own s p)
    (hp : ∀ a own s, post a own s → post' a own s) : Owning E D post' own s p := by
  induction h with
  | ret hpost => exact .ret fun s' hs => hp _ _ _ (hpost s' hs)
  | call own' hcan htakes _ ih => exact .call own' hcan htakes fun s₁ r s₂ h₁ he => ih s₁ r s₂ h₁ he hp

end Owning

-- ---------------------------------------------------------------------------
-- Tasks
-- ---------------------------------------------------------------------------

/-- No two tasks own the same, and what a task owns is not free. -/
structure Tasks (E : Effects I σ) (D : Division σ ρ) (Q : Fin count → Set ρ → σ → Prop)
    (own : Fin count → Set ρ) (s : σ) (tasks : Fin count → Prog I Unit) : Prop where
  owning : ∀ i, Owning E D (fun _ => Q i) (own i) s (tasks i)
  apart : ∀ i j, i ≠ j → ∀ x ∈ own i, x ∉ own j
  taken : ∀ i, ∀ x ∈ own i, x ∉ D.free s

namespace Tasks

variable {D : Division σ ρ} {Q : Fin count → Set ρ → σ → Prop} {own : Fin count → Set ρ}
  {tasks : Fin count → Prog I Unit}

theorem step (h : Tasks E D Q own s tasks) (i : Fin count) (hs : Step E s (tasks i) s' t) :
    ∃ own', D.Takes (own i) own' s s' ∧
      Tasks E D Q (Function.update own i own') s' (Function.update tasks i t) := by
  obtain ⟨own', htakes, howning⟩ := (h.owning i).step hs
  have hnew : ∀ j, j ≠ i → ∀ x ∈ own j, x ∉ own' := by
    intro j hj x hx hx'
    by_cases hold : x ∈ own i
    · exact h.apart i j (Ne.symm hj) x hold hx
    · exact h.taken j x hx (htakes.taken x hx' hold).1
  refine ⟨own', htakes, fun j => ?_, fun j k hjk x hx => ?_, fun j x hx => ?_⟩
  · by_cases hj : j = i
    · subst hj
      simpa using howning
    · simp only [Function.update_of_ne hj]
      exact (h.owning j).agree fun x hx => htakes.rest x (hnew j hj x hx)
  · by_cases hj : j = i
    · subst hj
      rw [Function.update_self] at hx
      rw [Function.update_of_ne (Ne.symm hjk)]
      exact fun hx' => hnew k (Ne.symm hjk) x hx' hx
    · rw [Function.update_of_ne hj] at hx
      by_cases hk : k = i
      · subst hk
        rw [Function.update_self]
        exact hnew j hj x hx
      · rw [Function.update_of_ne hk]
        exact h.apart j k hjk x hx
  · by_cases hj : j = i
    · subst hj
      rw [Function.update_self] at hx
      by_cases hold : x ∈ own j
      · exact fun hfree => h.taken j x hold (htakes.free hfree)
      · exact (htakes.taken x hx hold).2
    · rw [Function.update_of_ne hj] at hx
      exact fun hfree => h.taken j x hx (htakes.free hfree)

structure Since (E : Effects I σ) (D : Division σ ρ) (Q : Fin count → Set ρ → σ → Prop)
    (own : Fin count → Set ρ) (s : σ) (own' : Fin count → Set ρ) (s' : σ)
    (tasks' : Fin count → Prog I Unit) : Prop where
  tasks : Tasks E D Q own' s' tasks'
  took : ∀ i, ∀ x ∈ own' i, x ∈ own i ∨ x ∈ D.free s
  free : D.free s' ⊆ D.free s
  rest : ∀ x, (∀ i, x ∉ own i) → x ∉ D.free s → D.look s' x = D.look s x

theorem Since.step {own' : Fin count → Set ρ} (h : Since E D Q own s own' s' tasks') (i : Fin count)
    (hs : Step E s' (tasks' i) s'' t) :
    ∃ own'', Since E D Q own s own'' s'' (Function.update tasks' i t) := by
  obtain ⟨mine, htakes, htasks⟩ := h.tasks.step i hs
  have hmine : ∀ x ∈ mine, x ∈ own i ∨ x ∈ D.free s := by
    intro x hx
    by_cases hold : x ∈ own' i
    · exact h.took i x hold
    · exact .inr (h.free (htakes.taken x hx hold).1)
  refine ⟨_, htasks, fun j x hx => ?_, htakes.free.trans h.free, fun x hx hnot => ?_⟩
  · by_cases hj : j = i
    · subst hj
      rw [Function.update_self] at hx
      exact hmine x hx
    · rw [Function.update_of_ne hj] at hx
      exact h.took j x hx
  · exact (htakes.rest x fun hmem => (hmine x hmem).elim (hx i) hnot).trans (h.rest x hx hnot)

theorem running_exists (hlimit : limit ≠ 0) (h : ¬ ∀ i, tasks i = .ret ()) :
    ∃ i, Running limit tasks i ∧ tasks i ≠ .ret () := by
  cases hfirst : firstUnfinished tasks with
  | none => exact absurd (firstUnfinished_none hfirst) h
  | some i =>
    refine ⟨i, firstUnfinished_running hfirst hlimit, fun hret => ?_⟩
    have hunfinished := List.find?_some hfirst
    simp [hret, finished] at hunfinished

/-- A fork of tasks that own what they work on ends with all that they are to
establish, and with everything else as it was. -/
theorem sure {next : Except String Unit → Prog I α} {post : α → σ → Prop} (h : Tasks E D Q own s tasks)
    (hlimit : limit ≠ 0)
    (hnext : ∀ (own' : Fin count → Set ρ) s', (∀ i, Q i (own' i) s') →
      (∀ x, (∀ i, x ∉ own i) → x ∉ D.free s → D.look s' x = D.look s x) → Sure E post s' (next (.ok ()))) :
    Sure E post s (.fork limit count tasks next) := by
  intro s' q hs
  have hreached : (∃ own' tasks', q = .fork limit count tasks' next ∧ Since E D Q own s own' s' tasks') ∨
      ∃ s₁, Sure E post s₁ (next (.ok ())) ∧ Steps E s₁ (next (.ok ())) s' q := by
    induction hs with
    | refl => exact .inl ⟨own, tasks, rfl, h, fun _ _ => .inl, subset_rfl, fun _ _ _ => rfl⟩
    | tail _ hlast ih =>
      rcases ih with ⟨own', tasks', rfl, hsince⟩ | ⟨s₁, hsure, hrest⟩
      · rcases step_fork hlast with ⟨i, t, -, ht, rfl⟩ | ⟨hall, rfl, rfl⟩ | ⟨i, e, hi, -, -⟩
        · obtain ⟨own'', hsince'⟩ := hsince.step i ht
          exact .inl ⟨own'', _, rfl, hsince'⟩
        · refine .inr ⟨_, hnext own' _ (fun i => ?_) hsince.rest, .refl⟩
          have howning := hsince.tasks.owning i
          rw [hall i] at howning
          cases howning with
          | ret hpost => exact hpost _ .refl
        · have howning := hsince.tasks.owning i
          rw [hi] at howning
          cases howning
      · exact .inr ⟨s₁, hsure, hrest.tail hlast⟩
  rcases hreached with ⟨own', tasks', rfl, hsince⟩ | ⟨s₁, hsure, hrest⟩
  · right
    by_cases hall : ∀ i, tasks' i = .ret ()
    · exact ⟨s', _, .join hall⟩
    · obtain ⟨i, hrunning, hnot⟩ := running_exists hlimit hall
      rcases (hsince.tasks.owning i).progress with ⟨_, hret, -⟩ | ⟨s'', t, ht⟩
      · exact absurd hret hnot
      · exact ⟨s'', _, .task i hrunning ht⟩
  · exact hsure s' q hrest

end Tasks

-- ---------------------------------------------------------------------------
-- One task of a fork
-- ---------------------------------------------------------------------------

theorem running_update {tasks : Fin count → Prog I Unit} (h : Running limit tasks i) (t : Prog I Unit) :
    Running limit (Function.update tasks i t) i := by
  have hsame : ∀ j, (j < i ∧ (Function.update tasks i t j).finished = false) ↔
      j < i ∧ (tasks j).finished = false := by
    intro j
    refine and_congr_right fun hlt => ?_
    rw [Function.update_of_ne hlt.ne]
  simpa only [Running, hsame] using h

theorem Steps.task {tasks : Fin count → Prog I Unit} {next : Except String Unit → Prog I α} (i : Fin count)
    (hrunning : Running limit tasks i) (hs : Steps E s (tasks i) s' t) :
    Steps E s (.fork limit count tasks next) s' (.fork limit count (Function.update tasks i t) next) := by
  induction hs with
  | refl =>
    rw [Function.update_eq_self]
    exact .refl
  | @tail s₁ p₁ s₂ p₂ _ hlast ih =>
    refine .tail ih ?_
    have hstep : Step E s₁ (Function.update tasks i p₁ i) s₂ p₂ := by rwa [Function.update_self]
    have htask : Step E s₁ (.fork limit count (Function.update tasks i p₁) next) s₂ _ :=
      .task i (running_update hrunning p₁) hstep
    rwa [Function.update_idem] at htask

/-- A task runs if all before it, but for one, have ended. -/
theorem running_but_one {tasks : Fin count → Prog I Unit} (k : Fin count)
    (h : ∀ j < i, j ≠ k → tasks j = .ret ()) (hlimit : 1 < limit) : Running limit tasks i := by
  have hsub : (Finset.univ.filter fun j => j < i ∧ (tasks j).finished = false) ⊆ {k} := by
    intro j hj
    obtain ⟨-, hlt, hunfinished⟩ := Finset.mem_filter.mp hj
    rw [Finset.mem_singleton]
    by_contra hne
    rw [h j hlt hne] at hunfinished
    cases hunfinished
  exact lt_of_le_of_lt (Finset.card_le_card hsub) (by simpa using hlimit)

end Prog
