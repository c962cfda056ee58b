import Climate.Lib.Prog

/-!
# Programs on their own

`Alone E pre post s p`: however `p` runs from `s`, with nobody else changing
the state, `pre` holds whenever it is about to make an operation, and `post`
when it ends with a value. The operations of a fork's tasks are not looked at.
-/

namespace Prog

variable {I : Interface} {σ : Type} {E : Effects I σ} {pre : I.Op → σ → Prop}

-- ---------------------------------------------------------------------------
-- Runs taken apart
-- ---------------------------------------------------------------------------

theorem Steps.cases_head (h : Steps E s p s' q) :
    (s' = s ∧ q = p) ∨ ∃ s₁ p₁, Step E s p s₁ p₁ ∧ Steps E s₁ p₁ s' q := by
  induction h with
  | refl => exact .inl ⟨rfl, rfl⟩
  | tail _ hs ih =>
    rcases ih with ⟨rfl, rfl⟩ | ⟨s₁, p₁, hfirst, hrest⟩
    · exact .inr ⟨_, _, hs, .refl⟩
    · exact .inr ⟨s₁, p₁, hfirst, .tail hrest hs⟩

theorem Step.of_bind {p : Prog I α} {f : α → Prog I β} (h : Step E s (p >>= f) s' q) :
    (∃ p', Step E s p s' p' ∧ q = p' >>= f) ∨ ∃ a, p = .ret a ∧ Step E s (f a) s' q := by
  cases p with
  | ret a => exact .inr ⟨a, rfl, h⟩
  | throw e => cases h
  | call op next =>
    obtain ⟨r, he, rfl⟩ := step_call h
    exact .inl ⟨next r, .call he, rfl⟩
  | fork limit count tasks next =>
    left
    rcases step_fork h with ⟨i, t, hr, ht, rfl⟩ | ⟨hall, rfl, rfl⟩ | ⟨i, e, hi, rfl, rfl⟩
    · exact ⟨_, .task i hr ht, rfl⟩
    · exact ⟨_, .join hall, rfl⟩
    · exact ⟨_, .abort i hi, rfl⟩

theorem Steps.of_bind {p : Prog I α} {f : α → Prog I β} (h : Steps E s (p >>= f) s' q) :
    (∃ p', Steps E s p s' p' ∧ q = p' >>= f) ∨
      ∃ a s₁, Steps E s p s₁ (.ret a) ∧ Steps E s₁ (f a) s' q := by
  induction h with
  | refl => exact .inl ⟨p, .refl, rfl⟩
  | tail _ hs ih =>
    rcases ih with ⟨p', hp, rfl⟩ | ⟨a, s₁, hp, hf⟩
    · rcases hs.of_bind with ⟨p'', hstep, rfl⟩ | ⟨a, rfl, hstep⟩
      · exact .inl ⟨p'', .tail hp hstep, rfl⟩
      · exact .inr ⟨a, _, hp, .tail .refl hstep⟩
    · exact .inr ⟨a, s₁, hp, .tail hf hs⟩

theorem Step.of_attempt {p : Prog I α} (h : Step E s p.attempt s' q) :
    ∃ p', Step E s p s' p' ∧ q = p'.attempt := by
  cases p with
  | ret a => cases h
  | throw e => cases h
  | call op next =>
    obtain ⟨r, he, rfl⟩ := step_call h
    exact ⟨next r, .call he, rfl⟩
  | fork limit count tasks next =>
    rcases step_fork h with ⟨i, t, hr, ht, rfl⟩ | ⟨hall, rfl, rfl⟩ | ⟨i, e, hi, rfl, rfl⟩
    · exact ⟨_, .task i hr ht, rfl⟩
    · exact ⟨_, .join hall, rfl⟩
    · exact ⟨_, .abort i hi, rfl⟩

theorem Steps.of_attempt {p : Prog I α} (h : Steps E s p.attempt s' q) :
    ∃ p', Steps E s p s' p' ∧ q = p'.attempt := by
  induction h with
  | refl => exact ⟨p, .refl, rfl⟩
  | tail _ hs ih =>
    obtain ⟨p', hp, rfl⟩ := ih
    obtain ⟨p'', hstep, rfl⟩ := hs.of_attempt
    exact ⟨p'', .tail hp hstep, rfl⟩

theorem Steps.of_bind_ended {p : Prog I α} {f : α → Prog I β} {x : Except String β}
    (h : Steps E s (p >>= f) s' (ofExcept x)) :
    (∃ e, x = .error e ∧ Steps E s p s' (.throw e)) ∨
      ∃ a s₁, Steps E s p s₁ (.ret a) ∧ Steps E s₁ (f a) s' (ofExcept x) := by
  rcases h.of_bind with ⟨p', hp, heq⟩ | hrest
  · cases p' with
    | ret a => exact .inr ⟨a, s', hp, by rw [heq]; exact .refl⟩
    | throw e =>
      cases x with
      | ok b => cases heq
      | error e' =>
        cases heq
        exact .inl ⟨e, rfl, hp⟩
    | _ => cases x <;> cases heq
  · exact .inr hrest

theorem Steps.of_attempt_ended {p : Prog I α} (h : Steps E s p.attempt s' (.ret x)) :
    Steps E s p s' (ofExcept x) := by
  obtain ⟨p', hp, heq⟩ := h.of_attempt
  cases p' with
  | ret a =>
    cases heq
    exact hp
  | throw e =>
    cases heq
    exact hp
  | _ => cases heq

theorem Steps.of_ret {a : α} {x : Except String α} (h : Steps E s (.ret a) s' (ofExcept x)) :
    s' = s ∧ x = .ok a := by
  rcases h.cases_head with ⟨rfl, heq⟩ | ⟨_, _, hs, _⟩
  · cases x <;> cases heq
    exact ⟨rfl, rfl⟩
  · cases hs

theorem Steps.of_ofExcept {x y : Except String α} (h : Steps E s (ofExcept y) s' (ofExcept x)) :
    s' = s ∧ x = y := by
  cases y with
  | ok a => exact h.of_ret
  | error e =>
    rcases h.cases_head with ⟨rfl, heq⟩ | ⟨_, _, hs, _⟩
    · cases x <;> cases heq
      exact ⟨rfl, rfl⟩
    · cases hs

/-- An attempt never fails. -/
theorem Steps.attempt_ne_throw {p : Prog I α} (h : Steps E s p.attempt s' (.throw e)) : False := by
  obtain ⟨p', -, heq⟩ := h.of_attempt
  cases p' <;> cases heq

-- ---------------------------------------------------------------------------
-- Logged runs
-- ---------------------------------------------------------------------------

theorem Step.unlogged {c c' : σ × List ((op : I.Op) × I.Res op)} {p p' : Prog I α}
    (h : Step E.logged c p c' p') : Step E c.1 p c'.1 p' :=
  h.map (fun _ _ he => he.1) fun hsame => by rw [hsame]

theorem Step.logs {p p' : Prog I α} (h : Step E s p s' p') (log : List ((op : I.Op) × I.Res op)) :
    ∃ log', Step E.logged (s, log) p (s', log') p' := by
  obtain ⟨⟨t, log'⟩, rfl, hs⟩ := h.lift (F := E.logged) (R := fun s c => c.1 = s)
    (fun op s r s' c hc he => ⟨(s', c.2 ++ [⟨op, r⟩]), rfl, hc ▸ he, rfl⟩) (show (s, log).1 = s from rfl)
  exact ⟨log', hs⟩

theorem Steps.unlogged {c c' : σ × List ((op : I.Op) × I.Res op)} {p p' : Prog I α}
    (h : Steps E.logged c p c' p') : Steps E c.1 p c'.1 p' := by
  obtain ⟨t, rfl, hs⟩ := h.lift (F := E) (R := fun c s => s = c.1)
    (fun op c r c' s hc he => ⟨c'.1, rfl, hc ▸ he.1⟩) rfl
  exact hs

/-- What is in the log stays there. -/
theorem Steps.log_prefix {c c' : σ × List ((op : I.Op) × I.Res op)} {p p' : Prog I α}
    (h : Steps E.logged c p c' p') : c.2 <+: c'.2 := by
  have hop : ∀ op (s : σ × List ((op : I.Op) × I.Res op)) r s' t, t = s ∧ c.2 <+: t.2 → E.logged op s r s' →
      ∃ t', (t' = s' ∧ c.2 <+: t'.2) ∧ E.logged op t r t' := by
    rintro op s r s' _ ⟨rfl, hprefix⟩ he
    refine ⟨s', ⟨rfl, ?_⟩, he⟩
    rw [he.2]
    exact hprefix.trans (List.prefix_append _ _)
  obtain ⟨t, ⟨rfl, hprefix⟩, -⟩ := h.lift hop ⟨rfl, List.prefix_rfl⟩
  exact hprefix

-- ---------------------------------------------------------------------------
-- Programs without tasks
-- ---------------------------------------------------------------------------

def Sequential : Prog I α → Prop
  | .ret _ => True
  | .throw _ => True
  | .call _ next => ∀ r, (next r).Sequential
  | .fork _ _ _ _ => False

namespace Sequential

theorem ofExcept (x : Except String α) : (Prog.ofExcept x : Prog I α).Sequential := by
  cases x <;> trivial

theorem ask (op : I.Op) (read : I.Res op → Except String α) : (Prog.ask op read).Sequential :=
  fun r => ofExcept (read r)

theorem bind {p : Prog I α} {f : α → Prog I β} (hp : p.Sequential) (hf : ∀ a, (f a).Sequential) :
    (p >>= f).Sequential := by
  induction p with
  | ret a => exact hf a
  | throw e => trivial
  | call op next ih => exact fun r => ih r (hp r) hf
  | fork limit count tasks next => exact hp.elim

theorem attempt {p : Prog I α} (hp : p.Sequential) : p.attempt.Sequential := by
  induction p with
  | ret a => trivial
  | throw e => trivial
  | call op next ih => exact fun r => ih r (hp r)
  | fork limit count tasks next => exact hp.elim

theorem forM {l : List β} {f : β → Prog I PUnit} (hf : ∀ b, (f b).Sequential) :
    (l.forM f).Sequential := by
  induction l with
  | nil => trivial
  | cons b l ih => exact bind (hf b) fun _ => ih

theorem step {p p' : Prog I α} (h : p.Sequential) (hs : Step E s p s' p') : p'.Sequential := by
  cases hs with
  | call _ => exact h _
  | task _ _ _ | join _ | abort _ _ => exact h.elim

end Sequential

-- ---------------------------------------------------------------------------
-- The rules
-- ---------------------------------------------------------------------------

structure Ready (pre : I.Op → σ → Prop) (post : α → σ → Prop) (s : σ) (p : Prog I α) : Prop where
  op : ∀ op next, p = .call op next → pre op s
  value : ∀ a, p = .ret a → post a s

def Alone (E : Effects I σ) (pre : I.Op → σ → Prop) (post : α → σ → Prop) (s : σ)
    (p : Prog I α) : Prop :=
  ∀ s' p', Steps E s p s' p' → Ready pre post s' p'

namespace Alone

theorem ret {post : α → σ → Prop} (h : post a s) : Alone E pre post s (.ret a) := by
  intro s' p' hs
  rcases hs.cases_head with ⟨rfl, rfl⟩ | ⟨_, _, hs, _⟩
  · exact ⟨by simp, fun _ ha => by cases ha; exact h⟩
  · cases hs

theorem throw {post : α → σ → Prop} : Alone E pre post s (.throw e) := by
  intro s' p' hs
  rcases hs.cases_head with ⟨rfl, rfl⟩ | ⟨_, _, hs, _⟩
  · exact ⟨by simp, by simp⟩
  · cases hs

theorem call {op : I.Op} {next : I.Res op → Prog I α} {post : α → σ → Prop} (hpre : pre op s)
    (hnext : ∀ r s', E op s r s' → Alone E pre post s' (next r)) :
    Alone E pre post s (.call op next) := by
  intro s' p' hs
  rcases hs.cases_head with ⟨rfl, rfl⟩ | ⟨s₁, p₁, hfirst, hrest⟩
  · exact ⟨fun _ _ h => by cases h; exact hpre, by simp⟩
  · obtain ⟨r, he, rfl⟩ := step_call hfirst
    exact hnext r s₁ he s' p' hrest

theorem ofExcept {post : α → σ → Prop} {x : Except String α} (h : ∀ a, x = .ok a → post a s) :
    Alone E pre post s (Prog.ofExcept x) := by
  cases x with
  | ok a => exact .ret (h a rfl)
  | error e => exact .throw

theorem ask {op : I.Op} {read : I.Res op → Except String α} {post : α → σ → Prop}
    (hpre : pre op s) (hpost : ∀ r s' a, E op s r s' → read r = .ok a → post a s') :
    Alone E pre post s (Prog.ask op read) :=
  .call hpre fun r s' he => .ofExcept fun a ha => hpost r s' a he ha

theorem bind {p : Prog I α} {f : α → Prog I β} {Q : α → σ → Prop} {post : β → σ → Prop}
    (h : Alone E pre Q s p) (hf : ∀ a s', Q a s' → Alone E pre post s' (f a)) :
    Alone E pre post s (p >>= f) := by
  intro s' q hs
  rcases hs.of_bind with ⟨p', hp, rfl⟩ | ⟨a, s₁, hp, hrest⟩
  · have hready := h s' p' hp
    cases p' with
    | ret a => exact hf a s' (hready.value a rfl) s' _ .refl
    | throw e => exact ⟨by simp, by simp⟩
    | call op next => exact ⟨fun _ _ h => by cases h; exact hready.op op next rfl, by simp⟩
    | fork limit count tasks next => exact ⟨by simp, by simp⟩
  · exact hf a s₁ ((h s₁ _ hp).value a rfl) s' q hrest

/-- An operation and what follows it. -/
theorem ask_bind {op : I.Op} {read : I.Res op → Except String α} {f : α → Prog I β}
    {post : β → σ → Prop} (hpre : pre op s)
    (hf : ∀ r s' a, E op s r s' → read r = .ok a → Alone E pre post s' (f a)) :
    Alone E pre post s (Prog.ask op read >>= f) := by
  refine .call hpre fun r s' he => ?_
  change Alone E pre post s' (Prog.ofExcept (read r) >>= f)
  cases hread : read r with
  | ok a => exact hf r s' a he hread
  | error e => exact .throw

/-- A loop, by an invariant over the elements done. -/
theorem forM {l : List β} {f : β → Prog I PUnit} {inv : List β → σ → Prop} (hi : inv [] s)
    (hstep : ∀ done b rest s, l = done ++ b :: rest → inv done s →
      Alone E pre (fun _ => inv (done ++ [b])) s (f b)) :
    Alone E pre (fun _ => inv l) s (l.forM f) := by
  suffices h : ∀ rest done s, l = done ++ rest → inv done s →
      Alone E pre (fun _ => inv l) s (rest.forM f) from h l [] s rfl hi
  intro rest
  induction rest with
  | nil =>
    intro done s hl hdone
    rw [List.append_nil] at hl
    exact .ret (hl ▸ hdone)
  | cons b rest ih =>
    intro done s hl hdone
    refine .bind (hstep done b rest s hl hdone) fun _ s' hs' => ih (done ++ [b]) s' ?_ hs'
    rw [hl, List.append_assoc, List.singleton_append]

/-- A loop, by an invariant of each of its steps. -/
theorem each {l : List β} {f : β → Prog I PUnit} {inv : σ → Prop} (hi : inv s)
    (hstep : ∀ b ∈ l, ∀ s, inv s → Alone E pre (fun _ => inv) s (f b)) :
    Alone E pre (fun _ => inv) s (l.forM f) := by
  induction l generalizing s with
  | nil => exact .ret hi
  | cons b l ih =>
    exact .bind (hstep b (by simp) s hi) fun _ s' hi' => ih hi' fun c hc => hstep c (by simp [hc])

theorem attempt {p : Prog I α} {post : α → σ → Prop} (h : Alone E pre post s p) :
    Alone E pre (fun r s => ∀ a, r = .ok a → post a s) s p.attempt := by
  intro s' q hs
  obtain ⟨p', hp, rfl⟩ := hs.of_attempt
  have hready := h s' p' hp
  cases p' with
  | ret a =>
    refine ⟨by simp [Prog.attempt], fun r hr b hb => ?_⟩
    cases hr
    cases hb
    exact hready.value a rfl
  | throw e => exact ⟨by simp [Prog.attempt], fun r hr b hb => by cases hr; cases hb⟩
  | call op next => exact ⟨fun _ _ h => by cases h; exact hready.op op next rfl, by simp [Prog.attempt]⟩
  | fork limit count tasks next => exact ⟨by simp [Prog.attempt], by simp [Prog.attempt]⟩

theorem any {p : Prog I α} : Alone E (fun _ _ => True) (fun _ _ => True) s p :=
  fun _ _ _ => ⟨fun _ _ _ => trivial, fun _ _ => trivial⟩

theorem weaken {p : Prog I α} {post post' : α → σ → Prop} (h : Alone E pre post s p)
    (hp : ∀ a s, post a s → post' a s) : Alone E pre post' s p :=
  fun s' p' hs => ⟨(h s' p' hs).op, fun a ha => hp a s' ((h s' p' hs).value a ha)⟩

theorem both {p : Prog I α} {pre' : I.Op → σ → Prop} {post post' : α → σ → Prop}
    (h : Alone E pre post s p) (h' : Alone E pre' post' s p) :
    Alone E pre (fun a s => post a s ∧ post' a s) s p :=
  fun s' p' hs => ⟨(h s' p' hs).op, fun a ha => ⟨(h s' p' hs).value a ha, (h' s' p' hs).value a ha⟩⟩

/-- Fewer effects, fewer runs. -/
theorem mono {F : Effects I σ} {p : Prog I α} {post : α → σ → Prop}
    (hop : ∀ op s r s', F op s r s' → E op s r s') (h : Alone E pre post s p) :
    Alone F pre post s p := by
  intro s' p' hs
  obtain ⟨t, rfl, hs'⟩ := hs.lift (F := E) (R := fun s t => s = t)
    (fun op s r s' t ht he => ⟨s', rfl, ht ▸ hop op s r s' he⟩) rfl
  exact h s' p' hs'

/-- What every operation keeps in the states it is made in, a run keeps. -/
theorem invariant {p p' : Prog I α} {post : α → σ → Prop} {inv : σ → Prop}
    (h : Alone E pre post s p) (hseq : p.Sequential) (hi : inv s)
    (hstep : ∀ op r s s', inv s → pre op s → E op s r s' → inv s') (hs : Steps E s p s' p') :
    inv s' := by
  suffices hboth : inv s' ∧ p'.Sequential from hboth.1
  induction hs with
  | refl => exact ⟨hi, hseq⟩
  | @tail s₁ p₁ s₂ p₂ hrun hlast ih =>
    obtain ⟨hi₁, hseq₁⟩ := ih
    cases hlast with
    | call he => exact ⟨hstep _ _ _ _ hi₁ ((h s₁ _ hrun).op _ _ rfl) he, hseq₁ _⟩
    | task _ _ _ | join _ | abort _ _ => exact hseq₁.elim

/-- A program that never makes an operation `pre` is about. -/
theorem only {p : Prog I α} (h : p.Only fun op => ∀ s, pre op s) :
    Alone E pre (fun _ _ => True) s p := by
  intro s' p' hs
  have hp : p'.Only fun op => ∀ s, pre op s := by
    induction hs with
    | refl => exact h
    | tail _ hstep ih => exact ih.step hstep
  refine ⟨?_, fun _ _ => trivial⟩
  rintro op next rfl
  exact hp.1 s'

end Alone

-- ---------------------------------------------------------------------------
-- Programs that do not fail
-- ---------------------------------------------------------------------------

/-- However `p` runs from `s` on its own, it does not end with an error. -/
abbrev Succeeds (E : Effects I σ) (pre : I.Op → σ → Prop) (post : α → σ → Prop) (s : σ)
    (p : Prog I α) : Prop :=
  Alone E pre (fun r s => ∃ a, r = .ok a ∧ post a s) s p.attempt

namespace Succeeds

theorem ret {post : α → σ → Prop} (h : post a s) : Succeeds E pre post s (.ret a) :=
  Alone.ret ⟨a, rfl, h⟩

theorem bind {p : Prog I α} {f : α → Prog I β} {Q : α → σ → Prop} {post : β → σ → Prop}
    (h : Succeeds E pre Q s p) (hf : ∀ a s', Q a s' → Succeeds E pre post s' (f a)) :
    Succeeds E pre post s (p >>= f) := by
  rw [Succeeds, attempt_bind]
  refine Alone.bind h fun r s' hr => ?_
  obtain ⟨a, rfl, hq⟩ := hr
  exact hf a s' hq

theorem ask_bind {op : I.Op} {read : I.Res op → Except String α} {f : α → Prog I β}
    {post : β → σ → Prop} (hpre : pre op s)
    (hf : ∀ r s', E op s r s' → ∃ a, read r = .ok a ∧ Succeeds E pre post s' (f a)) :
    Succeeds E pre post s (Prog.ask op read >>= f) := by
  refine Alone.call hpre fun r s' he => ?_
  obtain ⟨a, hread, hrest⟩ := hf r s' he
  change Alone E pre _ s' (Prog.ofExcept (read r) >>= f).attempt
  rw [hread]
  exact hrest

theorem ask {op : I.Op} {read : I.Res op → Except String α} {post : α → σ → Prop} (hpre : pre op s)
    (h : ∀ r s', E op s r s' → ∃ a, read r = .ok a ∧ post a s') :
    Succeeds E pre post s (Prog.ask op read) := by
  refine Alone.call hpre fun r s' he => ?_
  obtain ⟨a, hread, hpost⟩ := h r s' he
  change Alone E pre _ s' (Prog.ofExcept (read r)).attempt
  rw [hread]
  exact Succeeds.ret hpost

end Succeeds

-- ---------------------------------------------------------------------------
-- Programs that end either way
-- ---------------------------------------------------------------------------

/-- However `p` ends on its own, with a value or an error, `post` holds. -/
abbrev Ends (E : Effects I σ) (pre : I.Op → σ → Prop) (post : Except String α → σ → Prop) (s : σ)
    (p : Prog I α) : Prop :=
  Alone E pre post s p.attempt

theorem attempt_attempt (p : Prog I α) : p.attempt.attempt = p.attempt >>= fun r => .ret (.ok r) := by
  induction p with
  | ret a => rfl
  | throw e => rfl
  | call op next ih => simp only [Prog.attempt, call_bind, ih]
  | fork limit count tasks next _ ih => simp only [Prog.attempt, fork_bind, ih]

theorem Steps.attempt {p p' : Prog I α} (h : Steps E s p s' p') : Steps E s p.attempt s' p'.attempt := by
  induction h with
  | refl => exact .refl
  | tail _ hs ih =>
    refine .tail ih ?_
    cases hs with
    | call he => exact .call (k := fun r => (_ : Prog I _).attempt) he
    | task i hr ht => exact .task i hr ht
    | join hall => exact .join (k := fun r => (_ : Prog I _).attempt) hall
    | abort i hi => exact .abort (k := fun r => (_ : Prog I _).attempt) i hi

namespace Ends

variable {post : Except String α → σ → Prop}

theorem ret (h : post (.ok a) s) : Ends E pre post s (.ret a) := Alone.ret h

theorem throw (h : post (.error e) s) : Ends E pre post s (.throw e) := Alone.ret h

theorem ofExcept {x : Except String α} (h : post x s) : Ends E pre post s (Prog.ofExcept x) := by
  cases x with
  | ok a => exact .ret h
  | error e => exact .throw h

theorem ofExcept_bind {x : Except String β} {f : β → Prog I α}
    (hok : ∀ b, x = .ok b → Ends E pre post s (f b)) (herror : ∀ e, x = .error e → post (.error e) s) :
    Ends E pre post s (Prog.ofExcept x >>= f) := by
  cases x with
  | ok b => exact hok b rfl
  | error e => exact .throw (herror e rfl)

theorem bind {p : Prog I β} {f : β → Prog I α} {Q : Except String β → σ → Prop}
    (h : Ends E pre Q s p) (hok : ∀ b s', Q (.ok b) s' → Ends E pre post s' (f b))
    (herror : ∀ e s', Q (.error e) s' → post (.error e) s') : Ends E pre post s (p >>= f) := by
  rw [Ends, attempt_bind]
  refine Alone.bind h fun r s' hr => ?_
  cases r with
  | ok b => exact hok b s' hr
  | error e => exact .ret (herror e s' hr)

theorem ask_bind {op : I.Op} {read : I.Res op → Except String β} {f : β → Prog I α} (hpre : pre op s)
    (hok : ∀ r s' b, E op s r s' → read r = .ok b → Ends E pre post s' (f b))
    (herror : ∀ r s' e, E op s r s' → read r = .error e → post (.error e) s') :
    Ends E pre post s (Prog.ask op read >>= f) := by
  refine Alone.call hpre fun r s' he => ?_
  change Alone E pre post s' (Prog.ofExcept (read r) >>= f).attempt
  cases hread : read r with
  | ok b => exact hok r s' b he hread
  | error e => exact .ret (herror r s' e he hread)

theorem ask {op : I.Op} {read : I.Res op → Except String α} (hpre : pre op s)
    (h : ∀ r s', E op s r s' → post (read r) s') : Ends E pre post s (Prog.ask op read) :=
  Alone.call hpre fun r s' he => ofExcept (h r s' he)

/-- An attempt and what follows it, however it ended. -/
theorem attempt_bind {p : Prog I β} {f : Except String β → Prog I α} {Q : Except String β → σ → Prop}
    (h : Ends E pre Q s p) (hf : ∀ r s', Q r s' → Ends E pre post s' (f r)) :
    Ends E pre post s (p.attempt >>= f) := by
  rw [Ends, Prog.attempt_bind, attempt_attempt, bind_assoc]
  exact Alone.bind h hf

/-- What holds throughout holds at the end. -/
theorem of_invariant {p : Prog I α} {J : σ → Prop}
    (h : ∀ s' p', Steps E s p.attempt s' p' → J s') : Ends E (fun _ _ => True) (fun _ => J) s p :=
  fun s' p' hs => ⟨fun _ _ _ => trivial, fun _ _ => h s' p' hs⟩

theorem weaken {p : Prog I α} {post' : Except String α → σ → Prop} (h : Ends E pre post s p)
    (hp : ∀ r s, post r s → post' r s) : Ends E pre post' s p :=
  Alone.weaken h hp

/-- What holds after a value, and what after an error. -/
def Outcome (bad : σ → Prop) (good : α → σ → Prop) : Except String α → σ → Prop
  | .ok a, s => good a s
  | .error _, s => bad s

theorem seq {p : Prog I β} {f : β → Prog I α} {bad : σ → Prop} {Q : β → σ → Prop} {good : α → σ → Prop}
    (h : Ends E pre (Outcome bad Q) s p)
    (hf : ∀ b s', Q b s' → Ends E pre (Outcome bad good) s' (f b)) :
    Ends E pre (Outcome bad good) s (p >>= f) :=
  bind h hf fun _ _ hbad => hbad

/-- A loop, by an invariant over the elements done. -/
theorem forM {l : List β} {f : β → Prog I PUnit} {bad : σ → Prop} {J : List β → σ → Prop}
    (hi : J [] s)
    (hstep : ∀ done b rest s, l = done ++ b :: rest → J done s →
      Ends E pre (Outcome bad fun _ => J (done ++ [b])) s (f b)) :
    Ends E pre (Outcome bad fun _ => J l) s (l.forM f) := by
  suffices h : ∀ rest done s, l = done ++ rest → J done s →
      Ends E pre (Outcome bad fun _ => J l) s (rest.forM f) from h l [] s rfl hi
  intro rest
  induction rest with
  | nil =>
    intro done s hl hdone
    rw [List.append_nil] at hl
    exact .ret (hl ▸ hdone)
  | cons b rest ih =>
    intro done s hl hdone
    refine seq (hstep done b rest s hl hdone) fun _ s' hs' => ih (done ++ [b]) s' ?_ hs'
    rw [hl, List.append_assoc, List.singleton_append]

/-- What a run that ended with an error leaves. -/
theorem thrown {p : Prog I α} (h : Ends E pre post s p) (hs : Steps E s p s' (.throw e)) :
    post (.error e) s' :=
  (h s' _ hs.attempt).value (.error e) rfl

end Ends

end Prog
