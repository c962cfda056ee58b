import Climate.Lib.Prog

/-!
# Safety under interference

`Safe E inv rely guar post s p`: from `s`, as long as everyone else keeps `inv`
and changes the state only as `rely` allows, every operation of `p` keeps
`inv` and changes the state only as `guar` allows, and a value `p` ends with
satisfies `post`, then and after any further interference. An error promises
nothing. `Safe.step` is the step lemma from which runs of a program, alone or
among others, are proved safe.
-/

namespace Prog

variable {I : Interface} {σ : Type}

inductive Safe (E : Effects I σ) (inv : σ → Prop) (rely guar : σ → σ → Prop) :
    {α : Type} → (α → σ → Prop) → σ → Prog I α → Prop
  | ret {post : α → σ → Prop} :
      (∀ s', inv s' → rely s s' → post a s') → Safe E inv rely guar post s (.ret a)
  | throw : Safe E inv rely guar post s (.throw e)
  | call {op : I.Op} {k : I.Res op → Prog I α} :
      (∀ s₁ r s₂, inv s₁ → rely s s₁ → E op s₁ r s₂ → inv s₂ ∧ guar s₁ s₂) →
      (∀ s₁ r s₂, inv s₁ → rely s s₁ → E op s₁ r s₂ →
        Safe E inv rely guar post s₂ (k r)) →
      Safe E inv rely guar post s (.call op k)
  | fork {tasks : Fin count → Prog I Unit} {Q : Fin count → σ → Prop} :
      (∀ s s', inv s → guar s s' → rely s s') →
      (∀ i, Safe E inv rely guar (fun _ => Q i) s (tasks i)) →
      (∀ s' r, inv s' → rely s s' → (r = .ok () → ∀ i, Q i s') →
        Safe E inv rely guar post s' (k r)) →
      Safe E inv rely guar post s (.fork limit count tasks k)

variable {E : Effects I σ} {inv : σ → Prop} {rely guar : σ → σ → Prop}

section
variable (refl : ∀ s, rely s s) (trans : ∀ a b c, rely a b → rely b c → rely a c)

include trans

theorem Safe.interfere {p : Prog I α} {post : α → σ → Prop} (h : Safe E inv rely guar post s p)
    (hr : rely s s') : Safe E inv rely guar post s' p := by
  induction h generalizing s' with
  | ret hpost => exact .ret fun t hi ht => hpost t hi (trans _ _ _ hr ht)
  | throw => exact .throw
  | call hop hnext _ =>
    exact .call (fun a r b hi ha he => hop a r b hi (trans _ _ _ hr ha) he)
      fun a r b hi ha he => hnext a r b hi (trans _ _ _ hr ha) he
  | fork hshared _ hnext iht _ =>
    exact .fork hshared (fun i => iht i hr) fun t r hi ht => hnext t r hi (trans _ _ _ hr ht)

include refl

/-- The step lemma: a step keeps the invariant, obeys the guarantee and
leaves a safe program. -/
theorem Safe.step {p p' : Prog I α} {post : α → σ → Prop} (h : Safe E inv rely guar post s p)
    (hi : inv s) (hs : Step E s p s' p') :
    inv s' ∧ (s' = s ∨ guar s s') ∧ Safe E inv rely guar post s' p' := by
  induction hs with
  | call he =>
    cases h with
    | call hop hnext =>
      obtain ⟨hi', hg⟩ := hop _ _ _ hi (refl _) he
      exact ⟨hi', .inr hg, hnext _ _ _ hi (refl _) he⟩
  | @task _ _ s s' _ _ _ _ i _ _ ih =>
    cases h with
    | fork hshared htasks hnext =>
      obtain ⟨hi', hg, ht⟩ := ih (htasks i) hi
      have hr : rely s s' := hg.elim (fun h => h ▸ refl s) (hshared s s' hi)
      refine ⟨hi', hg, .fork hshared (fun j => ?_) fun t r hit hrt => hnext t r hit (trans _ _ _ hr hrt)⟩
      by_cases hj : j = i
      · subst hj; simpa using ht
      · have hother := Safe.interfere trans (htasks j) hr
        simpa [hj] using hother
  | join hall =>
    cases h with
    | fork _ htasks hnext =>
      refine ⟨hi, .inl rfl, hnext _ _ hi (refl _) fun _ i => ?_⟩
      have ht := htasks i
      rw [hall i] at ht
      cases ht with
      | ret hpost => exact hpost _ hi (refl _)
  | abort i hti =>
    cases h with
    | fork _ _ hnext => exact ⟨hi, .inl rfl, hnext _ _ hi (refl _) fun h => by cases h⟩

theorem Safe.steps {p p' : Prog I α} {post : α → σ → Prop} (h : Safe E inv rely guar post s p)
    (hi : inv s) (hs : Steps E s p s' p') : inv s' ∧ Safe E inv rely guar post s' p' := by
  induction hs with
  | refl => exact ⟨hi, h⟩
  | tail _ hstep ih =>
    obtain ⟨hi', h'⟩ := ih
    obtain ⟨hi'', -, h''⟩ := h'.step refl trans hi' hstep
    exact ⟨hi'', h''⟩

end

theorem Safe.weaken {p : Prog I α} {post post' : α → σ → Prop}
    (h : Safe E inv rely guar post s p) (hp : ∀ a s, inv s → post a s → post' a s) :
    Safe E inv rely guar post' s p := by
  induction h with
  | ret hpost => exact .ret fun s' hi hr => hp _ _ hi (hpost s' hi hr)
  | throw => exact .throw
  | call hop _ ih => exact .call hop fun a r b hi ha he => ih a r b hi ha he hp
  | fork hshared htasks _ _ ih =>
    exact .fork hshared htasks fun t r hi ht hr => ih t r hi ht hr hp

theorem Safe.bind {p : Prog I α} {f : α → Prog I β} {Q : α → σ → Prop} {post : β → σ → Prop}
    (refl : ∀ s, rely s s) (h : Safe E inv rely guar Q s p) (hi : inv s)
    (hf : ∀ a s', inv s' → Q a s' → Safe E inv rely guar post s' (f a)) :
    Safe E inv rely guar post s (p >>= f) := by
  induction h with
  | ret hpost => exact hf _ _ hi (hpost _ hi (refl _))
  | throw => exact .throw
  | call hop _ ih =>
    exact .call (k := fun r => _ >>= f) hop fun a r b hia ha he =>
      ih a r b hia ha he (hop a r b hia ha he).1 hf
  | fork hshared htasks _ _ ih =>
    exact .fork (k := fun r => _ >>= f) hshared htasks fun t r hit ht hr => ih t r hit ht hr hit hf

/-- What neither the program nor interference undoes is still known when the
program ends. -/
theorem Safe.frame {p : Prog I α} {post : α → σ → Prop} {known : σ → Prop}
    (hrely : ∀ s s', rely s s' → known s → known s')
    (hguar : ∀ s s', inv s → guar s s' → known s → known s') (h : Safe E inv rely guar post s p)
    (hk : known s) : Safe E inv rely guar (fun a s => post a s ∧ known s) s p := by
  induction h with
  | ret hpost => exact .ret fun s' hi hr => ⟨hpost s' hi hr, hrely _ _ hr hk⟩
  | throw => exact .throw
  | call hop _ ih =>
    exact .call hop fun a r b hi ha he =>
      ih a r b hi ha he (hguar a b hi (hop a r b hi ha he).2 (hrely _ a ha hk))
  | fork hshared htasks _ _ ih =>
    exact .fork hshared htasks fun t r hi ht hr => ih t r hi ht hr (hrely _ t ht hk)

theorem Safe.attempt {p : Prog I α} {post : α → σ → Prop} (h : Safe E inv rely guar post s p) :
    Safe E inv rely guar (fun r s => ∀ a, r = .ok a → post a s) s p.attempt := by
  induction h with
  | ret hpost => exact .ret fun s' hi hr a ha => by cases ha; exact hpost s' hi hr
  | throw => exact .ret fun s' _ _ a ha => by cases ha
  | call hop _ ih => exact .call (k := fun r => (_ : Prog I _).attempt) hop ih
  | fork hshared htasks _ _ ih =>
    exact .fork (k := fun r => (_ : Prog I _).attempt) hshared htasks ih

theorem Safe.ofExcept {post : α → σ → Prop} {x : Except String α}
    (h : ∀ a s', x = .ok a → inv s' → rely s s' → post a s') :
    Safe E inv rely guar post s (Prog.ofExcept x : Prog I α) := by
  cases x with
  | ok a => exact .ret fun s' hi hr => h a s' rfl hi hr
  | error e => exact .throw

theorem Safe.ask {op : I.Op} {read : I.Res op → Except String α} {post : α → σ → Prop}
    (hop : ∀ s₁ r s₂, inv s₁ → rely s s₁ → E op s₁ r s₂ → inv s₂ ∧ guar s₁ s₂)
    (hpost : ∀ s₁ r s₂ s₃ a, inv s₁ → rely s s₁ → E op s₁ r s₂ → read r = .ok a →
      inv s₃ → rely s₂ s₃ → post a s₃) :
    Safe E inv rely guar post s (Prog.ask op read) :=
  .call hop fun a r b hi ha he => .ofExcept fun x t hx ht hrt => hpost a r b t x hi ha he hx ht hrt

theorem Safe.forM {l : List β} {f : β → Prog I PUnit} {known : σ → Prop} (refl : ∀ s, rely s s)
    (stable : ∀ {s s'}, rely s s' → known s → known s') (hi : inv s) (hk : known s)
    (h : ∀ b ∈ l, ∀ s, inv s → known s → Safe E inv rely guar (fun _ => known) s (f b)) :
    Safe E inv rely guar (fun _ => known) s (l.forM f) := by
  induction l generalizing s with
  | nil => exact .ret fun s' _ hr => stable hr hk
  | cons b l ih =>
    refine Safe.bind (Q := fun _ => known) refl (h b (by simp) s hi hk) hi ?_
    intro _ s' hi' hk'
    exact ih hi' hk' fun c hc => h c (by simp [hc])

/-- Tasks that do not disturb each other, each ending in what it is to
establish. -/
theorem Safe.forConcurrently {l : List β} {f : β → Prog I Unit} {known : β → σ → Prop}
    (shared : ∀ s s', inv s → guar s s' → rely s s')
    (stable : ∀ b s s', rely s s' → known b s → known b s')
    (h : ∀ b ∈ l, Safe E inv rely guar (fun _ => known b) s (f b)) :
    Safe E inv rely guar (fun _ s => ∀ b ∈ l, known b s) s (Prog.forConcurrently limit l f) := by
  refine .fork (Q := fun i => known l[i]) shared (fun i => h _ (List.getElem_mem i.isLt)) ?_
  intro s' r hi hr hended
  cases r with
  | error e => exact .throw
  | ok u =>
    refine .ret fun s'' _ hr' b hb => ?_
    obtain ⟨i, hi, rfl⟩ := List.getElem_of_mem hb
    exact stable _ _ _ hr' (hended rfl ⟨i, hi⟩)

end Prog
