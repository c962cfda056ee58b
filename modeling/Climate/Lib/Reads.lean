import Climate.Lib.Alone

/-!
# Programs that only read

`Reads E s p x`: left to itself in `s`, `p` changes nothing and has `x` for its
one outcome.
-/

namespace Prog

variable {I : Interface} {σ : Type} {E : Effects I σ} {s : σ}

inductive Reads (E : Effects I σ) (s : σ) : Prog I α → Except String α → Prop
  | ret (a : α) : Reads E s (.ret a) (.ok a)
  | throw (e : String) : Reads E s (.throw e) (.error e)
  | call {op : I.Op} {r : I.Res op} {next : I.Res op → Prog I α}
      (honly : ∀ r' s', E op s r' s' ↔ s' = s ∧ r' = r) (hnext : Reads E s (next r) x) :
      Reads E s (.call op next) x

namespace Reads

theorem ofExcept (x : Except String α) : Reads (α := α) E s (Prog.ofExcept x) x := by
  cases x with
  | ok a => exact .ret a
  | error e => exact .throw e

theorem ask {op : I.Op} {r : I.Res op} {read : I.Res op → Except String α}
    (honly : ∀ r' s', E op s r' s' ↔ s' = s ∧ r' = r) : Reads E s (Prog.ask op read) (read r) :=
  .call honly (.ofExcept _)

theorem bind {p : Prog I α} {f : α → Prog I β} {g : α → Except String β} (h : Reads E s p x)
    (hf : ∀ a, x = .ok a → Reads E s (f a) (g a)) : Reads E s (p >>= f) (x >>= g) := by
  induction h with
  | ret a => exact hf a rfl
  | throw e => exact .throw e
  | call honly _ ih => exact .call honly (ih hf)

/-- An operation that changes nothing, and what follows its reply. -/
theorem ask_bind {op : I.Op} {r : I.Res op} {read : I.Res op → Except String α} {f : α → Prog I β}
    (honly : ∀ r' s', E op s r' s' ↔ s' = s ∧ r' = r) (hread : read r = .ok a) (hf : Reads E s (f a) y) :
    Reads E s (Prog.ask op read >>= f) y := by
  refine .call honly ?_
  change Reads E s (Prog.ofExcept (read r) >>= f) y
  rw [hread]
  exact hf

theorem steps {p : Prog I α} (h : Reads E s p x) : Steps E s p s (Prog.ofExcept x) := by
  induction h with
  | ret a => exact .refl
  | throw e => exact .refl
  | call honly _ ih => exact (Steps.tail .refl (.call ((honly _ _).mpr ⟨rfl, rfl⟩))).trans ih

theorem outcome {p : Prog I α} (h : Reads E s p x) (hs : Steps E s p s' (Prog.ofExcept y)) :
    s' = s ∧ y = x := by
  induction h with
  | ret a =>
    rcases hs.cases_head with ⟨rfl, heq⟩ | ⟨_, _, hs, _⟩
    · cases y <;> cases heq
      exact ⟨rfl, rfl⟩
    · cases hs
  | throw e =>
    rcases hs.cases_head with ⟨rfl, heq⟩ | ⟨_, _, hs, _⟩
    · cases y <;> cases heq
      exact ⟨rfl, rfl⟩
    · cases hs
  | call honly _ ih =>
    rcases hs.cases_head with ⟨_, heq⟩ | ⟨s₁, p₁, hfirst, hrest⟩
    · cases y <;> cases heq
    · obtain ⟨r', he, rfl⟩ := step_call hfirst
      obtain ⟨rfl, rfl⟩ := (honly _ _).mp he
      exact ih hrest

/-- What is read is one thing. -/
theorem unique {p : Prog I α} (h : Reads E s p x) (h' : Reads E s p y) : x = y :=
  (h'.outcome h.steps).2

end Reads

end Prog
