import Mathlib.Logic.Function.Basic
import Mathlib.Data.Finset.Card
import Mathlib.Data.Fintype.Basic

/-!
# Programs of atomic operations

A program is a tree of calls to the operations of an interface, each with a
continuation for every reply. It can stop with a value or with an error, and
it can run a bounded number of tasks at a time. `Step` executes one
operation of one task, so any interleaving of tasks and of other programs
over the same state is a sequence of steps.
-/

structure Interface where
  Op : Type
  Res : Op → Type

/-- What the operations do to a state. A relation, as an operation may fail or
answer in several ways. -/
abbrev Effects (I : Interface) (σ : Type) := (op : I.Op) → σ → I.Res op → σ → Prop

/-- Effects that also write down every operation and its reply. -/
def Effects.logged (E : Effects I σ) : Effects I (σ × List ((op : I.Op) × I.Res op)) :=
  fun op s r s' => E op s.1 r s'.1 ∧ s'.2 = s.2 ++ [⟨op, r⟩]

/-- `fork` runs `count` tasks, at most `limit` of them at a time, and goes on
with the first error or, once every task has ended, without one. -/
inductive Prog (I : Interface) : Type → Type 1
  | ret (a : α) : Prog I α
  | throw (e : String) : Prog I α
  | call (op : I.Op) (next : I.Res op → Prog I α) : Prog I α
  | fork (limit count : Nat) (tasks : Fin count → Prog I Unit)
      (next : Except String Unit → Prog I α) : Prog I α

namespace Prog

variable {I : Interface} {σ : Type}

def bind : Prog I α → (α → Prog I β) → Prog I β
  | .ret a, f => f a
  | .throw e, _ => .throw e
  | .call op next, f => .call op fun r => (next r).bind f
  | .fork limit count tasks next, f => .fork limit count tasks fun r => (next r).bind f

instance : Monad (Prog I) where
  pure := .ret
  bind := bind

@[simp] theorem pure_eq (a : α) : (pure a : Prog I α) = .ret a := rfl

@[simp] theorem ret_bind (a : α) (f : α → Prog I β) : (.ret a : Prog I α) >>= f = f a := rfl

@[simp] theorem throw_bind (e : String) (f : α → Prog I β) :
    (.throw e : Prog I α) >>= f = .throw e := rfl

@[simp] theorem call_bind (op : I.Op) (next : I.Res op → Prog I α) (f : α → Prog I β) :
    .call op next >>= f = .call op fun r => next r >>= f := rfl

@[simp] theorem fork_bind (limit count : Nat) (tasks : Fin count → Prog I Unit)
    (next : Except String Unit → Prog I α) (f : α → Prog I β) :
    .fork limit count tasks next >>= f = .fork limit count tasks fun r => next r >>= f := rfl

theorem bind_assoc (p : Prog I α) (f : α → Prog I β) (g : β → Prog I γ) :
    p >>= f >>= g = p >>= fun a => f a >>= g := by
  induction p with
  | ret a => rfl
  | throw e => rfl
  | call op next ih => simp only [call_bind, ih]
  | fork limit count tasks next _ ih => simp only [fork_bind, ih]

def ofExcept : Except String α → Prog I α
  | .ok a => .ret a
  | .error e => .throw e

/-- One operation, whose reply `read` turns into a value or an error. -/
def ask (op : I.Op) (read : I.Res op → Except String α) : Prog I α :=
  .call op fun r => ofExcept (read r)

/-- A program whose failure is handed on as a value. -/
def attempt : Prog I α → Prog I (Except String α)
  | .ret a => .ret (.ok a)
  | .throw e => .ret (.error e)
  | .call op next => .call op fun r => (next r).attempt
  | .fork limit count tasks next => .fork limit count tasks fun r => (next r).attempt

/-- One task for each element, the first error ending the whole. -/
def forConcurrently (limit : Nat) (l : List β) (f : β → Prog I Unit) : Prog I Unit :=
  .fork limit l.length (fun i => f l[i]) ofExcept

/-- `release` follows however the body ends. -/
def bracket (acquire release : Prog I Unit) (body : Prog I α) : Prog I α := do
  acquire
  let result ← body.attempt
  release
  ofExcept result

def finished : Prog I α → Bool
  | .ret _ => true
  | _ => false

def ended : Prog I α → Bool
  | .ret _ | .throw _ => true
  | _ => false

theorem finished_iff {p : Prog I Unit} : p.finished = true ↔ p = .ret () := by
  cases p <;> simp [finished]

theorem attempt_bind (p : Prog I α) (f : α → Prog I β) :
    (p >>= f).attempt = p.attempt >>= fun
      | .ok a => (f a).attempt
      | .error e => .ret (.error e) := by
  induction p with
  | ret a => rfl
  | throw e => rfl
  | call op next ih => simp only [call_bind, attempt, ih]
  | fork limit count tasks next _ ih => simp only [fork_bind, attempt, ih]

-- ---------------------------------------------------------------------------
-- Execution
-- ---------------------------------------------------------------------------

/-- Whether task `i` is among the first `limit` unfinished ones. -/
def Running (limit : Nat) (tasks : Fin count → Prog I Unit) (i : Fin count) : Prop :=
  ((Finset.univ.filter fun j => j < i ∧ (tasks j).finished = false).card) < limit

/-- One operation, or a fork going on past its tasks. A task that failed
leaves the others free to go on until the fork takes notice. -/
inductive Step (E : Effects I σ) : σ → Prog I α → σ → Prog I α → Prop
  | call {o : I.Op} {k : I.Res o → Prog I α} {r : I.Res o} : E o s r s' →
      Step E s (.call o k) s' (k r)
  | task {count : Nat} {tasks : Fin count → Prog I Unit} {next : Except String Unit → Prog I α}
      (i : Fin count) : Running limit tasks i → Step E s (tasks i) s' t →
      Step E s (.fork limit count tasks next) s' (.fork limit count (Function.update tasks i t) next)
  | join {tasks : Fin count → Prog I Unit} {k : Except String Unit → Prog I α} :
      (∀ i, tasks i = .ret ()) → Step E s (.fork limit count tasks k) s (k (.ok ()))
  | abort {tasks : Fin count → Prog I Unit} {k : Except String Unit → Prog I α} (i : Fin count) :
      tasks i = .throw e → Step E s (.fork limit count tasks k) s (k (.error e))

/-- A run of any length, which need not end. -/
inductive Steps (E : Effects I σ) (s : σ) (p : Prog I α) : σ → Prog I α → Prop
  | refl : Steps E s p s p
  | tail : Steps E s p s' p' → Step E s' p' s'' p'' → Steps E s p s'' p''

variable {E : Effects I σ}

theorem Steps.trans (h : Steps E s p s' p') (h' : Steps E s' p' s'' p'') : Steps E s p s'' p'' := by
  induction h' with
  | refl => exact h
  | tail _ hs ih => exact .tail ih hs

theorem step_call {op : I.Op} {next : I.Res op → Prog I α} (h : Step E s (.call op next) s' q) :
    ∃ r, E op s r s' ∧ q = next r := by
  cases h with
  | call he => exact ⟨_, he, rfl⟩

theorem step_fork {tasks : Fin count → Prog I Unit} {next : Except String Unit → Prog I α}
    (h : Step E s (.fork limit count tasks next) s' q) :
    (∃ i t, Running limit tasks i ∧ Step E s (tasks i) s' t ∧
      q = .fork limit count (Function.update tasks i t) next) ∨
    ((∀ i, tasks i = .ret ()) ∧ s' = s ∧ q = next (.ok ())) ∨
    ∃ i e, tasks i = .throw e ∧ s' = s ∧ q = next (.error e) := by
  cases h with
  | task i hr ht => exact .inl ⟨i, _, hr, ht, rfl⟩
  | join hall => exact .inr (.inl ⟨hall, rfl, rfl⟩)
  | abort i hi => exact .inr (.inr ⟨i, _, hi, rfl, rfl⟩)

theorem Step.bind (f : α → Prog I β) (h : Step E s p s' p') : Step E s (p >>= f) s' (p' >>= f) := by
  cases h with
  | call he => exact .call (k := fun r => _ >>= f) he
  | task i hr ht => exact .task i hr ht
  | join hall => exact .join (k := fun r => _ >>= f) hall
  | abort i hi => exact .abort (k := fun r => _ >>= f) i hi

theorem Steps.bind (f : α → Prog I β) (h : Steps E s p s' p') :
    Steps E s (p >>= f) s' (p' >>= f) := by
  induction h with
  | refl => exact .refl
  | tail _ hs ih => exact .tail ih (hs.bind f)

theorem Steps.ask_bind {op : I.Op} {r : I.Res op} {read : I.Res op → Except String α} {f : α → Prog I β}
    (he : E op s r s₁) (hread : read r = .ok a) (h : Steps E s₁ (f a) s' q) :
    Steps E s (ask op read >>= f) s' q := by
  have hfirst : Step E s (ask op read >>= f) s₁ (ofExcept (read r) >>= f) :=
    .call (k := fun r => ofExcept (read r) >>= f) he
  rw [hread] at hfirst
  exact (Steps.tail .refl hfirst).trans h

theorem Steps.asked {op : I.Op} {r : I.Res op} {read : I.Res op → Except String α} (he : E op s r s')
    (hread : read r = .ok a) : Steps E s (ask op read) s' (.ret a) := by
  have hstep : Step E s (ask op read) s' (ofExcept (read r)) := .call (k := fun r => ofExcept (read r)) he
  rw [hread] at hstep
  exact .tail .refl hstep

theorem Step.map {E' : Effects I τ} {p p' : Prog I α} (h : Step E s p s' p')
    (hop : ∀ op r, E op s r s' → E' op t r t') (hsame : s' = s → t' = t) :
    Step E' t p t' p' := by
  induction h with
  | call he => exact .call (hop _ _ he)
  | task i hr _ ih => exact .task i hr (ih hop hsame)
  | join hall => rw [hsame rfl]; exact .join hall
  | abort i hi => rw [hsame rfl]; exact .abort i hi

theorem Step.lift {F : Effects I τ} {p p' : Prog I α} {R : σ → τ → Prop}
    (hop : ∀ op s r s' t, R s t → E op s r s' → ∃ t', R s' t' ∧ F op t r t')
    (h : Step E s p s' p') (ht : R s t) : ∃ t', R s' t' ∧ Step F t p t' p' := by
  induction h with
  | call he =>
    obtain ⟨t', ht', he'⟩ := hop _ _ _ _ _ ht he
    exact ⟨t', ht', .call he'⟩
  | task i hr _ ih =>
    obtain ⟨t', ht', hs'⟩ := ih ht
    exact ⟨t', ht', .task i hr hs'⟩
  | join hall => exact ⟨t, ht, .join hall⟩
  | abort i hi => exact ⟨t, ht, .abort i hi⟩

theorem Steps.lift {F : Effects I τ} {p p' : Prog I α} {R : σ → τ → Prop}
    (hop : ∀ op s r s' t, R s t → E op s r s' → ∃ t', R s' t' ∧ F op t r t')
    (h : Steps E s p s' p') (ht : R s t) : ∃ t', R s' t' ∧ Steps F t p t' p' := by
  induction h with
  | refl => exact ⟨t, ht, .refl⟩
  | tail _ hs ih =>
    obtain ⟨t', ht', hs'⟩ := ih
    obtain ⟨t'', ht'', hs''⟩ := hs.lift hop ht'
    exact ⟨t'', ht'', .tail hs' hs''⟩

-- ---------------------------------------------------------------------------
-- The operations a program can reach
-- ---------------------------------------------------------------------------

/-- Every call the program can still make is of an `allowed` operation. -/
def Only (allowed : I.Op → Prop) : Prog I α → Prop
  | .ret _ => True
  | .throw _ => True
  | .call op next => allowed op ∧ ∀ r, (next r).Only allowed
  | .fork _ _ tasks next => (∀ i, (tasks i).Only allowed) ∧ ∀ r, (next r).Only allowed

@[simp] theorem only_ret (allowed : I.Op → Prop) (a : α) : (.ret a : Prog I α).Only allowed :=
  trivial

@[simp] theorem only_throw (allowed : I.Op → Prop) (e : String) :
    (.throw e : Prog I α).Only allowed := trivial

theorem Only.bind {allowed : I.Op → Prop} {p : Prog I α} {f : α → Prog I β}
    (hp : p.Only allowed) (hf : ∀ a, (f a).Only allowed) : (p >>= f).Only allowed := by
  induction p with
  | ret a => exact hf a
  | throw e => trivial
  | call op next ih => exact ⟨hp.1, fun r => ih r (hp.2 r) hf⟩
  | fork limit count tasks next _ ih => exact ⟨hp.1, fun r => ih r (hp.2 r) hf⟩

theorem Only.imp {few many : I.Op → Prop} {p : Prog I α} (h : p.Only few)
    (hop : ∀ op, few op → many op) : p.Only many := by
  induction p with
  | ret a => trivial
  | throw e => trivial
  | call op next ih => exact ⟨hop op h.1, fun r => ih r (h.2 r)⟩
  | fork limit count tasks next iht ih => exact ⟨fun i => iht i (h.1 i), fun r => ih r (h.2 r)⟩

theorem Only.ofExcept {allowed : I.Op → Prop} (x : Except String α) :
    (Prog.ofExcept x : Prog I α).Only allowed := by
  cases x <;> trivial

theorem Only.ask {allowed : I.Op → Prop} {op : I.Op} {read : I.Res op → Except String α}
    (h : allowed op) : (Prog.ask op read).Only allowed := ⟨h, fun r => Only.ofExcept (read r)⟩

theorem Only.attempt {allowed : I.Op → Prop} {p : Prog I α} (h : p.Only allowed) :
    p.attempt.Only allowed := by
  induction p with
  | ret a => trivial
  | throw e => trivial
  | call op next ih => exact ⟨h.1, fun r => ih r (h.2 r)⟩
  | fork limit count tasks next _ ih => exact ⟨h.1, fun r => ih r (h.2 r)⟩

theorem Only.forM {allowed : I.Op → Prop} {l : List β} {f : β → Prog I PUnit}
    (h : ∀ b ∈ l, (f b).Only allowed) : (l.forM f).Only allowed := by
  induction l with
  | nil => trivial
  | cons b l ih => exact (h b (by simp)).bind fun _ => ih fun c hc => h c (by simp [hc])

theorem Only.step {allowed : I.Op → Prop} {p p' : Prog I α} (h : p.Only allowed)
    (hs : Step E s p s' p') : p'.Only allowed := by
  induction hs with
  | call _ => exact h.2 _
  | @task _ _ _ _ _ _ tasks _ i _ _ ih =>
    refine ⟨fun j => ?_, h.2⟩
    by_cases hj : j = i
    · subst hj; simpa using ih (h.1 j)
    · simpa [hj] using h.1 j
  | join _ => exact h.2 _
  | abort _ _ => exact h.2 _

end Prog
