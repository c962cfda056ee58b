import Climate.Lib.Interrupt

/-!
# Threads beside each other

Threads that run programs, each on a part of the state of its own, which
others may change too. A thread is known by the replies it has had, which say
where in its program it is. Whatever turns the threads take, each has made an
interrupted run of its program.
-/

namespace Prog

open Relation (ReflTransGen)

inductive After {I : Interface} (p : Prog I α) : List ((op : I.Op) × I.Res op) → Prog I α → Prop
  | start : After p [] p
  | reply {op : I.Op} {k : I.Res op → Prog I α} (r : I.Res op) :
      After p log (.call op k) → After p (log ++ [⟨op, r⟩]) (k r)

variable {I : Interface} {σ ι : Type}

theorem After.snoc {p q : Prog I α} {x : (op : I.Op) × I.Res op} (h : After p (log ++ [x]) q) :
    ∃ k, After p log (.call x.1 k) ∧ q = k x.2 := by
  generalize hlog : log ++ [x] = l at h
  cases h with
  | start => simp at hlog
  | reply r hbefore =>
    obtain ⟨rfl, hx⟩ := List.append_inj' hlog rfl
    cases hx
    exact ⟨_, hbefore, rfl⟩

theorem After.unique {p q q' : Prog I α} (h : After p log q) (h' : After p log q') : q' = q := by
  induction h generalizing q' with
  | start =>
    generalize hlog : [] = l at h'
    cases h' with
    | start => rfl
    | reply r _ => simp at hlog
  | reply r _ ih =>
    obtain ⟨k, hbefore, rfl⟩ := h'.snoc
    cases ih hbefore
    rfl

theorem After.sequential {p q : Prog I α} (h : After p log q) (hseq : p.Sequential) : q.Sequential := by
  induction h with
  | start => exact hseq
  | reply r _ ih => exact ih r

/-- The parts of the threads, and the replies of those that have started. -/
structure Threads (I : Interface) (ι σ : Type) where
  part : ι → σ
  replies : ι → Option (List ((op : I.Op) × I.Res op))

namespace Threads

def At (prog : ι → Prog I α) (t : Threads I ι σ) (i : ι) (q : Prog I α) : Prop :=
  ∃ log, t.replies i = some log ∧ After (prog i) log q

def spawn (t : Threads I ι σ) : Threads I ι σ := { t with replies := fun _ => some [] }

/-- Threads that are not there have their parts as they were, and one that is
there has come to where it is by itself. -/
structure Apart (E : ι → Effects I σ) (H : ι → σ → σ → Prop) (prog : ι → Prog I α) (init : σ → Prop)
    (t : Threads I ι σ) : Prop where
  idle : ∀ i, t.replies i = none → init (t.part i)
  there : ∀ i, (t.replies i).isSome = true → ∃ q, t.At prog i q
  going : ∀ i q, t.At prog i q → ∃ s, init s ∧ Interrupted (E i) (H i) s (prog i) (t.part i) q

theorem At.sequential {prog : ι → Prog I α} {t : Threads I ι σ} (h : t.At prog i q) (hseq : (prog i).Sequential) :
    q.Sequential := by
  obtain ⟨log, -, hafter⟩ := h
  exact hafter.sequential hseq

variable {E : ι → Effects I σ} {H : ι → σ → σ → Prop} {init : σ → Prop} {t t' : Threads I ι σ}

theorem spawn_at {prog : ι → Prog I α} (t : Threads I ι σ) (i : ι) : t.spawn.At prog i (prog i) :=
  ⟨[], rfl, .start⟩

theorem Apart.spawn {prog : ι → Prog I α} (h : t.Apart E H prog init) (hnone : ∀ i, t.replies i = none) :
    t.spawn.Apart E H prog init := by
  refine ⟨fun i hi => by simp [Threads.spawn] at hi, fun i _ => ⟨_, t.spawn_at i⟩,
    fun i q hq => ⟨t.part i, h.idle i (hnone i), ?_⟩⟩
  obtain ⟨log, hlog, hafter⟩ := hq
  cases hlog
  rw [(After.start (p := prog i)).unique hafter]
  exact .refl

variable [DecidableEq ι]

def withPart (t : Threads I ι σ) (i : ι) (s : σ) : Threads I ι σ := { t with part := Function.update t.part i s }

def withLog (t : Threads I ι σ) (i : ι) (log : List ((op : I.Op) × I.Res op)) : Threads I ι σ :=
  { t with replies := Function.update t.replies i (some log) }

/-- A thread makes the operation it has come to, or somebody else changes the
part of one. -/
inductive Turn (E : ι → Effects I σ) (H : ι → σ → σ → Prop) (prog : ι → Prog I α) (t : Threads I ι σ) :
    Threads I ι σ → Prop
  | step (i : ι) {op : I.Op} {k : I.Res op → Prog I α} {r : I.Res op} : t.replies i = some log →
      After (prog i) log (.call op k) → E i op (t.part i) r s →
        Turn E H prog t ((t.withPart i s).withLog i (log ++ [⟨op, r⟩]))
  | change (i : ι) : H i (t.part i) s → Turn E H prog t (t.withPart i s)

theorem Turn.ended {prog : ι → Prog I α} {a : α} (ht : Turn E H prog t t') (h : t.At prog i (.ret a)) :
    t'.At prog i (.ret a) := by
  obtain ⟨log, hlog, hafter⟩ := h
  cases ht with
  | change j _ => exact ⟨log, hlog, hafter⟩
  | step j hj hcall _ =>
    by_cases heq : i = j
    · subst heq
      cases hj.symm.trans hlog
      cases hafter.unique hcall
    · exact ⟨log, by simpa [withLog, withPart, heq] using hlog, hafter⟩

theorem Turn.idle {prog : ι → Prog I α} (ht : Turn E H prog t t') (h : t.replies i = none) :
    t'.replies i = none := by
  cases ht with
  | change j _ => exact h
  | step j hj _ _ =>
    by_cases heq : i = j
    · subst heq
      cases hj.symm.trans h
    · simpa [withLog, withPart, heq] using h

theorem Apart.turn {prog : ι → Prog I α} (h : t.Apart E H prog init)
    (hinit : ∀ i s s', init s → H i s s' → init s') (ht : Turn E H prog t t') : t'.Apart E H prog init := by
  cases ht with
  | change j hs =>
    refine ⟨fun i hi => ?_, h.there, fun i q hq => ?_⟩
    · by_cases heq : i = j
      · subst heq
        simpa [withPart] using hinit i _ _ (h.idle i hi) hs
      · simpa [withPart, heq] using h.idle i hi
    · obtain ⟨s₀, hs₀, hrun⟩ := h.going i q hq
      by_cases heq : i = j
      · subst heq
        exact ⟨s₀, hs₀, by simpa [withPart] using hrun.interrupt hs⟩
      · exact ⟨s₀, hs₀, by simpa [withPart, heq] using hrun⟩
  | @step log s j op k r hj hcall he =>
    refine ⟨fun i hi => ?_, fun i hi => ?_, fun i q hq => ?_⟩
    · by_cases heq : i = j
      · subst heq
        simp [withLog] at hi
      · simpa [withLog, withPart, heq] using h.idle i (by simpa [withLog, withPart, heq] using hi)
    · by_cases heq : i = j
      · subst heq
        exact ⟨_, _, by simp [withLog], hcall.reply r⟩
      · obtain ⟨q, log', hlog, hafter⟩ := h.there i (by simpa [withLog, withPart, heq] using hi)
        exact ⟨q, log', by simpa [withLog, withPart, heq] using hlog, hafter⟩
    · obtain ⟨log', hlog, hafter⟩ := hq
      by_cases heq : i = j
      · subst heq
        obtain rfl : log ++ [⟨op, r⟩] = log' := by simpa [withLog] using hlog
        obtain ⟨k', hbefore, rfl⟩ := hafter.snoc
        obtain ⟨s₀, hs₀, hrun⟩ := h.going i _ ⟨log, hj, hbefore⟩
        exact ⟨s₀, hs₀, by simpa [withLog, withPart] using hrun.step (.call he)⟩
      · have hat : t.At prog i q := ⟨log', by simpa [withLog, withPart, heq] using hlog, hafter⟩
        simpa [withLog, withPart, heq] using h.going i q hat

theorem turns_of_steps {prog : ι → Prog I α} {p q : Prog I α} (hseq : p.Sequential) (hp : t.At prog i p)
    (hs : Steps (E i) (t.part i) p s q) :
    ∃ t', ReflTransGen (Turn E H prog) t t' ∧ t'.part i = s ∧ t'.At prog i q ∧ q.Sequential := by
  induction hs with
  | refl => exact ⟨t, .refl, rfl, hp, hseq⟩
  | tail _ hlast ih =>
    obtain ⟨t₁, hturns, rfl, ⟨log, hlog, hafter⟩, hseq₁⟩ := ih
    cases hlast with
    | task _ _ _ | join _ | abort _ _ => exact hseq₁.elim
    | @call _ _ _ op k r he =>
      refine ⟨_, hturns.tail (.step i hlog hafter he),
        by simp [withPart, withLog], ⟨log ++ [⟨op, r⟩], ?_, ?_⟩, hseq₁ r⟩
      · simp [withLog]
      · exact hafter.reply r

end Threads

end Prog
