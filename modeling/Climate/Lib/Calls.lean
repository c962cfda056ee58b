import Mathlib.Data.List.Basic

/-!
# Calls to a server that may stop

A caller and a server joined by two queues, in a world that both act on and
that changes by itself. The server works on a call in steps of its own, and
may stop at any time. A caller that waits for an answer before it calls again
gets the answer to that very call, or none because the server has stopped.
-/

namespace Calls

/-- Where the server is: waiting for a call, working on one, still holding
what it has answered with, or stopped. -/
inductive Point (Work : Type)
  | idle
  | busy (w : Work)
  | resting (w : Work)
  | gone
  deriving DecidableEq, Repr

structure Wire (σ Call Answer Work : Type) where
  world : σ
  calls : List Call := []
  answers : List Answer := []
  server : Point Work

/-- How a server starts on a call, what it then does, and when it answers. -/
structure Server (σ Call Answer Work : Type) where
  accept : Call → Work
  Move : σ → Work → σ → Work → Prop
  answer : Work → Option Answer

variable {σ Call Answer Work : Type}

inductive Acts (S : Server σ Call Answer Work) : Wire σ Call Answer Work → Wire σ Call Answer Work → Prop
  | take : Acts S ⟨s, call :: calls, answers, .idle⟩ ⟨s, calls, answers, .busy (S.accept call)⟩
  | move : S.Move s w s' w' → Acts S ⟨s, calls, answers, .busy w⟩ ⟨s', calls, answers, .busy w'⟩
  | reply : S.answer w = some a → Acts S ⟨s, calls, answers, .busy w⟩ ⟨s, calls, answers ++ [a], .resting w⟩
  | rest : Acts S ⟨s, calls, answers, .resting w⟩ ⟨s, calls, answers, .idle⟩

inductive Turn (S : Server σ Call Answer Work) (Drift : σ → σ → Prop) :
    Wire σ Call Answer Work → Wire σ Call Answer Work → Prop
  | act : Acts S c c' → Turn S Drift c c'
  | stop : Turn S Drift c { c with server := .gone }
  | drift : Drift c.world s → Turn S Drift c { c with world := s }

variable {S : Server σ Call Answer Work} {Drift : σ → σ → Prop} {c c' : Wire σ Call Answer Work}

-- ---------------------------------------------------------------------------
-- Between calls
-- ---------------------------------------------------------------------------

def Point.waiting : Point Work → Prop
  | .idle | .resting _ => True
  | .busy _ | .gone => False

/-- Nothing is under way. Calls that a stopped server has not taken stay. -/
structure Quiet (c : Wire σ Call Answer Work) : Prop where
  answers : c.answers = []
  server : c.server = .gone ∨ c.calls = [] ∧ c.server.waiting

theorem Quiet.turn (h : Quiet c) (ht : Turn S Drift c c') : Quiet c' := by
  cases ht with
  | act ha =>
    cases ha with
    | take =>
      rcases h.server with hgone | ⟨hcalls, -⟩
      · cases hgone
      · cases hcalls
    | move _ | reply _ => rcases h.server with hgone | ⟨-, hwaiting⟩ <;> trivial
    | rest =>
      rcases h.server with hgone | ⟨hcalls, -⟩
      · cases hgone
      · exact ⟨h.answers, .inr ⟨hcalls, trivial⟩⟩
  | stop => exact ⟨h.answers, .inl rfl⟩
  | drift _ => exact ⟨h.answers, h.server⟩

-- ---------------------------------------------------------------------------
-- During a call
-- ---------------------------------------------------------------------------

/-- `inv` holds of the work on a call as long as it goes on, and gives a good
answer. Both survive what happens meanwhile. -/
structure Contract (S : Server σ Call Answer Work) (Drift : σ → σ → Prop) (inv : σ → Work → Prop)
    (good : σ → Answer → Prop) : Prop where
  move : ∀ s w s' w', inv s w → S.Move s w s' w' → inv s' w'
  answer : ∀ s w a, inv s w → S.answer w = some a → good s a
  drift : ∀ s s' w, inv s w → Drift s s' → inv s' w
  kept : ∀ s s' a, good s a → Drift s s' → good s' a

inductive Due (S : Server σ Call Answer Work) (inv : σ → Work → Prop) (good : σ → Answer → Prop) :
    Wire σ Call Answer Work → Prop
  | sent : inv s (S.accept call) → p.waiting → Due S inv good ⟨s, [call], [], p⟩
  | taken : inv s w → Due S inv good ⟨s, [], [], .busy w⟩
  | answered : good s a → p.waiting → Due S inv good ⟨s, [], [a], p⟩
  | survived : good s a → Due S inv good ⟨s, [], [a], .gone⟩
  | lost : Due S inv good ⟨s, calls, [], .gone⟩

variable {inv : σ → Work → Prop} {good : σ → Answer → Prop}

theorem Quiet.send (h : Quiet c) (hthere : c.server ≠ .gone) (hinv : inv c.world (S.accept call)) :
    Due S inv good { c with calls := c.calls ++ [call] } := by
  obtain ⟨s, calls, answers, p⟩ := c
  obtain ⟨rfl, hgone | ⟨rfl, hwaiting⟩⟩ := h
  · exact absurd hgone hthere
  · exact .sent hinv hwaiting

theorem Due.turn (hcontract : Contract S Drift inv good) (h : Due S inv good c) (ht : Turn S Drift c c') :
    Due S inv good c' := by
  cases ht with
  | act ha =>
    cases h with
    | sent hinv hwaiting =>
      cases ha with
      | take => exact .taken hinv
      | move _ | reply _ => exact hwaiting.elim
      | rest => exact .sent hinv trivial
    | taken hinv =>
      cases ha with
      | move hm => exact .taken (hcontract.move _ _ _ _ hinv hm)
      | reply ha => exact .answered (hcontract.answer _ _ _ hinv ha) trivial
    | answered hgood hwaiting =>
      cases ha with
      | move _ | reply _ => exact hwaiting.elim
      | rest => exact .answered hgood trivial
    | survived hgood => cases ha
    | lost => cases ha
  | stop =>
    cases h with
    | sent _ _ | taken _ | lost => exact .lost
    | answered hgood _ | survived hgood => exact .survived hgood
  | drift hd =>
    cases h with
    | sent hinv hwaiting => exact .sent (hcontract.drift _ _ _ hinv hd) hwaiting
    | taken hinv => exact .taken (hcontract.drift _ _ _ hinv hd)
    | answered hgood hwaiting => exact .answered (hcontract.kept _ _ _ hgood hd) hwaiting
    | survived hgood => exact .survived (hcontract.kept _ _ _ hgood hd)
    | lost => exact .lost

theorem Due.world (h : Due S inv good c) (hinv : ∀ w, inv c.world w → inv s w)
    (hgood : ∀ a, good c.world a → good s a) :
    Due S inv good { c with world := s } := by
  cases h with
  | sent h hwaiting => exact .sent (hinv _ h) hwaiting
  | taken h => exact .taken (hinv _ h)
  | answered h hwaiting => exact .answered (hgood _ h) hwaiting
  | survived h => exact .survived (hgood _ h)
  | lost => exact .lost

theorem Due.receive (h : Due S inv good c) (hanswers : c.answers = a :: rest) :
    good c.world a ∧ rest = [] ∧ Quiet { c with answers := rest } := by
  cases h with
  | answered hgood hwaiting =>
    cases hanswers
    exact ⟨hgood, rfl, rfl, .inr ⟨rfl, hwaiting⟩⟩
  | survived hgood =>
    cases hanswers
    exact ⟨hgood, rfl, rfl, .inl rfl⟩
  | sent _ _ | taken _ | lost => cases hanswers

theorem quiet_of_gone (hgone : c.server = .gone) (hanswers : c.answers = []) : Quiet c :=
  ⟨hanswers, .inl hgone⟩

/-- A caller that waits has an answer to receive, or can see that the server
is gone, or the server has something to do. -/
theorem Due.progress (h : Due S inv good c)
    (hlive : ∀ s w, inv s w → (∃ a, S.answer w = some a) ∨ ∃ s' w', S.Move s w s' w') :
    c.answers ≠ [] ∨ c.server = .gone ∨ ∃ c', Acts S c c' := by
  cases h with
  | @sent s call p _ hwaiting =>
    cases p with
    | idle => exact .inr (.inr ⟨_, .take⟩)
    | resting w => exact .inr (.inr ⟨_, .rest⟩)
    | busy w | gone => exact hwaiting.elim
  | @taken s w hinv =>
    rcases hlive s w hinv with ⟨a, ha⟩ | ⟨s', w', hm⟩
    · exact .inr (.inr ⟨_, .reply ha⟩)
    · exact .inr (.inr ⟨_, .move hm⟩)
  | answered _ _ | survived _ => exact .inl (by simp)
  | lost => exact .inr (.inl rfl)

-- ---------------------------------------------------------------------------
-- What is left to do
-- ---------------------------------------------------------------------------

def Point.effort (work : Work → Nat) : Point Work → Nat
  | .busy w => work w + 2
  | .resting _ => 1
  | .idle | .gone => 0

/-- How many steps the server has left, at most, where `work` is what is left
of a call and none takes more than `most`. -/
def Wire.effort (work : Work → Nat) (most : Nat) (c : Wire σ Call Answer Work) : Nat :=
  c.calls.length * (most + 3) + c.server.effort work

variable {work : Work → Nat} {most : Nat}

theorem Acts.effort (haccept : ∀ call, work (S.accept call) ≤ most)
    (hmove : ∀ s w s' w', S.Move s w s' w' → work w' < work w) (ha : Acts S c c') :
    c'.effort work most < c.effort work most := by
  cases ha with
  | @take _ call calls _ =>
    have hcall := haccept call
    simp only [Wire.effort, Point.effort, List.length_cons, Nat.add_mul]
    omega
  | move hm =>
    have hless := hmove _ _ _ _ hm
    simp only [Wire.effort, Point.effort]
    omega
  | reply _ =>
    simp only [Wire.effort, Point.effort]
    omega
  | rest => exact Nat.lt_succ_self _

/-- Nobody but the caller gives the server more to do. -/
theorem Turn.effort (haccept : ∀ call, work (S.accept call) ≤ most)
    (hmove : ∀ s w s' w', S.Move s w s' w' → work w' < work w) (ht : Turn S Drift c c') :
    c'.effort work most ≤ c.effort work most := by
  cases ht with
  | act ha => exact Nat.le_of_lt (ha.effort haccept hmove)
  | stop => exact Nat.le_add_right _ _
  | drift _ => exact Nat.le_refl _

-- ---------------------------------------------------------------------------
-- What the world keeps
-- ---------------------------------------------------------------------------

theorem turn_kept {J : σ → Prop} (hmove : ∀ s w s' w', J s → S.Move s w s' w' → J s')
    (hdrift : ∀ s s', J s → Drift s s' → J s') (h : J c.world) (ht : Turn S Drift c c') : J c'.world := by
  cases ht with
  | act ha =>
    cases ha with
    | take | reply _ | rest => exact h
    | move hm => exact hmove _ _ _ _ h hm
  | stop => exact h
  | drift hd => exact hdrift _ _ h hd

theorem turn_gone (hgone : c.server = .gone) (ht : Turn S Drift c c') : c'.server = .gone := by
  cases ht with
  | act ha => cases ha <;> cases hgone
  | stop => rfl
  | drift _ => exact hgone

end Calls
