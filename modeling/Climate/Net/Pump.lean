import Climate.Lib.Copying

/-!
# Joined connections

The two threads of forward.rs that make one connection of two, each of which
copies one way. Both peers send and finish as they like.
-/

namespace Climate.Forward

open Copying Prog
open Relation (ReflTransGen)

abbrev Byte := BitVec 8

inductive Direction
  | forth
  | back
  deriving DecidableEq, Repr

/-- What is written to a socket is sent, and one that is closed stays so. -/
def socket (_ : Direction) : Kind := ⟨8192, false, false⟩

/-- The far side is told that the other one has finished. -/
def hangUp : Bool → CopyAct Byte Bool
  | true => do
    .ask .shut .ok
    return true
  | false => return false

/-- `std::io::copy` does not flush. -/
def copyHalf (rounds : Nat) : CopyAct Byte Bool := do
  let ended ← copyLoop false rounds
  hangUp ended

def pump (rounds : Nat) (_ : Direction) : CopyAct Byte Bool := copyHalf rounds

def accepted (early : Direction → List Byte) : Copiers Direction Byte where
  part d := { sent := early d }
  replies _ := none

abbrev Relayed (rounds : Nat) (early : Direction → List Byte) (c : Copiers Direction Byte) : Prop :=
  ReflTransGen (Copiers.Turn socket (pump rounds)) (accepted early).spawn c

-- ---------------------------------------------------------------------------
-- One way
-- ---------------------------------------------------------------------------

variable {k : Kind} {f f' : Flow Byte}

theorem hangUp_ends {ended : Bool} (h : Ended least (.ok ended) f) :
    Ends (among k) Waits (fun r f => Ended least r f ∧ (r = .ok true → f.shut = true)) f (hangUp ended) := by
  cases ended with
  | false => exact .ret ⟨h, by simp⟩
  | true =>
    refine Ends.kept_bind h h (fun _ _ hf hw => hw.complete hf) (fun g _ g' _ hg he _ => ?_)
      fun _ _ _ _ _ _ hread => by cases hread
    obtain rfl : g' = { g with shut := true } := he
    exact .ret ⟨⟨⟨hg.1.out, hg.1.taken⟩, hg.2⟩, fun _ => rfl⟩

theorem copyHalf_ends (hk : k.buffers = false) (hf : f.Fresh) : Ends (among k) Waits
    (fun r f => Ended rounds r f ∧ (r = .ok true → f.shut = true)) f (copyHalf rounds) :=
  Ends.bind (copyLoop_faithful (.inr hk) rounds f hf) (fun _ _ h => hangUp_ends h) fun _ _ h => ⟨h, by simp⟩

theorem copyHalf_faithful (hk : k.buffers = false) (rounds : Nat) : Faithful k rounds (copyHalf rounds) :=
  fun _ hf => (copyHalf_ends hk hf).weaken fun _ _ h => h.1

theorem copyHalf_sequential (rounds : Nat) : (copyHalf rounds).Sequential := by
  refine .bind (copyLoop_sequential false rounds) fun ended => ?_
  cases ended with
  | false => trivial
  | true => exact .bind (.ask _ _) fun _ => trivial

theorem copyHalf_told (hk : k.buffers = false) (hf : f.Fresh)
    (hs : Interrupted (CopyOp.effect k) (Writes k) f (copyHalf rounds) f' (.ret true)) : f'.shut = true := by
  obtain ⟨g, hrest, -, hvalue, -⟩ := hs.ready (copyHalf_ends hk hf)
  refine kept (J := fun f => f.shut = true) (fun _ _ h hw => ?_) ((hvalue true rfl).2 rfl) hrest
  cases hw <;> exact h

-- ---------------------------------------------------------------------------
-- Both ways
-- ---------------------------------------------------------------------------

theorem relayed_apart (h : Relayed rounds early c) : Copiers.Apart socket (pump rounds) c := by
  induction h with
  | refl =>
    refine Threads.Apart.spawn ⟨fun _ _ => ⟨rfl, rfl, rfl, rfl, rfl, rfl⟩,
      fun _ hthere => (by cases hthere), ?_⟩ fun _ => rfl
    rintro i q ⟨_, hlog, -⟩
    cases hlog
  | tail _ ht ih => exact ih.turn ht

/-- Nobody opens a connection again. -/
theorem relayed_once (h : Relayed rounds early c) (d : Direction) : (c.part d).reopened = false := by
  induction h with
  | refl => rfl
  | tail _ ht ih =>
    cases ht with
    | step i _ _ he =>
      by_cases heq : d = i
      · subst heq
        simpa [Threads.withPart, Threads.withLog] using he.reopened.trans ih
      · simpa [Threads.withPart, Threads.withLog, heq] using ih
    | change i hw =>
      by_cases heq : d = i
      · subst heq
        cases hw with
        | reopen hagain => cases hagain
        | write _ _ | close => simpa [Threads.withPart] using ih
      · simpa [Threads.withPart, heq] using ih

/-- Each way, what comes out at the far side is what was sent, in order and up
to some point. The far side is told of the end only after everything has come
out, unless a socket has failed; and a thread that has nothing to do has passed
on all there is, the end included. -/
theorem connection_relayed (h : Relayed rounds early c) (d : Direction) :
    (c.part d).out <+: (c.part d).sent ∧
    ((c.part d).shut = true → (c.part d).lost = true ∨ (c.part d).closed = true ∧
      (c.part d).out = (c.part d).sent) ∧
    ∀ q, c.At (pump rounds) d q → Still (socket d) (c.part d) q →
      (c.part d).shut = true ∨ (c.part d).closed = false ∧ (c.part d).out = (c.part d).sent ∨
        rounds ≤ (c.part d).sent.length + (c.part d).interrupts := by
  have hapart := relayed_apart h
  have hcopied : ∀ q, c.At (pump rounds) d q → Copied rounds (c.part d) q := fun q hq =>
    Copiers.Apart.copied hapart (copyHalf_faithful rfl rounds) (copyHalf_sequential rounds) hq
  refine ⟨?_, fun hshut => ?_, fun q hq hstill => ?_⟩
  · cases hlog : c.replies d with
    | none => simp [(hapart.idle d hlog).out]
    | some log =>
      obtain ⟨q, hq⟩ := hapart.there d (by simp [hlog])
      exact (hcopied q hq).sound.out_sent
  · cases hlog : c.replies d with
    | none => cases hshut.symm.trans (hapart.idle d hlog).shut
    | some log =>
      obtain ⟨q, hq⟩ := hapart.there d (by simp [hlog])
      cases hlost : (c.part d).lost with
      | true => exact .inl rfl
      | false => exact .inr (((hcopied q hq).told hshut).2 hlost (relayed_once h d))
  · have hseq := hq.sequential (copyHalf_sequential rounds)
    rcases (hcopied q hq).still hseq (by simp [socket]) hstill with ⟨ended, rfl⟩ | ⟨hall, hopen⟩
    · obtain ⟨f, hf, hrun⟩ := hapart.going d _ hq
      cases ended with
      | true => exact .inl (copyHalf_told rfl hf hrun)
      | false => exact .inr (.inr ((hcopied _ hq).goes rfl))
    · exact .inr (.inl ⟨hopen, hall⟩)

namespace Fetched

def request : Flow Byte := { sent := [0x47, 0x0a], closed := true }

def early : Direction → List Byte
  | .forth => [0x47, 0x0a]
  | .back => []

def served : Flow Byte × CopyAct Byte Bool := Prog.run (prompt (socket .forth)) 5 (request, copyHalf 3)

theorem served_ends : Steps (CopyOp.effect (socket .forth)) request (copyHalf 3)
    { request with taken := request.sent, out := request.sent, shut := true } (.ret true) := by
  have hvalue : served.2.value? = some true := by rfl
  have hflow : served.1 = { request with taken := request.sent, out := request.sent, shut := true } := by rfl
  exact hflow ▸ run_value (prompt _) 5 hvalue

theorem connection_relayed_request : ∃ c, Relayed 3 early c ∧ (c.part .forth).shut = true ∧
    (c.part .forth).out = request.sent ∧ (c.part .back).out <+: (c.part .back).sent := by
  have hclose : Relayed 3 early ((accepted early).spawn.withPart .forth request) :=
    .tail .refl (.change Direction.forth .close)
  generalize hclosed : (accepted early).spawn.withPart .forth request = closed at hclose
  have hpart : closed.part .forth = request := by simp [← hclosed, Threads.withPart]
  have hat : closed.At (pump 3) .forth (copyHalf 3) :=
    ⟨[], by simp [← hclosed, Threads.withPart, Threads.spawn], .start⟩
  obtain ⟨c, hturns, hc, -, -⟩ := Threads.turns_of_steps (H := fun d => Writes (socket d))
    (E := fun d => CopyOp.effect (socket d)) (copyHalf_sequential 3) hat (by rw [hpart]; exact served_ends)
  have hrelayed : Relayed 3 early c := hclose.trans hturns
  have hshut : (c.part .forth).shut = true := by rw [hc]
  have hlost : (c.part .forth).lost = false := by rw [hc, request]
  rcases (connection_relayed hrelayed .forth).2.1 hshut with hfailed | ⟨-, hall⟩
  · cases hlost.symm.trans hfailed
  · exact ⟨c, hrelayed, hshut, hall.trans (by rw [hc]), (connection_relayed hrelayed .back).1⟩

end Fetched

end Climate.Forward
