import Climate.Lib.Exec
import Climate.Lib.Threads

/-!
# Copying streams

A loop that reads from one stream and writes what it has read to another,
while others go on writing to the first. What comes out is what was put in, in
order, up to where the loop is; and a loop that ends without an error has
passed on everything. Several such loops, each on streams of its own, are
several runs beside each other.
-/

namespace Copying

open Prog
open Relation (ReflTransGen)

-- ---------------------------------------------------------------------------
-- Streams
-- ---------------------------------------------------------------------------

/-- What has become of a stream so far: what was `sent` into it, what has been
`taken` out of it, and what came `out` at the other end. The sink has `kept`
back what it has not let out yet. `shut` is whether it was told that nothing
more comes, `lost` whether a read or a write has failed. -/
structure Flow (β : Type) where
  sent : List β := []
  closed : Bool := false
  taken : List β := []
  kept : List β := []
  out : List β := []
  shut : Bool := false
  lost : Bool := false
  reopened : Bool := false
  interrupts : Nat := 0
  deriving DecidableEq, Repr

/-- How much is read at a time, whether the sink buffers what it gets, and
whether the source can be opened again once nobody has it open. -/
structure Kind where
  size : Nat
  buffers : Bool
  reopens : Bool
  deriving DecidableEq, Repr

inductive Writes {β : Type} (k : Kind) : Flow β → Flow β → Prop
  | write (more : List β) : f.closed = false → Writes k f { f with sent := f.sent ++ more }
  | close : Writes k f { f with closed := true }
  | reopen : k.reopens = true → Writes k f { f with closed := false, reopened := true }

inductive Reply (β : Type)
  | bytes (l : List β)
  | interrupted
  | failed
  deriving DecidableEq, Repr

inductive CopyOp (β : Type)
  | read
  | write (l : List β)
  | flush
  | shut
  deriving DecidableEq, Repr

variable {β : Type} {k : Kind} {f f' f₀ : Flow β}

def CopyOp.Res : CopyOp β → Type
  | .read => Reply β
  | .write _ | .flush => Bool
  | .shut => Unit

/-- So much of what the sink has is let out, and so much is kept. -/
def Lets (f : Flow β) (l : List β) (passed kept : List β) : Prop := f.kept ++ l = passed ++ kept

/-- A source that nobody has open any more ends in one of two ways: it reads
as empty, or, being a terminal, as broken. -/
def CopyOp.effect (k : Kind) : (op : CopyOp β) → Flow β → op.Res → Flow β → Prop
  | .read, f, r, f' => match r with
    | .bytes l => (l = [] → f.closed = true ∧ f.taken = f.sent) ∧ l.length ≤ k.size ∧
        f.taken ++ l <+: f.sent ∧ f' = { f with taken := f.taken ++ l }
    | .interrupted => f' = { f with interrupts := f.interrupts + 1 }
    | .failed => (f.closed = true ∧ f.taken = f.sent ∧ f' = f) ∨ f' = { f with lost := true }
  | .write l, f, r, f' => match (r : Bool) with
    | true => ∃ passed kept, Lets f l passed kept ∧ (k.buffers = false → kept = []) ∧
        f' = { f with out := f.out ++ passed, kept }
    | false => ∃ passed kept missed, Lets f l passed (kept ++ missed) ∧
        f' = { f with out := f.out ++ passed, kept, lost := true }
  | .flush, f, r, f' => match (r : Bool) with
    | true => f' = { f with out := f.out ++ f.kept, kept := [] }
    | false => ∃ passed kept missed, Lets f [] passed (kept ++ missed) ∧
        f' = { f with out := f.out ++ passed, kept, lost := true }
  | .shut, f, _, f' => f' = { f with shut := true }

abbrev copyOps (β : Type) : Interface where
  Op := CopyOp β
  Res := CopyOp.Res

abbrev CopyAct (β : Type) := Prog (copyOps β)

-- ---------------------------------------------------------------------------
-- The loop
-- ---------------------------------------------------------------------------

/-- `write_all`, and `flush` where the loop does that. -/
def pass (flushes : Bool) (l : List β) : CopyAct β Bool := do
  let written : Bool ← .ask (.write l) .ok
  if written && flushes then .ask .flush .ok else return written

def copyLoop (flushes : Bool) : Nat → CopyAct β Bool
  | 0 => return false
  | rounds + 1 => do
    let reply : Reply β ← .ask .read .ok
    match reply with
    | .bytes [] => return true
    | .bytes l => do
      let passed ← pass flushes l
      if passed then copyLoop flushes rounds else return true
    | .interrupted => copyLoop flushes rounds
    | .failed => return true

theorem pass_sequential (flushes : Bool) (l : List β) : (pass flushes l).Sequential := by
  refine .bind (.ask _ _) fun written => ?_
  cases written <;> cases flushes <;> first | trivial | exact .ask _ _

theorem copyLoop_sequential (flushes : Bool) (rounds : Nat) :
    (copyLoop flushes rounds : CopyAct β Bool).Sequential := by
  induction rounds with
  | zero => trivial
  | succ rounds ih =>
    refine .bind (.ask _ _) fun reply => ?_
    cases reply with
    | interrupted => exact ih
    | failed => trivial
    | bytes l =>
      cases l with
      | nil => trivial
      | cons b l =>
        refine .bind (pass_sequential flushes (b :: l)) fun passed => ?_
        cases passed with
        | false => trivial
        | true => exact ih

def prompt [DecidableEq β] (k : Kind) : Handler (I := copyOps β) (CopyOp.effect k) where
  answer op f := match op with
    | .read =>
      let l := (f.sent.drop f.taken.length).take k.size
      if f.closed = true ∧ f.taken = f.sent then some (.bytes [], f)
      else if l ≠ [] ∧ f.taken ++ l = f.sent then some (.bytes l, { f with taken := f.taken ++ l })
      else none
    | .write l =>
      if k.buffers then some (true, { f with kept := f.kept ++ l })
      else some (true, { f with out := f.out ++ (f.kept ++ l), kept := [] })
    | .flush => some (true, { f with out := f.out ++ f.kept, kept := [] })
    | .shut => some ((), { f with shut := true })
  sound := by
    intro op f r f' h
    cases op with
    | read =>
      simp only at h
      split at h
      next hclosed =>
        cases h
        refine ⟨fun _ => hclosed, Nat.zero_le _, ?_, by simp⟩
        simp [hclosed.2]
      next =>
        split at h
        next hmore =>
          cases h
          exact ⟨fun hnil => absurd hnil hmore.1, List.length_take_le _ _, (by rw [hmore.2]), rfl⟩
        next => cases h
    | write l =>
      simp only at h
      split at h
      next hbuffers =>
        cases h
        exact ⟨[], f.kept ++ l, rfl, fun hnot => (by cases hnot.symm.trans hbuffers), by simp⟩
      next =>
        cases h
        exact ⟨f.kept ++ l, [], by simp [Lets], fun _ => rfl, rfl⟩
    | flush | shut =>
      cases h
      rfl

-- ---------------------------------------------------------------------------
-- What comes out
-- ---------------------------------------------------------------------------

structure Flow.Fresh (f : Flow β) : Prop where
  taken : f.taken = []
  kept : f.kept = []
  out : f.out = []
  shut : f.shut = false
  lost : f.lost = false
  interrupts : f.interrupts = 0

structure Flow.Sound (f : Flow β) : Prop where
  out : f.out ++ f.kept <+: f.taken
  taken : f.taken <+: f.sent

structure Flow.Settled (l : List β) (f : Flow β) : Prop where
  out : f.out ++ l = f.taken
  kept : f.kept = []
  lost : f.lost = false
  shut : f.shut = false
  taken : f.taken <+: f.sent

/-- Everything has come out, unless some was lost, or came after the source
had ended. -/
def Flow.Complete (f : Flow β) : Prop :=
  f.Sound ∧ (f.lost = false → f.reopened = false → f.closed = true ∧ f.out = f.sent)

def Flow.progress (f : Flow β) : Nat := f.taken.length + f.interrupts

theorem Flow.Fresh.settled (h : f.Fresh) : f.Settled [] :=
  ⟨by simp [h.out, h.taken], h.kept, h.lost, h.shut, by simp [h.taken]⟩

theorem Flow.Settled.sound (h : f.Settled l) : f.Sound :=
  ⟨by simp [h.kept, ← h.out], h.taken⟩

theorem Flow.Sound.out_sent (h : f.Sound) : f.out <+: f.sent :=
  ((List.prefix_append _ _).trans h.out).trans h.taken

namespace Writes

theorem sent (h : Writes k f f') : f.sent <+: f'.sent := by
  cases h with
  | write more _ => exact List.prefix_append _ _
  | close | reopen _ => exact List.prefix_rfl

theorem fresh (h : Writes k f f') (hf : f.Fresh) : f'.Fresh := by
  cases h <;> exact ⟨hf.taken, hf.kept, hf.out, hf.shut, hf.lost, hf.interrupts⟩

theorem sound (h : Writes k f f') (hf : f.Sound) : f'.Sound := by
  have hsent := hf.taken.trans h.sent
  cases h <;> exact ⟨hf.out, hsent⟩

theorem settled (h : Writes k f f') (hf : f.Settled l) : f'.Settled l := by
  have hsent := hf.taken.trans h.sent
  cases h <;> exact ⟨hf.out, hf.kept, hf.lost, hf.shut, hsent⟩

theorem progress (h : Writes k f f') : f'.progress = f.progress := by
  cases h <;> rfl

theorem complete (h : Writes k f f') (hf : f.Complete) : f'.Complete := by
  refine ⟨h.sound hf.1, fun hlost hreopened => ?_⟩
  cases h with
  | write more hopen =>
    obtain ⟨hclosed, -⟩ := hf.2 hlost hreopened
    cases hclosed.symm.trans hopen
  | close => exact ⟨rfl, (hf.2 hlost hreopened).2⟩
  | reopen _ => cases hreopened

end Writes

-- ---------------------------------------------------------------------------
-- What a loop does
-- ---------------------------------------------------------------------------

abbrev among (k : Kind) : Effects (copyOps β) (Flow β) := interruptible (CopyOp.effect k) (Writes k)

/-- Nothing is held back from the reader while more is waited for, and the
sink is told of the end only once everything has come out. -/
def Waits : CopyOp β → Flow β → Prop
  | .read, f => f.Settled []
  | .shut, f => f.Complete
  | _, f => f.Sound ∧ f.shut = false

/-- How a loop of so many rounds ends: it has passed everything on, or its
rounds have gone into bytes and interruptions. -/
def Ended (least : Nat) : Except String Bool → Flow β → Prop
  | .ok true, f => f.Complete
  | .ok false, f => f.Settled [] ∧ least ≤ f.progress
  | .error _, _ => False

theorem pass_ends (hflush : flushes = true ∨ k.buffers = false) (hf : f.Settled l) :
    Ends (among k) Waits (Ends.Outcome (fun _ => False) fun passed f' => f'.progress = f.progress ∧
      if passed then f'.Settled [] else f'.Complete) f (pass flushes l) := by
  unfold pass
  refine Ends.kept_bind (J := fun g => g.Settled l ∧ g.progress = f.progress) ⟨hf.sound, hf.shut⟩ ⟨hf, rfl⟩
    (fun g g' hg hw => ⟨hw.settled hg.1, hw.progress.trans hg.2⟩)
    (fun g (written : Bool) g' _ hg he hread => ?_) fun _ _ _ _ _ _ hread => by cases hread
  cases hread
  obtain ⟨hg, hprogress⟩ := hg
  cases written with
  | false =>
    obtain ⟨passed, left, missed, hlets, rfl⟩ := he
    refine .ret ⟨hprogress, ⟨?_, hg.taken⟩, fun hlost => by cases hlost⟩
    rw [Lets, hg.kept, List.nil_append] at hlets
    exact ⟨missed, by simp [← hg.out, hlets]⟩
  | true =>
    obtain ⟨passed, left, hlets, hleft, rfl⟩ := he
    rw [Lets, hg.kept, List.nil_append] at hlets
    have hall : g.out ++ passed ++ left = g.taken := by simp [← hg.out, hlets]
    cases flushes with
    | false =>
      obtain rfl := hleft (by simpa using hflush)
      exact .ret ⟨hprogress, hall, rfl, hg.lost, hg.shut, hg.taken⟩
    | true =>
      refine Ends.ask ⟨⟨by simp [hall], hg.taken⟩, hg.shut⟩ fun (flushed : Bool) g' he => ?_
      obtain ⟨g₁, hints, he⟩ := he
      obtain ⟨⟨hout, hsent⟩, hprogress₁, hlost, hshut⟩ :
          (g₁.out ++ g₁.kept = g₁.taken ∧ g₁.taken <+: g₁.sent) ∧ g₁.progress = f.progress ∧
            g₁.lost = false ∧ g₁.shut = false := by
        refine Prog.kept (J := fun g₁ => (g₁.out ++ g₁.kept = g₁.taken ∧ g₁.taken <+: g₁.sent) ∧
          g₁.progress = f.progress ∧ g₁.lost = false ∧ g₁.shut = false) (fun a b ha hw => ?_)
          ⟨⟨hall, hg.taken⟩, hprogress, hg.lost, hg.shut⟩ hints
        have hsent := ha.1.2.trans hw.sent
        cases hw <;> exact ⟨⟨ha.1.1, hsent⟩, ha.2⟩
      cases flushed with
      | true =>
        obtain rfl := he
        exact ⟨hprogress₁, by simp [hout], rfl, hlost, hshut, hsent⟩
      | false =>
        obtain ⟨passed', left', missed, hlets', rfl⟩ := he
        refine ⟨hprogress₁, ⟨?_, hsent⟩, fun hlost => by cases hlost⟩
        rw [Lets, List.append_nil] at hlets'
        exact ⟨missed, by simp [← hout, hlets']⟩

theorem copyLoop_ends (hflush : flushes = true ∨ k.buffers = false) (rounds : Nat) (hf : f.Settled []) :
    Ends (among k) Waits (Ended (f.progress + rounds)) f (copyLoop flushes rounds) := by
  induction rounds generalizing f with
  | zero => exact .ret ⟨hf, le_rfl⟩
  | succ rounds ih =>
    refine Ends.kept_bind (J := fun g => g.Settled [] ∧ g.progress = f.progress) hf ⟨hf, rfl⟩
      (fun g g' hg hw => ⟨hw.settled hg.1, hw.progress.trans hg.2⟩)
      (fun g (reply : Reply β) g' _ hg he hread => ?_) fun _ _ _ _ _ _ hread => by cases hread
    cases hread
    obtain ⟨hg, hprogress⟩ := hg
    have hout : g.out = g.taken := by simpa using hg.out
    cases reply with
    | interrupted =>
      obtain rfl := he
      have hgoes : Flow.progress { g with interrupts := g.interrupts + 1 } = f.progress + 1 := by
        simp only [Flow.progress] at hprogress ⊢
        omega
      have hrest := ih (f := { g with interrupts := g.interrupts + 1 })
        ⟨hg.out, hg.kept, hg.lost, hg.shut, hg.taken⟩
      rwa [hgoes, Nat.add_assoc, Nat.add_comm 1] at hrest
    | failed =>
      rcases he with ⟨hclosed, htaken, rfl⟩ | rfl
      · exact .ret ⟨hg.sound, fun _ _ => ⟨hclosed, hout.trans htaken⟩⟩
      · exact .ret ⟨⟨hg.sound.out, hg.taken⟩, fun hlost => by cases hlost⟩
    | bytes l =>
      obtain ⟨hempty, -, hsent, rfl⟩ := he
      cases l with
      | nil =>
        obtain ⟨hclosed, htaken⟩ := hempty rfl
        simp only [List.append_nil]
        exact .ret ⟨hg.sound, fun _ _ => ⟨hclosed, hout.trans htaken⟩⟩
      | cons b l =>
        have hgoes : f.progress + 1 ≤ Flow.progress { g with taken := g.taken ++ b :: l } := by
          simp only [Flow.progress, List.length_append, List.length_cons] at hprogress ⊢
          omega
        refine Ends.bind (pass_ends hflush (l := b :: l) ⟨by simp [hout], hg.kept, hg.lost, hg.shut, hsent⟩)
          (fun passed g₁ hpassed => ?_) fun _ _ h => h.elim
        obtain ⟨hprogress₁, hpassed⟩ := hpassed
        cases passed with
        | false => exact .ret hpassed
        | true =>
          refine (ih hpassed).weaken fun r g' h => ?_
          cases r with
          | error e => exact h
          | ok ended =>
            cases ended with
            | true => exact h
            | false => exact ⟨h.1, by have := h.2; omega⟩

-- ---------------------------------------------------------------------------
-- Threads that copy
-- ---------------------------------------------------------------------------

/-- A program that copies, for so many rounds at least. -/
def Faithful (k : Kind) (rounds : Nat) (p : CopyAct β Bool) : Prop :=
  ∀ f : Flow β, f.Fresh → Ends (among k) Waits (Ended rounds) f p

structure Copied (rounds : Nat) (f : Flow β) (p : CopyAct β Bool) : Prop where
  sound : f.Sound
  told : f.shut = true → f.Complete
  waits : ∀ next, p = .call .read next → f.Settled []
  ended : p = .ret true → f.Complete
  goes : p = .ret false → rounds ≤ f.sent.length + f.interrupts
  fails : ∀ e, p ≠ .throw e

theorem copyLoop_faithful (hflush : flushes = true ∨ k.buffers = false) (rounds : Nat) :
    Faithful (β := β) k rounds (copyLoop flushes rounds) := by
  intro f hf
  have h := copyLoop_ends hflush rounds hf.settled
  rwa [Flow.progress, hf.taken, hf.interrupts, List.length_nil, Nat.zero_add] at h

theorem Flow.Sound.progress_le (h : f.Sound) : f.progress ≤ f.sent.length + f.interrupts := by
  have hlength := h.taken.length_le
  simp only [progress]
  omega

theorem Faithful.copied {p q : CopyAct β Bool} (h : Faithful k rounds p) (hseq : p.Sequential) (hf : f₀.Fresh)
    (hs : Interrupted (CopyOp.effect k) (Writes k) f₀ p f q) : Copied rounds f q := by
  obtain ⟨g, hrest, hop, hvalue, herror⟩ := hs.ready (h f₀ hf)
  have hsettled : g.Settled [] → f.Settled [] := fun hg => kept (fun _ _ hg hw => hw.settled hg) hg hrest
  have hcomplete : g.Complete → f.Complete := fun hg => kept (fun _ _ hg hw => hw.complete hg) hg hrest
  have hnot : f.shut = false → f.shut = true → f.Complete := fun h h' => by cases h.symm.trans h'
  cases q with
  | throw e => exact (herror e rfl).elim
  | fork limit count tasks next => exact (hs.sequential hseq).elim
  | ret ended =>
    cases ended with
    | true =>
      have hg := hcomplete (hvalue true rfl)
      exact ⟨hg.1, fun _ => hg, by simp, fun _ => hg, by simp, by simp⟩
    | false =>
      obtain ⟨hg, hleast⟩ := hvalue false rfl
      have hg' := hsettled hg
      have hsame : f.progress = g.progress :=
        kept (J := fun f => f.progress = g.progress) (fun _ _ h hw => hw.progress.trans h) rfl hrest
      refine ⟨hg'.sound, hnot hg'.shut, by simp, by simp, fun _ => ?_, by simp⟩
      have hle := hg'.sound.progress_le
      omega
  | call op next =>
    have hpre := hop op next rfl
    cases op with
    | read =>
      have hg := hsettled hpre
      exact ⟨hg.sound, hnot hg.shut, fun _ _ => hg, by simp, by simp, by simp⟩
    | shut =>
      have hg := hcomplete hpre
      exact ⟨hg.1, fun _ => hg, by simp, by simp, by simp, by simp⟩
    | write _ | flush =>
      obtain ⟨hsound, hshut⟩ : f.Sound ∧ f.shut = false := by
        refine kept (J := fun f => f.Sound ∧ f.shut = false) (fun a b ha hw => ⟨hw.sound ha.1, ?_⟩)
          (show g.Sound ∧ g.shut = false from hpre) hrest
        cases hw <;> exact ha.2
      exact ⟨hsound, hnot hshut, by simp, by simp, by simp, by simp⟩

theorem CopyOp.effect.reopened {op : CopyOp β} {r : op.Res} (he : CopyOp.effect k op f r f') :
    f'.reopened = f.reopened := by
  cases op with
  | read =>
    cases r with
    | bytes l => exact he.2.2.2 ▸ rfl
    | interrupted => exact (show f' = _ from he) ▸ rfl
    | failed => rcases he with ⟨-, -, rfl⟩ | rfl <;> rfl
  | write l =>
    cases r with
    | true =>
      obtain ⟨_, _, -, -, rfl⟩ := he
      rfl
    | false =>
      obtain ⟨_, _, _, -, rfl⟩ := he
      rfl
  | flush =>
    cases r with
    | true => exact (show f' = _ from he) ▸ rfl
    | false =>
      obtain ⟨_, _, _, -, rfl⟩ := he
      rfl
  | shut => exact (show f' = _ from he) ▸ rfl

-- ---------------------------------------------------------------------------
-- Standing still
-- ---------------------------------------------------------------------------

def CopyOp.smooth (k : Kind) : Effects (copyOps β) (Flow β) :=
  fun op f r f' => CopyOp.effect k op f r f' ∧ f'.interrupts = f.interrupts ∧ f'.lost = f.lost

def Still (k : Kind) (f : Flow β) (q : CopyAct β Bool) : Prop := ∀ f' q', ¬ Step (CopyOp.smooth k) f q f' q'

/-- The one thing that is waited for is that somebody writes to the source. -/
theorem CopyOp.exists_smooth (hsize : 0 < k.size) (hf : f.Sound) (op : CopyOp β) :
    (op = .read ∧ f.taken = f.sent ∧ f.closed = false) ∨ ∃ r f', CopyOp.smooth k op f r f' := by
  cases op with
  | read =>
    obtain ⟨rest, hrest⟩ := hf.taken
    cases rest with
    | nil =>
      have hall : f.taken = f.sent := by simpa using hrest
      cases hclosed : f.closed with
      | false => exact .inl ⟨rfl, hall, rfl⟩
      | true =>
        refine .inr ⟨.bytes [], { f with taken := f.taken ++ [] },
          ⟨fun _ => ⟨hclosed, hall⟩, Nat.zero_le _, ?_, rfl⟩, rfl, rfl⟩
        simpa using hf.taken
    | cons b rest =>
      refine .inr ⟨.bytes [b], { f with taken := f.taken ++ [b] }, ⟨by simp, hsize, ⟨rest, ?_⟩, rfl⟩, rfl, rfl⟩
      simpa using hrest
  | write l =>
    refine .inr ⟨true, { f with out := f.out ++ (f.kept ++ l), kept := [] },
      ⟨f.kept ++ l, [], ?_, fun _ => rfl, rfl⟩, rfl, rfl⟩
    simp [Lets]
  | flush => exact .inr ⟨true, _, rfl, rfl, rfl⟩
  | shut => exact .inr ⟨(), _, rfl, rfl, rfl⟩

/-- A thread that has no step to make stands still because it has ended, or
because all that was written has come out. -/
theorem Copied.still {q : CopyAct β Bool} (h : Copied rounds f q) (hseq : q.Sequential) (hsize : 0 < k.size)
    (hstill : Still k f q) : (∃ ended, q = .ret ended) ∨ f.out = f.sent ∧ f.closed = false := by
  cases q with
  | ret ended => exact .inl ⟨ended, rfl⟩
  | throw e => exact absurd rfl (h.fails e)
  | fork limit count tasks next => exact hseq.elim
  | call op next =>
    rcases CopyOp.exists_smooth hsize h.sound op with ⟨rfl, hall, hopen⟩ | ⟨r, f', he⟩
    · exact .inr ⟨by simpa [← hall] using (h.waits next rfl).out, hopen⟩
    · exact absurd (.call he) (hstill f' _)

abbrev Copiers (ι β : Type) := Threads (copyOps β) ι (Flow β)

variable {ι : Type} {kind : ι → Kind} {prog : ι → CopyAct β Bool} {c c' : Copiers ι β}

namespace Copiers

abbrev Apart (kind : ι → Kind) (prog : ι → CopyAct β Bool) (c : Copiers ι β) : Prop :=
  Threads.Apart (fun i => CopyOp.effect (kind i)) (fun i => Writes (kind i)) prog Flow.Fresh c

abbrev Turn [DecidableEq ι] (kind : ι → Kind) (prog : ι → CopyAct β Bool) (c c' : Copiers ι β) : Prop :=
  Threads.Turn (fun i => CopyOp.effect (kind i)) (fun i => Writes (kind i)) prog c c'

theorem Apart.turn [DecidableEq ι] (h : Apart kind prog c) (ht : Turn kind prog c c') : Apart kind prog c' :=
  Threads.Apart.turn h (fun _ _ _ hf hw => hw.fresh hf) ht

theorem Apart.copied {q : CopyAct β Bool} (h : Apart kind prog c) (hprog : Faithful (kind i) rounds (prog i))
    (hseq : (prog i).Sequential) (hq : c.At prog i q) : Copied rounds (c.part i) q := by
  obtain ⟨f, hf, hrun⟩ := h.going i q hq
  exact hprog.copied hseq hf hrun

end Copiers

end Copying
