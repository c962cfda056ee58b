import Climate.Lib.Descriptors

/-!
# Handing over to the helper

How forward.rs starts the process that joins a container's namespaces: what
is done between its fork and its exec, and what it does first.
-/

namespace Climate.Forward

open Descriptors

/-- Where the helper finds its socket and the two namespaces. -/
def helperFd : Nat := 3

def userNsFd : Nat := 4

def netNsFd : Nat := 5

def preExec (theirs user net : Nat) (t : Table F) : Except Errno (Table F) := do
  let (moved, t) ← Table.copies 10 [theirs, user, net] t
  Table.place (moved.zip [helperFd, userNsFd, netNsFd]) t

inductive LinkNameSpaceType
  | user
  | network
  deriving DecidableEq, Repr

/-- The namespaces joined, one after the other, where the kernel `admits` the
helper to them. -/
def enterNamespaces (admits : LinkNameSpaceType → F → Bool) (t : Table F) :
    Except String (List (LinkNameSpaceType × F)) :=
  [(userNsFd, LinkNameSpaceType.user, "user"), (netNsFd, .network, "network")].mapM fun (fd, kind, name) =>
    match t.slots fd with
    | some d =>
      if admits kind d.file then .ok (kind, d.file) else .error s!"joining the container's {name} namespace"
    | none => .error s!"joining the container's {name} namespace"

/-- Whatever the numbers of the three descriptors, the helper has each where
it looks for it. It joins the user namespace first, and where that works the
network namespace. -/
theorem preExec_hands_over {t t' : Table F} (hsocket : t.slots theirs = some socket)
    (huser : t.slots user = some userNs) (hnet : t.slots net = some netNs)
    (h : preExec theirs user net t = .ok t') :
    (∀ s ∈ [t', t'.exec], s.slots helperFd = some ⟨socket.file, false⟩ ∧
      s.slots userNsFd = some ⟨userNs.file, false⟩ ∧ s.slots netNsFd = some ⟨netNs.file, false⟩) ∧
    (∀ n < 10, n ∉ [helperFd, userNsFd, netNsFd] → t'.slots n = t.slots n) ∧
    ∀ admits, enterNamespaces admits t'.exec =
      if admits .user userNs.file then
        if admits .network netNs.file then .ok [(.user, userNs.file), (.network, netNs.file)]
        else .error "joining the container's network namespace"
      else .error "joining the container's user namespace" := by
  unfold preExec at h
  cases hcopies : Table.copies 10 [theirs, user, net] t with
  | error e => rw [hcopies] at h; cases h
  | ok r =>
    obtain ⟨moved, t₁⟩ := r
    rw [hcopies] at h
    have hopen : ∀ source ∈ [theirs, user, net], (t.slots source).isSome = true := by
      simp [hsocket, huser, hnet]
    have hbelow : ∀ target ∈ [helperFd, userNsFd, netNsFd], target < 10 := by decide
    have hplace : Table.place (moved.zip [helperFd, userNsFd, netNsFd]) t₁ = .ok t' := h
    obtain ⟨hmoved, hothers⟩ := Table.moved hopen hbelow (by decide) rfl hcopies hplace
    simp only [List.forall₂_cons, hsocket, huser, hnet, Option.some.injEq, exists_eq_left'] at hmoved
    obtain ⟨hthree, hfour, hfive, -⟩ := hmoved
    refine ⟨?_, hothers, fun admits => ?_⟩
    · rintro s hs
      rcases List.mem_pair.mp hs with rfl | rfl
      · exact ⟨hthree, hfour, hfive⟩
      · exact ⟨Table.exec_kept hthree, Table.exec_kept hfour, Table.exec_kept hfive⟩
    · simp only [enterNamespaces, List.mapM_cons, List.mapM_nil, Table.exec_kept hfour, Table.exec_kept hfive]
      cases admits .user userNs.file
      · rfl
      · cases admits .network netNs.file <;> rfl

namespace Shuffled

def table : Table String where
  slots n := [(0, "tty"), (3, "net"), (4, "socket"), (5, "user"), (10, "log")].lookup n |>.map (⟨·, true⟩)
  limit := 1024

def started : Table String := (preExec 4 5 3 table).toOption.getD table

theorem preExec_hands_over_shuffled : started.slots 3 = some ⟨"socket", false⟩ ∧
    enterNamespaces (fun _ _ => true) started.exec = .ok [(.user, "user"), (.network, "net")] := by
  have h : preExec 4 5 3 table = .ok started := by rfl
  obtain ⟨hslots, -, hjoined⟩ := preExec_hands_over (t := table) rfl rfl rfl h
  exact ⟨(hslots _ (by simp)).1, hjoined _⟩

end Shuffled

end Climate.Forward
