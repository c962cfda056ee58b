import Climate.Lib.Exec
import Climate.Lib.Interrupt
import Climate.Lib.RunsDown

/-!
# Following the terminal's size

The part of runtime.rs that keeps the container's terminal the same size as
the user's. The main thread sets the size once, and then installs a handler of
SIGWINCH that writes to a pipe whose other end a thread reads. Resizes, the
handler on any thread and the thread's own steps come in between the steps of
the main thread, the two steps of the handler and of the thread included.
-/

namespace Climate.Resize

open Prog
open Relation (ReflTransGen)

-- ---------------------------------------------------------------------------
-- The state
-- ---------------------------------------------------------------------------

structure Winsize where
  row : BitVec 16
  col : BitVec 16
  xpixel : BitVec 16
  ypixel : BitVec 16
  deriving DecidableEq, Repr

def windowSize (terminal : Option Winsize) : Winsize := terminal.getD ⟨0, 0, 0, 0⟩

inductive Reader
  | absent
  | reading
  | woken
  | holding (size : Winsize)
  | ended
  deriving DecidableEq, Repr

/-- `handled` is whether SIGWINCH has its handler, and `pending` whether one
is to be delivered. Of the handlers at work, `entered` have not read the
static yet, and `loaded` have, and are about to write to that descriptor.
`strays` are the descriptors written to that were not the pipe's. -/
structure State where
  terminal : Option Winsize
  master : Winsize
  handled : Bool := false
  resizePipe : Int := -1
  pending : Bool := false
  entered : Nat := 0
  loaded : List Int := []
  writeEnd : Option Int := none
  bytes : Nat := 0
  reader : Reader := .absent
  strays : List Int := []
  deriving DecidableEq, Repr

/-- What a pipe holds before a write to it fails, or would block. -/
def pipeRoom : Nat := 65536

def bufferSize : Nat := 64

/-- What the handlers and the reader do, with the kernel between them. -/
inductive Work : State → State → Prop
  | deliver : s.pending = true → Work s { s with pending := false, entered := s.entered + 1 }
  | load : s.entered = n + 1 → 0 ≤ s.resizePipe →
      Work s { s with entered := n, loaded := s.resizePipe :: s.loaded }
  | ignore : s.entered = n + 1 → s.resizePipe < 0 → Work s { s with entered := n }
  | write : s.loaded = before ++ fd :: after → s.writeEnd = some fd →
      Work s { s with loaded := before ++ after, bytes := min (s.bytes + 1) pipeRoom }
  | stray : s.loaded = before ++ fd :: after → s.writeEnd ≠ some fd →
      Work s { s with loaded := before ++ after, strays := fd :: s.strays }
  | read : s.reader = .reading → 0 < n → n ≤ bufferSize → s.bytes = rest + n →
      Work s { s with bytes := rest, reader := .woken }
  | eof : s.reader = .reading → s.bytes = 0 → s.writeEnd = none → Work s { s with reader := .ended }
  | ask : s.reader = .woken → Work s { s with reader := .holding (windowSize s.terminal) }
  | set : s.reader = .holding size → Work s { s with master := size, reader := .reading }

inductive Meanwhile : State → State → Prop
  | work : Work s s' → Meanwhile s s'
  | resize : Meanwhile s { s with terminal, pending := s.pending || s.handled }

-- ---------------------------------------------------------------------------
-- The operations
-- ---------------------------------------------------------------------------

/-- `pipe` answers with the number of the end to write to. `ignore` is SIG_DFL,
by which SIGWINCH is ignored. -/
inductive ResizeOp
  | windowSize
  | setWinsize (size : Winsize)
  | pipe
  | nonblock
  | duplicate
  | spawn
  | sigaction
  | store (fd : Int)
  | ignore
  | close
  | join
  deriving DecidableEq, Repr

def ResizeOp.Res : ResizeOp → Type
  | .windowSize => Winsize
  | .pipe => Option Nat
  | .nonblock | .duplicate | .sigaction => Bool
  | .setWinsize _ | .spawn | .store _ | .ignore | .close | .join => Unit

def ResizeOp.effect : (op : ResizeOp) → State → op.Res → State → Prop
  | .windowSize, s, r, s' => r = Resize.windowSize s.terminal ∧ s' = s
  | .setWinsize size, s, _, s' => s' = { s with master := size }
  | .pipe, s, r, s' => match r with
    | some fd => s' = { s with writeEnd := some (fd : Nat) }
    | none => s' = s
  | .nonblock, s, _, s' | .duplicate, s, _, s' => s' = s
  | .spawn, s, _, s' => s' = { s with reader := .reading }
  | .sigaction, s, r, s' => match (r : Bool) with
    | true => s' = { s with handled := true }
    | false => s' = s
  | .store fd, s, _, s' => s' = { s with resizePipe := fd }
  | .ignore, s, _, s' => s' = { s with handled := false, pending := false }
  | .close, s, _, s' => s' = { s with writeEnd := none }
  | .join, s, _, s' => s.reader = .ended ∧ s' = s

abbrev resizeOps : Interface where
  Op := ResizeOp
  Res := ResizeOp.Res

abbrev ResizeAct := Prog resizeOps

-- ---------------------------------------------------------------------------
-- The program
-- ---------------------------------------------------------------------------

def orElse (message : String) (r : Bool) : Except String Unit := if r then .ok () else .error message

def piped (r : Option Nat) : Except String Nat := r.elim (.error "creating the resize pipe") .ok

def intoMaster : ResizeAct Unit := do
  let size : Winsize ← .ask .windowSize .ok
  .ask (.setWinsize size) .ok

def failing (result : Except String Unit) : ResizeAct Unit :=
  match result with
  | .ok () => return
  | .error e => do
    .ask .close .ok
    .throw e

def orClose (act : ResizeAct Unit) : ResizeAct Unit := do
  let result ← act.attempt
  failing result

def install : ResizeAct Unit := do
  let fd ← .ask .pipe piped
  orClose (.ask .nonblock (orElse "making the resize pipe non-blocking"))
  orClose (.ask .duplicate (orElse "duplicating the pty master for resizes"))
  .ask .spawn .ok
  orClose (.ask .sigaction (orElse "installing the SIGWINCH handler"))
  .ask (.store (fd : Nat)) .ok

def uninstall : ResizeAct Unit := do
  .ask .ignore .ok
  .ask (.store (-1)) .ok
  .ask .close .ok
  .ask .join .ok

def interactive : ResizeAct Unit := do
  intoMaster
  install
  uninstall

def initial (terminal : Option Winsize) (master : Winsize) : State := { terminal, master }

end Climate.Resize
