import Climate.Lib.Exec
import Climate.Lib.UnixPath
import Climate.Store.Basic

/-!
# The host as a definition meets it

What spec.rs asks of the host, and what it creates there.
-/

namespace Climate

/-- What a path leads to, symbolic links followed. -/
inductive Kind
  | regular
  | directory
  | socket
  | fifo
  | device
  deriving DecidableEq, Repr

/-- `resolvConf` is what localnet.rs puts together for `/etc/resolv.conf`.
getcwd(2) names a directory, and without `..`. -/
structure Host where
  kind : String → Option Kind
  cwd : Option String
  home : Option String
  var : String → Option String := fun _ => none
  resolvConf : String := ""
  cwd_directory : ∀ dir ∈ cwd, kind dir = some .directory
  cwd_physical : ∀ dir ∈ cwd, UnixPath.Component.parent ∉ UnixPath.components dir

inductive HostOp
  | currentDir
  | homeDir
  | var (name : String)
  | resolvConf
  | kind (path : String)
  | createDirAll (path : String)
  | createFile (path : String)
  deriving DecidableEq, Repr

def HostOp.Res : HostOp → Type
  | .currentDir | .homeDir | .var _ => Option String
  | .resolvConf => String
  | .kind _ => Option Kind
  | .createDirAll _ | .createFile _ => Except IoError Unit

def hostOps : Interface where
  Op := HostOp
  Res := HostOp.Res

abbrev HostAct := Prog hostOps

/-- What was there stays as it is. Creating a path may bring others with it:
its parents, and whatever leads to the same place. -/
structure Host.Grows (h h' : Host) : Prop where
  cwd : h'.cwd = h.cwd
  home : h'.home = h.home
  kind : ∀ path, h'.kind path = h.kind path ∨
    h.kind path = none ∧ (h'.kind path = some .regular ∨ h'.kind path = some .directory)

def HostOp.effect : (op : HostOp) → Host → op.Res → Host → Prop
  | .currentDir, h, r, h' => h' = h ∧ r = h.cwd
  | .homeDir, h, r, h' => h' = h ∧ r = h.home
  | .var name, h, r, h' => h' = h ∧ r = h.var name
  | .resolvConf, h, r, h' => h' = h ∧ r = h.resolvConf
  | .kind path, h, r, h' => h' = h ∧ r = h.kind path
  | .createDirAll path, h, r, h' => h.Grows h' ∧ (r = .ok () → h'.kind path = some .directory)
  | .createFile path, h, r, h' => h.Grows h' ∧ (r = .ok () → (h'.kind path).isSome = true)

theorem Host.Grows.refl (h : Host) : h.Grows h := ⟨rfl, rfl, fun _ => .inl rfl⟩

theorem Host.Grows.trans {h h' h'' : Host} (hg : h.Grows h') (hg' : h'.Grows h'') : h.Grows h'' := by
  refine ⟨hg'.cwd.trans hg.cwd, hg'.home.trans hg.home, fun path => ?_⟩
  rcases hg'.kind path with heq | ⟨hnone, hnew⟩
  · rcases hg.kind path with heq' | ⟨hnone, hnew⟩
    · exact .inl (heq.trans heq')
    · exact .inr ⟨hnone, hnew.imp heq.trans heq.trans⟩
  · rcases hg.kind path with heq' | ⟨-, hnew'⟩
    · exact .inr ⟨heq'.symm.trans hnone, hnew⟩
    · rw [hnone] at hnew'
      simp at hnew'

theorem Host.Grows.keeps {h h' : Host} (hg : h.Grows h') (hk : h.kind path = some k) :
    h'.kind path = some k := by
  rcases hg.kind path with heq | ⟨hnone, -⟩
  · exact heq.trans hk
  · rw [hk] at hnone
    cases hnone

end Climate
