import Climate.Lib.Alone
import Climate.Lib.Exec
import Climate.Lib.Text
import Climate.Runtime.Run

/-!
# The options of a mount

`Mount.new` writes the directories of a mount into one text, with ',' between
the options and ':' between the lower directories. `readOptions` is how
fuse-overlayfs takes that text apart. A path with a ':' is refused; one with a
',' is not, and is read as more options than were meant.
-/

namespace Climate.Runtime

open UnixPath Prog

-- ---------------------------------------------------------------------------
-- How the options are read
-- ---------------------------------------------------------------------------

inductive OverlayOption
  | lowerdir (paths : List String)
  | upperdir (path : String)
  | workdir (path : String)
  | other (text : String)
  deriving DecidableEq, Repr

def OverlayOption.text : OverlayOption → String
  | .lowerdir paths => "lowerdir=" ++ ":".intercalate paths
  | .upperdir path => "upperdir=" ++ path
  | .workdir path => "workdir=" ++ path
  | .other text => text

/-- The name of an option ends at the first '='. -/
def readOption (text : String) : OverlayOption :=
  match splitOnce text '=' with
  | none => .other text
  | some (name, value) =>
    if name = "lowerdir" then .lowerdir (Text.pieces ':' value)
    else if name = "upperdir" then .upperdir value
    else if name = "workdir" then .workdir value
    else .other text

def readOptions (options : String) : List OverlayOption := (Text.pieces ',' options).map readOption

theorem splitOnce_text (h : splitOnce text '=' = some (name, value)) : text = name ++ "=" ++ value := by
  rw [← String.toList_inj, (splitOnce_eq_some h).1]
  simp

/-- Nothing is lost in reading. -/
theorem text_readOption (text : String) : (readOption text).text = text := by
  unfold readOption
  split
  · rfl
  next name value h =>
    have htext := splitOnce_text h
    split
    next hname =>
      rw [OverlayOption.text, Text.intercalate_pieces (c := ':') rfl, htext, hname]
      rfl
    · split
      next hname =>
        rw [htext, hname]
        rfl
      · split
        next hname =>
          rw [htext, hname]
          rfl
        · rfl

theorem map_text_readOptions (options : String) :
    (readOptions options).map OverlayOption.text = Text.pieces ',' options := by
  rw [readOptions, List.map_map]
  exact (List.map_congr_left fun piece _ => text_readOption piece).trans (List.map_id _)

theorem readOption_lowerdir (hne : paths ≠ []) (h : ∀ path ∈ paths, ':' ∉ path.toList) :
    readOption (OverlayOption.text (.lowerdir paths)) = .lowerdir paths := by
  have hsplit : splitOnce (OverlayOption.text (.lowerdir paths)) '=' =
      some ("lowerdir", ":".intercalate paths) :=
    splitOnce_of_toList (by simp [OverlayOption.text]) (by simp)
  have hpieces : Text.pieces ':' (":".intercalate paths) = paths := Text.pieces_intercalate rfl hne h
  rw [readOption, hsplit]
  simp only [if_true, hpieces]

theorem readOption_upperdir (path : String) : readOption (OverlayOption.text (.upperdir path)) =
    .upperdir path := by
  have hsplit : splitOnce (OverlayOption.text (.upperdir path)) '=' = some ("upperdir", path) :=
    splitOnce_of_toList (by simp [OverlayOption.text]) (by simp)
  rw [readOption, hsplit]
  simp

theorem readOption_workdir (path : String) : readOption (OverlayOption.text (.workdir path)) = .workdir path := by
  have hsplit : splitOnce (OverlayOption.text (.workdir path)) '=' = some ("workdir", path) :=
    splitOnce_of_toList (by simp [OverlayOption.text]) (by simp)
  rw [readOption, hsplit]
  simp

theorem comma_of_mem_readOptions (h : option ∈ readOptions options) : ',' ∉ option.text.toList := by
  have hmem := List.mem_map_of_mem (f := OverlayOption.text) h
  rw [map_text_readOptions] at hmem
  exact Text.not_mem_pieces hmem

/-- Options come back if none of them has a ',' in it. -/
theorem readOptions_intercalate (hne : l ≠ []) (h : ∀ option ∈ l, readOption option.text = option)
    (hnone : ∀ option ∈ l, ',' ∉ option.text.toList) :
    readOptions (",".intercalate (l.map OverlayOption.text)) = l := by
  have hpieces : Text.pieces ',' (",".intercalate (l.map OverlayOption.text)) = l.map OverlayOption.text :=
    Text.pieces_intercalate rfl (by simpa using hne) (by simpa using hnone)
  rw [readOptions, hpieces, List.map_map]
  exact (List.map_congr_left h).trans (List.map_id _)

-- ---------------------------------------------------------------------------
-- What is meant by them
-- ---------------------------------------------------------------------------

/-- The directories of a mount. The layers are bottom-up. -/
structure Overlay where
  stub : String
  layers : List String
  writable : Option (String × String)
  deriving DecidableEq, Repr

namespace Overlay

variable {o : Overlay}

/-- The upper and the work directory. -/
def tops (o : Overlay) : List String :=
  match o.writable with
  | none => []
  | some (upper, work) => [upper, work]

def paths (o : Overlay) : List String := o.stub :: o.layers ++ o.tops

def Accepted (o : Overlay) : Prop := ∀ path ∈ o.paths, lowerdirArg path = .ok path

def Commaless (o : Overlay) : Prop := ∀ path ∈ o.paths, ',' ∉ path.toList

def meant (o : Overlay) : List OverlayOption :=
  .lowerdir (o.stub :: o.layers.reverse) ::
    match o.writable with
    | none => []
    | some (upper, work) => [.upperdir upper, .workdir work]

def options (o : Overlay) : String :=
  let extra := match o.writable with
    | none => ""
    | some (upper, work) => s!",upperdir={upper},workdir={work}"
  let stacked := ":".intercalate (o.stub :: o.layers.reverse)
  s!"lowerdir={stacked}{extra}"

theorem options_eq (o : Overlay) : o.options = ",".intercalate (o.meant.map OverlayOption.text) := by
  obtain ⟨stub, layers, writable⟩ := o
  rw [← String.toList_inj]
  cases writable with
  | none => simp [options, meant, OverlayOption.text, String.toList_intercalate, toString]
  | some tops => simp [options, meant, OverlayOption.text, String.toList_intercalate, toString]

theorem Accepted.expressible (h : o.Accepted) (hmem : path ∈ o.paths) : ':' ∉ path.toList := by
  intro hcolon
  have hok := h path hmem
  rw [lowerdirArg, if_pos hcolon] at hok
  cases hok

theorem Accepted.readable (h : o.Accepted) : ∀ option ∈ o.meant, readOption option.text = option := by
  intro option hmem
  rcases List.mem_cons.mp hmem with rfl | hmem
  · refine readOption_lowerdir (List.cons_ne_nil _ _) fun path hpath => h.expressible ?_
    simp only [List.mem_cons, List.mem_reverse] at hpath
    exact List.mem_append_left _ (List.mem_cons.mpr hpath)
  · split at hmem
    · cases hmem
    · simp only [List.mem_cons, List.not_mem_nil, or_false] at hmem
      rcases hmem with rfl | rfl
      · exact readOption_upperdir _
      · exact readOption_workdir _

theorem comma_lowerdir {paths : List String} :
    ',' ∉ (OverlayOption.text (.lowerdir paths)).toList ↔ ∀ path ∈ paths, ',' ∉ path.toList := by
  have htext : (OverlayOption.text (.lowerdir paths)).toList =
      "lowerdir=".toList ++ [':'].intercalate (paths.map String.toList) := by
    simp [OverlayOption.text, String.toList_intercalate]
  have hname : ',' ∉ "lowerdir=".toList := by simp
  rw [htext, List.mem_append, or_iff_right hname]
  constructor
  · intro h path hmem hcomma
    exact h (Text.mem_intercalate_of (List.mem_map_of_mem hmem) hcomma)
  · intro h hcomma
    rcases Text.mem_intercalate hcomma with hsep | ⟨l, hl, hmem⟩
    · exact absurd hsep (by decide)
    · obtain ⟨path, hpath, rfl⟩ := List.mem_map.mp hl
      exact h path hpath hmem

/-- The options' own names have no ',' in them. -/
theorem commaless_iff : (∀ option ∈ o.meant, ',' ∉ option.text.toList) ↔ o.Commaless := by
  obtain ⟨stub, layers, writable⟩ := o
  rw [meant, List.forall_mem_cons, comma_lowerdir]
  cases writable with
  | none => simp [Commaless, paths, tops]
  | some tops => simp [Commaless, paths, Overlay.tops, OverlayOption.text, or_imp, forall_and, and_assoc]

/-- No text is read as options for a path with a ',' in it. -/
theorem commaless_of_read {options : String} (h : readOptions options = o.meant) : o.Commaless :=
  commaless_iff.mp fun _ hmem => comma_of_mem_readOptions (h ▸ hmem)

theorem Accepted.read_iff (h : o.Accepted) : readOptions o.options = o.meant ↔ o.Commaless := by
  refine ⟨commaless_of_read, fun hnone => ?_⟩
  rw [options_eq]
  exact readOptions_intercalate (by simp [meant]) h.readable (commaless_iff.mpr hnone)

end Overlay

-- ---------------------------------------------------------------------------
-- Where they come from
-- ---------------------------------------------------------------------------

/-- `Q` holds of what fuse-overlayfs is run with. -/
def OnMount (Q : String → Place → Prop) : RunOp → Prop
  | .fuseOverlayfs options merged => Q options merged
  | _ => True

def LayerAt (images : Place) (digest path : String) : Prop :=
  ∃ algo hex, digestPath digest = .ok (algo, hex) ∧ path = display (images ++ ["layers", algo, hex])

/-- The directories that a mount at `merged` is made of. -/
structure Overlay.Of (base images : Place) (layers : List String) (writable : Option (Place × Place))
    (merged : Place) (o : Overlay) : Prop where
  stub : ∃ id, merged = base ++ ["overlays", id, "merged"] ∧ o.stub = display (base ++ ["overlays", id, "stub"])
  layers : List.Forall₂ (LayerAt images) layers o.layers
  writable : o.writable = writable.map fun tops => (display tops.1, display tops.2)

theorem mem_display {place : Place} (hname : name ∈ place) (hc : c ∈ name.toList) :
    c ∈ (display place).toList := by
  have htext : (display place).toList = '/' :: ['/'].intercalate (place.map String.toList) := by
    have hnames : String.toList ∘ Component.text ∘ Component.normal = String.toList := rfl
    simp [display, render, String.toList_intercalate, hnames]
  rw [htext]
  exact List.mem_cons_of_mem _ (Text.mem_intercalate_of (List.mem_map_of_mem hname) hc)

theorem lowerdirArg_ok (h : lowerdirArg path = .ok arg) : arg = path := by
  unfold lowerdirArg at h
  split at h <;> cases h
  rfl

variable {Q : String → Place → Prop}

theorem materialiseStub_onMount : (materialiseStub stub points).Only (OnMount Q) := by
  refine .forM fun point _ => ?_
  unfold materialise
  dsimp only
  split
  · exact .bind (.ask trivial) fun _ => .ask trivial
  · exact .ask trivial

theorem lowerdirs_at (images : Place) (digests : List String) (m : Machine) :
    Alone RunOp.effect (fun op _ => OnMount Q op)
      (fun paths _ => List.Forall₂ (LayerAt images) digests paths ∧ ∀ path ∈ paths, lowerdirArg path = .ok path) m
      (lowerdirs images digests) := by
  induction digests generalizing m with
  | nil => exact .ret ⟨.nil, by simp⟩
  | cons digest rest ih =>
    unfold lowerdirs
    refine .bind (Q := fun parts _ => digestPath digest = .ok parts) (.ofExcept fun _ h => h)
      fun parts s₁ hparts => ?_
    obtain ⟨algo, hex⟩ := parts
    refine .ask_bind trivial fun _ s₂ extracted _ _ => ?_
    split
    · refine .bind (Q := fun lower _ => lowerdirArg (display (images ++ ["layers", algo, hex])) = .ok lower)
        (.ofExcept fun _ h => h) fun lower s₃ hlower => ?_
      obtain rfl := lowerdirArg_ok hlower
      exact .bind (ih s₃) fun others s₄ hothers =>
        .ret ⟨.cons ⟨algo, hex, hparts, rfl⟩ hothers.1, List.forall_mem_cons.mpr ⟨hlower, hothers.2⟩⟩
    · exact .throw

theorem writableOptions_ok {o : Overlay} (h : writableOptions writable = .ok extra)
    (ho : o.writable = writable.map fun tops => (display tops.1, display tops.2)) :
    let stacked := ":".intercalate (o.stub :: o.layers.reverse)
    s!"lowerdir={stacked}{extra}" = o.options ∧
      ∀ path ∈ o.tops, lowerdirArg path = .ok path := by
  obtain ⟨stub, layers, tops⟩ := o
  obtain rfl := ho
  cases writable with
  | none =>
    cases h
    exact ⟨rfl, by simp [Overlay.tops]⟩
  | some tops =>
    obtain ⟨upper, work⟩ := tops
    simp only [writableOptions] at h
    cases hupper : lowerdirArg (display upper) with
    | error e =>
      rw [hupper] at h
      cases h
    | ok upperArg =>
      cases hwork : lowerdirArg (display work) with
      | error e =>
        rw [hupper, hwork] at h
        cases h
      | ok workArg =>
        rw [hupper, hwork] at h
        cases h
        obtain rfl := lowerdirArg_ok hupper
        obtain rfl := lowerdirArg_ok hwork
        exact ⟨rfl, by simpa [Overlay.tops] using ⟨hupper, hwork⟩⟩

theorem Mount.new_mounts (base images : Place) (layers : List String) (points : List MountPoint)
    (writable : Option (Place × Place)) (m : Machine) :
    Alone RunOp.effect
      (fun op _ => OnMount (fun options merged => ∃ o : Overlay,
        o.Of base images layers writable merged ∧ o.Accepted ∧ options = o.options) op)
      (fun _ _ => True) m (Mount.new base images layers points writable) := by
  unfold Mount.new
  split
  · exact .throw
  refine .ask_bind trivial fun _ s₁ (id : String) _ _ => ?_
  refine .ask_bind trivial fun _ s₂ _ _ _ => ?_
  refine .bind (Alone.only (materialiseStub_onMount.imp fun _ hop _ => hop)) fun _ s₃ _ => ?_
  refine .bind (Q := fun first _ => lowerdirArg (display (base ++ ["overlays", id, "stub"])) = .ok first)
    (.ofExcept fun _ h => h) fun first s₄ hfirst => ?_
  obtain rfl := lowerdirArg_ok hfirst
  refine .bind (lowerdirs_at images layers.reverse s₄) fun others s₅ hothers => ?_
  refine .bind (Q := fun extra _ => writableOptions writable = .ok extra) (.ofExcept fun _ h => h)
    fun extra s₆ hextra => ?_
  refine .ask_bind ?_ fun _ s₇ mounted _ _ => ?_
  · let o : Overlay := ⟨display (base ++ ["overlays", id, "stub"]), others.reverse,
      writable.map fun tops => (display tops.1, display tops.2)⟩
    obtain ⟨hoptions, htops⟩ := writableOptions_ok (o := o) hextra rfl
    refine ⟨o, ⟨⟨id, rfl, rfl⟩, ?_, rfl⟩, ?_, ?_⟩
    · simpa using List.rel_reverse hothers.1
    · simp only [Overlay.Accepted, Overlay.paths, List.cons_append, List.forall_mem_cons, List.forall_mem_append]
      exact ⟨hfirst, by simpa [o] using hothers.2, htops⟩
    · rw [← hoptions]
      simp only [o, List.reverse_reverse]
  · split
    · exact .ret trivial
    · exact .ask_bind trivial fun _ _ _ _ _ => .throw

/-- The options of a mount are read as what was meant exactly if no path of it
has a ',' in it, and every mount hands over the options of such an overlay. -/
theorem options_read_iff (o : Overlay) (h : o.Accepted) :
    (readOptions o.options = o.meant ↔ o.Commaless) ∧
    ∀ base images layers points writable m m' options merged next,
      Steps RunOp.effect m (Mount.new base images layers points writable) m'
        (.call (.fuseOverlayfs options merged) next) →
      ∃ o : Overlay, o.Of base images layers writable merged ∧ o.Accepted ∧ options = o.options := by
  refine ⟨h.read_iff, ?_⟩
  intro base images layers points writable m m' options merged next hs
  exact (Mount.new_mounts base images layers points writable m m' _ hs).op _ next rfl

namespace CommaHome

def runtimeDir : Place := ["run", "user", "1000", "climate"]

def images : Place := ["srv", "a,b", "climate", "images"]

/-- One layer is extracted. -/
def before : Machine := { entries := [(runtimeDir, .dir), (images ++ ["layers", "sha256", "1f"], .dir)] }

def mounting : RunAct Mount := Mount.new runtimeDir images ["sha256:1f"] [] none

def reached : Machine × RunAct Mount := Prog.run (Workshop.worker []) 3 (before, mounting)

def asked : String × Place :=
  match reached.2.pending? with
  | some (.fuseOverlayfs options merged) => (options, merged)
  | _ => ("", [])

theorem reached_mount : ∃ next, Steps RunOp.effect before mounting reached.1
    (.call (.fuseOverlayfs asked.1 asked.2) next) :=
  run_reaches (Workshop.worker []) 3 (by rfl)

/-- The data directory is `/srv/a,b`: whatever the mount's options are, they
are not read as what was meant. -/
theorem options_misread :
    ∃ m' options merged next, Steps RunOp.effect before mounting m' (.call (.fuseOverlayfs options merged) next) ∧
      ∀ o : Overlay, o.Of runtimeDir images ["sha256:1f"] none merged → readOptions options ≠ o.meant := by
  obtain ⟨next, hs⟩ := reached_mount
  refine ⟨_, _, _, next, hs, fun o ho hread => ?_⟩
  obtain ⟨path, _, ⟨algo, hex, -, rfl⟩, -, heq⟩ := List.forall₂_cons_left_iff.mp ho.layers
  have hname : "a,b" ∈ images ++ ["layers", algo, hex] := by simp [images]
  have hpath : display (images ++ ["layers", algo, hex]) ∈ o.paths := by
    rw [Overlay.paths, heq]
    simp
  exact Overlay.commaless_of_read hread _ hpath (mem_display hname (by decide))

/-- The options of the same mount, with the layer under `/srv/ab`. -/
def plain : Overlay where
  stub := "/run/user/1000/climate/overlays/7-1/stub"
  layers := ["/srv/ab/climate/images/layers/sha256/1f"]
  writable := none

theorem plain_accepted : plain.Accepted := by
  intro path hmem
  simp [plain, Overlay.paths, Overlay.tops] at hmem
  rcases hmem with rfl | rfl <;> simp [lowerdirArg]

theorem options_read_plain :
    (readOptions plain.options = plain.meant ↔ plain.Commaless) ∧
    ∃ o : Overlay, o.Of runtimeDir images ["sha256:1f"] none asked.2 ∧ o.Accepted ∧ asked.1 = o.options := by
  obtain ⟨next, hs⟩ := reached_mount
  obtain ⟨hread, hmounts⟩ := options_read_iff plain plain_accepted
  exact ⟨hread, hmounts _ _ _ _ _ _ _ _ _ _ hs⟩

end CommaHome

end Climate.Runtime
