import Climate.Lib.Text
import Climate.Store.CleanExact
import Climate.Store.Orphans

/-!
# Markers of image keys

A key is an app's own name under `localhost/climate/` or a full reference.
Either way its marker tells it from every other, although an app's name may
have the '+' that stands for a '/' in a marker.
-/

namespace Climate

variable {oci : Oci} {crates crates' : Crates} {dirs dirs' : AppsDirs}

-- ---------------------------------------------------------------------------
-- References
-- ---------------------------------------------------------------------------

/-- A reference as its parser takes it apart. A digest is an algorithm and
what it gave. -/
structure Reference where
  name : String
  tag : Option String
  digest : Option (String × String)

def Reference.tagText (r : Reference) : String :=
  match r.tag with
  | some tag => ":" ++ tag
  | none => ""

def Reference.digestText (r : Reference) : String :=
  match r.digest with
  | some (algorithm, hex) => "@" ++ algorithm ++ ":" ++ hex
  | none => ""

def Reference.whole (r : Reference) : String := r.name ++ r.tagText ++ r.digestText

/-- What the grammar of references says: one without a tag or a digest is
given the tag `latest`, and a '+' stands at most in a digest's algorithm. -/
structure Reference.Grammatical (r : Reference) : Prop where
  pinned : r.tag.isSome = true ∨ r.digest.isSome = true
  name : ∀ c ∈ r.name.toList, c ≠ '+' ∧ c ≠ '@'
  tag : ∀ tag ∈ r.tag, ∀ c ∈ tag.toList, c ≠ '+' ∧ c ≠ '@'
  digest : ∀ d ∈ r.digest, (∀ c ∈ d.1.toList, c ≠ '/') ∧ ∀ c ∈ d.2.toList, c ≠ '/' ∧ c ≠ '+'

/-- The parser gives back the full form of a reference. -/
def Oci.ParsesReferences (oci : Oci) : Prop :=
  ∀ reference whole, oci.whole reference = some whole → ∃ r : Reference, r.Grammatical ∧ r.whole = whole

theorem whole_divided {r : Reference} (h : r.Grammatical) : Text.Divided '@' '/' '+' r.whole.toList := by
  have hfront : ∀ c ∈ (r.name ++ r.tagText).toList, c ≠ '+' ∧ c ≠ '@' := by
    intro c hc
    rw [String.toList_append, List.mem_append] at hc
    rcases hc with hc | hc
    · exact h.name c hc
    · unfold Reference.tagText at hc
      split at hc
      next tag htag =>
        rw [String.toList_append, List.mem_append] at hc
        rcases hc with hc | hc
        · obtain rfl : c = ':' := by simpa using hc
          decide
        · exact h.tag tag htag c hc
      · simp at hc
  have hback : '/' ∉ r.digestText.toList := by
    intro hc
    unfold Reference.digestText at hc
    split at hc
    next algorithm hex hdigest =>
      obtain ⟨halgorithm, hhex⟩ := h.digest _ hdigest
      simp only [String.toList_append, List.mem_append] at hc
      rcases hc with ((hc | hc) | hc) | hc
      · simp at hc
      · exact halgorithm _ hc rfl
      · simp at hc
      · exact (hhex _ hc).1 rfl
    · simp at hc
  rw [Reference.whole, String.toList_append]
  refine Text.divided_append (fun hc => (hfront _ hc).2 rfl) (fun hc => (hfront _ hc).1 rfl) hback ?_
  unfold Reference.digestText
  split
  · exact .inr (by simp [String.toList_append])
  · exact .inl rfl

theorem whole_pinned {r : Reference} (h : r.Grammatical) : ':' ∈ r.whole.toList := by
  simp only [Reference.whole, String.toList_append, List.mem_append]
  rcases h.pinned with htag | hdigest
  · obtain ⟨tag, htag⟩ := Option.isSome_iff_exists.mp htag
    exact .inl (.inr (by simp [Reference.tagText, htag]))
  · obtain ⟨⟨algorithm, hex⟩, hdigest⟩ := Option.isSome_iff_exists.mp hdigest
    exact .inr (by simp [Reference.digestText, hdigest])

-- ---------------------------------------------------------------------------
-- Keys
-- ---------------------------------------------------------------------------

/-- What an image can be recorded under. -/
inductive Key (oci : Oci) : String → Prop
  | built : validateAppName name = .ok () → Key oci s!"localhost/climate/{name}"
  | pulled : oci.whole reference = some whole → Key oci whole

theorem markerName_toList (reference : String) :
    (markerName reference).toList = Text.replace '/' '+' reference.toList := by
  rw [markerName, String.toList_ofList]
  rfl

theorem built_toList (name : String) :
    (s!"localhost/climate/{name}").toList = "localhost/climate/".toList ++ name.toList := by
  change ("localhost/climate/" ++ name).toList = _
  rw [String.toList_append]

theorem markerName_built (h : validateAppName name = .ok ()) :
    (markerName s!"localhost/climate/{name}").toList = "localhost+climate+".toList ++ name.toList := by
  have hself : Text.replace '/' '+' name.toList = name.toList :=
    Text.replace_eq_self fun hc => (validateAppName_char h hc).1 rfl
  rw [markerName_toList, built_toList, Text.replace_append, hself]
  rfl

/-- A reference has a ':', which stays in its marker, and an app's name has none. -/
theorem built_ne_pulled (hparses : oci.ParsesReferences) (h : validateAppName name = .ok ())
    (hwhole : oci.whole reference = some whole) :
    markerName s!"localhost/climate/{name}" ≠ markerName whole := by
  intro heq
  obtain ⟨r, hr, rfl⟩ := hparses reference whole hwhole
  have hcolon : ':' ∈ (markerName r.whole).toList := by
    rw [markerName_toList, Text.mem_replace (by decide) (by decide)]
    exact whole_pinned hr
  rw [← heq, markerName_built h, List.mem_append] at hcolon
  rcases hcolon with hcolon | hcolon
  · revert hcolon
    decide
  · exact (validateAppName_char h hcolon).2 rfl

theorem markerName_inj (hparses : oci.ParsesReferences) (ha : Key oci a) (hb : Key oci b)
    (h : markerName a = markerName b) : a = b := by
  cases ha with
  | @built name hname =>
    cases hb with
    | @built name' hname' =>
      have hlist := congrArg String.toList h
      rw [markerName_built hname, markerName_built hname'] at hlist
      rw [String.toList_inj.mp (List.append_cancel_left hlist)]
    | pulled hwhole => exact absurd h (built_ne_pulled hparses hname hwhole)
  | pulled hwhole =>
    cases hb with
    | built hname => exact absurd h.symm (built_ne_pulled hparses hname hwhole)
    | pulled hwhole' =>
      obtain ⟨r, hr, rfl⟩ := hparses _ _ hwhole
      obtain ⟨r', hr', rfl⟩ := hparses _ _ hwhole'
      have hlist := congrArg String.toList h
      rw [markerName_toList, markerName_toList] at hlist
      exact String.toList_inj.mp
        (Text.replace_inj_divided (by decide) (by decide) (whole_divided hr) (whole_divided hr') hlist)

theorem imageKey_key (hload : load crates dirs name = .ok cfg) (hkey : imageKey oci cfg = .ok key) :
    Key oci key := by
  obtain ⟨hname, hvalid⟩ := load_name hload
  unfold imageKey at hkey
  split at hkey
  · cases hkey
    exact .built (hname ▸ hvalid)
  · split at hkey
    next hwhole =>
      cases hkey
      exact .pulled hwhole
    · cases hkey

/-- The key of a built image says whose it is. -/
theorem built_owner (hparses : oci.ParsesReferences) (hload : load crates dirs name = .ok cfg)
    (hinstall : cfg.image.install.isSome = true) (hkey : imageKey oci cfg = .ok key)
    (hkey' : imageKey oci cfg' = .ok key) :
    cfg'.image.install.isSome = true ∧ cfg'.app.name = cfg.app.name := by
  obtain ⟨hname, hvalid⟩ := load_name hload
  rw [imageKey, if_pos hinstall] at hkey
  cases hkey
  unfold imageKey at hkey'
  split at hkey'
  next hinstall' =>
    have hlist := congrArg String.toList (Except.ok.inj hkey')
    rw [built_toList, built_toList] at hlist
    exact ⟨hinstall', String.toList_inj.mp (List.append_cancel_left hlist)⟩
  · split at hkey'
    next hwhole =>
      cases hkey'
      exact absurd rfl (built_ne_pulled hparses (hname ▸ hvalid) hwhole)
    · cases hkey'

-- ---------------------------------------------------------------------------
-- What is kept
-- ---------------------------------------------------------------------------

/-- What is left is to be kept, or has not been looked at yet. -/
def Remaining (live : List String) (s : Store) (done : List String) (s' : Store) : Prop :=
  ∀ marker, s'.has (.ref marker) = true → marker ∈ live ∨ s.has (.ref marker) = true ∧ marker ∉ done

/-- Once it has gone through them, only markers of apps that load are left. -/
theorem dropOrphanRefs_leaves (apps : List AppConfig) : Collects oci
    (fun _ s' => ∀ marker, s'.has (.ref marker) = true → marker ∈ liveMarkers oci apps) s
    (dropOrphanRefs oci apps) := by
  refine .bind (entries_looks .refs).collects fun found s₁ hfound => ?_
  obtain ⟨rfl, -, hlist⟩ := hfound
  have hloop : Collects oci (fun _ => Remaining (liveMarkers oci apps) s₁ found) s₁ (found.forM fun name => do
      if (liveMarkers oci apps).contains name then return
      .ask (.removeFile (.ref name)) (orFail s!"removing ref {(Path.ref name).display}")) := by
    refine .forM (fun marker hhas => .inr ⟨hhas, by simp⟩) fun done name rest s₂ _ hinv => ?_
    have hskip : ∀ s₃ : Store, (∀ marker, s₃.has (.ref marker) = true → s₂.has (.ref marker) = true) →
        name ∈ liveMarkers oci apps ∨ s₃.has (.ref name) = false →
        Remaining (liveMarkers oci apps) s₁ (done ++ [name]) s₃ := by
      intro s₃ hfewer hname marker hhas
      rcases hinv marker (hfewer marker hhas) with hlive | ⟨hthere, hnot⟩
      · exact .inl hlive
      · by_cases heq : marker = name
        · subst heq
          rcases hname with hlive | hgone
          · exact .inl hlive
          · rw [hhas] at hgone
            cases hgone
        · exact .inr ⟨hthere, by simp [hnot, heq]⟩
    dsimp only
    split
    next hlive => exact .ret (hskip s₂ (fun _ h => h) (.inl (by simpa using hlive)))
    next =>
      refine .ask trivial fun r s₃ _ he hread => ?_
      rw [orFail_ok.mp hread] at he
      obtain ⟨-, rfl⟩ := he
      exact hskip _ (fun marker h => ((Store.has_remove _ _ _).mp h).2) (.inr (by simp [Store.has]))
  refine hloop.weaken fun _ s₂ hinv marker hhas => ?_
  refine (hinv marker hhas).resolve_right ?_
  rintro ⟨hthere, hnot⟩
  exact hnot ((hlist marker).mpr hthere)

/-- Two apps' images have one marker only if they have one key, so that an
app's own image is nobody else's, and what is kept of the recorded keys is
what an app that loads is about. -/
theorem image_records_apart (hparses : oci.ParsesReferences) :
    (∀ crates crates' dirs dirs' name name' cfg cfg' key key', load crates dirs name = .ok cfg →
      load crates' dirs' name' = .ok cfg' → imageKey oci cfg = .ok key → imageKey oci cfg' = .ok key' →
      (refMarker key = refMarker key' ↔ key = key') ∧
        (refMarker key = refMarker key' → cfg.image.install.isSome = true →
          cfg'.image.install.isSome = true ∧ cfg'.app.name = cfg.app.name)) ∧
    ∀ crates dirs s s', Prog.Steps (Op.effect oci) s (dropOrphanRefs oci (loadable crates dirs)) s' (.ret ()) →
      ∀ key, Key oci key → s'.has (refMarker key) = true →
        ∃ name ∈ appNames dirs, ∃ cfg, load crates dirs name = .ok cfg ∧
          (imageKey oci cfg = .ok key ∨ oci.whole cfg.image.reference = some key) := by
  have hmarker : ∀ {a b}, Key oci a → Key oci b → (refMarker a = refMarker b ↔ a = b) := by
    intro a b ha hb
    refine ⟨fun heq => markerName_inj hparses ha hb (Path.ref.inj heq), congrArg refMarker⟩
  refine ⟨?_, ?_⟩
  · intro crates crates' dirs dirs' name name' cfg cfg' key key' hload hload' hkey hkey'
    have hiff := hmarker (imageKey_key hload hkey) (imageKey_key hload' hkey')
    refine ⟨hiff, fun heq hinstall => ?_⟩
    obtain rfl := hiff.mp heq
    exact built_owner hparses hload hinstall hkey hkey'
  · intro crates dirs s s' hs key hkey hhas
    have hlive := ((dropOrphanRefs_leaves (loadable crates dirs)) s' _ hs).value () rfl (markerName key) hhas
    obtain ⟨name, hname, cfg, hload, other, hother, heq⟩ := mem_liveMarkers.mp hlive
    refine ⟨name, hname, cfg, hload, ?_⟩
    have hsame : other = key := by
      refine markerName_inj hparses ?_ hkey heq
      exact hother.elim (imageKey_key hload) .pulled
    rwa [hsame] at hother

namespace Linters

open Toml (Table)

def lintText : String :=
  "[app]\nname = \"c+lint\"\ndescription = \"C linter\"\nlicense = \"MIT\"\n" ++
  "[image]\nreference = \"gcc\"\ninstall = \"apt-get install -y clint\"\n"

def gccText : String :=
  "[app]\nname = \"gcc\"\ndescription = \"C compiler\"\nlicense = \"GPL\"\n[image]\nreference = \"gcc\"\n"

def lintRaw : Table :=
  [("app", .table [("name", .string "c+lint"), ("description", .string "C linter"), ("license", .string "MIT")]),
    ("image", .table [("reference", .string "gcc"), ("install", .string "apt-get install -y clint")])]

def gccRaw : Table :=
  [("app", .table [("name", .string "gcc"), ("description", .string "C compiler"), ("license", .string "GPL")]),
    ("image", .table [("reference", .string "gcc")])]

def libraries : Crates where
  parse text :=
    if text = lintText then .ok lintRaw else if text = gccText then .ok gccRaw else .error "expected a table"
  print _ := ""
  newlines text := text
  variant _ := none
  sequence _ _ := none
  nearest _ := .nan
  capability _ := none
  capabilityName _ := ""
  seacomb := { known := fun _ => true }

def host : AppsDirs where
  search := [{
    path := "/usr/share/climate/apps"
    groups := { entries :=
      [("c", { entries := [("c+lint.toml", .file (.ok lintText))] }),
        ("g", { entries := [("gcc.toml", .file (.ok gccText))] })] } }]

def lint : AppConfig where
  app := { name := "c+lint", description := "C linter", license := "MIT" }
  image := { reference := "gcc", install := some "apt-get install -y clint" }

def gcc : AppConfig where
  app := { name := "gcc", description := "C compiler", license := "GPL" }
  image := { reference := "gcc" }

def hub : Oci where
  content _ := .other ""
  whole reference := if reference = "gcc" then some "docker.io/library/gcc:latest" else none

theorem hub_parses : hub.ParsesReferences := by
  intro reference whole h
  simp only [hub, Option.ite_none_right_eq_some, Option.some.injEq] at h
  obtain ⟨-, rfl⟩ := h
  refine ⟨⟨"docker.io/library/gcc", some "latest", none⟩, ⟨.inl rfl, ?_, ?_, ?_⟩, by rfl⟩
  · simp
  · simp
  · simp

/-- An app called `c+old` is gone. -/
def store : Store :=
  ["localhost+climate+c+lint", "docker.io+library+gcc:latest", "localhost+climate+c+old"].foldl
    (fun s name => s.put (.ref name) (.file (.text "sha256:ab"))) ∅

def cleaned : Store × Act Unit := Prog.run (calm hub fun _ => none) 10 (store, dropOrphanRefs hub [lint, gcc])

theorem lint_loads : load libraries host "c+lint" = .ok lint := by
  rfl

theorem gcc_loads : load libraries host "gcc" = .ok gcc := by
  rfl

theorem loadable_both : loadable libraries host = [lint, gcc] := by
  have hnames : appNames host = ["c+lint", "gcc"] := List.mergeSort_of_pairwise (by decide)
  rw [loadable, hnames]
  rfl

theorem image_records_apart_linters :
    (refMarker "localhost/climate/c+lint" = refMarker "docker.io/library/gcc:latest" ↔
      "localhost/climate/c+lint" = "docker.io/library/gcc:latest") ∧
    cleaned.2 = .ret () ∧ ∃ name ∈ appNames host, ∃ cfg, load libraries host name = .ok cfg ∧
      (imageKey hub cfg = .ok "localhost/climate/c+lint" ∨
        hub.whole cfg.image.reference = some "localhost/climate/c+lint") := by
  obtain ⟨hapart, hkept⟩ := image_records_apart hub_parses
  have hret : cleaned.2 = .ret () := Prog.finished_iff.mp (by rfl)
  have hsteps := Prog.run_steps (calm hub fun _ => none) 10 store (dropOrphanRefs hub [lint, gcc])
  change Prog.Steps (Op.effect hub) store _ cleaned.1 cleaned.2 at hsteps
  rw [hret, ← loadable_both] at hsteps
  have hbuilt : Key hub "localhost/climate/c+lint" := imageKey_key lint_loads (by rfl)
  exact ⟨(hapart _ _ _ _ _ _ _ _ _ _ lint_loads gcc_loads (by rfl) (by rfl)).1, hret,
    hkept _ _ _ _ hsteps _ hbuilt (by rfl)⟩

end Linters

end Climate
