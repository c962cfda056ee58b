import Climate.Apps.Definitions
import Climate.Lib.Alone
import Climate.Store.Calm
import Climate.Store.Crash

/-!
# Refs whose app does not load

Cleaning up takes an app whose definition does not load for one that is gone.
Its refs stay only where an app that loads is about the same image.
-/

namespace Climate

open Toml (Table Value)

variable {oci : Oci} {crates : Crates} {dirs : AppsDirs}

/-- What clean.rs's `clean` does to the store. It goes on to the runtime
directory, which is not in the store. -/
def clean (oci : Oci) (crates : Crates) (dirs : AppsDirs) : Act Unit := do
  dropOrphanRefs oci (loadable crates dirs)
  gcImages

-- ---------------------------------------------------------------------------
-- Whose an image is
-- ---------------------------------------------------------------------------

def Found (dirs : AppsDirs) (name : String) : Prop :=
  validateAppName name = .ok () ∧ (dirs.search.findSome? (·.file name)).isSome = true

def stated (raw : Table) (name key : String) : Option Value :=
  match raw.get name with
  | some (.table entries) => Table.get entries key
  | _ => none

def AppConfig.Keeps (oci : Oci) (cfg : AppConfig) (marker : String) : Prop :=
  ∃ key, (imageKey oci cfg = .ok key ∨ oci.whole cfg.image.reference = some key) ∧ markerName key = marker

def Store.Recorded (s : Store) (marker : String) : Prop := ∃ c, s.lookup (.ref marker) = some (.file c)

/-- The ref is as it was, and so is the image behind it. -/
def Spared (s s' : Store) (marker : String) : Prop :=
  s'.lookup (.ref marker) = s.lookup (.ref marker) ∧
    ∀ d m, s.marker marker = some d → s.manifestAt d = some m →
      ∀ p ∈ imageParts d m, s'.lookup p = s.lookup p

theorem mem_liveMarkers : marker ∈ liveMarkers oci (loadable crates dirs) ↔
    ∃ name ∈ appNames dirs, ∃ cfg, load crates dirs name = .ok cfg ∧ cfg.Keeps oci marker := by
  have hkeeps : ∀ cfg : AppConfig, (marker ∈ liveMarkers oci [cfg] ↔ cfg.Keeps oci marker) := by
    intro cfg
    simp only [liveMarkers, List.flatMap_cons, List.flatMap_nil, List.append_nil, List.mem_append,
      AppConfig.Keeps, or_and_right, exists_or]
    refine or_congr ?_ ?_
    · cases imageKey oci cfg <;> simp [eq_comm]
    · cases oci.whole cfg.image.reference <;> simp [eq_comm]
  have hload : ∀ cfg name, (load crates dirs name).toOption = some cfg ↔ load crates dirs name = .ok cfg := by
    intro cfg name
    cases load crates dirs name <;> simp [Except.toOption]
  constructor
  · intro hmem
    obtain ⟨cfg, hcfg, hmem⟩ := List.mem_flatMap.mp hmem
    obtain ⟨name, hname, hcfg⟩ := List.mem_filterMap.mp hcfg
    refine ⟨name, hname, cfg, (hload cfg name).mp hcfg, (hkeeps cfg).mp ?_⟩
    simpa [liveMarkers] using hmem
  · rintro ⟨name, hname, cfg, hcfg, hkeep⟩
    refine List.mem_flatMap.mpr ⟨cfg, List.mem_filterMap.mpr ⟨name, hname, (hload cfg name).mpr hcfg⟩, ?_⟩
    simpa [liveMarkers] using (hkeeps cfg).mpr hkeep

-- ---------------------------------------------------------------------------
-- What is removed
-- ---------------------------------------------------------------------------

def Forgotten (live : List String) (s s' : Store) : Prop :=
  ∀ p, s'.lookup p = s.lookup p ∨ ∃ name ∉ live, p = .ref name ∧ s.Recorded name

theorem Forgotten.same (h : Forgotten live s s') (hlive : name ∈ live ∨ ¬ s.Recorded name) :
    s'.lookup (.ref name) = s.lookup (.ref name) := by
  rcases h (.ref name) with hsame | ⟨other, hdead, heq, hrec⟩
  · exact hsame
  · cases heq
    rcases hlive with hlive | hnone
    · exact absurd hlive hdead
    · exact absurd hrec hnone

namespace Misspelt

def definition : String :=
  "[app]\nname = \"yq\"\ndescription = \"YAML\"\nlicense = \"MIT\"\n" ++
    "[image]\nreference = \"own/yq:1\"\npull = false\n"

def override : String := "[run]\nnetwrok = \"full\"\n"

def raw : Table :=
  [("app", .table [("name", .string "yq"), ("description", .string "YAML"), ("license", .string "MIT")]),
    ("image", .table [("reference", .string "own/yq:1"), ("pull", .boolean false)])]

def libraries : Crates where
  parse text :=
    if text = definition then .ok raw
    else if text = override then .ok [("run", .table [("netwrok", .string "full")])]
    else .error "expected a table"
  print _ := ""
  newlines text := text
  variant _ := none
  sequence _ _ := none
  nearest _ := .nan
  capability _ := none
  capabilityName _ := ""
  seacomb := { known := fun _ => true }

def folder (text : String) : Folder (Folder Entry) where
  entries := [("y", { entries := [("yq.toml", .file (.ok text))] })]

def host : AppsDirs where
  search := [{ path := "/usr/share/climate/apps", groups := folder definition }]
  overrides := some { path := "overrides", groups := folder override }

def hub : Oci where
  content _ := .other ""
  whole reference := some s!"docker.io/{reference}"

def store : Store := Store.put ∅ (.ref "docker.io+own+yq:1") (.file (.text "sha256:ab"))

end Misspelt

end Climate
