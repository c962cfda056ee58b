import Climate.Store.Pull

/-!
# Building an image

The functions of build.rs, with the part of runtime.rs's `Mount::new` that
looks for the layers in the store, and those of pull.rs and store.rs that
choose between pulling and building. The container a script runs in is one
operation.
-/

namespace Climate

def imageLayerMediaType : String := "application/vnd.oci.image.layer.v1.tar"

def isDir (path : Path) : Act Bool := .ask (.isDir path) .ok

def lowerdirs : List String → Act (List Path)
  | [] => return []
  | digest :: rest => do
    let path ← layerPath digest
    if ← isDir path then return path :: (← lowerdirs rest)
    else .throw s!"layer {digest} is not extracted in the store"

/-- The part of `Mount::new` that reads the store. The stub layer that it puts
above the image's layers is made outside the store (`Climate.Runtime.Stub`), and
so is the mount itself. `layers` lists them bottom-up. -/
def mountLayers (layers : List String) : Act (List Path) :=
  if layers.isEmpty then .throw "image has no layers to mount" else lowerdirs layers.reverse

def runScript (cfg : AppConfig) (script baseKey : String) (base : Manifest) (upper work : Path) :
    Act Unit := do
  let _config ← imageConfig baseKey base
  let dirs ← mountLayers (base.layers.map (·.digest))
  let code : Int ← .ask (.runScript upper work dirs script)
    (orFail "starting the container")
  if code ≠ 0 then .throw s!"{cfg.app.name}: install script failed with exit code {code}"

def createTree (path : Path) : Act Unit :=
  .ask (.createTree path) (orFail s!"creating {path.display}")

/-- The image a build makes: the base with one more layer, under its own name. -/
def Manifest.extend (base : Manifest) (digest : String) : Manifest :=
  { base with layers := base.layers ++ [{ digest, mediaType := imageLayerMediaType }] }

def build (oci : Oci) (cfg : AppConfig) (script : String) : Act Unit := do
  let reference := cfg.image.reference
  match oci.whole reference with
  | none => .throw s!"invalid image reference '{reference}'"
  | some baseKey =>
    match ← readManifest baseKey with
    | none =>
      .throw s!"{cfg.app.name}: base image '{reference}' is not in the store; pull it first"
    | some base =>
      let unique : String ← .ask .uniqueId .ok
      let id := dashless unique
      let digest := digestOf buildAlgo id
      let layer ← layerPath digest
      let upper := Path.layer buildAlgo (stagingName id)
      let work := Path.layer buildAlgo (stagingName id ++ "-work")
      createTree upper
      createTree work
      let result ← (runScript cfg script baseKey base upper work).attempt
      let _ ← (removeTree work).attempt
      match result with
      | .error e =>
        let _ ← (removeTree upper).attempt
        .throw e
      | .ok _ =>
        .ask (.rename upper layer) (orFail s!"finalising layer {digest}")
        writeBlob digest (.manifest (base.extend digest))
        let key ← .ofExcept (imageKey oci cfg)
        recordRef key digest

def ensure (oci : Oci) (cfg : AppConfig) (update rebuild : Bool) : Act Unit := do
  match cfg.image.install with
  | none => if cfg.image.pull then fetch oci cfg.image.reference update
  | some script =>
    let present ← if rebuild then pure false else do hasRef (← .ofExcept (imageKey oci cfg))
    if present then return
    if cfg.image.pull then fetch oci cfg.image.reference update
    build oci cfg script

/-- An image already in the store is used as it is, never refreshed. -/
def resolve (oci : Oci) (cfg : AppConfig) : Act Image := do
  let key ← .ofExcept (imageKey oci cfg)
  ensure oci cfg false false
  match ← readManifest key with
  | none =>
    .throw s!"{cfg.app.name}: image '{cfg.image.reference}' is not in the store; pull it first"
  | some manifest =>
    let config ← imageConfig key manifest
    return { layers := manifest.layers.map (·.digest), config }

/-- `AppConfig::run` as far as the store goes, from where `check_host_dir` has
passed. What stands between the layers and the container (stub layer, mount, spec,
filter) is part of `runContainer`, and any failure of it an answer of that operation. -/
def run (oci : Oci) (cfg : AppConfig) : Act Int := do
  let image ← resolve oci cfg
  let dirs ← mountLayers image.layers
  .ask (.runContainer dirs) (orFail "starting the container")

end Climate
