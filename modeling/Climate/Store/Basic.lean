import Climate.Config
import Climate.Store.FileSystem

/-!
# The image store

The functions of store.rs. Each is the sequence of operations the source
makes, with the messages it attaches to their failures.
-/

namespace Climate

/-- `with_context`: a failed operation ends the function with its message. -/
def orFail (message : String) : Except IoError α → Except String α
  | .ok a => .ok a
  | .error _ => .error message

@[simp] theorem orFail_ok : orFail message r = .ok a ↔ r = .ok a := by
  cases r <;> simp [orFail]

def createParent (path : Path) : Act Unit :=
  .ask (.createDirAll path.parent) (orFail s!"creating {path.parent.display}")

def blobPath (digest : String) : Act Path :=
  .ofExcept ((digestPath digest).map fun p => .blob p.1 p.2)

def layerPath (digest : String) : Act Path :=
  .ofExcept ((digestPath digest).map fun p => .layer p.1 p.2)

def refMarker (reference : String) : Path := .ref (markerName reference)

/-- An install script's image is recorded under the app's own name. -/
def imageKey (oci : Oci) (cfg : AppConfig) : Except String String :=
  if cfg.image.install.isSome then .ok s!"localhost/climate/{cfg.app.name}"
  else match oci.whole cfg.image.reference with
    | some whole => .ok whole
    | none => .error s!"invalid image reference '{cfg.image.reference}'"

def exists_ (path : Path) : Act Bool := .ask (.exists path) .ok

def hasRef (reference : String) : Act Bool := exists_ (refMarker reference)

def recordRef (reference manifestDigest : String) : Act Unit := do
  let path := refMarker reference
  createParent path
  .ask (.write path (.text manifestDigest)) (orFail s!"recording ref {reference}")

def hasBlob (digest : String) : Act Bool := do
  exists_ (← blobPath digest)

def readBlob (digest : String) : Act Content := do
  let path ← blobPath digest
  .ask (.read path) (orFail s!"reading blob {path.display}")

def writeBlob (digest : String) (bytes : Content) : Act Unit := do
  let dest ← blobPath digest
  createParent dest
  .ask (.write dest bytes) (orFail s!"storing blob {digest}")

/-- A missing marker is no error; one that is not text is. -/
def refText (reference : String) : Except IoError Content → Except String (Option String)
  | .ok (.text digest) => .ok (some digest)
  | .error .notFound => .ok none
  | _ => .error s!"reading ref {reference}"

def readRef (reference : String) : Act (Option String) :=
  .ask (.read (refMarker reference)) (refText reference)

def hasLayer (digest : String) : Act Bool := do
  exists_ (← layerPath digest)

def tempPath (tag : String) : Act Path := do
  .ask (.createDirAll .store) (orFail s!"creating {Dir.store.display}")
  let id : String ← .ask .uniqueId .ok
  return .download s!".download-{tag}-{id}"

def commitBlob (temp : Path) (digest : String) : Act Unit := do
  let dest ← blobPath digest
  createParent dest
  .ask (.rename temp dest) (orFail s!"storing blob {digest}")

def removeTree (path : Path) : Act Unit :=
  .ask (.removeTree path) (orFail s!"removing {path.display}")

/-- Which media types a layer may have: zstd, gzip and plain tar archives. -/
def supported (mediaType : String) : Bool :=
  "zstd".toList <:+: mediaType.toList || "gzip".toList <:+: mediaType.toList ||
    "tar".toList <:+ mediaType.toList

/-- `.extract-<hex>`, beside the layer it becomes. -/
def stagingName (name : String) : String := ".extract-" ++ name

/-- `tar::Archive::unpack`: the directory, then one entry after the other. -/
def unpack (staging : Path) (digest : String) : Content → Act Unit
  | .archive entries => do
    .ask (.createTree staging) (orFail s!"extracting layer {digest}")
    entries.forM fun entry =>
      .ask (.unpackEntry staging entry) (orFail s!"extracting layer {digest}")
  | _ => .throw s!"extracting layer {digest}"

def extractLayer (temp : Path) (digest mediaType : String) : Act Unit := do
  let (algo, name) ← .ofExcept (digestPath digest)
  let dest := Path.layer algo name
  createParent dest
  let staging := Path.layer algo (stagingName name)
  removeTree staging
  let file ← .ask (.read temp) (orFail s!"opening layer blob {digest}")
  if supported mediaType then
    unpack staging digest file
    .ask (.rename staging dest) (orFail s!"finalising layer {digest}")
  else .throw s!"unsupported layer media type '{mediaType}'"

/-- What a run needs from an image: its layers, bottom-up, and its settings. -/
structure Image where
  layers : List String
  config : String
  deriving DecidableEq, Repr

def readManifest (key : String) : Act (Option Manifest) := do
  match ← readRef key with
  | none => return none
  | some manifestDigest =>
    match (← readBlob manifestDigest).manifest? with
    | some manifest => return some manifest
    | none => .throw s!"parsing cached manifest for {key}"

def imageConfig (key : String) (manifest : Manifest) : Act String := do
  match ← readBlob manifest.config.digest with
  | .config json => return json
  | _ => .throw s!"parsing image config for {key}"

end Climate
