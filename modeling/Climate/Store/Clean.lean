import Climate.Store.Basic

/-!
# Cleaning the store

The functions of clean.rs that remove refs, blobs and layers. Messages for
the user are left out.
-/

namespace Climate

/-- A missing directory counts as empty. -/
def names : Except IoError (List String) → Except IoError (List String)
  | .error .notFound => .ok []
  | r => r

def entries (d : Dir) : Act (List String) :=
  .ask (.readDir d) fun r => orFail s!"reading {d.display}" (names r)

structure Live where
  blobs : List String := []
  layers : List String := []
  deriving DecidableEq, Repr

def Live.add (live : Live) (manifestDigest : String) (manifest : Manifest) : Live where
  blobs := manifest.config.digest :: manifestDigest :: live.blobs
  layers := manifest.layers.map (·.digest) ++ live.layers

def refContents (path : Path) : Except IoError Content → Except String String
  | .ok (.text digest) => .ok digest
  | _ => .error s!"reading ref {path.display}"

def liveRef (live : Live) (name : String) : Act Live := do
  let path := Path.ref name
  let contents : String ← .ask (.read path) (refContents path)
  let manifestDigest := trim contents
  if manifestDigest.isEmpty then return live
  match (← readBlob manifestDigest).manifest? with
  | some manifest => return live.add manifestDigest manifest
  | none => .throw s!"parsing manifest {manifestDigest}"

def liveRefs (live : Live) : List String → Act Live
  | [] => return live
  | name :: rest => do liveRefs (← liveRef live name) rest

def liveSet : Act Live := do
  liveRefs {} (← entries .refs)

def removeBlobs (live : Live) (algo : String) : Act Unit := do
  (← entries (.blobAlgo algo)).forM fun name => do
    let digest := digestOf algo name
    if live.blobs.contains digest then return
    .ask (.removeFile (.blob algo name)) (orFail s!"removing blob {digest}")

/-- ".extract-<hex>" is a half-unpacked layer from a run that died. -/
def isStaging (name : String) : Bool := ".extract-".toList.isPrefixOf name.toList

def removeLayers (live : Live) (algo : String) : Act Unit := do
  (← entries (.layerAlgo algo)).forM fun name => do
    let digest := digestOf algo name
    if isStaging name || !live.layers.contains digest then removeTree (.layer algo name)

/-- ".download-*" are half-finished downloads from an interrupted pull. -/
def isDownload (name : String) : Bool := ".download-".toList.isPrefixOf name.toList

def removeDownloads : Act Unit := do
  (← entries .store).forM fun name => do
    if isDownload name then
      .ask (.removeFile (.download name))
        (orFail s!"removing {(Path.download name).display}")

/-- A live set that cannot be told skips the deletions. -/
def gcImages : Act Unit := do
  let found : Bool ← .ask .storeExists .ok
  if found then
    match ← liveSet.attempt with
    | .error _ => return
    | .ok live =>
      (← entries .blobs).forM (removeBlobs live)
      (← entries .layers).forM (removeLayers live)
      removeDownloads

def liveMarkers (oci : Oci) (apps : List AppConfig) : List String :=
  apps.flatMap fun cfg =>
    (match imageKey oci cfg with
      | .ok key => [markerName key]
      | .error _ => []) ++
    (match oci.whole cfg.image.reference with
      | some whole => [markerName whole]
      | none => [])

/-- `apps` are the definitions that load. -/
def dropOrphanRefs (oci : Oci) (apps : List AppConfig) : Act Unit := do
  (← entries .refs).forM fun name => do
    if (liveMarkers oci apps).contains name then return
    .ask (.removeFile (.ref name))
      (orFail s!"removing ref {(Path.ref name).display}")

end Climate
