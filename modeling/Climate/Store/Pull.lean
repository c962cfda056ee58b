import Climate.Store.Basic

/-!
# Pulling an image

The functions of pull.rs that fetch one image. Progress bars and status
messages are left out.
-/

namespace Climate

def maxConcurrentDownloads : Nat := 3

/-- The client checks the content against the digest the registry advertised. -/
def downloadBlob (digest : String) (temp : Path) : Act Unit :=
  .ask (.download temp digest) (orFail s!"pulling blob {digest}")

def fetchLayer (layer : Descriptor) : Act Unit := do
  let temp ← tempPath "layer"
  let result ← Prog.attempt do
    downloadBlob layer.digest temp
    extractLayer temp layer.digest layer.mediaType
  -- The temporary file goes on failure as well; whether that works is ignored.
  let _ ← (removeFile temp).attempt
  .ofExcept result
where
  removeFile (temp : Path) : Act Unit :=
    .ask (.removeFile temp) (orFail s!"removing {temp.display}")

def pendingLayers : List Descriptor → Act (List Descriptor)
  | [] => return []
  | layer :: layers => do
    let present ← hasLayer layer.digest
    let pending ← pendingLayers layers
    return if present then pending else layer :: pending

def fetchLayers (layers : List Descriptor) : Act Unit := do
  let pending ← pendingLayers layers
  .forConcurrently maxConcurrentDownloads pending fetchLayer

def fetchConfig (config : Descriptor) : Act Unit := do
  let present ← hasBlob config.digest
  if present then return
  let temp ← tempPath "config"
  downloadBlob config.digest temp
  commitBlob temp config.digest

/-- `reference` is the full form of the reference. -/
def fetchImage (reference : String) : Act Unit := do
  let (manifest, manifestDigest) ←
    .ask (.manifest reference) (orFail s!"resolving {reference}")
  let manifestRaw ← .ask (.manifestRaw manifestDigest)
    (orFail s!"fetching the manifest blob for {reference}")
  writeBlob manifestDigest manifestRaw
  fetchConfig manifest.config
  fetchLayers manifest.layers
  recordRef reference manifestDigest

def fetch (oci : Oci) (reference : String) (update : Bool) : Act Unit := do
  match oci.whole reference with
  | none => .throw s!"invalid image reference '{reference}'"
  | some whole =>
    let present ← if update then pure false else hasRef whole
    if present then return
    fetchImage whole

end Climate
