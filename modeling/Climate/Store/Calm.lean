import Climate.Store.Build
import Mathlib.Data.List.Dedup

/-!
# A store without surprises

`calm` is the handler of the disk's operations in which everything that can
succeed does, so that runs of the store's functions can be computed.
-/

namespace Climate

variable {oci : Oci}

theorem built_iff {digest : String} :
    Built digest ↔ (buildAlgo.toList ++ [':']) <+: digest.toList := by
  constructor
  · rintro ⟨id, rfl⟩
    rw [digestOf_toList]
    exact ⟨id.toList, by simp⟩
  · rintro ⟨rest, hr⟩
    refine ⟨String.ofList rest, String.toList_inj.mp ?_⟩
    rw [digestOf_toList, ← hr]
    simp

instance : Decidable (Built digest) := decidable_of_iff' _ built_iff

instance : Decidable (oci.Admits p n) :=
  match p, n with
  | .blob algo name, .file c =>
    decidable_of_iff (algo ≠ buildAlgo → c = oci.content (digestOf algo name))
      ⟨fun h _ _ _ hp hn ha => by cases hp; cases hn; exact h ha, fun h ha => h _ _ _ rfl rfl ha⟩
  | .blob _ _, .dir _ => isTrue fun _ _ _ _ hn => by cases hn
  | .ref _, _ | .layer _ _, _ | .download _, _ => isTrue fun _ _ _ hp => by cases hp

namespace Store

def listed : Dir → Path → Option String
  | .store, .download name => some name
  | .refs, .ref name => some name
  | .blobs, .blob algo _ => some algo
  | .blobAlgo algo, .blob algo' name => if algo = algo' then some name else none
  | .layers, .layer algo _ => some algo
  | .layerAlgo algo, .layer algo' name => if algo = algo' then some name else none
  | _, _ => none

def listing (s : Store) (d : Dir) : List String := (s.keys.filterMap (listed d)).dedup

theorem mem_keys {s : Store} : p ∈ s.keys ↔ s.has p = true := by
  rw [← AList.mem_keys, ← AList.lookup_isSome, Store.has]

theorem mem_listing {s : Store} {d : Dir} :
    name ∈ s.listing d ↔ ∃ p, s.has p = true ∧ listed d p = some name := by
  simp [listing, mem_keys]

theorem lists_listing (s : Store) (d : Dir) : s.Lists d (s.listing d) := by
  cases d <;> refine ⟨List.nodup_dedup _, ?_⟩
  case store | refs =>
    intro name
    rw [mem_listing]
    constructor
    · rintro ⟨p, hp, hl⟩
      cases p <;> simp_all [listed]
    · exact fun h => ⟨_, h, rfl⟩
  case blobs | layers => exact fun algo name h => mem_listing.mpr ⟨_, h, rfl⟩
  case blobAlgo algo | layerAlgo algo =>
    intro name
    rw [mem_listing]
    constructor
    · rintro ⟨p, hp, hl⟩
      cases p <;> simp_all [listed]
    · exact fun h => ⟨_, h, by simp [listed]⟩

end Store

/-- The first id of process 1 that is not in use. -/
def freshId (s : Store) : Option String :=
  ((List.range 8).map (uniqueId 1)).find? fun id => s.Unused id

def calmAnswer (oci : Oci) (registry : String → Option (Manifest × String)) :
    (op : Op) → Store → Option (op.Res × Store)
  | .storeExists, s => some (true, s)
  | .exists p, s => some (s.has p, s)
  | .isDir p, s => some (s.isDir p, s)
  | .read p, s => some (match s.lookup p with
    | some (.file c) => (.ok c, s)
    | some (.dir _) => (.error .other, s)
    | none => (.error .notFound, s))
  | .write p c, s =>
    some (if s.fits p ∧ oci.Admits p (.file c) then (.ok (), s.put p (.file c))
      else (.error .other, s))
  | .fill p c, s =>
    some (if oci.Admits p (.file c) then (.ok (), if s.has p then s.put p (.file c) else s)
      else (.error .other, s))
  | .truncate p, s =>
    some (if s.fits p then (.ok (), s.put p (.file (.text ""))) else (.error .other, s))
  | .rename p q, s => some (match s.rename p q with
    | some s' => if ∀ n ∈ s.lookup p, oci.Admits q n then (.ok (), s') else (.error .other, s)
    | none => (.error .other, s))
  | .removeFile p, s => some (match s.lookup p with
    | some (.file _) => (.ok (), s.remove p)
    | _ => (.error .other, s))
  | .removeTree p, s => some (.ok (), s.remove p)
  | .readDir d, s => some (.ok (s.listing d), s)
  | .createDirAll _, s => some (.ok (), s)
  | .createTree p, s =>
    some (if s.isDir p then (.ok (), s)
      else if s.has p then (.error .other, s) else (.ok (), s.put p (.dir [])))
  | .unpackEntry p e, s => some (match s.lookup p with
    | some (.dir t) => (.ok (), s.put p (.dir (t.write e)))
    | _ => (.error .other, s))
  | .uniqueId, s => (freshId s).map fun id => (id, s)
  | .manifest reference, s => some (match registry reference with
    | some (m, d) => if oci.content d = .manifest m ∧ ¬ Built d then (.ok (m, d), s)
      else (.error .other, s)
    | none => (.error .other, s))
  | .manifestRaw d, s => some (.ok (oci.content d), s)
  | .download p d, s =>
    some (if s.fits p ∧ ¬ Built d then (.ok (), s.put p (.file (oci.content d)))
      else (.error .other, s))
  | .runScript .., s | .runContainer _, s => some (.ok 0, s)

def calm (oci : Oci) (registry : String → Option (Manifest × String)) :
    Handler (I := disk) (Op.effect oci) where
  answer := calmAnswer oci registry
  sound {op s r s'} h := by
    cases op with
    | storeExists => cases h; exact ⟨rfl, fun _ => rfl⟩
    | «exists» p => cases h; exact ⟨rfl, rfl⟩
    | isDir p => cases h; exact ⟨rfl, rfl⟩
    | read p =>
      simp only [calmAnswer, Option.some.injEq] at h
      split at h <;> cases h <;> exact ⟨rfl, by simp_all⟩
    | write p c | fill p c =>
      simp only [calmAnswer, Option.some.injEq] at h
      split at h <;> cases h
      · simp_all [Op.effect, OrFails]
      · rfl
    | truncate p =>
      simp only [calmAnswer, Option.some.injEq] at h
      split at h <;> cases h
      · simp_all [Op.effect, OrFails]
      · rfl
    | rename p q =>
      simp only [calmAnswer, Option.some.injEq] at h
      split at h
      next t ht =>
        split at h <;> cases h
        · exact ⟨ht, by simp_all⟩
        · rfl
      · cases h; rfl
    | removeFile p =>
      simp only [calmAnswer, Option.some.injEq] at h
      split at h <;> cases h
      next c hc => exact ⟨⟨c, hc⟩, rfl⟩
      · rfl
    | removeTree p => cases h; exact rfl
    | readDir d => cases h; exact ⟨rfl, s.lists_listing d⟩
    | createDirAll d => cases h; exact rfl
    | createTree p =>
      simp only [calmAnswer, Option.some.injEq] at h
      split at h
      next hd => cases h; exact .inl ⟨hd, rfl⟩
      next =>
        split at h <;> cases h
        · rfl
        next hs => exact .inr ⟨by simpa using hs, rfl⟩
    | unpackEntry p e =>
      simp only [calmAnswer, Option.some.injEq] at h
      split at h <;> cases h
      next t ht => exact ⟨t, ht, rfl⟩
      · exact .inl rfl
    | uniqueId =>
      obtain ⟨id, hid, heq⟩ := Option.map_eq_some_iff.mp h
      cases heq
      obtain ⟨n, -, rfl⟩ := List.mem_map.mp (List.mem_of_find?_eq_some hid)
      exact ⟨rfl, by simpa using List.find?_some hid, 1, n, rfl⟩
    | manifest reference =>
      simp only [calmAnswer, Option.some.injEq] at h
      split at h
      next m d hm =>
        split at h <;> cases h
        next hok => exact ⟨rfl, fun _ _ h => by cases h; exact hok⟩
        · exact ⟨rfl, fun _ _ h => by cases h⟩
      · cases h
        exact ⟨rfl, fun _ _ h => by cases h⟩
    | manifestRaw d => cases h; exact ⟨rfl, fun _ h => (Except.ok.inj h).symm⟩
    | download p d =>
      simp only [calmAnswer, Option.some.injEq] at h
      split at h <;> cases h
      next hok => exact ⟨hok.1, rfl, hok.2⟩
      · exact .inl rfl
    | runScript upper work dirs script => cases h; exact ⟨[], .inr rfl⟩
    | runContainer dirs => cases h; exact rfl

end Climate
