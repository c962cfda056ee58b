import Climate.Lib.Owned
import Climate.Store.Pull
import Mathlib.Algebra.Order.BigOperators.Group.List
import Mathlib.Algebra.Order.Group.Nat

/-!
# A disk that does what it can

`willing` is what the disk's operations do where none fails without a reason:
what a registry is asked for arrives, what arrived is unpacked, and anything
else that can be done is done. No id is handed out twice. `Does` says what an
operation comes to then.
-/

namespace Climate

variable {oci : Oci}

/-- Whether an operation did what it was asked. -/
def Op.worked : (op : Op) → op.Res → Bool
  | .storeExists, _ | .exists _, _ | .isDir _, _ | .uniqueId, _ => true
  | .read _, r | .manifestRaw _, r => r.isOk
  | .readDir _, r => r.isOk
  | .manifest _, r => r.isOk
  | .runScript .., r | .runContainer _, r => r.isOk
  | .write .., r | .truncate _, r | .fill .., r | .rename .., r | .removeFile _, r | .removeTree _, r
  | .createDirAll _, r | .createTree _, r | .unpackEntry .., r | .download .., r => r.isOk

/-- The operations of a download and of an unpack into a staging directory. -/
def Op.fetches : Op → Bool
  | .manifest _ | .manifestRaw _ | .download .. | .createTree _ | .unpackEntry .. => true
  | _ => false

def Op.answered (registry : String → Manifest × String) : (op : Op) → op.Res → Prop
  | .manifest reference, r => r = .ok (registry reference)
  | _, _ => True

def Op.handed : (op : Op) → op.Res → List String
  | .uniqueId, id => [id]
  | _, _ => []

/-- A store and the ids handed out so far. -/
structure Desk where
  store : Store
  ids : List String := []

/-- An operation fails only where it cannot work. -/
structure Willing (oci : Oci) (registry : String → Manifest × String) (op : Op) (c : Desk) (r : op.Res)
    (c' : Desk) : Prop where
  effect : op.effect oci c.store r c'.store
  works : op.worked r = true ∨ op.fetches = false ∧ ∀ r' s', op.effect oci c.store r' s' → op.worked r' = false
  answered : op.answered registry r
  ids : c'.ids = op.handed r ++ c.ids
  fresh : ∀ id ∈ op.handed r, id ∉ c.ids

def willing (oci : Oci) (registry : String → Manifest × String) : Effects disk Desk := Willing oci registry

variable {registry : String → Manifest × String}

/-- Operations whose reply depends on the store alone. -/
def Op.plain : Op → Bool
  | .manifest _ | .uniqueId => false
  | _ => true

/-- The operation works, in one way only. -/
structure Does (oci : Oci) (op : Op) (read : op.Res → Except String α) (s : Store) (a : α) (s' : Store) :
    Prop where
  plain : op.plain = true
  can : ∃ r, op.effect oci s r s' ∧ op.worked r = true
  only : ∀ r s'', op.effect oci s r s'' → op.worked r = true → s'' = s' ∧ read r = .ok a

theorem plain_answered (registry : String → Manifest × String) {op : Op} (h : op.plain = true) (r : op.Res) :
    op.answered registry r ∧ op.handed r = [] := by
  cases op <;> first | exact ⟨trivial, rfl⟩ | cases h

namespace Does

variable {op : Op} {read : op.Res → Except String α}

theorem willing_can (h : Does oci op read s a s') (registry : String → Manifest × String) (ids : List String) :
    ∃ r c', willing oci registry op ⟨s, ids⟩ r c' := by
  obtain ⟨r, he, hworked⟩ := h.can
  obtain ⟨hanswered, hhanded⟩ := plain_answered registry h.plain r
  exact ⟨r, ⟨s', ids⟩, he, .inl hworked, hanswered, by simp [hhanded], by simp [hhanded]⟩

theorem willing_only (h : Does oci op read s a s') {ids : List String} {r : op.Res} {c' : Desk}
    (he : willing oci registry op ⟨s, ids⟩ r c') : c' = ⟨s', ids⟩ ∧ read r = .ok a := by
  have hworked : op.worked r = true := by
    rcases he.works with hworked | ⟨-, hnot⟩
    · exact hworked
    · obtain ⟨r', he', hworked'⟩ := h.can
      rw [hnot r' s' he'] at hworked'
      cases hworked'
  obtain ⟨hstore, hread⟩ := h.only r c'.store he.effect hworked
  have hids := he.ids
  rw [(plain_answered registry h.plain r).2] at hids
  obtain ⟨store, ids'⟩ := c'
  cases hstore
  cases hids
  exact ⟨rfl, hread⟩

theorem sure_bind {f : α → Act β} {post : β → Desk → Prop} (h : Does oci op read s a s')
    (hf : Prog.Sure (willing oci registry) post ⟨s', ids⟩ (f a)) :
    Prog.Sure (willing oci registry) post ⟨s, ids⟩ (Prog.ask op read >>= f) := by
  refine .ask_bind (h.willing_can registry ids) fun r c' he => ?_
  obtain ⟨rfl, hread⟩ := h.willing_only he
  exact ⟨a, hread, hf⟩

theorem sure {post : α → Desk → Prop} (h : Does oci op read s a s') (hpost : post a ⟨s', ids⟩) :
    Prog.Sure (willing oci registry) post ⟨s, ids⟩ (Prog.ask op read) := by
  refine .ask (h.willing_can registry ids) fun r c' he => ?_
  obtain ⟨rfl, hread⟩ := h.willing_only he
  exact ⟨a, hread, hpost⟩

theorem steps {f : α → Act β} (h : Does oci op read s a s')
    (hf : Prog.Steps (willing oci registry) ⟨s', ids⟩ (f a) c q) :
    Prog.Steps (willing oci registry) ⟨s, ids⟩ (Prog.ask op read >>= f) c q := by
  obtain ⟨r, c', he⟩ := h.willing_can registry ids
  obtain ⟨rfl, hread⟩ := h.willing_only he
  exact .ask_bind he hread hf

theorem run (h : Does oci op read s a s') :
    Prog.Steps (willing oci registry) ⟨s, ids⟩ (Prog.ask op read) ⟨s', ids⟩ (.ret a) := by
  obtain ⟨r, c', he⟩ := h.willing_can registry ids
  obtain ⟨rfl, hread⟩ := h.willing_only he
  have hstep : Prog.Step (willing oci registry) ⟨s, ids⟩ (Prog.ask op read) ⟨s', ids⟩ (Prog.ofExcept (read r)) :=
    .call (k := fun r' : op.Res => (Prog.ofExcept (read r') : Act α)) he
  rw [hread] at hstep
  exact .tail .refl hstep

end Does

-- ---------------------------------------------------------------------------
-- What the operations come to
-- ---------------------------------------------------------------------------

variable {s : Store}

theorem createDirAll_does : Does oci (.createDirAll d) (orFail message) s () s where
  plain := rfl
  can := ⟨.ok (), rfl, rfl⟩
  only r s'' he hworked := by
    cases r with
    | ok _ => exact ⟨he, rfl⟩
    | error _ => cases hworked

theorem exists_does : Does oci (.exists p) .ok s (s.has p) s where
  plain := rfl
  can := ⟨s.has p, ⟨rfl, rfl⟩, rfl⟩
  only _ _ he _ := ⟨he.1, congrArg _ he.2⟩

theorem read_does (h : s.lookup p = some (.file c)) : Does oci (.read p) (orFail message) s c s where
  plain := rfl
  can := ⟨.ok c, ⟨rfl, h⟩, rfl⟩
  only r s'' he hworked := by
    cases r with
    | ok c' =>
      obtain ⟨hs, hc⟩ := he
      rw [h] at hc
      cases hc
      exact ⟨hs, rfl⟩
    | error _ => cases hworked

theorem write_does (hfits : s.fits p = true) (hadmits : oci.Admits p (.file c)) :
    Does oci (.write p c) (orFail message) s () (s.put p (.file c)) where
  plain := rfl
  can := ⟨.ok (), ⟨hfits, rfl, hadmits⟩, rfl⟩
  only r s'' he hworked := by
    cases r with
    | ok _ => exact ⟨he.2.1, rfl⟩
    | error _ => cases hworked

theorem rename_does (h : s.rename p q = some s') (hadmits : ∀ n, s.lookup p = some n → oci.Admits q n) :
    Does oci (.rename p q) (orFail message) s () s' where
  plain := rfl
  can := ⟨.ok (), ⟨h, hadmits⟩, rfl⟩
  only r s'' he hworked := by
    cases r with
    | ok _ => exact ⟨Option.some.inj (he.1.symm.trans h), rfl⟩
    | error _ => cases hworked

theorem removeFile_does (h : s.lookup p = some (.file c)) :
    Does oci (.removeFile p) (orFail message) s () (s.remove p) where
  plain := rfl
  can := ⟨.ok (), ⟨⟨c, h⟩, rfl⟩, rfl⟩
  only r s'' he hworked := by
    cases r with
    | ok _ => exact ⟨he.2, rfl⟩
    | error _ => cases hworked

theorem removeTree_does : Does oci (.removeTree p) (orFail message) s () (s.remove p) where
  plain := rfl
  can := ⟨.ok (), rfl, rfl⟩
  only r s'' he hworked := by
    cases r with
    | ok _ => exact ⟨he, rfl⟩
    | error _ => cases hworked

theorem createTree_does (h : s.has p = false) :
    Does oci (.createTree p) (orFail message) s () (s.put p (.dir [])) where
  plain := rfl
  can := ⟨.ok (), .inr ⟨h, rfl⟩, rfl⟩
  only r s'' he hworked := by
    cases r with
    | ok _ =>
      rcases he with ⟨hdir, -⟩ | ⟨-, hs⟩
      · rw [Store.has_of_isDir hdir] at h
        cases h
      · exact ⟨hs, rfl⟩
    | error _ => cases hworked

theorem unpackEntry_does (h : s.lookup p = some (.dir t)) :
    Does oci (.unpackEntry p e) (orFail message) s () (s.put p (.dir (t.write e))) where
  plain := rfl
  can := ⟨.ok (), ⟨t, h, rfl⟩, rfl⟩
  only r s'' he hworked := by
    cases r with
    | ok _ =>
      obtain ⟨t', ht', hs⟩ := he
      rw [h] at ht'
      cases ht'
      exact ⟨hs, rfl⟩
    | error _ => cases hworked

theorem manifestRaw_does : Does oci (.manifestRaw d) (orFail message) s (oci.content d) s where
  plain := rfl
  can := ⟨.ok (oci.content d), ⟨rfl, fun _ h => (Except.ok.inj h).symm⟩, rfl⟩
  only r s'' he hworked := by
    cases r with
    | ok c => exact ⟨he.1, congrArg _ (he.2 c rfl)⟩
    | error _ => cases hworked

theorem download_does (hfits : s.fits p = true) (hbuilt : ¬ Built d) :
    Does oci (.download p d) (orFail message) s () (s.put p (.file (oci.content d))) where
  plain := rfl
  can := ⟨.ok (), ⟨hfits, rfl, hbuilt⟩, rfl⟩
  only r s'' he hworked := by
    cases r with
    | ok _ => exact ⟨he.2.1, rfl⟩
    | error _ => cases hworked

-- ---------------------------------------------------------------------------
-- Ids
-- ---------------------------------------------------------------------------

theorem digits_dashless (n : Nat) : (Nat.toDigits 10 n).filter (· ≠ '-') = Nat.toDigits 10 n :=
  List.filter_eq_self.mpr fun c hc => by simpa using fun hdash : c = '-' => dash_not_mem_toDigits n (hdash ▸ hc)

theorem dashless_toList (pid nanos : Nat) :
    (dashless (uniqueId pid nanos)).toList = Nat.toDigits 10 pid ++ Nat.toDigits 10 nanos := by
  rw [dashless, String.toList_ofList, uniqueId_toList, List.filter_append, List.filter_cons_of_neg (by simp),
    digits_dashless, digits_dashless]

/-- There is always an id that is not in use. -/
theorem exists_unused (s : Store) (ids : List String) :
    ∃ nanos, s.Unused (uniqueId 1 nanos) ∧ uniqueId 1 nanos ∉ ids := by
  let lengths := s.keys.map (·.name.toList.length) ++ ids.map (·.toList.length)
  have hlong : lengths.sum < (Nat.toDigits 10 (10 ^ (lengths.sum + 1))).length := by
    by_contra hshort
    have hle := (Nat.length_toDigits_le_iff (b := 10) (n := 10 ^ (lengths.sum + 1)) (k := lengths.sum + 1)
      (by decide) (by omega)).mp (by omega)
    exact absurd hle (lt_irrefl _)
  have hname : ∀ p ∈ s.keys, p.name.toList.length ≤ lengths.sum := fun p hp =>
    List.le_sum_of_mem (List.mem_append_left _ (List.mem_map.mpr ⟨p, hp, rfl⟩))
  have hid : ∀ id ∈ ids, id.toList.length ≤ lengths.sum := fun id h =>
    List.le_sum_of_mem (List.mem_append_right _ (List.mem_map.mpr ⟨id, h, rfl⟩))
  refine ⟨10 ^ (lengths.sum + 1), fun p hp => ⟨fun hin => ?_, fun hin => ?_⟩, fun hmem => ?_⟩
  · have hle := hin.length_le
    rw [uniqueId_toList, List.length_append, List.length_cons] at hle
    have := hname p hp
    omega
  · have hle := hin.length_le
    rw [dashless_toList, List.length_append] at hle
    have := hname p hp
    omega
  · have hle := hid _ hmem
    rw [uniqueId_toList, List.length_append, List.length_cons] at hle
    omega

theorem uniqueId_can (c : Desk) : ∃ r c', willing oci registry .uniqueId c r c' := by
  obtain ⟨nanos, hunused, hfresh⟩ := exists_unused c.store c.ids
  exact ⟨uniqueId 1 nanos, ⟨c.store, uniqueId 1 nanos :: c.ids⟩, ⟨rfl, hunused, 1, nanos, rfl⟩, .inl rfl, trivial,
    rfl, by simpa [Op.handed] using hfresh⟩

theorem uniqueId_only {c : Desk} {id : String} (he : willing oci registry .uniqueId c id c') :
    c' = ⟨c.store, id :: c.ids⟩ ∧ c.store.Unused id ∧ id ∉ c.ids := by
  obtain ⟨⟨hstore, hunused, -⟩, -, -, hids, hfresh⟩ := he
  obtain ⟨store, ids'⟩ := c'
  cases hstore
  cases hids
  exact ⟨rfl, hunused, hfresh id (by simp [Op.handed])⟩

-- ---------------------------------------------------------------------------
-- Temporary files
-- ---------------------------------------------------------------------------

def tempFile (tag id : String) : Path := .download s!".download-{tag}-{id}"

theorem tempFile_inj {tag id id' : String} (h : tempFile tag id = tempFile tag id') : id = id' := by
  have htext : ".download-" ++ tag ++ "-" ++ id = ".download-" ++ tag ++ "-" ++ id' := Path.download.inj h
  simpa using htext

theorem tempFile_new {s : Store} {tag id : String} (h : s.Unused id) : s.lookup (tempFile tag id) = none := by
  by_contra hthere
  have hmem : tempFile tag id ∈ s := AList.lookup_isSome.mp (Option.isSome_iff_ne_none.mpr hthere)
  refine (h _ hmem).1 ⟨(".download-" ++ tag ++ "-").toList, [], ?_⟩
  change _ = (".download-" ++ tag ++ "-" ++ id).toList
  simp

/-- The store among the tasks of a pull, with the names of temporary files
that no task has. -/
def byPath : Prog.Division Desk Path where
  Val := Option Node
  look c p := c.store.lookup p
  free c := { p | ∃ id, p = tempFile "layer" id ∧ id ∉ c.ids }

end Climate
