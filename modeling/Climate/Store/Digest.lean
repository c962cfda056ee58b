import Mathlib.Data.List.Basic

/-!
# Digests and marker names

The texts the store's file names are made of: digests, split into an
algorithm and a hexadecimal part, and references, whose '/' a file name
cannot hold.
-/

namespace Climate

-- ---------------------------------------------------------------------------
-- Text
-- ---------------------------------------------------------------------------

/-- `str::split_once`. -/
def splitOnce (s : String) (c : Char) : Option (String × String) :=
  match s.toList.dropWhile (· ≠ c) with
  | [] => none
  | _ :: rest => some (String.ofList (s.toList.takeWhile (· ≠ c)), String.ofList rest)

/-- `char::is_whitespace`. -/
def isWhitespace (c : Char) : Bool :=
  (9 ≤ c.toNat && c.toNat ≤ 13) || c.toNat = 0x20 || c.toNat = 0x85 || c.toNat = 0xa0 ||
  c.toNat = 0x1680 || (0x2000 ≤ c.toNat && c.toNat ≤ 0x200a) || c.toNat = 0x2028 ||
  c.toNat = 0x2029 || c.toNat = 0x202f || c.toNat = 0x205f || c.toNat = 0x3000

/-- `str::trim`. -/
def trim (s : String) : String :=
  String.ofList (((s.toList.dropWhile isWhitespace).reverse.dropWhile isWhitespace).reverse)

theorem splitOnce_of_toList {a b : String} (hs : s.toList = a.toList ++ c :: b.toList)
    (h : ∀ x ∈ a.toList, x ≠ c) : splitOnce s c = some (a, b) := by
  have hdrop : s.toList.dropWhile (· ≠ c) = c :: b.toList := by
    rw [hs, List.dropWhile_append_of_pos (by simpa using h)]
    simp
  have htake : s.toList.takeWhile (· ≠ c) = a.toList := by
    rw [hs, List.takeWhile_append_of_pos (by simpa using h)]
    simp
  simp only [splitOnce, hdrop, htake, String.ofList_toList]

theorem splitOnce_eq_some (h : splitOnce s c = some (a, b)) :
    s.toList = a.toList ++ c :: b.toList ∧ ∀ x ∈ a.toList, x ≠ c := by
  unfold splitOnce at h
  split at h
  · cases h
  next x rest hd =>
    simp only [Option.some.injEq, Prod.mk.injEq] at h
    obtain ⟨rfl, rfl⟩ := h
    have hx : x = c := by
      have hhead := List.head?_dropWhile_not (p := (· ≠ c)) s.toList
      simp only [hd, List.head?_cons] at hhead
      simpa using hhead
    subst hx
    constructor
    · simp only [String.toList_ofList]
      rw [← hd, List.takeWhile_append_dropWhile]
    · intro y hy
      simpa using List.all_eq_true.mp (List.all_takeWhile (p := (· ≠ x))) y (by simpa using hy)

theorem dropWhile_none {l : List Char} (h : ∀ x ∈ l, p x = false) : l.dropWhile p = l := by
  cases l with
  | nil => rfl
  | cons x l => simp [h x]

theorem trim_eq_self {s : String} (h : ∀ x ∈ s.toList, isWhitespace x = false) : trim s = s := by
  have hback : ∀ x ∈ s.toList.reverse, isWhitespace x = false := by simpa using h
  simp [trim, dropWhile_none h, dropWhile_none hback]

-- ---------------------------------------------------------------------------
-- Digests
-- ---------------------------------------------------------------------------

def isClean (s : String) : Bool := !s.isEmpty && s.toList.all Char.isAlphanum

def digestPath (digest : String) : Except String (String × String) :=
  match splitOnce digest ':' with
  | none => .error s!"malformed digest '{digest}'"
  | some (algo, hex) =>
    if !isClean algo || !isClean hex then .error s!"malformed digest '{digest}'"
    else .ok (algo, hex)

def digestOf (algo name : String) : String := s!"{algo}:{name}"

theorem digestOf_toList (algo name : String) :
    (digestOf algo name).toList = algo.toList ++ ':' :: name.toList := by
  change (algo ++ ":" ++ name).toList = _
  simp

theorem isClean_mem (h : isClean s = true) (hx : x ∈ s.toList) : x.isAlphanum = true := by
  simp only [isClean, Bool.and_eq_true, List.all_eq_true] at h
  exact h.2 x hx

theorem digestPath_ok (h : digestPath digest = .ok (algo, hex)) :
    digest = digestOf algo hex ∧ isClean algo = true ∧ isClean hex = true := by
  unfold digestPath at h
  split at h
  · cases h
  next a b hs =>
    split at h
    · cases h
    next hc =>
      cases h
      simp only [Bool.or_eq_true, Bool.not_eq_true', not_or, Bool.not_eq_false] at hc
      refine ⟨String.toList_inj.mp ?_, hc⟩
      rw [digestOf_toList, (splitOnce_eq_some hs).1]

theorem digestPath_eq (hcolon : ∀ x ∈ algo.toList, x ≠ ':')
    (h : digestPath (digestOf algo name) = .ok p) : p = (algo, name) := by
  simp only [digestPath, splitOnce_of_toList (digestOf_toList algo name) hcolon] at h
  split at h
  · cases h
  · exact (Except.ok.inj h).symm

theorem digestPath_inj (h : digestPath d = .ok p) (h' : digestPath d' = .ok p) : d = d' := by
  obtain ⟨algo, hex⟩ := p
  rw [(digestPath_ok h).1, (digestPath_ok h').1]

-- ---------------------------------------------------------------------------
-- Markers
-- ---------------------------------------------------------------------------

/-- `reference.replace('/', "+")`. -/
def markerName (reference : String) : String :=
  String.ofList (reference.toList.map fun c => if c = '/' then '+' else c)

end Climate
