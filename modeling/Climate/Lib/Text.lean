import Mathlib.Data.List.TakeWhile
import Mathlib.Data.Nat.Digits.Lemmas

/-!
# Words, lines and hexadecimal numbers

Text taken apart at separators and at line ends, and numbers read and written
in base 16.
-/

namespace Text

-- ---------------------------------------------------------------------------
-- Words
-- ---------------------------------------------------------------------------

section Words

variable {α : Type} {p : α → Bool}

/-- What stands between the elements that satisfy `p`. -/
def words (p : α → Bool) (l : List α) : List (List α) := (l.splitOnP p).filter fun w => !w.isEmpty

/-- Something, and no separator in it. -/
def Solid (p : α → Bool) (w : List α) : Prop := w ≠ [] ∧ ∀ x ∈ w, p x = false

-- Not by the characters there are, which are too many to go through.
instance (w : List Char) (p : Char → Bool) : Decidable (Solid p w) :=
  haveI : Decidable (∀ x ∈ w, p x = false) := List.decidableBAll _ _
  inferInstanceAs (Decidable (_ ∧ _))

@[simp] theorem words_nil : words p [] = [] := rfl

theorem words_append_cons (a b : List α) (hsep : p sep = true) :
    words p (a ++ sep :: b) = words p a ++ words p b := by
  rw [words, List.splitOnP_append_cons a b hsep, List.filter_append]
  rfl

theorem words_cons (l : List α) (hsep : p sep = true) : words p (sep :: l) = words p l :=
  words_append_cons [] l hsep

theorem words_gap_append {gap : List α} (h : ∀ x ∈ gap, p x = true) (l : List α) :
    words p (gap ++ l) = words p l := by
  induction gap with
  | nil => rfl
  | cons x gap ih =>
    rw [List.cons_append, words_cons _ (h x (by simp)), ih fun y hy => h y (by simp [hy])]

theorem words_append_gap (l : List α) {gap : List α} (h : ∀ x ∈ gap, p x = true) :
    words p (l ++ gap) = words p l := by
  cases gap with
  | nil => rw [List.append_nil]
  | cons x gap =>
    have hgap := words_gap_append (fun y hy => h y (by simp [hy]) : ∀ y ∈ gap, p y = true) []
    rw [List.append_nil, words_nil] at hgap
    rw [words_append_cons l gap (h x (by simp)), hgap, List.append_nil]

theorem words_solid {w : List α} (h : Solid p w) : words p w = [w] := by
  rw [words, List.splitOnP_eq_singleton h.2, List.filter_cons_of_pos (by simpa using h.1), List.filter_nil]

/-- Words with more separators in front of each. -/
theorem words_intercalate_filled (hsep : p sep = true) {cells : List (List α × List α)}
    (hgap : ∀ c ∈ cells, ∀ x ∈ c.1, p x = true) (h : ∀ c ∈ cells, Solid p c.2) :
    words p ([sep].intercalate (cells.map fun c => c.1 ++ c.2)) = cells.map (·.2) := by
  induction cells with
  | nil => rfl
  | cons c cells ih =>
    have hc : words p (c.1 ++ c.2) = [c.2] := by
      rw [words_gap_append (hgap c (by simp)), words_solid (h c (by simp))]
    have hrest := ih (fun d hd => hgap d (by simp [hd])) fun d hd => h d (by simp [hd])
    cases cells with
    | nil => simpa using hc
    | cons d cells =>
      simp only [List.map_cons, List.intercalate_cons_cons, List.append_assoc, List.singleton_append] at hrest ⊢
      rw [← List.append_assoc c.1, words_append_cons _ _ hsep, hc, hrest, List.singleton_append]

theorem words_intercalate (hsep : p sep = true) {ws : List (List α)} (h : ∀ w ∈ ws, Solid p w) :
    words p ([sep].intercalate ws) = ws := by
  have hgap : ∀ c ∈ ws.map fun w => (([] : List α), w), ∀ x ∈ c.1, p x = true := by simp
  have hsolid : ∀ c ∈ ws.map fun w => (([] : List α), w), Solid p c.2 := by simpa using h
  simpa [Function.comp_def] using words_intercalate_filled hsep hgap hsolid

theorem mem_of_splitOnP {l : List α} (hpiece : piece ∈ l.splitOnP p) (hx : x ∈ piece) : x ∈ l := by
  induction l generalizing piece with
  | nil =>
    rw [List.splitOnP_nil, List.mem_singleton] at hpiece
    exact hpiece ▸ hx
  | cons a l ih =>
    rw [List.splitOnP_cons_eq_if_modifyHead] at hpiece
    split at hpiece
    · rcases List.mem_cons.mp hpiece with rfl | hpiece
      · cases hx
      · exact List.mem_cons_of_mem _ (ih hpiece hx)
    · obtain ⟨first, rest, heq⟩ := List.exists_cons_of_ne_nil (List.splitOnP_ne_nil p l)
      rw [heq] at hpiece ih
      rcases List.mem_cons.mp hpiece with rfl | hpiece
      · rcases List.mem_cons.mp hx with rfl | hx
        · exact List.mem_cons_self
        · exact List.mem_cons_of_mem _ (ih List.mem_cons_self hx)
      · exact List.mem_cons_of_mem _ (ih (List.mem_cons_of_mem _ hpiece) hx)

theorem not_of_splitOnP {l : List α} (hpiece : piece ∈ l.splitOnP p) (hx : x ∈ piece) : p x = false := by
  induction l generalizing piece with
  | nil =>
    rw [List.splitOnP_nil, List.mem_singleton] at hpiece
    subst hpiece
    cases hx
  | cons a l ih =>
    rw [List.splitOnP_cons_eq_if_modifyHead] at hpiece
    split at hpiece
    · rcases List.mem_cons.mp hpiece with rfl | hpiece
      · cases hx
      · exact ih hpiece hx
    next hnot =>
      obtain ⟨first, rest, heq⟩ := List.exists_cons_of_ne_nil (List.splitOnP_ne_nil p l)
      rw [heq] at hpiece ih
      rcases List.mem_cons.mp hpiece with rfl | hpiece
      · rcases List.mem_cons.mp hx with rfl | hx
        · simpa using hnot
        · exact ih List.mem_cons_self hx
      · exact ih (List.mem_cons_of_mem _ hpiece) hx

theorem mem_of_words {l : List α} (hw : w ∈ words p l) (hx : x ∈ w) : x ∈ l :=
  mem_of_splitOnP (List.mem_of_mem_filter hw) hx

theorem mem_intercalate {sep : α} {ws : List (List α)} (h : x ∈ [sep].intercalate ws) :
    x = sep ∨ ∃ w ∈ ws, x ∈ w := by
  induction ws with
  | nil => cases h
  | cons w ws ih =>
    cases ws with
    | nil => exact .inr ⟨w, by simp, by rwa [List.intercalate_singleton] at h⟩
    | cons w' ws =>
      rw [List.intercalate_cons_cons, List.mem_append, List.mem_append, List.mem_singleton] at h
      rcases h with (h | h) | h
      · exact .inr ⟨w, by simp, h⟩
      · exact .inl h
      · rcases ih h with h | ⟨v, hv, h⟩
        · exact .inl h
        · exact .inr ⟨v, by simp [hv], h⟩

theorem mem_intercalate_of {sep : α} {ws : List (List α)} (hw : w ∈ ws) (hx : x ∈ w) :
    x ∈ [sep].intercalate ws := by
  induction ws with
  | nil => cases hw
  | cons v ws ih =>
    cases ws with
    | nil =>
      rw [List.intercalate_singleton]
      exact List.mem_singleton.mp hw ▸ hx
    | cons v' ws =>
      rw [List.intercalate_cons_cons, List.mem_append]
      rcases List.mem_cons.mp hw with rfl | hw
      · exact .inl (List.mem_append_left _ hx)
      · exact .inr (ih hw)

end Words

-- ---------------------------------------------------------------------------
-- Pieces
-- ---------------------------------------------------------------------------

/-- What stands before, between and after the separators, empty or not. -/
def pieces (c : Char) (s : String) : List String := (s.toList.splitOn c).map String.ofList

theorem intercalate_pieces {sep : String} (hsep : sep.toList = [c]) (s : String) :
    sep.intercalate (pieces c s) = s := by
  rw [← String.toList_inj, String.toList_intercalate, hsep, pieces, List.map_map]
  have hid : String.toList ∘ String.ofList = id := funext fun l => String.toList_ofList
  rw [hid, List.map_id, List.intercalate_splitOn]

theorem pieces_intercalate {sep : String} (hsep : sep.toList = [c]) {l : List String} (hne : l ≠ [])
    (h : ∀ piece ∈ l, c ∉ piece.toList) : pieces c (sep.intercalate l) = l := by
  have hsplit : ([c].intercalate (l.map String.toList)).splitOn c = l.map String.toList :=
    List.splitOn_intercalate c (by simpa using h) (by simpa using hne)
  have hid : String.ofList ∘ String.toList = id := funext fun s => String.ofList_toList
  rw [pieces, String.toList_intercalate, hsep, hsplit, List.map_map, hid, List.map_id]

/-- No separator is left in a piece. -/
theorem not_mem_pieces (h : piece ∈ pieces c s) : c ∉ piece.toList := by
  obtain ⟨l, hl, rfl⟩ := List.mem_map.mp h
  rw [List.splitOn_eq_splitOnP] at hl
  intro hmem
  rw [String.toList_ofList] at hmem
  simpa using not_of_splitOnP hl hmem

-- ---------------------------------------------------------------------------
-- The first piece
-- ---------------------------------------------------------------------------

section First

variable {α : Type} [DecidableEq α] {c : α}

theorem head?_splitOn (c : α) (l : List α) : (l.splitOn c).head? = some (l.takeWhile (· ≠ c)) := by
  induction l with
  | nil => rfl
  | cons x l ih =>
    rw [List.splitOn_cons_eq_if_modifyHead, List.takeWhile_cons]
    by_cases hx : x = c
    · simp [hx]
    · simp [hx, ih]

/-- The part before the first separator, or the whole where there is none. -/
theorem takeWhile_ne_iff {l : List α} : l.takeWhile (· ≠ c) = first ↔
    c ∉ first ∧ ∃ rest, l = first ++ rest ∧ ∀ x ∈ rest.head?, x = c := by
  constructor
  · rintro rfl
    refine ⟨fun hmem => by simpa using List.mem_takeWhile_imp hmem, l.dropWhile (· ≠ c), ?_, fun x hx => ?_⟩
    · exact List.takeWhile_append_dropWhile.symm
    · have hnot := List.head?_dropWhile_not (· ≠ c) l
      rw [Option.mem_def.mp hx] at hnot
      simpa using hnot
  · rintro ⟨hmem, rest, rfl, hrest⟩
    rw [List.takeWhile_append_of_pos fun x hx => by simpa using fun heq : x = c => hmem (heq ▸ hx)]
    cases rest with
    | nil => simp
    | cons x rest =>
      obtain rfl := hrest x rfl
      simp

end First

-- ---------------------------------------------------------------------------
-- One for another
-- ---------------------------------------------------------------------------

section Replaced

variable {α : Type} [DecidableEq α] {old new mark : α}

/-- Every `old` as a `new`. -/
def replace (old new : α) (l : List α) : List α := l.map fun x => if x = old then new else x

theorem replace_append (a b : List α) : replace old new (a ++ b) = replace old new a ++ replace old new b :=
  List.map_append

theorem replace_eq_self {l : List α} (h : old ∉ l) : replace old new l = l := by
  refine (List.map_congr_left fun x hx => if_neg ?_).trans (List.map_id l)
  rintro rfl
  exact h hx

theorem mem_replace {l : List α} (hold : x ≠ old) (hnew : x ≠ new) : x ∈ replace old new l ↔ x ∈ l := by
  simp only [replace, List.mem_map]
  constructor
  · rintro ⟨y, hy, rfl⟩
    split at hnew
    · exact absurd rfl hnew
    next hne => rwa [if_neg hne]
  · exact fun hx => ⟨x, hx, if_neg hold⟩

/-- Where there was no `new` before, nothing is lost. -/
theorem replace_inj {a b : List α} (ha : new ∉ a) (hb : new ∉ b) (h : replace old new a = replace old new b) :
    a = b := by
  induction a generalizing b with
  | nil => exact (List.map_eq_nil_iff.mp h.symm).symm
  | cons x a ih =>
    cases b with
    | nil => cases h
    | cons y b =>
      simp only [List.mem_cons, not_or] at ha hb
      obtain ⟨hxy, hrest⟩ := List.cons.inj h
      rw [ih ha.2 hb.2 hrest]
      dsimp only at hxy
      split at hxy <;> split at hxy
      next hx hy => rw [hx, hy]
      · exact absurd hxy hb.1
      · exact absurd hxy.symm ha.1
      · rw [hxy]

/-- Before the first `mark` there is no `new`, and from it on no `old`. -/
structure Divided (mark old new : α) (l : List α) : Prop where
  before : new ∉ l.takeWhile (· ≠ mark)
  after : old ∉ l.dropWhile (· ≠ mark)

theorem divided_append {a b : List α} (hmark : mark ∉ a) (hnew : new ∉ a) (hold : old ∉ b)
    (hb : b = [] ∨ b.head? = some mark) : Divided mark old new (a ++ b) := by
  have hall : ∀ x ∈ a, decide (x ≠ mark) = true := by
    intro x hx
    exact decide_eq_true fun heq => hmark (heq ▸ hx)
  have hhead : b.takeWhile (· ≠ mark) = [] ∧ b.dropWhile (· ≠ mark) = b := by
    rcases hb with rfl | hb
    · exact ⟨rfl, rfl⟩
    · obtain ⟨rest, rfl⟩ := List.head?_eq_some_iff.mp hb
      simp
  refine ⟨?_, ?_⟩
  · rw [List.takeWhile_append_of_pos hall, hhead.1, List.append_nil]
    exact hnew
  · rw [List.dropWhile_append_of_pos hall, hhead.2]
    exact hold

/-- The mark shows where to take which of two equal elements for what it was. -/
theorem replace_inj_divided (hold : mark ≠ old) (hnew : mark ≠ new) {a b : List α}
    (ha : Divided mark old new a) (hb : Divided mark old new b) (h : replace old new a = replace old new b) :
    a = b := by
  have hmark : ((fun x => decide (x ≠ mark)) ∘ fun x => if x = old then new else x) = fun x =>
      decide (x ≠ mark) := by
    funext x
    by_cases hx : x = old
    · simp [hx, hold.symm, hnew.symm]
    · simp [hx]
  have htake : replace old new (a.takeWhile (· ≠ mark)) = replace old new (b.takeWhile (· ≠ mark)) := by
    have heq := congrArg (List.takeWhile (· ≠ mark)) h
    simpa only [replace, List.takeWhile_map, hmark] using heq
  have hdrop : replace old new (a.dropWhile (· ≠ mark)) = replace old new (b.dropWhile (· ≠ mark)) := by
    have heq := congrArg (List.dropWhile (· ≠ mark)) h
    simpa only [replace, List.dropWhile_map, hmark] using heq
  rw [replace_eq_self ha.after, replace_eq_self hb.after] at hdrop
  rw [← List.takeWhile_append_dropWhile (p := (· ≠ mark)) (l := a), replace_inj ha.before hb.before htake, hdrop,
    List.takeWhile_append_dropWhile]

end Replaced

-- ---------------------------------------------------------------------------
-- Lines
-- ---------------------------------------------------------------------------

def stripReturn (line : List Char) : List Char :=
  if line.getLast? = some '\r' then line.dropLast else line

/-- What each line end closes, and what follows the last one if anything does. -/
def lines (text : List Char) : List (List Char) :=
  let pieces := text.splitOn '\n'
  pieces.dropLast.map stripReturn ++ pieces.getLast?.toList.filter fun last => !last.isEmpty

def OneLine (line : List Char) : Prop := '\n' ∉ line ∧ '\r' ∉ line

theorem lines_append {line : List Char} (h : OneLine line) (rest : List Char) :
    lines (line ++ '\n' :: rest) = line :: lines rest := by
  have hstrip : stripReturn line = line := if_neg fun hlast => h.2 (List.mem_of_getLast? hlast)
  have hsplit : (line ++ '\n' :: rest).splitOn '\n' = line :: rest.splitOn '\n' := by
    rw [List.splitOn_append_cons_self, List.splitOn_eq_singleton h.1, List.singleton_append]
  have hne := List.splitOn_ne_nil '\n' rest
  simp only [lines, hsplit]
  rw [List.dropLast_cons_of_ne_nil hne, List.getLast?_cons_of_ne_nil hne, List.map_cons, hstrip, List.cons_append]

theorem lines_closed {ls : List (List Char)} (h : ∀ line ∈ ls, OneLine line) :
    lines (ls.flatMap (· ++ ['\n'])) = ls := by
  induction ls with
  | nil => rfl
  | cons line ls ih =>
    rw [List.flatMap_cons, List.append_assoc, List.singleton_append, lines_append (h line (by simp)),
      ih fun l hl => h l (by simp [hl])]

theorem mem_of_lines (hline : line ∈ lines text) (hx : x ∈ line) : x ∈ text := by
  have hpiece : ∀ piece ∈ text.splitOn '\n', ∀ x ∈ piece, x ∈ text := fun piece hp x hx => by
    rw [List.splitOn_eq_splitOnP] at hp
    exact mem_of_splitOnP hp hx
  rcases List.mem_append.mp hline with h | h
  · obtain ⟨piece, hp, rfl⟩ := List.mem_map.mp h
    refine hpiece piece (List.mem_of_mem_dropLast hp) x ?_
    unfold stripReturn at hx
    split at hx
    · exact List.mem_of_mem_dropLast hx
    · exact hx
  · have hlast : (text.splitOn '\n').getLast? = some line := by simpa using (List.mem_filter.mp h).1
    exact hpiece line (List.mem_of_getLast? hlast) x hx

-- ---------------------------------------------------------------------------
-- Hexadecimal numbers
-- ---------------------------------------------------------------------------

def hexDigit (c : Char) : Option Nat :=
  if '0' ≤ c ∧ c ≤ '9' then some (c.toNat - '0'.toNat)
  else if 'a' ≤ c ∧ c ≤ 'f' then some (c.toNat - 'a'.toNat + 10)
  else if 'A' ≤ c ∧ c ≤ 'F' then some (c.toNat - 'A'.toNat + 10)
  else none

def hexValue (digits : List Char) : Option Nat :=
  digits.foldlM (fun n c => (hexDigit c).map (16 * n + ·)) 0

def dropPlus : List Char → List Char
  | '+' :: digits => digits
  | digits => digits

/-- One or more digits, with a plus before them or not, of a number that fits. -/
def fromHex (bits : Nat) (text : List Char) : Option (BitVec bits) :=
  let digits := dropPlus text
  if digits.isEmpty then none
  else (hexValue digits).bind fun n => if n < 2 ^ bits then some (BitVec.ofNat bits n) else none

def hexChar (upper : Bool) (d : Nat) : Char :=
  Char.ofNat (d + if d < 10 then '0'.toNat else (if upper then 'A'.toNat else 'a'.toNat) - 10)

/-- At least `width` digits, zeros before the others. -/
def toHex (upper : Bool) (width n : Nat) : List Char :=
  let digits := (Nat.digits 16 n).reverse.map (hexChar upper)
  List.replicate (width - digits.length) '0' ++ digits

theorem hexDigit_range (h : (hexDigit c).isSome = true) : 48 ≤ c.toNat ∧ c.toNat ≤ 102 := by
  simp only [hexDigit, Char.le_def, UInt32.le_iff_toNat_le] at h
  change 48 ≤ c.val.toNat ∧ c.val.toNat ≤ 102
  split at h
  next hdigit => exact ⟨hdigit.1, hdigit.2.trans (by decide)⟩
  split at h
  next hlower => exact ⟨le_trans (by decide : 48 ≤ 'a'.val.toNat) hlower.1, hlower.2⟩
  split at h
  next hupper => exact ⟨le_trans (by decide : 48 ≤ 'A'.val.toNat) hupper.1, hupper.2.trans (by decide)⟩
  · cases h

theorem hexDigit_hexChar (upper : Bool) (hd : d < 16) : hexDigit (hexChar upper d) = some d := by
  have hall : ∀ upper, ∀ d : Fin 16, hexDigit (hexChar upper d) = some d.1 := by decide
  exact hall upper ⟨d, hd⟩

theorem foldlM_hex (upper : Bool) {ds : List Nat} (h : ∀ d ∈ ds, d < 16) (n : Nat) :
    (ds.map (hexChar upper)).foldlM (fun n c => (hexDigit c).map (16 * n + ·)) n =
      some (n * 16 ^ ds.length + Nat.ofDigits 16 ds.reverse) := by
  induction ds generalizing n with
  | nil => simp
  | cons d ds ih =>
    rw [List.map_cons, List.foldlM_cons, hexDigit_hexChar upper (h d (by simp))]
    change List.foldlM _ (16 * n + d) _ = _
    rw [ih (fun e he => h e (by simp [he])), List.reverse_cons, Nat.ofDigits_append, Nat.ofDigits_singleton,
      List.length_reverse, List.length_cons, pow_succ]
    congr 1
    ring

theorem toHex_eq (upper : Bool) (width n : Nat) : toHex upper width n =
    (List.replicate (width - (Nat.digits 16 n).length) 0 ++ (Nat.digits 16 n).reverse).map (hexChar upper) := by
  have hzero : hexChar upper 0 = '0' := by cases upper <;> decide
  rw [List.map_append, List.map_replicate, hzero]
  simp [toHex]

theorem toHex_digits (width n : Nat) :
    ∀ d ∈ List.replicate (width - (Nat.digits 16 n).length) 0 ++ (Nat.digits 16 n).reverse, d < 16 := by
  intro d hd
  rcases List.mem_append.mp hd with hd | hd
  · rw [List.eq_of_mem_replicate hd]
    decide
  · exact Nat.digits_lt_base (by decide) (List.mem_reverse.mp hd)

theorem hexValue_toHex (upper : Bool) (width n : Nat) : hexValue (toHex upper width n) = some n := by
  rw [toHex_eq, hexValue, foldlM_hex upper (toHex_digits width n), List.reverse_append, List.reverse_reverse,
    List.reverse_replicate, Nat.ofDigits_append_replicate_zero, Nat.ofDigits_digits, Nat.zero_mul, Nat.zero_add]

theorem mem_toHex (h : c ∈ toHex upper width n) : (hexDigit c).isSome = true := by
  rw [toHex_eq] at h
  obtain ⟨d, hd, rfl⟩ := List.mem_map.mp h
  rw [hexDigit_hexChar upper (toHex_digits width n d hd)]
  rfl

theorem toHex_length_le (upper : Bool) (width n : Nat) : width ≤ (toHex upper width n).length := by
  simp only [toHex, List.length_append, List.length_replicate]
  omega

theorem toHex_length (h : n < 16 ^ width) : (toHex upper width n).length = width := by
  have hle := (Nat.digits_length_le_iff (by decide) n).mpr h
  simp only [toHex, List.length_append, List.length_replicate, List.length_map, List.length_reverse]
  omega

theorem toHex_ne_nil (hwidth : 0 < width) : toHex upper width n ≠ [] :=
  List.ne_nil_of_length_pos (hwidth.trans_le (toHex_length_le upper width n))

theorem toHex_solid {p : Char → Bool} (hp : ∀ c, (hexDigit c).isSome = true → p c = false) (hwidth : 0 < width) :
    Solid p (toHex upper width n) := ⟨toHex_ne_nil hwidth, fun c hc => hp c (mem_toHex hc)⟩

theorem fromHex_of_value {digits : List Char} (hne : digits ≠ []) (hplus : '+' ∉ digits)
    (hvalue : hexValue digits = some n) (hn : n < 2 ^ bits) : fromHex bits digits =
    some (BitVec.ofNat bits n) := by
  have hdigits : dropPlus digits = digits := by
    unfold dropPlus
    split
    · exact absurd List.mem_cons_self hplus
    · rfl
  simp only [fromHex, hdigits, hvalue, List.isEmpty_iff, hne, if_false, Option.bind_some, if_pos hn]

/-- What is printed is read back. -/
theorem fromHex_toHex (upper : Bool) (hwidth : 0 < width) (hn : n < 2 ^ bits) :
    fromHex bits (toHex upper width n) = some (BitVec.ofNat bits n) := by
  refine fromHex_of_value (toHex_ne_nil hwidth) (fun hmem => ?_) (hexValue_toHex upper width n) hn
  cases mem_toHex hmem

theorem fromHex_word (upper : Bool) (hwidth : 0 < width) (x : BitVec bits) :
    fromHex bits (toHex upper width x.toNat) = some x := by
  rw [fromHex_toHex upper hwidth x.isLt, BitVec.ofNat_toNat, BitVec.setWidth_eq]

theorem toHex_inj (h : toHex upper width n = toHex upper width m) : n = m := by
  have hvalue := hexValue_toHex upper width n
  rw [h, hexValue_toHex] at hvalue
  exact (Option.some.inj hvalue).symm

end Text
