import Mathlib.Data.List.Basic
import Mathlib.Data.Rat.Init

/-!
# TOML

Values and tables, tables merged key by key, and documents written line by
line: sections under a header, each with its keys. A value is written the way
a printer writes it, or as a multi-line literal.
-/

namespace Toml

/-- A floating-point number, as the value it stands for. -/
inductive Number
  | nan
  | inf (negative : Bool)
  | value (q : Rat)
  deriving DecidableEq, Repr

inductive Value
  | string (text : String)
  | integer (n : Int64)
  | float (x : Number)
  | boolean (b : Bool)
  | datetime (text : String)
  | array (items : List Value)
  | table (entries : List (String × Value))

abbrev Table := List (String × Value)

namespace Table

def get (t : Table) (key : String) : Option Value := t.lookup key

def set (t : Table) (key : String) (value : Value) : Table :=
  match t with
  | [] => [(key, value)]
  | entry :: rest => if entry.1 = key then (key, value) :: rest else entry :: set rest key value

def keys (t : Table) : List String := t.map (·.1)

end Table

mutual

/-- What a key holds once `value` is laid over what it held. -/
def Value.atop : Value → Option Value → Value
  | .table above, some (.table below) => .table (entriesOver above below)
  | value, _ => value

def entriesOver : List (String × Value) → Table → Table
  | [], base => base
  | entry :: rest, base => entriesOver rest (entryOver entry base)

def entryOver : String × Value → Table → Table
  | (key, value), base => base.set key (value.atop (base.get key))

end

/-- Tables merge key by key; any other value replaces the one below it. -/
def merge (base override : Table) : Table := entriesOver override base

-- ---------------------------------------------------------------------------
-- Documents
-- ---------------------------------------------------------------------------

inductive Text
  | printed (value : Value)
  | literal (body : String)

inductive Line
  | blank
  | comment (text : String)
  | header (name : String)
  | entry (key : String) (text : Text)

def quotes : String := "'''"

def quoted (body : String) : String := quotes ++ "\n" ++ body ++ quotes

def Text.render (print : Value → String) : Text → String
  | .printed value => print value
  | .literal body => quoted body

def Line.render (print : Value → String) : Line → String
  | .blank => ""
  | .comment text => "# " ++ text
  | .header name => "[" ++ name ++ "]"
  | .entry key text => key ++ " = " ++ text.render print

def render (print : Value → String) (lines : List Line) : String :=
  String.join (lines.map fun line => line.render print ++ "\n")

/-- Control characters, U+0000 to U+001F and U+007F. -/
def isControl (c : Char) : Bool := c.toNat < 32 || c.toNat = 127

/-- No control characters but tabs and newlines, a newline being a line feed
or a carriage return with a line feed after it. -/
def plain : List Char → Bool
  | [] => true
  | '\r' :: '\n' :: rest => plain rest
  | c :: rest => (!isControl c || c = '\t' || c = '\n') && plain rest

/-- The value that a text stands for. What becomes of the newlines in a
literal is up to the parser. -/
def Text.value (newlines : String → String) : Text → Option Value
  | .printed value => some value
  | .literal body => if plain body.toList then some (.string (newlines body)) else none

/-- The keys before the first header, and each section with its own. -/
def sections (newlines : String → String) : List Line → Option (Table × List (String × Table))
  | [] => some ([], [])
  | .blank :: rest | .comment _ :: rest => sections newlines rest
  | .header name :: rest => do
    let (entries, named) ← sections newlines rest
    return ([], (name, entries) :: named)
  | .entry key text :: rest => do
    let value ← text.value newlines
    let (entries, named) ← sections newlines rest
    return ((key, value) :: entries, named)

/-- The table a document stands for, no key or section being there twice. -/
def document (newlines : String → String) (lines : List Line) : Option Table := do
  let (entries, named) ← sections newlines lines
  let table := entries ++ named.map fun (name, entries) => (name, .table entries)
  if table.keys.Nodup ∧ ∀ entry ∈ named, entry.2.keys.Nodup then some table else none

-- ---------------------------------------------------------------------------
-- Keys that may be left out
-- ---------------------------------------------------------------------------

def given (l : List (String × Option Value)) : Table := l.filterMap fun e => e.2.map (e.1, ·)

variable {l l' : List (String × Option Value)}

@[simp] theorem given_nil : given [] = [] := rfl

@[simp] theorem given_some (key : String) (value : Value) (l : List (String × Option Value)) :
    given ((key, some value) :: l) = (key, value) :: given l := rfl

@[simp] theorem given_none (key : String) (l : List (String × Option Value)) :
    given ((key, none) :: l) = given l := rfl

theorem given_append : given (l ++ l') = given l ++ given l' := List.filterMap_append

theorem keys_given : (given l).keys.Sublist (l.map (·.1)) := by
  induction l with
  | nil => exact .slnil
  | cons e l ih =>
    obtain ⟨key, value⟩ := e
    cases value with
    | none => exact ih.cons key
    | some value => exact ih.cons_cons key

theorem get_given_none (h : key ∉ l.map (·.1)) : (given l).get key = none := by
  refine List.lookup_eq_none_iff.mpr fun e he => ?_
  have hmem : e.1 ∈ (given l).keys := List.mem_map_of_mem he
  simpa using fun heq : key = e.1 => h (heq ▸ keys_given.subset hmem)

theorem get_given (h : (l.map (·.1)).Nodup) (hmem : (key, value) ∈ l) : (given l).get key = value := by
  induction l with
  | nil => cases hmem
  | cons e l ih =>
    obtain ⟨hnot, h⟩ := List.nodup_cons.mp h
    rcases List.mem_cons.mp hmem with rfl | hmem
    · cases value with
      | none => exact get_given_none (l := l) hnot
      | some value => simp [given, Table.get]
    · have hkey : key ∈ l.map (·.1) := List.mem_map_of_mem hmem
      have hne : (key == e.1) = false := by
        refine beq_eq_false_iff_ne.mpr fun heq => hnot ?_
        rwa [heq] at hkey
      rw [← ih h hmem]
      obtain ⟨other, _ | value⟩ := e
      · rfl
      · simp only [given, Table.get, List.filterMap_cons, Option.map_some, List.lookup_cons, hne]

/-- Lines that give these keys to the section they stand in. -/
def Body (newlines : String → String) (lines : List Line) (l : List (String × Option Value)) : Prop :=
  ∀ rest, sections newlines (lines ++ rest) = (sections newlines rest).map fun r => (given l ++ r.1, r.2)

namespace Body

variable {newlines : String → String} {lines lines' : List Line}

theorem append (h : Body newlines lines l) (h' : Body newlines lines' l') :
    Body newlines (lines ++ lines') (l ++ l') := by
  intro rest
  rw [List.append_assoc, h, h', Option.map_map]
  simp [Function.comp_def, given_append, List.append_assoc]

theorem left_out : Body newlines [] [(key, none)] := fun rest => by simp

theorem comment : Body newlines [.comment text] [(key, none)] := fun rest => by simp [sections]

theorem entry (h : text.value newlines = some value) :
    Body newlines [.entry key text] [(key, some value)] := by
  intro rest
  rw [List.singleton_append, sections, h]
  cases sections newlines rest <;> rfl

end Body

end Toml
