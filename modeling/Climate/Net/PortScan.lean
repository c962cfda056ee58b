import Climate.Net.Forward
import Climate.Net.RouteTable

/-!
# The scan for listening ports

The part of forward.rs that reads /proc/net/tcp and /proc/net/tcp6, and the
lines the kernel prints there on a little-endian machine. A text sliced where
it cannot be is `none`.
-/

namespace Climate.PortScan

open Forward (Port)

-- ---------------------------------------------------------------------------
-- Slices
-- ---------------------------------------------------------------------------

def len (s : String) : Nat := (s.toList.map Char.utf8Size).sum

def dropBytes : List Char → Nat → Option (List Char)
  | s, 0 => some s
  | [], _ + 1 => none
  | c :: s, n + 1 => if c.utf8Size ≤ n + 1 then dropBytes s (n + 1 - c.utf8Size) else none

def takeBytes : List Char → Nat → Option (List Char)
  | _, 0 => some []
  | [], _ + 1 => none
  | c :: s, n + 1 => if c.utf8Size ≤ n + 1 then (takeBytes s (n + 1 - c.utf8Size)).map (c :: ·) else none

/-- `&s[start..stop]` panics past the end and inside a character. -/
def slice (s : String) (start stop : Nat) : Option String :=
  ((dropBytes s.toList start).bind (takeBytes · (stop - start))).map String.ofList

-- ---------------------------------------------------------------------------
-- The scan
-- ---------------------------------------------------------------------------

/-- What cannot be read counts as a word that is in none of the addresses. -/
def word (addr : String) (start stop : Nat) : Option (BitVec 32) :=
  (slice addr start stop).map fun part => (hex32 part).getD 1

def isV4 (v : BitVec 32) : Bool := v = 0 || v &&& 0xff = 127

def isLoopback (addr : String) : Option Bool :=
  match len addr with
  | 8 => (word addr 0 8).map isV4
  | 32 => do
    let a ← word addr 0 8
    let b ← word addr 8 16
    let c ← word addr 16 24
    let v4 ← word addr 24 32
    return if a = 0 ∧ b = 0 ∧ c = 0 ∧ v4 = 0 then true
      else if a = 0 ∧ b = 0 ∧ c = 0 ∧ v4 = 0x01000000 then true
      else if a = 0 ∧ b = 0 ∧ c = 0xffff0000 then isV4 v4
      else false
  | _ => some false

/-- The ports with that of one more line. -/
def scanLine (ports : List Port) (line : String) : Option (List Port) :=
  let fields := (splitWhitespace line).drop 1
  match fields[0]?.bind (splitOnce · ':') with
  | none => some ports
  | some (addr, port) =>
    -- Past the remote address is the connection state, and 0A is "listening".
    if fields[2]? ≠ some "0A" then some ports
    else (isLoopback addr).map fun reachable =>
      if !reachable then ports
      else match Text.fromHex 16 port.toList with
        | some port => ports.insert port
        | none => ports

/-- `netDir` are the files of one network namespace. -/
def listeningPorts (netDir : String → Option String) : Option (List Port) :=
  ["tcp", "tcp6"].foldlM (fun ports family =>
    match netDir family with
    | none => some ports
    | some table => ((lines table).drop 1).foldlM scanLine ports) []

-- ---------------------------------------------------------------------------
-- What the kernel prints
-- ---------------------------------------------------------------------------

/-- A line of a table of sockets. The columns from the queues on are not looked
at; how many `rest` there are depends on the state. -/
structure Entry (w : Nat) where
  slot : Column
  ip : BitVec w
  port : Port
  remote : Column
  state : BitVec 8
  queues : Column
  timer : Column
  retransmits : Column
  uid : Column
  timeout : Column
  rest : List Column

def printV4 (ip : BitVec 32) : List Char := printWord .little ip

def printV6 (ip : BitVec 128) : List Char := [96, 64, 32, 0].flatMap fun i => printV4 (ip.extractLsb' i 32)

/-- The columns and how wide each is at least. -/
def Entry.columns (addr : BitVec w → List Char) (s : Entry w) : List (Nat × List Char) :=
  [(5, s.slot.text.toList), (0, addr s.ip ++ ':' :: Text.toHex true 4 s.port.toNat), (0, s.remote.text.toList),
    (0, Text.toHex true 2 s.state.toNat), (0, s.queues.text.toList), (0, s.timer.text.toList),
    (0, s.retransmits.text.toList), (5, s.uid.text.toList), (8, s.timeout.text.toList)] ++
    s.rest.map fun column => (0, column.text.toList)

def filled (column : Nat × List Char) : List Char := padding column.1 column.2 ++ column.2

/-- A line is filled up to `width` behind. -/
def Entry.print (addr : BitVec w → List Char) (width : Nat) (s : Entry w) : String :=
  let columns := [' '].intercalate ((s.columns addr).map filled)
  String.ofList (columns ++ padding width columns)

def printed (header header6 : Header) (tcp : List (Entry 32)) (tcp6 : List (Entry 128)) : String → Option String
  | "tcp" => some (closed (header.text :: tcp.map (·.print printV4 149)))
  | "tcp6" => some (closed (header6.text :: tcp6.map (·.print printV6 0)))
  | _ => none

-- ---------------------------------------------------------------------------
-- ASCII text
-- ---------------------------------------------------------------------------

def Ascii (l : List Char) : Prop := ∀ c ∈ l, c.toNat < 128

theorem utf8Size_ascii {c : Char} (h : c.toNat < 128) : c.utf8Size = 1 :=
  Char.utf8Size_eq_one_iff.mpr (UInt32.le_iff_toNat_le.mpr (Nat.le_of_lt_succ h))

theorem len_ascii {l : List Char} (h : Ascii l) : (l.map Char.utf8Size).sum = l.length := by
  induction l with
  | nil => rfl
  | cons c l ih =>
    have hl : Ascii l := fun x hx => h x (by simp [hx])
    rw [List.map_cons, List.sum_cons, utf8Size_ascii (h c (by simp)), ih hl, List.length_cons, Nat.add_comm]

theorem dropBytes_ascii {l : List Char} (h : Ascii l) (hn : n ≤ l.length) : dropBytes l n = some (l.drop n) := by
  induction l generalizing n with
  | nil =>
    obtain rfl : n = 0 := by simpa using hn
    rfl
  | cons c l ih =>
    cases n with
    | zero => rfl
    | succ n =>
      have hl : Ascii l := fun x hx => h x (by simp [hx])
      rw [dropBytes, utf8Size_ascii (h c (by simp)), if_pos (Nat.le_add_left _ _), Nat.add_sub_cancel,
        ih hl (by simpa using hn), List.drop_succ_cons]

theorem takeBytes_ascii {l : List Char} (h : Ascii l) (hn : n ≤ l.length) : takeBytes l n = some (l.take n) := by
  induction l generalizing n with
  | nil =>
    obtain rfl : n = 0 := by simpa using hn
    rfl
  | cons c l ih =>
    cases n with
    | zero => rfl
    | succ n =>
      have hl : Ascii l := fun x hx => h x (by simp [hx])
      rw [takeBytes, utf8Size_ascii (h c (by simp)), if_pos (Nat.le_add_left _ _), Nat.add_sub_cancel,
        ih hl (by simpa using hn), List.take_succ_cons]
      rfl

theorem slice_ascii {s : String} (h : Ascii s.toList) (hstart : start ≤ stop) (hstop : stop ≤ s.toList.length) :
    slice s start stop = some (String.ofList ((s.toList.drop start).take (stop - start))) := by
  have hrest : Ascii (s.toList.drop start) := fun c hc => h c (List.mem_of_mem_drop hc)
  rw [slice, dropBytes_ascii h (hstart.trans hstop), Option.bind_some, takeBytes_ascii hrest (by simp; omega),
    Option.map_some]

theorem word_ascii {s : String} (h : Ascii s.toList) (hstart : start ≤ stop) (hstop : stop ≤ s.toList.length) :
    word s start stop = some ((Text.fromHex 32 ((s.toList.drop start).take (stop - start))).getD 1) := by
  rw [word, slice_ascii h hstart hstop, Option.map_some, hex32, String.toList_ofList]

theorem isLoopback_isSome {addr : String} (h : Ascii addr.toList) : (isLoopback addr).isSome = true := by
  have hlen : len addr = addr.toList.length := len_ascii h
  unfold isLoopback
  split
  next h8 =>
    rw [word_ascii h (by decide) (by omega)]
    rfl
  next h32 =>
    rw [word_ascii h (by decide) (by omega), word_ascii h (by decide) (by omega),
      word_ascii h (by decide) (by omega), word_ascii h (by decide) (by omega)]
    rfl
  · rfl

theorem scanLine_isSome {line : String} (h : Ascii line.toList) (ports : List Port) :
    (scanLine ports line).isSome = true := by
  unfold scanLine
  dsimp only
  split
  · rfl
  next addr port hsplit =>
    split
    · rfl
    · obtain ⟨field, hfield, hsplit⟩ := Option.bind_eq_some_iff.mp hsplit
      have hmem : field ∈ splitWhitespace line := List.mem_of_mem_drop (List.mem_of_getElem? hfield)
      obtain ⟨w, hw, rfl⟩ := List.mem_map.mp hmem
      have htext := (splitOnce_eq_some hsplit).1
      have haddr : Ascii addr.toList := fun c hc => by
        refine h c (Text.mem_of_words hw ?_)
        rw [← String.toList_ofList (l := w), htext]
        exact List.mem_append_left _ hc
      rw [Option.isSome_map]
      exact isLoopback_isSome haddr

theorem foldlM_isSome {f : β → α → Option β} {l : List α} (h : ∀ a ∈ l, ∀ b, (f b a).isSome = true) (b : β) :
    (l.foldlM f b).isSome = true := by
  induction l generalizing b with
  | nil => rfl
  | cons a l ih =>
    obtain ⟨b', hb'⟩ := Option.isSome_iff_exists.mp (h a (by simp) b)
    rw [List.foldlM_cons, hb']
    exact ih (fun a ha => h a (by simp [ha])) b'

/-- No text of ASCII makes the scan panic. -/
theorem listeningPorts_isSome {netDir : String → Option String}
    (h : ∀ family table, netDir family = some table → Ascii table.toList) :
    (listeningPorts netDir).isSome = true := by
  refine foldlM_isSome (fun family _ ports => ?_) []
  split
  · rfl
  next table htable =>
    refine foldlM_isSome (fun line hline ports => scanLine_isSome (fun c hc => ?_) ports) ports
    obtain ⟨l, hl, rfl⟩ := List.mem_map.mp (List.mem_of_mem_drop hline)
    rw [String.toList_ofList] at hc
    exact h family table htable c (Text.mem_of_lines hl hc)

-- ---------------------------------------------------------------------------
-- Addresses
-- ---------------------------------------------------------------------------

/-- The word a part of an address is printed as. -/
def native (ip : BitVec 32) : BitVec 32 := Endian.little.word (.ofWord ip)

theorem native_inj (h : native ip = native ip') : ip = ip' := by
  have heq : Octets.ofWord ip = Octets.ofWord ip' := Endian.word_inj h
  rw [← Octets.toWord_ofWord ip, heq, Octets.toWord_ofWord]

theorem native_eq_iff (hword : native ip' = w) : native ip = w ↔ ip = ip' :=
  ⟨fun h => native_inj (h.trans hword.symm), fun h => h ▸ hword⟩

theorem native_zero : native ip = 0 ↔ ip = 0 := native_eq_iff rfl

theorem native_one : native ip = 0x01000000 ↔ ip = 1 := native_eq_iff rfl

theorem native_mapped : native ip = 0xffff0000 ↔ ip = 0xffff := native_eq_iff rfl

theorem native_and (ip : BitVec 32) : native ip &&& (0xff : BitVec 32) = ip >>> 24 := by
  change native ip &&& 0xff#32 = ip >>> 24
  have hmask : ∀ i : Fin 32, (0xff#32)[i] = decide (i.1 < 8) := by decide
  ext i hi
  have hbit := hmask ⟨i, hi⟩
  simp only [Fin.getElem_fin] at hbit
  simp [native, Endian.word, Octets.reverse, Octets.toWord, Octets.ofWord, hbit]
  grind

theorem isV4_native (ip : BitVec 32) : isV4 (native ip) = Forward.isV4 ip := by
  simp only [isV4, Forward.isV4, native_and, native_zero]

/-- The part of an IPv6 address from a bit on. -/
abbrev part (ip : BitVec 128) (i : Nat) : BitVec 32 := ip.extractLsb' i 32

theorem parts_append (ip : BitVec 128) : part ip 96 ++ part ip 64 ++ part ip 32 ++ part ip 0 = ip := by
  ext i hi
  simp
  grind

theorem eq_iff_parts {ip ip' : BitVec 128} : ip = ip' ↔ part ip 96 = part ip' 96 ∧ part ip 64 = part ip' 64 ∧
    part ip 32 = part ip' 32 ∧ part ip 0 = part ip' 0 := by
  constructor
  · rintro rfl
    exact ⟨rfl, rfl, rfl, rfl⟩
  · rintro ⟨h96, h64, h32, h0⟩
    rw [← parts_append ip, h96, h64, h32, h0, parts_append]

theorem isMapped_iff {ip : BitVec 128} : Forward.isMapped ip = true ↔
    part ip 96 = 0 ∧ part ip 64 = 0 ∧ part ip 32 = 0xffff := by
  rw [Forward.isMapped, decide_eq_true_eq]
  constructor
  · intro h
    have hpart : ∀ i, part ip (32 + i) = part (ip >>> 32) i := fun i => by
      ext j hj
      simp [BitVec.getLsbD_ushiftRight, Nat.add_assoc]
    exact ⟨by rw [hpart 64, h]; rfl, by rw [hpart 32, h]; rfl, by rw [hpart 0, h]; rfl⟩
  · rintro ⟨h96, h64, h32⟩
    have hshift : ip >>> 32 = (0 : BitVec 32) ++ part ip 96 ++ part ip 64 ++ part ip 32 := by
      ext i hi
      simp
      grind
    rw [hshift, h96, h64, h32]
    rfl

theorem isLoopback_parts (ip : BitVec 128) : Forward.isLoopback (.v6 ip) =
    if part ip 96 = 0 ∧ part ip 64 = 0 ∧ part ip 32 = 0 ∧ part ip 0 = 0 then true
    else if part ip 96 = 0 ∧ part ip 64 = 0 ∧ part ip 32 = 0 ∧ part ip 0 = 1 then true
    else if part ip 96 = 0 ∧ part ip 64 = 0 ∧ part ip 32 = 0xffff then Forward.isV4 (part ip 0)
    else false := by
  have hzero : ip = 0 ↔ part ip 96 = 0 ∧ part ip 64 = 0 ∧ part ip 32 = 0 ∧ part ip 0 = 0 := eq_iff_parts
  have hone : ip = 1 ↔ part ip 96 = 0 ∧ part ip 64 = 0 ∧ part ip 32 = 0 ∧ part ip 0 = 1 := eq_iff_parts
  have hlow : ip.setWidth 32 = part ip 0 := by
    ext i hi
    simp
  rw [Forward.isLoopback, hlow]
  simp only [← hzero, ← hone, ← isMapped_iff]
  split
  next h => simp [h]
  next hzero =>
    split
    next h => simp [h]
    next hone =>
      rw [decide_eq_false hzero, decide_eq_false hone]
      cases Forward.isMapped ip <;> simp

theorem printV4_value (ip : BitVec 32) : Text.fromHex 32 (printV4 ip) = some (native ip) :=
  Text.fromHex_word true (by decide) (native ip)

theorem printV4_length (ip : BitVec 32) : (printV4 ip).length = 8 := Text.toHex_length (native ip).isLt

theorem printV4_ascii (ip : BitVec 32) : Ascii (printV4 ip) := fun c hc =>
  (Text.hexDigit_range (Text.mem_toHex hc)).2.trans_lt (by decide)

/-- A word of an address, read where it is. -/
theorem word_part {s : String} (h : Ascii s.toList) (before after : List Char)
    (hs : s.toList = before ++ (printV4 ip ++ after)) (hstart : before.length = start) :
    word s start (start + 8) = some (native ip) := by
  have hlen := congrArg List.length hs
  have hip := printV4_length ip
  simp only [List.length_append] at hlen
  rw [word_ascii h (Nat.le_add_right _ _) (by omega), hs, List.drop_left' hstart, Nat.add_sub_cancel_left,
    List.take_left' hip, printV4_value, Option.getD_some]

theorem isLoopback_v4 (ip : BitVec 32) : isLoopback (String.ofList (printV4 ip)) =
    some (Forward.isLoopback (.v4 ip)) := by
  have hascii : Ascii (String.ofList (printV4 ip)).toList := by
    rw [String.toList_ofList]
    exact printV4_ascii ip
  have hlen : len (String.ofList (printV4 ip)) = 8 := by
    rw [len, len_ascii hascii, String.toList_ofList, printV4_length]
  have hword : word (String.ofList (printV4 ip)) 0 8 = some (native ip) :=
    word_part hascii [] [] (by rw [String.toList_ofList, List.append_nil, List.nil_append]) rfl
  rw [isLoopback, hlen]
  simp only [hword, Option.map_some, isV4_native, Forward.isLoopback]

theorem printV6_eq (ip : BitVec 128) :
    printV6 ip = printV4 (part ip 96) ++ (printV4 (part ip 64) ++
      (printV4 (part ip 32) ++ printV4 (part ip 0))) := by
  simp [printV6]

theorem isLoopback_v6 (ip : BitVec 128) : isLoopback (String.ofList (printV6 ip)) =
    some (Forward.isLoopback (.v6 ip)) := by
  have hlist : (String.ofList (printV6 ip)).toList = printV6 ip := String.toList_ofList
  have hascii : Ascii (String.ofList (printV6 ip)).toList := by
    intro c hc
    rw [hlist] at hc
    obtain ⟨i, -, hc⟩ := List.mem_flatMap.mp hc
    exact printV4_ascii _ c hc
  have hlen : len (String.ofList (printV6 ip)) = 32 := by
    rw [len, len_ascii hascii, hlist, printV6_eq]
    simp only [List.length_append, printV4_length]
  have h96 : word (String.ofList (printV6 ip)) 0 8 = some (native (part ip 96)) :=
    word_part hascii [] _ (by rw [hlist, printV6_eq, List.nil_append]) rfl
  have h64 : word (String.ofList (printV6 ip)) 8 16 = some (native (part ip 64)) :=
    word_part hascii _ _ (by rw [hlist, printV6_eq]) (printV4_length _)
  have h32 : word (String.ofList (printV6 ip)) 16 24 = some (native (part ip 32)) :=
    word_part hascii _ _ (by rw [hlist, printV6_eq, ← List.append_assoc])
      (by simp only [List.length_append, printV4_length])
  have h0 : word (String.ofList (printV6 ip)) 24 32 = some (native (part ip 0)) := by
    refine word_part hascii (printV4 (part ip 96) ++ (printV4 (part ip 64) ++ printV4 (part ip 32))) [] ?_
      (by simp only [List.length_append, printV4_length])
    rw [hlist, printV6_eq]
    simp only [List.append_assoc, List.append_nil]
  rw [isLoopback, hlen]
  simp only [h96, h64, h32, h0, bind, Option.bind_some, native_zero, native_one, native_mapped, isV4_native]
  exact congrArg some (isLoopback_parts ip).symm

-- ---------------------------------------------------------------------------
-- One line
-- ---------------------------------------------------------------------------

/-- How the addresses of a family are printed, and that they are read back. -/
structure Family (w : Nat) where
  print : BitVec w → List Char
  ip : BitVec w → IpAddr
  solid : ∀ a, Text.Solid isWhitespace (print a)
  colon : ∀ a, ∀ c ∈ print a, c ≠ ':'
  read : ∀ a, isLoopback (String.ofList (print a)) = some (Forward.isLoopback (ip a))

theorem mem_printV6 (h : c ∈ printV6 ip) : ∃ a, c ∈ printV4 a := by
  obtain ⟨i, -, hc⟩ := List.mem_flatMap.mp h
  exact ⟨_, hc⟩

theorem printV4_ne_colon (h : c ∈ printV4 ip) : c ≠ ':' := by
  rintro rfl
  cases Text.mem_toHex h

def v4 : Family 32 where
  print := printV4
  ip := .v4
  solid _ := hex_solid true (by decide) _
  colon _ _ := printV4_ne_colon
  read := isLoopback_v4

def v6 : Family 128 where
  print := printV6
  ip := .v6
  solid a := by
    refine ⟨List.ne_nil_of_length_pos ?_, fun c hc => ?_⟩
    · rw [printV6_eq]
      simp only [List.length_append, printV4_length]
      decide
    · obtain ⟨b, hc⟩ := mem_printV6 hc
      exact isWhitespace_hex (Text.mem_toHex hc)
  colon _ _ h := by
    obtain ⟨b, hc⟩ := mem_printV6 h
    exact printV4_ne_colon hc
  read := isLoopback_v6

variable {f : Family w}

theorem columns_solid (f : Family w) (s : Entry w) : ∀ c ∈ s.columns f.print, Text.Solid isWhitespace c.2 := by
  have hlocal : Text.Solid isWhitespace (f.print s.ip ++ ':' :: Text.toHex true 4 s.port.toNat) := by
    refine ⟨by simp, fun c hc => ?_⟩
    rcases List.mem_append.mp hc with hc | hc
    · exact (f.solid _).2 c hc
    rcases List.mem_cons.mp hc with rfl | hc
    · decide
    · exact (hex_solid true (by decide) _).2 c hc
  intro c hc
  rcases List.mem_append.mp hc with hc | hc
  · simp only [List.mem_cons, List.not_mem_nil, or_false] at hc
    rcases hc with rfl | rfl | rfl | rfl | rfl | rfl | rfl | rfl | rfl
    · exact s.slot.solid
    · exact hlocal
    · exact s.remote.solid
    · exact hex_solid true (by decide) _
    · exact s.queues.solid
    · exact s.timer.solid
    · exact s.retransmits.solid
    · exact s.uid.solid
    · exact s.timeout.solid
  · obtain ⟨column, -, rfl⟩ := List.mem_map.mp hc
    exact column.solid

theorem words_filled {columns : List (Nat × List Char)} (h : ∀ c ∈ columns, Text.Solid isWhitespace c.2) :
    Text.words isWhitespace ([' '].intercalate (columns.map filled)) = columns.map (·.2) := by
  have hgap : ∀ c ∈ columns.map fun c => (padding c.1 c.2, c.2), ∀ x ∈ c.1, isWhitespace x = true := by
    intro c hc
    obtain ⟨column, -, rfl⟩ := List.mem_map.mp hc
    exact padding_whitespace
  have hsolid : ∀ c ∈ columns.map fun c => (padding c.1 c.2, c.2), Text.Solid isWhitespace c.2 := by
    intro c hc
    obtain ⟨column, hcolumn, rfl⟩ := List.mem_map.mp hc
    exact h column hcolumn
  have hwords := Text.words_intercalate_filled (by decide : isWhitespace ' ' = true) hgap hsolid
  simp only [List.map_map] at hwords
  exact hwords

theorem splitWhitespace_print (f : Family w) (width : Nat) (s : Entry w) :
    splitWhitespace (s.print f.print width) = (s.columns f.print).map fun c => String.ofList c.2 := by
  simp only [splitWhitespace, Entry.print, String.toList_ofList]
  rw [Text.words_append_gap _ padding_whitespace, words_filled (columns_solid f s), List.map_map]
  rfl

theorem state_listening (s : Entry w) : String.ofList (Text.toHex true 2 s.state.toNat) = "0A" ↔
    s.state = 0x0A := by
  have hten : "0A".toList = Text.toHex true 2 (0x0A : BitVec 8).toNat := by rfl
  rw [← String.toList_inj, String.toList_ofList, hten]
  exact ⟨fun h => BitVec.eq_of_toNat_eq (Text.toHex_inj h), fun h => h ▸ rfl⟩

/-- A listening socket that connections to loopback reach. -/
def Found (f : Family w) (s : Entry w) : Prop := s.state = 0x0A ∧ Forward.isLoopback (f.ip s.ip) = true

instance (f : Family w) (s : Entry w) : Decidable (Found f s) := inferInstanceAs (Decidable (_ ∧ _))

theorem scanLine_print (f : Family w) (width : Nat) (s : Entry w) (ports : List Port) :
    scanLine ports (s.print f.print width) = some (if Found f s then ports.insert s.port else ports) := by
  have hlocal : splitOnce (String.ofList (f.print s.ip ++ ':' :: Text.toHex true 4 s.port.toNat)) ':' =
      some (String.ofList (f.print s.ip), String.ofList (Text.toHex true 4 s.port.toNat)) :=
    splitOnce_of_toList (by simp only [String.toList_ofList]) fun c hc =>
      f.colon s.ip c (by rwa [String.toList_ofList] at hc)
  have hport : Text.fromHex 16 (String.ofList (Text.toHex true 4 s.port.toNat)).toList = some s.port := by
    rw [String.toList_ofList, Text.fromHex_word true (by decide)]
  simp only [scanLine, splitWhitespace_print f width s, Entry.columns, List.map_cons, List.cons_append,
    List.nil_append, List.drop_succ_cons, List.drop_zero, List.getElem?_cons_zero, List.getElem?_cons_succ,
    Option.bind_some, hlocal, f.read, hport, Option.map_some, ne_eq, Option.some.injEq, state_listening]
  split
  next hother => rw [if_neg fun hfound => hother hfound.1]
  next hstate =>
    cases hreach : Forward.isLoopback (f.ip s.ip) with
    | false =>
      have hnot : ¬ Found f s := fun hfound => by cases hreach.symm.trans hfound.2
      simp [hnot]
    | true =>
      have hfound : Found f s := ⟨not_not.mp hstate, hreach⟩
      simp [hfound]

-- ---------------------------------------------------------------------------
-- Whole tables
-- ---------------------------------------------------------------------------

theorem scan_print (f : Family w) (width : Nat) (rows : List (Entry w)) {ports : List Port}
    (hnodup : ports.Nodup) :
    ∃ ports', (rows.map (·.print f.print width)).foldlM scanLine ports = some ports' ∧ ports'.Nodup ∧
      ∀ port, port ∈ ports' ↔ port ∈ ports ∨ ∃ s ∈ rows, Found f s ∧ s.port = port := by
  induction rows generalizing ports with
  | nil => exact ⟨ports, rfl, hnodup, by simp⟩
  | cons s rows ih =>
    rw [List.map_cons, List.foldlM_cons, scanLine_print]
    by_cases hfound : Found f s
    · rw [if_pos hfound]
      obtain ⟨ports', hscan, hnodup', hmem⟩ := ih (List.Nodup.insert hnodup (a := s.port))
      refine ⟨ports', hscan, hnodup', fun port => (hmem port).trans ?_⟩
      simp only [List.mem_insert_iff, List.mem_cons, exists_eq_or_imp, hfound, true_and]
      rw [eq_comm, or_assoc, or_left_comm]
    · rw [if_neg hfound]
      obtain ⟨ports', hscan, hnodup', hmem⟩ := ih hnodup
      refine ⟨ports', hscan, hnodup', fun port => (hmem port).trans ?_⟩
      simp only [List.mem_cons, exists_eq_or_imp, hfound, false_and, false_or]

theorem print_oneLine (f : Family w) (width : Nat) (s : Entry w) :
    Text.OneLine (s.print f.print width).toList := by
  refine oneLine_of_columns fun c hc => .inr ?_
  simp only [Entry.print, String.toList_ofList] at hc
  rcases List.mem_append.mp hc with hc | hc
  · rcases Text.mem_intercalate hc with hc | ⟨_, hfilled, hc⟩
    · exact .inl hc
    obtain ⟨column, hcolumn, rfl⟩ := List.mem_map.mp hfilled
    rcases List.mem_append.mp hc with hc | hc
    · exact .inl (List.eq_of_mem_replicate hc)
    · exact .inr ((columns_solid f s column hcolumn).2 c hc)
  · exact .inl (List.eq_of_mem_replicate hc)

theorem lines_print (f : Family w) (width : Nat) (rows : List (Entry w)) (header : Header) :
    (lines (closed (header.text :: rows.map (·.print f.print width)))).drop 1 =
    rows.map (·.print f.print width) := by
  have hall : ∀ line ∈ header.text :: rows.map (·.print f.print width), Text.OneLine line.toList := by
    rw [List.forall_mem_cons]
    refine ⟨header.oneLine, fun line hline => ?_⟩
    obtain ⟨s, -, rfl⟩ := List.mem_map.mp hline
    exact print_oneLine f width s
  rw [lines_closed hall, List.drop_one, List.tail_cons]

theorem listeningPorts_both {netDir : String → Option String} (h4 : netDir "tcp" = some tcp)
    (h6 : netDir "tcp6" = some tcp6) : listeningPorts netDir =
      (((lines tcp).drop 1).foldlM scanLine []).bind fun ports =>
      ((lines tcp6).drop 1).foldlM scanLine ports := by
  simp [listeningPorts, h4, h6]

/-- The scan finds the ports of the listening sockets that a connection to
loopback reaches, no other and none twice, and no text of ASCII makes it panic. -/
theorem scan_finds_listeners :
    (∀ (header header6 : Header) (tcp : List (Entry 32)) (tcp6 : List (Entry 128)), ∃ ports,
      listeningPorts (printed header header6 tcp tcp6) = some ports ∧ ports.Nodup ∧ ∀ port, port ∈ ports ↔
        (∃ s ∈ tcp, (s.state = 0x0A ∧ Forward.isLoopback (.v4 s.ip) = true) ∧ s.port = port) ∨
          ∃ s ∈ tcp6, (s.state = 0x0A ∧ Forward.isLoopback (.v6 s.ip) = true) ∧ s.port = port) ∧
    ∀ netDir : String → Option String, (∀ family table, netDir family = some table → Ascii table.toList) →
      (listeningPorts netDir).isSome = true := by
  refine ⟨fun header header6 tcp tcp6 => ?_, fun netDir h => listeningPorts_isSome h⟩
  obtain ⟨ports, hscan, hnodup, hmem⟩ := scan_print v4 149 tcp List.nodup_nil
  obtain ⟨ports', hscan', hnodup', hmem'⟩ := scan_print v6 0 tcp6 hnodup
  refine ⟨ports', ?_, hnodup', fun port => ?_⟩
  · have h4 : (lines (closed (header.text :: tcp.map (·.print printV4 149)))).drop 1 = _ :=
      lines_print v4 149 tcp header
    have h6 : (lines (closed (header6.text :: tcp6.map (·.print printV6 0)))).drop 1 = _ :=
      lines_print v6 0 tcp6 header6
    have hfile4 : printed header header6 tcp tcp6 "tcp" =
        some (closed (header.text :: tcp.map (·.print printV4 149))) := rfl
    have hfile6 : printed header header6 tcp tcp6 "tcp6" =
        some (closed (header6.text :: tcp6.map (·.print printV6 0))) := rfl
    rw [listeningPorts_both hfile4 hfile6, h4, h6, hscan, Option.bind_some, hscan']
  · rw [hmem', hmem, or_iff_right (List.not_mem_nil)]
    rfl

theorem solid_zero : Text.Solid isWhitespace "0".toList := by decide

theorem solid_hundred : Text.Solid isWhitespace "100".toList := by decide

def web : Entry 32 where
  slot := ⟨"0:", by decide⟩
  ip := 0x7F000001
  port := 8080
  remote := ⟨"00000000:0000", by decide⟩
  state := 0x0A
  queues := ⟨"00000000:00000000", by decide⟩
  timer := ⟨"00:00000000", by decide⟩
  retransmits := ⟨"00000000", by decide⟩
  uid := ⟨"0", solid_zero⟩
  timeout := ⟨"0", solid_zero⟩
  rest := [⟨"2679", by decide⟩, ⟨"1", by decide⟩, ⟨"0000000000000000", by decide⟩, ⟨"100", solid_hundred⟩,
    ⟨"0", solid_zero⟩, ⟨"0", solid_zero⟩, ⟨"10", by decide⟩, ⟨"0", solid_zero⟩]

def webLine : String :=
  "   0: 0100007F:1F90 00000000:0000 0A 00000000:00000000 00:00000000 00000000     0        0 2679 1 " ++
    "0000000000000000 100 0 0 10 0                      "

def header : Header :=
  ⟨"  sl  local_address rem_address   st tx_queue rx_queue tr tm->when retrnsmt   uid  timeout inode",
    ⟨by decide, by decide⟩⟩

theorem scan_finds_listeners_web : web.print printV4 149 = webLine ∧
    ∃ ports, listeningPorts (printed header header [web] []) = some ports ∧ 8080 ∈ ports := by
  obtain ⟨ports, hscan, -, hmem⟩ := scan_finds_listeners.1 header header [web] []
  exact ⟨by decide +kernel, ports, hscan, (hmem 8080).mpr (.inl ⟨web, by simp, ⟨rfl, by decide⟩, rfl⟩)⟩

end Climate.PortScan
