import Climate.Lib.ByteOrder
import Climate.Lib.Text
import Climate.Net.Localnet
import Climate.Store.Digest

/-!
# The host's routing table

The part of localnet.rs that reads /proc/net/route and /proc/net/ipv6_route,
and the lines the kernel prints there.
-/

namespace Climate

/-- `str::split_whitespace`. -/
def splitWhitespace (line : String) : List String := (Text.words isWhitespace line.toList).map String.ofList

/-- `str::lines`. -/
def lines (text : String) : List String := (Text.lines text.toList).map String.ofList

def rtfUp : BitVec 32 := 0x1

def rtfGateway : BitVec 32 := 0x2

def rtfReject : BitVec 32 := 0x200

def hex32 (field : String) : Option (BitVec 32) := Text.fromHex 32 field.toList

/-- `u32::count_ones`. -/
def countOnes (w : BitVec 32) : Nat := (List.range 32).countP w.getLsbD

/-- The bytes of the word are those of the address. -/
def v4Address (e : Endian) (field : String) : Option IpAddr :=
  (hex32 field).map fun w => .v4 (e.bytes w).toWord

def v4Route (e : Endian) (line : String) : Option Route := do
  let fields := splitWhitespace line
  let flags ← hex32 (← fields[3]?)
  if flags &&& rtfUp = 0 then none
  else
    let net ← v4Address e (← fields[1]?)
    let mask ← hex32 (← fields[7]?)
    -- A gateway that cannot be read counts as none.
    let gateway ← if flags &&& rtfGateway ≠ 0 then (fields[2]?).map (v4Address e) else some none
    let device ← fields[0]?
    some { net, prefixLen := countOnes mask, gateway, reject := flags &&& rtfReject ≠ 0, device }

def v6Address (field : String) : Option IpAddr := (Text.fromHex 128 field.toList).map .v6

def v6Route (line : String) : Option Route := do
  let fields := splitWhitespace line
  let flags ← hex32 (← fields[8]?)
  if flags &&& rtfUp = 0 then none
  else
    let net ← v6Address (← fields[0]?)
    let len ← hex32 (← fields[1]?)
    let gateway ← if flags &&& rtfGateway ≠ 0 then (fields[4]?).map v6Address else some none
    let device ← fields[9]?
    some { net, prefixLen := len.toNat, gateway, reject := flags &&& rtfReject ≠ 0, device }

/-- Only the table of IPv4 has a header. -/
def routes (e : Endian) (v4 v6 : String) : List Route :=
  ((lines v4).drop 1).filterMap (v4Route e) ++ (lines v6).filterMap v6Route

-- ---------------------------------------------------------------------------
-- What the kernel prints
-- ---------------------------------------------------------------------------

/-- A column of a table, such as the name of a device. -/
structure Column where
  text : String
  solid : Text.Solid isWhitespace text.toList

structure Ipv4Entry where
  device : Column
  net : BitVec 32
  gateway : BitVec 32
  flags : BitVec 32
  refcnt : Column
  use : Column
  metric : Column
  maskLen : Nat
  maskLen_le : maskLen ≤ 32
  mtu : Column
  window : Column
  irtt : Column

namespace Ipv4Entry

def mask (r : Ipv4Entry) : BitVec 32 := BitVec.allOnes 32 <<< (32 - r.maskLen)

def isUp (r : Ipv4Entry) : Bool := r.flags &&& rtfUp ≠ 0

def route (r : Ipv4Entry) : Route where
  net := .v4 r.net
  prefixLen := r.maskLen
  gateway := if r.flags &&& rtfGateway ≠ 0 then some (.v4 r.gateway) else none
  reject := r.flags &&& rtfReject ≠ 0
  device := r.device.text

end Ipv4Entry

/-- A word that is in memory as the address is sent. -/
def printWord (e : Endian) (ip : BitVec 32) : List Char := Text.toHex true 8 (e.word (.ofWord ip)).toNat

def padding (width : Nat) (l : List Char) : List Char := List.replicate (width - l.length) ' '

def Ipv4Entry.columns (e : Endian) (r : Ipv4Entry) : List (List Char) :=
  [r.device.text.toList, printWord e r.net, printWord e r.gateway, Text.toHex true 4 r.flags.toNat,
    r.refcnt.text.toList, r.use.text.toList, r.metric.text.toList, printWord e r.mask, r.mtu.text.toList,
    r.window.text.toList, r.irtt.text.toList]

/-- The columns of a line are separated by tabs, and the line is filled up. -/
def Ipv4Entry.print (e : Endian) (r : Ipv4Entry) : String :=
  let columns := ['\t'].intercalate (r.columns e)
  String.ofList (columns ++ padding 127 columns)

structure Ipv6Entry where
  net : BitVec 128
  prefixLen : Nat
  prefixLen_le : prefixLen ≤ 128
  source : Column
  sourceLen : Column
  gateway : BitVec 128
  metric : Column
  refcnt : Column
  use : Column
  flags : BitVec 32
  device : Column

namespace Ipv6Entry

def isUp (r : Ipv6Entry) : Bool := r.flags &&& rtfUp ≠ 0

def route (r : Ipv6Entry) : Route where
  net := .v6 r.net
  prefixLen := r.prefixLen
  gateway := if r.flags &&& rtfGateway ≠ 0 then some (.v6 r.gateway) else none
  reject := r.flags &&& rtfReject ≠ 0
  device := r.device.text

def columns (r : Ipv6Entry) : List (List Char) :=
  [Text.toHex false 32 r.net.toNat, Text.toHex false 2 r.prefixLen, r.source.text.toList, r.sourceLen.text.toList,
    Text.toHex false 32 r.gateway.toNat, r.metric.text.toList, r.refcnt.text.toList, r.use.text.toList,
    Text.toHex false 8 r.flags.toNat]

/-- Spaces separate the columns, the last of which is filled up in front. -/
def print (r : Ipv6Entry) : String :=
  let device := r.device.text.toList
  String.ofList ([' '].intercalate r.columns ++ ' ' :: padding 8 device ++ device)

end Ipv6Entry

def closed (ls : List String) : String := String.ofList (ls.flatMap fun line => line.toList ++ ['\n'])

/-- The line above a table. -/
structure Header where
  text : String
  oneLine : Text.OneLine text.toList

-- ---------------------------------------------------------------------------
-- Columns
-- ---------------------------------------------------------------------------

theorem isWhitespace_hex (h : (Text.hexDigit c).isSome = true) : isWhitespace c = false := by
  have hrange := Text.hexDigit_range h
  simp only [isWhitespace]
  simp
  omega

theorem hex_solid (upper : Bool) (hwidth : 0 < width) (n : Nat) :
    Text.Solid isWhitespace (Text.toHex upper width n) :=
  Text.toHex_solid (fun _ => isWhitespace_hex) hwidth

theorem padding_whitespace : ∀ c ∈ padding width l, isWhitespace c = true := by
  intro c hc
  rw [List.eq_of_mem_replicate hc]
  decide

namespace Ipv4Entry

theorem columns_solid (e : Endian) (r : Ipv4Entry) : ∀ w ∈ r.columns e, Text.Solid isWhitespace w := by
  have hword : ∀ w, Text.Solid isWhitespace (printWord e w) := fun w => hex_solid true (by decide) _
  simp only [columns, List.forall_mem_cons]
  exact ⟨r.device.solid, hword _, hword _, hex_solid true (by decide) _, r.refcnt.solid, r.use.solid,
    r.metric.solid,
    hword _, r.mtu.solid, r.window.solid, r.irtt.solid, nofun⟩

theorem splitWhitespace_print (e : Endian) (r : Ipv4Entry) :
    splitWhitespace (r.print e) = (r.columns e).map String.ofList := by
  simp only [splitWhitespace, print, String.toList_ofList]
  rw [Text.words_append_gap _ padding_whitespace, Text.words_intercalate (by decide) (r.columns_solid e)]

end Ipv4Entry

namespace Ipv6Entry

theorem columns_solid (r : Ipv6Entry) : ∀ w ∈ r.columns, Text.Solid isWhitespace w := by
  simp only [columns, List.forall_mem_cons]
  exact ⟨hex_solid false (by decide) _, hex_solid false (by decide) _, r.source.solid, r.sourceLen.solid,
    hex_solid false (by decide) _, r.metric.solid, r.refcnt.solid, r.use.solid,
      hex_solid false (by decide) _, nofun⟩

theorem splitWhitespace_print (r : Ipv6Entry) :
    splitWhitespace r.print = (r.columns ++ [r.device.text.toList]).map String.ofList := by
  simp only [splitWhitespace, print, String.toList_ofList]
  rw [List.append_assoc, List.cons_append, Text.words_append_cons _ _ (by decide),
    Text.words_intercalate (by decide) r.columns_solid,
    Text.words_gap_append padding_whitespace, Text.words_solid r.device.solid]

end Ipv6Entry

-- ---------------------------------------------------------------------------
-- One line
-- ---------------------------------------------------------------------------

theorem hex32_print (upper : Bool) (hwidth : 0 < width) (w : BitVec 32) :
    hex32 (String.ofList (Text.toHex upper width w.toNat)) = some w := by
  rw [hex32, String.toList_ofList, Text.fromHex_word upper hwidth]

theorem v4Address_print (e : Endian) (ip : BitVec 32) :
    v4Address e (String.ofList (printWord e ip)) = some (.v4 ip) := by
  rw [v4Address, printWord, hex32_print true (by decide), Option.map_some, Endian.bytes_word,
    Octets.toWord_ofWord]

/-- The bits of a mask may be counted in any byte order. -/
theorem countOnes_mask (e : Endian) (r : Ipv4Entry) : countOnes (e.word (.ofWord r.mask)) = r.maskLen := by
  have hall : ∀ e, ∀ len : Fin 33,
      countOnes (Endian.word e (.ofWord (BitVec.allOnes 32 <<< (32 - len.1)))) = len.1 := by
    intro e
    cases e <;> decide
  exact hall e ⟨r.maskLen, by have := r.maskLen_le; omega⟩

theorem v4Route_print (e : Endian) (r : Ipv4Entry) :
    v4Route e (r.print e) = if r.isUp then some r.route else none := by
  have hflags : hex32 (String.ofList (Text.toHex true 4 r.flags.toNat)) = some r.flags :=
    hex32_print true (by decide) _
  have hmask : hex32 (String.ofList (printWord e r.mask)) = some (e.word (.ofWord r.mask)) :=
    hex32_print true (by decide) _
  simp only [v4Route, r.splitWhitespace_print e, Ipv4Entry.columns, List.map_cons, List.map_nil,
    List.getElem?_cons_zero, List.getElem?_cons_succ, bind, Option.bind_some, hflags, hmask, v4Address_print,
    countOnes_mask, Option.map_some, String.ofList_toList]
  split
  next hdown => rw [if_neg (by simp [Ipv4Entry.isUp, hdown])]
  next hup =>
    have hup : r.isUp = true := decide_eq_true hup
    rw [if_pos hup, Ipv4Entry.route]
    split <;> rfl

theorem v6Address_print (ip : BitVec 128) : v6Address (String.ofList (Text.toHex false 32 ip.toNat)) =
    some (.v6 ip) := by
  rw [v6Address, String.toList_ofList, Text.fromHex_word false (by decide), Option.map_some]

theorem v6Route_print (r : Ipv6Entry) :
    v6Route r.print = if r.isUp then some r.route else none := by
  have hflags : hex32 (String.ofList (Text.toHex false 8 r.flags.toNat)) = some r.flags :=
    hex32_print false (by decide) _
  have hlen : hex32 (String.ofList (Text.toHex false 2 r.prefixLen)) = some (BitVec.ofNat 32 r.prefixLen) := by
    rw [hex32, String.toList_ofList, Text.fromHex_toHex false (by decide) (r.prefixLen_le.trans_lt (by decide))]
  have hnat : (BitVec.ofNat 32 r.prefixLen).toNat = r.prefixLen :=
    Nat.mod_eq_of_lt (r.prefixLen_le.trans_lt (by decide))
  simp only [v6Route, r.splitWhitespace_print, Ipv6Entry.columns, List.map_cons, List.map_nil, List.cons_append,
    List.nil_append, List.getElem?_cons_zero, List.getElem?_cons_succ, bind, Option.bind_some, hflags, hlen,
    v6Address_print, hnat, Option.map_some, String.ofList_toList]
  split
  next hdown => rw [if_neg (by simp [Ipv6Entry.isUp, hdown])]
  next hup =>
    have hup : r.isUp = true := decide_eq_true hup
    rw [if_pos hup, Ipv6Entry.route]
    split <;> rfl

-- ---------------------------------------------------------------------------
-- Whole tables
-- ---------------------------------------------------------------------------

theorem oneLine_of_columns {line : List Char} (h : ∀ c ∈ line, c = '\t' ∨ c = ' ' ∨ isWhitespace c = false) :
    Text.OneLine line := by
  refine ⟨fun hmem => ?_, fun hmem => ?_⟩
  · rcases h _ hmem with hc | hc | hc <;> revert hc <;> decide
  · rcases h _ hmem with hc | hc | hc <;> revert hc <;> decide

theorem Ipv4Entry.print_oneLine (e : Endian) (r : Ipv4Entry) : Text.OneLine (r.print e).toList := by
  refine oneLine_of_columns fun c hc => ?_
  simp only [print, String.toList_ofList] at hc
  rcases List.mem_append.mp hc with hc | hc
  · rcases Text.mem_intercalate hc with hc | ⟨w, hw, hc⟩
    · exact .inl hc
    · exact .inr (.inr ((r.columns_solid e w hw).2 c hc))
  · exact .inr (.inl (List.eq_of_mem_replicate hc))

theorem Ipv6Entry.print_oneLine (r : Ipv6Entry) : Text.OneLine r.print.toList := by
  refine oneLine_of_columns fun c hc => .inr ?_
  simp only [print, String.toList_ofList, List.append_assoc, List.cons_append] at hc
  rcases List.mem_append.mp hc with hc | hc
  · rcases Text.mem_intercalate hc with hc | ⟨w, hw, hc⟩
    · exact .inl hc
    · exact .inr ((r.columns_solid w hw).2 c hc)
  rcases List.mem_cons.mp hc with hc | hc
  · exact .inl hc
  rcases List.mem_append.mp hc with hc | hc
  · exact .inl (List.eq_of_mem_replicate hc)
  · exact .inr (r.device.solid.2 c hc)

theorem lines_closed {ls : List String} (h : ∀ line ∈ ls, Text.OneLine line.toList) : lines (closed ls) = ls := by
  have hmap : (ls.flatMap fun line => line.toList ++ ['\n']) = (ls.map String.toList).flatMap (· ++ ['\n']) := by
    rw [List.flatMap_map]
  rw [lines, closed, String.toList_ofList, hmap, Text.lines_closed (by simpa using h), List.map_map]
  simp [Function.comp_def]

theorem filterMap_printed {parse : String → Option Route} {print : β → String} {isUp : β → Bool}
    {route : β → Route}
    (h : ∀ r, parse (print r) = if isUp r then some (route r) else none) (rows : List β) :
    (rows.map print).filterMap parse = (rows.filter isUp).map route := by
  induction rows with
  | nil => rfl
  | cons r rows ih =>
    rw [List.map_cons, List.filterMap_cons, h r, List.filter_cons]
    cases isUp r with
    | true => simp [ih]
    | false => simpa using ih

theorem routes_print (e : Endian) (header : Header) (rows4 : List Ipv4Entry) (rows6 : List Ipv6Entry) :
    routes e (closed (header.text :: rows4.map (·.print e))) (closed (rows6.map (·.print))) =
      (rows4.filter (·.isUp)).map (·.route) ++ (rows6.filter (·.isUp)).map (·.route) := by
  have h4 : ∀ line ∈ header.text :: rows4.map (·.print e), Text.OneLine line.toList := by
    rw [List.forall_mem_cons]
    refine ⟨header.oneLine, fun line hline => ?_⟩
    obtain ⟨r, -, rfl⟩ := List.mem_map.mp hline
    exact r.print_oneLine e
  have h6 : ∀ line ∈ rows6.map (·.print), Text.OneLine line.toList := fun line hline => by
    obtain ⟨r, -, rfl⟩ := List.mem_map.mp hline
    exact r.print_oneLine
  rw [routes, lines_closed h4, lines_closed h6, List.drop_one, List.tail_cons,
    filterMap_printed (v4Route_print e),
    filterMap_printed v6Route_print]

-- ---------------------------------------------------------------------------
-- What a route stands for
-- ---------------------------------------------------------------------------

/-- A route as the kernel means it, with the addresses it is for. -/
structure Route.Meant (r : Route) : Prop where
  noUnderflow : r.prefixLen ≤ r.net.width
  contains : ∀ ip, r.contains ip = true ↔ r.Matches ip
  everything : r.prefixLen = 0 → ∀ ip, r.contains ip = true ↔ ip.width = r.net.width

theorem Route.meant {r : Route} (h : r.prefixLen ≤ r.net.width) : r.Meant := by
  refine ⟨h, fun ip => contains_iff h, fun hzero ip => (contains_iff h).trans ?_⟩
  obtain ⟨net, len, gateway, reject, device⟩ := r
  cases hzero
  cases net <;> cases ip <;> simp [Matches, AgreeOn, IpAddr.width]

/-- Every route the kernel prints is read as what it is, unless it is not up. -/
theorem routes_are_read (e : Endian) :
    (∀ r : Ipv4Entry, (v4Route e (r.print e) = none ↔ r.isUp = false) ∧
      (r.isUp = true → v4Route e (r.print e) = some r.route) ∧ r.route.Meant) ∧
    (∀ r : Ipv6Entry, (v6Route r.print = none ↔ r.isUp = false) ∧
      (r.isUp = true → v6Route r.print = some r.route) ∧ r.route.Meant) ∧
    ∀ (header : Header) (rows4 : List Ipv4Entry) (rows6 : List Ipv6Entry),
    routes e (closed (header.text :: rows4.map (·.print e))) (closed (rows6.map (·.print))) =
      (rows4.filter (·.isUp)).map (·.route) ++ (rows6.filter (·.isUp)).map (·.route) := by
  refine ⟨fun r => ?_, fun r => ?_, routes_print e⟩
  · rw [v4Route_print]
    exact ⟨by cases r.isUp <;> simp, fun hup => if_pos hup, Route.meant r.maskLen_le⟩
  · rw [v6Route_print]
    exact ⟨by cases r.isUp <;> simp, fun hup => if_pos hup, Route.meant r.prefixLen_le⟩

/-- The network of `homeRoutes`. -/
def homeEntry : Ipv4Entry where
  device := ⟨"eth0", by decide⟩
  net := 0xC0A80000#32
  gateway := 0
  flags := 0x1
  refcnt := ⟨"0", by decide⟩
  use := ⟨"0", by decide⟩
  metric := ⟨"100", by decide⟩
  maskLen := 24
  maskLen_le := by decide
  mtu := ⟨"0", by decide⟩
  window := ⟨"0", by decide⟩
  irtt := ⟨"0", by decide⟩

theorem routes_are_read_home :
    v4Route .little (homeEntry.print .little) =
    some { net := .v4 0xC0A80000#32, prefixLen := 24, device := "eth0" } :=
  ((routes_are_read .little).1 homeEntry).2.1 rfl

end Climate
