import Climate.Config
import Climate.Spec.Mounts
import Mathlib.Data.Rat.Floor

/-!
# Resource limits

The functions of spec.rs that turn a definition's limits into the runtime
specification's. Numbers are the values they stand for, and those the source
keeps in an `i64` are refused or cut off where they do not fit in one.
-/

namespace Climate

/-- The window a CPU quota is measured over, in microseconds. -/
def cpuPeriod : Int := 100000

def cpuSharesMin : Int64 := 2

def cpuSharesMax : Int64 := 262144

def i64Min : Int := -2 ^ 63

def i64Max : Int := 2 ^ 63 - 1

def fitsI64 (n : Int) : Bool := i64Min ≤ n && n ≤ i64Max

/-- A float cast to `i64`: what does not fit is cut off. -/
def saturate (n : Int) : Int := max i64Min (min n i64Max)

/-- Rounding half away from zero. -/
def roundAway (q : Rat) : Int := if 0 ≤ q then (q + 1 / 2).floor else (q - 1 / 2).ceil

def digitsValue (digits : List Char) : Nat := digits.foldl (fun n c => 10 * n + (c.toNat - '0'.toNat)) 0

/-- `str::parse::<i64>`: an optional sign and one or more digits. -/
def parseI64 (text : List Char) : Option Int :=
  let (negative, digits) := match text with
    | '-' :: digits => (true, digits)
    | '+' :: digits => (false, digits)
    | digits => (false, digits)
  let n : Int := if negative then -digitsValue digits else digitsValue digits
  if digits ≠ [] ∧ digits.all Char.isDigit ∧ fitsI64 n then some n else none

def unitMultiplier (unit : String) : Option Int :=
  if unit ∈ ["", "b"] then some 1
  else if unit ∈ ["k", "kb", "kib"] then some 1024
  else if unit ∈ ["m", "mb", "mib"] then some (1024 * 1024)
  else if unit ∈ ["g", "gb", "gib"] then some (1024 * 1024 * 1024)
  else if unit ∈ ["t", "tb", "tib"] then some (1024 * 1024 * 1024 * 1024)
  else none

/-- The number ends where only letters follow. -/
def parseMemory (key value : String) : Except String Int := do
  let digits := (value.toList.reverse.dropWhile Char.isAlpha).reverse
  let amount ← orNone s!"{key} limit '{value}' is not a whole number of bytes" (parseI64 digits)
  if amount < 0 then .error s!"{key} limit '{value}' must not be negative"
  let unit := String.ofList ((value.toList.drop digits.length).map Char.toLower)
  let multiplier ← orNone s!"{key} limit '{value}': '{unit}' is not a known unit (b, k, m, g, t)"
    (unitMultiplier unit)
  if fitsI64 (amount * multiplier) then .ok (amount * multiplier)
  else .error s!"{key} limit '{value}' is too large"

def parseSize (key value : String) : Except String Int := do
  let size ← parseMemory key value
  if size = 0 then .error s!"{key} limit '{value}' must be greater than zero"
  return size

structure LinuxMemory where
  limit : Int
  swap : Option Int := none
  deriving DecidableEq, Repr

structure LinuxCpu where
  quota : Option Int := none
  period : Option Int := none
  shares : Option Int := none
  deriving DecidableEq, Repr

structure LinuxResources where
  memory : Option LinuxMemory := none
  unified : List (String × String) := []
  cpu : Option LinuxCpu := none
  pids : Option Int := none
  deriving DecidableEq, Repr

/-- Swap is stated on its own, where the specification adds it to memory. -/
def memoryLimit (limits : LimitsConfig) : Except String (Option LinuxMemory) := do
  let memory ← limits.memory.mapM (parseSize "memory")
  match memory, limits.swap with
  | some memory, some swap => do
    let swap ← parseMemory "swap" swap
    if fitsI64 (memory + swap) then .ok (some { limit := memory, swap := some (memory + swap) })
    else .error "the memory and swap limits added together are too large"
  | some memory, none => .ok (some { limit := memory })
  | none, some swap => .error s!"swap limit '{swap}' needs a memory limit to sit on top of"
  | none, none => .ok none

def memoryHigh (limits : LimitsConfig) (memory : Option LinuxMemory) :
    Except String (List (String × String)) :=
  match limits.memoryHigh with
  | none => .ok []
  | some value => do
    let high ← parseSize "memory-high" value
    if memory.any fun memory => memory.limit ≤ high then
      .error s!"memory-high '{value}' must be below the memory limit to have any effect"
    return [("memory.high", toString high)]

def cpuQuota : Toml.Number → Except String Int
  | .nan => .error "cpu limit NaN must be greater than zero"
  | .inf true => .error "cpu limit -inf must be greater than zero"
  | .inf false => .ok i64Max
  | .value cpu =>
    if cpu ≤ 0 then .error s!"cpu limit {cpu} must be greater than zero"
    else .ok (saturate (roundAway (cpu * cpuPeriod)))

def cpuShares (shares : Int64) : Except String Int :=
  if cpuSharesMin ≤ shares ∧ shares ≤ cpuSharesMax then .ok shares.toInt
  else .error s!"cpu-shares {shares} must be between {cpuSharesMin} and {cpuSharesMax}"

def cpuLimit (limits : LimitsConfig) : Except String (Option LinuxCpu) :=
  if limits.cpu.isNone ∧ limits.cpuShares.isNone then .ok none
  else do
    let quota ← limits.cpu.mapM cpuQuota
    let shares ← limits.cpuShares.mapM cpuShares
    return some { quota, period := quota.map fun _ => cpuPeriod, shares }

def pidsLimit (pids : Int64) : Except String Int :=
  if pids ≤ 0 then .error s!"pids limit {pids} must be greater than zero" else .ok pids.toInt

/-- None when the app sets no limits. -/
def resources (limits : LimitsConfig) : Except String (Option LinuxResources) :=
  if limits = {} then .ok none
  else do
    let memory ← memoryLimit limits
    let unified ← memoryHigh limits memory
    let cpu ← cpuLimit limits
    let pids ← limits.pids.mapM pidsLimit
    return some { memory, unified, cpu, pids }

end Climate
