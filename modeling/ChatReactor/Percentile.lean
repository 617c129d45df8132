import ChatReactor.LoggingProofs
import ChatReactor.Lib.NearestRank
import ChatReactor.Lib.RunLength

/-!
# `Percentile` (`excercises/sudoku/percentile.h`)

| here | there |
| --- | --- |
| `insertFmt` | `operator<<` of a `Fmt`, whose constructor asserts that the text fits its 32 bytes |
| `summary` | the values that the constructor computes from the sorted latencies (`:13-19`) |
| `Percentile.new` | the constructor: `stat`, and the latencies as it leaves them (`:6-28`) |
| `getPercentile` | the nearest rank, in `size_t` (`:80-91`) |
| `PercentText` | `%5.2f` and `%5.1f` of `100 * sum / total`, a `double` |
| `saveLoop`, `saveLast` | the loop over the samples and the last bucket (`:57-75`) |
| `save` | what `save` appends to the file, call by call; the file is not opened for no samples (`:35-76`) |

An `int` is an `Int32`, and what is computed with it an `Int` that `CheckedInt` checks: `none` is an overflow, a division by
zero, a failed assertion or an access behind the end.
-/

namespace ChatReactor

open CheckedInt Decimal

/-- `stream << Fmt(…)` for the text that `snprintf` makes. -/
def LogStream.insertFmt (s : LogStream) (text : List UInt8) : Option LogStream := do
  check (text.length < 32)
  s.append text (Int32.ofNat text.length)

namespace Percentile

/-- The index, in 64 bits without sign. -/
def index (size : Nat) (percent : Int) : Nat :=
  ((size * percent.toNat + 99) % 2 ^ 64 / 100 + (2 ^ 64 - 1)) % 2 ^ 64

def getPercentile (latencies : List Int32) (percent : Int) : Option Int32 := do
  check (latencies.length > 0)
  let idx ← (if percent > 0 then do
      check (index latencies.length percent < latencies.length)
      return index latencies.length percent
    else some 0)
  latencies[idx]?

/-- `std::accumulate(…, 0)` -/
def accumulate (latencies : List Int32) : Option Int := latencies.foldlM (fun sum x => add sum x.toInt) 0

structure Summary where
  min : Int32
  max : Int32
  mean : Int32
  median : Int32
  p90 : Int32
  p99 : Int32
  deriving DecidableEq, Repr

def summary (latencies : List Int32) : Option Summary := do
  let min ← latencies.head?
  let max ← latencies.getLast?
  let sum ← accumulate latencies
  let mean ← div sum (toInt latencies.length)
  let median ← getPercentile latencies 50
  let p90 ← getPercentile latencies 90
  let p99 ← getPercentile latencies 99
  return ⟨min, max, Int32.ofInt mean, median, p90, p99⟩

/-- A string literal. -/
def literal {F D : Type} (str : String) : Item F D := .charPtr (some (bytesOf str))

/-- `%6zd`, which reads a size as a signed number -/
def sizeText (size : Nat) : List UInt8 := padded 6 ((size : Int).bmod (2 ^ 64))

/-- What is inserted for some latencies. -/
def Summary.items {F D : Type} (s : Summary) : List (Item F D) :=
  [literal " min ", .int s.min, literal " max ", .int s.max, literal " avg ", .int s.mean, literal " median ", .int s.median,
    literal " p90 ", .int s.p90, literal " p99 ", .int s.p99]

def new {F D : Type} (pf : Printf F D) (data : Fin kSmallBuffer → UInt8) (latencies : List Int32) (infly : Int32) :
    Option (LogStream × List Int32) := do
  let stat ← (LogStream.new data).shl pf (literal "recv ")
  let stat ← stat.insertFmt (sizeText latencies.length)
  let stat ← stat.insertAll pf [literal " in-fly ", .int infly]
  if latencies = [] then return (stat, latencies)
  else
    let latencies := latencies.mergeSort (fun a b => decide (a ≤ b))
    let s ← summary latencies
    let stat ← stat.insertAll pf s.items
    return (stat, latencies)

/-! ## `save` -/

/-- The texts for a dividend and a number of samples. A quotient between 0 and 100 has at most six characters. -/
structure PercentText where
  f2 : Int → Nat → List UInt8
  f1 : Int → Nat → List UInt8
  f2_le : ∀ (x : Int) (n : Nat), 0 ≤ x → x ≤ 100 * n → (f2 x n).length ≤ 6
  f1_le : ∀ (x : Int) (n : Nat), 0 ≤ x → x ≤ 100 * n → (f1 x n).length ≤ 6

def kInterval : Int := 5

/-- `snprintf` into `char buf[64]`, and `f.append(buf, n)`. -/
def bufLine (text : List UInt8) : Option (List UInt8) := do
  check (text.length < 64)
  return text

/-- `"%4d %5d …\n"` -/
def bucketText (low count : Int) (percent : List UInt8) : List UInt8 :=
  padded 4 low ++ 32 :: padded 5 count ++ 32 :: percent ++ [10]

/-- `x / kInterval * kInterval` -/
def lowOf (x : Int) : Option Int := do mul (← div x kInterval) kInterval

variable (pt : PercentText) (total : Nat)

/-- The lines, and `low`, `count` and `sum` at the end. -/
def saveLoop (low count sum : Int) : List Int32 → Option (List (List UInt8) × Int × Int × Int)
  | [] => some ([], low, count, sum)
  | x :: xs => do
    if x.toInt < (← add low kInterval) then
      saveLoop low (← add count 1) sum xs
    else
      let sum ← add sum count
      let line ← bufLine (bucketText low count (pt.f2 (← mul 100 sum) total))
      let low ← lowOf x.toInt
      check (x.toInt < (← add low kInterval))
      let (lines, last) ← saveLoop low 1 sum xs
      return (line :: lines, last)

def saveLast (low count sum : Int) : Option (List UInt8) := do
  let sum ← add sum count
  check (sum = total)
  bufLine (bucketText low count (pt.f1 (← mul 100 sum) total))

/-- `"# %d\n"`, without `NDEBUG` -/
def debugText (x : Int32) : List UInt8 := bytesOf "# " ++ decimal x.toInt ++ [10]

def save (stat : LogStream) (latencies : List Int32) : Option (List (List UInt8)) :=
  match latencies with
  | [] => some []
  | front :: _ => do
    let low ← lowOf front.toInt
    let debug ← latencies.mapM fun x => bufLine (debugText x)
    let (lines, low, count, sum) ← saveLoop pt latencies.length low 0 0 latencies
    let last ← saveLast pt latencies.length low count sum
    return [bytesOf "# ", stat.buffer.toString, bytesOf "\n"] ++ debug ++ lines ++ [last]

end Percentile
end ChatReactor
