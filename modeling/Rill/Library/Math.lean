-- SUMMARY: Numeric functions and constants.
import Rill.Library.Entry
import Rill.Decimal.Arithmetic

/-!
# Numeric functions

Functions of one variable take a number or work on every number of an array. Absolute values, minima and
maxima of integers are integers.
-/

namespace Rill

/-- The value of an elementary function. -/
def Elementary.eval : Elementary → Float → Float
  | .sqrt => Float.sqrt
  | .exp => Float.exp
  | .log => Float.log
  | .log10 => Float.log10
  | .log2 => Float.log2
  | .sin => Float.sin
  | .cos => Float.cos
  | .tan => Float.tan
  | .asin => Float.asin
  | .acos => Float.acos
  | .atan => Float.atan
  | .floor => Float.floor
  | .ceil => Float.ceil
  | .round => Float.round
  | .abs => Float.abs

def Elementary.name : Elementary → String
  | .sqrt => "sqrt"
  | .exp => "exp"
  | .log => "log"
  | .log10 => "log10"
  | .log2 => "log2"
  | .sin => "sin"
  | .cos => "cos"
  | .tan => "tan"
  | .asin => "asin"
  | .acos => "acos"
  | .atan => "atan"
  | .floor => "floor"
  | .ceil => "ceil"
  | .round => "round"
  | .abs => "abs"

namespace Run

/-- The next word of the random sequence. -/
def randomWord : Run UInt64 := do
  let seed := (← get).seed + 0x9e3779b97f4a7c15
  modify ({ · with seed := seed })
  let x := (seed ^^^ (seed >>> 30)) * 0xbf58476d1ce4e5b9
  let x := (x ^^^ (x >>> 27)) * 0x94d049bb133111eb
  return x ^^^ (x >>> 31)

/-- A random number below a bound that is not zero. -/
def randomBelow (bound : Nat) : Run Nat := do return (← randomWord).toNat % bound

/-- The items in random order. -/
def shuffled (items : Array Value) : Run (Array Value) :=
  (List.range items.size).foldlM (fun items k => do
    let other ← randomBelow (k + 1)
    return items.swapIfInBounds k other) items

end Run

namespace Library

def math (f : MathFunction) (args : Arguments) : Run Value := do
  match f with
  | .apply g => return .float (g.eval (← args.number 0))
  | .applyEach g => Run.newArray ((← args.matrix 0).map g.eval)
  | .atan2 => return .float (Float.atan2 (← args.number 0) (← args.number 1))
  | .roundTo => return .float (Decimal.roundTo (← args.number 0) (← args.integer 1))
  | .absInt =>
    match Decimal.word? (← args.integer 0).toInt.natAbs with
    | some n => return .int n
    | none => Run.fail (.integerOverflow "abs")
  | .minInt => return .int (min (← args.integer 0) (← args.integer 1))
  | .maxInt => return .int (max (← args.integer 0) (← args.integer 1))
  | .minFloat => return .float (Decimal.floatMin (← args.number 0) (← args.number 1))
  | .maxFloat => return .float (Decimal.floatMax (← args.number 0) (← args.number 1))
  | .random => return .float (((← Run.randomWord) >>> 11).toFloat / 9007199254740992.0)
  | .randomTo =>
    let bound ← args.integer 0
    if bound < 1 then Run.fail (.badRandomBound bound.toInt)
    return .ofNat ((← Run.randomBelow bound.toInt.toNat) + 1)

def mathEntries : List Entry :=
  let unary : List Elementary :=
    [.sqrt, .exp, .log, .log10, .log2, .sin, .cos, .tan, .asin, .acos, .atan, .floor, .ceil, .round]
  let elementary (f : Elementary) : List Entry :=
    [ .function f.name (.math (.apply f)) [.number],
      .function f.name (.math (.applyEach f)) [.array] ]
  unary.flatMap elementary ++
  [ .function "atan2" (.math .atan2) [.number, .number],
    .function "round" (.math .roundTo) [.number, .integer],
    .function "abs" (.math .absInt) [.integer] ] ++ elementary .abs ++
  [ .function "min" (.math .minInt) [.integer, .integer],
    .function "max" (.math .maxInt) [.integer, .integer],
    .function "min" (.math .minFloat) [.number, .number],
    .function "max" (.math .maxFloat) [.number, .number],
    .function "random" (.math .random) [],
    .function "random" (.math .randomTo) [.integer],
    .constant "PI" (.float (Float.ofBits 0x400921fb54442d18)),
    .constant "E" (.float (Float.ofBits 0x4005bf0a8b145769)),
    .constant "SQRT2" (.float (Float.ofBits 0x3ff6a09e667f3bcd)),
    .constant "PHI" (.float 1.618033988749895) ]

end Library

end Rill
