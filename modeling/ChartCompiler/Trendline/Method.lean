import ChartCompiler.Document.Transform

/-! How a trendline sums up the rows of its mark. A method is written as a word, or as a word and a
positive number: `linear`, `polynomial-3`, `movingAverage-7`. -/

namespace ChartCompiler

/-- A number from 1 to `2 ^ 32 - 1`. -/
structure PositiveCount where
  val : Nat
  pos : 0 < val
  lt : val < Nat.pow 2 32
  deriving DecidableEq, Repr

inductive BuildError
  | badPolynomialOrder (method : String)
  | badMovingAverageWidth (method : String)
  | unknownMethod (method : String)
  deriving DecidableEq, Repr

def BuildError.message : BuildError → String
  | .badPolynomialOrder m =>
    "Invalid polynomial order: `" ++ m ++ "`, order must be an integer greater than 0"
  | .badMovingAverageWidth m =>
    "Invalid moving average frame width: `" ++ m ++
      "`, frame width must be an integer greater than 0"
  | .unknownMethod m => "Unknown trendline method: `" ++ m ++ "`"

inductive FitMethod
  | average
  | linear
  | quadratic
  | polynomial (order : PositiveCount)
  | exponential
  | logarithmic
  | power
  | movingAverage (width : PositiveCount)
  deriving DecidableEq, Repr

namespace FitMethod

def isPolynomial : FitMethod → Bool
  | .linear | .quadratic | .polynomial _ => true
  | _ => false

def isRegression : FitMethod → Bool
  | .average | .movingAverage _ => false
  | _ => true

/-- A value per row, from the rows around it. -/
def isWindow : FitMethod → Bool
  | .movingAverage _ => true
  | _ => false

def order? : FitMethod → Option Nat
  | .linear => some 1
  | .quadratic => some 2
  | .polynomial n => some n.val
  | _ => none

def width? : FitMethod → Option Nat
  | .movingAverage n => some n.val
  | _ => none

/-- The regression that fits the method. A polynomial always names its order. -/
def regression? : FitMethod → Option RegressionKind
  | .linear | .quadratic | .polynomial _ => some .poly
  | .exponential => some .exp
  | .logarithmic => some .log
  | .power => some .pow
  | .average | .movingAverage _ => none

def toText : FitMethod → String
  | .average => "average"
  | .linear => "linear"
  | .quadratic => "quadratic"
  | .polynomial n => "polynomial-" ++ toString n.val
  | .exponential => "exponential"
  | .logarithmic => "logarithmic"
  | .power => "power"
  | .movingAverage n => "movingAverage-" ++ toString n.val

def readDigits : List Char → Option Nat
  | [] => none
  | cs =>
    if cs.all Char.isDigit then some (cs.foldl (fun n c => n * 10 + (c.toNat - 48)) 0) else none

/-- A number from 1 to `2 ^ 32 - 1`, with an optional plus sign. -/
def readCount (cs : List Char) : Option PositiveCount :=
  let digits := match cs with
    | '+' :: cs => cs
    | cs => cs
  match readDigits digits with
  | some n => if h : 0 < n ∧ n < Nat.pow 2 32 then some ⟨n, h.1, h.2⟩ else none
  | none => none

def after? (start : List Char) (cs : List Char) : Option (List Char) :=
  if start.isPrefixOf cs then some (cs.drop start.length) else none

def ofText (s : String) : Except BuildError FitMethod :=
  match after? "polynomial-".toList s.toList with
  | some cs => ((readCount cs).map .polynomial).elim (.error (.badPolynomialOrder s)) .ok
  | none =>
    match after? "movingAverage-".toList s.toList with
    | some cs => ((readCount cs).map .movingAverage).elim (.error (.badMovingAverageWidth s)) .ok
    | none =>
      if s = "average" then .ok .average
      else if s = "linear" then .ok .linear
      else if s = "quadratic" then .ok .quadratic
      else if s = "exponential" then .ok .exponential
      else if s = "logarithmic" then .ok .logarithmic
      else if s = "power" then .ok .power
      else .error (.unknownMethod s)

end FitMethod

end ChartCompiler
