import ChartCompiler.Number.Shortest

/-! The two written forms of a number. In a document it always shows that it is not an integer and
takes an exponent outside a window; inside an expression it never takes an exponent. -/

namespace ChartCompiler

namespace Decimal

/-- The decimal without an exponent: `1200`, `1.2`, `0.0012`. -/
def positional (d : Decimal) : List Char :=
  let ds := Nat.toDigits 10 d.digits
  if 0 ≤ d.exponent then ds ++ List.replicate d.exponent.toNat '0'
  else
    let places := (-d.exponent).toNat
    if places < ds.length then
      ds.take (ds.length - places) ++ '.' :: ds.drop (ds.length - places)
    else '0' :: '.' :: List.replicate (places - ds.length) '0' ++ ds

def leadingExponent (d : Decimal) : Int :=
  d.exponent + (Nat.toDigits 10 d.digits).length - 1

/-- One digit before the point and a signed exponent: `1.2e+21`, `5e-324`. -/
def scientific (d : Decimal) : List Char :=
  let e := d.leadingExponent
  let power := 'e' :: (if e < 0 then '-' else '+') :: Nat.toDigits 10 e.natAbs
  match Nat.toDigits 10 d.digits with
  | first :: second :: rest => first :: '.' :: second :: rest ++ power
  | ds => ds ++ power

end Decimal

namespace Number

def signText (negative : Bool) : List Char := if negative then ['-'] else []

/-- A number in a document: the fewest digits, positional from `0.00001` up to 16 digits before
the point, and `.0` where it would read as an integer. What is not finite has no written form there
and is null. -/
def literal : Number → String
  | .finite s m e =>
    let d := shortest m e .even
    let x := d.leadingExponent
    let text :=
      if -5 ≤ x ∧ x < 16 then
        d.positional ++ (if 0 ≤ d.exponent then ['.', '0'] else [])
      else d.scientific
    String.ofList (signText s ++ text)
  | _ => "null"

/-- A number inside an expression: an integer below `10 ^ 15` as such, without a sign on zero, and
any other finite number by its fewest digits, never with an exponent. -/
def exprText : Number → List Char
  | .nan => "NaN".toList
  | .infinite s => signText s ++ "Infinity".toList
  | .finite s m e =>
    match wholeMagnitude? (.finite s m e) with
    | some n =>
      if n < Nat.pow 10 15 then signText (s && n ≠ 0) ++ Nat.toDigits 10 n
      else signText s ++ (shortest m e .up).positional
    | none => signText s ++ (shortest m e .up).positional

end Number

end ChartCompiler
