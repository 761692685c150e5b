import ChartCompiler.Chart.Mark
import ChartCompiler.Build.Names
import ChartCompiler.Trendline.Method

/-! Trendlines with their defaults filled in, which is done once and before anything is built. -/

namespace ChartCompiler

structure Trendline where
  /-- The beginning of the names of all that the trendline adds. -/
  name : String
  method : FitMethod
  dimensionRange : Option Number × Option Number
  /-- A color instead of the mark's. -/
  color : Option String
  displayOnHover : Bool
  highlightRawPoint : Bool
  lineType : LineType
  lineWidth : LineWidth
  opacity : Number
  /-- The field with the values of the trendline. -/
  metric : String
  /-- The tooltips and popovers. -/
  children : List Child
  deriving Repr

namespace Trendline

def sharedName (mark : String) : String := mark ++ "Trendline"

def curveSource (t : Trendline) : String := t.name ++ "_highResolutionData"

def paramsSource (t : Trendline) : String := t.name ++ "_params"

def rowSource (t : Trendline) : String := t.name ++ "_data"

def lineSource (t : Trendline) : String :=
  if t.method.isRegression then t.curveSource else t.rowSource

def keepInteractive (cs : List Child) : List Child := cs.filter Child.isInteractive

def ofOptions (children : List Child) (o : TrendlineOptions) (mark : String) (index : Nat) :
    Except BuildError Trendline := do
  let method ← match o.method with
    | some s => FitMethod.ofText s
    | none => .ok .linear
  return {
    name := sharedName mark ++ toString index
    method
    dimensionRange := o.dimensionRange.getD (none, none)
    color := o.color
    displayOnHover := o.displayOnHover.getD false
    highlightRawPoint := o.highlightRawPoint.getD false
    lineType := o.lineType.getD (.named .dashed)
    lineWidth := o.lineWidth.getD (.named .medium)
    opacity := o.opacity.getD 1
    metric := Names.trendlineValue
    children := keepInteractive children }

def ofListFrom (mark : String) : Nat → List (List Child × TrendlineOptions) →
    Except BuildError (List Trendline)
  | _, [] => .ok []
  | index, (children, o) :: os => do
    let t ← ofOptions children o mark index
    let ts ← ofListFrom mark (index + 1) os
    return t :: ts

/-- The trendlines among the children of a mark; the first bad method is the error. -/
def ofChildren (children : List Child) (mark : String) : Except BuildError (List Trendline) :=
  ofListFrom mark 0 (children.filterMap Child.trendline?)

def isInteractive (t : Trendline) : Bool := hasInteractive t.children

end Trendline

def SeriesMark.trendlines (m : SeriesMark) : Except BuildError (List Trendline) :=
  Trendline.ofChildren m.children m.name

end ChartCompiler
