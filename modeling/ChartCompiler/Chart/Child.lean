import ChartCompiler.Chart.Style

/-! What an author hangs under a mark: tooltips, popovers, metric ranges and trendlines. -/

namespace ChartCompiler

/-- A trendline as the author writes it, its children apart. Nothing is defaulted yet. -/
structure TrendlineOptions where
  color : Option String := none
  dimensionRange : Option (Option Number × Option Number) := none
  displayOnHover : Option Bool := none
  highlightRawPoint : Option Bool := none
  lineType : Option LineType := none
  lineWidth : Option LineWidth := none
  /-- Such as `linear`, `polynomial-3` or `movingAverage-7`. -/
  method : Option String := none
  opacity : Option Number := none
  deriving DecidableEq, Repr

inductive Child
  | tooltip (excludedKeys : List String)
  | popover (width height : Option Number)
  | metricRange (start stop : Option String) (displayOnHover : Bool)
  | trendline (children : List Child) (options : TrendlineOptions)
  deriving Repr

namespace Child

def isTooltip : Child → Bool
  | .tooltip _ => true
  | _ => false

def isPopover : Child → Bool
  | .popover _ _ => true
  | _ => false

def isInteractive (c : Child) : Bool := c.isTooltip || c.isPopover

def trendline? : Child → Option (List Child × TrendlineOptions)
  | .trendline cs o => some (cs, o)
  | _ => none

end Child

def hasTooltip (cs : List Child) : Bool := cs.any Child.isTooltip

def hasPopover (cs : List Child) : Bool := cs.any Child.isPopover

def hasInteractive (cs : List Child) : Bool := hasTooltip cs || hasPopover cs

end ChartCompiler
