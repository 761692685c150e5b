import ChartCompiler.Chart.Named
import ChartCompiler.Json.Basic

/-! The vocabulary of axes and of the labels along them. -/

namespace ChartCompiler.Axis

inductive Position
  | top
  | bottom
  | left
  | right
  deriving DecidableEq, Repr

instance : Named Position where
  all := [.top, .bottom, .left, .right]
  name
    | .top => "top"
    | .bottom => "bottom"
    | .left => "left"
    | .right => "right"

def Position.isVertical : Position → Bool
  | .left | .right => true
  | .top | .bottom => false

inductive LabelAlign
  | start
  | center
  | stop
  deriving DecidableEq, Repr

instance : Named LabelAlign where
  all := [.start, .center, .stop]
  name
    | .start => "start"
    | .center => "center"
    | .stop => "end"

inductive Align
  | left
  | center
  | right
  deriving DecidableEq, Repr

instance : Named Align where
  all := [.left, .center, .right]
  name
    | .left => "left"
    | .center => "center"
    | .right => "right"

inductive Baseline
  | top
  | middle
  | bottom
  deriving DecidableEq, Repr

instance : Named Baseline where
  all := [.top, .middle, .bottom]
  name
    | .top => "top"
    | .middle => "middle"
    | .bottom => "bottom"

inductive FontWeight
  | normal
  | bold
  deriving DecidableEq, Repr

instance : Named FontWeight where
  all := [.normal, .bold]
  name
    | .normal => "normal"
    | .bold => "bold"

inductive Granularity
  | minute
  | hour
  | day
  | week
  | month
  | quarter
  deriving DecidableEq, Repr

instance : Named Granularity where
  all := [.minute, .hour, .day, .week, .month, .quarter]
  name
    | .minute => "minute"
    | .hour => "hour"
    | .day => "day"
    | .week => "week"
    | .month => "month"
    | .quarter => "quarter"

inductive LabelFormat
  | linear
  | percentage
  deriving DecidableEq, Repr

instance : Named LabelFormat where
  all := [.linear, .percentage]
  name
    | .linear => "linear"
    | .percentage => "percentage"

inductive LabelKey
  | label
  | subLabel
  deriving DecidableEq, Repr

instance : Named LabelKey where
  all := [.label, .subLabel]
  name
    | .label => "label"
    | .subLabel => "subLabel"

inductive LabelValue
  | number (x : Number)
  | text (s : String)
  deriving DecidableEq, Repr

structure LabelDetail where
  value : LabelValue
  label : Option String
  subLabel : Option String
  align : Option LabelAlign
  fontWeight : Option FontWeight
  deriving DecidableEq, Repr

inductive Label
  | detailed (detail : LabelDetail)
  | plain (value : LabelValue)
  deriving DecidableEq, Repr

def Label.value : Label → LabelValue
  | .detailed d => d.value
  | .plain v => v

/-- How far the ticks of a time axis are apart: a unit, or a number of units. -/
inductive TickCount
  | unit (name : String)
  | step (name : String) (count : Nat)
  deriving DecidableEq, Repr

def TickCount.toJson : TickCount → Json
  | .unit n => .text n
  | .step n k => .object [("interval", .text n), ("step", .int k)]

/-- The formats of the two lines of time labels, and the ticks. -/
structure TimeFormats where
  secondary : String
  primary : String
  ticks : TickCount
  deriving DecidableEq, Repr

def Granularity.formats : Granularity → TimeFormats
  | .minute => ⟨"%-I:%M %p", "%b %-d", .unit "minute"⟩
  | .hour => ⟨"%-I %p", "%b %-d", .unit "hour"⟩
  | .day => ⟨"%-d", "%b", .unit "day"⟩
  | .week => ⟨"%-d", "%b", .unit "week"⟩
  | .month => ⟨"%b", "%Y", .unit "month"⟩
  | .quarter => ⟨"Q%q", "%Y", .step "month" 3⟩

end ChartCompiler.Axis
