import ChartCompiler.Axis.Basic
import ChartCompiler.Document.Rule

/-! The channels of axis labels: how they are aligned, how numbers are shown, and how a list of
custom labels in a signal overrides both. -/

namespace ChartCompiler.Axis

/-- How labels are set at their tick: on a horizontal axis to a side, on a vertical one by height.
-/
inductive Setting
  | align (a : Align)
  | baseline (b : Baseline)
  deriving DecidableEq, Repr

def LabelAlign.toAlign : LabelAlign → Align
  | .start => .left
  | .center => .center
  | .stop => .right

def LabelAlign.toBaseline : LabelAlign → Baseline
  | .start => .top
  | .center => .middle
  | .stop => .bottom

/-- How labels of a horizontal axis are set; what is given explicitly wins on any axis. -/
def align (label : Option LabelAlign) (position : Position) (explicit : Option Align) :
    Option Align :=
  explicit <|> if position.isVertical then none else label.map LabelAlign.toAlign

def baseline (label : Option LabelAlign) (position : Position) (explicit : Option Baseline) :
    Option Baseline :=
  explicit <|> if position.isVertical then label.map LabelAlign.toBaseline else none

def setting (label : Option LabelAlign) (position : Position) : Option Setting :=
  if position.isVertical then (baseline label position none).map .baseline
  else (align label position none).map .align

/-- By how much labels are moved to the start or the end of their band; what is given explicitly
wins. -/
def offset (label : LabelAlign) (scale : String) (explicit : Option ChannelValue) :
    Option ChannelValue :=
  let band (divisor : Int) : ChannelValue :=
    .ofSignal (.call "bandwidth" [.string scale] / .int divisor)
  explicit <|> match label with
    | .start => some (band (-2))
    | .stop => some (band 2)
    | .center => none

def tickValue : Expr := .datum "value"

def isNumber : Expr := .call "isNumber" [tickValue]

/-- How the value at a tick is shown. Percentages are written as such, other numbers from 1000 on
are shortened by a suffix, with `B` for billions. What is no number is shown as it is. -/
def format (f : Option LabelFormat) : List ChannelValue :=
  let shown :=
    if f = some .percentage then
      (ChannelValue.ofSignal (.call "format" [tickValue, .string "~%"])).guarded isNumber
    else
      let short := Expr.call "format" [tickValue, .string ".3~s"]
      let billions := Expr.call "upper" [.call "replace" [short, .string "G", .string "B"]]
      (ChannelValue.ofSignal billions).guarded
        (.and isNumber (.gte (.call "abs" [tickValue]) (.nat 1000)))
  [shown, .ofSignal tickValue]

def customIndex (labels : String) : Expr :=
  .call "indexof" [.call "pluck" [.signal labels, .string "value"], tickValue]

def hasCustom (labels : String) : Expr := .strictNe (customIndex labels) (.int (-1))

def custom (labels property : String) : Expr :=
  .member (.index (.signal labels) (customIndex labels)) property

def customOr (labels property : String) (default : Json) : Rule :=
  .firstOf [
    (ChannelValue.ofSignal (custom labels property)).guarded
      (.and (hasCustom labels) (custom labels property)),
    .literal default]

/-- The channel that sets labels at their ticks, the alignment of a custom label first. -/
def customSetting (position : Position) (labels : String) (default : LabelAlign) : Channels :=
  let (channel, value) := match setting (some default) position with
    | some (.align a) => ("align", Json.text (Named.name a))
    | some (.baseline b) => ("baseline", Json.text (Named.name b))
    | none => (if position.isVertical then "baseline" else "align", Json.null)
  [(channel, customOr labels "align" value)]

/-- The channels of labels that the list in a signal may override value by value. -/
def labelsEncode (label : LabelAlign) (weight : FontWeight) (key : LabelKey) (position : Position)
    (labels : String) : Encode where
  update := .ofList ([
    ("text", .firstOf [
      (ChannelValue.ofSignal (custom labels (Named.name key))).guarded (hasCustom labels),
      .ofSignal tickValue]),
    ("fontWeight", customOr labels "fontWeight" (.text (Named.name weight)))]
    ++ customSetting position labels label)

end ChartCompiler.Axis
