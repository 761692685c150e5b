import ChartCompiler.Build.Names
import ChartCompiler.Chart.Palette
import ChartCompiler.Document.Rule

/-! The channel values that encodings stand for. -/

namespace ChartCompiler

namespace Encoding

def scaledOr {α : Type} (scale : String) (fixed : α → ChannelValue) : Encoding α → ChannelValue
  | .field f | .dual f _ => .scaled scale f
  | .fixed v => fixed v

/-- The color. With two fields, the place of the secondary value in its domain picks a shade from
the colors of the primary value. -/
def colorValue (scheme : ColorScheme) : Encoding String → ChannelValue
  | .field f => .scaled Names.colorScale f
  | .dual f g =>
    let shades := Expr.call "scale" [.string Names.shadesScale, .datum f]
    let place := Expr.call "indexof" [.call "domain" [.string Names.secondaryColorScale], .datum g]
    .ofSignal (.index shades (place % Expr.call "length" [shades]))
  | .fixed c => .ofText (Palette.resolve scheme c)

def dashValue : Encoding LineType → ChannelValue :=
  scaledOr Names.lineTypeScale fun t => .literal (.array (t.dashes.map .float))

def widthValue : Encoding LineWidth → ChannelValue :=
  scaledOr Names.lineWidthScale fun w => .float w.toPixels

def opacityValue : Encoding Number → ChannelValue := scaledOr Names.opacityScale ChannelValue.float

end Encoding

namespace ChannelValue

/-- By how much the opacity of items is divided that are not highlighted. -/
def contrast : Nat := 5

/-- An opacity, faded. What is neither a signal nor a number counts as full opacity. -/
def faded (opacity : ChannelValue) : ChannelValue :=
  match opacity.signal with
  | some e => .ofSignal (e / Expr.nat contrast)
  | none => .float ((opacity.number?.getD 1).div (.ofNat contrast))

def background : ChannelValue := .ofSignal (.signal Names.backgroundColor)

def transparent : ChannelValue := .ofText "transparent"

end ChannelValue

def dimensionScaleName : DimensionScale → String
  | .time => "xTime"
  | .linear => "xLinear"
  | .point => "xPoint"
  | .band => "xBand"

/-- Where a dimension puts an item. Time is read from the derived date, and a band is met in its
middle. -/
def dimensionValue (scale : DimensionScale) (dimension : String) : ChannelValue :=
  let name := dimensionScaleName scale
  match scale with
  | .time => .scaled name Names.date
  | .linear | .point => .scaled name dimension
  | .band => { ChannelValue.scaled name dimension with band := some (Number.round false 1 2) }

def metricValue (metric : String) : ChannelValue := .scaled Names.metricScale metric

end ChartCompiler
