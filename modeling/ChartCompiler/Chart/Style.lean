import ChartCompiler.Chart.Named
import ChartCompiler.Number.Basic

/-! How a mark looks: color scheme, dimension scale, line type, line width, and the encodings that
tie one of them to the fields of a row. -/

namespace ChartCompiler

inductive ColorScheme
  | light
  | dark
  deriving DecidableEq, Repr

instance : Named ColorScheme where
  all := [.light, .dark]
  name
    | .light => "light"
    | .dark => "dark"

inductive DimensionScale
  | time
  | linear
  | point
  | band
  deriving DecidableEq, Repr

instance : Named DimensionScale where
  all := [.time, .linear, .point, .band]
  name
    | .time => "time"
    | .linear => "linear"
    | .point => "point"
    | .band => "band"

/-- A channel that either splits the rows by one or two of their fields or has one fixed value. -/
inductive Encoding (α : Type)
  | field (name : String)
  | dual (primary secondary : String)
  | fixed (value : α)
  deriving DecidableEq, Repr

namespace Encoding

def primary? {α : Type} : Encoding α → Option String
  | .field f => some f
  | .dual f _ => some f
  | .fixed _ => none

/-- The field that decides among rows of one primary value. -/
def secondary? {α : Type} : Encoding α → Option String
  | .dual _ f => some f
  | _ => none

def fixed? {α : Type} : Encoding α → Option α
  | .fixed v => some v
  | _ => none

end Encoding

inductive DashName
  | solid
  | dashed
  | dotted
  | dotDash
  | shortDash
  | longDash
  | twoDash
  deriving DecidableEq, Repr

instance : Named DashName where
  all := [.solid, .dashed, .dotted, .dotDash, .shortDash, .longDash, .twoDash]
  name
    | .solid => "solid"
    | .dashed => "dashed"
    | .dotted => "dotted"
    | .dotDash => "dotDash"
    | .shortDash => "shortDash"
    | .longDash => "longDash"
    | .twoDash => "twoDash"

/-- The lengths of dashes and gaps in pixels, in turn. -/
def DashName.dashes : DashName → List Number
  | .solid => []
  | .dashed => [7, 4]
  | .dotted => [2, 3]
  | .dotDash => [2, 3, 7, 4]
  | .shortDash => [3, 4]
  | .longDash => [11, 4]
  | .twoDash => [5, 2, 11, 2]

inductive LineType
  | named (name : DashName)
  | custom (dashes : List Number)
  deriving DecidableEq, Repr

def LineType.dashes : LineType → List Number
  | .named n => n.dashes
  | .custom ds => ds

inductive WidthName
  | extraSmall
  | small
  | medium
  | large
  | extraLarge
  deriving DecidableEq, Repr

instance : Named WidthName where
  all := [.extraSmall, .small, .medium, .large, .extraLarge]
  name
    | .extraSmall => "XS"
    | .small => "S"
    | .medium => "M"
    | .large => "L"
    | .extraLarge => "XL"

def WidthName.pixels : WidthName → Number
  | .extraSmall => 1
  | .small => Number.round false 3 2
  | .medium => 2
  | .large => 3
  | .extraLarge => 4

inductive LineWidth
  | named (name : WidthName)
  | pixels (px : Number)
  deriving DecidableEq, Repr

def LineWidth.toPixels : LineWidth → Number
  | .named n => n.pixels
  | .pixels px => px

end ChartCompiler
