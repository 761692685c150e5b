import ChartCompiler.Build.Values
import ChartCompiler.Document.Scale

/-! The scales that marks are laid out on. All of them take their domain from the filtered rows. -/

namespace ChartCompiler.Scale

def ofField (name : String) (kind : ScaleKind) (range : Scale.Range) (field : String) : Scale :=
  { name, kind, range := some range,
    domain := some { source := Names.filteredTable, fields := [field] } }

/-- The space at both ends of a linear dimension, in pixels. -/
def linearPadding : Number := 32

/-- The share of a band that stays free. -/
def bandPadding : Number := Number.round false 4 10

/-- A linear scale over the width of the chart that neither reaches zero nor rounds its ends. -/
def linearDimension (name field : String) : Scale :=
  { ofField name .linear (.named "width") field with
    padding := some linearPadding, zero := some false, nice := some false }

/-- The scale of a dimension. On a time scale its field is the derived date. -/
def ofDimension (kind : DimensionScale) (dimension : String) : Scale :=
  let name := dimensionScaleName kind
  match kind with
  | .time => ofField name .time (.named "width") Names.date
  | .linear => linearDimension name dimension
  | .point => ofField name .point (.named "width") dimension
  | .band => { ofField name .band (.named "width") dimension with padding := some bandPadding }

def ofMetric (metric : String) : Scale :=
  { ofField Names.metricScale .linear (.named "height") metric with
    zero := some true, nice := some true }

def ordinal (name field : String) (values : List Json) : Scale :=
  ofField name .ordinal (.values values) field

def rotate {α : Type} (xs : List α) (n : Nat) : List α := xs.drop n ++ xs.take n

/-- The scales of a color encoding. With two fields, each primary value has its own rotation of the
palette. -/
def ofColor (scheme : ColorScheme) (color : Encoding String) : List Scale :=
  let palette := Palette.categorical.map (Palette.resolve scheme)
  match color with
  | .field f => [ordinal Names.colorScale f (palette.map .text)]
  | .dual f g =>
    let rotations := (List.range palette.length).map fun n => Json.texts (rotate palette n)
    [ordinal Names.colorScale f (palette.map .text),
     ordinal Names.shadesScale f rotations,
     ordinal Names.secondaryColorScale g (palette.map .text)]
  | .fixed _ => []

def dashPatterns : List Json :=
  [DashName.solid, .dashed, .dotted, .dotDash, .longDash, .twoDash].map fun n =>
    .array (n.dashes.map .float)

def ofLineType (lineType : Encoding LineType) : Option Scale :=
  lineType.primary?.map fun f => ordinal Names.lineTypeScale f dashPatterns

end ChartCompiler.Scale
