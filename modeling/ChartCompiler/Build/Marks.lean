import ChartCompiler.Trendline.Add

/-! Adding the marks of a chart to a document. A mark whose trendlines cannot be read has added what
comes before them by then, and that stays. -/

namespace ChartCompiler

/-- A document, and the error that building it stopped at. -/
structure Built where
  document : Document
  error : Option BuildError := none
  deriving Repr

namespace Document

/-- Adds the trendlines of a mark, and then what the mark itself adds last. -/
def withTrendlines (m : SeriesMark) (last : Document → Document) (d : Document) : Built :=
  match m.trendlines with
  | .ok ts => { document := last (d.addTrendlines m ts) }
  | .error e => { document := d, error := some e }

def addTrendlinesOf (m : SeriesMark) (d : Document) : Built := d.withTrendlines m id

end Document

namespace SeriesMark

def lineFields (m : SeriesMark) : List DerivedField :=
  (if m.onTimeScale then [.date m.dimension] else []) ++ [.seriesId m.facets.all]

/-- The sources of the rows whose points are shown, always or when highlighted. -/
def lineSources (m : SeriesMark) : List Source :=
  (m.staticPoint.map fun f =>
    Source.derive m.staticPointSource Names.filteredTable [.filter (.flagged f)]).toList ++
  if hasInteractive m.children then
    [.derive m.highlightedSource Names.filteredTable
      [.filter (.highlighted m.name (hasPopover m.children))]]
  else []

def lineScales (m : SeriesMark) : List Scale :=
  [.ofDimension m.scaleType m.dimension, .ofMetric m.metric] ++
    Scale.ofColor m.scheme m.color ++ (Scale.ofLineType m.lineType).toList

def partitionName (m : SeriesMark) : String := m.name ++ "_facet"

def lineGroup (m : SeriesMark) : Mark :=
  .parted (m.name ++ "_group")
    { name := m.partitionName, source := Names.filteredTable, groupby := m.facets.all }
    [.drawn .line m.name m.partitionName {
      enter := .ofList [
        m.y,
        ("stroke", .single m.colorValue),
        ("strokeDash", .single m.lineType.dashValue),
        ("strokeWidth", .single m.lineWidth.widthValue)]
      update := .ofList [m.x, ("strokeOpacity", lineOpacity m.name m.opacity false)] }]

def lineMarks (m : SeriesMark) : List Mark :=
  m.lineGroup :: if m.staticPoint.isSome then [m.staticPoints] else []

def lineHighlights (m : SeriesMark) : List Mark :=
  if hasInteractive m.children then
    m.hoverMarks Names.filteredTable none ++
      if hasPopover m.children then [m.selectRing] else []
  else []

def lineSignals (m : SeriesMark) : List Signal :=
  if hasInteractive m.children then
    Signal.hoveredId m.name true m.cells ::
      if hasPopover m.children then [.selectedId m.name, .selectedSeries m.name] else []
  else []

end SeriesMark

namespace Bar

def barScales (b : Bar) : List Scale :=
  [.ofDimension .band b.dimension, .ofMetric b.metric] ++ Scale.ofColor b.scheme b.color

/-- The bars, from the metric down to zero and as wide as their band. -/
def barMark (b : Bar) : Mark :=
  let x := dimensionScaleName .band
  .drawn .rect b.name Names.filteredTable {
    enter := .ofList [("fill", .single (b.color.colorValue b.scheme))]
    update := .ofList [
      ("x", .single (.scaled x b.dimension)),
      ("width", .single { scale := some x, band := some 1 }),
      ("y", .single (metricValue b.metric)),
      ("y2", .single { scale := some Names.metricScale, value := some (.int 0) })] }

end Bar

namespace Document

def addLine (m : SeriesMark) (d : Document) : Built :=
  let d := d.addFields m.lineFields
  let d := d.appendSources m.lineSources
  let d := d.extendScales m.lineScales
  let d := d.appendMarks m.lineMarks
  d.withTrendlines m fun d => (d.appendMarks m.lineHighlights).extendSignals m.lineSignals

def addBar (b : Bar) (d : Document) : Built :=
  let d := d.addFields [.seriesId b.toSeriesMark.facets.all]
  let d := d.extendScales b.barScales
  let d := d.appendMarks [b.barMark]
  d.addTrendlinesOf b.toSeriesMark

def addMark (m : ChartMark) (d : Document) : Built :=
  match m with
  | .line m => d.addLine m
  | .bar b => d.addBar b

def start (scheme : ColorScheme) (width height : Option Number) : Document where
  width := width
  height := height
  sources := Source.base
  signals := [
    { name := Names.backgroundColor, initial := .text (Palette.resolve scheme "gray-50") }]

/-- Adds marks one after the other, up to the first error. -/
def addMarks : List ChartMark → Document → Except BuildError Document
  | [], d => .ok d
  | m :: ms, d =>
    match d.addMark m with
    | { document, error := none } => addMarks ms document
    | { error := some e, .. } => .error e

end Document

/-- The document of a chart. Every mark is built in the color scheme of the chart. -/
def Chart.build (c : Chart) : Except BuildError Document :=
  (Document.start c.scheme c.width c.height).addMarks (c.marks.map (ChartMark.withScheme c.scheme))

end ChartCompiler
