/-! The names that every compiled document gives to its own sources, fields, scales and signals. -/

namespace ChartCompiler.Names

/-- The source that the rows are loaded into. -/
def table : String := "table"

def filteredTable : String := "filteredTable"

/-- The field that tells rows apart. -/
def markId : String := "rscMarkId"

def seriesId : String := "rscSeriesId"

def trendlineValue : String := "trendlineValue"

/-- The dimension of a time scale as a date. -/
def date : String := "datetime0"

def colorScale : String := "color"

/-- The scale from a primary value to its rotation of the palette. -/
def shadesScale : String := "colors"

def secondaryColorScale : String := "secondaryColor"

def lineTypeScale : String := "lineType"

def lineWidthScale : String := "lineWidth"

def opacityScale : String := "opacity"

def metricScale : String := "yLinear"

def trendlineScale : String := "xTrendline"

def backgroundColor : String := "backgroundColor"

end ChartCompiler.Names
