import ChartCompiler.Build.Names
import ChartCompiler.Document.Signal

/-! Signals that hold what the reader of a chart points at or has picked. -/

namespace ChartCompiler.Signal

/-- A signal that starts without a value and is set from outside. -/
def unset (name : String) : Signal := { name, initial := .null }

/-- A signal that follows a field of the item under the pointer. Items that wrap the row of another
item hold it one level deeper. -/
def hover (name field : String) (nested : Bool) (mark : String) : Signal :=
  { unset name with
    updates := [
      ⟨"@" ++ mark ++ ":mouseover", if nested then .nestedDatum field else .datum field⟩,
      ⟨"@" ++ mark ++ ":mouseout", .null⟩] }

def hoveredId (name : String) (nested : Bool) (mark : String) : Signal :=
  hover (name ++ "_hoveredId") Names.markId nested mark

def hoveredSeries (name : String) (nested : Bool) (mark : String) : Signal :=
  hover (name ++ "_hoveredSeries") Names.seriesId nested mark

def selectedId (name : String) : Signal := unset (name ++ "_selectedId")

def selectedSeries (name : String) : Signal := unset (name ++ "_selectedSeries")

end ChartCompiler.Signal
