import ChartCompiler.Chart.Style

/-! The fields that split the rows of a mark into series. -/

namespace ChartCompiler

structure Facets where
  /-- Every field that splits the rows, primary fields first. -/
  all : List String
  /-- The secondary fields among them. -/
  secondary : List String
  deriving DecidableEq, Repr

namespace Facets

def insertNew (fs : List String) (f : String) : List String :=
  if fs.contains f then fs else fs ++ [f]

/-- The fields of a color and a line type encoding, color before line type and each field once. -/
def ofEncodings {α β : Type} (color : Encoding α) (lineType : Encoding β) : Facets :=
  let primary := ([color.primary?, lineType.primary?].filterMap id).foldl insertNew []
  let secondary := ([color.secondary?, lineType.secondary?].filterMap id).foldl insertNew []
  { all := secondary.foldl insertNew primary, secondary }

end Facets

end ChartCompiler
