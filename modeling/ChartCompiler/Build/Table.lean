import ChartCompiler.Build.Names
import ChartCompiler.Document.Basic

/-! The two sources of every document: the table that the rows are loaded into, and the filtered
table that the marks read. Fields that several marks need are computed on the table once. -/

namespace ChartCompiler

/-- A field of the table, with the transforms that compute it. -/
structure DerivedField where
  name : String
  transforms : List Transform

/-- Whether a transform of the list writes the field by a formula or an identifier. -/
def writes (ts : List Transform) (field : String) : Bool := ts.any (·.output? == some field)

/-- Computes a field, unless it is written already. -/
def addField (ts : List Transform) (f : DerivedField) : List Transform :=
  if writes ts f.name then ts else ts ++ f.transforms

namespace DerivedField

/-- The fields of a row put together into the name of its series; nothing without fields. -/
def seriesId (facets : List String) : DerivedField where
  name := Names.seriesId
  transforms :=
    ((Expr.sum ((facets.map Expr.datum).intersperse (.string " | "))).map
      fun e => .formula e Names.seriesId).toList

def date (dimension : String) : DerivedField where
  name := Names.date
  transforms := [.formula (.call "toDate" [.datum dimension]) Names.date]

end DerivedField

namespace Source

def base : List Source :=
  [{ name := Names.table, origin := .inline [], transforms := [.identifier Names.markId] },
   derive Names.filteredTable Names.table []]

/-- The sources with the table among them: where it is missing, the missing ones of the base sources
come first. -/
def withTable (ss : List Source) : List Source :=
  if ss.any (·.name == Names.table) then ss
  else (base.filter fun b => ss.all (·.name != b.name)) ++ ss

def editFirst (name : String) (edit : List Transform → List Transform) : List Source → List Source
  | [] => []
  | s :: ss =>
    if s.name = name then { s with transforms := edit s.transforms } :: ss
    else s :: editFirst name edit ss

def editTable (edit : List Transform → List Transform) (ss : List Source) : List Source :=
  editFirst Names.table edit (withTable ss)

def tableTransforms (ss : List Source) : Option (List Transform) :=
  (ss.find? (·.name == Names.table)).map Source.transforms

end Source

namespace Document

def editTable (edit : List Transform → List Transform) (d : Document) : Document :=
  { d with sources := Source.editTable edit d.sources }

def addFields (fs : List DerivedField) (d : Document) : Document :=
  d.editTable fun ts => fs.foldl addField ts

end Document

end ChartCompiler
