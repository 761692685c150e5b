/-! Finite vocabularies of the chart language: each value has a name, and its name is how an author
writes it. -/

namespace ChartCompiler

/-- A finite type whose values are written by name. -/
class Named (α : Type) where
  /-- Every value, in the order in which the vocabulary lists them. -/
  all : List α
  name : α → String

namespace Named

variable {α : Type} [Named α]

def ofName? (s : String) : Option α := (all : List α).find? fun a => name a == s

def names (α : Type) [Named α] : List String := (all : List α).map name

end Named

end ChartCompiler
