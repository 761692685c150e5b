import ChartCompiler.Chart.Style

/-! Named colors and their values in each color scheme. -/

namespace ChartCompiler.Palette

/-- A named color with its light and its dark value. -/
def named : List (String × String × String) :=
  [("gray-50", "rgb(255, 255, 255)", "rgb(29, 29, 29)"),
   ("gray-75", "rgb(253, 253, 253)", "rgb(38, 38, 38)"),
   ("gray-100", "rgb(248, 248, 248)", "rgb(50, 50, 50)"),
   ("gray-200", "rgb(230, 230, 230)", "rgb(63, 63, 63)"),
   ("gray-300", "rgb(213, 213, 213)", "rgb(84, 84, 84)"),
   ("gray-400", "rgb(177, 177, 177)", "rgb(112, 112, 112)"),
   ("gray-500", "rgb(144, 144, 144)", "rgb(144, 144, 144)"),
   ("gray-600", "rgb(109, 109, 109)", "rgb(178, 178, 178)"),
   ("gray-700", "rgb(70, 70, 70)", "rgb(209, 209, 209)"),
   ("gray-800", "rgb(34, 34, 34)", "rgb(235, 235, 235)"),
   ("gray-900", "rgb(0, 0, 0)", "rgb(255, 255, 255)"),
   ("static-blue", "rgb(20, 115, 230)", "rgb(20, 115, 230)"),
   ("blue-500", "rgb(64, 105, 253)", "rgb(64, 105, 253)"),
   ("red-500", "rgb(240, 56, 35)", "rgb(240, 56, 35)"),
   ("green-500", "rgb(7, 147, 85)", "rgb(21, 164, 110)"),
   ("categorical-100", "rgb(15, 181, 174)", "rgb(15, 181, 174)"),
   ("categorical-200", "rgb(64, 70, 202)", "rgb(64, 70, 202)"),
   ("categorical-300", "rgb(246, 133, 17)", "rgb(246, 133, 17)"),
   ("categorical-400", "rgb(222, 61, 130)", "rgb(222, 61, 130)"),
   ("categorical-500", "rgb(126, 132, 250)", "rgb(126, 132, 250)"),
   ("categorical-600", "rgb(114, 224, 106)", "rgb(114, 224, 106)")]

def categorical : List String :=
  ["categorical-100", "categorical-200", "categorical-300", "categorical-400", "categorical-500",
    "categorical-600"]

/-- The value of a named color in a scheme. Any other text is a color already. -/
def resolve (scheme : ColorScheme) (color : String) : String :=
  match named.lookup color with
  | some (light, dark) =>
    match scheme with
    | .light => light
    | .dark => dark
  | none => color

end ChartCompiler.Palette
