namespace PolyPlot

/-- A text that is offered under a name. -/
structure Named where
  name : String
  value : String

namespace Palette

/-- The colours that new curves take in turn. -/
def graphColors : List String :=
  ["#000000", "#2563eb", "#dc2626", "#16a34a", "#9333ea", "#ea580c"]

/-- The colours that a curve can be given. -/
def options : List Named :=
  [⟨"Black", "#000000"⟩, ⟨"Blue", "#2563eb"⟩, ⟨"Red", "#dc2626"⟩, ⟨"Green", "#16a34a"⟩,
    ⟨"Purple", "#9333ea"⟩, ⟨"Orange", "#ea580c"⟩, ⟨"Pink", "#db2777"⟩, ⟨"Teal", "#0d9488"⟩]

/-- The expressions that are offered as examples. -/
def presets : List Named :=
  [⟨"Linear", "x"⟩, ⟨"Quadratic", "x^2"⟩, ⟨"Cubic", "x^3"⟩, ⟨"Parabola", "x^2 - 4"⟩,
    ⟨"S-curve", "x^3 - 3*x"⟩, ⟨"Quartic", "x^4 - 5*x^2 + 4"⟩, ⟨"(x+1)(x-2)", "(x+1)*(x-2)"⟩,
    ⟨"(x+2)(x-1)(x-3)", "(x+2)*(x-1)*(x-3)"⟩, ⟨"(x+1)^2", "(x+1)^2"⟩, ⟨"(x-2)^3", "(x-2)^3"⟩,
    ⟨"(x^2+1)(x-1)", "(x^2+1)*(x-1)"⟩, ⟨"(x+1)^2*(x-1)", "(x+1)^2*(x-1)"⟩,
    ⟨"x(x-1)(x-2)(x-3)", "x*(x-1)*(x-2)*(x-3)"⟩]

def color (index : Int) : String :=
  graphColors.getD (index.fmod graphColors.length).toNat "#000000"

end Palette

end PolyPlot
