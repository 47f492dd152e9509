import PolyPlot.Scalar

namespace PolyPlot

instance : Scalar Rat where
  zero := 0
  one := 1
  decideLT := Rat.instDecidableLt
  decideLE := Rat.instDecidableLe
  ofInt n := (n : Rat)
  abs := Rat.abs
  isFinite _ := true
  floor r := .ok r.floor
  ceil r := .ok r.ceil
  remainder a b := a - b * ((a / b).floor : Rat)

end PolyPlot
