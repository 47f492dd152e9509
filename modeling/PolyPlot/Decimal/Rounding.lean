import PolyPlot.Decimal.Digits

namespace PolyPlot.Decimal

/-- The most places at which rounding can change a double. -/
def mostPlaces : Int := 323

/-- The fewest places at which rounding leaves anything of a double. -/
def fewestPlaces : Int := -308

/-- The double nearest to the multiple of `10 ^ -places` nearest to the exact value, a half going to
the even multiple. Infinities and undefined values stay. -/
def roundPlaces (places : Int) (x : Float) : Except Fault Float :=
  match Binary.ofFloat x with
  | .finite negative m e =>
    if mostPlaces < places then .ok x
    else if places < fewestPlaces then .ok (Double.nearest negative 0 1)
    else
      let units := roundTo (Binary.numerator m e) (Binary.denominator e) (-places)
      let rounded := Double.nearest negative (numerator units (-places)) (denominator (-places))
      if rounded.isFinite then .ok rounded else .error .overflow
  | _ => .ok x

end PolyPlot.Decimal
