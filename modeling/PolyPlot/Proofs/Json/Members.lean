import Mathlib.Data.List.Nodup
import PolyPlot.Json.Basic

namespace PolyPlot.Json

variable {β : Type} {key other : String} {value : β} {members : List (String × β)} {m : String × β}

theorem put_eq_append (hkey : key ∉ members.map Prod.fst) :
    put key value members = members ++ [(key, value)] := by
  induction members with
  | nil => rfl
  | cons m members ih =>
    rw [List.map_cons, List.mem_cons, not_or] at hkey
    rw [put, if_neg (Ne.symm hkey.1), ih hkey.2]
    rfl

end PolyPlot.Json
