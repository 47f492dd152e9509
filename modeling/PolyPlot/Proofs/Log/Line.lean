import PolyPlot.Log.Record
import PolyPlot.Proofs.Json.RoundTrip
import PolyPlot.Proofs.Json.Writing

namespace PolyPlot.Log

namespace Record

variable {r : Record} {levels : ℕ} {time text key line : String} {extra members : List (String × Json)} {moment : Float}

end Record

end PolyPlot.Log
