namespace PolyPlot.Path

def parts (path : String) : List String :=
  (path.toList.splitOn '/').map String.ofList

/-- A path without empty parts and parts that stay in place. -/
def plain (path : String) : String :=
  let body := "/".intercalate ((parts path).filter fun part => part ≠ "" ∧ part ≠ ".")
  if path.startsWith "/" then "/" ++ body
  else if body.isEmpty then "." else body

end PolyPlot.Path
