import PolyPlot.Plot.Figure
import PolyPlot.Report.Answer
import PolyPlot.Text.Lowercase
import PolyPlot.Text.Path
import PolyPlot.Text.Quoted

namespace PolyPlot

namespace Picture

/-- The kinds of files that figures can be written to. -/
def formats : List String :=
  ["eps", "jpeg", "jpg", "pdf", "pgf", "png", "ps", "raw", "rgba", "svg", "svgz", "tif", "tiff", "webp"]

/-- The text behind the last point of a file name, points at its front aside. -/
def extension (path : String) : String :=
  let name := ((Path.parts path).getLast?.getD "").toList.dropWhile (· == '.')
  if name.contains '.' then String.ofList (name.reverse.takeWhile (· ≠ '.')).reverse else ""

/-- Why a picture is not written. -/
inductive Reason where
  | refused (error : Expression.Error)
  /-- Figures cannot be written to a file of this kind. -/
  | unknownKind (kind : String)
  /-- The figure cannot be drawn. -/
  | notDrawn
  deriving DecidableEq, Repr

def Reason.message : Reason → String
  | refused error => error.message
  | unknownKind kind =>
    "Format " ++ Text.shown kind ++ " is not supported (supported formats: "
      ++ ", ".intercalate formats ++ ")"
  | notDrawn => "The figure cannot be drawn."

/-- The file to which a figure goes: one without an extension gets one. -/
def target (path : String) : Except Reason String :=
  match extension path with
  | "" => .ok (String.ofList (path.toList.reverse.dropWhile (· == '.')).reverse ++ ".png")
  | extension =>
    let kind := String.ofList (Text.lower extension.toList)
    if formats.contains kind then .ok path else .error (.unknownKind kind)

/-- A picture that was written. -/
structure Written where
  /-- The path that was asked for. -/
  path : String
  /-- The file that holds the figure. -/
  file : String
  figure : Figure
  /-- The count of curves that are not hidden. -/
  curves : Nat

/-- Writes the figure of curves to a path. An arithmetic fault that no drawing can overcome remains a
fault; whatever else prevents the drawing is the answer's reason. -/
def render (curves : List Curve) (path : String) (v : Viewport Float) (margin : Float) (dpi : Int) :
    Except Fault (Answer Reason Written) :=
  let output := Path.plain path
  let count := (curves.filter Curve.visible).length
  let failed := fun (reason : Reason) => Except.ok (.fail "render_curves" reason [])
  match Figure.build curves v margin dpi with
  | .error (.fault .notANumber) | .error .negativeSize | .error (.unknownColor _) => failed .notDrawn
  | .error (.fault f) => .error f
  | .ok figure =>
    match target output with
    | .ok file => .ok (.ok "matplotlib" ⟨output, file, figure, count⟩ [("curves", .nat count)])
    | .error reason => failed reason

/-- The colour of a curve that is drawn on its own, unless told otherwise. -/
def defaultColor : String := "#2563eb"

def plot (levels : Nat) (o : Expression.Options) (text path color : String) (v : Viewport Float)
    (margin : Float) (dpi : Int) : Except Fault (Answer Reason Written) :=
  match Curve.build levels o text color "plot" with
  | .error (.fault f) => .error f
  | .error (.refused e) =>
    .ok (.fail "plot_expression" (.refused e)
      [("expression", .text text), ("kind", .text e.kind.name)])
  | .ok curve => render [curve] path v margin dpi

/-- Whether a file stands at the path that was asked for. -/
def isThere (answer : Answer Reason Written) : Bool :=
  match answer.outcome with
  | .ok written => written.file = written.path
  | .error _ => false

end Picture

end PolyPlot
