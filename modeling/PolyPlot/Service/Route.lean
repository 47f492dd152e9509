import PolyPlot.Coeffs.Analysis
import PolyPlot.Coeffs.Printer
import PolyPlot.Plot.Trace
import PolyPlot.Service.Request
import PolyPlot.Settings

namespace PolyPlot.Service

inductive Route where
  | health
  | parse
  | evaluate
  | analyze
  | trace
  deriving DecidableEq, Repr

def Route.named : List (String × Route) :=
  [("/health", .health), ("/v1/parse", .parse), ("/v1/evaluate", .evaluate),
    ("/v1/analyze", .analyze), ("/v1/trace", .trace)]

def Route.method : Route → String
  | health => "GET"
  | _ => "POST"

/-- An answer: a status and a body in which every number is finite. -/
structure Response where
  status : Nat
  body : Json

namespace Response

/-- A value with null for every number that is not finite. -/
def finite : Json → Json
  | .float x => if x.isFinite then .float x else .null
  | .array items => .array (finiteItems items)
  | .object members => .object (finiteMembers members)
  | v => v
where
  finiteItems : List Json → List Json
    | [] => []
    | v :: rest => finite v :: finiteItems rest
  finiteMembers : List (String × Json) → List (String × Json)
    | [] => []
    | (k, v) :: rest => (k, finite v) :: finiteMembers rest

/-- The answer to a request that succeeds. -/
def ok (members : List (String × Json)) : Response :=
  ⟨200, finite (.object members)⟩

/-- An answer that tells why there is no other. -/
def detail (status : Nat) (reason : Json) : Response :=
  ⟨status, .object [("detail", reason)]⟩

def notFound : Response :=
  detail 404 (.text "Not Found")

def notAllowed : Response :=
  detail 405 (.text "Method Not Allowed")

/-- A step on the way to a value. -/
def step : Step → Json
  | .field name => .text name
  | .index n => .nat n

/-- The answer to a request with problems. -/
def unprocessable (problems : List Problem) : Response :=
  detail 422 (.array (problems.map fun p =>
    .object [("type", .text p.flaw.name), ("loc", .array (p.path.map step))]))

def refused (e : Expression.Error) : Response :=
  detail 422 (.object [("error", .text e.message), ("kind", .text e.kind.name),
    ("position", Json.orNull Json.nat e.position?)])

end Response

/-- The vector of an expression with its degree and text. -/
def parse (levels : Nat) (s : Settings) (r : ParseRequest) : Except Fault Response := do
  match Expression.compile (levels - 1) s.compilerOptions r.expression with
  | .error (.fault f) => throw f
  | .error (.refused e) => return .refused e
  | .ok p =>
    let formatted ← p.format s.precision.epsilon s.precision.formatDecimals
    return .ok [("expression", .text r.expression), ("coefficients", .floats p),
      ("degree", .nat (p.degree s.precision.epsilon)), ("formatted", .text formatted)]

/-- The values of a vector at points. -/
def evaluate (r : EvaluateRequest) : Response :=
  .ok [("ys", .floats (r.xs.map fun x => Coeffs.value x r.coefficients))]

/-- The degree, text, derivative, antiderivative and roots of a vector; an empty one stands for zero. -/
def analyze (s : Settings) (r : AnalyzeRequest) : Except Fault Response := do
  let ε := s.precision.epsilon
  let p : Coeffs Float := if r.coefficients.isEmpty then usualVector else r.coefficients
  let formatted ← p.format ε s.precision.formatDecimals
  let roots ← p.roots ε
  return .ok [("degree", .nat (p.degree ε)), ("formatted", .text formatted),
    ("derivative", .floats (p.derivative ε)), ("integral", .floats (p.integral ε r.integralConstant)),
    ("roots", .floats roots)]

/-- The polylines of a vector on a canvas. -/
def trace (s : Settings) (r : TraceRequest) : Except Fault Response := do
  let v : Viewport Float :=
    { width := r.width
      height := r.height
      zoom := r.zoom
      panX := r.panX
      panY := r.panY
      baseScale := s.plot.baseScale }
  let segments ← v.trace s.plot.margin r.coefficients
  return .ok [("segments", .array (segments.map fun points =>
    .array (points.map fun p => .floats [p.1, p.2])))]

/-- Answers a request that is read from a body, unless there are problems with it. -/
def withRequest {β : Type} (check : Json → Checked β) (body : String)
    (answer : β → Except Fault Response) : Except Fault Response :=
  match readBody check body with
  | .ok r => answer r
  | .flawed problems => .ok (.unprocessable problems)

def Route.answer (levels : Nat) (s : Settings) (body : String) : Route → Except Fault Response
  | health => .ok (.ok [("status", .text "ok")])
  | parse => withRequest ParseRequest.check body (Service.parse levels s)
  | evaluate => withRequest EvaluateRequest.check body fun r => .ok (Service.evaluate r)
  | analyze => withRequest AnalyzeRequest.check body (Service.analyze s)
  | trace => withRequest TraceRequest.check body (Service.trace s)

def respond (levels : Nat) (s : Settings) (method path body : String) : Except Fault Response :=
  match Route.named.lookup path with
  | none => .ok .notFound
  | some route => if method = route.method then route.answer levels s body else .ok .notAllowed

end PolyPlot.Service
