import PolyPlot.CommandLine.Arguments
import PolyPlot.Log.Logging
import PolyPlot.Plot.Picture
import PolyPlot.Report.CrossCheck
import PolyPlot.Settings

namespace PolyPlot.CommandLine

/-- Why a command ends without an exit code. -/
inductive Failure where
  | settings (path : String) (failure : Settings.Failure)
  /-- The level of the logs has no such name. -/
  | unknownLevel
  | noExpression
  /-- The service has no version to tell. -/
  | noVersion
  | fault (fault : Fault)
  deriving DecidableEq, Repr

/-- The text for a command line that lacks an expression. -/
def noExpressionMessage : String :=
  "an expression is required in cli mode unless --presets is used"

structure Served where
  host : String
  port : Int
  version : String

/-- What a command leaves behind. -/
structure Outcome where
  exitCode : Nat := 0
  output : String := ""
  /-- The records that were logged, in order. -/
  records : List Log.Record := []
  served? : Option Served := none

def printed (report : List (String × Json)) : String :=
  Json.page (.object report) ++ "\n"

/-- An expression was not compiled. -/
def invalidExpression (e : Expression.Error) : Log.Record :=
  { logger := "polycurve.cli"
    level := Log.Level.info
    template := "Invalid expression"
    extra := Log.Record.kindField e }

def rendered (w : Picture.Written) : Log.Record :=
  { logger := "polycurve.plotter"
    level := Log.Level.info
    template := "Rendered %d curve(s) to %s"
    args := [.nat w.curves, .text w.path] }

/-- The result of comparing an expression with its exact expansion, or the reason why there is none. -/
def crossCheckMember {V : Type} (S : Exact.System V) (levels : Nat) (ε : Float) (text : String) :
    Except Fault Json := do
  match (← Report.crossCheck S levels ε text).outcome with
  | .ok agrees => return .bool agrees
  | .error reason => return .text reason.message

def canvas (s : Settings.Plot) (zoom? : Option Float) : Viewport Float :=
  { width := s.width
    height := s.height
    zoom := zoom?.getD s.zoom
    panX := 0
    panY := 0
    baseScale := s.baseScale }

/-- The path of a written picture or the reason why there is none, and what is logged. -/
def plotMember (levels : Nat) (s : Settings) (a : Arguments) (path : String) :
    Except Fault (Json × List Log.Record) := do
  let answer ← Picture.plot levels s.compilerOptions a.expression path Picture.defaultColor
    (canvas s.plot a.zoom?) s.plot.margin s.plot.dpi
  match answer.outcome with
  | .ok written => return (.text written.path, [rendered written])
  | .error reason => return (.text reason.message, [])

/-- The report on an expression, with so many levels of nesting left. -/
def report {V : Type} (S : Exact.System V) (levels : Nat) (s : Settings) (a : Arguments) :
    Except Fault Outcome := do
  let o := s.compilerOptions
  let head := fun (valid : Bool) => [("expression", Json.text a.expression), ("valid", .bool valid)]
  let analysis ←
    Report.analyze (levels - 1) o s.precision.formatDecimals a.integralConstant a.points a.expression
  match analysis.outcome with
  | .error e =>
    return {
      exitCode := 1
      output := printed (head false ++ [("error", .text e.message), ("kind", .text e.kind.name)])
      records := [invalidExpression e] }
  | .ok result =>
    let check ← if a.crossCheck then
        (crossCheckMember S (levels - 1) o.epsilon a.expression).map fun v => [("cross_check", v)]
      else pure []
    let (plot, records) ←
      match a.plot? with
      | none | some "" => pure ([], [])
      | some path => (plotMember (levels - 1) s a path).map fun (v, records) => ([("plot", v)], records)
    return { output := printed (head true ++ result.members .float ++ check ++ plot), records }

/-- The examples, as they are printed. -/
def presetsOutput : String :=
  Json.page (.array (Palette.presets.map fun p =>
    .object [("name", .text p.name), ("expression", .text p.value)])) ++ "\n"

/-- The settings that a command line names; an empty path names none. -/
def settingsOf (levels : Nat) (fileAt : String → Option String) (a : Arguments) :
    Except Failure Settings :=
  match a.config? with
  | none | some "" => .ok {}
  | some path => (Settings.load levels fileAt path).mapError (.settings path)

/-- The name of the level of the logs: that of the command line unless it is empty, else that of the
settings. -/
def levelName (levels : Nat) (s : Settings) (a : Arguments) : Except Fault String :=
  match a.logLevel? with
  | none | some "" => s.logLevel levels
  | some name => .ok name

/-- Carries out a command, given a system of computer algebra and the texts of the files that exist, with
the state of the logs. -/
def perform {V σ : Type} (S : Exact.System V) (levels : Nat) (fileAt : String → Option String) (stream : σ)
    (logging : Logging σ) (a : Arguments) : Except Failure (Outcome × Logging σ) := do
  let s ← settingsOf (levels - 1) fileAt a
  let name ← (levelName levels s a).mapError .fault
  let (level?, logging) := logging.configure stream name
  if level?.isNone then throw .unknownLevel
  let outcome : Outcome ←
    if a.presets then pure { output := presetsOutput }
    else if a.mode = .service then
      if s.version.isEmpty then throw .noVersion
      else pure { served? := some ⟨a.host, a.port, s.version⟩ }
    else if a.expression.isEmpty then throw .noExpression
    else (report S (levels - 1) s a).mapError .fault
  return (outcome, logging)

end PolyPlot.CommandLine
