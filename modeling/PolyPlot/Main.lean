import PolyPlot.CommandLine.Report
import PolyPlot.Exact.Expansion
import Std.Time.DateTime.Timestamp

namespace PolyPlot.CommandLine

/-- How the command is called. -/
def usage : String :=
  "\n".intercalate
    ["usage: polycurve [-h] [--mode \x7bcli,api\x7d] [--at AT]",
      "                 [--integral-constant INTEGRAL_CONSTANT] [--plot PLOT]",
      "                 [--zoom ZOOM] [--cross-check] [--presets] [--config CONFIG]",
      "                 [--host HOST] [--port PORT] [--log-level LOG_LEVEL]",
      "                 [expression]"]

/-- What is told about a command that fails. -/
def Failure.message : Failure → String
  | settings path (.refused e) => e.message path
  | settings path _ => "The settings in " ++ path ++ " have a value that cannot be read."
  | unknownLevel => "The level of the logs is not known."
  | noExpression => noExpressionMessage
  | noVersion => "The service has no version."
  | fault _ => "The numbers are beyond the range of the arithmetic."

/-- The levels of nesting that a command has. -/
def levels : Nat := 980

/-- The greatest power that the command's system of computer algebra works out. -/
def greatestPower : Nat := 100000000

/-- The text of a file that can be read. -/
def textOf? (path : String) : IO (Option String) := do
  try
    return some (← IO.FS.readFile path)
  catch _ => return none

/-- The time since the start of 1970 in seconds. -/
def now : IO Float := do
  let t ← Std.Time.Timestamp.now
  return Float.ofInt t.toNanosecondsSinceUnixEpoch.val / 1e9

/-- Carries out a command and prints what it leaves behind. -/
def execute (a : Arguments) : IO UInt32 := do
  let path := Path.plain (a.config?.getD "")
  let text? ← textOf? path
  match perform (Exact.system (some greatestPower)) levels (fun other => if other = path then text? else none) () {} a with
  | .error failure =>
    IO.eprintln failure.message
    return 1
  | .ok (outcome, logging) =>
    let stamp := (Log.timestamp (← now)).toOption.getD ""
    for line in logging.lines levels stamp outcome.records do
      IO.eprintln line
    IO.print outcome.output
    return outcome.exitCode.toUInt32

end PolyPlot.CommandLine

open PolyPlot.CommandLine in
/-- Runs the command that the arguments ask for. -/
def main (args : List String) : IO UInt32 := do
  match Arguments.read args with
  | .ok a => execute a
  | .error .help =>
    IO.println usage
    return 0
  | .error .refused =>
    IO.eprintln usage
    return 2
