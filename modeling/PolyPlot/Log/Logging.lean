import PolyPlot.Expression.Error
import PolyPlot.Log.Record

namespace PolyPlot

namespace Log

def packageName : String := "polycurve"

def isWithin (logger name : String) : Bool :=
  name = logger || (logger ++ ".").toList.isPrefixOf name.toList

/-- The full name of a logger: a name that is not under the package's is put there. -/
def loggerName (name : String) : String :=
  if isWithin packageName name then name else packageName ++ "." ++ name

/-- The least level of records that are written where no level is set. -/
def unsetLevel : Level := Level.warning

end Log

/-- What writes records to a stream. Two of them may have one stream and still be told apart. -/
structure Logging.Handler (σ : Type) where
  /-- The count of handlers that were made before it. -/
  place : Nat
  stream : σ

/-- The setting of the package's loggers, for streams of type `σ`. -/
structure Logging (σ : Type) where
  handler? : Option (Logging.Handler σ) := none
  /-- The least level that is written; zero stands for a level that is not set. -/
  level : Log.Level := 0
  /-- Whether records are also passed to whatever listens above the package. -/
  propagates : Bool := true
  /-- The count of handlers that were made so far. -/
  made : Nat := 0

namespace Logging

variable {σ : Type}

/-- The least level of records that are written. -/
def threshold (l : Logging σ) : Log.Level :=
  if l.level = 0 then Log.unsetLevel else l.level

/-- Makes a handler for a stream and sets it and the level. The handler is set first, so it also changes
where the name of the level is not known; the level and the passing on do not. -/
def configure (stream : σ) (levelName : String) (l : Logging σ) : Option Log.Level × Logging σ :=
  let l := { l with handler? := some ⟨l.made, stream⟩, made := l.made + 1 }
  match Log.Level.named? levelName with
  | some level => (some level, { l with level, propagates := false })
  | none => (none, l)

/-- Whether records of a level are written. Levels from zero down are never. -/
def enabled (l : Logging σ) (level : Log.Level) : Bool :=
  0 < level && l.threshold ≤ level

/-- The streams that a record reaches through the package: the one that is set, and those that listen above
the package if records are passed on. Records of other loggers do not come to the package. -/
def receivers (above : List σ) (l : Logging σ) (r : Log.Record) : List σ :=
  if Log.isWithin Log.packageName r.logger && l.enabled r.level then
    (l.handler?.map Handler.stream).toList ++ (if l.propagates then above else [])
  else []

/-- The stream and the line of a record, if it is written. One that has no line is not. -/
def write? (levels : Nat) (timestamp : String) (l : Logging σ) (r : Log.Record) : Option (σ × String) :=
  if l.enabled r.level then
    match l.handler?, r.lineAt levels timestamp with
    | some handler, .ok line => some (handler.stream, line)
    | _, _ => none
  else none

def lines (levels : Nat) (timestamp : String) (l : Logging σ) (records : List Log.Record) : List String :=
  records.filterMap fun r => (l.write? levels timestamp r).map Prod.snd

end Logging

namespace Log.Record

/-- An object with the kind of a refusal. -/
def kindField (e : Expression.Error) : Json :=
  .object [("kind", .text e.kind.name)]

/-- An expression was refused. -/
def rejected (text : String) (e : Expression.Error) : Record :=
  { logger := "polycurve.engine"
    level := Level.debug
    template := "Rejected expression %r: %s"
    args := [.text text, .text e.message]
    extra := kindField e }

end Log.Record

end PolyPlot
