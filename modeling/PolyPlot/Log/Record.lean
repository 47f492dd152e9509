import PolyPlot.Json.Writer
import PolyPlot.Log.Template
import PolyPlot.Log.Timestamp

namespace PolyPlot.Log

/-- How urgent a record is, by number. -/
abbrev Level := Int

namespace Level

def debug : Level := 10

def info : Level := 20

def warning : Level := 30

/-- The name of a level; a number between the named ones is written out. -/
def name (level : Level) : String :=
  if level = 0 then "NOTSET"
  else if level = 10 then "DEBUG"
  else if level = 20 then "INFO"
  else if level = 30 then "WARNING"
  else if level = 40 then "ERROR"
  else if level = 50 then "CRITICAL"
  else "Level " ++ String.ofList (Decimal.intText level)

/-- The capital of a letter that occurs in the names of levels. Two letters beyond ASCII have such a
capital too. -/
def capital (c : Char) : Char :=
  if c = 'ı' then 'I' else if c = 'ſ' then 'S' else c.toUpper

/-- The level of a name in letters of either case. -/
def named? (s : String) : Option Level :=
  match String.ofList (s.toList.map capital) with
  | "CRITICAL" | "FATAL" => some 50
  | "ERROR" => some 40
  | "WARNING" | "WARN" => some 30
  | "INFO" => some 20
  | "DEBUG" => some 10
  | "NOTSET" => some 0
  | _ => none

end Level

/-- A message with what is told about it. -/
structure Record where
  logger : String
  level : Level
  template : String
  args : List Json := []
  /-- Fields that are passed along; only those of an object are written. -/
  extra : Json := .null
  /-- The exception that is reported with the message, as it is written. -/
  exception? : Option String := none

/-- Why a record has no line. -/
inductive Failure where
  | moment (error : MomentError)
  | template (error : Template.Error)
  /-- A field cannot be written. -/
  | field (fault : Fault)
  deriving DecidableEq, Repr

namespace Record

/-- The passed fields that do not have the name of a field of the record. -/
def passed (own : List (String × Json)) : Json → List (String × Json)
  | .object members => members.filter fun m => (own.lookup m.1).isNone
  | _ => []

/-- The fields that every record has. -/
def own (timestamp message : String) (r : Record) : List (String × Json) :=
  [("timestamp", .text timestamp), ("level", .text r.level.name), ("logger", .text r.logger),
    ("message", .text message)]

def fields (timestamp message : String) (r : Record) : List (String × Json) :=
  let own := r.own timestamp message
  let all := own ++ passed own r.extra
  match r.exception? with
  | some text => Json.put "exception" (.text text) all
  | none => all

def writingCalls : Nat := 3

/-- The line of a record that was made at a time given as text, with so many levels of nesting left. -/
def lineAt (levels : Nat) (timestamp : String) (r : Record) : Except Failure String := do
  (Decimal.requireWritable r.level).mapError .field
  let message ← (Template.message (levels - 1) r.template r.args).mapError .template
  (Json.write (levels - writingCalls) (.object (r.fields timestamp message))).mapError .field

def line (levels : Nat) (moment : Float) (r : Record) : Except Failure String := do
  let timestamp ← (timestamp moment).mapError .moment
  r.lineAt levels timestamp

end Record

end PolyPlot.Log
