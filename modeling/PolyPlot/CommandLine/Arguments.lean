import PolyPlot.Decimal.Reading

namespace PolyPlot.CommandLine

/-- What is done with the arguments. -/
inductive Mode where
  /-- A report on an expression is printed. -/
  | report
  /-- The service is started. -/
  | service
  deriving DecidableEq, Repr

/-- What a command line asks for. -/
structure Arguments where
  expression : String := ""
  mode : Mode := .report
  points : List Float := []
  integralConstant : Float := 0
  plot? : Option String := none
  zoom? : Option Float := none
  crossCheck : Bool := false
  presets : Bool := false
  config? : Option String := none
  host : String := "127.0.0.1"
  port : Int := 8000
  logLevel? : Option String := none

inductive Key where
  | help
  | mode
  | point
  | integralConstant
  | plot
  | zoom
  | crossCheck
  | presets
  | config
  | host
  | port
  | logLevel
  deriving DecidableEq, Repr

def Key.named : List (String × Key) :=
  [("--help", .help), ("--mode", .mode), ("--at", .point), ("--integral-constant", .integralConstant),
    ("--plot", .plot), ("--zoom", .zoom), ("--cross-check", .crossCheck), ("--presets", .presets),
    ("--config", .config), ("--host", .host), ("--port", .port), ("--log-level", .logLevel)]

/-- Why there are no arguments to go on with. -/
inductive Stop where
  /-- The command line is refused. -/
  | refused
  /-- Help is asked for. -/
  | help
  deriving DecidableEq, Repr

/-- A word of a command line. -/
inductive Word where
  | value (text : String)
  | separator
  /-- The key of an option, with a value if one is attached. -/
  | key (key : Key) (attached? : Option String)
  /-- The short key for help with the characters behind it. -/
  | shortHelp (attached : List Char)
  | unknown
  deriving DecidableEq, Repr

def isNegativeNumber (s : List Char) : Bool :=
  let isNumber := fun (body : List Char) =>
    let whole := body.takeWhile Text.isDecimal
    match body.dropWhile Text.isDecimal with
    | [] => !whole.isEmpty
    | '.' :: fraction => !fraction.isEmpty && fraction.all Text.isDecimal
    | _ => false
  match s with
  | '-' :: body => isNumber body || (body.getLast? = some '\n' && isNumber body.dropLast)
  | _ => false

/-- A word that is no key, though it begins with a dash. -/
def keyless (s : String) : Word :=
  if isNegativeNumber s.toList || s.toList.contains ' ' then .value s else .unknown

def Key.find? (name : String) : Except Stop (Option Key) :=
  match Key.named.lookup name with
  | some k => .ok (some k)
  | none =>
    match Key.named.filter fun n => name.toList.isPrefixOf n.1.toList with
    | [] => .ok none
    | [(_, k)] => .ok (some k)
    | _ => .error .refused

/-- What a word in front of a separator stands for. -/
def Word.ofString (s : String) : Except Stop Word := do
  match s.toList with
  | '-' :: '-' :: _ =>
    let name := s.toList.takeWhile (· ≠ '=')
    let attached? := (s.toList.dropWhile (· ≠ '=')).tail?.map String.ofList
    match ← Key.find? (String.ofList name) with
    | some k => return .key k attached?
    | none => return keyless s
  | '-' :: 'h' :: attached => return .shortHelp attached
  | '-' :: _ :: _ => return keyless s
  | _ => return .value s

/-- The words of a command line. -/
def words : List String → Except Stop (List Word)
  | [] => .ok []
  | s :: rest =>
    if s = "--" then .ok (.separator :: rest.map .value)
    else do return (← Word.ofString s) :: (← words rest)

/-- A value, or a refusal if there is none. -/
def orRefused {β : Type} : Option β → Except Stop β
  | some b => .ok b
  | none => .error .refused

def Mode.named? : String → Option Mode
  | "cli" => some report
  | "api" => some service
  | _ => none

/-- Sets an option that has a value. -/
def Arguments.set (a : Arguments) (k : Key) (v : String) : Except Stop Arguments := do
  match k with
  | .help | .crossCheck | .presets => throw .refused
  | .mode => return { a with mode := ← orRefused (Mode.named? v) }
  | .point => return { a with points := a.points ++ [← orRefused (Decimal.readDouble? v)] }
  | .integralConstant => return { a with integralConstant := ← orRefused (Decimal.readDouble? v) }
  | .plot => return { a with plot? := some v }
  | .zoom => return { a with zoom? := some (← orRefused (Decimal.readDouble? v)) }
  | .config => return { a with config? := some v }
  | .host => return { a with host := v }
  | .port => return { a with port := ← orRefused (Decimal.readInt? v) }
  | .logLevel => return { a with logLevel? := some v }

/-- Whether the short key for help gives help, though short keys are attached to it. Neither a value nor
a dash may be. -/
def givesHelp : List Char → Bool
  | [] => true
  | c :: rest => if c = '=' || c = '-' then false else c ≠ 'h' || givesHelp rest

/-- How far the words of a command line have been read. -/
structure Progress where
  arguments : Arguments := {}
  /-- Whether the expression has been given. -/
  placed : Bool := false
  /-- Whether there was a word for which there is no use. -/
  surplus : Bool := false

/-- Reads a word that is a value on its own: the expression, if that is not yet given. -/
def Progress.place (p : Progress) (text : String) : Progress :=
  if p.placed then { p with surplus := true }
  else { p with arguments := { p.arguments with expression := text }, placed := true }

/-- Reads words. Words without use are refused only at the end, so that help is given before. A
separator is of use only next to the expression or where no expression is given. -/
def Progress.run (p : Progress) : List Word → Except Stop Arguments
  | [] => if p.surplus then .error .refused else .ok p.arguments
  | .value text :: .separator :: rest => run (p.place text) rest
  | .value text :: rest => run (p.place text) rest
  | .separator :: rest => run { p with surplus := p.surplus || p.placed } rest
  | .unknown :: rest => run { p with surplus := true } rest
  | .shortHelp attached :: _ => .error (if givesHelp attached then .help else .refused)
  | .key .help none :: _ => .error .help
  | .key .crossCheck none :: rest =>
    run { p with arguments := { p.arguments with crossCheck := true } } rest
  | .key .presets none :: rest =>
    run { p with arguments := { p.arguments with presets := true } } rest
  | .key k (some v) :: rest => do run { p with arguments := ← p.arguments.set k v } rest
  | .key k none :: .value v :: rest => do run { p with arguments := ← p.arguments.set k v } rest
  | .key _ none :: _ => .error .refused

def Arguments.read (line : List String) : Except Stop Arguments := do
  Progress.run {} (← words line)

end PolyPlot.CommandLine
