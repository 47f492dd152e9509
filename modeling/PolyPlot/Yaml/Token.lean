import PolyPlot.Yaml.Block
import PolyPlot.Yaml.Quoted

namespace PolyPlot.Yaml

inductive Token where
  | directive (directive : Directive)
  | documentStart
  | documentEnd
  | blockList
  | blockMapping
  | blockEnd
  | openList
  | closeList
  | openMapping
  | closeMapping
  | comma
  /-- A dash in front of an entry of a block. -/
  | entry
  | key
  | value
  | alias (name : String)
  | anchor (name : String)
  | tag (tag : TagName)
  /-- A text; one without quotes may stand for something else. -/
  | scalar (text : String) (plain : Bool)
  deriving DecidableEq, Repr

/-- How far a text has been read. -/
structure Place where
  rest : List Char
  offset : Nat
  line : Nat
  column : Nat

namespace Place

/-- The place behind one character. A byte order mark takes no column. -/
def advance (p : Place) : Place :=
  match p.rest with
  | [] => p
  | c :: rest =>
    if isBreak c then ⟨rest, p.offset + 1, p.line + 1, 0⟩
    else ⟨rest, p.offset + 1, p.line, if c = '\uFEFF' then p.column else p.column + 1⟩

/-- The place at which this end of the text begins. -/
def moveTo (rest : List Char) (p : Place) : Place :=
  (List.range (p.rest.length - rest.length)).foldl (fun q _ => q.advance) p

end Place

/-- A token that becomes a key if a colon follows on its line. -/
structure PossibleKey where
  /-- The count of tokens in front of it. -/
  token : Nat
  offset : Nat
  line : Nat
  column : Nat
  /-- Whether nothing but a key can stand there. -/
  required : Bool

/-- The state of reading tokens. -/
structure Layout where
  place : Place
  tokens : Array Token := #[]
  /-- The indentation of the innermost block, less than zero outside blocks. -/
  indent : Int := -1
  /-- The indentations of the blocks around it. -/
  outer : List Int := []
  /-- Whether a key may begin here. -/
  mayKey : Bool := true
  /-- The possible key outside brackets or at the innermost level of them. -/
  key? : Option PossibleKey := none
  /-- The possible keys at the levels around it. -/
  outerKeys : List (Option PossibleKey) := []

namespace Layout

/-- The most characters from the start of a key to its colon. -/
def longestKey : Nat := 1024

/-- Whether the place is inside brackets. -/
def inFlow (l : Layout) : Bool :=
  !l.outerKeys.isEmpty

def push (t : Token) (l : Layout) : Layout :=
  { l with tokens := l.tokens.push t }

/-- Sets tokens in front of one that has been read. -/
def insert (index : Nat) (new : List Token) (l : Layout) : Layout :=
  { l with tokens := l.tokens.take index ++ new.toArray ++ l.tokens.drop index }

/-- Moves to the end of the text that begins here. -/
def moveTo (rest : List Char) (l : Layout) : Layout :=
  { l with place := l.place.moveTo rest }

/-- Drops a possible key; one that was required is missed. -/
def dropKey (l : Layout) : Except Error Layout :=
  if l.key?.any (·.required) then .error .malformed else .ok { l with key? := none }

/-- Whether it is too late for a colon: the key is on another line or too long. -/
def isStale (p : Place) (k : PossibleKey) : Bool :=
  k.line ≠ p.line || longestKey < p.offset - k.offset

/-- Drops the possible keys for which it is too late. -/
def dropStale (l : Layout) : Except Error Layout := do
  let fresh := fun (k? : Option PossibleKey) =>
    match k? with
    | some k =>
      if isStale l.place k then if k.required then Except.error Error.malformed else .ok none
      else .ok (some k)
    | none => .ok none
  return { l with key? := ← fresh l.key?, outerKeys := ← l.outerKeys.mapM fresh }

/-- Keeps the next token as a possible key. -/
def saveKey (l : Layout) : Except Error Layout := do
  if l.mayKey then
    let required := !l.inFlow && l.indent = l.place.column
    let next ← l.dropKey
    return { next with
      key? := some ⟨l.tokens.size, l.place.offset, l.place.line, l.place.column, required⟩ }
  else return l

/-- Ends the blocks that are indented further than a column. -/
def unwindTo (column : Int) (l : Layout) : Layout :=
  if l.inFlow then l else go l l.outer
where
  go (l : Layout) : List Int → Layout
    | [] => l
    | outer :: rest =>
      if column < l.indent then go { l.push .blockEnd with indent := outer, outer := rest } rest else l

def openBlock (column : Nat) (l : Layout) : Bool × Layout :=
  if l.indent < column then (true, { l with indent := column, outer := l.indent :: l.outer })
  else (false, l)

/-- Opens a block at the place, in front of a token that belongs to it. Outside brackets such a token
stands only where a key may begin. -/
def openHere (opening : Token) (l : Layout) : Except Error Layout :=
  if l.inFlow then .ok l
  else if l.mayKey then
    match l.openBlock l.place.column with
    | (true, next) => .ok (next.push opening)
    | (false, next) => .ok next
  else .error .malformed

/-- The place behind spaces, comments and line ends. Outside brackets a key may begin after a line
end. Each round reads a character, so a budget of the text's length is never used up. -/
def skipBlanks (budget : Nat) (l : Layout) : Layout :=
  match budget with
  | 0 => l
  | budget + 1 =>
    let l := l.moveTo (skipComment (skipSpaces l.place.rest))
    match l.place.rest with
    | c :: rest =>
      if isBreak c then
        let next := l.moveTo rest
        skipBlanks budget { next with mayKey := next.mayKey || !next.inFlow }
      else l
    | [] => l

/-- A mark between documents, or a directive: all blocks end. -/
def topLevel (t : Token) (rest : List Char) (l : Layout) : Except Error Layout := do
  let next ← (l.unwindTo (-1)).dropKey
  return { (next.push t).moveTo rest with mayKey := false }

def keyLike (t : Token) (rest : List Char) (l : Layout) : Except Error Layout := do
  let next ← l.saveKey
  return { (next.push t).moveTo rest with mayKey := false }

def openFlow (t : Token) (rest : List Char) (l : Layout) : Except Error Layout := do
  let next ← l.saveKey
  return { (next.push t).moveTo rest with
    mayKey := true, key? := none, outerKeys := next.key? :: next.outerKeys }

def closeFlow (t : Token) (rest : List Char) (l : Layout) : Except Error Layout := do
  let next ← l.dropKey
  match next.outerKeys with
  | [] => throw .malformed
  | key? :: outerKeys =>
    return { (next.push t).moveTo rest with mayKey := false, key?, outerKeys }

/-- A comma between entries in brackets. -/
def comma (rest : List Char) (l : Layout) : Except Error Layout := do
  let next ← l.dropKey
  return { (next.push .comma).moveTo rest with mayKey := true }

/-- A dash in front of an entry. -/
def entry (rest : List Char) (l : Layout) : Except Error Layout := do
  let next ← (← l.openHere .blockList).dropKey
  return { (next.push .entry).moveTo rest with mayKey := true }

def questionMark (rest : List Char) (l : Layout) : Except Error Layout := do
  let next ← (← l.openHere .blockMapping).dropKey
  return { (next.push .key).moveTo rest with mayKey := !l.inFlow }

/-- A colon: the possible key in front of it becomes a key, and opens a block if it is indented
further than what surrounds it. -/
def colon (rest : List Char) (l : Layout) : Except Error Layout := do
  match l.key? with
  | some k =>
    let next := { l.insert k.token [.key] with key? := none }
    let next :=
      if next.inFlow then next
      else
        match next.openBlock k.column with
        | (true, opened) => opened.insert k.token [.blockMapping]
        | (false, same) => same
    return { (next.push .value).moveTo rest with mayKey := false }
  | none =>
    let next ← l.openHere .blockMapping
    return { (next.push .value).moveTo rest with mayKey := !l.inFlow }

def block (folded : Bool) (rest : List Char) (l : Layout) : Except Error Layout := do
  let next ← l.dropKey
  let (text, rest) ← readBlock folded l.indent rest
  return { (next.push (.scalar (String.ofList text) false)).moveTo rest with mayKey := true }

def quoted (quote : Char) (rest : List Char) (l : Layout) : Except Error Layout := do
  let (text, rest) ← readQuoted quote rest.length rest
  l.keyLike (.scalar (String.ofList text) false) rest

/-- A text without quotes. A key may begin behind it if a line ends there. -/
def plain (l : Layout) : Except Error Layout := do
  let s := l.place.rest
  let (text, broken, rest) := readPlain l.inFlow (l.indent + 1) s.length s
  let next ← l.keyLike (.scalar (String.ofList text) true) rest
  return { next with mayKey := broken }

def beginsPlain (inFlow : Bool) (c : Char) (rest : List Char) : Bool :=
  if c = '-' then !endsToken rest
  else if c = '?' || c = ':' then !inFlow && !endsToken rest
  else !(isPad c || isBreak c || ",[]\x7b\x7d#&*!|>'\"%@\x60".toList.contains c)

/-- Reads a token, given its first character and the text behind it. -/
def token (c : Char) (rest : List Char) (l : Layout) : Except Error Layout := do
  let atStart := l.place.column == 0
  if c = '%' && atStart then
    let (directive, after) ← readDirective rest
    l.topLevel (.directive directive) after
  else if c = '-' && atStart && isSeparator (c :: rest) then l.topLevel .documentStart (rest.drop 2)
  else if c = '.' && atStart && isSeparator (c :: rest) then l.topLevel .documentEnd (rest.drop 2)
  else if c = '[' then l.openFlow .openList rest
  else if c = '\x7b' then l.openFlow .openMapping rest
  else if c = ']' then l.closeFlow .closeList rest
  else if c = '\x7d' then l.closeFlow .closeMapping rest
  else if c = ',' then l.comma rest
  else if c = '-' && endsToken rest then l.entry rest
  else if c = '?' && (l.inFlow || endsToken rest) then l.questionMark rest
  else if c = ':' && (l.inFlow || endsToken rest) then l.colon rest
  else if c = '*' then
    let (name, after) ← readAnchor rest
    l.keyLike (.alias name) after
  else if c = '&' then
    let (name, after) ← readAnchor rest
    l.keyLike (.anchor name) after
  else if c = '!' then
    let (tag, after) ← readTag rest
    l.keyLike (.tag tag) after
  else if c = '|' && !l.inFlow then l.block false rest
  else if c = '>' && !l.inFlow then l.block true rest
  else if c = '\'' || c = '"' then l.quoted c rest
  else if beginsPlain l.inFlow c rest then l.plain
  else throw .malformed

/-- Reads tokens up to the end of the text. Each round reads a character, so a budget above the text's
length is never used up. -/
def run (budget : Nat) (l : Layout) : Except Error Layout :=
  match budget with
  | 0 => .error .malformed
  | budget + 1 => do
    let here ← (l.skipBlanks l.place.rest.length).dropStale
    match here.place.rest with
    | [] => (here.unwindTo (-1)).dropKey
    | c :: rest => run budget (← (here.unwindTo here.place.column).token c rest)

end Layout

def tokens (text : List Char) : Except Error (List Token) := do
  let body :=
    match text with
    | '\uFEFF' :: rest => rest
    | _ => text
  let l ← Layout.run (body.length + 1) { place := ⟨body, 0, 0, 0⟩ }
  return l.tokens.toList

end PolyPlot.Yaml
