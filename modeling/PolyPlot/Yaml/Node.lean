import PolyPlot.Yaml.Kind
import PolyPlot.Yaml.Token

namespace PolyPlot.Yaml

inductive Node where
  | scalar (kind : Kind) (text : String)
  | list (kind : Kind) (items : List Node)
  | mapping (kind : Kind) (members : List (Node × Node))

namespace Node

/-- What stands where nothing is written. -/
def absent : Node :=
  scalar .null ""

/-- The state of reading nodes. -/
structure Reading where
  tokens : List Token
  /-- The beginnings of tags for which handles stand. -/
  handles : List (String × String)
  /-- The nodes that anchors mark; one that is being read has none yet. -/
  anchors : List (String × Option Node) := []

/-- The handles that need no directive. -/
def usualHandles : List (String × String) :=
  [("!", "!"), ("!!", Kind.ownBeginning)]

/-- What is told about a node in front of it. -/
structure Properties where
  anchor? : Option String := none
  tag? : Option TagName := none

abbrev Step := StateT Reading (Except Error)

def peek : Step (Option Token) :=
  return (← get).tokens.head?

/-- Takes the next token. -/
def skip : Step Unit :=
  modify fun r => { r with tokens := r.tokens.tail }

/-- Takes the next token, which has to be this one. -/
def expect (t : Token) : Step Unit := do
  if (← peek) = some t then skip else throw .malformed

/-- Takes the next token if it is this one. -/
def accept (t : Token) : Step Bool := do
  if (← peek) = some t then
    skip
    return true
  else return false

/-- The anchor and the tag in front of a node, in either order. -/
def properties : Step Properties := do
  match (← get).tokens with
  | .anchor name :: .tag t :: rest | .tag t :: .anchor name :: rest =>
    modify ({ · with tokens := rest })
    return ⟨some name, some t⟩
  | .anchor name :: rest =>
    modify ({ · with tokens := rest })
    return ⟨some name, none⟩
  | .tag t :: rest =>
    modify ({ · with tokens := rest })
    return ⟨none, some t⟩
  | _ => return {}

/-- The tag with the beginning for which its handle stands. -/
def fullTag (t : TagName) : Step String := do
  match t.handle? with
  | none => return t.ending
  | some handle =>
    match (← get).handles.lookup handle with
    | some beginning => return beginning ++ t.ending
    | none => throw .malformed

/-- Marks an anchor whose node begins here; no anchor is marked twice. -/
def beginAnchor (name? : Option String) : Step Unit := do
  match name? with
  | none => return
  | some name =>
    if ((← get).anchors.lookup name).isSome then throw .malformed
    modify fun r => { r with anchors := (name, none) :: r.anchors }

def endAnchor (name? : Option String) (n : Node) : Step Unit := do
  match name? with
  | none => return
  | some name => modify fun r => { r with anchors := (name, some n) :: r.anchors }

/-- The node to which an alias refers. -/
def resolve (name : String) : Step Node := do
  match (← get).anchors.lookup name with
  | some (some n) => return n
  | _ => throw .malformed

/-- The kind of a text: told by its tag, else by its form if it is plain. The tag `!` makes it plain. -/
def scalarKind (tag? : Option String) (plain : Bool) (text : String) : Kind :=
  match tag? with
  | some "!" => Kind.ofPlain text
  | some tag => Kind.ofTag tag
  | none => if plain then Kind.ofPlain text else .text

/-- The kind of a list or a mapping, told by its tag if there is one. -/
def collectionKind (usual : Kind) : Option String → Kind
  | none | some "!" => usual
  | some tag => Kind.ofTag tag

def endsMember : Option Token → Bool
  | some .key | some .value | some .blockEnd => true
  | _ => false

mutual

/-- A node. Blocks open only where they may, and entries without an indentation of their own only as
parts of a mapping's block. At most four calls lie between two tokens that are taken, so a budget of four
times their count is never used up. -/
def read (budget : Nat) (inBlock inMapping : Bool) : Step Node := do
  match budget with
  | 0 => throw .malformed
  | budget + 1 =>
    match ← peek with
    | some (.alias name) =>
      skip
      resolve name
    | _ =>
      let p ← properties
      let tag? ← p.tag?.mapM fullTag
      beginAnchor p.anchor?
      let n ← readContent budget inBlock inMapping p tag?
      endAnchor p.anchor? n
      return n

/-- What stands behind the properties of a node. -/
def readContent (budget : Nat) (inBlock inMapping : Bool) (p : Properties) (tag? : Option String) :
    Step Node := do
  match budget with
  | 0 => throw .malformed
  | budget + 1 =>
    match ← peek with
    | some (.scalar text plain) =>
      skip
      return scalar (scalarKind tag? plain text) text
    | some .openList =>
      skip
      return list (collectionKind .list tag?) (← flowItems budget true)
    | some .openMapping =>
      skip
      return mapping (collectionKind .mapping tag?) (← flowMembers budget true)
    | next =>
      if inMapping && next = some .entry then
        return list (collectionKind .list tag?) (← looseItems budget)
      else if inBlock && next = some .blockList then
        skip
        return list (collectionKind .list tag?) (← blockItems budget)
      else if inBlock && next = some .blockMapping then
        skip
        return mapping (collectionKind .mapping tag?) (← blockMembers budget)
      else if p.anchor?.isSome || p.tag?.isSome then
        return scalar (scalarKind tag? true "") ""
      else throw .malformed

/-- The entries of a block up to its end. -/
def blockItems (budget : Nat) : Step (List Node) := do
  match budget with
  | 0 => throw .malformed
  | budget + 1 =>
    if ← accept .entry then
      let next ← peek
      let item ← if next = some .entry || next = some .blockEnd then pure absent
        else read budget true false
      return item :: (← blockItems budget)
    else
      expect .blockEnd
      return []

/-- Entries that are not indented further than the mapping to which they belong. -/
def looseItems (budget : Nat) : Step (List Node) := do
  match budget with
  | 0 => throw .malformed
  | budget + 1 =>
    if ← accept .entry then
      let next ← peek
      let item ← if next = some .entry || endsMember next then pure absent
        else read budget true false
      return item :: (← looseItems budget)
    else return []

def blockMembers (budget : Nat) : Step (List (Node × Node)) := do
  match budget with
  | 0 => throw .malformed
  | budget + 1 =>
    if ← accept .key then
      let key ← if endsMember (← peek) then pure absent else read budget true true
      let value ← blockValue budget
      return (key, value) :: (← blockMembers budget)
    else
      expect .blockEnd
      return []

def blockValue (budget : Nat) : Step Node := do
  match budget with
  | 0 => throw .malformed
  | budget + 1 =>
    if ← accept .value then
      if endsMember (← peek) then return absent else read budget true true
    else return absent

/-- The items of a list in brackets up to its end; `first` tells whether none has been read. -/
def flowItems (budget : Nat) (first : Bool) : Step (List Node) := do
  match budget with
  | 0 => throw .malformed
  | budget + 1 =>
    if ← accept .closeList then return []
    if !first then expect .comma
    if ← accept .closeList then return []
    if ← accept .key then
      let next ← peek
      let key ← if next = some .value || next = some .comma || next = some .closeList then pure absent
        else read budget false false
      let value ← flowValue budget .closeList
      return mapping .mapping [(key, value)] :: (← flowItems budget false)
    else
      let item ← read budget false false
      return item :: (← flowItems budget false)

/-- The members of a mapping in braces up to its end; `first` tells whether none has been read. -/
def flowMembers (budget : Nat) (first : Bool) : Step (List (Node × Node)) := do
  match budget with
  | 0 => throw .malformed
  | budget + 1 =>
    if ← accept .closeMapping then return []
    if !first then expect .comma
    if ← accept .closeMapping then return []
    if ← accept .key then
      let next ← peek
      let key ← if next = some .value || next = some .comma || next = some .closeMapping then pure absent
        else read budget false false
      let value ← flowValue budget .closeMapping
      return (key, value) :: (← flowMembers budget false)
    else
      let key ← read budget false false
      return (key, absent) :: (← flowMembers budget false)

/-- The value behind a key inside brackets that end with a token. -/
def flowValue (budget : Nat) (closing : Token) : Step Node := do
  match budget with
  | 0 => throw .malformed
  | budget + 1 =>
    if ← accept .value then
      let next ← peek
      if next = some .comma || next = some closing then return absent
      else read budget false false
    else return absent

end

/-- The beginnings for which handles stand, from the directives in front of a document. The version
is told at most once and begins with one, and no handle is told twice. -/
def handlesOf (versioned : Bool) (handles : List (String × String)) :
    List Token → Except Error (List (String × String) × List Token)
  | .directive (.version major) :: rest =>
    if versioned || major ≠ 1 then .error .malformed else handlesOf true handles rest
  | .directive (.handle name beginning) :: rest =>
    if (handles.lookup name).isSome then .error .malformed
    else handlesOf versioned ((name, beginning) :: handles) rest
  | .directive .unknown :: rest => handlesOf versioned handles rest
  | tokens => .ok (handles, tokens)

/-- Whether a document without a mark in front begins with these tokens. -/
def isBare : List Token → Bool
  | [] | .directive _ :: _ | .documentStart :: _ => false
  | _ => true

def isEmptyDocument : List Token → Bool
  | [] | .directive _ :: _ | .documentStart :: _ | .documentEnd :: _ => true
  | _ => false

/-- The node of a text with at most one document; none if it has no document. -/
def ofTokens? (tokens : List Token) : Except Error (Option Node) := do
  let budget := 4 * tokens.length + 4
  let single := fun (n : Node) (rest : List Token) =>
    if (rest.dropWhile (· = .documentEnd)).isEmpty then Except.ok (some n)
    else Except.error Error.malformed
  if isBare tokens then
    let (n, r) ← (read budget true false).run { tokens, handles := usualHandles }
    single n r.tokens
  else
    match ← handlesOf false [] tokens with
    | (_, []) => if tokens.isEmpty then return none else throw .malformed
    | (handles, .documentStart :: rest) =>
      if isEmptyDocument rest then single absent rest
      else
        let (n, r) ← (read budget true false).run { tokens := rest, handles := handles ++ usualHandles }
        single n r.tokens
    | _ => throw .malformed

end Node

end PolyPlot.Yaml
