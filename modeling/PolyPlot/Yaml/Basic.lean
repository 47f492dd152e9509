namespace PolyPlot.Yaml

/-- Why a text gives no value. -/
inductive Error where
  /-- The text is not one document of the language. -/
  | malformed
  /-- A number is marked as such but has no character. -/
  | emptyNumber
  /-- A number is marked as such but has no digits where they are needed, or too many. -/
  | noNumber
  /-- A truth value is marked as such but is not the name of one. -/
  | noTruthValue
  /-- A day or a moment is marked as such but is not written like one. -/
  | noMoment
  /-- A day is not in the calendar, or a time not on the clock. -/
  | noSuchMoment
  /-- An escape names a number beyond the code points. -/
  | noCharacter
  /-- An escape names a number beyond thirty-one bits. -/
  | noCharacterByFar
  deriving DecidableEq, Repr

/-- Whether a character ends a line. -/
def isBreak (c : Char) : Bool :=
  c = '\n' || c = '\u2028' || c = '\u2029'

/-- Whether a character is a space or a tab. -/
def isPad (c : Char) : Bool :=
  c = ' ' || c = '\t'

/-- Whether a text ends, or goes on with a space or a break. -/
def endsWord : List Char → Bool
  | [] => true
  | c :: _ => c = ' ' || isBreak c

/-- Whether a text ends, or goes on with a space, a tab or a break. -/
def endsToken : List Char → Bool
  | [] => true
  | c :: _ => isPad c || isBreak c

/-- Whether a line begins with a mark between documents. -/
def isSeparator : List Char → Bool
  | '-' :: '-' :: '-' :: rest => endsToken rest
  | '.' :: '.' :: '.' :: rest => endsToken rest
  | _ => false

def foldLineEnds : List Char → List Char
  | [] => []
  | '\r' :: '\n' :: rest => '\n' :: foldLineEnds rest
  | c :: rest => (if c = '\r' || c = '\u0085' then '\n' else c) :: foldLineEnds rest

/-- Whether a character may stand in a document. -/
def isAllowed (c : Char) : Bool :=
  let n := c.toNat
  c = '\t' || c = '\n' || c = '\r' || (0x20 ≤ n && n ≤ 0x7E) || n == 0x85
    || (0xA0 ≤ n && n ≤ 0xFFFD) || 0x10000 ≤ n

/-- A text behind the spaces at its front. -/
def skipSpaces (s : List Char) : List Char :=
  s.dropWhile (· = ' ')

/-- A text behind the rest of its line, if that is a comment. -/
def skipComment : List Char → List Char
  | '#' :: rest => rest.dropWhile (!isBreak ·)
  | s => s

/-- A text behind a line that holds nothing more than a comment. -/
def skipLine (s : List Char) : Except Error (List Char) :=
  match skipComment (skipSpaces s) with
  | [] => .ok []
  | c :: rest => if isBreak c then .ok rest else .error .malformed

end PolyPlot.Yaml
