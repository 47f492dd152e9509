import PolyPlot.Yaml.Basic

namespace PolyPlot.Yaml

/-- What becomes of the line ends at the end of a block. -/
inductive Chomping where
  /-- One stays. -/
  | clip
  /-- None stays. -/
  | strip
  /-- All stay. -/
  | keep
  deriving DecidableEq, Repr

/-- The marks behind the sign that begins a block. -/
structure BlockHeader where
  chomping : Chomping
  /-- How far the block is indented against what surrounds it, if that is told. -/
  indent? : Option Nat
  deriving DecidableEq, Repr

/-- The mark for the line ends at the end of a block. -/
def takeChomping : List Char → Option Chomping × List Char
  | '+' :: rest => (some .keep, rest)
  | '-' :: rest => (some .strip, rest)
  | s => (none, s)

/-- The mark for the indentation of a block, which is not zero. -/
def takeIndent : List Char → Except Error (Option Nat × List Char)
  | c :: rest =>
    if c = '0' then .error .malformed
    else if c.isDigit then .ok (some (c.toNat - '0'.toNat), rest)
    else .ok (none, c :: rest)
  | [] => .ok (none, [])

/-- The marks of a block, in either order, with the rest of their line. -/
def readHeader (s : List Char) : Except Error (BlockHeader × List Char) := do
  let (before?, rest) := takeChomping s
  let (indent?, rest) ← takeIndent rest
  let (after?, rest) := if before?.isSome then (none, rest) else takeChomping rest
  if !endsWord rest then throw .malformed
  return (⟨(before? <|> after?).getD .clip, indent?⟩, ← skipLine rest)

/-- The breaks of blank lines, and how far the line behind them is indented, with the text behind its
indentation. Of a line at most `limit` spaces are taken as indentation. -/
def takeBreaks (limit column : Nat) : List Char → List Char × Nat × List Char
  | [] => ([], column, [])
  | c :: rest =>
    if isBreak c then
      let (breaks, last, after) := takeBreaks limit 0 rest
      (c :: breaks, last, after)
    else if c = ' ' ∧ column < limit then takeBreaks limit (column + 1) rest
    else ([], column, c :: rest)

/-- The greatest indentation among the blank lines at the front of a text and the line behind them. -/
def widestIndent (column : Nat) : List Char → Nat
  | [] => column
  | c :: rest =>
    if isBreak c then max column (widestIndent 0 rest)
    else if c = ' ' then widestIndent (column + 1) rest
    else column

/-- A line of a block with the break that ends it and those of the blank lines behind it. -/
structure BlockLine where
  text : List Char
  ending : List Char
  breaks : List Char

/-- Whether a line begins with text and not with further indentation. -/
def BlockLine.isFlush (l : BlockLine) : Bool :=
  !(l.text.head?.any isPad)

/-- The lines of a block, given the text behind the indentation of the first one. Each round reads a
line, so a budget of the text's length is never used up. -/
def takeLines (indent budget : Nat) (s : List Char) : List BlockLine × List Char :=
  match budget, s with
  | 0, _ | _, [] => ([], s)
  | budget + 1, _ =>
    let text := s.takeWhile (!isBreak ·)
    let rest := s.dropWhile (!isBreak ·)
    let (breaks, column, after) := takeBreaks indent 0 (rest.drop 1)
    let line : BlockLine := ⟨text, rest.take 1, breaks⟩
    if column = indent then
      let (lines, after) := takeLines indent budget after
      (line :: lines, after)
    else ([line], after)

def between (folded : Bool) (first second : BlockLine) : List Char :=
  if folded && first.ending = ['\n'] && first.isFlush && second.isFlush then
    if first.breaks.isEmpty then [' '] else first.breaks
  else first.ending ++ first.breaks

def joinLines (folded : Bool) (chomping : Chomping) : List BlockLine → List Char
  | [] => []
  | [last] =>
    last.text ++
      match chomping with
      | .clip => last.ending
      | .strip => []
      | .keep => last.ending ++ last.breaks
  | first :: second :: rest =>
    first.text ++ between folded first second ++ joinLines folded chomping (second :: rest)

/-- The text of a block, given what stands behind the sign that begins it. The block is indented by
one space more than what surrounds it, or further as its first line or its header tells. -/
def readBlock (folded : Bool) (outer : Int) (s : List Char) :
    Except Error (List Char × List Char) := do
  let (header, body) ← readHeader s
  let least := (max (outer + 1) 1).toNat
  let indent :=
    match header.indent? with
    | some more => least + more - 1
    | none => max least (widestIndent 0 body)
  let (breaks, column, first) := takeBreaks indent 0 body
  if column = indent ∧ first ≠ [] then
    let (lines, rest) := takeLines indent first.length first
    return (breaks ++ joinLines folded header.chomping lines, rest)
  else
    return (if header.chomping = .keep then breaks else [], first)

/-- Whether a colon in front of this text separates a key from its value. -/
def endsKey (inFlow : Bool) (s : List Char) : Bool :=
  endsToken s || (inFlow && s.head?.any ",[]\x7b\x7d".toList.contains)

/-- Whether a character ends a text without quotes inside brackets. -/
def endsInFlow (c : Char) : Bool :=
  ",?[]\x7b\x7d".toList.contains c

/-- The piece of a text without quotes up to a blank or a mark. -/
def takePiece (inFlow : Bool) : List Char → List Char × List Char
  | [] => ([], [])
  | c :: rest =>
    if isPad c || isBreak c || (c = ':' && endsKey inFlow rest) || (inFlow && endsInFlow c) then
      ([], c :: rest)
    else
      let (piece, after) := takePiece inFlow rest
      (c :: piece, after)

/-- The blanks behind a piece of a text without quotes. -/
structure Gap where
  /-- What stands for them if the text goes on. -/
  text : List Char
  /-- Whether they hold a line end. -/
  broken : Bool
  /-- The indentation of the line behind them, if they hold a line end. -/
  column : Nat
  /-- Whether the text cannot go on because a mark between documents follows. -/
  ends : Bool

/-- The breaks of blank lines up to a line that is not blank or a mark between documents. -/
def takeGapBreaks (column : Nat) : List Char → List Char × Nat × Bool × List Char
  | [] => ([], column, false, [])
  | c :: rest =>
    if isBreak c then
      if isSeparator rest then ([c], 0, true, rest)
      else
        let (breaks, gap) := takeGapBreaks 0 rest
        (c :: breaks, gap)
    else if c = ' ' then takeGapBreaks (column + 1) rest
    else ([], column, false, c :: rest)

/-- The blanks at the front of a text. -/
def takeGap (s : List Char) : Gap × List Char :=
  let spaces := s.takeWhile (· = ' ')
  match s.dropWhile (· = ' ') with
  | c :: rest =>
    if isBreak c then
      if isSeparator rest then (⟨[], true, 0, true⟩, rest)
      else
        let (breaks, column, ends, after) := takeGapBreaks 0 rest
        let text := if c ≠ '\n' then c :: breaks else if breaks.isEmpty then [' '] else breaks
        (⟨text, true, column, ends⟩, after)
    else (⟨spaces, false, 0, spaces.isEmpty⟩, c :: rest)
  | [] => (⟨spaces, false, 0, spaces.isEmpty⟩, [])

/-- A text without quotes, whether the blanks behind it hold a line end, and the text behind them. Outside
brackets it goes on only on lines that are indented far enough. Each round reads a character, so a
budget of the text's length is never used up. -/
def readPlain (inFlow : Bool) (indent : Int) (budget : Nat) (s : List Char) :
    List Char × Bool × List Char :=
  match budget with
  | 0 => ([], false, s)
  | budget + 1 =>
    let (piece, behind) := takePiece inFlow s
    let (gap, after) := takeGap behind
    let stops := gap.ends || after.head? = some '#' || (gap.broken && !inFlow && gap.column < indent)
    if stops || (takePiece inFlow after).1.isEmpty then (piece, gap.broken, after)
    else
      let (more, broken, rest) := readPlain inFlow indent budget after
      (piece ++ gap.text ++ more, broken, rest)

end PolyPlot.Yaml
