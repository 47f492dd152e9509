import PolyPlot.Yaml.Name

namespace PolyPlot.Yaml

/-- The breaks of the blank lines at the front of a text, which begins at a line's start, and the text
behind the spaces and tabs of the line that is not blank. Each round reads a break, so a budget of the
text's length is never used up. -/
def takeBlankLines (budget : Nat) (s : List Char) : Except Error (List Char × List Char) :=
  match budget with
  | 0 => .ok ([], s)
  | budget + 1 =>
    if isSeparator s then .error .malformed
    else
      match s.dropWhile isPad with
      | c :: rest =>
        if isBreak c then (takeBlankLines budget rest).map fun (breaks, after) => (c :: breaks, after)
        else .ok ([], c :: rest)
      | [] => .ok ([], [])

/-- The text for a break and the breaks of the blank lines behind it. -/
def foldedBreak (c : Char) (breaks : List Char) : List Char :=
  if c ≠ '\n' then c :: breaks
  else if breaks.isEmpty then [' ']
  else breaks

/-- The character that a letter after a backslash stands for. -/
def escaped? : Char → Option Char
  | '0' => some '\x00'
  | 'a' => some '\x07'
  | 'b' => some '\x08'
  | 't' | '\t' => some '\t'
  | 'n' => some '\n'
  | 'v' => some '\x0b'
  | 'f' => some '\x0c'
  | 'r' => some '\r'
  | 'e' => some '\x1b'
  | ' ' => some ' '
  | '"' => some '"'
  | '\\' => some '\\'
  | '/' => some '/'
  | 'N' => some '\u0085'
  | '_' => some '\u00a0'
  | 'L' => some '\u2028'
  | 'P' => some '\u2029'
  | _ => none

/-- The count of digits of a code point after a letter. -/
def codeLength? : Char → Option Nat
  | 'x' => some 2
  | 'u' => some 4
  | 'U' => some 8
  | _ => none

/-- The character of a code point. A surrogate has none and becomes the replacement character. -/
def ofCode (n : Nat) : Except Error Char :=
  if 0x80000000 ≤ n then .error .noCharacterByFar
  else if 0x110000 ≤ n then .error .noCharacter
  else if 0xD800 ≤ n ∧ n < 0xE000 then .ok '\uFFFD'
  else .ok (Char.ofNat n)

/-- The number that hexadecimal digits write. -/
def hexValue? (digits : List Char) : Option Nat :=
  digits.foldl (fun n? c => do return 16 * (← n?) + (← hexDigit? c)) (some 0)

/-- The text that an escape stands for, given the text behind its backslash. -/
def readEscape : List Char → Except Error (List Char × List Char)
  | [] => .error .malformed
  | c :: rest =>
    match escaped? c, codeLength? c with
    | some e, _ => .ok ([e], rest)
    | none, some count => do
      let digits := rest.take count
      match hexValue? digits with
      | some n =>
        if digits.length = count then return ([← ofCode n], rest.drop count) else throw .malformed
      | none => throw .malformed
    | none, none =>
      if isBreak c then takeBlankLines rest.length rest else .error .malformed

/-- A text up to its closing quote. Each round reads a character, so a budget of the text's length is
never used up. -/
def readQuoted (quote : Char) (budget : Nat) (s : List Char) : Except Error (List Char × List Char) :=
  match budget, s with
  | _, [] => .error .malformed
  | 0, _ => .error .malformed
  | budget + 1, c :: rest => do
    if c = quote then
      match rest with
      | '\'' :: after =>
        if quote = '\'' then
          let (text, after) ← readQuoted quote budget after
          return ('\'' :: text, after)
        else return ([], rest)
      | _ => return ([], rest)
    else if c = '\\' ∧ quote = '"' then
      let (piece, after) ← readEscape rest
      let (text, after) ← readQuoted quote budget after
      return (piece ++ text, after)
    else if isPad c || isBreak c then
      let pads := s.takeWhile isPad
      match s.dropWhile isPad with
      | [] => throw .malformed
      | b :: after =>
        let (piece, after) ←
          if isBreak b then
            (takeBlankLines after.length after).map fun (breaks, after) =>
              (foldedBreak b breaks, after)
          else pure (pads, b :: after)
        let (text, after) ← readQuoted quote budget after
        return (piece ++ text, after)
    else
      let (text, after) ← readQuoted quote budget rest
      return (c :: text, after)

end PolyPlot.Yaml
