import PolyPlot.Text.Quoted
import PolyPlot.Yaml.Basic

namespace PolyPlot.Yaml.Bytes

/-- The six bits for which a character stands. -/
def sextet? (c : Char) : Option Nat :=
  if c.isUpper then some (c.toNat - 'A'.toNat)
  else if c.isLower then some (c.toNat - 'a'.toNat + 26)
  else if c.isDigit then some (c.toNat - '0'.toNat + 52)
  else if c = '+' then some 62
  else if c = '/' then some 63
  else none

/-- The bytes that the rest of a text writes. The place in a group of four tells how many characters of it
have been read, `held` are the bits of the last one that belong to the next byte, and `pads` counts the
signs of padding behind it. Other characters are skipped, and a filled up group ends the text. -/
def decode (place held pads : Nat) : List Char → Except Error (List UInt8)
  | [] => if place = 0 then .ok [] else .error .malformed
  | c :: rest =>
    if c = '=' then
      if place < 2 then decode place held pads rest
      else if 4 ≤ place + pads + 1 then .ok []
      else decode place held (pads + 1) rest
    else
      match sextet? c with
      | none => decode place held pads rest
      | some bits =>
        match place with
        | 0 => decode 1 bits 0 rest
        | 1 => (decode 2 (bits % 16) 0 rest).map (UInt8.ofNat (held * 4 + bits / 16) :: ·)
        | 2 => (decode 3 (bits % 4) 0 rest).map (UInt8.ofNat (held * 16 + bits / 4) :: ·)
        | _ => (decode 0 0 0 rest).map (UInt8.ofNat (held * 64 + bits) :: ·)

/-- The bytes that a text of ASCII characters writes. -/
def ofText (s : String) : Except Error (List UInt8) :=
  if s.toList.all (·.toNat < 0x80) then decode 0 0 0 s.toList else .error .malformed

/-- The text of which these are the characters; one beyond ASCII is unknown. -/
def text (b : List UInt8) : String :=
  String.ofList (b.map fun n => if n < 0x80 then Char.ofNat n.toNat else '\uFFFD')

/-- Bytes in quotes, with what is not visible ASCII by its number. -/
def shown (b : List UInt8) : String :=
  let characters := b.map fun n => Char.ofNat n.toNat
  let quote := Text.quoteOf characters
  let shownByte := fun (c : Char) =>
    if c.toNat < 0x7F then Text.shownChar quote c else Text.codeEscape c
  String.ofList ('b' :: quote :: characters.flatMap shownByte ++ [quote])

end PolyPlot.Yaml.Bytes
