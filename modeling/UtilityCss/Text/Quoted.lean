import UtilityCss.Text.Printable

/-!
# Quoted text

How a message shows a text that it was given: between single quotes, or between double quotes when the text
holds single quotes and no double ones. Backslashes, the quote itself and characters that cannot be shown
are escaped.
-/

namespace UtilityCss.Text

def quoteFor (cs : List Char) : Char :=
  if cs.contains '\'' && !cs.contains '"' then '"' else '\''

def hexadecimal (width : Nat) (c : Char) : List Char :=
  let digits := Nat.toDigits 16 c.toNat
  List.replicate (width - digits.length) '0' ++ digits

def shown (quote c : Char) : List Char :=
  if c = quote ∨ c = '\\' then ['\\', c]
  else if c = '\n' then ['\\', 'n']
  else if c = '\r' then ['\\', 'r']
  else if c = '\t' then ['\\', 't']
  else if isPrintable c then [c]
  else if c.toNat ≤ 0xFF then '\\' :: 'x' :: hexadecimal 2 c
  else if c.toNat ≤ 0xFFFF then '\\' :: 'u' :: hexadecimal 4 c
  else '\\' :: 'U' :: hexadecimal 8 c

def quoted (s : String) : String :=
  let cs := s.toList
  let quote := quoteFor cs
  String.ofList (quote :: cs.flatMap (shown quote) ++ [quote])

def quotedBytes (bytes : List UInt8) : String :=
  let cs := bytes.map fun byte => Char.ofNat byte.toNat
  let quote := quoteFor cs
  let shownByte := fun c => if c.toNat < 0x7F then shown quote c else '\\' :: 'x' :: hexadecimal 2 c
  String.ofList ('b' :: quote :: cs.flatMap shownByte ++ [quote])

end UtilityCss.Text
