/-!
# Bytes written as text

Four characters of an alphabet of sixty-four stand for three bytes, and one or two equals signs make up for
missing bytes at the end. Characters outside the alphabet count for nothing.
-/

namespace UtilityCss.Text.Base64

def value? (c : Char) : Option Nat :=
  if c.isUpper then some (c.toNat - 'A'.toNat)
  else if c.isLower then some (c.toNat - 'a'.toNat + 26)
  else if c.isDigit then some (c.toNat - '0'.toNat + 52)
  else if c = '+' then some 62
  else if c = '/' then some 63
  else none

structure Group where
  /-- How many characters. -/
  count : Nat := 0
  /-- The bits that belong to the next byte. -/
  bits : Nat := 0
  /-- How many equals signs were read since the last character. -/
  signs : Nat := 0

/-- The bytes of the rest of a text; those in `done` were read before, the last one first. None when the
text ends inside a group. -/
def decodeFrom? (group : Group) (done : List UInt8) : List Char → Option (List UInt8)
  | [] => if group.count = 0 then some done.reverse else none
  | c :: cs =>
    if c = '=' then
      if group.count < 2 then decodeFrom? group done cs
      else if 4 ≤ group.count + group.signs + 1 then some done.reverse
      else decodeFrom? { group with signs := group.signs + 1 } done cs
    else match value? c with
      | none => decodeFrom? group done cs
      | some n =>
        match group.count with
        | 0 => decodeFrom? { count := 1, bits := n } done cs
        | 1 => decodeFrom? { count := 2, bits := n % 16 }
            (UInt8.ofNat (4 * group.bits + n / 16) :: done) cs
        | 2 => decodeFrom? { count := 3, bits := n % 4 }
            (UInt8.ofNat (16 * group.bits + n / 4) :: done) cs
        | _ => decodeFrom? {} (UInt8.ofNat (64 * group.bits + n) :: done) cs

def decode? (cs : List Char) : Option (List UInt8) := decodeFrom? {} [] cs

example : decode? "aGk=".toList = some [104, 105] := by decide +kernel

end UtilityCss.Text.Base64
