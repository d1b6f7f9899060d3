import UtilityCss.Text.Quoted

/-!
# Reading UTF-8

Bytes become characters one at a time. Where they do not, the fault says why and how many bytes it takes in;
a lenient reader puts one replacement character for them and goes on behind them.
-/

namespace UtilityCss.Text.Utf8

inductive Reason
  | start
  | continuation
  | ended
  deriving DecidableEq, Repr

def Reason.message : Reason → String
  | start => "invalid start byte"
  | continuation => "invalid continuation byte"
  | ended => "unexpected end of data"

inductive Step
  | char (c : Char) (width : Nat)
  | fault (reason : Reason) (width : Nat)
  deriving Repr

def isContinuation (b : UInt8) : Bool := 0x80 ≤ b && b ≤ 0xBF

def isSecond (first second : UInt8) : Bool :=
  isContinuation second &&
    (first != 0xE0 || 0xA0 ≤ second) && (first != 0xED || second ≤ 0x9F) &&
    (first != 0xF0 || 0x90 ≤ second) && (first != 0xF4 || second ≤ 0x8F)

def payload (b : UInt8) : Nat := b.toNat % 64

def widthOf (first : UInt8) : Nat :=
  if first < 0x80 then 1
  else if first < 0xC2 then 0
  else if first < 0xE0 then 2
  else if first < 0xF0 then 3
  else if first < 0xF5 then 4
  else 0

def step (first : UInt8) (rest : List UInt8) : Step :=
  match widthOf first with
  | 1 => .char (Char.ofNat first.toNat) 1
  | 2 => match rest with
    | [] => .fault .ended 1
    | b :: _ =>
      if isContinuation b then .char (Char.ofNat (first.toNat % 32 * 64 + payload b)) 2
      else .fault .continuation 1
  | 3 => match rest with
    | [] => .fault .ended 1
    | b :: rest =>
      if !isSecond first b then .fault .continuation 1
      else match rest with
        | [] => .fault .ended 2
        | c :: _ =>
          if isContinuation c then
            .char (Char.ofNat ((first.toNat % 16 * 64 + payload b) * 64 + payload c)) 3
          else .fault .continuation 2
  | 4 => match rest with
    | [] => .fault .ended 1
    | b :: rest =>
      if !isSecond first b then .fault .continuation 1
      else match rest with
        | [] => .fault .ended 2
        | c :: rest =>
          if !isContinuation c then .fault .continuation 2
          else match rest with
            | [] => .fault .ended 3
            | d :: _ =>
              if isContinuation d then
                .char (Char.ofNat
                  (((first.toNat % 8 * 64 + payload b) * 64 + payload c) * 64 + payload d)) 4
              else .fault .continuation 3
  | _ => .fault .start 1

def lenientFrom (skip : Nat) (done : List Char) : List UInt8 → List Char
  | [] => done.reverse
  | b :: rest =>
    match skip with
    | skip + 1 => lenientFrom skip done rest
    | 0 => match step b rest with
      | .char c width => lenientFrom (width - 1) (c :: done) rest
      | .fault _ width => lenientFrom (width - 1) ('\uFFFD' :: done) rest

structure Fault where
  reason : Reason
  position : Nat
  bytes : List UInt8
  deriving DecidableEq, Repr

def Fault.message (fault : Fault) : String :=
  let subject := match fault.bytes with
    | [b] => "byte 0x" ++ String.ofList (hexadecimal 2 (Char.ofNat b.toNat)) ++
        s!" in position {fault.position}"
    | bytes => s!"bytes in position {fault.position}-{fault.position + bytes.length - 1}"
  "'utf-8' codec can't decode " ++ subject ++ ": " ++ fault.reason.message

def faultFrom? (skip position : Nat) : List UInt8 → Option Fault
  | [] => none
  | b :: rest =>
    match skip with
    | skip + 1 => faultFrom? skip (position + 1) rest
    | 0 => match step b rest with
      | .char _ width => faultFrom? (width - 1) (position + 1) rest
      | .fault reason width => some { reason, position, bytes := (b :: rest).take width }

def decode (bytes : ByteArray) : Except Fault String :=
  match String.fromUTF8? bytes with
  | some text => .ok text
  | none => .error ((faultFrom? 0 0 bytes.toList).getD { reason := .start, position := 0, bytes := [] })

/-! ### Reading in pieces -/

def pieceSize : Nat := 8192

def charStart (bytes : ByteArray) : Nat → Nat
  | 0 => 0
  | index + 1 => if bytes[index + 1]?.any isContinuation then charStart bytes index else index + 1

/-- Where the bytes begin among which a fault is found when they are read in pieces: with the piece in which
it shows, or with a character before that, which the piece goes on with. Bytes that are missing show at the
end, when nothing but the beginning of their character is left. -/
def piecesStart (bytes : ByteArray) (fault : Fault) : Nat :=
  let shows := match fault.reason with
    | .continuation => fault.position + fault.bytes.length
    | _ => fault.position
  let piece := shows / pieceSize * pieceSize
  if fault.reason = .ended ∨ fault.position ≤ piece then fault.position
  else charStart bytes piece

/-- What reading in pieces comes to: the whole text, or what was read before the bytes with the first fault,
which is counted from their beginning. -/
inductive Reading
  | whole (text : String)
  | cut (text : String) (fault : Fault)
  deriving Repr

def readPieces (bytes : ByteArray) : Reading :=
  match decode bytes with
  | .ok text => .whole text
  | .error fault =>
    let start := piecesStart bytes fault
    .cut (String.ofList (lenientFrom 0 [] (bytes.toList.take start)))
      { fault with position := fault.position - start }

def decodeLenient (bytes : ByteArray) : String :=
  match String.fromUTF8? bytes with
  | some text => text
  | none => String.ofList (lenientFrom 0 [] bytes.toList)

end UtilityCss.Text.Utf8
