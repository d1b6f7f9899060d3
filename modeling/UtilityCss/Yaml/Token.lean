import UtilityCss.Yaml.Directive

/-!
# Tokens of a configuration text

Indentation becomes tokens: a collection of lines is opened where its first line begins and closed before
the first line that begins further left. Whether a scalar is a key shows only at the colon behind it, on the
same line and not too far away; the token that marks a key is then put in front of what was read since. Where
the text is malformed the tokens end with one that says so.
-/

namespace UtilityCss.Yaml

inductive Token
  | documentStart
  | documentEnd
  | sequenceStart
  | mappingStart
  | blockEnd
  | flowSequenceStart
  | flowSequenceEnd
  | flowMappingStart
  | flowMappingEnd
  | flowEntry
  | blockEntry
  | key
  | value
  | scalar (text : String) (plain : Bool)
  | directive (directive : Directive)
  | tag (shorthand : Shorthand)
  | anchor (name : String)
  | reference (name : String)
  /-- Nothing more can be read. -/
  | broken (fault : Fault)
  deriving DecidableEq, Repr

/-- Something that may turn out to be a key. -/
structure Candidate where
  /-- How many tokens stand before it. -/
  position : Nat
  /-- Nothing else can stand where it begins. -/
  required : Bool
  line : Nat
  column : Nat
  index : Nat
  deriving Repr

def keyWidth : Nat := 1024

def Candidate.isPast (candidate : Candidate) (cursor : Cursor) : Bool :=
  candidate.line ≠ cursor.line || candidate.index + keyWidth < cursor.index

structure Lexer where
  cursor : Cursor
  /-- The columns of the collections that are open, the innermost first. -/
  indents : List Nat := []
  /-- Whether a key may begin here. -/
  keyAllowed : Bool := true
  candidate : Option Candidate := none
  /-- The candidates around each open bracket, the innermost first. -/
  enclosing : List (Option Candidate) := []
  /-- The tokens so far, the last one first. -/
  reversed : List Token := []
  count : Nat := 0
  deriving Repr

namespace Lexer

def inFlow (lexer : Lexer) : Bool := !lexer.enclosing.isEmpty

def push (lexer : Lexer) (token : Token) : Lexer :=
  { lexer with reversed := token :: lexer.reversed, count := lexer.count + 1 }

def insert (lexer : Lexer) (position : Nat) (token : Token) : Lexer :=
  { lexer with
    reversed := lexer.reversed.insertIdx (lexer.count - position) token
    count := lexer.count + 1 }

def pass (lexer : Lexer) (n : Nat) : Lexer := { lexer with cursor := lexer.cursor.pass n }

def refreshed (cursor : Cursor) (candidate : Option Candidate) : Except Fault (Option Candidate) :=
  match candidate with
  | none => .ok none
  | some candidate =>
    if !candidate.isPast cursor then .ok (some candidate)
    else if candidate.required then .error .malformed
    else .ok none

def refresh (lexer : Lexer) : Except Fault Lexer := do
  let candidate ← refreshed lexer.cursor lexer.candidate
  let enclosing ← lexer.enclosing.mapM (refreshed lexer.cursor)
  return { lexer with candidate, enclosing }

def dropCandidate (lexer : Lexer) : Except Fault Lexer :=
  if lexer.candidate.any Candidate.required then .error .malformed
  else .ok { lexer with candidate := none }

/-- What begins here may be a key, where keys are allowed. -/
def propose (lexer : Lexer) : Except Fault Lexer :=
  if !lexer.keyAllowed then .ok lexer
  else
    lexer.dropCandidate.map fun lexer => { lexer with candidate := some {
      position := lexer.count
      required := !lexer.inFlow && lexer.indents.head? = some lexer.cursor.column
      line := lexer.cursor.line
      column := lexer.cursor.column
      index := lexer.cursor.index } }

def closeTo (lexer : Lexer) (column : Nat) : Lexer :=
  let closed := lexer.indents.takeWhile (column < ·)
  if lexer.inFlow then lexer
  else { lexer with
    indents := lexer.indents.drop closed.length
    reversed := List.replicate closed.length Token.blockEnd ++ lexer.reversed
    count := lexer.count + closed.length }

def closeAll (lexer : Lexer) : Lexer :=
  if lexer.inFlow then lexer
  else { lexer with
    indents := []
    reversed := List.replicate lexer.indents.length Token.blockEnd ++ lexer.reversed
    count := lexer.count + lexer.indents.length }

def openAt (lexer : Lexer) (column position : Nat) (token : Token) : Lexer :=
  if lexer.indents.head?.all (· < column) then
    { lexer.insert position token with indents := column :: lexer.indents }
  else lexer

def leaveAll (lexer : Lexer) : Except Fault Lexer := do
  let lexer ← lexer.closeAll.dropCandidate
  return { lexer with keyAllowed := false }

def divide (lexer : Lexer) (token : Token) : Except Fault Lexer :=
  lexer.leaveAll.map fun lexer => (lexer.push token).pass 3

def directive (lexer : Lexer) : Except Fault Lexer := do
  let lexer ← lexer.leaveAll
  let (directive, after) ← Directive.read lexer.cursor.next
  return { lexer.push (.directive directive) with cursor := after }

def openFlow (lexer : Lexer) (token : Token) : Except Fault Lexer := do
  let lexer ← lexer.propose
  return ({ lexer with
    enclosing := lexer.candidate :: lexer.enclosing
    candidate := none
    keyAllowed := true }.push token).pass 1

def closeFlow (lexer : Lexer) (token : Token) : Except Fault Lexer := do
  let lexer ← lexer.dropCandidate
  match lexer.enclosing with
  | [] => throw .malformed
  | candidate :: enclosing =>
    return ({ lexer with candidate, enclosing, keyAllowed := false }.push token).pass 1

def flowEntry (lexer : Lexer) : Except Fault Lexer := do
  let lexer ← lexer.dropCandidate
  return ({ lexer with keyAllowed := true }.push .flowEntry).pass 1

def opening (lexer : Lexer) (token : Token) : Except Fault Lexer :=
  if lexer.inFlow then .ok lexer
  else if lexer.keyAllowed then .ok (lexer.openAt lexer.cursor.column lexer.count token)
  else .error .malformed

def blockEntry (lexer : Lexer) : Except Fault Lexer := do
  let lexer ← (← lexer.opening .sequenceStart).dropCandidate
  return ({ lexer with keyAllowed := true }.push .blockEntry).pass 1

def key (lexer : Lexer) : Except Fault Lexer := do
  let lexer ← (← lexer.opening .mappingStart).dropCandidate
  return ({ lexer with keyAllowed := !lexer.inFlow }.push .key).pass 1

/-- A colon makes the candidate a key, which may open a mapping. -/
def value (lexer : Lexer) : Except Fault Lexer := do
  match lexer.candidate with
  | some candidate =>
    let lexer := { lexer with candidate := none, keyAllowed := false }.insert candidate.position .key
    let lexer :=
      if lexer.inFlow then lexer
      else lexer.openAt candidate.column candidate.position .mappingStart
    return (lexer.push .value).pass 1
  | none =>
    let lexer ← lexer.opening .mappingStart
    return ({ lexer with keyAllowed := !lexer.inFlow }.push .value).pass 1

def endsName (c : Char) : Bool :=
  isGap c || ['?', ':', ',', ']', '\x7d', '%', '@', '\x60'].contains c

def named (lexer : Lexer) (token : String → Token) : Except Fault Lexer := do
  let lexer ← lexer.propose
  let name := lexer.cursor.next.rest.takeWhile isNameChar
  let after := lexer.cursor.pass (name.length + 1)
  if !name.isEmpty && after.rest.head?.all endsName then
    return { lexer with cursor := after, keyAllowed := false }.push (token (String.ofList name))
  else throw (unexpected after.rest)

def tag (lexer : Lexer) : Except Fault Lexer := do
  let lexer ← lexer.propose
  let (tag, after) ← shorthand lexer.cursor
  return { lexer with cursor := after, keyAllowed := false }.push (.tag tag)

def block (lexer : Lexer) (isFolded : Bool) : Except Fault Lexer := do
  let lexer ← lexer.dropCandidate
  let least := (lexer.indents.head?.map (· + 1)).getD 1
  let (text, after) ← blockScalar isFolded least lexer.cursor.next
  return { lexer with cursor := after, keyAllowed := true }.push (.scalar text false)

def quoted (lexer : Lexer) (quote : Char) (fuel : Nat) : Except Fault Lexer := do
  let lexer ← lexer.propose
  let (text, after) ← quotedFrom quote fuel [] lexer.cursor.next
  return { lexer with cursor := after, keyAllowed := false }.push (.scalar text false)

def plain (lexer : Lexer) (fuel : Nat) : Except Fault Lexer := do
  let lexer ← lexer.propose
  let indent := (lexer.indents.head?.map (· + 1)).getD 0
  let (text, after, newLine) := plainFrom lexer.inFlow indent fuel [] [] false lexer.cursor
  return { lexer with cursor := after, keyAllowed := newLine }.push (.scalar text true)

def isIndicator (c : Char) : Bool := "-?:,[]\x7b\x7d#&*!|>'\"%@\x60".toList.contains c

def beginsPlain (lexer : Lexer) (c : Char) (rest : List Char) : Bool :=
  (!isGap c && !isIndicator c) ||
    (!Cursor.atGap rest && (c == '-' || (!lexer.inFlow && (c == '?' || c == ':'))))

def token (lexer : Lexer) (fuel : Nat) (c : Char) (rest : List Char) : Except Fault Lexer :=
  if c = '%' ∧ lexer.cursor.column = 0 then lexer.directive
  else if lexer.cursor.atDivider '-' then lexer.divide .documentStart
  else if lexer.cursor.atDivider '.' then lexer.divide .documentEnd
  else if c = '[' then lexer.openFlow .flowSequenceStart
  else if c = '\x7b' then lexer.openFlow .flowMappingStart
  else if c = ']' then lexer.closeFlow .flowSequenceEnd
  else if c = '\x7d' then lexer.closeFlow .flowMappingEnd
  else if c = ',' then lexer.flowEntry
  else if c = '-' ∧ Cursor.atGap rest then lexer.blockEntry
  else if c = '?' ∧ (lexer.inFlow ∨ Cursor.atGap rest) then lexer.key
  else if c = ':' ∧ (lexer.inFlow ∨ Cursor.atGap rest) then lexer.value
  else if c = '*' then lexer.named .reference
  else if c = '&' then lexer.named .anchor
  else if c = '!' then lexer.tag
  else if (c = '|' ∨ c = '>') ∧ !lexer.inFlow then lexer.block (c == '>')
  else if c = '\'' ∨ c = '"' then lexer.quoted c fuel
  else if lexer.beginsPlain c rest then lexer.plain fuel
  else .error .malformed

/-- Passes a space, a comment or the end of a line, or reads a token. A new line may begin with a key. What is
a candidate no more is found out in front of a token and behind it. -/
def step (lexer : Lexer) (fuel : Nat) (c : Char) (rest : List Char) : Except Fault Lexer :=
  if c = ' ' then .ok { lexer with cursor := lexer.cursor.passWhile (· == ' ') }
  else if c = '#' then .ok { lexer with cursor := lexer.cursor.passWhile fun c => !isBreak c }
  else if isBreak c then
    .ok { lexer with cursor := lexer.cursor.next, keyAllowed := lexer.keyAllowed || !lexer.inFlow }
  else do
    let lexer ← lexer.refresh
    (← (lexer.closeTo lexer.cursor.column).token fuel c rest).refresh

def finish (lexer : Lexer) : Except Fault Lexer := do
  (← lexer.refresh).leaveAll

def tokens (lexer : Lexer) : List Token := lexer.reversed.reverse

def settled (lexer : Lexer) : Nat :=
  (lexer.candidate :: lexer.enclosing).foldl
    (fun least candidate => (candidate.map fun candidate => min least candidate.position).getD least)
    lexer.count

/-- The tokens with the reason why there are no more. What may belong to a key is not yet a token. -/
def brokenBy (lexer : Lexer) (fault : Fault) : List Token :=
  (Token.broken fault :: lexer.reversed.drop (lexer.count - lexer.settled)).reverse

def tokensFrom (isWhole : Bool) (lexer : Lexer) (fuel : Nat) : List Token :=
  match fuel, lexer.cursor.rest with
  | _, [] =>
    if !isWhole then lexer.brokenBy .ended
    else match lexer.finish with
      | .ok lexer => lexer.tokens
      | .error fault => lexer.brokenBy fault
  | 0, _ => lexer.brokenBy .malformed
  | fuel + 1, c :: rest =>
    match lexer.step (fuel + 1) c rest with
    | .ok lexer => lexer.tokensFrom isWhole fuel
    | .error fault => lexer.brokenBy fault

end Lexer

def start (cs : List Char) : Cursor :=
  let cursor : Cursor := { rest := cs }
  if cs.head? = some '\uFEFF' then cursor.next else cursor

def tokensOf (isWhole : Bool) (cs : List Char) : List Token :=
  { cursor := start cs : Lexer }.tokensFrom isWhole cs.length

end UtilityCss.Yaml
