import UtilityCss.Log.Template
import UtilityCss.Value.Json

/-!
# Log records

A record has a level, a message with slots and the values for them, and sometimes data. As text the data, which
then have to be a mapping, follow the message as pairs; as JSON the record is one object on one line. A record
that cannot be written has no text.
-/

namespace UtilityCss.Log

def debug : Int := 10
def info : Int := 20
def warning : Int := 30

def levels : List (String × Int) := [
  ("DEBUG", 10),
  ("INFO", 20),
  ("WARN", 30),
  ("WARNING", 30),
  ("ERROR", 40),
  ("FATAL", 50),
  ("CRITICAL", 50),
  ("NOTSET", 0)]

def capital (c : Char) : Char :=
  if c = '\u0131' then 'I' else if c = '\u017F' then 'S' else c.toUpper

/-- The level of a name in any case; a name that is no level means the informative one. -/
def levelOf (name : String) : Int := (levels.lookup (name.map capital)).getD info

def levelName (level : Int) : String :=
  if level = 10 then "DEBUG"
  else if level = 20 then "INFO"
  else if level = 30 then "WARNING"
  else if level = 40 then "ERROR"
  else if level = 50 then "CRITICAL"
  else if level = 0 then "NOTSET"
  else s!"Level {level}"

structure Record where
  level : Int := info
  message : String
  arguments : List Value := []
  /-- Null stands for no data. -/
  data : Value := .null

namespace Record

def pair (entry : Scalar × Value) : String := entry.1.shown ++ "=" ++ entry.2.shown

/-- The message with its slots filled. There is none for a level whose name would be too long a number. -/
def event? (record : Record) : Option String :=
  if Numeral.isWritable record.level then (Template.fill record.message record.arguments).toOption else none

def text? (record : Record) : Option String := do
  let event ← record.event?
  if !record.data.holds then return event
  let entries ← record.data.entries?
  if Value.entriesAreShowable entries then return event ++ " " ++ " ".intercalate (entries.map pair) else none

def fields (record : Record) (event time : String) : Entries :=
  [(.text "timestamp", .text time),
    (.text "level", .text (levelName record.level)),
    (.text "event", .text event)] ++
  match record.data with
  | .null => []
  | data => [(.text "data", data)]

def json? (record : Record) (time : String) : Option String := do
  let event ← record.event?
  (Value.mapping (record.fields event time)).json?

def json (record : Record) (time : String) : String := (record.json? time).getD ""

end Record

inductive Format
  | text
  | json
  deriving DecidableEq, Repr

def Format.ofName (name : String) : Format :=
  if name.map Char.toLower = "json" then json else text

def Format.apply (format : Format) (time : String) (record : Record) : Option String :=
  match format with
  | text => record.text?
  | json => record.json? time

end UtilityCss.Log
