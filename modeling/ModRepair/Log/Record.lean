import ModRepair.Text.Numeral

/-!
# Log records

The severity levels of the log, their names, and the two forms in which a record is written as a line.
-/

namespace ModRepair.Log

/-- Severities in ascending order; `off` is above all that are used. -/
inductive Level
  | trace | debug | info | warn | error | fatal | off
  deriving DecidableEq, Repr, Inhabited

namespace Level

/-- All levels, in ascending order. -/
def all : List Level :=
  [.trace, .debug, .info, .warn, .error, .fatal, .off]

/-- The position of a level among all. -/
def rank : Level → Nat
  | .trace => 0
  | .debug => 1
  | .info => 2
  | .warn => 3
  | .error => 4
  | .fatal => 5
  | .off => 6

instance : LE Level := ⟨fun a b => a.rank ≤ b.rank⟩

instance (a b : Level) : Decidable (a ≤ b) :=
  inferInstanceAs (Decidable (a.rank ≤ b.rank))

/-- The lower of two levels. -/
def least (a b : Level) : Level :=
  if a ≤ b then a else b

def name : Level → Bytes
  | .trace => ascii "TRACE"
  | .debug => ascii "DEBUG"
  | .info => ascii "INFO"
  | .warn => ascii "WARN"
  | .error => ascii "ERROR"
  | .fatal => ascii "FATAL"
  | .off => ascii "OFF"

/-- The name for a number that should be the rank of a level. -/
def nameOfRank (rank : Int) : Bytes :=
  match all.find? fun level => (level.rank : Int) == rank with
  | some level => level.name
  | none => ascii "???"

/-- Reads the name of a level in any case; what is no level's name counts as `info`. -/
def ofName (s : Bytes) : Level :=
  let word := Bytes.lower s
  if word = ascii "trace" then .trace
  else if word = ascii "debug" then .debug
  else if word = ascii "info" then .info
  else if word = ascii "warn" ∨ word = ascii "warning" then .warn
  else if word = ascii "error" then .error
  else if word = ascii "fatal" then .fatal
  else if word = ascii "off" then .off
  else .info

end Level

/-- What is reported, how severe it is, and the tag of the part of the program that reports it. -/
structure Record where
  level : Level
  tag : Bytes
  message : Bytes
  deriving DecidableEq, Repr

/-! ## Lines -/

/-- How records are written. -/
inductive Format
  /-- For people: time of day, level, tag and message. -/
  | text
  /-- One JSON object on each line. -/
  | json
  deriving DecidableEq, Repr

/-- The moment of a record: the time of day as text, and milliseconds since the epoch. -/
structure Stamp where
  clock : Bytes
  millis : Int
  deriving DecidableEq, Repr

/-- How a byte of a message is written in a JSON line. -/
def escape (c : UInt8) : Bytes :=
  if c = 0x22 then ascii "\\\""
  else if c = 0x5C then ascii "\\\\"
  else if c = 0x0A then ascii "\\n"
  else if c = 0x0D then ascii "\\r"
  else if c = 0x09 then ascii "\\t"
  else [c]

/-- A line without its end, from the parts of a record, the level given by its name. -/
def Format.line (format : Format) (stamp : Stamp) (levelName tag message : Bytes) : Bytes :=
  match format with
  | .json =>
    ascii "\x7b\"ts\":" ++ Numeral.decimalInt stamp.millis ++ ascii ",\"level\":\"" ++ levelName ++
      ascii "\",\"module\":\"" ++ tag ++ ascii "\",\"msg\":\"" ++ message.flatMap escape ++ ascii "\"\x7d"
  | .text =>
    stamp.clock ++ ascii " " ++ Bytes.padRight 5 Bytes.space levelName ++ ascii " [" ++ tag ++ ascii "] " ++
      message

/-- The line of a record, without its end. -/
def Record.line (record : Record) (format : Format) (stamp : Stamp) : Bytes :=
  format.line stamp record.level.name record.tag record.message

end ModRepair.Log
