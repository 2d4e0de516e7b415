import ModRepair.Json.Value

/-!
# JSON text of a value

Two layouts of one printer: compact, without any blanks, and indented, with each element and member on a line of
its own. Members come in the order of the object, which is ascending.
-/

namespace ModRepair.Json

/-! ## Strings -/

/-- How a byte is written within a string: quotes, backslashes and control bytes are escaped, all others,
bytes above ASCII included, stand for themselves. -/
def escape (c : UInt8) : Bytes :=
  if c = 0x22 then ascii "\\\""
  else if c = 0x5C then ascii "\\\\"
  else if c = 0x08 then ascii "\\b"
  else if c = 0x0C then ascii "\\f"
  else if c = 0x0A then ascii "\\n"
  else if c = 0x0D then ascii "\\r"
  else if c = 0x09 then ascii "\\t"
  else if c < 0x20 then ascii "\\u" ++ Numeral.hex 4 c.toNat
  else [c]

/-- A string literal. -/
def stringText (s : Bytes) : Bytes :=
  Bytes.quote :: s.flatMap escape ++ [Bytes.quote]

/-- A number; an infinity, which JSON cannot write, becomes `null`. -/
def numberText : Number → Bytes
  | .integer i => Numeral.decimalInt i.toInt
  | .double d => d.text?.getD (ascii "null")

/-! ## Layout -/

/-- How elements and members are set out. -/
inductive Layout
  /-- On one line, without blanks. -/
  | compact
  /-- On lines of their own, `width` spaces further in for each level. -/
  | indented (width : Nat)
  deriving DecidableEq, Repr

namespace Layout

/-- What stands before an element, a member or a closing bracket at a level. -/
def lineStart : Layout → (level : Nat) → Bytes
  | .compact, _ => []
  | .indented width, level => Bytes.newline :: List.replicate (width * level) Bytes.space

/-- What stands between a key and its value. -/
def keySeparator : Layout → Bytes
  | .compact => ascii ":"
  | .indented _ => ascii ": "

end Layout

/-! ## Values -/

mutual

/-- The text of a value that stands at a nesting level. -/
def render (layout : Layout) (level : Nat) : Json → Bytes
  | .null => ascii "null"
  | .bool b => if b then ascii "true" else ascii "false"
  | .number n => numberText n
  | .string s => stringText s
  | .array [] => ascii "[]"
  | .array (item :: rest) =>
    ascii "[" ++ layout.lineStart (level + 1) ++ render layout (level + 1) item ++
      renderItems layout (level + 1) rest ++ layout.lineStart level ++ ascii "]"
  | .object [] => ascii "\x7b\x7d"
  | .object ((key, value) :: rest) =>
    ascii "\x7b" ++ layout.lineStart (level + 1) ++ stringText key ++ layout.keySeparator ++
      render layout (level + 1) value ++ renderMembers layout (level + 1) rest ++
      layout.lineStart level ++ ascii "\x7d"

/-- The elements after the first, each after a comma. -/
def renderItems (layout : Layout) (level : Nat) : List Json → Bytes
  | [] => []
  | item :: rest =>
    ascii "," ++ layout.lineStart level ++ render layout level item ++ renderItems layout level rest

/-- The members after the first, each after a comma. -/
def renderMembers (layout : Layout) (level : Nat) : List (Bytes × Json) → Bytes
  | [] => []
  | (key, value) :: rest =>
    ascii "," ++ layout.lineStart level ++ stringText key ++ layout.keySeparator ++
      render layout level value ++ renderMembers layout level rest

end

/-- The text of a value on one line. -/
def compact (j : Json) : Bytes :=
  j.render .compact 0

/-- The text of a value on several lines; a negative indent counts as none. -/
def pretty (indent : Int) (j : Json) : Bytes :=
  j.render (.indented indent.toNat) 0

/-- The text of a value on several lines with the usual indent of two spaces. -/
def document (j : Json) : Bytes :=
  j.pretty 2

end ModRepair.Json
