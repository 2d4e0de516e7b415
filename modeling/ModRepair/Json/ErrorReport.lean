import ModRepair.Json.Parser

/-!
# Error reports for JSON text

What is said about a text that does not parse: the message of the cause, and the line, column and offset of the
place, counted over the part of the text that was consumed.
-/

namespace ModRepair.Json

/-- The wording of a cause. -/
def Cause.message : Cause → Bytes
  | .tooDeep => ascii "Maximum nesting depth exceeded"
  | .endOfInput => ascii "Unexpected end of input"
  | .unexpectedCharacter c => ascii "Unexpected character '" ++ [c] ++ ascii "'"
  | .trailingContent => ascii "Unexpected content after JSON value"
  | .expectedKey => ascii "Expected string key in object"
  | .expectedColon => ascii "Expected ':' after object key"
  | .expectedObjectSeparator => ascii "Expected ',' or '\x7d' in object"
  | .trailingObjectComma => ascii "Trailing comma in object"
  | .expectedArraySeparator => ascii "Expected ',' or ']' in array"
  | .trailingArrayComma => ascii "Trailing comma in array"
  | .controlCharacter => ascii "Control character in string"
  | .incompleteUnicodeEscape => ascii "Incomplete unicode escape sequence"
  | .invalidUnicodeEscape => ascii "Invalid unicode escape sequence"
  | .invalidEscape c => ascii "Invalid escape sequence: \\" ++ [c]
  | .unterminatedString => ascii "Unterminated string"
  | .invalidNumber => ascii "Invalid number"
  | .expectedFractionDigit => ascii "Expected digit after decimal point"
  | .expectedExponentDigit => ascii "Expected digit in exponent"

/-- A place in a text: lines and columns count from one. -/
structure Location where
  line : Nat
  column : Nat
  deriving DecidableEq, Repr

/-- The place right after a text. -/
def Location.after (consumed : Bytes) : Location where
  line := 1 + consumed.count Bytes.newline
  column := 1 + (consumed.reverse.takeWhile (· != Bytes.newline)).length

/-- A message with its place and the offset of that place in bytes. -/
structure ErrorReport where
  message : Bytes
  location : Location
  offset : Nat
  deriving DecidableEq, Repr

/-- The report on a fault in a text. An unterminated string is placed at its opening quote, and its offset is
not given. -/
def Fault.report (text : Bytes) (fault : Fault) : ErrorReport :=
  let consumed := text.take (text.length - fault.rest.length)
  { message := fault.cause.message
    location := Location.after consumed
    offset := if fault.cause = .unterminatedString then 0 else consumed.length }

/-- The report on one line. -/
def ErrorReport.text (report : ErrorReport) : Bytes :=
  ascii "line " ++ Numeral.decimal report.location.line ++ ascii ", column " ++
    Numeral.decimal report.location.column ++ ascii ": " ++ report.message

/-- The value of a JSON text, or the report on what is wrong with it. -/
def read (text : Bytes) : Except ErrorReport Json :=
  (parse text).mapError (·.report text)

end ModRepair.Json
