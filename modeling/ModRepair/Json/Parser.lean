import ModRepair.Json.Value

/-!
# Reading JSON text

A recursive-descent reader for the JSON of RFC 8259, without comments and trailing commas. Each function takes the
text that remains and returns what it read with the text after it, or a `Fault` with the text at which it stopped;
positions are worked out from that text alone (`Json.ErrorReport`). Bytes above ASCII are ordinary characters of a
string, and each `\u` escape stands for its own code unit. `value` recurses on the number of nesting levels left,
the loops over characters, elements and members on a `bound`, a text longer than the one that is left to read.
-/

namespace ModRepair.Json

/-- Why a text is no JSON document. -/
inductive Cause
  | tooDeep
  | endOfInput
  | unexpectedCharacter (c : UInt8)
  | trailingContent
  | expectedKey
  | expectedColon
  | expectedObjectSeparator
  | trailingObjectComma
  | expectedArraySeparator
  | trailingArrayComma
  | controlCharacter
  | incompleteUnicodeEscape
  | invalidUnicodeEscape
  | invalidEscape (c : UInt8)
  | unterminatedString
  | invalidNumber
  | expectedFractionDigit
  | expectedExponentDigit
  deriving DecidableEq, Repr

/-- A cause and the text that remained where the reader gave up: for an unterminated string the text from its
opening quote on. -/
structure Fault where
  cause : Cause
  rest : Bytes
  deriving DecidableEq, Repr

/-- What was read and the text after it. -/
abbrev Parsed (α : Type) := Except Fault (α × Bytes)

/-- Fails at the given text. -/
abbrev stop {α : Type} (cause : Cause) (rest : Bytes) : Parsed α :=
  .error ⟨cause, rest⟩

namespace Parser

/-! ## Blanks -/

def isBlank (c : UInt8) : Bool :=
  c == 0x20 || c == 0x09 || c == 0x0A || c == 0x0D

def skipBlanks (s : Bytes) : Bytes :=
  s.dropWhile isBlank

/-! ## Strings -/

/-- The one to three bytes that write a code unit; surrogates are written like any other. -/
def codeUnitBytes (u : Nat) : Bytes :=
  if u < 0x80 then [UInt8.ofNat u]
  else if u < 0x800 then [UInt8.ofNat (0xC0 + u / 0x40), UInt8.ofNat (0x80 + u % 0x40)]
  else
    [UInt8.ofNat (0xE0 + u / 0x1000), UInt8.ofNat (0x80 + u / 0x40 % 0x40),
      UInt8.ofNat (0x80 + u % 0x40)]

/-- The code unit of four hexadecimal digits. -/
def codeUnit? (a b c d : UInt8) : Option Nat := do
  let a ← Numeral.hexValue? a
  let b ← Numeral.hexValue? b
  let c ← Numeral.hexValue? c
  let d ← Numeral.hexValue? d
  return ((a * 16 + b) * 16 + c) * 16 + d

/-- The byte that a one-letter escape stands for. -/
def shortEscape? (c : UInt8) : Option UInt8 :=
  if c = 0x22 ∨ c = 0x5C ∨ c = 0x2F then some c
  else if c = 0x62 then some 0x08
  else if c = 0x66 then some 0x0C
  else if c = 0x6E then some 0x0A
  else if c = 0x72 then some 0x0D
  else if c = 0x74 then some 0x09
  else none

/-- What one character of a string, plain or escaped, adds to its value, with the text after it. A backslash at
the end of the text counts as one before a zero byte. -/
def stringCharacter (c : UInt8) (s : Bytes) : Parsed Bytes :=
  if c < 0x20 then stop .controlCharacter s
  else if c ≠ Bytes.backslash then .ok ([c], s)
  else
    match s with
    | [] => stop (.invalidEscape 0) []
    | e :: s =>
      if e = 0x75 then
        match s with
        | h₁ :: h₂ :: h₃ :: h₄ :: rest =>
          match codeUnit? h₁ h₂ h₃ h₄ with
          | some u => .ok (codeUnitBytes u, rest)
          | none => stop .invalidUnicodeEscape s
        | _ => stop .incompleteUnicodeEscape s
      else
        match shortEscape? e with
        | some b => .ok ([b], s)
        | none => stop (.invalidEscape e) s

/-- The string from behind its opening quote up to its closing one. `read` is its value so far in reverse,
`opening` the text from the opening quote on. -/
def stringBody (opening : Bytes) : (bound : Bytes) → (read : Bytes) → Bytes → Parsed Bytes
  | [], _, _ => stop .unterminatedString opening
  | _ :: _, _, [] => stop .unterminatedString opening
  | _ :: bound, read, c :: s =>
    if c = Bytes.quote then .ok (read.reverse, s)
    else
      match stringCharacter c s with
      | .error fault => .error fault
      | .ok (bytes, s) => stringBody opening bound (bytes.reverse ++ read) s

/-- The string whose opening quote stands before `s`. -/
def string (s : Bytes) : Parsed Bytes :=
  stringBody (Bytes.quote :: s) (Bytes.quote :: s) [] s

/-! ## Numbers -/

/-- The longest run of digits at the start and the text after it. -/
def digits (s : Bytes) : Bytes × Bytes :=
  (s.takeWhile Numeral.isDigit, s.dropWhile Numeral.isDigit)

/-- The parts of a number: its sign, the digits before and after the point, and the exponent. The last two are
`none` where the number has no point or no exponent. -/
structure Numerals where
  negative : Bool
  whole : Bytes
  fraction : Option Bytes
  exponent : Option Int
  deriving DecidableEq, Repr

/-- The digits before the point: a zero alone, or a run that does not start with one. -/
def wholePart : Bytes → Parsed Bytes
  | [] => stop .invalidNumber []
  | c :: s =>
    if c = Bytes.zero then .ok ([c], s)
    else
      match digits (c :: s) with
      | ([], _) => stop .invalidNumber (c :: s)
      | (run, rest) => .ok (run, rest)

/-- The digits after a point, if one follows. -/
def fractionPart : Bytes → Parsed (Option Bytes)
  | [] => .ok (none, [])
  | c :: s =>
    if c = Bytes.dot then
      match digits s with
      | ([], rest) => stop .expectedFractionDigit rest
      | (run, rest) => .ok (some run, rest)
    else .ok (none, c :: s)

/-- The sign before the digits of an exponent, if there is one: whether it is a minus. -/
def exponentSign : Bytes → Bool × Bytes
  | [] => (false, [])
  | c :: s =>
    if c = Bytes.minus then (true, s) else if c = 0x2B then (false, s) else (false, c :: s)

/-- The exponent, if an `e` of either case follows. -/
def exponentPart : Bytes → Parsed (Option Int)
  | [] => .ok (none, [])
  | c :: s =>
    if c = 0x65 ∨ c = 0x45 then
      let (negative, s) := exponentSign s
      match digits s with
      | ([], rest) => stop .expectedExponentDigit rest
      | (run, rest) =>
        let e : Int := Numeral.value run
        .ok (some (if negative then -e else e), rest)
    else .ok (none, c :: s)

/-- The number that the parts denote: an integer if they have neither point nor exponent and it fits 64 bits,
else the nearest double. -/
def Numerals.toNumber (n : Numerals) : Number :=
  let exact : Int := if n.negative then -(Numeral.value n.whole : Int) else Numeral.value n.whole
  if n.fraction.isNone ∧ n.exponent.isNone ∧ Int64.minValue.toInt ≤ exact ∧ exact ≤ Int64.maxValue.toInt then
    .integer (Int64.ofInt exact)
  else
    let fraction := n.fraction.getD []
    .double (.ofDecimal n.negative (Numeral.value (n.whole ++ fraction))
      (n.exponent.getD 0 - fraction.length))

/-- The sign of a number, if there is one: whether it is negative. -/
def numberSign : Bytes → Bool × Bytes
  | [] => (false, [])
  | c :: s => if c = Bytes.minus then (true, s) else (false, c :: s)

/-- The number at the start of the text. -/
def number (s : Bytes) : Except Fault (Number × Bytes) := do
  let (negative, s) := numberSign s
  let (whole, s) ← wholePart s
  let (fraction, s) ← fractionPart s
  let (exponent, s) ← exponentPart s
  return (Numerals.toNumber ⟨negative, whole, fraction, exponent⟩, s)

/-! ## Arrays and objects -/

/-- The elements of an array from the first on up to the closing bracket; `read` are those before in reverse. -/
def elements (item : Bytes → Parsed Json) : (bound : Bytes) → (read : List Json) → Bytes → Parsed (List Json)
  | [], _, s => stop .endOfInput s
  | _ :: bound, read, s =>
    match item (skipBlanks s) with
    | .error fault => .error fault
    | .ok (j, s) =>
      match skipBlanks s with
      | [] => stop .expectedArraySeparator []
      | c :: s =>
        if c = Bytes.closeBracket then .ok ((j :: read).reverse, s)
        else if c = Bytes.comma then
          if (skipBlanks s).head? = some Bytes.closeBracket then stop .trailingArrayComma (skipBlanks s)
          else elements item bound (j :: read) s
        else stop .expectedArraySeparator s

/-- The array whose opening bracket stands before the text. -/
def array (item : Bytes → Parsed Json) (s : Bytes) : Parsed Json :=
  match Bytes.after? [Bytes.closeBracket] (skipBlanks s) with
  | some rest => .ok (.array [], rest)
  | none => (elements item (Bytes.openBracket :: s) [] s).map fun (items, rest) => (.array items, rest)

/-- A key, the colon after it, and the value, from a text without blanks in front. -/
def member (item : Bytes → Parsed Json) (s : Bytes) : Parsed (Bytes × Json) :=
  match Bytes.after? [Bytes.quote] s with
  | none => stop .expectedKey s
  | some s =>
    match string s with
    | .error fault => .error fault
    | .ok (key, s) =>
      match Bytes.after? [Bytes.colon] (skipBlanks s) with
      | none => stop .expectedColon (skipBlanks s)
      | some s =>
        match item (skipBlanks s) with
        | .error fault => .error fault
        | .ok (j, s) => .ok ((key, j), s)

/-- The members of an object from the first on up to the closing brace, put into those read before. -/
def members (item : Bytes → Parsed Json) :
    (bound : Bytes) → (read : Dictionary Json) → Bytes → Parsed (Dictionary Json)
  | [], _, s => stop .endOfInput s
  | _ :: bound, read, s =>
    match member item (skipBlanks s) with
    | .error fault => .error fault
    | .ok ((key, j), s) =>
      match skipBlanks s with
      | [] => stop .expectedObjectSeparator []
      | c :: s =>
        if c = Bytes.closeBrace then .ok (Dictionary.insert key j read, s)
        else if c = Bytes.comma then
          if (skipBlanks s).head? = some Bytes.closeBrace then stop .trailingObjectComma (skipBlanks s)
          else members item bound (Dictionary.insert key j read) s
        else stop .expectedObjectSeparator s

/-- The object whose opening brace stands before the text. -/
def object (item : Bytes → Parsed Json) (s : Bytes) : Parsed Json :=
  match Bytes.after? [Bytes.closeBrace] (skipBlanks s) with
  | some rest => .ok (.object [], rest)
  | none => (members item (Bytes.openBrace :: s) [] s).map fun (ms, rest) => (.object ms, rest)

/-! ## Values -/

/-- The value of a word, if the text starts with one. -/
def keyword? (s : Bytes) : Option (Json × Bytes) :=
  match Bytes.after? (ascii "true") s with
  | some rest => some (.bool true, rest)
  | none =>
    match Bytes.after? (ascii "false") s with
    | some rest => some (.bool false, rest)
    | none => (Bytes.after? (ascii "null") s).map fun rest => (.null, rest)

/-- The value at the start of a text without blanks in front, with `levels` nesting levels left for it. -/
def value : (levels : Nat) → Bytes → Parsed Json
  | 0, s => stop .tooDeep s
  | _ + 1, [] => stop .endOfInput []
  | levels + 1, c :: s =>
    if c = Bytes.openBrace then object (value levels) s
    else if c = Bytes.openBracket then array (value levels) s
    else if c = Bytes.quote then (string s).map fun (text, s) => (.string text, s)
    else if c = Bytes.minus ∨ Numeral.isDigit c then (number (c :: s)).map fun (n, s) => (.number n, s)
    else
      match keyword? (c :: s) with
      | some found => .ok found
      | none => stop (.unexpectedCharacter c) (c :: s)

/-- How many arrays and objects may enclose a value, the value's own level counted. -/
def maxLevels : Nat := 512

end Parser

/-- The one value that a text holds, blanks around it allowed. -/
def parse (s : Bytes) : Except Fault Json := do
  let (j, rest) ← Parser.value Parser.maxLevels (Parser.skipBlanks s)
  match Parser.skipBlanks rest with
  | [] => return j
  | c :: s => .error ⟨.trailingContent, c :: s⟩

end ModRepair.Json
