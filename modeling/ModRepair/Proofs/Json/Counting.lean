import ModRepair.Proofs.Json.Position

/-!
# Reading with counters

`Json.read` works out the place of an error from the text that is left. The reader here finds the place on its way: it
moves a cursor through the text byte by byte and counts the bytes, the lines and the columns that it goes by, and an
error takes the counters as they stand, or as they stood where a string was opened. Both say the same of every text.

* `Cursor.At` — **the invariant**: the counters are those of the text behind the cursor. `At.advance` is the step that
  keeps it, whatever the byte;
* `Agree`, `Tracks` — what one reader comes to with counters and without them; one lemma for each reader;
* `Counting.read_eq` — **the whole reader**, with every error that it can end in.
-/

namespace ModRepair.Json

/-! ## Cursors -/

/-- A place in a text that is being read: what is left, how many bytes are behind, and the line and the column. -/
structure Cursor where
  rest : Bytes
  offset : Nat
  location : Location
  deriving DecidableEq, Repr

namespace Cursor

/-- In front of a text. -/
def start (text : Bytes) : Cursor :=
  ⟨text, 0, ⟨1, 1⟩⟩

/-- The byte in front of the cursor. -/
def peek? (c : Cursor) : Option UInt8 :=
  c.rest.head?

/-- Goes by one byte. At the end of the text the cursor stays where it is. -/
def advance (c : Cursor) : Cursor :=
  match c.rest with
  | [] => c
  | b :: rest =>
    { rest
      offset := c.offset + 1
      location :=
        if b = Bytes.newline then ⟨c.location.line + 1, 1⟩ else ⟨c.location.line, c.location.column + 1⟩ }

def advanceBy : Nat → Cursor → Cursor
  | 0, c => c
  | n + 1, c => advanceBy n c.advance

theorem rest_advance (c : Cursor) : c.advance.rest = c.rest.tail := by
  unfold advance
  split
  · next h => rw [h]; rfl
  · next h => rw [h]; rfl

/-- Goes by the bytes that satisfy `p`, up to the first that does not. -/
def advanceWhile (p : UInt8 → Bool) (c : Cursor) : Cursor :=
  match _hrest : c.rest with
  | [] => c
  | b :: _ => if p b then c.advance.advanceWhile p else c
termination_by c.rest.length
decreasing_by simp [rest_advance, _hrest]

/-! ### What is left -/

theorem rest_advanceBy (n : Nat) (c : Cursor) : (c.advanceBy n).rest = c.rest.drop n := by
  induction n generalizing c with
  | zero => rfl
  | succ n ih => rw [advanceBy, ih, rest_advance, List.drop_tail]

theorem rest_advanceWhile (p : UInt8 → Bool) (c : Cursor) : (c.advanceWhile p).rest = c.rest.dropWhile p := by
  fun_induction advanceWhile p c with
  | case1 c h => rw [h]; rfl
  | case2 c b s h hp ih => rw [ih, rest_advance, h, List.tail_cons, List.dropWhile_cons_of_pos hp]
  | case3 c b s h hp => rw [h, List.dropWhile_cons_of_neg hp]

/-- The text has ended, or there is a byte in front of the cursor. -/
theorem cases_rest (c : Cursor) :
    (c.rest = [] ∧ c.peek? = none) ∨ ∃ b s, c.rest = b :: s ∧ c.peek? = some b ∧ c.advance.rest = s := by
  rw [rest_advance, peek?]
  cases c.rest with
  | nil => exact .inl ⟨rfl, rfl⟩
  | cons b s => exact .inr ⟨b, s, rfl, rfl, rfl⟩

/-! ### The invariant -/

/-- **The counters are right**: they are those of the part of the text that is behind the cursor. -/
def At (text : Bytes) (c : Cursor) : Prop :=
  ∃ behind, text = behind ++ c.rest ∧ c.offset = behind.length ∧ c.location = .after behind

variable {text : Bytes} {c : Cursor}

theorem at_start (text : Bytes) : (start text).At text :=
  ⟨[], rfl, rfl, rfl⟩

/-- **A byte keeps the counters right**, a line feed like any other. -/
theorem At.advance (h : c.At text) : c.advance.At text := by
  obtain ⟨behind, htext, hoffset, hlocation⟩ := h
  unfold Cursor.advance
  split
  · exact ⟨behind, htext, hoffset, hlocation⟩
  next b rest hrest =>
  refine ⟨behind ++ [b], ?_, ?_, ?_⟩
  · rw [htext, hrest]
    simp
  · rw [hoffset]
    simp
  · rw [Location.after_concat, hlocation]

theorem At.advanceBy (h : c.At text) (n : Nat) : (c.advanceBy n).At text := by
  induction n generalizing c with
  | zero => exact h
  | succ n ih => exact ih h.advance

theorem At.advanceWhile (h : c.At text) (p : UInt8 → Bool) : (c.advanceWhile p).At text := by
  fun_induction Cursor.advanceWhile p c with
  | case1 => exact h
  | case2 c b s hrest hp ih => exact ih h.advance
  | case3 => exact h

/-- The report on an error where the cursor stands. -/
def report (c : Cursor) (cause : Cause) : ErrorReport :=
  ⟨cause.message, c.location, c.offset⟩

/-- **The report is the one that the text left over gives**; that of a string without an end has no offset. -/
theorem At.report_eq (h : c.At text) (cause : Cause) :
    (Fault.mk cause c.rest).report text =
      if cause = .unterminatedString then ⟨cause.message, c.location, 0⟩ else c.report cause := by
  obtain ⟨behind, htext, hoffset, hlocation⟩ := h
  have hconsumed : text.take (text.length - c.rest.length) = behind := by
    rw [htext]
    simp
  unfold Fault.report Cursor.report
  simp only [hconsumed, hlocation, hoffset]
  split <;> rfl

end Cursor

/-! ## Readers -/

/-- What is read with a cursor: the value with the cursor behind it, or the report on an error. -/
abbrev Counted (α : Type) := Except ErrorReport (α × Cursor)

namespace Counting

def stop {α : Type} (cause : Cause) (c : Cursor) : Counted α :=
  .error (c.report cause)

/-- The error of a string without an end: it is placed where the string was opened. -/
def unterminated {α : Type} (opening : Cursor) : Counted α :=
  .error ⟨Cause.unterminatedString.message, opening.location, 0⟩

def skipBlanks (c : Cursor) : Cursor :=
  c.advanceWhile Parser.isBlank

/-! ### Strings -/

/-- The four hexadecimal digits of an escape. -/
def unicodeEscape (c : Cursor) : Counted Bytes :=
  match c.rest with
  | h₁ :: h₂ :: h₃ :: h₄ :: _ =>
    match Parser.codeUnit? h₁ h₂ h₃ h₄ with
    | some u => .ok (Parser.codeUnitBytes u, c.advanceBy 4)
    | none => stop .invalidUnicodeEscape c
  | _ => stop .incompleteUnicodeEscape c

/-- The character that starts with the byte `b`, which the cursor has gone by. -/
def stringCharacter (b : UInt8) (c : Cursor) : Counted Bytes :=
  if b < 0x20 then stop .controlCharacter c
  else if b ≠ Bytes.backslash then .ok ([b], c)
  else
    match c.peek? with
    | none => stop (.invalidEscape 0) c
    | some e =>
      if e = 0x75 then unicodeEscape c.advance
      else
        match Parser.shortEscape? e with
        | some byte => .ok ([byte], c.advance)
        | none => stop (.invalidEscape e) c.advance

def stringBody (opening : Cursor) : (bound : Bytes) → (read : Bytes) → Cursor → Counted Bytes
  | [], _, _ => unterminated opening
  | _ :: bound, read, c =>
    match c.peek? with
    | none => unterminated opening
    | some b =>
      if b = Bytes.quote then .ok (read.reverse, c.advance)
      else
        match stringCharacter b c.advance with
        | .error report => .error report
        | .ok (bytes, c) => stringBody opening bound (bytes.reverse ++ read) c

/-- The string whose opening quote stands in front of the cursor. -/
def string (c : Cursor) : Counted Bytes :=
  stringBody c c.rest [] c.advance

/-! ### Numbers -/

def digits (c : Cursor) : Bytes × Cursor :=
  (c.rest.takeWhile Numeral.isDigit, c.advanceWhile Numeral.isDigit)

/-- What `f` makes of digits of which there must be one. -/
def someDigits {α : Type} (cause : Cause) (f : Bytes → α) (c : Cursor) : Counted α :=
  match digits c with
  | ([], c) => stop cause c
  | (run, c) => .ok (f run, c)

def numberSign (c : Cursor) : Bool × Cursor :=
  if c.peek? = some Bytes.minus then (true, c.advance) else (false, c)

def wholePart (c : Cursor) : Counted Bytes :=
  if c.peek? = some Bytes.zero then .ok ([Bytes.zero], c.advance) else someDigits .invalidNumber id c

def fractionPart (c : Cursor) : Counted (Option Bytes) :=
  if c.peek? = some Bytes.dot then someDigits .expectedFractionDigit some c.advance else .ok (none, c)

def exponentSign (c : Cursor) : Bool × Cursor :=
  if c.peek? = some Bytes.minus then (true, c.advance)
  else if c.peek? = some 0x2B then (false, c.advance)
  else (false, c)

def exponentPart (c : Cursor) : Counted (Option Int) :=
  if c.peek? = some 0x65 ∨ c.peek? = some 0x45 then
    let (negative, c) := exponentSign c.advance
    someDigits .expectedExponentDigit
      (fun run => some (if negative then -(Numeral.value run : Int) else Numeral.value run)) c
  else .ok (none, c)

def number (c : Cursor) : Except ErrorReport (Number × Cursor) := do
  let (negative, c) := numberSign c
  let (whole, c) ← wholePart c
  let (fraction, c) ← fractionPart c
  let (exponent, c) ← exponentPart c
  return (Parser.Numerals.toNumber ⟨negative, whole, fraction, exponent⟩, c)

/-! ### Arrays and objects -/

section

variable {α β : Type}

/-- The loop over the items of an array or object up to the closing bracket. -/
def listed (close : UInt8) (separator trailing : Cause) (item : Cursor → Counted α) (add : β → α → β) :
    (bound : Bytes) → (read : β) → Cursor → Counted β
  | [], _, c => stop .endOfInput c
  | _ :: bound, read, c =>
    match item (skipBlanks c) with
    | .error report => .error report
    | .ok (a, c) =>
      match (skipBlanks c).peek? with
      | none => stop separator (skipBlanks c)
      | some b =>
        let c := (skipBlanks c).advance
        if b = close then .ok (add read a, c)
        else if b = Bytes.comma then
          if (skipBlanks c).peek? = some close then stop trailing (skipBlanks c)
          else listed close separator trailing item add bound (add read a) c
        else stop separator c

end

/-- The array whose opening bracket stands in front of the cursor. -/
def array (item : Cursor → Counted Json) (c : Cursor) : Counted Json :=
  let inside := skipBlanks c.advance
  if inside.peek? = some Bytes.closeBracket then .ok (.array [], inside.advance)
  else
    (listed Bytes.closeBracket .expectedArraySeparator .trailingArrayComma item (fun js j => j :: js) c.rest []
      c.advance).map fun (items, c) => (.array items.reverse, c)

def member (item : Cursor → Counted Json) (c : Cursor) : Counted (Bytes × Json) :=
  if c.peek? = some Bytes.quote then
    match string c with
    | .error report => .error report
    | .ok (key, c) =>
      let c := skipBlanks c
      if c.peek? = some Bytes.colon then (item (skipBlanks c.advance)).map fun (j, c) => ((key, j), c)
      else stop .expectedColon c
  else stop .expectedKey c

/-- The object whose opening brace stands in front of the cursor. -/
def object (item : Cursor → Counted Json) (c : Cursor) : Counted Json :=
  let inside := skipBlanks c.advance
  if inside.peek? = some Bytes.closeBrace then .ok (.object [], inside.advance)
  else
    (listed Bytes.closeBrace .expectedObjectSeparator .trailingObjectComma (member item)
      (fun ms e => Dictionary.insert e.1 e.2 ms) c.rest [] c.advance).map fun (ms, c) => (.object ms, c)

/-! ### Values -/

/-- Goes by a word, if it stands in front of the cursor. -/
def consume? (word : Bytes) (c : Cursor) : Option Cursor :=
  if word <+: c.rest then some (c.advanceBy word.length) else none

def keyword? (c : Cursor) : Option (Json × Cursor) :=
  match consume? (ascii "true") c with
  | some c => some (.bool true, c)
  | none =>
    match consume? (ascii "false") c with
    | some c => some (.bool false, c)
    | none => (consume? (ascii "null") c).map fun c => (.null, c)

def value : (levels : Nat) → Cursor → Counted Json
  | 0, c => stop .tooDeep c
  | levels + 1, c =>
    match c.peek? with
    | none => stop .endOfInput c
    | some b =>
      if b = Bytes.openBrace then object (value levels) c
      else if b = Bytes.openBracket then array (value levels) c
      else if b = Bytes.quote then (string c).map fun (text, c) => (.string text, c)
      else if b = Bytes.minus ∨ Numeral.isDigit b then (number c).map fun (n, c) => (.number n, c)
      else
        match keyword? c with
        | some found => .ok found
        | none => stop (.unexpectedCharacter b) c

/-- The value of a JSON text, or the report on what is wrong with it, by the counters. -/
def read (text : Bytes) : Except ErrorReport Json :=
  match value Parser.maxLevels (skipBlanks (.start text)) with
  | .error report => .error report
  | .ok (j, c) => if (skipBlanks c).rest = [] then .ok j else .error ((skipBlanks c).report .trailingContent)

/-! ## With counters and without -/

/-- **The same outcome**: the same value, with the cursor in front of what is left, or the report on the same fault. -/
inductive Agree {α : Type} (text : Bytes) : Counted α → Parsed α → Prop
  | ok (a : α) {c : Cursor} (h : c.At text) : Agree text (.ok (a, c)) (.ok (a, c.rest))
  | error (fault : Fault) : Agree text (.error (fault.report text)) (.error fault)

/-- **A reader with counters does what the reader without them does**, from every place in a text. -/
def Tracks {α : Type} (text : Bytes) (counted : Cursor → Counted α) (plain : Bytes → Parsed α) : Prop :=
  ∀ c : Cursor, c.At text → Agree text (counted c) (plain c.rest)

section

variable {α β : Type} {text : Bytes} {c : Cursor}

theorem agree_ok (a : α) (hc : c.At text) {rest : Bytes} (hrest : c.rest = rest) :
    Agree text (.ok (a, c)) (.ok (a, rest)) := by
  subst hrest
  exact .ok a hc

/-- All errors but one are placed where the cursor stands. -/
theorem agree_stop {cause : Cause} (hc : c.At text) {rest : Bytes} (hrest : c.rest = rest)
    (hcause : cause ≠ .unterminatedString := by simp) : Agree (α := α) text (stop cause c) (Json.stop cause rest) := by
  subst hrest
  have herror : Agree (α := α) text _ _ := .error ⟨cause, c.rest⟩
  rwa [hc.report_eq, if_neg hcause] at herror

/-- A string without an end is placed where it was opened. -/
theorem agree_unterminated (hc : c.At text) :
    Agree (α := α) text (unterminated c) (Json.stop .unterminatedString c.rest) := by
  have herror : Agree (α := α) text _ _ := .error ⟨.unterminatedString, c.rest⟩
  rwa [hc.report_eq, if_pos rfl] at herror

/-- Outcomes that agree go on to such. -/
theorem Agree.bind {x : Counted α} {y : Parsed α} (h : Agree text x y) {f : α × Cursor → Counted β}
    {g : α × Bytes → Parsed β} (hfg : ∀ a c, c.At text → Agree text (f (a, c)) (g (a, c.rest))) :
    Agree text (Except.bind x f) (Except.bind y g) := by
  cases h with
  | ok a hc => exact hfg a _ hc
  | error fault => exact .error fault

theorem Agree.map {x : Counted α} {y : Parsed α} (h : Agree text x y) (f : α → β) :
    Agree text (x.map fun (a, c) => (f a, c)) (y.map fun (a, s) => (f a, s)) := by
  cases h with
  | ok a hc => exact .ok (f a) hc
  | error fault => exact .error fault

/-! ### Blanks and words -/

theorem rest_skipBlanks (c : Cursor) : (skipBlanks c).rest = Parser.skipBlanks c.rest :=
  c.rest_advanceWhile Parser.isBlank

theorem at_skipBlanks (hc : c.At text) : (skipBlanks c).At text :=
  hc.advanceWhile Parser.isBlank

theorem after?_eq (b : UInt8) (c : Cursor) :
    Bytes.after? [b] c.rest = if c.peek? = some b then some c.advance.rest else none := by
  rcases c.cases_rest with ⟨hrest, hpeek⟩ | ⟨d, s, hrest, hpeek, hadvance⟩
  · rw [hrest, hpeek]
    rfl
  · rw [hrest, hpeek, hadvance]
    simp only [Bytes.after?, Option.some.injEq, eq_comm]

/-! ### Strings -/

theorem agree_unicodeEscape (hc : c.At text) :
    Agree text (unicodeEscape c)
      (match c.rest with
        | h₁ :: h₂ :: h₃ :: h₄ :: rest =>
          match Parser.codeUnit? h₁ h₂ h₃ h₄ with
          | some u => .ok (Parser.codeUnitBytes u, rest)
          | none => Json.stop .invalidUnicodeEscape c.rest
        | _ => Json.stop .incompleteUnicodeEscape c.rest) := by
  unfold unicodeEscape
  split
  · next hrest =>
      split
      · exact agree_ok _ (hc.advanceBy 4) (by rw [Cursor.rest_advanceBy, hrest]; rfl)
      · exact agree_stop hc rfl
  · exact agree_stop hc rfl

theorem tracks_stringCharacter (b : UInt8) : Tracks text (stringCharacter b) (Parser.stringCharacter b) := by
  intro c hc
  unfold stringCharacter Parser.stringCharacter
  split
  · exact agree_stop hc rfl
  split
  · exact .ok _ hc
  rcases c.cases_rest with ⟨hrest, hpeek⟩ | ⟨e, s, hrest, hpeek, hadvance⟩
  · simp only [hrest, hpeek]
    exact agree_stop hc hrest
  · simp only [hrest, hpeek]
    split
    · have hescape := agree_unicodeEscape hc.advance
      rwa [hadvance] at hescape
    · cases Parser.shortEscape? e with
      | some byte => exact agree_ok _ hc.advance hadvance
      | none => exact agree_stop hc.advance hadvance

theorem tracks_stringBody {opening : Cursor} (hopening : opening.At text) (bound read : Bytes) :
    Tracks text (stringBody opening bound read) (Parser.stringBody opening.rest bound read) := by
  intro c hc
  induction bound generalizing read c with
  | nil => exact agree_unterminated hopening
  | cons b bound ih =>
      rw [stringBody]
      rcases c.cases_rest with ⟨hrest, hpeek⟩ | ⟨b, s, hrest, hpeek, hadvance⟩
      · rw [hrest, hpeek]
        exact agree_unterminated hopening
      · rw [hrest, hpeek]
        simp only [Parser.stringBody]
        split
        · exact agree_ok _ hc.advance hadvance
        · have hcharacter := tracks_stringCharacter b c.advance hc.advance
          rw [hadvance] at hcharacter
          generalize stringCharacter b c.advance = x, Parser.stringCharacter b s = y at hcharacter
          cases hcharacter with
          | ok bytes hc => exact ih _ _ hc
          | error fault => exact .error fault

/-- Strings are read from their opening quote on. -/
theorem agree_string (hc : c.At text) (hpeek : c.peek? = some Bytes.quote) :
    Agree text (string c) (Parser.string c.advance.rest) := by
  have hbody := tracks_stringBody hc c.rest [] c.advance hc.advance
  rcases c.cases_rest with ⟨-, hnone⟩ | ⟨b, s, hrest, hsome, hadvance⟩
  · rw [hnone] at hpeek
    cases hpeek
  · rw [hsome] at hpeek
    cases hpeek
    rw [hrest] at hbody
    rw [string, Parser.string, hrest, hadvance]
    rwa [hadvance] at hbody

/-! ### Numbers -/

theorem tracks_someDigits (cause : Cause) (hcause : cause ≠ .unterminatedString) (f : Bytes → α) :
    Tracks text (someDigits cause f) fun s =>
      match Parser.digits s with
      | ([], rest) => Json.stop cause rest
      | (run, rest) => .ok (f run, rest) := by
  intro c hc
  have hdigits := hc.advanceWhile Numeral.isDigit
  have hrest := c.rest_advanceWhile Numeral.isDigit
  simp only [someDigits, digits, Parser.digits]
  cases c.rest.takeWhile Numeral.isDigit with
  | nil => exact agree_stop hdigits hrest hcause
  | cons d run => exact agree_ok _ hdigits hrest

/-- A sign that may stand in front of a number. -/
theorem numberSign_eq (hc : c.At text) :
    (numberSign c).2.At text ∧ Parser.numberSign c.rest = ((numberSign c).1, (numberSign c).2.rest) := by
  unfold numberSign
  rcases c.cases_rest with ⟨hrest, hpeek⟩ | ⟨b, s, hrest, hpeek, hadvance⟩
  · rw [hpeek, if_neg (by simp), hrest]
    exact ⟨hc, rfl⟩
  · rw [hpeek, hrest, Parser.numberSign]
    by_cases hb : b = Bytes.minus
    · simp only [hb, if_true, hadvance]
      exact ⟨hc.advance, trivial⟩
    · simp only [hb, if_false, Option.some.injEq, hrest]
      exact ⟨hc, trivial⟩

theorem tracks_wholePart : Tracks text wholePart Parser.wholePart := by
  intro c hc
  have hdigits := tracks_someDigits .invalidNumber (by simp) id c hc
  unfold wholePart
  rcases c.cases_rest with ⟨hrest, hpeek⟩ | ⟨b, s, hrest, hpeek, hadvance⟩
  · rw [hpeek, if_neg (by simp), hrest]
    rwa [hrest] at hdigits
  · rw [hpeek, hrest, Parser.wholePart]
    by_cases hb : b = Bytes.zero
    · simp only [hb, if_true]
      exact agree_ok _ hc.advance hadvance
    · simp only [hb, if_false, Option.some.injEq]
      simp only [hrest] at hdigits
      -- Where there is no digit, nothing has been gone by.
      generalize hrun : Parser.digits (b :: s) = o at hdigits
      obtain ⟨run, rest⟩ := o
      cases run with
      | nil =>
          obtain rfl : b :: s = rest := (Parser.digits_eq hrun).1
          exact hdigits
      | cons d run => exact hdigits

theorem tracks_fractionPart : Tracks text fractionPart Parser.fractionPart := by
  intro c hc
  unfold fractionPart
  rcases c.cases_rest with ⟨hrest, hpeek⟩ | ⟨b, s, hrest, hpeek, hadvance⟩
  · rw [hpeek, if_neg (by simp), hrest]
    exact agree_ok none hc hrest
  · rw [hpeek, hrest, Parser.fractionPart]
    by_cases hb : b = Bytes.dot
    · simp only [hb, if_true]
      have hdigits := tracks_someDigits .expectedFractionDigit (by simp) some _ hc.advance
      rwa [hadvance] at hdigits
    · simp only [hb, if_false, Option.some.injEq]
      exact agree_ok none hc hrest

/-- A sign that may stand in front of an exponent. -/
theorem exponentSign_eq (hc : c.At text) :
    (exponentSign c).2.At text ∧ Parser.exponentSign c.rest = ((exponentSign c).1, (exponentSign c).2.rest) := by
  unfold exponentSign
  rcases c.cases_rest with ⟨hrest, hpeek⟩ | ⟨b, s, hrest, hpeek, hadvance⟩
  · rw [hpeek, if_neg (by simp), if_neg (by simp), hrest]
    exact ⟨hc, rfl⟩
  · rw [hpeek, hrest, Parser.exponentSign]
    by_cases hminus : b = Bytes.minus
    · simp only [hminus, if_true, hadvance]
      exact ⟨hc.advance, trivial⟩
    by_cases hplus : b = 0x2B
    · simp only [Option.some.injEq, if_neg hminus, if_pos hplus, hadvance]
      exact ⟨hc.advance, trivial⟩
    · simp only [Option.some.injEq, if_neg hminus, if_neg hplus, hrest]
      exact ⟨hc, trivial⟩

theorem tracks_exponentPart : Tracks text exponentPart Parser.exponentPart := by
  intro c hc
  unfold exponentPart
  rcases c.cases_rest with ⟨hrest, hpeek⟩ | ⟨b, s, hrest, hpeek, hadvance⟩
  · rw [hpeek, if_neg (by simp), hrest]
    exact agree_ok none hc hrest
  · rw [hpeek, hrest, Parser.exponentPart]
    by_cases hb : b = 0x65 ∨ b = 0x45
    · obtain ⟨hsign, heq⟩ := exponentSign_eq hc.advance
      rw [hadvance] at heq
      simp only [Option.some.injEq, if_pos hb, heq]
      exact tracks_someDigits .expectedExponentDigit (by simp) _ _ hsign
    · simp only [Option.some.injEq, if_neg hb]
      exact agree_ok none hc hrest

theorem tracks_number : Tracks text number Parser.number := by
  intro c hc
  obtain ⟨hsign, heq⟩ := numberSign_eq hc
  rw [Parser.number, heq]
  refine (tracks_wholePart _ hsign).bind fun whole c hc => ?_
  refine (tracks_fractionPart c hc).bind fun fraction c hc => ?_
  refine (tracks_exponentPart c hc).bind fun exponent c hc => ?_
  exact .ok _ hc

/-! ### Arrays and objects -/

theorem tracks_listed {item : Cursor → Counted α} {plain : Bytes → Parsed α} (h : Tracks text item plain)
    (close : UInt8) (separator trailing : Cause) (hseparator : separator ≠ .unterminatedString)
    (htrailing : trailing ≠ .unterminatedString) (add : β → α → β) (bound : Bytes) (read : β) :
    Tracks text (listed close separator trailing item add bound read)
      (Parser.listed close separator trailing plain add bound read) := by
  intro c hc
  induction bound generalizing read c with
  | nil => exact agree_stop hc rfl
  | cons b bound ih =>
      have hitem := h _ (at_skipBlanks hc)
      rw [rest_skipBlanks] at hitem
      simp only [listed, Parser.listed]
      generalize item (skipBlanks c) = x, plain (Parser.skipBlanks c.rest) = y at hitem
      cases hitem with
      | error fault => exact .error fault
      | @ok a c hc =>
          have hc := at_skipBlanks hc
          simp only [← rest_skipBlanks]
          rcases (skipBlanks c).cases_rest with ⟨hrest, hpeek⟩ | ⟨d, s, hrest, hpeek, hadvance⟩
          · simp only [hrest, hpeek]
            exact agree_stop hc hrest hseparator
          · simp only [hrest, hpeek]
            split
            · exact agree_ok _ hc.advance hadvance
            split
            · have hrest : (skipBlanks (skipBlanks c).advance).rest = Parser.skipBlanks s := by
                rw [rest_skipBlanks, hadvance]
              rw [Cursor.peek?, hrest]
              split
              · exact agree_stop (at_skipBlanks hc.advance) hrest htrailing
              · have hlater := ih (add read a) _ hc.advance
                rwa [hadvance] at hlater
            · exact agree_stop hc.advance hadvance hseparator

section

variable {item : Cursor → Counted Json} {plain : Bytes → Parsed Json} (h : Tracks text item plain)

include h

/-- Arrays are read from their opening bracket on. -/
theorem agree_array (hc : c.At text) {s : Bytes} (hrest : c.rest = Bytes.openBracket :: s) :
    Agree text (array item c) (Parser.array plain s) := by
  have hinside := at_skipBlanks hc.advance
  have hlisted := tracks_listed h Bytes.closeBracket .expectedArraySeparator .trailingArrayComma (by simp) (by simp)
    (fun js j => j :: js) c.rest [] _ hc.advance
  obtain rfl : c.advance.rest = s := by rw [Cursor.rest_advance, hrest, List.tail_cons]
  rw [array, Parser.array, ← rest_skipBlanks, after?_eq, ← hrest]
  split
  · exact agree_ok _ hinside.advance rfl
  · rw [Parser.elements_eq]
    generalize listed Bytes.closeBracket _ _ item _ c.rest [] c.advance = x,
      Parser.listed Bytes.closeBracket _ _ plain _ c.rest [] c.advance.rest = y at hlisted
    cases hlisted with
    | ok items hc => exact .ok _ hc
    | error fault => exact .error fault

theorem tracks_member : Tracks text (member item) (Parser.member plain) := by
  intro c hc
  rw [member, Parser.member, after?_eq]
  split
  · next hquote =>
      have hstring := agree_string hc hquote
      simp only
      generalize string c = x, Parser.string c.advance.rest = y at hstring
      cases hstring with
      | error fault => exact .error fault
      | @ok key c hc =>
          have hc := at_skipBlanks hc
          simp only [← rest_skipBlanks, after?_eq]
          split
          · have hitem := h _ (at_skipBlanks hc.advance)
            rw [rest_skipBlanks] at hitem
            simp only
            generalize item (skipBlanks (skipBlanks c).advance) = x,
              plain (Parser.skipBlanks (skipBlanks c).advance.rest) = y at hitem
            cases hitem with
            | ok j hc => exact .ok _ hc
            | error fault => exact .error fault
          · exact agree_stop hc rfl
  · exact agree_stop hc rfl

/-- Objects are read from their opening brace on. -/
theorem agree_object (hc : c.At text) {s : Bytes} (hrest : c.rest = Bytes.openBrace :: s) :
    Agree text (object item c) (Parser.object plain s) := by
  have hinside := at_skipBlanks hc.advance
  have hlisted := tracks_listed (tracks_member h) Bytes.closeBrace .expectedObjectSeparator .trailingObjectComma
    (by simp) (by simp) (fun ms e => Dictionary.insert e.1 e.2 ms) c.rest [] _ hc.advance
  obtain rfl : c.advance.rest = s := by rw [Cursor.rest_advance, hrest, List.tail_cons]
  rw [object, Parser.object, ← rest_skipBlanks, after?_eq, ← hrest]
  split
  · exact agree_ok _ hinside.advance rfl
  · rw [Parser.members_eq]
    exact hlisted.map Json.object

end

/-! ### Values -/

/-- A word is gone by where it stands. -/
theorem consume?_eq (hc : c.At text) (word : Bytes) :
    (consume? word c = none ∧ Bytes.after? word c.rest = none) ∨
      ∃ c', consume? word c = some c' ∧ c'.At text ∧ Bytes.after? word c.rest = some c'.rest := by
  unfold consume?
  split
  · next hstarts =>
      obtain ⟨rest, hrest⟩ := hstarts
      refine .inr ⟨_, rfl, hc.advanceBy _, ?_⟩
      rw [Cursor.rest_advanceBy, ← hrest, List.drop_left]
      exact Bytes.after?_eq_some_iff.mpr rfl
  · next hstarts =>
      refine .inl ⟨rfl, Option.eq_none_iff_forall_ne_some.mpr fun rest hafter => hstarts ?_⟩
      exact ⟨rest, (Bytes.after?_eq_some_iff.mp hafter).symm⟩

theorem keyword?_eq (hc : c.At text) :
    (keyword? c = none ∧ Parser.keyword? c.rest = none) ∨
      ∃ j c', keyword? c = some (j, c') ∧ c'.At text ∧ Parser.keyword? c.rest = some (j, c'.rest) := by
  unfold keyword? Parser.keyword?
  rcases consume?_eq hc (ascii "true") with ⟨htrue, htrue'⟩ | ⟨c', htrue, hc', htrue'⟩
  · rw [htrue, htrue']
    rcases consume?_eq hc (ascii "false") with ⟨hfalse, hfalse'⟩ | ⟨c', hfalse, hc', hfalse'⟩
    · rw [hfalse, hfalse']
      rcases consume?_eq hc (ascii "null") with ⟨hnull, hnull'⟩ | ⟨c', hnull, hc', hnull'⟩
      · rw [hnull, hnull']
        exact .inl ⟨rfl, rfl⟩
      · rw [hnull, hnull']
        exact .inr ⟨_, c', rfl, hc', rfl⟩
    · rw [hfalse, hfalse']
      exact .inr ⟨_, c', rfl, hc', rfl⟩
  · rw [htrue, htrue']
    exact .inr ⟨_, c', rfl, hc', rfl⟩

/-- **Values**, by induction on the levels that are left. -/
theorem tracks_value (levels : Nat) : Tracks text (value levels) (Parser.value levels) := by
  induction levels with
  | zero => exact fun c hc => agree_stop hc rfl
  | succ levels ih =>
      intro c hc
      rw [value]
      rcases c.cases_rest with ⟨hrest, hpeek⟩ | ⟨b, s, hrest, hpeek, hadvance⟩
      · rw [hrest, hpeek]
        exact agree_stop hc hrest
      rw [hrest, hpeek, Parser.value]
      simp only
      split
      · next hb => exact agree_object ih hc (by rw [hrest, hb])
      split
      · next hb => exact agree_array ih hc (by rw [hrest, hb])
      split
      · next hb =>
          have hstring := agree_string hc (by rw [hpeek, hb])
          rw [hadvance] at hstring
          exact hstring.map Json.string
      rw [← hrest]
      split
      · exact (tracks_number c hc).map Json.number
      rcases keyword?_eq hc with ⟨hnone, hnone'⟩ | ⟨j, c', hsome, hc', hsome'⟩
      · rw [hnone, hnone']
        exact agree_stop hc rfl
      · rw [hsome, hsome']
        exact .ok j hc'

end

/-! ## Whole texts -/

/-- **Counting on the way and working the place out come to the same**, for every text: the value, or the report with
its line, column and offset. -/
theorem read_eq (text : Bytes) : Counting.read text = Json.read text := by
  have hstart := at_skipBlanks (Cursor.at_start text)
  have hvalue := tracks_value Parser.maxLevels _ hstart
  rw [rest_skipBlanks] at hvalue
  simp only [Counting.read, Json.read, parse]
  show _ = (Except.bind (Parser.value Parser.maxLevels (Parser.skipBlanks (Cursor.start text).rest)) _).mapError _
  generalize value Parser.maxLevels (skipBlanks (.start text)) = x,
    Parser.value Parser.maxLevels (Parser.skipBlanks (Cursor.start text).rest) = y at hvalue
  cases hvalue with
  | error fault => rfl
  | @ok j c hc =>
      have hend := (at_skipBlanks hc).report_eq .trailingContent
      simp only [Except.bind, ← rest_skipBlanks]
      split
      · next hnil => rw [hnil]; rfl
      · next hne =>
          obtain ⟨b, s, hrest⟩ := List.exists_cons_of_ne_nil hne
          rw [if_neg (by simp), hrest] at hend
          rw [hrest, ← hend]
          rfl

end Counting

end ModRepair.Json
