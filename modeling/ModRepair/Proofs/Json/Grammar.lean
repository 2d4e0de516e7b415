import Mathlib.Algebra.Group.Int.Defs
import ModRepair.Json.Value

/-!
# The grammar of JSON text

What a JSON text is by RFC 8259, and which value it denotes, without a word on how it is read. Texts are byte
strings; any byte from 0x80 on is an ordinary character of a string.

* `StringText`, `NumberLiteral` — strings and numbers;
* `Listed` — items between commas, for the elements of an array and for the members of an object;
* `ValueText` — values, with the texts of the values inside left open;
* `Denotes n` — values in which every value has fewer than `n` arrays and objects around it;
* `Document n` — such a value with blanks around it. An RFC 8259 text is a `Document n` for some `n`, for by
  `denotes_mono` the number is nothing but a limit.
-/

namespace ModRepair.Json.Grammar

/-! ## Blanks -/

/-- Spaces, tabs, line feeds and carriage returns. -/
def Blanks (s : Bytes) : Prop :=
  ∀ c ∈ s, c ∈ [0x20, 0x09, 0x0A, 0x0D]

/-! ## Strings -/

/-- The letters that a backslash makes an escape of, and the bytes that they then stand for. -/
def shortEscapes : List (UInt8 × UInt8) :=
  [(0x22, 0x22), (0x5C, 0x5C), (0x2F, 0x2F), (0x62, 0x08), (0x66, 0x0C), (0x6E, 0x0A), (0x72, 0x0D), (0x74, 0x09)]

/-- A hexadecimal digit of either case and its value. -/
def HexDigit (c : UInt8) (n : Nat) : Prop :=
  (ascii "0123456789abcdef")[n]? = some c ∨ (ascii "0123456789ABCDEF")[n]? = some c

/-- The bytes of a code unit, one to three by its size: its bits in order, six to each byte after the first. -/
inductive UnitBytes : Nat → Bytes → Prop
  | one {u : Nat} (h : u < 0x80) : UnitBytes u [.ofNat u]
  | two {a b : Nat} (hb : b < 0x40) (h : 0x80 ≤ a * 0x40 + b) (h' : a * 0x40 + b < 0x800) :
      UnitBytes (a * 0x40 + b) [.ofNat (0xC0 + a), .ofNat (0x80 + b)]
  | three {a b c : Nat} (hb : b < 0x40) (hc : c < 0x40) (h : 0x800 ≤ (a * 0x40 + b) * 0x40 + c) :
      UnitBytes ((a * 0x40 + b) * 0x40 + c) [.ofNat (0xE0 + a), .ofNat (0x80 + b), .ofNat (0x80 + c)]

/-- A character of a string, and the bytes that it denotes. -/
inductive Character : Bytes → Bytes → Prop
  /-- Any byte but control characters, quotes and backslashes denotes itself. -/
  | plain {c : UInt8} (h : 0x20 ≤ c) (hquote : c ≠ Bytes.quote) (hbackslash : c ≠ Bytes.backslash) :
      Character [c] [c]
  | short {letter byte : UInt8} (h : (letter, byte) ∈ shortEscapes) : Character [Bytes.backslash, letter] [byte]
  /-- A backslash, `u` and four hexadecimal digits denote a code unit, a surrogate like any other. -/
  | codeUnit {c₁ c₂ c₃ c₄ : UInt8} {n₁ n₂ n₃ n₄ : Nat} {bytes : Bytes} (h₁ : HexDigit c₁ n₁) (h₂ : HexDigit c₂ n₂)
      (h₃ : HexDigit c₃ n₃) (h₄ : HexDigit c₄ n₄) (h : UnitBytes (((n₁ * 16 + n₂) * 16 + n₃) * 16 + n₄) bytes) :
      Character [Bytes.backslash, 0x75, c₁, c₂, c₃, c₄] bytes

/-- Any number of characters one after another. -/
inductive Characters : Bytes → Bytes → Prop
  | nil : Characters [] []
  | cons {s t bytes bytes' : Bytes} (head : Character s bytes) (tail : Characters t bytes') :
      Characters (s ++ t) (bytes ++ bytes')

/-- A string between quotes. -/
inductive StringText : Bytes → Bytes → Prop
  | quoted {s text : Bytes} (h : Characters s text) : StringText (Bytes.quote :: (s ++ [Bytes.quote])) text

/-! ## Numbers -/

/-- One digit or more. -/
structure Digits (s : Bytes) : Prop where
  nonempty : s ≠ []
  digits : ∀ c ∈ s, Numeral.isDigit c = true

/-- The exponent of a number. -/
structure Exponent where
  letter : UInt8
  /-- Whether there is a sign, and if so whether it is a minus. -/
  sign : Option Bool
  digits : Bytes
  isLetter : letter = 0x65 ∨ letter = 0x45
  isDigits : Digits digits

namespace Exponent

def signText : Option Bool → Bytes
  | none => []
  | some false => [0x2B]
  | some true => [Bytes.minus]

def text (e : Exponent) : Bytes :=
  e.letter :: (signText e.sign ++ e.digits)

def value (e : Exponent) : Int :=
  if e.sign = some true then -(Numeral.value e.digits : Int) else Numeral.value e.digits

end Exponent

/-- A number as it is written: a sign or none, digits without a leading zero, and then perhaps a point with digits
    and an exponent. -/
structure NumberLiteral where
  negative : Bool
  whole : Bytes
  fraction : Option Bytes
  exponent : Option Exponent
  wholeDigits : Digits whole
  noLeadingZero : whole.head? = some Bytes.zero → whole = [Bytes.zero]
  fractionDigits : ∀ f, fraction = some f → Digits f

namespace NumberLiteral

def signText (negative : Bool) : Bytes :=
  if negative then [Bytes.minus] else []

def fractionText : Option Bytes → Bytes
  | none => []
  | some f => Bytes.dot :: f

def exponentText : Option Exponent → Bytes
  | none => []
  | some e => e.text

def text (n : NumberLiteral) : Bytes :=
  signText n.negative ++ (n.whole ++ (fractionText n.fraction ++ exponentText n.exponent))

/-- The value of the sign and the digits before the point. -/
def integerPart (n : NumberLiteral) : Int :=
  if n.negative then -(Numeral.value n.whole : Int) else Numeral.value n.whole

/-- Whether a number has neither fraction nor exponent and a value that fits 64 bits. -/
def IsInteger (n : NumberLiteral) : Prop :=
  n.fraction = none ∧ n.exponent = none ∧ -2 ^ 63 ≤ n.integerPart ∧ n.integerPart ≤ 2 ^ 63 - 1

/-- The double nearest to the number: all its digits as one numeral, times a power of ten. -/
def nearest (n : NumberLiteral) : Binary64 :=
  let fraction := n.fraction.getD []
  .ofDecimal n.negative (Numeral.value (n.whole ++ fraction))
    ((n.exponent.map Exponent.value).getD 0 - fraction.length)

/-- A number denotes that integer if it is one of 64 bits, and else a double. -/
inductive Denotes (n : NumberLiteral) : Number → Prop
  | integer {i : Int64} (h : n.IsInteger) (hi : i.toInt = n.integerPart) : Denotes n (.integer i)
  | double (h : ¬ n.IsInteger) : Denotes n (.double n.nearest)

end NumberLiteral

/-! ## Arrays and objects -/

section

variable {α : Type}

/-- One item or more, with commas between them and blanks around each. -/
inductive Listed (Item : Bytes → α → Prop) : Bytes → List α → Prop
  | last {w s w' : Bytes} {a : α} (before : Blanks w) (item : Item s a) (after : Blanks w') :
      Listed Item (w ++ (s ++ w')) [a]
  | more {w s w' t : Bytes} {a : α} {as : List α} (before : Blanks w) (item : Item s a) (after : Blanks w')
      (rest : Listed Item t as) : Listed Item (w ++ (s ++ (w' ++ Bytes.comma :: t))) (a :: as)

/-- The dictionary of some entries: ascending, and under each key the value of its last entry. -/
structure LastWins (entries : List (Bytes × α)) (d : Dictionary α) : Prop where
  ascending : d.Ascending
  last : ∀ key, d.get? key = entries.reverse.lookup key

end

/-- A key, a colon and a value. -/
inductive MemberText (Item : Bytes → Json → Prop) : Bytes → Bytes × Json → Prop
  | member {k key w w' s : Bytes} {j : Json} (name : StringText k key) (before : Blanks w) (after : Blanks w')
      (item : Item s j) : MemberText Item (k ++ (w ++ Bytes.colon :: (w' ++ s))) (key, j)

/-! ## Values -/

/-- A value, where `Item` says which texts are values inside an array or object. -/
inductive ValueText (Item : Bytes → Json → Prop) : Bytes → Json → Prop
  | null : ValueText Item (ascii "null") .null
  | false : ValueText Item (ascii "false") (.bool false)
  | true : ValueText Item (ascii "true") (.bool true)
  | number {l : NumberLiteral} {n : Number} (h : l.Denotes n) : ValueText Item l.text (.number n)
  | string {s text : Bytes} (h : StringText s text) : ValueText Item s (.string text)
  | emptyArray {w : Bytes} (h : Blanks w) :
      ValueText Item (Bytes.openBracket :: (w ++ [Bytes.closeBracket])) (.array [])
  | array {s : Bytes} {items : List Json} (h : Listed Item s items) :
      ValueText Item (Bytes.openBracket :: (s ++ [Bytes.closeBracket])) (.array items)
  | emptyObject {w : Bytes} (h : Blanks w) :
      ValueText Item (Bytes.openBrace :: (w ++ [Bytes.closeBrace])) (.object [])
  | object {s : Bytes} {entries : List (Bytes × Json)} {members : Dictionary Json}
      (h : Listed (MemberText Item) s entries) (hmembers : LastWins entries members) :
      ValueText Item (Bytes.openBrace :: (s ++ [Bytes.closeBrace])) (.object members)

/-- A value in which every value has fewer than `n` arrays and objects around it: inside an array or object one fewer
    may be around those inside. -/
def Denotes : Nat → Bytes → Json → Prop
  | 0 => fun _ _ => False
  | n + 1 => ValueText (Denotes n)

/-- A JSON text: such a value with blanks around it. -/
inductive Document (n : Nat) : Bytes → Json → Prop
  | text {w s w' : Bytes} {j : Json} (before : Blanks w) (value : Denotes n s j) (after : Blanks w') :
      Document n (w ++ (s ++ w')) j

/-! ## Higher limits -/

theorem Listed.mono {α : Type} {Item Item' : Bytes → α → Prop} (hitem : ∀ s a, Item s a → Item' s a) {s : Bytes}
    {as : List α} (h : Listed Item s as) : Listed Item' s as := by
  induction h with
  | last before item after => exact .last before (hitem _ _ item) after
  | more before item after _ ih => exact .more before (hitem _ _ item) after ih

theorem ValueText.mono {Item Item' : Bytes → Json → Prop} (hitem : ∀ s j, Item s j → Item' s j) {s : Bytes} {j : Json}
    (h : ValueText Item s j) : ValueText Item' s j := by
  have hmember : ∀ s e, MemberText Item s e → MemberText Item' s e := by
    rintro s e ⟨name, before, after, item⟩
    exact .member name before after (hitem _ _ item)
  cases h with
  | null => exact .null
  | false => exact .false
  | true => exact .true
  | number h => exact .number h
  | string h => exact .string h
  | emptyArray h => exact .emptyArray h
  | array h => exact .array (h.mono hitem)
  | emptyObject h => exact .emptyObject h
  | object h hmembers => exact .object (h.mono hmember) hmembers

/-- **The limit only limits**: what a text denotes it denotes under every higher limit. -/
theorem denotes_mono {n m : Nat} (hnm : n ≤ m) {s : Bytes} {j : Json} (h : Denotes n s j) : Denotes m s j := by
  induction n generalizing m s j with
  | zero => cases h
  | succ n ih =>
      obtain ⟨m, rfl⟩ := Nat.exists_eq_add_of_le' (Nat.zero_lt_of_lt hnm)
      exact ValueText.mono (fun s j => ih (Nat.le_of_succ_le_succ hnm)) h

end ModRepair.Json.Grammar
