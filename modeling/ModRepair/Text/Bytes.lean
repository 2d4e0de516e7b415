/-!
# Byte strings

Every text the library handles, from file contents to member names, is a list of bytes: names need not be
valid UTF-8, and no operation looks beyond single bytes. Literals are written as ASCII strings with `ascii`.
-/

namespace ModRepair

/-- A text as its bytes. -/
abbrev Bytes := List UInt8

/-- The bytes of a literal whose characters are all ASCII. -/
def ascii (s : String) : Bytes :=
  s.toList.map fun c => UInt8.ofNat c.toNat

namespace Bytes

/-! ## Named bytes -/

abbrev newline : UInt8 := 0x0A
abbrev space : UInt8 := 0x20
abbrev quote : UInt8 := 0x22
abbrev comma : UInt8 := 0x2C
abbrev minus : UInt8 := 0x2D
abbrev dot : UInt8 := 0x2E
abbrev slash : UInt8 := 0x2F
abbrev zero : UInt8 := 0x30
abbrev colon : UInt8 := 0x3A
abbrev equals : UInt8 := 0x3D
abbrev openBracket : UInt8 := 0x5B
abbrev backslash : UInt8 := 0x5C
abbrev closeBracket : UInt8 := 0x5D
abbrev openBrace : UInt8 := 0x7B
abbrev closeBrace : UInt8 := 0x7D

/-! ## Composition -/

/-- The text between apostrophes, as messages quote names. -/
def quoted (s : Bytes) : Bytes :=
  ascii "'" ++ s ++ ascii "'"

/-- The text between double quotes, as messages quote keys. -/
def doubleQuoted (s : Bytes) : Bytes :=
  quote :: s ++ [quote]

/-- The texts one after another, each closed by a line feed. -/
def lines (ls : List Bytes) : Bytes :=
  ls.flatMap (· ++ [newline])

/-- The text filled up with `fill` on the right to at least `width` bytes. -/
def padRight (width : Nat) (fill : UInt8) (s : Bytes) : Bytes :=
  s ++ List.replicate (width - s.length) fill

/-- The text filled up with `fill` on the left to at least `width` bytes. -/
def padLeft (width : Nat) (fill : UInt8) (s : Bytes) : Bytes :=
  List.replicate (width - s.length) fill ++ s

/-! ## Taking apart -/

/-- What follows `word`, if the text starts with it. -/
def after? : (word : Bytes) → Bytes → Option Bytes
  | [], s => some s
  | _ :: _, [] => none
  | w :: word, c :: s => if w = c then after? word s else none

theorem after?_eq_some_iff {word s rest : Bytes} : after? word s = some rest ↔ s = word ++ rest := by
  fun_induction after? word s <;> simp_all [eq_comm]

/-- The parts before and after the first `sep`, if there is one. -/
def splitFirst? (sep : UInt8) : Bytes → Option (Bytes × Bytes)
  | [] => none
  | c :: s => if c = sep then some ([], s) else (splitFirst? sep s).map fun (l, r) => (c :: l, r)

/-- The parts between the occurrences of `sep`: one more than it occurs. -/
def splitAll (sep : UInt8) : Bytes → List Bytes
  | [] => [[]]
  | c :: s =>
    match splitAll sep s with
    | [] => [[c]]
    | part :: parts => if c = sep then [] :: part :: parts else (c :: part) :: parts

/-- The part before the first zero byte: the whole text if there is none. -/
def untilZero (s : Bytes) : Bytes :=
  s.takeWhile (· != 0)

/-- The part after the last byte that satisfies `p`: the whole text if none does. -/
def afterLast (p : UInt8 → Bool) (s : Bytes) : Bytes :=
  (s.reverse.takeWhile fun c => !p c).reverse

/-- Only ASCII capitals have a lower-case form. -/
def lowerByte (c : UInt8) : UInt8 :=
  if 0x41 ≤ c ∧ c ≤ 0x5A then c + 0x20 else c

/-- The text in lower case, ASCII letters only. -/
def lower (s : Bytes) : Bytes :=
  s.map lowerByte

end Bytes

end ModRepair
