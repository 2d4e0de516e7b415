import ModRepair.Proofs.Json.Acceptance
import ModRepair.Proofs.Text.Utf8

/-!
# Two spellings of a string

A character of a string may be written as it is, in UTF-8, or by a `\u` escape for each of its UTF-16 code units. The
reader takes both, but it takes each escape by itself and writes a code unit as if it were a character. That is right
for the characters with one code unit. Of a character above U+FFFF it makes six bytes, three for each surrogate of the
pair, and these are no UTF-8.

* `Direct`, `Escaped`, `Literal` — the two ways of writing a character, and literals that keep to one of them, with
  `exists_direct`, `exists_escaped`: every text has both;
* `parse_literal` — what a literal reads as, character by character;
* `bytes_utf8_iff` — when what the escapes leave is UTF-8;
* `spellings_agree_iff` — **when both spellings mean the same**;
* `surrogate_pair_not_combined` — a character whose spellings do not.
-/

namespace ModRepair.Json

open Grammar

/-! ## Ways of writing a character -/

/-- The UTF-16 code units of a character: one, or the two surrogates of a pair. -/
def units (c : Char) : List Nat :=
  if c.toNat < 0x10000 then [c.toNat]
  else [0xD800 + (c.toNat - 0x10000) / 0x400, 0xDC00 + (c.toNat - 0x10000) % 0x400]

/-- The escape of a code unit, with hexadecimal digits of either case. -/
inductive UnitEscape : Nat → Bytes → Prop
  | digits {c₁ c₂ c₃ c₄ : UInt8} {n₁ n₂ n₃ n₄ : Nat} (h₁ : HexDigit c₁ n₁) (h₂ : HexDigit c₂ n₂)
      (h₃ : HexDigit c₃ n₃) (h₄ : HexDigit c₄ n₄) :
      UnitEscape (((n₁ * 16 + n₂) * 16 + n₃) * 16 + n₄) [Bytes.backslash, 0x75, c₁, c₂, c₃, c₄]

/-- A character as it is: by its UTF-8 bytes, or by any escape if it has to be escaped. -/
inductive Direct (c : Char) : Bytes → Prop
  | plain (hcontrol : 0x20 ≤ c.toNat) (hquote : c ≠ '"') (hbackslash : c ≠ '\\') : Direct c (String.utf8EncodeChar c)
  | mandatory {t : Bytes} (hc : c.toNat < 0x20 ∨ c = '"' ∨ c = '\\') (h : Character t [.ofNat c.toNat]) : Direct c t

/-- A character by the escapes of its code units. -/
def Escaped (c : Char) (t : Bytes) : Prop :=
  ∃ ts, List.Forall₂ UnitEscape (units c) ts ∧ t = ts.flatten

/-- A string literal in which every character is written in a certain way. -/
inductive Literal (Spelling : Char → Bytes → Prop) : List Char → Bytes → Prop
  | quoted {cs : List Char} {ts : List Bytes} (h : List.Forall₂ Spelling cs ts) :
      Literal Spelling cs (Bytes.quote :: (ts.flatten ++ [Bytes.quote]))

/-! ### Every character can be written -/

theorem exists_unitEscape {u : Nat} (hu : u < 0x10000) : ∃ t, UnitEscape u t := by
  have hdigit : ∀ n < 16, ∃ c, HexDigit c n :=
    fun n hn => ⟨(ascii "0123456789abcdef")[n], .inl (List.getElem?_eq_getElem _)⟩
  obtain ⟨c₁, h₁⟩ := hdigit (u / 0x1000) (by omega)
  obtain ⟨c₂, h₂⟩ := hdigit (u / 0x100 % 16) (by omega)
  obtain ⟨c₃, h₃⟩ := hdigit (u / 0x10 % 16) (by omega)
  obtain ⟨c₄, h₄⟩ := hdigit (u % 16) (by omega)
  have hu' : ((u / 0x1000 * 16 + u / 0x100 % 16) * 16 + u / 0x10 % 16) * 16 + u % 16 = u := by omega
  have hescape := UnitEscape.digits h₁ h₂ h₃ h₄
  rw [hu'] at hescape
  exact ⟨_, hescape⟩

theorem character_of_unitEscape {u : Nat} {t : Bytes} (h : UnitEscape u t) : Character t (Parser.codeUnitBytes u) := by
  cases h with
  | digits h₁ h₂ h₃ h₄ => exact .codeUnit h₁ h₂ h₃ h₄ (Parser.unitBytes_iff.mpr rfl)

theorem exists_direct (c : Char) : ∃ t, Direct c t := by
  by_cases hc : c.toNat < 0x20 ∨ c = '"' ∨ c = '\\'
  · have hascii : c.toNat < 0x80 := by
      rcases hc with hc | rfl | rfl
      · exact Nat.lt_trans hc (by decide)
      · decide
      · decide
    obtain ⟨t, ht⟩ := exists_unitEscape (Nat.lt_trans hascii (by decide))
    have hcharacter := character_of_unitEscape ht
    rw [Parser.codeUnitBytes, if_pos hascii] at hcharacter
    exact ⟨t, .mandatory hc hcharacter⟩
  · obtain ⟨hcontrol, hother⟩ := not_or.mp hc
    obtain ⟨hquote, hbackslash⟩ := not_or.mp hother
    exact ⟨_, .plain (Nat.not_lt.mp hcontrol) hquote hbackslash⟩

theorem exists_escaped (c : Char) : ∃ t, Escaped c t := by
  unfold Escaped units
  split
  · next h =>
      obtain ⟨t, ht⟩ := exists_unitEscape h
      exact ⟨_, [t], .cons ht .nil, rfl⟩
  · next h =>
      have hc := Utf8.toNat_lt c
      obtain ⟨t, ht⟩ := exists_unitEscape (u := 0xD800 + (c.toNat - 0x10000) / 0x400) (by omega)
      obtain ⟨t', ht'⟩ := exists_unitEscape (u := 0xDC00 + (c.toNat - 0x10000) % 0x400) (by omega)
      exact ⟨_, [t, t'], .cons ht (.cons ht' .nil), rfl⟩

/-- Every text has a literal, if every character can be written. -/
theorem exists_literal {Spelling : Char → Bytes → Prop} (h : ∀ c, ∃ t, Spelling c t) (cs : List Char) :
    ∃ s, Literal Spelling cs s := by
  obtain ⟨ts, hts⟩ : ∃ ts, List.Forall₂ Spelling cs ts := by
    induction cs with
    | nil => exact ⟨[], .nil⟩
    | cons c cs ih =>
        obtain ⟨t, ht⟩ := h c
        obtain ⟨ts, hts⟩ := ih
        exact ⟨t :: ts, .cons ht hts⟩
  exact ⟨_, .quoted hts⟩

/-! ## What literals read as -/

theorem characters_append {s t bytes bytes' : Bytes} (h : Characters s bytes) (h' : Characters t bytes') :
    Characters (s ++ t) (bytes ++ bytes') := by
  induction h with
  | nil => exact h'
  | cons head _ ih =>
      rw [List.append_assoc, List.append_assoc]
      exact .cons head ih

theorem characters_single {s bytes : Bytes} (h : Character s bytes) : Characters s bytes := by
  have hcons := Characters.cons h .nil
  rwa [List.append_nil, List.append_nil] at hcons

/-- Texts that are characters, one after another. -/
theorem characters_flatten {α : Type} {Spelling : α → Bytes → Prop} {bytes : α → Bytes}
    (h : ∀ a t, Spelling a t → Characters t (bytes a)) {as : List α} {ts : List Bytes}
    (hts : List.Forall₂ Spelling as ts) : Characters ts.flatten (as.flatMap bytes) := by
  induction hts with
  | nil => exact .nil
  | cons head _ ih =>
      rw [List.flatten_cons, List.flatMap_cons]
      exact characters_append (h _ _ head) ih

/-- **A literal reads as its characters do**, one after another. -/
theorem parse_literal {Spelling : Char → Bytes → Prop} {bytes : Char → Bytes}
    (h : ∀ c t, Spelling c t → Characters t (bytes c)) {cs : List Char} {s : Bytes} (hs : Literal Spelling cs s) :
    parse s = .ok (.string (cs.flatMap bytes)) := by
  cases hs with
  | quoted hts =>
      have hvalue : Denotes 512 _ (.string (cs.flatMap bytes)) := .string (.quoted (characters_flatten h hts))
      have hdocument := Document.text Parser.blanks_nil hvalue Parser.blanks_nil
      rw [List.nil_append, List.append_nil] at hdocument
      exact parse_of_document hdocument

/-- Bytes that need no escape are characters of their own. -/
theorem characters_of_plain {s : Bytes} (h : ∀ b ∈ s, 0x20 ≤ b ∧ b ≠ Bytes.quote ∧ b ≠ Bytes.backslash) :
    Characters s s := by
  induction s with
  | nil => exact .nil
  | cons b s ih =>
      obtain ⟨hb, hs⟩ := List.forall_mem_cons.mp h
      exact .cons (.plain hb.1 hb.2.1 hb.2.2) (ih hs)

theorem plain_of_high {b : UInt8} (h : 0x80 ≤ b) : 0x20 ≤ b ∧ b ≠ Bytes.quote ∧ b ≠ Bytes.backslash := by
  refine ⟨UInt8.le_trans (by decide) h, ?_, ?_⟩ <;> rintro rfl <;> exact absurd h (by decide)

/-- A character as it is denotes its UTF-8 bytes. -/
theorem characters_of_direct {c : Char} {t : Bytes} (h : Direct c t) : Characters t (String.utf8EncodeChar c) := by
  cases h with
  | plain hcontrol hquote hbackslash =>
      refine characters_of_plain ?_
      by_cases hascii : c.toNat < 0x80
      · rw [Utf8.utf8_ascii hascii]
        have hnat : (UInt8.ofNat c.toNat).toNat = c.toNat := UInt8.toNat_ofNat_of_lt' (Nat.lt_trans hascii (by decide))
        have hne : ∀ d : Char, d.toNat < 0x80 → c ≠ d → UInt8.ofNat c.toNat ≠ .ofNat d.toNat := by
          intro d hd hcd heq
          have heq := congrArg UInt8.toNat heq
          rw [hnat, UInt8.toNat_ofNat_of_lt' (Nat.lt_trans hd (by decide))] at heq
          exact hcd (Char.toNat_inj.mp heq)
        refine List.forall_mem_singleton.mpr ⟨?_, hne '"' (by decide) hquote, hne '\\' (by decide) hbackslash⟩
        rw [UInt8.le_iff_toNat_le, hnat]
        exact hcontrol
      · exact fun b hb => plain_of_high (Utf8.utf8_high (Nat.not_lt.mp hascii) b hb)
  | mandatory hc h =>
      have hascii : c.toNat < 0x80 := by
        rcases hc with hc | rfl | rfl
        · exact Nat.lt_trans hc (by decide)
        · decide
        · decide
      rw [Utf8.utf8_ascii hascii]
      exact characters_single h

/-- The bytes that the escapes of a character denote: those of its code units. -/
def unitwise (c : Char) : Bytes :=
  (units c).flatMap Parser.codeUnitBytes

theorem characters_of_escaped {c : Char} {t : Bytes} (h : Escaped c t) : Characters t (unitwise c) := by
  obtain ⟨ts, hts, rfl⟩ := h
  exact characters_flatten (fun _ _ h => characters_single (character_of_unitEscape h)) hts

/-! ## Characters with one code unit, and with two -/

/-- The bytes of a code unit that is a character are those of the character. -/
theorem unitwise_eq_utf8 {c : Char} (h : c.toNat < 0x10000) : unitwise c = String.utf8EncodeChar c := by
  rw [unitwise, units, if_pos h, List.flatMap_singleton, Parser.codeUnitBytes]
  split
  · next h₁ => exact (Utf8.utf8_ascii h₁).symm
  · next h₁ =>
      split
      · next h₂ => exact (Utf8.utf8_two (Nat.not_lt.mp h₁) h₂).symm
      · next h₂ => exact (Utf8.utf8_three (Nat.not_lt.mp h₂) h).symm

/-- The bytes of a pair start with those of a surrogate. -/
theorem exists_surrogate {c : Char} (h : ¬ c.toNat < 0x10000) : ∃ b s, unitwise c = 0xED :: b :: s ∧ 0xA0 ≤ b := by
  have hc := Utf8.toNat_lt c
  generalize hu : 0xD800 + (c.toNat - 0x10000) / 0x400 = u
  have hlead : 0xE0 + u / 0x1000 = 0xED := by omega
  have hbyte : 0x80 + u / 0x40 % 0x40 < 0x100 := by omega
  have hunit : Parser.codeUnitBytes u = [0xED, .ofNat (0x80 + u / 0x40 % 0x40), .ofNat (0x80 + u % 0x40)] := by
    rw [Parser.codeUnitBytes, if_neg (by omega), if_neg (by omega), hlead]
    rfl
  refine ⟨.ofNat (0x80 + u / 0x40 % 0x40), .ofNat (0x80 + u % 0x40) ::
    [0xDC00 + (c.toNat - 0x10000) % 0x400].flatMap Parser.codeUnitBytes, ?_, ?_⟩
  · rw [unitwise, units, if_neg h, hu, List.flatMap_cons, hunit]
    simp only [List.cons_append, List.nil_append]
  · rw [UInt8.le_iff_toNat_le, UInt8.toNat_ofNat_of_lt' hbyte]
    show 0xA0 ≤ _
    omega

/-- **What escapes leave is UTF-8** exactly if every character has one code unit. -/
theorem bytes_utf8_iff (cs : List Char) :
    (∃ ds, cs.flatMap unitwise = utf8 ds) ↔ ∀ c ∈ cs, c.toNat < 0x10000 := by
  constructor
  · rintro ⟨ds, hds⟩ c hc
    refine Decidable.byContradiction fun hpair => ?_
    obtain ⟨b, s, hbytes, hb⟩ := exists_surrogate hpair
    obtain ⟨before, after, rfl⟩ := List.append_of_mem hc
    have hfree := Utf8.surrogateFree_utf8 ds
    rw [← hds, List.flatMap_append, List.flatMap_cons, hbytes] at hfree
    have hbelow : b < 0xA0 := (List.isChain_append_cons_cons.mp hfree).2.1 rfl
    exact UInt8.not_lt.mpr hb hbelow
  · intro h
    refine ⟨cs, ?_⟩
    rw [utf8, List.flatMap_def, List.flatMap_def, List.map_congr_left fun c hc => unitwise_eq_utf8 (h c hc)]

/-! ## The two spellings -/

/-- **When both spellings of a text mean the same.** A literal that holds the characters as they are reads as their
UTF-8. One that holds `\u` escapes for their code units reads too, and gives the same string exactly if no character is
above U+FFFF. If there is one, the string is not the UTF-8 of any text. -/
theorem spellings_agree_iff {cs : List Char} {direct escaped : Bytes} (hdirect : Literal Direct cs direct)
    (hescaped : Literal Escaped cs escaped) :
    parse direct = .ok (.string (utf8 cs)) ∧
      ∃ value, parse escaped = .ok (.string value) ∧
        (value = utf8 cs ↔ ∀ c ∈ cs, c.toNat < 0x10000) ∧
        ((∃ ds, value = utf8 ds) ↔ ∀ c ∈ cs, c.toNat < 0x10000) := by
  refine ⟨parse_literal (fun _ _ h => characters_of_direct h) hdirect, cs.flatMap unitwise,
    parse_literal (fun c _ h => characters_of_escaped (c := c) h) hescaped, ?_, bytes_utf8_iff cs⟩
  constructor
  · exact fun heq => (bytes_utf8_iff cs).mp ⟨cs, heq⟩
  · intro h
    rw [utf8, List.flatMap_def, List.flatMap_def, List.map_congr_left fun c hc => unitwise_eq_utf8 (h c hc)]

/-- The literals of a text with characters of one to four bytes, a quote and a line feed: both read, and the second
gives another string. -/
theorem spellings_agree_iff_sample :
    let cs := ['"', '\n', 'é', '€', '😀']
    Literal Direct cs (Bytes.quote :: ([ascii "\\\"", ascii "\\n", [0xC3, 0xA9], [0xE2, 0x82, 0xAC],
        [0xF0, 0x9F, 0x98, 0x80]].flatten ++ [Bytes.quote])) ∧
      ∃ escaped value, Literal Escaped cs escaped ∧ parse escaped = .ok (.string value) ∧ value ≠ utf8 cs := by
  intro cs
  have hdirect : Literal Direct cs (Bytes.quote :: ([ascii "\\\"", ascii "\\n", [0xC3, 0xA9], [0xE2, 0x82, 0xAC],
      [0xF0, 0x9F, 0x98, 0x80]].flatten ++ [Bytes.quote])) := by
    refine .quoted (.cons (.mandatory (.inr (.inl rfl)) (.short (by decide))) (.cons (.mandatory (.inl (by decide))
      (.short (by decide))) (.cons ?_ (.cons ?_ (.cons ?_ .nil)))))
    · exact .plain (c := 'é') (by decide) (by decide) (by decide)
    · exact .plain (c := '€') (by decide) (by decide) (by decide)
    · exact .plain (c := '😀') (by decide) (by decide) (by decide)
  obtain ⟨escaped, hescaped⟩ := exists_literal exists_escaped cs
  obtain ⟨-, value, hvalue, hsame, -⟩ := spellings_agree_iff hdirect hescaped
  exact ⟨hdirect, escaped, value, hescaped, hvalue, fun heq => absurd (hsame.mp heq '😀' (by decide)) (by decide)⟩

/-- **A surrogate pair is not combined**: the literal of one character above U+FFFF reads as its four bytes, that of its
two escapes as six bytes that are the UTF-8 of no text. -/
theorem surrogate_pair_not_combined :
    parse (Bytes.quote :: (String.utf8EncodeChar '😀' ++ [Bytes.quote])) =
        .ok (.string [0xF0, 0x9F, 0x98, 0x80]) ∧
      parse (ascii "\"\\ud83d\\ude00\"") = .ok (.string [0xED, 0xA0, 0xBD, 0xED, 0xB8, 0x80]) ∧
      ∀ ds, utf8 ds ≠ [0xED, 0xA0, 0xBD, 0xED, 0xB8, 0x80] := by
  refine ⟨by rfl, by rfl, fun ds hds => ?_⟩
  have hpair := (bytes_utf8_iff ['😀']).mp ⟨ds, hds.symm⟩
  exact absurd (hpair '😀' (by decide)) (by decide)

end ModRepair.Json
