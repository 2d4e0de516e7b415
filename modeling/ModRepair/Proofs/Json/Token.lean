import Mathlib.Data.List.TakeWhile
import ModRepair.Json.Parser
import ModRepair.Proofs.Json.Grammar

/-!
# Tokens and their readers

The readers of blanks, strings and numbers against the grammar of these tokens, in both directions.

* `string_eq_ok_iff` — **strings**: the reader takes exactly the characters up to the first quote that is not one of
  them, and gives what they denote; `string_eq_control_iff` — a control character stops it;
* `number_of_literal`, `literal_of_number` — **numbers**: the reader takes a literal, if what follows does not go on
  with it (`Ends`), and takes nothing else.
-/

namespace ModRepair.Json.Parser

open Grammar

/-! ## Blanks -/

theorem isBlank_iff {c : UInt8} : isBlank c = true ↔ c ∈ [0x20, 0x09, 0x0A, 0x0D] := by
  simp [isBlank, or_assoc]

theorem blanks_nil : Blanks [] := nofun

/-- Blanks in front of a text are skipped with those of the text. -/
theorem skipBlanks_append {w : Bytes} (hw : Blanks w) (s : Bytes) : skipBlanks (w ++ s) = skipBlanks s :=
  List.dropWhile_append_of_pos fun c hc => isBlank_iff.mpr (hw c hc)

/-- Only blanks are skipped. -/
theorem exists_blanks (s : Bytes) : ∃ w, Blanks w ∧ s = w ++ skipBlanks s :=
  ⟨s.takeWhile isBlank, fun _ hc => isBlank_iff.mp (List.mem_takeWhile_imp hc), (List.takeWhile_append_dropWhile ..).symm⟩

/-! ## Escapes -/

theorem shortEscape?_eq_some_iff {c b : UInt8} : shortEscape? c = some b ↔ (c, b) ∈ shortEscapes := by
  constructor
  · intro h
    unfold shortEscape? at h
    split at h
    · next hc => rcases hc with rfl | rfl | rfl <;> cases h <;> decide
    iterate 5
      split at h
      · next hc =>
          subst hc
          cases h
          decide
    cases h
  · intro h
    simp only [shortEscapes, List.mem_cons, List.not_mem_nil, Prod.mk.injEq, or_false] at h
    rcases h with ⟨rfl, rfl⟩ | ⟨rfl, rfl⟩ | ⟨rfl, rfl⟩ | ⟨rfl, rfl⟩ | ⟨rfl, rfl⟩ | ⟨rfl, rfl⟩ | ⟨rfl, rfl⟩ |
      ⟨rfl, rfl⟩ <;> rfl

theorem hexValue?_eq_some_iff {c : UInt8} {n : Nat} : Numeral.hexValue? c = some n ↔ HexDigit c n := by
  -- One way by cases on the byte, the other by cases on the value.
  have hbyte : ∀ k < 256, (Numeral.hexValue? (.ofNat k)).all fun n =>
      (ascii "0123456789abcdef")[n]? = some (.ofNat k) ∨ (ascii "0123456789ABCDEF")[n]? = some (.ofNat k) := by
    decide +kernel
  have hvalue : ∀ n < 16, (ascii "0123456789abcdef")[n]?.all (Numeral.hexValue? · = some n) ∧
      (ascii "0123456789ABCDEF")[n]?.all (Numeral.hexValue? · = some n) := by
    decide +kernel
  constructor
  · intro h
    have hc := hbyte c.toNat c.toNat_lt
    rw [UInt8.ofNat_toNat, h] at hc
    simpa [HexDigit] using hc
  · rintro (h | h)
    · have hn := (hvalue n (List.getElem?_eq_some_iff.mp h).1).1
      rw [h] at hn
      simpa using hn
    · have hn := (hvalue n (List.getElem?_eq_some_iff.mp h).1).2
      rw [h] at hn
      simpa using hn

theorem codeUnit?_eq_some_iff {c₁ c₂ c₃ c₄ : UInt8} {u : Nat} :
    codeUnit? c₁ c₂ c₃ c₄ = some u ↔ ∃ n₁ n₂ n₃ n₄, HexDigit c₁ n₁ ∧ HexDigit c₂ n₂ ∧ HexDigit c₃ n₃ ∧ HexDigit c₄ n₄ ∧
      ((n₁ * 16 + n₂) * 16 + n₃) * 16 + n₄ = u := by
  simp only [codeUnit?, Option.bind_eq_bind, Option.bind_eq_some_iff, hexValue?_eq_some_iff, Option.pure_def,
    Option.some.injEq, exists_and_left]

/-- A code unit has one form. -/
theorem unitBytes_iff {u : Nat} {bytes : Bytes} : UnitBytes u bytes ↔ bytes = codeUnitBytes u := by
  constructor
  · intro h
    cases h with
    | one h => rw [codeUnitBytes, if_pos h]
    | @two a b hb h h' =>
        rw [codeUnitBytes, if_neg (by omega), if_pos h', show (a * 0x40 + b) / 0x40 = a by omega,
          show (a * 0x40 + b) % 0x40 = b by omega]
    | @three a b c hb hc h =>
        rw [codeUnitBytes, if_neg (by omega), if_neg (by omega),
          show ((a * 0x40 + b) * 0x40 + c) / 0x1000 = a by omega,
          show ((a * 0x40 + b) * 0x40 + c) / 0x40 % 0x40 = b by omega,
          show ((a * 0x40 + b) * 0x40 + c) % 0x40 = c by omega]
  · rintro rfl
    unfold codeUnitBytes
    split
    · next h => exact .one h
    · split
      · next h h' =>
          have hu : u / 0x40 * 0x40 + u % 0x40 = u := Nat.div_add_mod' u 0x40
          have hform := UnitBytes.two (a := u / 0x40) (b := u % 0x40) (by omega) (by omega) (by omega)
          rwa [hu] at hform
      · next h h' =>
          have hu : (u / 0x1000 * 0x40 + u / 0x40 % 0x40) * 0x40 + u % 0x40 = u := by omega
          have hform := UnitBytes.three (a := u / 0x1000) (b := u / 0x40 % 0x40) (c := u % 0x40)
            (by omega) (by omega) (by omega)
          rwa [hu] at hform

/-! ## Strings -/

/-- A character starts with a byte that is no quote. -/
theorem exists_cons_of_character {s bytes : Bytes} (h : Character s bytes) :
    ∃ c t, s = c :: t ∧ c ≠ Bytes.quote := by
  cases h with
  | plain h hquote hbackslash => exact ⟨_, _, rfl, hquote⟩
  | short h => exact ⟨_, _, rfl, by decide⟩
  | codeUnit h₁ h₂ h₃ h₄ h => exact ⟨_, _, rfl, by decide⟩

/-- **The reader of one character** takes a character of the grammar. -/
theorem stringCharacter_eq_ok_iff {c : UInt8} (hc : c ≠ Bytes.quote) {s bytes rest : Bytes} :
    stringCharacter c s = .ok (bytes, rest) ↔ ∃ t, Character (c :: t) bytes ∧ s = t ++ rest := by
  constructor
  · intro h
    unfold stringCharacter at h
    split at h
    · cases h
    next hcontrol =>
    split at h
    · next hbackslash =>
        cases h
        exact ⟨[], .plain (UInt8.not_lt.mp hcontrol) hc hbackslash, rfl⟩
    next hbackslash =>
    obtain rfl := not_not.mp hbackslash
    split at h
    · cases h
    next e s =>
    split at h
    · next hu =>
        subst hu
        split at h
        · next c₁ c₂ c₃ c₄ rest' =>
            split at h
            · next u hunit =>
                cases h
                obtain ⟨n₁, n₂, n₃, n₄, h₁, h₂, h₃, h₄, rfl⟩ := codeUnit?_eq_some_iff.mp hunit
                exact ⟨[0x75, c₁, c₂, c₃, c₄], .codeUnit h₁ h₂ h₃ h₄ (unitBytes_iff.mpr rfl), rfl⟩
            · cases h
        · cases h
    · split at h
      · next b hshort =>
          cases h
          exact ⟨[e], .short (shortEscape?_eq_some_iff.mp hshort), rfl⟩
      · cases h
  · rintro ⟨t, hcharacter, rfl⟩
    cases hcharacter with
    | plain h hquote hbackslash =>
        unfold stringCharacter
        rw [if_neg (UInt8.not_lt.mpr h), if_pos hbackslash]
        rfl
    | @short letter byte h =>
        have hu : letter ≠ 0x75 := by
          rintro rfl
          revert h
          simp [shortEscapes]
        unfold stringCharacter
        rw [if_neg (by decide), if_neg (by simp)]
        simp only [List.singleton_append, if_neg hu, shortEscape?_eq_some_iff.mpr h]
    | codeUnit h₁ h₂ h₃ h₄ h =>
        have hunit := codeUnit?_eq_some_iff.mpr ⟨_, _, _, _, h₁, h₂, h₃, h₄, rfl⟩
        unfold stringCharacter
        rw [if_neg (by decide), if_neg (by simp)]
        simp only [List.cons_append, List.nil_append, if_true, hunit, unitBytes_iff.mp h]

/-- **The loop over characters**, with a bound above the length of the text. -/
theorem stringBody_eq_ok_iff {opening bound read s text rest : Bytes} (hbound : s.length < bound.length) :
    stringBody opening bound read s = .ok (text, rest) ↔
      ∃ t bytes, Characters t bytes ∧ s = t ++ Bytes.quote :: rest ∧ text = read.reverse ++ bytes := by
  induction bound generalizing read s with
  | nil => exact absurd hbound (Nat.not_lt_zero _)
  | cons b bound ih =>
      cases s with
      | nil => simp [stringBody]
      | cons c s =>
          by_cases hc : c = Bytes.quote
          · subst hc
            rw [stringBody, if_pos rfl]
            constructor
            · intro h
              cases h
              exact ⟨[], [], .nil, rfl, (List.append_nil _).symm⟩
            · rintro ⟨t, bytes, ht, hs, rfl⟩
              cases ht with
              | nil =>
                  cases hs
                  rw [List.append_nil]
              | cons head tail =>
                  obtain ⟨d, t, rfl, hd⟩ := exists_cons_of_character head
                  exact absurd (List.cons.inj hs).1.symm hd
          · rw [stringBody, if_neg hc]
            constructor
            · intro h
              split at h
              · cases h
              · next bytes s' hcharacter =>
                  obtain ⟨t, ht, rfl⟩ := (stringCharacter_eq_ok_iff hc).mp hcharacter
                  have hbound : s'.length < bound.length := by
                    simp only [List.length_cons, List.length_append] at hbound
                    omega
                  obtain ⟨t', bytes', ht', rfl, rfl⟩ := (ih hbound).mp h
                  exact ⟨c :: t ++ t', bytes ++ bytes', .cons ht ht', by simp, by simp⟩
            · rintro ⟨t, bytes, ht, hs, rfl⟩
              cases ht with
              | nil => exact absurd (List.cons.inj hs).1 hc
              | @cons t t' bytes bytes' head tail =>
                  obtain ⟨d, t, rfl, -⟩ := exists_cons_of_character head
                  rw [List.append_assoc, List.cons_append] at hs
                  obtain ⟨rfl, rfl⟩ := List.cons.inj hs
                  have hbound : (t' ++ Bytes.quote :: rest).length < bound.length := by
                    simp only [List.length_cons, List.length_append] at hbound ⊢
                    omega
                  rw [(stringCharacter_eq_ok_iff hc).mpr ⟨t, head, rfl⟩]
                  exact (ih hbound).mpr ⟨t', bytes', tail, rfl, by simp⟩

/-- **The reader of strings.** -/
theorem string_eq_ok_iff {s text rest : Bytes} :
    string s = .ok (text, rest) ↔ ∃ t, Characters t text ∧ s = t ++ Bytes.quote :: rest := by
  rw [string, stringBody_eq_ok_iff (Nat.lt_succ_self _)]
  simp only [List.reverse_nil, List.nil_append]
  constructor
  · rintro ⟨t, bytes, ht, hs, rfl⟩
    exact ⟨t, ht, hs⟩
  · rintro ⟨t, ht, hs⟩
    exact ⟨t, text, ht, hs, rfl⟩

/-! ### Control characters -/

theorem stringCharacter_eq_control_iff {c : UInt8} {s rest : Bytes} :
    stringCharacter c s = .error ⟨.controlCharacter, rest⟩ ↔ c < 0x20 ∧ s = rest := by
  unfold stringCharacter
  split
  · next hc => simp [hc]
  · next hc =>
      refine iff_of_false ?_ fun h => hc h.1
      intro h
      -- All other faults of a character are about escapes.
      split at h
      · cases h
      split at h
      · cases h
      split at h
      · split at h
        · split at h <;> cases h
        · cases h
      · split at h <;> cases h

/-- A character is taken off the text, its bytes are put to the value. -/
theorem stringBody_of_character {opening bound read s bytes : Bytes} (b : UInt8) (h : Character s bytes)
    (rest : Bytes) :
    stringBody opening (b :: bound) read (s ++ rest) = stringBody opening bound (bytes.reverse ++ read) rest := by
  obtain ⟨c, t, rfl, hc⟩ := exists_cons_of_character h
  rw [List.cons_append, stringBody, if_neg hc, (stringCharacter_eq_ok_iff hc).mpr ⟨t, h, rfl⟩]

theorem stringBody_of_control {opening bound read t bytes rest : Bytes} {c : UInt8} (ht : Characters t bytes)
    (hc : c < 0x20) (hbound : (t ++ c :: rest).length < bound.length) :
    stringBody opening bound read (t ++ c :: rest) = .error ⟨.controlCharacter, rest⟩ := by
  induction ht generalizing bound read with
  | nil =>
      obtain ⟨b, bound, rfl⟩ := List.exists_cons_of_length_pos (Nat.zero_lt_of_lt hbound)
      have hquote : c ≠ Bytes.quote := by
        rintro rfl
        exact absurd hc (by decide)
      rw [List.nil_append, stringBody, if_neg hquote, stringCharacter_eq_control_iff.mpr ⟨hc, rfl⟩]
  | @cons s t bytes bytes' head tail ih =>
      obtain ⟨b, bound, rfl⟩ := List.exists_cons_of_length_pos (Nat.zero_lt_of_lt hbound)
      obtain ⟨d, u, rfl, -⟩ := exists_cons_of_character head
      rw [List.append_assoc, stringBody_of_character b head]
      refine ih ?_
      simp only [List.length_append, List.length_cons] at hbound ⊢
      omega

/-- **The reader of strings stops at a control character**, behind characters that it has taken. -/
theorem string_eq_control_iff {s rest : Bytes} :
    string s = .error ⟨.controlCharacter, rest⟩ ↔
      ∃ t bytes c, Characters t bytes ∧ c < 0x20 ∧ s = t ++ c :: rest := by
  constructor
  · suffices h : ∀ opening bound read s, stringBody opening bound read s = .error ⟨.controlCharacter, rest⟩ →
        ∃ t bytes c, Characters t bytes ∧ c < 0x20 ∧ s = t ++ c :: rest from h _ _ _ s
    intro opening bound read s h
    induction bound generalizing read s with
    | nil => cases h
    | cons b bound ih =>
        cases s with
        | nil => cases h
        | cons c s =>
            rw [stringBody] at h
            split at h
            · cases h
            next hc =>
            split at h
            · next fault hcharacter =>
                cases h
                obtain ⟨hcontrol, rfl⟩ := stringCharacter_eq_control_iff.mp hcharacter
                exact ⟨[], [], c, .nil, hcontrol, rfl⟩
            · next bytes s' hcharacter =>
                obtain ⟨t, ht, rfl⟩ := (stringCharacter_eq_ok_iff hc).mp hcharacter
                obtain ⟨t', bytes', d, ht', hd, rfl⟩ := ih _ _ h
                exact ⟨c :: t ++ t', bytes ++ bytes', d, .cons ht ht', hd, by simp⟩
  · rintro ⟨t, bytes, c, ht, hc, rfl⟩
    exact stringBody_of_control ht hc (Nat.lt_succ_self _)

/-! ## Digits -/

/-- A text that does not start with a digit. -/
def NoDigit (rest : Bytes) : Prop :=
  ∀ c s, rest = c :: s → Numeral.isDigit c = false

theorem noDigit_cons {c : UInt8} {s : Bytes} (hc : Numeral.isDigit c = false) : NoDigit (c :: s) := by
  intro c' s' h
  cases h
  exact hc

/-- A run of digits is read up to its end. -/
theorem digits_append {run rest : Bytes} (hrun : ∀ c ∈ run, Numeral.isDigit c = true) (hrest : NoDigit rest) :
    digits (run ++ rest) = (run, rest) := by
  have hnone : rest.takeWhile Numeral.isDigit = [] ∧ rest.dropWhile Numeral.isDigit = rest := by
    cases rest with
    | nil => exact ⟨rfl, rfl⟩
    | cons c s => simp [hrest c s rfl]
  rw [digits, List.takeWhile_append_of_pos hrun, List.dropWhile_append_of_pos hrun, hnone.1, hnone.2, List.append_nil]

/-- What is read as digits are digits. -/
theorem digits_eq {s run rest : Bytes} (h : digits s = (run, rest)) :
    s = run ++ rest ∧ ∀ c ∈ run, Numeral.isDigit c = true := by
  obtain ⟨rfl, rfl⟩ := Prod.mk.inj h
  exact ⟨(List.takeWhile_append_dropWhile ..).symm, fun c hc => List.mem_takeWhile_imp hc⟩

theorem exists_cons_of_digits {run : Bytes} (h : Digits run) : ∃ c s, run = c :: s ∧ Numeral.isDigit c = true := by
  obtain ⟨c, s, rfl⟩ := List.exists_cons_of_ne_nil h.nonempty
  exact ⟨c, s, rfl, h.digits c (List.mem_cons_self ..)⟩

/-! ## Numbers -/

/-- A text that does not go on with a number that stands before it. -/
def Ends (rest : Bytes) : Prop :=
  ∀ c s, rest = c :: s → Numeral.isDigit c = false ∧ c ≠ Bytes.dot ∧ c ≠ 0x65 ∧ c ≠ 0x45

theorem ends_cons {c : UInt8} {s : Bytes}
    (hc : Numeral.isDigit c = false ∧ c ≠ Bytes.dot ∧ c ≠ 0x65 ∧ c ≠ 0x45) : Ends (c :: s) := by
  intro c' s' h
  cases h
  exact hc

theorem Ends.noDigit {rest : Bytes} (h : Ends rest) : NoDigit rest :=
  fun c s hcs => (h c s hcs).1

/-- Blanks end a number, whatever follows them, if that ends one. -/
theorem ends_blanks {w : Bytes} (hw : Blanks w) {rest : Bytes} (hrest : Ends rest) : Ends (w ++ rest) := by
  cases w with
  | nil => exact hrest
  | cons c w =>
      have hc := hw c (List.mem_cons_self ..)
      refine ends_cons ?_
      simp only [List.mem_cons, List.not_mem_nil, or_false] at hc
      rcases hc with rfl | rfl | rfl | rfl <;> decide

section

variable {s rest : Bytes}

theorem numberSign_signText {negative : Bool} (hs : ∀ c s', s = c :: s' → c ≠ Bytes.minus) :
    numberSign (NumberLiteral.signText negative ++ s) = (negative, s) := by
  cases negative with
  | true => rfl
  | false =>
      cases s with
      | nil => rfl
      | cons c s' =>
          show numberSign (c :: s') = _
          rw [numberSign, if_neg (hs c s' rfl)]

theorem numberSign_eq {negative : Bool} (h : numberSign s = (negative, rest)) :
    s = NumberLiteral.signText negative ++ rest := by
  cases s with
  | nil =>
      cases h
      rfl
  | cons c s =>
      rw [numberSign] at h
      split at h
      · next hc =>
          cases h
          rw [hc]
          rfl
      · cases h
        rfl

theorem wholePart_append {whole : Bytes} (hdigits : Digits whole)
    (hzero : whole.head? = some Bytes.zero → whole = [Bytes.zero]) (hrest : NoDigit rest) :
    wholePart (whole ++ rest) = .ok (whole, rest) := by
  obtain ⟨c, s, rfl, -⟩ := exists_cons_of_digits hdigits
  have hread := digits_append hdigits.digits hrest
  rw [List.cons_append] at hread ⊢
  by_cases hc : c = Bytes.zero
  · obtain ⟨-, rfl⟩ := List.cons.inj (hzero (congrArg some hc))
    rw [wholePart, if_pos hc]
    rfl
  · rw [wholePart, if_neg hc, hread]

theorem wholePart_eq_ok {whole : Bytes} (h : wholePart s = .ok (whole, rest)) :
    s = whole ++ rest ∧ Digits whole ∧ (whole.head? = some Bytes.zero → whole = [Bytes.zero]) := by
  cases s with
  | nil => cases h
  | cons c s =>
      rw [wholePart] at h
      split at h
      · next hc =>
          cases h
          subst hc
          exact ⟨rfl, ⟨nofun, by simp; decide⟩, fun _ => rfl⟩
      · next hc =>
          split at h
          · cases h
          · next hne heq =>
              cases h
              obtain ⟨hs, hrun⟩ := digits_eq heq
              refine ⟨hs, ⟨hne, hrun⟩, ?_⟩
              intro hhead
              cases whole with
              | nil => cases hhead
              | cons d run =>
                  obtain ⟨rfl, -⟩ := List.cons.inj hs
                  exact absurd (Option.some.inj hhead) hc

theorem fractionPart_append {fraction : Option Bytes} (hdigits : ∀ f, fraction = some f → Digits f)
    (hrest : NoDigit rest) (hdot : ∀ c s, rest = c :: s → c ≠ Bytes.dot) :
    fractionPart (NumberLiteral.fractionText fraction ++ rest) = .ok (fraction, rest) := by
  cases fraction with
  | none =>
      show fractionPart rest = _
      cases rest with
      | nil => rfl
      | cons c s => rw [fractionPart, if_neg (hdot c s rfl)]
  | some f =>
      have hf := hdigits f rfl
      obtain ⟨c, s, rfl, -⟩ := exists_cons_of_digits hf
      show fractionPart (Bytes.dot :: (c :: s ++ rest)) = _
      rw [fractionPart, if_pos rfl, digits_append hf.digits hrest]

theorem fractionPart_eq_ok {fraction : Option Bytes} (h : fractionPart s = .ok (fraction, rest)) :
    s = NumberLiteral.fractionText fraction ++ rest ∧ ∀ f, fraction = some f → Digits f := by
  cases s with
  | nil =>
      cases h
      exact ⟨rfl, nofun⟩
  | cons c s =>
      rw [fractionPart] at h
      split at h
      · next hc =>
          split at h
          · cases h
          · next hne heq =>
              cases h
              obtain ⟨rfl, hrun⟩ := digits_eq heq
              refine ⟨by rw [hc]; rfl, ?_⟩
              intro f hf
              cases hf
              exact ⟨hne, hrun⟩
      · cases h
        exact ⟨rfl, nofun⟩

theorem exponentSign_signText {sign : Option Bool} {c : UInt8} (hc : Numeral.isDigit c = true) :
    exponentSign (Exponent.signText sign ++ c :: s) = (decide (sign = some true), c :: s) := by
  have hne : ∀ d, Numeral.isDigit d = false → c ≠ d := by
    rintro d hd rfl
    rw [hc] at hd
    cases hd
  rcases sign with - | - | -
  · show exponentSign (c :: s) = _
    rw [exponentSign, if_neg (hne _ rfl), if_neg (hne _ rfl)]
    rfl
  · rfl
  · rfl

theorem exponentSign_eq {negative : Bool} (h : exponentSign s = (negative, rest)) :
    ∃ sign, s = Exponent.signText sign ++ rest ∧ negative = decide (sign = some true) := by
  cases s with
  | nil =>
      cases h
      exact ⟨none, rfl, rfl⟩
  | cons c s =>
      rw [exponentSign] at h
      split at h
      · next hc =>
          cases h
          exact ⟨some true, by rw [hc]; rfl, rfl⟩
      · split at h
        · next hc =>
            cases h
            exact ⟨some false, by rw [hc]; rfl, rfl⟩
        · cases h
          exact ⟨none, rfl, rfl⟩

theorem exponentPart_append {exponent : Option Exponent} (hrest : Ends rest) :
    exponentPart (NumberLiteral.exponentText exponent ++ rest) = .ok (exponent.map Exponent.value, rest) := by
  cases exponent with
  | none =>
      show exponentPart rest = _
      cases rest with
      | nil => rfl
      | cons c s =>
          obtain ⟨-, -, he, hE⟩ := hrest c s rfl
          rw [exponentPart, if_neg (not_or.mpr ⟨he, hE⟩)]
          rfl
  | some e =>
      have hdigits := digits_append e.isDigits.digits hrest.noDigit
      obtain ⟨c, s, hcs, hc⟩ := exists_cons_of_digits e.isDigits
      rw [hcs, List.cons_append] at hdigits
      have htext : NumberLiteral.exponentText (some e) ++ rest =
          e.letter :: (Exponent.signText e.sign ++ (e.digits ++ rest)) := by
        rw [NumberLiteral.exponentText, Exponent.text, List.cons_append, List.append_assoc]
      rw [htext, exponentPart, if_pos e.isLetter, hcs, List.cons_append, exponentSign_signText hc]
      simp only [hdigits, Exponent.value, hcs, decide_eq_true_eq, Option.map_some]

theorem exponentPart_eq_ok {exponent : Option Int} (h : exponentPart s = .ok (exponent, rest)) :
    ∃ e : Option Exponent, s = NumberLiteral.exponentText e ++ rest ∧ exponent = e.map Exponent.value := by
  cases s with
  | nil =>
      cases h
      exact ⟨none, rfl, rfl⟩
  | cons c s =>
      rw [exponentPart] at h
      split at h
      · next hc =>
          generalize hsign : exponentSign s = o at h
          obtain ⟨negative, s'⟩ := o
          obtain ⟨sign, rfl, rfl⟩ := exponentSign_eq hsign
          simp only at h
          split at h
          · cases h
          · next run _ hne heq =>
              cases h
              obtain ⟨rfl, hrun⟩ := digits_eq heq
              refine ⟨some ⟨c, sign, run, hc, hne, hrun⟩, ?_, ?_⟩
              · simp [NumberLiteral.exponentText, Exponent.text]
              · simp [Exponent.value]
      · cases h
        exact ⟨none, rfl, rfl⟩

end

/-! ## The number that a literal denotes -/

/-- The parts of a literal. -/
def numerals (l : NumberLiteral) : Numerals :=
  ⟨l.negative, l.whole, l.fraction, l.exponent.map Exponent.value⟩

/-- The number made of the parts of a literal is the one that it denotes. -/
theorem toNumber_eq_iff {l : NumberLiteral} {n : Number} : (numerals l).toNumber = n ↔ l.Denotes n := by
  have hmin : Int64.minValue.toInt = -2 ^ 63 := by decide
  have hmax : Int64.maxValue.toInt = 2 ^ 63 - 1 := by decide
  have hcond : (l.fraction.isNone ∧ (l.exponent.map Exponent.value).isNone ∧ Int64.minValue.toInt ≤ l.integerPart ∧
      l.integerPart ≤ Int64.maxValue.toInt) ↔ l.IsInteger := by
    simp only [hmin, hmax, NumberLiteral.IsInteger, Option.isNone_iff_eq_none, Option.map_eq_none_iff]
  have htoNumber : (numerals l).toNumber =
      if l.fraction.isNone ∧ (l.exponent.map Exponent.value).isNone ∧ Int64.minValue.toInt ≤ l.integerPart ∧
        l.integerPart ≤ Int64.maxValue.toInt then .integer (Int64.ofInt l.integerPart) else .double l.nearest := rfl
  rw [htoNumber]
  by_cases h : l.IsInteger
  · have hi : (Int64.ofInt l.integerPart).toInt = l.integerPart :=
      Int64.toInt_ofInt_of_le (by have := h.2.2.1; omega) (by have := h.2.2.2; omega)
    rw [if_pos (hcond.mpr h)]
    constructor
    · rintro rfl
      exact .integer h hi
    · intro hdenotes
      cases hdenotes with
      | integer _ hj => rw [← hj, Int64.ofInt_toInt]
      | double hnot => exact absurd h hnot
  · rw [if_neg fun hc => h (hcond.mp hc)]
    constructor
    · rintro rfl
      exact .double h
    · intro hdenotes
      cases hdenotes with
      | integer hinteger _ => exact absurd hinteger h
      | double _ => rfl

/-- **A literal is read**, up to a text that does not go on with it. -/
theorem number_of_literal {l : NumberLiteral} {n : Number} (h : l.Denotes n) {rest : Bytes} (hrest : Ends rest) :
    number (l.text ++ rest) = .ok (n, rest) := by
  -- What follows the whole part, and then the fraction, starts with no digit.
  have hexponent : NoDigit (NumberLiteral.exponentText l.exponent ++ rest) ∧
      ∀ c s, NumberLiteral.exponentText l.exponent ++ rest = c :: s → c ≠ Bytes.dot := by
    cases l.exponent with
    | none => exact ⟨hrest.noDigit, fun c s hcs => (hrest c s hcs).2.1⟩
    | some e =>
        refine ⟨noDigit_cons ?_, ?_⟩
        · rcases e.isLetter with h | h <;> rw [h] <;> rfl
        · intro c s hcs
          obtain ⟨rfl, -⟩ := List.cons.inj hcs
          rcases e.isLetter with h | h <;> rw [h] <;> decide
  have hfraction : NoDigit (NumberLiteral.fractionText l.fraction ++ (NumberLiteral.exponentText l.exponent ++ rest)) := by
    cases l.fraction with
    | none => exact hexponent.1
    | some f => exact noDigit_cons rfl
  have hminus : ∀ c s, l.whole ++ (NumberLiteral.fractionText l.fraction ++
      (NumberLiteral.exponentText l.exponent ++ rest)) = c :: s → c ≠ Bytes.minus := by
    intro c s hcs
    obtain ⟨d, t, hwhole, hd⟩ := exists_cons_of_digits l.wholeDigits
    rw [hwhole] at hcs
    obtain ⟨rfl, -⟩ := List.cons.inj hcs
    rintro rfl
    cases hd
  have hnumber : (numerals l).toNumber = n := toNumber_eq_iff.mpr h
  rw [NumberLiteral.text, List.append_assoc, List.append_assoc, List.append_assoc, number, numberSign_signText hminus]
  simp only [bind, Except.bind, wholePart_append l.wholeDigits l.noLeadingZero hfraction,
    fractionPart_append l.fractionDigits hexponent.1 hexponent.2, exponentPart_append hrest, pure, Except.pure]
  rw [← hnumber]
  rfl

/-- **Only literals are read.** -/
theorem literal_of_number {s rest : Bytes} {n : Number} (h : number s = .ok (n, rest)) :
    ∃ l : NumberLiteral, l.Denotes n ∧ s = l.text ++ rest := by
  rw [number] at h
  generalize hsign : numberSign s = o at h
  obtain ⟨negative, s₁⟩ := o
  obtain rfl := numberSign_eq hsign
  simp only [bind, Except.bind] at h
  split at h
  · cases h
  next o hwhole =>
  obtain ⟨whole, s₂⟩ := o
  obtain ⟨rfl, hdigits, hzero⟩ := wholePart_eq_ok hwhole
  split at h
  · cases h
  next o hfraction =>
  obtain ⟨fraction, s₃⟩ := o
  obtain ⟨rfl, hfractionDigits⟩ := fractionPart_eq_ok hfraction
  split at h
  · cases h
  next o hexponent =>
  obtain ⟨exponent, s₄⟩ := o
  obtain ⟨e, rfl, rfl⟩ := exponentPart_eq_ok hexponent
  cases h
  refine ⟨⟨negative, whole, fraction, e, hdigits, hzero, hfractionDigits⟩, toNumber_eq_iff.mp rfl, ?_⟩
  simp [NumberLiteral.text]

end ModRepair.Json.Parser
