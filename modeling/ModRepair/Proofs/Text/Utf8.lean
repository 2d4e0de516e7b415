import Mathlib.Data.List.Chain
import ModRepair.Text.Bytes

/-!
# UTF-8

Which bytes stand for a sequence of characters, and a property by which other bytes can be told apart: in UTF-8 the byte
`0xED` is always followed by one below `0xA0`, for what would stand there otherwise are surrogates, and these are no
characters.

* `utf8_ascii`, `utf8_high` — the bytes of a character;
* `surrogateFree_utf8` — **UTF-8 has no surrogates**.
-/

namespace ModRepair

/-- The bytes of some characters in UTF-8. -/
def utf8 (cs : List Char) : Bytes :=
  cs.flatMap String.utf8EncodeChar

namespace Utf8

/-! ## Bytes of a character -/

theorem utf8_ascii {c : Char} (h : c.toNat < 0x80) : String.utf8EncodeChar c = [UInt8.ofNat c.toNat] :=
  if_pos (Nat.le_of_lt_succ h)

theorem utf8_two {c : Char} (h : 0x80 ≤ c.toNat) (h' : c.toNat < 0x800) :
    String.utf8EncodeChar c = [.ofNat (0xC0 + c.toNat / 0x40), .ofNat (0x80 + c.toNat % 0x40)] := by
  have hv : c.val.toNat = c.toNat := rfl
  rw [String.utf8EncodeChar, hv]
  rw [if_neg (by omega), if_pos (by omega), Nat.mod_eq_of_lt (b := 32) (by omega), Nat.add_comm, Nat.add_comm 0x80]

theorem utf8_three {c : Char} (h : 0x800 ≤ c.toNat) (h' : c.toNat < 0x10000) :
    String.utf8EncodeChar c =
      [.ofNat (0xE0 + c.toNat / 0x1000), .ofNat (0x80 + c.toNat / 0x40 % 0x40), .ofNat (0x80 + c.toNat % 0x40)] := by
  have hv : c.val.toNat = c.toNat := rfl
  rw [String.utf8EncodeChar, hv]
  rw [if_neg (by omega), if_neg (by omega), if_pos (by omega), Nat.mod_eq_of_lt (b := 16) (by omega), Nat.add_comm,
    Nat.add_comm 0x80, Nat.add_comm 0x80]

theorem utf8_four {c : Char} (h : 0x10000 ≤ c.toNat) :
    String.utf8EncodeChar c = [.ofNat (0xF0 + c.toNat / 0x40000 % 8), .ofNat (0x80 + c.toNat / 0x1000 % 0x40),
      .ofNat (0x80 + c.toNat / 0x40 % 0x40), .ofNat (0x80 + c.toNat % 0x40)] := by
  have hv : c.val.toNat = c.toNat := rfl
  rw [String.utf8EncodeChar, hv]
  rw [if_neg (by omega), if_neg (by omega), if_neg (by omega), Nat.add_comm, Nat.add_comm 0x80, Nat.add_comm 0x80,
    Nat.add_comm 0x80]

theorem toNat_lt (c : Char) : c.toNat < 0x110000 := by
  rcases c.valid with h | h
  · exact Nat.lt_trans h (by decide)
  · exact h.2

theorem not_surrogate (c : Char) : c.toNat < 0xD800 ∨ 0xDFFF < c.toNat := by
  rcases c.valid with h | h
  · exact .inl h
  · exact .inr h.1

/-- The bytes of a character that is not ASCII are not ASCII either. -/
theorem utf8_high {c : Char} (h : 0x80 ≤ c.toNat) : ∀ b ∈ String.utf8EncodeChar c, 0x80 ≤ b := by
  have hle : ∀ n, 0x80 ≤ n → n < 0x100 → (0x80 : UInt8) ≤ .ofNat n := by
    intro n hn hn'
    rw [UInt8.le_iff_toNat_le, UInt8.toNat_ofNat_of_lt' hn']
    exact hn
  by_cases h₂ : c.toNat < 0x800
  · rw [utf8_two h h₂]
    simp only [List.forall_mem_cons]
    exact ⟨hle _ (by omega) (by omega), hle _ (by omega) (by omega), nofun⟩
  by_cases h₃ : c.toNat < 0x10000
  · rw [utf8_three (by omega) h₃]
    simp only [List.forall_mem_cons]
    exact ⟨hle _ (by omega) (by omega), hle _ (by omega) (by omega), hle _ (by omega) (by omega), nofun⟩
  · rw [utf8_four (by omega)]
    simp only [List.forall_mem_cons]
    exact ⟨hle _ (by omega) (by omega), hle _ (by omega) (by omega), hle _ (by omega) (by omega),
      hle _ (by omega) (by omega), nofun⟩

/-! ## Surrogates -/

/-- Each `0xED` is followed by a byte below `0xA0`, if by any. -/
def SurrogateFree (s : Bytes) : Prop :=
  s.IsChain fun a b => a = 0xED → b < 0xA0

theorem ofNat_ne_lead {n : Nat} (h : n < 0x100) (hne : n ≠ 0xED) : UInt8.ofNat n ≠ 0xED := by
  intro heq
  have hnat := congrArg UInt8.toNat heq
  rw [UInt8.toNat_ofNat_of_lt' h] at hnat
  exact hne hnat

/-- The bytes of a character after the first one do not start a character. -/
theorem continuation_ne_lead (n : Nat) : UInt8.ofNat (0x80 + n % 0x40) ≠ 0xED :=
  ofNat_ne_lead (by omega) (by omega)

theorem surrogateFree_char (c : Char) : SurrogateFree (String.utf8EncodeChar c) := by
  by_cases h₁ : c.toNat < 0x80
  · rw [utf8_ascii h₁]
    exact List.IsChain.singleton _
  by_cases h₂ : c.toNat < 0x800
  · rw [utf8_two (by omega) h₂]
    exact List.IsChain.cons_cons (absurd · (ofNat_ne_lead (by omega) (by omega))) (.singleton _)
  by_cases h₃ : c.toNat < 0x10000
  · rw [utf8_three (by omega) h₃]
    refine List.IsChain.cons_cons (fun hlead => ?_) (.cons_cons (absurd · (continuation_ne_lead _)) (.singleton _))
    -- A lead byte `0xED` leaves a range of which the upper half are surrogates.
    have hlead : c.toNat / 0x1000 = 0xD := by
      refine Decidable.byContradiction fun hne => ofNat_ne_lead ?_ ?_ hlead <;> omega
    have hbelow : 0x80 + c.toNat / 0x40 % 0x40 < 0xA0 := by
      have := not_surrogate c
      omega
    rw [UInt8.lt_iff_toNat_lt, UInt8.toNat_ofNat_of_lt' (Nat.lt_trans hbelow (by decide))]
    exact hbelow
  · rw [utf8_four (by omega)]
    exact List.IsChain.cons_cons (absurd · (ofNat_ne_lead (by omega) (by omega)))
      (.cons_cons (absurd · (continuation_ne_lead _)) (.cons_cons (absurd · (continuation_ne_lead _)) (.singleton _)))

theorem getLast_ne_lead (c : Char) : ∀ b ∈ (String.utf8EncodeChar c).getLast?, b ≠ 0xED := by
  have hlast : ∃ s n, String.utf8EncodeChar c = s ++ [UInt8.ofNat n] ∧ n < 0x100 ∧ n ≠ 0xED := by
    by_cases h₁ : c.toNat < 0x80
    · exact ⟨[], _, utf8_ascii h₁, by omega, by omega⟩
    have hn : 0x80 + c.toNat % 0x40 < 0x100 ∧ 0x80 + c.toNat % 0x40 ≠ 0xED := by omega
    by_cases h₂ : c.toNat < 0x800
    · exact ⟨[_], _, utf8_two (by omega) h₂, hn⟩
    by_cases h₃ : c.toNat < 0x10000
    · exact ⟨[_, _], _, utf8_three (by omega) h₃, hn⟩
    · exact ⟨[_, _, _], _, utf8_four (by omega), hn⟩
  obtain ⟨s, n, hs, hn, hne⟩ := hlast
  rw [hs, List.getLast?_concat]
  intro b hb
  cases hb
  exact ofNat_ne_lead hn hne

/-- **UTF-8 has no surrogates.** -/
theorem surrogateFree_utf8 (cs : List Char) : SurrogateFree (utf8 cs) := by
  induction cs with
  | nil => exact List.IsChain.nil
  | cons c cs ih =>
      rw [utf8, List.flatMap_cons]
      exact List.isChain_append.mpr
        ⟨surrogateFree_char c, ih, fun a ha b _ hlead => absurd hlead (getLast_ne_lead c a ha)⟩

end Utf8

end ModRepair
