import ModRepair.Text.Numeral

/-!
# Decimal numerals read back

The digits of a number, read as a number, give it back (`value_decimal`), and a numeral starts with a zero only if it
is that of zero (`head?_decimal`).
-/

namespace ModRepair.Numeral

/-! ## Digits -/

theorem isDigit_digit {d : Nat} (h : d < 10) : isDigit (digit d) = true := by
  have hall : ∀ d < 10, isDigit (digit d) = true := by decide
  exact hall d h

theorem digitValue_digit {d : Nat} (h : d < 10) : digitValue (digit d) = d := by
  have hall : ∀ d < 10, digitValue (digit d) = d := by decide
  exact hall d h

theorem digit_ne_zero {d : Nat} (h : d < 10) (hd : d ≠ 0) : digit d ≠ Bytes.zero := by
  have hall : ∀ d < 10, d ≠ 0 → digit d ≠ Bytes.zero := by decide
  exact hall d h hd

/-! ## Numerals -/

/-- A number below ten is its digit; any other ends in its last one. -/
theorem decimal_eq (n : Nat) : decimal n = if n < 10 then [digit n] else decimal (n / 10) ++ [digit (n % 10)] :=
  numeral_eq (by omega) n

theorem decimal_ne_nil (n : Nat) : decimal n ≠ [] := by
  rw [decimal_eq]
  split <;> simp

theorem isDigit_of_mem_decimal (n : Nat) : ∀ c ∈ decimal n, isDigit c = true := by
  induction n using Nat.strongRecOn with
  | ind n ih =>
      intro c hc
      rw [decimal_eq] at hc
      split at hc
      · next hn =>
          rw [List.mem_singleton.mp hc]
          exact isDigit_digit hn
      · next hn =>
          rcases List.mem_append.mp hc with hc | hc
          · exact ih (n / 10) (by omega) c hc
          · rw [List.mem_singleton.mp hc]
            exact isDigit_digit (by omega)

theorem value_append_singleton (s : Bytes) (c : UInt8) : value (s ++ [c]) = value s * 10 + digitValue c := by
  rw [value, List.foldl_append]
  rfl

/-- **A numeral reads back.** -/
theorem value_decimal (n : Nat) : value (decimal n) = n := by
  induction n using Nat.strongRecOn with
  | ind n ih =>
      rw [decimal_eq]
      split
      · next hn =>
          show 0 * 10 + digitValue (digit n) = n
          rw [digitValue_digit hn]
          omega
      · next hn =>
          rw [value_append_singleton, ih (n / 10) (by omega), digitValue_digit (by omega)]
          omega

/-- No numeral but that of zero starts with a zero. -/
theorem head?_decimal {n : Nat} (hn : n ≠ 0) : (decimal n).head? ≠ some Bytes.zero := by
  induction n using Nat.strongRecOn with
  | ind n ih =>
      rw [decimal_eq]
      split
      · next hlt =>
          intro h
          exact digit_ne_zero hlt hn (Option.some.inj h)
      · next hge =>
          intro h
          obtain ⟨c, s, hcs⟩ := List.exists_cons_of_ne_nil (decimal_ne_nil (n / 10))
          rw [hcs] at h
          refine ih (n / 10) (by omega) (by omega) ?_
          rw [hcs]
          exact h

end ModRepair.Numeral
