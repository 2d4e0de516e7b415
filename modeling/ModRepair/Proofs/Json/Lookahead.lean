import ModRepair.Proofs.Json.Depth

/-!
# How far the readers look

What a reader takes depends on the text that it takes and on the byte after it (`Local`), and what it says of a text
depends on the levels that are left only where they run out (`Deepens`).

* `local_number`, `local_value` — numbers, and with them values, are told by one byte;
* `value_of_more_levels` — more levels change nothing but refusals for the depth.
-/

namespace ModRepair.Json.Parser

open Grammar

/-! ## The byte after what is taken -/

section

variable {α β : Type}

/-- **A reader that looks at one byte after what it takes**: it takes the same text with every rest that starts with
that byte. -/
def Local (item : Bytes → Parsed α) : Prop :=
  ∀ s a rest, item s = .ok (a, rest) →
    ∃ t, s = t ++ rest ∧ ∀ rest', rest'.head? = rest.head? → item (t ++ rest') = .ok (a, rest')

/-- The first byte stays if what may change starts with the same one. -/
theorem head?_append_congr {s s' : Bytes} (h : s'.head? = s.head?) (t : Bytes) : (t ++ s').head? = (t ++ s).head? := by
  rw [List.head?_append, List.head?_append, h]

theorem local_bind {f : Bytes → Parsed α} {g : α → Bytes → Parsed β} (hf : Local f) (hg : ∀ a, Local (g a)) :
    Local fun s => (f s).bind fun (a, s) => g a s := by
  intro s b rest h
  simp only [Except.bind] at h
  split at h
  · cases h
  next o hfirst =>
  obtain ⟨t, rfl, ht⟩ := hf s o.1 o.2 hfirst
  obtain ⟨t', hs, ht'⟩ := hg o.1 o.2 b rest h
  refine ⟨t ++ t', by rw [hs, List.append_assoc], ?_⟩
  intro rest' hhead
  have hsame := ht (t' ++ rest') (by rw [hs]; exact head?_append_congr hhead t')
  simp only [Except.bind, List.append_assoc, hsame]
  exact ht' rest' hhead

theorem local_pure (a : α) : Local fun s => .ok (a, s) := by
  intro s b rest h
  cases h
  exact ⟨[], rfl, fun _ _ => rfl⟩

theorem local_map {f : Bytes → Parsed α} {g : α → β} (hf : Local f) :
    Local fun s => (f s).map fun (a, s) => (g a, s) := by
  intro s b rest h
  obtain ⟨o, hfirst, heq⟩ := map_eq_ok_iff.mp h
  cases heq
  obtain ⟨t, rfl, ht⟩ := hf s o.1 o.2 hfirst
  exact ⟨t, rfl, fun rest' hhead => map_eq_ok_iff.mpr ⟨(o.1, rest'), ht rest' hhead, rfl⟩⟩

/-- By its first byte a reader takes nothing at all, or takes the byte and goes on. -/
theorem local_of_first {f : Bytes → Parsed α} (hnil : ∀ a rest, f [] = .ok (a, rest) → rest = [])
    (hcons : ∀ c, (∃ a, ∀ s, f (c :: s) = .ok (a, c :: s)) ∨ Local fun s => f (c :: s)) : Local f := by
  intro s a rest h
  cases s with
  | nil =>
      obtain rfl := hnil a rest h
      refine ⟨[], rfl, ?_⟩
      intro rest' hhead
      obtain rfl := List.head?_eq_none_iff.mp hhead
      exact h
  | cons c s =>
      rcases hcons c with ⟨b, hnone⟩ | hlater
      · rw [hnone s] at h
        cases h
        refine ⟨[], rfl, ?_⟩
        intro rest' hhead
        obtain ⟨s', rfl⟩ := List.head?_eq_some_iff.mp hhead
        exact hnone s'
      · obtain ⟨t, rfl, ht⟩ := hlater s a rest h
        exact ⟨c :: t, rfl, ht⟩

end

/-! ## Numbers -/

/-- Digits are read up to the first byte that is none. -/
theorem noDigit_digits (s : Bytes) : NoDigit (digits s).2 := by
  intro c t hct
  have hhead := List.head?_dropWhile_not Numeral.isDigit s
  simp only [digits] at hct
  rwa [hct] at hhead

theorem noDigit_of_head? {rest rest' : Bytes} (h : rest'.head? = rest.head?) (hrest : NoDigit rest) :
    NoDigit rest' := by
  rintro c s rfl
  obtain ⟨t, rfl⟩ := List.head?_eq_some_iff.mp h.symm
  exact hrest c t rfl

theorem digits_same {s run rest : Bytes} (h : digits s = (run, rest)) :
    s = run ++ rest ∧ ∀ rest', rest'.head? = rest.head? → digits (run ++ rest') = (run, rest') := by
  obtain ⟨hs, hrun⟩ := digits_eq h
  have hend : NoDigit rest := by
    have hend := noDigit_digits s
    rwa [h] at hend
  exact ⟨hs, fun rest' hhead => digits_append hrun (noDigit_of_head? hhead hend)⟩

/-- Digits of which there must be one. -/
theorem local_run {α : Type} (cause : Cause) (f : Bytes → α) :
    Local fun s =>
      match digits s with
      | ([], rest) => stop cause rest
      | (run, rest) => .ok (f run, rest) := by
  intro s a rest h
  simp only at h
  split at h
  · cases h
  next run rest hne hdigits =>
  cases h
  obtain ⟨hs, hsame⟩ := digits_same hdigits
  refine ⟨run, hs, ?_⟩
  intro rest' hhead
  simp only [hsame rest' hhead]

theorem local_numberSign : Local fun s => .ok (numberSign s) := by
  refine local_of_first (fun a rest h => by cases h; rfl) fun c => ?_
  by_cases hc : c = Bytes.minus
  · simp only [numberSign, if_pos hc]
    exact .inr (local_pure true)
  · simp only [numberSign, if_neg hc]
    exact .inl ⟨false, fun s => rfl⟩

theorem local_wholePart : Local wholePart := by
  intro s whole rest h
  cases s with
  | nil => cases h
  | cons c s =>
      by_cases hc : c = Bytes.zero
      · rw [wholePart, if_pos hc] at h
        cases h
        refine ⟨[c], rfl, fun rest' _ => ?_⟩
        rw [List.singleton_append, wholePart, if_pos hc]
      · rw [wholePart, if_neg hc] at h
        split at h
        · cases h
        next hne hdigits =>
        cases h
        obtain ⟨hs, hsame⟩ := digits_same hdigits
        obtain ⟨d, run, rfl⟩ := List.exists_cons_of_ne_nil hne
        obtain ⟨rfl, -⟩ := List.cons.inj hs
        refine ⟨c :: run, hs, ?_⟩
        intro rest' hhead
        have hdigits := hsame rest' hhead
        rw [List.cons_append] at hdigits ⊢
        rw [wholePart, if_neg hc, hdigits]

theorem local_fractionPart : Local fractionPart := by
  refine local_of_first (fun a rest h => by cases h; rfl) fun c => ?_
  by_cases hc : c = Bytes.dot
  · simp only [fractionPart, if_pos hc]
    exact .inr (local_run .expectedFractionDigit some)
  · simp only [fractionPart, if_neg hc]
    exact .inl ⟨none, fun s => rfl⟩

theorem local_exponentSign : Local fun s => .ok (exponentSign s) := by
  refine local_of_first (fun a rest h => by cases h; rfl) fun c => ?_
  by_cases hminus : c = Bytes.minus
  · simp only [exponentSign, if_pos hminus]
    exact .inr (local_pure true)
  by_cases hplus : c = 0x2B
  · simp only [exponentSign, if_neg hminus, if_pos hplus]
    exact .inr (local_pure false)
  · simp only [exponentSign, if_neg hminus, if_neg hplus]
    exact .inl ⟨false, fun s => rfl⟩

theorem local_exponentPart : Local exponentPart := by
  refine local_of_first (fun a rest h => by cases h; rfl) fun c => ?_
  by_cases hc : c = 0x65 ∨ c = 0x45
  · simp only [exponentPart, if_pos hc]
    exact .inr (local_bind local_exponentSign fun negative => local_run .expectedExponentDigit fun run =>
      some (if negative then -(Numeral.value run : Int) else Numeral.value run))
  · simp only [exponentPart, if_neg hc]
    exact .inl ⟨none, fun s => rfl⟩

/-- **Numbers end by one byte.** -/
theorem local_number : Local number :=
  local_bind local_numberSign fun negative => local_bind local_wholePart fun whole =>
    local_bind local_fractionPart fun fraction => local_bind local_exponentPart fun exponent =>
      local_pure (Numerals.toNumber ⟨negative, whole, fraction, exponent⟩)

/-! ## Values -/

theorem local_string : Local string := by
  intro s text rest h
  obtain ⟨t, ht, rfl⟩ := string_eq_ok_iff.mp h
  exact ⟨t ++ [Bytes.quote], by simp, fun rest' _ => string_eq_ok_iff.mpr ⟨t, ht, by simp⟩⟩

section

variable {item : Bytes → Parsed Json} {Item : Bytes → Json → Prop}

theorem local_array (h : Reads item Item) : Local (array item) := by
  intro s j rest hread
  obtain ⟨t, rfl, ht⟩ := (array_eq_ok_iff h).mp hread
  exact ⟨t ++ [Bytes.closeBracket], by simp, fun rest' _ => (array_eq_ok_iff h).mpr ⟨t, by simp, ht⟩⟩

theorem local_object (h : Reads item Item) : Local (object item) := by
  intro s j rest hread
  obtain ⟨t, rfl, ht⟩ := (object_eq_ok_iff h).mp hread
  exact ⟨t ++ [Bytes.closeBrace], by simp, fun rest' _ => (object_eq_ok_iff h).mpr ⟨t, by simp, ht⟩⟩

end

/-- A minus or a digit with the rest of its number. -/
theorem local_number_of_first (c : UInt8) : Local fun s => number (c :: s) := by
  intro s n rest h
  obtain ⟨t, hs, ht⟩ := local_number (c :: s) n rest h
  obtain ⟨l, -, hl⟩ := literal_of_number h
  obtain ⟨d, u, hdu, -⟩ := exists_cons_of_literal l
  -- What is taken is the literal, and no literal is empty.
  have htext : t = l.text := List.append_cancel_right (hs.symm.trans hl)
  rw [htext, hdu] at hs ht
  obtain ⟨rfl, hrest⟩ := List.cons.inj hs
  exact ⟨u, hrest, ht⟩

theorem local_word (c : UInt8) :
    Local fun s =>
      match keyword? (c :: s) with
      | some found => .ok found
      | none => stop (.unexpectedCharacter c) (c :: s) := by
  intro s j rest h
  simp only at h
  split at h
  · next hkeyword =>
      cases h
      rcases word_of_keyword? hkeyword with ⟨hs, rfl⟩ | ⟨hs, rfl⟩ | ⟨hs, rfl⟩
      all_goals
        obtain ⟨rfl, hrest⟩ := List.cons.inj hs
        exact ⟨_, hrest, fun _ _ => rfl⟩
  · cases h

/-- **Values end by one byte.** -/
theorem local_value (n : Nat) : Local (value n) := by
  cases n with
  | zero => exact nofun
  | succ n =>
      refine local_of_first nofun fun c => .inr ?_
      by_cases hbrace : c = Bytes.openBrace
      · simp only [value, if_pos hbrace]
        exact local_object (reads_value n)
      by_cases hbracket : c = Bytes.openBracket
      · simp only [value, if_neg hbrace, if_pos hbracket]
        exact local_array (reads_value n)
      by_cases hquote : c = Bytes.quote
      · simp only [value, if_neg hbrace, if_neg hbracket, if_pos hquote]
        exact local_map local_string
      by_cases hnumber : c = Bytes.minus ∨ Numeral.isDigit c
      · simp only [value, if_neg hbrace, if_neg hbracket, if_neg hquote, if_pos hnumber]
        exact local_map (local_number_of_first c)
      · simp only [value, if_neg hbrace, if_neg hbracket, if_neg hquote, if_neg hnumber]
        exact local_word c

/-! ## More levels -/

/-- **A reader that does what another one does** wherever that one does not stop for the depth. -/
def Deepens {α : Type} (item item' : Bytes → Parsed α) : Prop :=
  ∀ s, item' s = item s ∨ ∃ rest, item s = .error ⟨.tooDeep, rest⟩

section

variable {α β : Type} {item item' : Bytes → Parsed α}

theorem deepens_map (h : Deepens item item') (f : α × Bytes → β × Bytes) :
    Deepens (fun s => (item s).map f) fun s => (item' s).map f :=
  fun s => (h s).imp (congrArg (Except.map f)) tooDeep_map

theorem deepens_listed {close : UInt8} {separator trailing : Cause} {add : β → α → β} {bound : Bytes} {read : β}
    (h : Deepens item item') :
    Deepens (listed close separator trailing item add bound read)
      (listed close separator trailing item' add bound read) := by
  intro s
  induction bound generalizing read s with
  | nil => exact .inl rfl
  | cons b bound ih =>
      rw [listed, listed]
      rcases h (skipBlanks s) with heq | ⟨rest, hdeep⟩
      · rw [heq]
        cases item (skipBlanks s) with
        | error fault => exact .inl rfl
        | ok o =>
            simp only
            cases skipBlanks o.2 with
            | nil => exact .inl rfl
            | cons c s =>
                by_cases hclose : c = close
                · simp only [if_pos hclose, true_or]
                by_cases hcomma : c = Bytes.comma
                · by_cases htrailing : (skipBlanks s).head? = some close
                  · simp only [if_neg hclose, if_pos hcomma, if_pos htrailing, true_or]
                  · simp only [if_neg hclose, if_pos hcomma, if_neg htrailing]
                    exact ih s
                · simp only [if_neg hclose, if_neg hcomma, true_or]
      · rw [hdeep]
        exact .inr ⟨rest, rfl⟩

end

section

variable {item item' : Bytes → Parsed Json}

theorem deepens_member (h : Deepens item item') : Deepens (member item) (member item') := by
  intro s
  rw [member, member]
  cases Bytes.after? [Bytes.quote] s with
  | none => exact .inl rfl
  | some s =>
      simp only
      cases string s with
      | error fault => exact .inl rfl
      | ok o =>
          simp only
          cases Bytes.after? [Bytes.colon] (skipBlanks o.2) with
          | none => exact .inl rfl
          | some s =>
              rcases h (skipBlanks s) with heq | ⟨rest, hdeep⟩
              · exact .inl (by simp only [heq])
              · exact .inr ⟨rest, by simp only [hdeep]⟩

theorem deepens_array (h : Deepens item item') : Deepens (array item) (array item') := by
  intro s
  rw [array, array]
  cases Bytes.after? [Bytes.closeBracket] (skipBlanks s) with
  | some rest => exact .inl rfl
  | none =>
      simp only [elements_eq]
      exact deepens_map (deepens_map (deepens_listed h) _) _ s

theorem deepens_object (h : Deepens item item') : Deepens (object item) (object item') := by
  intro s
  rw [object, object]
  cases Bytes.after? [Bytes.closeBrace] (skipBlanks s) with
  | some rest => exact .inl rfl
  | none =>
      simp only [members_eq]
      exact deepens_map (deepens_listed (deepens_member h)) _ s

end

/-- **More levels change nothing but refusals for the depth.** -/
theorem value_of_more_levels {n m : Nat} (hnm : n ≤ m) : Deepens (value n) (value m) := by
  induction n generalizing m with
  | zero => exact fun s => .inr ⟨s, rfl⟩
  | succ n ih =>
      obtain ⟨m, rfl⟩ := Nat.exists_eq_add_of_le' (Nat.zero_lt_of_lt hnm)
      have hbelow := ih (Nat.le_of_succ_le_succ hnm)
      intro s
      cases s with
      | nil => exact .inl rfl
      | cons c s =>
          by_cases hbrace : c = Bytes.openBrace
          · simp only [value, if_pos hbrace]
            exact deepens_object hbelow s
          by_cases hbracket : c = Bytes.openBracket
          · simp only [value, if_neg hbrace, if_pos hbracket]
            exact deepens_array hbelow s
          · exact .inl (by simp only [value, if_neg hbrace, if_neg hbracket])

end ModRepair.Json.Parser
