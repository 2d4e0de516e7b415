import ModRepair.Proofs.Json.Counting

/-!
# Strings without an end, and where errors stand

The quote that opens a string which the text does not close is told without a reader: every string before it is closed,
and nothing but characters of a string comes after it (`Unclosed`). A text has one such quote at most.

* `Closed`, `Unclosed` — the two halves of such a text; `Unclosed.unique` — the quote is the only one;
* `Finds` — a reader finds that quote, by one lemma for each reader; `finds_value` is the induction on the levels;
* `error_positions` — **line, column and offset** of every error, by the counters of the reader.
-/

namespace ModRepair.Json

open Grammar

/-! ## Closed texts -/

/-- **Every string is closed**: a text of whole strings and of bytes that are no quotes. -/
inductive Closed : Bytes → Prop
  | nil : Closed []
  | byte {c : UInt8} {s : Bytes} (h : c ≠ Bytes.quote) (rest : Closed s) : Closed (c :: s)
  | string {s text t : Bytes} (h : StringText s text) (rest : Closed t) : Closed (s ++ t)

namespace Closed

theorem append {s t : Bytes} (hs : Closed s) (ht : Closed t) : Closed (s ++ t) := by
  induction hs with
  | nil => exact ht
  | byte h _ ih => exact .byte h ih
  | string h _ ih =>
      rw [List.append_assoc]
      exact .string h ih

theorem of_noQuote {s : Bytes} (h : Bytes.quote ∉ s) : Closed s := by
  induction s with
  | nil => exact .nil
  | cons c s ih =>
      obtain ⟨hc, hs⟩ := not_or.mp (List.mem_cons.not.mp h)
      exact .byte (Ne.symm hc) (ih hs)

theorem cons {c : UInt8} {s : Bytes} (hs : Closed s) (hc : c ≠ Bytes.quote := by decide) : Closed (c :: s) :=
  .byte hc hs

theorem of_string {s text : Bytes} (h : StringText s text) : Closed s := by
  have hs := string h nil
  rwa [List.append_nil] at hs

theorem of_blanks {s : Bytes} (h : Blanks s) : Closed s := by
  refine of_noQuote fun hquote => ?_
  have hblank := h _ hquote
  revert hblank
  decide

theorem of_digits {s : Bytes} (h : Digits s) : Closed s := by
  refine of_noQuote fun hquote => ?_
  have hdigit := h.digits _ hquote
  revert hdigit
  decide

theorem of_literal (l : NumberLiteral) : Closed l.text := by
  obtain ⟨negative, whole, fraction, exponent, hwhole, hzero, hfraction⟩ := l
  have hsign : Closed (NumberLiteral.signText negative) := by
    cases negative
    · exact nil
    · exact nil.cons
  refine hsign.append ((of_digits hwhole).append (append ?_ ?_))
  · cases fraction with
    | none => exact nil
    | some f => exact (of_digits (hfraction f rfl)).cons
  · cases exponent with
    | none => exact nil
    | some e =>
        have hexponentSign : Closed (Exponent.signText e.sign) := by
          rcases e.sign with _ | _ | _
          · exact nil
          · exact nil.cons
          · exact nil.cons
        refine (hexponentSign.append (of_digits e.isDigits)).cons ?_
        rcases e.isLetter with h | h <;> rw [h] <;> decide

theorem of_listed {α : Type} {Item : Bytes → α → Prop} (h : ∀ {s a}, Item s a → Closed s) {s : Bytes} {as : List α}
    (hs : Listed Item s as) : Closed s := by
  induction hs with
  | last before item after => exact (of_blanks before).append ((h item).append (of_blanks after))
  | more before item after _ ih => exact (of_blanks before).append ((h item).append ((of_blanks after).append ih.cons))

theorem of_member {Item : Bytes → Json → Prop} (h : ∀ {s j}, Item s j → Closed s) {s : Bytes} {e : Bytes × Json}
    (hs : MemberText Item s e) : Closed s := by
  cases hs with
  | member name before after item =>
      exact (of_string name).append ((of_blanks before).append ((of_blanks after).append (h item)).cons)

/-- **Values are closed**, by induction on the levels that they need. -/
theorem of_denotes {n : Nat} {s : Bytes} {j : Json} (h : Denotes n s j) : Closed s := by
  induction n generalizing s j with
  | zero => exact h.elim
  | succ n ih =>
      have hclose : ∀ {t : Bytes} {c : UInt8}, Closed t → c ≠ Bytes.quote → Closed (t ++ [c]) :=
        fun ht hc => ht.append (nil.cons hc)
      cases h with
      | null => exact of_noQuote (by decide)
      | false => exact of_noQuote (by decide)
      | true => exact of_noQuote (by decide)
      | @number l n h => exact of_literal l
      | string h => exact of_string h
      | emptyArray h => exact (hclose (of_blanks h) (by decide)).cons
      | array h => exact (hclose (of_listed ih h) (by decide)).cons
      | emptyObject h => exact (hclose (of_blanks h) (by decide)).cons
      | object h _ => exact (hclose (of_listed (of_member ih) h) (by decide)).cons

end Closed

/-! ## Strings without an end -/

/-- **A quote between `before` and `after` opens a string that is not closed**: before it all strings are closed, and
behind it only characters of the string follow. -/
structure Unclosed (before after : Bytes) : Prop where
  before : Closed before
  after : ∃ bytes, Characters after bytes

theorem Unclosed.behind {t before after : Bytes} (h : Unclosed before after) (ht : Closed t) :
    Unclosed (t ++ before) after :=
  ⟨ht.append h.before, h.after⟩

namespace Parser

/-- The fault of a character is not that of a string without an end. -/
theorem stringCharacter_ne_unterminated {c : UInt8} {s rest : Bytes} :
    stringCharacter c s ≠ .error ⟨.unterminatedString, rest⟩ := by
  unfold stringCharacter
  split
  · simp
  split
  · simp
  split
  · simp
  split
  · split
    · split <;> simp
    · simp
  · split <;> simp

/-- The first of some characters, taken apart from the others. -/
theorem exists_first_character {c : UInt8} {s bytes : Bytes} (h : Characters (c :: s) bytes) :
    c ≠ Bytes.quote ∧ ∃ t u b b', Character (c :: t) b ∧ Characters u b' ∧ s = t ++ u := by
  generalize hw : c :: s = w at h
  cases h with
  | nil => cases hw
  | cons head tail =>
      obtain ⟨d, t, rfl, hd⟩ := exists_cons_of_character head
      rw [List.cons_append] at hw
      obtain ⟨rfl, rfl⟩ := List.cons.inj hw
      exact ⟨hd, t, _, _, _, head, tail, rfl⟩

/-- **The reader of strings misses an end** exactly if nothing but characters follows. -/
theorem string_eq_unterminated_iff {s rest : Bytes} :
    string s = .error ⟨.unterminatedString, rest⟩ ↔ rest = Bytes.quote :: s ∧ ∃ bytes, Characters s bytes := by
  suffices h : ∀ opening bound read s, s.length < bound.length →
      (stringBody opening bound read s = .error ⟨.unterminatedString, rest⟩ ↔
        rest = opening ∧ ∃ bytes, Characters s bytes) from h _ _ _ s (Nat.lt_succ_self _)
  intro opening bound read s hbound
  induction bound generalizing read s with
  | nil => exact absurd hbound (Nat.not_lt_zero _)
  | cons b bound ih =>
      cases s with
      | nil =>
          rw [stringBody]
          constructor
          · rintro ⟨⟩
            exact ⟨rfl, [], .nil⟩
          · rintro ⟨rfl, -⟩
            rfl
      | cons c s =>
          rw [stringBody]
          by_cases hc : c = Bytes.quote
          · rw [if_pos hc]
            refine iff_of_false (by simp) ?_
            rintro ⟨-, bytes, h⟩
            exact (exists_first_character h).1 hc
          rw [if_neg hc]
          constructor
          · intro h
            split at h
            · next hcharacter =>
                cases h
                exact absurd hcharacter stringCharacter_ne_unterminated
            · next bytes s' hcharacter =>
                obtain ⟨t, ht, rfl⟩ := (stringCharacter_eq_ok_iff hc).mp hcharacter
                have hbound : s'.length < bound.length := by
                  simp only [List.length_cons, List.length_append] at hbound
                  omega
                obtain ⟨hrest, bytes', ht'⟩ := (ih _ _ hbound).mp h
                exact ⟨hrest, _, .cons ht ht'⟩
          · rintro ⟨hrest, bytes, h⟩
            obtain ⟨-, t, u, b, b', ht, hu, rfl⟩ := exists_first_character h
            have hbound : u.length < bound.length := by
              simp only [List.length_cons, List.length_append] at hbound
              omega
            rw [(stringCharacter_eq_ok_iff hc).mpr ⟨t, ht, rfl⟩]
            exact (ih _ _ hbound).mpr ⟨hrest, b', hu⟩

/-- A string ends at one quote. -/
theorem characters_unique {s t rest rest' bytes bytes' : Bytes} (hs : Characters s bytes) (ht : Characters t bytes')
    (h : s ++ Bytes.quote :: rest = t ++ Bytes.quote :: rest') : s = t ∧ rest = rest' := by
  have hread : string (s ++ Bytes.quote :: rest) = .ok (bytes, rest) := string_eq_ok_iff.mpr ⟨s, hs, rfl⟩
  rw [string_eq_ok_iff.mpr ⟨t, ht, h⟩] at hread
  obtain ⟨-, rfl⟩ := Prod.mk.inj (Except.ok.inj hread)
  exact ⟨List.append_cancel_right h, rfl⟩

/-- Characters up to the end do not close a string. -/
theorem not_closing {s t rest bytes bytes' : Bytes} (h : Characters s bytes) (ht : Characters t bytes')
    (hs : s = t ++ Bytes.quote :: rest) : False := by
  have hmissed := string_eq_unterminated_iff.mpr ⟨rfl, bytes, h⟩
  rw [string_eq_ok_iff.mpr ⟨t, ht, hs⟩] at hmissed
  cases hmissed

end Parser

/-- **The quote is the only one** in a text that opens a string without closing it. -/
theorem Unclosed.unique {before after before' after' : Bytes} (h : Unclosed before after) (h' : Unclosed before' after')
    (htext : before ++ Bytes.quote :: after = before' ++ Bytes.quote :: after') : before = before' := by
  obtain ⟨hbefore, bytes, hafter⟩ := h
  obtain ⟨hbefore', bytes', hafter'⟩ := h'
  induction hbefore generalizing before' with
  | nil =>
      cases hbefore' with
      | nil => rfl
      | byte hc _ => exact absurd (List.cons.inj htext).1.symm hc
      | string hs _ =>
          obtain ⟨hs⟩ := hs
          exact (Parser.not_closing hafter hs (by simpa using htext)).elim
  | @byte c s hc _ ih =>
      cases hbefore' with
      | nil => exact absurd (List.cons.inj htext).1 hc
      | byte _ hrest =>
          obtain ⟨rfl, hs⟩ := List.cons.inj htext
          rw [ih hs hrest]
      | string hs _ =>
          obtain ⟨hs⟩ := hs
          exact absurd (List.cons.inj htext).1 hc
  | string hs _ ih =>
      obtain ⟨hs⟩ := hs
      cases hbefore' with
      | nil => exact (Parser.not_closing hafter' hs (by simpa using htext.symm)).elim
      | byte hc _ => exact absurd (List.cons.inj htext).1.symm hc
      | string hs' hrest =>
          obtain ⟨hs'⟩ := hs'
          -- The reader takes one string at the start of a text, so both start with the same.
          simp only [List.cons_append, List.append_assoc, List.nil_append, List.cons.injEq, true_and] at htext
          obtain ⟨rfl, hlater⟩ := Parser.characters_unique hs hs' htext
          rw [ih hlater hrest]

/-! ## Readers -/

/-- **A reader finds the quote** of the string that it misses the end of. -/
def Finds {α : Type} (item : Bytes → Parsed α) : Prop :=
  ∀ s rest, item s = .error ⟨.unterminatedString, rest⟩ →
    ∃ before after, s = before ++ Bytes.quote :: after ∧ rest = Bytes.quote :: after ∧ Unclosed before after

section

variable {α β : Type}

/-- The quote stands behind a text that is closed. -/
theorem Finds.behind {item : Bytes → Parsed α} (h : Finds item) {t s rest : Bytes} (ht : Closed t)
    (hread : item s = .error ⟨.unterminatedString, rest⟩) :
    ∃ before after, t ++ s = before ++ Bytes.quote :: after ∧ rest = Bytes.quote :: after ∧ Unclosed before after := by
  obtain ⟨before, after, rfl, hrest, hunclosed⟩ := h s rest hread
  exact ⟨t ++ before, after, (List.append_assoc ..).symm, hrest, hunclosed.behind ht⟩

/-- A string itself misses its end. -/
theorem unclosed_of_string {s rest : Bytes} (h : Parser.string s = .error ⟨.unterminatedString, rest⟩) :
    rest = Bytes.quote :: s ∧ Unclosed [] s := by
  obtain ⟨hrest, hs⟩ := Parser.string_eq_unterminated_iff.mp h
  exact ⟨hrest, .nil, hs⟩

theorem finds_listed {item : Bytes → Parsed α} {Item : Bytes → α → Prop} (hreads : Parser.Reads item Item)
    (hclosed : ∀ {s a}, Item s a → Closed s) (h : Finds item) {close : UInt8} {separator trailing : Cause}
    (hseparator : separator ≠ .unterminatedString) (htrailing : trailing ≠ .unterminatedString) {add : β → α → β}
    {bound : Bytes} {read : β} : Finds (Parser.listed close separator trailing item add bound read) := by
  intro s rest hread
  induction bound generalizing read s with
  | nil => cases hread
  | cons b bound ih =>
      obtain ⟨w, hw, hs⟩ := Parser.exists_blanks s
      rw [Parser.listed] at hread
      split at hread
      · next hitem =>
          cases hread
          rw [hs]
          exact h.behind (.of_blanks hw) hitem
      next a s₁ hitem =>
      obtain ⟨t, ht, ht₁⟩ := hreads.sound hitem
      obtain ⟨w', hw', hs₁⟩ := Parser.exists_blanks s₁
      split at hread
      · exact absurd (congrArg Fault.cause (Except.error.inj hread)) hseparator
      next c u hc =>
      split at hread
      · cases hread
      split at hread
      · next hcomma =>
          split at hread
          · exact absurd (congrArg Fault.cause (Except.error.inj hread)) htrailing
          · -- What has been taken so far, with the comma, is closed.
            obtain ⟨before, after, rfl, hrest, hunclosed⟩ := ih u hread
            have htaken : Closed (w ++ (t ++ (w' ++ [Bytes.comma]))) :=
              (Closed.of_blanks hw).append ((hclosed ht).append ((Closed.of_blanks hw').append Closed.nil.cons))
            refine ⟨_, after, ?_, hrest, hunclosed.behind htaken⟩
            rw [hs, ht₁, hs₁, hc, hcomma]
            simp
      · exact absurd (congrArg Fault.cause (Except.error.inj hread)) hseparator

section

variable {item : Bytes → Parsed Json} {Item : Bytes → Json → Prop} (hreads : Parser.Reads item Item)
  (hclosed : ∀ {s j}, Item s j → Closed s) (h : Finds item)

include h in
theorem finds_member : Finds (Parser.member item) := by
  intro s rest hread
  rw [Parser.member] at hread
  split at hread
  · cases hread
  next s₁ hquote =>
  obtain rfl := Bytes.after?_eq_some_iff.mp hquote
  split at hread
  · next hstring =>
      cases hread
      obtain ⟨hrest, hunclosed⟩ := unclosed_of_string hstring
      exact ⟨[], s₁, rfl, hrest, hunclosed⟩
  next key s₂ hstring =>
  obtain ⟨k, hk, rfl⟩ := Parser.string_eq_ok_iff.mp hstring
  split at hread
  · cases hread
  next s₃ hcolon =>
  obtain ⟨w, hw, hs₂⟩ := Parser.exists_blanks s₂
  rw [Bytes.after?_eq_some_iff.mp hcolon] at hs₂
  obtain ⟨w', hw', hs₃⟩ := Parser.exists_blanks s₃
  split at hread
  · next hitem =>
      cases hread
      have hname : Closed (Bytes.quote :: (k ++ [Bytes.quote]) ++ (w ++ Bytes.colon :: w')) :=
        (Closed.of_string (.quoted hk)).append ((Closed.of_blanks hw).append (Closed.of_blanks hw').cons)
      have hfound := h.behind hname hitem
      rw [hs₂, hs₃]
      simpa using hfound
  · cases hread

include hreads hclosed h

theorem finds_array : Finds (Parser.array item) := by
  intro s rest hread
  exact finds_listed hreads hclosed h (by simp) (by simp) s rest (Parser.array_eq_error_iff.mp hread).2

theorem finds_object : Finds (Parser.object item) := by
  intro s rest hread
  exact finds_listed (Parser.member_reads hreads) (Closed.of_member hclosed) (finds_member h) (by simp) (by simp) s
    rest (Parser.object_eq_error_iff.mp hread).2

end

/-- **Values**, by induction on the levels that are left. -/
theorem finds_value (n : Nat) : Finds (Parser.value n) := by
  induction n with
  | zero =>
      intro s rest hread
      cases hread
  | succ n ih =>
      intro s rest hread
      cases s with
      | nil => cases hread
      | cons c s =>
          rw [Parser.value] at hread
          split at hread
          · next hc =>
              subst hc
              exact (finds_object (Parser.reads_value n) Closed.of_denotes ih).behind (Closed.nil.cons) hread
          split at hread
          · next hc =>
              subst hc
              exact (finds_array (Parser.reads_value n) Closed.of_denotes ih).behind (Closed.nil.cons) hread
          split at hread
          · next hc =>
              subst hc
              obtain ⟨hrest, hunclosed⟩ := unclosed_of_string (Parser.map_eq_error_iff.mp hread)
              exact ⟨[], s, rfl, hrest, hunclosed⟩
          split at hread
          · have hcause := Parser.cause_mem_of_number (Parser.map_eq_error_iff.mp hread)
            exact absurd hcause (show Cause.unterminatedString ∉ _ by decide)
          split at hread
          · cases hread
          · cases hread

end

/-- **A text that is refused for a string without an end** has one quote that opens such a string, and the reader
stops there. -/
theorem parse_unterminated {text rest : Bytes} (h : parse text = .error ⟨.unterminatedString, rest⟩) :
    ∃ before after, text = before ++ Bytes.quote :: after ∧ rest = Bytes.quote :: after ∧ Unclosed before after := by
  simp only [parse, bind, Except.bind] at h
  split at h
  · next hvalue =>
      cases h
      obtain ⟨w, hw, htext⟩ := Parser.exists_blanks text
      rw [htext]
      exact (finds_value Parser.maxLevels).behind (.of_blanks hw) hvalue
  · split at h
    · cases h
    · cases h

/-! ## Where errors stand -/

/-- The message is that of a string without an end only if the cause is. -/
theorem Cause.message_eq_unterminated_iff {c : Cause} :
    c.message = ascii "Unterminated string" ↔ c = .unterminatedString := by
  constructor
  · intro h
    -- The messages that quote a byte have other letters in front of it.
    cases c with
    | unexpectedCharacter b => cases congrArg (fun m => m[2]?) h
    | invalidEscape b => cases congrArg List.head? h
    | _ =>
        revert h
        decide
  · rintro rfl
    rfl

/-- **A place in a text in numbers**: line and column of what stands behind the first `offset` bytes. The line is one
more than the line feeds among them, and the column one more than the bytes behind the last of these. -/
structure Placed (text : Bytes) (offset : Nat) (location : Location) : Prop where
  offset_le : offset ≤ text.length
  line_eq : location.line = 1 + (text.take offset).count Bytes.newline
  column_eq : ∃ lines last, text.take offset = lines ++ last ∧ (lines = [] ∨ lines.getLast? = some Bytes.newline) ∧
    Bytes.newline ∉ last ∧ location.column = 1 + last.length

theorem placed_after {text : Bytes} {offset : Nat} (hoffset : offset ≤ text.length) :
    Placed text offset (.after (text.take offset)) := by
  refine ⟨hoffset, rfl, ?_⟩
  generalize text.take offset = s
  let p : UInt8 → Bool := (· != Bytes.newline)
  refine ⟨(s.reverse.dropWhile p).reverse, (s.reverse.takeWhile p).reverse, ?_, ?_, ?_, ?_⟩
  · rw [← List.reverse_append, List.takeWhile_append_dropWhile, List.reverse_reverse]
  · have hhead := List.head?_dropWhile_not p s.reverse
    rw [List.reverse_eq_nil_iff, List.getLast?_reverse]
    cases hrest : s.reverse.dropWhile p with
    | nil => exact .inl rfl
    | cons c rest =>
        rw [hrest] at hhead
        exact .inr (congrArg some (by simpa [p] using hhead))
  · intro hmem
    have hp := List.mem_takeWhile_imp (List.mem_reverse.mp hmem)
    simp [p] at hp
  · simp only [Location.after, List.length_reverse, p]

/-- **Where errors stand.** For every text the counters that are kept on the way and the place that is worked out at the
end give the same, and if the text is refused: the offset lies in the text, and line and column are those of the
offset; or the message is that of a string without an end, the text has exactly one quote that opens a string which it
does not close, and line and column are those of that quote. -/
theorem error_positions (text : Bytes) :
    Counting.read text = read text ∧ ∀ report, read text = .error report →
      (report.message ≠ ascii "Unterminated string" → Placed text report.offset report.location) ∧
      (report.message = ascii "Unterminated string" → ∃ before after, text = before ++ Bytes.quote :: after ∧
        Unclosed before after ∧ Placed text before.length report.location ∧
        ∀ before' after', text = before' ++ Bytes.quote :: after' → Unclosed before' after' → before' = before) := by
  refine ⟨Counting.read_eq text, fun report hread => ?_⟩
  rw [read] at hread
  cases hparse : parse text with
  | ok j =>
      rw [hparse] at hread
      cases hread
  | error fault =>
      rw [hparse] at hread
      cases hread
      obtain ⟨cause, rest⟩ := fault
      have hplaced := placed_after (Nat.sub_le text.length rest.length)
      constructor
      · intro hmessage
        have hcause : cause ≠ .unterminatedString := fun h => hmessage (Cause.message_eq_unterminated_iff.mpr h)
        have hoffset : ((Fault.mk cause rest).report text).offset = text.length - rest.length := by
          rw [Fault.report, if_neg hcause, List.length_take_of_le (Nat.sub_le ..)]
        show Placed text ((Fault.mk cause rest).report text).offset _
        rw [hoffset]
        exact hplaced
      · intro hmessage
        obtain rfl := Cause.message_eq_unterminated_iff.mp hmessage
        obtain ⟨before, after, rfl, rfl, hunclosed⟩ := parse_unterminated hparse
        refine ⟨before, after, rfl, hunclosed, ?_, ?_⟩
        · have hconsumed : (before ++ Bytes.quote :: after).length - (Bytes.quote :: after).length = before.length := by
            simp
          rw [hconsumed] at hplaced
          show Placed _ _ (Location.after _)
          rwa [hconsumed]
        · intro before' after' htext hunclosed'
          exact hunclosed'.unique hunclosed htext.symm

/-- An object whose second key has no end: it is opened in line 2, and the escaped quote does not close it. -/
theorem error_positions_sample :
    let text := ascii "\x7b\"a\": 1,\n \"b\\\": 2\x7d"
    read text = .error ⟨ascii "Unterminated string", ⟨2, 2⟩, 0⟩ ∧
      Counting.read text = .error ⟨ascii "Unterminated string", ⟨2, 2⟩, 0⟩ ∧
      ∃ before after, text = before ++ Bytes.quote :: after ∧ Unclosed before after ∧
        Placed text before.length ⟨2, 2⟩ := by
  intro text
  have hread : read text = .error ⟨ascii "Unterminated string", ⟨2, 2⟩, 0⟩ := by rfl
  obtain ⟨hcounting, hplaces⟩ := error_positions text
  obtain ⟨before, after, htext, hunclosed, hplaced, -⟩ := (hplaces _ hread).2 rfl
  exact ⟨hread, hcounting.trans hread, before, after, htext, hunclosed, hplaced⟩

end ModRepair.Json
