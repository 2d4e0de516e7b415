import ModRepair.Proofs.Json.Token
import ModRepair.Proofs.Text.Dictionary

/-!
# What the reader accepts

The reader of JSON texts against their grammar. `Reads item Item` says of a reader and of the texts `Item` that the
reader takes such a text, if nothing follows that goes on with a number, and takes nothing else.

* `listed` — the loop over elements and the loop over members, as one; `listed_eq_ok_iff` says what it takes, and
  `listed_before` that it gets to what stands behind a comma;
* `reads_value` — **values**, by induction on the levels that are left;
* `parse_eq_ok_iff` — **documents**: the reader accepts the texts of the grammar in which every value has fewer than
  512 arrays and objects around it, and gives the values that they denote.
-/

namespace ModRepair.Json

open Grammar

namespace Parser

/-! ## How texts start -/

/-- A byte with which a value can start: no blank and no closing bracket. -/
def Opens (c : UInt8) : Prop :=
  isBlank c = false ∧ c ≠ Bytes.closeBracket ∧ c ≠ Bytes.closeBrace

theorem Opens.ne_close {c close : UInt8} (hc : Opens c) (hclose : close = Bytes.closeBracket ∨ close = Bytes.closeBrace) :
    c ≠ close := by
  rcases hclose with rfl | rfl
  · exact hc.2.1
  · exact hc.2.2

theorem opens_of_isDigit {c : UInt8} (hc : Numeral.isDigit c = true) : Opens c := by
  have hne : ∀ d, Numeral.isDigit d = false → c ≠ d := by
    rintro d hd rfl
    rw [hc] at hd
    cases hd
  refine ⟨?_, hne _ rfl, hne _ rfl⟩
  simp [isBlank, hne 0x20 rfl, hne 0x09 rfl, hne 0x0A rfl, hne 0x0D rfl]

theorem skipBlanks_of_not_blank {c : UInt8} (hc : isBlank c = false) (s : Bytes) : skipBlanks (c :: s) = c :: s := by
  rw [skipBlanks, List.dropWhile_cons, if_neg (by rw [hc]; exact Bool.false_ne_true)]

/-- Blanks are skipped up to a byte that is none. -/
theorem skipBlanks_up_to {w : Bytes} (hw : Blanks w) {c : UInt8} (hc : isBlank c = false) (s : Bytes) :
    skipBlanks (w ++ c :: s) = c :: s := by
  rw [skipBlanks_append hw, skipBlanks_of_not_blank hc]

/-! ## Readers of items -/

theorem map_eq_ok_iff {ε α β : Type} {x : Except ε α} {f : α → β} {b : β} :
    x.map f = .ok b ↔ ∃ a, x = .ok a ∧ f a = b := by
  cases x <;> simp [Except.map]

/-- **A reader that takes the texts `Item`**, whatever follows that ends a number, and takes nothing else. -/
structure Reads {α : Type} (item : Bytes → Parsed α) (Item : Bytes → α → Prop) : Prop where
  opens : ∀ {s a}, Item s a → ∃ c t, s = c :: t ∧ Opens c
  accepts : ∀ {s a rest}, Item s a → Ends rest → item (s ++ rest) = .ok (a, rest)
  sound : ∀ {s a rest}, item s = .ok (a, rest) → ∃ t, Item t a ∧ s = t ++ rest

section

variable {α β : Type} {item : Bytes → Parsed α} {Item : Bytes → α → Prop}

/-- Blanks before an item are skipped up to it. -/
theorem Reads.skipBlanks (h : Reads item Item) {w s : Bytes} {a : α} (hw : Blanks w) (hs : Item s a) (rest : Bytes) :
    skipBlanks (w ++ (s ++ rest)) = s ++ rest := by
  obtain ⟨c, t, rfl, hc⟩ := h.opens hs
  exact skipBlanks_up_to hw hc.1 (t ++ rest)

/-- Items start with one that opens. -/
theorem Reads.skipBlanks_listed (h : Reads item Item) {s : Bytes} {as : List α} (hs : Listed Item s as) (rest : Bytes) :
    ∃ c t, Parser.skipBlanks (s ++ rest) = c :: t ∧ Opens c := by
  cases hs with
  | last before hitem after =>
      obtain ⟨c, t, rfl, hc⟩ := h.opens hitem
      rw [List.append_assoc, List.append_assoc, h.skipBlanks before hitem]
      exact ⟨c, _, rfl, hc⟩
  | more before hitem after rest =>
      obtain ⟨c, t, rfl, hc⟩ := h.opens hitem
      rw [List.append_assoc, List.append_assoc, h.skipBlanks before hitem]
      exact ⟨c, _, rfl, hc⟩

/-! ## Lists of items -/

/-- The loop over the items of an array or object up to the closing bracket, with the causes of its faults. -/
def listed (close : UInt8) (separator trailing : Cause) (item : Bytes → Parsed α) (add : β → α → β) :
    (bound : Bytes) → (read : β) → Bytes → Parsed β
  | [], _, s => stop .endOfInput s
  | _ :: bound, read, s =>
    match item (skipBlanks s) with
    | .error fault => .error fault
    | .ok (a, s) =>
      match skipBlanks s with
      | [] => stop separator []
      | c :: s =>
        if c = close then .ok (add read a, s)
        else if c = Bytes.comma then
          if (skipBlanks s).head? = some close then stop trailing (skipBlanks s)
          else listed close separator trailing item add bound (add read a) s
        else stop separator s

theorem elements_eq (item : Bytes → Parsed Json) (bound : Bytes) (read : List Json) (s : Bytes) :
    elements item bound read s =
      (listed Bytes.closeBracket .expectedArraySeparator .trailingArrayComma item (fun js j => j :: js) bound read s).map
        fun (js, rest) => (js.reverse, rest) := by
  induction bound generalizing read s with
  | nil => rfl
  | cons b bound ih =>
      rw [elements, listed]
      cases item (skipBlanks s) with
      | error fault => rfl
      | ok o =>
          simp only
          cases skipBlanks o.2 with
          | nil => rfl
          | cons c s' =>
              by_cases hclose : c = Bytes.closeBracket
              · simp only [if_pos hclose]
                rfl
              by_cases hcomma : c = Bytes.comma
              · by_cases htrailing : (skipBlanks s').head? = some Bytes.closeBracket
                · simp only [if_neg hclose, if_pos hcomma, if_pos htrailing]
                  rfl
                · simp only [if_neg hclose, if_pos hcomma, if_neg htrailing, ih]
              · simp only [if_neg hclose, if_neg hcomma]
                rfl

theorem members_eq (item : Bytes → Parsed Json) (bound : Bytes) (read : Dictionary Json) (s : Bytes) :
    members item bound read s =
      listed Bytes.closeBrace .expectedObjectSeparator .trailingObjectComma (member item)
        (fun d e => Dictionary.insert e.1 e.2 d) bound read s := by
  induction bound generalizing read s with
  | nil => rfl
  | cons b bound ih =>
      rw [members, listed]
      cases member item (skipBlanks s) with
      | error fault => rfl
      | ok o =>
          simp only
          cases skipBlanks o.2 with
          | nil => rfl
          | cons c s' =>
              simp only [ih]

variable {close : UInt8} {separator trailing : Cause} {add : β → α → β} {read result : β} {bound s rest : Bytes}

/-- **One turn of the loop**, read backwards: an item has been taken, and either the closing bracket after it or a comma
and the rest of the list. -/
theorem listed_cases (h : Reads item Item) {b : UInt8}
    (hread : listed close separator trailing item add (b :: bound) read s = .ok (result, rest)) :
    ∃ w t w' a, Blanks w ∧ Item t a ∧ Blanks w' ∧
      ((s = w ++ (t ++ (w' ++ close :: rest)) ∧ result = add read a) ∨
        ∃ u, s = w ++ (t ++ (w' ++ Bytes.comma :: u)) ∧
          listed close separator trailing item add bound (add read a) u = .ok (result, rest)) := by
  obtain ⟨w, hw, hs⟩ := exists_blanks s
  rw [listed] at hread
  split at hread
  · cases hread
  next a s₁ hitem =>
  obtain ⟨t, ht, ht₁⟩ := h.sound hitem
  obtain ⟨w', hw', hs₁⟩ := exists_blanks s₁
  refine ⟨w, t, w', a, hw, ht, hw', ?_⟩
  split at hread
  · cases hread
  next c u hc =>
  rw [ht₁, hs₁, hc] at hs
  split at hread
  · next heq =>
      cases hread
      rw [heq] at hs
      exact .inl ⟨hs, rfl⟩
  split at hread
  · next heq =>
      split at hread
      · cases hread
      · rw [heq] at hs
        exact .inr ⟨u, hs, hread⟩
  · cases hread

/-- The list that has been taken. -/
theorem text_of_listed (h : Reads item Item)
    (hread : listed close separator trailing item add bound read s = .ok (result, rest)) :
    ∃ t as, Listed Item t as ∧ s = t ++ close :: rest ∧ result = as.foldl add read := by
  induction bound generalizing read s with
  | nil => cases hread
  | cons b bound ih =>
      obtain ⟨w, t, w', a, hw, ht, hw', ⟨rfl, rfl⟩ | ⟨u, rfl, hrest⟩⟩ := listed_cases h hread
      · exact ⟨w ++ (t ++ w'), [a], .last hw ht hw', by simp, rfl⟩
      · obtain ⟨t', as, htail, rfl, rfl⟩ := ih hrest
        exact ⟨_, a :: as, .more hw ht hw' htail, by simp, rfl⟩

section

variable (h : Reads item Item) (hclose : close = Bytes.closeBracket ∨ close = Bytes.closeBrace)

include h hclose

/-- The last turn takes an item and the closing bracket after it. -/
theorem listed_last {b : UInt8} {w w' : Bytes} {a : α} (before : Blanks w) (hitem : Item s a) (after : Blanks w') :
    listed close separator trailing item add (b :: bound) read (w ++ (s ++ (w' ++ close :: rest))) =
      .ok (add read a, rest) := by
  have hblank : isBlank close = false := by rcases hclose with rfl | rfl <;> rfl
  have hends : Ends (close :: rest) := ends_cons (by rcases hclose with rfl | rfl <;> decide)
  rw [listed, h.skipBlanks before hitem, h.accepts hitem (ends_blanks after hends)]
  simp only [skipBlanks_up_to after hblank, if_true]

/-- Any other turn takes an item and the comma after it. -/
theorem listed_more {b : UInt8} {w w' t : Bytes} {a : α} (before : Blanks w) (hitem : Item s a) (after : Blanks w')
    (hnext : ∃ c u, skipBlanks t = c :: u ∧ Opens c) :
    listed close separator trailing item add (b :: bound) read (w ++ (s ++ (w' ++ Bytes.comma :: t))) =
      listed close separator trailing item add bound (add read a) t := by
  have hcomma : Bytes.comma ≠ close := by rcases hclose with rfl | rfl <;> decide
  obtain ⟨c, u, hcu, hc⟩ := hnext
  -- No trailing comma: what follows opens an item.
  have hhead : (skipBlanks t).head? ≠ some close := by
    rw [hcu]
    exact fun heq => hc.ne_close hclose (Option.some.inj heq)
  rw [listed, h.skipBlanks before hitem, h.accepts hitem (ends_blanks after (ends_cons (by decide)))]
  simp only [skipBlanks_up_to after (show isBlank Bytes.comma = false from rfl), if_neg hcomma, if_true, if_neg hhead]

/-- A list is taken, up to the closing bracket. -/
theorem listed_of_text {t : Bytes} {as : List α} (ht : Listed Item t as)
    (hbound : (t ++ close :: rest).length < bound.length) :
    listed close separator trailing item add bound read (t ++ close :: rest) = .ok (as.foldl add read, rest) := by
  -- Induction on the list; each turn takes one off the bound.
  induction ht generalizing bound read with
  | last before hitem after =>
      obtain ⟨b, bound, rfl⟩ := List.exists_cons_of_length_pos (Nat.zero_lt_of_lt hbound)
      rw [List.append_assoc, List.append_assoc]
      exact listed_last h hclose before hitem after
  | @more w t w' t' a as before hitem after tail ih =>
      obtain ⟨b, bound, rfl⟩ := List.exists_cons_of_length_pos (Nat.zero_lt_of_lt hbound)
      have htext : (w ++ (t ++ (w' ++ Bytes.comma :: t'))) ++ close :: rest =
          w ++ (t ++ (w' ++ Bytes.comma :: (t' ++ close :: rest))) := by simp
      have hbound : (t' ++ close :: rest).length < bound.length := by
        simp only [htext, List.length_append, List.length_cons] at hbound ⊢
        omega
      rw [htext, listed_more h hclose before hitem after (h.skipBlanks_listed tail (close :: rest))]
      exact ih hbound

/-- A list with a comma after it is taken, up to what opens the next item. -/
theorem listed_before {t u : Bytes} {as : List α} (ht : Listed Item t as) (hu : ∃ c v, skipBlanks u = c :: v ∧ Opens c)
    (hbound : (t ++ Bytes.comma :: u).length < bound.length) :
    ∃ bound' : Bytes, u.length < bound'.length ∧
      listed close separator trailing item add bound read (t ++ Bytes.comma :: u) =
        listed close separator trailing item add bound' (as.foldl add read) u := by
  induction ht generalizing bound read with
  | last before hitem after =>
      obtain ⟨b, bound, rfl⟩ := List.exists_cons_of_length_pos (Nat.zero_lt_of_lt hbound)
      refine ⟨bound, ?_, ?_⟩
      · simp only [List.length_append, List.length_cons] at hbound
        omega
      · rw [List.append_assoc, List.append_assoc, listed_more h hclose before hitem after hu]
        rfl
  | @more w t w' t' a as before hitem after tail ih =>
      obtain ⟨b, bound, rfl⟩ := List.exists_cons_of_length_pos (Nat.zero_lt_of_lt hbound)
      have htext : (w ++ (t ++ (w' ++ Bytes.comma :: t'))) ++ Bytes.comma :: u =
          w ++ (t ++ (w' ++ Bytes.comma :: (t' ++ Bytes.comma :: u))) := by simp
      have hbound : (t' ++ Bytes.comma :: u).length < bound.length := by
        simp only [htext, List.length_append, List.length_cons] at hbound ⊢
        omega
      rw [htext, listed_more h hclose before hitem after (h.skipBlanks_listed tail _)]
      exact ih hbound

/-- **The loop over items** takes a list of them up to the closing bracket. -/
theorem listed_eq_ok_iff (hbound : s.length < bound.length) :
    listed close separator trailing item add bound read s = .ok (result, rest) ↔
      ∃ t as, Listed Item t as ∧ s = t ++ close :: rest ∧ result = as.foldl add read := by
  constructor
  · exact text_of_listed h
  · rintro ⟨t, as, ht, rfl, rfl⟩
    exact listed_of_text h hclose ht hbound

end

/-- Whether nothing but blanks stands before a closing bracket. -/
theorem after?_skipBlanks_iff (hclose : close = Bytes.closeBracket ∨ close = Bytes.closeBrace) :
    Bytes.after? [close] (skipBlanks s) = some rest ↔ ∃ w, Blanks w ∧ s = w ++ close :: rest := by
  rw [Bytes.after?_eq_some_iff]
  constructor
  · intro h
    obtain ⟨w, hw, hs⟩ := exists_blanks s
    exact ⟨w, hw, by rw [hs, h]; rfl⟩
  · rintro ⟨w, hw, rfl⟩
    exact skipBlanks_up_to hw (by rcases hclose with rfl | rfl <;> rfl) rest

/-- Before what opens an item no bracket closes. -/
theorem after?_skipBlanks_of_opens (hclose : close = Bytes.closeBracket ∨ close = Bytes.closeBrace)
    (h : ∃ c u, skipBlanks s = c :: u ∧ Opens c) : Bytes.after? [close] (skipBlanks s) = none := by
  obtain ⟨c, u, hcu, hc⟩ := h
  rw [hcu, Bytes.after?, if_neg (hc.ne_close hclose).symm]

/-- What stands between brackets: nothing but blanks, or what the loop over the items takes. -/
theorem bracketed_eq_ok_iff {γ : Type} (h : Reads item Item)
    (hclose : close = Bytes.closeBracket ∨ close = Bytes.closeBrace) {loop : Parsed γ} {gather : List α → γ}
    {make : γ → Json} {empty j : Json}
    (hloop : ∀ c rest, loop = .ok (c, rest) ↔ ∃ t as, Listed Item t as ∧ s = t ++ close :: rest ∧ c = gather as) :
    (match Bytes.after? [close] (skipBlanks s) with
      | some rest => .ok (empty, rest)
      | none => loop.map fun (c, rest) => (make c, rest) : Parsed Json) = .ok (j, rest) ↔
    ∃ t, s = t ++ close :: rest ∧ (Blanks t ∧ j = empty ∨ ∃ as, Listed Item t as ∧ j = make (gather as)) := by
  constructor
  · intro hread
    split at hread
    · next hempty =>
        cases hread
        obtain ⟨w, hw, hs⟩ := (after?_skipBlanks_iff hclose).mp hempty
        exact ⟨w, hs, .inl ⟨hw, rfl⟩⟩
    · obtain ⟨⟨c, rest⟩, hc, heq⟩ := map_eq_ok_iff.mp hread
      cases heq
      obtain ⟨t, as, ht, hs, rfl⟩ := (hloop c rest).mp hc
      exact ⟨t, hs, .inr ⟨as, ht, rfl⟩⟩
  · rintro ⟨t, hs, ⟨ht, rfl⟩ | ⟨as, ht, rfl⟩⟩
    · rw [(after?_skipBlanks_iff hclose).mpr ⟨t, ht, hs⟩]
    · have hnone : Bytes.after? [close] (skipBlanks s) = none := by
        rw [hs]
        exact after?_skipBlanks_of_opens hclose (h.skipBlanks_listed ht _)
      rw [hnone]
      exact map_eq_ok_iff.mpr ⟨(gather as, rest), (hloop _ _).mpr ⟨t, as, ht, hs, rfl⟩, rfl⟩

end

/-! ## Arrays and objects -/

/-- The dictionary of some entries is the one into which they are put in order. -/
theorem lastWins_iff {α : Type} {entries : List (Bytes × α)} {d : Dictionary α} :
    LastWins entries d ↔ d = Dictionary.ofList entries := by
  constructor
  · intro h
    exact h.ascending.ext (Dictionary.ascending_ofList entries) fun key =>
      (h.last key).trans (Dictionary.get?_ofList key entries).symm
  · rintro rfl
    exact ⟨Dictionary.ascending_ofList entries, fun key => Dictionary.get?_ofList key entries⟩

section

variable {item : Bytes → Parsed Json} {Item : Bytes → Json → Prop} {bound s rest : Bytes} {j : Json}

/-- **The loop over elements.** -/
theorem elements_eq_ok_iff (h : Reads item Item) (hbound : s.length < bound.length) {items : List Json} :
    elements item bound [] s = .ok (items, rest) ↔
      ∃ t as, Listed Item t as ∧ s = t ++ Bytes.closeBracket :: rest ∧ items = as := by
  rw [elements_eq, map_eq_ok_iff]
  constructor
  · rintro ⟨⟨read, rest⟩, hlisted, heq⟩
    cases heq
    obtain ⟨t, as, ht, hs, rfl⟩ := (listed_eq_ok_iff h (.inl rfl) hbound).mp hlisted
    refine ⟨t, as, ht, hs, ?_⟩
    rw [List.foldl_flip_cons_eq_append', List.append_nil, List.reverse_reverse]
  · rintro ⟨t, as, ht, hs, rfl⟩
    refine ⟨(items.reverse, rest), (listed_eq_ok_iff h (.inl rfl) hbound).mpr ⟨t, items, ht, hs, ?_⟩, ?_⟩
    · rw [List.foldl_flip_cons_eq_append', List.append_nil]
    · simp only [List.reverse_reverse]

/-- **The reader of arrays.** -/
theorem array_eq_ok_iff (h : Reads item Item) :
    array item s = .ok (j, rest) ↔ ∃ t, s = t ++ Bytes.closeBracket :: rest ∧
      (Blanks t ∧ j = .array [] ∨ ∃ items, Listed Item t items ∧ j = .array items) := by
  have hbound : s.length < (Bytes.openBracket :: s).length := Nat.lt_succ_self _
  exact bracketed_eq_ok_iff h (.inl rfl) fun _ _ => elements_eq_ok_iff h hbound

/-- A key and its colon are read, and then the value. -/
theorem member_of_name {k key w w' : Bytes} (name : StringText k key) (before : Blanks w)
    (hs : skipBlanks (w' ++ s) = s) :
    member item (k ++ (w ++ Bytes.colon :: (w' ++ s))) = (item s).map fun (j, rest) => ((key, j), rest) := by
  obtain ⟨name⟩ := name
  rename_i k
  have hstring : string (k ++ (Bytes.quote :: (w ++ Bytes.colon :: (w' ++ s)))) =
      .ok (key, w ++ Bytes.colon :: (w' ++ s)) := string_eq_ok_iff.mpr ⟨k, name, rfl⟩
  simp only [List.cons_append, List.append_assoc, List.nil_append, member, Bytes.after?, if_true, hstring,
    skipBlanks_up_to before (show isBlank Bytes.colon = false from rfl), hs]
  cases item s <;> rfl

/-- Keys with their values are read as values are. -/
theorem member_reads (h : Reads item Item) : Reads (member item) (MemberText Item) where
  opens := by
    rintro s e ⟨⟨-⟩, -, -, -⟩
    exact ⟨_, _, rfl, rfl, by decide, by decide⟩
  accepts := by
    rintro s e rest hmember hrest
    cases hmember with
    | member name before after hitem =>
        obtain ⟨c, t, hct, hc⟩ := h.opens hitem
        rw [List.append_assoc, List.append_assoc, List.cons_append, List.append_assoc,
          member_of_name name before (by rw [hct]; exact skipBlanks_up_to after hc.1 _), h.accepts hitem hrest]
        rfl
  sound := by
    intro s e rest hread
    rw [member] at hread
    split at hread
    · cases hread
    next s₁ hquote =>
    obtain rfl := Bytes.after?_eq_some_iff.mp hquote
    split at hread
    · cases hread
    next key s₂ hstring =>
    obtain ⟨k, hk, rfl⟩ := string_eq_ok_iff.mp hstring
    split at hread
    · cases hread
    next s₃ hcolon =>
    obtain ⟨w, hw, hs₂⟩ := exists_blanks s₂
    rw [Bytes.after?_eq_some_iff.mp hcolon] at hs₂
    obtain ⟨w', hw', hs₃⟩ := exists_blanks s₃
    split at hread
    · cases hread
    next j s₄ hitem =>
    obtain ⟨t, ht, ht₃⟩ := h.sound hitem
    cases hread
    exact ⟨_, .member (.quoted hk) hw hw' ht, by rw [hs₂, hs₃, ht₃]; simp⟩

/-- **The reader of objects.** -/
theorem object_eq_ok_iff (h : Reads item Item) :
    object item s = .ok (j, rest) ↔ ∃ t, s = t ++ Bytes.closeBrace :: rest ∧
      (Blanks t ∧ j = .object [] ∨
        ∃ entries, Listed (MemberText Item) t entries ∧ j = .object (Dictionary.ofList entries)) := by
  have hmembers : ∀ ms rest, members item (Bytes.openBrace :: s) [] s = .ok (ms, rest) ↔
      ∃ t entries, Listed (MemberText Item) t entries ∧ s = t ++ Bytes.closeBrace :: rest ∧
        ms = Dictionary.ofList entries := by
    intro ms rest
    rw [members_eq]
    exact listed_eq_ok_iff (member_reads h) (.inr rfl) (Nat.lt_succ_self _)
  exact bracketed_eq_ok_iff (member_reads h) (.inr rfl) hmembers

/-- **An object is refused with a member**, if there are only members before it. -/
theorem object_of_fault (h : Reads item Item) {t u : Bytes} {entries : List (Bytes × Json)} {fault : Fault}
    (ht : Listed (MemberText Item) t entries) (hopens : ∃ c v, u = c :: v ∧ Opens c)
    (hfault : member item u = .error fault) : object item (t ++ Bytes.comma :: u) = .error fault := by
  obtain ⟨c, v, rfl, hc⟩ := hopens
  have hskip := skipBlanks_of_not_blank hc.1 v
  have hstart : Bytes.after? [Bytes.closeBrace] (skipBlanks (t ++ Bytes.comma :: (c :: v))) = none :=
    after?_skipBlanks_of_opens (.inr rfl) ((member_reads h).skipBlanks_listed ht _)
  have hbound : (t ++ Bytes.comma :: (c :: v)).length < (Bytes.openBrace :: (t ++ Bytes.comma :: (c :: v))).length :=
    Nat.lt_succ_self _
  have hmembers : members item (Bytes.openBrace :: (t ++ Bytes.comma :: (c :: v))) [] (t ++ Bytes.comma :: (c :: v)) =
      .error fault := by
    rw [members_eq]
    obtain ⟨bound', hbound', hlisted⟩ := listed_before (member_reads h) (.inr rfl) ht ⟨c, v, hskip, hc⟩ hbound
    obtain ⟨b, bound', rfl⟩ := List.exists_cons_of_length_pos (Nat.zero_lt_of_lt hbound')
    rw [hlisted, listed, hskip, hfault]
  rw [object, hstart]
  simp only [hmembers]
  rfl

end

/-! ## Values -/

theorem exists_cons_of_literal (l : NumberLiteral) :
    ∃ c t, l.text = c :: t ∧ (c = Bytes.minus ∨ Numeral.isDigit c = true) := by
  rw [NumberLiteral.text]
  cases l.negative with
  | true => exact ⟨_, _, rfl, .inl rfl⟩
  | false =>
      obtain ⟨c, s, hwhole, hc⟩ := exists_cons_of_digits l.wholeDigits
      rw [hwhole]
      exact ⟨c, _, rfl, .inr hc⟩

section

variable {n : Nat} {Item : Bytes → Json → Prop} {s rest : Bytes} {j : Json}

theorem opens_of_valueText (h : ValueText Item s j) : ∃ c t, s = c :: t ∧ Opens c := by
  cases h with
  | @number l _ h =>
      obtain ⟨c, t, hct, hc⟩ := exists_cons_of_literal l
      refine ⟨c, t, hct, ?_⟩
      rcases hc with rfl | hc
      · exact ⟨rfl, by decide, by decide⟩
      · exact opens_of_isDigit hc
  | string h =>
      obtain ⟨-⟩ := h
      exact ⟨_, _, rfl, rfl, by decide, by decide⟩
  | _ => exact ⟨_, _, rfl, rfl, by decide, by decide⟩

/-- A minus or a digit starts a number. -/
theorem value_number {c : UInt8} (hc : c = Bytes.minus ∨ Numeral.isDigit c = true) :
    value (n + 1) (c :: s) = (number (c :: s)).map fun (n, s) => (.number n, s) := by
  have hne : ∀ d, d ≠ Bytes.minus → Numeral.isDigit d = false → c ≠ d := by
    rintro d hminus hd rfl
    rcases hc with rfl | hc
    · exact hminus rfl
    · rw [hc] at hd
      cases hd
  rw [value, if_neg (hne _ (by decide) rfl), if_neg (hne _ (by decide) rfl), if_neg (hne _ (by decide) rfl), if_pos hc]

/-- Only the three words are read. -/
theorem word_of_keyword? (h : keyword? s = some (j, rest)) :
    s = ascii "true" ++ rest ∧ j = .bool true ∨ s = ascii "false" ++ rest ∧ j = .bool false ∨
      s = ascii "null" ++ rest ∧ j = .null := by
  rw [keyword?] at h
  split at h
  · next htrue =>
      cases h
      exact .inl ⟨Bytes.after?_eq_some_iff.mp htrue, rfl⟩
  split at h
  · next hfalse =>
      cases h
      exact .inr (.inl ⟨Bytes.after?_eq_some_iff.mp hfalse, rfl⟩)
  · obtain ⟨_, hnull, heq⟩ := Option.map_eq_some_iff.mp h
    cases heq
    exact .inr (.inr ⟨Bytes.after?_eq_some_iff.mp hnull, rfl⟩)

/-- **A value is read**, if those inside it are. -/
theorem value_of_valueText (h : Reads (value n) Item) (hs : ValueText Item s j) (hrest : Ends rest) :
    value (n + 1) (s ++ rest) = .ok (j, rest) := by
  cases hs with
  | null => rfl
  | false => rfl
  | true => rfl
  | @number l number hl =>
      obtain ⟨c, t, hct, hc⟩ := exists_cons_of_literal l
      have hread := number_of_literal hl hrest
      rw [hct, List.cons_append] at hread ⊢
      rw [value_number hc, hread]
      rfl
  | string hs =>
      obtain ⟨hs⟩ := hs
      rw [List.cons_append, List.append_assoc, value, if_neg (by decide), if_neg (by decide), if_pos rfl]
      exact map_eq_ok_iff.mpr ⟨_, string_eq_ok_iff.mpr ⟨_, hs, rfl⟩, rfl⟩
  | emptyArray hw =>
      rw [List.cons_append, List.append_assoc, value, if_neg (by decide), if_pos rfl]
      exact (array_eq_ok_iff h).mpr ⟨_, rfl, .inl ⟨hw, rfl⟩⟩
  | array hs =>
      rw [List.cons_append, List.append_assoc, value, if_neg (by decide), if_pos rfl]
      exact (array_eq_ok_iff h).mpr ⟨_, rfl, .inr ⟨_, hs, rfl⟩⟩
  | emptyObject hw =>
      rw [List.cons_append, List.append_assoc, value, if_pos rfl]
      exact (object_eq_ok_iff h).mpr ⟨_, rfl, .inl ⟨hw, rfl⟩⟩
  | object hs hmembers =>
      rw [List.cons_append, List.append_assoc, value, if_pos rfl]
      exact (object_eq_ok_iff h).mpr ⟨_, rfl, .inr ⟨_, hs, congrArg _ (lastWins_iff.mp hmembers)⟩⟩

/-- **Only values are read.** -/
theorem valueText_of_value (h : Reads (value n) Item) (hread : value (n + 1) s = .ok (j, rest)) :
    ∃ t, ValueText Item t j ∧ s = t ++ rest := by
  cases s with
  | nil => cases hread
  | cons c s =>
      rw [value] at hread
      split at hread
      · next hc =>
          subst hc
          obtain ⟨t, rfl, ⟨ht, rfl⟩ | ⟨entries, ht, rfl⟩⟩ := (object_eq_ok_iff h).mp hread
          · exact ⟨_, .emptyObject ht, by simp⟩
          · exact ⟨_, .object ht (lastWins_iff.mpr rfl), by simp⟩
      split at hread
      · next hc =>
          subst hc
          obtain ⟨t, rfl, ⟨ht, rfl⟩ | ⟨items, ht, rfl⟩⟩ := (array_eq_ok_iff h).mp hread
          · exact ⟨_, .emptyArray ht, by simp⟩
          · exact ⟨_, .array ht, by simp⟩
      split at hread
      · next hc =>
          subst hc
          obtain ⟨⟨text, rest⟩, hstring, heq⟩ := map_eq_ok_iff.mp hread
          cases heq
          obtain ⟨t, ht, rfl⟩ := string_eq_ok_iff.mp hstring
          exact ⟨_, .string (.quoted ht), by simp⟩
      split at hread
      · obtain ⟨⟨number, rest⟩, hnumber, heq⟩ := map_eq_ok_iff.mp hread
        cases heq
        obtain ⟨l, hl, hs⟩ := literal_of_number hnumber
        exact ⟨l.text, .number hl, hs⟩
      split at hread
      · next hkeyword =>
          cases hread
          rcases word_of_keyword? hkeyword with ⟨hs, rfl⟩ | ⟨hs, rfl⟩ | ⟨hs, rfl⟩
          · exact ⟨_, .true, hs⟩
          · exact ⟨_, .false, hs⟩
          · exact ⟨_, .null, hs⟩
      · cases hread

end

/-- **The reader of values**, with levels left for `n` arrays and objects. -/
theorem reads_value (n : Nat) : Reads (value n) (Denotes n) := by
  induction n with
  | zero => exact ⟨nofun, nofun, nofun⟩
  | succ n ih => exact ⟨opens_of_valueText, value_of_valueText ih, valueText_of_value ih⟩

end Parser

/-! ## Documents -/

/-- Only documents are accepted. -/
theorem document_of_parse {s : Bytes} {j : Json} (h : parse s = .ok j) : Document 512 s j := by
  obtain ⟨w, hw, hs⟩ := Parser.exists_blanks s
  simp only [parse, bind, Except.bind] at h
  split at h
  · cases h
  next o hvalue =>
  obtain ⟨j', rest⟩ := o
  obtain ⟨t, ht, ht'⟩ := (Parser.reads_value 512).sound hvalue
  obtain ⟨w', hw', hrest⟩ := Parser.exists_blanks rest
  simp only at h
  split at h
  · next hend =>
      cases h
      rw [hend, List.append_nil] at hrest
      rw [hs, ht', hrest]
      exact .text hw ht hw'
  · cases h

/-- Documents are accepted. -/
theorem parse_of_document {s : Bytes} {j : Json} (h : Document 512 s j) : parse s = .ok j := by
  cases h with
  | @text w t w' _ before hvalue after =>
      have hends : Parser.Ends w' := by
        simpa using Parser.ends_blanks after (show Parser.Ends [] from nofun)
      have hblank : Parser.skipBlanks w' = [] := by
        have hskip := Parser.skipBlanks_append after []
        rwa [List.append_nil] at hskip
      have hread : Parser.value Parser.maxLevels (t ++ w') = .ok (j, w') :=
        (Parser.reads_value 512).accepts hvalue hends
      rw [parse, (Parser.reads_value 512).skipBlanks before hvalue, hread]
      simp only [bind, Except.bind, hblank]
      rfl

/-- **What is accepted, and as which value**: the texts of the grammar in which every value has fewer than 512 arrays
and objects around it. -/
theorem parse_eq_ok_iff (s : Bytes) (j : Json) : parse s = .ok j ↔ Document 512 s j :=
  ⟨document_of_parse, parse_of_document⟩

end ModRepair.Json
