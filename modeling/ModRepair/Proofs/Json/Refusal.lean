import ModRepair.Proofs.Json.Lookahead

/-!
# Where the reader stops

The faults that are about one byte, the one that the reader does not accept (`Cause.atByte`). `Steady item Item Item'`
says of a reader that such a fault depends on nothing behind that byte, and that the text before it is the start of one
of the texts `Item'`.

* `member_refused` — keys with their values, with one lemma for each place at which they can be refused;
* `listed_refused` — the loop over items, by induction on its turns: `exists_turn` says what a turn goes by;
* `steady_value` — **values**, by induction on the levels that are left.
-/

namespace ModRepair.Json

open Grammar

namespace Cause

/-- The causes for which the reader stops in front of the byte that it does not accept. -/
def inFront : List Cause :=
  [.expectedKey, .expectedColon, .trailingObjectComma, .trailingArrayComma]

/-- The causes for which it stops behind that byte. -/
def behind : List Cause :=
  [.expectedObjectSeparator, .expectedArraySeparator, .controlCharacter]

/-- The causes that are about one byte. -/
def atByte : List Cause :=
  inFront ++ behind

/-- The text that remains, where `s` starts with the byte that is not accepted. -/
def remaining (cause : Cause) (s : Bytes) : Bytes :=
  if cause ∈ behind then s.tail else s

theorem not_behind_of_inFront {cause : Cause} (h : cause ∈ inFront) : cause ∉ behind := by
  revert cause
  decide

theorem remaining_of_inFront {cause : Cause} (h : cause ∈ inFront) (s : Bytes) : cause.remaining s = s :=
  if_neg (not_behind_of_inFront h)

theorem remaining_of_behind {cause : Cause} (h : cause ∈ behind) (s : Bytes) : cause.remaining s = s.tail :=
  if_pos h

end Cause

namespace Parser

/-! ## Refusals -/

section

variable {α β : Type}

/-- **A reader refuses a text behind `pre`** for the first byte of `suf`, or for the end if that is empty: it does so
whatever comes after that byte. -/
def RefusesBehind (item : Bytes → Parsed α) (cause : Cause) (pre suf : Bytes) : Prop :=
  ∀ suf', suf'.head? = suf.head? → item (pre ++ suf') = .error ⟨cause, cause.remaining suf'⟩

/-- A reader refuses what the one refuses to which it comes behind `p`. -/
theorem RefusesBehind.after {f : Bytes → Parsed β} {g : Bytes → Parsed α} {cause : Cause} {p pre suf : Bytes}
    (h : RefusesBehind g cause pre suf)
    (hp : ∀ s fault, s.head? = (pre ++ suf).head? → g s = .error fault → f (p ++ s) = .error fault) :
    RefusesBehind f cause (p ++ pre) suf := by
  intro suf' hhead
  rw [List.append_assoc]
  exact hp (pre ++ suf') _ (head?_append_congr hhead pre) (h suf' hhead)

/-- **A reader refuses `s` at a byte**, and what stands before the byte is the start of one of the texts `Item`. -/
def RefusedAtByte {γ : Type} (item : Bytes → Parsed α) (Item : Bytes → γ → Prop) (cause : Cause) (s : Bytes) : Prop :=
  ∃ pre suf, s = pre ++ suf ∧ (∃ t a, Item (pre ++ t) a) ∧ RefusesBehind item cause pre suf

/-- **A reader of the texts `Item` that goes by single bytes**: it looks at one byte after a text, and if it refuses a
text at a byte, then what stands before that byte is the start of one of the texts `Item'`. These are the texts under a
higher limit on the depth: at the last level there is no text `Item` with which an array could go on. -/
structure Steady (item : Bytes → Parsed α) (Item Item' : Bytes → α → Prop) : Prop where
  reads : Reads item Item
  oneAhead : Local item
  weaker : ∀ {t a}, Item t a → Item' t a
  inhabited : ∃ t a, Item' t a
  refused : ∀ {s fault}, item s = .error fault → fault.cause ∈ Cause.atByte → RefusedAtByte item Item' fault.cause s

end

/-- Blanks are skipped by what comes after them. -/
theorem exists_skipped (s : Bytes) :
    ∃ w, Blanks w ∧ s = w ++ skipBlanks s ∧ ∀ s', s'.head? = (skipBlanks s).head? → skipBlanks (w ++ s') = s' := by
  obtain ⟨w, hw, hs⟩ := exists_blanks s
  refine ⟨w, hw, hs, ?_⟩
  intro s' hhead
  cases s' with
  | nil => rw [skipBlanks_append hw]; rfl
  | cons c s' =>
      have hc := List.head?_dropWhile_not isBlank s
      simp only [skipBlanks] at hhead
      rw [← hhead] at hc
      exact skipBlanks_up_to hw hc s'

theorem after?_eq_none_iff {c : UInt8} {s : Bytes} : Bytes.after? [c] s = none ↔ s.head? ≠ some c := by
  cases s with
  | nil => simp [Bytes.after?]
  | cons d s =>
      by_cases hd : c = d
      · simp [Bytes.after?, hd]
      · simp [Bytes.after?, hd, Ne.symm hd]

/-! ## Strings -/

/-- Of the faults of a character only a control character is about one byte: all others are about escapes. -/
theorem control_of_stringCharacter {c : UInt8} {s : Bytes} {fault : Fault} (h : stringCharacter c s = .error fault)
    (hcause : fault.cause ∈ Cause.atByte) : fault.cause = .controlCharacter := by
  unfold stringCharacter at h
  split at h
  · cases h
    rfl
  split at h
  · cases h
  split at h
  · cases h
    exact absurd hcause (show Cause.invalidEscape 0 ∉ Cause.atByte by decide)
  split at h
  · split at h
    · split at h
      · cases h
      · cases h
        exact absurd hcause (show Cause.invalidUnicodeEscape ∉ Cause.atByte by decide)
    · cases h
      exact absurd hcause (show Cause.incompleteUnicodeEscape ∉ Cause.atByte by decide)
  next e _ _ =>
  split at h
  · cases h
  · cases h
    exact absurd hcause (show Cause.invalidEscape e ∉ Cause.atByte by simp [Cause.atByte, Cause.inFront, Cause.behind])

theorem control_of_string {s : Bytes} {fault : Fault} (h : string s = .error fault)
    (hcause : fault.cause ∈ Cause.atByte) : fault.cause = .controlCharacter := by
  suffices hbody : ∀ opening bound read s, stringBody opening bound read s = .error fault →
      fault.cause = .controlCharacter from hbody _ _ _ s h
  intro opening bound read s h
  induction bound generalizing read s with
  | nil =>
      cases h
      exact absurd hcause (show Cause.unterminatedString ∉ Cause.atByte by decide)
  | cons b bound ih =>
      cases s with
      | nil =>
          cases h
          exact absurd hcause (show Cause.unterminatedString ∉ Cause.atByte by decide)
      | cons c s =>
          rw [stringBody] at h
          split at h
          · cases h
          split at h
          · next hcharacter =>
              cases h
              exact control_of_stringCharacter hcharacter hcause
          · exact ih _ _ h

theorem string_refused {s : Bytes} {fault : Fault} (h : string s = .error fault) (hcause : fault.cause ∈ Cause.atByte) :
    ∃ pre text suf, s = pre ++ suf ∧ Characters pre text ∧ RefusesBehind string fault.cause pre suf := by
  obtain ⟨cause, rest⟩ := fault
  obtain rfl : cause = .controlCharacter := control_of_string h hcause
  obtain ⟨t, bytes, c, ht, hc, rfl⟩ := string_eq_control_iff.mp h
  refine ⟨t, bytes, c :: rest, rfl, ht, ?_⟩
  intro suf' hhead
  obtain ⟨rest', rfl⟩ := List.head?_eq_some_iff.mp hhead
  exact string_eq_control_iff.mpr ⟨t, bytes, c, ht, hc, rfl⟩

/-! ## Members -/

section

variable {item : Bytes → Parsed Json} {Item Item' : Bytes → Json → Prop}

theorem local_member (h : Reads item Item) (hlocal : Local item) : Local (member item) := by
  intro s e rest hread
  obtain ⟨_, hmember, rfl⟩ := (member_reads h).sound hread
  cases hmember with
  | @member k key w w' t j name before after hitem =>
      obtain ⟨c, u, rfl, hc⟩ := h.opens hitem
      have hname : ∀ rest, member item (k ++ (w ++ Bytes.colon :: (w' ++ c :: u)) ++ rest) =
          (item (c :: u ++ rest)).map fun o => ((key, o.1), o.2) := by
        intro rest
        rw [List.append_assoc, List.append_assoc, List.cons_append, List.append_assoc]
        exact member_of_name name before (skipBlanks_up_to after hc.1 _)
      rw [hname] at hread
      obtain ⟨⟨j, rest⟩, hitem, heq⟩ := map_eq_ok_iff.mp hread
      cases heq
      obtain ⟨t, ht, hsame⟩ := hlocal _ _ _ hitem
      obtain rfl := List.append_cancel_right ht
      refine ⟨_, rfl, fun rest' hhead => ?_⟩
      rw [hname, hsame rest' hhead]
      rfl

section

variable (h : Steady item Item Item') {s : Bytes}

include h

/-- No key stands at the start. -/
theorem refused_at_key (hquote : Bytes.after? [Bytes.quote] s = none) :
    RefusedAtByte (member item) (MemberText Item') .expectedKey s := by
  obtain ⟨t, j, ht⟩ := h.inhabited
  have hmember : MemberText Item' _ ([], j) := .member (.quoted .nil) blanks_nil blanks_nil ht
  refine ⟨[], s, rfl, ⟨_, _, hmember⟩, ?_⟩
  intro suf' hhead
  have hquote' : Bytes.after? [Bytes.quote] suf' = none := by
    rw [after?_eq_none_iff, hhead]
    exact after?_eq_none_iff.mp hquote
  rw [List.nil_append, member, hquote']
  rfl

/-- The key is refused. -/
theorem refused_in_key {fault : Fault} (hstring : string s = .error fault) (hcause : fault.cause ∈ Cause.atByte) :
    RefusedAtByte (member item) (MemberText Item') fault.cause (Bytes.quote :: s) := by
  obtain ⟨t, j, ht⟩ := h.inhabited
  obtain ⟨k, key, suf, rfl, hk, hrefuses⟩ := string_refused hstring hcause
  have hmember : MemberText Item' _ (key, j) := .member (.quoted hk) blanks_nil blanks_nil ht
  refine ⟨Bytes.quote :: k, suf, rfl, ⟨Bytes.quote :: Bytes.colon :: t, (key, j), by simpa using hmember⟩, ?_⟩
  intro suf' hhead
  simp only [List.cons_append, member, Bytes.after?, if_true, hrefuses suf' hhead]

/-- No colon stands after the key. -/
theorem refused_at_colon {k key : Bytes} (hk : Characters k key)
    (hcolon : Bytes.after? [Bytes.colon] (skipBlanks s) = none) :
    RefusedAtByte (member item) (MemberText Item') .expectedColon (Bytes.quote :: (k ++ Bytes.quote :: s)) := by
  obtain ⟨t, j, ht⟩ := h.inhabited
  obtain ⟨w, hw, hs, hskip⟩ := exists_skipped s
  have hmember : MemberText Item' _ (key, j) := .member (.quoted hk) hw blanks_nil ht
  refine ⟨Bytes.quote :: (k ++ Bytes.quote :: w), skipBlanks s, ?_, ⟨Bytes.colon :: t, (key, j), ?_⟩, ?_⟩
  · rw [List.cons_append, List.append_assoc, List.cons_append, ← hs]
  · simpa using hmember
  intro suf' hhead
  have hcolon' : Bytes.after? [Bytes.colon] suf' = none := by
    rw [after?_eq_none_iff, hhead]
    exact after?_eq_none_iff.mp hcolon
  have hstring : string (k ++ Bytes.quote :: (w ++ suf')) = .ok (key, w ++ suf') :=
    string_eq_ok_iff.mpr ⟨k, hk, rfl⟩
  simp only [List.cons_append, List.append_assoc, member, Bytes.after?, if_true, hstring, hskip suf' hhead, hcolon']
  rfl

/-- The value is refused. -/
theorem refused_in_value {k key w : Bytes} (hname : StringText k key) (hw : Blanks w) {fault : Fault}
    (hitem : item (skipBlanks s) = .error fault) (hcause : fault.cause ∈ Cause.atByte) :
    RefusedAtByte (member item) (MemberText Item') fault.cause (k ++ (w ++ Bytes.colon :: s)) := by
  obtain ⟨w', hw', hs, hskip⟩ := exists_skipped s
  obtain ⟨pre, suf, hpre, ⟨t, j, ht⟩, hrefuses⟩ := h.refused hitem hcause
  have hmember : MemberText Item' _ (key, j) := .member hname hw hw' ht
  refine ⟨k ++ (w ++ Bytes.colon :: w') ++ pre, suf, ?_, ⟨t, (key, j), by simpa using hmember⟩, ?_⟩
  · rw [hs, hpre]
    simp
  refine hrefuses.after fun s fault hhead hfault => ?_
  rw [← hpre] at hhead
  have hread : member item _ = _ := member_of_name hname hw (hskip s hhead)
  rw [hfault] at hread
  simpa [Except.map] using hread

theorem member_refused {fault : Fault} (hread : member item s = .error fault) (hcause : fault.cause ∈ Cause.atByte) :
    RefusedAtByte (member item) (MemberText Item') fault.cause s := by
  rw [member] at hread
  split at hread
  · next hquote =>
      cases hread
      exact refused_at_key h hquote
  next s₁ hquote =>
  obtain rfl := Bytes.after?_eq_some_iff.mp hquote
  split at hread
  · next hstring =>
      cases hread
      exact refused_in_key h hstring hcause
  next key s₂ hstring =>
  obtain ⟨k, hk, rfl⟩ := string_eq_ok_iff.mp hstring
  split at hread
  · next hcolon =>
      cases hread
      exact refused_at_colon h hk hcolon
  next s₃ hcolon =>
  obtain ⟨w, hw, hs₂⟩ := exists_blanks s₂
  rw [Bytes.after?_eq_some_iff.mp hcolon] at hs₂
  split at hread
  · next hitem =>
      cases hread
      have hrefused := refused_in_value h (.quoted hk) hw hitem hcause
      rw [hs₂]
      simpa using hrefused
  · cases hread

end

theorem steady_member (h : Steady item Item Item') : Steady (member item) (MemberText Item) (MemberText Item') where
  reads := member_reads h.reads
  oneAhead := local_member h.reads h.oneAhead
  weaker := by
    rintro _ _ ⟨name, before, after, hitem⟩
    exact .member name before after (h.weaker hitem)
  inhabited := by
    obtain ⟨t, j, ht⟩ := h.inhabited
    exact ⟨_, ([], j), .member (.quoted .nil) blanks_nil blanks_nil ht⟩
  refused := member_refused h

end

/-! ## Lists of items -/

section

variable {α β : Type} {item : Bytes → Parsed α} {Item Item' : Bytes → α → Prop} {close : UInt8}
  {separator trailing : Cause} {add : β → α → β} {read : β} {bound s s₁ u : Bytes} {a : α}

/-- **A turn of the loop** has taken an item with the blanks around it: it goes by the byte after them, and the text is
a list or the start of one. -/
theorem exists_turn (h : Steady item Item Item') (hitem : item (skipBlanks s) = .ok (a, s₁)) :
    ∃ v, s = v ++ skipBlanks s₁ ∧ Listed Item' v [a] ∧
      (∀ {t as}, Listed Item' t as → Listed Item' (v ++ Bytes.comma :: t) (a :: as)) ∧
      ∀ u, u.head? = (skipBlanks s₁).head? →
        (skipBlanks (v ++ u)).head? = (skipBlanks s).head? ∧
        ∃ s₂, item (skipBlanks (v ++ u)) = .ok (a, s₂) ∧ skipBlanks s₂ = u := by
  obtain ⟨w, hw, hs⟩ := exists_blanks s
  obtain ⟨w', hw', hs₁, hskip⟩ := exists_skipped s₁
  obtain ⟨t, ht, htext⟩ := h.reads.sound hitem
  obtain ⟨t', ht', hsame⟩ := h.oneAhead _ _ _ hitem
  -- The text that the item is and the one that it takes are the same.
  obtain rfl := List.append_cancel_right (htext.symm.trans ht')
  refine ⟨w ++ (t ++ w'), ?_, .last hw (h.weaker ht) hw', ?_, ?_⟩
  · rw [List.append_assoc, List.append_assoc, ← hs₁, ← htext, ← hs]
  · intro t' as hlater
    rw [List.append_assoc, List.append_assoc]
    exact .more hw (h.weaker ht) hw' hlater
  · intro u hhead
    have hhead' : (w' ++ u).head? = s₁.head? := by
      rw [hs₁]
      exact head?_append_congr hhead w'
    rw [List.append_assoc, List.append_assoc, h.reads.skipBlanks hw ht, htext]
    exact ⟨head?_append_congr hhead' t, w' ++ u, hsame _ hhead', hskip u hhead⟩

section

variable (hitem : item (skipBlanks s) = .ok (a, s₁)) (b : UInt8)

include hitem

theorem listed_separator (hclose : (skipBlanks s₁).head? ≠ some close)
    (hcomma : (skipBlanks s₁).head? ≠ some Bytes.comma) :
    listed close separator trailing item add (b :: bound) read s = stop separator (skipBlanks s₁).tail := by
  simp only [listed, hitem]
  cases hskip : skipBlanks s₁ with
  | nil => rfl
  | cons c u =>
      rw [hskip] at hclose hcomma
      simp only [if_neg fun hc => hclose (congrArg some hc), if_neg fun hc => hcomma (congrArg some hc), List.tail_cons]

theorem listed_trailing (hclose : close ≠ Bytes.comma) (hskip : skipBlanks s₁ = Bytes.comma :: u)
    (hu : (skipBlanks u).head? = some close) :
    listed close separator trailing item add (b :: bound) read s = stop trailing (skipBlanks u) := by
  simp only [listed, hitem, hskip, if_neg hclose.symm, if_true, if_pos hu]

theorem listed_next (hclose : close ≠ Bytes.comma) (hskip : skipBlanks s₁ = Bytes.comma :: u)
    (hu : (skipBlanks u).head? ≠ some close) :
    listed close separator trailing item add (b :: bound) read s =
      listed close separator trailing item add bound (add read a) u := by
  simp only [listed, hitem, hskip, if_neg hclose.symm, if_true, if_neg hu]

end

/-- **The loop over items refuses `s` at a byte**, whichever items it has read and whatever comes after the byte: what
stands before the byte is the start of a list, and the loop starts there as on `s`. -/
def LoopRefused (loop : (bound : Bytes) → (read : β) → Bytes → Parsed β) (Item' : Bytes → α → Prop) (cause : Cause)
    (s : Bytes) : Prop :=
  ∃ pre suf, s = pre ++ suf ∧ (∃ t as, Listed Item' (pre ++ t) as) ∧
    ∀ suf', suf'.head? = suf.head? → (skipBlanks (pre ++ suf')).head? = (skipBlanks s).head? ∧
      ∀ bound read, (pre ++ suf').length < bound.length →
        loop bound read (pre ++ suf') = .error ⟨cause, cause.remaining suf'⟩

section

variable (h : Steady item Item Item')

include h

/-- The item itself is refused. -/
theorem refused_in_item {fault : Fault} (hitem : item (skipBlanks s) = .error fault)
    (hcause : fault.cause ∈ Cause.atByte) :
    LoopRefused (listed close separator trailing item add) Item' fault.cause s := by
  obtain ⟨w, hw, hs, hskip⟩ := exists_skipped s
  obtain ⟨pre, suf, hpre, ⟨t, a, ht⟩, hrefuses⟩ := h.refused hitem hcause
  have hlisted : Listed Item' _ [a] := .last hw ht blanks_nil
  refine ⟨w ++ pre, suf, by rw [List.append_assoc, ← hpre, ← hs], ⟨t, [a], by simpa using hlisted⟩, ?_⟩
  intro suf' hhead
  have hhead' : (pre ++ suf').head? = (skipBlanks s).head? := by
    rw [hpre]
    exact head?_append_congr hhead pre
  have hskip' : skipBlanks (w ++ pre ++ suf') = pre ++ suf' := by
    rw [List.append_assoc, hskip _ hhead']
  refine ⟨by rw [hskip', hhead'], fun bound read hbound => ?_⟩
  obtain ⟨b, bound, rfl⟩ := List.exists_cons_of_length_pos (Nat.zero_lt_of_lt hbound)
  rw [listed, hskip', hrefuses suf' hhead]

/-- Neither a comma nor the closing bracket stands after an item. -/
theorem refused_at_separator (hitem : item (skipBlanks s) = .ok (a, s₁)) (hseparator : separator ∈ Cause.behind)
    (hclose : (skipBlanks s₁).head? ≠ some close) (hcomma : (skipBlanks s₁).head? ≠ some Bytes.comma) :
    LoopRefused (listed close separator trailing item add) Item' separator s := by
  obtain ⟨v, hs, hlast, -, hturn⟩ := exists_turn h hitem
  refine ⟨v, skipBlanks s₁, hs, ⟨[], [a], by rwa [List.append_nil]⟩, ?_⟩
  intro suf' hhead
  obtain ⟨hsame, s₂, hitem', rfl⟩ := hturn suf' hhead
  refine ⟨hsame, fun bound read hbound => ?_⟩
  obtain ⟨b, bound, rfl⟩ := List.exists_cons_of_length_pos (Nat.zero_lt_of_lt hbound)
  rw [Cause.remaining_of_behind hseparator]
  exact listed_separator hitem' b (hhead ▸ hclose) (hhead ▸ hcomma)

section

variable (hitem : item (skipBlanks s) = .ok (a, s₁)) (hclose : close ≠ Bytes.comma)
  (hskip : skipBlanks s₁ = Bytes.comma :: u)

include hitem hclose hskip

/-- The closing bracket stands after a comma. -/
theorem refused_at_trailing (htrailing : trailing ∈ Cause.inFront) (hu : (skipBlanks u).head? = some close) :
    LoopRefused (listed close separator trailing item add) Item' trailing s := by
  obtain ⟨v, hs, -, hmore, hturn⟩ := exists_turn h hitem
  obtain ⟨w, hw, hu', hskip'⟩ := exists_skipped u
  obtain ⟨t, a', ht⟩ := h.inhabited
  have hlisted := hmore (.last hw ht blanks_nil)
  refine ⟨v ++ Bytes.comma :: w, skipBlanks u, ?_, ⟨t, [a, a'], by simpa using hlisted⟩, ?_⟩
  · rw [List.append_assoc, List.cons_append, ← hu', ← hskip, ← hs]
  intro suf' hhead
  rw [List.append_assoc, List.cons_append]
  obtain ⟨hsame, s₂, hitem', hskip₂⟩ := hturn (Bytes.comma :: (w ++ suf')) (by rw [hskip]; rfl)
  refine ⟨hsame, fun bound read hbound => ?_⟩
  obtain ⟨b, bound, rfl⟩ := List.exists_cons_of_length_pos (Nat.zero_lt_of_lt hbound)
  have hblanks : skipBlanks (w ++ suf') = suf' := hskip' suf' hhead
  rw [Cause.remaining_of_inFront htrailing, listed_trailing hitem' b hclose hskip₂ (by rw [hblanks, hhead, hu]),
    hblanks]

/-- What stands after a comma is refused. -/
theorem refused_later {cause : Cause} (hu : (skipBlanks u).head? ≠ some close)
    (hrefused : LoopRefused (listed close separator trailing item add) Item' cause u) :
    LoopRefused (listed close separator trailing item add) Item' cause s := by
  obtain ⟨v, hs, -, hmore, hturn⟩ := exists_turn h hitem
  obtain ⟨pre, suf, hpre, ⟨t, as, ht⟩, hlater⟩ := hrefused
  have hlisted := hmore ht
  refine ⟨v ++ Bytes.comma :: pre, suf, ?_, ⟨t, a :: as, by simpa using hlisted⟩, ?_⟩
  · rw [List.append_assoc, List.cons_append, ← hpre, ← hskip, ← hs]
  intro suf' hhead
  rw [List.append_assoc, List.cons_append]
  obtain ⟨hstart, hloop⟩ := hlater suf' hhead
  obtain ⟨hsame, s₂, hitem', hskip₂⟩ := hturn (Bytes.comma :: (pre ++ suf')) (by rw [hskip]; rfl)
  refine ⟨hsame, fun bound read hbound => ?_⟩
  obtain ⟨b, bound, rfl⟩ := List.exists_cons_of_length_pos (Nat.zero_lt_of_lt hbound)
  rw [listed_next hitem' b hclose hskip₂ (by rwa [hstart])]
  refine hloop bound _ ?_
  simp only [List.length_append, List.length_cons] at hbound ⊢
  omega

end

/-- **The loop over items goes by single bytes**, by induction on its turns. -/
theorem listed_refused (hclose : close ≠ Bytes.comma) (hseparator : separator ∈ Cause.behind)
    (htrailing : trailing ∈ Cause.inFront) {fault : Fault}
    (hread : listed close separator trailing item add bound read s = .error fault)
    (hcause : fault.cause ∈ Cause.atByte) :
    LoopRefused (listed close separator trailing item add) Item' fault.cause s := by
  induction bound generalizing read s with
  | nil =>
      cases hread
      exact absurd hcause (show Cause.endOfInput ∉ Cause.atByte by decide)
  | cons b bound ih =>
      cases hitem : item (skipBlanks s) with
      | error fault' =>
          obtain rfl : fault' = fault := by
            rw [listed, hitem] at hread
            exact Except.error.inj hread
          exact refused_in_item h hitem hcause
      | ok o =>
          obtain ⟨a, s₁⟩ := o
          -- By what stands after the item: the closing bracket, a comma with that bracket or more behind it, or neither.
          by_cases hbracket : (skipBlanks s₁).head? = some close
          · obtain ⟨u, hskip⟩ := List.head?_eq_some_iff.mp hbracket
            simp [listed, hitem, hskip] at hread
          by_cases hcomma : (skipBlanks s₁).head? = some Bytes.comma
          · obtain ⟨u, hskip⟩ := List.head?_eq_some_iff.mp hcomma
            by_cases hu : (skipBlanks u).head? = some close
            · rw [listed_trailing hitem b hclose hskip hu] at hread
              cases hread
              exact refused_at_trailing h hitem hclose hskip htrailing hu
            · rw [listed_next hitem b hclose hskip hu] at hread
              exact refused_later h hitem hclose hskip hu (ih hread)
          · rw [listed_separator hitem b hbracket hcomma] at hread
            cases hread
            exact refused_at_separator h hitem hseparator hbracket hcomma

end

end

/-! ## Arrays and objects -/

theorem map_eq_error_iff {ε α β : Type} {x : Except ε α} {f : α → β} {e : ε} : x.map f = .error e ↔ x = .error e := by
  cases x <;> simp [Except.map]

section

variable {item : Bytes → Parsed Json} {Item Item' : Bytes → Json → Prop} {s : Bytes} {fault : Fault}

theorem array_eq_error_iff : array item s = .error fault ↔ Bytes.after? [Bytes.closeBracket] (skipBlanks s) = none ∧
    listed Bytes.closeBracket .expectedArraySeparator .trailingArrayComma item (fun js j => j :: js)
      (Bytes.openBracket :: s) [] s = .error fault := by
  rw [array]
  cases Bytes.after? [Bytes.closeBracket] (skipBlanks s) with
  | some rest => simp
  | none => simp [elements_eq, map_eq_error_iff]

theorem object_eq_error_iff : object item s = .error fault ↔ Bytes.after? [Bytes.closeBrace] (skipBlanks s) = none ∧
    listed Bytes.closeBrace .expectedObjectSeparator .trailingObjectComma (member item)
      (fun d e => Dictionary.insert e.1 e.2 d) (Bytes.openBrace :: s) [] s = .error fault := by
  rw [object]
  cases Bytes.after? [Bytes.closeBrace] (skipBlanks s) with
  | some rest => simp
  | none => simp [members_eq, map_eq_error_iff]

/-- **What stands between brackets goes by single bytes**, if the items do. -/
theorem bracketed_refused {α β : Type} {item : Bytes → Parsed α} {Item Item' : Bytes → α → Prop}
    (h : Steady item Item Item') {opening close : UInt8} (hclose : close ≠ Bytes.comma) {separator trailing : Cause}
    (hseparator : separator ∈ Cause.behind) (htrailing : trailing ∈ Cause.inFront) {add : β → α → β} {read : β}
    {reader : Bytes → Parsed Json}
    (hreader : ∀ s fault, reader s = .error fault ↔ Bytes.after? [close] (skipBlanks s) = none ∧
      listed close separator trailing item add (opening :: s) read s = .error fault)
    (hread : reader s = .error fault) (hcause : fault.cause ∈ Cause.atByte) :
    RefusedAtByte reader (Listed Item') fault.cause s := by
  obtain ⟨hstart, hlisted⟩ := (hreader s fault).mp hread
  obtain ⟨pre, suf, hs, htext, hloop⟩ := listed_refused h hclose hseparator htrailing hlisted hcause
  refine ⟨pre, suf, hs, htext, ?_⟩
  intro suf' hhead
  obtain ⟨hsame, hlisted'⟩ := hloop suf' hhead
  refine (hreader _ _).mpr ⟨?_, hlisted' _ read (Nat.lt_succ_self _)⟩
  rw [after?_eq_none_iff, hsame]
  exact after?_eq_none_iff.mp hstart

theorem array_refused (h : Steady item Item Item') (hread : array item s = .error fault)
    (hcause : fault.cause ∈ Cause.atByte) :
    RefusedAtByte (array item) (Listed Item') fault.cause s :=
  bracketed_refused h (by decide) (by decide) (by decide) (fun _ _ => array_eq_error_iff) hread hcause

theorem object_refused (h : Steady item Item Item') (hread : object item s = .error fault)
    (hcause : fault.cause ∈ Cause.atByte) :
    RefusedAtByte (object item) (Listed (MemberText Item')) fault.cause s :=
  bracketed_refused (steady_member h) (by decide) (by decide) (by decide) (fun _ _ => object_eq_error_iff) hread hcause

end

/-! ## Values -/

theorem cause_of_wholePart {s : Bytes} {fault : Fault} (h : wholePart s = .error fault) :
    fault.cause = .invalidNumber := by
  cases s with
  | nil =>
      cases h
      rfl
  | cons c s =>
      rw [wholePart] at h
      split at h
      · cases h
      split at h
      · cases h
        rfl
      · cases h

theorem cause_of_fractionPart {s : Bytes} {fault : Fault} (h : fractionPart s = .error fault) :
    fault.cause = .expectedFractionDigit := by
  cases s with
  | nil => cases h
  | cons c s =>
      rw [fractionPart] at h
      split at h
      · split at h
        · cases h
          rfl
        · cases h
      · cases h

theorem cause_of_exponentPart {s : Bytes} {fault : Fault} (h : exponentPart s = .error fault) :
    fault.cause = .expectedExponentDigit := by
  cases s with
  | nil => cases h
  | cons c s =>
      rw [exponentPart] at h
      split at h
      · generalize exponentSign s = o at h
        simp only at h
        split at h
        · cases h
          rfl
        · cases h
      · cases h

/-- The faults of a number are those of its parts. -/
theorem cause_mem_of_number {s : Bytes} {fault : Fault} (h : number s = .error fault) :
    fault.cause ∈ [Cause.invalidNumber, .expectedFractionDigit, .expectedExponentDigit] := by
  rw [number] at h
  generalize numberSign s = o at h
  simp only [bind, Except.bind] at h
  split at h
  · next hwhole =>
      cases h
      rw [cause_of_wholePart hwhole]
      decide
  split at h
  · next hfraction =>
      cases h
      rw [cause_of_fractionPart hfraction]
      decide
  split at h
  · next hexponent =>
      cases h
      rw [cause_of_exponentPart hexponent]
      decide
  · cases h

/-- None of them is about one byte. -/
theorem cause_of_number {s : Bytes} {fault : Fault} (h : number s = .error fault) : fault.cause ∉ Cause.atByte := by
  have hcause := cause_mem_of_number h
  revert hcause
  generalize fault.cause = cause
  revert cause
  decide

theorem value_refused {n : Nat} (h : Steady (value n) (Denotes n) (Denotes (n + 1))) {s : Bytes} {fault : Fault}
    (hread : value (n + 1) s = .error fault) (hcause : fault.cause ∈ Cause.atByte) :
    RefusedAtByte (value (n + 1)) (Denotes (n + 2)) fault.cause s := by
  cases s with
  | nil =>
      cases hread
      exact absurd hcause (show Cause.endOfInput ∉ Cause.atByte by decide)
  | cons c s =>
      rw [value] at hread
      split at hread
      · next hc =>
          subst hc
          obtain ⟨pre, suf, rfl, ⟨t, entries, ht⟩, hrefuses⟩ := object_refused h hread hcause
          have hvalue : Denotes (n + 2) _ _ := ValueText.object ht (lastWins_iff.mpr rfl)
          refine ⟨[Bytes.openBrace] ++ pre, suf, rfl, ⟨t ++ [Bytes.closeBrace], _, by simpa using hvalue⟩, ?_⟩
          refine hrefuses.after fun s fault _ hfault => ?_
          rwa [List.singleton_append, value, if_pos rfl]
      split at hread
      · next hc =>
          subst hc
          obtain ⟨pre, suf, rfl, ⟨t, items, ht⟩, hrefuses⟩ := array_refused h hread hcause
          have hvalue : Denotes (n + 2) _ _ := ValueText.array ht
          refine ⟨[Bytes.openBracket] ++ pre, suf, rfl, ⟨t ++ [Bytes.closeBracket], _, by simpa using hvalue⟩, ?_⟩
          refine hrefuses.after fun s fault _ hfault => ?_
          rwa [List.singleton_append, value, if_neg (by decide), if_pos rfl]
      split at hread
      · next hc =>
          subst hc
          obtain ⟨pre, text, suf, rfl, ht, hrefuses⟩ := string_refused (map_eq_error_iff.mp hread) hcause
          have hvalue : Denotes (n + 2) _ _ := ValueText.string (.quoted ht)
          refine ⟨[Bytes.quote] ++ pre, suf, rfl, ⟨[Bytes.quote], _, by simpa using hvalue⟩, ?_⟩
          refine hrefuses.after fun s fault _ hfault => ?_
          rw [List.singleton_append, value, if_neg (by decide), if_neg (by decide), if_pos rfl, hfault]
          rfl
      split at hread
      · exact absurd hcause (cause_of_number (map_eq_error_iff.mp hread))
      split at hread
      · cases hread
      · cases hread
        exact absurd hcause
          (show Cause.unexpectedCharacter c ∉ Cause.atByte by simp [Cause.atByte, Cause.inFront, Cause.behind])

/-- **Values are read by single bytes**, by induction on the levels that are left. -/
theorem steady_value (n : Nat) : Steady (value n) (Denotes n) (Denotes (n + 1)) := by
  induction n with
  | zero =>
      refine ⟨reads_value 0, local_value 0, nofun, ⟨_, _, ValueText.null⟩, ?_⟩
      intro s fault hread hcause
      cases hread
      exact absurd hcause (show Cause.tooDeep ∉ Cause.atByte by decide)
  | succ n ih =>
      exact ⟨reads_value (n + 1), local_value (n + 1), denotes_mono (Nat.le_succ _), ⟨_, _, ValueText.null⟩,
        value_refused ih⟩

end Parser

end ModRepair.Json
