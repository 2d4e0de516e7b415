import ModRepair.Proofs.Metadata.Written

/-!
# The text of type references

Whatever names a type in a module, a host or a profile goes through `TypeRef.text` and `TypeRef.ofText?`. The two are
inverse to each other on the references that can be written and the texts that spell one, and on nothing else.

* `TypeRef.Spells`, `TypeRef.spells_iff` — **the written form**, said of a text and its two parts;
* `TypeRef.readByPosition`, `TypeRef.readByPosition_eq` — the reader once more, by the position of the first closing
  bracket. Such a reader can go wrong in a way of its own, by a position outside of the text; it never does, however
  short the text is and wherever its brackets stand;
* `TypeRef.text_exact_codec` — **both directions**, for all texts and all references.
-/

namespace ModRepair

namespace TypeRef

/-! ## The written form -/

/-- A text made of an opening bracket, a scope, the first closing bracket and a name, where neither part is empty. -/
structure Spells (s scope fullName : Bytes) : Prop where
  parts : s = Bytes.openBracket :: scope ++ Bytes.closeBracket :: fullName
  scope_ne_nil : scope ≠ []
  not_mem_scope : Bytes.closeBracket ∉ scope
  fullName_ne_nil : fullName ≠ []

/-- A text spells the references that can be written and have this text. -/
theorem spells_iff {s : Bytes} {r : TypeRef} : Spells s r.scope r.fullName ↔ r.Written ∧ r.text = s := by
  constructor
  · rintro ⟨hparts, hscope, hclosed, hname⟩
    exact ⟨⟨hscope, hclosed, hname⟩, hparts.symm⟩
  · rintro ⟨⟨hscope, hclosed, hname⟩, htext⟩
    exact ⟨htext.symm, hscope, hclosed, hname⟩

/-! ## Positions -/

/-- The part of a text from a position on, of at most some length, if the position is not behind the end. -/
def part? (s : Bytes) (start length : Nat) : Option Bytes :=
  if start ≤ s.length then some ((s.drop start).take length) else none

/-- The reader by positions: there is no answer at all if one outside of the text has been used. -/
def readByPosition (s : Bytes) : Option (Option TypeRef) :=
  if s.length < 3 then some none
  else do
    let first ← s[0]?
    if first ≠ Bytes.openBracket then some none
    else
      match s.idxOf? Bytes.closeBracket with
      | none => some none
      | some close =>
        if close = 1 ∨ s.length ≤ close + 1 then some none
        else do
          let scope ← part? s 1 (close - 1)
          let fullName ← part? s (close + 1) s.length
          some (some ⟨scope, fullName⟩)

/-- Behind an opening bracket the reader looks for the first closing one, which must leave room for both parts. -/
theorem ofText?_openBracket_cons (s : Bytes) :
    ofText? (Bytes.openBracket :: s) =
      (s.idxOf? Bytes.closeBracket).bind fun k =>
        if k = 0 ∨ s.length ≤ k + 1 then none else some ⟨s.take k, s.drop (k + 1)⟩ := by
  rw [ofText?, if_pos rfl, Bytes.splitFirst?_eq_map_idxOf?]
  cases hk : s.idxOf? Bytes.closeBracket with
  | none => rfl
  | some k =>
      have hlt : k < s.length := (List.idxOf?_eq_some_iff.mp hk).1
      have hscope : s.take k = [] ↔ k = 0 :=
        List.take_eq_nil_iff.trans (or_iff_left (List.ne_nil_of_length_pos (Nat.zero_lt_of_lt hlt)))
      simp only [Option.map_some, Option.bind_some, hscope, List.drop_eq_nil_iff]

/-- The parts on both sides of a closing bracket, one position later than without the opening bracket in front. -/
theorem parts_of_room {s : Bytes} {k : Nat} (hk : k + 1 < s.length) :
    part? (Bytes.openBracket :: s) 1 k = some (s.take k) ∧
      part? (Bytes.openBracket :: s) (k + 2) (s.length + 1) = some (s.drop (k + 1)) := by
  constructor
  · exact if_pos (Nat.le_add_left ..)
  · rw [part?, if_pos (by rw [List.length_cons]; omega), List.drop_succ_cons,
      List.take_of_length_le (by rw [List.length_drop]; omega)]

/-- **No position outside of the text is used**, and the reader by positions is the reader. -/
theorem readByPosition_eq (s : Bytes) : readByPosition s = some (ofText? s) := by
  cases s with
  | nil => rfl
  | cons c s =>
      by_cases hc : c = Bytes.openBracket
      · subst hc
        rw [ofText?_openBracket_cons, readByPosition, List.idxOf?_cons]
        cases hk : s.idxOf? Bytes.closeBracket with
        | none => split <;> rfl
        | some k =>
            have hlt : k < s.length := (List.idxOf?_eq_some_iff.mp hk).1
            rw [Option.bind_some, List.length_cons]
            split
            · -- A text of less than three bytes has no room for both parts either.
              rw [if_pos (by omega)]
            · show (if k + 1 = 1 ∨ s.length + 1 ≤ k + 1 + 1 then some none else _) = _
              simp only [Nat.add_eq_right, Nat.add_le_add_iff_right]
              split
              · rfl
              · next hroom =>
                  obtain ⟨hscope, hname⟩ := parts_of_room (Nat.lt_of_not_le (not_or.mp hroom).2)
                  show (part? (Bytes.openBracket :: s) 1 k >>= fun scope =>
                    part? (Bytes.openBracket :: s) (k + 2) (s.length + 1) >>= fun fullName =>
                      some (some (TypeRef.mk scope fullName))) = _
                  rw [hscope, hname]
                  rfl
      · rw [ofText?, if_neg hc, readByPosition]
        split
        · rfl
        · show (if c ≠ Bytes.openBracket then some none else _) = _
          rw [if_pos hc]

/-! ## Both directions -/

/-- **The text of a type reference is an exact codec.** The reader never looks outside of the text. It accepts a text
    if and only if this is an opening bracket, a scope that is not empty and has no closing bracket, a closing bracket
    and a name that is not empty; the reference it then gives has these two parts and is written as the same text. In
    the other direction, a reference reads back from its text if and only if it has a scope without a closing bracket
    and a name; the text of any other reads as something else, or not at all. -/
theorem text_exact_codec :
    (∀ s : Bytes, readByPosition s = some (ofText? s)) ∧
      (∀ s : Bytes, (ofText? s).isSome = true ↔ ∃ scope fullName, Spells s scope fullName) ∧
      (∀ s scope fullName : Bytes, Spells s scope fullName →
        ∃ r, ofText? s = some r ∧ r.scope = scope ∧ r.fullName = fullName ∧ r.text = s) ∧
      ∀ r : TypeRef, ofText? r.text = some r ↔ r.scope ≠ [] ∧ Bytes.closeBracket ∉ r.scope ∧ r.fullName ≠ [] := by
  have hread : ∀ (s : Bytes) (r : TypeRef), ofText? s = some r ↔ Spells s r.scope r.fullName := fun s r =>
    ofText?_eq_some_iff.trans spells_iff.symm
  refine ⟨readByPosition_eq, fun s => ?_, fun s scope fullName hs => ?_, fun r => ?_⟩
  · rw [Option.isSome_iff_exists]
    constructor
    · rintro ⟨r, hr⟩
      exact ⟨r.scope, r.fullName, (hread s r).mp hr⟩
    · rintro ⟨scope, fullName, hs⟩
      exact ⟨⟨scope, fullName⟩, (hread s ⟨scope, fullName⟩).mpr hs⟩
  · exact ⟨⟨scope, fullName⟩, (hread s ⟨scope, fullName⟩).mpr hs, rfl, rfl, hs.parts.symm⟩
  · rw [ofText?_eq_some_iff, and_iff_left rfl]
    rfl

/-- A name may hold brackets of both kinds, and is then read whole; with a closing one in the scope the text is that of
    another reference. -/
theorem text_exact_codec_brackets :
    Spells (ascii "[a]]b[c]") (ascii "a") (ascii "]b[c]") ∧
      (∃ r, ofText? (ascii "[a]]b[c]") = some r ∧ r.scope = ascii "a" ∧ r.fullName = ascii "]b[c]" ∧
        r.text = ascii "[a]]b[c]") ∧
      ofText? (text ⟨ascii "a]", ascii "b[c]"⟩) ≠ some ⟨ascii "a]", ascii "b[c]"⟩ := by
  obtain ⟨-, -, hparts, hback⟩ := text_exact_codec
  have hspells : Spells (ascii "[a]]b[c]") (ascii "a") (ascii "]b[c]") := ⟨rfl, by decide, by decide, by decide⟩
  exact ⟨hspells, hparts _ _ _ hspells, fun h => ((hback _).mp h).2.1 (by decide)⟩

end TypeRef

end ModRepair
