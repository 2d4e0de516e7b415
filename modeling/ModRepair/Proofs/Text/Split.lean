import Mathlib.Data.List.TakeWhile
import ModRepair.Text.Bytes

/-!
# Texts taken apart

What the two ways of splitting a text at a separator give: at the first one (`splitFirst?_eq_some_iff`,
`splitFirst?_eq_none_iff`, and `splitFirst?_eq_map_idxOf?` by positions) and at each of them (`splitAll_eq_splitOn`, and
`splitAll_append_cons` for a text with a known separator); and what comes before the first zero byte (`untilZero_append`).
-/

namespace ModRepair.Bytes

/-- The first separator splits a text into a part without one and the rest. -/
theorem splitFirst?_eq_some_iff {sep : UInt8} {s l r : Bytes} :
    splitFirst? sep s = some (l, r) ↔ sep ∉ l ∧ s = l ++ sep :: r := by
  induction s generalizing l with
  | nil => simp [splitFirst?]
  | cons c s ih =>
      unfold splitFirst?
      split
      · next hc =>
          subst hc
          cases l with
          | nil => simp [eq_comm]
          | cons d l => simp +contextual [eq_comm]
      · next hc =>
          rw [Option.map_eq_some_iff]
          constructor
          · rintro ⟨⟨l', r'⟩, hsplit, heq⟩
            cases heq
            obtain ⟨hl, rfl⟩ := ih.mp hsplit
            exact ⟨by simp [hl, Ne.symm hc], rfl⟩
          · rintro ⟨hl, heq⟩
            cases l with
            | nil => exact absurd (List.cons.inj heq).1 hc
            | cons d l =>
                obtain ⟨rfl, rfl⟩ := List.cons.inj heq
                exact ⟨(l, r), ih.mpr ⟨fun h => hl (List.mem_cons_of_mem _ h), rfl⟩, rfl⟩

theorem splitFirst?_eq_none_iff {sep : UInt8} {s : Bytes} : splitFirst? sep s = none ↔ sep ∉ s := by
  induction s with
  | nil => simp [splitFirst?]
  | cons c s ih =>
      unfold splitFirst?
      split
      · next hc => simp [hc]
      · next hc => simp [ih, Ne.symm hc]

/-- The parts by their positions: the separator stands at the first position that holds one. -/
theorem splitFirst?_eq_map_idxOf? (sep : UInt8) (s : Bytes) :
    splitFirst? sep s = (s.idxOf? sep).map fun k => (s.take k, s.drop (k + 1)) := by
  induction s with
  | nil => rfl
  | cons c s ih =>
      rw [splitFirst?, List.idxOf?_cons, ih]
      by_cases hc : c = sep
      · simp [hc]
      · simp [hc, Function.comp_def]

/-- **A text is split at every separator.** -/
theorem splitAll_eq_splitOn (sep : UInt8) (s : Bytes) : splitAll sep s = s.splitOn sep := by
  induction s with
  | nil => rfl
  | cons c s ih =>
      rw [splitAll, ih, List.splitOn_cons_eq_if_modifyHead]
      obtain ⟨part, parts, hparts⟩ := List.exists_cons_of_ne_nil (List.splitOn_ne_nil sep s)
      rw [hparts]
      by_cases hc : c = sep
      · simp [hc]
      · simp [hc]

theorem splitAll_ne_nil (sep : UInt8) (s : Bytes) : splitAll sep s ≠ [] := by
  rw [splitAll_eq_splitOn]
  exact List.splitOn_ne_nil sep s

/-- A text without a separator stays in one piece. -/
theorem splitAll_of_not_mem {sep : UInt8} {s : Bytes} (h : sep ∉ s) : splitAll sep s = [s] := by
  induction s with
  | nil => rfl
  | cons c s ih =>
      obtain ⟨hc, hs⟩ := not_or.mp (List.mem_cons.not.mp h)
      rw [splitAll, ih hs]
      simp only
      rw [if_neg (Ne.symm hc)]

/-- What is on both sides of a separator is split by itself. -/
theorem splitAll_append_cons (sep : UInt8) (s t : Bytes) :
    splitAll sep (s ++ sep :: t) = splitAll sep s ++ splitAll sep t := by
  induction s with
  | nil =>
      obtain ⟨part, parts, hparts⟩ := List.exists_cons_of_ne_nil (splitAll_ne_nil sep t)
      simp [splitAll, hparts]
  | cons c s ih =>
      obtain ⟨part, parts, hparts⟩ := List.exists_cons_of_ne_nil (splitAll_ne_nil sep s)
      rw [List.cons_append, splitAll, splitAll, ih, hparts]
      simp only [List.cons_append]
      split <;> rfl

/-! ## Zero bytes -/

theorem untilZero_of_not_mem {s : Bytes} (h : 0 ∉ s) : untilZero s = s := by
  refine List.takeWhile_eq_self_iff.mpr fun c hc => bne_iff_ne.mpr ?_
  rintro rfl
  exact h hc

/-- A text without a zero byte is kept whole in front of another. -/
theorem untilZero_append {s : Bytes} (h : 0 ∉ s) (t : Bytes) : untilZero (s ++ t) = s ++ untilZero t := by
  refine List.takeWhile_append_of_pos fun c hc => bne_iff_ne.mpr ?_
  rintro rfl
  exact h hc

theorem untilZero_subset (s : Bytes) : untilZero s ⊆ s :=
  List.takeWhile_prefix _ |>.subset

end ModRepair.Bytes
