import ModRepair.Text.Bytes

/-!
# The last word

Options and specifications are lists of items of which some say something on a matter, and the last of those counts. What
an item says is a relation, so that an item can say something on one matter and nothing on another.

* `Silent`, `LastWord` — no item says anything, or the last that does says this; `silent_or_lastWord`: it is one of the
  two;
* `foldl_of_silent`, `foldl_of_lastWord` — **a loop that takes each item over what there was is left with the last word**;
* `lastWord_filter_iff` — the items that say nothing can be left out.
-/

namespace ModRepair

section

variable {α β σ γ : Type} {Says : α → β → Prop} {items : List α} {a : α} {b : β}

/-- No item says anything. -/
def Silent (Says : α → β → Prop) (items : List α) : Prop :=
  ∀ a ∈ items, ∀ b, ¬ Says a b

/-- The last of the items that say something says this. -/
def LastWord (Says : α → β → Prop) (items : List α) (b : β) : Prop :=
  ∃ before a after, items = before ++ a :: after ∧ Says a b ∧ Silent Says after

theorem silent_nil : Silent Says [] := nofun

theorem silent_cons_iff : Silent Says (a :: items) ↔ (∀ b, ¬ Says a b) ∧ Silent Says items :=
  List.forall_mem_cons

/-- The last word is with the later items, or with the first one if they are silent. -/
theorem lastWord_cons_iff : LastWord Says (a :: items) b ↔ LastWord Says items b ∨ Says a b ∧ Silent Says items := by
  constructor
  · rintro ⟨before, a', after, heq, hsaid, hsilent⟩
    cases before with
    | nil =>
        obtain ⟨rfl, rfl⟩ := List.cons.inj heq
        exact .inr ⟨hsaid, hsilent⟩
    | cons first before =>
        obtain ⟨-, rfl⟩ := List.cons.inj heq
        exact .inl ⟨before, a', after, rfl, hsaid, hsilent⟩
  · rintro (⟨before, a', after, rfl, hsaid, hsilent⟩ | ⟨hsaid, hsilent⟩)
    · exact ⟨a :: before, a', after, rfl, hsaid, hsilent⟩
    · exact ⟨[], a, items, rfl, hsaid, hsilent⟩

/-- **Either nothing is said or there is a last word.** -/
theorem silent_or_lastWord (Says : α → β → Prop) (items : List α) : Silent Says items ∨ ∃ b, LastWord Says items b := by
  induction items with
  | nil => exact .inl silent_nil
  | cons a items ih =>
      rcases ih with hsilent | ⟨b, hb⟩
      · by_cases ha : ∃ b, Says a b
        · obtain ⟨b, hb⟩ := ha
          exact .inr ⟨b, lastWord_cons_iff.mpr (.inr ⟨hb, hsilent⟩)⟩
        · exact .inl (silent_cons_iff.mpr ⟨not_exists.mp ha, hsilent⟩)
      · exact .inr ⟨b, lastWord_cons_iff.mpr (.inl hb)⟩

/-- A value is told by what holds of nothing else, if that holds of anything. -/
theorem iff_eq_of_exists {P : β → Prop} {value : β} (honly : ∀ b, P b → value = b) (hexists : ∃ b, P b) :
    P b ↔ value = b := by
  constructor
  · exact honly b
  · rintro rfl
    obtain ⟨b, hb⟩ := hexists
    rwa [honly b hb]

/-! ## Loops -/

section

variable {step : σ → α → σ} {field : σ → γ}

/-- What only items that say something change is as it was if none does. -/
theorem foldl_of_silent (keeps : ∀ s a, (∀ b, ¬ Says a b) → field (step s a) = field s) (h : Silent Says items) (s : σ) :
    field (items.foldl step s) = field s := by
  induction items generalizing s with
  | nil => rfl
  | cons a items ih =>
      obtain ⟨ha, hsilent⟩ := silent_cons_iff.mp h
      rw [List.foldl_cons, ih hsilent, keeps s a ha]

/-- **The loop is left with the last word.** -/
theorem foldl_of_lastWord (value : β → γ) (sets : ∀ s a b, Says a b → field (step s a) = value b)
    (keeps : ∀ s a, (∀ b, ¬ Says a b) → field (step s a) = field s) (h : LastWord Says items b) (s : σ) :
    field (items.foldl step s) = value b := by
  obtain ⟨before, a, after, rfl, ha, hsilent⟩ := h
  rw [List.foldl_append, List.foldl_cons, foldl_of_silent keeps hsilent, sets _ _ _ ha]

end

/-! ## Other lists of items -/

section

variable {speaks : α → Bool}

theorem silent_filter_iff (h : ∀ a b, Says a b → speaks a = true) :
    Silent Says (items.filter speaks) ↔ Silent Says items := by
  constructor
  · exact fun hsilent a ha b hb => hsilent a (List.mem_filter.mpr ⟨ha, h a b hb⟩) b hb
  · exact fun hsilent a ha => hsilent a (List.mem_filter.mp ha).1

/-- **Only the items that say something matter.** -/
theorem lastWord_filter_iff (h : ∀ a b, Says a b → speaks a = true) :
    LastWord Says (items.filter speaks) b ↔ LastWord Says items b := by
  induction items with
  | nil => exact Iff.rfl
  | cons a items ih =>
      by_cases ha : speaks a = true
      · rw [List.filter_cons_of_pos ha, lastWord_cons_iff, lastWord_cons_iff, ih, silent_filter_iff h]
      · have hno : ¬ Says a b := fun hsaid => ha (h a b hsaid)
        rw [List.filter_cons_of_neg ha, ih, lastWord_cons_iff]
        simp [hno]

end

end

end ModRepair
