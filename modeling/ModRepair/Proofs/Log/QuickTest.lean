import ModRepair.Log.Logger
import ModRepair.Proofs.Text.Dictionary

/-!
# The quick test and the filter

A logger asks its own level before it asks its filter. The quick test is harmless while the level is at or below every
threshold of the filter. A configuration and a new specification see to that; a new level does not: it replaces the
level and the threshold that tags share, and leaves alone the thresholds that tags have of their own.

* `Filter.le_lowest_iff` — the least threshold is the infimum of all of them;
* `Logger.Guarded`, `Logger.wants_of_guarded` — **the invariant**, and that the quick test hides nothing under it;
* `guarded_after` — the invariant holds after any changes of which the last is not a new level;
* `wants_ne_accepts_iff` — **exactly which records are hidden** after any changes;
* `new_level_hides_override` — a record that is hidden.
-/

namespace ModRepair.Log

/-! ## Levels -/

namespace Level

variable {a b c : Level}

theorem le_refl (a : Level) : a ≤ a :=
  Nat.le_refl a.rank

theorem le_trans (h : a ≤ b) (h' : b ≤ c) : a ≤ c :=
  Nat.le_trans (m := b.rank) h h'

theorem le_of_not_le (h : ¬ a ≤ b) : b ≤ a :=
  Nat.le_of_lt (Nat.lt_of_not_le h)

theorem le_least_iff : c ≤ least a b ↔ c ≤ a ∧ c ≤ b := by
  unfold least
  split
  · next h => exact ⟨fun hc => ⟨hc, le_trans hc h⟩, And.left⟩
  · next h => exact ⟨fun hc => ⟨le_trans hc (le_of_not_le h), hc⟩, And.right⟩

end Level

/-! ## Thresholds -/

namespace Filter

theorem le_foldl_least_iff {level fallback : Level} {overrides : Dictionary Level} :
    level ≤ overrides.foldl (fun least e => least.least e.2) fallback ↔
      level ≤ fallback ∧ ∀ e ∈ overrides, level ≤ e.2 := by
  induction overrides generalizing fallback with
  | nil => simp
  | cons e overrides ih => rw [List.foldl_cons, ih, Level.le_least_iff, List.forall_mem_cons, and_assoc]

/-- **The least threshold** is at or above what all thresholds are at or above. -/
theorem le_lowest_iff {f : Filter} {level : Level} :
    level ≤ f.lowest ↔ level ≤ f.fallback ∧ ∀ e ∈ f.overrides, level ≤ e.2 :=
  le_foldl_least_iff

theorem lowest_le_threshold (f : Filter) (tag : Bytes) : f.lowest ≤ f.threshold tag := by
  obtain ⟨hfallback, hoverrides⟩ := le_lowest_iff.mp (Level.le_refl f.lowest)
  rw [threshold]
  cases hown : Dictionary.get? tag f.overrides with
  | none => exact hfallback
  | some own => exact hoverrides _ (Dictionary.mem_of_get? hown)

theorem accepts_iff {f : Filter} {level : Level} {tag : Bytes} : f.accepts level tag = true ↔ f.threshold tag ≤ level :=
  decide_eq_true_iff

end Filter

/-! ## The invariant -/

namespace Logger

variable {l : Logger} {level : Level} {tag : Bytes}

/-- The level of the logger is at or below every threshold of its filter. -/
def Guarded (l : Logger) : Prop :=
  l.level ≤ l.filter.lowest

theorem wants_iff : l.wants level tag = true ↔ l.level ≤ level ∧ l.filter.accepts level tag = true := by
  rw [wants, Bool.and_eq_true, decide_eq_true_iff]

/-- A record that the quick test hides is one that the filter accepts, below the level of the logger. -/
theorem wants_ne_iff :
    l.wants level tag ≠ l.filter.accepts level tag ↔ l.filter.accepts level tag = true ∧ ¬ l.level ≤ level := by
  rw [wants]
  cases l.filter.accepts level tag <;> simp

/-- **Under the invariant the quick test hides nothing.** -/
theorem wants_of_guarded (h : l.Guarded) (level : Level) (tag : Bytes) :
    l.wants level tag = l.filter.accepts level tag := by
  refine Decidable.byContradiction fun hne => ?_
  obtain ⟨haccepts, hbelow⟩ := wants_ne_iff.mp hne
  refine hbelow (Level.le_trans h (Level.le_trans (l.filter.lowest_le_threshold tag) ?_))
  exact Filter.accepts_iff.mp haccepts

/-! ## Changes -/

theorem guarded_initial : initial.Guarded :=
  Level.le_refl _

theorem guarded_configured (level : Level) (spec : Bytes) : (configured level spec).Guarded := by
  unfold configured
  dsimp only
  split
  · exact Level.le_refl _
  · exact Level.le_refl _

theorem guarded_setFilter (l : Logger) (spec : Bytes) : (l.setFilter spec).Guarded :=
  (Level.le_least_iff.mp (Level.le_refl _)).1

/-- Sinks are none of the quick test's business. -/
theorem guarded_addSinks (h : l.Guarded) (sinks : List Sink) : (sinks.foldl addSink l).Guarded := by
  induction sinks generalizing l with
  | nil => exact h
  | cons sink sinks ih => exact ih (l := l.addSink sink) h

/-- **What a new level hides**: what a tag accepts below the new level by a threshold of its own. -/
theorem wants_setLevel_ne_iff {new : Level} :
    (l.setLevel new).wants level tag ≠ (l.setLevel new).filter.accepts level tag ↔
      ∃ own, Dictionary.get? tag l.filter.overrides = some own ∧ own ≤ level ∧ ¬ new ≤ level := by
  have hthreshold : (l.setLevel new).filter.threshold tag = (Dictionary.get? tag l.filter.overrides).getD new := rfl
  rw [wants_ne_iff, Filter.accepts_iff, hthreshold]
  show _ ∧ ¬ new ≤ level ↔ _
  cases Dictionary.get? tag l.filter.overrides with
  | none => simp
  | some own => simp

/-- A change of what the logger lets through. -/
inductive Change
  /-- A configuration in place of everything there was: a level, a filter specification or none, and sinks. -/
  | configure (level : Level) (spec : Bytes) (sinks : List Sink)
  | setLevel (level : Level)
  | setFilter (spec : Bytes)
  deriving DecidableEq, Repr

def apply (l : Logger) : Change → Logger
  | .configure level spec sinks => sinks.foldl addSink (configured level spec)
  | .setLevel level => l.setLevel level
  | .setFilter spec => l.setFilter spec

/-- The logger after some changes, the first of them first. -/
def after (changes : List Change) : Logger :=
  changes.foldl apply initial

theorem after_concat (earlier : List Change) (change : Change) :
    after (earlier ++ [change]) = (after earlier).apply change := by
  rw [after, List.foldl_append]
  rfl

/-- **The invariant holds** unless the last change is a new level: every other change establishes it. -/
theorem guarded_after {changes : List Change} (h : ∀ earlier new, changes ≠ earlier ++ [.setLevel new]) :
    (after changes).Guarded := by
  rcases List.eq_nil_or_concat changes with rfl | ⟨earlier, change, rfl⟩
  · exact guarded_initial
  rw [List.concat_eq_append] at h ⊢
  rw [after_concat]
  cases change with
  | configure level spec sinks => exact guarded_addSinks (guarded_configured level spec) sinks
  | setLevel new => exact absurd rfl (h earlier new)
  | setFilter spec => exact guarded_setFilter _ spec

end Logger

/-- **Exactly which records the quick test hides.** After any changes, the logger and its filter disagree on a level and
a tag exactly if the last change is a new level above the one in question, and the tag has a threshold of its own at or
below it. Then the filter accepts what the logger does not want; the converse never happens. -/
theorem wants_ne_accepts_iff (changes : List Logger.Change) (level : Level) (tag : Bytes) :
    let l := Logger.after changes
    (l.wants level tag = true → l.filter.accepts level tag = true) ∧
      (l.wants level tag ≠ l.filter.accepts level tag ↔
        ∃ earlier new own, changes = earlier ++ [.setLevel new] ∧
          Dictionary.get? tag (Logger.after earlier).filter.overrides = some own ∧ own ≤ level ∧ ¬ new ≤ level) := by
  intro l
  refine ⟨fun hwants => (Logger.wants_iff.mp hwants).2, ?_⟩
  by_cases hlast : ∃ earlier new, changes = earlier ++ [.setLevel new]
  · obtain ⟨earlier, new, rfl⟩ := hlast
    have hl : l = (Logger.after earlier).setLevel new := Logger.after_concat earlier (.setLevel new)
    rw [hl, Logger.wants_setLevel_ne_iff]
    constructor
    · rintro ⟨own, hown⟩
      exact ⟨earlier, new, own, rfl, hown⟩
    · rintro ⟨earlier', new', own, heq, hown⟩
      obtain ⟨rfl, hchange⟩ := List.append_inj' heq rfl
      cases hchange
      exact ⟨own, hown⟩
  · have hguarded : l.Guarded := Logger.guarded_after fun earlier new h => hlast ⟨earlier, new, h⟩
    refine iff_of_false (fun hne => hne (Logger.wants_of_guarded hguarded level tag)) ?_
    rintro ⟨earlier, new, own, h, -⟩
    exact hlast ⟨earlier, new, h⟩

/-- A new level hides what the tag `cil` is to let through: the filter accepts a trace, and the logger does not want
it. -/
theorem new_level_hides_override :
    let l := Logger.after [.configure .info [] [], .setFilter (ascii "cil=trace"), .setLevel .error]
    l.filter.accepts .trace (ascii "cil") = true ∧ l.wants .trace (ascii "cil") = false := by
  decide

end ModRepair.Log
