import Mathlib.Data.Fintype.EquivFin
import ModRepair.Proofs.Log.LastWord
import ModRepair.Proofs.Log.QuickTest
import ModRepair.Proofs.Text.Split

/-!
# What a filter specification means

A specification is read token by token, each of which puts a threshold into the filter. What it comes to is said of the
tokens alone: of those that name a tag the last counts, else of those for all other tags the last, and if there are none
of either the threshold that tags share is what it was before. Thresholds that tags had of their own are gone.

* `Sets`, `applyToken_of_sets` — what a token sets, for a tag or for all tags that have nothing of their own;
* `Threshold`, `threshold_parse_iff` — **the threshold of a tag**, and that the filter has it;
* `exists_threshold_eq_lowest` — some tag has the least threshold, for there is always a tag that no filter lists;
* `specification_meaning` — **which records pass** after a specification, and which levels pass for any tag at all.
-/

namespace ModRepair

/-- There is always one more key. -/
theorem Dictionary.exists_get?_eq_none {α : Type} (d : Dictionary α) : ∃ key, get? key d = none := by
  obtain ⟨key, hkey⟩ := Infinite.exists_notMem_finset (d.map Prod.fst).toFinset
  refine ⟨key, Option.eq_none_iff_forall_ne_some.mpr fun value hvalue => hkey ?_⟩
  exact List.mem_toFinset.mpr (List.mem_map.mpr ⟨_, mem_of_get? hvalue, rfl⟩)

namespace Log

theorem Level.le_antisymm {a b : Level} (h : a ≤ b) (h' : b ≤ a) : a = b := by
  revert h h'
  cases a <;> cases b <;> decide

namespace Filter

variable {f : Filter} {spec tag token : Bytes} {target : Option Bytes} {level : Level}

/-! ## Tokens -/

/-- What a token sets: the threshold of a tag, or that of all tags without one of their own. -/
inductive Sets : Option Bytes → Bytes → Level → Prop
  /-- A tag, an equals sign and a level. What stands before the first equals sign is the tag. -/
  | own {tag level : Bytes} (hequals : Bytes.equals ∉ tag) (hstar : tag ≠ ascii "*") :
      Sets (some tag) (tag ++ Bytes.equals :: level) (.ofName level)
  /-- A star in the place of the tag. -/
  | shared {level : Bytes} : Sets none (ascii "*" ++ Bytes.equals :: level) (.ofName level)
  /-- A tag alone, be it a star: everything passes. -/
  | everything {tag : Bytes} (hequals : Bytes.equals ∉ tag) (hne : tag ≠ []) : Sets (some tag) tag .trace

/-- The filter with a threshold put in. -/
def put (f : Filter) : Option Bytes → Level → Filter
  | some tag, level => { f with overrides := Dictionary.insert tag level f.overrides }
  | none, level => { f with fallback := level }

/-- **A token puts in what it sets.** -/
theorem applyToken_of_sets (h : Sets target token level) : f.applyToken token = f.put target level := by
  cases h with
  | own hequals hstar =>
      rw [applyToken, Bytes.splitFirst?_eq_some_iff.mpr ⟨hequals, rfl⟩]
      exact if_neg hstar
  | shared =>
      have hequals : Bytes.equals ∉ ascii "*" := by decide
      rw [applyToken, Bytes.splitFirst?_eq_some_iff.mpr ⟨hequals, rfl⟩]
      exact if_pos rfl
  | everything hequals hne =>
      rw [applyToken, Bytes.splitFirst?_eq_none_iff.mpr hequals]
      exact if_neg fun hempty => hne (List.isEmpty_iff.mp hempty)

/-- Only the empty token sets nothing, and it leaves the filter alone. -/
theorem sets_or_applyToken_eq_self (f : Filter) (token : Bytes) :
    (∃ target level, Sets target token level) ∨ f.applyToken token = f := by
  cases hsplit : Bytes.splitFirst? Bytes.equals token with
  | some parts =>
      obtain ⟨tag, level⟩ := parts
      obtain ⟨hequals, rfl⟩ := Bytes.splitFirst?_eq_some_iff.mp hsplit
      by_cases hstar : tag = ascii "*"
      · subst hstar
        exact .inl ⟨_, _, .shared⟩
      · exact .inl ⟨_, _, .own hequals hstar⟩
  | none =>
      by_cases hempty : token = []
      · subst hempty
        exact .inr rfl
      · exact .inl ⟨_, _, .everything (Bytes.splitFirst?_eq_none_iff.mp hsplit) hempty⟩

/-! ## What is left after all tokens -/

/-- The threshold that a tag has of its own. -/
def own? (tag : Bytes) (f : Filter) : Option Level :=
  Dictionary.get? tag f.overrides

theorem own?_put : own? tag (f.put target level) = if target = some tag then some level else own? tag f := by
  cases target with
  | none => simp [own?, put]
  | some key => simp [own?, put, Dictionary.get?_insert]

theorem fallback_put : (f.put target level).fallback = if target = none then level else f.fallback := by
  cases target <;> rfl

theorem own?_applyToken (f : Filter) (token : Bytes) (h : ∀ level, ¬ Sets (some tag) token level) :
    own? tag (f.applyToken token) = own? tag f := by
  rcases sets_or_applyToken_eq_self f token with ⟨target, level, hsets⟩ | hself
  · have hother : target ≠ some tag := by
      rintro rfl
      exact h level hsets
    rw [applyToken_of_sets hsets, own?_put, if_neg hother]
  · rw [hself]

theorem fallback_applyToken (f : Filter) (token : Bytes) (h : ∀ level, ¬ Sets none token level) :
    (f.applyToken token).fallback = f.fallback := by
  rcases sets_or_applyToken_eq_self f token with ⟨target, level, hsets⟩ | hself
  · have hother : target ≠ none := by
      rintro rfl
      exact h level hsets
    rw [applyToken_of_sets hsets, fallback_put, if_neg hother]
  · rw [hself]

theorem parse_eq (f : Filter) (spec : Bytes) :
    f.parse spec = (spec.splitOn Bytes.comma).foldl applyToken { f with overrides := [] } := by
  rw [parse, Bytes.splitAll_eq_splitOn]

theorem own?_parse_of_lastWord (h : LastWord (Sets (some tag)) (spec.splitOn Bytes.comma) level) :
    own? tag (f.parse spec) = some level := by
  rw [parse_eq]
  refine foldl_of_lastWord some (fun f token level hsets => ?_) own?_applyToken h _
  rw [applyToken_of_sets hsets, own?_put, if_pos rfl]

theorem own?_parse_of_silent (h : Silent (Sets (some tag)) (spec.splitOn Bytes.comma)) :
    own? tag (f.parse spec) = none := by
  rw [parse_eq, foldl_of_silent own?_applyToken h]
  rfl

theorem fallback_parse_of_lastWord (h : LastWord (Sets none) (spec.splitOn Bytes.comma) level) :
    (f.parse spec).fallback = level := by
  rw [parse_eq]
  refine foldl_of_lastWord (fun level => level) (fun f token level hsets => ?_) fallback_applyToken h _
  rw [applyToken_of_sets hsets, fallback_put, if_pos rfl]

theorem fallback_parse_of_silent (h : Silent (Sets none) (spec.splitOn Bytes.comma)) :
    (f.parse spec).fallback = f.fallback := by
  rw [parse_eq, foldl_of_silent fallback_applyToken h]

/-! ## Thresholds -/

/-- The threshold that tokens give a tag, where `prior` is what tags shared before. -/
inductive Threshold (prior : Level) (tokens : List Bytes) (tag : Bytes) : Level → Prop
  /-- Of the tokens that name the tag the last counts, -/
  | own {level : Level} (h : LastWord (Sets (some tag)) tokens level) : Threshold prior tokens tag level
  /-- without any, of those for all tags that are not named the last, -/
  | shared {level : Level} (hown : Silent (Sets (some tag)) tokens) (h : LastWord (Sets none) tokens level) :
      Threshold prior tokens tag level
  /-- and without any of those either, what was shared before. -/
  | prior (hown : Silent (Sets (some tag)) tokens) (hshared : Silent (Sets none) tokens) :
      Threshold prior tokens tag prior

theorem exists_threshold (prior : Level) (tokens : List Bytes) (tag : Bytes) :
    ∃ level, Threshold prior tokens tag level := by
  rcases silent_or_lastWord (Sets (some tag)) tokens with hown | ⟨level, hown⟩
  · rcases silent_or_lastWord (Sets none) tokens with hshared | ⟨level, hshared⟩
    · exact ⟨prior, .prior hown hshared⟩
    · exact ⟨level, .shared hown hshared⟩
  · exact ⟨level, .own hown⟩

theorem threshold_parse (h : Threshold f.fallback (spec.splitOn Bytes.comma) tag level) :
    (f.parse spec).threshold tag = level := by
  show (own? tag (f.parse spec)).getD (f.parse spec).fallback = level
  cases h with
  | own h =>
      rw [own?_parse_of_lastWord h]
      rfl
  | shared hown h =>
      rw [own?_parse_of_silent hown]
      exact fallback_parse_of_lastWord h
  | prior hown hshared =>
      rw [own?_parse_of_silent hown]
      exact fallback_parse_of_silent hshared

/-- **The filter has the thresholds that the tokens give.** -/
theorem threshold_parse_iff :
    Threshold f.fallback (spec.splitOn Bytes.comma) tag level ↔ (f.parse spec).threshold tag = level :=
  iff_eq_of_exists (fun _ => threshold_parse) (exists_threshold f.fallback (spec.splitOn Bytes.comma) tag)

/-- A level is the threshold of a tag if the levels from there on are those that the tag passes with. -/
theorem threshold_eq_iff : f.threshold tag = level ↔ ∀ l, f.accepts l tag = true ↔ level ≤ l := by
  simp only [accepts_iff]
  constructor
  · rintro rfl l
    rfl
  · intro h
    exact Level.le_antisymm ((h level).mpr (Level.le_refl level)) ((h _).mp (Level.le_refl _))

/-! ## The least threshold -/

theorem ascending_put (h : f.overrides.Ascending) : (f.put target level).overrides.Ascending := by
  cases target with
  | none => exact h
  | some tag => exact Dictionary.Ascending.insert h

/-- A specification leaves thresholds in order, whatever there was before. -/
theorem ascending_parse (f : Filter) (spec : Bytes) : (f.parse spec).overrides.Ascending := by
  have hkeeps : ∀ (tokens : List Bytes) (f : Filter), f.overrides.Ascending →
      (tokens.foldl applyToken f).overrides.Ascending := by
    intro tokens
    induction tokens with
    | nil => exact fun f h => h
    | cons token tokens ih =>
        intro f h
        refine ih (f.applyToken token) ?_
        rcases sets_or_applyToken_eq_self f token with ⟨target, level, hsets⟩ | hself
        · rw [applyToken_of_sets hsets]
          exact ascending_put h
        · rwa [hself]
  rw [parse_eq]
  exact hkeeps _ _ List.Pairwise.nil

theorem foldl_least_mem (fallback : Level) (overrides : Dictionary Level) :
    overrides.foldl (fun least e => least.least e.2) fallback = fallback ∨
      ∃ e ∈ overrides, overrides.foldl (fun least e => least.least e.2) fallback = e.2 := by
  induction overrides generalizing fallback with
  | nil => exact .inl rfl
  | cons e overrides ih =>
      rw [List.foldl_cons]
      rcases ih (fallback.least e.2) with h | ⟨e', he', h⟩
      · rw [h, Level.least]
        split
        · exact .inl rfl
        · exact .inr ⟨e, List.mem_cons_self .., rfl⟩
      · exact .inr ⟨e', List.mem_cons_of_mem e he', h⟩

/-- **Some tag has the least threshold**: a tag that is listed with it, or any that is not listed. -/
theorem exists_threshold_eq_lowest (h : f.overrides.Ascending) : ∃ tag, f.threshold tag = f.lowest := by
  rcases foldl_least_mem f.fallback f.overrides with hlowest | ⟨e, he, hlowest⟩
  · obtain ⟨tag, htag⟩ := Dictionary.exists_get?_eq_none f.overrides
    refine ⟨tag, ?_⟩
    rw [threshold, htag]
    exact hlowest.symm
  · refine ⟨e.1, ?_⟩
    rw [threshold, Dictionary.Ascending.get?_of_mem h he]
    exact hlowest.symm

theorem lowest_le_iff (h : f.overrides.Ascending) : f.lowest ≤ level ↔ ∃ tag, f.accepts level tag = true := by
  simp only [accepts_iff]
  constructor
  · intro hlevel
    obtain ⟨tag, htag⟩ := exists_threshold_eq_lowest h
    exact ⟨tag, htag ▸ hlevel⟩
  · rintro ⟨tag, htag⟩
    exact Level.le_trans (f.lowest_le_threshold tag) htag

end Filter

/-- **What a specification means.** After any filter has taken a specification, the levels from a threshold on are those
that a tag passes with exactly if it is the threshold that the tokens between the commas give the tag, and the thresholds
of tags are in order. And in any filter in which they are, a level is at or above the least threshold exactly if some tag
passes with it. -/
theorem specification_meaning (f : Filter) :
    (∀ spec tag threshold, Filter.Threshold f.fallback (spec.splitOn Bytes.comma) tag threshold ↔
      ∀ level, (f.parse spec).accepts level tag = true ↔ threshold ≤ level) ∧
    (∀ spec, (f.parse spec).overrides.Ascending) ∧
    (f.overrides.Ascending → ∀ level, f.lowest ≤ level ↔ ∃ tag, f.accepts level tag = true) := by
  refine ⟨fun spec tag threshold => ?_, f.ascending_parse, fun h level => Filter.lowest_le_iff h⟩
  exact Filter.threshold_parse_iff.trans Filter.threshold_eq_iff

/-- A tag that is named twice, a star and an empty token, after another specification: that one is forgotten, and the
later of the two levels of the tag is the least that passes for any tag. -/
theorem specification_meaning_sample :
    let f := Filter.initial.parse (ascii "registry=trace,*=warn")
    let spec := ascii "cil=off,*=fatal,,cil=error"
    Filter.Threshold f.fallback (spec.splitOn Bytes.comma) (ascii "registry") .fatal ∧
      (f.parse spec).overrides.Ascending ∧ (∃ tag, (f.parse spec).accepts .error tag = true) ∧
      ¬ ∃ tag, (f.parse spec).accepts .warn tag = true := by
  intro f spec
  obtain ⟨hmeaning, hascending, -⟩ := specification_meaning f
  have hlowest := (specification_meaning (f.parse spec)).2.2 (hascending spec)
  refine ⟨?_, hascending spec, ?_, ?_⟩
  · refine (hmeaning spec (ascii "registry") .fatal).mpr fun level => ?_
    cases level <;> decide
  · exact (hlowest .error).mp (by decide)
  · exact mt (hlowest .warn).mpr (by decide)

end Log

end ModRepair
