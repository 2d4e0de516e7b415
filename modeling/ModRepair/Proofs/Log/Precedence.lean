import ModRepair.Proofs.Log.Argument
import ModRepair.Proofs.Log.LastWord

/-!
# Which option counts

The arguments are read in one loop, and the environment is asked in the end. What they come to is a matter of
precedence: a level that is given goes before verbosity, verbosity before the environment, and the environment before
what holds by default; among the arguments of one kind the last counts, and the greatest verbosity. So the order between
arguments of different kinds is of no account.

* `Gives` — what an argument gives of one kind; `field_of_lastWord`, `field_of_silent` — **the loop**: what is left of a
  field is the last word on it;
* `Greatest`, `silent_or_greatest` — the greatest verbosity;
* `LevelChosen`, `FilterChosen` — **the order of precedence**, with `levelChosen_iff` and `filterChosen_iff`;
* `SameOrder` — arguments put in another order that keeps the order within each kind;
* `configured_by_precedence` — the configuration follows the order of precedence, and no other order.
-/

namespace ModRepair.Log

variable {args args' : List Bytes} {environment : Option Bytes} {option : LogOption}

/-! ## The loop -/

/-- What an argument gives of a kind of option. -/
def Gives {β : Type} (kind : β → LogOption) (arg : Bytes) (value : β) : Prop :=
  LogOption.Says arg (kind value)

namespace Seen

/-- Takes what an argument says, if anything. -/
def hear (s : Seen) (arg : Bytes) : Seen :=
  match LogOption.ofArgument? arg with
  | some option => s.take option
  | none => s

/-- What has been seen when all arguments are through. -/
def ofArguments (args : List Bytes) : Seen :=
  args.foldl hear nothing

theorem foldl_hear (args : List Bytes) (s : Seen) :
    args.foldl hear s = (args.filterMap LogOption.ofArgument?).foldl take s := by
  induction args generalizing s with
  | nil => rfl
  | cons arg args ih =>
      rw [List.foldl_cons, ih, hear, List.filterMap_cons]
      cases LogOption.ofArgument? arg <;> rfl

theorem hear_of_said {arg : Bytes} (h : LogOption.Says arg option) (s : Seen) : s.hear arg = s.take option := by
  rw [hear, LogOption.ofArgument?_eq_some_iff.mpr h]

theorem hear_of_silent {arg : Bytes} (h : ∀ option, ¬ LogOption.Says arg option) (s : Seen) : s.hear arg = s := by
  have hnone : LogOption.ofArgument? arg = none :=
    Option.eq_none_iff_forall_ne_some.mpr fun option hsome => h option (LogOption.ofArgument?_eq_some_iff.mp hsome)
  rw [hear, hnone]

section

variable {β γ : Type} {kind : β → LogOption} {field : Seen → γ}

/-- No option but those of a kind changes a field. -/
def SetBy (kind : β → LogOption) (field : Seen → γ) : Prop :=
  ∀ s option, (∀ value, option ≠ kind value) → field (take s option) = field s

theorem SetBy.hear (h : SetBy kind field) (s : Seen) (arg : Bytes) (hgives : ∀ value, ¬ Gives kind arg value) :
    field (s.hear arg) = field s := by
  by_cases hsaid : ∃ option, LogOption.Says arg option
  · obtain ⟨option, hsaid⟩ := hsaid
    rw [hear_of_said hsaid]
    refine h s option ?_
    rintro value rfl
    exact hgives value hsaid
  · rw [hear_of_silent (not_exists.mp hsaid)]

/-- A field is as at the start if no option of its kind is given. -/
theorem field_of_silent (h : SetBy kind field) (hsilent : Silent (Gives kind) args) :
    field (ofArguments args) = field nothing :=
  foldl_of_silent h.hear hsilent nothing

/-- **What is left of a field is the last word on it.** -/
theorem field_of_lastWord {value : β} (left : β → γ) (h : SetBy kind field)
    (sets : ∀ s value, field (take s (kind value)) = left value) (hlast : LastWord (Gives kind) args value) :
    field (ofArguments args) = left value := by
  refine foldl_of_lastWord left (fun s arg value hgives => ?_) h.hear hlast nothing
  rw [hear_of_said hgives, sets]

end

/-! ### Levels, filters, files and formats -/

theorem setBy_level : SetBy .level fun s => (s.config.level, s.hasLevel) := by
  intro s option h
  cases option with
  | level level => exact absurd rfl (h level)
  | _ => rfl

theorem setBy_filter : SetBy .filter fun s => (s.config.filterSpec, s.hasFilter) := by
  intro s option h
  cases option with
  | filter spec => exact absurd rfl (h spec)
  | _ => rfl

theorem setBy_file : SetBy .file fun s => s.config.file := by
  intro s option h
  cases option with
  | file path => exact absurd rfl (h path)
  | _ => rfl

theorem setBy_format : SetBy .format fun s => s.config.format := by
  intro s option h
  cases option with
  | format format => exact absurd rfl (h format)
  | _ => rfl

theorem level_of_lastWord {level : Level} (h : LastWord (Gives .level) args level) :
    (ofArguments args).config.level = level ∧ (ofArguments args).hasLevel = true :=
  Prod.mk.inj (field_of_lastWord (fun level => (level, true)) setBy_level (fun _ _ => rfl) h)

theorem level_of_silent (h : Silent (Gives .level) args) :
    (ofArguments args).config.level = .warn ∧ (ofArguments args).hasLevel = false :=
  Prod.mk.inj (field_of_silent setBy_level h)

theorem filter_of_lastWord {spec : Bytes} (h : LastWord (Gives .filter) args spec) :
    (ofArguments args).config.filterSpec = spec ∧ (ofArguments args).hasFilter = true :=
  Prod.mk.inj (field_of_lastWord (fun spec => (spec, true)) setBy_filter (fun _ _ => rfl) h)

theorem filter_of_silent (h : Silent (Gives .filter) args) :
    (ofArguments args).config.filterSpec = [] ∧ (ofArguments args).hasFilter = false :=
  Prod.mk.inj (field_of_silent setBy_filter h)

/-! ### Verbosity -/

theorem verbosity_hear_le_iff (s : Seen) (arg : Bytes) (n : Nat) :
    (s.hear arg).verbosity ≤ n ↔ s.verbosity ≤ n ∧ ∀ m, Gives .verbosity arg m → m ≤ n := by
  by_cases hgives : ∃ amount, Gives .verbosity arg amount
  · obtain ⟨amount, hamount⟩ := hgives
    have honly : ∀ m, Gives .verbosity arg m ↔ m = amount := by
      intro m
      constructor
      · intro hm
        have heq := (LogOption.ofArgument?_eq_some_iff.mpr hm).symm.trans (LogOption.ofArgument?_eq_some_iff.mpr hamount)
        exact LogOption.verbosity.inj (Option.some.inj heq)
      · rintro rfl
        exact hamount
    rw [hear_of_said hamount]
    simp only [honly, forall_eq]
    exact Nat.max_le
  · have hkeeps : SetBy .verbosity verbosity := by
      intro s option h
      cases option with
      | verbosity amount => exact absurd rfl (h amount)
      | _ => rfl
    rw [hkeeps.hear s arg (not_exists.mp hgives)]
    exact (and_iff_left fun m hm => absurd ⟨m, hm⟩ hgives).symm

/-- **The verbosity that is seen** is the least that is at or above all that is given. -/
theorem verbosity_le_iff {n : Nat} :
    (ofArguments args).verbosity ≤ n ↔ ∀ arg ∈ args, ∀ m, Gives .verbosity arg m → m ≤ n := by
  have hfoldl : ∀ s : Seen,
      (args.foldl hear s).verbosity ≤ n ↔ s.verbosity ≤ n ∧ ∀ arg ∈ args, ∀ m, Gives .verbosity arg m → m ≤ n := by
    induction args with
    | nil => simp
    | cons arg args ih =>
        intro s
        rw [List.foldl_cons, ih, verbosity_hear_le_iff, List.forall_mem_cons, and_assoc]
  exact (hfoldl nothing).trans (and_iff_right (Nat.zero_le n))

end Seen

/-- The greatest verbosity that is given. -/
def Greatest (args : List Bytes) (amount : Nat) : Prop :=
  (∃ arg ∈ args, Gives .verbosity arg amount) ∧ ∀ arg ∈ args, ∀ m, Gives .verbosity arg m → m ≤ amount

theorem pos_of_gives_verbosity {arg : Bytes} {amount : Nat} (h : Gives .verbosity arg amount) : 0 < amount := by
  cases h with
  | verbose => exact Nat.zero_lt_one
  | letters n => exact Nat.zero_lt_succ n

theorem verbosity_of_greatest {amount : Nat} (h : Greatest args amount) :
    (Seen.ofArguments args).verbosity = amount := by
  obtain ⟨⟨arg, harg, hgives⟩, hgreatest⟩ := h
  exact Nat.le_antisymm (Seen.verbosity_le_iff.mpr hgreatest)
    (Seen.verbosity_le_iff.mp (Nat.le_refl _) arg harg amount hgives)

theorem verbosity_pos_of_greatest {amount : Nat} (h : Greatest args amount) :
    0 < (Seen.ofArguments args).verbosity := by
  rw [verbosity_of_greatest h]
  obtain ⟨⟨arg, -, hgives⟩, -⟩ := h
  exact pos_of_gives_verbosity hgives

theorem verbosity_of_silent (h : Silent (Gives .verbosity) args) : (Seen.ofArguments args).verbosity = 0 :=
  Nat.le_zero.mp (Seen.verbosity_le_iff.mpr fun arg harg m hm => absurd hm (h arg harg m))

/-- **Either no verbosity is given or there is a greatest one.** -/
theorem silent_or_greatest (args : List Bytes) : Silent (Gives .verbosity) args ∨ ∃ amount, Greatest args amount := by
  have hbound := Seen.verbosity_le_iff.mp (Nat.le_refl (Seen.ofArguments args).verbosity)
  cases hseen : (Seen.ofArguments args).verbosity with
  | zero =>
      rw [hseen] at hbound
      exact .inl fun arg harg m hm => absurd (hbound arg harg m hm) (Nat.not_le.mpr (pos_of_gives_verbosity hm))
  | succ n =>
      rw [hseen] at hbound
      refine .inr ⟨n + 1, ?_, hbound⟩
      -- If nothing gave the bound, a smaller one would do.
      refine Classical.byContradiction fun hnone => ?_
      have hsmaller : (Seen.ofArguments args).verbosity ≤ n := by
        refine Seen.verbosity_le_iff.mpr fun arg harg m hm => ?_
        refine Nat.le_of_lt_succ (Nat.lt_of_le_of_ne (hbound arg harg m hm) ?_)
        rintro rfl
        exact hnone ⟨arg, harg, hm⟩
      omega

/-! ## The environment -/

/-- What a text in the environment says: a filter specification if it has an equals sign or a comma, else a level. -/
inductive FromEnvironment : Option Bytes → LogOption → Prop
  | filter {text : Bytes} (h : Bytes.equals ∈ text ∨ Bytes.comma ∈ text) : FromEnvironment (some text) (.filter text)
  | level {text : Bytes} (hne : text ≠ []) (hequals : Bytes.equals ∉ text) (hcomma : Bytes.comma ∉ text) :
      FromEnvironment (some text) (.level (.ofName text))

namespace Seen

variable {s : Seen}

theorem isFilterSpec_iff {text : Bytes} : isFilterSpec text = true ↔ Bytes.equals ∈ text ∨ Bytes.comma ∈ text := by
  rw [isFilterSpec, Bool.or_eq_true, List.contains_iff_mem, List.contains_iff_mem]

/-- The environment is not asked if the arguments say something of level or filter. -/
theorem withEnvironment_of_given (h : s.hasLevel = true ∨ s.hasFilter = true) :
    s.withEnvironment environment = s.config := by
  rcases h with h | h <;> simp [withEnvironment, h]

/-- What the environment says is taken as if it were given. -/
theorem withEnvironment_of_said (hlevel : s.hasLevel = false) (hfilter : s.hasFilter = false)
    (h : FromEnvironment environment option) : s.withEnvironment environment = (s.take option).config := by
  cases h with
  | @filter text h =>
      have hne : text.isEmpty = false := by
        cases text with
        | nil => simp at h
        | cons => rfl
      simp [withEnvironment, hlevel, hfilter, hne, isFilterSpec_iff.mpr h, take]
  | @level text hne hequals hcomma =>
      have hspec : isFilterSpec text = false :=
        Bool.eq_false_iff.mpr fun h => (isFilterSpec_iff.mp h).elim hequals hcomma
      simp [withEnvironment, hlevel, hfilter, hne, hspec, take]

theorem withEnvironment_of_silent (h : ∀ option, ¬ FromEnvironment environment option) :
    s.withEnvironment environment = s.config := by
  have hempty : environment.getD [] = [] := by
    cases environment with
    | none => rfl
    | some text =>
        refine Classical.byContradiction fun hne => ?_
        by_cases hspec : Bytes.equals ∈ text ∨ Bytes.comma ∈ text
        · exact h _ (.filter hspec)
        · exact h _ (.level hne (not_or.mp hspec).1 (not_or.mp hspec).2)
  simp [withEnvironment, hempty]

/-- The environment has its say or it has not. -/
theorem withEnvironment_cases (s : Seen) (environment : Option Bytes) :
    s.withEnvironment environment = s.config ∨
      ∃ option, FromEnvironment environment option ∧ s.withEnvironment environment = (s.take option).config := by
  by_cases hsaid : ∃ option, FromEnvironment environment option
  · by_cases hgiven : s.hasLevel = true ∨ s.hasFilter = true
    · exact .inl (withEnvironment_of_given hgiven)
    · obtain ⟨option, hsaid⟩ := hsaid
      simp only [not_or, Bool.not_eq_true] at hgiven
      exact .inr ⟨option, hsaid, withEnvironment_of_said hgiven.1 hgiven.2 hsaid⟩
  · exact .inl (withEnvironment_of_silent (not_exists.mp hsaid))

theorem level_withEnvironment (h : ∀ level, ¬ FromEnvironment environment (.level level)) :
    (s.withEnvironment environment).level = s.config.level := by
  rcases withEnvironment_cases s environment with hnot | ⟨option, hsaid, htake⟩
  · rw [hnot]
  · rw [htake]
    cases hsaid with
    | filter => rfl
    | level hne hequals hcomma => exact absurd (.level hne hequals hcomma) (h _)

theorem filterSpec_withEnvironment (h : ∀ spec, ¬ FromEnvironment environment (.filter spec)) :
    (s.withEnvironment environment).filterSpec = s.config.filterSpec := by
  rcases withEnvironment_cases s environment with hnot | ⟨option, hsaid, htake⟩
  · rw [hnot]
  · rw [htake]
    cases hsaid with
    | filter hspec => exact absurd (.filter hspec) (h _)
    | level => rfl

/-! ### What is settled -/

theorem settle_of_hasLevel (h : s.hasLevel = true) : s.settle = s := by
  simp [settle, h]

theorem settle_of_verbosity (hlevel : s.hasLevel = false) (h : 0 < s.verbosity) :
    s.settle = s.take (.level (levelOfVerbosity s.verbosity)) := by
  simp [settle, hlevel, h]

theorem settle_of_not_verbose (h : s.verbosity = 0) : s.settle = s := by
  simp [settle, h]

/-- Settling is about the level and leaves the filter alone. -/
theorem filter_settle (s : Seen) :
    s.settle.config.filterSpec = s.config.filterSpec ∧ s.settle.hasFilter = s.hasFilter := by
  unfold settle
  split
  · exact ⟨rfl, rfl⟩
  · exact ⟨rfl, rfl⟩

/-- What is said of level or verbosity settles the level. -/
theorem hasLevel_settle (h : ¬ (Silent (Gives .level) args ∧ Silent (Gives .verbosity) args)) :
    (ofArguments args).settle.hasLevel = true := by
  rcases silent_or_lastWord (Gives .level) args with hlevel | ⟨level, hlevel⟩
  · rcases silent_or_greatest args with hverbosity | ⟨amount, hgreatest⟩
    · exact absurd ⟨hlevel, hverbosity⟩ h
    · rw [settle_of_verbosity (level_of_silent hlevel).2 (verbosity_pos_of_greatest hgreatest)]
      rfl
  · have hgiven := (level_of_lastWord hlevel).2
    rwa [settle_of_hasLevel hgiven]

end Seen

theorem Config.ofArguments_eq (args : List Bytes) (environment : Option Bytes) :
    Config.ofArguments args environment = (Seen.ofArguments args).settle.withEnvironment environment := by
  rw [Config.ofArguments, Seen.ofArguments, Seen.foldl_hear]

/-! ## Precedence -/

/-- The level that a verbosity asks for. -/
inductive VerbosityLevel : Nat → Level → Prop
  | one : VerbosityLevel 1 .info
  | two : VerbosityLevel 2 .debug
  | more {amount : Nat} (h : 3 ≤ amount) : VerbosityLevel amount .trace

/-- Which level is chosen. -/
inductive LevelChosen (args : List Bytes) (environment : Option Bytes) : Level → Prop
  /-- The last level that is given; -/
  | given {level : Level} (h : LastWord (Gives .level) args level) : LevelChosen args environment level
  /-- without any, that of the greatest verbosity; -/
  | verbosity {amount : Nat} {level : Level} (hlevel : Silent (Gives .level) args) (h : Greatest args amount)
      (hamount : VerbosityLevel amount level) : LevelChosen args environment level
  /-- without any and without a filter, that of the environment; -/
  | environment {level : Level} (hlevel : Silent (Gives .level) args) (hverbosity : Silent (Gives .verbosity) args)
      (hfilter : Silent (Gives .filter) args) (h : FromEnvironment environment (.level level)) :
      LevelChosen args environment level
  /-- and else warnings. -/
  | standard (hlevel : Silent (Gives .level) args) (hverbosity : Silent (Gives .verbosity) args)
      (h : ¬ (Silent (Gives .filter) args ∧ ∃ level, FromEnvironment environment (.level level))) :
      LevelChosen args environment .warn

/-- Which filter specification is chosen. -/
inductive FilterChosen (args : List Bytes) (environment : Option Bytes) : Bytes → Prop
  /-- The last one that is given; -/
  | given {spec : Bytes} (h : LastWord (Gives .filter) args spec) : FilterChosen args environment spec
  /-- without any and with nothing said of the level, that of the environment; -/
  | environment {spec : Bytes} (hfilter : Silent (Gives .filter) args) (hlevel : Silent (Gives .level) args)
      (hverbosity : Silent (Gives .verbosity) args) (h : FromEnvironment environment (.filter spec)) :
      FilterChosen args environment spec
  /-- and else none. -/
  | none (hfilter : Silent (Gives .filter) args)
      (h : ¬ (Silent (Gives .level) args ∧ Silent (Gives .verbosity) args ∧
        ∃ spec, FromEnvironment environment (.filter spec))) :
      FilterChosen args environment []

theorem levelOfVerbosity_eq {amount : Nat} {level : Level} (h : VerbosityLevel amount level) :
    Seen.levelOfVerbosity amount = level := by
  cases h with
  | one => rfl
  | two => rfl
  | more h => exact if_pos h

theorem exists_verbosityLevel {amount : Nat} (h : 0 < amount) : ∃ level, VerbosityLevel amount level := by
  match amount with
  | 1 => exact ⟨_, .one⟩
  | 2 => exact ⟨_, .two⟩
  | amount + 3 => exact ⟨_, .more (Nat.le_add_left 3 amount)⟩

theorem level_of_chosen {level : Level} (h : LevelChosen args environment level) :
    (Config.ofArguments args environment).level = level := by
  rw [Config.ofArguments_eq]
  cases h with
  | given h =>
      obtain ⟨hlevel, hgiven⟩ := Seen.level_of_lastWord h
      rw [Seen.settle_of_hasLevel hgiven, Seen.withEnvironment_of_given (.inl hgiven), hlevel]
  | verbosity hlevel h hamount =>
      rw [Seen.settle_of_verbosity (Seen.level_of_silent hlevel).2 (verbosity_pos_of_greatest h),
        Seen.withEnvironment_of_given (.inl rfl), verbosity_of_greatest h]
      exact levelOfVerbosity_eq hamount
  | environment hlevel hverbosity hfilter h =>
      rw [Seen.settle_of_not_verbose (verbosity_of_silent hverbosity),
        Seen.withEnvironment_of_said (Seen.level_of_silent hlevel).2 (Seen.filter_of_silent hfilter).2 h]
      rfl
  | standard hlevel hverbosity h =>
      rw [Seen.settle_of_not_verbose (verbosity_of_silent hverbosity)]
      rcases silent_or_lastWord (Gives .filter) args with hfilter | ⟨spec, hfilter⟩
      · rw [Seen.level_withEnvironment fun level hlevel => h ⟨hfilter, level, hlevel⟩]
        exact (Seen.level_of_silent hlevel).1
      · rw [Seen.withEnvironment_of_given (.inr (Seen.filter_of_lastWord hfilter).2)]
        exact (Seen.level_of_silent hlevel).1

theorem exists_levelChosen (args : List Bytes) (environment : Option Bytes) :
    ∃ level, LevelChosen args environment level := by
  rcases silent_or_lastWord (Gives .level) args with hlevel | ⟨level, hlevel⟩
  · rcases silent_or_greatest args with hverbosity | ⟨amount, hgreatest⟩
    · by_cases h : Silent (Gives .filter) args ∧ ∃ level, FromEnvironment environment (.level level)
      · obtain ⟨hfilter, level, h⟩ := h
        exact ⟨level, .environment hlevel hverbosity hfilter h⟩
      · exact ⟨.warn, .standard hlevel hverbosity h⟩
    · obtain ⟨arg, -, hgives⟩ := hgreatest.1
      obtain ⟨level, hamount⟩ := exists_verbosityLevel (pos_of_gives_verbosity hgives)
      exact ⟨level, .verbosity hlevel hgreatest hamount⟩
  · exact ⟨level, .given hlevel⟩

/-- **The level that is configured is the one that is chosen.** -/
theorem levelChosen_iff {level : Level} :
    LevelChosen args environment level ↔ (Config.ofArguments args environment).level = level :=
  iff_eq_of_exists (fun _ => level_of_chosen) (exists_levelChosen args environment)

theorem filterSpec_of_chosen {spec : Bytes} (h : FilterChosen args environment spec) :
    (Config.ofArguments args environment).filterSpec = spec := by
  rw [Config.ofArguments_eq]
  obtain ⟨hspec, hgiven⟩ := Seen.filter_settle (Seen.ofArguments args)
  cases h with
  | given h =>
      rw [Seen.withEnvironment_of_given (.inr (hgiven.trans (Seen.filter_of_lastWord h).2)), hspec]
      exact (Seen.filter_of_lastWord h).1
  | environment hfilter hlevel hverbosity h =>
      rw [Seen.settle_of_not_verbose (verbosity_of_silent hverbosity),
        Seen.withEnvironment_of_said (Seen.level_of_silent hlevel).2 (Seen.filter_of_silent hfilter).2 h]
      rfl
  | none hfilter h =>
      have hempty := hspec.trans (Seen.filter_of_silent hfilter).1
      by_cases hsilent : Silent (Gives .level) args ∧ Silent (Gives .verbosity) args
      · rw [Seen.filterSpec_withEnvironment fun spec hsaid => h ⟨hsilent.1, hsilent.2, spec, hsaid⟩, hempty]
      · rw [Seen.withEnvironment_of_given (.inl (Seen.hasLevel_settle hsilent)), hempty]

theorem exists_filterChosen (args : List Bytes) (environment : Option Bytes) :
    ∃ spec, FilterChosen args environment spec := by
  rcases silent_or_lastWord (Gives .filter) args with hfilter | ⟨spec, hfilter⟩
  · by_cases h : Silent (Gives .level) args ∧ Silent (Gives .verbosity) args ∧
        ∃ spec, FromEnvironment environment (.filter spec)
    · obtain ⟨hlevel, hverbosity, spec, h⟩ := h
      exact ⟨spec, .environment hfilter hlevel hverbosity h⟩
    · exact ⟨[], .none hfilter h⟩
  · exact ⟨spec, .given hfilter⟩

/-- **The filter that is configured is the one that is chosen.** -/
theorem filterChosen_iff {spec : Bytes} :
    FilterChosen args environment spec ↔ (Config.ofArguments args environment).filterSpec = spec :=
  iff_eq_of_exists (fun _ => filterSpec_of_chosen) (exists_filterChosen args environment)

/-! ## Other orders -/

/-- Arguments that give a level, `-q` and `--quiet` included. -/
def givesLevel (arg : Bytes) : Bool :=
  (ascii "--log-level=").isPrefixOf arg || arg == ascii "-q" || arg == ascii "--quiet"

/-- The same arguments in another order, which keeps the order of those that give a level, of those that give a filter,
a file or a format. All others, verbosity among them, are where they like. -/
structure SameOrder (args args' : List Bytes) : Prop where
  perm : args'.Perm args
  level : args'.filter givesLevel = args.filter givesLevel
  filter : args'.filter (ascii "--log-filter=").isPrefixOf = args.filter (ascii "--log-filter=").isPrefixOf
  file : args'.filter (ascii "--log-file=").isPrefixOf = args.filter (ascii "--log-file=").isPrefixOf
  format : args'.filter (ascii "--log-format=").isPrefixOf = args.filter (ascii "--log-format=").isPrefixOf

namespace Seen

/-- A field is left the same by arguments of which those of its kind are the same in order. -/
theorem field_congr {β γ : Type} {kind : β → LogOption} {field : Seen → γ} {speaks : Bytes → Bool} (left : β → γ)
    (h : SetBy kind field) (sets : ∀ s value, field (take s (kind value)) = left value)
    (hspeaks : ∀ arg value, Gives kind arg value → speaks arg = true) (heq : args'.filter speaks = args.filter speaks) :
    field (ofArguments args') = field (ofArguments args) := by
  rcases silent_or_lastWord (Gives kind) args with hsilent | ⟨value, hlast⟩
  · have hsilent' : Silent (Gives kind) args' := by
      rw [← silent_filter_iff hspeaks, heq]
      exact (silent_filter_iff hspeaks).mpr hsilent
    rw [field_of_silent h hsilent, field_of_silent h hsilent']
  · have hlast' : LastWord (Gives kind) args' value := by
      rw [← lastWord_filter_iff hspeaks, heq]
      exact (lastWord_filter_iff hspeaks).mpr hlast
    rw [field_of_lastWord left h sets hlast, field_of_lastWord left h sets hlast']

/-- Neither the console nor its colours are up to the arguments. -/
theorem console_ofArguments (args : List Bytes) :
    ((ofArguments args).config.console, (ofArguments args).config.colors) = (true, true) := by
  have hkeeps : SetBy Empty.elim fun s => (s.config.console, s.config.colors) := by
    intro s option _
    cases option <;> rfl
  exact field_of_silent hkeeps fun _ _ value => value.elim

/-- Verbosity is the same for all orders. -/
theorem verbosity_perm (h : args'.Perm args) : (ofArguments args').verbosity = (ofArguments args).verbosity := by
  have hle : ∀ n, (ofArguments args').verbosity ≤ n ↔ (ofArguments args).verbosity ≤ n := by
    intro n
    simp only [verbosity_le_iff, h.mem_iff]
  exact Nat.le_antisymm ((hle _).mpr (Nat.le_refl _)) ((hle _).mp (Nat.le_refl _))

end Seen

theorem givesLevel_of_gives {arg : Bytes} {level : Level} (h : Gives .level arg level) : givesLevel arg = true := by
  cases h with
  | level => rfl
  | quiet h => rcases h with rfl | rfl <;> rfl

theorem prefix_of_gives_filter {arg spec : Bytes} (h : Gives .filter arg spec) :
    (ascii "--log-filter=").isPrefixOf arg = true := by
  cases h
  rfl

theorem prefix_of_gives_file {arg path : Bytes} (h : Gives .file arg path) :
    (ascii "--log-file=").isPrefixOf arg = true := by
  cases h
  rfl

theorem prefix_of_gives_format {arg : Bytes} {format : Format} (h : Gives .format arg format) :
    (ascii "--log-format=").isPrefixOf arg = true := by
  cases h
  rfl

/-- **What has been seen is the same for all orders** that keep those within each kind. -/
theorem Seen.ofArguments_congr (h : SameOrder args args') : ofArguments args' = ofArguments args := by
  have hlevel := field_congr (fun level => (level, true)) setBy_level (fun _ _ => rfl)
    (fun _ _ => givesLevel_of_gives) h.level
  have hfilter := field_congr (fun spec => (spec, true)) setBy_filter (fun _ _ => rfl)
    (fun _ _ => prefix_of_gives_filter) h.filter
  have hfile := field_congr id setBy_file (fun _ _ => rfl) (fun _ _ => prefix_of_gives_file) h.file
  have hformat := field_congr id setBy_format (fun _ _ => rfl) (fun _ _ => prefix_of_gives_format) h.format
  have hverbosity := verbosity_perm h.perm
  have hconsole := (console_ofArguments args').trans (console_ofArguments args).symm
  generalize ofArguments args' = s' at hlevel hfilter hfile hformat hverbosity hconsole ⊢
  generalize ofArguments args = s at hlevel hfilter hfile hformat hverbosity hconsole ⊢
  obtain ⟨⟨level', format', spec', file', console', colors'⟩, hasLevel', hasFilter', verbosity'⟩ := s'
  obtain ⟨⟨level, format, spec, file, console, colors⟩, hasLevel, hasFilter, verbosity⟩ := s
  simp only [Prod.mk.injEq] at hlevel hfilter hfile hformat hverbosity hconsole
  simp only [hlevel, hfilter, hfile, hformat, hverbosity, hconsole]

/-- **The configuration goes by precedence.** The level is the last that is given, else that of the greatest verbosity,
else that of the environment; the filter is the last that is given, else that of the environment if nothing is said of
the level. Another order of the arguments changes nothing as long as the order within each kind is kept. -/
theorem configured_by_precedence (args : List Bytes) (environment : Option Bytes) :
    (∀ level, LevelChosen args environment level ↔ (Config.ofArguments args environment).level = level) ∧
      (∀ spec, FilterChosen args environment spec ↔ (Config.ofArguments args environment).filterSpec = spec) ∧
      ∀ args', SameOrder args args' → Config.ofArguments args' environment = Config.ofArguments args environment := by
  refine ⟨fun level => levelChosen_iff, fun spec => filterChosen_iff, fun args' h => ?_⟩
  rw [Config.ofArguments_eq, Config.ofArguments_eq, Seen.ofArguments_congr h]

/-- The last of two levels counts, before a verbosity and an environment that are of no account, and the flags, the path
and the filter between them may stand where they like. -/
theorem configured_by_precedence_sample :
    LevelChosen (["m.ko", "--log-level=info", "-vvv", "--log-filter=elf=debug", "-q"].map ascii)
        (some (ascii "trace")) .error ∧
      FilterChosen (["m.ko", "--log-level=info", "-vvv", "--log-filter=elf=debug", "-q"].map ascii)
        (some (ascii "trace")) (ascii "elf=debug") ∧
      Config.ofArguments (["--log-filter=elf=debug", "--log-level=info", "-q", "m.ko", "-vvv"].map ascii)
          (some (ascii "trace")) =
        Config.ofArguments (["m.ko", "--log-level=info", "-vvv", "--log-filter=elf=debug", "-q"].map ascii)
          (some (ascii "trace")) := by
  obtain ⟨hlevel, hfilter, horder⟩ :=
    configured_by_precedence (["m.ko", "--log-level=info", "-vvv", "--log-filter=elf=debug", "-q"].map ascii)
      (some (ascii "trace"))
  refine ⟨(hlevel .error).mpr rfl, (hfilter (ascii "elf=debug")).mpr rfl, horder _ ?_⟩
  exact ⟨by decide, by decide, by decide, by decide, by decide⟩

end ModRepair.Log
